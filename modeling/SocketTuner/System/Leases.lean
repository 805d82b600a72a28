import SocketTuner.System.Model

/-!
# Who holds which agent

The system watched from outside (`Watched`): for each agent, the client whose `Reset` locked it
last, and which clients hold which agents. A client holds an agent from the moment the router
answers its `Reset` with it until it sends a `Close` for it, gets `done`, or the cleanup reclaims
the agent from it.

The router checks no owner: `FreeAgent` releases an address whoever sent it. With a client that
sends a `Close` twice, a lease can end under its holder (`late_close_frees_other`).

`lease_exclusion` is what holds: in a run in which each release meets its owner or nobody
(`ReleasesOwn`), no agent is assigned while another client holds it. The invariant (`OwnerInv`)
counts as an owner also the request that locked an agent and has not answered yet.
-/

namespace SocketTuner.System

open Env Router GoMap

/-! ## Ghost state -/

/-- The agent a command locked. -/
def lockOf : RouterEvent → Option Addr
  | ⟨.pool .lockFreeAgent, r⟩ =>
    match (r : Except String AgentClient) with
    | .ok ac => some ac.addr
    | .error _ => none
  | _ => none

namespace SysEvent

/-- The agent locked, with the client whose `Reset` locked it. -/
def locks : SysEvent → Option (ClientId × Addr)
  | .exec _ a e => (lockOf e).map fun x => (a, x)
  | _ => none

/-- The agent a `Reset` of a client is answered with. -/
def grants : SysEvent → Option (ClientId × Addr)
  | .answered _ a (.reset _) res =>
    match (res : Handled ResetResponse) with
    | .ok resp => if resp.success then some (a, resp.sessionId) else none
    | .fail _ _ => none
  | _ => none

/-- A `Close` sent, or `done` returned. -/
def givesUp : SysEvent → Option (ClientId × Addr)
  | .sent a (.close req) => some (a, req.sessionId)
  | .returned a (.ok (some obs)) => if obs.done then some (a, obs.sessionId) else none
  | _ => none

/-- Is the event a cleanup that ends the lease of `x`? -/
def reclaims (e : SysEvent) (p p' : Pool) (x : Addr) : Bool :=
  match e.poolEvent with
  | some ⟨.cleanupStaleAgents _, _⟩ => decide (p.Leased x ∧ ¬p'.Leased x)
  | _ => false

theorem poolEvent_of_grants {e : SysEvent} {g : ClientId × Addr} (h : e.grants = some g) :
    e.poolEvent = none := by
  cases e <;> first | rfl | cases h

end SysEvent

/-- The system, with what the clients may take for theirs. -/
structure Watched where
  sys : Sys
  /-- The client whose `Reset` locked the agent last. -/
  lastLock : Addr → Option ClientId
  holds : ClientId → Addr → Bool

namespace Watched

/-- The router's pool. -/
def pool (w : Watched) : Pool := w.sys.router.pool

/-- Nobody has locked or holds anything. -/
def init : Watched := { sys := .init, lastLock := fun _ => none, holds := fun _ _ => false }

/-- The ghost state after an event that leads to `sys`. -/
def watch (w : Watched) (e : SysEvent) (sys : Sys) : Watched where
  sys := sys
  lastLock x :=
    match e.locks with
    | some (a, y) => if x = y then some a else w.lastLock x
    | none => w.lastLock x
  holds a x :=
    if e.grants = some (a, x) then true
    else if e.givesUp = some (a, x) then false
    else if e.reclaims w.pool sys.router.pool x ∧ w.lastLock x = some a then false
    else w.holds a x

/-- A step of the system, watched. -/
def step (cfg : EnvConfig) (w : Watched) (act : Action) : Option (SysEvent × Watched) :=
  (w.sys.step cfg act).map fun (e, sys) => (e, w.watch e sys)

end Watched

/-- The steps of the watched system. -/
abbrev WatchedStep (cfg : EnvConfig) := Lts.Acts (Watched.step cfg)

/-- A step with the states around it. -/
abbrev WatchedTrans := Lts.Trans Watched SysEvent

theorem WatchedStep.cases {cfg : EnvConfig} {w w' : Watched} {e : SysEvent}
    (h : WatchedStep cfg w e w') :
    RouterStep w.sys.router e w'.sys.router ∧ w' = w.watch e w'.sys := by
  obtain ⟨act, h⟩ := h
  obtain ⟨⟨e', sys⟩, hs, heq⟩ := Option.map_eq_some_iff.1 h
  cases heq
  exact ⟨Sys.step_router hs, rfl⟩

/-! ## Leases along a step -/

/-- The step releases `x`. -/
def Releases (x : Addr) (t : WatchedTrans) : Prop :=
  ∃ pe, t.lab.poolEvent = some pe ∧ EndsLease x ⟨t.src.pool, pe, t.dst.pool⟩

section

variable {cfg : EnvConfig} {w w' : Watched} {e : SysEvent} {x : Addr}

/-- Only a release ends a lease. -/
theorem WatchedStep.leased (h : WatchedStep cfg w e w') (hi : RouterInv w.sys.router)
    (hl : w.pool.Leased x) (hr : ¬Releases x ⟨w, e, w'⟩) : w'.pool.Leased x := by
  rcases h.cases.1.pool with ⟨-, heq⟩ | ⟨pe, hpe, hp⟩
  · unfold Watched.pool at hl ⊢
    rw [heq]
    exact hl
  · rw [Pool.leased_iff] at hl ⊢
    exact (hp.refines hi.pool).held hl fun hrel => hr ⟨pe, hpe, endsLease_of_releases hrel⟩

/-- A lock finds its agent free and leaves it leased. -/
theorem WatchedStep.locked (h : WatchedStep cfg w e w') (hi : RouterInv w.sys.router)
    {a : ClientId} (hl : e.locks = some (a, x)) : ¬w.pool.Leased x ∧ w'.pool.Leased x := by
  cases e with
  | exec id b ev =>
    obtain ⟨x', hx', heq⟩ := Option.map_eq_some_iff.1 hl
    cases heq
    obtain ⟨c, r⟩ := ev
    unfold lockOf at hx'
    split at hx'
    · next r' hev =>
      cases hev
      split at hx'
      · next ac =>
        cases hx'
        rcases h.cases.1.pool with ⟨hnone, -⟩ | ⟨pe, hpe, o, hr, hexec⟩
        · cases hnone
        · cases hpe
          obtain ⟨hidle, htable⟩ := Pool.table_lockFreeAgent hi.pool hexec
          rw [Pool.leased_iff, Pool.leased_iff]
          unfold Watched.pool
          rw [hidle, htable]
          simp
      · cases hx'
    · cases hx'
  | invoked | sent | failed | answered | returned | background => cases hl

/-- The last client to lock a leased agent stays the last while it is leased. -/
theorem WatchedStep.lastLock (h : WatchedStep cfg w e w') (hi : RouterInv w.sys.router)
    (hl : w.pool.Leased x) : w'.lastLock x = w.lastLock x := by
  have hw := congrArg (fun v => Watched.lastLock v x) h.cases.2
  simp only [Watched.watch] at hw
  rw [hw]
  split
  · next a y hlock =>
    split
    · next hxy =>
      subst hxy
      exact absurd hl (h.locked hi hlock).1
    · rfl
  · rfl

end

/-! ## Owners -/

/-- A `FreeAgent` command. -/
def freeEvent (x : Addr) : RouterEvent := ⟨.pool (.freeAgent x), ()⟩

/-- The agent a handler has locked and not freed, after one more command. -/
def track (o : Option Addr) : RouterEvent → Option Addr
  | ⟨.pool .lockFreeAgent, r⟩ =>
    match (r : Except String AgentClient) with
    | .ok ac => some ac.addr
    | .error _ => o
  | ⟨.pool (.freeAgent _), _⟩ => none
  | _ => o

/-- The agent a handler has locked and not freed, after the commands of its log. -/
def lockedBy (log : List RouterEvent) : Option Addr := log.foldl track none

theorem lockedBy_snoc (log : List RouterEvent) (e : RouterEvent) :
    lockedBy (log ++ [e]) = track (lockedBy log) e := by simp [lockedBy]

theorem track_eq_some {o : Option Addr} {e : RouterEvent} {x : Addr} (h : track o e = some x) :
    lockOf e = some x ∨ (o = some x ∧ ∀ y, e ≠ freeEvent y) := by
  unfold track at h
  split at h
  · split at h
    · exact .inl h
    · exact .inr ⟨h, fun y he => by cases he⟩
  · cases h
  · next hfree => exact .inr ⟨h, fun y he => hfree y () he⟩

/-- A `Reset` that answers has locked the agent it answers with. -/
theorem lockedBy_of_reset {req : ResetRequest} {log : List RouterEvent} {resp : ResetResponse}
    (h : Prog.After (Router.Server.reset req) log (.ret (.ok resp))) :
    lockedBy log = some resp.sessionId := by
  obtain ⟨r, log₁, rfl, h₁⟩ := Prog.after_op_ret_iff.1 h
  cases r with
  | error err => cases (Prog.after_ret_iff.1 h₁).2
  | ok agent =>
    obtain ⟨_, log₂, rfl, h₂⟩ := Prog.after_op_ret_iff.1 h₁
    obtain ⟨r', log₃, rfl, h₃⟩ := Prog.after_op_ret_iff.1 h₂
    cases r' with
    | error err =>
      obtain ⟨_, log₄, rfl, h₄⟩ := Prog.after_op_ret_iff.1 h₃
      cases (Prog.after_ret_iff.1 h₄).2
    | ok resp' =>
      obtain ⟨rfl, he⟩ := Prog.after_ret_iff.1 h₃
      cases he
      rfl

/-- The handler that answers with an agent has locked it. -/
theorem lockedBy_of_grants {rpc : Rpc} {log : List RouterEvent} {res : Handled rpc.Resp}
    {h : HandlerId} {a b : ClientId} {x : Addr} (hafter : Prog.After (handle rpc) log (.ret res))
    (hg : (SysEvent.answered h a rpc res).grants = some (b, x)) :
    a = b ∧ lockedBy log = some x := by
  cases rpc with
  | step | close => cases hg
  | reset req =>
    cases res with
    | fail => cases hg
    | ok resp =>
      simp only [SysEvent.grants] at hg
      split at hg
      · cases hg
        exact ⟨rfl, lockedBy_of_reset hafter⟩
      · cases hg

/-- What can own an agent: a client that holds it, or a request that locked it. -/
inductive Party
  | client (a : ClientId)
  | request (h : HandlerId)
  deriving DecidableEq

/-- The party owns the agent, for the client. -/
inductive Owns (w : Watched) : Party → ClientId → Addr → Prop
  | client {a : ClientId} {x : Addr} (hx : w.holds a x = true) : Owns w (.client a) a x
  | request {h : HandlerId} {hd : Handler} {x : Addr} (hh : w.sys.router.handlers h = some hd)
      (hx : lockedBy hd.log = some x) : Owns w (.request h) hd.client x

/-- A release of an agent meets no owner but the request that releases it, and a cleanup meets no
request in flight. -/
structure ReleasesOwn (t : WatchedTrans) : Prop where
  free : ∀ h a x, t.lab = .exec h a (freeEvent x) → ∀ q b, Owns t.src q b x → q = .request h
  reclaim : ∀ x, t.lab.reclaims t.src.pool t.dst.pool x = true →
    ∀ h b, ¬Owns t.src (.request h) b x

/-- Every owned agent is leased, last locked for its owner's client, and owned once. -/
structure OwnerInv (w : Watched) : Prop where
  router : RouterInv w.sys.router
  leased : ∀ {q a x}, Owns w q a x → w.pool.Leased x
  lastLock : ∀ {q a x}, Owns w q a x → w.lastLock x = some a
  unique : ∀ {q q' a a' x}, Owns w q a x → Owns w q' a' x → q = q'

theorem not_owns_init {q : Party} {a : ClientId} {x : Addr} : ¬Owns .init q a x := by
  intro h
  cases h with
  | client hx => cases hx
  | request hh _ => cases hh

theorem ownerInv_init : OwnerInv .init where
  router := routerInv_init
  leased h := absurd h not_owns_init
  lastLock h := absurd h not_owns_init
  unique h := absurd h not_owns_init

section

variable {cfg : EnvConfig} {w w' : Watched} {e : SysEvent} {q : Party} {a : ClientId} {x : Addr}

/-- The answer that grants an agent comes from a request that locked it. -/
theorem RouterStep.granted {r r' : RouterState} (h : RouterStep r e r') (hi : RouterInv r)
    (hg : e.grants = some (a, x)) :
    ∃ id hd, e.handler = some id ∧ r.handlers id = some hd ∧ hd.client = a ∧
      lockedBy hd.log = some x := by
  cases h with
  | stay he => cases e <;> first | exact he.elim | cases hg
  | accept | exec | background => cases hg
  | @answer id hd res hh hp =>
    have hafter := hi.after id hd hh
    rw [hp] at hafter
    exact ⟨id, hd, rfl, hh, lockedBy_of_grants hafter hg⟩

/-- The party owned the agent before the step, and the step did not end that. -/
structure Kept (w : Watched) (e : SysEvent) (w' : Watched) (q : Party) (a : ClientId) (x : Addr) :
    Prop where
  owned : Owns w q a x
  free : ∀ id b y, e = .exec id b (freeEvent y) → q ≠ .request id
  reclaim : e.reclaims w.pool w'.pool x = true → w.lastLock x = some a → q ≠ .client a
  grant : e.grants ≠ none → ∀ id, e.handler = some id → q ≠ .request id

/-- Where an owner comes from: it kept the agent, it is a request that just locked it, or a client
to which the request that owned it granted it. -/
theorem WatchedStep.owns (h : WatchedStep cfg w e w') (hi : RouterInv w.sys.router)
    (ho : Owns w' q a x) :
    Kept w e w' q a x ∨
      (∃ id, q = .request id ∧ e.handler = some id ∧ e.locks = some (a, x)) ∨
      ∃ id, q = .client a ∧ e.handler = some id ∧ e.grants = some (a, x) ∧
        Owns w (.request id) a x := by
  obtain ⟨hs, hw⟩ := h.cases
  cases ho with
  | client hx =>
    have hheld := congrArg (fun v => Watched.holds v a x) hw
    simp only [hx, Watched.watch] at hheld
    split at hheld
    · next hg =>
      obtain ⟨id, hd, hid, hh, rfl, hlock⟩ := hs.granted hi hg
      exact .inr (.inr ⟨id, rfl, hid, hg, .request hh hlock⟩)
    · split at hheld
      · cases hheld
      · split at hheld
        · cases hheld
        · next hrec =>
          exact .inl
            { owned := .client hheld.symm
              free := fun _ _ _ _ => by simp
              reclaim := fun hr hl => absurd ⟨hr, hl⟩ hrec
              grant := fun _ _ _ => by simp }
  | @request id hd' _ hh hx =>
    rcases hs.handler hh with ⟨hold, hne⟩ | ⟨b, rpc, -, rfl⟩ | ⟨hd, c, k, res, hold, -, rfl, rfl⟩
    · refine .inl ⟨.request hold hx, ?_, fun _ _ => by simp, ?_⟩
      · rintro id' b y rfl hq
        cases hq
        exact hne rfl
      · rintro - id' hid hq
        cases hq
        exact hne hid
    · cases hx
    · rw [lockedBy_snoc] at hx
      rcases track_eq_some hx with hlock | ⟨hlog, hfree⟩
      · exact .inr (.inl ⟨id, rfl, rfl, by simp [SysEvent.locks, hlock]⟩)
      · have hown : Owns w (.request id) hd.client x := .request hold hlog
        refine .inl ⟨hown, ?_, fun _ _ => by simp, fun hg => absurd rfl hg⟩
        rintro id' b y he -
        cases he
        exact hfree y rfl

/-- A kept agent stays leased if releases meet their owners. -/
theorem OwnerInv.kept_leased (hi : OwnerInv w) (h : WatchedStep cfg w e w')
    (ht : ReleasesOwn ⟨w, e, w'⟩) (hk : Kept w e w' q a x) : w'.pool.Leased x := by
  refine h.leased hi.router (hi.leased hk.owned) ?_
  rintro ⟨pe, hpe, hends⟩
  rcases hends with hfree | ⟨timeout, hclean, hl, hnl⟩
  · -- a handler frees `x`, so it is the owner, but then it does not keep it
    simp only at hpe hfree
    subst hfree
    cases e with
    | exec id b ev =>
      obtain ⟨c, r⟩ := ev
      cases c with
      | pool c =>
        cases hpe
        exact hk.free id b x rfl (ht.free id b x rfl q a hk.owned)
      | agentReset | agentStep => cases hpe
    | background pe =>
      cases hpe
      cases h.cases.1.isBackground
    | invoked | sent | failed | answered | returned => cases hpe
  · have hrec : e.reclaims w.pool w'.pool x = true := by
      simp only at hpe hclean
      subst hclean
      simp only [SysEvent.reclaims, hpe]
      exact decide_eq_true ⟨hl, hnl⟩
    have howned := hk.owned
    cases howned with
    | client hx => exact hk.reclaim hrec (hi.lastLock (.client hx)) rfl
    | @request id hd _ hh hx => exact ht.reclaim x hrec id _ (.request hh hx)

theorem OwnerInv.step (hi : OwnerInv w) (h : WatchedStep cfg w e w')
    (ht : ReleasesOwn ⟨w, e, w'⟩) : OwnerInv w' where
  router := hi.router.step h.cases.1
  leased ho := by
    rcases h.owns hi.router ho with hk | ⟨id, -, -, hlock⟩ | ⟨id, -, -, hg, hown⟩
    · exact hi.kept_leased h ht hk
    · exact (h.locked hi.router hlock).2
    · refine h.leased hi.router (hi.leased hown) ?_
      rintro ⟨pe, hpe, -⟩
      exact absurd hpe (by simp [SysEvent.poolEvent_of_grants hg])
  lastLock ho := by
    rcases h.owns hi.router ho with hk | ⟨id, -, -, hlock⟩ | ⟨id, -, -, -, hown⟩
    · rw [h.lastLock hi.router (hi.leased hk.owned)]
      exact hi.lastLock hk.owned
    · rw [h.cases.2]
      simp [Watched.watch, hlock]
    · rw [h.lastLock hi.router (hi.leased hown)]
      exact hi.lastLock hown
  unique ho ho' := by
    rcases h.owns hi.router ho with hk | ⟨id, rfl, hid, hlock⟩ | ⟨id, rfl, hid, hg, hown⟩ <;>
    rcases h.owns hi.router ho' with hk' | ⟨id', rfl, hid', hlock'⟩ | ⟨id', rfl, hid', hg', hown'⟩
    · exact hi.unique hk.owned hk'.owned
    · exact absurd (hi.leased hk.owned) (h.locked hi.router hlock').1
    · have := hi.unique hk.owned hown'
      exact absurd this (hk.grant (by simp [hg']) id' hid')
    · exact absurd (hi.leased hk'.owned) (h.locked hi.router hlock).1
    · rw [hid] at hid'
      cases hid'
      rfl
    · exact absurd (hi.leased hown') (h.locked hi.router hlock).1
    · have := hi.unique hk'.owned hown
      exact absurd this (hk'.grant (by simp [hg]) id hid)
    · exact absurd (hi.leased hown) (h.locked hi.router hlock').1
    · rw [hg] at hg'
      cases hg'
      rfl

end

/-! ## Exclusion -/

/-- The router assigns the agent to a `Reset` of the client: it locks the agent for it, or answers
it with the agent. -/
def Assigns (e : SysEvent) (b : ClientId) (x : Addr) : Prop :=
  e.locks = some (b, x) ∨ e.grants = some (b, x)

/-- No agent is assigned to a client while another one holds it. -/
def Exclusive (t : WatchedTrans) : Prop :=
  ∀ a b x, Assigns t.lab b x → a ≠ b → t.src.holds a x = false

theorem OwnerInv.exclusive {cfg : EnvConfig} {t : WatchedTrans} (hi : OwnerInv t.src)
    (h : WatchedStep cfg t.src t.lab t.dst) : Exclusive t := by
  rintro a b x hassign -
  by_contra hheld
  have hown : Owns t.src (.client a) a x := .client (by simpa using hheld)
  rcases hassign with hlock | hg
  · exact (h.locked hi.router hlock).1 (hi.leased hown)
  · obtain ⟨id, hd, -, hh, -, hlock⟩ := h.cases.1.granted hi.router hg
    cases hi.unique hown (.request hh hlock)

/-- **Mutual exclusion of leases.** In every run of any clients against the router in which each
release meets its owner or nobody, no agent is assigned to a client while another one holds it. -/
theorem lease_exclusion {cfg : EnvConfig} {tr : List WatchedTrans} {w : Watched}
    (h : Lts.Run (WatchedStep cfg) .init tr w) (ht : ∀ t ∈ tr, ReleasesOwn t) :
    ∀ t ∈ tr, Exclusive t := by
  have hinv := (h.restrict ht).invariant_mem (I := OwnerInv)
    (fun _ _ _ hi hs => hi.step hs.1 hs.2) ownerInv_init
  intro t hmem
  exact (hinv t hmem).1.exclusive (h.step_of_mem t hmem)

/-! ## Runs with one agent -/

/-- An event that neither frees an agent nor cleans up. -/
def SysEvent.calm (e : SysEvent) : Bool :=
  match e.poolEvent with
  | some ⟨.freeAgent _, _⟩ | some ⟨.cleanupStaleAgents _, _⟩ => false
  | _ => true

theorem releasesOwn_of_calm {t : WatchedTrans} (h : t.lab.calm = true) : ReleasesOwn t where
  free _ _ _ hlab := by rw [hlab] at h; cases h
  reclaim x hr := by
    unfold SysEvent.reclaims at hr
    unfold SysEvent.calm at h
    split at hr
    · next hpe => rw [hpe] at h; cases h
    · cases hr

/-- The address of the only agent. -/
def loneAgent : Addr := "10.0.0.7:50051"

/-- The agent answers every call; it has no record of the baseline. -/
def answering : Choice :=
  { pool := { order := [loneAgent] }
    reset := .ok { success := true }
    step := .ok { observation := some {} } }

/-- The watcher adds it. -/
def addLoneAgent : Action := .background (.addAgent loneAgent) {}

/-- Client `a` leases the agent, served by handler `h`. -/
def leaseActs (a : ClientId) (h : HandlerId) : List Action :=
  [.invoke a .reset, .send a h, .exec h answering, .exec h answering, .exec h answering,
   .answer h true, .finish a]

/-- Client `a` sends a step, which handler `h` forwards to the agent. -/
def forwardActs (a : ClientId) (h : HandlerId) : List Action :=
  [.invoke a (.step {}), .send a h, .exec h answering, .exec h answering, .exec h answering]

/-- The step ends the episode, and handler `h'` is sent its `Close`. -/
def doneActs (a : ClientId) (h h' : HandlerId) : List Action := [.answer h true, .send a h']

/-- The `Close` frees the agent and `step` returns. -/
def freedActs (a : ClientId) (h' : HandlerId) : List Action :=
  [.exec h' answering, .answer h' true, .finish a]

/-- The environment runs with `MAX_STEPS=1`. -/
def singleStep : EnvConfig := { maxSteps := 1 }

/-- Play actions from a state. -/
def play (w : Watched) (l : List Action) : List WatchedTrans × Watched :=
  Lts.played (Watched.step singleStep) w l

/-- Client 0 has leased the agent and its `Close` is at the router. -/
def closing : List WatchedTrans × Watched :=
  play .init (addLoneAgent :: leaseActs 0 0 ++ [.invoke 0 .close, .send 0 1])

/-- The agent is freed. -/
def closed : List WatchedTrans × Watched := play closing.2 [.exec 1 answering]

/-- Client 1 leases it. -/
def reopened : List WatchedTrans × Watched := play closed.2 (leaseActs 1 2)

/-- The steps of the three together. -/
def reopenedTrace : List WatchedTrans := closing.1 ++ (closed.1 ++ reopened.1)

theorem run_reopened : Lts.Run (WatchedStep singleStep) .init reopenedTrace reopened.2 :=
  (Lts.run_played rfl).append
    ((Lts.run_played rfl).append (Lts.run_played rfl))

theorem closing_holds : ∀ a, closing.2.holds a loneAgent = false
  | 0 => by decide +kernel
  | _ + 1 => rfl

theorem closing_unowned {q : Party} {b : ClientId} : ¬Owns closing.2 q b loneAgent := by
  intro ho
  cases ho with
  | client hx => rw [closing_holds] at hx; cases hx
  | @request h hd _ hh hx =>
    match h, hh with
    | 1, hh => cases hh; cases hx

theorem reopened_releasesOwn : ∀ t ∈ reopenedTrace, ReleasesOwn t := by
  have hcalm : ∀ l : List WatchedTrans,
      (l.all fun t => t.lab.calm) = true → ∀ t ∈ l, ReleasesOwn t :=
    fun l hl t ht => releasesOwn_of_calm (List.all_eq_true.1 hl t ht)
  intro t ht
  rcases List.mem_append.1 ht with ht | ht
  · exact hcalm closing.1 (by decide +kernel) t ht
  rcases List.mem_append.1 ht with ht | ht
  · cases List.mem_singleton.1 ht
    refine ⟨fun h a x hlab q b ho => ?_, fun x hr => by cases hr⟩
    cases hlab
    exact absurd ho closing_unowned
  · exact hcalm reopened.1 (by decide +kernel) t ht

theorem lease_exclusion_reopened :
    (∀ t ∈ reopenedTrace, ReleasesOwn t) ∧ (∃ t ∈ reopenedTrace, Assigns t.lab 1 loneAgent) ∧
      ∀ t ∈ reopenedTrace, Exclusive t := by
  refine ⟨reopened_releasesOwn, ?_, lease_exclusion run_reopened reopened_releasesOwn⟩
  have hmem : reopened.1.get ⟨2, by decide +kernel⟩ ∈ reopened.1 := List.get_mem ..
  exact ⟨_, List.mem_append_right _ (List.mem_append_right _ hmem), .inl rfl⟩

/-- Client 0 leases the agent, ends its episode and with it the lease. Client 1 leases the agent.
Client 0 closes, which frees it, and client 2 leases it. -/
def lateClose : List WatchedTrans × Watched :=
  play .init (addLoneAgent :: leaseActs 0 0 ++ forwardActs 0 1 ++ doneActs 0 1 2 ++ freedActs 0 2 ++
    leaseActs 1 3 ++ [.invoke 0 .close, .send 0 4, .exec 4 answering] ++
    [.invoke 2 .reset, .send 2 5, .exec 5 answering])

/-- A second `Close` of one client ends the lease of another. -/
theorem late_close_frees_other :
    Lts.Run (WatchedStep singleStep) .init lateClose.1 lateClose.2 ∧
      ¬∀ t ∈ lateClose.1, Exclusive t := by
  refine ⟨Lts.run_played rfl, fun h => ?_⟩
  have hlast := h _ (List.getLast_mem (show lateClose.1 ≠ [] by decide +kernel))
  have hheld := hlast 1 2 loneAgent (.inl rfl) (by decide)
  exact absurd hheld (by decide +kernel)

end SocketTuner.System
