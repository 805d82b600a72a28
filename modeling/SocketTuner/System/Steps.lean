import SocketTuner.System.Leases

/-!
# Which steps reach an agent

The router forwards a `Step` to the agent whose address is its session id. `GetAgentBySession`
looks only at the map, and `step` keeps the session id of an episode that is done, so a `Step` can
reach an agent that is idle or leased by someone else (`stale_step_forwarded`).

`steps_reach_holder` is what holds: in a run in which every `Step` is sent under the sender's lease
and no release overtakes it, each forwarded `Step` finds its agent busy and leased last by the
client that sent it. The invariant (`StepInv`) says so of every `Step` that waits at the router.
-/

namespace SocketTuner.System

open Env Router GoMap

/-- A call of an agent's `Step`. -/
def IsForward : RouterEvent → Bool
  | ⟨.agentStep _ _, _⟩ => true
  | _ => false

/-- Only the handler of a `Step` forwards it, once, to the agent its lookup found. -/
theorem handle_forward {rpc : Rpc} {log : List RouterEvent} {ac : AgentClient} {req : StepRequest}
    {k : (RouterCmd.agentStep ac req).Ret → RouterProg (Handled rpc.Resp)}
    (h : Prog.After (handle rpc) log (.op (.agentStep ac req) k)) :
    rpc = .step req ∧ req.sessionId ≠ "" ∧ lookupEvent req.sessionId ac ∈ log ∧
      ∀ e ∈ log, IsForward e = false := by
  cases rpc with
  | reset req' =>
    rcases Prog.after_op_iff.1 h with ⟨-, he⟩ | ⟨r, log₁, rfl, h₁⟩
    · cases he
    cases r with
    | error err => cases (Prog.after_ret_iff.1 h₁).2
    | ok agent =>
      rcases Prog.after_op_iff.1 h₁ with ⟨-, he⟩ | ⟨_, log₂, rfl, h₂⟩
      · cases he
      rcases Prog.after_op_iff.1 h₂ with ⟨-, he⟩ | ⟨r', log₃, rfl, h₃⟩
      · cases he
      cases r' with
      | ok resp => cases (Prog.after_ret_iff.1 h₃).2
      | error err =>
        rcases Prog.after_op_iff.1 h₃ with ⟨-, he⟩ | ⟨_, log₄, rfl, h₄⟩
        · cases he
        cases (Prog.after_ret_iff.1 h₄).2
  | close req' =>
    change Prog.After (Router.Server.close req') log _ at h
    unfold Router.Server.close at h
    split at h
    · cases (Prog.after_ret_iff.1 h).2
    · rcases Prog.after_op_iff.1 h with ⟨-, he⟩ | ⟨_, log₁, rfl, h₁⟩
      · cases he
      cases (Prog.after_ret_iff.1 h₁).2
  | step req' =>
    change Prog.After (Router.Server.step req') log _ at h
    unfold Router.Server.step at h
    split at h
    · cases (Prog.after_ret_iff.1 h).2
    · next hs =>
      rcases Prog.after_op_iff.1 h with ⟨-, he⟩ | ⟨r, log₁, rfl, h₁⟩
      · cases he
      cases r with
      | error err => cases (Prog.after_ret_iff.1 h₁).2
      | ok agent =>
        rcases Prog.after_op_iff.1 h₁ with ⟨-, he⟩ | ⟨_, log₂, rfl, h₂⟩
        · cases he
        rcases Prog.after_op_iff.1 h₂ with ⟨rfl, he⟩ | ⟨r', log₃, rfl, h₃⟩
        · cases he
          refine ⟨rfl, hs, List.mem_cons_self, ?_⟩
          intro e he
          rcases List.mem_cons.1 he with rfl | he
          · rfl
          · rcases List.mem_cons.1 he with rfl | he
            · rfl
            · cases he
        · cases r' with
          | error err => cases (Prog.after_ret_iff.1 h₃).2
          | ok resp =>
            have h₃ : Prog.After (if resp.done then do
              AgentPool.freeAgent req'.sessionId
              pure (.ok resp) else pure (.ok resp)) log₃ (.op (.agentStep ac req) k) := h₃
            split at h₃
            · rcases Prog.after_op_iff.1 h₃ with ⟨-, he⟩ | ⟨_, log₄, rfl, h₄⟩
              · cases he
              cases (Prog.after_ret_iff.1 h₄).2
            · cases (Prog.after_ret_iff.1 h₃).2

/-- A `Step` is sent by the client that leased the agent last, while it is leased, and the agent is
not released while a `Step` for it is in flight and not yet forwarded. -/
structure UnderLease (t : WatchedTrans) : Prop where
  sent : ∀ a req, t.lab = .sent a (.step req) → req.sessionId ≠ "" →
    t.src.pool.Leased req.sessionId ∧ t.src.lastLock req.sessionId = some a
  pending : ∀ x, Releases x t → ∀ h hd req, t.src.sys.router.handlers h = some hd →
    hd.rpc = .step req → req.sessionId = x → ∃ e ∈ hd.log, IsForward e = true

/-- An agent with a `Step` not yet forwarded is leased, last for the client that sent it. -/
structure StepInv (w : Watched) : Prop where
  router : RouterInv w.sys.router
  pending : ∀ {h hd req}, w.sys.router.handlers h = some hd → hd.rpc = .step req →
    req.sessionId ≠ "" → (∀ e ∈ hd.log, IsForward e = false) →
    w.pool.Leased req.sessionId ∧ w.lastLock req.sessionId = some hd.client

theorem stepInv_init : StepInv .init where
  router := routerInv_init
  pending h := by cases h

theorem StepInv.step {cfg : EnvConfig} {w w' : Watched} {e : SysEvent} (hi : StepInv w)
    (h : WatchedStep cfg w e w') (ht : UnderLease ⟨w, e, w'⟩) : StepInv w' where
  router := hi.router.step h.cases.1
  pending {id hd' req} hh hrpc hs hlog := by
    have keep : ∀ {a}, w.pool.Leased req.sessionId → w.lastLock req.sessionId = some a →
        ¬Releases req.sessionId ⟨w, e, w'⟩ →
        w'.pool.Leased req.sessionId ∧ w'.lastLock req.sessionId = some a := fun hl hlast hr =>
      ⟨h.leased hi.router hl hr, (h.lastLock hi.router hl).trans hlast⟩
    have waits : ∀ {hd}, w.sys.router.handlers id = some hd → hd.rpc = .step req →
        (∀ e ∈ hd.log, IsForward e = false) → ¬Releases req.sessionId ⟨w, e, w'⟩ := by
      intro hd hold hrpc hlog hr
      obtain ⟨ev, hmem, hf⟩ := ht.pending _ hr id hd req hold hrpc rfl
      rw [hlog ev hmem] at hf
      cases hf
    rcases h.cases.1.handler hh with
      ⟨hold, -⟩ | ⟨a, rpc, rfl, rfl⟩ | ⟨hd, c, k, res, hold, -, -, rfl⟩
    · obtain ⟨hl, hlast⟩ := hi.pending hold hrpc hs hlog
      exact keep hl hlast (waits hold hrpc hlog)
    · cases hrpc
      obtain ⟨hl, hlast⟩ := ht.sent a req rfl hs
      refine keep hl hlast ?_
      rintro ⟨pe, hpe, -⟩
      cases hpe
    · have hlog : ∀ e ∈ hd.log, IsForward e = false := fun ev hmem =>
        hlog ev (List.mem_append_left _ hmem)
      obtain ⟨hl, hlast⟩ := hi.pending hold hrpc hs hlog
      exact keep hl hlast (waits hold hrpc hlog)

/-- A `Step` is forwarded to the agent of its session id, which is busy and was locked last for a
`Reset` of the client that sent the `Step`. -/
def ReachesHolder (t : WatchedTrans) : Prop :=
  ∀ h a ac req r, t.lab = .exec h a ⟨.agentStep ac req, r⟩ → ac.addr = req.sessionId ∧
    t.src.pool.Leased req.sessionId ∧ t.src.lastLock req.sessionId = some a

theorem StepInv.reachesHolder {cfg : EnvConfig} {t : WatchedTrans} (hi : StepInv t.src)
    (h : WatchedStep cfg t.src t.lab t.dst) : ReachesHolder t := by
  intro id a ac req r hlab
  rw [hlab] at h
  obtain ⟨hd, k, hh, rfl, hp⟩ := h.cases.1.next
  have hafter := hi.router.after id hd hh
  rw [hp] at hafter
  obtain ⟨hrpc, hs, hfound, hlog⟩ := handle_forward hafter
  exact ⟨hi.router.found id hd _ ac hh hfound, hi.pending hh hrpc hs hlog⟩

/-- **Steps reach the lease holder's agent.** In every run of any clients against the router in
which steps are sent, and not overtaken by a release, under the sender's lease, every forwarded
`Step` finds its agent busy and leased last by its sender. -/
theorem steps_reach_holder {cfg : EnvConfig} {tr : List WatchedTrans} {w : Watched}
    (h : Lts.Run (WatchedStep cfg) .init tr w) (ht : ∀ t ∈ tr, UnderLease t) :
    ∀ t ∈ tr, ReachesHolder t := by
  have hinv := (h.restrict ht).invariant_mem (I := StepInv)
    (fun _ _ _ hi hs => hi.step hs.1 hs.2) stepInv_init
  intro t hmem
  exact (hinv t hmem).1.reachesHolder (h.step_of_mem t hmem)

/-! ## Runs with one agent -/

theorem not_releases_of_calm {t : WatchedTrans} (h : t.lab.calm = true) (x : Addr) :
    ¬Releases x t := by
  rintro ⟨pe, hpe, hends⟩
  unfold SysEvent.calm at h
  rw [hpe] at h
  rcases hends with hf | ⟨timeout, hf, -, -⟩
  · cases hf; cases h
  · cases hf; cases h

/-- A `Step` that is sent is sent under the sender's lease. -/
def sentOk (t : WatchedTrans) : Bool :=
  match t.lab with
  | .sent a (.step req) =>
    decide (t.src.pool.Leased req.sessionId ∧ t.src.lastLock req.sessionId = some a)
  | _ => true

theorem underLease_of_calm {t : WatchedTrans} (h : t.lab.calm = true) (hs : sentOk t = true) :
    UnderLease t where
  sent a req hlab _ := by
    simp only [sentOk, hlab] at hs
    exact of_decide_eq_true hs
  pending x hr := absurd hr (not_releases_of_calm h x)

/-- Client 0 leases the agent and makes a step, which ends the episode. Its `Close` is at the
router. -/
def ending : List WatchedTrans × Watched :=
  play .init (addLoneAgent :: leaseActs 0 0 ++ forwardActs 0 1 ++ doneActs 0 1 2)

/-- The `Close` frees the agent. -/
def ended : List WatchedTrans × Watched := play ending.2 [.exec 2 answering]

theorem run_ended : Lts.Run (WatchedStep singleStep) .init (ending.1 ++ ended.1) ended.2 :=
  (Lts.run_played rfl).append (Lts.run_played rfl)

theorem ended_underLease : ∀ t ∈ ending.1 ++ ended.1, UnderLease t := by
  have hall : (ending.1.all fun t => t.lab.calm && sentOk t) = true := by decide +kernel
  intro t ht
  rcases List.mem_append.1 ht with ht | ht
  · have h := List.all_eq_true.1 hall t ht
    rw [Bool.and_eq_true] at h
    exact underLease_of_calm h.1 h.2
  · cases List.mem_singleton.1 ht
    constructor
    · intro a req hlab
      cases hlab
    · intro x _ h hd req hh hrpc _
      -- the only request in flight is the `Close`
      match h, hh with
      | 2, hh => cases hh; cases hrpc

theorem steps_reach_holder_ended :
    (∀ t ∈ ending.1 ++ ended.1, UnderLease t) ∧ ∀ t ∈ ending.1 ++ ended.1, ReachesHolder t :=
  ⟨ended_underLease, steps_reach_holder run_ended ended_underLease⟩

/-- Client 0 ends its episode, which frees the agent, and makes one more step. -/
def staleStep : List WatchedTrans × Watched :=
  play .init (addLoneAgent :: leaseActs 0 0 ++ forwardActs 0 1 ++ doneActs 0 1 2 ++ freedActs 0 2 ++
    forwardActs 0 3)

/-- The `Step` of a finished episode is forwarded to an agent nobody has leased. -/
theorem stale_step_forwarded :
    Lts.Run (WatchedStep singleStep) .init staleStep.1 staleStep.2 ∧
      ¬∀ t ∈ staleStep.1, ReachesHolder t := by
  refine ⟨Lts.run_played rfl, fun h => ?_⟩
  have hlast := h _ (List.getLast_mem (show staleStep.1 ≠ [] by decide +kernel))
  have hleased := (hlast 3 0 _ _ _ rfl).2.1
  exact absurd hleased (by decide +kernel)

end SocketTuner.System
