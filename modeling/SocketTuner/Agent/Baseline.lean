import SocketTuner.Agent.Server
import SocketTuner.Lib.Run

/-!
# Baseline runs of one agent process

The agent over its whole life: any number of `Reset` and `Step` calls in flight at once, their
commands interleaved in any way, and socket events of the processes they started or of others.

`action_map` holds, for each key, the last action written in the run (`lookup_actionMap`): nothing
deletes an entry, and `Reset` does not write one. So a baseline connection is tuned exactly when an
earlier `Step` left an action for its remote address (`baseline_untuned_iff`).
-/

namespace SocketTuner.Agent

open Prog

/-- The requests an agent serves. -/
inductive AgentReq
  | reset (req : ResetRequest)
  | step (req : StepRequest)
  deriving DecidableEq, Repr

/-- What the handlers of an agent return. -/
inductive AgentResp
  | reset (resp : Handled ResetResponse)
  | step (resp : Handled StepResponse)
  deriving DecidableEq, Repr

/-- The handler a request is given to. -/
def Server.handle (sha256Hex : String → String) : AgentReq → AgentProg AgentResp
  | .reset req => do pure (.reset (← Server.reset sha256Hex req))
  | .step req => do pure (.step (← Server.step req))

/-- A call in flight: what it still has to do, and its process between `Start` and `Wait`. -/
structure InFlight where
  req : AgentReq
  prog : AgentProg AgentResp
  process : Option UInt32 := none

/-- The process of a call after one of its commands. -/
def processAfter (process : Option UInt32) : Event AgentCmd AgentCmd.Ret → Option UInt32
  | ⟨.start _, r⟩ =>
    match (r : Except String UInt32) with
    | .ok pid => some pid
    | .error _ => none
  | ⟨.wait _, _⟩ => none
  | _ => process

/-- An agent: its state, and the calls in flight by number. -/
structure AgentSys where
  world : AgentWorld
  calls : Nat → Option InFlight

/-- The agent when it starts, with no call in flight. -/
def AgentSys.init : AgentSys := { world := .init, calls := fun _ => none }

/-- Replace the call `id`, or end it. -/
def AgentSys.setCall (s : AgentSys) (id : Nat) (call : Option InFlight) : AgentSys :=
  { s with calls := Function.update s.calls id call }

/-- What a step did. -/
inductive AgentLabel
  | call (id : Nat) (req : AgentReq)
  | command (id : Nat) (e : Event AgentCmd AgentCmd.Ret)
  | answer (id : Nat) (resp : AgentResp)
  /-- A socket event of the process of call `owner`, or of a process no call started. -/
  | sock (owner : Option Nat) (sk : SockOps) (eff : Effects)

/-- What can happen next. -/
inductive AgentAction
  | call (id : Nat) (req : AgentReq)
  | command (id : Nat) (o : AgentOutside)
  | answer (id : Nat)
  | sock (owner : Option Nat) (sk : SockOps)

/-- A command takes anything from outside; a socket event belongs to a call only while the process
of that call runs. -/
def AgentSys.step (sha256Hex : String → String) (s : AgentSys) :
    AgentAction → Option (AgentLabel × AgentSys)
  | .call id req =>
    if (s.calls id).isSome then none
    else some (.call id req, s.setCall id (some { req, prog := Server.handle sha256Hex req }))
  | .command id o =>
    match s.calls id with
    | some { req, prog := .op c k, process } =>
      let (r, world) := c.exec o s.world
      some (.command id ⟨c, r⟩, AgentSys.setCall { s with world } id
        (some { req, prog := k r, process := processAfter process ⟨c, r⟩ }))
    | _ => none
  | .answer id =>
    match s.calls id with
    | some { prog := .ret resp, .. } => some (.answer id resp, s.setCall id none)
    | _ => none
  | .sock owner sk =>
    if owner.all fun id => (s.calls id).any fun call => call.process.isSome then
      let (maps, eff) := bpfSockmap s.world.maps sk
      some (.sock owner sk eff, { s with world := { s.world with maps } })
    else none

/-- A step of an agent. -/
abbrev AgentStep (sha256Hex : String → String) := Lts.Acts (AgentSys.step sha256Hex)

theorem AgentStep.cases {sha256Hex : String → String} {s s' : AgentSys} {l : AgentLabel}
    (h : AgentStep sha256Hex s l s') :
    (∃ id req, l = .call id req ∧
      s' = s.setCall id (some { req, prog := Server.handle sha256Hex req })) ∨
    (∃ id o c k call, l = .command id ⟨c, (c.exec o s.world).1⟩ ∧ s.calls id = some call ∧
      call.prog = .op c k ∧
      s' = AgentSys.setCall { s with world := (c.exec o s.world).2 } id (some
        { req := call.req, prog := k (c.exec o s.world).1,
          process := processAfter call.process ⟨c, (c.exec o s.world).1⟩ })) ∨
    (∃ id resp call, l = .answer id resp ∧ s.calls id = some call ∧ call.prog = .ret resp ∧
      s' = s.setCall id none) ∨
    (∃ owner sk, l = .sock owner sk (bpfSockmap s.world.maps sk).2 ∧
      s' = { s with world := { s.world with maps := (bpfSockmap s.world.maps sk).1 } }) := by
  obtain ⟨a, h⟩ := h
  cases a with
  | call id req =>
    simp only [AgentSys.step] at h
    split at h
    · cases h
    · cases h
      exact .inl ⟨id, req, rfl, rfl⟩
  | command id o =>
    simp only [AgentSys.step] at h
    split at h
    · next req c k process hcall =>
      cases h
      exact .inr (.inl ⟨id, o, c, k, _, rfl, hcall, rfl, rfl⟩)
    · cases h
  | answer id =>
    simp only [AgentSys.step] at h
    split at h
    · next req resp process hcall =>
      cases h
      exact .inr (.inr (.inl ⟨id, resp, _, rfl, hcall, rfl, rfl⟩))
    · cases h
  | sock owner sk =>
    simp only [AgentSys.step] at h
    split at h
    · cases h
      exact .inr (.inr (.inr ⟨owner, sk, rfl, rfl⟩))
    · cases h

/-- A step that is neither a command nor a socket event leaves the world alone. -/
theorem AgentStep.world_cases {sha256Hex : String → String} {s s' : AgentSys} {l : AgentLabel}
    (h : AgentStep sha256Hex s l s') :
    (∃ id c o, l = .command id ⟨c, (c.exec o s.world).1⟩ ∧ s'.world = (c.exec o s.world).2) ∨
    (∃ owner sk, l = .sock owner sk (bpfSockmap s.world.maps sk).2 ∧
      s'.world = { s.world with maps := (bpfSockmap s.world.maps sk).1 }) ∨
    s'.world = s.world ∧ ((∃ id req, l = .call id req) ∨ ∃ id resp, l = .answer id resp) := by
  rcases h.cases with ⟨id, req, rfl, rfl⟩ | ⟨id, o, c, k, call, rfl, -, -, rfl⟩ |
    ⟨id, resp, call, rfl, -, -, rfl⟩ | ⟨owner, sk, rfl, rfl⟩
  · exact .inr (.inr ⟨rfl, .inl ⟨id, req, rfl⟩⟩)
  · exact .inl ⟨id, c, o, rfl, rfl⟩
  · exact .inr (.inr ⟨rfl, .inr ⟨id, resp, rfl⟩⟩)
  · exact .inr (.inl ⟨owner, sk, rfl, rfl⟩)

/-- The steps of a run, oldest first. -/
abbrev AgentTrace := List (Lts.Trans AgentSys AgentLabel)

/-! ## What `action_map` holds -/

/-- A successful write to `action_map`. -/
def AgentLabel.write : AgentLabel → Option (IpPortKey × TuningAction)
  | .command _ ⟨.putAction key action, r⟩ =>
    match (r : Option String) with
    | none => some (key, action)
    | some _ => none
  | _ => none

/-- The action a step of the agent wrote under `key`. -/
def written (key : IpPortKey) (l : AgentLabel) : Option TuningAction :=
  l.write.bind fun w => if w.1 = key then some w.2 else none

/-- The action written last under `key`. -/
def lastWritten (key : IpPortKey) (tr : AgentTrace) : Option TuningAction :=
  tr.foldl (fun last x => (written key x.lab).or last) none

theorem AgentStep.lookup_actionMap {sha256Hex : String → String} {s s' : AgentSys} {l : AgentLabel}
    (h : AgentStep sha256Hex s l s') (key : IpPortKey) :
    s'.world.maps.actionMap.lookup key =
      (written key l).or (s.world.maps.actionMap.lookup key) := by
  rcases h.world_cases with
    ⟨id, c, o, rfl, hw⟩ | ⟨owner, sk, rfl, hw⟩ | ⟨hw, ⟨id, req, rfl⟩ | ⟨id, resp, rfl⟩⟩
  · rw [hw]
    cases c with
    | putAction key' action =>
      simp only [AgentCmd.exec, BoundedMap.lookup_update]
      by_cases ha : s.world.maps.actionMap.Accepts key'
      · by_cases hk : key' = key
        · subst hk
          simp [written, AgentLabel.write, ha]
        · simp [written, AgentLabel.write, ha, hk, Ne.symm hk]
      · simp [written, AgentLabel.write, ha]
    | setLastCommand _ | getLastCommand | start _ | wait _ | lookupMetric _ => rfl
  · rw [hw, actionMap_bpfSockmap]
    rfl
  · rw [hw]; rfl
  · rw [hw]; rfl

/-- **`action_map` holds the last action written**, over any run. -/
theorem lookup_actionMap {sha256Hex : String → String} {tr : AgentTrace} {s : AgentSys}
    (h : Lts.Run (AgentStep sha256Hex) .init tr s) (key : IpPortKey) :
    s.world.maps.actionMap.lookup key = lastWritten key tr :=
  h.view_eq_foldl (v := fun s => s.world.maps.actionMap.lookup key)
    (fun _ _ _ hs => hs.lookup_actionMap key)

theorem exists_of_lastWritten {key : IpPortKey} {action : TuningAction} {tr : AgentTrace}
    (h : lastWritten key tr = some action) : ∃ x ∈ tr, written key x.lab = some action := by
  have hfold : ∀ last, tr.foldl (fun last x => (written key x.lab).or last) last = some action →
      last = some action ∨ ∃ x ∈ tr, written key x.lab = some action := by
    clear h
    induction tr with
    | nil => exact fun last h => .inl h
    | cons x tr ih =>
      intro last h
      rcases ih _ h with hx | ⟨y, hy, hw⟩
      · cases hw : written key x.lab with
        | none => exact .inl (by simpa [hw] using hx)
        | some a => exact .inr ⟨x, List.mem_cons_self, by simpa [hw] using hx⟩
      · exact .inr ⟨y, List.mem_cons_of_mem x hy, hw⟩
  simpa using hfold none h

/-! ## Baseline connections -/

/-- A socket event of the baseline run of a `Reset` in flight. -/
def BaselineEvent (x : Lts.Trans AgentSys AgentLabel) (sk : SockOps) (eff : Effects) : Prop :=
  ∃ id call req, x.lab = .sock (some id) sk eff ∧ x.src.calls id = some call ∧ call.req = .reset req

/-- **When baselines are not tuned.** In every run no socket option is set on a connection of a
baseline run exactly when each baseline connection that is established goes to an address for which
no action was written before, or whose last action has no effective field. -/
theorem baseline_untuned_iff {sha256Hex : String → String} {tr : AgentTrace} {s : AgentSys}
    (h : Lts.Run (AgentStep sha256Hex) .init tr s) :
    (∀ x ∈ tr, ∀ sk eff, BaselineEvent x sk eff → eff.sockopts = []) ↔
    ∀ pre x post sk eff, tr = pre ++ x :: post → BaselineEvent x sk eff → sk.Established →
      ∀ action, lastWritten ⟨sk.remoteIp4, 0⟩ pre = some action → action.Ineffective := by
  -- the options set at a point of the run, by what was written before it
  have hset : ∀ pre x post sk eff, tr = pre ++ x :: post → BaselineEvent x sk eff →
      (sk.Established → eff.sockopts =
        ((lastWritten ⟨sk.remoteIp4, 0⟩ pre).map TuningAction.calls).getD []) ∧
      (¬sk.Established → eff.sockopts = []) := by
    rintro pre x post sk eff rfl ⟨id, call, req, hlab, -, -⟩
    obtain ⟨t, hpre, hrest⟩ := h.split
    obtain ⟨rfl, hstep, -⟩ := hrest.head
    rw [hlab] at hstep
    obtain ⟨_, _, _, hl, -⟩ | ⟨owner, sk', hl, -⟩ | ⟨-, ⟨_, _, hl⟩ | ⟨_, _, hl⟩⟩ :=
      AgentStep.world_cases hstep <;> cases hl
    rw [← lookup_actionMap hpre]
    exact sockopts_bpfSockmap _ sk
  constructor
  · intro hnone pre x post sk eff htr hx hest action hact
    have hempty := hnone x (by rw [htr]; simp) sk eff hx
    rw [(hset pre x post sk eff htr hx).1 hest, hact] at hempty
    exact action.calls_eq_nil_iff.1 hempty
  · intro hlast x hmem sk eff hx
    obtain ⟨pre, post, rfl⟩ := List.append_of_mem hmem
    by_cases hest : sk.Established
    · rw [(hset pre x post sk eff rfl hx).1 hest]
      cases hact : lastWritten ⟨sk.remoteIp4, 0⟩ pre with
      | none => rfl
      | some action =>
        exact action.calls_eq_nil_iff.2 (hlast pre x post sk eff rfl hx hest action hact)
    · exact (hset pre x post sk eff rfl hx).2 hest

/-! ## Two runs -/

/-- An event of a connection to 142.250.1.100 by process 4242. -/
def googleEvent (op : SockOp) : SockOps :=
  { op, family := AF_INET, remoteIp4 := 0x6401fa8e, remotePort := 0x50000000, srttUs := 0,
    totalRetrans := 0, bytesAcked := 0, bytesReceived := 0, cbFlags := 0, cookie := 1,
    pidTgid := 0x109200000000, ktimeNs := 1000000 }

/-- A `Reset` for the google command, as call `id`, up to the connection of its baseline run. -/
def baselineActions (id : Nat) : List AgentAction :=
  [.call id (.reset ⟨"curl -4 -sI -m 5 http://google.com"⟩),
   .command id {}, .command id {}, .command id {}, .command id { start := .ok 4242 },
   .sock (some id) (googleEvent .tcpConnectCb), .sock (some id) (googleEvent .activeEstablishedCb)]

/-- The digest of that command. -/
def sha256Google : String → String :=
  fun _ => "b09f967a0e12ebf17a37cf7e6592477209a75ea0c7e54cc289db78fddf28830b"

/-- The trace of a list of actions from the start of the agent. -/
def playActions (as : List AgentAction) : AgentTrace × AgentSys :=
  (Lts.exec (AgentSys.step sha256Google) .init as).getD ([], .init)

theorem run_playActions (as : List AgentAction)
    (h : (Lts.exec (AgentSys.step sha256Google) .init as).isSome) :
    Lts.Run (AgentStep sha256Google) .init (playActions as).1 (playActions as).2 := by
  obtain ⟨r, hr⟩ := Option.isSome_iff_exists.1 h
  unfold playActions
  rw [hr]
  exact Lts.run_exec hr

/-- A `Step` that only asks for a minimal RTO, which the program does not set, then a `Reset`. -/
def rtoActions : List AgentAction :=
  [.call 0 (.step { targetIp := "142.250.1.100", rtoMin := 200 }),
   .command 0 {}, .command 0 {}, .command 0 {}, .answer 0] ++ baselineActions 1

theorem baseline_untuned_rto :
    (∃ x ∈ (playActions rtoActions).1, ∃ sk eff, BaselineEvent x sk eff ∧ sk.Established) ∧
    (∃ action, lastWritten ⟨0x6401fa8e, 0⟩ (playActions rtoActions).1 = some action) ∧
    ∀ x ∈ (playActions rtoActions).1, ∀ sk eff, BaselineEvent x sk eff → eff.sockopts = [] := by
  have hne : (playActions rtoActions).1 ≠ [] := by decide
  have hall : (playActions rtoActions).1.all fun x =>
      x.lab.write.all fun w => decide w.2.Ineffective := by decide
  refine ⟨⟨_, List.getLast_mem hne, _, _, ⟨1, _, _, rfl, rfl, rfl⟩, rfl, .inl rfl⟩, ⟨_, rfl⟩, ?_⟩
  refine (baseline_untuned_iff (run_playActions rtoActions rfl)).2
    fun pre x post sk eff htr _ _ action hact => ?_
  obtain ⟨y, hy, hw⟩ := exists_of_lastWritten hact
  obtain ⟨w, hwrite, hkey⟩ := Option.bind_eq_some_iff.1 hw
  have hfields := List.all_eq_true.1 hall y (by rw [htr]; exact List.mem_append_left _ hy)
  rw [hwrite, Option.all_some, decide_eq_true_eq] at hfields
  split at hkey
  · cases hkey
    exact hfields
  · cases hkey

/-- A `Step` with the default action and no command set, then a `Reset`. -/
def staleActions : List AgentAction :=
  [.call 0 (.step { targetIp := "142.250.1.100", congAlgo := 1, initCwnd := 10 }),
   .command 0 {}, .command 0 {}, .command 0 {}, .answer 0] ++ baselineActions 1

/-- The baseline connection gets the congestion algorithm and initial window of the earlier step. -/
theorem baseline_tuned_by_stale_action :
    Lts.Run (AgentStep sha256Google) .init (playActions staleActions).1
      (playActions staleActions).2 ∧
    ∃ x ∈ (playActions staleActions).1, ∃ sk eff, BaselineEvent x sk eff ∧
      eff.sockopts =
        [⟨SOL_TCP, TCP_CONGESTION, .name "cubic"⟩, ⟨SOL_TCP, TCP_BPF_IW, .u32 10⟩] := by
  have hne : (playActions staleActions).1 ≠ [] := by decide
  exact ⟨run_playActions staleActions rfl, _, List.getLast_mem hne, _, _,
    ⟨1, _, _, rfl, rfl, rfl⟩, rfl⟩

end SocketTuner.Agent
