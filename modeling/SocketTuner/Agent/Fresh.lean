import SocketTuner.Agent.Metrics

/-!
# Where an observation comes from

The agent on a host whose kernel hands out process ids. A process id is in use from the start of
its process until the process is reaped; after that the kernel may give it to any new process.

`HostSys` follows, next to the agent, which process each process id stands for, which process made
the `TCP_CONNECT` that created the record of a process id, which process each call started and
what its lookup read.

`observations_fresh`: an observation was read from a record that the process of the call created,
in every run in which the kernel gives no process an id that a call in flight has still to look
up, and no process of a call an id that `metrics_map` has a record of. Nothing deletes a record,
so a run that makes no connection under a recycled id reports an old one
(`recycled_pid_reports_old_record`).
-/

namespace SocketTuner.Agent

open Prog

/-- A process in use, with a number no other process has. A child of the agent keeps its process id
until the agent waits for it. -/
structure Process where
  num : Nat
  child : Bool
  deriving DecidableEq, Repr

/-- What is known of a call in flight: the process id and number of the process it started, and the
result of its lookup with the number of the process that created the record. -/
structure CallRecord where
  started : Option (UInt32 × Nat) := none
  read : Option (Except String TuningMetrics × Option Nat) := none

/-- An agent on a host, with the processes of the host and what is known of the agent's calls. -/
structure HostSys where
  agent : AgentSys
  procs : UInt32 → Option Process
  /-- The number of the next process. -/
  next : Nat
  /-- The process whose `TCP_CONNECT` created the record of a process id. -/
  creator : UInt32 → Option Nat
  records : Nat → CallRecord

/-- The host when the agent starts, before the processes that the steps follow. -/
def HostSys.init : HostSys where
  agent := .init
  procs := fun _ => none
  next := 0
  creator := fun _ => none
  records := fun _ => {}

/-- What a step of the host did. -/
inductive HostLabel
  | agent (l : AgentLabel)
  /-- Another process of the host starts. -/
  | spawn (pid : UInt32)
  | exit (pid : UInt32)

/-- What can happen next on the host. -/
inductive HostAction
  | agent (a : AgentAction)
  | spawn (pid : UInt32)
  | exit (pid : UInt32)

namespace HostSys

/-- The kernel gives a process id that is not in use; 0 is no process's. -/
def Available (h : HostSys) (pid : UInt32) : Prop := pid ≠ 0 ∧ h.procs pid = none

instance (h : HostSys) (pid : UInt32) : Decidable (h.Available pid) :=
  inferInstanceAs (Decidable (_ ∧ _))

/-- A process starts under an available process id, and a connection is made by a process. -/
def allows (h : HostSys) : AgentLabel → Bool
  | .command _ ⟨.start _, r⟩ =>
    match (r : Except String UInt32) with
    | .ok pid => h.Available pid
    | .error _ => true
  | .sock _ sk _ => !sk.isConnect || (h.procs sk.pid).isSome
  | _ => true

/-- A process starts under `pid`. -/
def newProcess (h : HostSys) (pid : UInt32) (child : Bool) : HostSys :=
  { h with procs := Function.update h.procs pid (some ⟨h.next, child⟩), next := h.next + 1 }

/-- Replace what is known of the call `id`. -/
def setRecord (h : HostSys) (id : Nat) (r : CallRecord) : HostSys :=
  { h with records := Function.update h.records id r }

/-- What a step of the agent changes of the rest. -/
def observe (h : HostSys) : AgentLabel → HostSys
  | .call id _ => h.setRecord id {}
  | .command id ⟨.start _, r⟩ =>
    match (r : Except String UInt32) with
    | .ok pid => (h.newProcess pid true).setRecord id
        { h.records id with started := some (pid, h.next) }
    | .error _ => h
  | .command _ ⟨.wait pid, _⟩ => { h with procs := Function.update h.procs pid none }
  | .command id ⟨.lookupMetric pid, r⟩ =>
    h.setRecord id { h.records id with read := some (r, h.creator pid) }
  | .sock _ sk _ =>
    if sk.isConnect = true ∧ h.agent.world.maps.metricsMap.Accepts sk.pid then
      { h with creator := Function.update h.creator sk.pid ((h.procs sk.pid).map Process.num) }
    else h
  | _ => h

/-- A step of the agent that the kernel allows, or the start or exit of another process. -/
def step (sha256Hex : String → String) (h : HostSys) : HostAction → Option (HostLabel × HostSys)
  | .agent a =>
    match h.agent.step sha256Hex a with
    | none => none
    | some (l, agent) =>
      if h.allows l then some (.agent l, { h.observe l with agent }) else none
  | .spawn pid => if h.Available pid then some (.spawn pid, h.newProcess pid false) else none
  | .exit pid =>
    match h.procs pid with
    | some ⟨_, false⟩ => some (.exit pid, { h with procs := Function.update h.procs pid none })
    | _ => none

end HostSys

/-- A step of the host. -/
abbrev HostStep (sha256Hex : String → String) := Lts.Acts (HostSys.step sha256Hex)

/-- A step with the states around it. -/
abbrev HostTrans := Lts.Trans HostSys HostLabel

/-- The observation a response carries. -/
def AgentResp.observation : AgentResp → Option Observation
  | .reset (.ok resp) => resp.initialObservation
  | .step (.ok resp) => resp.observation
  | _ => none

/-- An observation that a call returns was read from a record that the process of this call
created. -/
def Fresh (x : HostTrans) : Prop :=
  ∀ id resp obs, x.lab = .agent (.answer id resp) → resp.observation = some obs →
    ∃ met pid n, (x.src.records id).read = some (.ok met, some n) ∧
      (x.src.records id).started = some (pid, n) ∧ obs = Server.reported met

/-! ## The calls of the agent -/

/-- The process id of a call and the result of its lookup. -/
structure CallView where
  pid : Option UInt32 := none
  read : Option (Except String TuningMetrics) := none

/-- What one command adds to it. -/
def CallView.track (v : CallView) : Event AgentCmd AgentCmd.Ret → CallView
  | ⟨.start _, r⟩ =>
    match (r : Except String UInt32) with
    | .ok pid => { v with pid := some pid }
    | .error _ => v
  | ⟨.lookupMetric _, r⟩ => { v with read := some r }
  | _ => v

/-- A call starts at most one process, looks up its process id, or 0, and reports the record it
read. -/
def callProtocol : Protocol AgentCmd AgentCmd.Ret CallView AgentResp where
  track := CallView.track
  allows v
    | .start _ => v.pid = none
    | .lookupMetric pid => v.pid = some pid ∨ pid = 0
    | _ => True
  final v resp := ∀ obs, resp.observation = some obs →
    ∃ met, v.read = some (.ok met) ∧ obs = Server.reported met

/-- The process id that `Run` returns is that of the process it started, or 0. -/
theorem run_meets {v : CallView} (hv : v.pid = none) :
    Executor.run.Meets (callProtocol.withFinal fun v r => v.pid = some r.1 ∨ r.1 = 0) v := by
  unfold Executor.run
  refine ⟨trivial, fun (cmd : String) => ?_⟩
  change Meets _ (if cmd = "" then _ else _) v
  split
  · exact .inr rfl
  · refine ⟨trivial, fun (cmd' : String) => ?_⟩
    change Meets _ (if (Executor.fields cmd').length = 0 then _ else _) v
    split
    · exact .inr rfl
    · refine ⟨hv, fun r => ?_⟩
      cases r with
      | error err => exact .inr rfl
      | ok pid =>
        refine ⟨trivial, fun w => ?_⟩
        cases w with
        | some err => exact .inl rfl
        | none => exact .inl rfl

/-- The process id looked up is the call's, and what is returned was read. -/
theorem getMetricForPid_meets {v : CallView} {pid : UInt32} (hv : v.pid = some pid ∨ pid = 0) :
    (Manager.getMetricForPid pid).Meets (callProtocol.withFinal fun v r =>
      ∀ met ip port, r = .ok (met, ip, port) → v.read = some (.ok met) ∧ ip = Manager.renderIp met ∧
        port = met.remotePort) v := by
  refine ⟨hv, fun r => ?_⟩
  cases r with
  | error err => intro met ip port h; cases h
  | ok metric =>
    intro met ip port h
    cases h
    exact ⟨rfl, rfl, rfl⟩

theorem setCommand_meets (sha256Hex : String → String) (cmdStr : String) {v : CallView}
    (hv : v.pid = none) :
    (Executor.setCommand sha256Hex cmdStr).Meets
      (callProtocol.withFinal fun v _ => v.pid = none) v := by
  simp only [Executor.setCommand]
  split
  · exact hv
  · exact ⟨trivial, fun _ => hv⟩

theorem reset_meets (sha256Hex : String → String) (req : ResetRequest) :
    (Server.reset sha256Hex req).Meets
      (callProtocol.withFinal fun v resp => callProtocol.final v (.reset resp)) {} := by
  refine Meets.bind (setCommand_meets sha256Hex req.command rfl) fun v err hv => ?_
  cases err with
  | some err => intro obs h; cases h
  | none =>
    refine Meets.bind (run_meets hv) ?_
    rintro v ⟨pid, err⟩ hv
    cases err with
    | some err => intro obs h; cases h
    | none =>
      refine Meets.bind (getMetricForPid_meets hv) fun v r hr => ?_
      intro obs h
      cases r with
      | error err => cases h
      | ok r =>
        obtain ⟨met, ip, port⟩ := r
        obtain ⟨hread, rfl, rfl⟩ := hr met ip port rfl
        cases h
        exact ⟨met, hread, rfl⟩

theorem step_meets (req : StepRequest) :
    (Server.step req).Meets
      (callProtocol.withFinal fun v resp => callProtocol.final v (.step resp)) {} := by
  have hset : (Manager.setAction req.targetIp req.targetPort (Server.action req)).Meets
      (callProtocol.withFinal fun v _ => v.pid = none) {} := by
    unfold Manager.setAction
    split
    · rfl
    · exact ⟨trivial, fun _ => rfl⟩
  refine Meets.bind hset fun v err hv => ?_
  cases err with
  | some err => intro obs h; cases h
  | none =>
    refine Meets.bind (run_meets hv) ?_
    rintro v ⟨pid, err⟩ hv
    refine Meets.bind (getMetricForPid_meets hv) fun v r hr => ?_
    cases r with
    | error err => intro obs h; cases h
    | ok r =>
      obtain ⟨met, ip, port⟩ := r
      obtain ⟨hread, rfl, rfl⟩ := hr met ip port rfl
      intro obs h
      cases h
      exact ⟨met, hread, rfl⟩

theorem handle_meets (sha256Hex : String → String) (req : AgentReq) :
    (Server.handle sha256Hex req).Meets callProtocol {} := by
  cases req with
  | reset req => exact Meets.bind (reset_meets sha256Hex req) fun _ _ h => h
  | step req => exact Meets.bind (step_meets req) fun _ _ h => h

/-! ## The invariant -/

variable {sha256Hex : String → String}

theorem AgentStep.call_cases {s s' : AgentSys} {l : AgentLabel} (h : AgentStep sha256Hex s l s') :
    (∃ id req, l = .call id req ∧ s'.calls = Function.update s.calls id
      (some { req, prog := Server.handle sha256Hex req })) ∨
    (∃ id c k r call call', l = .command id ⟨c, r⟩ ∧ s.calls id = some call ∧
      call.prog = .op c k ∧ call'.prog = k r ∧
      s'.calls = Function.update s.calls id (some call')) ∨
    (∃ id resp call, l = .answer id resp ∧ s.calls id = some call ∧ call.prog = .ret resp ∧
      s'.calls = Function.update s.calls id none) ∨
    (∃ owner sk eff, l = .sock owner sk eff ∧ s'.calls = s.calls) := by
  rcases h.cases with ⟨id, req, rfl, rfl⟩ | ⟨id, o, c, k, call, rfl, hcall, hop, rfl⟩ |
    ⟨id, resp, call, rfl, hcall, hret, rfl⟩ | ⟨owner, sk, rfl, rfl⟩
  · exact .inl ⟨id, req, rfl, rfl⟩
  · exact .inr (.inl ⟨id, c, k, _, call, _, rfl, hcall, hop, rfl, rfl⟩)
  · exact .inr (.inr (.inl ⟨id, resp, call, rfl, hcall, hret, rfl⟩))
  · exact .inr (.inr (.inr ⟨owner, sk, _, rfl, rfl⟩))

theorem HostStep.cases {h h' : HostSys} {l : HostLabel} (hs : HostStep sha256Hex h l h') :
    (∃ al agent, l = .agent al ∧ AgentStep sha256Hex h.agent al agent ∧ h.allows al = true ∧
      h' = { h.observe al with agent }) ∨
    (∃ pid, l = .spawn pid ∧ h.Available pid ∧ h' = h.newProcess pid false) ∨
    (∃ pid, l = .exit pid ∧ h' = { h with procs := Function.update h.procs pid none }) := by
  obtain ⟨a, hs⟩ := hs
  cases a with
  | agent a =>
    simp only [HostSys.step] at hs
    split at hs
    · cases hs
    · next al agent hstep =>
      split at hs
      · next hallows =>
        cases hs
        exact .inl ⟨al, agent, rfl, ⟨a, hstep⟩, hallows, rfl⟩
      · cases hs
  | spawn pid =>
    simp only [HostSys.step] at hs
    split at hs
    · next hav =>
      cases hs
      exact .inr (.inl ⟨pid, rfl, hav, rfl⟩)
    · cases hs
  | exit pid =>
    simp only [HostSys.step] at hs
    split at hs
    · cases hs
      exact .inr (.inr ⟨pid, rfl, rfl⟩)
    · cases hs

theorem procs_of_release {procs : UInt32 → Option Process} {pid pid' : UInt32} {q : Process}
    (hq : Function.update procs pid none pid' = some q) : procs pid' = some q := by
  by_cases heq : pid' = pid
  · subst heq
    simp at hq
  · rwa [Function.update_of_ne heq] at hq

theorem AgentStep.lookup_of_ok {s s' : AgentSys} {id : Nat} {pid : UInt32} {met : TuningMetrics}
    (h : AgentStep sha256Hex s (.command id ⟨.lookupMetric pid, (.ok met : Except _ _)⟩) s') :
    s.world.maps.metricsMap.lookup pid = some met := by
  rcases h.world_cases with ⟨_, c, o, hl, -⟩ | ⟨_, _, hl, -⟩ | ⟨-, ⟨_, _, hl⟩ | ⟨_, _, hl⟩⟩
  · obtain ⟨-, hl⟩ := AgentLabel.command.inj hl
    have hc : AgentCmd.lookupMetric pid = c := congrArg Sigma.fst hl
    subst hc
    have hres := eq_of_heq (Sigma.mk.inj hl).2
    simp only [AgentCmd.exec] at hres
    split at hres
    · next metric hmet =>
      cases hres
      exact hmet
    · cases hres
  · cases hl
  · cases hl
  · cases hl

/-- The view without the numbers of processes. -/
def CallRecord.view (r : CallRecord) : CallView where
  pid := r.started.map Prod.fst
  read := r.read.map Prod.fst

/-- The call started process `n` under `pid`, and has a command left to issue. -/
def HostSys.Awaits (h : HostSys) (id : Nat) (pid : UInt32) (n : Nat) : Prop :=
  ∃ call c k, h.agent.calls id = some call ∧ call.prog = .op c k ∧
    (h.records id).started = some (pid, n)

/-- The kernel gives a new process an id that no call in flight has still to look up, and a process
that a call starts one that `metrics_map` has no record of. -/
structure NewPid (x : HostTrans) : Prop where
  start : ∀ id argv pid, x.lab = .agent (.command id ⟨.start argv, (.ok pid : Except _ _)⟩) →
    x.src.agent.world.maps.metricsMap.lookup pid = none ∧ ∀ id' n, ¬x.src.Awaits id' pid n
  spawn : ∀ pid, x.lab = .spawn pid → ∀ id' n, ¬x.src.Awaits id' pid n

/-- Nobody else has the process id of a call in flight, and only its process created the record
there. -/
structure FreshInv (h : HostSys) : Prop where
  zero : h.procs 0 = none ∧ 0 ∉ h.agent.world.maps.metricsMap.entries
  follows : ∀ {id call}, h.agent.calls id = some call →
    call.prog.Meets callProtocol (h.records id).view
  owned : ∀ {id pid n}, h.Awaits id pid n → ∀ q, h.procs pid = some q → q.num = n
  created : ∀ {id pid n}, h.Awaits id pid n → pid ∈ h.agent.world.maps.metricsMap.entries →
    h.creator pid = some n
  read : ∀ {id call met n}, h.agent.calls id = some call →
    (h.records id).read = some (.ok met, n) →
    ∃ pid m, (h.records id).started = some (pid, m) ∧ n = some m

theorem freshInv_init : FreshInv .init where
  zero := ⟨rfl, Finmap.notMem_empty⟩
  follows h := by cases h
  owned h := by obtain ⟨_, _, _, h, _⟩ := h; cases h
  created h := by obtain ⟨_, _, _, h, _⟩ := h; cases h
  read h := by cases h

section Steps

variable {h : HostSys} {agent : AgentSys}

/-- Process ids are only given back, and no process had id 0. -/
theorem FreshInv.procs_zero (hi : FreshInv h) {procs : UInt32 → Option Process}
    (hprocs : ∀ pid q, procs pid = some q → h.procs pid = some q) : procs 0 = none := by
  refine Option.eq_none_iff_forall_ne_some.2 fun q hq => ?_
  have hzero := hprocs 0 q hq
  rw [hi.zero.1] at hzero
  cases hzero

/-- One call is replaced, or gone, with a new record `cr`. No process starts. -/
theorem FreshInv.replace (hi : FreshInv h) {id : Nat} {call? : Option InFlight}
    (procs : UInt32 → Option Process) (cr : CallRecord)
    (hm : agent.world.maps.metricsMap = h.agent.world.maps.metricsMap)
    (hc : agent.calls = Function.update h.agent.calls id call?)
    (hprocs : ∀ pid q, procs pid = some q → h.procs pid = some q)
    (hfollows : ∀ call, call? = some call → call.prog.Meets callProtocol cr.view)
    (hawaits : ∀ call pid n, call? = some call → cr.started = some (pid, n) → h.Awaits id pid n)
    (hread : ∀ call met n, call? = some call → cr.read = some (.ok met, n) →
      ∃ pid m, cr.started = some (pid, m) ∧ n = some m) :
    FreshInv { h with agent, procs, records := Function.update h.records id cr } := by
  have haw : ∀ {id' pid n}, HostSys.Awaits
      { h with agent, procs, records := Function.update h.records id cr } id' pid n →
      h.Awaits id' pid n := by
    rintro id' pid n ⟨call, c, k, hcall, hop, hst⟩
    by_cases hid : id' = id
    · subst hid
      simp only [hc, Function.update_self] at hcall hst
      exact hawaits call pid n hcall hst
    · simp only [hc, Function.update_of_ne hid] at hcall hst
      exact ⟨call, c, k, hcall, hop, hst⟩
  refine ⟨⟨hi.procs_zero hprocs, by simpa only [hm] using hi.zero.2⟩, ?_,
    fun h q hq => hi.owned (haw h) q (hprocs _ q hq),
    fun h hmem => hi.created (haw h) (by simpa only [hm] using hmem), ?_⟩
  · intro id' call hcall
    by_cases hid : id' = id
    · subst hid
      simp only [hc, Function.update_self] at hcall ⊢
      exact hfollows call hcall
    · simp only [hc, Function.update_of_ne hid] at hcall ⊢
      exact hi.follows hcall
  · intro id' call met n hcall hr
    by_cases hid : id' = id
    · subst hid
      simp only [hc, Function.update_self] at hcall hr ⊢
      exact hread call met n hcall hr
    · simp only [hc, Function.update_of_ne hid] at hcall hr ⊢
      exact hi.read hcall hr

/-- A new call has started nothing. -/
theorem FreshInv.call (hi : FreshInv h) {id : Nat} {req : AgentReq}
    (hm : agent.world.maps.metricsMap = h.agent.world.maps.metricsMap)
    (hc : agent.calls = Function.update h.agent.calls id
      (some { req, prog := Server.handle sha256Hex req })) :
    FreshInv { h.setRecord id {} with agent } := by
  refine hi.replace h.procs {} hm hc (fun _ _ hq => hq) ?_ ?_ ?_
  · intro call hcall
    cases hcall
    exact handle_meets sha256Hex req
  · intro call pid n _ hst
    cases hst
  · intro call met n _ hr
    cases hr

/-- A call that has answered is gone. -/
theorem FreshInv.answer (hi : FreshInv h) {id : Nat}
    (hm : agent.world.maps.metricsMap = h.agent.world.maps.metricsMap)
    (hc : agent.calls = Function.update h.agent.calls id none) : FreshInv { h with agent } := by
  have hgone := hi.replace h.procs (h.records id) hm hc (fun _ _ hq => hq)
    (fun _ hcall => by cases hcall) (fun _ _ _ hcall => by cases hcall)
    (fun _ _ _ hcall => by cases hcall)
  rwa [Function.update_eq_self] at hgone

/-- A connection creates the record of its process. -/
theorem FreshInv.sock (hi : FreshInv h) {owner : Option Nat} {sk : SockOps} {eff : Effects}
    (hs : AgentStep sha256Hex h.agent (.sock owner sk eff) agent)
    (hallows : h.allows (.sock owner sk eff) = true) (hc : agent.calls = h.agent.calls) :
    FreshInv { h.observe (.sock owner sk eff) with agent } := by
  have hmem := adds_metricsMap sha256Hex _ _ _ hs
  have hproc : ∀ pid, AgentLabel.connectPid (.sock owner sk eff) = some pid →
      sk.isConnect = true ∧ pid = sk.pid ∧ ∃ q, h.procs pid = some q := by
    intro pid hpid
    simp only [AgentLabel.connectPid, AgentLabel.event, Option.bind_some,
      Option.ite_none_right_eq_some, Option.some.injEq] at hpid
    obtain ⟨hconn, rfl⟩ := hpid
    simp only [HostSys.allows, hconn, Bool.not_true, Bool.false_or] at hallows
    exact ⟨hconn, rfl, Option.isSome_iff_exists.1 hallows⟩
  have hobs : (h.observe (.sock owner sk eff)).procs = h.procs ∧
      (h.observe (.sock owner sk eff)).records = h.records := by
    simp only [HostSys.observe]
    split <;> exact ⟨rfl, rfl⟩
  have haw : ∀ {id pid n}, HostSys.Awaits { h.observe (.sock owner sk eff) with agent } id pid n →
      h.Awaits id pid n := by
    rintro id pid n ⟨call, c, k, hcall, hop, hst⟩
    simp only [hc, hobs.2] at hcall hst
    exact ⟨call, c, k, hcall, hop, hst⟩
  refine ⟨⟨by rw [← hi.zero.1, ← hobs.1], ?_⟩, ?_, ?_, ?_, ?_⟩
  · intro h0
    rcases (hmem 0).1 h0 with h0 | ⟨h0, -⟩
    · exact hi.zero.2 h0
    · obtain ⟨-, -, q, hq⟩ := hproc 0 h0
      rw [hi.zero.1] at hq
      cases hq
  · intro id call hcall
    rw [hobs.2]
    exact hi.follows (hc ▸ hcall)
  · intro id pid n ha q hq
    simp only [hobs.1] at hq
    exact hi.owned (haw ha) q hq
  · intro id pid n ha hpid
    simp only [HostSys.observe]
    split
    · next hacc =>
      by_cases heq : pid = sk.pid
      · -- the process that connects is the one the call started
        subst heq
        obtain ⟨-, -, q, hq⟩ := hproc sk.pid
          (by simp [AgentLabel.connectPid, AgentLabel.event, hacc.1])
        simp [hq, hi.owned (haw ha) q hq]
      · rcases (hmem pid).1 hpid with hpid | ⟨hpid, -⟩
        · simpa [heq] using hi.created (haw ha) hpid
        · exact absurd (hproc pid hpid).2.1 heq
    · next hacc =>
      rcases (hmem pid).1 hpid with hpid | ⟨hpid, hacc'⟩
      · exact hi.created (haw ha) hpid
      · obtain ⟨hconn, rfl, -⟩ := hproc pid hpid
        exact absurd ⟨hconn, hacc'⟩ hacc
  · intro id call met n hcall hread
    simp only [hc, hobs.2] at hcall hread ⊢
    exact hi.read hcall hread

variable {id : Nat} {c : AgentCmd} {k : c.Ret → AgentProg AgentResp} {r : c.Ret}
  {call call' : InFlight}

/-- A command of a call that starts nothing: the call moves on, with a new record `cr`. -/
theorem FreshInv.advance (hi : FreshInv h) (procs : UInt32 → Option Process) (cr : CallRecord)
    (hm : agent.world.maps.metricsMap = h.agent.world.maps.metricsMap)
    (hcall : h.agent.calls id = some call) (hop : call.prog = .op c k) (hprog : call'.prog = k r)
    (hc : agent.calls = Function.update h.agent.calls id (some call'))
    (hprocs : ∀ pid q, procs pid = some q → h.procs pid = some q)
    (hst : cr.started = (h.records id).started)
    (hview : cr.view = (h.records id).view.track ⟨c, r⟩)
    (hread : ∀ met n, cr.read = some (.ok met, n) →
      ∃ pid m, cr.started = some (pid, m) ∧ n = some m) :
    FreshInv { h with agent, procs, records := Function.update h.records id cr } := by
  refine hi.replace procs cr hm hc hprocs ?_ ?_ fun _ met n _ hr => hread met n hr
  · intro call₁ hcall₁
    cases hcall₁
    have hmeets := hi.follows hcall
    rw [hop] at hmeets
    rw [hprog, hview]
    exact hmeets.2 r
  · intro _ pid n _ hst₁
    rw [hst] at hst₁
    exact ⟨call, c, k, hcall, hop, hst₁⟩

/-- The process of a call gets an id that nobody waits for and that has no record. -/
theorem FreshInv.start (hi : FreshInv h) {argv : List String} {pid : UInt32}
    {k : (AgentCmd.start argv).Ret → AgentProg AgentResp}
    (hm : agent.world.maps.metricsMap = h.agent.world.maps.metricsMap)
    (hcall : h.agent.calls id = some call) (hop : call.prog = .op (.start argv) k)
    (hprog : call'.prog = k (.ok pid))
    (hc : agent.calls = Function.update h.agent.calls id (some call')) (hav : h.Available pid)
    (hnone : h.agent.world.maps.metricsMap.lookup pid = none)
    (hfree : ∀ id' n, ¬h.Awaits id' pid n) :
    FreshInv { (h.newProcess pid true).setRecord id
      { h.records id with started := some (pid, h.next) } with agent } := by
  have hmeets := hi.follows hcall
  rw [hop] at hmeets
  have hunstarted : (h.records id).started = none := Option.map_eq_none_iff.1 hmeets.1
  have haw : ∀ {id' pid' n}, HostSys.Awaits { (h.newProcess pid true).setRecord id
      { h.records id with started := some (pid, h.next) } with agent } id' pid' n →
      pid' = pid ∧ n = h.next ∨ pid' ≠ pid ∧ h.Awaits id' pid' n := by
    rintro id' pid' n ⟨call₁, c₁, k₁, hcall₁, hop₁, hst₁⟩
    by_cases hid : id' = id
    · subst hid
      simp only [HostSys.setRecord, Function.update_self, Option.some.injEq, Prod.mk.injEq] at hst₁
      exact .inl ⟨hst₁.1.symm, hst₁.2.symm⟩
    · simp only [HostSys.setRecord, HostSys.newProcess, hc, Function.update_of_ne hid]
        at hcall₁ hst₁
      have ha : h.Awaits id' pid' n := ⟨call₁, c₁, k₁, hcall₁, hop₁, hst₁⟩
      exact .inr ⟨fun heq => hfree id' n (heq ▸ ha), ha⟩
  refine ⟨⟨?_, by simpa only [hm] using hi.zero.2⟩, ?_, ?_, ?_, ?_⟩
  · simp only [HostSys.setRecord, HostSys.newProcess]
    rw [Function.update_of_ne hav.1.symm]
    exact hi.zero.1
  · intro id' call₁ hcall₁
    by_cases hid : id' = id
    · subst hid
      simp only [hc, HostSys.setRecord, Function.update_self, Option.some.injEq] at hcall₁ ⊢
      subst hcall₁
      rw [hprog]
      exact hmeets.2 (.ok pid)
    · simp only [hc, HostSys.setRecord, Function.update_of_ne hid] at hcall₁ ⊢
      exact hi.follows hcall₁
  · intro id' pid' n ha q hq
    simp only [HostSys.setRecord, HostSys.newProcess] at hq
    rcases haw ha with ⟨rfl, rfl⟩ | ⟨hne, ha⟩
    · rw [Function.update_self] at hq
      cases hq
      rfl
    · rw [Function.update_of_ne hne] at hq
      exact hi.owned ha q hq
  · intro id' pid' n ha hmem
    simp only [hm] at hmem
    rcases haw ha with ⟨rfl, rfl⟩ | ⟨-, ha⟩
    · obtain ⟨met, hmet⟩ := BoundedMap.mem_iff.1 hmem
      rw [hnone] at hmet
      cases hmet
    · exact hi.created ha hmem
  · intro id' call₁ met n hcall₁ hr
    by_cases hid : id' = id
    · -- it has read nothing yet
      subst hid
      simp only [HostSys.setRecord, Function.update_self] at hr
      obtain ⟨_, _, hst, -⟩ := hi.read hcall hr
      rw [hunstarted] at hst
      cases hst
    · simp only [hc, HostSys.setRecord, HostSys.newProcess, Function.update_of_ne hid]
        at hcall₁ hr ⊢
      exact hi.read hcall₁ hr

/-- A command of a call. -/
theorem FreshInv.command (hi : FreshInv h)
    (hs : AgentStep sha256Hex h.agent (.command id ⟨c, r⟩) agent)
    (hallows : h.allows (.command id ⟨c, r⟩) = true)
    (hnew : NewPid ⟨h, .agent (.command id ⟨c, r⟩),
      { h.observe (.command id ⟨c, r⟩) with agent }⟩)
    (hcall : h.agent.calls id = some call) (hop : call.prog = .op c k) (hprog : call'.prog = k r)
    (hc : agent.calls = Function.update h.agent.calls id (some call')) :
    FreshInv { h.observe (.command id ⟨c, r⟩) with agent } := by
  have hm : agent.world.maps.metricsMap = h.agent.world.maps.metricsMap := hs.metricsMap_eq rfl
  -- a command that changes nothing but the call
  have hsame : (h.records id).view = (h.records id).view.track ⟨c, r⟩ →
      FreshInv { h with agent } := by
    intro hview
    have := hi.advance h.procs (h.records id) hm hcall hop hprog hc (fun _ _ hq => hq) rfl hview
      fun met n hr => hi.read hcall hr
    rwa [Function.update_eq_self] at this
  cases c with
  | setLastCommand _ | getLastCommand | putAction _ _ => exact hsame rfl
  | start argv =>
    cases r with
    | error err => exact hsame rfl
    | ok pid =>
      obtain ⟨hnone, hfree⟩ := hnew.start id argv pid rfl
      exact hi.start hm hcall hop hprog hc (of_decide_eq_true hallows) hnone hfree
  | wait pid =>
    have := hi.advance (Function.update h.procs pid none) (h.records id) hm hcall hop hprog hc
      (fun _ _ => procs_of_release) rfl rfl fun met n hr => hi.read hcall hr
    rwa [Function.update_eq_self] at this
  | lookupMetric pid =>
    refine hi.advance h.procs _ hm hcall hop hprog hc (fun _ _ hq => hq) rfl rfl ?_
    intro met n hr
    cases hr
    have hmem : pid ∈ h.agent.world.maps.metricsMap.entries :=
      BoundedMap.mem_iff.2 ⟨met, hs.lookup_of_ok⟩
    have hmeets := hi.follows hcall
    rw [hop] at hmeets
    rcases hmeets.1 with hpid | rfl
    · obtain ⟨⟨_, m⟩, hst, rfl⟩ := Option.map_eq_some_iff.1 hpid
      exact ⟨_, m, hst, hi.created ⟨call, _, k, hcall, hop, hst⟩ hmem⟩
    · exact absurd hmem hi.zero.2

theorem FreshInv.spawn (hi : FreshInv h) {pid : UInt32} (hav : h.Available pid)
    (hfree : ∀ id n, ¬h.Awaits id pid n) : FreshInv (h.newProcess pid false) := by
  refine ⟨⟨?_, hi.zero.2⟩, hi.follows, ?_, hi.created, hi.read⟩
  · simp only [HostSys.newProcess]
    rw [Function.update_of_ne hav.1.symm]
    exact hi.zero.1
  · intro id pid' n ha q hq
    have hne : pid' ≠ pid := fun heq => hfree id n (heq ▸ ha)
    simp only [HostSys.newProcess, Function.update_of_ne hne] at hq
    exact hi.owned ha q hq

theorem FreshInv.exit (hi : FreshInv h) (pid : UInt32) :
    FreshInv { h with procs := Function.update h.procs pid none } :=
  ⟨⟨hi.procs_zero fun _ _ => procs_of_release, hi.zero.2⟩, hi.follows,
    fun ha q hq => hi.owned ha q (procs_of_release hq), hi.created, hi.read⟩

end Steps

theorem FreshInv.step {h h' : HostSys} {l : HostLabel} (hi : FreshInv h)
    (hs : HostStep sha256Hex h l h') (hnew : NewPid ⟨h, l, h'⟩) : FreshInv h' := by
  rcases hs.cases with ⟨al, agent, rfl, has, hallows, rfl⟩ | ⟨pid, rfl, hav, rfl⟩ | ⟨pid, rfl, rfl⟩
  · rcases has.call_cases with ⟨id, req, rfl, hc⟩ |
      ⟨id, c, k, r, call, call', rfl, hcall, hop, hprog, hc⟩ |
      ⟨id, resp, call, rfl, hcall, -, hc⟩ | ⟨owner, sk, eff, rfl, hc⟩
    · exact hi.call (has.metricsMap_eq rfl) hc
    · exact hi.command has hallows hnew hcall hop hprog hc
    · exact hi.answer (has.metricsMap_eq rfl) hc
    · exact hi.sock has hallows hc
  · exact hi.spawn hav (hnew.spawn pid rfl)
  · exact hi.exit pid

/-- At an answer the record read was created by the process of the call. -/
theorem FreshInv.fresh {x : HostTrans} (hi : FreshInv x.src)
    (hs : HostStep sha256Hex x.src x.lab x.dst) : Fresh x := by
  intro id resp obs hlab hobs
  rcases hs.cases with ⟨al, agent, hl, has, -, -⟩ | ⟨_, hl, -⟩ | ⟨_, hl, -⟩
  · rw [hlab] at hl
    cases hl
    rcases has.call_cases with ⟨_, _, hl, -⟩ | ⟨_, _, _, _, _, _, hl, -⟩ |
      ⟨_, _, call, hl, hcall, hret, -⟩ | ⟨_, _, _, hl, -⟩
    · cases hl
    · cases hl
    · cases hl
      have hmeets := hi.follows hcall
      rw [hret] at hmeets
      obtain ⟨met, hread, rfl⟩ := hmeets obs hobs
      obtain ⟨⟨_, n⟩, hr, rfl⟩ := Option.map_eq_some_iff.1 hread
      obtain ⟨pid, m, hst, rfl⟩ := hi.read hcall hr
      exact ⟨met, pid, m, hr, hst, rfl⟩
    · cases hl
  · rw [hlab] at hl
    cases hl
  · rw [hlab] at hl
    cases hl

/-- **Observations are fresh**: every observation a call returns was read from a record that a
`TCP_CONNECT` of the process this call started created, in every run in which the kernel gives each
new process a new id. -/
theorem observations_fresh {tr : List HostTrans} {h : HostSys}
    (hr : Lts.Run (HostStep sha256Hex) .init tr h) (hnew : ∀ x ∈ tr, NewPid x) :
    ∀ x ∈ tr, Fresh x := by
  intro x hx
  have hinv := (hr.restrict hnew).invariant_mem (I := FreshInv)
    (fun _ _ _ hi hs => hi.step hs.1 hs.2) freshInv_init x hx
  exact hinv.1.fresh (hr.step_of_mem x hx)

/-- The process id a step gives to a new process. -/
def HostLabel.newPid : HostLabel → Option UInt32
  | .agent (.command _ ⟨.start _, r⟩) =>
    match (r : Except String UInt32) with
    | .ok pid => some pid
    | .error _ => none
  | .spawn pid => some pid
  | _ => none

theorem newPid_of_none {x : HostTrans} (h : x.lab.newPid.isNone) : NewPid x := by
  constructor
  · intro id argv pid hlab
    rw [hlab] at h
    cases h
  · intro pid hlab
    rw [hlab] at h
    cases h

/-- The trace of a list of actions from the start of the host. -/
def playHost (as : List HostAction) : List HostTrans × HostSys :=
  Lts.played (HostSys.step sha256Google) .init as

/-- A `Reset` for the google command, as call 0, to its end. -/
def resetActions : List HostAction :=
  (baselineActions 0 ++ [AgentAction.command 0 {}, .command 0 {}, .answer 0]).map .agent

/-- The process gets a new id, connects and ends. -/
theorem observations_fresh_reset :
    ((playHost resetActions).1.map fun x => match x.lab with
      | .agent (.answer _ resp) => resp.observation.isSome
      | _ => false) = [false, false, false, false, false, false, false, false, false, true] ∧
    ∀ x ∈ (playHost resetActions).1, Fresh x := by
  refine ⟨by decide, observations_fresh (Lts.run_played rfl) ?_⟩
  -- only the fifth step starts a process, and no call started one before
  have hsplit : (playHost resetActions).1 =
      (playHost resetActions).1.take 4 ++ (playHost resetActions).1.drop 4 := by simp
  rw [hsplit]
  intro x hx
  rcases List.mem_append.1 hx with hx | hx
  · exact newPid_of_none (List.all_eq_true.1 (by decide :
      ((playHost resetActions).1.take 4).all fun x => x.lab.newPid.isNone) x hx)
  · rcases List.mem_cons.1 hx with rfl | hx
    · refine ⟨fun id argv pid hlab => ?_, fun pid hlab => by cases hlab⟩
      cases hlab
      refine ⟨by decide, ?_⟩
      rintro id' n ⟨_, _, _, _, _, hst⟩
      have hnone : (Function.update (fun _ => {}) 0 {} : Nat → CallRecord) id' = {} := by
        rw [Function.update_apply]
        split <;> rfl
      change ((Function.update (fun _ => {}) 0 {} : Nat → CallRecord) id').started = _ at hst
      rw [hnone] at hst
      cases hst
    · exact newPid_of_none (List.all_eq_true.1 (by decide :
        ((playHost resetActions).1.drop 5).all fun x => x.lab.newPid.isNone) x hx)

/-- After that, a `Step` whose process gets the same id and cannot resolve the name of its host. -/
def recycledActions : List HostAction :=
  resetActions ++
    [AgentAction.call 1 (.step { targetIp := "142.250.1.100", congAlgo := 1, initCwnd := 10 }),
     .command 1 {}, .command 1 {}, .command 1 {}, .command 1 { start := .ok 4242 },
     .command 1 { wait := some "exit status 6" }, .command 1 {}, .answer 1].map .agent

/-- The step reports the record of the earlier process. -/
theorem recycled_pid_reports_old_record :
    Lts.Run (HostStep sha256Google) .init (playHost recycledActions).1
      (playHost recycledActions).2 ∧ ¬∀ x ∈ (playHost recycledActions).1, Fresh x := by
  refine ⟨Lts.run_played rfl, fun hall => ?_⟩
  have hne : (playHost recycledActions).1 ≠ [] := by decide
  obtain ⟨met, pid, n, hread, hst, -⟩ := hall _ (List.getLast_mem hne) 1 _ _ rfl rfl
  cases hst
  cases hread

end SocketTuner.Agent
