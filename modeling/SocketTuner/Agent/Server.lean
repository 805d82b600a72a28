import SocketTuner.Agent.NetIP
import SocketTuner.Agent.Sockops
import SocketTuner.Lib.Prog
import SocketTuner.Proto

/-!
# The agent

`env-ebpf-agent/internal`: the executor, the eBPF manager and the two gRPC handlers, as programs
over what they share with other calls and with the host: the field `lastCommand`, child processes
and the maps of the sockops program. Each command is one atomic access.

SHA-256 in hexadecimal is a parameter. The errors that the operating system and the eBPF library
return are texts given from outside. `time.Sleep` is left out: a sockops event can come before
any command.
-/

namespace SocketTuner.Agent

/-- The operations of the agent on what its calls share: the command field under its lock, the
processes and the maps. -/
inductive AgentCmd
  | setLastCommand (cmd : String)
  | getLastCommand
  /-- `cmd.Start()` -/
  | start (argv : List String)
  /-- `cmd.Wait()` -/
  | wait (pid : UInt32)
  | putAction (key : IpPortKey) (action : TuningAction)
  | lookupMetric (pid : UInt32)
  deriving DecidableEq, Repr

/-- What an operation returns; a Go `error` is an `Option`, or an `Except` next to a value. -/
def AgentCmd.Ret : AgentCmd → Type
  | .setLastCommand _ => Unit
  | .getLastCommand => String
  | .start _ => Except String UInt32
  | .wait _ => Option String
  | .putAction _ _ => Option String
  | .lookupMetric _ => Except String TuningMetrics

/-- A program of the agent. -/
abbrev AgentProg := Prog AgentCmd AgentCmd.Ret

/-- `e.lastCommand = cmdStr`, under the lock. -/
def setLastCommand (cmd : String) : AgentProg Unit := Prog.call (AgentCmd.setLastCommand cmd)
/-- A read of `e.lastCommand`. -/
def getLastCommand : AgentProg String := Prog.call AgentCmd.getLastCommand
/-- `exec.Command` and `cmd.Start()`. -/
def cmdStart (argv : List String) : AgentProg (Except String UInt32) :=
  Prog.call (AgentCmd.start argv)
/-- `cmd.Wait()`. -/
def cmdWait (pid : UInt32) : AgentProg (Option String) := Prog.call (AgentCmd.wait pid)
/-- `m.objs.ActionMap.Put(key, action)`. -/
def actionMapPut (key : IpPortKey) (action : TuningAction) : AgentProg (Option String) :=
  Prog.call (AgentCmd.putAction key action)
/-- `m.objs.MetricsMap.Lookup(pid, &metric)`. -/
def metricsMapLookup (pid : UInt32) : AgentProg (Except String TuningMetrics) :=
  Prog.call (AgentCmd.lookupMetric pid)

/-! ## `executor.Executor` -/

namespace Executor

/-- The digests of the commands that may run. -/
def allowedHashes : List String :=
  ["b09f967a0e12ebf17a37cf7e6592477209a75ea0c7e54cc289db78fddf28830b", -- google-latency
   "22166f407dd0189cf36be886f83be1453aecc42edc5a3fa80978b547f4041f2f", -- hetzner-throughput
   "6d13daa22f70d3852eab8178e645d2209407b5a356339474304e5d108777ecee"] -- github-bandwidth

/-- Stores the command for the current episode after validating its SHA256 hash. -/
def setCommand (sha256Hex : String → String) (cmdStr : String) : AgentProg (Option String) :=
  let hashStr := sha256Hex cmdStr
  if hashStr ∉ allowedHashes then
    pure (some s!"unauthorized command: hash {hashStr} not in allowed list")
  else do
    setLastCommand cmdStr
    pure none

/-- `unicode.IsSpace`. -/
def isSpace (c : Char) : Bool :=
  c ∈ ['\t', '\n', '\x0b', '\x0c', '\r', ' ', '\x85', '\xa0', '\u1680', '\u2028', '\u2029',
    '\u202f', '\u205f', '\u3000'] || ('\u2000' ≤ c && c ≤ '\u200a')

/-- `strings.Fields`, with the field being read in `cur`. -/
def fieldsAux (cur : List Char) : List Char → List String
  | [] => if cur = [] then [] else [String.ofList cur]
  | c :: s =>
    if isSpace c then
      if cur = [] then fieldsAux [] s else String.ofList cur :: fieldsAux [] s
    else fieldsAux (cur ++ [c]) s

/-- `strings.Fields`. -/
def fields (s : String) : List String := fieldsAux [] s.toList

/-- Executes the currently configured command synchronously and waits for it to complete,
returning its PID. The field is read twice. -/
def run : AgentProg (UInt32 × Option String) := do
  let cmd ← getLastCommand
  if cmd = "" then
    pure (0, some "no command set or command unauthorized")
  else
    let cmd ← getLastCommand
    let parts := fields cmd
    if parts.length = 0 then
      pure (0, some "empty command")
    else
      match ← cmdStart parts with
      | .error err => pure (0, some s!"command start failed: {err}")
      | .ok pid =>
        match ← cmdWait pid with
        | some err => pure (pid, some s!"command execution failed: {err}")
        | none => pure (pid, none)

end Executor

/-! ## `ebpfmgr.Manager` -/

namespace Manager

/-- The key of an address in `action_map`; its port is always 0. -/
def ipToKey (ipStr : String) (_port : UInt32) : Except String IpPortKey :=
  match to4 (parseIP ipStr) with
  | [b0, b1, b2, b3] => .ok { ip := leUint32 b0 b1 b2 b3, port := 0 }
  | _ => .error "invalid IPv4 address"

/-- Configures the eBPF map with the RL action parameters. -/
def setAction (ip : String) (port : UInt32) (action : TuningAction) : AgentProg (Option String) :=
  match ipToKey ip port with
  | .error err => pure (some err)
  | .ok key => actionMapPut key action

/-- The address of a record as `GetMetricForPid` renders it. -/
def renderIp (metric : TuningMetrics) : String :=
  let (b0, b1, b2, b3) := lePutUint32 metric.remoteIp
  ipString b0 b1 b2 b3

/-- Looks up the metric payload of a process id, with its address rendered. -/
def getMetricForPid (pid : UInt32) : AgentProg (Except String (TuningMetrics × String × UInt32)) :=
  do
  match ← metricsMapLookup pid with
  | .error err => pure (.error s!"no metric found for PID {pid}: {err}")
  | .ok metric => pure (.ok (metric, renderIp metric, metric.remotePort))

end Manager

/-! ## `grpcserver.Server` -/

namespace Server

/-- The `Observation` built from a metric; `MdevUs` is not set. -/
def observation (metric : TuningMetrics) (ipStr : String) (port : UInt32) : Observation :=
  { remoteIp := ipStr, remotePort := port, srttUs := metric.srttUs,
    totalRetrans := metric.totalRetrans, bytesSent := metric.bytesSent,
    bytesReceived := metric.bytesReceived, durationUs := metric.durationUs }

/-- `Reset` stores the command and runs it once; a failure is a response, not an error. -/
def reset (sha256Hex : String → String) (req : ResetRequest) :
    AgentProg (Handled ResetResponse) := do
  match ← Executor.setCommand sha256Hex req.command with
  | some err => pure (.ok { success := false, message := err })
  | none =>
    -- Execute it once as a baseline without specific eBPF parameters.
    match ← Executor.run with
    | (_, some err) => pure (.ok { success := false, message := err })
    | (pid, none) =>
      let obs ← Manager.getMetricForPid pid
      pure (.ok { success := true, message := "Environment reset. Baseline run complete.",
                  initialObservation := match obs with
                    | .ok (metric, ipStr, port) => some (observation metric ipStr port)
                    | .error _ => none })

/-- The action a request carries. -/
def action (req : StepRequest) : TuningAction :=
  { maxPacingRate := req.maxPacingRate, sndCwndClamp := req.sndCwndClamp, congAlgo := req.congAlgo,
    initCwnd := req.initCwnd, windowClamp := req.windowClamp, noDelay := req.noDelay,
    rtoMin := req.rtoMin, retransAfter := req.retransAfter, enableEcn := req.enableEcn.toUInt8,
    pacingStatus := req.pacingStatus.toUInt8, keepaliveIdle := req.keepaliveIdle }

/-- `Step` stores the action, runs the command and reports what the run did. -/
def step (req : StepRequest) : AgentProg (Handled StepResponse) := do
  match ← Manager.setAction req.targetIp req.targetPort (action req) with
  | some err => pure (.fail none err)
  | none =>
    -- an error of the run is only logged
    let (pid, _) ← Executor.run
    match ← Manager.getMetricForPid pid with
    | .error err => pure (.fail (some { done := true }) err)
    | .ok (metric, ipStr, port) =>
      pure (.ok { done := false, observation := some (observation metric ipStr port) })

end Server

/-! ## The commands on the agent's state -/

/-- What the calls of an agent share: the field `lastCommand` and the maps. -/
structure AgentWorld where
  lastCommand : String
  maps : Maps

/-- The agent when it starts: no command, empty maps. -/
def AgentWorld.init : AgentWorld := { lastCommand := "", maps := .empty }

/-- What a command takes from outside: the outcome of a process start and of a wait, and the texts
of a failed map write and a failed lookup. -/
structure AgentOutside where
  start : Except String UInt32 := .ok 0
  wait : Option String := none
  putErr : String := "update: argument list too long"
  lookupErr : String := "lookup: key does not exist"

/-- `action_map` is a kernel hash map: a write fails when the key is new and the map is full. -/
def AgentCmd.exec (o : AgentOutside) : (c : AgentCmd) → AgentWorld → c.Ret × AgentWorld
  | .setLastCommand cmd, w => ((), { w with lastCommand := cmd })
  | .getLastCommand, w => (w.lastCommand, w)
  | .start _, w => (o.start, w)
  | .wait _, w => (o.wait, w)
  | .putAction key action, w =>
    (if w.maps.actionMap.Accepts key then none else some o.putErr,
     { w with maps := { w.maps with actionMap := w.maps.actionMap.update key action } })
  | .lookupMetric pid, w =>
    (match w.maps.metricsMap.lookup pid with
      | some metric => .ok metric
      | none => .error o.lookupErr, w)

/-! ## One call alone -/

/-- The host during one call: for the `n`-th command of the call, the sockops events that came
before it and its outcome. -/
structure Host where
  events : Nat → List SockOps := fun _ => []
  outside : Nat → AgentOutside := fun _ => {}

/-- The socket events change the maps. -/
def AgentWorld.observe (w : AgentWorld) (evs : List SockOps) : AgentWorld :=
  { w with maps := runEvents w.maps evs }

/-- The `n`-th command of a call, after the events that precede it. -/
def AgentCmd.execAt (host : Host) (c : AgentCmd) (s : AgentWorld × Nat) :
    c.Ret × (AgentWorld × Nat) :=
  let r := c.exec (host.outside s.2) (s.1.observe (host.events s.2))
  (r.1, r.2, s.2 + 1)

/-- A program of the agent on its own, as the only call in progress. -/
def AgentProg.alone {α : Type} (p : AgentProg α) (host : Host) (w : AgentWorld) (n : Nat := 0) :
    α × (AgentWorld × Nat) :=
  p.run (AgentCmd.execAt host) (w, n)

@[simp] theorem AgentWorld.lastCommand_observe (w : AgentWorld) (evs : List SockOps) :
    (w.observe evs).lastCommand = w.lastCommand := rfl

theorem actionMap_runEvents (evs : List SockOps) (m : Maps) :
    (runEvents m evs).actionMap = m.actionMap := by
  induction evs generalizing m with
  | nil => rfl
  | cons sk evs ih => exact (ih _).trans (actionMap_bpfSockmap m sk)

@[simp] theorem AgentWorld.actionMap_observe (w : AgentWorld) (evs : List SockOps) :
    (w.observe evs).maps.actionMap = w.maps.actionMap :=
  actionMap_runEvents evs w.maps

namespace AgentProg

variable {α β : Type} (host : Host) (w : AgentWorld) (n : Nat)

@[simp] theorem alone_ret (a : α) : AgentProg.alone (.ret a) host w n = (a, w, n) := rfl

theorem alone_bind (p : AgentProg α) (f : α → AgentProg β) :
    (p >>= f).alone host w n =
      (f (p.alone host w n).1).alone host (p.alone host w n).2.1 (p.alone host w n).2.2 :=
  Prog.run_bind _ p f (w, n)

@[simp] theorem alone_setLastCommand (cmd : String) (f : Unit → AgentProg α) :
    (setLastCommand cmd >>= f).alone host w n =
      (f ()).alone host { w.observe (host.events n) with lastCommand := cmd } (n + 1) := rfl

@[simp] theorem alone_getLastCommand (f : String → AgentProg α) :
    (getLastCommand >>= f).alone host w n =
      (f w.lastCommand).alone host (w.observe (host.events n)) (n + 1) := rfl

@[simp] theorem alone_cmdStart (argv : List String) (f : Except String UInt32 → AgentProg α) :
    (cmdStart argv >>= f).alone host w n =
      (f (host.outside n).start).alone host (w.observe (host.events n)) (n + 1) := rfl

@[simp] theorem alone_cmdWait (pid : UInt32) (f : Option String → AgentProg α) :
    (cmdWait pid >>= f).alone host w n =
      (f (host.outside n).wait).alone host (w.observe (host.events n)) (n + 1) := rfl

@[simp] theorem alone_metricsMapLookup (pid : UInt32)
    (f : Except String TuningMetrics → AgentProg α) :
    (metricsMapLookup pid >>= f).alone host w n =
      (f (match (w.observe (host.events n)).maps.metricsMap.lookup pid with
        | some metric => .ok metric
        | none => .error (host.outside n).lookupErr)).alone host (w.observe (host.events n))
          (n + 1) :=
  rfl

theorem alone_actionMapPut (key : IpPortKey) (action : TuningAction) :
    ((actionMapPut key action).alone host w n).1 =
      if w.maps.actionMap.Accepts key then none else some (host.outside n).putErr := by
  rw [← w.actionMap_observe (host.events n)]
  rfl

end AgentProg

theorem Executor.setCommand_allowed {sha256Hex : String → String} {cmdStr : String}
    (h : sha256Hex cmdStr ∈ allowedHashes) (host : Host) (w : AgentWorld) (n : Nat) :
    (setCommand sha256Hex cmdStr).alone host w n =
      (none, { w.observe (host.events n) with lastCommand := cmdStr }, n + 1) := by
  simp [setCommand, h]

theorem Manager.getMetricForPid_alone (pid : UInt32) (host : Host) (w : AgentWorld) (n : Nat) :
    (getMetricForPid pid).alone host w n =
      (match (w.observe (host.events n)).maps.metricsMap.lookup pid with
        | some metric => .ok (metric, renderIp metric, metric.remotePort)
        | none => .error s!"no metric found for PID {pid}: {(host.outside n).lookupErr}",
       w.observe (host.events n), n + 1) := by
  rw [getMetricForPid, AgentProg.alone_metricsMapLookup]
  cases (w.observe (host.events n)).maps.metricsMap.lookup pid <;> rfl

/-- `GetMetricForPid` reports the record of the process, with its address rendered. -/
theorem Manager.getMetricForPid_run_ok_iff {pid port : UInt32} {o : AgentOutside} {w : AgentWorld}
    {metric : TuningMetrics} {ip : String} :
    ((getMetricForPid pid).run (AgentCmd.exec o) w).1 = .ok (metric, ip, port) ↔
      w.maps.metricsMap.lookup pid = some metric ∧ renderIp metric = ip ∧
        metric.remotePort = port := by
  have hlookup : (metricsMapLookup pid).run (AgentCmd.exec o) w =
      (match w.maps.metricsMap.lookup pid with
        | some metric => .ok metric
        | none => .error o.lookupErr, w) := rfl
  rw [getMetricForPid, Prog.run_bind, hlookup]
  cases w.maps.metricsMap.lookup pid with
  | none => simp [Prog.run]
  | some metric' =>
    simp only [Prog.pure_eq, Prog.run, Except.ok.injEq, Prod.mk.injEq, Option.some.injEq]
    constructor
    · rintro ⟨rfl, hip, hport⟩
      exact ⟨rfl, hip, hport⟩
    · rintro ⟨rfl, hip, hport⟩
      exact ⟨rfl, hip, hport⟩

/-- `Run` returns no error exactly when the command has a field, its process starts and its wait
returns no error. -/
theorem Executor.run_ok_iff (host : Host) (w : AgentWorld) (n : Nat) :
    (run.alone host w n).1.2 = none ↔
      fields w.lastCommand ≠ [] ∧ (∃ pid, (host.outside (n + 2)).start = .ok pid) ∧
        (host.outside (n + 3)).wait = none := by
  unfold run
  by_cases hc : w.lastCommand = ""
  · have hf : fields "" = [] := rfl
    simp [hc, hf]
  by_cases hf : fields w.lastCommand = []
  · simp [hc, hf]
  cases hs : (host.outside (n + 2)).start with
  | error err => simp [hc, hf, hs]
  | ok pid => cases hw : (host.outside (n + 3)).wait <;> simp [hc, hf, hs, hw]

namespace Server

/-- The command is authorized and the baseline run succeeds. -/
def ResetSucceeds (sha256Hex : String → String) (req : ResetRequest) (host : Host) : Prop :=
  sha256Hex req.command ∈ Executor.allowedHashes ∧ Executor.fields req.command ≠ [] ∧
    (∃ pid, (host.outside 3).start = .ok pid) ∧ (host.outside 4).wait = none

/-- `Reset` never returns an error; it reports a failure in the response. -/
theorem reset_alone (sha256Hex : String → String) (req : ResetRequest) (host : Host)
    (w : AgentWorld) :
    ∃ resp, ((reset sha256Hex req).alone host w).1 = .ok resp ∧
      (resp.success = true ↔ ResetSucceeds sha256Hex req host) := by
  unfold reset
  rw [AgentProg.alone_bind]
  by_cases ha : sha256Hex req.command ∈ Executor.allowedHashes
  · have hrun := Executor.run_ok_iff host
      { w.observe (host.events 0) with lastCommand := req.command } 1
    rw [Executor.setCommand_allowed ha]
    simp only [AgentProg.alone_bind]
    generalize Executor.run.alone host _ _ = r at hrun ⊢
    obtain ⟨⟨pid, err⟩, w', n'⟩ := r
    cases err with
    | some err => exact ⟨_, rfl, by simpa [ResetSucceeds, ha] using hrun⟩
    | none => exact ⟨_, congrArg Prod.fst (AgentProg.alone_bind _ _ _ _ _), by
        simpa [ResetSucceeds, ha] using hrun⟩
  · refine ⟨_, by simp [Executor.setCommand, ha]; rfl, ?_⟩
    simp [ResetSucceeds, ha]

/-- The world after the action was written. -/
def afterPut (req : StepRequest) (key : IpPortKey) (host : Host) (w : AgentWorld) : AgentWorld :=
  ((actionMapPut key (action req)).alone host w).2.1

/-- What `Run` does during a step whose action was written. -/
def stepRun (req : StepRequest) (key : IpPortKey) (host : Host) (w : AgentWorld) :
    (UInt32 × Option String) × (AgentWorld × Nat) :=
  Executor.run.alone host (afterPut req key host w) 1

/-- The record `metrics_map` holds for the process of that run when it is looked up. -/
def stepMetric (req : StepRequest) (key : IpPortKey) (host : Host) (w : AgentWorld) :
    Option TuningMetrics :=
  let r := stepRun req key host w
  (r.2.1.observe (host.events r.2.2)).maps.metricsMap.lookup r.1.1

/-- The observation a step reports for a record. -/
def reported (metric : TuningMetrics) : Observation :=
  observation metric (Manager.renderIp metric) metric.remotePort

/-- **The outcomes of a step.** The error of the run does not occur in it. -/
theorem step_alone (req : StepRequest) (host : Host) (w : AgentWorld) :
    (∃ err, Manager.ipToKey req.targetIp req.targetPort = .error err ∧
      ((step req).alone host w).1 = .fail none err) ∨
    ∃ key, Manager.ipToKey req.targetIp req.targetPort = .ok key ∧
      ((¬w.maps.actionMap.Accepts key ∧
        ((step req).alone host w).1 = .fail none (host.outside 0).putErr) ∨
       (w.maps.actionMap.Accepts key ∧
        ((∃ err, stepMetric req key host w = none ∧
          ((step req).alone host w).1 = .fail (some { done := true }) err) ∨
         ∃ metric, stepMetric req key host w = some metric ∧
          ((step req).alone host w).1 =
            .ok { done := false, observation := some (reported metric) }))) := by
  unfold step
  rw [AgentProg.alone_bind]
  cases hk : Manager.ipToKey req.targetIp req.targetPort with
  | error err => exact .inl ⟨err, rfl, by simp [Manager.setAction, hk]⟩
  | ok key =>
    refine .inr ⟨key, rfl, ?_⟩
    have hput := AgentProg.alone_actionMapPut host w 0 key (action req)
    simp only [Manager.setAction, hk]
    by_cases ha : w.maps.actionMap.Accepts key
    · refine .inr ⟨ha, ?_⟩
      rw [if_pos ha] at hput
      have hput' : (actionMapPut key (action req)).alone host w =
          (none, afterPut req key host w, 1) := Prod.ext hput rfl
      rw [hput']
      simp only [AgentProg.alone_bind, Manager.getMetricForPid_alone, stepMetric, stepRun]
      cases AgentWorld.maps _ |>.metricsMap.lookup _ with
      | none => exact .inl ⟨_, rfl, rfl⟩
      | some metric => exact .inr ⟨metric, rfl, rfl⟩
    · rw [if_neg ha] at hput
      exact .inl ⟨ha, by simp [hput]⟩

/-- `SetAction` fails, or `metrics_map` has a record of the run's process. -/
def MetricFound (req : StepRequest) (host : Host) (w : AgentWorld) : Prop :=
  ∀ key, Manager.ipToKey req.targetIp req.targetPort = .ok key → w.maps.actionMap.Accepts key →
    (stepMetric req key host w).isSome

/-- A step produces a response with `Done` exactly when the record is missing, and then returns it
next to an error. -/
theorem step_done_iff (req : StepRequest) (host : Host) (w : AgentWorld) :
    (∃ resp, ((step req).alone host w).1.produced = some resp ∧ resp.done = true) ↔
      ¬MetricFound req host w := by
  unfold MetricFound
  rcases step_alone req host w with ⟨err, hk, hres⟩ | ⟨key, hk, ⟨ha, hres⟩ | ⟨ha, h⟩⟩
  · simp [hk, hres, Handled.produced]
  · simp [hk, hres, Handled.produced, ha]
  · rcases h with ⟨err, hm, hres⟩ | ⟨metric, hm, hres⟩
    · simp [hk, hres, Handled.produced, ha, hm]
    · simp [hk, hres, Handled.produced, ha, hm]

/-- A response with `Done` never reaches the caller. -/
theorem step_deliver_done {req : StepRequest} {host : Host} {w : AgentWorld}
    (h : ¬MetricFound req host w) : ∃ err, ((step req).alone host w).1.deliver = .error err := by
  obtain ⟨resp, hprod, hdone⟩ := (step_done_iff req host w).2 h
  rcases step_alone req host w with ⟨err, -, hres⟩ | ⟨key, -, ⟨-, hres⟩ | ⟨-, h⟩⟩
  · exact ⟨_, by rw [hres]; rfl⟩
  · exact ⟨_, by rw [hres]; rfl⟩
  · rcases h with ⟨err, -, hres⟩ | ⟨metric, -, hres⟩
    · exact ⟨_, by rw [hres]; rfl⟩
    · rw [hres] at hprod
      cases hprod
      cases hdone

theorem step_ok_iff (req : StepRequest) (host : Host) (w : AgentWorld) (resp : StepResponse) :
    ((step req).alone host w).1 = .ok resp ↔
      ∃ key metric, Manager.ipToKey req.targetIp req.targetPort = .ok key ∧
        w.maps.actionMap.Accepts key ∧ stepMetric req key host w = some metric ∧
        resp = { done := false, observation := some (reported metric) } := by
  rcases step_alone req host w with ⟨err, hk, hres⟩ | ⟨key, hk, ⟨ha, hres⟩ | ⟨ha, h⟩⟩
  · simp [hk, hres]
  · simp [hk, hres, ha]
  · rcases h with ⟨err, hm, hres⟩ | ⟨metric, hm, hres⟩
    · simp [hk, hres, hm]
    · simp [hk, hres, hm, ha, eq_comm]

end Server

end SocketTuner.Agent
