import Mathlib.Data.List.Infix
import SocketTuner.Env.Reward
import SocketTuner.Lib.Prog
import SocketTuner.Proto

/-!
# The client environment

`server/socket_tuner_environment.py`: one `SocketTunerEnvironment` instance. Its methods are
programs over the RPCs they send; each returns what it returns or raises, with the instance after
it, since fields are assigned before an exception too. Log lines, `time.sleep` and
`get_metadata` are left out.

`grpc` refuses to send on a closed channel (`ValueError`), protobuf refuses a number that does not
fit its field (`ValueError`), and the observation type refuses a session id that is `None`.
-/

namespace SocketTuner.Env

/-! ## RPCs -/

/-- The RPCs of the stub, with their requests. -/
inductive Rpc
  | reset (req : ResetRequest)
  | step (req : StepRequest)
  | close (req : CloseRequest)
  deriving DecidableEq, Repr

/-- The response of an RPC. -/
def Rpc.Resp : Rpc → Type
  | .reset _ => ResetResponse
  | .step _ => StepResponse
  | .close _ => CloseResponse

/-- The response of an RPC, or the text of the `grpc.RpcError` raised instead. -/
def Rpc.Ret (rpc : Rpc) : Type := Except String rpc.Resp

/-- An RPC and what came of it. -/
abbrev RpcEvent := Prog.Event Rpc Rpc.Ret

/-- A method of the environment: it sends RPCs and ends with a value. -/
abbrev EnvProg := Prog Rpc Rpc.Ret

/-- The exceptions that leave a method of the environment. -/
inductive PyErr
  | rpcError (e : String)
  | runtimeError (msg : String)
  | valueError (msg : String)
  | validationError (msg : String)
  deriving DecidableEq, Repr

/-- `self.stub.Reset` -/
def sendReset (req : ResetRequest) : EnvProg (Except String ResetResponse) :=
  Prog.call (Rpc.reset req)
/-- `self.stub.Step` -/
def sendStep (req : StepRequest) : EnvProg (Except String StepResponse) := Prog.call (Rpc.step req)
/-- `self.stub.Close` -/
def sendClose (req : CloseRequest) : EnvProg (Except String CloseResponse) :=
  Prog.call (Rpc.close req)

/-! ## Data -/

/-- An entry of `TASKS`. -/
structure Task where
  name : String
  description : String
  command : String
  difficulty : String
  deriving DecidableEq, Repr

/-- The curriculum. -/
def TASKS : List Task :=
  [{ name := "google-latency"
     description :=
       "Minimize latency for small header-only requests (AWS to GCP/Google Global)."
     command := "curl -4 -sI -m 5 http://google.com"
     difficulty := "Easy" },
   { name := "hetzner-throughput"
     description := "Optimize throughput for a medium-sized file download (AWS to Hetzner)."
     command := "curl -4 -o /dev/null https://ash-speed.hetzner.com/100MB.bin"
     difficulty := "Medium" },
   { name := "github-bandwidth"
     description := "Maximize bandwidth for a large archive download (AWS to GitHub)."
     command :=
       "curl -4 -o /dev/null https://github.com/torvalds/linux/archive/refs/tags/v7.0-rc6.tar.gz"
     difficulty := "Hard" }]

/-- `TASKS[reset_count % len(TASKS)]`. -/
def currentTask (resetCount : Nat) : Task :=
  TASKS.get ⟨resetCount % TASKS.length, Nat.mod_lt _ (by decide)⟩

/-- The values of `cong_algo` in a UI action. -/
inductive CongAlgo
  | cubic
  | bbr
  deriving DecidableEq, Repr

/-- `UISocketTunerAction`: Python integers, unbounded. -/
structure UISocketTunerAction where
  maxPacingRate : Int := 0
  sndCwndClamp : Int := 0
  congAlgo : CongAlgo := .cubic
  initCwnd : Int := 10
  windowClamp : Int := 0
  noDelay : Int := 0
  rtoMin : Int := 0
  retransAfter : Int := 0
  enableEcn : Int := 0
  pacingStatus : Int := 0
  keepaliveIdle : Int := 0
  deriving DecidableEq, Repr

/-- The `metadata` of an observation: of a reset or of a step. -/
inductive Metadata
  | reset (task : Task)
  | step (step baselineDuration : Nat) (reduction : ℚ)
  deriving DecidableEq, Repr

/-- What `reset` and `step` return. -/
structure SocketTunerObservation where
  observation : Observation
  sessionId : String
  done : Bool
  reward : ℚ
  metadata : Metadata
  deriving DecidableEq, Repr

/-- What the process of the environment runs with: its `MAX_STEPS`, which it reads from its own
process environment, and what it keeps of a quotient, in Python a double. -/
structure EnvConfig where
  maxSteps : Int
  round : ℚ → ℚ := Rounding.binary64

/-- Nothing sets `MAX_STEPS`. -/
def EnvConfig.default : EnvConfig := { maxSteps := 5 }

/-- The fields of an instance; those of `_state` are `episodeId` and `stepCount`. -/
structure SocketTunerEnvironment where
  episodeId : String
  stepCount : Nat
  sessionId : Option String
  resetCount : Nat
  baselineDuration : Nat
  targetIp : String
  targetPort : UInt32
  channelClosed : Bool
  deriving DecidableEq, Repr

namespace SocketTunerEnvironment

/-- A new instance. -/
def init (episodeId : String := "") : SocketTunerEnvironment :=
  { episodeId, stepCount := 0, sessionId := none, resetCount := 0, baselineDuration := 0,
    targetIp := "", targetPort := 0, channelClosed := false }

/-- The session id, if it is truthy. -/
def session (env : SocketTunerEnvironment) : Option String :=
  env.sessionId.filter (· ≠ "")

/-- What `grpc` raises for an RPC on a closed channel. -/
def closedChannel : PyErr := .valueError "Cannot invoke RPC on closed channel!"

/-! ## `reset` -/

/-- The Python test for a busy cluster. -/
def isBusy (msg : String) : Bool :=
  let lower := msg.toList.map Char.toLower
  decide ("busy".toList <:+: lower) || decide ("no free agent".toList <:+: lower)

/-- The retry loop, with `left` attempts to go; it ends with a response that has `success`. -/
def resetAttempts (command : String) : (left : Nat) → EnvProg (Except PyErr ResetResponse)
  | 0 => pure (.error (.runtimeError
      "Failed to acquire an agent after 3 attempts (Cluster Busy)."))
  | left + 1 => do
    match ← sendReset ⟨command⟩ with
    | .ok response =>
      if response.success then pure (.ok response)
      else if isBusy response.message ∧ 0 < left then resetAttempts command left
      else pure (.error (.runtimeError s!"Router reset failed: {response.message}"))
    | .error e =>
      if 0 < left then resetAttempts command left
      else pure (.error (.runtimeError s!"Router connection failed after 3 attempts: {e}"))

/-- The next task, up to three attempts at an agent, then the baseline of the new session. The reset
count is kept even if this raises. -/
def reset (env : SocketTunerEnvironment) :
    EnvProg (Except PyErr SocketTunerObservation × SocketTunerEnvironment) :=
  let task := currentTask env.resetCount
  let env := { env with resetCount := env.resetCount + 1 }
  if env.channelClosed then pure (.error closedChannel, env)
  else do
    match ← resetAttempts task.command 3 with
    | .error e => pure (.error e, env)
    | .ok response =>
      let obs := response.initialObservation.getD {}
      let env := { env with
        sessionId := some response.sessionId
        episodeId := response.sessionId
        stepCount := 0
        baselineDuration := obs.durationUs.toNat
        targetIp := obs.remoteIp
        targetPort := obs.remotePort }
      pure (.ok { observation := obs, sessionId := response.sessionId, done := false,
                  reward := 1 / 100, metadata := .reset task }, env)

/-! ## `step` -/

/-- Assigning a Python integer to a `uint32` field. -/
def toUint32 (v : Int) : Except PyErr UInt32 :=
  if 0 ≤ v ∧ v < 2 ^ 32 then .ok (UInt32.ofNat v.toNat)
  else .error (.valueError s!"Value out of range: {v}")

/-- `cong_algo_map`. -/
def congAlgoVal : CongAlgo → UInt32
  | .cubic => 1
  | .bbr => 2

/-- The request of a step, unless a number of the action does not fit its field. -/
def stepRequest (env : SocketTunerEnvironment) (action : UISocketTunerAction) :
    Except PyErr StepRequest := do
  pure { sessionId := env.sessionId.getD ""
         targetIp := env.targetIp
         targetPort := env.targetPort
         maxPacingRate := ← toUint32 action.maxPacingRate
         sndCwndClamp := ← toUint32 action.sndCwndClamp
         congAlgo := congAlgoVal action.congAlgo
         initCwnd := ← toUint32 action.initCwnd
         windowClamp := ← toUint32 action.windowClamp
         noDelay := ← toUint32 action.noDelay
         rtoMin := ← toUint32 action.rtoMin
         retransAfter := ← toUint32 action.retransAfter
         enableEcn := ← toUint32 action.enableEcn
         pacingStatus := ← toUint32 action.pacingStatus
         keepaliveIdle := ← toUint32 action.keepaliveIdle }

/-- `done` as `step` computes it from its response. -/
def stepDone (cfg : EnvConfig) (env : SocketTunerEnvironment) (response : StepResponse)
    (sc : Score) : Bool :=
  response.done || sc.doneEarly || decide (cfg.maxSteps ≤ env.stepCount)

/-- What `step` returns after its response and, if it was sent, its `Close`. -/
def stepResult (env : SocketTunerEnvironment) (obs : Observation) (done : Bool) (sc : Score) :
    Except PyErr SocketTunerObservation :=
  match env.sessionId with
  | none => .error (.validationError "session_id: Input should be a valid string")
  | some sessionId =>
    .ok { observation := obs, sessionId, done, reward := sc.reward,
          metadata := .step env.stepCount env.baselineDuration sc.reduction }

/-- The part of `step` that follows its response. -/
def scoreStep (cfg : EnvConfig) (env : SocketTunerEnvironment) (response : StepResponse) :
    EnvProg (Except PyErr SocketTunerObservation) :=
  let obs := response.observation.getD {}
  let sc := score cfg.round env.baselineDuration obs.durationUs.toNat
  let done := stepDone cfg env response sc
  match if done then env.session else none with
  | some sessionId => do
    -- `_session_id` keeps its value
    let _ ← sendClose ⟨sessionId⟩
    pure (stepResult env obs done sc)
  | none => pure (stepResult env obs done sc)

/-- Count the step, send it, and score what comes back. The count is kept even if this raises. -/
def step (cfg : EnvConfig) (action : UISocketTunerAction) (env : SocketTunerEnvironment) :
    EnvProg (Except PyErr SocketTunerObservation × SocketTunerEnvironment) :=
  let env := { env with stepCount := env.stepCount + 1 }
  match stepRequest env action with
  | .error e => pure (.error e, env)
  | .ok req =>
    if env.channelClosed then pure (.error closedChannel, env)
    else do
      match ← sendStep req with
      | .error e => pure (.error (.rpcError e), env)
      | .ok response =>
        let r ← scoreStep cfg env response
        pure (r, env)

/-! ## `close` -/

/-- Release the agent if still active, and close the channel. -/
def close (env : SocketTunerEnvironment) :
    EnvProg (Except PyErr Unit × SocketTunerEnvironment) :=
  match env.session with
  | none => pure (.ok (), { env with channelClosed := true })
  | some sessionId =>
    let closed := { env with sessionId := none, channelClosed := true }
    if env.channelClosed then pure (.ok (), closed)
    else do
      let _ ← sendClose ⟨sessionId⟩
      pure (.ok (), closed)

end SocketTunerEnvironment

/-! ## Calls -/

/-- A method call on an instance. -/
inductive Call
  | reset
  | step (action : UISocketTunerAction)
  | close
  deriving DecidableEq, Repr

/-- What a call returns or raises; only `close` returns no observation. -/
abbrev CallResult := Except PyErr (Option SocketTunerObservation)

/-- The program of a call. -/
def perform (cfg : EnvConfig) (env : SocketTunerEnvironment) :
    Call → EnvProg (CallResult × SocketTunerEnvironment)
  | .reset => do
    let (r, env) ← env.reset
    pure (r.map some, env)
  | .step action => do
    let (r, env) ← env.step cfg action
    pure (r.map some, env)
  | .close => do
    let (r, env) ← env.close
    pure (r.map fun _ => none, env)

end SocketTuner.Env
