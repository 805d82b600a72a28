import Mathlib.Order.Basic

/-!
# Messages of the agent protocol

`env-router/proto/agent.proto`. The client calls the router and the router calls an agent with the
same three messages. A `string` or number that is not set reads as its default, a message field
that is not set is `none`.

A Go handler returns a response, or an error with or without a response (`Handled`). gRPC delivers
to the caller the response when the error is nil, and otherwise the error alone (`deliver`).
-/

namespace SocketTuner

/-- What a connection did, as the client sees it; the units are those of the field names. -/
structure Observation where
  remoteIp : String := ""
  remotePort : UInt32 := 0
  srttUs : UInt32 := 0
  mdevUs : UInt32 := 0
  totalRetrans : UInt32 := 0
  bytesSent : UInt64 := 0
  bytesReceived : UInt64 := 0
  durationUs : UInt64 := 0
  deriving DecidableEq, Repr

/-- Start an episode of the command. -/
structure ResetRequest where
  command : String
  deriving DecidableEq, Repr

/-- Whether the episode started, under which session, and what its baseline run did. -/
structure ResetResponse where
  success : Bool := false
  message : String := ""
  sessionId : String := ""
  initialObservation : Option Observation := none
  deriving DecidableEq, Repr

/-- The action for the next run of the episode's command, and the address it is for. -/
structure StepRequest where
  sessionId : String := ""
  targetIp : String := ""
  targetPort : UInt32 := 0
  maxPacingRate : UInt32 := 0
  sndCwndClamp : UInt32 := 0
  congAlgo : UInt32 := 0
  initCwnd : UInt32 := 0
  windowClamp : UInt32 := 0
  noDelay : UInt32 := 0
  rtoMin : UInt32 := 0
  retransAfter : UInt32 := 0
  enableEcn : UInt32 := 0
  pacingStatus : UInt32 := 0
  keepaliveIdle : UInt32 := 0
  deriving DecidableEq, Repr

/-- Whether the episode is over, and what the run did. -/
structure StepResponse where
  done : Bool := false
  observation : Option Observation := none
  deriving DecidableEq, Repr

/-- End the session. -/
structure CloseRequest where
  sessionId : String := ""
  deriving DecidableEq, Repr

/-- Whether the session ended. -/
structure CloseResponse where
  success : Bool := false
  deriving DecidableEq, Repr

/-- What a handler returns: a response with a nil error, or an error next to a response or nil. -/
inductive Handled (α : Type)
  | ok (resp : α)
  | fail (resp : Option α) (err : String)
  deriving DecidableEq, Repr

namespace Handled

variable {α : Type}

/-- The response the handler produced, whatever the error. -/
def produced : Handled α → Option α
  | .ok resp => some resp
  | .fail resp _ => resp

/-- What gRPC delivers: with a non-nil error only the error, as a status of unknown code. -/
def deliver : Handled α → Except String α
  | .ok resp => .ok resp
  | .fail _ err => .error s!"rpc error: code = Unknown desc = {err}"

@[simp] theorem deliver_eq_ok {h : Handled α} {resp : α} : h.deliver = .ok resp ↔ h = .ok resp := by
  cases h <;> simp [deliver]

end Handled

end SocketTuner
