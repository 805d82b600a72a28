import SocketTuner.Env.Environment

/-!
# Actions and observations

`models.py`: the conversions between the low-level action and observation, the action of the
environment's interface (`UISocketTunerAction`) and what a language model reads and writes.
`wrap` takes back what `unwrap` made (`wrap_unwrap`).
-/

namespace SocketTuner.Env

/-- The low-level action. -/
structure SocketTunerAction where
  targetIp : String
  targetPort : Int
  maxPacingRate : Int := 0
  sndCwndClamp : Int := 0
  congAlgo : Int := 1
  initCwnd : Int := 10
  windowClamp : Int := 0
  noDelay : Int := 0
  rtoMin : Int := 0
  retransAfter : Int := 0
  enableEcn : Int := 0
  pacingStatus : Int := 0
  keepaliveIdle : Int := 0
  deriving DecidableEq, Repr

/-- The action of a language model. -/
structure LLMSocketTunerAction where
  maxPacingRate : Int := 0
  sndCwndClamp : Int := 0
  congAlgo : CongAlgo := .cubic
  initCwnd : Int := 10
  windowClamp : Int := 0
  noDelay : Bool := false
  rtoMinMs : Int := 0
  retransAfter : Int := 0
  enableEcn : Bool := false
  pacingStatus : Bool := false
  keepaliveIdleMs : Int := 0
  deriving DecidableEq, Repr

namespace LLMSocketTunerAction

/-- The low-level action of this one, towards an address. -/
def unwrap (a : LLMSocketTunerAction) (targetIp : String) (targetPort : Int) :
    SocketTunerAction :=
  { targetIp, targetPort
    maxPacingRate := a.maxPacingRate
    sndCwndClamp := a.sndCwndClamp
    congAlgo := if a.congAlgo = .cubic then 1 else 2
    initCwnd := a.initCwnd
    windowClamp := a.windowClamp
    noDelay := if a.noDelay then 1 else 0
    rtoMin := a.rtoMinMs
    retransAfter := a.retransAfter
    enableEcn := if a.enableEcn then 1 else 0
    pacingStatus := if a.pacingStatus then 1 else 0
    keepaliveIdle := a.keepaliveIdleMs }

/-- The action of the interface. -/
def toUiAction (a : LLMSocketTunerAction) : UISocketTunerAction :=
  { maxPacingRate := a.maxPacingRate
    sndCwndClamp := a.sndCwndClamp
    congAlgo := a.congAlgo
    initCwnd := a.initCwnd
    windowClamp := a.windowClamp
    noDelay := if a.noDelay then 1 else 0
    rtoMin := a.rtoMinMs
    retransAfter := a.retransAfter
    enableEcn := if a.enableEcn then 1 else 0
    pacingStatus := if a.pacingStatus then 1 else 0
    keepaliveIdle := a.keepaliveIdleMs }

/-- The action of a language model that a low-level one stands for. -/
def wrap (action : SocketTunerAction) : LLMSocketTunerAction :=
  { maxPacingRate := action.maxPacingRate
    sndCwndClamp := action.sndCwndClamp
    congAlgo := if action.congAlgo = 1 then .cubic else .bbr
    initCwnd := action.initCwnd
    windowClamp := action.windowClamp
    noDelay := action.noDelay ≠ 0
    rtoMinMs := action.rtoMin
    retransAfter := action.retransAfter
    enableEcn := action.enableEcn ≠ 0
    pacingStatus := action.pacingStatus ≠ 0
    keepaliveIdleMs := action.keepaliveIdle }

/-- The low-level action keeps all a language model asked for. -/
theorem wrap_unwrap (a : LLMSocketTunerAction) (targetIp : String) (targetPort : Int) :
    wrap (a.unwrap targetIp targetPort) = a := by
  obtain ⟨_, _, algo, _, _, delay, _, _, ecn, pacing, _⟩ := a
  cases algo <;> cases delay <;> cases ecn <;> cases pacing <;> rfl

end LLMSocketTunerAction

/-- What a language model is shown, in milliseconds. -/
structure LLMSocketTunerObservation where
  remoteIp : String
  remotePort : UInt32
  srttMs : ℚ
  mdevMs : ℚ
  totalRetrans : UInt32
  bytesSent : UInt64
  bytesReceived : UInt64
  totalDurationMs : ℚ
  sessionId : String
  reward : ℚ
  done : Bool
  metadata : Metadata
  deriving DecidableEq, Repr

/-- What a language model is shown of an observation. -/
def LLMSocketTunerObservation.wrap (obs : SocketTunerObservation) : LLMSocketTunerObservation :=
  { remoteIp := obs.observation.remoteIp
    remotePort := obs.observation.remotePort
    srttMs := obs.observation.srttUs.toNat / 1000
    mdevMs := obs.observation.mdevUs.toNat / 1000
    totalRetrans := obs.observation.totalRetrans
    bytesSent := obs.observation.bytesSent
    bytesReceived := obs.observation.bytesReceived
    totalDurationMs := obs.observation.durationUs.toNat / 1000
    sessionId := obs.sessionId
    reward := obs.reward
    done := obs.done
    metadata := obs.metadata }

end SocketTuner.Env
