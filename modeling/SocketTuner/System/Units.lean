import SocketTuner.Agent.Actions
import SocketTuner.Env.Models
import SocketTuner.Env.Discipline

/-!
# An action from the model to the socket

A language model's action goes through `to_ui_action`, the request of `step`, the agent's action and
`bpf_sockmap`. Every number arrives as it was (`stepRequest_toUiAction`, `nextOptions_eq`), which is
right for all but one: the keepalive idle time is in milliseconds for the model and in seconds for
the socket, and nothing converts it (`units_survive_iff`).
-/

namespace SocketTuner.System

open Env Agent Prog

/-- The integer fields of an action. -/
def intFields (a : LLMSocketTunerAction) : List Int :=
  [a.maxPacingRate, a.sndCwndClamp, a.initCwnd, a.windowClamp, a.rtoMinMs, a.retransAfter,
   a.keepaliveIdleMs]

/-- The integer fields fit in `uint32`. -/
def Fits (a : LLMSocketTunerAction) : Prop := ∀ v ∈ intFields a, 0 ≤ v ∧ v < 2 ^ 32

instance (a : LLMSocketTunerAction) : Decidable (Fits a) :=
  inferInstanceAs (Decidable (∀ v ∈ intFields a, _))

/-! ## The request -/

/-- A number as a `uint32` of the request. -/
def word (v : Int) : UInt32 := UInt32.ofNat v.toNat

theorem word_toNat {v : Int} (h : 0 ≤ v ∧ v < 2 ^ 32) : ((word v).toNat : Int) = v := by
  have hlt : v.toNat < 2 ^ 32 := by omega
  rw [word, UInt32.toNat_ofNat_of_lt' hlt]
  omega

theorem word_eq_zero_iff {v : Int} (h : 0 ≤ v ∧ v < 2 ^ 32) : word v = 0 ↔ v = 0 := by
  have hv := word_toNat h
  constructor
  · intro hw
    rw [hw] at hv
    exact hv.symm
  · rintro rfl
    rfl

theorem toUint32_eq {v : Int} (h : 0 ≤ v ∧ v < 2 ^ 32) :
    SocketTunerEnvironment.toUint32 v = .ok (word v) := by
  rw [SocketTunerEnvironment.toUint32, if_pos h]
  rfl

/-- A `bool` in a `uint32` field. -/
def flag (b : Bool) : UInt32 := if b then 1 else 0

theorem toUint32_flag (b : Bool) :
    SocketTunerEnvironment.toUint32 (if b then 1 else 0) = .ok (flag b) := by
  cases b <;> rfl

/-- The request of a step with a model's action. -/
theorem stepRequest_toUiAction {a : LLMSocketTunerAction} (h : Fits a)
    (env : SocketTunerEnvironment) :
    env.stepRequest a.toUiAction = .ok
      { sessionId := env.sessionId.getD "", targetIp := env.targetIp, targetPort := env.targetPort,
        maxPacingRate := word a.maxPacingRate, sndCwndClamp := word a.sndCwndClamp,
        congAlgo := SocketTunerEnvironment.congAlgoVal a.congAlgo, initCwnd := word a.initCwnd,
        windowClamp := word a.windowClamp, noDelay := flag a.noDelay, rtoMin := word a.rtoMinMs,
        retransAfter := word a.retransAfter, enableEcn := flag a.enableEcn,
        pacingStatus := flag a.pacingStatus, keepaliveIdle := word a.keepaliveIdleMs } := by
  simp only [Fits, intFields, List.forall_mem_cons] at h
  obtain ⟨h1, h2, h3, h4, h5, h6, h7, -⟩ := h
  simp only [SocketTunerEnvironment.stepRequest, LLMSocketTunerAction.toUiAction, toUint32_flag,
    toUint32_eq h1, toUint32_eq h2, toUint32_eq h3, toUint32_eq h4, toUint32_eq h5, toUint32_eq h6,
    toUint32_eq h7]
  rfl

/-- The tuning fields and the target of a request, as a low-level action. -/
def lowLevel (req : StepRequest) : SocketTunerAction :=
  { targetIp := req.targetIp
    targetPort := req.targetPort.toNat
    maxPacingRate := req.maxPacingRate.toNat
    sndCwndClamp := req.sndCwndClamp.toNat
    congAlgo := req.congAlgo.toNat
    initCwnd := req.initCwnd.toNat
    windowClamp := req.windowClamp.toNat
    noDelay := req.noDelay.toNat
    rtoMin := req.rtoMin.toNat
    retransAfter := req.retransAfter.toNat
    enableEcn := req.enableEcn.toNat
    pacingStatus := req.pacingStatus.toNat
    keepaliveIdle := req.keepaliveIdle.toNat }

theorem flag_toNat (b : Bool) : ((flag b).toNat : Int) = if b then 1 else 0 := by
  cases b <;> rfl

theorem congAlgoVal_toNat (c : CongAlgo) :
    ((SocketTunerEnvironment.congAlgoVal c).toNat : Int) = if c = .cubic then 1 else 2 := by
  cases c <;> rfl

/-- The request carries what `unwrap` gives for the same action. -/
theorem lowLevel_of_stepRequest {a : LLMSocketTunerAction} (h : Fits a)
    {env : SocketTunerEnvironment} {req : StepRequest}
    (hreq : env.stepRequest a.toUiAction = .ok req) :
    lowLevel req = a.unwrap env.targetIp env.targetPort.toNat := by
  rw [stepRequest_toUiAction h] at hreq
  cases hreq
  simp only [Fits, intFields, List.forall_mem_cons] at h
  obtain ⟨h1, h2, h3, h4, h5, h6, h7, -⟩ := h
  simp only [lowLevel, LLMSocketTunerAction.unwrap, word_toNat h1, word_toNat h2, word_toNat h3,
    word_toNat h4, word_toNat h5, word_toNat h6, word_toNat h7, flag_toNat, congAlgoVal_toNat]

/-! ## The socket -/

/-- The kernel's name of the algorithm. -/
def algoName : CongAlgo → String
  | .cubic => "cubic"
  | .bbr => "bbr"

/-- The option is set to the number, unless that is zero. -/
def SetTo (opts : List SetSockOpt) (level optname : Nat) (v : Int) : Prop :=
  v ≠ 0 → ∃ w : UInt32, optval opts level optname = some (.u32 w) ∧ (w.toNat : Int) = v

/-- The keepalive idle time set, in seconds; zero when it is not set. -/
def keepIdleSeconds (opts : List SetSockOpt) : Nat :=
  match optval opts SOL_TCP TCP_KEEPIDLE with
  | some (.u32 v) => v.toNat
  | _ => 0

/-- The whole seconds are the milliseconds rounded to nearest. -/
def RoundsTo (ms : Int) (seconds : Nat) : Prop :=
  1000 * seconds ≤ ms + 500 ∧ ms ≤ 1000 * seconds + 500

/-- What an action asks for is what is set, in the units of each side. -/
structure UnitsSurvive (a : LLMSocketTunerAction) (env : SocketTunerEnvironment)
    (req : StepRequest) (opts : List SetSockOpt) : Prop where
  congAlgo : optval opts SOL_TCP TCP_CONGESTION = some (.name (algoName a.congAlgo))
  noDelay : optval opts SOL_TCP TCP_NODELAY = if a.noDelay then some (.u32 1) else none
  maxPacingRate : SetTo opts SOL_SOCKET SO_MAX_PACING_RATE a.maxPacingRate
  sndCwndClamp : SetTo opts SOL_TCP TCP_BPF_SNDCWND_CLAMP a.sndCwndClamp
  initCwnd : SetTo opts SOL_TCP TCP_BPF_IW a.initCwnd
  windowClamp : SetTo opts SOL_TCP TCP_WINDOW_CLAMP a.windowClamp
  keepaliveIdle : RoundsTo a.keepaliveIdleMs (keepIdleSeconds opts)
  request : lowLevel req = a.unwrap env.targetIp env.targetPort.toNat

theorem setTo_posVal {opts : List SetSockOpt} {level optname : Nat} {v : Int}
    (hv : 0 ≤ v ∧ v < 2 ^ 32) (h : optval opts level optname = posVal (word v)) :
    SetTo opts level optname v := by
  intro hne
  refine ⟨word v, ?_, word_toNat hv⟩
  rw [h, posVal, if_pos]
  exact fun hw => hne ((word_eq_zero_iff hv).1 hw)

/-- The seconds set are as many as the milliseconds asked for. -/
theorem keepIdleSeconds_eq {opts : List SetSockOpt} {v : Int} (hv : 0 ≤ v ∧ v < 2 ^ 32)
    (h : optval opts SOL_TCP TCP_KEEPIDLE = posVal (word v)) :
    (keepIdleSeconds opts : Int) = v := by
  rw [keepIdleSeconds, h, posVal]
  by_cases hw : word v = 0
  · rw [if_neg (not_not.2 hw), (word_eq_zero_iff hv).1 hw]
    rfl
  · rw [if_pos hw]
    exact word_toNat hv

/-- As many seconds as milliseconds are right only when there are none. -/
theorem roundsTo_self_iff {ms : Int} {seconds : Nat} (h : (seconds : Int) = ms) :
    RoundsTo ms seconds ↔ ms = 0 := by
  unfold RoundsTo
  omega

theorem congVal_algo (c : CongAlgo) :
    congVal (SocketTunerEnvironment.congAlgoVal c) = some (.name (algoName c)) := by
  cases c <;> decide

theorem posVal_flag (b : Bool) : posVal (flag b) = if b then some (.u32 1) else none := by
  cases b <;> decide

/-- **When units survive the pipeline.** The options set on the next connection to the target are
what the model asked for exactly when the kernel takes the action and no keepalive idle time is
asked for: everything else arrives, and the milliseconds are set as seconds. -/
theorem units_survive_iff {a : LLMSocketTunerAction} {env : SocketTunerEnvironment}
    {cfg : EnvConfig} {log : List RpcEvent} {req : StepRequest} {reply : Except String StepResponse}
    {res : Except PyErr SocketTunerObservation × SocketTunerEnvironment} {o : AgentOutside}
    {w : AgentWorld} {evs : List SockOps} {sk : SockOps} (hfits : Fits a)
    (hstep : After (env.step cfg a.toUiAction) log (.ret res))
    (hsent : ⟨.step req, reply⟩ ∈ log) (hden : Denotes env.targetIp sk.remoteIp4)
    (hest : sk.Established) :
    UnitsSurvive a env req (nextOptions req o w evs sk) ↔
      a.keepaliveIdleMs = 0 ∧ w.maps.actionMap.Accepts ⟨sk.remoteIp4, 0⟩ := by
  have hreq := SocketTunerEnvironment.stepRequest_of_sent hstep hsent
  have hlow := lowLevel_of_stepRequest hfits hreq
  rw [stepRequest_toUiAction hfits] at hreq
  have htarget : req.targetIp = env.targetIp := by cases hreq; rfl
  rw [nextOptions_eq (htarget ▸ hden) hest]
  by_cases ha : w.maps.actionMap.Accepts ⟨sk.remoteIp4, 0⟩
  · rw [if_pos ha]
    simp only [ha, and_true]
    have hvals := optval_calls (Server.action req)
    simp only [Fits, intFields, List.forall_mem_cons] at hfits
    obtain ⟨h1, h2, h3, h4, -, -, h7, -⟩ := hfits
    cases hreq
    obtain ⟨v1, v2, v3, v4, v5, v6, -, v8⟩ := hvals
    have hround := roundsTo_self_iff (keepIdleSeconds_eq h7 v8)
    constructor
    · intro h
      exact hround.1 h.keepaliveIdle
    · intro h
      exact ⟨v3.trans (congVal_algo _), v6.trans (posVal_flag _), setTo_posVal h1 v1,
        setTo_posVal h2 v2, setTo_posVal h3 v4, setTo_posVal h4 v5, hround.2 h, hlow⟩
  · rw [if_neg ha]
    constructor
    · intro h
      cases h.congAlgo
    · exact fun h => absurd h.2 ha

/-! ## Two actions -/

/-- An environment whose target is 142.250.1.100. -/
def targetEnv : SocketTunerEnvironment :=
  { SocketTunerEnvironment.init with
    sessionId := some "10.0.0.7:50051"
    targetIp := "142.250.1.100"
    targetPort := 80 }

/-- What a step with the action sends. -/
def sentFor (a : LLMSocketTunerAction) : List RpcEvent :=
  ((targetEnv.step .default a.toUiAction).play (replies false)).1

/-- Its request. -/
def requestFor (a : LLMSocketTunerAction) : StepRequest :=
  ((targetEnv.stepRequest a.toUiAction).toOption).getD {}

/-- An action with a window of 20 segments. -/
def windowAction : LLMSocketTunerAction := { congAlgo := .bbr, initCwnd := 20, noDelay := true }

theorem units_survive_window :
    UnitsSurvive windowAction targetEnv (requestFor windowAction)
      (nextOptions (requestFor windowAction) {} .init [] (googleEvent .activeEstablishedCb)) :=
  (units_survive_iff (by decide) (after_play (replies false) (targetEnv.step .default _))
    (show ⟨.step (requestFor windowAction), _⟩ ∈ sentFor windowAction from List.mem_cons_self)
    (by decide) ⟨rfl, .inl rfl⟩).2 ⟨rfl, by decide⟩

/-- A minute of keepalive idle time. -/
def keepaliveAction : LLMSocketTunerAction := { keepaliveIdleMs := 60000 }

/-- It is set to 60000 seconds. -/
theorem keepalive_set_in_milliseconds :
    Fits keepaliveAction ∧
    (∃ reply, ⟨.step (requestFor keepaliveAction), reply⟩ ∈ sentFor keepaliveAction) ∧
    optval (nextOptions (requestFor keepaliveAction) {} .init [] (googleEvent .activeEstablishedCb))
      SOL_TCP TCP_KEEPIDLE = some (.u32 60000) ∧
    ¬UnitsSurvive keepaliveAction targetEnv (requestFor keepaliveAction)
      (nextOptions (requestFor keepaliveAction) {} .init []
        (googleEvent .activeEstablishedCb)) := by
  have hopt : optval (nextOptions (requestFor keepaliveAction) {} .init []
      (googleEvent .activeEstablishedCb)) SOL_TCP TCP_KEEPIDLE = some (.u32 60000) := by decide
  refine ⟨by decide, ⟨_, List.mem_cons_self⟩, hopt, fun h => ?_⟩
  have hround := h.keepaliveIdle.1
  rw [keepIdleSeconds, hopt] at hround
  exact absurd hround (by decide)

end SocketTuner.System
