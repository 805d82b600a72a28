import SocketTuner.Env.Inference

/-!
# What the caller of an environment sees

A caller of a `SocketTunerEnvironment` knows what its calls returned or raised. That is all there is
to know: `Seen` is kept from the results alone, the fields of the instance are a function of it
(`env_of_seen`), and so what each call sends and returns follows from what was seen before
(`seen_explains`). In particular a reward is the score of two durations that the caller was shown,
and steps go to the session and the address that the last `reset` returned.
-/

namespace SocketTuner.Env

open Prog

namespace SocketTunerEnvironment

/-! ## What the methods send and return -/

theorem resetAttempts_asks {command : String} {left : Nat} :
    ∀ {log : List RpcEvent} {r : Except PyErr ResetResponse},
      After (resetAttempts command left) log (.ret r) → ∀ x ∈ log, x.1 = .reset ⟨command⟩ := by
  have hquiet : ∀ {err : PyErr} {log : List RpcEvent} {r : Except PyErr ResetResponse},
      After (.ret (.error err)) log (.ret r) → ∀ x ∈ log, x.1 = .reset ⟨command⟩ := by
    intro err log r h
    rw [(after_ret_iff.1 h).1]
    simp
  induction left with
  | zero => exact hquiet
  | succ left ih =>
    intro log r h
    obtain ⟨reply, log', rfl, hk⟩ := after_sendReset.1 h
    refine List.forall_mem_cons.2 ⟨rfl, ?_⟩
    cases reply with
    | error e =>
      simp only at hk
      split at hk
      · exact ih hk
      · exact hquiet hk
    | ok resp =>
      simp only at hk
      split at hk
      · rw [(after_ret_iff.1 hk).1]
        simp
      · split at hk
        · exact ih hk
        · exact hquiet hk

/-- The instance after a `reset` that returned the observation. -/
def started (env : SocketTunerEnvironment) (obs : SocketTunerObservation) :
    SocketTunerEnvironment :=
  { env with
    sessionId := some obs.sessionId
    episodeId := obs.sessionId
    stepCount := 0
    baselineDuration := obs.observation.durationUs.toNat
    targetIp := obs.observation.remoteIp
    targetPort := obs.observation.remotePort }

/-- What `reset` returns for a response. -/
def resetObservation (task : Task) (resp : ResetResponse) : SocketTunerObservation :=
  { observation := resp.initialObservation.getD {}, sessionId := resp.sessionId, done := false
    reward := 1 / 100, metadata := .reset task }

/-- A `reset` only asks for its task, and returns what the last answer says. -/
theorem reset_inv {env env' : SocketTunerEnvironment} {log : List RpcEvent}
    {r : Except PyErr SocketTunerObservation} (h : After env.reset log (.ret (r, env'))) :
    (∀ x ∈ log, x.1 = .reset ⟨(currentTask env.resetCount).command⟩) ∧
    (env.channelClosed = true → log = []) ∧
    ((∃ err, r = .error err ∧ env' = { env with resetCount := env.resetCount + 1 }) ∨
     ∃ pre req resp, env.channelClosed = false ∧ resp.success = true ∧
      log = pre ++ [⟨.reset req, (.ok resp : Except String ResetResponse)⟩] ∧
      r = .ok (resetObservation (currentTask env.resetCount) resp) ∧
      env' = { env with resetCount := env.resetCount + 1 }.started
        (resetObservation (currentTask env.resetCount) resp)) := by
  unfold reset at h
  cases hc : env.channelClosed with
  | true =>
    simp only [hc, ↓reduceIte] at h
    obtain ⟨rfl, hr⟩ := after_ret_iff.1 h
    cases hr
    exact ⟨by simp, fun _ => rfl, .inl ⟨_, rfl, by rw [← hc]⟩⟩
  | false =>
    simp only [hc, Bool.false_eq_true, ↓reduceIte] at h
    obtain ⟨log₁, log₂, a, rfl, h₁, h₂⟩ := after_bind_ret_iff.1 h
    have hlog : log₂ = [] := by cases a <;> exact (after_ret_iff.1 h₂).1
    subst hlog
    rw [List.append_nil]
    refine ⟨resetAttempts_asks h₁, nofun, ?_⟩
    rcases resetAttempts_log h₁ with ⟨err, rfl, -⟩ | ⟨req, resp, pre, rfl, hs, rfl, -⟩
    · cases (after_ret_iff.1 h₂).2
      exact .inl ⟨err, rfl, by rw [← hc]⟩
    · cases (after_ret_iff.1 h₂).2
      exact .inr ⟨pre, req, resp, rfl, hs, rfl, rfl, by rw [← hc]; rfl⟩

theorem stepResult_inv {env : SocketTunerEnvironment} {o : Observation} {done : Bool} {sc : Score}
    {obs : SocketTunerObservation} (h : env.stepResult o done sc = .ok obs) :
    env.sessionId = some obs.sessionId ∧ obs.observation = o ∧ obs.done = done ∧
      obs.reward = sc.reward ∧
      obs.metadata = .step env.stepCount env.baselineDuration sc.reduction := by
  unfold stepResult at h
  split at h
  · cases h
  · next hid =>
    cases h
    exact ⟨hid, rfl, rfl, rfl, rfl⟩

/-- A `step` asks once, and judges the answer against the baseline. -/
theorem step_inv {cfg : EnvConfig} {action : UISocketTunerAction}
    {env env' : SocketTunerEnvironment} {log : List RpcEvent}
    {r : Except PyErr SocketTunerObservation}
    (h : After (env.step cfg action) log (.ret (r, env'))) :
    env' = { env with stepCount := env.stepCount + 1 } ∧
    (env.channelClosed = true → log = [] ∧ ∃ err, r = .error err) ∧
    ∀ obs, r = .ok obs → env.sessionId = some obs.sessionId ∧ ∃ req resp,
      ⟨.step req, (.ok resp : Except String StepResponse)⟩ ∈ log ∧
      obs.observation = resp.observation.getD {} ∧
      let sc := score cfg.round env.baselineDuration obs.observation.durationUs.toNat
      obs.reward = sc.reward ∧
      obs.metadata = .step (env.stepCount + 1) env.baselineDuration sc.reduction ∧
      obs.done =
        (resp.done || sc.doneEarly || decide (cfg.maxSteps ≤ (env.stepCount + 1 : Nat))) := by
  unfold step at h
  simp only at h
  split at h
  · obtain ⟨rfl, hr⟩ := after_ret_iff.1 h
    cases hr
    exact ⟨rfl, fun _ => ⟨rfl, _, rfl⟩, nofun⟩
  · split at h
    · obtain ⟨rfl, hr⟩ := after_ret_iff.1 h
      cases hr
      exact ⟨rfl, fun _ => ⟨rfl, _, rfl⟩, nofun⟩
    · next hopen =>
      obtain ⟨reply, log', rfl, hk⟩ := after_sendStep.1 h
      cases reply with
      | error e =>
        cases (after_ret_iff.1 hk).2
        exact ⟨rfl, fun hc => absurd hc hopen, nofun⟩
      | ok response =>
        obtain ⟨log₁, log₂, r', rfl, h₁, h₂⟩ := after_bind_ret_iff.1 hk
        cases (after_ret_iff.1 h₂).2
        refine ⟨rfl, fun hc => absurd hc hopen, fun obs hobs => ?_⟩
        subst hobs
        obtain ⟨hid, hobs, hdone, hreward, hmeta⟩ := stepResult_inv (scoreStep_result h₁).symm
        rw [← hobs] at hdone hreward hmeta
        exact ⟨hid, _, response, List.mem_cons_self, hobs, hreward, hmeta, hdone⟩

theorem step_close {cfg : EnvConfig} {action : UISocketTunerAction}
    {env env' : SocketTunerEnvironment} {log : List RpcEvent}
    {r : Except PyErr SocketTunerObservation}
    (h : After (env.step cfg action) log (.ret (r, env'))) {req : CloseRequest}
    {reply : Except String CloseResponse} (hsent : ⟨.close req, reply⟩ ∈ log) :
    ∃ obs, r = .ok obs ∧ obs.done = true ∧ req.sessionId = obs.sessionId := by
  obtain ⟨-, -, ⟨rfl, -⟩ | ⟨_, _, -, -, ⟨rfl, -⟩ | ⟨id, _, obs, hs, rfl, rfl, hd⟩⟩⟩ := step_log h
  · cases hsent
  · cases List.mem_singleton.1 hsent
  · refine ⟨obs, rfl, hd, ?_⟩
    have hid := ((step_inv h).2.2 obs rfl).1
    rw [(sessionId_of_session hs).1] at hid
    rcases List.mem_cons.1 hsent with h | h
    · cases h
    · cases List.mem_singleton.1 h
      exact Option.some.inj hid

end SocketTunerEnvironment

/-! ## What the caller knows -/

/-- What the calls made on an instance and their results tell. -/
structure Seen where
  /-- What the last `reset` that returned did return. -/
  start : Option SocketTunerObservation := none
  /-- The calls of `step` since. -/
  steps : Nat := 0
  /-- All calls of `reset`. -/
  resets : Nat := 0
  /-- `close` was called. -/
  closed : Bool := false
  deriving DecidableEq, Repr

namespace Seen

/-- What is known after one more call. -/
def next (v : Seen) (e : CallEvent) : Seen :=
  match e.call with
  | .reset =>
    match e.result with
    | .ok (some obs) => { v with start := some obs, steps := 0, resets := v.resets + 1 }
    | .ok none | .error _ => { v with resets := v.resets + 1 }
  | .step _ => { v with steps := v.steps + 1 }
  | .close => { v with closed := true }

/-- What is known after the calls of a run. -/
def after (tr : CallTrace) : Seen := tr.foldl (fun v x => v.next x.lab) {}

/-- The session id, which `close` forgets unless it is empty. -/
def sessionId (v : Seen) : Option String :=
  let id := v.start.map SocketTunerObservation.sessionId
  if v.closed then id.filter (· = "") else id

/-- The fields of the instance. -/
def env (episodeId : String) (v : Seen) : SocketTunerEnvironment where
  episodeId := (v.start.map SocketTunerObservation.sessionId).getD episodeId
  stepCount := v.steps
  sessionId := v.sessionId
  resetCount := v.resets
  baselineDuration := (v.start.map fun b => b.observation.durationUs.toNat).getD 0
  targetIp := (v.start.map fun b => b.observation.remoteIp).getD ""
  targetPort := (v.start.map fun b => b.observation.remotePort).getD 0
  channelClosed := v.closed

/-- A `Step` for the session and the address of the last `reset`, or for nothing without one. -/
def Targets (v : Seen) (req : StepRequest) : Prop :=
  match v.start with
  | some b => req.sessionId = b.sessionId ∧ req.targetIp = b.observation.remoteIp ∧
      req.targetPort = b.observation.remotePort
  | none => req.sessionId = "" ∧ req.targetIp = "" ∧ req.targetPort = 0

/-- What a step returns for a response, given what the last `reset` did. -/
structure Judges (cfg : EnvConfig) (v : Seen) (b : SocketTunerObservation) (resp : StepResponse)
    (obs : SocketTunerObservation) : Prop where
  observation : obs.observation = resp.observation.getD {}
  session : obs.sessionId = b.sessionId
  reward : obs.reward =
    (score cfg.round b.observation.durationUs.toNat obs.observation.durationUs.toNat).reward
  metadata : obs.metadata = .step (v.steps + 1) b.observation.durationUs.toNat
    (score cfg.round b.observation.durationUs.toNat obs.observation.durationUs.toNat).reduction
  done : obs.done = (resp.done ||
    (score cfg.round b.observation.durationUs.toNat obs.observation.durationUs.toNat).doneEarly ||
    decide (cfg.maxSteps ≤ (v.steps + 1 : Nat)))

/-- What a call may send and return. -/
def Explains (cfg : EnvConfig) (v : Seen) (e : CallEvent) : Prop :=
  (v.closed = true → e.log = []) ∧
  match e.call with
  | .reset =>
    (∀ x ∈ e.log, x.1 = .reset ⟨(currentTask v.resets).command⟩) ∧
    ∀ obs, e.result = .ok (some obs) → v.closed = false ∧ ∃ pre req resp, resp.success = true ∧
      e.log = pre ++ [⟨.reset req, (.ok resp : Except String ResetResponse)⟩] ∧
      obs = SocketTunerEnvironment.resetObservation (currentTask v.resets) resp
  | .step _ =>
    (∀ req reply, ⟨.step req, reply⟩ ∈ e.log → v.Targets req) ∧
    (∀ req reply, ⟨.close req, reply⟩ ∈ e.log →
      ∃ obs, e.result = .ok (some obs) ∧ obs.done = true ∧ req.sessionId = obs.sessionId) ∧
    ∀ obs, e.result = .ok (some obs) → v.closed = false ∧ ∃ b req resp, v.start = some b ∧
      ⟨.step req, (.ok resp : Except String StepResponse)⟩ ∈ e.log ∧ v.Judges cfg b resp obs
  | .close => ∀ x ∈ e.log, ∃ b, v.start = some b ∧ x.1 = .close ⟨b.sessionId⟩

/-! ## The fields of the instance -/

theorem env_sessionId {episodeId : String} {v : Seen} (h : v.closed = false) :
    (v.env episodeId).sessionId = v.start.map SocketTunerObservation.sessionId := by
  simp [env, sessionId, h]

theorem targets_of_env {episodeId : String} {v : Seen} {action : UISocketTunerAction}
    {req : StepRequest} (hopen : v.closed = false)
    (h : (v.env episodeId).stepRequest action = .ok req) : v.Targets req := by
  obtain ⟨hid, hip, hport⟩ := SocketTunerEnvironment.stepRequest_env h
  rw [env_sessionId hopen] at hid
  unfold Targets
  cases hb : v.start with
  | none | some b =>
    simp only [env, hb] at hid hip hport
    exact ⟨hid, hip, hport⟩

/-- A `reset` keeps to what was seen, and the instance to what is seen after it. -/
theorem reset_explained {cfg : EnvConfig} {episodeId : String} {v : Seen} {log : List RpcEvent}
    {r : Except PyErr SocketTunerObservation} {env' : SocketTunerEnvironment}
    (h : After (v.env episodeId).reset log (.ret (r, env'))) :
    env' = (v.next ⟨.reset, log, r.map some⟩).env episodeId ∧
      v.Explains cfg ⟨.reset, log, r.map some⟩ := by
  obtain ⟨hasks, hquiet, ⟨err, rfl, rfl⟩ | ⟨pre, req, resp, hopen, hs, rfl, rfl, rfl⟩⟩ :=
    SocketTunerEnvironment.reset_inv h
  · exact ⟨rfl, hquiet, hasks, nofun⟩
  · refine ⟨?_, hquiet, hasks, fun obs hobs => ⟨hopen, pre, req, resp, hs, rfl, ?_⟩⟩
    · have hopen : v.closed = false := hopen
      simp [SocketTunerEnvironment.started, next, env, sessionId, Except.map, hopen]
    · cases hobs
      rfl

theorem step_explained {cfg : EnvConfig} {episodeId : String} {v : Seen}
    {action : UISocketTunerAction} {log : List RpcEvent}
    {r : Except PyErr SocketTunerObservation} {env' : SocketTunerEnvironment}
    (h : After ((v.env episodeId).step cfg action) log (.ret (r, env'))) :
    env' = (v.next ⟨.step action, log, r.map some⟩).env episodeId ∧
      v.Explains cfg ⟨.step action, log, r.map some⟩ := by
  obtain ⟨rfl, hquiet, hok⟩ := SocketTunerEnvironment.step_inv h
  refine ⟨rfl, fun hc => (hquiet hc).1, ?_, ?_, ?_⟩
  · intro req reply hsent
    cases hopen : v.closed with
    | true =>
      have hlog : log = [] := (hquiet hopen).1
      subst hlog
      cases hsent
    | false =>
      exact targets_of_env hopen (SocketTunerEnvironment.stepRequest_of_sent h hsent)
  · intro req reply hsent
    obtain ⟨obs, rfl, hobs⟩ := SocketTunerEnvironment.step_close h hsent
    exact ⟨obs, rfl, hobs⟩
  · intro obs hobs
    cases r with
    | error err => cases hobs
    | ok obs' =>
      cases hobs
      cases hopen : v.closed with
      | true =>
        obtain ⟨-, err, herr⟩ := hquiet hopen
        cases herr
      | false =>
        obtain ⟨hid, req, resp, hmem, hobs, hreward, hmeta, hdone⟩ := hok obs rfl
        rw [env_sessionId hopen] at hid
        obtain ⟨b, hb, hid⟩ := Option.map_eq_some_iff.1 hid
        have hbase : (v.env episodeId).baselineDuration = b.observation.durationUs.toNat := by
          simp [env, hb]
        rw [hbase] at hreward hmeta hdone
        exact ⟨rfl, b, req, resp, hb, hmem, hobs, hid.symm, hreward, hmeta, hdone⟩

theorem sessionId_closed (episodeId : String) (v : Seen) :
    ({ v with closed := true } : Seen).sessionId =
      if (v.env episodeId).session = none then v.sessionId else none := by
  obtain ⟨start, steps, resets, closed⟩ := v
  cases start with
  | none => cases closed <;> rfl
  | some b =>
    by_cases hid : b.sessionId = "" <;> cases closed <;>
      simp [sessionId, env, SocketTunerEnvironment.session, Option.filter, hid]

theorem start_of_session {episodeId : String} {v : Seen} {id : String}
    (h : (v.env episodeId).session = some id) :
    v.closed = false ∧ ∃ b, v.start = some b ∧ b.sessionId = id := by
  obtain ⟨hid, hne⟩ := SocketTunerEnvironment.sessionId_of_session h
  cases hopen : v.closed with
  | true =>
    simp only [env, sessionId, hopen, ↓reduceIte, Option.filter_eq_some_iff,
      decide_eq_true_eq] at hid
    exact absurd hid.2 hne
  | false =>
    rw [env_sessionId hopen] at hid
    exact ⟨rfl, Option.map_eq_some_iff.1 hid⟩

theorem close_explained {cfg : EnvConfig} {episodeId : String} {v : Seen} {log : List RpcEvent}
    {r : Except PyErr Unit} {env' : SocketTunerEnvironment}
    (h : After (v.env episodeId).close log (.ret (r, env'))) :
    env' = (v.next ⟨.close, log, r.map fun _ => none⟩).env episodeId ∧
      v.Explains cfg ⟨.close, log, r.map fun _ => none⟩ := by
  have hforget := sessionId_closed episodeId v
  unfold SocketTunerEnvironment.close at h
  cases hs : (v.env episodeId).session with
  | none =>
    simp only [hs] at h
    obtain ⟨rfl, hr⟩ := after_ret_iff.1 h
    cases hr
    refine ⟨?_, fun _ => rfl, nofun⟩
    rw [if_pos hs] at hforget
    unfold next env
    rw [hforget]
  | some id =>
    obtain ⟨hopen, b, hb, rfl⟩ := start_of_session hs
    have hclosed : (v.env episodeId).channelClosed = false := hopen
    simp only [hs, hclosed, Bool.false_eq_true, ↓reduceIte] at h
    obtain ⟨reply, log', rfl, hk⟩ := after_sendClose.1 h
    obtain ⟨rfl, hr⟩ := after_ret_iff.1 hk
    cases hr
    refine ⟨?_, fun hc => absurd hc (by simp [hopen]), fun x hx => ⟨b, hb, ?_⟩⟩
    · rw [hs, if_neg (by simp)] at hforget
      unfold next env
      rw [hforget]
    · rw [List.mem_singleton.1 hx]

end Seen

/-! ## Runs -/

/-- A call keeps to what was seen, and the instance to what is seen after it. -/
theorem CallStep.explained {cfg : EnvConfig} {episodeId : String} {v : Seen} {e : CallEvent}
    {env' : SocketTunerEnvironment} (h : CallStep cfg (v.env episodeId) e env') :
    env' = (v.next e).env episodeId ∧ v.Explains cfg e := by
  obtain ⟨call, log, result⟩ := e
  cases call with
  | reset =>
    obtain ⟨r, rfl, hr⟩ := after_map_ret h
    exact Seen.reset_explained hr
  | step action =>
    obtain ⟨r, rfl, hr⟩ := after_map_ret h
    exact Seen.step_explained hr
  | close =>
    obtain ⟨r, rfl, hr⟩ := after_map_ret h
    exact Seen.close_explained hr

/-- **The instance is what its caller has seen.** -/
theorem env_of_seen {cfg : EnvConfig} {episodeId : String} {tr : CallTrace}
    {env : SocketTunerEnvironment} (h : Lts.Run (CallStep cfg) (.init episodeId) tr env) :
    env = (Seen.after tr).env episodeId := by
  refine h.history (I := fun tr env => env = (Seen.after tr).env episodeId)
    (P := fun _ _ => True) (fun pre x hI hs _ => ?_) (fun _ _ _ _ => trivial) rfl
  rw [hI] at hs
  rw [hs.explained.1]
  simp [Seen.after]

/-- **What was seen explains what follows.** In every run of an instance, with any outcomes of its
RPCs, its fields before and after each call are those of what was seen until then, and the call
sends and returns what the results of the calls before it say. -/
theorem seen_explains {cfg : EnvConfig} {episodeId : String} {pre post : CallTrace}
    {x : Lts.Trans SocketTunerEnvironment CallEvent} {env : SocketTunerEnvironment}
    (h : Lts.Run (CallStep cfg) (.init episodeId) (pre ++ x :: post) env) :
    x.src = (Seen.after pre).env episodeId ∧ x.dst = (Seen.after (pre ++ [x])).env episodeId ∧
      (Seen.after pre).Explains cfg x.lab := by
  obtain ⟨env₁, hpre, hrest⟩ := h.split
  obtain ⟨hsrc, hs, -⟩ := hrest.head
  have henv : x.src = (Seen.after pre).env episodeId := hsrc.trans (env_of_seen hpre)
  rw [henv] at hs
  refine ⟨henv, ?_, hs.explained.2⟩
  rw [hs.explained.1]
  simp [Seen.after]

theorem seen_explains_shortEpisode :
    (Seen.after (shortEpisode.take 1)).Explains .default
      (shortEpisode.get ⟨1, by decide⟩).lab :=
  (seen_explains (show Lts.Run _ _
      (shortEpisode.take 1 ++ shortEpisode.get ⟨1, by decide⟩ :: shortEpisode.drop 2) _ from
    run_playCalls false [.reset, .step {}, .close] .init)).2.2

end SocketTuner.Env
