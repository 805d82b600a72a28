import SocketTuner.Env.Environment

/-!
# What one instance sends

A run of an instance is a sequence of method calls, each with the RPCs it sent and their outcomes
(`CallStep`). The discipline of a log of RPCs (`Disciplined`) is that each session id obtained by a
`Reset` gets one `Close`, and after it nothing until a `Reset` returns the id again.

`step` sends the `Close` of an episode that is done but keeps the session id, and `reset` forgets
the id of an episode that is not done. So the discipline holds when the caller never resets a
running episode and leaves a finished one alone (`lease_discipline`).

The proof goes through an automaton that reads the log with the id that is open (`Accepts`).
-/

namespace SocketTuner.Env

open Prog

/-! ## The discipline of a log -/

/-- The session id an RPC obtained: that of a `Reset` answered with `success`. -/
def acquired : RpcEvent → Option String
  | ⟨.reset _, r⟩ =>
    match (r : Except String ResetResponse) with
    | .ok resp => if resp.success then some resp.sessionId else none
    | .error _ => none
  | ⟨.step _, _⟩ | ⟨.close _, _⟩ => none

/-- A `Close` of the session. -/
def SendsClose (id : String) (e : RpcEvent) : Prop := e.1 = .close ⟨id⟩

/-- A `Step` of the session. -/
def SendsStep (id : String) (e : RpcEvent) : Prop := ∃ req, e.1 = .step req ∧ req.sessionId = id

/-- What is sent up to the next RPC that obtains `id`. -/
def untilAcquired (id : String) (log : List RpcEvent) : List RpcEvent :=
  log.takeWhile fun e => acquired e ≠ some id

/-- After each RPC that obtains an id, and before the id is obtained again, exactly one `Close` of
it is sent, and after that neither a `Step` nor a `Close` of it. -/
def Disciplined (log : List RpcEvent) : Prop :=
  ∀ pre e post id, log = pre ++ e :: post → acquired e = some id →
    ∃ before c after, untilAcquired id post = before ++ c :: after ∧ SendsClose id c ∧
      (∀ e ∈ before, ¬SendsClose id e) ∧ ∀ e ∈ after, ¬SendsClose id e ∧ ¬SendsStep id e

/-- The log closes what it opens: an id is obtained when none is open, only the open id is used,
and at the end none is open. -/
def Accepts : Option String → List RpcEvent → Prop
  | o, [] => o = none
  | o, ⟨.reset req, r⟩ :: log =>
    match acquired ⟨.reset req, r⟩ with
    | some id => o = none ∧ id ≠ "" ∧ Accepts (some id) log
    | none => Accepts o log
  | o, ⟨.step req, _⟩ :: log => (req.sessionId = "" ∨ o = some req.sessionId) ∧ Accepts o log
  | o, ⟨.close req, _⟩ :: log => o = some req.sessionId ∧ Accepts none log

/-- An id that is not open is not used before it is obtained. -/
theorem Accepts.unused {id : String} (hid : id ≠ "") {log : List RpcEvent} :
    ∀ {o : Option String}, Accepts o log → o ≠ some id →
      ∀ e ∈ untilAcquired id log, ¬SendsClose id e ∧ ¬SendsStep id e := by
  induction log with
  | nil => intro o _ _ e he; simp [untilAcquired] at he
  | cons x log ih =>
    intro o h ho e he
    unfold untilAcquired at he
    rw [List.takeWhile_cons] at he
    split at he
    · next hx =>
      have hnot : acquired x ≠ some id := by simpa using hx
      obtain ⟨rpc, r⟩ := x
      rcases List.mem_cons.1 he with rfl | hmem
      · cases rpc with
        | reset req => exact ⟨by simp [SendsClose], by simp [SendsStep]⟩
        | step req =>
          refine ⟨by simp [SendsClose], ?_⟩
          rintro ⟨req', hreq, rfl⟩
          cases hreq
          rcases h.1 with h | h
          · exact hid h
          · exact ho h
        | close req =>
          refine ⟨?_, by simp [SendsStep]⟩
          intro hc
          cases hc
          exact ho h.1
      · cases rpc with
        | reset req =>
          unfold Accepts at h
          cases ha : acquired ⟨.reset req, r⟩ with
          | none => rw [ha] at h; exact ih h ho e hmem
          | some id' =>
            rw [ha] at h
            exact ih h.2.2 (fun e => hnot (ha.trans e)) e hmem
        | step req => exact ih h.2 ho e hmem
        | close req => exact ih h.2 (by simp) e hmem
    · simp at he

/-- An id that is open is closed once before it is obtained again. -/
theorem Accepts.closed {id : String} (hid : id ≠ "") {log : List RpcEvent} :
    Accepts (some id) log → ∃ before c after, untilAcquired id log = before ++ c :: after ∧
      SendsClose id c ∧ (∀ e ∈ before, ¬SendsClose id e) ∧
      ∀ e ∈ after, ¬SendsClose id e ∧ ¬SendsStep id e := by
  induction log with
  | nil => intro h; cases h
  | cons x log ih =>
    intro h
    obtain ⟨rpc, r⟩ := x
    cases rpc with
    | reset req =>
      unfold Accepts at h
      cases ha : acquired ⟨.reset req, r⟩ with
      | some id' => rw [ha] at h; cases h.1
      | none =>
        rw [ha] at h
        obtain ⟨before, c, after, heq, hc, hb, haft⟩ := ih h
        refine ⟨⟨.reset req, r⟩ :: before, c, after, ?_, hc, ?_, haft⟩
        · simp [untilAcquired, ha, ← heq]
        · intro e he
          rcases List.mem_cons.1 he with rfl | he
          · simp [SendsClose]
          · exact hb e he
    | step req =>
      obtain ⟨before, c, after, heq, hc, hb, haft⟩ := ih h.2
      refine ⟨⟨.step req, r⟩ :: before, c, after, ?_, hc, ?_, haft⟩
      · simp [untilAcquired, acquired, ← heq]
      · intro e he
        rcases List.mem_cons.1 he with rfl | he
        · simp [SendsClose]
        · exact hb e he
    | close req =>
      obtain ⟨ho, h⟩ := h
      cases ho
      refine ⟨[], ⟨.close req, r⟩, untilAcquired req.sessionId log, ?_, rfl, by simp,
        h.unused hid (by simp)⟩
      simp [untilAcquired, acquired]

/-- **An accepted log is disciplined.** -/
theorem Accepts.disciplined {log : List RpcEvent} :
    ∀ {o : Option String}, Accepts o log → Disciplined log := by
  induction log with
  | nil => intro o _ pre e post id h; simp at h
  | cons x log ih =>
    intro o h pre e post id hlog hid
    obtain ⟨rpc, r⟩ := x
    cases pre with
    | nil =>
      obtain ⟨rfl, rfl⟩ := List.cons.inj hlog
      cases rpc with
      | reset req =>
        unfold Accepts at h
        rw [hid] at h
        exact h.2.2.closed h.2.1
      | step req => cases hid
      | close req => cases hid
    | cons y pre =>
      obtain ⟨rfl, rfl⟩ := List.cons.inj hlog
      cases rpc with
      | reset req =>
        unfold Accepts at h
        cases ha : acquired ⟨.reset req, r⟩ with
        | none => rw [ha] at h; exact ih h pre e post id rfl hid
        | some id' => rw [ha] at h; exact ih h.2.2 pre e post id rfl hid
      | step req => exact ih h.2 pre e post id rfl hid
      | close req => exact ih h.2 pre e post id rfl hid

/-! ## What each method sends -/

section Sent

variable {α : Type} {log : List RpcEvent} {a : α}

theorem after_sendReset {req : ResetRequest} {f : Except String ResetResponse → EnvProg α} :
    After (sendReset req >>= f) log (.ret a) ↔
      ∃ (r : Except String ResetResponse) (log' : List RpcEvent),
        log = ⟨.reset req, r⟩ :: log' ∧ After (f r) log' (.ret a) :=
  after_op_ret_iff

theorem after_sendStep {req : StepRequest} {f : Except String StepResponse → EnvProg α} :
    After (sendStep req >>= f) log (.ret a) ↔
      ∃ (r : Except String StepResponse) (log' : List RpcEvent),
        log = ⟨.step req, r⟩ :: log' ∧ After (f r) log' (.ret a) :=
  after_op_ret_iff

theorem after_sendClose {req : CloseRequest} {f : Except String CloseResponse → EnvProg α} :
    After (sendClose req >>= f) log (.ret a) ↔
      ∃ (r : Except String CloseResponse) (log' : List RpcEvent),
        log = ⟨.close req, r⟩ :: log' ∧ After (f r) log' (.ret a) :=
  after_op_ret_iff

end Sent

/-- A `Reset` that obtained nothing. -/
def FailedReset (e : RpcEvent) : Prop := (∃ req, e.1 = .reset req) ∧ acquired e = none

theorem accepts_failed {log rest : List RpcEvent} {o : Option String}
    (h : ∀ e ∈ log, FailedReset e) : Accepts o (log ++ rest) ↔ Accepts o rest := by
  induction log with
  | nil => rfl
  | cons x log ih =>
    obtain ⟨⟨req, hreq⟩, ha⟩ := h x List.mem_cons_self
    obtain ⟨rpc, r⟩ := x
    cases hreq
    rw [← ih fun e he => h e (List.mem_cons_of_mem _ he), List.cons_append, Accepts, ha]

namespace SocketTunerEnvironment

/-- How the attempts of a `reset` end: in an error after failed `Reset`s, or after failed ones in
the response of one that has `success`. -/
def AttemptsEnd (log : List RpcEvent) (r : Except PyErr ResetResponse) : Prop :=
  (∃ err, r = .error err ∧ ∀ e ∈ log, FailedReset e) ∨
  ∃ req resp pre, r = .ok resp ∧ resp.success = true ∧
    log = pre ++ [⟨.reset req, (.ok resp : Except String ResetResponse)⟩] ∧
    ∀ e ∈ pre, FailedReset e

theorem AttemptsEnd.cons {x : RpcEvent} {log : List RpcEvent} {r : Except PyErr ResetResponse}
    (hx : FailedReset x) (h : AttemptsEnd log r) : AttemptsEnd (x :: log) r := by
  rcases h with ⟨err, rfl, hlog⟩ | ⟨req, resp, pre, rfl, hs, rfl, hpre⟩
  · exact .inl ⟨err, rfl, List.forall_mem_cons.2 ⟨hx, hlog⟩⟩
  · exact .inr ⟨req, resp, x :: pre, rfl, hs, rfl, List.forall_mem_cons.2 ⟨hx, hpre⟩⟩

theorem attemptsEnd_error {log : List RpcEvent} {r : Except PyErr ResetResponse} {err : PyErr}
    (h : After (.ret (.error err)) log (.ret r)) : AttemptsEnd log r := by
  obtain ⟨rfl, hr⟩ := after_ret_iff.1 h
  cases hr
  exact .inl ⟨err, rfl, by simp⟩

theorem resetAttempts_log {command : String} {left : Nat} :
    ∀ {log : List RpcEvent} {r : Except PyErr ResetResponse},
      After (resetAttempts command left) log (.ret r) → AttemptsEnd log r := by
  induction left with
  | zero => intro log r h; exact attemptsEnd_error h
  | succ left ih =>
    intro log r h
    obtain ⟨reply, log', rfl, hk⟩ := after_sendReset.1 h
    cases reply with
    | error e =>
      refine AttemptsEnd.cons ⟨⟨_, rfl⟩, rfl⟩ ?_
      simp only at hk
      split at hk
      · exact ih hk
      · exact attemptsEnd_error hk
    | ok resp =>
      simp only at hk
      split at hk
      · next hs =>
        obtain ⟨rfl, hr⟩ := after_ret_iff.1 hk
        cases hr
        exact .inr ⟨_, resp, [], rfl, hs, rfl, by simp⟩
      · next hs =>
        refine AttemptsEnd.cons ⟨⟨_, rfl⟩, by simp [acquired, hs]⟩ ?_
        split at hk
        · exact ih hk
        · exact attemptsEnd_error hk

/-- `reset` changes the session id exactly when it returns, to the id its last RPC obtained. -/
theorem reset_log {env env' : SocketTunerEnvironment} {log : List RpcEvent}
    {r : Except PyErr SocketTunerObservation} (h : After env.reset log (.ret (r, env'))) :
    env'.channelClosed = env.channelClosed ∧
    ((∃ err, r = .error err ∧ env'.sessionId = env.sessionId ∧ ∀ e ∈ log, FailedReset e) ∨
     ∃ obs id pre e, r = .ok obs ∧ env.channelClosed = false ∧ env'.sessionId = some id ∧
      log = pre ++ [e] ∧ (∀ e ∈ pre, FailedReset e) ∧ acquired e = some id) := by
  unfold reset at h
  cases hc : env.channelClosed with
  | true =>
    simp only [hc, ↓reduceIte] at h
    obtain ⟨rfl, hr⟩ := after_ret_iff.1 h
    cases hr
    exact ⟨rfl, .inl ⟨_, rfl, rfl, by simp⟩⟩
  | false =>
    simp only [hc, Bool.false_eq_true, ↓reduceIte] at h
    obtain ⟨log₁, log₂, a, rfl, h₁, h₂⟩ := after_bind_ret_iff.1 h
    rcases resetAttempts_log h₁ with ⟨err, rfl, hlog⟩ | ⟨req, resp, pre, rfl, hs, rfl, hpre⟩
    · obtain ⟨rfl, hr⟩ := after_ret_iff.1 h₂
      cases hr
      exact ⟨rfl, .inl ⟨_, rfl, rfl, by simpa using hlog⟩⟩
    · obtain ⟨rfl, hr⟩ := after_ret_iff.1 h₂
      cases hr
      exact ⟨rfl, .inr ⟨_, _, pre, _, rfl, rfl, rfl, by simp; rfl, hpre, by simp [acquired, hs]⟩⟩

theorem stepRequest_env {env : SocketTunerEnvironment} {action : UISocketTunerAction}
    {req : StepRequest} (h : env.stepRequest action = .ok req) :
    req.sessionId = env.sessionId.getD "" ∧ req.targetIp = env.targetIp ∧
      req.targetPort = env.targetPort := by
  simp only [stepRequest, Bind.bind, Except.bind, Pure.pure, Except.pure] at h
  repeat' split at h
  all_goals cases h
  exact ⟨rfl, rfl, rfl⟩

theorem sessionId_of_session {env : SocketTunerEnvironment} {id : String}
    (h : env.session = some id) : env.sessionId = some id ∧ id ≠ "" := by
  simpa [session, Option.filter_eq_some_iff] using h

theorem stepResult_ok {env : SocketTunerEnvironment} {obs : Observation} {done : Bool} {sc : Score}
    {o : SocketTunerObservation} (h : env.stepResult obs done sc = .ok o) :
    o.done = done ∧ o.reward = sc.reward := by
  unfold stepResult at h
  split at h
  · cases h
  · cases h
    exact ⟨rfl, rfl⟩

theorem exists_stepResult {env : SocketTunerEnvironment} {id : String} (h : env.session = some id)
    (obs : Observation) (done : Bool) (sc : Score) :
    ∃ o, env.stepResult obs done sc = .ok o ∧ o.done = done := by
  rw [stepResult, (sessionId_of_session h).1]
  exact ⟨_, rfl, rfl⟩

/-- The `Close` of a step is sent when it returns `done` and there is a session. -/
theorem scoreStep_log {cfg : EnvConfig} {env : SocketTunerEnvironment} {response : StepResponse}
    {log : List RpcEvent} {r : Except PyErr SocketTunerObservation}
    (h : After (scoreStep cfg env response) log (.ret r)) :
    (log = [] ∧ ∀ obs, r = .ok obs → obs.done = true → env.session = none) ∨
    ∃ id reply obs, env.session = some id ∧ log = [⟨.close ⟨id⟩, reply⟩] ∧ r = .ok obs ∧
      obs.done = true := by
  unfold scoreStep at h
  simp only at h
  split at h
  · next id hd =>
    obtain ⟨reply, log', rfl, hk⟩ := after_sendClose.1 h
    obtain ⟨rfl, hr⟩ := after_ret_iff.1 hk
    cases hr
    obtain ⟨hdone, hs⟩ := Option.ite_none_right_eq_some.1 hd
    obtain ⟨o, ho, hd⟩ := exists_stepResult hs (response.observation.getD {}) true
      (score cfg.round env.baselineDuration (response.observation.getD {}).durationUs.toNat)
    exact .inr ⟨id, reply, o, hs, rfl, by rw [hdone]; exact ho, hd⟩
  · next hd =>
    obtain ⟨rfl, hr⟩ := after_ret_iff.1 h
    cases hr
    refine .inl ⟨rfl, fun o ho hdone => ?_⟩
    rw [(stepResult_ok ho).1] at hdone
    simpa [hdone] using hd

/-- `step` sends at most one `Step` of the session id and then, when it returns `done`, a `Close`
of it; it keeps the id. -/
theorem step_log {cfg : EnvConfig} {action : UISocketTunerAction}
    {env env' : SocketTunerEnvironment} {log : List RpcEvent}
    {r : Except PyErr SocketTunerObservation}
    (h : After (env.step cfg action) log (.ret (r, env'))) :
    env'.sessionId = env.sessionId ∧ env'.channelClosed = env.channelClosed ∧
    (log = [] ∧ (∃ err, r = .error err) ∨
     ∃ req reply, env.stepRequest action = .ok req ∧ req.sessionId = env.sessionId.getD "" ∧
      (log = [⟨.step req, reply⟩] ∧ (∀ obs, r = .ok obs → obs.done = true → env.session = none) ∨
       ∃ id reply' obs, env.session = some id ∧ log = [⟨.step req, reply⟩, ⟨.close ⟨id⟩, reply'⟩] ∧
        r = .ok obs ∧ obs.done = true)) := by
  unfold step at h
  have hreq : ({ env with stepCount := env.stepCount + 1 }).stepRequest action =
    env.stepRequest action := rfl
  simp only [hreq] at h
  cases hq : env.stepRequest action with
  | error err =>
    simp only [hq] at h
    obtain ⟨rfl, hr⟩ := after_ret_iff.1 h
    cases hr
    exact ⟨rfl, rfl, .inl ⟨rfl, _, rfl⟩⟩
  | ok req =>
    simp only [hq] at h
    split at h
    · obtain ⟨rfl, hr⟩ := after_ret_iff.1 h
      cases hr
      exact ⟨rfl, rfl, .inl ⟨rfl, _, rfl⟩⟩
    · obtain ⟨reply, log', rfl, hk⟩ := after_sendStep.1 h
      have hid : req.sessionId = env.sessionId.getD "" := (stepRequest_env hq).1
      cases reply with
      | error e =>
        obtain ⟨rfl, hr⟩ := after_ret_iff.1 hk
        cases hr
        exact ⟨rfl, rfl, .inr ⟨req, _, rfl, hid, .inl ⟨rfl, fun _ h => by cases h⟩⟩⟩
      | ok response =>
        obtain ⟨log₁, log₂, r', rfl, h₁, h₂⟩ := after_bind_ret_iff.1 hk
        obtain ⟨rfl, hr⟩ := after_ret_iff.1 h₂
        cases hr
        refine ⟨rfl, rfl, .inr ⟨req, .ok response, rfl, hid, ?_⟩⟩
        rcases scoreStep_log h₁ with ⟨rfl, hd⟩ | ⟨id, reply', obs, hs, rfl, hr, hd⟩
        · exact .inl ⟨rfl, hd⟩
        · exact .inr ⟨id, reply', obs, hs, rfl, hr, hd⟩

theorem stepRequest_of_sent {cfg : EnvConfig} {action : UISocketTunerAction}
    {env : SocketTunerEnvironment} {log : List RpcEvent} {req : StepRequest}
    {reply : Except String StepResponse}
    {res : Except PyErr SocketTunerObservation × SocketTunerEnvironment}
    (h : After (env.step cfg action) log (.ret res)) (hsent : ⟨.step req, reply⟩ ∈ log) :
    env.stepRequest action = .ok req := by
  obtain ⟨-, -, ⟨rfl, -⟩ | ⟨req', reply', hreq, -, ⟨rfl, -⟩ | ⟨id, _, _, -, rfl, -, -⟩⟩⟩ :=
    step_log h
  · cases hsent
  · cases List.mem_singleton.1 hsent
    exact hreq
  · rcases List.mem_cons.1 hsent with h | h
    · cases h
      exact hreq
    · cases List.mem_singleton.1 h

/-- `close` sends a `Close` of the session id, if there is one and the channel is open. -/
theorem close_log {env env' : SocketTunerEnvironment} {log : List RpcEvent} {r : Except PyErr Unit}
    (h : After env.close log (.ret (r, env'))) :
    env'.channelClosed = true ∧
    ((env.session = none ∧ env'.sessionId = env.sessionId ∧ log = []) ∨
     ∃ id, env.session = some id ∧ env'.sessionId = none ∧
      (env.channelClosed = true ∧ log = [] ∨
       env.channelClosed = false ∧ ∃ reply, log = [⟨.close ⟨id⟩, reply⟩])) := by
  unfold close at h
  cases hs : env.session with
  | none =>
    simp only [hs] at h
    obtain ⟨rfl, hr⟩ := after_ret_iff.1 h
    cases hr
    exact ⟨rfl, .inl ⟨rfl, rfl, rfl⟩⟩
  | some id =>
    simp only [hs] at h
    split at h
    · next hc =>
      obtain ⟨rfl, hr⟩ := after_ret_iff.1 h
      cases hr
      exact ⟨rfl, .inr ⟨id, rfl, rfl, .inl ⟨hc, rfl⟩⟩⟩
    · next hc =>
      obtain ⟨reply, log', rfl, hk⟩ := after_sendClose.1 h
      obtain ⟨rfl, hr⟩ := after_ret_iff.1 hk
      cases hr
      exact ⟨rfl, .inr ⟨id, rfl, rfl, .inr ⟨by simpa using hc, reply, rfl⟩⟩⟩

end SocketTunerEnvironment

/-! ## Runs of an instance -/

/-- One call: what it sent, with the outcomes, and what it returned or raised. -/
structure CallEvent where
  call : Call
  log : List RpcEvent
  result : CallResult

/-- A call runs its method to the end, with any outcome of each RPC. -/
def CallStep (cfg : EnvConfig) (env : SocketTunerEnvironment) (e : CallEvent)
    (env' : SocketTunerEnvironment) : Prop :=
  After (perform cfg env e.call) e.log (.ret (e.result, env'))

/-- The calls of a run, oldest first. -/
abbrev CallTrace := List (Lts.Trans SocketTunerEnvironment CallEvent)

/-- The RPCs sent in a run, in order. -/
def sent (tr : CallTrace) : List RpcEvent := tr.flatMap fun x => x.lab.log

/-- Where the caller is: without an episode, in one, or after one that returned `done`. -/
inductive Phase
  | idle
  | running
  | finished
  deriving DecidableEq, Repr

/-- The phase after a call; one that raises leaves it as it is. -/
def Phase.next (ph : Phase) (e : CallEvent) : Phase :=
  match e.call, e.result with
  | .reset, .ok _ => .running
  | .step _, .ok (some obs) => if obs.done then .finished else ph
  | .close, _ => .idle
  | _, _ => ph

/-- A call that keeps the discipline: no `reset` succeeds in a running episode, and after `done` no
`step` passes its checks and no `close` is made. -/
def Allowed (ph : Phase) (x : Lts.Trans SocketTunerEnvironment CallEvent) : Prop :=
  match x.lab.call with
  | .reset => ph = .running → ∃ err, x.lab.result = .error err
  | .step action => ph = .finished → ∃ err, x.src.stepRequest action = .error err
  | .close => ph ≠ .finished

/-- Every call of a run keeps the discipline, from the given phase on. -/
def Orderly : Phase → CallTrace → Prop
  | _, [] => True
  | ph, x :: tr => Allowed ph x ∧ Orderly (ph.next x.lab) tr

/-- The session the automaton has open, by phase. -/
def Tracks (env : SocketTunerEnvironment) : Phase → Option String → Prop
  | .idle, o => o = none ∧ env.sessionId = none
  | .running, o => ∃ id, id ≠ "" ∧ o = some id ∧ env.sessionId = some id ∧ env.channelClosed = false
  | .finished, o => o = none

theorem Tracks.congr {env env' : SocketTunerEnvironment} {ph : Phase} {o : Option String}
    (h : Tracks env ph o) (hid : env'.sessionId = env.sessionId)
    (hc : env'.channelClosed = env.channelClosed) : Tracks env' ph o := by
  cases ph with
  | idle => exact ⟨h.1, hid.trans h.2⟩
  | running =>
    obtain ⟨id, hne, ho, hs, hopen⟩ := h
    exact ⟨id, hne, ho, hid.trans hs, hc.trans hopen⟩
  | finished => exact h

theorem accepts_acquired {e : RpcEvent} {id : String} {rest : List RpcEvent}
    (he : acquired e = some id) (hid : id ≠ "") (h : Accepts (some id) rest) :
    Accepts none (e :: rest) := by
  obtain ⟨rpc, r⟩ := e
  cases rpc with
  | reset req =>
    unfold Accepts
    rw [he]
    exact ⟨rfl, hid, h⟩
  | step req => cases he
  | close req => cases he

theorem session_of_running {env : SocketTunerEnvironment} {id : String} (hne : id ≠ "")
    (hs : env.sessionId = some id) : env.session = some id := by
  simp [SocketTunerEnvironment.session, hs, hne]

/-- An allowed call takes the automaton to the session of the next phase. -/
theorem CallStep.tracks {cfg : EnvConfig} {env env' : SocketTunerEnvironment} {e : CallEvent}
    {ph : Phase} {o : Option String} (hs : CallStep cfg env e env')
    (hids : ∀ x ∈ e.log, acquired x ≠ some "") (hal : Allowed ph ⟨env, e, env'⟩)
    (ht : Tracks env ph o) :
    ∃ o', Tracks env' (ph.next e) o' ∧ ∀ rest, Accepts o' rest → Accepts o (e.log ++ rest) := by
  obtain ⟨call, log, result⟩ := e
  cases call with
  | reset =>
    obtain ⟨log₁, log₂, ⟨r, env₁⟩, rfl, h₁, h₂⟩ := after_bind_ret_iff.1 hs
    obtain ⟨rfl, hr⟩ := after_ret_iff.1 h₂
    cases hr
    rw [List.append_nil] at *
    obtain ⟨hc, ⟨err, rfl, hid, hlog⟩ | ⟨obs, id, pre, e, rfl, hopen, hid, rfl, hpre, he⟩⟩ :=
      SocketTunerEnvironment.reset_log h₁
    · exact ⟨o, ht.congr hid hc, fun rest h => (accepts_failed hlog).2 h⟩
    · have hne : id ≠ "" := fun e' => hids e (by simp) (e' ▸ he)
      have ho : o = none := by
        cases ph with
        | idle => exact ht.1
        | running => obtain ⟨err, herr⟩ := hal rfl; cases herr
        | finished => exact ht
      subst ho
      refine ⟨some id, ⟨id, hne, rfl, hid, hc.trans hopen⟩, fun rest h => ?_⟩
      rw [List.append_assoc]
      exact (accepts_failed hpre).2 (accepts_acquired he hne h)
  | step action =>
    obtain ⟨log₁, log₂, ⟨r, env₁⟩, rfl, h₁, h₂⟩ := after_bind_ret_iff.1 hs
    obtain ⟨rfl, hr⟩ := after_ret_iff.1 h₂
    cases hr
    rw [List.append_nil] at *
    obtain ⟨hid, hc, ⟨rfl, err, rfl⟩ | ⟨req, reply, hq, hreq, h⟩⟩ :=
      SocketTunerEnvironment.step_log h₁
    · exact ⟨o, ht.congr hid hc, fun rest h => h⟩
    · have hnotOver : ph ≠ .finished := by
        intro e
        obtain ⟨err, herr⟩ := hal e
        rw [hq] at herr
        cases herr
      have hopen : req.sessionId = "" ∨ o = some req.sessionId := by
        cases ph with
        | idle => left; rw [hreq, ht.2]; rfl
        | running => obtain ⟨id, -, ho, hs, -⟩ := ht; right; rw [hreq, hs, ho]; rfl
        | finished => exact absurd rfl hnotOver
      rcases h with ⟨rfl, hd⟩ | ⟨id, reply', obs, hsess, rfl, rfl, hd⟩
      · refine ⟨o, ?_, fun rest h => ⟨hopen, h⟩⟩
        have ht' := ht.congr hid hc
        cases r with
        | error err => exact ht'
        | ok obs =>
          cases hdone : obs.done with
          | false => simpa [Phase.next, Except.map, hdone] using ht'
          | true =>
            have hnone := hd obs rfl hdone
            cases ph with
            | idle => simpa [Phase.next, Except.map, hdone, Tracks] using ht'.1
            | running =>
              obtain ⟨id, hne, -, hs, -⟩ := ht
              rw [session_of_running hne hs] at hnone
              cases hnone
            | finished => exact absurd rfl hnotOver
      · obtain ⟨hsid, hne⟩ := SocketTunerEnvironment.sessionId_of_session hsess
        refine ⟨none, by simp [Phase.next, hd, Tracks], fun rest h => ⟨hopen, ?_, h⟩⟩
        rcases hopen with hempty | ho
        · rw [hreq, hsid] at hempty
          exact absurd hempty hne
        · rw [ho, hreq, hsid]; rfl
  | close =>
    obtain ⟨log₁, log₂, ⟨r, env₁⟩, rfl, h₁, h₂⟩ := after_bind_ret_iff.1 hs
    obtain ⟨rfl, hr⟩ := after_ret_iff.1 h₂
    cases hr
    rw [List.append_nil] at *
    obtain ⟨-, ⟨hnone, hid, rfl⟩ | ⟨id, hsess, hid, h⟩⟩ := SocketTunerEnvironment.close_log h₁
    · cases ph with
      | idle => exact ⟨none, ⟨rfl, hid.trans ht.2⟩, fun rest h => by rw [ht.1]; exact h⟩
      | running =>
        obtain ⟨id, hne, -, hs, -⟩ := ht
        rw [session_of_running hne hs] at hnone
        cases hnone
      | finished => exact absurd rfl hal
    · obtain ⟨hsid, hne⟩ := SocketTunerEnvironment.sessionId_of_session hsess
      cases ph with
      | idle => rw [ht.2] at hsid; cases hsid
      | running =>
        obtain ⟨id', -, ho, hs, hopen⟩ := ht
        rw [hs] at hsid
        cases hsid
        rcases h with ⟨hcl, -⟩ | ⟨-, reply, rfl⟩
        · rw [hopen] at hcl; cases hcl
        · exact ⟨none, ⟨rfl, hid⟩, fun rest h => ⟨ho, h⟩⟩
      | finished => exact absurd rfl hal

/-- The phase after a run. -/
def Phase.after (ph : Phase) (tr : CallTrace) : Phase := tr.foldl (fun ph x => ph.next x.lab) ph

theorem run_tracks {cfg : EnvConfig} {tr : CallTrace} {env env' : SocketTunerEnvironment}
    (h : Lts.Run (CallStep cfg) env tr env') : ∀ {ph : Phase} {o : Option String},
      Tracks env ph o → Orderly ph tr →
      (∀ e ∈ sent tr, acquired e ≠ some "") →
      ∃ o', Tracks env' (ph.after tr) o' ∧
        ∀ rest, Accepts o' rest → Accepts o (sent tr ++ rest) := by
  induction h with
  | nil env => intro ph o ht _ _; exact ⟨o, ht, fun rest h => h⟩
  | cons hs _ ih =>
    intro ph o ht ho hids
    simp only [sent, List.flatMap_cons, List.mem_append] at hids
    obtain ⟨o₁, ht₁, hacc₁⟩ := CallStep.tracks hs (fun x hx => hids x (.inl hx)) ho.1 ht
    obtain ⟨o₂, ht₂, hacc₂⟩ := ih ht₁ ho.2 fun x hx => hids x (.inr hx)
    refine ⟨o₂, ht₂, fun rest h => ?_⟩
    have := hacc₁ _ (hacc₂ rest h)
    simpa [sent] using this

/-- **The discipline of an instance.** A run that ends with `close`, in which no `reset` succeeds
during an episode and an episode that returned `done` is neither stepped nor closed, sends exactly
one `Close` for each session id obtained, and nothing for the id after it. Session ids are agent
addresses, never empty. -/
theorem lease_discipline {cfg : EnvConfig} {episodeId : String} {tr : CallTrace}
    {x : Lts.Trans SocketTunerEnvironment CallEvent} {env : SocketTunerEnvironment}
    (h : Lts.Run (CallStep cfg) (.init episodeId) (tr ++ [x]) env) (hx : x.lab.call = .close)
    (hids : ∀ e ∈ sent (tr ++ [x]), acquired e ≠ some "")
    (ho : Orderly .idle (tr ++ [x])) : Disciplined (sent (tr ++ [x])) := by
  have hinit : Tracks (.init episodeId) .idle none := ⟨rfl, rfl⟩
  obtain ⟨o, ht, hacc⟩ := run_tracks h hinit ho hids
  have hidle : Phase.idle.after (tr ++ [x]) = .idle := by
    simp [Phase.after, Phase.next, hx]
  rw [hidle] at ht
  have := hacc [] ht.1
  rw [List.append_nil] at this
  exact this.disciplined

/-! ## Two runs -/

/-- Replies of a router that gives out one agent and whose steps are done or not. -/
def replies (done : Bool) : (c : Rpc) → c.Ret
  | .reset _ => (.ok { success := true, sessionId := "10.0.0.7:50051" } : Except _ _)
  | .step _ => (.ok { done } : Except _ _)
  | .close _ => (.ok { success := true } : Except _ _)

/-- The calls of a list on an instance, each with the same replies. -/
def playCalls (done : Bool) (env : SocketTunerEnvironment) :
    List Call → CallTrace × SocketTunerEnvironment
  | [] => ([], env)
  | c :: calls =>
    let (log, result, env') := (perform .default env c).play (replies done)
    let rest := playCalls done env' calls
    (⟨env, ⟨c, log, result⟩, env'⟩ :: rest.1, rest.2)

theorem run_playCalls (done : Bool) (calls : List Call) : ∀ env : SocketTunerEnvironment,
    Lts.Run (CallStep .default) env (playCalls done env calls).1 (playCalls done env calls).2 := by
  induction calls with
  | nil => intro env; exact .nil env
  | cons c calls ih =>
    intro env
    exact .cons (after_play (replies done) (perform .default env c)) (ih _)

/-- An episode that is stepped once and closed before it is done. -/
def shortEpisode : CallTrace := (playCalls false .init [.reset, .step {}, .close]).1

theorem shortEpisode_orderly : Orderly .idle shortEpisode :=
  ⟨fun h => absurd h (by decide), fun h => absurd h (by decide), fun h => absurd h (by decide),
    trivial⟩

theorem lease_discipline_shortEpisode : Disciplined (sent shortEpisode) := by
  have hrun := run_playCalls false [.reset, .step {}, .close] .init
  exact lease_discipline (show Lts.Run _ _ (shortEpisode.take 2 ++ [_]) _ from hrun) rfl
    (show ∀ e ∈ sent shortEpisode, _ from by decide) shortEpisode_orderly

/-- `step` returns `done` and sends the `Close`; `close` sends it again. -/
def doneEpisode : CallTrace := (playCalls true .init [.reset, .step {}, .close]).1

theorem doneEpisode_closes_twice :
    Lts.Run (CallStep .default) .init doneEpisode
        (playCalls true .init [.reset, .step {}, .close]).2 ∧
      (doneEpisode.getLast?.map fun x => x.lab.call) = some .close ∧
      ¬Disciplined (sent doneEpisode) := by
  refine ⟨run_playCalls true [.reset, .step {}, .close] .init, rfl, fun h => ?_⟩
  obtain ⟨before, c, after, heq, hc, hb, ha⟩ := h [] _ _ "10.0.0.7:50051" rfl rfl
  have hcount : ((sent doneEpisode).drop 1).countP
      (fun e => decide (e.1 = .close ⟨"10.0.0.7:50051"⟩)) = 2 := by decide
  have hlog : (sent doneEpisode).drop 1 = before ++ c :: after := heq
  rw [hlog, List.countP_append, List.countP_cons] at hcount
  have hb0 : before.countP (fun e => decide (e.1 = .close ⟨"10.0.0.7:50051"⟩)) = 0 :=
    List.countP_eq_zero.2 fun e he => by simpa [SendsClose] using hb e he
  have ha0 : after.countP (fun e => decide (e.1 = .close ⟨"10.0.0.7:50051"⟩)) = 0 :=
    List.countP_eq_zero.2 fun e he => by simpa [SendsClose] using (ha e he).1
  rw [hb0, ha0] at hcount
  split at hcount <;> omega

end SocketTuner.Env
