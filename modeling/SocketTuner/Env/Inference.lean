import Mathlib.Algebra.BigOperators.Group.List.Basic
import SocketTuner.Env.Discipline
import SocketTuner.Env.Models

/-!
# The inference client

`inference.py`: `main` and what it calls, as a program over the methods of a `SocketTunerEnv`
client, the chat completion and the lines it prints. An exception is the text that `str` gives of
it. Left out: the text of the prompts, `asyncio.sleep`, and `task_info`, which is not used.

The client is connected to one `SocketTunerEnvironment` (`ClientStep`): each of its methods is one
call of the environment's, which sends any RPCs it likes with any outcomes. The transport between
the two is not part of the repository; `errText` is what it makes of an exception of the
environment.
-/

namespace SocketTuner.Env

open Prog Rounding

/-! ## The client's view -/

/-- `StepResult` of the client. -/
structure StepResult where
  observation : LLMSocketTunerObservation
  reward : Option ℚ
  done : Bool
  deriving DecidableEq, Repr

/-- `SocketTunerEnv._parse_result`. -/
def parseResult (obs : SocketTunerObservation) : StepResult :=
  { observation := .wrap obs, reward := some obs.reward, done := obs.done }

/-- An entry of `episode_history`. -/
structure HistoryEntry where
  step : Nat
  action : UISocketTunerAction
  obs : LLMSocketTunerObservation
  reward : ℚ
  deriving DecidableEq, Repr

/-- What `main` does to the outside: calls of the environment, of the model, and printed lines. -/
inductive ClientCmd
  | logStart
  | reset
  /-- `client.chat.completions.create` and the parsing of its answer. -/
  | chat (step : Nat) (lastObs : LLMSocketTunerObservation) (lastReward : ℚ)
      (history : List HistoryEntry)
  | step (action : UISocketTunerAction)
  | logStep (step : Nat) (action : UISocketTunerAction) (reward : ℚ) (done : Bool)
  | logEnd (success : Bool) (steps : Nat) (score : ℚ) (rewards : List ℚ)
  deriving DecidableEq, Repr

/-- What comes back: `reset` and `step` may raise, and an answer of the model may be unusable. -/
def ClientCmd.Ret : ClientCmd → Type
  | .reset | .step _ => Except String StepResult
  | .chat _ _ _ _ => Option LLMSocketTunerAction
  | .logStart | .logStep _ _ _ _ | .logEnd _ _ _ _ => Unit

/-- A command and what came back. -/
abbrev ClientEvent := Event ClientCmd ClientCmd.Ret

/-- A program of the client. -/
abbrev ClientProg := Prog ClientCmd ClientCmd.Ret

/-- `log_start` -/
def logStart : ClientProg Unit := Prog.call ClientCmd.logStart
/-- `await env.reset()` -/
def envReset : ClientProg (Except String StepResult) := Prog.call ClientCmd.reset
/-- `await env.step(action)` -/
def envStep (action : UISocketTunerAction) : ClientProg (Except String StepResult) :=
  Prog.call (ClientCmd.step action)
/-- The question to the model and its answer. -/
def chat (step : Nat) (lastObs : LLMSocketTunerObservation) (lastReward : ℚ)
    (history : List HistoryEntry) : ClientProg (Option LLMSocketTunerAction) :=
  Prog.call (ClientCmd.chat step lastObs lastReward history)
/-- `log_step` -/
def logStep (step : Nat) (action : UISocketTunerAction) (reward : ℚ) (done : Bool) :
    ClientProg Unit :=
  Prog.call (ClientCmd.logStep step action reward done)
/-- `log_end` -/
def logEnd (success : Bool) (steps : Nat) (score : ℚ) (rewards : List ℚ) : ClientProg Unit :=
  Prog.call (ClientCmd.logEnd success steps score rewards)

/-! ## `main` -/

/-- The most steps the client makes in an episode. -/
def MAX_STEPS : Nat := 5
/-- The score from which an episode counts as a success. -/
def SUCCESS_SCORE_THRESHOLD : ℚ := 1 / 10
/-- The bound of a reward. -/
def MAX_REWARD_PER_STEP : ℚ := 1
/-- The bound of the rewards of an episode. -/
def MAX_TOTAL_REWARD : ℚ := MAX_STEPS * MAX_REWARD_PER_STEP
/-- The episodes of a run. -/
def numTasks : Nat := 3

/-- `text in err.lower()` -/
def lowerContains (text err : String) : Bool :=
  decide (text.toList <:+: err.toList.map Char.toLower)

/-- The exceptions after which a `reset` is tried again. -/
def noFreeAgents (err : String) : Bool := lowerContains "no free agents" err

/-- The exceptions after which a `step` is tried again. -/
def isTransient (err : String) : Bool :=
  lowerContains "no metric found" err || lowerContains "invalid ipv4" err

/-- The fallback config. -/
def fallback : LLMSocketTunerAction := { congAlgo := .cubic, initCwnd := 10, noDelay := false }

/-- `get_model_action`: the model's choice, or the fallback if its answer cannot be used. -/
def getModelAction (step : Nat) (lastObs : LLMSocketTunerObservation) (lastReward : ℚ)
    (history : List HistoryEntry) : ClientProg UISocketTunerAction := do
  match ← chat step lastObs lastReward history with
  | some action => pure action.toUiAction
  | none => pure fallback.toUiAction

/-- Retry the reset if the agent is busy, with `left` attempts after this one. -/
def resetRetry (left : Nat) : ClientProg (Except String StepResult) :=
  retry envReset noFreeAgents left

/-- Retry the step if it hits a transient error, with `left` attempts after this one. -/
def stepRetry (action : UISocketTunerAction) (left : Nat) :
    ClientProg (Except String StepResult) :=
  retry (envStep action) isTransient left

/-- The reward the model is told. -/
def lastReward (history : List HistoryEntry) : ℚ :=
  (history.getLast?.map HistoryEntry.reward).getD (1 / 100)

/-- The step loop, with `left` steps to go: the history and, if there was one, the exception that
ended it. -/
def stepLoop : (left step : Nat) → StepResult → List HistoryEntry →
    ClientProg (Option String × List HistoryEntry)
  | 0, _, _, history => pure (none, history)
  | left + 1, step, result, history =>
    if result.done then pure (none, history)
    else do
      let action ← getModelAction step result.observation (lastReward history) history
      match ← stepRetry action 2 with
      | .error e => pure (some e, history)
      | .ok result =>
        let reward := result.reward.getD (1 / 100)
        let history := history ++ [{ step, action, obs := result.observation, reward }]
        logStep step action reward result.done
        if result.done then pure (none, history) else stepLoop left (step + 1) result history

/-- The `try` block of an episode. -/
def episodeBody : ClientProg (Option String × List HistoryEntry) := do
  match ← resetRetry 2 with
  | .error e => pure (some e, [])
  | .ok result =>
    if result.observation.remoteIp = "" then
      -- try one more reset to get a valid baseline target
      match ← envReset with
      | .error e => pure (some e, [])
      | .ok result => stepLoop MAX_STEPS 1 result []
    else stepLoop MAX_STEPS 1 result []

/-- `round(x, 3)`. -/
def round3 (x : ℚ) : ℚ := roundHalfEven (x * 1000) / 1000

/-- The score of an episode: the share of the possible reward, between 0.01 and 0.99. -/
def episodeScore (rewards : List ℚ) : ℚ :=
  round3 (min (max (rewards.sum / MAX_TOTAL_REWARD) (1 / 100)) (99 / 100))

/-- An episode. Its score is the same whether or not an exception ended it. -/
def episode : ClientProg Unit := do
  logStart
  let (_, history) ← episodeBody
  let rewards := history.map HistoryEntry.reward
  let score := episodeScore rewards
  logEnd (decide (SUCCESS_SCORE_THRESHOLD ≤ score)) rewards.length score rewards

/-- The episodes left, one after the other. -/
def episodes : (left : Nat) → ClientProg Unit
  | 0 => pure ()
  | left + 1 => do
    episode
    episodes left

/-- `main` -/
def main : ClientProg Unit := episodes numTasks

/-! ## The client and its environment -/

/-- The environment, and the RPCs that the last call of the client made it send. -/
structure ClientSys where
  env : SocketTunerEnvironment
  sent : List RpcEvent

/-- The client with a new environment. -/
def ClientSys.init : ClientSys := { env := .init, sent := [] }

/-- What the client gets of a call. -/
def deliver (errText : PyErr → String) :
    Except PyErr SocketTunerObservation → Except String StepResult
  | .ok obs => .ok (parseResult obs)
  | .error e => .error (errText e)

/-- A command of the client: `reset` and `step` run the environment's method, nothing else touches
the environment. -/
def ClientStep (errText : PyErr → String) (cfg : EnvConfig) (s : ClientSys) (e : ClientEvent)
    (t : ClientSys) : Prop :=
  match e with
  | ⟨.reset, r⟩ => ∃ res, After s.env.reset t.sent (.ret (res, t.env)) ∧ r = deliver errText res
  | ⟨.step action, r⟩ =>
    ∃ res, After (s.env.step cfg action) t.sent (.ret (res, t.env)) ∧ r = deliver errText res
  | ⟨_, _⟩ => t.env = s.env ∧ t.sent = []

/-- A command with the states around it. -/
abbrev ClientTrans := Lts.Trans ClientSys ClientEvent

/-- A program of the client runs to its end on its environment. The `MAX_STEPS` of the environment
need not be that of the client. -/
abbrev ClientExec {α : Type} (errText : PyErr → String) (cfg : EnvConfig) (p : ClientProg α) :=
  Exec (ClientStep errText cfg) (fun _ _ => False) p

/-! ## Given answers -/

/-- The text of an exception. -/
def pyText : PyErr → String
  | .rpcError e => e
  | .runtimeError msg | .valueError msg | .validationError msg => msg

/-- The commands with given replies of the router and a given answer of the model. -/
def ClientCmd.exec (errText : PyErr → String) (cfg : EnvConfig)
    (replies : SocketTunerEnvironment → (c : Rpc) → c.Ret) (answer : Option LLMSocketTunerAction) :
    (c : ClientCmd) → ClientSys → c.Ret × ClientSys
  | .reset, s =>
    let (log, res, env) := s.env.reset.play (replies s.env)
    (deliver errText res, { env, sent := log })
  | .step action, s =>
    let (log, res, env) := (s.env.step cfg action).play (replies s.env)
    (deliver errText res, { env, sent := log })
  | .chat _ _ _ _, s => (answer, { s with sent := [] })
  | .logStart, s | .logStep _ _ _ _, s | .logEnd _ _ _ _, s => ((), { s with sent := [] })

theorem ClientCmd.step_exec (errText : PyErr → String) (cfg : EnvConfig)
    (replies : SocketTunerEnvironment → (c : Rpc) → c.Ret) (answer : Option LLMSocketTunerAction)
    (c : ClientCmd) (s : ClientSys) : ClientStep errText cfg s
      ⟨c, (c.exec errText cfg replies answer s).1⟩
      (c.exec errText cfg replies answer s).2 := by
  cases c with
  | reset => exact ⟨_, after_play (replies s.env) s.env.reset, rfl⟩
  | step action => exact ⟨_, after_play (replies s.env) (s.env.step cfg action), rfl⟩
  | chat _ _ _ _ | logStart | logStep _ _ _ _ | logEnd _ _ _ _ => exact ⟨rfl, rfl⟩

/-! ## What a command does -/

namespace SocketTunerEnvironment

theorem reset_env {env env' : SocketTunerEnvironment} {log : List RpcEvent}
    {r : Except PyErr SocketTunerObservation} (h : After env.reset log (.ret (r, env'))) :
    env'.resetCount = env.resetCount + 1 ∧
    ∀ obs, r = .ok obs → env'.stepCount = 0 ∧ obs.done = false ∧
      env'.baselineDuration = obs.observation.durationUs.toNat := by
  unfold reset at h
  simp only at h
  split at h
  · obtain ⟨-, hr⟩ := after_ret_iff.1 h
    cases hr
    exact ⟨rfl, fun obs h => by cases h⟩
  · obtain ⟨_, _, a, -, -, h₂⟩ := after_bind_ret_iff.1 h
    cases a with
    | error e =>
      obtain ⟨-, hr⟩ := after_ret_iff.1 h₂
      cases hr
      exact ⟨rfl, fun obs h => by cases h⟩
    | ok response =>
      obtain ⟨-, hr⟩ := after_ret_iff.1 h₂
      cases hr
      refine ⟨rfl, fun obs h => ?_⟩
      cases h
      exact ⟨rfl, rfl, rfl⟩

theorem scoreStep_result {cfg : EnvConfig} {env : SocketTunerEnvironment} {response : StepResponse}
    {log : List RpcEvent} {r : Except PyErr SocketTunerObservation}
    (h : After (scoreStep cfg env response) log (.ret r)) :
    r = env.stepResult (response.observation.getD {})
      (env.stepDone cfg response
        (score cfg.round env.baselineDuration (response.observation.getD {}).durationUs.toNat))
      (score cfg.round env.baselineDuration (response.observation.getD {}).durationUs.toNat) := by
  unfold scoreStep at h
  simp only at h
  split at h
  · obtain ⟨_, _, -, hk⟩ := after_sendClose.1 h
    cases (after_ret_iff.1 hk).2
    rfl
  · cases (after_ret_iff.1 h).2
    rfl

/-- `step` counts itself, whether it returns or raises, and changes nothing else. -/
theorem step_env {cfg : EnvConfig} {action : UISocketTunerAction}
    {env env' : SocketTunerEnvironment} {log : List RpcEvent}
    {r : Except PyErr SocketTunerObservation}
    (h : After (env.step cfg action) log (.ret (r, env'))) :
    env' = { env with stepCount := env.stepCount + 1 } ∧
    ∀ obs, r = .ok obs → ∃ req resp, ⟨.step req, (.ok resp : Except _ _)⟩ ∈ log ∧
      obs.reward =
        (score cfg.round env.baselineDuration (resp.observation.getD {}).durationUs.toNat).reward ∧
      obs.done = (resp.done ||
        (score cfg.round env.baselineDuration
          (resp.observation.getD {}).durationUs.toNat).doneEarly ||
        decide (cfg.maxSteps ≤ (env.stepCount + 1 : Nat))) := by
  unfold step at h
  simp only at h
  split at h
  · cases (after_ret_iff.1 h).2
    exact ⟨rfl, fun obs h => by cases h⟩
  · next req hreq =>
    split at h
    · cases (after_ret_iff.1 h).2
      exact ⟨rfl, fun obs h => by cases h⟩
    · obtain ⟨reply, log', rfl, hk⟩ := after_sendStep.1 h
      cases reply with
      | error e =>
        cases (after_ret_iff.1 hk).2
        exact ⟨rfl, fun obs h => by cases h⟩
      | ok response =>
        obtain ⟨_, _, r', -, h₁, h₂⟩ := after_bind_ret_iff.1 hk
        cases (after_ret_iff.1 h₂).2
        refine ⟨rfl, fun obs h => ⟨req, response, List.mem_cons_self, ?_⟩⟩
        subst h
        obtain ⟨hdone, hreward⟩ := stepResult_ok (scoreStep_result h₁).symm
        exact ⟨hreward, hdone⟩

end SocketTunerEnvironment

section Commands

variable {errText : PyErr → String} {cfg : EnvConfig} {s t : ClientSys}

theorem ClientStep.reset_inv {r : Except String StepResult}
    (h : ClientStep errText cfg s ⟨.reset, r⟩ t) :
    t.env.resetCount = s.env.resetCount + 1 ∧
    ∀ result, r = .ok result → t.env.stepCount = 0 ∧ result.done = false := by
  obtain ⟨res, hafter, rfl⟩ := h
  obtain ⟨hcount, hok⟩ := SocketTunerEnvironment.reset_env hafter
  refine ⟨hcount, fun result hr => ?_⟩
  cases res with
  | error e => cases hr
  | ok obs =>
    cases hr
    exact ⟨(hok obs rfl).1, (hok obs rfl).2.1⟩

theorem ClientStep.step_inv {action : UISocketTunerAction} {r : Except String StepResult}
    (h : ClientStep errText cfg s ⟨.step action, r⟩ t) :
    t.env = { s.env with stepCount := s.env.stepCount + 1 } ∧
    ∀ result, r = .ok result →
      ∃ req resp, ⟨.step req, (.ok resp : Except String StepResponse)⟩ ∈ t.sent ∧
      result.reward =
        some (score cfg.round s.env.baselineDuration
          (resp.observation.getD {}).durationUs.toNat).reward ∧
      result.done = (resp.done ||
        (score cfg.round s.env.baselineDuration
          (resp.observation.getD {}).durationUs.toNat).doneEarly ||
        decide (cfg.maxSteps ≤ (s.env.stepCount + 1 : Nat))) := by
  obtain ⟨res, hafter, rfl⟩ := h
  obtain ⟨henv, hok⟩ := SocketTunerEnvironment.step_env hafter
  refine ⟨henv, fun result hr => ?_⟩
  cases res with
  | error e => cases hr
  | ok obs =>
    cases hr
    obtain ⟨req, resp, hmem, hreward, hdone⟩ := hok obs rfl
    exact ⟨req, resp, hmem, congrArg some hreward, hdone⟩

end Commands

/-! ## What the loops do -/

section Loops

variable {errText : PyErr → String} {cfg : EnvConfig}

/-- A `step` that raises. -/
def Raises (x : ClientTrans) : Prop :=
  ∃ action err, x.lab = ⟨.step action, (.error err : Except String StepResult)⟩

/-- The attempts of a step that ended: those that raised, then the last one. Each is counted. -/
structure Attempts (errText : PyErr → String) (cfg : EnvConfig) (action : UISocketTunerAction)
    (s : ClientSys) (r : Except String StepResult) (u : ClientSys) (pre : List ClientTrans)
    (x : ClientTrans) : Prop where
  lab : x.lab = ⟨.step action, r⟩
  dst : x.dst = u
  step : ClientStep errText cfg x.src x.lab x.dst
  env : x.src.env = { s.env with stepCount := s.env.stepCount + pre.length }
  raises : ∀ y ∈ pre, Raises y ∧ s.env.stepCount ≤ y.src.env.stepCount
  first : ∀ y, (pre ++ [x]).head? = some y → y.src = s

theorem attempts_single {action : UISocketTunerAction} {s u : ClientSys}
    {r : Except String StepResult} (h : ClientStep errText cfg s ⟨.step action, r⟩ u) :
    Attempts errText cfg action s r u [] ⟨s, ⟨.step action, r⟩, u⟩ where
  lab := rfl
  dst := rfl
  step := h
  env := rfl
  raises := by simp
  first y hy := by cases hy; rfl

theorem Attempts.cons {action : UISocketTunerAction} {s t u : ClientSys} {e : String}
    {r : Except String StepResult} {pre : List ClientTrans} {x : ClientTrans}
    (hs : ClientStep errText cfg s ⟨.step action, (.error e : Except _ _)⟩ t)
    (h : Attempts errText cfg action t r u pre x) :
    Attempts errText cfg action s r u (⟨s, ⟨.step action, (.error e : Except _ _)⟩, t⟩ :: pre)
      x where
  lab := h.lab
  dst := h.dst
  step := h.step
  env := by
    rw [h.env, hs.step_inv.1, List.length_cons, Nat.add_right_comm, Nat.add_assoc]
  raises y hy := by
    rcases List.mem_cons.1 hy with rfl | hy
    · exact ⟨⟨action, e, rfl⟩, le_rfl⟩
    · obtain ⟨hraise, hle⟩ := h.raises y hy
      rw [hs.step_inv.1] at hle
      exact ⟨hraise, (Nat.le_succ _).trans hle⟩
  first y hy := by cases hy; rfl

theorem stepRetry_exec {action : UISocketTunerAction} {left : Nat} {s u : ClientSys}
    {tr : List ClientTrans} {r : Except String StepResult}
    (h : ClientExec errText cfg (stepRetry action left) s tr r u) :
    ∃ pre x, tr = pre ++ [x] ∧ Attempts errText cfg action s r u pre x := by
  replace h := Exec.retry_inv h
  induction h with
  | last h =>
    obtain ⟨rfl, hs⟩ := Exec.call_alone (c := ClientCmd.step action) h
    exact ⟨[], _, rfl, attempts_single hs⟩
  | again h _ ih =>
    obtain ⟨rfl, hs⟩ := Exec.call_alone (c := ClientCmd.step action) h
    obtain ⟨pre, x, rfl, hx⟩ := ih
    exact ⟨_, x, rfl, hx.cons hs⟩

/-- What the model is asked does not matter to the environment. -/
theorem getModelAction_exec {α : Type} {n : Nat} {obs : LLMSocketTunerObservation} {last : ℚ}
    {history : List HistoryEntry} {f : UISocketTunerAction → ClientProg α} {s u : ClientSys}
    {tr : List ClientTrans} {a : α}
    (h : ClientExec errText cfg (getModelAction n obs last history >>= f) s tr a u) :
    ∃ x tr' action, tr = x :: tr' ∧ x.lab.1 = .chat n obs last history ∧ x.src = s ∧
      x.dst.env = s.env ∧ ClientExec errText cfg (f action) x.dst tr' a u := by
  obtain ⟨r, t, tr', hs, rfl, hr⟩ := Exec.op_alone h
  cases r with
  | some action => exact ⟨_, tr', _, rfl, rfl, rfl, hs.1, hr⟩
  | none => exact ⟨_, tr', _, rfl, rfl, rfl, hs.1, hr⟩

/-- The entry of a step in the history. -/
def HistoryEntry.of (step : Nat) (action : UISocketTunerAction) (result : StepResult) :
    HistoryEntry :=
  { step, action, obs := result.observation, reward := result.reward.getD (1 / 100) }

/-- One turn of the step loop: a question to the model, the step with its retries, and unless it
failed the line for the step; then the loop ends or goes on. -/
theorem stepLoop_turn {left n : Nat} {result : StepResult} {history history' : List HistoryEntry}
    {s u : ClientSys} {tr : List ClientTrans} {e : Option String}
    (h : ClientExec errText cfg (stepLoop (left + 1) n result history) s tr (e, history') u)
    (hdone : result.done = false) :
    ∃ c tr₁ t tr' action r, tr = c :: (tr₁ ++ tr') ∧
      (c.lab.1 = .chat n result.observation (lastReward history) history ∧ c.src = s ∧
        c.dst.env = s.env) ∧
      ClientExec errText cfg (stepRetry action 2) c.dst tr₁ r t ∧
      ((∃ err, r = .error err ∧ e = some err ∧ history' = history ∧ tr' = [] ∧ u = t) ∨
       ∃ result' l tr'', r = .ok result' ∧ tr' = l :: tr'' ∧
        (l.lab.1 = .logStep n action (HistoryEntry.of n action result').reward result'.done ∧
          l.dst.env = t.env) ∧
        ((result'.done = true ∧ e = none ∧ history' = history ++ [.of n action result'] ∧
            tr'' = [] ∧ u = l.dst) ∨
         (result'.done = false ∧ ClientExec errText cfg
            (stepLoop left (n + 1) result' (history ++ [.of n action result'])) l.dst tr''
            (e, history') u))) := by
  unfold stepLoop at h
  simp only [hdone, Bool.false_eq_true, ↓reduceIte] at h
  obtain ⟨c, tr₀, action, rfl, hc, hcs, hce, h⟩ := getModelAction_exec h
  obtain ⟨tr₁, r, t, tr₂, rfl, h₁, h₂⟩ := h.bind_inv
  refine ⟨c, tr₁, t, tr₂, action, r, rfl, ⟨hc, hcs, hce⟩, h₁, ?_⟩
  cases r with
  | error err =>
    obtain ⟨rfl, heq, rfl⟩ := h₂.ret_done
    cases heq
    exact .inl ⟨err, rfl, rfl, rfl, rfl, rfl⟩
  | ok result' =>
    obtain ⟨_, t', tr'', hs, rfl, h₃⟩ := Exec.op_alone h₂
    refine .inr ⟨result', _, tr'', rfl, rfl, ⟨rfl, hs.1⟩, ?_⟩
    change ClientExec errText cfg (if result'.done = true then _ else _) _ _ _ _ at h₃
    split at h₃
    · next hd =>
      obtain ⟨rfl, heq, rfl⟩ := h₃.ret_done
      cases heq
      exact .inl ⟨hd, rfl, rfl, rfl, rfl⟩
    · next hd => exact .inr ⟨by simpa using hd, h₃⟩

theorem stepLoop_exec {left n : Nat} {result : StepResult} {history history' : List HistoryEntry}
    {s u : ClientSys} {tr : List ClientTrans} {e : Option String}
    (h : ClientExec errText cfg (stepLoop (left + 1) n result history) s tr (e, history') u)
    (hdone : result.done = false) :
    ∃ c pre x tr' action r, tr = c :: (pre ++ x :: tr') ∧
      (∃ obs last, c.lab.1 = .chat n obs last history) ∧ c.src = s ∧ c.dst.env = s.env ∧
      Attempts errText cfg action c.dst r x.dst pre x ∧
      ((∃ err, r = .error err ∧ e = some err ∧ history' = history ∧ tr' = []) ∨
       ∃ result' l tr'', r = .ok result' ∧ tr' = l :: tr'' ∧
        (∃ reward, l.lab.1 = .logStep n action reward result'.done) ∧ l.dst.env = x.dst.env ∧
        ((result'.done = true ∧ e = none ∧ history' = history ++ [.of n action result'] ∧
            tr'' = []) ∨
         (result'.done = false ∧ ClientExec errText cfg
            (stepLoop left (n + 1) result' (history ++ [.of n action result'])) l.dst tr''
            (e, history') u))) := by
  obtain ⟨c, tr₁, t, tr₂, action, r, rfl, ⟨hc, hcs, hce⟩, h₁, hrest⟩ := stepLoop_turn h hdone
  obtain ⟨pre, x, rfl, hx⟩ := stepRetry_exec h₁
  refine ⟨c, pre, x, tr₂, action, r, by simp, ⟨_, _, hc⟩, hcs, hce, hx.dst ▸ hx, ?_⟩
  rcases hrest with ⟨err, hr, he, hh, htr, -⟩ | ⟨result', l, tr'', hr, htr, ⟨hl, hle⟩, hend⟩
  · exact .inl ⟨err, hr, he, hh, htr⟩
  · refine .inr ⟨result', l, tr'', hr, htr, ⟨_, hl⟩, hle.trans (by rw [hx.dst]), ?_⟩
    rcases hend with ⟨hd, he, hh, htr, -⟩ | ⟨hd, hloop⟩
    · exact .inl ⟨hd, he, hh, htr⟩
    · exact .inr ⟨hd, hloop⟩

/-- A `reset` that raises. -/
def ResetRaises (x : ClientTrans) : Prop :=
  ∃ err, x.lab = ⟨.reset, (.error err : Except String StepResult)⟩

/-- The resets of an episode, with the result of the last: some that raise and one more, and when
that returned no observation another. -/
inductive Resets (errText : PyErr → String) (cfg : EnvConfig) :
    List ClientTrans → Except String StepResult → ClientSys → Prop
  | once {pre : List ClientTrans} {x : ClientTrans} {r : Except String StepResult}
      (hpre : ∀ y ∈ pre, ResetRaises y) (hx : ClientStep errText cfg x.src x.lab x.dst)
      (hlab : x.lab = ⟨.reset, r⟩)
      (hr : ∀ result, r = .ok result → result.observation.remoteIp ≠ "") :
      Resets errText cfg (pre ++ [x]) r x.dst
  | again {pre : List ClientTrans} {x y : ClientTrans} {result : StepResult}
      {r : Except String StepResult} (hpre : ∀ y ∈ pre, ResetRaises y)
      (hlab : x.lab = ⟨.reset, (.ok result : Except String StepResult)⟩)
      (hempty : result.observation.remoteIp = "")
      (hy : ClientStep errText cfg y.src y.lab y.dst) (hlab' : y.lab = ⟨.reset, r⟩) :
      Resets errText cfg (pre ++ [x, y]) r y.dst

/-- When no reset returned, the last one raised. -/
theorem Resets.raises {resets : List ClientTrans} {err : String} {t : ClientSys}
    (h : Resets errText cfg resets (.error err) t) : ∃ x ∈ resets, ResetRaises x := by
  cases h with
  | once hpre hx hlab hr => exact ⟨_, by simp, err, hlab⟩
  | again hpre hlab hempty hy hlab' => exact ⟨_, by simp, err, hlab'⟩

theorem Resets.isReset {resets : List ClientTrans} {r : Except String StepResult} {t : ClientSys}
    (h : Resets errText cfg resets r t) : ∀ x ∈ resets, x.lab.1 = .reset := by
  have hraises : ∀ {x}, ResetRaises x → x.lab.1 = .reset := by
    rintro x ⟨err, hlab⟩
    rw [hlab]
  intro z hz
  cases h with
  | once hpre hx hlab hr =>
    rcases List.mem_append.1 hz with hz | hz
    · exact hraises (hpre z hz)
    · rw [List.mem_singleton.1 hz, hlab]
  | again hpre hlab hempty hy hlab' =>
    rcases List.mem_append.1 hz with hz | hz
    · exact hraises (hpre z hz)
    · simp only [List.mem_cons, List.not_mem_nil, or_false] at hz
      rcases hz with rfl | rfl
      · rw [hlab]
      · rw [hlab']

theorem resetRetry_exec {left : Nat} {s u : ClientSys} {tr : List ClientTrans}
    {r : Except String StepResult} (h : ClientExec errText cfg (resetRetry left) s tr r u) :
    ∃ pre x, tr = pre ++ [x] ∧ (∀ y ∈ pre, ResetRaises y) ∧ x.lab = ⟨.reset, r⟩ ∧ x.dst = u ∧
      ClientStep errText cfg x.src x.lab x.dst := by
  replace h := Exec.retry_inv h
  induction h with
  | last h =>
    obtain ⟨rfl, hs⟩ := Exec.call_alone (c := ClientCmd.reset) h
    exact ⟨[], _, rfl, by simp, rfl, rfl, hs⟩
  | again h _ ih =>
    obtain ⟨rfl, hs⟩ := Exec.call_alone (c := ClientCmd.reset) h
    obtain ⟨pre, x, rfl, hpre, hx⟩ := ih
    exact ⟨_, x, rfl, List.forall_mem_cons.2 ⟨⟨_, rfl⟩, hpre⟩, hx⟩

theorem episodeBody_exec {s u : ClientSys} {tr : List ClientTrans} {e : Option String}
    {history : List HistoryEntry} (h : ClientExec errText cfg episodeBody s tr (e, history) u) :
    ∃ resets steps r t, tr = resets ++ steps ∧ Resets errText cfg resets r t ∧
      ((∃ err, r = .error err ∧ e = some err ∧ history = [] ∧ steps = []) ∨
       ∃ result, r = .ok result ∧
        ClientExec errText cfg (stepLoop MAX_STEPS 1 result []) t steps (e, history) u) := by
  obtain ⟨tr₁, r, t, tr₂, rfl, h₁, h₂⟩ := h.bind_inv
  obtain ⟨pre, x, rfl, hpre, hlab, rfl, hx⟩ := resetRetry_exec h₁
  cases r with
  | error err =>
    obtain ⟨rfl, heq, rfl⟩ := h₂.ret_done
    cases heq
    exact ⟨_, [], _, _, rfl, .once hpre hx hlab (fun _ h => by cases h),
      .inl ⟨err, rfl, rfl, rfl, rfl⟩⟩
  | ok result =>
    change ClientExec errText cfg (if result.observation.remoteIp = "" then _ else _) _ _ _ _ at h₂
    split at h₂
    · next hempty =>
      obtain ⟨r, t, tr', hs, rfl, h₃⟩ := Exec.op_alone h₂
      have hresets : Resets errText cfg (pre ++ [x, ⟨x.dst, ⟨.reset, r⟩, t⟩]) r t :=
        .again hpre hlab hempty hs rfl
      cases r with
      | error err =>
        obtain ⟨rfl, heq, rfl⟩ := h₃.ret_done
        cases heq
        exact ⟨_, [], _, _, by simp, hresets, .inl ⟨err, rfl, rfl, rfl, rfl⟩⟩
      | ok result => exact ⟨_, tr', _, _, by simp, hresets, .inr ⟨result, rfl, h₃⟩⟩
    · next hne =>
      refine ⟨_, tr₂, _, _, rfl, .once hpre hx hlab fun result' h => ?_, .inr ⟨result, rfl, h₂⟩⟩
      cases h
      exact hne

/-- The episode starts at step zero and not done. -/
theorem Resets.start {resets : List ClientTrans} {result : StepResult} {t : ClientSys}
    (h : Resets errText cfg resets (.ok result) t) : t.env.stepCount = 0 ∧ result.done = false := by
  cases h with
  | once hpre hx hlab hr =>
    rw [hlab] at hx
    exact hx.reset_inv.2 result rfl
  | again hpre hlab hempty hy hlab' =>
    rw [hlab'] at hy
    exact hy.reset_inv.2 result rfl

/-- The last line of an episode. -/
def endLine (rewards : List ℚ) : ClientCmd :=
  .logEnd (decide (SUCCESS_SCORE_THRESHOLD ≤ episodeScore rewards)) rewards.length
    (episodeScore rewards) rewards

theorem episode_exec {s u : ClientSys} {tr : List ClientTrans}
    (h : ClientExec errText cfg episode s tr () u) :
    ∃ a body z e history t, tr = a :: (body ++ [z]) ∧ a.lab.1 = .logStart ∧
      z.lab.1 = endLine (history.map HistoryEntry.reward) ∧
      ClientExec errText cfg episodeBody a.dst body (e, history) t := by
  obtain ⟨tr₀, ⟨⟩, t, tr', rfl, h₀, h₁⟩ := Exec.bind_inv h
  obtain ⟨rfl, -⟩ := Exec.call_alone (c := ClientCmd.logStart) h₀
  obtain ⟨body, ⟨e, history⟩, t', tr'', rfl, hbody, h₂⟩ := Exec.bind_inv h₁
  obtain ⟨_, t'', tr₃, hs', rfl, h₃⟩ := Exec.op_alone h₂
  obtain ⟨rfl, -, rfl⟩ := h₃.ret_done
  exact ⟨_, body, _, e, history, t', rfl, rfl, rfl, hbody⟩

theorem episodes_exec {left : Nat} {s u : ClientSys} {tr : List ClientTrans}
    (h : ClientExec errText cfg (episodes (left + 1)) s tr () u) :
    ∃ tr₁ t tr₂, tr = tr₁ ++ tr₂ ∧ ClientExec errText cfg episode s tr₁ () t ∧
      ClientExec errText cfg (episodes left) t tr₂ () u := by
  obtain ⟨tr₁, ⟨⟩, t, tr₂, rfl, h₁, h₂⟩ := Exec.bind_inv h
  exact ⟨tr₁, t, tr₂, rfl, h₁, h₂⟩

end Loops

end SocketTuner.Env
