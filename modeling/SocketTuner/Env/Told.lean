import SocketTuner.Env.Inference

/-!
# What the inference client tells the model

`main` keeps a history, a last observation and a last reward in variables that two retry loops, an
early exit and an exception handler update, and builds the prompts and the printed lines from them.
Whatever the environment and the model answer, these are what really happened in the episode
(`told_what_happened`): `Episode` is read off the calls made so far and their results, and
`Episode.Allows` is what the next call must agree with. A chat is given the whole history here;
`build_user_prompt` prints the last four entries of it (`history[-4:]`).
-/

namespace SocketTuner.Env

open Prog

/-- What happened in an episode so far. -/
structure Episode where
  /-- The result of the last `reset` or `step` that returned. -/
  result : Option StepResult := none
  /-- How many `reset`s returned. -/
  resets : Nat := 0
  /-- The steps that returned. -/
  turns : List HistoryEntry := []
  /-- What the model chose and no step has done yet. -/
  chosen : Option UISocketTunerAction := none
  /-- The exceptions since the last answer. -/
  errors : List String := []

namespace Episode

/-- The action of an answer of the model. -/
def choice : Option LLMSocketTunerAction → UISocketTunerAction
  | some action => action.toUiAction
  | none => fallback.toUiAction

/-- What happened after one more call. An episode begins with its `[START]` line. -/
def track (m : Episode) : ClientEvent → Episode
  | ⟨.logStart, _⟩ => {}
  | ⟨.reset, r⟩ =>
    match (r : Except String StepResult) with
    | .ok result => { m with result := some result, resets := m.resets + 1, errors := [] }
    | .error err => { m with errors := m.errors ++ [err] }
  | ⟨.chat _ _ _ _, answer⟩ => { m with chosen := some (choice answer), errors := [] }
  | ⟨.step action, r⟩ =>
    match (r : Except String StepResult) with
    | .ok result =>
      { m with result := some result, chosen := none, errors := []
               turns := m.turns ++ [.of (m.turns.length + 1) action result] }
    | .error err => { m with errors := m.errors ++ [err] }
  | ⟨.logStep _ _ _ _, _⟩ | ⟨.logEnd _ _ _ _, _⟩ => m

/-- A `reset` comes before all steps: at most two more after exceptions for want of a free agent, or
one more after an observation without an address. -/
def AllowsReset (m : Episode) : Prop :=
  m.turns = [] ∧ m.chosen = none ∧
    (m.resets = 0 ∧ m.errors.length ≤ 2 ∧ (∀ err ∈ m.errors, noFreeAgents err = true) ∨
      m.resets = 1 ∧ m.errors = [] ∧ ∃ r, m.result = some r ∧ r.observation.remoteIp = "")

/-- The model is asked when its last choice is done, and told the last observation and reward and
the whole history. -/
def AllowsChat (m : Episode) (step : Nat) (lastObs : LLMSocketTunerObservation) (last : ℚ)
    (history : List HistoryEntry) : Prop :=
  m.chosen = none ∧ m.errors = [] ∧ step = m.turns.length + 1 ∧ step ≤ MAX_STEPS ∧
    history = m.turns ∧ last = lastReward m.turns ∧
    ∃ r, m.result = some r ∧ r.done = false ∧ lastObs = r.observation

/-- The next call agrees with what happened. -/
def Allows (m : Episode) : ClientCmd → Prop
  | .logStart => True
  | .reset => m.AllowsReset
  | .chat step lastObs last history => m.AllowsChat step lastObs last history
  -- what the model chose, and again only after transient errors, twice at most
  | .step action => m.chosen = some action ∧ m.errors.length ≤ 2 ∧
      ∀ err ∈ m.errors, isTransient err = true
  | .logStep step action reward done => m.chosen = none ∧ ∃ turn r, m.turns.getLast? = some turn ∧
      m.result = some r ∧ step = turn.step ∧ action = turn.action ∧ reward = turn.reward ∧
      turn.obs = r.observation ∧ done = r.done
  | .logEnd success steps score rewards => rewards = m.turns.map HistoryEntry.reward ∧
      steps = m.turns.length ∧ score = episodeScore rewards ∧
      (success = true ↔ SUCCESS_SCORE_THRESHOLD ≤ score)

/-- `track` and `Allows` as a protocol for `main`. -/
def protocol (α : Type) : Protocol ClientCmd ClientCmd.Ret Episode α where
  track := track
  allows := Allows
  final _ _ := True

end Episode

open Episode

/-! ## The loops -/

/-- A retry adds the exception it answers to, which leaves one retry less. -/
theorem one_more_error {retried : String → Bool} {errors : List String} {err : String} {k : ℕ}
    (hlen : errors.length + (k + 1) = 2) (herr : ∀ e ∈ errors, retried e = true)
    (h : retried err = true) :
    (errors ++ [err]).length + k = 2 ∧ ∀ e ∈ errors ++ [err], retried e = true := by
  constructor
  · rw [List.length_append, List.length_singleton]
    omega
  · intro e he
    rcases List.mem_append.1 he with he | he
    · exact herr e he
    · rw [List.mem_singleton.1 he]
      exact h

/-- A reset that returns is the first to do so; if none does, no step is made. -/
theorem resetRetry_meets {m : Episode} (hturns : m.turns = []) (hchosen : m.chosen = none)
    (hresets : m.resets = 0) (herrors : m.errors = []) :
    (resetRetry 2).Meets ((protocol Unit).withFinal fun m' r => match r with
      | .ok result => m' = { result := some result, resets := 1 }
      | .error _ => m'.turns = []) m := by
  refine Meets.retry (I := fun n m => m.turns = [] ∧ m.chosen = none ∧ m.resets = 0 ∧
    m.errors.length + n = 2 ∧ ∀ err ∈ m.errors, noFreeAgents err = true) ?_ 2 m
    ⟨hturns, hchosen, hresets, by simp [herrors], by simp [herrors]⟩
  rintro n ⟨result, resets, turns, chosen, errors⟩ ⟨rfl, rfl, rfl, hlen, herr⟩
  refine ⟨⟨rfl, rfl, .inl ⟨rfl, Nat.le.intro hlen, herr⟩⟩, fun r => ?_⟩
  cases r with
  | ok result => exact ⟨rfl, fun e k h => by cases h⟩
  | error err =>
    refine ⟨rfl, fun e k h hagain hn => ?_⟩
    cases h
    subst hn
    exact ⟨rfl, rfl, rfl, one_more_error hlen herr hagain⟩

theorem getModelAction_meets {m : Episode} {step : Nat} {lastObs : LLMSocketTunerObservation}
    {last : ℚ} {history : List HistoryEntry} (h : m.AllowsChat step lastObs last history) :
    (getModelAction step lastObs last history).Meets ((protocol UISocketTunerAction).withFinal
      fun m' action => m' = { m with chosen := some action, errors := [] }) m := by
  refine ⟨h, fun answer => ?_⟩
  cases answer with
  | none => rfl
  | some action => rfl

theorem stepRetry_meets {m : Episode} {action : UISocketTunerAction}
    (hchosen : m.chosen = some action) (herrors : m.errors = []) :
    (stepRetry action 2).Meets ((protocol Unit).withFinal fun m' r => match r with
      | .ok result => m' = { m with
          result := some result, chosen := none
          turns := m.turns ++ [.of (m.turns.length + 1) action result] }
      | .error _ => m'.turns = m.turns) m := by
  refine Meets.retry (I := fun n m' => m' = { m with errors := m'.errors } ∧
    m'.errors.length + n = 2 ∧ ∀ err ∈ m'.errors, isTransient err = true) ?_ 2 m
    ⟨rfl, by simp [herrors], by simp [herrors]⟩
  rintro n m' ⟨hm, hlen, herr⟩
  obtain ⟨result, resets, turns, chosen, errors⟩ := m
  obtain rfl : chosen = some action := hchosen
  obtain rfl : errors = [] := herrors
  obtain ⟨errors', rfl⟩ : ∃ errors', m' =
      { result, resets, turns, chosen := some action, errors := errors' } := ⟨_, hm⟩
  refine ⟨⟨rfl, Nat.le.intro hlen, herr⟩, fun r => ?_⟩
  cases r with
  | ok result => exact ⟨rfl, fun e k h => by cases h⟩
  | error err =>
    refine ⟨rfl, fun e k h hagain hn => ?_⟩
    cases h
    subst hn
    exact ⟨rfl, one_more_error hlen herr hagain⟩

/-- What the step loop knows: the history is what happened, and the result the last one. -/
structure Knows (m : Episode) (left n : Nat) (result : StepResult) (history : List HistoryEntry) :
    Prop where
  turns : m.turns = history
  result_eq : m.result = some result
  chosen : m.chosen = none
  errors : m.errors = []
  step : n = history.length + 1
  left : n + left = MAX_STEPS + 1

/-- The loop keeps to what happened, and so does the history it ends with. -/
theorem stepLoop_meets {left : Nat} : ∀ {n : Nat} {result : StepResult}
    {history : List HistoryEntry} {m : Episode}, Knows m left n result history →
    (stepLoop left n result history).Meets ((protocol Unit).withFinal fun m' r =>
      m'.turns = r.2) m := by
  induction left with
  | zero => exact fun h => h.turns
  | succ left ih =>
    intro n result history m h
    unfold stepLoop
    split
    · exact h.turns
    · next hdone =>
      have hleft := h.left
      have hn : m.turns.length + 1 = n := by rw [h.turns, h.step]
      have hchat : m.AllowsChat n result.observation (lastReward history) history :=
        ⟨h.chosen, h.errors, hn.symm, by omega, h.turns.symm, h.turns ▸ rfl, result, h.result_eq,
          Bool.eq_false_iff.2 hdone, rfl⟩
      refine Meets.bind (getModelAction_meets hchat) ?_
      rintro _ action rfl
      refine Meets.bind (stepRetry_meets rfl rfl) fun m' r hr => ?_
      cases r with
      | error err => exact hr.trans h.turns
      | ok result' =>
        obtain rfl := hr
        have hturns : m.turns ++ [.of (m.turns.length + 1) action result'] =
            history ++ [.of n action result'] := by rw [hn, h.turns]
        refine ⟨⟨rfl, .of n action result', result', ?_, rfl, rfl, rfl, rfl, rfl, rfl⟩, fun _ => ?_⟩
        · rw [hturns, List.getLast?_concat]
        · change Meets _ (if result'.done = true then _ else _) _
          split
          · exact hturns
          · exact ih ⟨hturns, rfl, rfl, rfl, by rw [h.step, List.length_append]; rfl, by omega⟩

theorem episodeBody_meets : episodeBody.Meets ((protocol Unit).withFinal fun m' r =>
    m'.turns = r.2) {} := by
  refine Meets.bind (resetRetry_meets rfl rfl rfl rfl) fun m r hr => ?_
  cases r with
  | error err => exact hr
  | ok result =>
    obtain rfl := hr
    change Meets _ (if result.observation.remoteIp = "" then _ else _) _
    split
    · next hempty =>
      refine ⟨⟨rfl, rfl, .inr ⟨rfl, rfl, result, rfl, hempty⟩⟩, fun r => ?_⟩
      cases r with
      | error err => rfl
      | ok result => exact stepLoop_meets ⟨rfl, rfl, rfl, rfl, rfl, rfl⟩
    · exact stepLoop_meets ⟨rfl, rfl, rfl, rfl, rfl, rfl⟩

theorem episode_meets (m : Episode) : episode.Meets (protocol Unit) m := by
  refine ⟨trivial, fun _ => ?_⟩
  refine Meets.bind (p := episodeBody) episodeBody_meets fun m' r hr => ?_
  obtain ⟨e, history⟩ := r
  obtain rfl : m'.turns = history := hr
  exact ⟨⟨rfl, List.length_map _, rfl, decide_eq_true_iff⟩, fun _ => trivial⟩

theorem episodes_meets (left : Nat) (m : Episode) : (episodes left).Meets (protocol Unit) m := by
  induction left generalizing m with
  | zero => trivial
  | succ left ih => exact Meets.bind (episode_meets m) fun m' _ _ => ih m'

/-- **The model is told what happened.** Whatever the environment and the model have answered so
far, the next call of `main` agrees with it: prompts and lines carry the last observation, the last
reward and the whole history, a step does what the model chose, and only the failures that the
retries are for are retried. -/
theorem told_what_happened {log : List ClientEvent} {c : ClientCmd} {k : c.Ret → ClientProg Unit}
    (h : After main log (.op c k)) : (log.foldl track {}).Allows c :=
  ((episodes_meets numTasks {}).after h).1

/-- A result with a duration and a reward. -/
def sampleResult (duration : UInt64) (reward : ℚ) (metadata : Metadata) : StepResult :=
  parseResult { observation := { remoteIp := "1.1.1.1", durationUs := duration }, sessionId := "a"
                done := false, reward, metadata }

/-- The result of a `reset`. -/
def sampleBaseline : StepResult := sampleResult 100 0 (.reset (currentTask 0))

/-- The result of a step that was faster. -/
def sampleStep : StepResult := sampleResult 80 (1 / 5) (.step 1 100 (1 / 5))

/-- A first turn whose step was retried once; the model gave no answer. -/
def sampleLog : List ClientEvent :=
  [⟨.logStart, ()⟩,
   ⟨.reset, (.ok sampleBaseline : Except String StepResult)⟩,
   ⟨.chat 1 sampleBaseline.observation (1 / 100) [], (none : Option LLMSocketTunerAction)⟩,
   ⟨.step fallback.toUiAction, (.error "no metric found" : Except String StepResult)⟩,
   ⟨.step fallback.toUiAction, (.ok sampleStep : Except String StepResult)⟩,
   ⟨.logStep 1 fallback.toUiAction (1 / 5) false, ()⟩]

/-- The second question. -/
theorem told_what_happened_second : (sampleLog.foldl track {}).Allows
    (.chat 2 sampleStep.observation (1 / 5) [.of 1 fallback.toUiAction sampleStep]) :=
  told_what_happened (.cons (.cons (.cons (.cons (.cons (.cons (.nil _)))))))

end SocketTuner.Env
