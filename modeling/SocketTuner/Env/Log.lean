import SocketTuner.Env.EpisodeScore
import SocketTuner.Lib.Text

/-!
# The lines `main` prints

`log_start`, `log_step` and `log_end` of `inference.py`, character by character, and a reader of the
format the script documents: for each episode a `[START]` line, its `[STEP]` lines and an `[END]`
line.

Whatever happens in a run of `main`, its output reads back as three episodes that are what the
format promises (`main_log`). The rewards have two decimals and the score three, so nothing is lost
in printing them, and a reader can compute the score from the rewards.
-/

namespace SocketTuner.Env

open Prog Text Rounding

/-! ## Lines -/

/-- `TASK_NAME`, `BENCHMARK` and `MODEL_NAME`, from the environment of the process. -/
structure Names where
  task : List Char := "socket-tuner".toList
  benchmark : List Char := "socket-tuning".toList
  model : List Char := "Qwen/Qwen2.5-Coder-7B-Instruct".toList
  deriving DecidableEq, Repr

/-- The names have no blanks and no newlines. -/
def Names.Plain (names : Names) : Prop :=
  ∀ name ∈ [names.task, names.benchmark, names.model], ' ' ∉ name ∧ '\n' ∉ name

instance (names : Names) : Decidable names.Plain := List.decidableBAll _ _

/-- What a `[STEP]` line says. -/
structure StepLine where
  step : Nat
  congAlgo : CongAlgo
  initCwnd : Int
  reward : ℚ
  done : Bool
  deriving DecidableEq, Repr

/-- What an `[END]` line says. -/
structure EndLine where
  success : Bool
  steps : Nat
  score : ℚ
  rewards : List ℚ
  deriving DecidableEq, Repr

/-- The lines of `log_start`, `log_step` and `log_end`. -/
inductive Line
  | start (names : Names)
  | step (l : StepLine)
  | stop (l : EndLine)
  deriving DecidableEq, Repr

/-! ## Printing -/

/-- `f"{x:.{d}f}"` -/
def format (d : Nat) (x : ℚ) : List Char :=
  (if x < 0 then ['-'] else []) ++ fixed d (roundHalfEven (x * 10 ^ d)).natAbs

/-- `str(b).lower()` -/
def boolText (b : Bool) : List Char := if b then "true".toList else "false".toList

/-- The name of the algorithm. -/
def CongAlgo.text : CongAlgo → List Char
  | .cubic => "cubic".toList
  | .bbr => "bbr".toList

/-- `f"algo={action.cong_algo},init_cwnd={action.init_cwnd}"` -/
def actionStr (congAlgo : CongAlgo) (initCwnd : Int) : List Char :=
  [','].intercalate ["algo=".toList ++ congAlgo.text, "init_cwnd=".toList ++ intDigits initCwnd]

/-- The words of a line. -/
def Line.words : Line → List (List Char)
  | .start names =>
    ["[START]".toList, "task=".toList ++ names.task, "env=".toList ++ names.benchmark,
      "model=".toList ++ names.model]
  | .step l =>
    ["[STEP]".toList, "step=".toList ++ Nat.toDigits 10 l.step,
      "action=".toList ++ actionStr l.congAlgo l.initCwnd, "reward=".toList ++ format 2 l.reward,
      "done=".toList ++ boolText l.done, "error=null".toList]
  | .stop l =>
    ["[END]".toList, "success=".toList ++ boolText l.success,
      "steps=".toList ++ Nat.toDigits 10 l.steps, "score=".toList ++ format 3 l.score,
      "rewards=".toList ++ [','].intercalate (l.rewards.map (format 2))]

/-- The line as printed, without its newline. -/
def Line.text (l : Line) : List Char := [' '].intercalate l.words

example : (Line.step ⟨2, .bbr, 24, 49 / 50, true⟩).text =
    "[STEP] step=2 action=algo=bbr,init_cwnd=24 reward=0.98 done=true error=null".toList := by
  decide +kernel

example : (Line.stop ⟨true, 2, 198 / 1000, [1 / 100, 49 / 50]⟩).text =
    "[END] success=true steps=2 score=0.198 rewards=0.01,0.98".toList := by
  decide +kernel

/-- The line a command prints. -/
def ClientCmd.line (names : Names) : ClientCmd → Option Line
  | .logStart => some (.start names)
  | .logStep n action reward done =>
    some (.step
      { step := n, congAlgo := action.congAlgo, initCwnd := action.initCwnd, reward, done })
  | .logEnd success steps score rewards => some (.stop { success, steps, score, rewards })
  | _ => none

/-- The lines a run prints. -/
def lines (names : Names) (tr : List ClientTrans) : List Line :=
  tr.filterMap fun x => x.lab.1.line names

/-- What a run writes to `stdout`. -/
def stdout (names : Names) (tr : List ClientTrans) : List Char :=
  unlines ((lines names tr).map Line.text)

/-! ## Reading -/

/-- Read back what `format` writes. -/
def readFormat (d : Nat) (cs : List Char) : Option ℚ :=
  (readFixed d cs).map fun n => (n : ℚ) / 10 ^ d

/-- Read back what `boolText` writes. -/
def readBool (cs : List Char) : Option Bool :=
  if cs = "true".toList then some true else if cs = "false".toList then some false else none

/-- Read back the name of an algorithm. -/
def readAlgo (cs : List Char) : Option CongAlgo :=
  if cs = "cubic".toList then some .cubic else if cs = "bbr".toList then some .bbr else none

/-- Read back what `actionStr` writes. -/
def readAction (cs : List Char) : Option (CongAlgo × Int) :=
  match cs.splitOn ',' with
  | [algo, cwnd] => do
    let algo ← (dropKey "algo=".toList algo).bind readAlgo
    let cwnd ← (dropKey "init_cwnd=".toList cwnd).bind readInt
    pure (algo, cwnd)
  | _ => none

/-- Read back what `Line.text` writes. -/
def readLine (cs : List Char) : Option Line :=
  match cs.splitOn ' ' with
  | [tag, task, env, model] => do
    guard (tag = "[START]".toList)
    let task ← dropKey "task=".toList task
    let benchmark ← dropKey "env=".toList env
    let model ← dropKey "model=".toList model
    pure (.start { task, benchmark, model })
  | [tag, step, action, reward, done, error] => do
    guard (tag = "[STEP]".toList)
    let step ← (dropKey "step=".toList step).bind readNat
    let (congAlgo, initCwnd) ← (dropKey "action=".toList action).bind readAction
    let reward ← (dropKey "reward=".toList reward).bind (readFormat 2)
    let done ← (dropKey "done=".toList done).bind readBool
    guard (error = "error=null".toList)
    pure (.step { step, congAlgo, initCwnd, reward, done })
  | [tag, success, steps, score, rewards] => do
    guard (tag = "[END]".toList)
    let success ← (dropKey "success=".toList success).bind readBool
    let steps ← (dropKey "steps=".toList steps).bind readNat
    let score ← (dropKey "score=".toList score).bind (readFormat 3)
    let rewards ← (dropKey "rewards=".toList rewards).bind (readList ',' (readFormat 2))
    pure (.stop { success, steps, score, rewards })
  | _ => none

/-- The lines of one episode. -/
structure EpisodeLog where
  names : Names
  steps : List StepLine
  stop : EndLine
  deriving DecidableEq, Repr

/-- Read episodes, the first of which may have begun. -/
def readEpisodes : (begun : Option (Names × List StepLine)) → List Line → Option (List EpisodeLog)
  | none, [] => some []
  | none, .start names :: ls => readEpisodes (some (names, [])) ls
  | some (names, steps), .step l :: ls => readEpisodes (some (names, steps ++ [l])) ls
  | some (names, steps), .stop stop :: ls =>
    (readEpisodes none ls).map fun eps => { names, steps, stop } :: eps
  | _, _ => none

/-- Read the episodes of an output. -/
def readLog (text : List Char) : Option (List EpisodeLog) :=
  (readAll readLine (readLines text)).bind (readEpisodes none)

/-! ## Numbers that are printed whole -/

/-- A number with `d` decimals, not negative. -/
def Decimals (d : Nat) (x : ℚ) : Prop := ∃ n : Nat, x = n / 10 ^ d

theorem format_of_decimals {d n : Nat} : format d (n / 10 ^ d : ℚ) = fixed d n := by
  have hpos : (0 : ℚ) < 10 ^ d := by positivity
  have hnot : ¬((n : ℚ) / 10 ^ d < 0) := not_lt.2 (by positivity)
  have hround : roundHalfEven ((n : ℚ) / 10 ^ d * 10 ^ d) = n := by
    rw [div_mul_cancel₀ _ hpos.ne']
    exact roundHalfEven_intCast n
  rw [format, if_neg hnot, hround]
  rfl

theorem readFormat_format {d : Nat} (hd : 0 < d) {x : ℚ} (hx : Decimals d x) :
    readFormat d (format d x) = some x := by
  obtain ⟨n, rfl⟩ := hx
  rw [format_of_decimals, readFormat, readFixed_fixed hd]
  rfl

/-- A line that is printed without loss. -/
def Line.Plain : Line → Prop
  | .start names => names.Plain
  | .step l => Decimals 2 l.reward
  | .stop l => Decimals 3 l.score ∧ ∀ r ∈ l.rewards, Decimals 2 r

/-! ## A line is read back -/

theorem readBool_boolText (b : Bool) : readBool (boolText b) = some b := by cases b <;> decide

theorem readAlgo_text (a : CongAlgo) : readAlgo a.text = some a := by cases a <;> decide

theorem readAction_actionStr (a : CongAlgo) (cwnd : Int) :
    readAction (actionStr a cwnd) = some (a, cwnd) := by
  have hdigits : ',' ∉ intDigits cwnd := not_mem_intDigits (by decide) (by decide) cwnd
  have hsplit : (actionStr a cwnd).splitOn ',' =
      ["algo=".toList ++ a.text, "init_cwnd=".toList ++ intDigits cwnd] := by
    refine List.splitOn_intercalate ',' (fun item hitem => ?_) (List.cons_ne_nil _ _)
    rcases List.mem_cons.1 hitem with rfl | hitem
    · cases a <;> decide
    · rw [List.mem_singleton.1 hitem, List.mem_append, not_or]
      exact ⟨by decide, hdigits⟩
  rw [readAction, hsplit]
  simp only [dropKey_append, Option.bind_some, readAlgo_text, readInt_intDigits]
  rfl

theorem not_mem_format {c : Char} (hdigit : c.isDigit = false) (hpoint : c ≠ '.') (hsign : c ≠ '-')
    (d : Nat) (x : ℚ) : c ∉ format d x := by
  rw [format, List.mem_append, not_or]
  refine ⟨?_, not_mem_fixed hdigit hpoint _ _⟩
  split
  · simpa using hsign
  · exact List.not_mem_nil

theorem format_ne_nil (d : Nat) (x : ℚ) : format d x ≠ [] :=
  List.append_ne_nil_of_right_ne_nil _ (fixed_ne_nil _ _)

theorem Line.not_mem_words {l : Line} (h : l.Plain) {c : Char} (hc : c = ' ' ∨ c = '\n') :
    ∀ w ∈ l.words, c ∉ w := by
  have hdigit : c.isDigit = false := by rcases hc with rfl | rfl <;> decide
  have hpoint : c ≠ '.' := by rcases hc with rfl | rfl <;> decide
  have hcomma : c ≠ ',' := by rcases hc with rfl | rfl <;> decide
  have hsign : c ≠ '-' := by rcases hc with rfl | rfl <;> decide
  have hbool : ∀ b, c ∉ boolText b := by
    rintro (_ | _) <;> rcases hc with rfl | rfl <;> decide
  have hformat : ∀ d x, c ∉ format d x := not_mem_format hdigit hpoint hsign
  cases l with
  | start names =>
    have hname : ∀ name ∈ [names.task, names.benchmark, names.model], c ∉ name := by
      intro name hmem
      rcases hc with rfl | rfl
      · exact (h name hmem).1
      · exact (h name hmem).2
    simp only [List.forall_mem_cons] at hname
    simp only [words, List.forall_mem_cons, List.mem_append, not_or, hname]
    rcases hc with rfl | rfl <;> decide
  | step l =>
    have haction : c ∉ actionStr l.congAlgo l.initCwnd := by
      refine not_mem_intercalate hcomma fun item hitem => ?_
      rcases List.mem_cons.1 hitem with rfl | hitem
      · cases l.congAlgo <;> rcases hc with rfl | rfl <;> decide
      · rw [List.mem_singleton.1 hitem, List.mem_append, not_or]
        exact ⟨by rcases hc with rfl | rfl <;> decide, not_mem_intDigits hdigit hsign _⟩
    simp only [words, List.forall_mem_cons, List.mem_append, not_or, hbool, hformat, haction,
      not_mem_toDigits hdigit, not_false_eq_true, and_true]
    rcases hc with rfl | rfl <;> decide
  | stop l =>
    have hrewards : c ∉ [','].intercalate (l.rewards.map (format 2)) :=
      not_mem_intercalate hcomma (List.forall_mem_map.2 fun x _ => hformat 2 x)
    simp only [words, List.forall_mem_cons, List.mem_append, not_or, hbool, hformat, hrewards,
      not_mem_toDigits hdigit, not_false_eq_true, and_true]
    rcases hc with rfl | rfl <;> decide

theorem Line.splitOn_text {l : Line} (h : l.Plain) : l.text.splitOn ' ' = l.words := by
  refine List.splitOn_intercalate ' ' (l.not_mem_words h (.inl rfl)) ?_
  cases l <;> exact List.cons_ne_nil _ _

theorem Line.newline_not_mem_text {l : Line} (h : l.Plain) : '\n' ∉ l.text :=
  not_mem_intercalate (by decide) (l.not_mem_words h (.inr rfl))

/-- **A line is read back.** -/
theorem readLine_text {l : Line} (h : l.Plain) : readLine l.text = some l := by
  rw [readLine, Line.splitOn_text h]
  cases l with
  | start names =>
    simp only [Line.words, dropKey_append, guard, if_true]
    rfl
  | step l =>
    have hreward := readFormat_format (by decide : 0 < 2) h
    simp only [Line.words, dropKey_append, guard, if_true, Option.bind_some, readNat_toDigits,
      readAction_actionStr, readBool_boolText, hreward]
    rfl
  | stop l =>
    obtain ⟨hscore, hrewards⟩ := h
    have hread : readList ',' (readFormat 2) ([','].intercalate (l.rewards.map (format 2))) =
        some l.rewards :=
      readList_intercalate (fun r hr => readFormat_format (by decide) (hrewards r hr))
        (fun r _ => not_mem_format (by decide) (by decide) (by decide) 2 r)
        (fun r _ => format_ne_nil 2 r)
    simp only [Line.words, dropKey_append, guard, if_true, Option.bind_some, readNat_toDigits,
      readBool_boolText, readFormat_format (by decide : 0 < 3) hscore, hread]
    rfl

/-! ## Episodes are read back -/

/-- The lines of an episode. -/
def EpisodeLog.lines (ep : EpisodeLog) : List Line :=
  .start ep.names :: (ep.steps.map .step ++ [.stop ep.stop])

theorem readEpisodes_steps {names : Names} {stop : EndLine} {ls : List Line}
    {steps : List StepLine} : ∀ begun : List StepLine,
    readEpisodes (some (names, begun)) (steps.map .step ++ .stop stop :: ls) =
      (readEpisodes none ls).map fun eps => { names, steps := begun ++ steps, stop } :: eps := by
  induction steps with
  | nil => intro begun; rw [List.append_nil]; rfl
  | cons l steps ih =>
    intro begun
    rw [List.map_cons, List.cons_append, readEpisodes, ih, List.append_assoc]
    rfl

theorem readEpisodes_lines (eps : List EpisodeLog) :
    readEpisodes none (eps.flatMap EpisodeLog.lines) = some eps := by
  induction eps with
  | nil => rfl
  | cons ep eps ih =>
    rw [List.flatMap_cons, EpisodeLog.lines, List.cons_append, List.append_assoc,
      List.singleton_append, readEpisodes, readEpisodes_steps, ih]
    rfl

/-- The output of whole episodes is read back. -/
theorem readLog_unlines {eps : List EpisodeLog} (h : ∀ ep ∈ eps, ∀ l ∈ ep.lines, l.Plain) :
    readLog (unlines ((eps.flatMap EpisodeLog.lines).map Line.text)) = some eps := by
  have hplain : ∀ l ∈ eps.flatMap EpisodeLog.lines, l.Plain := by
    intro l hl
    obtain ⟨ep, hep, hl⟩ := List.mem_flatMap.1 hl
    exact h ep hep l hl
  have hlines := readLines_unlines
    (List.forall_mem_map.2 fun l hl => Line.newline_not_mem_text (hplain l hl))
  rw [readLog, hlines, readAll_map fun l hl => readLine_text (hplain l hl), Option.bind_some,
    readEpisodes_lines]

/-! ## What a run prints -/

/-- A reward as the environment gives it. -/
structure IsReward (r : ℚ) : Prop where
  ge : 1 / 100 ≤ r
  le : r ≤ 99 / 100
  decimals : Decimals 2 r

theorem decimals_of_intCast {d : Nat} {x : ℚ} (hx : 0 ≤ x) {n : ℤ} (h : x * 10 ^ d = n) :
    Decimals d x := by
  have hpos : (0 : ℚ) < 10 ^ d := by positivity
  have hn : 0 ≤ n := by
    have : (0 : ℚ) ≤ n := by rw [← h]; positivity
    exact_mod_cast this
  refine ⟨n.toNat, ?_⟩
  have hcast : ((n.toNat : ℕ) : ℚ) = n := by exact_mod_cast Int.toNat_of_nonneg hn
  rw [hcast, ← h, mul_div_cancel_right₀ _ hpos.ne']

theorem isReward_score (round : ℚ → ℚ) (baseline duration : Nat) :
    IsReward (score round baseline duration).reward := by
  obtain ⟨hge, hle⟩ := reward_mem round baseline duration
  obtain ⟨n, hn⟩ := exists_hundredths round baseline duration
  refine ⟨hge, hle, decimals_of_intCast (by linarith) (n := n) ?_⟩
  rw [← hn]
  ring

theorem episodeScore_mem (rewards : List ℚ) :
    1 / 100 ≤ episodeScore rewards ∧ episodeScore rewards ≤ 99 / 100 ∧
      Decimals 3 (episodeScore rewards) := by
  have hlow : round3 (1 / 100) = 1 / 100 := by decide +kernel
  have hhigh : round3 (99 / 100) = 99 / 100 := by decide +kernel
  have hge : 1 / 100 ≤ episodeScore rewards := by
    rw [← hlow]
    exact round3_mono (le_min (le_max_right _ _) (by norm_num))
  have hle : episodeScore rewards ≤ 99 / 100 := by
    rw [← hhigh]
    exact round3_mono (min_le_right _ _)
  have hdec : ∀ x, 0 ≤ round3 x → Decimals 3 (round3 x) := by
    intro x hx
    refine decimals_of_intCast hx (n := roundHalfEven (x * 1000)) ?_
    rw [round3]
    norm_num
  have hpos : 0 ≤ episodeScore rewards := by linarith
  exact ⟨hge, hle, hdec _ hpos⟩

/-- What the documented format promises of an episode. -/
structure EpisodeLog.Documented (names : Names) (ep : EpisodeLog) : Prop where
  names_eq : ep.names = names
  /-- The steps are numbered from one, without gaps. -/
  numbered : ep.steps.map StepLine.step = List.range' 1 ep.steps.length
  length_le : ep.steps.length ≤ MAX_STEPS
  /-- Only the last step is done. -/
  done_last : ∀ l ∈ ep.steps.dropLast, l.done = false
  rewards : ∀ l ∈ ep.steps, IsReward l.reward
  rewards_eq : ep.stop.rewards = ep.steps.map StepLine.reward
  steps_eq : ep.stop.steps = ep.steps.length
  score_eq : ep.stop.score = episodeScore ep.stop.rewards
  success_eq : ep.stop.success = decide (SUCCESS_SCORE_THRESHOLD ≤ ep.stop.score)

theorem EpisodeLog.Documented.plain {names : Names} {ep : EpisodeLog} (h : ep.Documented names)
    (hnames : names.Plain) : ∀ l ∈ ep.lines, l.Plain := by
  intro l hl
  rcases List.mem_cons.1 hl with rfl | hl
  · exact h.names_eq ▸ hnames
  rcases List.mem_append.1 hl with hl | hl
  · obtain ⟨step, hstep, rfl⟩ := List.mem_map.1 hl
    exact (h.rewards step hstep).decimals
  · rw [List.mem_singleton.1 hl]
    refine ⟨h.score_eq ▸ (episodeScore_mem _).2.2, fun r hr => ?_⟩
    rw [h.rewards_eq] at hr
    obtain ⟨step, hstep, rfl⟩ := List.mem_map.1 hr
    exact (h.rewards step hstep).decimals

section Runs

variable {errText : PyErr → String} {cfg : EnvConfig} {names : Names}

theorem lines_append (names : Names) (tr tr' : List ClientTrans) :
    lines names (tr ++ tr') = lines names tr ++ lines names tr' := List.filterMap_append

theorem lines_cons_none {x : ClientTrans} {tr : List ClientTrans}
    (h : x.lab.1.line names = none) : lines names (x :: tr) = lines names tr :=
  List.filterMap_cons_none h

theorem lines_cons_some {x : ClientTrans} {tr : List ClientTrans} {l : Line}
    (h : x.lab.1.line names = some l) : lines names (x :: tr) = l :: lines names tr :=
  List.filterMap_cons_some h

theorem lines_eq_nil {tr : List ClientTrans} (h : ∀ x ∈ tr, x.lab.1.line names = none) :
    lines names tr = [] :=
  List.filterMap_eq_nil_iff.2 h

variable (names) in
theorem stepRetry_lines {action : UISocketTunerAction} {left : Nat} {s u : ClientSys}
    {tr : List ClientTrans} {r : Except String StepResult}
    (h : ClientExec errText cfg (stepRetry action left) s tr r u) :
    lines names tr = [] ∧ ∀ result, r = .ok result → IsReward (result.reward.getD (1 / 100)) := by
  obtain ⟨pre, x, rfl, hx⟩ := stepRetry_exec h
  refine ⟨lines_eq_nil fun y hy => ?_, fun result hr => ?_⟩
  · rcases List.mem_append.1 hy with hy | hy
    · obtain ⟨action', err, hlab⟩ := (hx.raises y hy).1
      rw [hlab]
      rfl
    · rw [List.mem_singleton.1 hy, hx.lab]
      rfl
  · have hs := hx.step
    rw [hx.lab] at hs
    obtain ⟨req, resp, -, hreward, -⟩ := hs.step_inv.2 result hr
    rw [hreward]
    exact isReward_score _ _ _

/-- **The lines of a step loop**: one for each entry it adds to the history, numbered on. -/
theorem stepLoop_lines {left : Nat} : ∀ {n : Nat} {result : StepResult}
    {history history' : List HistoryEntry} {s u : ClientSys} {tr : List ClientTrans}
    {e : Option String},
    ClientExec errText cfg (stepLoop left n result history) s tr (e, history') u →
    result.done = false →
    ∃ ls : List StepLine, lines names tr = ls.map .step ∧
      history'.map HistoryEntry.reward =
        history.map HistoryEntry.reward ++ ls.map StepLine.reward ∧
      ls.map StepLine.step = List.range' n ls.length ∧ ls.length ≤ left ∧
      (∀ l ∈ ls.dropLast, l.done = false) ∧ ∀ l ∈ ls, IsReward l.reward := by
  induction left with
  | zero =>
    intro n result history history' s u tr e h _
    obtain ⟨rfl, heq, -⟩ := h.ret_done
    cases heq
    exact ⟨[], rfl, by simp, rfl, le_rfl, by simp, by simp⟩
  | succ left ih =>
    intro n result history history' s u tr e h hdone
    obtain ⟨c, tr₁, t, tr', action, r, rfl, ⟨hc, -, -⟩, h₁, hrest⟩ := stepLoop_turn h hdone
    obtain ⟨hquiet, hreward⟩ := stepRetry_lines names h₁
    have hchat : c.lab.1.line names = none := by rw [hc]; rfl
    have htr : lines names (c :: (tr₁ ++ tr')) = lines names tr' := by
      rw [lines_cons_none hchat, lines_append, hquiet, List.nil_append]
    rw [htr]
    obtain ⟨err, -, -, rfl, rfl, -⟩ | ⟨result', l, tr'', rfl, rfl, ⟨hl, -⟩, hend⟩ := hrest
    · exact ⟨[], rfl, by simp, rfl, Nat.zero_le _, by simp, by simp⟩
    have hr := hreward result' rfl
    -- the line of this step, and those of the rest of the loop
    let line : StepLine :=
      { step := n, congAlgo := action.congAlgo, initCwnd := action.initCwnd
        reward := (HistoryEntry.of n action result').reward, done := result'.done }
    have hline : l.lab.1.line names = some (.step line) := by rw [hl]; rfl
    rw [lines_cons_some hline]
    obtain ⟨-, -, rfl, rfl, -⟩ | ⟨hd, hloop⟩ := hend
    · refine ⟨[line], rfl, by simp [line], rfl, by simp, by simp, ?_⟩
      simpa [line, HistoryEntry.of] using hr
    · obtain ⟨ls, hls, hhist, hnum, hlen, hlast, hrew⟩ := ih hloop hd
      refine ⟨line :: ls, by rw [hls]; rfl, ?_, ?_, Nat.succ_le_succ hlen, ?_, ?_⟩
      · rw [hhist, List.map_append, List.append_assoc]
        rfl
      · rw [List.map_cons, hnum, List.length_cons, List.range'_succ]
      · intro l' hl'
        cases ls with
        | nil => simp at hl'
        | cons l₂ ls =>
          rw [List.dropLast_cons_cons] at hl'
          rcases List.mem_cons.1 hl' with rfl | hl'
          · exact hd
          · exact hlast l' hl'
      · rintro l' (_ | ⟨_, hl'⟩)
        · exact hr
        · exact hrew l' hl'

variable (names) in
/-- **The lines of an episode.** -/
theorem episode_lines {s u : ClientSys} {tr : List ClientTrans}
    (h : ClientExec errText cfg episode s tr () u) :
    ∃ ep : EpisodeLog, lines names tr = ep.lines ∧ ep.Documented names := by
  obtain ⟨a, body, z, e, history, t, rfl, ha, hz, hbody⟩ := episode_exec h
  obtain ⟨resets, steps, r, t', rfl, hresets, hsteps⟩ := episodeBody_exec hbody
  have hquiet : lines names resets = [] := by
    refine lines_eq_nil fun x hx => ?_
    rw [hresets.isReset x hx]
    rfl
  have hls : ∃ ls : List StepLine, lines names steps = ls.map .step ∧
      history.map HistoryEntry.reward = ls.map StepLine.reward ∧
      ls.map StepLine.step = List.range' 1 ls.length ∧ ls.length ≤ MAX_STEPS ∧
      (∀ l ∈ ls.dropLast, l.done = false) ∧ ∀ l ∈ ls, IsReward l.reward := by
    obtain ⟨err, -, -, rfl, rfl⟩ | ⟨result, rfl, hloop⟩ := hsteps
    · exact ⟨[], rfl, rfl, rfl, Nat.zero_le _, by simp, by simp⟩
    · exact stepLoop_lines hloop hresets.start.2
  obtain ⟨ls, hsteplines, hhist, hnum, hlen, hlast, hrew⟩ := hls
  let stop : EndLine :=
    { success := decide (SUCCESS_SCORE_THRESHOLD ≤ episodeScore (ls.map StepLine.reward))
      steps := ls.length, score := episodeScore (ls.map StepLine.reward)
      rewards := ls.map StepLine.reward }
  refine ⟨{ names, steps := ls, stop }, ?_, ⟨rfl, hnum, hlen, hlast, hrew, rfl, rfl, rfl, rfl⟩⟩
  have hstart : a.lab.1.line names = some (.start names) := by rw [ha]; rfl
  have hstop : z.lab.1.line names = some (.stop stop) := by
    rw [hz, hhist, endLine, List.length_map]
    rfl
  rw [lines_cons_some hstart, lines_append, lines_append, hquiet, hsteplines,
    lines_cons_some hstop]
  rfl

variable (names) in
theorem episodes_lines {left : Nat} : ∀ {s u : ClientSys} {tr : List ClientTrans},
    ClientExec errText cfg (episodes left) s tr () u →
    ∃ eps : List EpisodeLog, lines names tr = eps.flatMap EpisodeLog.lines ∧ eps.length = left ∧
      ∀ ep ∈ eps, ep.Documented names := by
  induction left with
  | zero =>
    intro s u tr h
    obtain ⟨rfl, -, -⟩ := h.ret_done
    exact ⟨[], rfl, rfl, by simp⟩
  | succ left ih =>
    intro s u tr h
    obtain ⟨tr₁, t, tr₂, rfl, h₁, h₂⟩ := episodes_exec h
    obtain ⟨ep, hep, hdoc⟩ := episode_lines names h₁
    obtain ⟨eps, heps, hlen, hdocs⟩ := ih h₂
    refine ⟨ep :: eps, ?_, congrArg (· + 1) hlen, List.forall_mem_cons.2 ⟨hdoc, hdocs⟩⟩
    rw [lines_append, hep, heps, List.flatMap_cons]

/-- **The output of `main`** reads back as three episodes that are as documented: steps numbered
from one, only the last of them done, the rewards of the end line those of the steps, its score the
score of these rewards, and success exactly from the threshold on. -/
theorem main_log {s u : ClientSys} {tr : List ClientTrans} (hnames : names.Plain)
    (h : ClientExec errText cfg main s tr () u) :
    ∃ eps : List EpisodeLog, readLog (stdout names tr) = some eps ∧ eps.length = numTasks ∧
      ∀ ep ∈ eps, ep.Documented names := by
  obtain ⟨eps, heps, hlen, hdocs⟩ := episodes_lines names h
  refine ⟨eps, ?_, hlen, hdocs⟩
  rw [stdout, heps]
  exact readLog_unlines fun ep hep => (hdocs ep hep).plain hnames

theorem main_log_even : ∃ eps : List EpisodeLog,
    readLog (stdout {} (main.record (ClientCmd.exec pyText .default
      (timedReplies 100 fun _ => 60) none) .init).1) = some eps ∧ eps.length = numTasks ∧
    ∀ ep ∈ eps, ep.Documented {} :=
  main_log (by decide) (exec_record (ClientCmd.step_exec pyText .default _ none) main .init)

end Runs

end SocketTuner.Env
