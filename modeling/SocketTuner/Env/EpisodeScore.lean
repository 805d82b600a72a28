import Mathlib.Algebra.Order.BigOperators.Group.List
import SocketTuner.Env.Inference

/-!
# The score of an episode

The score is the sum of the rewards up to `done`, as a share of the maximum over `MAX_STEPS` steps.
The environment ends an episode at the first step that halves the duration, so the rewards of such
an episode are few, and its score is low although each reward is at its maximum
(`early_stop_lowers_score`). Step by step better performance never earns less, and between episodes
of one length it never scores less (`better_episode`). The arithmetic is exact in this module.
-/

namespace SocketTuner.Env

open Prog Rounding

variable {errText : PyErr → String}

/-- Exact arithmetic, and the same `MAX_STEPS` on both sides. -/
def exactConfig : EnvConfig := { maxSteps := MAX_STEPS, round := id }

/-- The rewards of an episode whose step `i` takes `d i`, from step `i` on with `left` to go. -/
def episodeRewards (baseline : Nat) (d : Nat → Nat) : (left i : Nat) → List ℚ
  | 0, _ => []
  | left + 1, i =>
    (score id baseline (d i)).reward ::
      if (score id baseline (d i)).doneEarly then []
      else episodeRewards baseline d left (i + 1)

/-! ## The rewards of the client -/

/-- Nothing raises, and the step `i` of the episode takes `d i` against the baseline. -/
def Timed (baseline : Nat) (d : Nat → Nat) (tr : List ClientTrans) : Prop :=
  ∀ x ∈ tr, ¬Raises x ∧ ¬ResetRaises x ∧
    ((∃ action, x.lab.1 = .step action) → x.src.env.baselineDuration = baseline) ∧
    ∀ req resp, ⟨.step req, (.ok resp : Except String StepResponse)⟩ ∈ x.dst.sent →
      resp.done = false ∧ (resp.observation.getD {}).durationUs.toNat = d x.src.env.stepCount

/-- The rest of an episode without errors, from a state in which every step was rewarded. -/
theorem stepLoop_rewards {baseline : Nat} {d : Nat → Nat} {left : Nat} : ∀ {n : Nat}
    {result : StepResult} {history history' : List HistoryEntry} {s u : ClientSys}
    {tr : List ClientTrans} {e : Option String},
    ClientExec errText exactConfig (stepLoop left n result history) s tr (e, history') u →
    Timed baseline d tr → s.env.stepCount + left = MAX_STEPS → result.done = false →
    history'.map HistoryEntry.reward =
      history.map HistoryEntry.reward ++ episodeRewards baseline d left s.env.stepCount := by
  induction left with
  | zero =>
    intro n result history history' s u tr e h _ _ _
    obtain ⟨-, heq, -⟩ := h.ret_done
    cases heq
    exact (List.append_nil _).symm
  | succ left ih =>
    intro n result history history' s u tr e h ht hlen hdone
    obtain ⟨c, pre, x, tr', action, r, rfl, -, -, hce, hx, hrest⟩ := stepLoop_exec h hdone
    obtain rfl : pre = [] := by
      cases pre with
      | nil => rfl
      | cons y pre => exact absurd (hx.raises y List.mem_cons_self).1 (ht y (by simp)).1
    obtain ⟨hno, -, hbase, hsent⟩ := ht x (by simp)
    have hsrc : x.src.env = s.env := by rw [hx.env, hce]; rfl
    obtain ⟨err, rfl, -⟩ | ⟨result', l, tr'', rfl, rfl, -, hle, hend⟩ := hrest
    · exact absurd ⟨action, err, hx.lab⟩ hno
    have hs := hx.step
    rw [hx.lab] at hs
    obtain ⟨henv, hok⟩ := hs.step_inv
    obtain ⟨req, resp, hmem, hreward, hd⟩ := hok result' rfl
    replace hreward : result'.reward = some (score id x.src.env.baselineDuration
        (resp.observation.getD {}).durationUs.toNat).reward := hreward
    replace hd : result'.done = (resp.done || (score id x.src.env.baselineDuration
        (resp.observation.getD {}).durationUs.toNat).doneEarly ||
        decide ((MAX_STEPS : Int) ≤ (x.src.env.stepCount + 1 : Nat))) := hd
    obtain ⟨hnot, hdur⟩ := hsent req resp hmem
    rw [hsrc] at henv hbase hdur hreward hd
    rw [hbase ⟨action, by rw [hx.lab]⟩, hdur] at hreward hd
    rw [hnot, Bool.false_or] at hd
    have hentry : (HistoryEntry.of n action result').reward =
        (score id baseline (d s.env.stepCount)).reward := by
      rw [HistoryEntry.of, hreward]
      rfl
    have hcount : l.dst.env.stepCount = s.env.stepCount + 1 := by rw [hle, henv]
    rw [episodeRewards]
    obtain ⟨hdn, -, rfl, rfl⟩ | ⟨hdn, hloop⟩ := hend
    · rw [List.map_append, List.map_singleton, hentry]
      congr 2
      split
      · rfl
      · next he =>
        -- the environment has counted to its maximum
        rw [hdn, Bool.eq_false_iff.2 he, Bool.false_or, eq_comm, decide_eq_true_eq,
          Nat.cast_le] at hd
        obtain rfl : left = 0 := by omega
        rfl
    · rw [hdn, eq_comm, Bool.or_eq_false_iff, decide_eq_false_iff_not, Nat.cast_le] at hd
      rw [ih hloop (fun y hy => ht y (by simp [hy])) (by omega) hdn, hcount, hd.1, List.map_append,
        List.map_singleton, hentry, List.append_assoc]
      rfl

/-- The episode was played to its end and printed its rewards and score. -/
def Prints (tr : List ClientTrans) (rewards : List ℚ) (sc : ℚ) : Prop :=
  ∃ z success, tr.getLast? = some z ∧ z.lab.1 = .logEnd success rewards.length sc rewards

theorem episode_last {baseline : Nat} {d : Nat → Nat} {s u : ClientSys} {tr : List ClientTrans}
    (h : ClientExec errText exactConfig episode s tr () u) (ht : Timed baseline d tr) :
    ∃ z, tr.getLast? = some z ∧ z.lab.1 = endLine (episodeRewards baseline d MAX_STEPS 0) := by
  obtain ⟨a, body, z, e, history, t, rfl, -, hz, hbody⟩ := episode_exec h
  obtain ⟨resets, steps, r, t', rfl, hresets, hsteps⟩ := episodeBody_exec hbody
  refine ⟨z, by rw [← List.cons_append, List.getLast?_concat], ?_⟩
  obtain ⟨err, rfl, -⟩ | ⟨result, rfl, hloop⟩ := hsteps
  · obtain ⟨x, hx, hr⟩ := hresets.raises
    exact absurd hr (ht x (by simp [hx])).2.1
  · obtain ⟨hzero, hdone⟩ := hresets.start
    have hrewards := stepLoop_rewards hloop (fun x hx => ht x (by simp [hx])) (by rw [hzero]; rfl)
      hdone
    rw [hzero, List.map_nil, List.nil_append] at hrewards
    rw [hz, hrewards]

theorem prints_episode {baseline : Nat} {d : Nat → Nat} {s u : ClientSys} {tr : List ClientTrans}
    (h : ClientExec errText exactConfig episode s tr () u) (ht : Timed baseline d tr) :
    Prints tr (episodeRewards baseline d MAX_STEPS 0)
      (episodeScore (episodeRewards baseline d MAX_STEPS 0)) := by
  obtain ⟨z, hlast, hz⟩ := episode_last h ht
  exact ⟨z, _, hlast, hz⟩

/-- The rewards and the score printed for an episode without errors. -/
theorem episode_prints {baseline : Nat} {d : Nat → Nat} {s u : ClientSys} {tr : List ClientTrans}
    (h : ClientExec errText exactConfig episode s tr () u) (ht : Timed baseline d tr)
    {rewards : List ℚ} {sc : ℚ} (hp : Prints tr rewards sc) :
    rewards = episodeRewards baseline d MAX_STEPS 0 ∧ sc = episodeScore rewards := by
  obtain ⟨z, hlast, hz⟩ := episode_last h ht
  obtain ⟨z', success, hlast', hz'⟩ := hp
  rw [hlast] at hlast'
  cases hlast'
  rw [hz'] at hz
  obtain ⟨-, -, rfl, rfl⟩ := ClientCmd.logEnd.inj hz
  exact ⟨rfl, rfl⟩

/-! ## Better performance -/

section Better

variable {baseline : Nat} {d d' : Nat → Nat}

/-- Every step of `d` is at least as fast. -/
def Better (d d' : Nat → Nat) : Prop := ∀ i < MAX_STEPS, 0 < d i ∧ d i ≤ d' i

theorem doneEarly_of_le {m n : Nat} (hpos : 0 < m) (hle : m ≤ n)
    (h : (score id baseline n).doneEarly = true) : (score id baseline m).doneEarly = true := by
  obtain ⟨hb, -, hhalf⟩ := (doneEarly_iff _ _).1 h
  exact (doneEarly_iff _ _).2 ⟨hb, hpos, by omega⟩

/-- The better episode is not longer, and each of its rewards is at least as high. -/
theorem episodeRewards_better (h : Better d d') {left : Nat} : ∀ {i : Nat}, i + left ≤ MAX_STEPS →
    (episodeRewards baseline d left i).length ≤ (episodeRewards baseline d' left i).length ∧
    ∀ (j : Nat) (r r' : ℚ), (episodeRewards baseline d left i)[j]? = some r →
      (episodeRewards baseline d' left i)[j]? = some r' → r' ≤ r := by
  induction left with
  | zero => intro i _; exact ⟨le_rfl, fun j r r' hr => by cases hr⟩
  | succ left ih =>
    intro i hi
    obtain ⟨hpos, hle⟩ := h i (by omega)
    have hreward := reward_antitone monotone_id baseline hpos hle
    obtain ⟨hlen, hget⟩ := ih (i := i + 1) (by omega)
    rw [episodeRewards, episodeRewards]
    constructor
    · rw [List.length_cons, List.length_cons]
      by_cases he : (score id baseline (d i)).doneEarly = true
      · simp [he]
      · have he' : ¬(score id baseline (d' i)).doneEarly = true := fun he' =>
          he (doneEarly_of_le hpos hle he')
        rw [if_neg he, if_neg he']
        omega
    · intro j r r' hr hr'
      cases j with
      | zero =>
        cases hr
        cases hr'
        exact hreward
      | succ j =>
        rw [List.getElem?_cons_succ] at hr hr'
        split at hr
        · cases hr
        · split at hr'
          · cases hr'
          · exact hget j r r' hr hr'

theorem round3_mono : Monotone round3 := fun x y h => by
  have hround : (roundHalfEven (x * 1000) : ℚ) ≤ roundHalfEven (y * 1000) := by
    exact_mod_cast roundHalfEven_mono (by linarith)
  unfold round3
  linarith

theorem episodeScore_le {l l' : List ℚ} (h : l.sum ≤ l'.sum) :
    episodeScore l ≤ episodeScore l' := by
  have hmax : (0 : ℚ) ≤ MAX_TOTAL_REWARD := by decide +kernel
  exact round3_mono (min_le_min_right _ (max_le_max_right _ (div_le_div_of_nonneg_right h hmax)))

/-- **Better performance, step by step.** Of two episodes without errors against one baseline, let
the first be at least as fast in each step. Then each of its rewards is at least as high, it is not
longer, and when it is as long, its score is at least as high. -/
theorem better_episode {s s' u u' : ClientSys} {tr tr' : List ClientTrans}
    {rewards rewards' : List ℚ} {sc sc' : ℚ} (hb : Better d d')
    (h : ClientExec errText exactConfig episode s tr () u) (ht : Timed baseline d tr)
    (hp : Prints tr rewards sc)
    (h' : ClientExec errText exactConfig episode s' tr' () u') (ht' : Timed baseline d' tr')
    (hp' : Prints tr' rewards' sc') :
    (∀ (j : Nat) (r r' : ℚ), rewards[j]? = some r → rewards'[j]? = some r' → r' ≤ r) ∧
    rewards.length ≤ rewards'.length ∧ (rewards.length = rewards'.length → sc' ≤ sc) := by
  obtain ⟨rfl, rfl⟩ := episode_prints h ht hp
  obtain ⟨rfl, rfl⟩ := episode_prints h' ht' hp'
  obtain ⟨hlen, hget⟩ := @episodeRewards_better baseline d d' hb MAX_STEPS 0 le_rfl
  refine ⟨hget, hlen, fun heq => episodeScore_le (List.Forall₂.sum_le_sum ?_)⟩
  refine List.forall₂_iff_get.2 ⟨heq.symm, fun j hj' hj => ?_⟩
  exact hget j _ _ (List.getElem?_eq_getElem hj) (List.getElem?_eq_getElem hj')

end Better

/-! ## Three episodes -/

/-- A response of the kind that `Timed` asks for. -/
def timedEvent (duration : Nat) : RpcEvent → Bool
  | ⟨.step _, r⟩ =>
    match (r : Except String StepResponse) with
    | .ok resp => !resp.done && (resp.observation.getD {}).durationUs.toNat == duration
    | .error _ => true
  | _ => true

/-- A decision of `Timed` for one command. -/
def timedTrans (baseline : Nat) (d : Nat → Nat) (x : ClientTrans) : Bool :=
  (match x.lab with
    | ⟨.reset, r⟩ => (r : Except String StepResult).isOk
    | ⟨.step _, r⟩ =>
      (r : Except String StepResult).isOk && x.src.env.baselineDuration == baseline
    | _ => true) && x.dst.sent.all (timedEvent (d x.src.env.stepCount))

theorem timed_of_check {baseline : Nat} {d : Nat → Nat} {tr : List ClientTrans}
    (h : tr.all (timedTrans baseline d) = true) : Timed baseline d tr := by
  intro x hx
  have hcheck := List.all_eq_true.1 h x hx
  unfold timedTrans at hcheck
  rw [Bool.and_eq_true] at hcheck
  obtain ⟨hlab, hsent⟩ := hcheck
  refine ⟨?_, ?_, ?_, fun req resp hmem => ?_⟩
  · rintro ⟨action, err, h⟩
    rw [h] at hlab
    cases hlab
  · rintro ⟨err, h⟩
    rw [h] at hlab
    cases hlab
  · rintro ⟨action, h⟩
    obtain ⟨s, ⟨c, r⟩, t⟩ := x
    cases h
    rw [Bool.and_eq_true, beq_iff_eq] at hlab
    exact hlab.2
  · simpa [timedEvent] using List.all_eq_true.1 hsent _ hmem

/-- A router that reports the baseline and the durations of the steps. -/
def timedReplies (baseline : UInt64) (d : Nat → UInt64) (env : SocketTunerEnvironment) :
    (c : Rpc) → c.Ret
  | .reset _ =>
    (.ok { success := true
           sessionId := "10.0.0.7:50051"
           initialObservation := some { remoteIp := "142.250.1.100", durationUs := baseline } } :
      Except _ _)
  | .step _ => (.ok { observation := some { durationUs := d env.stepCount } } : Except _ _)
  | .close _ => (.ok { success := true } : Except _ _)

/-- An episode whose steps all take `duration` against a baseline of 100. -/
def evenEpisode (duration : UInt64) : List ClientTrans × Unit × ClientSys :=
  episode.record (ClientCmd.exec pyText exactConfig (timedReplies 100 fun _ => duration) none) .init

theorem exec_evenEpisode (duration : UInt64) : ClientExec pyText exactConfig episode .init
    (evenEpisode duration).1 () (evenEpisode duration).2.2 :=
  exec_record (ClientCmd.step_exec _ _ _ _) _ _

theorem better_episode_even :
    episodeScore (episodeRewards 100 (fun _ => 60) MAX_STEPS 0) ≤
      episodeScore (episodeRewards 100 (fun _ => 51) MAX_STEPS 0) := by
  have ht : Timed 100 (fun _ => 51) (evenEpisode 51).1 := timed_of_check (by decide +kernel)
  have ht' : Timed 100 (fun _ => 60) (evenEpisode 60).1 := timed_of_check (by decide +kernel)
  have hb : Better (fun _ => 51) (fun _ => 60) := fun _ _ => ⟨Nat.succ_pos 50, by simp⟩
  exact (better_episode hb (exec_evenEpisode 51) ht (prints_episode (exec_evenEpisode 51) ht)
    (exec_evenEpisode 60) ht' (prints_episode (exec_evenEpisode 60) ht')).2.2 (by decide +kernel)

/-- Steps at half the baseline end the episode at once; slightly slower ones do not, and score
almost five times as much. -/
theorem early_stop_lowers_score :
    ∃ tr tr' u u' rewards rewards',
      ClientExec pyText exactConfig episode .init tr () u ∧ Timed 100 (fun _ => 50) tr ∧
      Prints tr rewards (198 / 1000) ∧
      ClientExec pyText exactConfig episode .init tr' () u' ∧ Timed 100 (fun _ => 51) tr' ∧
      Prints tr' rewards' (98 / 100) := by
  have ht : Timed 100 (fun _ => 50) (evenEpisode 50).1 := timed_of_check (by decide +kernel)
  have ht' : Timed 100 (fun _ => 51) (evenEpisode 51).1 := timed_of_check (by decide +kernel)
  have hp := prints_episode (exec_evenEpisode 50) ht
  have hp' := prints_episode (exec_evenEpisode 51) ht'
  have hsc : episodeScore (episodeRewards 100 (fun _ => 50) MAX_STEPS 0) = 198 / 1000 := by
    decide +kernel
  have hsc' : episodeScore (episodeRewards 100 (fun _ => 51) MAX_STEPS 0) = 98 / 100 := by
    decide +kernel
  rw [hsc] at hp
  rw [hsc'] at hp'
  exact ⟨_, _, _, _, _, _, exec_evenEpisode 50, ht, hp, exec_evenEpisode 51, ht', hp'⟩

end SocketTuner.Env
