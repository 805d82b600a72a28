import SocketTuner.Env.Inference

/-!
# The step budget of an episode

Client and environment each count the steps of an episode: the client those that succeed, the
environment every attempt, before it is made. An attempt that raises and is retried has used up a
step, so the episode ends with fewer rewarded steps (`step_budget_iff`).
-/

namespace SocketTuner.Env

open Prog

variable {errText : PyErr → String} {cfg : EnvConfig}

/-- The agent does not report `done`, and the duration is not down to half the baseline. -/
def Quiet (cfg : EnvConfig) (x : ClientTrans) : Prop :=
  ∀ req resp, ⟨.step req, (.ok resp : Except String StepResponse)⟩ ∈ x.dst.sent →
    resp.done = false ∧
    (score cfg.round x.src.env.baselineDuration
      (resp.observation.getD {}).durationUs.toNat).doneEarly = false

/-- A quiet step is done when the environment has counted to `MAX_STEPS`. -/
theorem Attempts.done_iff {action : UISocketTunerAction} {s u : ClientSys} {result : StepResult}
    {pre : List ClientTrans} {x : ClientTrans}
    (hcfg : cfg.maxSteps = MAX_STEPS) (h : Attempts errText cfg action s (.ok result) u pre x)
    (hq : Quiet cfg x) :
    u.env.stepCount = s.env.stepCount + pre.length + 1 ∧
      (result.done = true ↔ MAX_STEPS ≤ u.env.stepCount) := by
  have hs := h.step
  rw [h.lab] at hs
  obtain ⟨henv, hok⟩ := hs.step_inv
  obtain ⟨req, resp, hmem, -, hdone⟩ := hok result rfl
  obtain ⟨hd, he⟩ := hq req resp hmem
  have hcount : u.env.stepCount = s.env.stepCount + pre.length + 1 := by
    rw [← h.dst, henv, h.env]
  rw [h.env] at hdone he
  refine ⟨hcount, ?_⟩
  rw [hdone, hd, he, hcount, hcfg]
  simp only [Bool.or_self, Bool.false_or, decide_eq_true_eq, Nat.cast_le]

theorem Attempts.first_raises {action : UISocketTunerAction} {s u : ClientSys}
    {r : Except String StepResult} {pre : List ClientTrans} {x : ClientTrans}
    (h : Attempts errText cfg action s r u pre x) (hpre : pre ≠ []) :
    ∃ y ∈ pre, Raises y ∧ y.src = s := by
  cases pre with
  | nil => exact absurd rfl hpre
  | cons y pre =>
    exact ⟨y, List.mem_cons_self, (h.raises y List.mem_cons_self).1, h.first y rfl⟩

/-- Every attempt that raises comes when all but one of the steps are counted. -/
def RaisesLast (tr : List ClientTrans) : Prop :=
  ∀ x ∈ tr, Raises x → MAX_STEPS ≤ x.src.env.stepCount + 1

theorem raises_iff_step {x : ClientTrans} {action : UISocketTunerAction}
    {r : Except String StepResult} (h : x.lab = ⟨.step action, r⟩) :
    Raises x ↔ ∃ err, r = .error err := by
  constructor
  · rintro ⟨action', err, h'⟩
    rw [h] at h'
    cases h'
    exact ⟨err, rfl⟩
  · rintro ⟨err, rfl⟩
    exact ⟨action, err, h⟩

theorem not_raises {x : ClientTrans} (h : ∀ action, x.lab.1 ≠ .step action) : ¬Raises x := by
  rintro ⟨action, err, hlab⟩
  exact h action (congrArg Sigma.fst hlab)

theorem raisesLast_nil : RaisesLast [] := fun _ h => by cases h

theorem raisesLast_cons {x : ClientTrans} {tr : List ClientTrans} (h : ¬Raises x) :
    RaisesLast (x :: tr) ↔ RaisesLast tr := by
  unfold RaisesLast
  rw [List.forall_mem_cons]
  exact and_iff_right fun hr => absurd hr h

theorem raisesLast_append {tr tr' : List ClientTrans} :
    RaisesLast (tr ++ tr') ↔ RaisesLast tr ∧ RaisesLast tr' :=
  List.forall_mem_append

/-- The rest of a quiet episode, from a state in which the environment has counted the steps in the
history and perhaps more: it has no room for more rewarded steps than the environment has left, and
when all counted steps were rewarded it fills the budget unless an attempt raises too early. -/
theorem stepLoop_budget (hcfg : cfg.maxSteps = MAX_STEPS) {left : Nat} :
    ∀ {n : Nat} {result : StepResult} {history history' : List HistoryEntry} {s u : ClientSys}
      {tr : List ClientTrans},
    ClientExec errText cfg (stepLoop left n result history) s tr (none, history') u →
    (∀ x ∈ tr, Quiet cfg x) → history.length + left = MAX_STEPS → result.done = false →
    s.env.stepCount < MAX_STEPS →
    history'.length ≤ history.length + (MAX_STEPS - s.env.stepCount) ∧
    (s.env.stepCount = history.length → (history'.length = MAX_STEPS ↔ RaisesLast tr)) := by
  induction left with
  | zero =>
    intro n result history history' s u tr h _ hlen _ hlt
    obtain ⟨rfl, heq, rfl⟩ := h.ret_done
    cases heq
    constructor
    · omega
    · intro heq
      omega
  | succ left ih =>
    intro n result history history' s u tr h hq hlen hdone hlt
    obtain ⟨c, pre, x, tr', action, r, rfl, ⟨obs, last, hc⟩, -, hce, hx, hrest⟩ :=
      stepLoop_exec h hdone
    obtain ⟨err, -, he, -⟩ | ⟨result', l, tr'', rfl, rfl, ⟨reward, hl⟩, hle, hend⟩ := hrest
    · cases he
    obtain ⟨hcount, hd⟩ := hx.done_iff hcfg (hq x (by simp))
    rw [hce] at hcount
    -- the question and the printed line do not raise, nor does the last attempt
    have hchat : ¬Raises c := not_raises (by simp [hc])
    have hline : ¬Raises l := not_raises (by simp [hl])
    have hok : ¬Raises x := by
      rw [raises_iff_step hx.lab]
      rintro ⟨_, h⟩
      cases h
    have hlast : RaisesLast (c :: (pre ++ x :: l :: tr'')) ↔ RaisesLast pre ∧ RaisesLast tr'' := by
      rw [raisesLast_cons hchat, raisesLast_append, raisesLast_cons hok, raisesLast_cons hline]
    have hpre : s.env.stepCount + 1 < MAX_STEPS → pre ≠ [] → ¬RaisesLast pre := by
      intro hlt' hne hp
      obtain ⟨y, hy, hr, hsrc⟩ := hx.first_raises hne
      have := hp y hy hr
      rw [hsrc, hce] at this
      omega
    have hpre' : MAX_STEPS ≤ s.env.stepCount + 1 → RaisesLast pre := by
      intro hge y hy _
      have := (hx.raises y hy).2
      rw [hce] at this
      omega
    have hpos : pre ≠ [] → 0 < pre.length := List.length_pos_of_ne_nil
    rw [hlast]
    obtain ⟨hdn, -, rfl, rfl⟩ | ⟨hdn, hloop⟩ := hend
    · have hge := hd.1 hdn
      rw [List.length_append, List.length_singleton]
      refine ⟨by omega, fun heq => ⟨fun h => ⟨hpre' (by omega), raisesLast_nil⟩, fun h => ?_⟩⟩
      by_contra hne
      refine hpre (by omega) ?_ h.1
      rintro rfl
      rw [List.length_nil] at hcount
      omega
    · have hlt' : x.dst.env.stepCount < MAX_STEPS := by
        by_contra hge
        rw [hd.2 (not_lt.1 hge)] at hdn
        cases hdn
      rw [← hle] at hcount hlt'
      obtain ⟨hbound, hiff⟩ := ih hloop (fun y hy => hq y (by simp [hy]))
        (by rw [List.length_append, List.length_singleton]; omega) hdn hlt'
      rw [List.length_append, List.length_singleton] at hbound hiff
      refine ⟨by omega, fun heq => ?_⟩
      by_cases hp : pre = []
      · subst hp
        rw [List.length_nil] at hcount
        rw [hiff (by omega)]
        exact (and_iff_right raisesLast_nil).symm
      · -- a step was wasted: there is no room for all the rewards any more
        have := hpos hp
        exact ⟨fun h => by omega, fun h => absurd h.1 (hpre (by omega) hp)⟩

/-- **When retries do not eat the step budget.** Let client and environment have the same
`MAX_STEPS`. In an episode whose exceptions were all absorbed, that the agent does not end and that
never halves the duration, each `step` that raises leaves the environment as it was, and there are
exactly `MAX_STEPS` rewarded steps, just when no `step` raises. The number of rewarded steps alone
is right just when the attempts that raise come last. -/
theorem step_budget_iff {s u : ClientSys} {tr : List ClientTrans} {history : List HistoryEntry}
    (hcfg : cfg.maxSteps = MAX_STEPS)
    (h : ClientExec errText cfg episodeBody s tr (none, history) u)
    (hq : ∀ x ∈ tr, Quiet cfg x) :
    (((∀ x ∈ tr, Raises x → x.dst.env = x.src.env) ∧ history.length = MAX_STEPS) ↔
      ∀ x ∈ tr, ¬Raises x) ∧
    (history.length = MAX_STEPS ↔
      ∀ x ∈ tr, Raises x → MAX_STEPS ≤ x.src.env.stepCount + 1) := by
  have hlast : history.length = MAX_STEPS ↔ RaisesLast tr := by
    obtain ⟨resets, steps, r, t, rfl, hresets, ⟨_, -, he, -⟩ | ⟨result, rfl, hloop⟩⟩ :=
      episodeBody_exec h
    · cases he
    obtain ⟨hzero, hdone⟩ := hresets.start
    have hsteps := (stepLoop_budget hcfg hloop (fun x hx => hq x (List.mem_append_right _ hx)) rfl
      hdone (by rw [hzero]; decide)).2 hzero
    rw [hsteps]
    refine ⟨fun hs x hx hr => ?_, fun ht x hx => ht x (List.mem_append_right _ hx)⟩
    rcases List.mem_append.1 hx with hx | hx
    · obtain ⟨_, _, hlab⟩ := hr
      have hreset := hresets.isReset x hx
      rw [hlab] at hreset
      cases hreset
    · exact hs x hx hr
  refine ⟨⟨fun ⟨hsame, _⟩ x hx hr => ?_, fun hno => ⟨fun x hx hr => absurd hr (hno x hx), ?_⟩⟩,
    hlast⟩
  · have hs := h.step_of_mem x hx
    obtain ⟨action, err, hlab⟩ := id hr
    rw [hlab] at hs
    have henv := hs.step_inv.1
    rw [hsame x hx hr] at henv
    exact absurd (congrArg SocketTunerEnvironment.stepCount henv) (Nat.succ_ne_self _).symm
  · exact hlast.2 fun x hx hr => absurd hr (hno x hx)

/-! ## Two episodes -/

/-- A response of the kind that `Quiet` asks for. -/
def quietEvent (cfg : EnvConfig) (baseline : Nat) : RpcEvent → Bool
  | ⟨.step _, r⟩ =>
    match (r : Except String StepResponse) with
    | .ok resp =>
      !resp.done &&
        !(score cfg.round baseline (resp.observation.getD {}).durationUs.toNat).doneEarly
    | .error _ => true
  | _ => true

theorem quiet_iff {x : ClientTrans} :
    Quiet cfg x ↔ x.dst.sent.all (quietEvent cfg x.src.env.baselineDuration) = true := by
  rw [List.all_eq_true]
  constructor
  · rintro h ⟨rpc, r⟩ hmem
    cases rpc with
    | step req =>
      cases r with
      | ok resp => simpa [quietEvent] using h req resp hmem
      | error e => rfl
    | reset _ | close _ => rfl
  · intro h req resp hmem
    simpa [quietEvent] using h _ hmem

instance (cfg : EnvConfig) (x : ClientTrans) : Decidable (Quiet cfg x) :=
  decidable_of_iff' _ quiet_iff

/-- `Raises`, computed. -/
def raised (x : ClientTrans) : Bool :=
  match x.lab with
  | ⟨.step _, r⟩ => !(r : Except String StepResult).isOk
  | _ => false

theorem raises_iff {x : ClientTrans} : Raises x ↔ raised x = true := by
  obtain ⟨s, ⟨c, r⟩, t⟩ := x
  constructor
  · rintro ⟨action, err, hlab⟩
    cases hlab
    rfl
  · intro h
    cases c with
    | step action =>
      cases r with
      | ok result => cases h
      | error err => exact ⟨action, err, rfl⟩
    | reset | chat _ _ _ _ | logStart | logStep _ _ _ _ | logEnd _ _ _ _ => cases h

instance (x : ClientTrans) : Decidable (Raises x) := decidable_of_iff' _ raises_iff

/-- A router whose agent finds no metric in the attempts `fails` and has no durations. -/
def flakyReplies (fails : Nat → Bool) (env : SocketTunerEnvironment) : (c : Rpc) → c.Ret
  | .reset _ =>
    (.ok { success := true
           sessionId := "10.0.0.7:50051"
           initialObservation := some { remoteIp := "142.250.1.100" } } : Except _ _)
  | .step _ =>
    if fails env.stepCount then
      (.error "no metric found for PID 0: key does not exist" : Except _ _)
    else .ok {}
  | .close _ => (.ok { success := true } : Except _ _)

/-- An episode with that router. -/
def flakyEpisode (fails : Nat → Bool) :
    List ClientTrans × (Option String × List HistoryEntry) × ClientSys :=
  episodeBody.record (ClientCmd.exec pyText .default (flakyReplies fails) none) .init

theorem exec_flakyEpisode {fails : Nat → Bool} (h : (flakyEpisode fails).2.1.1 = none) :
    ClientExec pyText .default episodeBody .init (flakyEpisode fails).1
      (none, (flakyEpisode fails).2.1.2) (flakyEpisode fails).2.2 := by
  rw [← h]
  exact exec_record (ClientCmd.step_exec _ _ _ _) _ _

/-- No attempt raises, and all steps are rewarded. -/
theorem step_budget_steady : (flakyEpisode fun _ => false).2.1.2.length = MAX_STEPS := by
  have hno : ∀ x ∈ (flakyEpisode fun _ => false).1, ¬Raises x := by decide +kernel
  exact (step_budget_iff rfl (exec_flakyEpisode (by decide +kernel)) (by decide +kernel)).2.2
    fun x hx hr => absurd hr (hno x hx)

/-- The first attempt raises and is retried: it is counted, and one reward is missing. -/
theorem retry_uses_step :
    ∃ tr history u, ClientExec pyText .default episodeBody .init tr (none, history) u ∧
      (∀ x ∈ tr, Quiet .default x) ∧ history.length = 4 ∧
      ∃ x ∈ tr, Raises x ∧ x.src.env.stepCount = 0 ∧ x.dst.env.stepCount = 1 :=
  ⟨(flakyEpisode fun n => n = 0).1, (flakyEpisode fun n => n = 0).2.1.2,
    (flakyEpisode fun n => n = 0).2.2, exec_flakyEpisode (by decide +kernel), by decide +kernel,
    by decide +kernel, by decide +kernel⟩

end SocketTuner.Env
