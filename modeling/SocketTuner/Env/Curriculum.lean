import Mathlib.Data.List.Nodup
import Mathlib.Data.Nat.ModEq
import SocketTuner.Env.Inference

/-!
# The curriculum

`reset` takes the next task of the rotation before it sends anything, so each call of it moves the
rotation on: a `reset` that raises and is tried again skips a task, and so does the extra `reset`
that the client makes for an empty observation (`curriculum_iff`). The episodes stepped are in
rotation when the resets that went before are a multiple of the number of tasks.
-/

namespace SocketTuner.Env

open Prog

variable {errText : PyErr → String} {cfg : EnvConfig}

/-! ## The tasks of a run -/

/-- The first step of each episode that is stepped, with the number of resets before it, when `n`
were made and the current episode is `stepped` or not. -/
def firstSteps : (stepped : Bool) → (n : Nat) → List ClientTrans → List (Nat × ClientTrans)
  | _, _, [] => []
  | stepped, n, x :: tr =>
    match x.lab.1 with
    | .logStart => firstSteps false n tr
    | .reset => firstSteps stepped (n + 1) tr
    | .step _ => if stepped then firstSteps true n tr else (n, x) :: firstSteps true n tr
    | .chat _ _ _ _ | .logStep _ _ _ _ | .logEnd _ _ _ _ => firstSteps stepped n tr

/-- The tasks of the episodes stepped: each was taken by the last `reset` before. -/
def tasksStepped (tr : List ClientTrans) : List Task :=
  (firstSteps true 0 tr).map fun p => currentTask (p.2.src.env.resetCount - 1)

/-- The `j`-th episode that is stepped works on the `j`-th task of the rotation. -/
def InRotation (tr : List ClientTrans) : Prop :=
  ∀ j task, (tasksStepped tr)[j]? = some task → task = currentTask j

theorem currentTask_eq_iff {a b : Nat} :
    currentTask a = currentTask b ↔ a ≡ b [MOD TASKS.length] := by
  have hnodup : TASKS.Nodup := by decide
  unfold currentTask
  rw [hnodup.get_inj_iff, Fin.mk.injEq]
  rfl

theorem ClientStep.resetCount {s t : ClientSys} {e : ClientEvent}
    (h : ClientStep errText cfg s e t) :
    t.env.resetCount = s.env.resetCount + if e.1 = .reset then 1 else 0 := by
  obtain ⟨c, r⟩ := e
  cases c with
  | reset => exact h.reset_inv.1
  | step action =>
    rw [h.step_inv.1]
    rfl
  | chat _ _ _ _ | logStart | logStep _ _ _ _ | logEnd _ _ _ _ =>
    exact congrArg SocketTunerEnvironment.resetCount h.1

theorem resetCount_of_mem_firstSteps {s u : ClientSys} {tr : List ClientTrans}
    (h : Lts.Run (ClientStep errText cfg) s tr u) : ∀ {stepped : Bool},
      ∀ p ∈ firstSteps stepped s.env.resetCount tr, p.2.src.env.resetCount = p.1 := by
  induction h with
  | nil => intro _ p hp; cases hp
  | @cons s t u e tr hs _ ih =>
    intro stepped p hp
    have hcount := hs.resetCount
    obtain ⟨c, r⟩ := e
    unfold firstSteps at hp
    cases c with
    | reset =>
      rw [if_pos rfl] at hcount
      rw [← hcount] at hp
      exact ih p hp
    | step action =>
      rw [if_neg (by simp), Nat.add_zero] at hcount
      simp only at hp
      split at hp
      · rw [← hcount] at hp
        exact ih p hp
      · rcases List.mem_cons.1 hp with rfl | hp
        · rfl
        · rw [← hcount] at hp
          exact ih p hp
    | chat _ _ _ _ | logStart | logStep _ _ _ _ | logEnd _ _ _ _ =>
      rw [if_neg (by simp), Nat.add_zero] at hcount
      rw [← hcount] at hp
      exact ih p hp

/-- Before the reset of the `j`-th episode stepped there were `j` resets, up to whole rounds. -/
def WholeRounds (tr : List ClientTrans) : Prop :=
  ∀ (j : Nat) (p : Nat × ClientTrans), (firstSteps true 0 tr)[j]? = some p →
    p.1 - 1 ≡ j [MOD TASKS.length]

theorem inRotation_iff_wholeRounds {s u : ClientSys} {tr : List ClientTrans}
    (h : Lts.Run (ClientStep errText cfg) s tr u) (hs : s.env.resetCount = 0) :
    InRotation tr ↔ WholeRounds tr := by
  have hcount : ∀ p ∈ firstSteps true 0 tr, p.2.src.env.resetCount = p.1 := by
    rw [← hs]
    exact resetCount_of_mem_firstSteps h
  constructor
  · intro hrot j p hp
    have htask := hrot j _ (by rw [tasksStepped, List.getElem?_map, hp]; rfl)
    simp only [hcount p (List.mem_of_getElem? hp)] at htask
    exact currentTask_eq_iff.1 htask
  · intro hround j task htask
    rw [tasksStepped, List.getElem?_map, Option.map_eq_some_iff] at htask
    obtain ⟨p, hp, rfl⟩ := htask
    simp only [hcount p (List.mem_of_getElem? hp)]
    exact currentTask_eq_iff.2 (hround j p hp)

/-! ## The shape of a run -/

theorem stepLoop_cmds {left : Nat} : ∀ {n : Nat} {result : StepResult}
    {history history' : List HistoryEntry} {s u : ClientSys} {tr : List ClientTrans}
    {e : Option String},
    ClientExec errText cfg (stepLoop left n result history) s tr (e, history') u →
    ∀ x ∈ tr, x.lab.1 ≠ .reset ∧ x.lab.1 ≠ .logStart := by
  induction left with
  | zero =>
    intro n result history history' s u tr e h
    obtain ⟨rfl, -, -⟩ := h.ret_done
    simp
  | succ left ih =>
    intro n result history history' s u tr e h
    by_cases hdone : result.done = true
    · unfold stepLoop at h
      rw [if_pos hdone] at h
      obtain ⟨rfl, -, -⟩ := h.ret_done
      simp
    obtain ⟨c, pre, x, tr', action, r, rfl, ⟨obs, last, hc⟩, -, -, hx, hrest⟩ :=
      stepLoop_exec h (by simpa using hdone)
    have hpre : ∀ y ∈ pre, y.lab.1 ≠ .reset ∧ y.lab.1 ≠ .logStart := by
      intro y hy
      obtain ⟨⟨_, _, hlab⟩, -⟩ := hx.raises y hy
      simp [hlab]
    have htr' : ∀ y ∈ tr', y.lab.1 ≠ .reset ∧ y.lab.1 ≠ .logStart := by
      obtain ⟨_, -, -, -, rfl⟩ | ⟨result', l, tr'', -, rfl, ⟨_, hl⟩, -, hend⟩ := hrest
      · simp
      · refine List.forall_mem_cons.2 ⟨by simp [hl], ?_⟩
        obtain ⟨-, -, -, rfl⟩ | ⟨-, hloop⟩ := hend
        · simp
        · exact ih hloop
    simp only [List.forall_mem_cons, List.forall_mem_append]
    exact ⟨by simp [hc], hpre, by simp [hx.lab], htr'⟩

/-! ## Runs without failures -/

/-- A `reset` that returns an observation. -/
def GoodReset (x : ClientTrans) : Prop :=
  ∃ result, x.lab = ⟨.reset, (.ok result : Except String StepResult)⟩ ∧
    result.observation.remoteIp ≠ ""

theorem ResetRaises.not_good {x : ClientTrans} (h : ResetRaises x) :
    x.lab.1 = .reset ∧ ¬GoodReset x := by
  obtain ⟨err, hlab⟩ := h
  refine ⟨by rw [hlab], ?_⟩
  rintro ⟨result, hlab', -⟩
  rw [hlab] at hlab'
  cases hlab'

theorem firstSteps_append {n : Nat} {l : List ClientTrans}
    (h : ∀ x ∈ l, x.lab.1 ≠ .reset ∧ x.lab.1 ≠ .logStart) (rest : List ClientTrans) :
    firstSteps true n (l ++ rest) = firstSteps true n rest := by
  induction l with
  | nil => rfl
  | cons x l ih =>
    obtain ⟨hreset, hstart⟩ := h x List.mem_cons_self
    have hl := ih fun y hy => h y (List.mem_cons_of_mem x hy)
    obtain ⟨s, ⟨c, r⟩, t⟩ := x
    rw [List.cons_append, firstSteps]
    cases c with
    | reset => exact absurd rfl hreset
    | logStart => exact absurd rfl hstart
    | step _ | chat _ _ _ _ | logStep _ _ _ _ | logEnd _ _ _ _ => exact hl

/-- Without failures an episode makes one reset and is stepped. -/
theorem episode_good {s u : ClientSys} {tr : List ClientTrans}
    (h : ClientExec errText cfg episode s tr () u)
    (hgood : ∀ x ∈ tr, x.lab.1 = .reset → GoodReset x) :
    (∃ y, ∀ stepped n rest,
      firstSteps stepped n (tr ++ rest) = (n + 1, y) :: firstSteps true (n + 1) rest) ∧
    ∃ a x rest, tr = a :: x :: rest ∧ a.lab.1 = .logStart ∧ ∀ y ∈ rest, y.lab.1 ≠ .reset := by
  obtain ⟨a, body, z, e, history, t, rfl, ha, hz, hbody⟩ := episode_exec h
  unfold endLine at hz
  obtain ⟨resets, steps, r, t', rfl, hresets, hsteps⟩ := episodeBody_exec hbody
  have hbad : ∀ x ∈ resets, ¬ResetRaises x := fun x hx hr =>
    hr.not_good.2 (hgood x (by simp [hx]) hr.not_good.1)
  -- there is one reset, and it returned
  obtain ⟨x, result, rfl, hx, hdone, hloop⟩ : ∃ x result, resets = [x] ∧ x.lab.1 = .reset ∧
      result.done = false ∧
      ClientExec errText cfg (stepLoop MAX_STEPS 1 result []) t' steps (e, history) t := by
    cases hresets with
    | @once pre x r hpre hx hlab hr =>
      cases pre with
      | cons y pre => exact absurd (hpre y List.mem_cons_self) (hbad y (by simp))
      | nil =>
        obtain ⟨err, rfl, -⟩ | ⟨result, rfl, hloop⟩ := hsteps
        · exact absurd ⟨err, hlab⟩ (hbad x (by simp))
        · exact ⟨x, result, rfl, by rw [hlab], (Resets.once hpre hx hlab hr).start.2, hloop⟩
    | @again pre x y result r hpre hlab hempty hy hlab' =>
      obtain ⟨result', hlab'', hne⟩ := hgood x (by simp) (by rw [hlab])
      rw [hlab] at hlab''
      cases hlab''
      exact absurd hempty hne
  -- the step loop starts with a question and a step
  have hcmds := stepLoop_cmds hloop
  obtain ⟨c, pre, x', tr', action, r', rfl, ⟨_, _, hc⟩, -, -, hx', -⟩ := stepLoop_exec hloop hdone
  obtain ⟨y, post, hsplit, hy⟩ : ∃ y post, pre ++ x' :: tr' = y :: post ∧
      ∃ action, y.lab.1 = .step action := by
    cases pre with
    | nil => exact ⟨x', tr', rfl, action, by rw [hx'.lab]⟩
    | cons y pre =>
      obtain ⟨⟨action', _, hlab⟩, -⟩ := hx'.raises y List.mem_cons_self
      exact ⟨y, _, rfl, action', by rw [hlab]⟩
  rw [hsplit] at hcmds ⊢
  obtain ⟨action', hy⟩ := hy
  refine ⟨⟨y, fun stepped n rest => ?_⟩, a, x, c :: y :: post ++ [z], by simp, ha, ?_⟩
  swap
  · intro w hw
    rcases List.mem_append.1 hw with hw | hw
    · exact (hcmds w hw).1
    · rw [List.mem_singleton.1 hw, hz]
      simp
  have hrest : firstSteps true (n + 1) (post ++ z :: rest) = firstSteps true (n + 1) rest := by
    rw [firstSteps_append fun w hw => hcmds w (by simp [hw]), firstSteps, hz]
  simp only [List.cons_append, List.nil_append, List.append_assoc, firstSteps, ha, hx, hc, hy,
    Bool.false_eq_true, ↓reduceIte, hrest]

/-- Without failures each episode is stepped after one reset more. -/
theorem firstSteps_episodes {left : Nat} : ∀ {s u : ClientSys} {tr : List ClientTrans},
    ClientExec errText cfg (episodes left) s tr () u →
    (∀ x ∈ tr, x.lab.1 = .reset → GoodReset x) →
    ∀ stepped n, (firstSteps stepped n tr).map Prod.fst = List.range' (n + 1) left := by
  induction left with
  | zero =>
    intro s u tr h _ stepped n
    obtain ⟨rfl, -, -⟩ := h.ret_done
    rfl
  | succ left ih =>
    intro s u tr h hgood stepped n
    obtain ⟨tr₁, t, tr₂, rfl, h₁, h₂⟩ := episodes_exec h
    obtain ⟨⟨y, hy⟩, -⟩ := episode_good h₁ fun x hx => hgood x (List.mem_append_left _ hx)
    rw [hy, List.map_cons, ih h₂ fun x hx => hgood x (List.mem_append_right _ hx)]
    rfl

/-! ## Runs with failures -/

/-- A reset that follows one that returned is for the same task. -/
def ExtraKeepsTask (tr : List ClientTrans) : Prop :=
  ∀ pre x y post result r, tr = pre ++ x :: y :: post →
    x.lab = ⟨.reset, (.ok result : Except String StepResult)⟩ → y.lab = ⟨.reset, r⟩ →
    currentTask y.src.env.resetCount = currentTask x.src.env.resetCount

/-- A reset that returned, followed by another. -/
def HasExtra (tr : List ClientTrans) : Prop :=
  ∃ pre x y post result r, tr = pre ++ x :: y :: post ∧
    x.lab = ⟨.reset, (.ok result : Except String StepResult)⟩ ∧ y.lab = ⟨.reset, r⟩

theorem HasExtra.append {tr : List ClientTrans} (h : HasExtra tr) (l l' : List ClientTrans) :
    HasExtra (l ++ (tr ++ l')) := by
  obtain ⟨pre, x, y, post, result, r, rfl, hx, hy⟩ := h
  exact ⟨l ++ pre, x, y, post ++ l', result, r, by simp, hx, hy⟩

theorem Resets.hasExtra {resets : List ClientTrans} {r : Except String StepResult} {t : ClientSys}
    (h : Resets errText cfg resets r t) {x : ClientTrans} (hx : x ∈ resets) {result : StepResult}
    (hlab : x.lab = ⟨.reset, (.ok result : Except String StepResult)⟩)
    (hempty : result.observation.remoteIp = "") : HasExtra resets := by
  cases h with
  | @once pre y r hpre _ hlab' hr =>
    exfalso
    rcases List.mem_append.1 hx with hx | hx
    · obtain ⟨err, herr⟩ := hpre x hx
      rw [hlab] at herr
      cases herr
    · obtain rfl := List.mem_singleton.1 hx
      rw [hlab] at hlab'
      cases hlab'
      exact hr result rfl hempty
  | @again pre y z result r _ hlab' _ _ hlab'' =>
    exact ⟨pre, y, z, [], result, r, rfl, hlab', hlab''⟩

/-- An empty observation leads to an extra reset. -/
theorem episodes_extra {left : Nat} : ∀ {s u : ClientSys} {tr : List ClientTrans},
    ClientExec errText cfg (episodes left) s tr () u → ∀ x ∈ tr, ∀ result,
      x.lab = ⟨.reset, (.ok result : Except String StepResult)⟩ → result.observation.remoteIp = "" →
      HasExtra tr := by
  induction left with
  | zero =>
    intro s u tr h x hx
    obtain ⟨rfl, -, -⟩ := h.ret_done
    cases hx
  | succ left ih =>
    intro s u tr h x hx result hlab hempty
    obtain ⟨tr₁, t, tr₂, rfl, h₁, h₂⟩ := episodes_exec h
    rcases List.mem_append.1 hx with hx | hx
    · obtain ⟨a, body, z, e, history, t, rfl, ha, hz, hbody⟩ := episode_exec h₁
      obtain ⟨resets, steps, r, t', rfl, hresets, hsteps⟩ := episodeBody_exec hbody
      have hmem : x ∈ resets := by
        simp only [List.mem_cons, List.mem_append, List.not_mem_nil, or_false] at hx
        obtain rfl | (hx | hx) | rfl := hx
        · rw [hlab] at ha
          cases ha
        · exact hx
        · obtain ⟨_, -, -, -, rfl⟩ | ⟨_, -, hloop⟩ := hsteps
          · cases hx
          · exact absurd (by rw [hlab]) (stepLoop_cmds hloop x hx).1
        · rw [hlab] at hz
          cases hz
      have := (hresets.hasExtra hmem hlab hempty).append [a] (steps ++ ([z] ++ tr₂))
      simpa using this
    · have := (ih h₂ x hx result hlab hempty).append tr₁ []
      rwa [List.append_nil] at this

/-- Without failures no reset follows another. -/
theorem episodes_no_extra {left : Nat} : ∀ {s u : ClientSys} {tr : List ClientTrans},
    ClientExec errText cfg (episodes left) s tr () u →
    (∀ x ∈ tr, x.lab.1 = .reset → GoodReset x) →
    (∀ x ∈ tr.head?, x.lab.1 = .logStart) ∧ ¬HasExtra tr := by
  induction left with
  | zero =>
    intro s u tr h _
    obtain ⟨rfl, -, -⟩ := h.ret_done
    exact ⟨by simp, fun ⟨pre, _, _, _, _, _, heq, _⟩ => by simp at heq⟩
  | succ left ih =>
    intro s u tr h hgood
    obtain ⟨tr₁, t, tr₂, rfl, h₁, h₂⟩ := episodes_exec h
    obtain ⟨-, a, x, rest, rfl, ha, hrest⟩ :=
      episode_good h₁ fun x hx => hgood x (List.mem_append_left _ hx)
    obtain ⟨hhead, hno⟩ := ih h₂ fun x hx => hgood x (List.mem_append_right _ hx)
    refine ⟨by simpa using ha, ?_⟩
    rintro ⟨pre, p, q, post, result, r, heq, hp, hq⟩
    have hpr : p.lab.1 = .reset := by rw [hp]
    have hqr : q.lab.1 = .reset := by rw [hq]
    match pre, heq with
    | [], heq =>
      obtain ⟨rfl, -⟩ := List.cons.inj heq
      rw [hpr] at ha
      cases ha
    | [_], heq =>
      -- the second is not in this episode, and the next one starts with a line
      obtain ⟨-, heq⟩ := List.cons.inj heq
      obtain ⟨-, heq⟩ := List.cons.inj heq
      cases rest with
      | cons w rest =>
        obtain ⟨rfl, -⟩ := List.cons.inj heq
        exact hrest _ List.mem_cons_self hqr
      | nil =>
        have hq' := hhead q (by rw [show tr₂ = q :: post from heq]; rfl)
        rw [hqr] at hq'
        cases hq'
    | _ :: _ :: pre, heq =>
      obtain ⟨-, heq⟩ := List.cons.inj heq
      obtain ⟨-, heq⟩ := List.cons.inj heq
      rcases List.append_eq_append_iff.1 heq with ⟨l, rfl, htr⟩ | ⟨l, rfl, htr⟩
      · exact hno ⟨l, p, q, post, result, r, htr, hp, hq⟩
      · cases l with
        | nil => exact hno ⟨[], p, q, post, result, r, htr.symm, hp, hq⟩
        | cons w l =>
          obtain ⟨rfl, -⟩ := List.cons.inj htr
          exact hrest _ (by simp) hpr

/-- Two resets in a row are for different tasks. -/
theorem HasExtra.not_keepsTask {s u : ClientSys} {tr : List ClientTrans}
    (h : HasExtra tr) (hrun : Lts.Run (ClientStep errText cfg) s tr u) : ¬ExtraKeepsTask tr := by
  obtain ⟨pre, x, y, post, result, r, rfl, hx, hy⟩ := h
  intro hkeep
  obtain ⟨_, -, hrest⟩ := hrun.split
  obtain ⟨-, hs, hrest⟩ := hrest.head
  have hcount := hs.resetCount
  rw [if_pos (by rw [hx]), ← hrest.head.1] at hcount
  have hmod := currentTask_eq_iff.1 (hkeep pre x y post result r rfl hx hy)
  have hlen : TASKS.length = 3 := rfl
  rw [hcount, hlen] at hmod
  unfold Nat.ModEq at hmod
  omega

/-- **When the curriculum is not skipped.** The episodes stepped are in rotation, a `reset` that
raises takes no task and the extra `reset` repeats its task, all together, just when every `reset`
returns an observation. The rotation alone is kept just when the resets before that of each episode
stepped are as many as the episodes stepped before it, up to whole rounds. -/
theorem curriculum_iff {s u : ClientSys} {tr : List ClientTrans}
    (h : ClientExec errText cfg main s tr () u) (hs : s.env.resetCount = 0) :
    ((InRotation tr ∧ (∀ x ∈ tr, ResetRaises x → x.dst.env.resetCount = x.src.env.resetCount) ∧
        ExtraKeepsTask tr) ↔ ∀ x ∈ tr, x.lab.1 = .reset → GoodReset x) ∧
    (InRotation tr ↔ WholeRounds tr) := by
  have hiff := inRotation_iff_wholeRounds h.run_alone hs
  refine ⟨⟨?_, fun hgood => ⟨hiff.2 ?_, ?_, ?_⟩⟩, hiff⟩
  · rintro ⟨-, hcount, hkeep⟩ ⟨s, ⟨c, r⟩, t⟩ hx hreset
    cases hreset
    cases r with
    | error err =>
      have hstep := (h.step_of_mem _ hx).resetCount
      rw [if_pos rfl, hcount _ hx ⟨err, rfl⟩] at hstep
      omega
    | ok result =>
      by_cases hempty : result.observation.remoteIp = ""
      · exact absurd hkeep ((episodes_extra h _ hx result rfl hempty).not_keepsTask h.run_alone)
      · exact ⟨result, rfl, hempty⟩
  · -- the episodes stepped are all of them, each after one reset more
    intro j p hp
    have hfst := congrArg (fun l => l[j]?) (firstSteps_episodes h hgood true 0)
    simp only [List.getElem?_map, hp, Option.map_some] at hfst
    obtain ⟨hlt, hj⟩ := List.getElem?_eq_some_iff.1 hfst.symm
    rw [List.getElem_range'] at hj
    have hpj : p.1 - 1 = j := by omega
    rw [hpj]
  · exact fun x hx hr => absurd (hgood x hx hr.not_good.1) hr.not_good.2
  · intro pre x y post result r htr hx hy
    exact absurd ⟨pre, x, y, post, result, r, htr, hx, hy⟩ (episodes_no_extra h hgood).2

/-! ## Two runs -/

/-- `GoodReset`, computed. -/
def resetOk (x : ClientTrans) : Bool :=
  match x.lab with
  | ⟨.reset, r⟩ =>
    match (r : Except String StepResult) with
    | .ok result => result.observation.remoteIp ≠ ""
    | .error _ => false
  | _ => false

theorem goodReset_iff {x : ClientTrans} : GoodReset x ↔ resetOk x = true := by
  obtain ⟨s, ⟨c, r⟩, t⟩ := x
  constructor
  · rintro ⟨result, hlab, hne⟩
    cases hlab
    exact decide_eq_true hne
  · intro h
    cases c with
    | reset =>
      cases r with
      | ok result => exact ⟨result, rfl, of_decide_eq_true h⟩
      | error err => cases h
    | step _ | chat _ _ _ _ | logStart | logStep _ _ _ _ | logEnd _ _ _ _ => cases h

instance (x : ClientTrans) : Decidable (GoodReset x) := decidable_of_iff' _ goodReset_iff

/-- A router without a free agent during the resets `fails`. -/
def busyReplies (fails : Nat → Bool) (env : SocketTunerEnvironment) : (c : Rpc) → c.Ret
  | .reset _ =>
    if fails env.resetCount then
      (.ok { message := "no free agents available (capacity: 1)" } : Except _ _)
    else .ok { success := true
               sessionId := "10.0.0.7:50051"
               initialObservation := some { remoteIp := "142.250.1.100" } }
  | .step _ => (.ok {} : Except _ _)
  | .close _ => (.ok { success := true } : Except _ _)

/-- A run of `main` against that router. -/
def busyRun (fails : Nat → Bool) : List ClientTrans × Unit × ClientSys :=
  main.record (ClientCmd.exec pyText .default (busyReplies fails) none) .init

theorem exec_busyRun (fails : Nat → Bool) :
    ClientExec pyText .default main .init (busyRun fails).1 () (busyRun fails).2.2 :=
  exec_record (ClientCmd.step_exec _ _ _ _) _ _

theorem curriculum_steady : InRotation (busyRun fun _ => false).1 :=
  ((curriculum_iff (exec_busyRun fun _ => false) rfl).1.2 (by decide +kernel)).1

/-- The first `reset` finds no free agent and is tried again: the first task is skipped. -/
theorem busy_reset_skips_task :
    ∃ tr u, ClientExec pyText .default main .init tr () u ∧
      tasksStepped tr = [currentTask 1, currentTask 2, currentTask 0] ∧ ¬InRotation tr := by
  have htasks : tasksStepped (busyRun fun n => n = 0).1 =
      [currentTask 1, currentTask 2, currentTask 0] := by decide +kernel
  refine ⟨_, _, exec_busyRun fun n => n = 0, htasks, fun hrot => ?_⟩
  have hfirst := hrot 0 (currentTask 1) (by rw [htasks]; rfl)
  exact absurd hfirst (by decide)

end SocketTuner.Env
