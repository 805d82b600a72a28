import Mathlib.Order.Basic

/-!
# Labelled runs

A system is a step relation `step : σ → ε → σ → Prop` over states `σ` and labels `ε`. A `Run`
keeps the steps it took, each with the state before and after it, so that a property of a whole
run ("between two such steps there is one of that kind") is a property of a list.

* `Run.invariant`: what every step preserves, a run preserves.
* `Run.restrict`: a run whose steps all meet a condition is a run of the system so restricted, so
  that an invariant may use the condition.
* `Run.history`: the same for what holds of the steps taken so far and the state together.
* `Run.exists_release`: if only `rel` steps end `held`, a run that starts `held` and ends not
  `held` contains one of them.
* `exec`: the run of a list of actions, for a system given by a function.
* `Run.component`: what a run of a system is for one of its components.
* `trace_iff_of_lockstep`: two systems that answer every action alike have the same traces.
-/

namespace Lts

variable {σ ε : Type*}

/-- One step taken: the state before, the label, the state after. -/
structure Trans (σ ε : Type*) where
  src : σ
  lab : ε
  dst : σ

variable {step : σ → ε → σ → Prop}

/-- `Run step s tr u`: the steps `tr` lead from `s` to `u`. -/
inductive Run (step : σ → ε → σ → Prop) : σ → List (Trans σ ε) → σ → Prop
  | nil (s : σ) : Run step s [] s
  | cons {s t u : σ} {e : ε} {tr : List (Trans σ ε)} (h : step s e t) (hr : Run step t tr u) :
      Run step s (⟨s, e, t⟩ :: tr) u

/-- The states some run from `init` ends in. -/
def Reachable (step : σ → ε → σ → Prop) (init s : σ) : Prop :=
  ∃ tr, Run step init tr s

namespace Run

theorem append {s t u : σ} {l₁ l₂ : List (Trans σ ε)} (h₁ : Run step s l₁ t)
    (h₂ : Run step t l₂ u) : Run step s (l₁ ++ l₂) u := by
  induction h₁ with
  | nil => exact h₂
  | cons h _ ih => exact .cons h (ih h₂)

theorem split {l₁ l₂ : List (Trans σ ε)} :
    ∀ {s u : σ}, Run step s (l₁ ++ l₂) u → ∃ t, Run step s l₁ t ∧ Run step t l₂ u := by
  induction l₁ with
  | nil => intro s u h; exact ⟨s, .nil s, h⟩
  | cons x l₁ ih =>
    intro s u h
    cases h with
    | cons hs hr =>
      obtain ⟨t, h₁, h₂⟩ := ih hr
      exact ⟨t, .cons hs h₁, h₂⟩

theorem head {s u : σ} {x : Trans σ ε} {tr : List (Trans σ ε)} (h : Run step s (x :: tr) u) :
    x.src = s ∧ step x.src x.lab x.dst ∧ Run step x.dst tr u := by
  cases h with
  | cons hs hr => exact ⟨rfl, hs, hr⟩

theorem step_of_mem {s u : σ} {tr : List (Trans σ ε)} (h : Run step s tr u) :
    ∀ x ∈ tr, step x.src x.lab x.dst := by
  induction h with
  | nil => simp
  | cons hs _ ih =>
    intro x hx
    rcases List.mem_cons.1 hx with rfl | hx
    · exact hs
    · exact ih x hx

/-- **The invariant rule**: what every step preserves, a run preserves. -/
theorem invariant {I : σ → Prop} (hstep : ∀ s e t, I s → step s e t → I t) {s u : σ}
    {tr : List (Trans σ ε)} (h : Run step s tr u) (hs : I s) : I u := by
  induction h with
  | nil => exact hs
  | cons h _ ih => exact ih (hstep _ _ _ hs h)

/-- The invariant rule, at every state a run passes through. -/
theorem invariant_mem {I : σ → Prop} (hstep : ∀ s e t, I s → step s e t → I t) {s u : σ}
    {tr : List (Trans σ ε)} (h : Run step s tr u) (hs : I s) : ∀ x ∈ tr, I x.src ∧ I x.dst := by
  induction h with
  | nil => simp
  | cons h _ ih =>
    intro x hx
    have ht := hstep _ _ _ hs h
    rcases List.mem_cons.1 hx with rfl | hx
    · exact ⟨hs, ht⟩
    · exact ih ht x hx

/-- A run whose steps all satisfy `P` is a run of the system restricted to such steps. -/
theorem restrict {P : Trans σ ε → Prop} {s u : σ} {tr : List (Trans σ ε)} (h : Run step s tr u)
    (hP : ∀ x ∈ tr, P x) : Run (fun s e t => step s e t ∧ P ⟨s, e, t⟩) s tr u := by
  induction h with
  | nil s => exact .nil s
  | cons hs _ ih =>
    exact .cons ⟨hs, hP _ List.mem_cons_self⟩ (ih fun x hx => hP x (List.mem_cons_of_mem _ hx))

theorem mono {step' : σ → ε → σ → Prop} (hstep : ∀ s e t, step s e t → step' s e t) {s u : σ}
    {tr : List (Trans σ ε)} (h : Run step s tr u) : Run step' s tr u := by
  induction h with
  | nil s => exact .nil s
  | cons hs _ ih => exact .cons (hstep _ _ _ hs) ih

/-- What a view `v` of the state is after a run, when each step updates it by `f`. -/
theorem view_eq_foldl {β : Type*} {v : σ → β} {f : β → Trans σ ε → β}
    (hstep : ∀ s e t, step s e t → v t = f (v s) ⟨s, e, t⟩) {s u : σ}
    {tr : List (Trans σ ε)} (h : Run step s tr u) : v u = tr.foldl f (v s) := by
  induction h with
  | nil => rfl
  | cons h _ ih => rw [List.foldl_cons, ← hstep _ _ _ h, ih]

/-- **The history rule**: what holds of the steps taken and the state at the start, and is preserved
by every step that meets `P`, holds at the end of a run whose steps all meet it. -/
theorem history {I : List (Trans σ ε) → σ → Prop} {P : List (Trans σ ε) → Trans σ ε → Prop}
    (hstep : ∀ pre x, I pre x.src → step x.src x.lab x.dst → P pre x → I (pre ++ [x]) x.dst)
    {s u : σ} {tr : List (Trans σ ε)} (h : Run step s tr u)
    (hP : ∀ pre x post, tr = pre ++ x :: post → P pre x) (hs : I [] s) : I tr u := by
  -- `done` are the steps before the rest of the run
  have key : ∀ done, I done s → (∀ pre x post, tr = pre ++ x :: post → P (done ++ pre) x) →
      I (done ++ tr) u := by
    clear hP hs
    induction h with
    | nil => intro done hI _; rwa [List.append_nil]
    | @cons s t u e tr h _ ih =>
      intro done hI hP
      have hx : P done ⟨s, e, t⟩ := by simpa using hP [] ⟨s, e, t⟩ tr rfl
      have hrest := ih (done ++ [⟨s, e, t⟩]) (hstep done ⟨s, e, t⟩ hI h hx) fun pre x post heq => by
        simpa using hP (⟨s, e, t⟩ :: pre) x post (by rw [heq]; rfl)
      simpa using hrest
  exact key [] hs hP

/-- The history rule, before each step of the run. -/
theorem history_split {I : List (Trans σ ε) → σ → Prop} {P : List (Trans σ ε) → Trans σ ε → Prop}
    (hstep : ∀ pre x, I pre x.src → step x.src x.lab x.dst → P pre x → I (pre ++ [x]) x.dst)
    {s u : σ} {pre post : List (Trans σ ε)} {x : Trans σ ε} (h : Run step s (pre ++ x :: post) u)
    (hP : ∀ pre' y post', pre ++ x :: post = pre' ++ y :: post' → P pre' y) (hs : I [] s) :
    I pre x.src := by
  obtain ⟨t, hpre, hrest⟩ := h.split
  obtain ⟨rfl, -, -⟩ := hrest.head
  refine hpre.history hstep (fun pre' y post' heq => ?_) hs
  exact hP pre' y (post' ++ x :: post) (by rw [heq]; simp)

/-- **Held until released**: if `held` survives every step that is not a `rel` step, a run from
a `held` state to one that is not `held` contains a `rel` step. -/
theorem exists_release {held : σ → Prop} {rel : Trans σ ε → Prop}
    (hkeep : ∀ s e t, step s e t → held s → ¬rel ⟨s, e, t⟩ → held t) {s u : σ}
    {tr : List (Trans σ ε)} (h : Run step s tr u) (hs : held s) (hu : ¬held u) :
    ∃ x ∈ tr, rel x := by
  induction h with
  | nil => exact absurd hs hu
  | @cons s t u e tr h _ ih =>
    by_cases hrel : rel ⟨s, e, t⟩
    · exact ⟨_, List.mem_cons_self, hrel⟩
    · obtain ⟨x, hx, hr⟩ := ih (hkeep _ _ _ h hs hrel) hu
      exact ⟨x, List.mem_cons_of_mem _ hx, hr⟩

end Run

/-! ## Systems given by a function

An action `a : α` chosen from outside makes a step, or is not possible. -/

section Function

variable {α : Type*} (f : σ → α → Option (ε × σ))

/-- The steps some action makes. -/
def Acts (s : σ) (e : ε) (t : σ) : Prop := ∃ a, f s a = some (e, t)

/-- Take the actions of a list in turn. -/
def exec : σ → List α → Option (List (Trans σ ε) × σ)
  | s, [] => some ([], s)
  | s, a :: as =>
    match f s a with
    | none => none
    | some (e, t) => (exec t as).map fun (tr, u) => (⟨s, e, t⟩ :: tr, u)

variable {f}

theorem run_exec {as : List α} : ∀ {s u : σ} {tr : List (Trans σ ε)},
    exec f s as = some (tr, u) → Run (Acts f) s tr u := by
  induction as with
  | nil =>
    intro s u tr h
    cases h
    exact .nil s
  | cons a as ih =>
    intro s u tr h
    unfold exec at h
    split at h
    · cases h
    · next e t hstep =>
      obtain ⟨⟨tr', u'⟩, hrest, heq⟩ := Option.map_eq_some_iff.1 h
      cases heq
      exact .cons ⟨a, hstep⟩ (ih hrest)

variable (f) in
/-- The steps the actions of a list make, and the state they lead to, if they are all possible. -/
def played (s : σ) (as : List α) : List (Trans σ ε) × σ := (exec f s as).getD ([], s)

theorem run_played {s : σ} {as : List α} (h : (exec f s as).isSome) :
    Run (Acts f) s (played f s as).1 (played f s as).2 := by
  obtain ⟨x, hx⟩ := Option.isSome_iff_exists.1 h
  rw [played, hx]
  exact run_exec hx

end Function

/-! ## Traces -/

/-- The labels of some run from `init`. -/
def Trace (step : σ → ε → σ → Prop) (init : σ) (ls : List ε) : Prop :=
  ∃ tr u, Run step init tr u ∧ tr.map (fun x => x.lab) = ls

section Trace

variable {τ α : Type*} {step' : τ → ε → τ → Prop} {R : σ → τ → Prop}

/-- **The simulation rule**: a system that can follow every step of another has its traces. -/
theorem Trace.simulate (hstep : ∀ s e t s', R s s' → step s e t → ∃ t', step' s' e t' ∧ R t t')
    {s : σ} {s' : τ} {ls : List ε} (h : Trace step s ls) (hs : R s s') : Trace step' s' ls := by
  obtain ⟨tr, u, hrun, rfl⟩ := h
  induction hrun generalizing s' with
  | nil => exact ⟨[], s', .nil s', rfl⟩
  | cons h _ ih =>
    obtain ⟨t', hstep', ht⟩ := hstep _ _ _ _ hs h
    obtain ⟨tr', u', hrun', hlabs⟩ := ih ht
    exact ⟨_, u', .cons hstep' hrun', by rw [List.map_cons, List.map_cons, hlabs]⟩

/-- **The lockstep rule**: two systems that answer every action alike have the same traces. -/
theorem trace_iff_of_lockstep {f : σ → α → Option (ε × σ)} {g : τ → α → Option (ε × τ)}
    (hstep : ∀ s s' a, R s s' → Option.Rel (fun x y => x.1 = y.1 ∧ R x.2 y.2) (f s a) (g s' a))
    {s : σ} {s' : τ} (hs : R s s') (ls : List ε) : Trace (Acts f) s ls ↔ Trace (Acts g) s' ls := by
  constructor
  · intro h
    refine h.simulate (R := R) (fun s e t s' hR hst => ?_) hs
    obtain ⟨a, ha⟩ := hst
    have hrel := hstep s s' a hR
    rw [ha] at hrel
    generalize hg : g s' a = r at hrel
    cases hrel with
    | @some _ y hxy =>
      exact ⟨y.2, ⟨a, by rw [hg]; exact congrArg some (Prod.ext hxy.1.symm rfl)⟩, hxy.2⟩
  · intro h
    refine h.simulate (R := fun s' s => R s s') (fun s' e t' s hR hst => ?_) hs
    obtain ⟨a, ha⟩ := hst
    have hrel := hstep s s' a hR
    rw [ha] at hrel
    generalize hf : f s a = r at hrel
    cases hrel with
    | @some x _ hxy =>
      exact ⟨x.2, ⟨a, by rw [hf]; exact congrArg some (Prod.ext hxy.1 rfl)⟩, hxy.2⟩

end Trace

/-! ## Components

For a component of a system each step of the system is a step of its own, nothing, or its start. -/

/-- What a step of a system is for a component of it. -/
inductive Part (δ : Type*)
  | step (d : δ)
  | skip
  | restart

section Component

variable {τ δ : Type*} (v : σ → τ) (part : ε → Part δ)

/-- The steps of a component since its last start, after one more step of the system. -/
def extend (l : List (Trans τ δ)) (x : Trans σ ε) : List (Trans τ δ) :=
  match part x.lab with
  | .step d => l ++ [⟨v x.src, d, v x.dst⟩]
  | .skip => l
  | .restart => []

/-- The steps of a component since its last start. -/
def component (tr : List (Trans σ ε)) : List (Trans τ δ) := tr.foldl (extend v part) []

/-- A step of the system is one of the component, leaves it alone, or starts it. -/
def StepsAs (cstep : τ → δ → τ → Prop) (init : τ) (s : σ) (e : ε) (t : σ) : Prop :=
  match part e with
  | .step d => cstep (v s) d (v t)
  | .skip => v t = v s
  | .restart => v t = init

variable {v part}

/-- **The component rule**: what a run of a system is for a component is a run of the component. -/
theorem Run.component {cstep : τ → δ → τ → Prop} {init : τ}
    (hstep : ∀ s e t, step s e t → StepsAs v part cstep init s e t) {s u : σ}
    {tr : List (Trans σ ε)} (h : Run step s tr u) (hs : v s = init) :
    Run cstep init (Lts.component v part tr) (v u) := by
  have key : ∀ l, Run cstep init l (v s) → Run cstep init (tr.foldl (extend v part) l) (v u) := by
    clear hs
    induction h with
    | nil => exact fun l hl => hl
    | @cons s t u e tr hse _ ih =>
      intro l hl
      refine ih _ ?_
      have hcomp := hstep s e t hse
      unfold StepsAs at hcomp
      unfold extend
      cases hpart : part e with
      | step d =>
        simp only [hpart] at hcomp ⊢
        exact hl.append (.cons hcomp (.nil _))
      | skip =>
        simp only [hpart] at hcomp ⊢
        rwa [hcomp]
      | restart =>
        simp only [hpart] at hcomp ⊢
        rw [hcomp]
        exact .nil _
  exact key [] (hs ▸ .nil _)

/-- A step of a component is a step of the system. -/
theorem exists_of_mem_component {tr : List (Trans σ ε)} {y : Trans τ δ}
    (h : y ∈ Lts.component v part tr) : ∃ x ∈ tr, part x.lab = .step y.lab := by
  have key : ∀ l, y ∈ tr.foldl (extend v part) l → y ∈ l ∨ ∃ x ∈ tr, part x.lab = .step y.lab := by
    clear h
    induction tr with
    | nil => exact fun l hl => .inl hl
    | cons x tr ih =>
      intro l hl
      rcases ih _ hl with hl | ⟨z, hz, hlab⟩
      · unfold extend at hl
        split at hl
        · next d hd =>
          rcases List.mem_append.1 hl with hl | hl
          · exact .inl hl
          · cases List.mem_singleton.1 hl
            exact .inr ⟨x, List.mem_cons_self, hd⟩
        · exact .inl hl
        · cases hl
      · exact .inr ⟨z, List.mem_cons_of_mem _ hz, hlab⟩
  simpa using key [] h

end Component

namespace Reachable

theorem invariant {I : σ → Prop} (hstep : ∀ s e t, I s → step s e t → I t) {init s : σ}
    (h : Reachable step init s) (h0 : I init) : I s := by
  obtain ⟨tr, hr⟩ := h
  exact hr.invariant hstep h0

end Reachable

end Lts
