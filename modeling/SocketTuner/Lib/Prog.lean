import Mathlib.Algebra.BigOperators.Group.List.Basic
import Mathlib.Algebra.GroupWithZero.Nat
import SocketTuner.Lib.Run

/-!
# Programs over a command interface

A handler that calls atomic operations of a shared state and computes with what they return is a
`Prog`: a tree of commands `c : C`, each with a continuation for its result in `R c`. One program
text has several readings.

* `Prog.run`: alone, against a state on which every command is a function.
* `Prog.Exec`: against a shared state that other parties change between its commands (`env`).
* `Prog.After`: as a control point of itself, after the commands in a log; a scheduler that
  interleaves many programs keeps each one's log and remainder.
* `Prog.Meets`: against a protocol, whatever its commands return; what is left of a program that
  meets one meets it too, so a scheduler can keep this as an invariant.
* `Prog.Within`: against a bound on what its commands cost.
-/

/-- A program that issues commands and continues with their results. -/
inductive Prog (C : Type) (R : C → Type) (α : Type) : Type
  | ret (a : α)
  | op (c : C) (k : R c → Prog C R α)

namespace Prog

variable {C : Type} {R : C → Type} {α β σ : Type}

/-- Run a program, then the one its result gives. -/
def bind : Prog C R α → (α → Prog C R β) → Prog C R β
  | .ret a, f => f a
  | .op c k, f => .op c fun r => (k r).bind f

instance : Monad (Prog C R) where
  pure := .ret
  bind := bind

/-- Issue one command and return its result. -/
def call (c : C) : Prog C R (R c) := .op c .ret

@[simp] theorem pure_eq (a : α) : (pure a : Prog C R α) = .ret a := rfl

@[simp] theorem ret_bind (a : α) (f : α → Prog C R β) : (Prog.ret a >>= f) = f a := rfl

@[simp] theorem op_bind (c : C) (k : R c → Prog C R α) (f : α → Prog C R β) :
    (Prog.op c k >>= f) = .op c fun r => k r >>= f := rfl

/-! ## Alone -/

/-- Run the program alone; `h` is what a command returns and does to the state. -/
def run (h : (c : C) → σ → R c × σ) : Prog C R α → σ → α × σ
  | .ret a, s => (a, s)
  | .op c k, s => (k (h c s).1).run h (h c s).2

theorem run_bind (h : (c : C) → σ → R c × σ) (p : Prog C R α) (f : α → Prog C R β) (s : σ) :
    (p >>= f).run h s = (f (p.run h s).1).run h (p.run h s).2 := by
  induction p generalizing s with
  | ret a => rfl
  | op c k ih => exact ih _ _

/-! ## Among others -/

/-- A command issued, with what it returned. -/
abbrev Event (C : Type) (R : C → Type) := (c : C) × R c

/-- The program runs to its end on a shared state, its own commands being `step`s, which are
recorded, and any number of `env` steps of others coming before each of them. -/
inductive Exec (step : σ → Event C R → σ → Prop) (env : σ → σ → Prop) :
    Prog C R α → σ → List (Lts.Trans σ (Event C R)) → α → σ → Prop
  | ret (a : α) (s : σ) : Exec step env (.ret a) s [] a s
  | op {c : C} {k : R c → Prog C R α} {r : R c} {s t u : σ} {tr : List (Lts.Trans σ (Event C R))}
      {a : α} (h : step s ⟨c, r⟩ t) (hr : Exec step env (k r) t tr a u) :
      Exec step env (.op c k) s (⟨s, ⟨c, r⟩, t⟩ :: tr) a u
  | env {p : Prog C R α} {s t u : σ} {tr : List (Lts.Trans σ (Event C R))} {a : α} (h : env s t)
      (hr : Exec step env p t tr a u) : Exec step env p s tr a u

variable {step : σ → Event C R → σ → Prop} {env : σ → σ → Prop}

/-- The first command of a program is issued after some steps of the others. `I` is any property
these keep. -/
theorem Exec.op_inv {I : σ → Prop} (henv : ∀ s t, I s → env s t → I t) {c : C}
    {k : R c → Prog C R α} {s u : σ} {tr : List (Lts.Trans σ (Event C R))} {a : α}
    (h : Exec step env (.op c k) s tr a u) (hs : I s) :
    ∃ s' r t tr', I s' ∧ step s' ⟨c, r⟩ t ∧ tr = ⟨s', ⟨c, r⟩, t⟩ :: tr' ∧
      Exec step env (k r) t tr' a u := by
  generalize hp : Prog.op c k = p at h
  induction h with
  | ret => cases hp
  | op h hr ih =>
    cases hp
    exact ⟨_, _, _, _, hs, h, rfl, hr⟩
  | env h hr ih => exact ih (henv _ _ hs h) hp

theorem Exec.op_alone {c : C} {k : R c → Prog C R α} {s u : σ} {tr : List (Lts.Trans σ (Event C R))}
    {a : α} (h : Exec step (fun _ _ => False) (.op c k) s tr a u) :
    ∃ r t tr', step s ⟨c, r⟩ t ∧ tr = ⟨s, ⟨c, r⟩, t⟩ :: tr' ∧
      Exec step (fun _ _ => False) (k r) t tr' a u := by
  obtain ⟨_, r, t, tr', rfl, hs, rfl, hr⟩ :=
    h.op_inv (I := fun s' => s' = s) (fun _ _ _ hf => hf.elim) rfl
  exact ⟨r, t, tr', hs, rfl, hr⟩

theorem Exec.ret_alone {a b : α} {s u : σ} {tr : List (Lts.Trans σ (Event C R))}
    (h : Exec step (fun _ _ => False) (.ret a) s tr b u) : u = s := by
  generalize hp : (Prog.ret a : Prog C R α) = p at h
  cases h with
  | ret => rfl
  | op => cases hp
  | env hf => exact hf.elim

theorem Exec.ret_inv {a b : α} {s u : σ} {tr : List (Lts.Trans σ (Event C R))}
    (h : Exec step env (.ret a) s tr b u) : tr = [] ∧ b = a := by
  generalize hp : (Prog.ret a : Prog C R α) = p at h
  induction h with
  | ret => cases hp; exact ⟨rfl, rfl⟩
  | op => cases hp
  | env _ _ ih => exact ih hp

/-- A program that returns leaves what the others keep. -/
theorem Exec.ret_keeps {I : σ → Prop} (henv : ∀ s t, I s → env s t → I t) {a b : α} {s u : σ}
    {tr : List (Lts.Trans σ (Event C R))} (h : Exec step env (.ret a) s tr b u) (hs : I s) :
    I u := by
  generalize hp : (Prog.ret a : Prog C R α) = p at h
  induction h with
  | ret => exact hs
  | op => cases hp
  | env h _ ih => exact ih (henv _ _ hs h) hp

theorem Exec.step_of_mem {p : Prog C R α} {s u : σ} {tr : List (Lts.Trans σ (Event C R))} {a : α}
    (h : Exec step env p s tr a u) : ∀ x ∈ tr, step x.src x.lab x.dst := by
  induction h with
  | ret => simp
  | op h _ ih =>
    intro x hx
    rcases List.mem_cons.1 hx with rfl | hx
    · exact h
    · exact ih x hx
  | env _ _ ih => exact ih

theorem Exec.ret_done {a b : α} {s u : σ} {tr : List (Lts.Trans σ (Event C R))}
    (h : Exec step (fun _ _ => False) (.ret a) s tr b u) : tr = [] ∧ b = a ∧ u = s :=
  ⟨h.ret_inv.1, h.ret_inv.2, h.ret_alone⟩

/-- With no others the commands are a run of the system. -/
theorem Exec.run_alone {p : Prog C R α} {s u : σ} {tr : List (Lts.Trans σ (Event C R))} {a : α}
    (h : Exec step (fun _ _ => False) p s tr a u) : Lts.Run step s tr u := by
  induction h with
  | ret a s => exact .nil s
  | op h _ ih => exact .cons h ih
  | env hf => exact hf.elim

/-- A program in two parts runs the second part where the first has ended. -/
theorem Exec.bind_inv {p : Prog C R α} {f : α → Prog C R β} {s u : σ}
    {tr : List (Lts.Trans σ (Event C R))} {b : β} (h : Exec step env (p >>= f) s tr b u) :
    ∃ tr₁ a t tr₂, tr = tr₁ ++ tr₂ ∧ Exec step env p s tr₁ a t ∧ Exec step env (f a) t tr₂ b u := by
  generalize hq : p >>= f = q at h
  induction h generalizing p with
  | ret b s =>
    cases p with
    | ret a => exact ⟨[], a, s, [], rfl, .ret a s, by rw [← ret_bind a f, hq]; exact .ret b s⟩
    | op c k => cases hq
  | @op c k r s t u tr b hs hr ih =>
    cases p with
    | ret a =>
      exact ⟨[], a, s, _, rfl, .ret a s, by rw [← ret_bind a f, hq]; exact .op hs hr⟩
    | op c k =>
      cases hq
      obtain ⟨tr₁, a, m, tr₂, rfl, h₁, h₂⟩ := ih rfl
      exact ⟨_, a, m, tr₂, rfl, .op hs h₁, h₂⟩
  | env hs _ ih =>
    obtain ⟨tr₁, a, m, tr₂, rfl, h₁, h₂⟩ := ih hq
    exact ⟨tr₁, a, m, tr₂, rfl, .env hs h₁, h₂⟩

theorem Exec.call_alone {c : C} {r : R c} {s u : σ} {tr : List (Lts.Trans σ (Event C R))}
    (h : Exec step (fun _ _ => False) (.call c) s tr r u) :
    tr = [⟨s, ⟨c, r⟩, u⟩] ∧ step s ⟨c, r⟩ u := by
  obtain ⟨r', t, tr', hs, rfl, hret⟩ := Exec.op_alone h
  obtain ⟨rfl, rfl, rfl⟩ := hret.ret_done
  exact ⟨rfl, hs⟩

/-! ## Attempts -/

variable {ε : Type}

/-- Make an attempt, and when it fails with an error that allows it another, `left` times at
most. -/
def retry (attempt : Prog C R (Except ε α)) (again : ε → Bool) : (left : Nat) →
    Prog C R (Except ε α)
  | 0 => attempt
  | left + 1 => do
    match ← attempt with
    | .ok a => pure (.ok a)
    | .error e => if again e then retry attempt again left else pure (.error e)

/-- A run of some attempts: all but the last failed. -/
inductive Attempted (step : σ → Event C R → σ → Prop) (attempt : Prog C R (Except ε α)) :
    σ → List (Lts.Trans σ (Event C R)) → Except ε α → σ → Prop
  | last {s u : σ} {tr : List (Lts.Trans σ (Event C R))} {r : Except ε α}
      (h : Exec step (fun _ _ => False) attempt s tr r u) : Attempted step attempt s tr r u
  | again {s t u : σ} {tr tr' : List (Lts.Trans σ (Event C R))} {e : ε} {r : Except ε α}
      (h : Exec step (fun _ _ => False) attempt s tr (.error e) t)
      (hr : Attempted step attempt t tr' r u) : Attempted step attempt s (tr ++ tr') r u

theorem Exec.retry_inv {attempt : Prog C R (Except ε α)} {again : ε → Bool} {left : Nat} :
    ∀ {s u : σ} {tr : List (Lts.Trans σ (Event C R))} {r : Except ε α},
      Exec step (fun _ _ => False) (retry attempt again left) s tr r u →
      Attempted step attempt s tr r u := by
  induction left with
  | zero => exact .last
  | succ left ih =>
    intro s u tr r h
    obtain ⟨tr₁, r', t, tr₂, rfl, h₁, h₂⟩ := Exec.bind_inv h
    cases r' with
    | ok a =>
      obtain ⟨rfl, rfl, rfl⟩ := h₂.ret_done
      rw [List.append_nil]
      exact .last h₁
    | error e =>
      change Exec _ _ (if again e = true then _ else _) _ _ _ _ at h₂
      split at h₂
      · exact .again h₁ (ih h₂)
      · obtain ⟨rfl, rfl, rfl⟩ := h₂.ret_done
        rw [List.append_nil]
        exact .last h₁

/-! ## Recorded runs -/

/-- Run the program alone as `run` does, and record its commands. -/
def record (h : (c : C) → σ → R c × σ) :
    Prog C R α → σ → List (Lts.Trans σ (Event C R)) × α × σ
  | .ret a, s => ([], a, s)
  | .op c k, s =>
    let rest := (k (h c s).1).record h (h c s).2
    (⟨s, ⟨c, (h c s).1⟩, (h c s).2⟩ :: rest.1, rest.2)

theorem exec_record {h : (c : C) → σ → R c × σ} (hstep : ∀ c s, step s ⟨c, (h c s).1⟩ (h c s).2)
    (p : Prog C R α) (s : σ) :
    Exec step env p s (p.record h s).1 (p.record h s).2.1 (p.record h s).2.2 := by
  induction p generalizing s with
  | ret a => exact .ret a s
  | op c k ih => exact .op (hstep c s) (ih _ _)

/-- Where every command can be issued, every program runs to its end. -/
theorem exists_exec (hstep : ∀ s c, ∃ r t, step s ⟨c, r⟩ t) (env : σ → σ → Prop) (p : Prog C R α)
    (s : σ) : ∃ tr a u, Exec step env p s tr a u := by
  induction p generalizing s with
  | ret a => exact ⟨[], a, s, .ret a s⟩
  | op c k ih =>
    obtain ⟨r, t, h⟩ := hstep s c
    obtain ⟨tr, a, u, hr⟩ := ih r t
    exact ⟨_, a, u, .op h hr⟩

/-! ## Control points -/

/-- `After p log q`: when the commands of `log` returned what it says, `p` has become `q`. -/
inductive After : Prog C R α → List (Event C R) → Prog C R α → Prop
  | nil (p : Prog C R α) : After p [] p
  | cons {c : C} {k : R c → Prog C R α} {r : R c} {log : List (Event C R)} {q : Prog C R α}
      (h : After (k r) log q) : After (.op c k) (⟨c, r⟩ :: log) q

theorem After.snoc {p : Prog C R α} {log : List (Event C R)} {c : C} {k : R c → Prog C R α}
    (h : After p log (.op c k)) (r : R c) : After p (log ++ [⟨c, r⟩]) (k r) := by
  generalize hq : Prog.op c k = q at h
  induction h with
  | nil p => subst hq; exact .cons (.nil _)
  | cons _ ih => exact .cons (ih hq)

theorem after_ret_iff {a : α} {log : List (Event C R)} {q : Prog C R α} :
    After (.ret a) log q ↔ log = [] ∧ q = .ret a := by
  constructor
  · intro h; cases h; exact ⟨rfl, rfl⟩
  · rintro ⟨rfl, rfl⟩; exact .nil _

theorem after_op_iff {c : C} {k : R c → Prog C R α} {log : List (Event C R)} {q : Prog C R α} :
    After (.op c k) log q ↔
      log = [] ∧ q = .op c k ∨ ∃ r log', log = ⟨c, r⟩ :: log' ∧ After (k r) log' q := by
  constructor
  · intro h
    cases h with
    | nil => exact .inl ⟨rfl, rfl⟩
    | cons h => exact .inr ⟨_, _, rfl, h⟩
  · rintro (⟨rfl, rfl⟩ | ⟨r, log', rfl, h⟩)
    · exact .nil _
    · exact .cons h

/-- Run the program to its end with fixed results of its commands. -/
def play (h : (c : C) → R c) : Prog C R α → List (Event C R) × α
  | .ret a => ([], a)
  | .op c k => (⟨c, h c⟩ :: ((k (h c)).play h).1, ((k (h c)).play h).2)

theorem after_play (h : (c : C) → R c) (p : Prog C R α) :
    After p (p.play h).1 (.ret (p.play h).2) := by
  induction p with
  | ret a => exact .nil _
  | op c k ih => exact .cons (ih _)

/-- A program that ran to its end made at least its first command. -/
theorem after_op_ret_iff {c : C} {k : R c → Prog C R α} {log : List (Event C R)} {a : α} :
    After (.op c k) log (.ret a) ↔ ∃ r log', log = ⟨c, r⟩ :: log' ∧ After (k r) log' (.ret a) := by
  rw [after_op_iff]
  constructor
  · rintro (⟨-, h⟩ | h)
    · cases h
    · exact h
  · exact .inr

theorem after_bind_ret_iff {p : Prog C R α} {f : α → Prog C R β} {log : List (Event C R)} {b : β} :
    After (p >>= f) log (.ret b) ↔
      ∃ log₁ log₂ a, log = log₁ ++ log₂ ∧ After p log₁ (.ret a) ∧ After (f a) log₂ (.ret b) := by
  induction p generalizing log with
  | ret a =>
    constructor
    · intro h; exact ⟨[], log, a, rfl, .nil _, h⟩
    · rintro ⟨log₁, log₂, a', rfl, h₁, h₂⟩
      obtain ⟨rfl, e⟩ := after_ret_iff.1 h₁
      cases e
      exact h₂
  | op c k ih =>
    rw [op_bind, after_op_ret_iff]
    constructor
    · rintro ⟨r, log', rfl, h⟩
      obtain ⟨log₁, log₂, a, rfl, h₁, h₂⟩ := (ih r).1 h
      exact ⟨_, log₂, a, rfl, .cons h₁, h₂⟩
    · rintro ⟨log₁, log₂, a, rfl, h₁, h₂⟩
      obtain ⟨r, log', rfl, hk⟩ := after_op_ret_iff.1 h₁
      exact ⟨r, log' ++ log₂, rfl, (ih r).2 ⟨log', log₂, a, rfl, hk, h₂⟩⟩

theorem after_map_ret {p : Prog C R (α × σ)} {f : α → β} {log : List (Event C R)} {b : β} {s : σ}
    (h : After (p >>= fun x => pure (f x.1, x.2)) log (.ret (b, s))) :
    ∃ a, b = f a ∧ After p log (.ret (a, s)) := by
  obtain ⟨log₁, log₂, ⟨a, t⟩, rfl, h₁, h₂⟩ := after_bind_ret_iff.1 h
  obtain ⟨rfl, hr⟩ := after_ret_iff.1 h₂
  cases hr
  rw [List.append_nil]
  exact ⟨a, rfl, h₁⟩

/-! ## Protocols -/

/-- A protocol for programs: a monitor that follows the commands issued, which commands it allows
and which final results. -/
structure Protocol (C : Type) (R : C → Type) (μ : Type) (α : Type) where
  track : μ → Event C R → μ
  allows : μ → C → Prop
  final : μ → α → Prop

variable {μ : Type}

/-- The program keeps to the protocol, whatever its commands return. -/
def Meets (P : Protocol C R μ α) : Prog C R α → μ → Prop
  | .ret a, m => P.final m a
  | .op c k, m => P.allows m c ∧ ∀ r, (k r).Meets P (P.track m ⟨c, r⟩)

/-- What is left of a program that meets a protocol meets it. -/
theorem Meets.after {P : Protocol C R μ α} {p q : Prog C R α} {log : List (Event C R)}
    (h : After p log q) {m : μ} (hp : p.Meets P m) : q.Meets P (log.foldl P.track m) := by
  induction h generalizing m with
  | nil p => exact hp
  | cons _ ih => exact ih (hp.2 _)

/-- The same protocol with another condition on results. -/
def Protocol.withFinal (P : Protocol C R μ α) (final : μ → β → Prop) : Protocol C R μ β where
  track := P.track
  allows := P.allows
  final := final

theorem meets_of_forall {P : Protocol C R μ α} (hallows : ∀ m c, P.allows m c)
    (hfinal : ∀ m a, P.final m a) (p : Prog C R α) (m : μ) : p.Meets P m := by
  induction p generalizing m with
  | ret a => exact hfinal m a
  | op c k ih => exact ⟨hallows m c, fun r => ih r _⟩

theorem Meets.weaken {P : Protocol C R μ β} {Q Q' : μ → α → Prop} {p : Prog C R α} {m : μ}
    (h : p.Meets (P.withFinal Q) m) (hq : ∀ m a, Q m a → Q' m a) : p.Meets (P.withFinal Q') m := by
  induction p generalizing m with
  | ret a => exact hq m a h
  | op c k ih => exact ⟨h.1, fun r => ih r (h.2 r)⟩

/-- A monitor that knows more allows more. -/
theorem Meets.mono {P : Protocol C R μ α} (le : μ → μ → Prop)
    (htrack : ∀ {m m'} e, le m m' → le (P.track m e) (P.track m' e))
    (hallows : ∀ {m m'} c, le m m' → P.allows m c → P.allows m' c)
    (hfinal : ∀ {m m'} a, le m m' → P.final m a → P.final m' a) {p : Prog C R α} {m m' : μ}
    (h : p.Meets P m) (hle : le m m') : p.Meets P m' := by
  induction p generalizing m m' with
  | ret a => exact hfinal a hle h
  | op c k ih => exact ⟨hallows c hle h.1, fun r => ih r (h.2 r) (htrack _ hle)⟩

/-- A program in two parts meets a protocol when the second part meets it from wherever the first
part ends. -/
theorem Meets.bind {P : Protocol C R μ β} {Q : μ → α → Prop} {p : Prog C R α}
    {f : α → Prog C R β} {m : μ} (hp : p.Meets (P.withFinal Q) m)
    (hf : ∀ m a, Q m a → (f a).Meets P m) : (p >>= f).Meets P m := by
  induction p generalizing m with
  | ret a => exact hf m a hp
  | op c k ih => exact ⟨hp.1, fun r => ih r (hp.2 r)⟩

/-- Attempts meet a protocol when each one does, and one that may be followed by another leaves a
monitor from which that one does. `I n` holds before an attempt with `n` more to go. -/
theorem Meets.retry {P : Protocol C R μ β} {Q : μ → Except ε α → Prop} {I : Nat → μ → Prop}
    {attempt : Prog C R (Except ε α)} {again : ε → Bool}
    (h : ∀ n m, I n m → attempt.Meets (P.withFinal fun m' r => Q m' r ∧
      ∀ e k, r = .error e → again e = true → n = k + 1 → I k m') m) :
    ∀ left m, I left m → (Prog.retry attempt again left).Meets (P.withFinal Q) m := by
  intro left
  induction left with
  | zero => exact fun m hm => (h 0 m hm).weaken fun _ _ hq => hq.1
  | succ left ih =>
    intro m hm
    refine Meets.bind (h (left + 1) m hm) fun m' r hr => ?_
    cases r with
    | ok a => exact hr.1
    | error e =>
      change Meets _ (if again e = true then _ else _) _
      split
      · next hagain => exact ih m' (hr.2 e left rfl hagain rfl)
      · exact hr.1

/-! ## Costs -/

/-- The program's commands cost at most `n` together, whatever they return. -/
def Within (w : C → Nat) : Nat → Prog C R α → Prop
  | _, .ret _ => True
  | n, .op c k => w c ≤ n ∧ ∀ r, Within w (n - w c) (k r)

section Within

variable {w : C → Nat} {n m : Nat}

theorem Within.mono {p : Prog C R α} (h : Within w n p) (hle : n ≤ m) : Within w m p := by
  induction p generalizing n m with
  | ret a => trivial
  | op c k ih => exact ⟨Nat.le_trans h.1 hle, fun r => ih r (h.2 r) (Nat.sub_le_sub_right hle _)⟩

theorem Within.bind {p : Prog C R α} {f : α → Prog C R β} (hp : Within w n p)
    (hf : ∀ a, Within w m (f a)) : Within w (n + m) (p >>= f) := by
  induction p generalizing n with
  | ret a => exact (hf a).mono (Nat.le_add_left m n)
  | op c k ih =>
    refine ⟨Nat.le_trans hp.1 (Nat.le_add_right n m), fun r => (ih r (hp.2 r)).mono ?_⟩
    have hle := hp.1
    omega

theorem Within.retry {attempt : Prog C R (Except ε α)} {again : ε → Bool}
    (h : Within w n attempt) (left : Nat) :
    Within w ((left + 1) * n) (retry attempt again left) := by
  induction left with
  | zero => exact h.mono (by omega)
  | succ left ih =>
    rw [Nat.add_mul _ 1 n, Nat.one_mul, Nat.add_comm]
    refine Within.bind h fun r => ?_
    cases r with
    | ok a => trivial
    | error e =>
      change Within w _ (if again e = true then _ else _)
      split
      · exact ih
      · trivial

/-- What a run of the program costs. -/
theorem Within.exec {p : Prog C R α} (h : Within w n p) {s u : σ}
    {tr : List (Lts.Trans σ (Event C R))} {a : α} (he : Exec step env p s tr a u) :
    (tr.map fun x => w x.lab.1).sum ≤ n := by
  induction he generalizing n with
  | ret => exact Nat.zero_le n
  | @op c _ r _ _ _ _ _ _ _ ih =>
    obtain ⟨hle, hrest⟩ := h
    have := ih (hrest r)
    simp only [List.map_cons, List.sum_cons]
    omega
  | env _ _ ih => exact ih h

theorem Within.after {p q : Prog C R α} (h : Within w n p) {log : List (Event C R)}
    (ha : After p log q) : (log.map fun e => w e.1).sum ≤ n := by
  induction ha generalizing n with
  | nil => exact Nat.zero_le n
  | @cons c _ r _ _ _ ih =>
    obtain ⟨hle, hrest⟩ := h
    have := ih (hrest r)
    simp only [List.map_cons, List.sum_cons]
    omega

end Within

end Prog
