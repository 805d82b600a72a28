import Mathlib.Data.Set.Basic
import Mathlib.Logic.Function.Basic
import SocketTuner.Lib.Run

/-!
# Lease tables

What a pool of exclusively leased resources is for, without its representation. Each name `a : α`
is in one of four slots: not known, idle, leased, or leased and to be given up when the lease ends
(`retiring`). A resource is never both idle and retiring, so no table is malformed.

A lease starts only from `idle` and ends only by a release (`Step.held`), hence between two
leases of one resource there is a release of it (`Run.release_between`).
-/

namespace LeaseTable

open Classical

/-- What is known of a resource: nothing, or whether it is leased and is to be given up. -/
inductive Slot
  | absent
  | idle
  | leased
  | retiring
  deriving DecidableEq, Repr

namespace Slot

/-- A resource someone has leased. -/
def Held (s : Slot) : Prop := s = leased ∨ s = retiring

/-- A known resource that is not to be given up. -/
def Listed (s : Slot) : Prop := s = idle ∨ s = leased

/-- Make the resource known, or withdraw its retirement. -/
def enlist : Slot → Slot
  | absent => idle
  | retiring => leased
  | s => s

/-- Give the resource up, at once or when its lease ends. -/
def retire : Slot → Slot
  | idle => absent
  | leased => retiring
  | s => s

/-- End the lease. -/
def release : Slot → Slot
  | leased => idle
  | retiring => absent
  | s => s

@[simp] theorem held_leased : leased.Held := .inl rfl
@[simp] theorem held_retiring : retiring.Held := .inr rfl
@[simp] theorem not_held_idle : ¬idle.Held := by simp [Held]
@[simp] theorem not_held_absent : ¬absent.Held := by simp [Held]

@[simp] theorem held_enlist (s : Slot) : s.enlist.Held ↔ s.Held := by cases s <;> simp [enlist]
@[simp] theorem held_retire (s : Slot) : s.retire.Held ↔ s.Held := by cases s <;> simp [retire]
@[simp] theorem not_held_release (s : Slot) : ¬s.release.Held := by cases s <;> simp [release]

@[simp] theorem listed_enlist (s : Slot) : s.enlist.Listed := by
  cases s <;> simp [enlist, Listed]

@[simp] theorem not_listed_retire (s : Slot) : ¬s.retire.Listed := by
  cases s <;> simp [retire, Listed]

theorem release_of_unlisted {s : Slot} (h : ¬s.Listed) : s.release = absent := by
  cases s <;> simp_all [release, Listed]

/-! Enlisting and retiring forget what was enlisted or retired before. -/

theorem enlist_enlist (s : Slot) : s.enlist.enlist = s.enlist := by cases s <;> rfl
theorem enlist_retire (s : Slot) : s.retire.enlist = s.enlist := by cases s <;> rfl
theorem retire_enlist (s : Slot) : s.enlist.retire = s.retire := by cases s <;> rfl
theorem retire_retire (s : Slot) : s.retire.retire = s.retire := by cases s <;> rfl

end Slot

variable {α : Type}

/-- The operations; `retire` and `release` act on any set of resources at once. -/
inductive Op (α : Type)
  | skip
  | enlist (a : α)
  | lock (a : α)
  | retire (s : Set α)
  | release (s : Set α)

/-- The operation ends the lease of `a`, if there is one. -/
def Op.Releases (a : α) : Op α → Prop
  | .release s => a ∈ s
  | _ => False

/-- The operation makes `a` known. -/
def Op.Enlists (a : α) : Op α → Prop
  | .enlist b => b = a
  | _ => False

/-- An operation on the table; only an idle resource can be locked. -/
inductive Step : (α → Slot) → Op α → (α → Slot) → Prop
  | skip (t : α → Slot) : Step t .skip t
  | enlist (t : α → Slot) (a : α) : Step t (.enlist a) (Function.update t a (t a).enlist)
  | lock (t : α → Slot) (a : α) (h : t a = .idle) :
      Step t (.lock a) (Function.update t a .leased)
  | retire (t : α → Slot) (s : Set α) :
      Step t (.retire s) fun a => if a ∈ s then (t a).retire else t a
  | release (t : α → Slot) (s : Set α) :
      Step t (.release s) fun a => if a ∈ s then (t a).release else t a

/-- An operation that starts or ends leases only. -/
def Op.IsLease : Op α → Prop
  | .skip | .lock _ | .release _ => True
  | .enlist _ | .retire _ => False

/-- Leases come and go without a resource becoming known, unknown or retiring, except that a
retiring one disappears. -/
theorem Step.listed {t t' : α → Slot} {op : Op α} (h : Step t op t') (hop : op.IsLease) (a : α) :
    ((t a).Listed → (t' a).Listed) ∧ (t a = .absent → t' a = .absent) := by
  cases h with
  | skip => exact ⟨id, id⟩
  | enlist b => exact hop.elim
  | lock b hb =>
    by_cases e : a = b
    · subst e; simp [Slot.Listed, hb]
    · simp [e]
  | retire s => exact hop.elim
  | release s =>
    by_cases e : a ∈ s
    · simp only [e, ↓reduceIte]
      constructor
      · rintro (h | h) <;> simp [h, Slot.release, Slot.Listed]
      · intro h; simp [h, Slot.release]
    · simp [e]

/-- Only an enlistment makes a resource listed that was not, or known that was not. -/
theorem Step.unlisted {t t' : α → Slot} {op : Op α} (h : Step t op t') {a : α}
    (hop : ¬op.Enlists a) :
    (¬(t a).Listed → ¬(t' a).Listed) ∧ (t a = .absent → t' a = .absent) := by
  cases h with
  | skip => exact ⟨id, id⟩
  | enlist b =>
    have e : a ≠ b := fun e => hop e.symm
    simp [e]
  | lock b hb =>
    by_cases e : a = b
    · subst e; simp [Slot.Listed, hb]
    · simp [e]
  | retire s =>
    by_cases e : a ∈ s
    · cases ht : t a <;> simp [e, ht, Slot.retire, Slot.Listed]
    · simp [e]
  | release s =>
    by_cases e : a ∈ s
    · cases ht : t a <;> simp [e, ht, Slot.release, Slot.Listed]
    · simp [e]

/-- Only a release ends a lease. -/
theorem Step.held {t t' : α → Slot} {op : Op α} (h : Step t op t') {a : α} (ha : (t a).Held)
    (hr : ¬op.Releases a) : (t' a).Held := by
  cases h with
  | skip => exact ha
  | enlist b =>
    by_cases e : a = b
    · subst e; simpa using ha
    · simpa [e] using ha
  | lock b hb =>
    by_cases e : a = b
    · subst e; simp
    · simpa [e] using ha
  | retire s => by_cases e : a ∈ s <;> simpa [e] using ha
  | release s =>
    have e : a ∉ s := hr
    simpa [e] using ha

theorem Step.release_eq {t t' : α → Slot} {op : Op α} (h : Step t op t') {a : α}
    (hr : op.Releases a) : t' a = (t a).release := by
  cases h with
  | release s => exact if_pos hr
  | skip | enlist | lock | retire => exact hr.elim

theorem Step.lock_iff {t t' : α → Slot} {a : α} (h : Step t (.lock a) t') :
    t a = .idle ∧ t' a = .leased := by
  cases h with
  | lock a hi => exact ⟨hi, by simp⟩

/-- Only a lock starts a lease. -/
theorem Step.lock_of_held {t t' : α → Slot} {op : Op α} (h : Step t op t') {a : α}
    (ha : ¬(t a).Held) (ha' : (t' a).Held) : op = .lock a := by
  cases h with
  | skip => exact absurd ha' ha
  | enlist b =>
    by_cases e : a = b
    · subst e; simp [ha] at ha'
    · simp [e, ha] at ha'
  | lock b hb =>
    by_cases e : a = b
    · rw [e]
    · simp [e, ha] at ha'
  | retire s => by_cases e : a ∈ s <;> simp [e, ha] at ha'
  | release s => by_cases e : a ∈ s <;> simp [e, ha] at ha'

/-- **Between two leases of one resource it is released.** Stated for any system whose steps
`op` reads as lease operations, under an invariant `I` of that system. -/
theorem release_between {σ ε : Type} {step : σ → ε → σ → Prop} {I : σ → Prop}
    (hI : ∀ s e t, I s → step s e t → I t) (table : σ → α → Slot) (op : Lts.Trans σ ε → Op α)
    (hop : ∀ s e t, I s → step s e t → Step (table s) (op ⟨s, e, t⟩) (table t))
    {s u : σ} (hs : I s) {x y : Lts.Trans σ ε} {mid : List (Lts.Trans σ ε)}
    (h : Lts.Run step s (x :: mid ++ [y]) u) {a : α} (hx : op x = .lock a) (hy : op y = .lock a) :
    ∃ z ∈ mid, (op z).Releases a := by
  obtain ⟨rfl, hxs, hrest⟩ := h.head
  obtain ⟨t, hmid, hlast⟩ := hrest.split
  obtain ⟨rfl, hys, -⟩ := hlast.head
  have hIx : I x.dst := hI _ _ _ hs hxs
  have hlx := hop _ _ _ hs hxs
  rw [hx] at hlx
  have hIy : I y.src := hmid.invariant hI hIx
  have hly := hop _ _ _ hIy hys
  rw [hy] at hly
  have hkeep : ∀ s e t, step s e t → I s ∧ (table s a).Held → ¬(op ⟨s, e, t⟩).Releases a →
      I t ∧ (table t a).Held := fun s e t hst hheld hrel =>
    ⟨hI s e t hheld.1 hst, (hop s e t hheld.1 hst).held hheld.2 hrel⟩
  refine hmid.exists_release hkeep ⟨hIx, by rw [hlx.lock_iff.2]; simp⟩ ?_
  rintro ⟨-, hheld⟩
  rw [hly.lock_iff.1] at hheld
  exact Slot.not_held_idle hheld

end LeaseTable
