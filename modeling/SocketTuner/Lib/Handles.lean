import Mathlib.Data.List.Nodup
import Mathlib.Logic.Function.Basic
import Mathlib.Logic.Relation

/-!
# Tables of handles

A table keeps at most one open handle under each name. Handles are numbered in the order in which
they are opened, and the closed ones are remembered, so that a leak (a handle that is open and not
stored), a double close or a stored handle that is closed can be stated.

A table changes by opening a handle under a name that has none, or by closing stored ones
(`Move`). Such moves keep the table sound (`Sound.move`): the open handles are exactly the stored
ones, each stored once, and no handle is closed twice.

A table whose stored handles are also closed without being forgotten (`closeAll`) is not sound, but
how often each handle is closed is still known (`Counted.move`, `Counted.closeAll`).
-/

/-- The handle under each name, how many were opened, and those closed, the latest first. -/
structure Handles (α : Type) where
  stored : α → Option Nat
  opened : Nat
  closed : List Nat

namespace Handles

variable {α : Type} [DecidableEq α]

/-- No handle was opened. -/
def empty : Handles α := { stored := fun _ => none, opened := 0, closed := [] }

/-- Open a handle and store it under `a`. -/
def openUnder (h : Handles α) (a : α) : Handles α :=
  { h with stored := Function.update h.stored a (some h.opened), opened := h.opened + 1 }

/-- Close the handle `c` and forget what is stored under `a`. -/
def closeUnder (h : Handles α) (a : α) (c : Nat) : Handles α :=
  { h with stored := Function.update h.stored a none, closed := c :: h.closed }

/-- One stored handle is closed and forgotten. -/
def Closes (h h' : Handles α) : Prop := ∃ a c, h.stored a = some c ∧ h' = h.closeUnder a c

/-- One handle is opened, or any number of stored ones are closed. -/
def Move (h h' : Handles α) : Prop :=
  (∃ a, h.stored a = none ∧ h' = h.openUnder a) ∨ Relation.ReflTransGen Closes h h'

theorem Move.refl (h : Handles α) : Move h h := .inr .refl

/-- A handle that was opened and not closed. -/
def Open (h : Handles α) (c : Nat) : Prop := c < h.opened ∧ c ∉ h.closed

/-- Exactly the open handles are stored, each under one name, and none was closed twice. -/
structure Sound (h : Handles α) : Prop where
  nodup : h.closed.Nodup
  closed_lt : ∀ c ∈ h.closed, c < h.opened
  open_of_stored : ∀ {a c}, h.stored a = some c → h.Open c
  stored_of_open : ∀ {c}, h.Open c → ∃ a, h.stored a = some c
  injective : ∀ {a b c}, h.stored a = some c → h.stored b = some c → a = b

omit [DecidableEq α] in
theorem sound_empty : Sound (empty : Handles α) where
  nodup := List.nodup_nil
  closed_lt := by simp [empty]
  open_of_stored h := by cases h
  stored_of_open h := absurd h.1 (Nat.not_lt_zero _)
  injective h := by cases h

theorem Sound.openUnder {h : Handles α} (hs : Sound h) {a : α} (ha : h.stored a = none) :
    Sound (h.openUnder a) := by
  have hfresh : ∀ {b c}, h.stored b = some c → c ≠ h.opened := fun hb e =>
    absurd (hs.open_of_stored hb).1 (by omega)
  have hstored : ∀ {b c}, (h.openUnder a).stored b = some c →
      b = a ∧ c = h.opened ∨ b ≠ a ∧ h.stored b = some c := by
    intro b c hb
    by_cases e : b = a
    · subst e
      simp only [Handles.openUnder, Function.update_self, Option.some.injEq] at hb
      exact .inl ⟨rfl, hb.symm⟩
    · simp only [Handles.openUnder, Function.update_of_ne e] at hb
      exact .inr ⟨e, hb⟩
  refine ⟨hs.nodup, fun c hc => Nat.lt_succ_of_lt (hs.closed_lt c hc), ?_, ?_, ?_⟩
  · intro b c hb
    rcases hstored hb with ⟨-, rfl⟩ | ⟨-, hb⟩
    · exact ⟨Nat.lt_succ_self _, fun hc => absurd (hs.closed_lt _ hc) (Nat.lt_irrefl _)⟩
    · exact ⟨Nat.lt_succ_of_lt (hs.open_of_stored hb).1, (hs.open_of_stored hb).2⟩
  · rintro c ⟨hlt, hnot⟩
    rcases Nat.lt_succ_iff_lt_or_eq.1 hlt with hlt | rfl
    · obtain ⟨b, hb⟩ := hs.stored_of_open ⟨hlt, hnot⟩
      have e : b ≠ a := fun e => by rw [e, ha] at hb; cases hb
      exact ⟨b, by simpa only [Handles.openUnder, Function.update_of_ne e] using hb⟩
    · exact ⟨a, by simp [Handles.openUnder]⟩
  · intro b b' c hb hb'
    rcases hstored hb with ⟨rfl, rfl⟩ | ⟨-, hb⟩
    · rcases hstored hb' with ⟨rfl, -⟩ | ⟨-, hb'⟩
      · rfl
      · exact absurd rfl (hfresh hb')
    · rcases hstored hb' with ⟨-, rfl⟩ | ⟨-, hb'⟩
      · exact absurd rfl (hfresh hb)
      · exact hs.injective hb hb'

theorem Sound.closeUnder {h : Handles α} (hs : Sound h) {a : α} {c : Nat}
    (ha : h.stored a = some c) : Sound (h.closeUnder a c) := by
  have hstored : ∀ {b d}, (h.closeUnder a c).stored b = some d → b ≠ a ∧ h.stored b = some d := by
    intro b d hb
    by_cases e : b = a
    · subst e
      simp [Handles.closeUnder] at hb
    · simp only [Handles.closeUnder, Function.update_of_ne e] at hb
      exact ⟨e, hb⟩
  obtain ⟨hlt, hopen⟩ := hs.open_of_stored ha
  refine ⟨List.nodup_cons.2 ⟨hopen, hs.nodup⟩, ?_, ?_, ?_, ?_⟩
  · intro d hd
    rcases List.mem_cons.1 hd with rfl | hd
    · exact hlt
    · exact hs.closed_lt d hd
  · intro b d hb
    obtain ⟨hne, hold⟩ := hstored hb
    refine ⟨(hs.open_of_stored hold).1, fun hd => ?_⟩
    rcases List.mem_cons.1 hd with rfl | hd
    · exact hne (hs.injective hold ha)
    · exact (hs.open_of_stored hold).2 hd
  · rintro d ⟨hd, hnot⟩
    have hne : d ≠ c := fun e => hnot (List.mem_cons.2 (.inl e))
    obtain ⟨b, hb⟩ := hs.stored_of_open ⟨hd, fun hc => hnot (List.mem_cons_of_mem _ hc)⟩
    have e : b ≠ a := by
      rintro rfl
      rw [ha] at hb
      cases hb
      exact hne rfl
    exact ⟨b, by simpa only [Handles.closeUnder, Function.update_of_ne e] using hb⟩
  · intro b b' d hb hb'
    exact hs.injective (hstored hb).2 (hstored hb').2

theorem Sound.move {h h' : Handles α} (hs : Sound h) (hm : Move h h') : Sound h' := by
  rcases hm with ⟨a, ha, rfl⟩ | hm
  · exact hs.openUnder ha
  · induction hm with
    | refl => exact hs
    | tail _ hc ih =>
      obtain ⟨a, c, ha, rfl⟩ := hc
      exact ih.closeUnder ha

/-- Closing keeps the other handles and opens none. -/
theorem closes_frame {h h' : Handles α} (hm : Relation.ReflTransGen Closes h h') :
    h'.opened = h.opened ∧ (∀ c ∈ h.closed, c ∈ h'.closed) ∧
      ∀ a, h'.stored a = h.stored a ∨ h'.stored a = none := by
  induction hm with
  | refl => exact ⟨rfl, fun _ h => h, fun _ => .inl rfl⟩
  | tail _ hc ih =>
    obtain ⟨a, c, ha, rfl⟩ := hc
    obtain ⟨hopened, hclosed, hstored⟩ := ih
    refine ⟨hopened, fun d hd => List.mem_cons_of_mem _ (hclosed d hd), fun b => ?_⟩
    by_cases e : b = a
    · subst e
      exact .inr (by simp [Handles.closeUnder])
    · simpa only [Handles.closeUnder, Function.update_of_ne e] using hstored b

/-- A stored handle stays where it is, or its name is left without one. -/
theorem Move.keeps {h h' : Handles α} (hm : Move h h') {a : α} {c : Nat}
    (ha : h.stored a = some c) : h'.stored a = some c ∨ h'.stored a = none := by
  rcases hm with ⟨b, hb, rfl⟩ | hm
  · have e : a ≠ b := fun e => by rw [e, hb] at ha; cases ha
    exact .inl (by simpa only [Handles.openUnder, Function.update_of_ne e] using ha)
  · rw [← ha]
    exact (closes_frame hm).2.2 a

/-- **A handle is closed exactly when it is forgotten.** -/
theorem Sound.closed_iff_forgotten {h h' : Handles α} (hs : Sound h) (hm : Move h h') (c : Nat) :
    (c ∉ h.closed ∧ c ∈ h'.closed) ↔ ∃ a, h.stored a = some c ∧ h'.stored a = none := by
  have hs' := hs.move hm
  constructor
  · rintro ⟨hnot, hc⟩
    rcases hm with ⟨b, -, rfl⟩ | hclose
    · exact absurd hc hnot
    · have hlt := hs'.closed_lt c hc
      rw [(closes_frame hclose).1] at hlt
      obtain ⟨a, ha⟩ := hs.stored_of_open ⟨hlt, hnot⟩
      refine ⟨a, ha, ?_⟩
      rcases (closes_frame hclose).2.2 a with hkept | hgone
      · rw [ha] at hkept
        exact absurd hc (hs'.open_of_stored hkept).2
      · exact hgone
  · rintro ⟨a, ha, hgone⟩
    obtain ⟨hlt, hnot⟩ := hs.open_of_stored ha
    refine ⟨hnot, ?_⟩
    rcases hm with ⟨b, hb, rfl⟩ | hclose
    · -- opening forgets nothing
      have e : a ≠ b := fun e => by rw [e, hb] at ha; cases ha
      simp only [Handles.openUnder, Function.update_of_ne e, ha] at hgone
      cases hgone
    · by_contra hnot'
      rw [← (closes_frame hclose).1] at hlt
      obtain ⟨b, hb⟩ := hs'.stored_of_open ⟨hlt, hnot'⟩
      rcases (closes_frame hclose).2.2 b with hkept | hnone
      · rw [hb] at hkept
        rw [hs.injective hkept.symm ha, hgone] at hb
        cases hb
      · rw [hb] at hnone
        cases hnone

/-! ## Closing without forgetting -/

omit [DecidableEq α]

/-- All handles stored under the names are closed, and stay stored. -/
def closeAll (h : Handles α) (order : List α) : Handles α :=
  { h with closed := (order.filterMap h.stored).reverse ++ h.closed }

open Classical in
/-- One for a stored handle. -/
noncomputable def held (h : Handles α) (c : Nat) : Nat :=
  if ∃ a, h.stored a = some c then 1 else 0

theorem held_of_stored {h : Handles α} {a : α} {c : Nat} (ha : h.stored a = some c) :
    h.held c = 1 := if_pos ⟨a, ha⟩

theorem held_of_forgotten {h : Handles α} {c : Nat} (hc : ∀ a, h.stored a ≠ some c) :
    h.held c = 0 := if_neg fun ⟨a, ha⟩ => hc a ha

theorem held_congr {h h' : Handles α} {c : Nat}
    (hiff : ∀ a, h'.stored a = some c ↔ h.stored a = some c) : h'.held c = h.held c := by
  unfold held
  rw [exists_congr hiff]

/-- Every handle is closed once when it is forgotten, and besides that `again` times. -/
structure Counted (again : Nat → Nat) (h : Handles α) : Prop where
  injective : ∀ {a b c}, h.stored a = some c → h.stored b = some c → a = b
  stored_lt : ∀ {a c}, h.stored a = some c → c < h.opened
  count : ∀ {c}, c < h.opened → h.closed.count c + h.held c = again c + 1
  unopened : ∀ {c}, h.opened ≤ c → h.closed.count c = 0 ∧ again c = 0

theorem counted_empty : Counted (fun _ => 0) (empty : Handles α) where
  injective h := by cases h
  stored_lt h := by cases h
  count h := absurd h (Nat.not_lt_zero _)
  unopened _ := ⟨rfl, rfl⟩

theorem Counted.openUnder [DecidableEq α] {again : Nat → Nat} {h : Handles α} (hs : Counted again h)
    {a : α} (ha : h.stored a = none) : Counted again (h.openUnder a) := by
  have hnew : (h.openUnder a).stored a = some h.opened := by simp [Handles.openUnder]
  have hold : ∀ {b c}, c < h.opened →
      ((h.openUnder a).stored b = some c ↔ h.stored b = some c) := by
    intro b c hc
    by_cases e : b = a
    · subst e
      simp [hnew, ha, Nat.ne_of_gt hc]
    · simp [Handles.openUnder, e]
  have hcases : ∀ {b c}, (h.openUnder a).stored b = some c →
      c < h.opened ∧ h.stored b = some c ∨ c = h.opened ∧ b = a := by
    intro b c hb
    by_cases e : b = a
    · subst e
      rw [hnew] at hb
      exact .inr ⟨(Option.some.inj hb).symm, rfl⟩
    · simp only [Handles.openUnder, Function.update_of_ne e] at hb
      exact .inl ⟨hs.stored_lt hb, hb⟩
  refine ⟨?_, ?_, ?_, fun hc => hs.unopened (Nat.le_of_succ_le hc)⟩
  · intro b b' c hb hb'
    rcases hcases hb with ⟨hlt, hb⟩ | ⟨rfl, rfl⟩
    · exact hs.injective hb ((hold hlt).1 hb')
    · rcases hcases hb' with ⟨hlt, -⟩ | ⟨-, rfl⟩
      · exact absurd hlt (Nat.lt_irrefl _)
      · rfl
  · intro b c hb
    rcases hcases hb with ⟨hlt, -⟩ | ⟨rfl, -⟩
    · exact Nat.lt_succ_of_lt hlt
    · exact Nat.lt_succ_self _
  · intro c hc
    rcases Nat.lt_succ_iff_lt_or_eq.1 hc with hlt | rfl
    · rw [held_congr fun b => hold hlt]
      exact hs.count hlt
    · rw [held_of_stored hnew]
      obtain ⟨hcount, hagain⟩ := hs.unopened (Nat.le_refl h.opened)
      rw [hagain]
      exact congrArg (· + 1) hcount

theorem Counted.closeUnder [DecidableEq α] {again : Nat → Nat} {h : Handles α}
    (hs : Counted again h) {a : α} {c : Nat} (ha : h.stored a = some c) :
    Counted again (h.closeUnder a c) := by
  have hstored : ∀ {b d}, (h.closeUnder a c).stored b = some d ↔ b ≠ a ∧ h.stored b = some d := by
    intro b d
    by_cases e : b = a <;> simp [Handles.closeUnder, e]
  refine ⟨fun hb hb' => hs.injective (hstored.1 hb).2 (hstored.1 hb').2,
    fun hb => hs.stored_lt (hstored.1 hb).2, ?_, ?_⟩
  · intro d hd
    have hcount := hs.count hd
    change (c :: h.closed).count d + _ = _
    by_cases e : d = c
    · subst e
      rw [held_of_stored ha] at hcount
      have hgone : (h.closeUnder a d).held d = 0 := held_of_forgotten fun b hb =>
        (hstored.1 hb).1 (hs.injective (hstored.1 hb).2 ha)
      rw [hgone, List.count_cons_self]
      exact hcount
    · have hkept : (h.closeUnder a c).held d = h.held d := held_congr fun b =>
        ⟨fun hb => (hstored.1 hb).2, fun hb => hstored.2 ⟨fun hba => e ?_, hb⟩⟩
      · rw [hkept, List.count_cons_of_ne (Ne.symm e)]
        exact hcount
      · rw [hba, ha] at hb
        exact (Option.some.inj hb).symm
  · intro d hd
    have hne : c ≠ d := fun e => absurd (hs.stored_lt ha) (Nat.not_lt.2 (e ▸ hd))
    obtain ⟨hcount, hagain⟩ := hs.unopened hd
    exact ⟨(List.count_cons_of_ne hne).trans hcount, hagain⟩

theorem Counted.move [DecidableEq α] {again : Nat → Nat} {h h' : Handles α} (hs : Counted again h)
    (hm : Move h h') : Counted again h' := by
  rcases hm with ⟨a, ha, rfl⟩ | hm
  · exact hs.openUnder ha
  · induction hm with
    | refl => exact hs
    | tail _ hc ih =>
      obtain ⟨a, c, ha, rfl⟩ := hc
      exact ih.closeUnder ha

/-- Each stored handle is closed once more. -/
theorem Counted.closeAll {again : Nat → Nat} {h : Handles α} (hs : Counted again h)
    {order : List α} (hn : order.Nodup) (hall : ∀ {a c}, h.stored a = some c → a ∈ order) :
    Counted (fun c => again c + h.held c) (h.closeAll order) := by
  have hnodup : (order.filterMap h.stored).Nodup :=
    hn.filterMap fun _ _ _ hb hb' => hs.injective hb hb'
  have hcount : ∀ c, (h.closeAll order).closed.count c = h.held c + h.closed.count c := by
    intro c
    change ((order.filterMap h.stored).reverse ++ h.closed).count c = _
    rw [List.count_append, List.count_reverse, hnodup.count]
    congr 1
    by_cases hc : ∃ a, h.stored a = some c
    · obtain ⟨a, ha⟩ := hc
      rw [held_of_stored ha, if_pos (List.mem_filterMap.2 ⟨a, hall ha, ha⟩)]
    · rw [held_of_forgotten fun a ha => hc ⟨a, ha⟩,
        if_neg fun hmem => hc ((List.mem_filterMap.1 hmem).imp fun _ h => h.2)]
  refine ⟨hs.injective, hs.stored_lt, ?_, ?_⟩
  · intro c hc
    have := hs.count hc
    rw [hcount]
    change _ + h.held c = again c + h.held c + 1
    omega
  · intro c hc
    have hheld : h.held c = 0 := held_of_forgotten fun a ha =>
      absurd (hs.stored_lt ha) (Nat.not_lt.2 hc)
    obtain ⟨hclosed, hagain⟩ := hs.unopened hc
    rw [hcount, hheld, hclosed, hagain]
    exact ⟨rfl, rfl⟩

end Handles
