import Mathlib.Data.Finmap
import SocketTuner.Lib.Run

/-!
# Maps of bounded size

A hash map with at most `cap` keys. Writing a present key always succeeds; writing a new key fails
without effect when the map is full. The bound is a field, so a map over its bound cannot be built.

A system that only ever adds keys to such a map (`Adds`) has every write accepted exactly when it
writes at most `cap` different keys (`accepts_all_iff`). A map whose keys and values are encoded
represents the map of what they encode (`Represents`), and refuses the same writes.
-/

/-- A finite map with at most `cap` keys. -/
structure BoundedMap (κ ν : Type) (cap : Nat) where
  entries : Finmap fun _ : κ => ν
  card_le : entries.keys.card ≤ cap

namespace BoundedMap

variable {κ ν : Type} [DecidableEq κ] {cap : Nat}

/-- The map without entries. -/
def empty : BoundedMap κ ν cap := ⟨∅, by simp⟩

/-- The value under `k`, if there is one. -/
def lookup (m : BoundedMap κ ν cap) (k : κ) : Option ν := m.entries.lookup k

/-- A write of `k` is accepted: the key is there, or there is room. -/
def Accepts (m : BoundedMap κ ν cap) (k : κ) : Prop := k ∈ m.entries ∨ m.entries.keys.card < cap

instance (m : BoundedMap κ ν cap) (k : κ) : Decidable (m.Accepts k) :=
  inferInstanceAs (Decidable (_ ∨ _))

theorem accepts_of_lookup {m : BoundedMap κ ν cap} {k : κ} {v : ν} (h : m.lookup k = some v) :
    m.Accepts k :=
  .inl (Finmap.mem_iff.2 ⟨v, h⟩)

theorem mem_iff {m : BoundedMap κ ν cap} {k : κ} : k ∈ m.entries ↔ ∃ v, m.lookup k = some v :=
  Finmap.mem_iff

theorem card_insert_le {m : BoundedMap κ ν cap} {k : κ} (h : m.Accepts k) (v : ν) :
    (m.entries.insert k v).keys.card ≤ cap := by
  have hkeys : (m.entries.insert k v).keys = insert k m.entries.keys := by
    ext a
    simp [Finmap.mem_keys, Finmap.mem_insert]
  rw [hkeys]
  rcases h with h | h
  · rw [Finset.insert_eq_of_mem (Finmap.mem_keys.2 h)]
    exact m.card_le
  · exact (Finset.card_insert_le _ _).trans h

/-- Write `v` under `k`, if that is accepted. -/
def update (m : BoundedMap κ ν cap) (k : κ) (v : ν) : BoundedMap κ ν cap :=
  if h : m.Accepts k then ⟨m.entries.insert k v, card_insert_le h v⟩ else m

theorem lookup_update (m : BoundedMap κ ν cap) (k : κ) (v : ν) (k' : κ) :
    (m.update k v).lookup k' = if k' = k ∧ m.Accepts k then some v else m.lookup k' := by
  unfold update
  split
  · next h =>
    by_cases hk : k' = k
    · subst hk; simp [lookup, h]
    · simp [lookup, hk, Finmap.lookup_insert_of_ne]
  · next h => simp [h]

/-! ## A system that adds keys -/

section Adds

open Lts

variable {σ ε : Type} {step : σ → ε → σ → Prop} {v : σ → BoundedMap κ ν cap} {key : ε → Option κ}

/-- A step labelled `e` writes the key `key e`, and no step deletes a key. -/
def Adds (step : σ → ε → σ → Prop) (v : σ → BoundedMap κ ν cap) (key : ε → Option κ) : Prop :=
  ∀ s e t, step s e t →
    ∀ k, k ∈ (v t).entries ↔ k ∈ (v s).entries ∨ key e = some k ∧ (v s).Accepts k

omit [DecidableEq κ] in
theorem Adds.mem_run (h : Adds step v key) {k : κ} {s u : σ} {tr : List (Trans σ ε)}
    (hr : Run step s tr u) (hk : k ∈ (v s).entries) : k ∈ (v u).entries :=
  hr.invariant (I := fun s => k ∈ (v s).entries) (fun _ _ _ hk hs => (h _ _ _ hs k).2 (.inl hk)) hk

omit [DecidableEq κ] in
theorem Adds.written_of_mem (h : Adds step v key) {k : κ} {s u : σ} {tr : List (Trans σ ε)}
    (hr : Run step s tr u) (hk : k ∈ (v u).entries) :
    k ∈ (v s).entries ∨ k ∈ tr.filterMap fun x => key x.lab := by
  induction hr with
  | nil => exact .inl hk
  | cons hs hr ih =>
    simp only [List.mem_filterMap, List.mem_cons] at ih ⊢
    rcases ih hk with hk | ⟨x, hx, hkey⟩
    · rcases (h _ _ _ hs k).1 hk with hk | ⟨he, -⟩
      · exact .inl hk
      · exact .inr ⟨_, .inl rfl, he⟩
    · exact .inr ⟨x, .inr hx, hkey⟩

/-- **Every write is accepted exactly when the keys fit**, over a run from the empty map. -/
theorem Adds.accepts_all_iff (h : Adds step v key) {s u : σ} {tr : List (Trans σ ε)}
    (hr : Run step s tr u) (hs : (v s).entries = ∅) :
    (∀ x ∈ tr, ∀ k, key x.lab = some k → (v x.src).Accepts k) ↔
      (tr.filterMap fun x => key x.lab).toFinset.card ≤ cap := by
  constructor
  · intro hall
    refine (Finset.card_le_card ?_).trans (v u).card_le
    intro k hk
    obtain ⟨x, hmem, hkey⟩ := List.mem_filterMap.1 (List.mem_toFinset.1 hk)
    obtain ⟨pre, post, rfl⟩ := List.append_of_mem hmem
    obtain ⟨t, hpre, hpost⟩ := hr.split
    obtain ⟨rfl, hx, hpost⟩ := hpost.head
    rw [Finmap.mem_keys]
    exact h.mem_run hpost ((h _ _ _ hx k).2 (.inr ⟨hkey, hall x hmem k hkey⟩))
  · intro hcard x hmem k hkey
    by_contra hnot
    unfold Accepts at hnot
    rw [not_or, Nat.not_lt] at hnot
    obtain ⟨pre, post, rfl⟩ := List.append_of_mem hmem
    obtain ⟨t, hpre, hpost⟩ := hr.split
    obtain ⟨rfl, -, -⟩ := hpost.head
    -- the keys before the refused write, with the refused one, are more than fit
    have hsub : insert k (v x.src).entries.keys ⊆
        ((pre ++ x :: post).filterMap fun x => key x.lab).toFinset := by
      intro k' hk'
      rw [List.mem_toFinset, List.mem_filterMap]
      rcases Finset.mem_insert.1 hk' with rfl | hk'
      · exact ⟨x, hmem, hkey⟩
      · rcases h.written_of_mem hpre (Finmap.mem_keys.1 hk') with hk' | hk'
        · rw [hs] at hk'
          exact absurd hk' Finmap.notMem_empty
        · obtain ⟨y, hy, hkey'⟩ := List.mem_filterMap.1 hk'
          exact ⟨y, List.mem_append_left _ hy, hkey'⟩
    have hle := (Finset.card_le_card hsub).trans hcard
    rw [Finset.card_insert_of_notMem (by rw [Finmap.mem_keys]; exact hnot.1)] at hle
    omega

end Adds

/-! ## Representations -/

section Representation

variable {κ' ν' : Type} [DecidableEq κ']

theorem mem_update_iff {m : BoundedMap κ ν cap} {k k' : κ} {v : ν} :
    k' ∈ (m.update k v).entries ↔ k' ∈ m.entries ∨ k' = k ∧ m.Accepts k := by
  rw [mem_iff, lookup_update, mem_iff]
  split
  · next h => simp [h.1, h.2]
  · next h => simp [h]

theorem card_update (m : BoundedMap κ ν cap) (k : κ) (v : ν) :
    (m.update k v).entries.keys.card =
      if k ∉ m.entries ∧ m.Accepts k then m.entries.keys.card + 1 else m.entries.keys.card := by
  have hkeys : (m.update k v).entries.keys =
      if m.Accepts k then insert k m.entries.keys else m.entries.keys := by
    ext a
    rw [Finmap.mem_keys, mem_update_iff]
    split
    · next h => simp [h, Finmap.mem_keys, or_comm]
    · next h => simp [h, Finmap.mem_keys]
  rw [hkeys]
  by_cases ha : m.Accepts k
  · by_cases hk : k ∈ m.entries
    · simp [ha, hk, Finset.insert_eq_of_mem (Finmap.mem_keys.2 hk)]
    · simp [ha, hk, Finset.card_insert_of_notMem (fun h => hk (Finmap.mem_keys.1 h))]
  · simp [ha]

/-- `b` holds the entries of `m`, each key under its image and each value by a representation. -/
structure Represents (f : κ → κ') (R : ν → ν' → Prop) (b : BoundedMap κ' ν' cap)
    (m : BoundedMap κ ν cap) : Prop where
  card_eq : b.entries.keys.card = m.entries.keys.card
  lookup_rel : ∀ k, Option.Rel R (m.lookup k) (b.lookup (f k))

variable {f : κ → κ'} {R : ν → ν' → Prop} {b : BoundedMap κ' ν' cap} {m : BoundedMap κ ν cap}

theorem represents_empty :
    Represents f R (empty : BoundedMap κ' ν' cap) (empty : BoundedMap κ ν cap) where
  card_eq := rfl
  lookup_rel _ := .none

theorem Represents.mem_iff (h : Represents f R b m) (k : κ) : f k ∈ b.entries ↔ k ∈ m.entries := by
  have hrel := h.lookup_rel k
  rw [BoundedMap.mem_iff, BoundedMap.mem_iff]
  generalize m.lookup k = r at hrel ⊢
  generalize b.lookup (f k) = r' at hrel ⊢
  cases hrel <;> simp

theorem Represents.accepts_iff (h : Represents f R b m) (k : κ) :
    b.Accepts (f k) ↔ m.Accepts k := by
  unfold Accepts
  rw [h.mem_iff, h.card_eq]

/-- Writes keep a representation. -/
theorem Represents.update (h : Represents f R b m) (hf : f.Injective) {k : κ} {v : ν} {v' : ν'}
    (hv : R v v') : Represents f R (b.update (f k) v') (m.update k v) where
  card_eq := by
    rw [card_update, card_update]
    simp only [h.accepts_iff, h.mem_iff, h.card_eq]
  lookup_rel k' := by
    rw [lookup_update, lookup_update]
    simp only [h.accepts_iff, hf.eq_iff]
    split
    · exact .some hv
    · exact h.lookup_rel k'

end Representation

end BoundedMap
