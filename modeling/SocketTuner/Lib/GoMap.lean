import Mathlib.Data.Finmap

/-!
# Maps that are ranged over in any order

A map is a `Finmap`. A `for k, v := range m` loop may visit the entries in any order; `IsRange`
says which lists are such orders. The loop reads each key when it reaches it, so an entry deleted
before its turn is skipped (`forRange`).

* `lookup_forRange`: a body that only touches the entry it visits acts on every entry once, so
  the result does not depend on the order.
* `findRange_some`, `findRange_none`: the first entry that satisfies a test.
* `forRange_count`: counting the entries that satisfy a test.
-/

/-- A finite map with keys `α` and values `β`. -/
abbrev GoMap (α β : Type) := Finmap fun _ : α => β

namespace GoMap

variable {α β σ : Type}

/-- `order` lists the keys of `m`, each once: an order in which a range loop may visit them. -/
structure IsRange (m : GoMap α β) (order : List α) : Prop where
  nodup : order.Nodup
  mem_iff : ∀ a, a ∈ order ↔ a ∈ m

theorem IsRange.perm {m : GoMap α β} {l l' : List α} (h : IsRange m l) (hp : l'.Perm l) :
    IsRange m l' :=
  ⟨hp.nodup_iff.2 h.nodup, fun a => hp.mem_iff.trans (h.mem_iff a)⟩

theorem exists_isRange (m : GoMap α β) : ∃ order, IsRange m order :=
  ⟨m.keys.toList, m.keys.nodup_toList, fun a => by rw [Finset.mem_toList, Finmap.mem_keys]⟩

variable [DecidableEq α]

instance (m : GoMap α β) (order : List α) : Decidable (IsRange m order) :=
  decidable_of_iff (order.Nodup ∧ order.toFinset = m.keys)
    ⟨fun h => ⟨h.1, fun a => by rw [← Finmap.mem_keys, ← h.2, List.mem_toFinset]⟩,
     fun h => ⟨h.nodup, by ext a; rw [List.mem_toFinset, h.mem_iff, Finmap.mem_keys]⟩⟩

theorem IsRange.toFinset_eq {m : GoMap α β} {order : List α} (h : IsRange m order) :
    order.toFinset = m.keys := by
  ext a
  rw [List.mem_toFinset, h.mem_iff, Finmap.mem_keys]

/-- A range loop may start at any entry. -/
theorem exists_isRange_cons {m : GoMap α β} {a : α} (ha : a ∈ m) :
    ∃ rest, IsRange m (a :: rest) := by
  obtain ⟨order, h⟩ := exists_isRange m
  have hp := List.perm_cons_erase ((h.mem_iff a).2 ha)
  exact ⟨order.erase a, h.perm hp.symm⟩

/-! ## The loop -/

/-- `for a, b := range view s { body }`, visiting the keys in `order`. -/
def forRange (view : σ → GoMap α β) (body : σ → α → β → σ) (order : List α) (s : σ) : σ :=
  order.foldl (fun s a => match (view s).lookup a with
    | some b => body s a b
    | none => s) s

@[simp] theorem forRange_nil (view : σ → GoMap α β) (body : σ → α → β → σ) (s : σ) :
    forRange view body [] s = s := rfl

theorem forRange_cons (view : σ → GoMap α β) (body : σ → α → β → σ) (a : α) (order : List α)
    (s : σ) : forRange view body (a :: order) s =
      forRange view body order (match (view s).lookup a with
        | some b => body s a b
        | none => s) := rfl

/-- A body that writes only the entry it visits: `f a b` is that entry afterwards, `none` when
the body deletes it. -/
def Local (view : σ → GoMap α β) (body : σ → α → β → σ) (f : α → β → Option β) : Prop :=
  ∀ s a b, (view s).lookup a = some b → ∀ a',
    (view (body s a b)).lookup a' = if a' = a then f a b else (view s).lookup a'

theorem lookup_forRange_of_nodup {view : σ → GoMap α β} {body : σ → α → β → σ}
    {f : α → β → Option β} (hl : Local view body f) (order : List α) (hn : order.Nodup) (s : σ)
    (a : α) : (view (forRange view body order s)).lookup a =
      if a ∈ order then ((view s).lookup a).bind (f a) else (view s).lookup a := by
  induction order generalizing s with
  | nil => simp
  | cons x order ih =>
    rw [forRange_cons, ih hn.of_cons]
    have hx : x ∉ order := (List.nodup_cons.1 hn).1
    cases hv : (view s).lookup x with
    | none =>
      by_cases hax : a = x
      · subst hax; simp [hx, hv]
      · simp [hax]
    | some b =>
      simp only [hl s x b hv]
      by_cases hax : a = x
      · subst hax; simp [hx, hv]
      · simp [hax]

/-- **A local loop acts on every entry once**, whatever the order. -/
theorem lookup_forRange {view : σ → GoMap α β} {body : σ → α → β → σ} {f : α → β → Option β}
    (hl : Local view body f) {order : List α} {s : σ} (h : IsRange (view s) order) (a : α) :
    (view (forRange view body order s)).lookup a = ((view s).lookup a).bind (f a) := by
  rw [lookup_forRange_of_nodup hl order h.nodup]
  split
  · rfl
  · next ha =>
    have : (view s).lookup a = none := by
      rw [Finmap.lookup_eq_none, ← h.mem_iff]; exact ha
    rw [this]; rfl

theorem forRange_invariant {I : σ → Prop} {view : σ → GoMap α β} {body : σ → α → β → σ}
    (hbody : ∀ s a b, I s → (view s).lookup a = some b → I (body s a b)) (order : List α) {s : σ}
    (hs : I s) : I (forRange view body order s) := by
  induction order generalizing s with
  | nil => exact hs
  | cons x order ih =>
    rw [forRange_cons]
    cases hv : (view s).lookup x with
    | none => exact ih hs
    | some b => exact ih (hbody s x b hs hv)

/-! ## Searching and counting -/

/-- The first entry in `order` that satisfies `p`. -/
def findRange (m : GoMap α β) (p : β → Bool) : List α → Option (α × β)
  | [] => none
  | a :: order => match m.lookup a with
    | some b => if p b then some (a, b) else findRange m p order
    | none => findRange m p order

theorem findRange_some {m : GoMap α β} {p : β → Bool} {order : List α} {a : α} {b : β}
    (h : findRange m p order = some (a, b)) : m.lookup a = some b ∧ p b = true := by
  induction order with
  | nil => cases h
  | cons x order ih =>
    simp only [findRange] at h
    split at h
    · next y hy =>
      split at h
      · next hp =>
        simp only [Option.some.injEq, Prod.mk.injEq] at h
        obtain ⟨rfl, rfl⟩ := h
        exact ⟨hy, hp⟩
      · exact ih h
    · exact ih h

theorem findRange_none {m : GoMap α β} {p : β → Bool} {order : List α}
    (h : findRange m p order = none) {a : α} {b : β} (ha : a ∈ order) (hb : m.lookup a = some b) :
    p b = false := by
  induction order with
  | nil => cases ha
  | cons x order ih =>
    simp only [findRange] at h
    rcases List.mem_cons.1 ha with rfl | ha
    · simp only [hb] at h
      split at h
      · cases h
      · next hp => simpa using hp
    · split at h
      · split at h
        · cases h
        · exact ih h ha
      · exact ih h ha

/-- The keys of the entries that satisfy `p`. -/
def keysWhere (m : GoMap α β) (p : β → Bool) : Finset α :=
  m.keys.filter fun a => (m.lookup a).any p

theorem mem_keysWhere {m : GoMap α β} {p : β → Bool} {a : α} :
    a ∈ keysWhere m p ↔ ∃ b, m.lookup a = some b ∧ p b = true := by
  unfold keysWhere
  rw [Finset.mem_filter, Finmap.mem_keys, Finmap.mem_iff]
  constructor
  · rintro ⟨⟨b, hb⟩, hp⟩
    exact ⟨b, hb, by simpa [hb] using hp⟩
  · rintro ⟨b, hb, hp⟩
    exact ⟨⟨b, hb⟩, by simpa [hb] using hp⟩

/-- A loop that counts the entries satisfying `p` returns how many there are. -/
theorem forRange_count {m : GoMap α β} {p : β → Bool} {order : List α} (h : IsRange m order) :
    forRange (fun _ : Nat => m) (fun n _ b => if p b then n + 1 else n) order 0 =
      (keysWhere m p).card := by
  have key : ∀ (l : List α) (n : Nat),
      forRange (fun _ : Nat => m) (fun n _ b => if p b then n + 1 else n) l n =
        n + (l.filter fun a => (m.lookup a).any p).length := by
    intro l
    induction l with
    | nil => intro n; rfl
    | cons x l ih =>
      intro n
      rw [forRange_cons, ih]
      cases hx : m.lookup x with
      | none => simp [hx]
      | some b =>
        cases hp : p b
        · simp [hx, hp]
        · simp [hx, hp]; omega
  rw [key, Nat.zero_add, keysWhere, ← h.toFinset_eq, ← List.toFinset_filter,
    List.toFinset_card_of_nodup (h.nodup.filter _)]

end GoMap
