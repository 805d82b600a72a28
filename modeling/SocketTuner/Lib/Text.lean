import Mathlib.Algebra.GroupWithZero.Nat
import Mathlib.Data.List.Basic

/-!
# Printed text and its reading

Lines of words, words `key=value`, lists of values, and decimal numbers, as lists of characters.
What is printed is read back: `dropKey_append`, `splitOn_lines`, `readList_intercalate`,
`readInt_intDigits`, `readFixed_fixed`.
-/

namespace Text

/-! ## Words and lines -/

/-- The value of a word `key ++ value`. -/
def dropKey (key word : List Char) : Option (List Char) :=
  if word.take key.length = key then some (word.drop key.length) else none

@[simp] theorem dropKey_append (key value : List Char) :
    dropKey key (key ++ value) = some value := by
  rw [dropKey, List.take_left, if_pos rfl, List.drop_left]

/-- Text whose every line is ended by a newline. -/
def unlines (ls : List (List Char)) : List Char := ls.flatMap fun l => l ++ ['\n']

/-- Splitting at newlines gives the lines, and the empty rest after the last newline. -/
theorem splitOn_unlines {ls : List (List Char)} (h : ∀ l ∈ ls, '\n' ∉ l) :
    (unlines ls).splitOn '\n' = ls ++ [[]] := by
  induction ls with
  | nil => rfl
  | cons l ls ih =>
    rw [unlines, List.flatMap_cons, List.append_assoc, List.singleton_append,
      List.splitOn_append_cons_self_of_not_mem (h l List.mem_cons_self)]
    exact congrArg (l :: ·) (ih fun l' hl' => h l' (List.mem_cons_of_mem _ hl'))

/-- The lines of a text that ends with a newline. -/
def readLines (text : List Char) : List (List Char) := (text.splitOn '\n').dropLast

theorem readLines_unlines {ls : List (List Char)} (h : ∀ l ∈ ls, '\n' ∉ l) :
    readLines (unlines ls) = ls := by
  rw [readLines, splitOn_unlines h, List.dropLast_concat]

/-! ## Lists -/

section Lists

variable {α : Type} {print : α → List Char} {read : List Char → Option α}

/-- Read every item. -/
def readAll (read : List Char → Option α) : List (List Char) → Option (List α)
  | [] => some []
  | item :: items => do
    let a ← read item
    let as ← readAll read items
    pure (a :: as)

theorem readAll_map {as : List α} (h : ∀ a ∈ as, read (print a) = some a) :
    readAll read (as.map print) = some as := by
  induction as with
  | nil => rfl
  | cons a as ih =>
    rw [List.map_cons, readAll, h a List.mem_cons_self,
      ih fun a' ha' => h a' (List.mem_cons_of_mem _ ha')]
    rfl

/-- Values separated by `sep`. -/
def readList (sep : Char) (read : List Char → Option α) (text : List Char) : Option (List α) :=
  if text = [] then some [] else readAll read (text.splitOn sep)

theorem readList_intercalate {sep : Char} {as : List α} (h : ∀ a ∈ as, read (print a) = some a)
    (hsep : ∀ a ∈ as, sep ∉ print a) (hne : ∀ a ∈ as, print a ≠ []) :
    readList sep read ([sep].intercalate (as.map print)) = some as := by
  cases as with
  | nil => rfl
  | cons a as =>
    have htext : [sep].intercalate ((a :: as).map print) ≠ [] := by
      intro hnil
      have hsplit : ([sep].intercalate ((a :: as).map print)).splitOn sep = (a :: as).map print :=
        List.splitOn_intercalate sep (List.forall_mem_map.2 hsep) (by simp)
      rw [hnil] at hsplit
      have hhead := congrArg List.head? hsplit
      simp only [List.splitOn_nil, List.head?_cons, List.map_cons, Option.some.injEq] at hhead
      exact hne a List.mem_cons_self hhead.symm
    rw [readList, if_neg htext, List.splitOn_intercalate sep (List.forall_mem_map.2 hsep) (by simp),
      readAll_map h]

theorem not_mem_intercalate {c sep : Char} (hc : c ≠ sep) {items : List (List Char)}
    (h : ∀ item ∈ items, c ∉ item) : c ∉ [sep].intercalate items := by
  induction items with
  | nil => simp
  | cons item items ih =>
    have hitem := h item List.mem_cons_self
    have hrest := ih fun item' hmem => h item' (List.mem_cons_of_mem _ hmem)
    cases items with
    | nil => rwa [List.intercalate_singleton]
    | cons item' items =>
      rw [List.intercalate_cons_cons, List.mem_append, List.mem_append, List.mem_singleton]
      rintro ((hmem | hmem) | hmem)
      · exact hitem hmem
      · exact hc hmem
      · exact hrest hmem

end Lists

/-! ## Numbers -/

/-- Read back a number in decimal digits. -/
def readNat (cs : List Char) : Option Nat :=
  if cs ≠ [] ∧ cs.all Char.isDigit then some (Nat.ofDigitChars 10 cs 0) else none

/-- An integer in decimal digits, with its sign if it is negative. -/
def intDigits : Int → List Char
  | .ofNat n => Nat.toDigits 10 n
  | .negSucc n => '-' :: Nat.toDigits 10 (n + 1)

/-- Read back an integer in decimal digits. -/
def readInt : List Char → Option Int
  | '-' :: cs => (readNat cs).map fun n => -(n : Int)
  | cs => (readNat cs).map fun n => (n : Int)

/-- A multiple `n` of the `d`-th decimal place, with `d` digits after the point. -/
def fixed (d n : Nat) : List Char :=
  Nat.toDigits 10 (n / 10 ^ d) ++ '.' :: (Nat.toDigits 10 (n % 10 ^ d)).leftpad d '0'

/-- A number with `d` digits after the point, as a multiple of the `d`-th decimal place. -/
def readFixed (d : Nat) (cs : List Char) : Option Nat :=
  match cs.splitOn '.' with
  | [whole, rest] =>
    if rest.length = d then do
      let n ← readNat whole
      let m ← readNat rest
      pure (n * 10 ^ d + m)
    else none
  | _ => none

theorem isDigit_of_mem_toDigits {n : Nat} {c : Char} (h : c ∈ Nat.toDigits 10 n) :
    c.isDigit = true :=
  Nat.isDigit_of_mem_toDigits (by decide) (by decide) h

theorem not_mem_toDigits {c : Char} (h : c.isDigit = false) (n : Nat) :
    c ∉ Nat.toDigits 10 n := by
  intro hc
  rw [isDigit_of_mem_toDigits hc] at h
  cases h

@[simp] theorem readNat_toDigits (n : Nat) : readNat (Nat.toDigits 10 n) = some n := by
  have hall : (Nat.toDigits 10 n).all Char.isDigit = true :=
    List.all_eq_true.2 fun _ hc => isDigit_of_mem_toDigits hc
  rw [readNat, if_pos ⟨Nat.toDigits_ne_nil, hall⟩, Nat.ofDigitChars_ten_toDigits]

theorem readNat_leftpad (d n : Nat) : readNat ((Nat.toDigits 10 n).leftpad d '0') = some n := by
  have hall : ((Nat.toDigits 10 n).leftpad d '0').all Char.isDigit = true := by
    rw [List.all_eq_true]
    intro c hc
    rcases List.mem_append.1 hc with hc | hc
    · rw [List.eq_of_mem_replicate hc]
      rfl
    · exact isDigit_of_mem_toDigits hc
  have hne : (Nat.toDigits 10 n).leftpad d '0' ≠ [] :=
    List.append_ne_nil_of_right_ne_nil _ Nat.toDigits_ne_nil
  rw [readNat, if_pos ⟨hne, hall⟩, List.leftpad, Nat.ofDigitChars_append,
    Nat.ofDigitChars_replicate_zero, Nat.mul_zero, Nat.ofDigitChars_ten_toDigits]

theorem readInt_intDigits (i : Int) : readInt (intDigits i) = some i := by
  cases i with
  | negSucc n =>
    rw [intDigits, readInt, readNat_toDigits]
    rfl
  | ofNat n =>
    rw [intDigits]
    unfold readInt
    split
    · next cs heq => exact absurd (heq ▸ List.mem_cons_self) (not_mem_toDigits (by decide) n)
    · rw [readNat_toDigits]
      rfl

theorem not_mem_intDigits {c : Char} (hdigit : c.isDigit = false) (hsign : c ≠ '-') (i : Int) :
    c ∉ intDigits i := by
  cases i with
  | ofNat n => exact not_mem_toDigits hdigit n
  | negSucc n =>
    rw [intDigits, List.mem_cons, not_or]
    exact ⟨hsign, not_mem_toDigits hdigit _⟩

theorem readFixed_fixed {d : Nat} (hd : 0 < d) (n : Nat) : readFixed d (fixed d n) = some n := by
  have hpoint : ∀ m, '.' ∉ Nat.toDigits 10 m := not_mem_toDigits (by decide)
  have hlen : ((Nat.toDigits 10 (n % 10 ^ d)).leftpad d '0').length = d := by
    have hle := (Nat.length_toDigits_le_iff (by decide) hd).2
      (Nat.mod_lt n (Nat.pow_pos (by decide : 0 < 10)) : n % 10 ^ d < 10 ^ d)
    rw [List.leftpad, List.length_append, List.length_replicate]
    omega
  have hrest : '.' ∉ (Nat.toDigits 10 (n % 10 ^ d)).leftpad d '0' := by
    intro h
    rcases List.mem_append.1 h with h | h
    · exact absurd (List.eq_of_mem_replicate h) (by decide)
    · exact hpoint _ h
  rw [readFixed, fixed, List.splitOn_append_cons_self_of_not_mem (hpoint _),
    List.splitOn_eq_singleton hrest]
  simp only [hlen, if_true, readNat_toDigits, readNat_leftpad]
  exact congrArg some (Nat.div_add_mod' n (10 ^ d))

theorem not_mem_fixed {c : Char} (hc : c.isDigit = false) (hpoint : c ≠ '.') (d n : Nat) :
    c ∉ fixed d n := by
  have hzero : c ≠ '0' := by
    rintro rfl
    cases hc
  unfold fixed List.leftpad
  simp only [List.mem_append, List.mem_cons, List.mem_replicate, not_mem_toDigits hc, hpoint, hzero,
    and_false, or_self, not_false_eq_true]

theorem fixed_ne_nil (d n : Nat) : fixed d n ≠ [] :=
  List.append_ne_nil_of_left_ne_nil Nat.toDigits_ne_nil _

end Text
