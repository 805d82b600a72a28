import Mathlib.Algebra.GroupWithZero.Nat
import Mathlib.Data.List.Forall2

/-!
# Byte layouts of records

A record is a list of field sizes in bytes; its fields are numbers in little-endian order.

* A compiler that aligns a field to its size leaves gaps. `view` reads the fields where it puts
  them, `assign` writes one in place.
* A marshaller writes `Item`s one after the other and leaves no gap of its own: the gaps are items.
  `marshal` writes the fields of a record, `unmarshal` reads them.

`explicit` is the list of items that names the gaps of the compiler. Of any bytes it then reads what
the compiler's code reads (`unmarshal_explicit`), so each side reads what the other wrote
(`holds_marshal`, `Holds.unmarshal_eq`).
-/

namespace Layout

/-! ## Little-endian numbers -/

/-- The `n` low bytes of a number, the lowest first. -/
def leBytes : Nat → Nat → List UInt8
  | 0, _ => []
  | n + 1, v => UInt8.ofNat v :: leBytes n (v / 256)

/-- The number of some bytes, the lowest first. -/
def ofLe : List UInt8 → Nat
  | [] => 0
  | b :: bs => b.toNat + 256 * ofLe bs

@[simp] theorem length_leBytes (n v : Nat) : (leBytes n v).length = n := by
  induction n generalizing v with
  | zero => rfl
  | succ n ih => simp [leBytes, ih]

theorem ofLe_leBytes {n v : Nat} (h : v < 256 ^ n) : ofLe (leBytes n v) = v := by
  induction n generalizing v with
  | zero => simp only [Nat.pow_zero] at h; simp only [leBytes, ofLe]; omega
  | succ n ih =>
    have hdiv : v / 256 < 256 ^ n := by
      rw [Nat.pow_succ] at h
      omega
    simp only [leBytes, ofLe, ih hdiv, UInt8.toNat_ofNat']
    omega

theorem leBytes_ofLe (bs : List UInt8) : leBytes bs.length (ofLe bs) = bs := by
  induction bs with
  | nil => rfl
  | cons b bs ih =>
    have hb := b.toNat_lt
    have hhead : UInt8.ofNat (b.toNat + 256 * ofLe bs) = b := by
      apply UInt8.toNat_inj.1
      rw [UInt8.toNat_ofNat']
      omega
    have htail : (b.toNat + 256 * ofLe bs) / 256 = ofLe bs := by omega
    simp only [List.length_cons, leBytes, ofLe, hhead, htail, ih]

/-! ## Bytes in place -/

/-- The number in the `n` bytes at `pos`. -/
def load (pos n : Nat) (bs : List UInt8) : Nat := ofLe ((bs.drop pos).take n)

/-- Write a number over the `n` bytes at `pos`. -/
def store (pos n v : Nat) (bs : List UInt8) : List UInt8 :=
  bs.take pos ++ leBytes n v ++ bs.drop (pos + n)

section Store

variable {pos n q m v : Nat} {bs : List UInt8}

theorem length_store (h : pos + n ≤ bs.length) : (store pos n v bs).length = bs.length := by
  simp only [store, List.length_append, List.length_take, length_leBytes, List.length_drop]
  omega

theorem load_store (h : pos + n ≤ bs.length) (hv : v < 256 ^ n) :
    load pos n (store pos n v bs) = v := by
  have hpos : (bs.take pos).length = pos := by rw [List.length_take]; omega
  unfold load store
  rw [List.append_assoc, List.drop_left' hpos, List.take_left' (length_leBytes n v),
    ofLe_leBytes hv]

theorem load_store_before (hq : q + m ≤ pos) (h : pos + n ≤ bs.length) :
    load q m (store pos n v bs) = load q m bs := by
  have hlen : q + m ≤ (bs.take pos).length := by rw [List.length_take]; omega
  unfold load store
  rw [List.append_assoc, List.take_drop, List.take_drop, List.take_append_of_le_length hlen,
    List.take_take, Nat.min_eq_left hq]

theorem load_store_after (hq : pos + n ≤ q) (h : pos + n ≤ bs.length) :
    load q m (store pos n v bs) = load q m bs := by
  have hlen : (bs.take pos ++ leBytes n v).length = pos + n := by
    rw [List.length_append, List.length_take, length_leBytes]
    omega
  unfold load store
  rw [List.drop_append, List.drop_eq_nil_of_le (by omega), hlen, List.nil_append, List.drop_drop,
    Nat.add_sub_cancel' hq]

end Store

/-! ## The compiler's layout -/

/-- The bytes skipped before a field of size `n`. -/
def padding (pos n : Nat) : Nat := (n - pos % n) % n

/-- Where the field lies: the first multiple of its size from `pos` on. -/
def alignUp (pos n : Nat) : Nat := pos + padding pos n

/-- The end of the last field. -/
def stop : (pos : Nat) → (ns : List Nat) → Nat
  | pos, [] => pos
  | pos, n :: ns => stop (alignUp pos n + n) ns

/-- A record is as long as it takes to align the next one of its kind. -/
def sizeof (ns : List Nat) : Nat := alignUp (stop 0 ns) (ns.foldr max 1)

/-- The fields, read where the compiler puts them. -/
def view : (pos : Nat) → (ns : List Nat) → List UInt8 → List Nat
  | _, [], _ => []
  | pos, n :: ns, bs => load (alignUp pos n) n bs :: view (alignUp pos n + n) ns bs

/-- Write field `i` in place. -/
def assign : (pos : Nat) → (ns : List Nat) → (i v : Nat) → List UInt8 → List UInt8
  | _, [], _, _, bs => bs
  | pos, n :: _, 0, v, bs => store (alignUp pos n) n v bs
  | pos, n :: ns, i + 1, v, bs => assign (alignUp pos n + n) ns i v bs

theorem le_alignUp (pos n : Nat) : pos ≤ alignUp pos n := Nat.le_add_right _ _

theorem le_stop (ns : List Nat) : ∀ pos, pos ≤ stop pos ns := by
  induction ns with
  | nil => intro pos; exact Nat.le_refl _
  | cons n ns ih =>
    intro pos
    have h₁ := le_alignUp pos n
    have h₂ := ih (alignUp pos n + n)
    simp only [stop]
    omega

theorem stop_le_sizeof (ns : List Nat) : stop 0 ns ≤ sizeof ns := le_alignUp _ _

theorem length_assign {ns : List Nat} {pos i v : Nat} {bs : List UInt8}
    (h : stop pos ns ≤ bs.length) : (assign pos ns i v bs).length = bs.length := by
  induction ns generalizing pos i with
  | nil => cases i <;> rfl
  | cons n ns ih =>
    cases i with
    | zero => exact length_store (Nat.le_trans (le_stop ns _) h)
    | succ i => exact ih h

theorem view_store {ns : List Nat} {pos q n v : Nat} {bs : List UInt8} (hq : q + n ≤ pos)
    (h : q + n ≤ bs.length) : view pos ns (store q n v bs) = view pos ns bs := by
  induction ns generalizing pos with
  | nil => rfl
  | cons m ns ih =>
    have hpos := le_alignUp pos m
    simp only [view]
    rw [load_store_after (by omega) h, ih (by omega)]

theorem load_assign {ns : List Nat} {pos q m i v : Nat} {bs : List UInt8} (hq : q + m ≤ pos)
    (h : stop pos ns ≤ bs.length) : load q m (assign pos ns i v bs) = load q m bs := by
  induction ns generalizing pos i with
  | nil => cases i <;> rfl
  | cons n ns ih =>
    have hpos := le_alignUp pos n
    cases i with
    | zero => exact load_store_before (by omega) (Nat.le_trans (le_stop ns _) h)
    | succ i => exact ih (by omega) h

/-- **A write in place** changes the field it writes and no other. -/
theorem view_assign {ns : List Nat} {pos i v : Nat} {bs : List UInt8}
    (h : stop pos ns ≤ bs.length) (hv : ∀ n ∈ ns[i]?, v < 256 ^ n) :
    view pos ns (assign pos ns i v bs) = (view pos ns bs).set i v := by
  induction ns generalizing pos i with
  | nil => rfl
  | cons n ns ih =>
    have hend := Nat.le_trans (le_stop ns _) h
    cases i with
    | zero =>
      simp only [view, assign, List.set_cons_zero]
      rw [load_store hend (hv n (by simp)), view_store (Nat.le_refl _) hend]
    | succ i =>
      simp only [view, assign, List.set_cons_succ]
      rw [load_assign (Nat.le_refl _) h, ih h hv]

/-! ## The marshaller's layout -/

/-- A field of `n` bytes, or `n` bytes that are no field. -/
inductive Item
  | field (n : Nat)
  | blank (n : Nat)
  deriving DecidableEq, Repr

/-- The sizes of the fields. -/
def fields : List Item → List Nat
  | [] => []
  | .field n :: is => n :: fields is
  | .blank _ :: is => fields is

/-- The bytes a record takes. -/
def size : List Item → Nat
  | [] => 0
  | .field n :: is => n + size is
  | .blank n :: is => n + size is

/-- Write the fields one after the other, and zeros for the blanks. -/
def marshal : List Item → List Nat → List UInt8
  | [], _ => []
  | .blank n :: is, vs => List.replicate n 0 ++ marshal is vs
  | .field n :: is, vs => leBytes n (vs.headD 0) ++ marshal is vs.tail

/-- Read the fields one after the other, and skip the blanks. -/
def unmarshal : List Item → List UInt8 → List Nat
  | [], _ => []
  | .blank n :: is, bs => unmarshal is (bs.drop n)
  | .field n :: is, bs => ofLe (bs.take n) :: unmarshal is (bs.drop n)

/-- Every number fits its field. -/
def Fits (ns vs : List Nat) : Prop := List.Forall₂ (fun n v => v < 256 ^ n) ns vs

@[simp] theorem length_marshal (is : List Item) : ∀ vs, (marshal is vs).length = size is := by
  induction is with
  | nil => intro vs; rfl
  | cons i is ih => intro vs; cases i <;> simp [marshal, size, ih]

theorem unmarshal_marshal {is : List Item} {vs : List Nat} (h : Fits (fields is) vs) :
    unmarshal is (marshal is vs) = vs := by
  induction is generalizing vs with
  | nil => cases h; rfl
  | cons i is ih =>
    cases i with
    | blank n =>
      simp only [marshal, unmarshal, List.drop_left' List.length_replicate]
      exact ih h
    | field n =>
      cases h with
      | cons hv hrest =>
        simp only [marshal, unmarshal, List.headD_cons, List.tail_cons,
          List.take_left' (length_leBytes _ _), List.drop_left' (length_leBytes _ _),
          ofLe_leBytes hv, ih hrest]

/-- Without blanks the bytes are determined by the fields. -/
theorem marshal_unmarshal {is : List Item} {bs : List UInt8} (hlen : bs.length = size is)
    (h : ∀ n, Item.blank n ∉ is) : marshal is (unmarshal is bs) = bs := by
  induction is generalizing bs with
  | nil => exact (List.length_eq_zero_iff.1 hlen).symm
  | cons i is ih =>
    cases i with
    | blank n => exact absurd List.mem_cons_self (h n)
    | field n =>
      simp only [size] at hlen
      have htake : (bs.take n).length = n := by rw [List.length_take]; omega
      have hrest : marshal is (unmarshal is (bs.drop n)) = bs.drop n :=
        ih (by rw [List.length_drop]; omega) fun m hm => h m (List.mem_cons_of_mem _ hm)
      have hhead := leBytes_ofLe (bs.take n)
      rw [htake] at hhead
      simp only [marshal, unmarshal, List.headD_cons, List.tail_cons, hrest, hhead,
        List.take_append_drop]

/-! ## The gaps named -/

/-- A gap of `n` bytes. -/
def blanks (n : Nat) : List Item := if n = 0 then [] else [.blank n]

/-- The items of a record of `total` bytes from `pos` on: its fields, and its gaps as blanks. -/
def explicit (total : Nat) : (pos : Nat) → (ns : List Nat) → List Item
  | pos, [] => blanks (total - pos)
  | pos, n :: ns => blanks (padding pos n) ++ .field n :: explicit total (alignUp pos n + n) ns

theorem unmarshal_blanks (n : Nat) (is : List Item) (bs : List UInt8) :
    unmarshal (blanks n ++ is) bs = unmarshal is (bs.drop n) := by
  unfold blanks
  split
  · next h => subst h; rfl
  · rfl

theorem fields_blanks (n : Nat) (is : List Item) : fields (blanks n ++ is) = fields is := by
  unfold blanks
  split <;> rfl

theorem size_blanks (n : Nat) (is : List Item) : size (blanks n ++ is) = n + size is := by
  unfold blanks
  split
  · next h => subst h; exact (Nat.zero_add _).symm
  · rfl

@[simp] theorem fields_explicit (total : Nat) (ns : List Nat) :
    ∀ pos, fields (explicit total pos ns) = ns := by
  induction ns with
  | nil => intro pos; rw [explicit, ← List.append_nil (blanks _), fields_blanks]; rfl
  | cons n ns ih => intro pos; rw [explicit, fields_blanks, fields, ih]

theorem size_explicit {total : Nat} {ns : List Nat} :
    ∀ {pos}, stop pos ns ≤ total → pos + size (explicit total pos ns) = total := by
  induction ns with
  | nil =>
    intro pos h
    rw [explicit, ← List.append_nil (blanks _), size_blanks]
    simp only [stop] at h
    simp only [size]
    omega
  | cons n ns ih =>
    intro pos h
    have hrest := ih h
    rw [explicit, size_blanks, size]
    unfold alignUp at hrest ⊢
    omega

/-- **The two readings agree**: with the gaps named, the marshaller reads of any bytes what the
compiler's code reads. -/
theorem unmarshal_explicit {total : Nat} {ns : List Nat} :
    ∀ {pos : Nat} {bs : List UInt8},
      unmarshal (explicit total pos ns) (bs.drop pos) = view pos ns bs := by
  induction ns with
  | nil =>
    intro pos bs
    rw [explicit, ← List.append_nil (blanks _), unmarshal_blanks]
    rfl
  | cons n ns ih =>
    intro pos bs
    rw [explicit, unmarshal_blanks, unmarshal, List.drop_drop, List.drop_drop]
    exact congrArg _ ih

/-! ## Records in memory -/

/-- The bytes are a record with these numbers in its fields. -/
structure Holds (ns vs : List Nat) (bs : List UInt8) : Prop where
  length_eq : bs.length = sizeof ns
  view_eq : view 0 ns bs = vs

/-- A record of zeros. -/
def zeroed (ns : List Nat) : List UInt8 := List.replicate (sizeof ns) 0

/-- The items of a whole record. -/
def items (ns : List Nat) : List Item := explicit (sizeof ns) 0 ns

variable {ns vs : List Nat} {bs : List UInt8}

theorem size_items (ns : List Nat) : size (items ns) = sizeof ns := by
  have h := size_explicit (stop_le_sizeof ns)
  rwa [Nat.zero_add] at h

theorem holds_zeroed (ns : List Nat) : Holds ns (List.replicate ns.length 0) (zeroed ns) := by
  have hofLe : ∀ n, ofLe (List.replicate n 0) = 0 := by
    intro n
    induction n with
    | zero => rfl
    | succ n ih => simp [List.replicate_succ, ofLe, ih]
  have hview : ∀ (ms : List Nat) pos,
      view pos ms (zeroed ns) = List.replicate ms.length 0 := by
    intro ms
    induction ms with
    | nil => intro pos; rfl
    | cons m ms ih =>
      intro pos
      simp only [view, ih, List.length_cons, List.replicate_succ]
      rw [load, zeroed, List.drop_replicate, List.take_replicate, hofLe]
  exact ⟨List.length_replicate, hview ns 0⟩

theorem Holds.assign (h : Holds ns vs bs) {i n v : Nat} (hi : ns[i]? = some n)
    (hv : v < 256 ^ n) : Holds ns (vs.set i v) (assign 0 ns i v bs) := by
  have hstop : stop 0 ns ≤ bs.length := h.length_eq ▸ stop_le_sizeof ns
  have hfits : ∀ m ∈ ns[i]?, v < 256 ^ m := by
    intro m hm
    cases hi.symm.trans hm
    exact hv
  exact ⟨(length_assign hstop).trans h.length_eq, by rw [view_assign hstop hfits, h.view_eq]⟩

/-- The compiler's code reads what the marshaller wrote. -/
theorem holds_marshal (h : Fits ns vs) : Holds ns vs (marshal (items ns) vs) where
  length_eq := by rw [length_marshal, size_items]
  view_eq := by
    have hfits : Fits (fields (items ns)) vs := by rwa [items, fields_explicit]
    rw [← unmarshal_explicit, List.drop_zero]
    exact unmarshal_marshal hfits

/-- The marshaller reads what the compiler's code wrote. -/
theorem Holds.unmarshal_eq (h : Holds ns vs bs) : unmarshal (items ns) bs = vs := by
  have hread : unmarshal (explicit (sizeof ns) 0 ns) (bs.drop 0) = view 0 ns bs :=
    unmarshal_explicit
  rw [List.drop_zero] at hread
  exact hread.trans h.view_eq

/-- Without gaps there is one record with given numbers, whoever wrote it. -/
theorem Holds.eq_marshal (h : Holds ns vs bs) (hgap : ∀ n, Item.blank n ∉ items ns) :
    bs = marshal (items ns) vs := by
  rw [← h.unmarshal_eq]
  exact (marshal_unmarshal (h.length_eq.trans (size_items ns).symm) hgap).symm

end Layout
