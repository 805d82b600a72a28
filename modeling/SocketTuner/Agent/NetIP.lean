import Mathlib.Algebra.GroupWithZero.Nat
import Mathlib.Data.List.Basic

/-!
# Go's textual IP addresses

`net.ParseIP`, `IP.To4` and `IP.String` of Go's standard library, as `ebpfmgr` uses them. An `IP`
is a slice of bytes; `nil` is the empty one. Parsing works on the characters of the string: every
character Go accepts is ASCII.
-/

namespace SocketTuner.Agent

/-- `net.IP` -/
abbrev IP := List UInt8

/-- A decimal digit. -/
def isDecDigit (c : Char) : Bool := '0' ≤ c && c ≤ '9'

/-- The loop of `parseIPv4Fields`. `fields` are the octets read so far, `digLen` and `val` the
number of digits and the value of the current one. -/
def parseIPv4Fields (s : List Char) (fields : List UInt8 := []) (digLen val : Nat := 0) :
    Option (List UInt8) :=
  match s with
  | [] =>
    -- an octet is missing, or the last one has no digit
    if fields.length < 3 ∨ digLen = 0 then none else some (fields ++ [UInt8.ofNat val])
  | c :: s =>
    if isDecDigit c then
      if digLen = 1 ∧ val = 0 then none -- leading zero
      else
        let val := val * 10 + (c.toNat - '0'.toNat)
        if val > 255 then none else parseIPv4Fields s fields (digLen + 1) val
    else if c = '.' then
      if digLen = 0 then none -- .1.2.3, 1..2.3
      else if fields.length = 3 then none -- 1.2.3.4.5
      else parseIPv4Fields s (fields ++ [UInt8.ofNat val]) 0 0
    else none

/-- The value of a hexadecimal digit. -/
def hexVal (c : Char) : Option Nat :=
  if isDecDigit c then some (c.toNat - '0'.toNat)
  else if 'a' ≤ c ∧ c ≤ 'f' then some (c.toNat - 'a'.toNat + 10)
  else if 'A' ≤ c ∧ c ≤ 'F' then some (c.toNat - 'A'.toNat + 10)
  else none

/-- The inner loop of `parseIPv6`: the digits of one group. Returns their number, their value and
what follows them. -/
def scanGroup (s : List Char) (off acc : Nat := 0) : Option (Nat × Nat × List Char) :=
  match s with
  | [] => some (off, acc, [])
  | c :: rest =>
    match hexVal c with
    | none => some (off, acc, s)
    | some v =>
      if off > 3 then none
      else if acc * 16 + v > 0xffff then none
      else scanGroup rest (off + 1) (acc * 16 + v)

/-- What follows the loop of `parseIPv6`: the whole string must be used, and an ellipsis must stand
for at least one group of zeros. -/
def finishIPv6 (ip : List UInt8) (ellipsis : Option Nat) (s : List Char) : Option (List UInt8) :=
  if s ≠ [] then none
  else if ip.length < 16 then
    ellipsis.map fun e => ip.take e ++ List.replicate (16 - ip.length) 0 ++ ip.drop e
  else if ellipsis.isSome then none
  else some ip

/-- The loop of `parseIPv6`, with `groups` two-byte groups still to fill. -/
def parseGroups : (groups : Nat) → (ip : List UInt8) → (ellipsis : Option Nat) → List Char →
    Option (List UInt8)
  | 0, ip, ellipsis, s => finishIPv6 ip ellipsis s
  | groups + 1, ip, ellipsis, s =>
    match scanGroup s with
    | none => none
    | some (off, acc, rest) =>
      if off = 0 then none
      else if rest.head? = some '.' then
        -- a trailing IPv4 address
        if ellipsis = none ∧ ip.length ≠ 12 then none
        else if ip.length + 4 > 16 then none
        else (parseIPv4Fields s).bind fun v4 => finishIPv6 (ip ++ v4) ellipsis []
      else
        let ip := ip ++ [UInt8.ofNat (acc / 256), UInt8.ofNat (acc % 256)]
        match rest with
        | [] => finishIPv6 ip ellipsis []
        | ':' :: [] => none
        | ':' :: ':' :: s =>
          if ellipsis.isSome then none
          else if s = [] then finishIPv6 ip (some ip.length) []
          else parseGroups groups ip (some ip.length) s
        | ':' :: s => parseGroups groups ip ellipsis s
        | _ => none

/-- `parseIPv6` without a zone: an ellipsis in front is stripped before the loop. -/
def parseIPv6 (s : List Char) : Option (List UInt8) :=
  match s with
  | ':' :: ':' :: [] => some (List.replicate 16 0)
  | ':' :: ':' :: s => parseGroups 8 [] (some 0) s
  | s => parseGroups 8 [] none s

/-- `net.ParseIP`: 16 bytes, or `nil`. The first of `.`, `:` and `%` decides the syntax; an address
with a zone is refused. -/
def parseIP (str : String) : IP :=
  let s := str.toList
  if '%' ∈ s then []
  else
    match s.find? fun c => c = '.' ∨ c = ':' with
    | some '.' =>
      match parseIPv4Fields s with
      | some v4 => List.replicate 10 0 ++ [0xff, 0xff] ++ v4
      | none => []
    | some _ => (parseIPv6 s).getD []
    | none => []

/-- `IP.To4`: the four bytes of an IPv4 address, or `nil`. -/
def to4 (ip : IP) : IP :=
  if ip.length = 4 then ip
  else if ip.length = 16 ∧ ip.take 12 = List.replicate 10 0 ++ [0xff, 0xff] then ip.drop 12
  else []

/-- `IP.String` of four bytes. -/
def ipString (b0 b1 b2 b3 : UInt8) : String :=
  toString b0.toNat ++ "." ++ toString b1.toNat ++ "." ++ toString b2.toNat ++ "." ++
    toString b3.toNat

/-- `binary.LittleEndian.Uint32`. -/
def leUint32 (b0 b1 b2 b3 : UInt8) : UInt32 :=
  b0.toUInt32 ||| (b1.toUInt32 <<< 8) ||| (b2.toUInt32 <<< 16) ||| (b3.toUInt32 <<< 24)

/-- `binary.LittleEndian.PutUint32`. -/
def lePutUint32 (x : UInt32) : UInt8 × UInt8 × UInt8 × UInt8 :=
  (x.toUInt8, (x >>> 8).toUInt8, (x >>> 16).toUInt8, (x >>> 24).toUInt8)

/-- The bits of `a` are below those of `b`. -/
theorem or_mul_two_pow {a : Nat} (i b : Nat) (h : a < 2 ^ i) : a ||| b * 2 ^ i = a + b * 2 ^ i := by
  rw [Nat.or_comm, Nat.mul_comm, ← Nat.two_pow_add_eq_or_of_lt h, Nat.add_comm]

theorem toNat_leUint32 (b0 b1 b2 b3 : UInt8) :
    (leUint32 b0 b1 b2 b3).toNat =
      b0.toNat + b1.toNat * 2 ^ 8 + b2.toNat * 2 ^ 16 + b3.toNat * 2 ^ 24 := by
  have h0 := b0.toNat_lt
  have h1 := b1.toNat_lt
  have h2 := b2.toNat_lt
  have h3 := b3.toNat_lt
  simp only [leUint32, UInt32.toNat_or, UInt32.toNat_shiftLeft, UInt8.toNat_toUInt32,
    Nat.shiftLeft_eq, UInt32.reduceToNat, Nat.reduceMod]
  rw [Nat.mod_eq_of_lt (by omega), Nat.mod_eq_of_lt (by omega), Nat.mod_eq_of_lt (by omega),
    or_mul_two_pow 8 _ (by omega), or_mul_two_pow 16 _ (by omega), or_mul_two_pow 24 _ (by omega)]

theorem leUint32_lePutUint32 (x : UInt32) :
    leUint32 (lePutUint32 x).1 (lePutUint32 x).2.1 (lePutUint32 x).2.2.1 (lePutUint32 x).2.2.2 =
      x := by
  have hx := x.toNat_lt
  rw [← UInt32.toNat_inj, toNat_leUint32]
  simp only [lePutUint32, UInt32.toNat_toUInt8, UInt32.toNat_shiftRight, Nat.shiftRight_eq_div_pow,
    UInt32.reduceToNat, Nat.reduceMod]
  omega

theorem lePutUint32_leUint32 (b0 b1 b2 b3 : UInt8) :
    lePutUint32 (leUint32 b0 b1 b2 b3) = (b0, b1, b2, b3) := by
  have h0 := b0.toNat_lt
  have h1 := b1.toNat_lt
  have h2 := b2.toNat_lt
  have h3 := b3.toNat_lt
  simp only [lePutUint32, Prod.mk.injEq, ← UInt8.toNat_inj, UInt32.toNat_toUInt8,
    UInt32.toNat_shiftRight, Nat.shiftRight_eq_div_pow, toNat_leUint32, UInt32.reduceToNat,
    Nat.reduceMod]
  omega

/-! ## Dotted quads -/

theorem isDecDigit_iff {c : Char} : isDecDigit c = true ↔ ∃ d < 10, c = Nat.digitChar d := by
  constructor
  · intro h
    obtain ⟨hlo, hhi⟩ : 48 ≤ c.toNat ∧ c.toNat ≤ 57 := by
      simpa [isDecDigit, Char.le_def, UInt32.le_iff_toNat_le] using h
    refine ⟨c.toNat - 48, by omega, Char.toNat_inj.1 ?_⟩
    rw [Nat.toNat_digitChar_of_lt_ten (by omega)]
    omega
  · rintro ⟨d, hd, rfl⟩
    revert d
    decide

/-- The octets in decimal, with dots between them. -/
def dotted : List UInt8 → List Char
  | [] => []
  | [b] => Nat.toDigits 10 b.toNat
  | b :: bs => Nat.toDigits 10 b.toNat ++ '.' :: dotted bs

theorem dotted_cons (b : UInt8) {bs : List UInt8} (h : bs ≠ []) :
    dotted (b :: bs) = Nat.toDigits 10 b.toNat ++ '.' :: dotted bs := by
  cases bs with
  | nil => exact absurd rfl h
  | cons _ _ => rfl

theorem toList_ipString (b0 b1 b2 b3 : UInt8) :
    (ipString b0 b1 b2 b3).toList = dotted [b0, b1, b2, b3] := by
  have hdot : ".".toList = ['.'] := rfl
  simp [ipString, dotted, hdot]

theorem mem_dotted {bs : List UInt8} {c : Char} (h : c ∈ dotted bs) :
    isDecDigit c = true ∨ c = '.' := by
  have hdig : ∀ b : UInt8, c ∈ Nat.toDigits 10 b.toNat → isDecDigit c = true := fun _ hc =>
    Nat.isDigit_of_mem_toDigits (by decide) (by decide) hc
  induction bs with
  | nil => cases h
  | cons b bs ih =>
    cases bs with
    | nil => exact .inl (hdig b h)
    | cons b' bs =>
      rw [dotted_cons b (List.cons_ne_nil _ _), List.mem_append, List.mem_cons] at h
      rcases h with h | h | h
      · exact .inl (hdig b h)
      · exact .inr h
      · exact ih h

/-! ### Reading -/

theorem parseIPv4Fields_digit {s : List Char} {fields : List UInt8} {digLen val d : Nat}
    (hd : d < 10) (hz : ¬(digLen = 1 ∧ val = 0)) (hval : val * 10 + d ≤ 255) :
    parseIPv4Fields (d.digitChar :: s) fields digLen val =
      parseIPv4Fields s fields (digLen + 1) (val * 10 + d) := by
  have hdig : isDecDigit d.digitChar = true := isDecDigit_iff.2 ⟨d, hd, rfl⟩
  have hsub : d.digitChar.toNat - '0'.toNat = d := Nat.toNat_digitChar_sub_48_of_lt_ten hd
  rw [parseIPv4Fields, if_pos hdig, if_neg hz, hsub, if_neg (by omega)]

theorem parseIPv4Fields_toDigits {n : Nat} : ∀ {s : List Char} {fields : List UInt8}, n ≤ 255 →
    parseIPv4Fields (Nat.toDigits 10 n ++ s) fields =
      parseIPv4Fields s fields (Nat.toDigits 10 n).length n := by
  induction n using Nat.strongRecOn with
  | _ n ih =>
    intro s fields hn
    by_cases hlt : n < 10
    · rw [Nat.toDigits_of_lt_base hlt, List.singleton_append,
        parseIPv4Fields_digit hlt (by omega) (by omega)]
      simp
    · have hmod : n / 10 * 10 + n % 10 = n := by omega
      rw [Nat.toDigits_of_base_le (by decide) (by omega), List.append_assoc, List.singleton_append,
        ih (n / 10) (by omega) (by omega),
        parseIPv4Fields_digit (by omega) (by omega) (by omega), hmod, List.length_append,
        List.length_singleton]

theorem parseIPv4Fields_dot {s : List Char} {fields : List UInt8} {digLen val : Nat}
    (hlen : digLen ≠ 0) (hfields : fields.length ≠ 3) :
    parseIPv4Fields ('.' :: s) fields digLen val =
      parseIPv4Fields s (fields ++ [UInt8.ofNat val]) := by
  have hdot : isDecDigit '.' = false := by decide
  rw [parseIPv4Fields, hdot, if_neg Bool.false_ne_true, if_pos rfl, if_neg hlen, if_neg hfields]

/-- Octets are read as they are written, up to the fourth. -/
theorem parseIPv4Fields_dotted {bs : List UInt8} : ∀ {fields : List UInt8}, bs ≠ [] →
    fields.length + bs.length = 4 → parseIPv4Fields (dotted bs) fields = some (fields ++ bs) := by
  induction bs with
  | nil => exact fun h => absurd rfl h
  | cons b bs ih =>
    intro fields _ hlen
    have hpos : (Nat.toDigits 10 b.toNat).length ≠ 0 :=
      Nat.ne_of_gt Nat.length_toDigits_pos
    have hb : b.toNat ≤ 255 := Nat.le_of_lt_succ b.toNat_lt
    rw [List.length_cons] at hlen
    by_cases hbs : bs = []
    · subst hbs
      have h3 : ¬(fields.length < 3 ∨ (Nat.toDigits 10 b.toNat).length = 0) := by
        rw [List.length_nil] at hlen
        omega
      have hread : parseIPv4Fields (Nat.toDigits 10 b.toNat ++ []) fields =
          parseIPv4Fields [] fields (Nat.toDigits 10 b.toNat).length b.toNat :=
        parseIPv4Fields_toDigits hb
      rw [List.append_nil] at hread
      rw [dotted, hread, parseIPv4Fields, if_neg h3, UInt8.ofNat_toNat]
    · have hne : fields.length ≠ 3 := by
        have := List.length_pos_of_ne_nil hbs
        omega
      rw [dotted_cons b hbs, parseIPv4Fields_toDigits hb, parseIPv4Fields_dot hpos hne,
        UInt8.ofNat_toNat, ih hbs (by simp; omega), List.append_assoc, List.singleton_append]

/-! ### What is read -/

/-- The characters of the current octet: none yet, or its digits. -/
def Octet (cur : List Char) (digLen val : Nat) : Prop :=
  cur.length = digLen ∧ val ≤ 255 ∧
    if cur = [] then val = 0 else cur = Nat.toDigits 10 val

theorem octet_nil : Octet [] 0 0 := ⟨rfl, Nat.zero_le _, by rw [if_pos rfl]⟩

/-- Without a leading zero, the digits are those of the value. -/
theorem Octet.digit {cur : List Char} {digLen val d : Nat} (h : Octet cur digLen val) (hd : d < 10)
    (hz : ¬(digLen = 1 ∧ val = 0)) (hval : val * 10 + d ≤ 255) :
    Octet (cur ++ [d.digitChar]) (digLen + 1) (val * 10 + d) := by
  obtain ⟨hlen, -, hcur⟩ := h
  refine ⟨by rw [List.length_append, hlen, List.length_singleton], hval, ?_⟩
  rw [if_neg (by simp)]
  split at hcur
  · next hnil => rw [hnil, hcur, Nat.zero_mul, Nat.zero_add, Nat.toDigits_of_lt_base hd]; rfl
  · have hpos : 0 < val := by
      refine Nat.pos_of_ne_zero fun h0 => hz ⟨?_, h0⟩
      rw [← hlen, hcur, h0]
      rfl
    rw [Nat.mul_comm val 10, ← Nat.toDigits_append_toDigits (by decide) hpos hd,
      Nat.toDigits_of_lt_base hd, ← hcur]

theorem parseIPv4Fields_inv {s : List Char} : ∀ {fields bs : List UInt8} {cur : List Char}
    {digLen val : Nat}, Octet cur digLen val → fields.length ≤ 3 →
    parseIPv4Fields s fields digLen val = some bs →
    ∃ tail, bs = fields ++ tail ∧ fields.length + tail.length = 4 ∧ cur ++ s = dotted tail := by
  have hbyte : ∀ val ≤ 255, (UInt8.ofNat val).toNat = val := fun val h =>
    UInt8.toNat_ofNat_of_lt' (Nat.lt_succ_of_le h)
  induction s with
  | nil =>
    intro fields bs cur digLen val ⟨hlen, hval, hcur⟩ hfields h
    rw [parseIPv4Fields] at h
    split at h
    · cases h
    · next hdone =>
      rw [not_or] at hdone
      cases h
      have hne : cur ≠ [] := fun hnil => hdone.2 (by rw [← hlen, hnil]; rfl)
      rw [if_neg hne] at hcur
      refine ⟨[UInt8.ofNat val], rfl, by simp; omega, ?_⟩
      rw [List.append_nil, dotted, hbyte val hval, hcur]
  | cons c s ih =>
    intro fields bs cur digLen val hoct hfields h
    rw [parseIPv4Fields] at h
    split at h
    · next hdig =>
      obtain ⟨d, hd, rfl⟩ := isDecDigit_iff.1 hdig
      rw [show d.digitChar.toNat - '0'.toNat = d from Nat.toNat_digitChar_sub_48_of_lt_ten hd] at h
      split at h
      · cases h
      · next hz =>
        dsimp only at h
        split at h
        · cases h
        · next hval =>
          obtain ⟨tail, hbs, hcount, htail⟩ := ih (hoct.digit hd hz (by omega)) hfields h
          exact ⟨tail, hbs, hcount, by rw [← htail, List.append_assoc, List.singleton_append]⟩
    · split at h
      · next hdot =>
        subst hdot
        split at h
        · cases h
        · next hne =>
          split at h
          · cases h
          · next h3 =>
            obtain ⟨hlen, hval, hcur⟩ := hoct
            rw [if_neg fun hnil => hne (by rw [← hlen, hnil]; rfl)] at hcur
            obtain ⟨tail, rfl, hcount, htail⟩ := ih octet_nil (by simp; omega) h
            rw [List.length_append, List.length_singleton] at hcount
            have hcons : tail ≠ [] := fun hnil => h3 (by
              rw [hnil, List.length_nil] at hcount
              omega)
            refine ⟨UInt8.ofNat val :: tail, by simp, by rw [List.length_cons]; omega, ?_⟩
            rw [dotted_cons _ hcons, hbyte val hval, ← htail, ← hcur, List.nil_append]
      · cases h

/-! ### `ParseIP` and `String` -/

theorem to4_mapped {v4 : List UInt8} (h : v4.length = 4) :
    to4 (List.replicate 10 0 ++ [0xff, 0xff] ++ v4) = v4 := by
  match v4, h with
  | [b0, b1, b2, b3], _ => rfl

/-- Without a colon the first separator is a dot, if there is one. -/
theorem find_separator {s : List Char} (h : ':' ∉ s) :
    (s.find? fun c => c = '.' ∨ c = ':') = if '.' ∈ s then some '.' else none := by
  induction s with
  | nil => rfl
  | cons c s ih =>
    rw [List.mem_cons, not_or] at h
    by_cases hc : c = '.'
    · subst hc
      simp
    · have hneg : decide (c = '.' ∨ c = ':') = false := by simp [hc, Ne.symm h.1]
      rw [List.find?_cons, hneg, ih h.2]
      simp [Ne.symm hc]

/-- An address is read back from its string. -/
theorem to4_parseIP_ipString (b0 b1 b2 b3 : UInt8) :
    to4 (parseIP (ipString b0 b1 b2 b3)) = [b0, b1, b2, b3] := by
  have hmem : ∀ c ∈ (ipString b0 b1 b2 b3).toList, isDecDigit c = true ∨ c = '.' := fun c hc =>
    mem_dotted (toList_ipString b0 b1 b2 b3 ▸ hc)
  have hpercent : '%' ∉ (ipString b0 b1 b2 b3).toList := fun h => absurd (hmem _ h) (by decide)
  have hcolon : ':' ∉ (ipString b0 b1 b2 b3).toList := fun h => absurd (hmem _ h) (by decide)
  have hdot : '.' ∈ (ipString b0 b1 b2 b3).toList := by simp [toList_ipString, dotted]
  have hread : parseIPv4Fields (ipString b0 b1 b2 b3).toList = some [b0, b1, b2, b3] := by
    rw [toList_ipString, parseIPv4Fields_dotted (List.cons_ne_nil _ _) rfl, List.nil_append]
  simp only [parseIP, if_neg hpercent, find_separator hcolon, if_pos hdot, hread]
  exact to4_mapped rfl

/-- A string without a colon that is read as an address is its string. -/
theorem eq_ipString_of_parseIP {ip : String} {b0 b1 b2 b3 : UInt8} (hcolon : ':' ∉ ip.toList)
    (h : to4 (parseIP ip) = [b0, b1, b2, b3]) : ip = ipString b0 b1 b2 b3 := by
  have hnil : to4 [] = [] := rfl
  unfold parseIP at h
  simp only [find_separator hcolon] at h
  split at h
  · rw [hnil] at h
    cases h
  · by_cases hdot : '.' ∈ ip.toList
    · simp only [if_pos hdot] at h
      cases hv4 : parseIPv4Fields ip.toList with
      | none =>
        rw [hv4] at h
        cases h
      | some v4 =>
        obtain ⟨tail, rfl, hlen, htail⟩ :=
          parseIPv4Fields_inv octet_nil (Nat.zero_le _) hv4
        simp only [hv4] at h
        rw [to4_mapped (by simpa using hlen)] at h
        rw [← String.toList_inj, toList_ipString, ← h, ← htail, List.nil_append]
    · simp only [if_neg hdot] at h
      cases h

end SocketTuner.Agent
