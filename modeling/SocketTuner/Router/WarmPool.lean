import SocketTuner.Router.Scaler

/-!
# The warm pool target

`env-router/main.go` takes the target of the scaler from the environment, unchecked: it is any
`int`. `reconcile` compares the number of replicas it wants, an `int`, with the `int32` of the
deployment and narrows it only to write it. So it writes what it wants, at least one, and only once,
exactly as long as that fits an `int32` (`scales_exactly_iff`). A target of 2^32 scales an idle
deployment to zero, over and over (`huge_target_scales_to_zero`).
-/

namespace SocketTuner.Router

open GoMap Prog AutoScaler

/-! ## Configuration -/

/-- Decimal digits, at least one. -/
def decDigits (ds : List Char) : Option Nat :=
  if ds ≠ [] ∧ ds.all Char.isDigit then some (Nat.ofDigitChars 10 ds 0) else none

/-- A number in the range of an `int`. -/
def inRange (n : Int) : Option Int64 := if -2 ^ 63 ≤ n ∧ n < 2 ^ 63 then some (.ofInt n) else none

/-- `strconv.Atoi`, without the text of its error. -/
def atoi (s : String) : Option Int64 :=
  match s.toList with
  | '-' :: ds => (decDigits ds).bind fun n => inRange (-n)
  | '+' :: ds => (decDigits ds).bind fun n => inRange n
  | ds => (decDigits ds).bind fun n => inRange n

/-- `envIntOrDefault`: what is no number counts as not set. -/
def envIntOrDefault (getenv : String → String) (key : String) (fallback : Int64) : Int64 :=
  let v := getenv key
  if v = "" then fallback
  else
    match atoi v with
    | none => fallback -- the error is only logged
    | some n => n

/-- The target `main` starts the scaler with. -/
def warmPoolSize (getenv : String → String) : Int64 := envIntOrDefault getenv "WARM_POOL_SIZE" 1

theorem decDigits_toDigits (n : Nat) : decDigits (Nat.toDigits 10 n) = some n := by
  have hall : (Nat.toDigits 10 n).all Char.isDigit = true :=
    List.all_eq_true.2 fun _ hc => Nat.isDigit_of_mem_toDigits (by decide) (by decide) hc
  rw [decDigits, if_pos ⟨Nat.toDigits_ne_nil, hall⟩, Nat.ofDigitChars_ten_toDigits]

theorem atoi_repr (n : Nat) : atoi n.repr = inRange n := by
  have hdig : ∀ c ∈ Nat.toDigits 10 n, c.isDigit = true := fun _ hc =>
    Nat.isDigit_of_mem_toDigits (by decide) (by decide) hc
  unfold atoi
  rw [Nat.toList_repr]
  split
  · next ds heq => exact absurd (hdig '-' (heq ▸ List.mem_cons_self)) (by decide)
  · next ds heq => exact absurd (hdig '+' (heq ▸ List.mem_cons_self)) (by decide)
  · rw [decDigits_toDigits, Option.bind_some]

theorem inRange_toInt (w : Int64) : inRange w.toInt = some w := by
  rw [inRange, if_pos ⟨w.le_toInt, w.toInt_lt⟩, Int64.ofInt_toInt]

theorem atoi_toString (w : Int64) : atoi (toString w.toInt) = some w := by
  rw [Int.toString_eq_repr, Int.repr_eq_if]
  by_cases hw : 0 ≤ w.toInt
  · rw [if_pos hw, atoi_repr, Int.toNat_of_nonneg hw, inRange_toInt]
  · have hneg : -((-w.toInt).toNat : Int) = w.toInt := by omega
    rw [if_neg hw]
    have hlist : ("-" ++ (-w.toInt).toNat.repr).toList =
        '-' :: Nat.toDigits 10 (-w.toInt).toNat := by
      rw [String.toList_append, Nat.toList_repr]
      rfl
    rw [atoi, hlist]
    simp only [decDigits_toDigits, Option.bind_some, hneg, inRange_toInt]

/-- The environment can ask for any `int`. -/
theorem exists_warmPoolSize (w : Int64) : ∃ getenv, warmPoolSize getenv = w := by
  refine ⟨fun _ => toString w.toInt, ?_⟩
  have hne : toString w.toInt ≠ "" := by
    intro h
    have hw := atoi_toString w
    rw [h] at hw
    cases hw
  rw [warmPoolSize, envIntOrDefault, if_neg hne, atoi_toString]

/-! ## What the scaler writes -/

/-- What a `reconcile` on its own writes to a deployment with `n` replicas is what the busy agents
and the target need, at least one, and once it is there the next `reconcile` writes nothing. -/
def ScalesExactly (w : Int64) (p : Pool) (n : Int32) : Prop :=
  ∀ tr s', Exec ScalerStep (fun _ _ => False) (reconcile w) (p, n) tr () s' →
    ∀ x ∈ tr, ∀ m, x.lab.1 = .updateScale m →
      1 ≤ m.toInt ∧ m.toInt = max 1 (p.busyCount + w.toInt) ∧
      ∀ tr' s'', Exec ScalerStep (fun _ _ => False) (reconcile w) (p, m) tr' () s'' →
        ∀ y ∈ tr', ∀ m', y.lab.1 ≠ .updateScale m'

/-- A `reconcile` that finds another number of replicas asks for the one it wants. -/
theorem exists_reconcile {p : Pool} {w : Int64} {n : Int32} (hp : PoolInv p)
    (hne : desiredReplicas 0 (.ofNat p.busyCount) w ≠ n.toInt64) :
    ∃ tr s', Exec ScalerStep (fun _ _ => False) (reconcile w) (p, n) tr () s' ∧
      ∃ x ∈ tr, x.lab.1 = .updateScale (desiredReplicas 0 (.ofNat p.busyCount) w).toInt32 := by
  obtain ⟨order, ho⟩ := exists_isRange p.agents
  rw [← hp.desiredReplicas_eq ho w] at hne ⊢
  have hfree : PoolStep p ⟨.freeCount, p.freeCount order⟩ p := ⟨{ order }, ho, rfl⟩
  have htotal : PoolStep p ⟨.totalCount, p.totalCount⟩ p := ⟨{ order }, ho, rfl⟩
  generalize hd : desiredReplicas (.ofNat (p.freeCount order)) (.ofNat p.totalCount) w = d at hne ⊢
  have hrest : Exec ScalerStep (fun _ _ => False)
      (if desiredReplicas (.ofNat (p.freeCount order)) (.ofNat p.totalCount) w = n.toInt64 then
        .ret ()
      else .op (.updateScale (desiredReplicas (.ofNat (p.freeCount order))
        (.ofNat p.totalCount) w).toInt32) fun _ => .ret ())
      (p, n) [⟨(p, n), ⟨.updateScale d.toInt32, (none : Option String)⟩, (p, d.toInt32)⟩] ()
      (p, d.toInt32) := by
    rw [hd, if_neg hne]
    exact .op (.updateScale p n _) (.ret () _)
  refine ⟨_, _, .op (.pool hfree) (.op (.pool htotal) (.op (.getScale p n) hrest)),
    ⟨(p, n), ⟨.updateScale d.toInt32, (none : Option String)⟩, (p, d.toInt32)⟩, ?_, rfl⟩
  simp only [List.mem_cons, true_or, or_true]

/-- **When the scaler writes what it wants.** The replicas it writes are the larger of one and the
busy agents plus the target, and are written once, exactly when that sum fits an `int32`, or when
it does not even fit an `int` and there is one replica, so that nothing is written. -/
theorem scales_exactly_iff {p : Pool} {w : Int64} {n : Int32} (hreach : PoolReachable p)
    (hlen : p.totalCount < 2 ^ 63) :
    ScalesExactly w p n ↔
      p.busyCount + w.toInt < 2 ^ 31 ∨ 2 ^ 63 ≤ p.busyCount + w.toInt ∧ n = 1 := by
  have hp := hreach.inv
  have hd := hp.toInt_desiredReplicas hlen w
  have hn := n.toInt_lt
  constructor
  · intro h
    by_contra hcond
    rw [not_or, not_lt, not_and] at hcond
    obtain ⟨hbig, hone⟩ := hcond
    have hne : desiredReplicas 0 (.ofNat p.busyCount) w ≠ n.toInt64 := by
      intro heq
      rw [heq, Int32.toInt_toInt64] at hd
      split at hd
      · omega
      · exact hone (by omega) (Int32.toInt_inj.1 hd)
    obtain ⟨tr, s', hexec, x, hx, hm⟩ := exists_reconcile hp hne
    have hval := (h tr s' hexec x hx _ hm).2.1
    have hlt := (desiredReplicas 0 (.ofNat p.busyCount) w).toInt32.toInt_lt
    omega
  · intro hcond tr s' hexec x hx m hm
    obtain ⟨hne, rfl⟩ := reconcile_updates hp hexec x hx m hm
    rcases hcond with hsmall | ⟨hbig, rfl⟩
    · rw [if_pos (by omega)] at hd
      -- the narrowing keeps the number
      have hnarrow : (desiredReplicas 0 (.ofNat p.busyCount) w).toInt32.toInt =
          (desiredReplicas 0 (.ofNat p.busyCount) w).toInt := by
        rw [Int64.toInt_toInt32]
        exact Int.bmod_eq_of_le (by omega) (by omega)
      refine ⟨by omega, by omega, fun tr' s'' hexec' y hy m' hm' => ?_⟩
      refine (reconcile_updates hp hexec' y hy m' hm').1 (Int64.toInt_inj.1 ?_)
      rw [Int32.toInt_toInt64, hnarrow]
    · rw [if_neg (by omega)] at hd
      exact absurd (Int64.toInt_inj.1 (hd.trans (by decide))) hne

/-- One agent is leased, and one is to be kept warm: two replicas. -/
theorem scales_exactly_leased : ScalesExactly 1 leasedPool 1 :=
  (scales_exactly_iff leasedPool_reachable (by decide)).2 (.inl (by decide))

/-- An environment with the target 2^32. -/
def hugeEnv (key : String) : String := if key = "WARM_POOL_SIZE" then "4294967296" else ""

/-- With no agents leased the scaler writes zero replicas. -/
theorem huge_target_scales_to_zero :
    warmPoolSize hugeEnv = 4294967296 ∧ PoolReachable Pool.newPool ∧
    (∃ tr s', Exec ScalerStep (fun _ _ => False) (reconcile (warmPoolSize hugeEnv))
      (Pool.newPool, 1) tr () s' ∧ ∃ x ∈ tr, x.lab.1 = .updateScale 0) ∧
    ¬ScalesExactly (warmPoolSize hugeEnv) Pool.newPool 1 := by
  have hw : warmPoolSize hugeEnv = 4294967296 := by decide
  have hreach : PoolReachable Pool.newPool := ⟨[], .nil _⟩
  obtain ⟨tr, s', hexec, x, hx, hm⟩ :=
    exists_reconcile (p := Pool.newPool) (w := 4294967296) (n := 1) hreach.inv (by decide)
  have hzero : x.lab.1 = .updateScale 0 := hm
  rw [hw]
  exact ⟨rfl, hreach, ⟨tr, s', hexec, x, hx, hzero⟩,
    fun h => absurd (h tr s' hexec x hx 0 hzero).1 (by decide)⟩

end SocketTuner.Router
