import Mathlib.Algebra.GroupWithZero.Nat
import SocketTuner.Router.Snapshots

/-!
# The auto-scaler

`env-router/internal/k8s/scaler.go`. `reconcile` reads the two counts of the pool under two
acquisitions of its mutex, then the scale of the deployment, and asks for another number of
replicas if it wants one. A Go `int` is an `Int64`, the replicas of a deployment are an `Int32`.

* Between the two reads the pool may change. What `reconcile` takes for the number of busy agents
  is then off by the entries gained and lost in between (`desired_covers_leases_iff`): when idle
  agents are removed it asks for fewer replicas than there are leased agents
  (`removal_between_reads_undercounts`).
* With both counts read from one pool, the scaler and a sync with as many endpoints as it asked for
  reach the target and stay there, as long as the sum fits an `int` (`reaches_target_iff`).
-/

namespace SocketTuner.Router

open GoMap LeaseTable Prog

/-- What the scaler calls: the pool, and the scale of the deployment. -/
inductive ScalerCmd
  | pool (c : PoolCmd)
  /-- `GetScale`, for `Spec.Replicas`. -/
  | getScale
  | updateScale (replicas : Int32)

/-- What a call returns. -/
def ScalerCmd.Ret : ScalerCmd → Type
  | .pool c => c.Ret
  | .getScale => Except String Int32
  | .updateScale _ => Option String

/-- A program of the scaler. -/
abbrev ScalerProg := Prog ScalerCmd ScalerCmd.Ret

namespace AutoScaler

/-- `as.pool.FreeCount()` -/
def freeCount : ScalerProg Nat := call (ScalerCmd.pool .freeCount)
/-- `as.pool.TotalCount()` -/
def totalCount : ScalerProg Nat := call (ScalerCmd.pool .totalCount)
/-- `GetScale(ctx, as.deploymentName, …)` -/
def getScale : ScalerProg (Except String Int32) := call ScalerCmd.getScale
/-- `UpdateScale(ctx, as.deploymentName, scale, …)` -/
def updateScale (replicas : Int32) : ScalerProg (Option String) :=
  call (ScalerCmd.updateScale replicas)

/-- The replicas `reconcile` asks for, in the arithmetic of an `int`. -/
def desiredReplicas (freeCount totalCount warmPoolSize : Int64) : Int64 :=
  let busyCount := totalCount - freeCount
  let desiredReplicas := busyCount + warmPoolSize
  if desiredReplicas < 1 then 1 -- never scale to zero
  else desiredReplicas

/-- Scales the deployment to the busy agents and the warm pool, if it is not there yet. -/
def reconcile (warmPoolSize : Int64) : ScalerProg Unit := do
  let freeCount ← freeCount
  let totalCount ← totalCount
  match ← getScale with
  | .error _ => pure ()
  | .ok replicas =>
    let currentReplicas := replicas.toInt64
    let desired := desiredReplicas (.ofNat freeCount) (.ofNat totalCount) warmPoolSize
    if desired = currentReplicas then pure ()
    else
      -- an error is only logged
      let _ ← updateScale desired.toInt32
      pure ()

/-- Dynamically updates the warm pool target. -/
def setWarmPoolSize (size warmPoolSize : Int64) : Option String × Int64 :=
  if size < 0 then (some s!"warm pool size must be >= 0, got {size}", warmPoolSize)
  else (none, size)

/-- The target stays non-negative. -/
theorem setWarmPoolSize_nonneg {warmPoolSize : Int64} (h : 0 ≤ warmPoolSize) (size : Int64) :
    0 ≤ (setWarmPoolSize size warmPoolSize).2 := by
  unfold setWarmPoolSize
  split
  · exact h
  · next hs => exact Int64.not_lt.1 hs

theorem reconcile_decides (warmPoolSize : Int64) (free total : Nat) (replicas : Int32) :
    After (reconcile warmPoolSize)
      [⟨.pool .freeCount, free⟩, ⟨.pool .totalCount, total⟩, ⟨.getScale, Except.ok replicas⟩]
      (if desiredReplicas (.ofNat free) (.ofNat total) warmPoolSize = replicas.toInt64 then .ret ()
       else .op (.updateScale
        (desiredReplicas (.ofNat free) (.ofNat total) warmPoolSize).toInt32) fun _ => .ret ()) := by
  have h : After (reconcile warmPoolSize)
      [⟨.pool .freeCount, free⟩, ⟨.pool .totalCount, total⟩, ⟨.getScale, Except.ok replicas⟩] _ :=
    .cons (.cons (.cons (.nil _)))
  exact h

/-- The replicas wanted, unless the sum wraps around. -/
theorem toInt_desiredReplicas {free total : Nat} {w : Int64} (hf : free < 2 ^ 63)
    (ht : total < 2 ^ 63) (hlow : -2 ^ 63 ≤ (total : Int) - free + w.toInt) :
    (desiredReplicas (.ofNat free) (.ofNat total) w).toInt =
      if (total : Int) - free + w.toInt < 2 ^ 63 then max 1 (total - free + w.toInt) else 1 := by
  have hwlt := w.toInt_lt
  have hsub : (Int64.ofNat total - Int64.ofNat free).toInt = (total : Int) - free := by
    rw [Int64.toInt_sub, Int64.toInt_ofNat_of_lt ht, Int64.toInt_ofNat_of_lt hf]
    exact Int.bmod_eq_of_le (by omega) (by omega)
  have hadd : (Int64.ofNat total - Int64.ofNat free + w).toInt =
      if (total : Int) - free + w.toInt < 2 ^ 63 then total - free + w.toInt
      else total - free + w.toInt - 2 ^ 64 := by
    rw [Int64.toInt_add, hsub]
    split
    · exact Int.bmod_eq_of_le (by omega) (by omega)
    · rw [← Int.sub_bmod_right]
      exact Int.bmod_eq_of_le (by omega) (by omega)
  simp only [desiredReplicas, Int64.lt_iff_toInt_lt, Int64.toInt_one, apply_ite Int64.toInt, hadd]
  split <;> split <;> omega

end AutoScaler

open AutoScaler

/-! ## The pool changes between the two reads -/

/-- The calls of a run, oldest first. -/
abbrev PoolTrace := List (Lts.Trans Pool PoolEvent)

/-- The smallest number of busy agents from `p` on. -/
def minBusy (p : Pool) (tr : PoolTrace) : Nat :=
  tr.foldl (fun n x => min n x.dst.busyCount) p.busyCount

/-- How many entries the calls of a run created. -/
def gained (tr : PoolTrace) : Nat :=
  (tr.map fun x => (x.dst.agents.keys \ x.src.agents.keys).card).sum

/-- How many entries the calls of a run deleted. -/
def lost (tr : PoolTrace) : Nat :=
  (tr.map fun x => (x.src.agents.keys \ x.dst.agents.keys).card).sum

/-- The entries gained and lost over a run account for the change of the total. -/
theorem totalCount_add_lost {p p' : Pool} {tr : PoolTrace} (h : Lts.Run PoolStep p tr p') :
    p'.totalCount + lost tr = p.totalCount + gained tr := by
  induction h with
  | nil => rfl
  | @cons p q u e tr hs hr ih =>
    have hstep : q.totalCount + (p.agents.keys \ q.agents.keys).card =
        p.totalCount + (q.agents.keys \ p.agents.keys).card := by
      have h₁ := Finset.card_sdiff_add_card p.agents.keys q.agents.keys
      have h₂ := Finset.card_sdiff_add_card q.agents.keys p.agents.keys
      rw [Finset.union_comm] at h₂
      unfold Pool.totalCount
      omega
    simp only [lost, gained, List.map_cons, List.sum_cons] at ih ⊢
    omega

/-- **When the scaler covers the leases.** Between its two reads it counts at least `warmPoolSize`
and the leases that last throughout exactly when the pool does not lose more entries than it gains,
but for those whose leases ended, and the sum fits an `int`; or when one replica is enough. -/
theorem desired_covers_leases_iff {p₁ p₂ : Pool} {tr : PoolTrace} {order : List Addr} {w : Int64}
    (hreach : PoolReachable p₁) (hrun : Lts.Run PoolStep p₁ tr p₂) (ho : IsRange p₁.agents order)
    (hw : 0 ≤ w) (h₁ : p₁.totalCount < 2 ^ 63) (h₂ : p₂.totalCount < 2 ^ 63) :
    w.toInt + minBusy p₁ tr ≤
        (desiredReplicas (.ofNat (p₁.freeCount order)) (.ofNat p₂.totalCount) w).toInt ↔
      (lost tr + minBusy p₁ tr ≤ gained tr + p₁.busyCount ∧
        w.toInt + p₁.busyCount + gained tr < 2 ^ 63 + lost tr) ∨
      w.toInt + minBusy p₁ tr ≤ 1 := by
  have htotal := totalCount_add_lost hrun
  have hfree : p₁.freeCount order + p₁.busyCount = p₁.totalCount := by
    rw [Pool.freeCount_eq ho]
    exact hreach.inv.free_add_busy
  have hw' : 0 ≤ w.toInt := Int64.le_iff_toInt_le.1 hw
  rw [toInt_desiredReplicas (by omega) h₂ (by omega)]
  split <;> omega

/-- An agent joins between the reads. -/
def joinCalls : List (Outside × PoolCmd) :=
  [({ order := ["10.0.0.7:50051"] }, .addAgent "10.0.0.8:50051")]

theorem joinCalls_ok : leasedPool.OrdersOk joinCalls := ⟨by decide, trivial⟩

theorem desired_covers_leases_joining :
    (1 : Int64).toInt + minBusy leasedPool (leasedPool.calls joinCalls).1 ≤
      (desiredReplicas (.ofNat (leasedPool.freeCount ["10.0.0.7:50051"]))
        (.ofNat (leasedPool.calls joinCalls).2.totalCount) 1).toInt :=
  (desired_covers_leases_iff leasedPool_reachable (Pool.run_calls joinCalls_ok) (by decide)
    (by decide) (by decide) (by decide)).2 (by decide)

/-- Two agents are leased, a third joins. -/
def threeCalls : List (Outside × PoolCmd) :=
  relockCalls.take 2 ++
  [({ order := ["10.0.0.7:50051"] }, .addAgent "10.0.0.8:50051"),
   ({ order := ["10.0.0.7:50051", "10.0.0.8:50051"] }, .lockFreeAgent),
   ({ order := ["10.0.0.7:50051", "10.0.0.8:50051"] }, .addAgent "10.0.0.9:50051")]

/-- The pool with two agents leased and one idle. -/
def threePool : Pool := (Pool.newPool.calls threeCalls).2

theorem threePool_reachable : PoolReachable threePool :=
  ⟨_, Pool.run_calls ⟨by decide, by decide, by decide, by decide, by decide, trivial⟩⟩

/-- The idle agent vanishes between the reads. -/
def vanishCalls : List (Outside × PoolCmd) :=
  [({ order := ["10.0.0.7:50051", "10.0.0.8:50051", "10.0.0.9:50051"] },
    .removeAgentsNotIn {"10.0.0.7:50051", "10.0.0.8:50051"})]

/-- The scaler then wants one replica for two leased agents. -/
theorem removal_between_reads_undercounts :
    PoolReachable threePool ∧
    Lts.Run PoolStep threePool (threePool.calls vanishCalls).1 (threePool.calls vanishCalls).2 ∧
    ¬((0 : Int64).toInt + minBusy threePool (threePool.calls vanishCalls).1 ≤
      (desiredReplicas
        (.ofNat (threePool.freeCount ["10.0.0.7:50051", "10.0.0.8:50051", "10.0.0.9:50051"]))
        (.ofNat (threePool.calls vanishCalls).2.totalCount) 0).toInt) :=
  ⟨threePool_reachable, Pool.run_calls ⟨by decide, trivial⟩, by decide⟩

/-! ## A sync with as many endpoints as asked for -/

/-- Only the number of busy agents and the target decide what is asked for. -/
theorem PoolInv.desiredReplicas_eq {p : Pool} (hp : PoolInv p) {order : List Addr}
    (ho : IsRange p.agents order) (w : Int64) :
    desiredReplicas (.ofNat (p.freeCount order)) (.ofNat p.totalCount) w =
      desiredReplicas 0 (.ofNat p.busyCount) w := by
  have htotal : p.busyCount + p.freeCount order = p.totalCount := by
    rw [Pool.freeCount_eq ho, Nat.add_comm]
    exact hp.free_add_busy
  simp only [desiredReplicas, ← htotal, Int64.ofNat_add, Int64.add_sub_cancel, Int64.sub_zero]

theorem mem_busy {p : Pool} {a : Addr} :
    a ∈ keysWhere p.agents AgentClient.busy ↔ (p.table a).Held := by
  rw [mem_keysWhere, ← Pool.leased_iff]
  rfl

/-- Every dial succeeds. -/
def allDials : Addr → Bool := fun _ => true

section Sync

variable {grpcPort : String} {ep : Endpoints} {p p' : Pool} (hp : PoolInv p)
  (h : SyncAlone allDials grpcPort ep p p')

include hp h

theorem busyCount_sync : p'.busyCount = p.busyCount := by
  have htable := (sync_table hp h).2
  unfold Pool.busyCount
  congr 1
  ext a
  rw [mem_busy, mem_busy, htable]
  split <;> simp [addSlot, allDials]

theorem free_sync : keysWhere p'.agents AgentClient.isFree =
    liveAddrs grpcPort ep \ keysWhere p.agents AgentClient.busy := by
  obtain ⟨hp', htable⟩ := sync_table hp h
  ext a
  rw [hp'.mem_free, htable, Finset.mem_sdiff, mem_busy]
  by_cases hl : a ∈ liveAddrs grpcPort ep
  · cases hs : p.table a <;> simp [hl, addSlot, allDials, Slot.enlist]
  · cases hs : p.table a <;> simp [hl, Slot.retire]

end Sync

/-- The deployment next to the pool: its replicas. A request to the API server may fail. -/
inductive ScalerStep : Pool × Int32 → Event ScalerCmd ScalerCmd.Ret → Pool × Int32 → Prop
  | pool {p p' : Pool} {n : Int32} {c : PoolCmd} {r : c.Ret} (h : PoolStep p ⟨c, r⟩ p') :
      ScalerStep (p, n) ⟨.pool c, r⟩ (p', n)
  | getScale (p : Pool) (n : Int32) : ScalerStep (p, n) ⟨.getScale, Except.ok n⟩ (p, n)
  | getScaleErr (p : Pool) (n : Int32) (err : String) :
      ScalerStep (p, n) ⟨.getScale, Except.error err⟩ (p, n)
  | updateScale (p : Pool) (n m : Int32) :
      ScalerStep (p, n) ⟨.updateScale m, (none : Option String)⟩ (p, m)
  | updateScaleErr (p : Pool) (n m : Int32) (err : String) :
      ScalerStep (p, n) ⟨.updateScale m, some err⟩ (p, n)

/-- A `reconcile` on its own asks for what is wanted, if it is not there. -/
theorem reconcile_updates {p : Pool} {w : Int64} {n : Int32} {tr s'} (hp : PoolInv p)
    (h : Exec ScalerStep (fun _ _ => False) (reconcile w) (p, n) tr () s') :
    ∀ x ∈ tr, ∀ m, x.lab.1 = .updateScale m →
      desiredReplicas 0 (.ofNat p.busyCount) w ≠ n.toInt64 ∧
        m = (desiredReplicas 0 (.ofNat p.busyCount) w).toInt32 := by
  obtain ⟨free, _, tr₁, hfree, rfl, h₁⟩ := h.op_alone
  cases hfree with
  | pool hfree =>
  obtain ⟨o, ho, he⟩ := hfree
  obtain ⟨rfl, rfl⟩ := Prod.mk.inj he
  obtain ⟨total, _, tr₂, htotal, rfl, h₂⟩ := h₁.op_alone
  cases htotal with
  | pool htotal =>
  obtain ⟨_, -, he'⟩ := htotal
  obtain ⟨rfl, rfl⟩ := Prod.mk.inj he'
  obtain ⟨r, _, tr₃, hscale, rfl, h₃⟩ := h₂.op_alone
  rw [← hp.desiredReplicas_eq ho w]
  -- the two counts and the scale are read, what follows is the request
  have hrest : ∀ x ∈ tr₃, ∀ m, x.lab.1 = .updateScale m →
      desiredReplicas (.ofNat (p.freeCount o.order)) (.ofNat p.totalCount) w ≠ n.toInt64 ∧
        m = (desiredReplicas (.ofNat (p.freeCount o.order)) (.ofNat p.totalCount) w).toInt32 := by
    cases hscale with
    | getScale =>
      have h₃ : Exec ScalerStep (fun _ _ => False)
        (if desiredReplicas (.ofNat (p.freeCount o.order)) (.ofNat p.totalCount) w =
            n.toInt64 then .ret ()
          else .op (.updateScale (desiredReplicas (.ofNat (p.freeCount o.order))
            (.ofNat p.totalCount) w).toInt32) fun _ => .ret ()) _ tr₃ () s' := h₃
      split at h₃
      · obtain ⟨rfl, -⟩ := h₃.ret_inv
        exact fun _ hx => by cases hx
      · next hne =>
        obtain ⟨_, _, tr₄, -, rfl, h₄⟩ := h₃.op_alone
        obtain ⟨rfl, -⟩ := h₄.ret_inv
        intro x hx m hm
        rw [List.mem_singleton.1 hx] at hm
        cases hm
        exact ⟨hne, rfl⟩
    | getScaleErr =>
      obtain ⟨rfl, -⟩ := h₃.ret_inv
      exact fun _ hx => by cases hx
  intro x hx m hm
  simp only [List.mem_cons] at hx
  rcases hx with rfl | rfl | rfl | hx
  · cases hm
  · cases hm
  · cases hm
  · exact hrest x hx m hm

/-- With `d` replicas wanted on `p`, a sync on its own with `d` endpoints leaves at least `w` agents
free, and a further `reconcile` against a deployment with `d` replicas wants `d` again and asks for
nothing. -/
def ReachesTarget (w : Int64) (p : Pool) : Prop :=
  ∀ order d, IsRange p.agents order →
    desiredReplicas (.ofNat (p.freeCount order)) (.ofNat p.totalCount) w = d → d.toInt < 2 ^ 31 →
    ∀ grpcPort ep p', ((liveAddrs grpcPort ep).card : Int) = d.toInt →
      SyncAlone allDials grpcPort ep p p' →
      (∀ order', IsRange p'.agents order' → w.toInt ≤ p'.freeCount order' ∧
        desiredReplicas (.ofNat (p'.freeCount order')) (.ofNat p'.totalCount) w = d) ∧
      ∀ tr s', Exec ScalerStep (fun _ _ => False) (reconcile w) (p', d.toInt32) tr () s' →
        ∀ x ∈ tr, ∀ m, x.lab.1 ≠ .updateScale m

theorem PoolInv.busyCount_le {p : Pool} (hp : PoolInv p) : p.busyCount ≤ p.totalCount := by
  have := hp.free_add_busy
  omega

/-- The replicas wanted for the busy agents and the target, unless their sum wraps around. -/
theorem PoolInv.toInt_desiredReplicas {p : Pool} (hp : PoolInv p) (hlen : p.totalCount < 2 ^ 63)
    (w : Int64) : (desiredReplicas 0 (.ofNat p.busyCount) w).toInt =
      if (p.busyCount : Int) + w.toInt < 2 ^ 63 then max 1 (p.busyCount + w.toInt) else 1 := by
  have hbusy := hp.busyCount_le
  have hw := w.le_toInt
  have h0 : (0 : Nat) < 2 ^ 63 := by decide
  simpa using AutoScaler.toInt_desiredReplicas h0 (show p.busyCount < 2 ^ 63 by omega) (by omega)

section Target

variable {p : Pool} {w : Int64} (hp : PoolInv p) (hlen : p.totalCount + 1 < 2 ^ 63)

include hp hlen

/-- When the sum wraps, one replica is wanted, and one endpoint gives at most one free agent. -/
theorem not_reachesTarget_of_overflow (hover : ¬(p.busyCount : Int) + w.toInt < 2 ^ 63) :
    ¬ReachesTarget w p := by
  intro h
  have hd := hp.toInt_desiredReplicas (by omega) w
  rw [if_neg hover] at hd
  have hbusy := hp.busyCount_le
  obtain ⟨order, ho⟩ := exists_isRange p.agents
  obtain ⟨p', hsync⟩ := exists_syncAlone allDials "50051" ⟨[⟨[⟨"10.0.0.7"⟩]⟩]⟩ p
  obtain ⟨order', ho'⟩ := exists_isRange p'.agents
  have hone : (liveAddrs "50051" ⟨[⟨[⟨"10.0.0.7"⟩]⟩]⟩).card = 1 := rfl
  have htarget := (h order _ ho rfl (by rw [hp.desiredReplicas_eq ho, hd]; decide) _ _ p'
    (by rw [hp.desiredReplicas_eq ho, hd, hone]; rfl) hsync).1 order' ho'
  rw [Pool.freeCount_eq ho', free_sync hp hsync] at htarget
  have hle := Finset.card_le_card (Finset.sdiff_subset
    (s := liveAddrs "50051" ⟨[⟨[⟨"10.0.0.7"⟩]⟩]⟩) (t := keysWhere p.agents AgentClient.busy))
  have := htarget.1
  omega

theorem reachesTarget_of_fits (hw : 0 ≤ w) (hfit : (p.busyCount : Int) + w.toInt < 2 ^ 63) :
    ReachesTarget w p := by
  have hw' : 0 ≤ w.toInt := Int64.le_iff_toInt_le.1 hw
  have hd := hp.toInt_desiredReplicas (by omega) w
  intro order d ho hwant hsmall grpcPort ep p' hcard hsync
  rw [hp.desiredReplicas_eq ho] at hwant
  rw [hwant, if_pos hfit] at hd
  obtain ⟨hp', -⟩ := sync_table hp hsync
  have hwant' : desiredReplicas 0 (.ofNat p'.busyCount) w = d := by
    rw [busyCount_sync hp hsync, hwant]
  refine ⟨fun order' ho' => ⟨?_, ?_⟩, fun tr s' hexec x hx m hm => ?_⟩
  · -- at most the busy agents of the endpoints are not free
    rw [Pool.freeCount_eq ho', free_sync hp hsync]
    have hle := Finset.le_card_sdiff (keysWhere p.agents AgentClient.busy) (liveAddrs grpcPort ep)
    have hb : (keysWhere p.agents AgentClient.busy).card = p.busyCount := rfl
    omega
  · rw [hp'.desiredReplicas_eq ho', hwant']
  · have hne := (reconcile_updates hp' hexec x hx m hm).1
    rw [hwant'] at hne
    apply hne
    apply Int64.toInt_inj.1
    rw [Int32.toInt_toInt64, Int64.toInt_toInt32]
    exact (Int.bmod_eq_of_le (by omega) (by omega)).symm

end Target

/-- **Scaling and syncing reach the target and stay there** exactly when the number of busy agents
and the target together fit an `int`. -/
theorem reaches_target_iff {p : Pool} {w : Int64} (hreach : PoolReachable p) (hw : 0 ≤ w)
    (hlen : p.totalCount + 1 < 2 ^ 63) :
    ReachesTarget w p ↔ p.busyCount + w.toInt < 2 ^ 63 := by
  constructor
  · intro h
    by_contra hover
    exact not_reachesTarget_of_overflow hreach.inv hlen hover h
  · exact reachesTarget_of_fits hreach.inv hlen hw

/-- One agent is leased, and one is to be kept warm. -/
theorem reaches_target_leased : ReachesTarget 1 leasedPool :=
  (reaches_target_iff leasedPool_reachable (by decide) (by decide)).2 (by decide)

/-- One agent is leased and the target is the largest `int`: the sum wraps, and one replica is
wanted. -/
theorem large_target_not_reached :
    PoolReachable leasedPool ∧ (0 : Int64) ≤ 9223372036854775807 ∧
      ¬ReachesTarget 9223372036854775807 leasedPool :=
  ⟨leasedPool_reachable, by decide,
    not_reachesTarget_of_overflow leasedPool_reachable.inv (by decide) (by decide)⟩

end SocketTuner.Router
