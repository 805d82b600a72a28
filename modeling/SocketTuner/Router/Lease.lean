import SocketTuner.Router.PoolSpec
import SocketTuner.Lib.LeaseTable

/-!
# The pool is a lease table

`Pool.table` forgets everything but whether an address is known, leased and retiring. Every pool
method refines one operation of the abstract lease table (`PoolStep.refines`), the two loops
included: `CleanupStaleAgents` releases a set of agents, `RemoveAgentsNotIn` retires one. Lease
safety over whole runs is the table's (`lease_safety`).

The counts the scaler reads are cardinalities of sets of entries (`freeCount_eq`), and under the
representation invariant an entry is lockable exactly when it is not busy (`pool_representation`).
-/

namespace SocketTuner.Router

open GoMap LeaseTable

/-- The slot an entry is in. -/
def slotOf : Option AgentClient → Slot
  | none => .absent
  | some ac => if ac.busy then (if ac.pendingRemoval then .retiring else .leased) else .idle

/-- What the pool knows of each address. -/
def Pool.table (p : Pool) (a : Addr) : Slot := slotOf (p.agents.lookup a)

/-- Membership, `Busy` and `pendingRemoval` of an agent. -/
def Pool.flags (p : Pool) (a : Addr) : Option (Bool × Bool) :=
  (p.agents.lookup a).map fun ac => (ac.busy, ac.pendingRemoval)

/-- The entry under `a` is there and busy. -/
def Pool.Leased (p : Pool) (a : Addr) : Prop := ∃ ac, p.agents.lookup a = some ac ∧ ac.busy = true

instance (p : Pool) (a : Addr) : Decidable (p.Leased a) :=
  decidable_of_iff ((p.agents.lookup a).any AgentClient.busy = true)
    (by unfold Pool.Leased; cases p.agents.lookup a <;> simp)

theorem PoolInv.flags_eq {p : Pool} (hp : PoolInv p) (a : Addr) :
    p.flags a = match p.table a with
      | .absent => none
      | .idle => some (false, false)
      | .leased => some (true, false)
      | .retiring => some (true, true) := by
  unfold Pool.flags Pool.table
  cases hx : p.agents.lookup a with
  | none => rfl
  | some ac =>
    have hpb := hp.pending_busy hx
    cases hb : ac.busy <;> cases hpr : ac.pendingRemoval <;> simp_all [slotOf]

theorem slotOf_held {x : Option AgentClient} :
    (slotOf x).Held ↔ ∃ ac, x = some ac ∧ ac.busy = true := by
  cases x with
  | none => simp [slotOf]
  | some ac => cases hb : ac.busy <;> cases hp : ac.pendingRemoval <;> simp [slotOf, hb, hp]

theorem Pool.leased_iff {p : Pool} {a : Addr} : p.Leased a ↔ (p.table a).Held :=
  slotOf_held.symm

theorem slotOf_idle {a : Addr} {x : Option AgentClient} (h : EntryOk a x) :
    slotOf x = .idle ↔ ∃ ac, x = some ac ∧ ac.isFree = true := by
  cases x with
  | none => simp [slotOf]
  | some ac =>
    have hok := (h ac rfl).2
    cases hb : ac.busy <;> cases hp : ac.pendingRemoval <;>
      simp_all [slotOf, AgentClient.isFree]

theorem Pool.table_eq_absent {p : Pool} {a : Addr} : p.table a = .absent ↔ a ∉ p.agents := by
  rw [← Finmap.lookup_eq_none, Pool.table]
  cases p.agents.lookup a with
  | none => simp [slotOf]
  | some ac => cases hb : ac.busy <;> cases hp : ac.pendingRemoval <;> simp [slotOf, hb, hp]

theorem slotOf_released {a : Addr} {x : Option AgentClient} (h : EntryOk a x) :
    slotOf (x.bind AgentClient.released) = (slotOf x).release := by
  cases x with
  | none => rfl
  | some ac =>
    have hok := (h ac rfl).2
    cases hb : ac.busy <;> cases hp : ac.pendingRemoval <;>
      simp_all [slotOf, AgentClient.released, Slot.release]

theorem slotOf_removed (x : Option AgentClient) :
    slotOf (x.bind AgentClient.removed) = (slotOf x).retire := by
  cases x with
  | none => rfl
  | some ac =>
    cases hb : ac.busy <;> cases hp : ac.pendingRemoval <;>
      simp [slotOf, AgentClient.removed, Slot.retire, hb, hp]

namespace Pool

theorem table_addAgent {p : Pool} (hp : PoolInv p) (addr : Addr) (dialErr : Option String)
    (now : Time) (a : Addr) :
    (p.addAgent addr dialErr now).2.table a =
      if a = addr ∧ (p.addAgent addr dialErr now).1 = none then (p.table a).enlist
      else p.table a := by
  simp only [addAgent_ok_iff, table, lookup_addAgent]
  by_cases ha : a = addr
  · subst ha
    cases hx : p.agents.lookup a with
    | some ac =>
      have hpb := hp.pending_busy hx
      cases hb : ac.busy <;> cases hpr : ac.pendingRemoval <;> simp_all [slotOf, Slot.enlist]
    | none => cases dialErr <;> simp [slotOf, Slot.enlist]
  · simp [ha]

theorem table_removeAgent (p : Pool) (addr a : Addr) :
    (p.removeAgent addr).table a = if a = addr then (p.table a).retire else p.table a := by
  simp only [table, lookup_removeAgent]
  split
  · exact slotOf_removed _
  · rfl

theorem table_lockFreeAgent {p p' : Pool} (hp : PoolInv p) {order : List Addr}
    {clock : Addr → Time} {ac : AgentClient} (h : p.lockFreeAgent order clock = (.ok ac, p')) :
    p.table ac.addr = .idle ∧ p'.table = Function.update p.table ac.addr .leased := by
  obtain ⟨addr, old, hold, hfree, rfl, rfl⟩ := lockFreeAgent_ok h
  have haddr : old.addr = addr := hp.addr_eq hold
  have hpend : old.pendingRemoval = false := by
    simp only [AgentClient.isFree, Bool.and_eq_true, Bool.not_eq_true'] at hfree
    exact hfree.2
  simp only [haddr]
  refine ⟨(slotOf_idle (poolInv_iff.1 hp addr)).2 ⟨old, hold, hfree⟩, funext fun a => ?_⟩
  by_cases ha : a = addr
  · subst ha; simp [table, slotOf, hpend]
  · simp [table, ha]

theorem table_freeAgent {p : Pool} (hp : PoolInv p) (addr a : Addr) :
    (p.freeAgent addr).table a = if a = addr then (p.table a).release else p.table a := by
  simp only [table, lookup_freeAgent]
  split
  · exact slotOf_released (poolInv_iff.1 hp a)
  · rfl

theorem table_touchAgent (p : Pool) (addr : Addr) (now : Time) :
    (p.touchAgent addr now).table = p.table := by
  funext a
  simp only [table, lookup_touchAgent]
  split
  · cases p.agents.lookup a <;> rfl
  · rfl

/-- A cleanup releases exactly the slots that were held and are not any more. -/
theorem table_cleanupStaleAgents {p : Pool} (hp : PoolInv p) {order : List Addr}
    (hr : IsRange p.agents order) (timeout : Duration) (clock : Addr → Time) (a : Addr) :
    (p.cleanupStaleAgents timeout order clock).table a = (p.table a).release ∧ p.Leased a ∧
        ¬(p.cleanupStaleAgents timeout order clock).Leased a ∨
      (p.cleanupStaleAgents timeout order clock).table a = p.table a := by
  have hlook := lookup_cleanupStaleAgents hr timeout clock a
  cases hx : p.agents.lookup a with
  | none => right; simp [table, hlook, hx]
  | some ac =>
    rw [hx, Option.bind_some] at hlook
    by_cases hst : ac.isStale timeout (clock a) = true
    · left
      have hbusy : ac.busy = true := by
        simp only [AgentClient.isStale, Bool.and_eq_true] at hst; exact hst.1
      have hrel : (p.cleanupStaleAgents timeout order clock).table a = (p.table a).release := by
        have h := slotOf_released (poolInv_iff.1 hp a)
        rw [hx, Option.bind_some] at h
        rw [table, hlook, if_pos hst, h, table, hx]
      refine ⟨hrel, ⟨ac, hx, hbusy⟩, ?_⟩
      rw [leased_iff, hrel]
      simp
    · right; rw [table, hlook, if_neg hst, table, hx]

theorem table_removeAgentsNotIn {p : Pool} {order : List Addr} (hr : IsRange p.agents order)
    (live : Finset Addr) (a : Addr) :
    (p.removeAgentsNotIn live order).table a =
      if a ∈ live then p.table a else (p.table a).retire := by
  simp only [table, lookup_removeAgentsNotIn hr]
  by_cases hl : a ∈ live
  · simp [hl]
  · simp [hl, ← slotOf_removed]

theorem table_close (p : Pool) (order : List Addr) : (p.close order).table = p.table := by
  funext a; rw [table, agents_close, table]

end Pool

/-- The lease operation a method call amounts to. What a cleanup releases is read off the pools
before and after it. -/
def leaseOp (x : Lts.Trans Pool PoolEvent) : Op Addr :=
  match x.lab with
  | ⟨.addAgent a, err⟩ =>
    match (err : Option String) with
    | none => .enlist a
    | some _ => .skip
  | ⟨.removeAgent a, _⟩ => .retire {a}
  | ⟨.lockFreeAgent, r⟩ =>
    match (r : Except String AgentClient) with
    | .ok ac => .lock ac.addr
    | .error _ => .skip
  | ⟨.freeAgent a, _⟩ => .release {a}
  | ⟨.cleanupStaleAgents _, _⟩ => .release {a | x.src.Leased a ∧ ¬x.dst.Leased a}
  | ⟨.removeAgentsNotIn live, _⟩ => .retire {a | a ∉ live}
  | ⟨.touchAgent _, _⟩ | ⟨.getAgentBySession _, _⟩ | ⟨.freeCount, _⟩ | ⟨.totalCount, _⟩
  | ⟨.close, _⟩ => .skip

theorem step_of_forall {t t' u : Addr → Slot} {op : Op Addr} (h : LeaseTable.Step t op u)
    (he : ∀ a, t' a = u a) : LeaseTable.Step t op t' := by
  rw [show t' = u from funext he]
  exact h

/-- **Every pool method refines a lease operation.** -/
theorem PoolStep.refines {p p' : Pool} {e : PoolEvent} (hp : PoolInv p) (hs : PoolStep p e p') :
    LeaseTable.Step p.table (leaseOp ⟨p, e, p'⟩) p'.table := by
  obtain ⟨o, hr, he⟩ := hs
  obtain ⟨c, r⟩ := e
  cases c with
  | addAgent addr =>
    have h := Pool.table_addAgent hp addr o.dialErr (o.clock addr)
    rw [show p.addAgent addr o.dialErr (o.clock addr) = (r, p') from he] at h
    cases r with
    | none =>
      refine step_of_forall (.enlist _ addr) fun a => ?_
      rw [h a]
      by_cases ha : a = addr
      · subst ha; simp
      · simp [ha]
    | some err => exact step_of_forall (.skip _) fun a => by simp [h a]
  | removeAgent addr =>
    obtain ⟨-, rfl⟩ := Prod.mk.inj he
    exact step_of_forall (.retire _ _) fun a => by simp [Pool.table_removeAgent]
  | lockFreeAgent =>
    cases r with
    | error err =>
      obtain ⟨rfl, -⟩ := Pool.lockFreeAgent_error hr he
      exact .skip _
    | ok ac =>
      obtain ⟨hidle, htable⟩ := Pool.table_lockFreeAgent hp he
      exact step_of_forall (.lock _ ac.addr hidle) fun a => by rw [htable]; congr!
  | freeAgent addr =>
    obtain ⟨-, rfl⟩ := Prod.mk.inj he
    exact step_of_forall (.release _ _) fun a => by simp [Pool.table_freeAgent hp]
  | touchAgent addr =>
    obtain ⟨-, rfl⟩ := Prod.mk.inj he
    rw [Pool.table_touchAgent]
    exact .skip _
  | cleanupStaleAgents timeout =>
    obtain ⟨-, rfl⟩ := Prod.mk.inj he
    refine step_of_forall (.release _ _) fun a => ?_
    rcases Pool.table_cleanupStaleAgents hp hr timeout o.clock a with ⟨hrel, hl, hnl⟩ | hsame
    · rw [if_pos ⟨hl, hnl⟩]; exact hrel
    · rw [if_neg]
      · exact hsame
      · rintro ⟨hl, hnl⟩
        rw [Pool.leased_iff] at hl hnl
        exact hnl (hsame ▸ hl)
  | removeAgentsNotIn live =>
    obtain ⟨-, rfl⟩ := Prod.mk.inj he
    refine step_of_forall (.retire _ _) fun a => ?_
    rw [Pool.table_removeAgentsNotIn hr]
    by_cases hl : a ∈ live <;> simp [hl]
  | close =>
    obtain ⟨-, rfl⟩ := Prod.mk.inj he
    rw [Pool.table_close]
    exact .skip _
  | getAgentBySession _ | freeCount | totalCount =>
    obtain ⟨-, rfl⟩ := Prod.mk.inj he
    exact .skip _

/-! ## Lease safety -/

/-- A `LockFreeAgent` call that returned `a`. -/
def Locks (a : Addr) (x : Lts.Trans Pool PoolEvent) : Prop :=
  ∃ ac : AgentClient, x.lab = ⟨.lockFreeAgent, .ok ac⟩ ∧ ac.addr = a

/-- A `FreeAgent(a)` call, or a `CleanupStaleAgents` call that released `a`. -/
def EndsLease (a : Addr) (x : Lts.Trans Pool PoolEvent) : Prop :=
  x.lab = ⟨.freeAgent a, ()⟩ ∨
    ∃ timeout, x.lab = ⟨.cleanupStaleAgents timeout, ()⟩ ∧ x.src.Leased a ∧ ¬x.dst.Leased a

theorem leaseOp_of_locks {a : Addr} {x : Lts.Trans Pool PoolEvent} (h : Locks a x) :
    leaseOp x = .lock a := by
  obtain ⟨ac, hlab, rfl⟩ := h
  unfold leaseOp
  rw [hlab]

/-- The only calls that release `a` are those two. -/
theorem endsLease_of_releases {a : Addr} {x : Lts.Trans Pool PoolEvent}
    (h : (leaseOp x).Releases a) : EndsLease a x := by
  unfold leaseOp at h
  split at h
  · split at h <;> exact h.elim
  · exact h.elim
  · split at h <;> exact h.elim
  · next b _ hlab =>
    obtain rfl : a = b := h
    exact .inl hlab
  · next timeout _ hlab => exact .inr ⟨timeout, hlab, h.1, h.2⟩
  all_goals exact h.elim

/-- The only calls that make an address listed are successful `AddAgent` calls. -/
theorem addAgent_of_enlists {a : Addr} {x : Lts.Trans Pool PoolEvent} (h : (leaseOp x).Enlists a) :
    x.lab = ⟨.addAgent a, none⟩ := by
  unfold leaseOp at h
  split at h
  · next hlab =>
    split at h
    · obtain rfl := h
      exact hlab
    · exact h.elim
  · exact h.elim
  · split at h <;> exact h.elim
  all_goals exact h.elim

/-- **Lease safety.** In every sequence of pool operations, with any dial outcomes, iteration
orders and clock readings, two `LockFreeAgent` calls that return `a` have a call between them that
ends the first lease. -/
theorem lease_safety {p : Pool} {tr pre mid post : List (Lts.Trans Pool PoolEvent)}
    {x y : Lts.Trans Pool PoolEvent} {a : Addr} (h : Lts.Run PoolStep Pool.newPool tr p)
    (htr : tr = pre ++ (x :: mid ++ y :: post)) (hx : Locks a x) (hy : Locks a y) :
    ∃ z ∈ mid, EndsLease a z := by
  subst htr
  have hinv : ∀ p e p', PoolInv p → PoolStep p e p' → PoolInv p' := fun _ _ _ hp hs => hp.step hs
  obtain ⟨q, hpre, hrest⟩ := h.split
  rw [show x :: mid ++ y :: post = (x :: mid ++ [y]) ++ post by simp] at hrest
  obtain ⟨q', hrun, -⟩ := hrest.split
  obtain ⟨z, hz, hrel⟩ := release_between hinv Pool.table leaseOp
    (fun _ _ _ hp hs => PoolStep.refines hp hs) (hpre.invariant hinv poolInv_newPool) hrun
    (leaseOp_of_locks hx) (leaseOp_of_locks hy)
  exact ⟨z, hz, endsLease_of_releases hrel⟩

/-- Call the methods of a list in turn; the calls made and the pool they leave. -/
def Pool.calls (p : Pool) : List (Outside × PoolCmd) → List (Lts.Trans Pool PoolEvent) × Pool
  | [] => ([], p)
  | (o, c) :: l =>
    let rest := Pool.calls (c.exec o p).2 l
    (⟨p, ⟨c, (c.exec o p).1⟩, (c.exec o p).2⟩ :: rest.1, rest.2)

/-- Every iteration order in the list is one of the pool it meets. -/
def Pool.OrdersOk (p : Pool) : List (Outside × PoolCmd) → Prop
  | [] => True
  | (o, c) :: l => IsRange p.agents o.order ∧ Pool.OrdersOk (c.exec o p).2 l

theorem Pool.run_calls {l : List (Outside × PoolCmd)} :
    ∀ {p : Pool}, p.OrdersOk l → Lts.Run PoolStep p (p.calls l).1 (p.calls l).2 := by
  induction l with
  | nil => intro p _; exact .nil p
  | cons x l ih =>
    intro p h
    exact .cons ⟨x.1, h.1, rfl⟩ (ih h.2)

/-- Add an agent, lease it, release it, lease it again. -/
def relockCalls : List (Outside × PoolCmd) :=
  [({}, .addAgent "10.0.0.7:50051"),
   ({ order := ["10.0.0.7:50051"] }, .lockFreeAgent),
   ({ order := ["10.0.0.7:50051"] }, .freeAgent "10.0.0.7:50051"),
   ({ order := ["10.0.0.7:50051"] }, .lockFreeAgent)]

theorem relockCalls_ok : Pool.newPool.OrdersOk relockCalls :=
  ⟨by decide, by decide, by decide, by decide, trivial⟩

/-- The pool with one agent, idle. -/
def idlePool : Pool := (Pool.newPool.calls (relockCalls.take 1)).2

theorem idlePool_reachable : PoolReachable idlePool := ⟨_, Pool.run_calls ⟨by decide, trivial⟩⟩

/-- The pool with one agent, leased. -/
def leasedPool : Pool := (Pool.newPool.calls (relockCalls.take 2)).2

theorem leasedPool_reachable : PoolReachable leasedPool :=
  ⟨_, Pool.run_calls ⟨by decide, by decide, trivial⟩⟩

theorem lease_safety_relock :
    ∃ z ∈ ((Pool.newPool.calls relockCalls).1.drop 2).take 1, EndsLease "10.0.0.7:50051" z :=
  lease_safety (Pool.run_calls relockCalls_ok)
    (show _ = (Pool.newPool.calls relockCalls).1.take 1 ++
      (_ :: ((Pool.newPool.calls relockCalls).1.drop 2).take 1 ++ _ :: []) from rfl)
    ⟨_, rfl, rfl⟩ ⟨_, rfl, rfl⟩

/-! ## The counts -/

theorem Pool.freeCount_eq {p : Pool} {order : List Addr} (h : IsRange p.agents order) :
    p.freeCount order = (keysWhere p.agents AgentClient.isFree).card :=
  forRange_count h

theorem PoolInv.mem_free {p : Pool} (hp : PoolInv p) {a : Addr} :
    a ∈ keysWhere p.agents AgentClient.isFree ↔ p.table a = .idle := by
  rw [mem_keysWhere, Pool.table, slotOf_idle (poolInv_iff.1 hp a)]

/-- The number of busy entries. -/
def Pool.busyCount (p : Pool) : Nat := (keysWhere p.agents AgentClient.busy).card

theorem PoolInv.isFree_eq {p : Pool} (hp : PoolInv p) {a : Addr} {ac : AgentClient}
    (h : p.agents.lookup a = some ac) : ac.isFree = !ac.busy := by
  have := hp.pending_busy h
  unfold AgentClient.isFree
  cases hb : ac.busy <;> cases hpr : ac.pendingRemoval <;> simp_all

theorem PoolInv.free_add_busy {p : Pool} (hp : PoolInv p) :
    (keysWhere p.agents AgentClient.isFree).card + p.busyCount = p.totalCount := by
  have hfree : keysWhere p.agents AgentClient.isFree =
      p.agents.keys.filter fun a => ¬((p.agents.lookup a).any AgentClient.busy = true) := by
    refine Finset.filter_congr fun a ha => ?_
    obtain ⟨ac, hac⟩ := Finmap.mem_iff.1 (Finmap.mem_keys.1 ha)
    simp [hac, hp.isFree_eq hac]
  rw [hfree, Nat.add_comm]
  exact Finset.card_filter_add_card_filter_not _

/-- An entry some `LockFreeAgent` call could return. -/
def Pool.Lockable (p : Pool) (a : Addr) : Prop :=
  ∃ order clock ac p', IsRange p.agents order ∧ p.lockFreeAgent order clock = (.ok ac, p') ∧
    ac.addr = a

theorem PoolInv.lockable_iff {p : Pool} (hp : PoolInv p) {a : Addr} {ac : AgentClient}
    (hac : p.agents.lookup a = some ac) : p.Lockable a ↔ ac.busy = false := by
  constructor
  · rintro ⟨order, clock, ac', p', -, h, haddr⟩
    obtain ⟨b, old, hold, hfree, rfl, -⟩ := Pool.lockFreeAgent_ok h
    have hb : b = a := by rw [← hp.addr_eq hold]; exact haddr
    subst hb
    rw [hac] at hold
    cases hold
    simpa [hp.isFree_eq hac] using hfree
  · intro hb
    have hfree : ac.isFree = true := by rw [hp.isFree_eq hac, hb]; rfl
    obtain ⟨order, hr, h⟩ := Pool.exists_order_locks hac hfree fun _ => 0
    have haddr : ac.addr = a := hp.addr_eq hac
    exact ⟨order, _, _, _, hr, h, haddr⟩

theorem Pool.lockFreeAgent_ok_iff {p : Pool} {order : List Addr} (hr : IsRange p.agents order)
    (clock : Addr → Time) :
    (∃ ac, (p.lockFreeAgent order clock).1 = .ok ac) ↔ 0 < p.freeCount order := by
  rw [freeCount_eq hr, Finset.card_pos]
  constructor
  · rintro ⟨ac, h⟩
    have hl : p.lockFreeAgent order clock = (.ok ac, (p.lockFreeAgent order clock).2) :=
      Prod.ext h rfl
    obtain ⟨a, old, hold, hfree, -, -⟩ := lockFreeAgent_ok hl
    exact ⟨a, mem_keysWhere.2 ⟨old, hold, hfree⟩⟩
  · rintro ⟨a, ha⟩
    obtain ⟨ac, hac, hfree⟩ := mem_keysWhere.1 ha
    cases h : (p.lockFreeAgent order clock).1 with
    | ok ac => exact ⟨ac, rfl⟩
    | error err =>
      have hl : p.lockFreeAgent order clock = (.error err, (p.lockFreeAgent order clock).2) :=
        Prod.ext h rfl
      have hnot := (lockFreeAgent_error hr hl).2 a ac hac
      rw [hfree] at hnot
      cases hnot

theorem Pool.keys_put {p : Pool} {a : Addr} (ac : AgentClient) (ha : a ∈ p.agents) :
    (p.put a ac).agents.keys = p.agents.keys := by
  ext b
  simp only [put, Finmap.mem_keys, Finmap.mem_insert]
  constructor
  · rintro (rfl | h)
    · exact ha
    · exact h
  · exact .inr

/-- A lock takes the locked entry, and no other, out of the free ones. -/
theorem PoolInv.lockFreeAgent_frame {p p' : Pool} (hp : PoolInv p) {order : List Addr}
    {clock : Addr → Time} {ac : AgentClient} (h : p.lockFreeAgent order clock = (.ok ac, p')) :
    (keysWhere p'.agents AgentClient.isFree).card + 1 =
        (keysWhere p.agents AgentClient.isFree).card ∧
      p'.totalCount = p.totalCount ∧
      ∀ a, a ≠ ac.addr → p'.agents.lookup a = p.agents.lookup a := by
  obtain ⟨b, old, hold, hfree, rfl, rfl⟩ := Pool.lockFreeAgent_ok h
  have haddr : old.addr = b := hp.addr_eq hold
  have hmem : b ∈ keysWhere p.agents AgentClient.isFree := mem_keysWhere.2 ⟨old, hold, hfree⟩
  refine ⟨?_, ?_, ?_⟩
  · have herase : keysWhere (p.put b { old with busy := true, lastActivity := clock b }).agents
        AgentClient.isFree = (keysWhere p.agents AgentClient.isFree).erase b := by
      ext a
      simp only [mem_keysWhere, Finset.mem_erase, Pool.lookup_put]
      by_cases ha : a = b
      · simp [ha, AgentClient.isFree]
      · simp [ha]
    rw [herase, Finset.card_erase_add_one hmem]
  · simp only [Pool.totalCount, Pool.keys_put _ (Finmap.mem_iff.2 ⟨old, hold⟩)]
  · intro a ha
    simp only [haddr] at ha
    simp [ha]

/-- **The representation invariant** and what it gives the scaler and `LockFreeAgent`. -/
theorem pool_representation {p : Pool} (h : PoolReachable p) :
    (∀ a ac, p.agents.lookup a = some ac → ac.pendingRemoval = true → ac.busy = true) ∧
    (∀ order, IsRange p.agents order → p.freeCount order + p.busyCount = p.totalCount) ∧
    (∀ a ac, p.agents.lookup a = some ac → (p.Lockable a ↔ ac.busy = false)) ∧
    (∀ order clock, IsRange p.agents order →
      ((∃ ac, (p.lockFreeAgent order clock).1 = .ok ac) ↔ 0 < p.freeCount order)) ∧
    (∀ order clock ac p', IsRange p.agents order → p.lockFreeAgent order clock = (.ok ac, p') →
      (∀ order', IsRange p'.agents order' → p'.freeCount order' + 1 = p.freeCount order) ∧
      p'.totalCount = p.totalCount ∧
      ∀ a, a ≠ ac.addr → p'.agents.lookup a = p.agents.lookup a) := by
  have hp := h.inv
  refine ⟨fun _ _ => hp.pending_busy, fun order hr => ?_, fun _ _ => hp.lockable_iff,
    fun order clock hr => Pool.lockFreeAgent_ok_iff hr clock, fun order clock ac p' hr hl => ?_⟩
  · rw [Pool.freeCount_eq hr]; exact hp.free_add_busy
  · obtain ⟨hcount, htotal, hframe⟩ := hp.lockFreeAgent_frame hl
    refine ⟨fun order' hr' => ?_, htotal, hframe⟩
    rw [Pool.freeCount_eq hr, Pool.freeCount_eq hr']
    exact hcount

/-- Add three agents, lease two of them and remove one of these. -/
def leavingCalls : List (Outside × PoolCmd) :=
  [({}, .addAgent "10.0.0.7:50051"),
   ({ order := ["10.0.0.7:50051"] }, .addAgent "10.0.0.8:50051"),
   ({ order := ["10.0.0.8:50051", "10.0.0.7:50051"] }, .addAgent "10.0.0.9:50051"),
   ({ order := threeAgents }, .lockFreeAgent),
   ({ order := threeAgents }, .lockFreeAgent),
   ({ order := threeAgents }, .removeAgent "10.0.0.9:50051")]
where
  threeAgents := ["10.0.0.8:50051", "10.0.0.9:50051", "10.0.0.7:50051"]

/-- The pool with one agent idle, one leased and one leased until it is removed. -/
def leavingPool : Pool := (Pool.newPool.calls leavingCalls).2

theorem leavingPool_reachable : PoolReachable leavingPool :=
  ⟨_, Pool.run_calls ⟨by decide, by decide, by decide, by decide, by decide, by decide, trivial⟩⟩

theorem pool_representation_leaving :
    (∃ ac, leavingPool.agents.lookup "10.0.0.9:50051" = some ac ∧ ac.pendingRemoval = true ∧
      ac.busy = true) ∧
    leavingPool.freeCount leavingCalls.threeAgents + leavingPool.busyCount =
      leavingPool.totalCount ∧
    leavingPool.Lockable "10.0.0.7:50051" ∧ ¬leavingPool.Lockable "10.0.0.8:50051" ∧
    ∃ ac p', leavingPool.lockFreeAgent leavingCalls.threeAgents (fun _ => 0) = (.ok ac, p') ∧
      p'.freeCount leavingCalls.threeAgents + 1 = leavingPool.freeCount leavingCalls.threeAgents ∧
      p'.agents.lookup "10.0.0.9:50051" = leavingPool.agents.lookup "10.0.0.9:50051" := by
  obtain ⟨hpending, hcount, hlockable, -, hframe⟩ := pool_representation leavingPool_reachable
  have hr : IsRange leavingPool.agents leavingCalls.threeAgents := by decide
  have hidle : leavingPool.agents.lookup "10.0.0.7:50051" =
      some ⟨"10.0.0.7:50051", 0, false, 0, false⟩ := rfl
  have hleased : leavingPool.agents.lookup "10.0.0.8:50051" =
      some ⟨"10.0.0.8:50051", 1, true, 0, false⟩ := rfl
  have hleaving : leavingPool.agents.lookup "10.0.0.9:50051" =
      some ⟨"10.0.0.9:50051", 2, true, 0, true⟩ := rfl
  have hlock : leavingPool.lockFreeAgent leavingCalls.threeAgents (fun _ => 0) =
      (.ok ⟨"10.0.0.7:50051", 0, true, 0, false⟩, _) := rfl
  obtain ⟨hone, -, hrest⟩ := hframe _ _ _ _ hr hlock
  exact ⟨⟨_, hleaving, rfl, hpending _ _ hleaving rfl⟩, hcount _ hr, (hlockable _ _ hidle).2 rfl,
    fun h => absurd ((hlockable _ _ hleased).1 h) (by decide), _, _, hlock, hone _ (by decide),
    hrest _ (by decide)⟩

end SocketTuner.Router
