import SocketTuner.Router.Watcher

/-!
# Syncs on their own

What `syncEndpoints` does to the pool when nothing else runs. Whether a dial succeeds is a function
`ok` of the address. A sync then acts on every slot for itself (`sync_table`): a live address is
enlisted, unless it is absent and cannot be dialed, and every other one is retired. Both forget
what an earlier sync did, so of a list of snapshots only the last one matters
(`last_snapshot_matters`).
-/

namespace SocketTuner.Router

open GoMap LeaseTable Prog

/-- The address a method may dial. -/
def PoolCmd.dials : PoolCmd → Option Addr
  | .addAgent addr => some addr
  | _ => none

/-- One method call on the pool, where a dial succeeds exactly for the addresses in `ok`. -/
def DialStep (ok : Addr → Bool) (p : Pool) (e : PoolEvent) (p' : Pool) : Prop :=
  ∃ o : Outside, IsRange p.agents o.order ∧ e.1.exec o p = (e.2, p') ∧
    ∀ addr ∈ e.1.dials, (o.dialErr = none ↔ ok addr = true)

variable {ok : Addr → Bool}

theorem DialStep.poolStep {p p' : Pool} {e : PoolEvent} (h : DialStep ok p e p') :
    PoolStep p e p' := by
  obtain ⟨o, hr, he, -⟩ := h
  exact ⟨o, hr, he⟩

theorem exists_dialStep (ok : Addr → Bool) (p : Pool) (c : PoolCmd) :
    ∃ r p', DialStep ok p ⟨c, r⟩ p' := by
  obtain ⟨order, hr⟩ := exists_isRange p.agents
  let dialErr := if c.dials.all ok then none else some "refused"
  refine ⟨(c.exec { dialErr, order } p).1, (c.exec { dialErr, order } p).2, { dialErr, order }, hr,
    rfl, fun addr haddr => ?_⟩
  have haddr : c.dials = some addr := haddr
  simp [dialErr, haddr]

/-- `AddAgent` of an address that can be dialed or is known. -/
def addSlot (ok : Bool) (s : Slot) : Slot := if ok = true ∨ s ≠ .absent then s.enlist else s

theorem DialStep.table_addAgent {p p' : Pool} (hp : PoolInv p) {addr : Addr} {r : Option String}
    (h : DialStep ok p ⟨.addAgent addr, r⟩ p') (a : Addr) :
    p'.table a = if a = addr then addSlot (ok a) (p.table a) else p.table a := by
  obtain ⟨o, -, he, hdial⟩ := h
  have htable := Pool.table_addAgent hp addr o.dialErr (o.clock addr) a
  have hnone := p.addAgent_none_iff addr o.dialErr (o.clock addr)
  rw [show p.addAgent addr o.dialErr (o.clock addr) = (r, p') from he] at htable hnone
  rw [htable]
  by_cases ha : a = addr
  · subst ha
    have hadd : r = none ↔ ok a = true ∨ p.table a ≠ .absent := by
      rw [hnone, hdial a rfl, ne_eq, Pool.table_eq_absent, not_not, or_comm]
    simp only [addSlot, hadd, true_and, ↓reduceIte]
  · simp [ha]

/-! ## One sync -/

/-- A sync run on its own, with any order of the live addresses. -/
def SyncAlone (ok : Addr → Bool) (grpcPort : String) (ep : Endpoints) (p p' : Pool) : Prop :=
  ∃ order tr, order.Nodup ∧ order.toFinset = liveAddrs grpcPort ep ∧
    Exec (DialStep ok) (fun _ _ => False) (syncEndpoints grpcPort ep order) p tr () p'

theorem exists_syncAlone (ok : Addr → Bool) (grpcPort : String) (ep : Endpoints) (p : Pool) :
    ∃ p', SyncAlone ok grpcPort ep p p' := by
  obtain ⟨tr, _, p', h⟩ := exists_exec (exists_dialStep ok) (fun _ _ => False)
    (syncEndpoints grpcPort ep (liveAddrs grpcPort ep).toList) p
  exact ⟨p', _, tr, Finset.nodup_toList _, Finset.toList_toFinset _, h⟩

/-- The adds of a sync act on the addresses of `order`. -/
theorem exec_adds_alone {α : Type} {k : PUnit → Prog PoolCmd PoolCmd.Ret α} {order : List Addr} :
    ∀ {p p' : Pool} {tr : List (Lts.Trans Pool PoolEvent)} {x : α}, PoolInv p → order.Nodup →
      Exec (DialStep ok) (fun _ _ => False)
        ((order.forM fun addr => do let _ ← call (.addAgent addr)) >>= k) p tr x p' →
      ∃ q rest, PoolInv q ∧
        (∀ a, q.table a = if a ∈ order then addSlot (ok a) (p.table a) else p.table a) ∧
        Exec (DialStep ok) (fun _ _ => False) (k ⟨⟩) q rest x p' := by
  induction order with
  | nil => intro p p' tr x hp _ h; exact ⟨p, tr, hp, by simp, h⟩
  | cons addr order ih =>
    intro p p' tr x hp hn h
    have h' : Exec (DialStep ok) (fun _ _ => False) (.op (.addAgent addr) fun _ =>
        (order.forM fun addr => do let _ ← call (.addAgent addr)) >>= k) p tr x p' := h
    obtain ⟨r, p₁, tr₁, hstep, rfl, hrest⟩ := h'.op_alone
    obtain ⟨q, rest, hq, htable, hk⟩ := ih (hp.step hstep.poolStep) hn.of_cons hrest
    refine ⟨q, rest, hq, fun a => ?_, hk⟩
    have hnot : addr ∉ order := (List.nodup_cons.1 hn).1
    rw [htable, hstep.table_addAgent hp]
    by_cases ha : a = addr
    · subst ha
      simp [hnot]
    · simp [ha]

/-- **What a sync does to each slot.** -/
theorem sync_table {grpcPort : String} {ep : Endpoints} {p p' : Pool} (hp : PoolInv p)
    (h : SyncAlone ok grpcPort ep p p') :
    PoolInv p' ∧ ∀ a, p'.table a =
      if a ∈ liveAddrs grpcPort ep then addSlot (ok a) (p.table a) else (p.table a).retire := by
  obtain ⟨order, tr, hn, hl, hx⟩ := h
  obtain ⟨q, rest, hq, htable, hrem⟩ := exec_adds_alone hp hn hx
  obtain ⟨_, q₁, tr₁, hstep, rfl, hcounts⟩ := hrem.op_alone
  obtain ⟨_, q₂, tr₂, ⟨o₂, -, he₂, -⟩, rfl, hfree⟩ := hcounts.op_alone
  obtain ⟨_, q₃, tr₃, ⟨o₃, -, he₃, -⟩, rfl, hret⟩ := hfree.op_alone
  -- the two counts only read
  obtain rfl : q₁ = q₂ := (Prod.mk.inj he₂).2
  obtain rfl : q₁ = q₃ := (Prod.mk.inj he₃).2
  obtain rfl : p' = q₁ := hret.ret_alone
  refine ⟨hq.step hstep.poolStep, fun a => ?_⟩
  obtain ⟨o, hr, he, -⟩ := hstep
  obtain ⟨-, rfl⟩ := Prod.mk.inj he
  rw [Pool.table_removeAgentsNotIn hr, htable]
  have hmem : a ∈ order ↔ a ∈ liveAddrs grpcPort ep := by rw [← hl, List.mem_toFinset]
  by_cases ha : a ∈ liveAddrs grpcPort ep
  · simp [hmem, ha]
  · simp [hmem, ha]

/-! ## Many syncs -/

/-- Syncs with the snapshots of a list in turn. -/
inductive Syncs (ok : Addr → Bool) (grpcPort : String) : Pool → List Endpoints → Pool → Prop
  | nil (p : Pool) : Syncs ok grpcPort p [] p
  | cons {p q r : Pool} {ep : Endpoints} {eps : List Endpoints} (h : SyncAlone ok grpcPort ep p q)
      (hs : Syncs ok grpcPort q eps r) : Syncs ok grpcPort p (ep :: eps) r

theorem exists_syncs (ok : Addr → Bool) (grpcPort : String) (eps : List Endpoints) (p : Pool) :
    ∃ p', Syncs ok grpcPort p eps p' := by
  induction eps generalizing p with
  | nil => exact ⟨p, .nil p⟩
  | cons ep eps ih =>
    obtain ⟨q, h⟩ := exists_syncAlone ok grpcPort ep p
    obtain ⟨r, hs⟩ := ih q
    exact ⟨r, .cons h hs⟩

/-- Every known agent can be dialed. -/
structure DialInv (ok : Addr → Bool) (p : Pool) : Prop where
  inv : PoolInv p
  dialable : ∀ a, p.table a ≠ .absent → ok a = true

theorem dialInv_newPool : DialInv ok Pool.newPool := ⟨poolInv_newPool, fun _ h => (h rfl).elim⟩

theorem DialInv.step {p p' : Pool} {e : PoolEvent} (hp : DialInv ok p) (hs : DialStep ok p e p') :
    DialInv ok p' := by
  refine ⟨hp.inv.step hs.poolStep, fun a ha => ?_⟩
  by_cases hold : p.table a = .absent
  · -- it was made known by an `AddAgent`
    have henl : (leaseOp ⟨p, e, p'⟩).Enlists a := by
      by_contra hnot
      exact ha (((PoolStep.refines hp.inv hs.poolStep).unlisted hnot).2 hold)
    obtain rfl : e = ⟨.addAgent a, none⟩ := addAgent_of_enlists henl
    rw [hs.table_addAgent hp.inv, if_pos rfl, addSlot, hold] at ha
    by_contra hok
    simp [hok] at ha
  · exact hp.dialable a hold

/-- The slot of an address after a sync, when it is known only if it can be dialed. -/
def syncedSlot (live ok : Bool) (s : Slot) : Slot :=
  if live then (if ok then s.enlist else .absent) else s.retire

theorem DialInv.sync_table {grpcPort : String} {ep : Endpoints} {p p' : Pool} (hp : DialInv ok p)
    (h : SyncAlone ok grpcPort ep p p') (a : Addr) :
    p'.table a = syncedSlot (a ∈ liveAddrs grpcPort ep) (ok a) (p.table a) := by
  rw [(Router.sync_table hp.inv h).2]
  have hd := hp.dialable a
  by_cases hl : a ∈ liveAddrs grpcPort ep
  · cases hok : ok a with
    | true => simp [syncedSlot, addSlot, hl]
    | false =>
      have habs : p.table a = .absent := by
        by_contra hne
        rw [hd hne] at hok
        cases hok
      simp [syncedSlot, addSlot, hl, habs]
  · simp [syncedSlot, hl]

theorem syncedSlot_ne_absent {live ok : Bool} {s : Slot} (hs : s ≠ .absent → ok = true)
    (h : syncedSlot live ok s ≠ .absent) : ok = true := by
  cases ok with
  | true => rfl
  | false =>
    have habs : s = .absent := by
      by_contra hne
      cases hs hne
    cases live <;> simp [syncedSlot, habs, Slot.retire] at h

theorem DialInv.sync {grpcPort : String} {ep : Endpoints} {p p' : Pool} (hp : DialInv ok p)
    (h : SyncAlone ok grpcPort ep p p') : DialInv ok p' := by
  refine ⟨(Router.sync_table hp.inv h).1, fun a ha => ?_⟩
  rw [hp.sync_table h] at ha
  exact syncedSlot_ne_absent (hp.dialable a) ha

theorem syncedSlot_syncedSlot {ok : Bool} {s : Slot} (hs : s ≠ .absent → ok = true)
    (live live' : Bool) : syncedSlot live ok (syncedSlot live' ok s) = syncedSlot live ok s := by
  cases ok with
  | true =>
    cases live <;> cases live' <;>
      simp [syncedSlot, Slot.enlist_enlist, Slot.enlist_retire, Slot.retire_enlist,
        Slot.retire_retire]
  | false =>
    have habs : s = .absent := by
      by_contra hne
      cases hs hne
    cases live <;> cases live' <;> simp [syncedSlot, habs, Slot.retire]

/-- After any list of syncs, one more leaves what it would leave alone. -/
theorem Syncs.last_table {grpcPort : String} {eps : List Endpoints} {ep : Endpoints} {p q : Pool}
    (h : Syncs ok grpcPort p (eps ++ [ep]) q) (hp : DialInv ok p) :
    PoolInv q ∧
      ∀ a, q.table a = syncedSlot (a ∈ liveAddrs grpcPort ep) (ok a) (p.table a) := by
  induction eps generalizing p with
  | nil =>
    cases h with
    | cons h hs =>
      cases hs
      exact ⟨(hp.sync h).inv, hp.sync_table h⟩
  | cons ep' eps ih =>
    cases h with
    | cons h hs =>
      obtain ⟨hq, htable⟩ := ih hs (hp.sync h)
      refine ⟨hq, fun a => ?_⟩
      rw [htable, hp.sync_table h, syncedSlot_syncedSlot (hp.dialable a)]

/-- **Only the last snapshot matters**: from every pool that calls with these dials reach, syncs
with the snapshots of a list in turn leave the same agents, with the same flags, as one sync with
the last of them. -/
theorem last_snapshot_matters {grpcPort : String} {s p q : Pool} {eps : List Endpoints}
    {ep : Endpoints} (hreach : Lts.Reachable (DialStep ok) Pool.newPool s)
    (hp : Syncs ok grpcPort s (eps ++ [ep]) p) (hq : Syncs ok grpcPort s [ep] q) :
    ∀ a, p.flags a = q.flags a := by
  have hs : DialInv ok s := hreach.invariant (fun _ _ _ hp hs => hp.step hs) dialInv_newPool
  obtain ⟨hpi, hpt⟩ := hp.last_table hs
  have hq' : Syncs ok grpcPort s ([] ++ [ep]) q := hq
  obtain ⟨hqi, hqt⟩ := hq'.last_table hs
  intro a
  rw [hpi.flags_eq, hqi.flags_eq, hpt, hqt]

theorem Pool.run_calls_dial {l : List (Outside × PoolCmd)} :
    ∀ {p : Pool}, p.OrdersOk l →
      (∀ x ∈ l, ∀ addr ∈ x.2.dials, (x.1.dialErr = none ↔ ok addr = true)) →
      Lts.Run (DialStep ok) p (p.calls l).1 (p.calls l).2 := by
  induction l with
  | nil => intro p _ _; exact .nil p
  | cons x l ih =>
    intro p h hd
    exact .cons ⟨x.1, h.1, rfl, hd x (by simp)⟩ (ih h.2 fun y hy => hd y (by simp [hy]))

/-- The service loses its only agent, which is leased, and gets it back next to a second one that
cannot be dialed. -/
theorem last_snapshot_matters_flapping :
    ∃ p q, Syncs (fun a => a = "10.0.0.7:50051") "50051" leasedPool
        ([⟨[]⟩] ++ [⟨[⟨[⟨"10.0.0.7"⟩, ⟨"10.0.0.8"⟩]⟩]⟩]) p ∧
      Syncs (fun a => a = "10.0.0.7:50051") "50051" leasedPool
        [⟨[⟨[⟨"10.0.0.7"⟩, ⟨"10.0.0.8"⟩]⟩]⟩] q ∧ ∀ a, p.flags a = q.flags a := by
  have hreach : Lts.Reachable (DialStep fun a => a = "10.0.0.7:50051") Pool.newPool leasedPool :=
    ⟨_, Pool.run_calls_dial ⟨by decide, by decide, trivial⟩ (by decide)⟩
  obtain ⟨p, hp⟩ := exists_syncs (fun a => a = "10.0.0.7:50051") "50051"
    ([⟨[]⟩] ++ [⟨[⟨[⟨"10.0.0.7"⟩, ⟨"10.0.0.8"⟩]⟩]⟩]) leasedPool
  obtain ⟨q, hq⟩ := exists_syncs (fun a => a = "10.0.0.7:50051") "50051"
    [⟨[⟨[⟨"10.0.0.7"⟩, ⟨"10.0.0.8"⟩]⟩]⟩] leasedPool
  exact ⟨p, q, hp, hq, last_snapshot_matters hreach hp hq⟩

end SocketTuner.Router
