import SocketTuner.Router.Pool

/-!
# What each pool method does to each entry

One lemma per method: the entry under an address after the call, as a function of the entry
before it. The two loops act on every entry independently, so their order does not matter
(`lookup_cleanupStaleAgents`, `lookup_removeAgentsNotIn`). Everything later is derived from these
lemmas and never unfolds a method.

`PoolInv` is the representation invariant: an entry is stored under its own address, and a pending
removal is only ever set on a busy entry.
-/

namespace SocketTuner.Router

open GoMap

namespace AgentClient

/-- A released entry: deleted when its removal is pending, else idle. -/
def released (ac : AgentClient) : Option AgentClient :=
  if ac.pendingRemoval then none else some { ac with busy := false }

/-- A removed entry: marked when busy, else deleted. -/
def removed (ac : AgentClient) : Option AgentClient :=
  if ac.busy then some { ac with pendingRemoval := true } else none

theorem released_eq_some {ac ac' : AgentClient} :
    ac.released = some ac' ↔ ac.pendingRemoval = false ∧ ac' = { ac with busy := false } := by
  cases hp : ac.pendingRemoval <;> simp [released, hp, eq_comm]

theorem removed_eq_some {ac ac' : AgentClient} :
    ac.removed = some ac' ↔ ac.busy = true ∧ ac' = { ac with pendingRemoval := true } := by
  cases hb : ac.busy <;> simp [removed, hb, eq_comm]

end AgentClient

namespace Pool

@[simp] theorem lookup_put (p : Pool) (addr a : Addr) (ac : AgentClient) :
    (p.put addr ac).agents.lookup a = if a = addr then some ac else p.agents.lookup a := by
  unfold put
  by_cases h : a = addr
  · subst h; simp
  · simp [h, Finmap.lookup_insert_of_ne]

@[simp] theorem lookup_drop (p : Pool) (addr a : Addr) (ac : AgentClient) :
    (p.drop addr ac).agents.lookup a = if a = addr then none else p.agents.lookup a := by
  unfold drop
  by_cases h : a = addr
  · subst h; simp
  · simp [h, Finmap.lookup_erase_ne]

theorem lookup_addAgent (p : Pool) (addr : Addr) (dialErr : Option String) (now : Time) (a : Addr) :
    (p.addAgent addr dialErr now).2.agents.lookup a =
      if a = addr then
        match p.agents.lookup a with
        | some ac => some { ac with pendingRemoval := false }
        | none => if dialErr.isSome then none else
          some { addr := a, conn := p.dialed, busy := false, lastActivity := now,
                 pendingRemoval := false }
      else p.agents.lookup a := by
  unfold addAgent
  by_cases ha : a = addr
  · subst ha
    cases h : p.agents.lookup a with
    | some ac =>
      obtain ⟨addr, conn, busy, lastActivity, pendingRemoval⟩ := ac
      cases pendingRemoval <;> simp [h]
    | none => cases dialErr <;> simp [h, put]
  · cases h : p.agents.lookup addr with
    | some ac => cases hp : ac.pendingRemoval <;> simp [hp, ha]
    | none => cases dialErr <;> simp [ha, put, Finmap.lookup_insert_of_ne]

/-- `AddAgent` returns no error exactly when the agent is in the pool afterwards. -/
theorem addAgent_ok_iff (p : Pool) (addr : Addr) (dialErr : Option String) (now : Time) :
    (p.addAgent addr dialErr now).1 = none ↔
      ((p.addAgent addr dialErr now).2.agents.lookup addr).isSome := by
  rw [lookup_addAgent]
  unfold addAgent
  cases h : p.agents.lookup addr with
  | some ac => cases hp : ac.pendingRemoval <;> simp [hp]
  | none => cases dialErr <;> simp

/-- `AddAgent` fails only where it has to dial and the dial fails. -/
theorem addAgent_none_iff (p : Pool) (addr : Addr) (dialErr : Option String) (now : Time) :
    (p.addAgent addr dialErr now).1 = none ↔ addr ∈ p.agents ∨ dialErr = none := by
  rw [Finmap.mem_iff]
  unfold addAgent
  cases h : p.agents.lookup addr with
  | some ac => cases hp : ac.pendingRemoval <;> simp [hp]
  | none => cases dialErr <;> simp

theorem lookup_removeAgent (p : Pool) (addr a : Addr) :
    (p.removeAgent addr).agents.lookup a =
      if a = addr then (p.agents.lookup a).bind AgentClient.removed else p.agents.lookup a := by
  unfold removeAgent
  by_cases ha : a = addr
  · subst ha
    cases h : p.agents.lookup a with
    | none => simp [h]
    | some ac => cases hb : ac.busy <;> simp [AgentClient.removed, hb]
  · cases h : p.agents.lookup addr with
    | none => simp [ha]
    | some ac => cases hb : ac.busy <;> simp [hb, ha]

theorem lookup_freeAgent (p : Pool) (addr a : Addr) :
    (p.freeAgent addr).agents.lookup a =
      if a = addr then (p.agents.lookup a).bind AgentClient.released else p.agents.lookup a := by
  unfold freeAgent
  by_cases ha : a = addr
  · subst ha
    cases h : p.agents.lookup a with
    | none => simp [h]
    | some ac => cases hp : ac.pendingRemoval <;> simp [AgentClient.released, hp]
  · cases h : p.agents.lookup addr with
    | none => simp [ha]
    | some ac => cases hp : ac.pendingRemoval <;> simp [hp, ha]

theorem lookup_touchAgent (p : Pool) (addr : Addr) (now : Time) (a : Addr) :
    (p.touchAgent addr now).agents.lookup a =
      if a = addr then (p.agents.lookup a).map fun ac => { ac with lastActivity := now }
      else p.agents.lookup a := by
  unfold touchAgent
  by_cases ha : a = addr
  · subst ha
    cases h : p.agents.lookup a <;> simp [h]
  · cases h : p.agents.lookup addr <;> simp [ha]

theorem local_cleanupEntry (timeout : Duration) (clock : Addr → Time) :
    Local Pool.agents (cleanupEntry timeout clock) fun a ac =>
      if ac.isStale timeout (clock a) then ac.released else some ac := by
  intro p a ac hac a'
  unfold cleanupEntry
  cases hs : ac.isStale timeout (clock a)
  · by_cases ha : a' = a
    · subst ha; simp [hs, hac]
    · simp [ha]
  · cases hp : ac.pendingRemoval <;> simp [hs, AgentClient.released, hp]

theorem lookup_cleanupStaleAgents {p : Pool} {order : List Addr} (h : IsRange p.agents order)
    (timeout : Duration) (clock : Addr → Time) (a : Addr) :
    (p.cleanupStaleAgents timeout order clock).agents.lookup a =
      (p.agents.lookup a).bind fun ac =>
        if ac.isStale timeout (clock a) then ac.released else some ac :=
  lookup_forRange (local_cleanupEntry timeout clock) h a

theorem local_removeEntry (liveAddrs : Finset Addr) :
    Local Pool.agents (removeEntry liveAddrs) fun a ac =>
      if a ∈ liveAddrs then some ac else ac.removed := by
  intro p a ac hac a'
  unfold removeEntry
  by_cases hl : a ∈ liveAddrs
  · by_cases ha : a' = a
    · subst ha; simp [hl, hac]
    · simp [hl, ha]
  · cases hb : ac.busy <;> simp [hl, AgentClient.removed, hb]

theorem lookup_removeAgentsNotIn {p : Pool} {order : List Addr} (h : IsRange p.agents order)
    (liveAddrs : Finset Addr) (a : Addr) :
    (p.removeAgentsNotIn liveAddrs order).agents.lookup a =
      (p.agents.lookup a).bind fun ac => if a ∈ liveAddrs then some ac else ac.removed :=
  lookup_forRange (local_removeEntry liveAddrs) h a

theorem agents_close (p : Pool) (order : List Addr) : (p.close order).agents = p.agents := by
  refine forRange_invariant (I := fun q : Pool => q.agents = p.agents) ?_ order rfl
  intro q _ _ hq _
  exact hq

/-! ## Locking -/

/-- `LockFreeAgent` returns an entry that was free, now busy, and writes nothing else. -/
theorem lockFreeAgent_ok {p p' : Pool} {order : List Addr} {clock : Addr → Time} {ac : AgentClient}
    (h : p.lockFreeAgent order clock = (.ok ac, p')) :
    ∃ addr old, p.agents.lookup addr = some old ∧ old.isFree = true ∧
      ac = { old with busy := true, lastActivity := clock addr } ∧ p' = p.put addr ac := by
  unfold lockFreeAgent at h
  cases hf : findRange p.agents AgentClient.isFree order with
  | none => simp [hf] at h
  | some x =>
    obtain ⟨addr, old⟩ := x
    simp only [hf, Prod.mk.injEq, Except.ok.injEq] at h
    obtain ⟨hold, hfree⟩ := findRange_some hf
    obtain ⟨rfl, rfl⟩ := h
    exact ⟨addr, old, hold, hfree, rfl, rfl⟩

/-- A rejected `LockFreeAgent` changes nothing, and no agent was free. -/
theorem lockFreeAgent_error {p p' : Pool} {order : List Addr} {clock : Addr → Time} {err : String}
    (hr : IsRange p.agents order) (h : p.lockFreeAgent order clock = (.error err, p')) :
    p' = p ∧ ∀ a ac, p.agents.lookup a = some ac → ac.isFree = false := by
  unfold lockFreeAgent at h
  cases hf : findRange p.agents AgentClient.isFree order with
  | some x => simp [hf] at h
  | none =>
    simp only [hf, Prod.mk.injEq] at h
    refine ⟨h.2.symm, fun a ac hac => ?_⟩
    have ha : a ∈ order := by
      rw [hr.mem_iff, Finmap.mem_iff]; exact ⟨ac, hac⟩
    exact findRange_none hf ha hac

/-- Any free agent is the one locked in some iteration order. -/
theorem exists_order_locks {p : Pool} {a : Addr} {ac : AgentClient}
    (hac : p.agents.lookup a = some ac) (hf : ac.isFree = true) (clock : Addr → Time) :
    ∃ order, IsRange p.agents order ∧ p.lockFreeAgent order clock =
      (.ok { ac with busy := true, lastActivity := clock a },
        p.put a { ac with busy := true, lastActivity := clock a }) := by
  have ha : a ∈ p.agents := Finmap.mem_iff.2 ⟨ac, hac⟩
  obtain ⟨rest, hr⟩ := exists_isRange_cons ha
  refine ⟨a :: rest, hr, ?_⟩
  unfold lockFreeAgent
  simp [findRange, hac, hf]

end Pool

/-! ## The representation invariant -/

/-- Every entry is stored under its own address, and only a busy entry is pending removal. -/
structure PoolInv (p : Pool) : Prop where
  addr_eq : ∀ {a ac}, p.agents.lookup a = some ac → ac.addr = a
  pending_busy : ∀ {a ac}, p.agents.lookup a = some ac → ac.pendingRemoval = true → ac.busy = true

theorem PoolInv.getAgentBySession_addr {p : Pool} (hp : PoolInv p) {a : Addr} {ac : AgentClient}
    (h : p.getAgentBySession a = .ok ac) : ac.addr = a := by
  unfold Pool.getAgentBySession at h
  split at h
  · next hac => cases h; exact hp.addr_eq hac
  · cases h

theorem poolInv_newPool : PoolInv Pool.newPool where
  addr_eq h := by cases h
  pending_busy h := by cases h

/-- The two facts the invariant states about one entry. -/
def EntryOk (a : Addr) (x : Option AgentClient) : Prop :=
  ∀ ac, x = some ac → ac.addr = a ∧ (ac.pendingRemoval = true → ac.busy = true)

theorem poolInv_iff {p : Pool} : PoolInv p ↔ ∀ a, EntryOk a (p.agents.lookup a) :=
  ⟨fun h _ _ hac => ⟨h.addr_eq hac, h.pending_busy hac⟩,
   fun h => ⟨fun hac => (h _ _ hac).1, fun hac => (h _ _ hac).2⟩⟩

theorem EntryOk.released {a : Addr} {x : Option AgentClient} (h : EntryOk a x) :
    EntryOk a (x.bind AgentClient.released) := by
  intro ac hac
  obtain ⟨old, rfl, hr⟩ := Option.bind_eq_some_iff.1 hac
  obtain ⟨hp, rfl⟩ := AgentClient.released_eq_some.1 hr
  exact ⟨(h old rfl).1, fun hp' => absurd hp' (by simp [hp])⟩

theorem EntryOk.removed {a : Addr} {x : Option AgentClient} (h : EntryOk a x) :
    EntryOk a (x.bind AgentClient.removed) := by
  intro ac hac
  obtain ⟨old, rfl, hr⟩ := Option.bind_eq_some_iff.1 hac
  obtain ⟨hb, rfl⟩ := AgentClient.removed_eq_some.1 hr
  exact ⟨(h old rfl).1, fun _ => hb⟩

/-- **Every method keeps the invariant.** -/
theorem PoolInv.step {p p' : Pool} {e : PoolEvent} (hp : PoolInv p) (hs : PoolStep p e p') :
    PoolInv p' := by
  obtain ⟨o, hr, he⟩ := hs
  obtain ⟨c, r⟩ := e
  rw [poolInv_iff] at hp ⊢
  have hp' : p' = (c.exec o p).2 := by rw [he]
  intro a
  have ha := hp a
  cases c with
  | addAgent addr =>
    subst hp'
    simp only [PoolCmd.exec, Pool.lookup_addAgent]
    split
    · next e =>
      intro ac hac
      cases hx : p.agents.lookup a with
      | some old =>
        simp only [hx, Option.some.injEq] at hac
        subst hac
        exact ⟨(ha old hx).1, fun h => by cases h⟩
      | none =>
        simp only [hx] at hac
        split at hac
        · cases hac
        · cases hac; exact ⟨rfl, fun h => by cases h⟩
    · exact ha
  | removeAgent addr =>
    subst hp'
    simp only [PoolCmd.exec, Pool.lookup_removeAgent]
    split
    · exact ha.removed
    · exact ha
  | lockFreeAgent =>
    cases r with
    | error err =>
      obtain ⟨rfl, -⟩ := Pool.lockFreeAgent_error hr he
      exact ha
    | ok ac =>
      obtain ⟨addr, old, hold, hfree, rfl, rfl⟩ := Pool.lockFreeAgent_ok he
      intro ac hac
      rw [Pool.lookup_put] at hac
      split at hac
      · next e =>
        subst e
        cases hac
        exact ⟨(ha old hold).1, fun _ => rfl⟩
      · exact ha ac hac
  | freeAgent addr =>
    subst hp'
    simp only [PoolCmd.exec, Pool.lookup_freeAgent]
    split
    · exact ha.released
    · exact ha
  | touchAgent addr =>
    subst hp'
    simp only [PoolCmd.exec, Pool.lookup_touchAgent]
    split
    · intro ac hac
      obtain ⟨old, hold, rfl⟩ := Option.map_eq_some_iff.1 hac
      exact ha old hold
    · exact ha
  | cleanupStaleAgents timeout =>
    subst hp'
    simp only [PoolCmd.exec, Pool.lookup_cleanupStaleAgents hr]
    intro ac hac
    obtain ⟨old, hold, h⟩ := Option.bind_eq_some_iff.1 hac
    split at h
    · exact ha.released ac (by rw [hold]; exact h)
    · cases h; exact ha _ hold
  | removeAgentsNotIn liveAddrs =>
    subst hp'
    simp only [PoolCmd.exec, Pool.lookup_removeAgentsNotIn hr]
    intro ac hac
    obtain ⟨old, hold, h⟩ := Option.bind_eq_some_iff.1 hac
    split at h
    · cases h; exact ha _ hold
    · exact ha.removed ac (by rw [hold]; exact h)
  | close => subst hp'; simp only [PoolCmd.exec, Pool.agents_close]; exact ha
  | getAgentBySession _ | freeCount | totalCount => subst hp'; exact ha

theorem PoolReachable.inv {p : Pool} (h : PoolReachable p) : PoolInv p :=
  Lts.Reachable.invariant (fun _ _ _ hp hs => hp.step hs) h poolInv_newPool

end SocketTuner.Router
