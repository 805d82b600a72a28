import SocketTuner.Router.Lease
import SocketTuner.Lib.Handles

/-!
# The life of an agent

Its connection: the pool is a table of handles (`Pool.handles`), every method but `Close` being one
move of it (`PoolStep.handles_move`), the loops included. Over a run without `Close` the open
connections are exactly the stored ones, each is closed once, when its entry is deleted, and the
one handed out by a lock stays under its address until the lease ends (`connection_lifecycle`).

Its disappearance: an agent that was removed is not listed any more, and only `AddAgent` lists it
again. So it is never leased again, and it is gone as soon as its lease ends
(`vanished_never_leased`).
-/

namespace SocketTuner.Router

open GoMap LeaseTable

/-! ## Connections -/

namespace Pool

/-- The connections as a table of handles. -/
def handles (p : Pool) : Handles Addr where
  stored a := (p.agents.lookup a).map AgentClient.conn
  opened := p.dialed
  closed := p.closed

theorem handles_put {p : Pool} {addr : Addr} {old ac : AgentClient}
    (h : p.agents.lookup addr = some old) (hc : ac.conn = old.conn) :
    (p.put addr ac).handles = p.handles := by
  unfold handles
  congr 1
  funext a
  rw [lookup_put]
  split
  · next e => subst e; simp [h, hc]
  · rfl

theorem handles_drop (p : Pool) (addr : Addr) (ac : AgentClient) :
    (p.drop addr ac).handles = p.handles.closeUnder addr ac.conn := by
  unfold handles Handles.closeUnder
  congr 1
  funext a
  rw [lookup_drop]
  split
  · next e => subst e; simp
  · next e => rw [Function.update_of_ne e]

theorem closes_put {p : Pool} {addr : Addr} {old ac : AgentClient}
    (h : p.agents.lookup addr = some old) (hc : ac.conn = old.conn) :
    Relation.ReflTransGen Handles.Closes p.handles (p.put addr ac).handles := by
  rw [handles_put h hc]

theorem closes_drop {p : Pool} {addr : Addr} {old ac : AgentClient}
    (h : p.agents.lookup addr = some old) (hc : ac.conn = old.conn) :
    Relation.ReflTransGen Handles.Closes p.handles (p.drop addr ac).handles := by
  refine .single ⟨addr, ac.conn, ?_, handles_drop p addr ac⟩
  simp [handles, h, hc]

theorem handles_addAgent (p : Pool) (addr : Addr) (dialErr : Option String) (now : Time) :
    Handles.Move p.handles (p.addAgent addr dialErr now).2.handles := by
  unfold addAgent
  cases h : p.agents.lookup addr with
  | some ac =>
    cases hp : ac.pendingRemoval
    · simp only [hp, Bool.false_eq_true, ↓reduceIte]
      exact .refl _
    · simp only [hp, ↓reduceIte]
      exact .inr (closes_put h rfl)
  | none =>
    cases dialErr with
    | some err => exact .refl _
    | none =>
      refine .inl ⟨addr, by simp [handles, h], ?_⟩
      simp only [handles, Handles.openUnder, put]
      congr 1
      funext a
      by_cases e : a = addr
      · subst e; simp
      · simp [e, Finmap.lookup_insert_of_ne]

theorem closes_removeAgent (p : Pool) (addr : Addr) :
    Relation.ReflTransGen Handles.Closes p.handles (p.removeAgent addr).handles := by
  unfold removeAgent
  cases h : p.agents.lookup addr with
  | none => exact .refl
  | some ac =>
    simp only
    split
    · exact closes_put h rfl
    · exact closes_drop h rfl

theorem closes_freeAgent (p : Pool) (addr : Addr) :
    Relation.ReflTransGen Handles.Closes p.handles (p.freeAgent addr).handles := by
  unfold freeAgent
  cases h : p.agents.lookup addr with
  | none => exact .refl
  | some ac =>
    simp only
    split
    · exact closes_drop h rfl
    · exact closes_put h rfl

theorem closes_touchAgent (p : Pool) (addr : Addr) (now : Time) :
    Relation.ReflTransGen Handles.Closes p.handles (p.touchAgent addr now).handles := by
  unfold touchAgent
  cases h : p.agents.lookup addr with
  | none => exact .refl
  | some ac => exact closes_put h rfl

theorem closes_cleanupStaleAgents (p : Pool) (timeout : Duration) (order : List Addr)
    (clock : Addr → Time) :
    Relation.ReflTransGen Handles.Closes p.handles
      (p.cleanupStaleAgents timeout order clock).handles := by
  refine forRange_invariant
    (I := fun q : Pool => Relation.ReflTransGen Handles.Closes p.handles q.handles) ?_ order .refl
  intro q a ac hq hac
  refine hq.trans ?_
  unfold cleanupEntry
  split
  · simp only
    split
    · exact closes_drop hac rfl
    · exact closes_put hac rfl
  · exact .refl

theorem closes_removeAgentsNotIn (p : Pool) (live : Finset Addr) (order : List Addr) :
    Relation.ReflTransGen Handles.Closes p.handles (p.removeAgentsNotIn live order).handles := by
  refine forRange_invariant
    (I := fun q : Pool => Relation.ReflTransGen Handles.Closes p.handles q.handles) ?_ order .refl
  intro q a ac hq hac
  refine hq.trans ?_
  unfold removeEntry
  split
  · exact .refl
  · split
    · exact closes_put hac rfl
    · exact closes_drop hac rfl

end Pool

/-- **Every method but `Close` is one move of the handle table.** -/
theorem PoolStep.handles_move {p p' : Pool} {e : PoolEvent} (hs : PoolStep p e p')
    (hc : e.1 ≠ .close) : Handles.Move p.handles p'.handles := by
  obtain ⟨o, hr, he⟩ := hs
  obtain ⟨c, r⟩ := e
  cases c with
  | addAgent addr =>
    have h := p.handles_addAgent addr o.dialErr (o.clock addr)
    rwa [show p.addAgent addr o.dialErr (o.clock addr) = (r, p') from he] at h
  | lockFreeAgent =>
    cases r with
    | error err =>
      obtain ⟨rfl, -⟩ := Pool.lockFreeAgent_error hr he
      exact .refl _
    | ok ac =>
      obtain ⟨addr, old, hold, -, rfl, rfl⟩ := Pool.lockFreeAgent_ok he
      exact .inr (Pool.closes_put hold rfl)
  | removeAgent addr =>
    obtain ⟨-, rfl⟩ := Prod.mk.inj he
    exact .inr (p.closes_removeAgent addr)
  | freeAgent addr =>
    obtain ⟨-, rfl⟩ := Prod.mk.inj he
    exact .inr (p.closes_freeAgent addr)
  | touchAgent addr =>
    obtain ⟨-, rfl⟩ := Prod.mk.inj he
    exact .inr (p.closes_touchAgent addr _)
  | cleanupStaleAgents timeout =>
    obtain ⟨-, rfl⟩ := Prod.mk.inj he
    exact .inr (p.closes_cleanupStaleAgents timeout _ _)
  | removeAgentsNotIn live =>
    obtain ⟨-, rfl⟩ := Prod.mk.inj he
    exact .inr (p.closes_removeAgentsNotIn live _)
  | close => exact absurd rfl hc
  | getAgentBySession _ | freeCount | totalCount =>
    obtain ⟨-, rfl⟩ := Prod.mk.inj he
    exact .refl _

namespace Pool

/-- The connection was dialed and not closed. -/
def OpenConn (p : Pool) (c : ConnId) : Prop := c < p.dialed ∧ c ∉ p.closed

/-- The connection is that of the entry of the address. -/
def Stored (p : Pool) (a : Addr) (c : ConnId) : Prop :=
  ∃ ac, p.agents.lookup a = some ac ∧ ac.conn = c

theorem stored_iff {p : Pool} {a : Addr} {c : ConnId} :
    p.Stored a c ↔ p.handles.stored a = some c := by
  simp [Stored, handles]

theorem handles_stored_none {p : Pool} {a : Addr} : p.handles.stored a = none ↔ a ∉ p.agents := by
  simp [handles, Finmap.lookup_eq_none]

end Pool

/-- The open connections are the stored ones, one per address, and none was closed twice. -/
structure ExactConns (p : Pool) : Prop where
  open_iff : ∀ c, p.OpenConn c ↔ ∃ a, p.Stored a c
  one : ∀ {a b c}, p.Stored a c → p.Stored b c → a = b
  once : p.closed.Nodup

theorem exactConns_of_sound {p : Pool} (h : p.handles.Sound) : ExactConns p where
  open_iff c := by
    constructor
    · intro hc
      obtain ⟨a, ha⟩ := h.stored_of_open hc
      exact ⟨a, Pool.stored_iff.2 ha⟩
    · rintro ⟨a, ha⟩
      exact h.open_of_stored (Pool.stored_iff.1 ha)
  one ha hb := h.injective (Pool.stored_iff.1 ha) (Pool.stored_iff.1 hb)
  once := h.nodup

/-- The pool with its representation invariant and a sound table of connections. -/
structure ConnInv (p : Pool) : Prop where
  inv : PoolInv p
  sound : p.handles.Sound

theorem connInv_newPool : ConnInv Pool.newPool := ⟨poolInv_newPool, Handles.sound_empty⟩

theorem ConnInv.step {p p' : Pool} {e : PoolEvent} (h : ConnInv p) (hs : PoolStep p e p')
    (hc : e.1 ≠ .close) : ConnInv p' :=
  ⟨h.inv.step hs, h.sound.move (hs.handles_move hc)⟩

/-- The agent is leased over this connection. -/
structure LeasedOver (a : Addr) (c : ConnId) (p : Pool) : Prop where
  conns : ConnInv p
  leased : p.Leased a
  stored : p.Stored a c

theorem LeasedOver.step {a : Addr} {c : ConnId} {p p' : Pool} {e : PoolEvent}
    (h : LeasedOver a c p) (hs : PoolStep p e p') (hc : e.1 ≠ .close)
    (hend : ¬EndsLease a ⟨p, e, p'⟩) : LeasedOver a c p' := by
  have hl : p'.Leased a := by
    rw [Pool.leased_iff]
    refine (PoolStep.refines h.conns.inv hs).held (Pool.leased_iff.1 h.leased) ?_
    exact fun hr => hend (endsLease_of_releases hr)
  refine ⟨h.conns.step hs hc, hl, Pool.stored_iff.2 ?_⟩
  rcases (hs.handles_move hc).keeps (Pool.stored_iff.1 h.stored) with hkept | hgone
  · exact hkept
  · -- the entry is still there
    obtain ⟨ac, hac, -⟩ := hl
    rw [Pool.handles_stored_none, ← Finmap.lookup_eq_none, hac] at hgone
    cases hgone

/-- A lock hands out the connection of the agent it locks. -/
theorem leasedOver_of_lock {p p' : Pool} {ac : AgentClient} (hp : ConnInv p)
    (hs : PoolStep p ⟨.lockFreeAgent, .ok ac⟩ p') : LeasedOver ac.addr ac.conn p' := by
  have hp' : ConnInv p' := hp.step hs (by simp)
  obtain ⟨o, -, he⟩ := hs
  obtain ⟨addr, old, hold, -, rfl, rfl⟩ := Pool.lockFreeAgent_ok he
  have haddr : old.addr = addr := hp.inv.addr_eq hold
  refine ⟨hp', ⟨_, by rw [Pool.lookup_put, haddr, if_pos rfl], rfl⟩,
    ⟨_, by rw [Pool.lookup_put, haddr, if_pos rfl], rfl⟩⟩

/-- **The life of a connection**, over every sequence of pool operations without `Close`: in every
state the open connections are exactly the stored ones, one per address, and none was closed twice;
a call closes a connection exactly when it deletes its entry; and the connection a lock hands out
stays open and stored under its address until a call that ends the lease. -/
theorem connection_lifecycle {tr : List (Lts.Trans Pool PoolEvent)} {p : Pool}
    (h : Lts.Run PoolStep Pool.newPool tr p) (hno : ∀ x ∈ tr, x.lab.1 ≠ .close) :
    (ExactConns p ∧ ∀ x ∈ tr, ExactConns x.src ∧ ExactConns x.dst) ∧
    (∀ x ∈ tr, ∀ c, (c ∉ x.src.closed ∧ c ∈ x.dst.closed) ↔
      ∃ a, x.src.Stored a c ∧ a ∉ x.dst.agents) ∧
    ∀ pre x mid post ac, tr = pre ++ (x :: mid ++ post) → x.lab = ⟨.lockFreeAgent, .ok ac⟩ →
      (∀ z ∈ mid, ¬EndsLease ac.addr z) →
      ∀ y ∈ x :: mid, y.dst.Stored ac.addr ac.conn ∧ y.dst.OpenConn ac.conn := by
  have hkeep : ∀ q e q', ConnInv q → PoolStep q e q' ∧ e.1 ≠ .close → ConnInv q' :=
    fun _ _ _ hq hs => hq.step hs.1 hs.2
  have hrun := h.restrict hno
  have hmem := hrun.invariant_mem hkeep connInv_newPool
  refine ⟨⟨exactConns_of_sound (hrun.invariant hkeep connInv_newPool).sound, fun x hx =>
    ⟨exactConns_of_sound (hmem x hx).1.sound, exactConns_of_sound (hmem x hx).2.sound⟩⟩, ?_, ?_⟩
  · intro x hx c
    have hmove := (h.step_of_mem x hx).handles_move (hno x hx)
    have hiff := (hmem x hx).1.sound.closed_iff_forgotten hmove c
    simp only [Pool.handles_stored_none, ← Pool.stored_iff] at hiff
    exact hiff
  · rintro pre x mid post ac rfl hlab hmid y hy
    obtain ⟨_, hpre, hrest⟩ := hrun.split
    obtain ⟨_, hlease, -⟩ := hrest.split
    obtain ⟨rfl, hx, hafter⟩ := hlease.head
    have hlock : LeasedOver ac.addr ac.conn x.dst := by
      refine leasedOver_of_lock (hpre.invariant hkeep connInv_newPool) ?_
      rw [← hlab]
      exact hx.1
    have hover : LeasedOver ac.addr ac.conn y.dst := by
      rcases List.mem_cons.1 hy with rfl | hy
      · exact hlock
      · exact ((hafter.restrict hmid).invariant_mem
          (fun _ _ _ hq hs => hq.step hs.1.1 hs.1.2 hs.2) hlock y hy).2
    exact ⟨hover.stored, hover.conns.sound.open_of_stored (Pool.stored_iff.1 hover.stored)⟩

/-- A leased agent is removed, added again beside another one, touched and passed over by a
cleanup before its lease ends. -/
def overlapCalls : List (Outside × PoolCmd) :=
  [({}, .addAgent "10.0.0.7:50051"),
   ({ order := ["10.0.0.7:50051"] }, .lockFreeAgent),
   ({ order := ["10.0.0.7:50051"] }, .removeAgent "10.0.0.7:50051"),
   ({ order := ["10.0.0.7:50051"] }, .addAgent "10.0.0.8:50051"),
   ({ order := ["10.0.0.7:50051", "10.0.0.8:50051"] }, .addAgent "10.0.0.7:50051"),
   ({ order := ["10.0.0.7:50051", "10.0.0.8:50051"] }, .touchAgent "10.0.0.7:50051"),
   ({ order := ["10.0.0.7:50051", "10.0.0.8:50051"] }, .cleanupStaleAgents 300),
   ({ order := ["10.0.0.7:50051", "10.0.0.8:50051"] }, .freeAgent "10.0.0.7:50051")]

theorem overlapCalls_ok : Pool.newPool.OrdersOk overlapCalls :=
  ⟨by decide, by decide, by decide, by decide, by decide, by decide, by decide, by decide, trivial⟩

theorem connection_lifecycle_overlap :
    ExactConns (Pool.newPool.calls overlapCalls).2 ∧
    ∀ y ∈ ((Pool.newPool.calls overlapCalls).1.drop 1).take 6,
      y.dst.Stored "10.0.0.7:50051" 0 ∧ y.dst.OpenConn 0 := by
  obtain ⟨⟨hexact, -⟩, -, hlease⟩ :=
    connection_lifecycle (Pool.run_calls overlapCalls_ok) (by decide)
  refine ⟨hexact, hlease ((Pool.newPool.calls overlapCalls).1.take 1) _
    (((Pool.newPool.calls overlapCalls).1.drop 2).take 5)
    ((Pool.newPool.calls overlapCalls).1.drop 7) _ rfl rfl ?_⟩
  have hkept : ∀ z ∈ ((Pool.newPool.calls overlapCalls).1.drop 2).take 5,
      z.lab.1 ≠ .freeAgent "10.0.0.7:50051" ∧ z.dst.Leased "10.0.0.7:50051" := by decide
  rintro z hz (hfree | ⟨timeout, -, -, hgone⟩)
  · exact (hkept z hz).1 (congrArg Sigma.fst hfree)
  · exact hgone (hkept z hz).2

/-! ## Vanished agents -/

/-- A call that removes the agent: `RemoveAgent(a)`, or `RemoveAgentsNotIn` of addresses without
`a`. -/
def Removes (a : Addr) : PoolEvent → Prop
  | ⟨.removeAgent addr, _⟩ => addr = a
  | ⟨.removeAgentsNotIn live, _⟩ => a ∉ live
  | _ => False

theorem unlisted_of_removes {p p' : Pool} {e : PoolEvent} {a : Addr} (hs : PoolStep p e p')
    (he : Removes a e) : ¬(p'.table a).Listed := by
  obtain ⟨c, r⟩ := e
  cases c with
  | removeAgent addr =>
    obtain rfl : addr = a := he
    obtain ⟨o, -, he⟩ := hs
    obtain ⟨-, rfl⟩ := Prod.mk.inj he
    rw [Pool.table_removeAgent, if_pos rfl]
    exact Slot.not_listed_retire _
  | removeAgentsNotIn live =>
    have hlive : a ∉ live := he
    obtain ⟨o, hr, he⟩ := hs
    obtain ⟨-, rfl⟩ := Prod.mk.inj he
    rw [Pool.table_removeAgentsNotIn hr, if_neg hlive]
    exact Slot.not_listed_retire _
  | _ => exact he.elim

/-- The agent was removed and not added since. -/
structure Vanished (a : Addr) (p : Pool) : Prop where
  inv : PoolInv p
  unlisted : ¬(p.table a).Listed

theorem Vanished.step {a : Addr} {p p' : Pool} {e : PoolEvent} (h : Vanished a p)
    (hs : PoolStep p e p') (hadd : e.1 ≠ .addAgent a) : Vanished a p' := by
  refine ⟨h.inv.step hs, ((PoolStep.refines h.inv hs).unlisted ?_).1 h.unlisted⟩
  intro henl
  exact hadd (by rw [show e = _ from addAgent_of_enlists henl])

theorem releases_of_endsLease {a : Addr} {x : Lts.Trans Pool PoolEvent} (h : EndsLease a x) :
    (leaseOp x).Releases a := by
  unfold leaseOp
  rcases h with hlab | ⟨timeout, hlab, hl, hnl⟩
  · rw [hlab]
    exact Set.mem_singleton a
  · rw [hlab]
    exact ⟨hl, hnl⟩

/-- A `CleanupStaleAgents` call that finds the agent busy and without activity for `timeout`. -/
def FindsStale (a : Addr) (x : Lts.Trans Pool PoolEvent) : Prop :=
  ∃ timeout order clock ac, x.lab = ⟨.cleanupStaleAgents timeout, ()⟩ ∧
    IsRange x.src.agents order ∧ x.dst = x.src.cleanupStaleAgents timeout order clock ∧
    x.src.agents.lookup a = some ac ∧ ac.isStale timeout (clock a) = true

theorem endsLease_of_findsStale {a : Addr} {x : Lts.Trans Pool PoolEvent} (h : FindsStale a x) :
    EndsLease a x := by
  obtain ⟨timeout, order, clock, ac, hlab, hr, hdst, hac, hstale⟩ := h
  have hbusy : ac.busy = true := by
    simp only [AgentClient.isStale, Bool.and_eq_true] at hstale
    exact hstale.1
  refine .inr ⟨timeout, hlab, ⟨ac, hac, hbusy⟩, ?_⟩
  rintro ⟨ac', hac', hbusy'⟩
  rw [hdst, Pool.lookup_cleanupStaleAgents hr, hac, Option.bind_some, if_pos hstale] at hac'
  obtain ⟨-, rfl⟩ := AgentClient.released_eq_some.1 hac'
  cases hbusy'

theorem Vanished.gone {a : Addr} {x : Lts.Trans Pool PoolEvent} (h : Vanished a x.src)
    (hs : PoolStep x.src x.lab x.dst) (hend : EndsLease a x) : a ∉ x.dst.agents := by
  rw [← Pool.table_eq_absent,
    (PoolStep.refines h.inv hs).release_eq (releases_of_endsLease hend)]
  exact Slot.release_of_unlisted h.unlisted

/-- **A vanished agent is never leased again**: after a call that removes it, and as long as it is
not added, no lock returns it, it is not among the free agents that `FreeCount` counts, and the
call that ends its lease deletes it. -/
theorem vanished_never_leased {p q r : Pool} {e : PoolEvent} {a : Addr}
    {tr : List (Lts.Trans Pool PoolEvent)} (hreach : PoolReachable p) (hs : PoolStep p e q)
    (he : Removes a e) (hrun : Lts.Run PoolStep q tr r) (hadd : ∀ x ∈ tr, x.lab.1 ≠ .addAgent a) :
    (∀ x ∈ tr, ¬Locks a x) ∧
    (a ∉ keysWhere q.agents AgentClient.isFree ∧
      ∀ x ∈ tr, a ∉ keysWhere x.dst.agents AgentClient.isFree) ∧
    ∀ x ∈ tr, x.lab = ⟨.freeAgent a, ()⟩ ∨ FindsStale a x → a ∉ x.dst.agents := by
  have hq : Vanished a q := ⟨hreach.inv.step hs, unlisted_of_removes hs he⟩
  have hmem := (hrun.restrict hadd).invariant_mem (I := Vanished a)
    (fun _ _ _ hv hs => hv.step hs.1 hs.2) hq
  have hfree : ∀ {s}, Vanished a s → a ∉ keysWhere s.agents AgentClient.isFree := by
    intro s hv hf
    exact hv.unlisted (.inl (hv.inv.mem_free.1 hf))
  refine ⟨fun x hx hlock => ?_, ⟨hfree hq, fun x hx => hfree (hmem x hx).2⟩, fun x hx hend => ?_⟩
  · have hstep := PoolStep.refines (hmem x hx).1.inv (hrun.step_of_mem x hx)
    rw [leaseOp_of_locks hlock] at hstep
    exact (hmem x hx).1.unlisted (.inl hstep.lock_iff.1)
  · exact (hmem x hx).1.gone (hrun.step_of_mem x hx) (hend.elim .inl endsLease_of_findsStale)

/-- The leased agent is removed, touched and released. -/
def vanishingCalls : List (Outside × PoolCmd) :=
  [({ order := ["10.0.0.7:50051"] }, .touchAgent "10.0.0.7:50051"),
   ({ order := ["10.0.0.7:50051"] }, .freeAgent "10.0.0.7:50051")]

theorem vanishingCalls_ok :
    (leasedPool.removeAgent "10.0.0.7:50051").OrdersOk vanishingCalls :=
  ⟨by decide, by decide, trivial⟩

theorem vanished_never_leased_freed :
    "10.0.0.7:50051" ∉
      ((leasedPool.removeAgent "10.0.0.7:50051").calls vanishingCalls).2.agents := by
  have hremove : PoolStep leasedPool ⟨.removeAgent "10.0.0.7:50051", ()⟩
      (leasedPool.removeAgent "10.0.0.7:50051") :=
    ⟨{ order := ["10.0.0.7:50051"] }, by decide, rfl⟩
  exact (vanished_never_leased (a := "10.0.0.7:50051") leasedPool_reachable hremove rfl
    (Pool.run_calls vanishingCalls_ok) (by decide)).2.2 _
      (List.mem_cons_of_mem _ List.mem_cons_self) (.inl rfl)

end SocketTuner.Router
