import SocketTuner.Router.Watcher

/-!
# The watch loop

`watchLoop` of `env-router/internal/k8s/watcher.go`: an initial list and sync, then one watch event
after another, with leases starting, ending and timing out all the time. When the channel closes,
`run` enters the loop again, with another list.

`WatchState.live` is the most recent state of the Endpoints: the addresses of the last list or
update, and none after a deletion. The handler of a deletion only logs. So what can be leased is
live, in a run in which every deletion finds nothing in the pool but agents on their way out
(`lockable_live`); otherwise agents of a deleted service are leased (`deleted_service_lockable`).
-/

namespace SocketTuner.Router

open GoMap LeaseTable Prog

/-- A watch event. The object of an update is an Endpoints or something else. -/
inductive WatchEvent
  | added (object : Option Endpoints)
  | modified (object : Option Endpoints)
  | deleted
  | other

/-- One round of the loop: the initial list, or an event. -/
inductive WatchLabel
  | list (endpoints : Endpoints)
  | event (e : WatchEvent)

/-- The Endpoints a round syncs with. -/
def WatchLabel.synced : WatchLabel → Option Endpoints
  | .list ep => some ep
  | .event (.added object) | .event (.modified object) => object
  | .event .deleted | .event .other => none

/-- What the loop does in a round; `order` is the order of `liveAddrs` in a sync. -/
def WatchLabel.handle (grpcPort : String) (order : List Addr) :
    WatchLabel → Prog PoolCmd PoolCmd.Ret Unit
  | .list ep => syncEndpoints grpcPort ep order
  | .event (.added object) | .event (.modified object) =>
    match object with
    | some ep => syncEndpoints grpcPort ep order
    | none => pure ()
  | .event .deleted =>
    -- Service deleted — remove all agents. Only logged: we rely on the next sync to add them back
    -- if the service returns.
    pure ()
  | .event .other => pure ()

/-- The pool, and the addresses of the most recent Endpoints. -/
structure WatchState where
  pool : Pool
  live : Finset Addr

/-- The most recent state of the Endpoints after a round. -/
def WatchLabel.live (grpcPort : String) (live : Finset Addr) : WatchLabel → Finset Addr
  | .event .deleted => ∅
  | l => (l.synced.map (liveAddrs grpcPort)).getD live

/-- A round, with the steps of others before, between and after its critical sections. -/
def WatchStep (grpcPort : String) (s : WatchState) (l : WatchLabel) (s' : WatchState) : Prop :=
  s'.live = l.live grpcPort s.live ∧
  ∃ order tr, order.Nodup ∧ (∀ ep ∈ l.synced, order.toFinset = liveAddrs grpcPort ep) ∧
    Exec PoolStep LeaseStep (l.handle grpcPort order) s.pool tr () s'.pool

/-- A round with the states around it. -/
abbrev WatchTrans := Lts.Trans WatchState WatchLabel

/-- What is not live is not listed: no agent outside the Endpoints stays after its lease. -/
structure WatchInv (live : Finset Addr) (p : Pool) : Prop where
  inv : PoolInv p
  unlisted : ∀ a ∉ live, ¬(p.table a).Listed

theorem WatchInv.leaseStep {live : Finset Addr} (p p' : Pool) (h : WatchInv live p)
    (hs : LeaseStep p p') : WatchInv live p' := by
  obtain ⟨e, he, hs⟩ := hs
  refine ⟨h.inv.step hs, fun a ha => ((PoolStep.refines h.inv hs).unlisted ?_).1 (h.unlisted a ha)⟩
  intro henl
  obtain rfl : e = ⟨.addAgent a, none⟩ := addAgent_of_enlists henl
  exact he

theorem watchInv_sync {grpcPort : String} {ep : Endpoints} {order : List Addr} {p p' : Pool} {tr}
    (hp : PoolInv p) (hn : order.Nodup)
    (h : Exec PoolStep LeaseStep (syncEndpoints grpcPort ep order) p tr () p') :
    WatchInv (liveAddrs grpcPort ep) p' := by
  have h0 : Settled (fun _ => False) (fun _ => False) p := ⟨hp, by simp, by simp⟩
  obtain ⟨adds, tr₁, q, rfl, h₁, -, -, hset⟩ := exec_adds h0 hn (by simp) h
  obtain ⟨q₁, r₁, q₁', tr₂, hset₁, hrem, rfl, h₂⟩ := h₁.op_inv Settled.leaseStep hset
  have hw : WatchInv (liveAddrs grpcPort ep) q₁' := by
    refine ⟨hset₁.inv.step hrem, fun a ha => ?_⟩
    obtain ⟨o, hr, he⟩ := hrem
    obtain ⟨-, rfl⟩ := Prod.mk.inj he
    rw [Pool.table_removeAgentsNotIn hr, if_neg ha]
    exact Slot.not_listed_retire _
  -- the two counts only read
  obtain ⟨q₂, r₂, q₂', tr₃, hw₂, ⟨o₂, -, he₂⟩, rfl, h₃⟩ := h₂.op_inv WatchInv.leaseStep hw
  obtain ⟨-, rfl⟩ := Prod.mk.inj he₂
  obtain ⟨q₃, r₃, q₃', tr₄, hw₃, ⟨o₃, -, he₃⟩, rfl, h₄⟩ := h₃.op_inv WatchInv.leaseStep hw₂
  obtain ⟨-, rfl⟩ := Prod.mk.inj he₃
  exact h₄.ret_keeps WatchInv.leaseStep hw₃

/-- Every agent of the pool is on its way out. -/
def Pool.Leaving (p : Pool) : Prop :=
  ∀ a ac, p.agents.lookup a = some ac → ac.pendingRemoval = true

theorem PoolInv.watchInv_of_leaving {p : Pool} (hp : PoolInv p) (h : p.Leaving)
    (live : Finset Addr) : WatchInv live p := by
  refine ⟨hp, fun a _ hl => ?_⟩
  obtain ⟨ac, hac, hpend⟩ := hp.entry_of_listed hl
  rw [h a ac hac] at hpend
  cases hpend

variable {grpcPort : String}

theorem WatchStep.inv_of_list {s s' : WatchState} {ep : Endpoints} (hp : PoolInv s.pool)
    (h : WatchStep grpcPort s (.list ep) s') : WatchInv s'.live s'.pool := by
  obtain ⟨hlive, order, tr, hn, -, hx⟩ := h
  rw [hlive]
  exact watchInv_sync hp hn hx

/-- Every round keeps the invariant, a deletion when all agents are on their way out. -/
theorem WatchInv.step {s s' : WatchState} {l : WatchLabel} (hi : WatchInv s.live s.pool)
    (h : WatchStep grpcPort s l s') (hdel : l = .event .deleted → s.pool.Leaving) :
    WatchInv s'.live s'.pool := by
  have hquiet : ∀ {tr}, WatchInv s'.live s.pool →
      Exec PoolStep LeaseStep (.ret ()) s.pool tr () s'.pool → WatchInv s'.live s'.pool :=
    fun hw hx => hx.ret_keeps WatchInv.leaseStep hw
  obtain ⟨hlive, order, tr, hn, -, hx⟩ := h
  match l with
  | .list ep =>
    rw [hlive]
    exact watchInv_sync hi.inv hn hx
  | .event (.added (some ep)) | .event (.modified (some ep)) =>
    rw [hlive]
    exact watchInv_sync hi.inv hn hx
  | .event (.added none) | .event (.modified none) | .event .other =>
    exact hquiet (hlive ▸ hi) hx
  | .event .deleted =>
    exact hquiet (hi.inv.watchInv_of_leaving (hdel rfl) _) hx

theorem WatchInv.lockable {live : Finset Addr} {p : Pool} (hi : WatchInv live p) {a : Addr}
    (h : p.Lockable a) : a ∈ live := by
  obtain ⟨order, clock, ac, p', -, hlock, haddr⟩ := h
  by_contra hnot
  have hidle := (Pool.table_lockFreeAgent hi.inv hlock).1
  rw [haddr] at hidle
  exact hi.unlisted a hnot (.inl hidle)

/-- **What can be leased is live**: after every round of the loop, started with its list on any
reachable pool, when each deletion finds only agents on their way out. -/
theorem lockable_live {p : Pool} {live : Finset Addr} {x : WatchTrans} {tr : List WatchTrans}
    {s : WatchState} {ep : Endpoints} (hreach : PoolReachable p)
    (hrun : Lts.Run (WatchStep grpcPort) ⟨p, live⟩ (x :: tr) s) (hfirst : x.lab = .list ep)
    (hdel : ∀ y ∈ tr, y.lab = .event .deleted → y.src.pool.Leaving) :
    ∀ y ∈ x :: tr, ∀ a, y.dst.pool.Lockable a → a ∈ y.dst.live := by
  obtain ⟨hsrc, hstep, hrest⟩ := hrun.head
  rw [hfirst] at hstep
  have hinit : WatchInv x.dst.live x.dst.pool :=
    WatchStep.inv_of_list (by rw [hsrc]; exact hreach.inv) hstep
  have hinv := (hrest.restrict hdel).invariant_mem (I := fun s => WatchInv s.live s.pool)
    (fun _ _ _ hi hs => hi.step hs.1 hs.2) hinit
  intro y hy a ha
  rcases List.mem_cons.1 hy with rfl | hy
  · exact hinit.lockable ha
  · exact (hinv y hy).2.lockable ha

/-! ## A service that goes away -/

/-- The Endpoints with the one agent. -/
def oneEndpoint : Endpoints := ⟨[⟨[⟨"10.0.0.7"⟩]⟩]⟩

theorem list_newPool : WatchStep "50051" ⟨.newPool, ∅⟩ (.list oneEndpoint)
    ⟨idlePool, {"10.0.0.7:50051"}⟩ :=
  ⟨by decide, ["10.0.0.7:50051"], _, by decide, fun _ h => by cases h; decide,
    .op ⟨{}, by decide, rfl⟩ <| .op ⟨{ order := ["10.0.0.7:50051"] }, by decide, rfl⟩ <|
    .op ⟨{ order := ["10.0.0.7:50051"] }, by decide, rfl⟩ <|
    .op ⟨{ order := ["10.0.0.7:50051"] }, by decide, rfl⟩ <| .ret _ _⟩

/-- The pool after an update without addresses. -/
def emptied : Pool := idlePool.removeAgentsNotIn ∅ ["10.0.0.7:50051"]

theorem update_idlePool : WatchStep "50051" ⟨idlePool, {"10.0.0.7:50051"}⟩
    (.event (.modified (some ⟨[]⟩))) ⟨emptied, ∅⟩ :=
  ⟨by decide, [], _, by decide, fun _ h => by cases h; decide,
    .op ⟨{ order := ["10.0.0.7:50051"] }, by decide, rfl⟩ <|
    .op ⟨{}, by decide, rfl⟩ <| .op ⟨{}, by decide, rfl⟩ <| .ret _ _⟩

theorem deleted_quiet (s : WatchState) :
    WatchStep grpcPort s (.event .deleted) ⟨s.pool, ∅⟩ :=
  ⟨rfl, [], [], List.nodup_nil, nofun, .ret _ _⟩

/-- The addresses go before the service does. -/
def emptying : List WatchTrans :=
  [⟨⟨idlePool, {"10.0.0.7:50051"}⟩, .event (.modified (some ⟨[]⟩)), ⟨emptied, ∅⟩⟩,
   ⟨⟨emptied, ∅⟩, .event .deleted, ⟨emptied, ∅⟩⟩]

theorem lockable_live_emptying :
    PoolReachable .newPool ∧
      ∀ y ∈ (⟨⟨.newPool, ∅⟩, .list oneEndpoint, ⟨idlePool, {"10.0.0.7:50051"}⟩⟩ : WatchTrans) ::
          emptying,
        ∀ a, y.dst.pool.Lockable a → a ∈ y.dst.live := by
  have hnew : PoolReachable .newPool := ⟨[], .nil _⟩
  refine ⟨hnew, lockable_live hnew
    (.cons list_newPool (.cons update_idlePool (.cons (deleted_quiet _) (.nil _)))) rfl ?_⟩
  intro y hy hlab
  simp only [emptying, List.mem_cons, List.not_mem_nil, or_false] at hy
  rcases hy with rfl | rfl
  · cases hlab
  · intro a ac hac
    exact (Pool.entry_of_removeAgentsNotIn (by decide) (Finset.notMem_empty a) hac).2

/-- The service is deleted while its agent is idle. -/
def deletion : List WatchTrans :=
  [⟨⟨.newPool, ∅⟩, .list oneEndpoint, ⟨idlePool, {"10.0.0.7:50051"}⟩⟩,
   ⟨⟨idlePool, {"10.0.0.7:50051"}⟩, .event .deleted, ⟨idlePool, ∅⟩⟩]

/-- The agent can still be leased. -/
theorem deleted_service_lockable :
    (∃ s, Lts.Run (WatchStep "50051") ⟨.newPool, ∅⟩ deletion s) ∧
      ¬∀ y ∈ deletion, ∀ a, y.dst.pool.Lockable a → a ∈ y.dst.live := by
  refine ⟨⟨_, .cons list_newPool (.cons (deleted_quiet _) (.nil _))⟩, fun hall => ?_⟩
  have hac : idlePool.agents.lookup "10.0.0.7:50051" =
      some ⟨"10.0.0.7:50051", 0, false, 0, false⟩ := rfl
  have hlock := (idlePool_reachable.inv.lockable_iff hac).2 rfl
  exact Finset.notMem_empty _ (hall _ (List.mem_cons_of_mem _ List.mem_cons_self) _ hlock)

end SocketTuner.Router
