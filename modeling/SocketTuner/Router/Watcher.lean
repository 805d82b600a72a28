import SocketTuner.Router.Lease
import SocketTuner.Lib.Prog

/-!
# The endpoint watcher

`env-router/internal/k8s/watcher.go`. `syncEndpoints` is not atomic: every `AddAgent` and the
final `RemoveAgentsNotIn` lock the pool for themselves, and leases start, end and time out in
between. It is a program over the pool's methods; the watcher goroutine is the only caller of
`AddAgent` and `RemoveAgentsNotIn`, so what comes between its sections is a `LeaseStep`.

The invariant that survives the interleaving is about slots: an address whose `AddAgent` returned
no error stays listed (idle or leased, not retiring), one whose dial failed stays absent, and
neither a lock nor the end of a lease changes that (`Slot.Listed`, `LeaseStep.listed`).
-/

namespace SocketTuner.Router

open GoMap LeaseTable Prog

/-! ## Endpoints -/

/-- `EndpointAddress`, of which only the IP is read. -/
structure EndpointAddress where
  ip : String

/-- `EndpointSubset`, of which only the ready addresses are read. -/
structure EndpointSubset where
  addresses : List EndpointAddress

/-- `Endpoints` -/
structure Endpoints where
  subsets : List EndpointSubset

/-- `fmt.Sprintf("%s:%s", addr.IP, ew.grpcPort)`. -/
def target (grpcPort : String) (addr : EndpointAddress) : Addr := addr.ip ++ ":" ++ grpcPort

/-- The map `liveAddrs`, whose values are all `true`. -/
def liveAddrs (grpcPort : String) (ep : Endpoints) : Finset Addr :=
  ep.subsets.foldl (fun live subset =>
    subset.addresses.foldl (fun live addr => insert (target grpcPort addr) live) live) ∅

/-- `syncEndpoints` diffs the live endpoint addresses against the pool; `order` is the order in
which `liveAddrs` is ranged over. The two counts are only logged. -/
def syncEndpoints (grpcPort : String) (ep : Endpoints) (order : List Addr) :
    Prog PoolCmd PoolCmd.Ret Unit := do
  order.forM fun addr => do
    -- an error is only logged
    let _ ← call (.addAgent addr)
  let _ ← call (.removeAgentsNotIn (liveAddrs grpcPort ep))
  let _ ← call .totalCount
  let _ ← call .freeCount

theorem mem_liveAddrs {grpcPort : String} {ep : Endpoints} {a : Addr} :
    a ∈ liveAddrs grpcPort ep ↔
      ∃ subset ∈ ep.subsets, ∃ addr ∈ subset.addresses, target grpcPort addr = a := by
  have inner : ∀ (l : List EndpointAddress) (live : Finset Addr),
      a ∈ l.foldl (fun live addr => insert (target grpcPort addr) live) live ↔
        a ∈ live ∨ ∃ addr ∈ l, target grpcPort addr = a := by
    intro l
    induction l with
    | nil => simp
    | cons x l ih =>
      intro live
      rw [List.foldl_cons, ih, Finset.mem_insert]
      simp only [List.mem_cons, exists_eq_or_imp, eq_comm (a := a)]
      tauto
  have outer : ∀ (l : List EndpointSubset) (live : Finset Addr),
      a ∈ l.foldl (fun live subset =>
          subset.addresses.foldl (fun live addr => insert (target grpcPort addr) live) live) live ↔
        a ∈ live ∨ ∃ subset ∈ l, ∃ addr ∈ subset.addresses, target grpcPort addr = a := by
    intro l
    induction l with
    | nil => simp
    | cons x l ih =>
      intro live
      rw [List.foldl_cons, ih, inner]
      simp only [List.mem_cons, exists_eq_or_imp]
      exact or_assoc
  unfold liveAddrs
  rw [outer]
  simp

/-! ## Lease steps -/

/-- The methods other goroutines call during a sync. -/
def PoolCmd.IsLease : PoolCmd → Prop
  | .lockFreeAgent | .freeAgent _ | .touchAgent _ | .cleanupStaleAgents _ | .getAgentBySession _
  | .freeCount | .totalCount => True
  | .addAgent _ | .removeAgent _ | .removeAgentsNotIn _ | .close => False

/-- One critical section of another goroutine during a sync. -/
def LeaseStep (p p' : Pool) : Prop := ∃ e : PoolEvent, e.1.IsLease ∧ PoolStep p e p'

theorem isLease_leaseOp {x : Lts.Trans Pool PoolEvent} (h : x.lab.1.IsLease) :
    (leaseOp x).IsLease := by
  obtain ⟨p, ⟨c, r⟩, p'⟩ := x
  cases c <;> first | exact h.elim | trivial | skip
  cases r <;> trivial

/-- What a sync has settled so far: `good` addresses are listed, `bad` ones absent. -/
structure Settled (good bad : Addr → Prop) (p : Pool) : Prop where
  inv : PoolInv p
  listed : ∀ a, good a → (p.table a).Listed
  absent : ∀ a, bad a → p.table a = .absent

theorem Settled.leaseStep {good bad : Addr → Prop} (p p' : Pool) (h : Settled good bad p)
    (hs : LeaseStep p p') : Settled good bad p' := by
  obtain ⟨e, he, hs⟩ := hs
  have hl := (PoolStep.refines h.inv hs).listed (isLease_leaseOp he)
  exact ⟨h.inv.step hs, fun a ha => (hl a).1 (h.listed a ha), fun a ha => (hl a).2 (h.absent a ha)⟩

/-! ## The adds -/

/-- The `AddAgent(a)` of a sync returned no error: `a` was present, or its dial succeeded. -/
def Added (adds : List (Lts.Trans Pool PoolEvent)) (a : Addr) : Prop :=
  ∃ x ∈ adds, x.lab = ⟨.addAgent a, none⟩

/-- One `AddAgent` settles its address, for good or bad. -/
theorem Settled.addAgent {good bad : Addr → Prop} {p p' : Pool} {addr : Addr}
    {r : Option String} (h : Settled good bad p) (hbad : ¬bad addr)
    (hs : PoolStep p ⟨.addAgent addr, r⟩ p') :
    Settled (fun a => good a ∨ a = addr ∧ r = none) (fun a => bad a ∨ a = addr ∧ r ≠ none) p' := by
  have hinv := h.inv.step hs
  obtain ⟨o, -, he⟩ := hs
  have htable := Pool.table_addAgent h.inv addr o.dialErr (o.clock addr)
  have hiff := p.addAgent_ok_iff addr o.dialErr (o.clock addr)
  rw [show p.addAgent addr o.dialErr (o.clock addr) = (r, p') from he] at htable hiff
  refine ⟨hinv, fun a ha => ?_, fun a ha => ?_⟩
  · rw [htable]
    split
    · exact Slot.listed_enlist _
    · next hne =>
      rcases ha with ha | ha
      · exact h.listed a ha
      · exact absurd ha hne
  · rcases ha with ha | ⟨rfl, hr⟩
    · have hne : a ≠ addr := fun e => hbad (e ▸ ha)
      rw [htable, if_neg fun e => hne e.1]
      exact h.absent a ha
    · have hnone : p'.agents.lookup a = none := by simpa [hr] using hiff
      rw [Pool.table, hnone]
      rfl

/-- The adds of a sync settle every address of `order`, whatever the leases do in between. -/
theorem exec_adds {α : Type} {k : PUnit → Prog PoolCmd PoolCmd.Ret α} {order : List Addr} :
    ∀ {good bad : Addr → Prop} {p p' : Pool} {tr : List (Lts.Trans Pool PoolEvent)} {x : α},
      Settled good bad p → order.Nodup → (∀ a ∈ order, ¬bad a) →
      Exec PoolStep LeaseStep ((order.forM fun addr => do let _ ← call (.addAgent addr)) >>= k)
        p tr x p' →
      ∃ adds rest q, tr = adds ++ rest ∧ Exec PoolStep LeaseStep (k ⟨⟩) q rest x p' ∧
        (∀ y ∈ adds, ∃ a ∈ order, ∃ r, y.lab = ⟨.addAgent a, r⟩) ∧
        (∀ a ∈ order, ∃ y ∈ adds, y.lab.1 = .addAgent a) ∧
        Settled (fun a => good a ∨ Added adds a)
          (fun a => bad a ∨ a ∈ order ∧ ¬Added adds a) q := by
  induction order with
  | nil =>
    intro good bad p p' tr x hp _ _ h
    refine ⟨[], tr, p, rfl, h, by simp, by simp, ?_⟩
    exact ⟨hp.inv, fun a ha => hp.listed a (by simpa [Added] using ha),
      fun a ha => hp.absent a (by simpa using ha)⟩
  | cons addr order ih =>
    intro good bad p p' tr x hp hn hbad h
    have h' : Exec PoolStep LeaseStep (.op (.addAgent addr) fun _ =>
        (order.forM fun addr => do let _ ← call (.addAgent addr)) >>= k) p tr x p' := h
    obtain ⟨q, r, q', rest, hq, hstep, rfl, hrest⟩ := h'.op_inv Settled.leaseStep hp
    have hbad' : ∀ a ∈ order, ¬(bad a ∨ a = addr ∧ r ≠ none) := by
      rintro a ha (hb | ⟨rfl, -⟩)
      · exact hbad a (List.mem_cons_of_mem _ ha) hb
      · exact (List.nodup_cons.1 hn).1 ha
    obtain ⟨adds, rest', q'', rfl, hk, hlabs, hall, hset⟩ :=
      ih (hq.addAgent (hbad addr List.mem_cons_self) hstep) hn.of_cons hbad' hrest
    refine ⟨_ :: adds, rest', q'', rfl, hk, ?_, ?_, hset.inv, fun a ha => hset.listed a ?_,
      fun a ha => hset.absent a ?_⟩
    · intro y hy
      rcases List.mem_cons.1 hy with rfl | hy
      · exact ⟨addr, List.mem_cons_self, r, rfl⟩
      · obtain ⟨a, ha, r, hr⟩ := hlabs y hy
        exact ⟨a, List.mem_cons_of_mem _ ha, r, hr⟩
    · intro a ha
      rcases List.mem_cons.1 ha with rfl | ha
      · exact ⟨_, List.mem_cons_self, rfl⟩
      · obtain ⟨y, hy, hlab⟩ := hall a ha
        exact ⟨y, List.mem_cons_of_mem _ hy, hlab⟩
    · rcases ha with ha | ⟨y, hy, hlab⟩
      · exact .inl (.inl ha)
      · rcases List.mem_cons.1 hy with rfl | hy
        · cases hlab; exact .inl (.inr ⟨rfl, rfl⟩)
        · exact .inr ⟨y, hy, hlab⟩
    · rcases ha with ha | ⟨ha, hnot⟩
      · exact .inl (.inl ha)
      · rcases List.mem_cons.1 ha with rfl | ha
        · refine .inl (.inr ⟨rfl, fun hr => hnot ⟨_, List.mem_cons_self, ?_⟩⟩)
          rw [hr]
        · exact .inr ⟨ha, fun ⟨y, hy, hlab⟩ => hnot ⟨y, List.mem_cons_of_mem _ hy, hlab⟩⟩

/-! ## The postcondition -/

/-- The call deleted no busy entry, cleared no busy flag and changed no activity stamp. -/
def Gentle (x : Lts.Trans Pool PoolEvent) : Prop :=
  ∀ a ac, x.src.agents.lookup a = some ac →
    (ac.busy = true → ∃ ac', x.dst.agents.lookup a = some ac' ∧ ac'.busy = true) ∧
    ∀ ac', x.dst.agents.lookup a = some ac' → ac'.lastActivity = ac.lastActivity

theorem PoolStep.addAgent_inv {p p' : Pool} {addr : Addr} {r : Option String}
    (hs : PoolStep p ⟨.addAgent addr, r⟩ p') :
    ∃ dialErr now, p.addAgent addr dialErr now = (r, p') ∧
      (r = none ↔ addr ∈ p.agents ∨ dialErr = none) := by
  obtain ⟨o, -, he⟩ := hs
  have he : p.addAgent addr o.dialErr (o.clock addr) = (r, p') := he
  refine ⟨o.dialErr, o.clock addr, he, ?_⟩
  rw [← Pool.addAgent_none_iff p addr o.dialErr (o.clock addr), he]

theorem PoolStep.removeAgentsNotIn_inv {p p' : Pool} {live : Finset Addr} {r : Unit}
    (hs : PoolStep p ⟨.removeAgentsNotIn live, r⟩ p') :
    ∃ order, IsRange p.agents order ∧ p' = p.removeAgentsNotIn live order := by
  obtain ⟨o, hr, he⟩ := hs
  exact ⟨o.order, hr, (Prod.mk.inj he).2.symm⟩

theorem gentle_addAgent {p p' : Pool} {addr : Addr} {r : Option String}
    (hs : PoolStep p ⟨.addAgent addr, r⟩ p') : Gentle ⟨p, ⟨.addAgent addr, r⟩, p'⟩ := by
  obtain ⟨dialErr, now, he, -⟩ := hs.addAgent_inv
  intro a ac hac
  have hp' : p' = (p.addAgent addr dialErr now).2 := by rw [he]
  subst hp'
  simp only [Pool.lookup_addAgent] at hac ⊢
  rw [hac]
  split <;> simp

theorem gentle_removeAgentsNotIn {p p' : Pool} {live : Finset Addr} {r : Unit}
    (hs : PoolStep p ⟨.removeAgentsNotIn live, r⟩ p') :
    Gentle ⟨p, ⟨.removeAgentsNotIn live, r⟩, p'⟩ := by
  obtain ⟨order, hr, rfl⟩ := hs.removeAgentsNotIn_inv
  intro a ac hac
  simp only [Pool.lookup_removeAgentsNotIn hr] at hac ⊢
  rw [hac, Option.bind_some]
  by_cases hl : a ∈ live
  · simp [hl]
  · cases hb : ac.busy <;> simp [hl, AgentClient.removed, hb]

theorem PoolInv.entry_of_listed {p : Pool} (hp : PoolInv p) {a : Addr} (h : (p.table a).Listed) :
    ∃ ac, p.agents.lookup a = some ac ∧ ac.pendingRemoval = false := by
  unfold Pool.table at h
  cases hx : p.agents.lookup a with
  | none => simp [hx, slotOf, Slot.Listed] at h
  | some ac =>
    have hpb := hp.pending_busy hx
    refine ⟨ac, rfl, ?_⟩
    cases hb : ac.busy <;> cases hpr : ac.pendingRemoval <;> simp_all [slotOf, Slot.Listed]

/-- After `RemoveAgentsNotIn` an entry outside the live set is busy and pending removal. -/
theorem Pool.entry_of_removeAgentsNotIn {p : Pool} {order : List Addr}
    (hr : IsRange p.agents order) {live : Finset Addr} {a : Addr} (ha : a ∉ live) {ac : AgentClient}
    (h : (p.removeAgentsNotIn live order).agents.lookup a = some ac) :
    ac.busy = true ∧ ac.pendingRemoval = true := by
  rw [lookup_removeAgentsNotIn hr] at h
  obtain ⟨old, -, hold⟩ := Option.bind_eq_some_iff.1 h
  rw [if_neg ha] at hold
  obtain ⟨hb, rfl⟩ := AgentClient.removed_eq_some.1 hold
  exact ⟨hb, rfl⟩

theorem exec_reads {p p' : Pool} {tr : List (Lts.Trans Pool PoolEvent)}
    (h : Exec PoolStep LeaseStep
      (.op .totalCount fun _ => .op .freeCount fun _ => .ret ()) p tr () p') :
    ∀ x ∈ tr, x.dst = x.src := by
  obtain ⟨q₁, r₁, q₁', tr₁, -, ⟨o₁, -, he₁⟩, rfl, h₁⟩ :=
    h.op_inv (I := fun _ => True) (fun _ _ _ _ => trivial) trivial
  obtain ⟨q₂, r₂, q₂', tr₂, -, ⟨o₂, -, he₂⟩, rfl, h₂⟩ :=
    h₁.op_inv (I := fun _ => True) (fun _ _ _ _ => trivial) trivial
  obtain ⟨rfl, -⟩ := h₂.ret_inv
  have e₁ : q₁ = q₁' := (Prod.mk.inj he₁).2
  have e₂ : q₂ = q₂' := (Prod.mk.inj he₂).2
  intro x hx
  simp only [List.mem_cons, List.not_mem_nil, or_false] at hx
  rcases hx with rfl | rfl
  · exact e₁.symm
  · exact e₂.symm

theorem gentle_of_eq {x : Lts.Trans Pool PoolEvent} (h : x.dst = x.src) : Gentle x := by
  intro a ac hac
  rw [h, hac]
  refine ⟨fun hb => ⟨ac, rfl, hb⟩, fun ac' e => ?_⟩
  cases e
  rfl

/-- **The postcondition of a sync**, with leases starting, ending and timing out between its
critical sections. The sections are the adds, for the addresses of the subsets with the port, then
the removal, then two reads. An `AddAgent` succeeds exactly when its address was present or its dial
succeeded. Right after the removal every address whose `AddAgent` succeeded is in the pool and not
pending removal, and every other entry is busy and pending removal. No section deletes a busy entry,
clears a busy flag or changes an activity stamp. -/
theorem syncEndpoints_post {grpcPort : String} {ep : Endpoints} {order : List Addr} {p p' : Pool}
    {tr : List (Lts.Trans Pool PoolEvent)} (hreach : PoolReachable p) (hn : order.Nodup)
    (hl : order.toFinset = liveAddrs grpcPort ep)
    (h : Exec PoolStep LeaseStep (syncEndpoints grpcPort ep order) p tr () p') :
    ∃ adds q q' rest,
      tr = adds ++ ⟨q, ⟨.removeAgentsNotIn (liveAddrs grpcPort ep), ()⟩, q'⟩ :: rest ∧
      (∀ subset ∈ ep.subsets, ∀ addr ∈ subset.addresses,
        ∃ x ∈ adds, x.lab.1 = .addAgent (target grpcPort addr)) ∧
      (∀ x ∈ adds, ∃ a, (∃ subset ∈ ep.subsets, ∃ addr ∈ subset.addresses,
          target grpcPort addr = a) ∧
        ∃ dialErr now r, x.lab = ⟨.addAgent a, r⟩ ∧ x.src.addAgent a dialErr now = (r, x.dst) ∧
          (r = none ↔ a ∈ x.src.agents ∨ dialErr = none)) ∧
      (∀ a, Added adds a → ∃ ac, q'.agents.lookup a = some ac ∧ ac.pendingRemoval = false) ∧
      (∀ a ac, q'.agents.lookup a = some ac → ¬Added adds a →
        ac.busy = true ∧ ac.pendingRemoval = true) ∧
      ∀ x ∈ tr, Gentle x := by
  have hmem : ∀ a, a ∈ order ↔ a ∈ liveAddrs grpcPort ep := fun a => by
    rw [← hl, List.mem_toFinset]
  have hsteps := h.step_of_mem
  have h0 : Settled (fun _ => False) (fun _ => False) p := ⟨hreach.inv, by simp, by simp⟩
  obtain ⟨adds, tr₁, q₀, rfl, h₁, hlabs, hall, hset₀⟩ := exec_adds h0 hn (by simp) h
  obtain ⟨q, r, q', tr₂, hset, hrem, rfl, h₂⟩ := h₁.op_inv Settled.leaseStep hset₀
  have hreads := exec_reads h₂
  obtain ⟨_, hr, hq'⟩ := PoolStep.removeAgentsNotIn_inv hrem
  refine ⟨adds, q, q', tr₂, rfl, fun subset hsub addr haddr => ?_, fun x hx => ?_,
    fun a ha => ?_, fun a ac hac hnot => ?_, ?_⟩
  · have hlive : target grpcPort addr ∈ liveAddrs grpcPort ep :=
      mem_liveAddrs.2 ⟨subset, hsub, addr, haddr, rfl⟩
    exact hall _ ((hmem _).2 hlive)
  · obtain ⟨a, ha, r, hlab⟩ := hlabs x hx
    have hs := hsteps x (List.mem_append_left _ hx)
    rw [hlab] at hs
    obtain ⟨dialErr, now, he, hnone⟩ := hs.addAgent_inv
    exact ⟨a, mem_liveAddrs.1 ((hmem a).1 ha), dialErr, now, r, hlab, he, hnone⟩
  · -- a live address is not touched by the removal
    obtain ⟨x, hx, hlab⟩ := ha
    obtain ⟨b, hb, r, hlab'⟩ := hlabs x hx
    rw [hlab] at hlab'
    cases hlab'
    refine (hset.inv.step hrem).entry_of_listed ?_
    rw [hq', Pool.table_removeAgentsNotIn hr, if_pos ((hmem a).1 hb)]
    exact hset.listed a (.inr ⟨x, hx, hlab⟩)
  · by_cases hlive : a ∈ liveAddrs grpcPort ep
    · -- its dial failed, so it was absent when the removal ran
      have habs := hset.absent a (.inr ⟨(hmem a).2 hlive, hnot⟩)
      have : q'.table a = .absent := by
        rw [hq', Pool.table_removeAgentsNotIn hr, if_pos hlive, habs]
      simp only [Pool.table, hac, slotOf] at this
      split at this
      · split at this <;> cases this
      · cases this
    · exact Pool.entry_of_removeAgentsNotIn hr hlive (hq' ▸ hac)
  · intro x hx
    have hs := hsteps x hx
    rcases List.mem_append.1 hx with hx | hx
    · obtain ⟨a, -, r, hlab⟩ := hlabs x hx
      obtain ⟨p₁, lab, p₂⟩ := x
      cases hlab
      exact gentle_addAgent hs
    · rcases List.mem_cons.1 hx with rfl | hx
      · exact gentle_removeAgentsNotIn hs
      · exact gentle_of_eq (hreads x hx)

/-- A sync that lists only another agent; that one is leased before the removal runs. -/
theorem exec_sync_interleaved : ∃ tr p',
    Exec PoolStep LeaseStep
      (syncEndpoints "50051" ⟨[⟨[⟨"10.0.0.8"⟩]⟩]⟩ ["10.0.0.8:50051"]) leasedPool tr () p' :=
  ⟨_, _,
    .op ⟨{ order := ["10.0.0.7:50051"] }, by decide, rfl⟩ <|
    .env ⟨⟨.lockFreeAgent, _⟩, trivial, { order := ["10.0.0.7:50051", "10.0.0.8:50051"] },
      by decide, rfl⟩ <|
    .op ⟨{ order := ["10.0.0.8:50051", "10.0.0.7:50051"] }, by decide, rfl⟩ <|
    .op ⟨{ order := ["10.0.0.8:50051", "10.0.0.7:50051"] }, by decide, rfl⟩ <|
    .op ⟨{ order := ["10.0.0.8:50051", "10.0.0.7:50051"] }, by decide, rfl⟩ <| .ret _ _⟩

theorem syncEndpoints_post_interleaved : ∃ tr p',
    Exec PoolStep LeaseStep
      (syncEndpoints "50051" ⟨[⟨[⟨"10.0.0.8"⟩]⟩]⟩ ["10.0.0.8:50051"]) leasedPool tr () p' ∧
    ∀ x ∈ tr, Gentle x := by
  obtain ⟨tr, p', h⟩ := exec_sync_interleaved
  obtain ⟨_, _, _, _, -, -, -, -, -, hgentle⟩ :=
    syncEndpoints_post leasedPool_reachable (by decide) (by decide) h
  exact ⟨tr, p', h, hgentle⟩

end SocketTuner.Router
