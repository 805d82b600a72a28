import SocketTuner.Router.Lifecycle

/-!
# Shutting the pool down

`Close` closes the connection of every entry and leaves the entries in the map, so a call that
comes after it and removes an agent closes its connection again. Over any run, `Close` calls
included, each connection that was dialed has been closed once for each `Close` that found it in
the pool and once for its removal (`closed_count`). A pool that is closed at the end of its run has
closed each of its connections exactly once (`shutdown_closes_all`).
-/

namespace SocketTuner.Router

open GoMap

namespace Pool

/-- Some entry has the connection. -/
def holds (p : Pool) (c : ConnId) : Bool :=
  decide (∃ a ∈ p.agents.keys, (p.agents.lookup a).map AgentClient.conn = some c)

theorem holds_iff {p : Pool} {c : ConnId} : p.holds c = true ↔ ∃ a, p.Stored a c := by
  simp only [holds, decide_eq_true_eq, stored_iff, handles]
  refine exists_congr fun a => and_iff_right_of_imp fun h => ?_
  obtain ⟨ac, hac, -⟩ := Option.map_eq_some_iff.1 h
  exact Finmap.mem_keys.2 (Finmap.mem_of_lookup_eq_some hac)

theorem held_handles (p : Pool) (c : ConnId) : p.handles.held c = (p.holds c).toNat := by
  cases h : p.holds c with
  | true =>
    obtain ⟨a, ha⟩ := holds_iff.1 h
    exact Handles.held_of_stored (stored_iff.1 ha)
  | false =>
    refine Handles.held_of_forgotten fun a ha => ?_
    rw [holds_iff.2 ⟨a, stored_iff.2 ha⟩] at h
    cases h

/-- The loop of `Close`, from any connections closed before. -/
theorem handles_close (p : Pool) (order : List Addr) :
    (p.close order).handles = p.handles.closeAll order := by
  induction order generalizing p with
  | nil => rfl
  | cons a order ih =>
    unfold close at ih ⊢
    rw [forRange_cons]
    cases h : p.agents.lookup a with
    | none =>
      rw [ih]
      simp [handles, Handles.closeAll, h]
    | some ac =>
      rw [ih]
      simp [handles, Handles.closeAll, h]

end Pool

/-- A `Close` that finds the connection in the pool. -/
def closesAgain (c : ConnId) (x : Lts.Trans Pool PoolEvent) : Bool :=
  decide (x.lab.1 = .close) && x.src.holds c

/-- The table of connections, with the `Close` calls of the run. -/
def Balanced (tr : List (Lts.Trans Pool PoolEvent)) (p : Pool) : Prop :=
  p.handles.Counted fun c => tr.countP (closesAgain c)

theorem balanced_newPool : Balanced [] Pool.newPool := Handles.counted_empty

theorem Balanced.step {tr : List (Lts.Trans Pool PoolEvent)} {x : Lts.Trans Pool PoolEvent}
    (h : Balanced tr x.src) (hs : PoolStep x.src x.lab x.dst) : Balanced (tr ++ [x]) x.dst := by
  obtain ⟨p, ⟨cmd, ret⟩, p'⟩ := x
  unfold Balanced
  simp only [List.countP_append, List.countP_singleton]
  by_cases hc : cmd = .close
  · subst hc
    obtain ⟨o, hr, he⟩ := hs
    obtain rfl : p.close o.order = p' := congrArg Prod.snd he
    rw [Pool.handles_close]
    have hagain : ∀ c, (if closesAgain c ⟨p, ⟨.close, ret⟩, p.close o.order⟩ then 1 else 0) =
        p.handles.held c := by
      intro c
      rw [Pool.held_handles]
      cases hp : p.holds c <;> simp [closesAgain, hp]
    simp only [hagain]
    refine Handles.Counted.closeAll h hr.nodup fun {a c} ha => (hr.mem_iff a).2 ?_
    obtain ⟨ac, hac, -⟩ := Pool.stored_iff.2 ha
    exact Finmap.mem_of_lookup_eq_some hac
  · simp only [closesAgain, hc, decide_false, Bool.false_and, Bool.false_eq_true, ↓reduceIte,
      Nat.add_zero]
    exact Handles.Counted.move h (hs.handles_move hc)

theorem balanced_run {tr : List (Lts.Trans Pool PoolEvent)} {p : Pool}
    (h : Lts.Run PoolStep Pool.newPool tr p) : Balanced tr p :=
  h.history (P := fun _ _ => True) (fun _ _ hb hs _ => hb.step hs) (fun _ _ _ _ => trivial)
    balanced_newPool

/-- **How often a connection is closed**, over every sequence of pool operations: once for each
`Close` that finds it in the pool, and once when its entry is deleted. -/
theorem closed_count {tr : List (Lts.Trans Pool PoolEvent)} {p : Pool}
    (h : Lts.Run PoolStep Pool.newPool tr p) :
    (∀ c < p.dialed, p.closed.count c + (p.holds c).toNat = tr.countP (closesAgain c) + 1) ∧
      ∀ c ∈ p.closed, c < p.dialed := by
  have hb := balanced_run h
  refine ⟨fun c hc => ?_, fun c hc => ?_⟩
  · rw [← Pool.held_handles]
    exact hb.count hc
  · by_contra hlt
    exact List.count_eq_zero.1 (hb.unopened (Nat.not_lt.1 hlt)).1 hc

/-- Two agents join, the pool is closed, and then one of them disappears. -/
def lateCalls : List (Outside × PoolCmd) :=
  [({}, .addAgent "10.0.0.7:50051"),
   ({ order := ["10.0.0.7:50051"] }, .addAgent "10.0.0.8:50051"),
   ({ order := ["10.0.0.7:50051", "10.0.0.8:50051"] }, .close),
   ({ order := ["10.0.0.7:50051", "10.0.0.8:50051"] }, .removeAgentsNotIn {"10.0.0.8:50051"})]

theorem lateCalls_ok : Pool.newPool.OrdersOk lateCalls :=
  ⟨by decide, by decide, by decide, by decide, trivial⟩

/-- The connection of the agent that disappears is closed twice. -/
theorem closed_count_late :
    (Pool.newPool.calls lateCalls).2.closed.count 0 +
        ((Pool.newPool.calls lateCalls).2.holds 0).toNat =
      (Pool.newPool.calls lateCalls).1.countP (closesAgain 0) + 1 :=
  (closed_count (Pool.run_calls lateCalls_ok)).1 0 (by decide)

example : (Pool.newPool.calls lateCalls).2.closed = [0, 1, 0] := by decide

/-- A pool that is closed once, at the end, has closed each of its connections once. -/
theorem shutdown_closes_all {tr : List (Lts.Trans Pool PoolEvent)} {p p' : Pool}
    (h : Lts.Run PoolStep Pool.newPool tr p) (hno : ∀ x ∈ tr, x.lab.1 ≠ .close)
    (hs : PoolStep p ⟨.close, ()⟩ p') : p'.closed.Perm (List.range p'.dialed) := by
  have hb : Balanced (tr ++ [⟨p, ⟨.close, ()⟩, p'⟩]) p' := (balanced_run h).step hs
  have hnone : ∀ c, tr.countP (closesAgain c) = 0 := fun c => List.countP_eq_zero.2 fun x hx => by
    simp [closesAgain, hno x hx]
  have hagents : p'.agents = p.agents := by
    obtain ⟨o, -, he⟩ := hs
    obtain rfl : p.close o.order = p' := congrArg Prod.snd he
    exact p.agents_close o.order
  refine List.perm_iff_count.2 fun c => ?_
  rw [List.nodup_range.count]
  split
  · next hc =>
    have hholds : p'.holds c = p.holds c := by
      unfold Pool.holds
      rw [hagents]
    have hcount : p'.closed.count c + p'.handles.held c = _ := hb.count (List.mem_range.1 hc)
    rw [Pool.held_handles, hholds, List.countP_append, hnone, List.countP_singleton] at hcount
    cases hp : p.holds c <;> simpa [closesAgain, hp] using hcount
  · next hc => exact (hb.unopened (Nat.not_lt.1 fun hlt => hc (List.mem_range.2 hlt))).1

end SocketTuner.Router
