import SocketTuner.Router.Lease

/-!
# Stale agents

Pool operations with the clock readings they take. The activity of an agent is what its entry saw
since it was created: its creation, the locks that returned it and the `TouchAgent` calls for it
(`activities`). `LastActivity` is the last of these (`getLast_activities`), and with a clock that
does not go back the latest.

`CleanupStaleAgents` then releases exactly the busy agents without activity within the timeout
(`cleanup_safe_and_complete`).
-/

namespace SocketTuner.Router

open GoMap LeaseTable

/-- A method call, with what it took from outside. -/
abbrev TimedEvent := Outside × PoolEvent

/-- A call with the pools around it. -/
abbrev TimedTrans := Lts.Trans Pool TimedEvent

/-- `PoolStep`, with what the call took from outside in the label. -/
def TimedStep (p : Pool) (e : TimedEvent) (p' : Pool) : Prop :=
  IsRange p.agents e.1.order ∧ e.2.1.exec e.1 p = (e.2.2, p')

theorem TimedStep.poolStep {p p' : Pool} {e : TimedEvent} (h : TimedStep p e p') :
    PoolStep p e.2 p' := ⟨e.1, h⟩

/-- The clock readings a call takes, in this order. -/
def readings (x : TimedTrans) : List Time :=
  match x.lab with
  | (o, ⟨.addAgent addr, _⟩) =>
    if addr ∉ x.src.agents ∧ addr ∈ x.dst.agents then [o.clock addr] else []
  | (o, ⟨.lockFreeAgent, r⟩) =>
    match (r : Except String AgentClient) with
    | .ok ac => [o.clock ac.addr]
    | .error _ => []
  | (o, ⟨.touchAgent addr, _⟩) => if addr ∈ x.src.agents then [o.clock addr] else []
  | (o, ⟨.cleanupStaleAgents _, _⟩) =>
    -- the clock is read for a busy agent only
    (o.order.filter fun addr => (x.src.agents.lookup addr).any AgentClient.busy).map o.clock
  | _ => []

/-- The reading a call takes as activity of the agent. -/
def activity (a : Addr) (x : TimedTrans) : Option Time :=
  match x.lab with
  | (o, ⟨.addAgent addr, _⟩) =>
    if addr = a ∧ a ∉ x.src.agents ∧ a ∈ x.dst.agents then some (o.clock a) else none
  | (o, ⟨.lockFreeAgent, r⟩) =>
    match (r : Except String AgentClient) with
    | .ok ac => if ac.addr = a then some (o.clock a) else none
    | .error _ => none
  | (o, ⟨.touchAgent addr, _⟩) =>
    if addr = a ∧ a ∈ x.src.agents then some (o.clock a) else none
  | _ => none

/-- The activity of the entry of `a` after one more call; a deleted entry has none. -/
def note (a : Addr) (ts : List Time) (x : TimedTrans) : List Time :=
  if a ∈ x.dst.agents then ts ++ (activity a x).toList else []

/-- The activity of the current entry of `a`. -/
def activities (a : Addr) (tr : List TimedTrans) : List Time := tr.foldl (note a) []

theorem activity_sublist (a : Addr) (x : TimedTrans) :
    (activity a x).toList.Sublist (readings x) := by
  obtain ⟨p, ⟨o, c, r⟩, p'⟩ := x
  cases c with
  | addAgent addr =>
    simp only [activity, readings]
    by_cases h : addr = a
    · subst h
      simp only [true_and]
      split <;> simp
    · simp [h]
  | lockFreeAgent =>
    cases r with
    | error err => exact List.nil_sublist _
    | ok ac =>
      simp only [activity, readings]
      split
      · next h => subst h; simp
      · simp
  | touchAgent addr =>
    simp only [activity, readings]
    by_cases h : addr = a
    · subst h
      simp only [true_and]
      split <;> simp
    · simp [h]
  | _ => exact List.nil_sublist _

/-- Activities are readings, in the order they were taken. -/
theorem activities_sublist (a : Addr) (tr : List TimedTrans) :
    (activities a tr).Sublist (tr.flatMap readings) := by
  have key : ∀ ts, (tr.foldl (note a) ts).Sublist (ts ++ tr.flatMap readings) := by
    induction tr with
    | nil => intro ts; simp
    | cons x tr ih =>
      intro ts
      rw [List.foldl_cons, List.flatMap_cons, ← List.append_assoc]
      refine (ih _).trans (List.Sublist.append_right ?_ _)
      unfold note
      split
      · exact (activity_sublist a x).append_left ts
      · exact List.nil_sublist _
  exact key []

theorem AgentClient.released_lastActivity {ac ac' : AgentClient} (h : ac.released = some ac') :
    ac'.lastActivity = ac.lastActivity := by
  obtain ⟨-, rfl⟩ := released_eq_some.1 h
  rfl

theorem AgentClient.removed_lastActivity {ac ac' : AgentClient} (h : ac.removed = some ac') :
    ac'.lastActivity = ac.lastActivity := by
  obtain ⟨-, rfl⟩ := removed_eq_some.1 h
  rfl

theorem map_lastActivity_bind {x : Option AgentClient} {f : AgentClient → Option AgentClient}
    (hf : ∀ {ac ac'}, f ac = some ac' → ac'.lastActivity = ac.lastActivity)
    (h : x.bind f ≠ none) :
    (x.bind f).map AgentClient.lastActivity = x.map AgentClient.lastActivity := by
  obtain ⟨ac', hac'⟩ := Option.ne_none_iff_exists'.1 h
  obtain ⟨ac, rfl, hfac⟩ := Option.bind_eq_some_iff.1 hac'
  rw [hac', Option.map_some, Option.map_some, hf hfac]

/-- `LastActivity` changes by what is activity of the agent. -/
theorem TimedStep.lastActivity {p p' : Pool} {e : TimedEvent} (hp : PoolInv p)
    (hs : TimedStep p e p') {a : Addr} (ha : a ∈ p'.agents) :
    (p'.agents.lookup a).map AgentClient.lastActivity =
      (activity a ⟨p, e, p'⟩).or ((p.agents.lookup a).map AgentClient.lastActivity) := by
  obtain ⟨o, c, r⟩ := e
  obtain ⟨hr, he⟩ : IsRange p.agents o.order ∧ c.exec o p = (r, p') := hs
  have hp' : p' = (c.exec o p).2 := (congrArg Prod.snd he).symm
  have hsome : p'.agents.lookup a ≠ none := fun h => Finmap.lookup_eq_none.1 h ha
  cases c with
  | addAgent addr =>
    have hlook := p.lookup_addAgent addr o.dialErr (o.clock addr) a
    rw [show p.addAgent addr o.dialErr (o.clock addr) = (r, p') from he] at hlook
    simp only [activity, ha, and_true]
    by_cases e : a = addr
    · subst e
      rw [hlook, if_pos rfl] at hsome ⊢
      cases hx : p.agents.lookup a with
      | some ac =>
        have hin : a ∈ p.agents := Finmap.mem_iff.2 ⟨ac, hx⟩
        simp [hin]
      | none =>
        have hout : a ∉ p.agents := Finmap.lookup_eq_none.1 hx
        cases hd : o.dialErr with
        | some err => simp [hx, hd] at hsome
        | none => simp [hout]
    · rw [hlook, if_neg e]
      simp [Ne.symm e]
  | lockFreeAgent =>
    cases r with
    | error err =>
      obtain ⟨rfl, -⟩ := Pool.lockFreeAgent_error hr he
      simp [activity]
    | ok ac =>
      obtain ⟨addr, old, hold, -, rfl, rfl⟩ := Pool.lockFreeAgent_ok he
      have haddr : old.addr = addr := hp.addr_eq hold
      simp only [activity, haddr, Pool.lookup_put]
      by_cases e : a = addr
      · subst e; simp
      · simp [e, Ne.symm e]
  | touchAgent addr =>
    subst hp'
    simp only [PoolCmd.exec, Pool.lookup_touchAgent, activity]
    by_cases e : a = addr
    · subst e
      cases hx : p.agents.lookup a with
      | none =>
        have hout : a ∉ p.agents := Finmap.lookup_eq_none.1 hx
        simp [hout]
      | some ac =>
        have hin : a ∈ p.agents := Finmap.mem_iff.2 ⟨ac, hx⟩
        simp [hin]
    · simp [e, Ne.symm e]
  | removeAgent addr =>
    subst hp'
    simp only [PoolCmd.exec, Pool.lookup_removeAgent, activity, Option.none_or] at hsome ⊢
    split at hsome
    · next e =>
      rw [if_pos e]
      exact map_lastActivity_bind AgentClient.removed_lastActivity hsome
    · next e => rw [if_neg e]
  | freeAgent addr =>
    subst hp'
    simp only [PoolCmd.exec, Pool.lookup_freeAgent, activity, Option.none_or] at hsome ⊢
    split at hsome
    · next e =>
      rw [if_pos e]
      exact map_lastActivity_bind AgentClient.released_lastActivity hsome
    · next e => rw [if_neg e]
  | cleanupStaleAgents timeout =>
    subst hp'
    simp only [PoolCmd.exec, Pool.lookup_cleanupStaleAgents hr, activity, Option.none_or]
      at hsome ⊢
    refine map_lastActivity_bind (fun {ac ac'} h => ?_) hsome
    split at h
    · exact AgentClient.released_lastActivity h
    · cases h; rfl
  | removeAgentsNotIn live =>
    subst hp'
    simp only [PoolCmd.exec, Pool.lookup_removeAgentsNotIn hr, activity, Option.none_or] at hsome ⊢
    refine map_lastActivity_bind (fun {ac ac'} h => ?_) hsome
    split at h
    · cases h; rfl
    · exact AgentClient.removed_lastActivity h
  | close => subst hp'; simp only [PoolCmd.exec, Pool.agents_close, activity, Option.none_or]
  | getAgentBySession _ | freeCount | totalCount => subst hp'; rfl

/-- **`LastActivity` is the last activity of the entry**, over any run. -/
theorem getLast_activities {tr : List TimedTrans} {p : Pool}
    (h : Lts.Run TimedStep Pool.newPool tr p) (a : Addr) :
    (activities a tr).getLast? = (p.agents.lookup a).map AgentClient.lastActivity := by
  have key : ∀ {q r : Pool} {tr : List TimedTrans}, Lts.Run TimedStep q tr r → PoolInv q →
      ∀ ts : List Time, ts.getLast? = (q.agents.lookup a).map AgentClient.lastActivity →
      (tr.foldl (note a) ts).getLast? = (r.agents.lookup a).map AgentClient.lastActivity := by
    intro q r tr h
    induction h with
    | nil => intro _ ts hts; exact hts
    | @cons q q' r e tr hs _ ih =>
      intro hq ts hts
      refine ih (hq.step hs.poolStep) _ ?_
      unfold note
      split
      · next ha =>
        rw [hs.lastActivity hq ha, List.getLast?_append, hts]
        cases activity a ⟨q, e, q'⟩ <;> rfl
      · next ha =>
        rw [Finmap.lookup_eq_none.2 ha]
        rfl
  exact key h poolInv_newPool [] rfl

/-- With a clock that does not go back, `LastActivity` is the latest activity. -/
theorem lastActivity_latest {tr : List TimedTrans} {p : Pool}
    (h : Lts.Run TimedStep Pool.newPool tr p) (hclock : (tr.flatMap readings).Pairwise (· ≤ ·))
    {a : Addr} {ac : AgentClient} (hac : p.agents.lookup a = some ac) :
    ac.lastActivity ∈ activities a tr ∧ ∀ t ∈ activities a tr, t ≤ ac.lastActivity := by
  have hlast := getLast_activities h a
  rw [hac, Option.map_some] at hlast
  obtain ⟨ts, hts⟩ := List.getLast?_eq_some_iff.1 hlast
  have hpair := hclock.sublist (activities_sublist a tr)
  rw [hts, List.pairwise_append] at hpair
  rw [hts]
  refine ⟨by simp, fun t ht => ?_⟩
  rcases List.mem_append.1 ht with ht | ht
  · exact hpair.2.2 t ht _ List.mem_cons_self
  · rw [List.mem_singleton.1 ht]

/-- The call released the agent. -/
def Released (a : Addr) (x : TimedTrans) : Prop := x.src.Leased a ∧ ¬x.dst.Leased a

instance (a : Addr) (x : TimedTrans) : Decidable (Released a x) :=
  inferInstanceAs (Decidable (_ ∧ _))

theorem cleanup_entry {p : Pool} {order : List Addr} (hr : IsRange p.agents order)
    (timeout : Duration) (clock : Addr → Time) {a : Addr} {ac : AgentClient}
    (hac : p.agents.lookup a = some ac) :
    (ac.isStale timeout (clock a) = true ∧
      (p.cleanupStaleAgents timeout order clock).agents.lookup a = ac.released) ∨
    (ac.isStale timeout (clock a) = false ∧
      (p.cleanupStaleAgents timeout order clock).agents.lookup a = some ac) := by
  rw [Pool.lookup_cleanupStaleAgents hr, hac, Option.bind_some]
  cases hst : ac.isStale timeout (clock a)
  · exact .inr ⟨rfl, by simp⟩
  · exact .inl ⟨rfl, by simp⟩

/-- **Stale cleanup is safe and complete**, at every cleanup of every timed run whose clock does not
go back. An agent is released only if the timeout has passed since all activity of its entry; one
that is still busy had activity within the timeout; a released agent is deleted if its removal was
pending and idle otherwise; every other entry is as before. -/
theorem cleanup_safe_and_complete {tr pre post : List TimedTrans} {x : TimedTrans} {p : Pool}
    {o : Outside} {timeout : Duration} (h : Lts.Run TimedStep Pool.newPool tr p)
    (hclock : (tr.flatMap readings).Pairwise (· ≤ ·)) (htr : tr = pre ++ x :: post)
    (hlab : x.lab = (o, ⟨.cleanupStaleAgents timeout, ()⟩)) (a : Addr) :
    (Released a x → activities a pre ≠ [] ∧ ∀ t ∈ activities a pre, timeout < o.clock a - t) ∧
    (x.dst.Leased a → ∃ t ∈ activities a pre, o.clock a - t ≤ timeout) ∧
    (Released a x → ∀ ac, x.src.agents.lookup a = some ac →
      (ac.pendingRemoval = true → a ∉ x.dst.agents) ∧
      (ac.pendingRemoval = false → x.dst.agents.lookup a = some { ac with busy := false })) ∧
    (¬Released a x → x.dst.agents.lookup a = x.src.agents.lookup a) := by
  subst htr
  obtain ⟨_, hpre, hrest⟩ := h.split
  obtain ⟨rfl, hstep, -⟩ := hrest.head
  rw [hlab] at hstep
  obtain ⟨hr, he⟩ := hstep
  obtain ⟨-, hdst⟩ := Prod.mk.inj he
  have hdst : x.src.cleanupStaleAgents timeout o.order o.clock = x.dst := hdst
  rw [List.flatMap_append, List.pairwise_append] at hclock
  cases hac : x.src.agents.lookup a with
  | none =>
    have hgone : x.dst.agents.lookup a = none := by
      rw [← hdst, Pool.lookup_cleanupStaleAgents hr, hac, Option.bind_none]
    have hnot : ¬Released a x := by
      rintro ⟨⟨ac, hac', -⟩, -⟩
      rw [hac] at hac'
      cases hac'
    refine ⟨fun hrel => absurd hrel hnot, ?_, fun hrel => absurd hrel hnot, fun _ => hgone⟩
    rintro ⟨ac, hac', -⟩
    rw [hgone] at hac'
    cases hac'
  | some ac =>
    obtain ⟨hin, hle⟩ := lastActivity_latest hpre hclock.1 hac
    rcases hdst ▸ cleanup_entry hr timeout o.clock hac with ⟨hstale, hafter⟩ | ⟨hfresh, hafter⟩
    · -- the agent is stale, and it is released
      simp only [AgentClient.isStale, Bool.and_eq_true, decide_eq_true_eq] at hstale
      have hnl : ¬x.dst.Leased a := by
        rintro ⟨ac', hac', hbusy⟩
        rw [hafter] at hac'
        obtain ⟨-, rfl⟩ := AgentClient.released_eq_some.1 hac'
        cases hbusy
      have hrel : Released a x := ⟨⟨ac, hac, hstale.1⟩, hnl⟩
      refine ⟨fun _ => ⟨List.ne_nil_of_mem hin, fun t ht => ?_⟩, fun hl => absurd hl hnl, ?_,
        fun hnot => absurd hrel hnot⟩
      · exact lt_of_lt_of_le hstale.2 (Int.sub_le_sub_left (hle t ht) _)
      · intro _ ac' e
        cases e
        rw [hafter]
        refine ⟨fun hp => ?_, fun hp => by simp [AgentClient.released, hp]⟩
        rw [← Finmap.lookup_eq_none, hafter]
        simp [AgentClient.released, hp]
    · -- the agent is not stale, and its entry stays
      have hnot : ¬Released a x := by
        rintro ⟨⟨ac', hac', hbusy⟩, hnl⟩
        rw [hac] at hac'
        cases hac'
        exact hnl ⟨ac, hafter, hbusy⟩
      refine ⟨fun hrel => absurd hrel hnot, ?_, fun hrel => absurd hrel hnot, fun _ => hafter⟩
      rintro ⟨ac', hac', hbusy⟩
      rw [hafter] at hac'
      cases hac'
      simp only [AgentClient.isStale, hbusy, Bool.true_and, decide_eq_false_iff_not] at hfresh
      exact ⟨_, hin, Int.not_lt.1 hfresh⟩

/-- The calls of a list as timed steps. -/
def Pool.timedCalls (p : Pool) : List (Outside × PoolCmd) → List TimedTrans
  | [] => []
  | (o, c) :: l => ⟨p, (o, ⟨c, (c.exec o p).1⟩), (c.exec o p).2⟩ :: (c.exec o p).2.timedCalls l

theorem Pool.run_timedCalls {l : List (Outside × PoolCmd)} :
    ∀ {p : Pool}, p.OrdersOk l → ∃ p', Lts.Run TimedStep p (p.timedCalls l) p' := by
  induction l with
  | nil => intro p _; exact ⟨p, .nil p⟩
  | cons x l ih =>
    intro p h
    obtain ⟨p', hr⟩ := ih h.2
    exact ⟨p', .cons ⟨h.1, rfl⟩ hr⟩

/-- An agent joins at 0, is leased at 100 and touched at 200; a cleanup with timeout 300 runs at
600. -/
def staleCalls : List (Outside × PoolCmd) :=
  [({}, .addAgent "10.0.0.7:50051"),
   ({ order := ["10.0.0.7:50051"], clock := fun _ => 100 }, .lockFreeAgent),
   ({ order := ["10.0.0.7:50051"], clock := fun _ => 200 }, .touchAgent "10.0.0.7:50051"),
   ({ order := ["10.0.0.7:50051"], clock := fun _ => 600 }, .cleanupStaleAgents 300)]

theorem cleanup_safe_and_complete_stale :
    activities "10.0.0.7:50051" ((Pool.newPool.timedCalls staleCalls).take 3) = [0, 100, 200] ∧
    ∀ t ∈ activities "10.0.0.7:50051" ((Pool.newPool.timedCalls staleCalls).take 3),
      (300 : Duration) < 600 - t := by
  have hok : Pool.newPool.OrdersOk staleCalls :=
    ⟨by decide, by decide, by decide, by decide, trivial⟩
  obtain ⟨p', hrun⟩ := Pool.run_timedCalls hok
  have hsplit : Pool.newPool.timedCalls staleCalls =
      (Pool.newPool.timedCalls staleCalls).take 3 ++ _ :: [] := rfl
  exact ⟨by decide, ((cleanup_safe_and_complete hrun (by decide) hsplit rfl
    "10.0.0.7:50051").1 (by decide)).2⟩

end SocketTuner.Router
