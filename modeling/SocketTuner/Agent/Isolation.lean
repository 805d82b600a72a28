import SocketTuner.Agent.Metrics

/-!
# Metrics of one process

The sockops program sees every TCP connection of the host and keeps the records of all processes in
one map, which it finds through another shared map. Still the record of a process depends only on
its own `TCP_CONNECT`s and on the events of the sockets it connected last: the run on these events
alone leaves the same record (`metrics_isolated`). The simulation (`Projects`) relates both maps of
the full run to those of the projected one.
-/

namespace SocketTuner.Agent

/-- An event of the process, after the events `pre`: its own `TCP_CONNECT`, or an update by a socket
whose latest `TCP_CONNECT` it made. -/
def OwnEvent (pid : UInt32) (pre : List SockOps) (e : SockOps) : Prop :=
  e.isConnect = true ∧ e.pid = pid ∨ e.isUpdate = true ∧ lastOwner pre e.cookie = some pid

instance (pid : UInt32) (pre : List SockOps) (e : SockOps) : Decidable (OwnEvent pid pre e) :=
  inferInstanceAs (Decidable (_ ∨ _))

/-- The events of the process among `evs`, which come after `pre`. -/
def ownEventsAfter (pid : UInt32) : (pre evs : List SockOps) → List SockOps
  | _, [] => []
  | pre, e :: evs =>
    if OwnEvent pid pre e then e :: ownEventsAfter pid (pre ++ [e]) evs
    else ownEventsAfter pid (pre ++ [e]) evs

/-- The events of the process in a whole history. -/
def ownEvents (pid : UInt32) (evs : List SockOps) : List SockOps := ownEventsAfter pid [] evs

theorem ownEventsAfter_snoc (pid : UInt32) (pre evs : List SockOps) (e : SockOps) :
    ownEventsAfter pid pre (evs ++ [e]) =
      ownEventsAfter pid pre evs ++ if OwnEvent pid (pre ++ evs) e then [e] else [] := by
  induction evs generalizing pre with
  | nil => by_cases h : OwnEvent pid pre e <;> simp [ownEventsAfter, h]
  | cons x evs ih =>
    simp only [List.cons_append, ownEventsAfter, ih, List.append_assoc, List.nil_append]
    by_cases h : OwnEvent pid pre x <;> simp [h]

theorem ownEvents_snoc (pid : UInt32) (evs : List SockOps) (e : SockOps) :
    ownEvents pid (evs ++ [e]) =
      ownEvents pid evs ++ if OwnEvent pid evs e then [e] else [] :=
  ownEventsAfter_snoc pid [] evs e

theorem lookup_metricsMap_of_not_own {m : Maps} {pid : UInt32} {pre : List SockOps} {e : SockOps}
    (hcookie : m.cookiePidMap.lookup e.cookie = lastOwner pre e.cookie)
    (h : ¬OwnEvent pid pre e) :
    (bpfSockmap m e).1.metricsMap.lookup pid = m.metricsMap.lookup pid := by
  rw [lookup_metricsMap_bpfSockmap, hcookie, if_neg, if_neg]
  · exact fun hu => h (.inr hu)
  · exact fun hc => h (.inl ⟨hc.1, hc.2.1.symm⟩)

/-- The run on the events of the process alone has its record, knows its sockets, and has no entry
that the full run does not have. -/
structure Projects (pid : UInt32) (m m' : Maps) (evs : List SockOps) : Prop where
  record : m.metricsMap.lookup pid = m'.metricsMap.lookup pid
  socket : ∀ c, lastOwner evs c = some pid → m'.cookiePidMap.lookup c = some pid
  cookies : ∀ c ∈ m'.cookiePidMap.entries, c ∈ m.cookiePidMap.entries
  pids : ∀ p ∈ m'.metricsMap.entries, p ∈ m.metricsMap.entries

theorem Projects.accepts {pid : UInt32} {m m' : Maps} {evs : List SockOps}
    (h : Projects pid m m' evs) (hcap : m.BelowCapacity) :
    (∀ c, m'.cookiePidMap.Accepts c) ∧ ∀ p, m'.metricsMap.Accepts p := by
  have hcookies : m'.cookiePidMap.entries.keys ⊆ m.cookiePidMap.entries.keys := fun c hc =>
    Finmap.mem_keys.2 (h.cookies c (Finmap.mem_keys.1 hc))
  have hpids : m'.metricsMap.entries.keys ⊆ m.metricsMap.entries.keys := fun p hp =>
    Finmap.mem_keys.2 (h.pids p (Finmap.mem_keys.1 hp))
  exact ⟨fun _ => .inr ((Finset.card_le_card hcookies).trans_lt hcap.1),
    fun _ => .inr ((Finset.card_le_card hpids).trans_lt hcap.2)⟩

/-- An event of the process, in both runs. -/
theorem Projects.own {pid : UInt32} {m m' : Maps} {evs : List SockOps} {e : SockOps}
    (h : Projects pid m m' evs) (hcap : m.BelowCapacity)
    (hcookie : ∀ c, m.cookiePidMap.lookup c = lastOwner evs c) (hown : OwnEvent pid evs e) :
    Projects pid (bpfSockmap m e).1 (bpfSockmap m' e).1 (evs ++ [e]) := by
  obtain ⟨hacc, hacc'⟩ := h.accepts hcap
  have haccM : ∀ p, m.metricsMap.Accepts p := fun _ => .inr hcap.2
  have haccC : ∀ c, m.cookiePidMap.Accepts c := fun _ => .inr hcap.1
  refine ⟨?_, ?_, ?_, ?_⟩
  · rw [lookup_metricsMap_bpfSockmap, lookup_metricsMap_bpfSockmap, h.record, hcookie]
    rcases hown with ⟨hc, rfl⟩ | ⟨hu, ho⟩
    · simp [hc, haccM, hacc']
    · simp [hu, ho, SockOps.isConnect_of_isUpdate hu, h.socket _ ho]
  · intro c hc
    rw [lookup_cookiePidMap_bpfSockmap]
    rw [lastOwner_snoc] at hc
    by_cases hconn : e.isConnect = true ∧ e.cookie = c
    · obtain ⟨hconn, rfl⟩ := hconn
      simpa [hconn, hacc] using hc
    · rw [if_neg hconn] at hc
      rw [if_neg fun hcon => hconn ⟨hcon.1, hcon.2.1.symm⟩]
      exact h.socket c hc
  · intro c hc
    rw [mem_cookiePidMap_bpfSockmap] at hc ⊢
    exact hc.imp (h.cookies c) fun hc => ⟨hc.1, hc.2.1, haccC c⟩
  · intro p hp
    rw [mem_metricsMap_bpfSockmap] at hp ⊢
    exact hp.imp (h.pids p) fun hp => ⟨hp.1, hp.2.1, haccM p⟩

/-- An event of another process, in the full run alone. -/
theorem Projects.other {pid : UInt32} {m m' : Maps} {evs : List SockOps} {e : SockOps}
    (h : Projects pid m m' evs) (hcookie : ∀ c, m.cookiePidMap.lookup c = lastOwner evs c)
    (hown : ¬OwnEvent pid evs e) : Projects pid (bpfSockmap m e).1 m' (evs ++ [e]) := by
  refine ⟨?_, ?_, ?_, ?_⟩
  · rw [lookup_metricsMap_of_not_own (hcookie e.cookie) hown]
    exact h.record
  · intro c hc
    rw [lastOwner_snoc] at hc
    by_cases hconn : e.isConnect = true ∧ e.cookie = c
    · rw [if_pos hconn, Option.some.injEq] at hc
      exact absurd (.inl ⟨hconn.1, hc⟩) hown
    · rw [if_neg hconn] at hc
      exact h.socket c hc
  · intro c hc
    rw [mem_cookiePidMap_bpfSockmap]
    exact .inl (h.cookies c hc)
  · intro p hp
    rw [mem_metricsMap_bpfSockmap]
    exact .inl (h.pids p hp)

/-- The simulation, over any run with room in the maps. -/
theorem projects_runEvents {evs : List SockOps} (pid : UInt32)
    (hcap : ∀ pre, pre <+: evs → (runEvents .empty pre).BelowCapacity) :
    Projects pid (runEvents .empty evs) (runEvents .empty (ownEvents pid evs)) evs := by
  induction evs using List.reverseRecOn with
  | nil =>
    exact ⟨rfl, fun _ hc => (by cases hc), fun _ hc => absurd hc Finmap.notMem_empty,
      fun _ hp => absurd hp Finmap.notMem_empty⟩
  | append_singleton evs e ih =>
    have hpre : evs <+: evs ++ [e] := List.prefix_append evs [e]
    have hcap' : ∀ pre, pre <+: evs → (runEvents .empty pre).BelowCapacity :=
      fun pre h => hcap pre (h.trans hpre)
    have hcookie := lookup_cookiePidMap_eq_lastOwner hcap'
    rw [runEvents_snoc, ownEvents_snoc]
    by_cases hown : OwnEvent pid evs e
    · rw [if_pos hown, runEvents_snoc]
      exact (ih hcap').own (hcap evs hpre) hcookie hown
    · rw [if_neg hown, List.append_nil]
      exact (ih hcap').other hcookie hown

/-- **The metrics of a process are its own.** In every run with room in the maps the record of a
process is the one that its own `TCP_CONNECT`s and the updates by the sockets it connected last
leave on their own, and every other event leaves it alone. -/
theorem metrics_isolated {evs : List SockOps} (pid : UInt32)
    (hcap : ∀ pre, pre <+: evs → (runEvents .empty pre).BelowCapacity) :
    (runEvents .empty evs).metricsMap.lookup pid =
        (runEvents .empty (ownEvents pid evs)).metricsMap.lookup pid ∧
      ∀ pre e post, evs = pre ++ e :: post → ¬OwnEvent pid pre e →
        (runEvents .empty (pre ++ [e])).metricsMap.lookup pid =
          (runEvents .empty pre).metricsMap.lookup pid := by
  refine ⟨(projects_runEvents pid hcap).record, ?_⟩
  rintro pre e post rfl hown
  rw [runEvents_snoc]
  refine lookup_metricsMap_of_not_own (lookup_cookiePidMap_eq_lastOwner ?_ e.cookie) hown
  exact fun pre' h => hcap pre' (h.trans (List.prefix_append _ _))

/-- The connection of process 4242 with another process's connection and events in between. -/
def sharedEvents : List SockOps :=
  [googleEvent .tcpConnectCb, connectBy 7, { connectBy 7 with op := .stateCb, bytesAcked := 1 },
   googleEvent .activeEstablishedCb, googleState]

theorem metrics_isolated_shared :
    ownEvents 4242 sharedEvents = [googleEvent .tcpConnectCb, googleState] ∧
      (runEvents .empty sharedEvents).metricsMap.lookup 4242 =
        (runEvents .empty (ownEvents 4242 sharedEvents)).metricsMap.lookup 4242 := by
  refine ⟨by decide, (metrics_isolated 4242 fun pre hpre => ?_).1⟩
  exact (by decide : ∀ pre ∈ sharedEvents.inits, (runEvents .empty pre).BelowCapacity) pre
    ((List.mem_inits _ _).2 hpre)

end SocketTuner.Agent
