import Mathlib.Data.List.Induction
import SocketTuner.Agent.Baseline

/-!
# What the metrics record

The sockops program keeps one record per process id in `metrics_map` and finds it, for an event of
a socket, through the process id that `cookie_pid_map` has for the socket's cookie.

* A record describes one connection as long as each update comes from the socket its process
  connected last (`record_describes_connection`); a late event of an earlier socket is written into
  the record of the later one (`late_event_mixes_sockets`).
* Nothing deletes an entry, and a write the kernel refuses is not noticed. So every connection of
  a run is recorded exactly when the run has at most as many cookies and process ids as the maps
  have entries (`recorded_iff`).
-/

namespace SocketTuner.Agent

/-! ## One event -/

namespace SockOps

/-- `bpf_get_current_pid_tgid() >> 32`. -/
def pid (sk : SockOps) : UInt32 := (sk.pidTgid >>> 32).toUInt32

/-- An IPv4 `TCP_CONNECT`. -/
def isConnect (sk : SockOps) : Bool := sk.family = AF_INET && sk.op = .tcpConnectCb

/-- An IPv4 event that runs `update_metrics`. -/
def isUpdate (sk : SockOps) : Bool :=
  sk.family = AF_INET && (sk.op = .stateCb || sk.op = .retransCb)

theorem isConnect_of_isUpdate {sk : SockOps} (h : sk.isUpdate = true) : sk.isConnect = false := by
  unfold isUpdate at h
  unfold isConnect
  cases ho : sk.op <;> simp_all

theorem isUpdate_of_isConnect {sk : SockOps} (h : sk.isConnect = true) : sk.isUpdate = false := by
  cases hu : sk.isUpdate with
  | false => rfl
  | true => rw [isConnect_of_isUpdate hu] at h; cases h

end SockOps

/-- The maps after a `TCP_CONNECT`. -/
def Maps.connect (m : Maps) (sk : SockOps) : Maps :=
  { m with
    cookiePidMap := m.cookiePidMap.update sk.cookie sk.pid
    metricsMap := m.metricsMap.update sk.pid (initialMetrics sk) }

theorem bpfSockmap_cases (m : Maps) (sk : SockOps) :
    (sk.isConnect = true ∧ (bpfSockmap m sk).1 = m.connect sk) ∨
    (sk.isUpdate = true ∧ (bpfSockmap m sk).1 = updateMetrics m sk) ∨
    (sk.isConnect = false ∧ sk.isUpdate = false ∧ (bpfSockmap m sk).1 = m) := by
  unfold bpfSockmap SockOps.isConnect SockOps.isUpdate
  by_cases hf : sk.family = AF_INET
  · cases ho : sk.op
    case tcpConnectCb => exact .inl ⟨by simp [hf], by simp [hf]; rfl⟩
    case stateCb | retransCb => exact .inr (.inl ⟨by simp [hf], by simp [hf]⟩)
    case activeEstablishedCb | passiveEstablishedCb | other =>
      exact .inr (.inr ⟨by simp, by simp, by simp [hf]⟩)
  · exact .inr (.inr ⟨by simp [hf], by simp [hf], by simp [hf]⟩)

/-- The counters and the duration of a record, read from an event. -/
def TuningMetrics.measure (met : TuningMetrics) (sk : SockOps) : TuningMetrics :=
  { met with
    srttUs := sk.srttUs >>> 3
    totalRetrans := sk.totalRetrans
    bytesSent := sk.bytesAcked
    bytesReceived := sk.bytesReceived
    durationUs :=
      if met.startTimeNs > 0 then (sk.ktimeNs - met.startTimeNs) / 1000 else met.durationUs }

/-- `update_metrics` measures the record of the process of the socket. -/
theorem updateMetrics_eq (m : Maps) (sk : SockOps) :
    updateMetrics m sk =
      match (m.cookiePidMap.lookup sk.cookie).bind fun pid =>
        (m.metricsMap.lookup pid).map fun met => (pid, met) with
      | some (pid, met) => { m with metricsMap := m.metricsMap.update pid (met.measure sk) }
      | none => m := by
  unfold updateMetrics
  cases hc : m.cookiePidMap.lookup sk.cookie with
  | none => rfl
  | some pid =>
    cases hm : m.metricsMap.lookup pid with
    | none => simp [hm]
    | some met =>
      simp only [hm, Option.bind_some, Option.map_some, TuningMetrics.measure]
      split <;> rfl

theorem cookiePidMap_updateMetrics (m : Maps) (sk : SockOps) :
    (updateMetrics m sk).cookiePidMap = m.cookiePidMap := by
  rw [updateMetrics_eq]
  split <;> rfl

theorem lookup_updateMetrics (m : Maps) (sk : SockOps) (pid : UInt32) :
    (updateMetrics m sk).metricsMap.lookup pid =
      if m.cookiePidMap.lookup sk.cookie = some pid then
        (m.metricsMap.lookup pid).map fun met => met.measure sk
      else m.metricsMap.lookup pid := by
  rw [updateMetrics_eq]
  cases hc : m.cookiePidMap.lookup sk.cookie with
  | none => simp
  | some pid' =>
    simp only [Option.bind_some, Option.some.injEq]
    cases hm : m.metricsMap.lookup pid' with
    | none =>
      by_cases h : pid' = pid
      · subst h; simp [hm]
      · simp [h]
    | some met =>
      have hacc := BoundedMap.accepts_of_lookup hm
      by_cases h : pid' = pid
      · subst h; simp [hm, hacc, BoundedMap.lookup_update]
      · simp [h, Ne.symm h, BoundedMap.lookup_update]

theorem lookup_cookiePidMap_bpfSockmap (m : Maps) (sk : SockOps) (c : UInt64) :
    (bpfSockmap m sk).1.cookiePidMap.lookup c =
      if sk.isConnect = true ∧ c = sk.cookie ∧ m.cookiePidMap.Accepts sk.cookie then some sk.pid
      else m.cookiePidMap.lookup c := by
  rcases bpfSockmap_cases m sk with ⟨hc, he⟩ | ⟨hu, he⟩ | ⟨hc, -, he⟩
  · rw [he, Maps.connect, BoundedMap.lookup_update]
    simp [hc]
  · have hc : sk.isConnect = false := SockOps.isConnect_of_isUpdate hu
    rw [he, cookiePidMap_updateMetrics]
    simp [hc]
  · rw [he]
    simp [hc]

theorem lookup_metricsMap_bpfSockmap (m : Maps) (sk : SockOps) (pid : UInt32) :
    (bpfSockmap m sk).1.metricsMap.lookup pid =
      if sk.isConnect = true ∧ pid = sk.pid ∧ m.metricsMap.Accepts sk.pid then
        some (initialMetrics sk)
      else if sk.isUpdate = true ∧ m.cookiePidMap.lookup sk.cookie = some pid then
        (m.metricsMap.lookup pid).map fun met => met.measure sk
      else m.metricsMap.lookup pid := by
  rcases bpfSockmap_cases m sk with ⟨hc, he⟩ | ⟨hu, he⟩ | ⟨hc, hu, he⟩
  · have hu : sk.isUpdate = false := SockOps.isUpdate_of_isConnect hc
    rw [he, Maps.connect, BoundedMap.lookup_update]
    simp [hc, hu]
  · have hc : sk.isConnect = false := SockOps.isConnect_of_isUpdate hu
    rw [he, lookup_updateMetrics]
    simp [hc, hu]
  · rw [he]
    simp [hc, hu]

theorem mem_cookiePidMap_bpfSockmap (m : Maps) (sk : SockOps) (c : UInt64) :
    c ∈ (bpfSockmap m sk).1.cookiePidMap.entries ↔
      c ∈ m.cookiePidMap.entries ∨
        sk.isConnect = true ∧ sk.cookie = c ∧ m.cookiePidMap.Accepts c := by
  simp only [BoundedMap.mem_iff, lookup_cookiePidMap_bpfSockmap]
  cases hc : sk.isConnect with
  | false => simp
  | true =>
    by_cases hk : c = sk.cookie
    · subst hk
      by_cases ha : m.cookiePidMap.Accepts sk.cookie <;> simp [ha]
    · simp [hk, Ne.symm hk]

theorem mem_metricsMap_bpfSockmap (m : Maps) (sk : SockOps) (pid : UInt32) :
    pid ∈ (bpfSockmap m sk).1.metricsMap.entries ↔
      pid ∈ m.metricsMap.entries ∨
        sk.isConnect = true ∧ sk.pid = pid ∧ m.metricsMap.Accepts pid := by
  simp only [BoundedMap.mem_iff, lookup_metricsMap_bpfSockmap]
  cases hc : sk.isConnect with
  | false =>
    by_cases hu : sk.isUpdate = true ∧ m.cookiePidMap.lookup sk.cookie = some pid <;> simp [hu]
  | true =>
    have hu : sk.isUpdate = false := SockOps.isUpdate_of_isConnect hc
    by_cases hk : pid = sk.pid
    · subst hk
      by_cases ha : m.metricsMap.Accepts sk.pid <;> simp [ha, hu]
    · simp [hk, Ne.symm hk, hu]

/-- What an event made of a record `old`: as before, or measured by an update of its process. -/
def Follows (m : Maps) (sk : SockOps) (pid : UInt32) (old met : TuningMetrics) : Prop :=
  met = old ∨
    sk.isUpdate = true ∧ m.cookiePidMap.lookup sk.cookie = some pid ∧ met = old.measure sk

/-- Where a record comes from: it was just created, or it follows one that was there before. -/
theorem record_cases {m : Maps} {sk : SockOps} {pid : UInt32} {met : TuningMetrics}
    (h : (bpfSockmap m sk).1.metricsMap.lookup pid = some met) :
    (sk.isConnect = true ∧ sk.pid = pid ∧ met = initialMetrics sk) ∨
    ∃ old, m.metricsMap.lookup pid = some old ∧ Follows m sk pid old met := by
  rw [lookup_metricsMap_bpfSockmap] at h
  split at h
  · next hc =>
    cases h
    exact .inl ⟨hc.1, hc.2.1.symm, rfl⟩
  · split at h
    · next hu =>
      obtain ⟨old, hold, rfl⟩ := Option.map_eq_some_iff.1 h
      exact .inr ⟨old, hold, .inr ⟨hu.1, hu.2, rfl⟩⟩
    · exact .inr ⟨met, h, .inl rfl⟩

/-- A record is followed by another unless its process connects. -/
theorem record_stays {m : Maps} {sk : SockOps} {pid : UInt32} {met : TuningMetrics}
    (h : m.metricsMap.lookup pid = some met) (hsk : ¬(sk.isConnect = true ∧ sk.pid = pid)) :
    ∃ met', (bpfSockmap m sk).1.metricsMap.lookup pid = some met' ∧ Follows m sk pid met met' := by
  rw [lookup_metricsMap_bpfSockmap, if_neg fun hc => hsk ⟨hc.1, hc.2.1.symm⟩, h]
  by_cases hu : sk.isUpdate = true ∧ m.cookiePidMap.lookup sk.cookie = some pid
  · rw [if_pos hu]
    exact ⟨met.measure sk, rfl, .inr ⟨hu.1, hu.2, rfl⟩⟩
  · rw [if_neg hu]
    exact ⟨met, rfl, .inl rfl⟩

theorem runEvents_append (m : Maps) (evs evs' : List SockOps) :
    runEvents m (evs ++ evs') = runEvents (runEvents m evs) evs' := List.foldl_append

theorem runEvents_snoc (m : Maps) (evs : List SockOps) (sk : SockOps) :
    runEvents m (evs ++ [sk]) = (bpfSockmap (runEvents m evs) sk).1 := runEvents_append m evs [sk]

/-! ## One record, one connection -/

/-- The last `TCP_CONNECT` of a process. -/
def lastConnect (evs : List SockOps) (pid : UInt32) : Option SockOps :=
  evs.foldl (fun last sk => if sk.isConnect = true ∧ sk.pid = pid then some sk else last) none

/-- The process that connected a socket last. -/
def lastOwner (evs : List SockOps) (c : UInt64) : Option UInt32 :=
  evs.foldl (fun last sk => if sk.isConnect = true ∧ sk.cookie = c then some sk.pid else last) none

theorem lastConnect_snoc (evs : List SockOps) (sk : SockOps) (pid : UInt32) :
    lastConnect (evs ++ [sk]) pid =
      if sk.isConnect = true ∧ sk.pid = pid then some sk else lastConnect evs pid := by
  simp [lastConnect]

theorem lastOwner_snoc (evs : List SockOps) (sk : SockOps) (c : UInt64) :
    lastOwner (evs ++ [sk]) c =
      if sk.isConnect = true ∧ sk.cookie = c then some sk.pid else lastOwner evs c := by
  simp [lastOwner]

/-- The counters and the duration of the record are all zero. -/
def TuningMetrics.Unmeasured (met : TuningMetrics) : Prop :=
  met.srttUs = 0 ∧ met.totalRetrans = 0 ∧ met.bytesSent = 0 ∧ met.bytesReceived = 0 ∧
    met.durationUs = 0

/-- The counters and the duration of the record are those of the event. A record whose start time
is zero gets no duration. -/
def TuningMetrics.TakenFrom (met : TuningMetrics) (e : SockOps) : Prop :=
  met.srttUs = e.srttUs >>> 3 ∧ met.totalRetrans = e.totalRetrans ∧ met.bytesSent = e.bytesAcked ∧
    met.bytesReceived = e.bytesReceived ∧
    met.durationUs = if met.startTimeNs > 0 then (e.ktimeNs - met.startTimeNs) / 1000 else 0

/-- The record was written by the connection `conn`, and what it measures comes from that socket. -/
structure Describes (evs : List SockOps) (conn : SockOps) (met : TuningMetrics) : Prop where
  remoteIp : met.remoteIp = conn.remoteIp4
  remotePort : met.remotePort = bswap32 conn.remotePort
  startTimeNs : met.startTimeNs = conn.ktimeNs
  measured : met.Unmeasured ∨
    ∃ e ∈ evs, e.isUpdate = true ∧ e.cookie = conn.cookie ∧ met.TakenFrom e

/-- Every record describes the connection its process made last. -/
def OneConnection (evs : List SockOps) : Prop :=
  ∀ pid met, (runEvents .empty evs).metricsMap.lookup pid = some met →
    ∃ conn, lastConnect evs pid = some conn ∧ Describes evs conn met

/-- Both maps the program writes have room. -/
def Maps.BelowCapacity (m : Maps) : Prop :=
  m.cookiePidMap.entries.keys.card < 65536 ∧ m.metricsMap.entries.keys.card < 10240

/-- Every event that updates a record is one of the socket its process connected last. -/
def InTurn (evs : List SockOps) : Prop :=
  ∀ pre e post, evs = pre ++ e :: post → e.isUpdate = true →
    ∀ pid conn, lastOwner pre e.cookie = some pid → lastConnect pre pid = some conn →
      conn.cookie = e.cookie

theorem Describes.mono {evs evs' : List SockOps} (h : evs ⊆ evs') {conn : SockOps}
    {met : TuningMetrics} (hd : Describes evs conn met) : Describes evs' conn met := by
  refine ⟨hd.remoteIp, hd.remotePort, hd.startTimeNs, hd.measured.imp_right ?_⟩
  rintro ⟨e, he, hrest⟩
  exact ⟨e, h he, hrest⟩

theorem describes_initial (evs : List SockOps) (sk : SockOps) :
    Describes evs sk (initialMetrics sk) :=
  ⟨rfl, rfl, rfl, .inl ⟨rfl, rfl, rfl, rfl, rfl⟩⟩

/-- An update by the socket of the record measures it from that event. -/
theorem Describes.measure {evs : List SockOps} {conn sk : SockOps} {met : TuningMetrics}
    (hd : Describes evs conn met) (hu : sk.isUpdate = true) (hc : conn.cookie = sk.cookie) :
    Describes (evs ++ [sk]) conn (met.measure sk) := by
  refine ⟨hd.remoteIp, hd.remotePort, hd.startTimeNs,
    .inr ⟨sk, by simp, hu, hc.symm, rfl, rfl, rfl, rfl, ?_⟩⟩
  by_cases hz : met.startTimeNs > 0
  · simp [TuningMetrics.measure, hz]
  · -- a record without a start time never had a duration
    have hzero : met.durationUs = 0 := by
      rcases hd.measured with h | ⟨e, -, -, -, h⟩
      · exact h.2.2.2.2
      · rw [h.2.2.2.2, if_neg hz]
    simp only [TuningMetrics.measure, if_neg hz, hzero]

theorem OneConnection.snoc {evs : List SockOps} {sk : SockOps}
    (hcookie : ∀ c, (runEvents .empty evs).cookiePidMap.lookup c = lastOwner evs c)
    (hone : OneConnection evs) (hcap : (runEvents .empty evs).BelowCapacity)
    (hturn : sk.isUpdate = true → ∀ pid conn, lastOwner evs sk.cookie = some pid →
      lastConnect evs pid = some conn → conn.cookie = sk.cookie) :
    OneConnection (evs ++ [sk]) := by
  intro pid met hmet
  rw [runEvents_snoc, lookup_metricsMap_bpfSockmap] at hmet
  rw [lastConnect_snoc]
  have hacc : (runEvents .empty evs).metricsMap.Accepts sk.pid := .inr hcap.2
  have hsub : evs ⊆ evs ++ [sk] := List.subset_append_left evs [sk]
  split at hmet
  · next hconn =>
    obtain ⟨hconn, rfl, -⟩ := hconn
    cases hmet
    exact ⟨sk, by simp [hconn], describes_initial _ sk⟩
  · next hconn =>
    have hlast : ¬(sk.isConnect = true ∧ sk.pid = pid) := fun h => hconn ⟨h.1, h.2.symm, hacc⟩
    rw [if_neg hlast]
    split at hmet
    · next hupd =>
      obtain ⟨old, hold, rfl⟩ := Option.map_eq_some_iff.1 hmet
      obtain ⟨conn, hlc, hd⟩ := hone pid old hold
      rw [hcookie] at hupd
      exact ⟨conn, hlc, hd.measure hupd.1 (hturn hupd.1 pid conn hupd.2 hlc)⟩
    · obtain ⟨conn, hlc, hd⟩ := hone pid met hmet
      exact ⟨conn, hlc, hd.mono hsub⟩

/-- With room in the maps, `cookie_pid_map` has the process that connected a socket last. -/
theorem lookup_cookiePidMap_eq_lastOwner {evs : List SockOps}
    (hcap : ∀ pre, pre <+: evs → (runEvents .empty pre).BelowCapacity) (c : UInt64) :
    (runEvents .empty evs).cookiePidMap.lookup c = lastOwner evs c := by
  induction evs using List.reverseRecOn with
  | nil => rfl
  | append_singleton evs sk ih =>
    have hpre : evs <+: evs ++ [sk] := List.prefix_append evs [sk]
    have hacc : (runEvents .empty evs).cookiePidMap.Accepts sk.cookie := .inr (hcap evs hpre).1
    rw [runEvents_snoc, lookup_cookiePidMap_bpfSockmap, lastOwner_snoc,
      ih fun pre h => hcap pre (h.trans hpre)]
    simp only [hacc, and_true, eq_comm (a := c)]

/-- **A record describes one connection**, in every state of a run with room in the maps in which
every update of a record comes from the socket its process connected last. -/
theorem record_describes_connection {evs : List SockOps}
    (hcap : ∀ pre, pre <+: evs → (runEvents .empty pre).BelowCapacity) (hturn : InTurn evs) :
    ∀ pre, pre <+: evs → OneConnection pre := by
  intro pre
  induction pre using List.reverseRecOn with
  | nil => intro _ pid met hmet; cases hmet
  | append_singleton pre sk ih =>
    intro hpre
    have hpre' : pre <+: evs := (List.prefix_append pre [sk]).trans hpre
    obtain ⟨post, rfl⟩ := hpre
    refine (ih hpre').snoc
      (lookup_cookiePidMap_eq_lastOwner fun l hl => hcap l (hl.trans hpre')) (hcap pre hpre') ?_
    intro hupd pid conn
    exact hturn pre sk post (by simp) hupd pid conn

instance (m : Maps) : Decidable m.BelowCapacity := inferInstanceAs (Decidable (_ ∧ _))

/-- The check that an event comes in turn after `pre`. -/
def inTurnAfter (pre : List SockOps) (e : SockOps) : Bool :=
  !e.isUpdate || (lastOwner pre e.cookie).all fun pid =>
    (lastConnect pre pid).all fun conn => conn.cookie = e.cookie

theorem inTurn_of_inits {evs : List SockOps}
    (h : evs.inits.all fun pre => (evs.drop pre.length).head?.all (inTurnAfter pre)) :
    InTurn evs := by
  rintro pre e post rfl hupd pid conn ho hc
  have hpre := List.all_eq_true.1 h pre ((List.mem_inits _ _).2 (List.prefix_append _ _))
  simpa [inTurnAfter, hupd, ho, hc] using hpre

/-- The end of that connection, after two milliseconds. -/
def googleState : SockOps :=
  { googleEvent .stateCb with srttUs := 800, bytesAcked := 120, bytesReceived := 4096,
                              ktimeNs := 3000000 }

/-- Process 4242 connects another socket, to 142.250.1.101. -/
def secondConnect : SockOps :=
  { googleEvent .tcpConnectCb with cookie := 2, remoteIp4 := 0x6501fa8e, ktimeNs := 2000000 }

theorem record_describes_connection_twice :
    InTurn [googleEvent .tcpConnectCb, googleState, secondConnect] ∧
      ∀ pre, pre <+: [googleEvent .tcpConnectCb, googleState, secondConnect] →
        OneConnection pre := by
  have hturn : InTurn [googleEvent .tcpConnectCb, googleState, secondConnect] :=
    inTurn_of_inits (by decide)
  refine ⟨hturn, record_describes_connection (fun pre hpre => ?_) hturn⟩
  exact (by decide : ∀ pre ∈ [googleEvent .tcpConnectCb, googleState, secondConnect].inits,
    (runEvents .empty pre).BelowCapacity) pre ((List.mem_inits _ _).2 hpre)

/-- The first socket of a process ends after the process connected a second one. -/
def mixedEvents : List SockOps := [googleEvent .tcpConnectCb, secondConnect, googleState]

/-- The record of the second connection gets the counters of the first. -/
theorem late_event_mixes_sockets :
    (∀ pre, pre <+: mixedEvents → (runEvents .empty pre).BelowCapacity) ∧
      ¬∀ pre, pre <+: mixedEvents → OneConnection pre := by
  constructor
  · intro pre hpre
    exact (by decide : ∀ pre ∈ mixedEvents.inits, (runEvents .empty pre).BelowCapacity) pre
      ((List.mem_inits _ _).2 hpre)
  · intro h
    obtain ⟨conn, hconn, hd⟩ := h mixedEvents (List.prefix_refl _) 4242 _ rfl
    cases hconn
    rcases hd.measured with hzero | ⟨e, he, hupd, hc, -⟩
    · exact absurd hzero.1 (by decide)
    · revert e
      decide

/-! ## Room for every connection -/

/-- A connection of the process on the socket is recorded. -/
def Recorded (m : Maps) (sk : SockOps) : Prop :=
  m.cookiePidMap.lookup sk.cookie = some sk.pid ∧
    m.metricsMap.lookup sk.pid = some (initialMetrics sk)

/-- A connection is recorded exactly when both maps accept it. -/
theorem recorded_bpfSockmap_iff (m : Maps) {sk : SockOps} (hc : sk.isConnect = true) :
    Recorded (bpfSockmap m sk).1 sk ↔
      m.cookiePidMap.Accepts sk.cookie ∧ m.metricsMap.Accepts sk.pid := by
  unfold Recorded
  rw [lookup_cookiePidMap_bpfSockmap, lookup_metricsMap_bpfSockmap]
  have hu : sk.isUpdate = false := SockOps.isUpdate_of_isConnect hc
  constructor
  · rintro ⟨h₁, h₂⟩
    constructor
    · by_contra hnot
      rw [if_neg fun h => hnot h.2.2] at h₁
      exact hnot (BoundedMap.accepts_of_lookup h₁)
    · by_contra hnot
      rw [if_neg fun h => hnot h.2.2, if_neg fun h => by simp [hu] at h] at h₂
      exact hnot (BoundedMap.accepts_of_lookup h₂)
  · rintro ⟨h₁, h₂⟩
    simp [hc, h₁, h₂]

/-- The socket event of a step. -/
def AgentLabel.event : AgentLabel → Option SockOps
  | .sock _ sk _ => some sk
  | _ => none

/-- The cookie of a step's `TCP_CONNECT`. -/
def AgentLabel.connectCookie (l : AgentLabel) : Option UInt64 :=
  l.event.bind fun sk => if sk.isConnect then some sk.cookie else none

/-- The process id of a step's `TCP_CONNECT`. -/
def AgentLabel.connectPid (l : AgentLabel) : Option UInt32 :=
  l.event.bind fun sk => if sk.isConnect then some sk.pid else none

/-- A step runs the program on its event, and otherwise leaves the maps of the program alone. -/
theorem AgentStep.maps_cases {sha256Hex : String → String} {s s' : AgentSys} {l : AgentLabel}
    (h : AgentStep sha256Hex s l s') :
    (∃ sk, l.event = some sk ∧ s'.world.maps = (bpfSockmap s.world.maps sk).1) ∨
    (l.event = none ∧ s'.world.maps.cookiePidMap = s.world.maps.cookiePidMap ∧
      s'.world.maps.metricsMap = s.world.maps.metricsMap) := by
  rcases h.world_cases with
    ⟨id, c, o, rfl, hw⟩ | ⟨owner, sk, rfl, hw⟩ | ⟨hw, ⟨id, req, rfl⟩ | ⟨id, resp, rfl⟩⟩
  · rw [hw]
    cases c <;> exact .inr ⟨rfl, rfl, rfl⟩
  · exact .inl ⟨sk, rfl, by rw [hw]⟩
  · rw [hw]; exact .inr ⟨rfl, rfl, rfl⟩
  · rw [hw]; exact .inr ⟨rfl, rfl, rfl⟩

theorem AgentStep.maps_event {sha256Hex : String → String} {s s' : AgentSys} {l : AgentLabel}
    (h : AgentStep sha256Hex s l s') {sk : SockOps} (hl : l.event = some sk) :
    s'.world.maps = (bpfSockmap s.world.maps sk).1 := by
  rcases h.maps_cases with ⟨sk', hl', hm⟩ | ⟨hl', -⟩
  · rw [hl] at hl'
    cases hl'
    exact hm
  · rw [hl] at hl'
    cases hl'

theorem AgentStep.metricsMap_eq {sha256Hex : String → String} {s s' : AgentSys} {l : AgentLabel}
    (h : AgentStep sha256Hex s l s') (hl : l.event = none) :
    s'.world.maps.metricsMap = s.world.maps.metricsMap := by
  rcases h.maps_cases with ⟨sk, hl', -⟩ | ⟨-, -, hm⟩
  · rw [hl] at hl'
    cases hl'
  · exact hm

/-- A connection of the process to the address and port of the record. -/
def Connected (tr : AgentTrace) (pid : UInt32) (met : TuningMetrics) : Prop :=
  ∃ x ∈ tr, ∃ sk, x.lab.event = some sk ∧ sk.isConnect = true ∧ sk.pid = pid ∧
    met.remoteIp = sk.remoteIp4 ∧ met.remotePort = bswap32 sk.remotePort

/-- Every record comes from a connection of its process. -/
theorem connected_of_lookup {sha256Hex : String → String} {tr : AgentTrace} {s : AgentSys}
    (h : Lts.Run (AgentStep sha256Hex) .init tr s) :
    ∀ pid met, s.world.maps.metricsMap.lookup pid = some met → Connected tr pid met := by
  refine h.history (P := fun _ _ => True)
    (I := fun tr s => ∀ pid met, s.world.maps.metricsMap.lookup pid = some met →
      Connected tr pid met) ?_ (fun _ _ _ _ => trivial) fun pid met hmet => by cases hmet
  intro pre x ih hstep _ pid met hmet
  have hmono : ∀ old, Connected pre pid old → Connected (pre ++ [x]) pid old := by
    rintro old ⟨y, hy, hrest⟩
    exact ⟨y, List.mem_append_left _ hy, hrest⟩
  rcases hstep.maps_cases with ⟨sk, hl, hm⟩ | ⟨-, -, hm⟩
  · rw [hm] at hmet
    rcases record_cases hmet with ⟨hc, rfl, rfl⟩ | ⟨old, hold, rfl | ⟨-, -, rfl⟩⟩
    · exact ⟨x, by simp, sk, hl, hc, rfl, rfl, rfl⟩
    · exact hmono met (ih pid met hold)
    · exact hmono old (ih pid old hold)
  · rw [hm] at hmet
    exact hmono met (ih pid met hmet)

theorem adds_cookiePidMap (sha256Hex : String → String) :
    BoundedMap.Adds (AgentStep sha256Hex) (fun s => s.world.maps.cookiePidMap)
      AgentLabel.connectCookie := by
  intro s l s' h c
  rcases h.maps_cases with ⟨sk, hl, hm⟩ | ⟨hl, hm, -⟩
  · simp only [hm, mem_cookiePidMap_bpfSockmap]
    cases hc : sk.isConnect <;> simp [AgentLabel.connectCookie, hl, hc]
  · simp [AgentLabel.connectCookie, hl, hm]

theorem adds_metricsMap (sha256Hex : String → String) :
    BoundedMap.Adds (AgentStep sha256Hex) (fun s => s.world.maps.metricsMap)
      AgentLabel.connectPid := by
  intro s l s' h pid
  rcases h.maps_cases with ⟨sk, hl, hm⟩ | ⟨hl, -, hm⟩
  · simp only [hm, mem_metricsMap_bpfSockmap]
    cases hc : sk.isConnect <;> simp [AgentLabel.connectPid, hl, hc]
  · simp [AgentLabel.connectPid, hl, hm]

/-- Every connection of the run is recorded, and the later events of its socket update the record,
until the socket is connected again. -/
def Recording (tr : AgentTrace) : Prop :=
  ∀ pre x post sk, tr = pre ++ x :: post → x.lab.event = some sk → sk.isConnect = true →
    Recorded x.dst.world.maps sk ∧
    ∀ mid y rest e, post = mid ++ y :: rest → y.lab.event = some e → e.isUpdate = true →
      e.cookie = sk.cookie → (∀ z ∈ mid, z.lab.connectCookie ≠ some sk.cookie) →
      ∃ met, y.src.world.maps.metricsMap.lookup sk.pid = some met ∧
        y.dst.world.maps.metricsMap.lookup sk.pid = some (met.measure e)

/-- Both maps accept every connection of the run. -/
def AcceptsAll (tr : AgentTrace) : Prop :=
  (∀ x ∈ tr, ∀ c, x.lab.connectCookie = some c → x.src.world.maps.cookiePidMap.Accepts c) ∧
  ∀ x ∈ tr, ∀ pid, x.lab.connectPid = some pid → x.src.world.maps.metricsMap.Accepts pid

variable {sha256Hex : String → String} {tr : AgentTrace}

theorem acceptsAll_iff {s : AgentSys} (h : Lts.Run (AgentStep sha256Hex) .init tr s) :
    AcceptsAll tr ↔
      (tr.filterMap fun x => x.lab.connectCookie).toFinset.card ≤ 65536 ∧
      (tr.filterMap fun x => x.lab.connectPid).toFinset.card ≤ 10240 :=
  and_congr ((adds_cookiePidMap sha256Hex).accepts_all_iff h rfl)
    ((adds_metricsMap sha256Hex).accepts_all_iff h rfl)

/-- The process of a socket stays in `cookie_pid_map`, and its record in `metrics_map`, until the
socket is connected again. -/
theorem AgentStep.keeps_record {s s' : AgentSys} {l : AgentLabel} (h : AgentStep sha256Hex s l s')
    {c : UInt64} (hl : l.connectCookie ≠ some c) {pid : UInt32}
    (hs : s.world.maps.cookiePidMap.lookup c = some pid ∧ pid ∈ s.world.maps.metricsMap.entries) :
    s'.world.maps.cookiePidMap.lookup c = some pid ∧ pid ∈ s'.world.maps.metricsMap.entries := by
  refine ⟨?_, ((adds_metricsMap sha256Hex) _ _ _ h pid).2 (.inl hs.2)⟩
  rcases h.maps_cases with ⟨sk, he, hm⟩ | ⟨-, hm, -⟩
  · rw [hm, lookup_cookiePidMap_bpfSockmap, if_neg, hs.1]
    rintro ⟨hc, rfl, -⟩
    exact hl (by simp [AgentLabel.connectCookie, he, hc])
  · rw [hm, hs.1]

/-- An accepted connection is recorded, and the events of its socket update the record. -/
theorem recording_of_acceptsAll {s u : AgentSys} (h : Lts.Run (AgentStep sha256Hex) u tr s)
    (hacc : AcceptsAll tr) : Recording tr := by
  rintro pre x post sk rfl hx hc
  have hmem : x ∈ pre ++ x :: post := by simp
  obtain ⟨_, -, hpost⟩ := h.split
  obtain ⟨rfl, hstep, hpost⟩ := hpost.head
  have hrec : Recorded x.dst.world.maps sk := by
    rw [AgentStep.maps_event hstep hx, recorded_bpfSockmap_iff _ hc]
    exact ⟨hacc.1 x hmem _ (by simp [AgentLabel.connectCookie, hx, hc]),
      hacc.2 x hmem _ (by simp [AgentLabel.connectPid, hx, hc])⟩
  refine ⟨hrec, ?_⟩
  rintro mid y rest e rfl hy hu hcookie hmid
  obtain ⟨_, hmid', hrest⟩ := hpost.split
  obtain ⟨rfl, hstep', -⟩ := hrest.head
  -- between the connection and the event the socket keeps its process
  have hkept := (hmid'.restrict (P := fun z => z.lab.connectCookie ≠ some sk.cookie) hmid).invariant
    (I := fun s => s.world.maps.cookiePidMap.lookup sk.cookie = some sk.pid ∧
      sk.pid ∈ s.world.maps.metricsMap.entries)
    (fun _ _ _ hI hz => AgentStep.keeps_record hz.1 hz.2 hI)
    ⟨hrec.1, BoundedMap.mem_iff.2 ⟨_, hrec.2⟩⟩
  obtain ⟨met, hmet⟩ := BoundedMap.mem_iff.1 hkept.2
  refine ⟨met, hmet, ?_⟩
  have hnc : e.isConnect = false := SockOps.isConnect_of_isUpdate hu
  rw [AgentStep.maps_event hstep' hy, lookup_metricsMap_bpfSockmap, if_neg (by simp [hnc]), hcookie,
    if_pos ⟨hu, hkept.1⟩, hmet]
  rfl

theorem Recording.acceptsAll {s u : AgentSys} (h : Lts.Run (AgentStep sha256Hex) u tr s)
    (hrec : Recording tr) : AcceptsAll tr := by
  -- a step that connects has an event, and the maps accepted it
  have hacc : ∀ x ∈ tr, ∀ sk, x.lab.event = some sk → sk.isConnect = true →
      x.src.world.maps.cookiePidMap.Accepts sk.cookie ∧
        x.src.world.maps.metricsMap.Accepts sk.pid := by
    intro x hx sk he hc
    have hstep := h.step_of_mem x hx
    obtain ⟨pre, post, rfl⟩ := List.append_of_mem hx
    have := (hrec pre x post sk rfl he hc).1
    rwa [AgentStep.maps_event hstep he, recorded_bpfSockmap_iff _ hc] at this
  constructor
  · intro x hx c hkey
    simp only [AgentLabel.connectCookie, Option.bind_eq_some_iff, Option.ite_none_right_eq_some,
      Option.some.injEq] at hkey
    obtain ⟨sk, he, hc, rfl⟩ := hkey
    exact (hacc x hx sk he hc).1
  · intro x hx pid hkey
    simp only [AgentLabel.connectPid, Option.bind_eq_some_iff, Option.ite_none_right_eq_some,
      Option.some.injEq] at hkey
    obtain ⟨sk, he, hc, rfl⟩ := hkey
    exact (hacc x hx sk he hc).2

/-- **Recording goes on exactly as long as the keys fit**: over every run of the agent, every
connection is recorded exactly when the run has connected at most 65536 different cookies and at
most 10240 different process ids. -/
theorem recorded_iff {s : AgentSys} (h : Lts.Run (AgentStep sha256Hex) .init tr s) :
    Recording tr ↔
      (tr.filterMap fun x => x.lab.connectCookie).toFinset.card ≤ 65536 ∧
      (tr.filterMap fun x => x.lab.connectPid).toFinset.card ≤ 10240 :=
  ⟨fun hrec => (acceptsAll_iff h).1 (hrec.acceptsAll h),
    fun hcard => recording_of_acceptsAll h ((acceptsAll_iff h).2 hcard)⟩

theorem recorded_iff_baseline :
    Lts.Run (AgentStep sha256Google) .init (playActions (baselineActions 0)).1
      (playActions (baselineActions 0)).2 ∧ Recording (playActions (baselineActions 0)).1 := by
  have hrun := run_playActions (baselineActions 0) rfl
  exact ⟨hrun, (recorded_iff hrun).2 (by decide)⟩

/-- The steps of events of processes no call started. -/
def hostEvents (s : AgentSys) : List SockOps → AgentTrace
  | [] => []
  | sk :: evs =>
    let s' := { s with world := { s.world with maps := (bpfSockmap s.world.maps sk).1 } }
    ⟨s, .sock none sk (bpfSockmap s.world.maps sk).2, s'⟩ :: hostEvents s' evs

theorem run_hostEvents (sha256Hex : String → String) (evs : List SockOps) (s : AgentSys) :
    ∃ s', Lts.Run (AgentStep sha256Hex) s (hostEvents s evs) s' := by
  induction evs generalizing s with
  | nil => exact ⟨s, .nil s⟩
  | cons sk evs ih =>
    obtain ⟨s', hr⟩ :=
      ih { s with world := { s.world with maps := (bpfSockmap s.world.maps sk).1 } }
    exact ⟨s', .cons ⟨.sock none sk, rfl⟩ hr⟩

theorem filterMap_hostEvents {α : Type} (f : SockOps → Option α) (evs : List SockOps)
    (s : AgentSys) :
    ((hostEvents s evs).filterMap fun x => x.lab.event.bind f) = evs.filterMap f := by
  induction evs generalizing s with
  | nil => rfl
  | cons sk evs ih =>
    rw [hostEvents, List.filterMap_cons, List.filterMap_cons, ih]
    rfl

/-- A connection by the process `n`, on the socket `n`. -/
def connectBy (n : Nat) : SockOps :=
  { googleEvent .tcpConnectCb with cookie := .ofNat n, pidTgid := .ofNat (n * 2 ^ 32) }

theorem pid_connectBy {n : Nat} (h : n < 2 ^ 32) : (connectBy n).pid.toNat = n := by
  simp only [connectBy, SockOps.pid, UInt64.toNat_toUInt32, UInt64.toNat_shiftRight,
    UInt64.toNat_ofNat']
  rw [Nat.shiftRight_eq_div_pow]
  have : (32 : UInt64).toNat % 64 = 32 := rfl
  rw [this]
  omega

/-- The processes 1 to 10241 connect once each. -/
def manyConnects : List SockOps := (List.range 10241).map fun n => connectBy (n + 1)

/-- The last of them is not recorded. -/
theorem full_map_stops_recording :
    (∃ s, Lts.Run (AgentStep sha256Google) .init (hostEvents .init manyConnects) s) ∧
      ¬Recording (hostEvents .init manyConnects) := by
  obtain ⟨s, hrun⟩ := run_hostEvents sha256Google manyConnects .init
  refine ⟨⟨s, hrun⟩, fun hrec => ?_⟩
  have hcard := ((acceptsAll_iff hrun).1 (hrec.acceptsAll hrun)).2
  have hpids : ((hostEvents .init manyConnects).filterMap fun x => x.lab.connectPid) =
      (List.range 10241).map fun n => (connectBy (n + 1)).pid := by
    unfold AgentLabel.connectPid
    rw [filterMap_hostEvents, manyConnects, List.filterMap_map, ← List.filterMap_eq_map]
    rfl
  have hnodup : ((List.range 10241).map fun n => (connectBy (n + 1)).pid).Nodup := by
    refine List.nodup_range.map_on fun n hn n' hn' heq => ?_
    rw [List.mem_range] at hn hn'
    have := congrArg UInt32.toNat heq
    rw [pid_connectBy (by omega), pid_connectBy (by omega)] at this
    exact Nat.succ.inj this
  rw [hpids, List.toFinset_card_of_nodup hnodup, List.length_map, List.length_range] at hcard
  omega

end SocketTuner.Agent
