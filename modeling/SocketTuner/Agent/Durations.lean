import SocketTuner.Agent.Metrics

/-!
# Durations

`update_metrics` subtracts the start time of a record, which any socket of its process may reset,
from the clock. As long as the clock does not go back the difference never wraps, a duration is at
most the time since the start, and it only grows until the process connects again
(`durations_never_wrap`).
-/

namespace SocketTuner.Agent

/-! ## The clock -/

/-- `bpf_ktime_get_ns` is called for a new record, and for one that has a start time. -/
def readsClock (m : Maps) (sk : SockOps) : Bool :=
  sk.isConnect || sk.isUpdate &&
    ((m.cookiePidMap.lookup sk.cookie).bind m.metricsMap.lookup).any fun met => met.startTimeNs > 0

/-- The readings of the clock while the events are handled. -/
def clockReadings : Maps → List SockOps → List UInt64
  | _, [] => []
  | m, sk :: evs =>
    (if readsClock m sk then [sk.ktimeNs] else []) ++ clockReadings (bpfSockmap m sk).1 evs

theorem clockReadings_append (m : Maps) (evs evs' : List SockOps) :
    clockReadings m (evs ++ evs') =
      clockReadings m evs ++ clockReadings (runEvents m evs) evs' := by
  induction evs generalizing m with
  | nil => rfl
  | cons sk evs ih =>
    rw [List.cons_append, clockReadings, clockReadings, ih, List.append_assoc]
    rfl

/-- No reading is before an earlier one. -/
def ClockAdvances (evs : List SockOps) : Prop := (clockReadings .empty evs).Pairwise (· ≤ ·)

instance (evs : List SockOps) : Decidable (ClockAdvances evs) :=
  inferInstanceAs (Decidable (List.Pairwise _ _))

/-- The latest reading. -/
def latestClock (evs : List SockOps) : UInt64 := (clockReadings .empty evs).getLast?.getD 0

theorem latestClock_snoc (evs : List SockOps) (sk : SockOps) :
    latestClock (evs ++ [sk]) =
      if readsClock (runEvents .empty evs) sk then sk.ktimeNs else latestClock evs := by
  unfold latestClock
  rw [clockReadings_append]
  by_cases h : readsClock (runEvents .empty evs) sk = true <;> simp [clockReadings, h]

theorem ClockAdvances.of_append {evs evs' : List SockOps} (h : ClockAdvances (evs ++ evs')) :
    ClockAdvances evs := by
  unfold ClockAdvances at h
  rw [clockReadings_append] at h
  exact (List.pairwise_append.1 h).1

theorem ClockAdvances.latest_le {evs : List SockOps} {sk : SockOps}
    (h : ClockAdvances (evs ++ [sk])) (hsk : readsClock (runEvents .empty evs) sk = true) :
    latestClock evs ≤ sk.ktimeNs := by
  unfold ClockAdvances at h
  rw [clockReadings_append] at h
  unfold latestClock
  cases hlast : (clockReadings .empty evs).getLast? with
  | none => exact UInt64.zero_le
  | some t =>
    have ht : t ∈ clockReadings .empty evs := List.mem_of_getLast? hlast
    exact (List.pairwise_append.1 h).2.2 t ht sk.ktimeNs (by simp [clockReadings, hsk])

/-! ## One record -/

namespace TuningMetrics

/-- The record was started and measured by the time `now`. -/
structure Until (met : TuningMetrics) (now : UInt64) : Prop where
  started : met.startTimeNs ≤ now
  measured : met.durationUs.toNat ≤ (now.toNat - met.startTimeNs.toNat) / 1000

/-- The same connection, at the same time or later. -/
structure Later (met met' : TuningMetrics) : Prop where
  remoteIp : met'.remoteIp = met.remoteIp
  remotePort : met'.remotePort = met.remotePort
  startTimeNs : met'.startTimeNs = met.startTimeNs
  durationUs : met.durationUs ≤ met'.durationUs

variable {met : TuningMetrics} {sk : SockOps} {now : UInt64}

theorem Until.mono {now' : UInt64} (h : met.Until now) (hle : now ≤ now') : met.Until now' where
  started := UInt64.le_trans h.started hle
  measured := by
    have hle := UInt64.le_iff_toNat_le.1 hle
    exact h.measured.trans (Nat.div_le_div_right (Nat.sub_le_sub_right hle _))

theorem toNat_duration (h : met.startTimeNs ≤ sk.ktimeNs) :
    ((sk.ktimeNs - met.startTimeNs) / 1000).toNat =
      (sk.ktimeNs.toNat - met.startTimeNs.toNat) / 1000 := by
  rw [UInt64.toNat_div, UInt64.toNat_sub_of_le _ _ h]
  rfl

theorem Later.refl (met : TuningMetrics) : met.Later met := ⟨rfl, rfl, rfl, UInt64.le_refl _⟩

theorem Later.trans {met' met'' : TuningMetrics} (h : met.Later met') (h' : met'.Later met'') :
    met.Later met'' :=
  ⟨h'.remoteIp.trans h.remoteIp, h'.remotePort.trans h.remotePort,
    h'.startTimeNs.trans h.startTimeNs, UInt64.le_trans h.durationUs h'.durationUs⟩

/-- A measurement keeps the connection, and gives a duration that is at most the time since the
start and not shorter than the one before. Without a start time it gives none. -/
theorem Until.measure (h : met.Until now)
    (hle : met.startTimeNs > 0 → now ≤ sk.ktimeNs) :
    (met.measure sk).Until (if met.startTimeNs > 0 then sk.ktimeNs else now) ∧
      met.Later (met.measure sk) := by
  by_cases hz : met.startTimeNs > 0
  · have hnow := h.mono (hle hz)
    have hdur := toNat_duration hnow.started
    simp only [TuningMetrics.measure, if_pos hz]
    refine ⟨⟨hnow.started, hdur.le⟩, rfl, rfl, rfl, ?_⟩
    rw [UInt64.le_iff_toNat_le, hdur]
    exact hnow.measured
  · simp only [TuningMetrics.measure, if_neg hz]
    exact ⟨⟨h.started, h.measured⟩, rfl, rfl, rfl, UInt64.le_refl _⟩

end TuningMetrics

theorem until_initial (sk : SockOps) : (initialMetrics sk).Until sk.ktimeNs :=
  ⟨UInt64.le_refl _, Nat.zero_le _⟩

theorem readsClock_of_update {m : Maps} {sk : SockOps} {pid : UInt32} {met : TuningMetrics}
    (hu : sk.isUpdate = true) (hpid : m.cookiePidMap.lookup sk.cookie = some pid)
    (hmet : m.metricsMap.lookup pid = some met) (hz : met.startTimeNs > 0) :
    readsClock m sk = true := by
  simp [readsClock, hu, hpid, hmet, hz]

/-! ## One event -/

/-- Every record was started and measured by the time `now`. -/
def Maps.Until (m : Maps) (now : UInt64) : Prop :=
  ∀ pid met, m.metricsMap.lookup pid = some met → met.Until now

section Event

variable {m : Maps} {now : UInt64} {sk : SockOps} (h : m.Until now)
  (hle : readsClock m sk = true → now ≤ sk.ktimeNs)

include h hle

/-- What an event makes of a record is the same connection, by the time of the event. -/
theorem Maps.Until.follows {pid : UInt32} {met met' : TuningMetrics}
    (hmet : m.metricsMap.lookup pid = some met) (hf : Follows m sk pid met met') :
    met'.Until (if readsClock m sk then sk.ktimeNs else now) ∧ met.Later met' := by
  have huntil := h pid met hmet
  have hnow : now ≤ if readsClock m sk then sk.ktimeNs else now := by
    split
    · next hr => exact hle hr
    · exact UInt64.le_refl _
  rcases hf with rfl | ⟨hu, hpid, rfl⟩
  · exact ⟨huntil.mono hnow, .refl met'⟩
  · have hreads := readsClock_of_update hu hpid hmet
    obtain ⟨hnew, hlater⟩ := huntil.measure fun hz => hle (hreads hz)
    refine ⟨?_, hlater⟩
    split at hnew
    · next hz => rwa [if_pos (hreads hz)]
    · exact hnew.mono hnow

theorem Maps.Until.step :
    (bpfSockmap m sk).1.Until (if readsClock m sk then sk.ktimeNs else now) := by
  intro pid met hmet
  rcases record_cases hmet with ⟨hc, -, rfl⟩ | ⟨old, hold, hf⟩
  · rw [if_pos (by simp [readsClock, hc])]
    exact until_initial sk
  · exact (h.follows hle hold hf).1

end Event

/-! ## Whole runs -/

theorem until_runEvents {evs : List SockOps} (h : ClockAdvances evs) :
    (runEvents .empty evs).Until (latestClock evs) := by
  induction evs using List.reverseRecOn with
  | nil =>
    intro pid met hmet
    cases hmet
  | append_singleton evs sk ih =>
    rw [runEvents_snoc, latestClock_snoc]
    exact (ih h.of_append).step h.latest_le

/-- Until its process connects again, a record goes on with the same connection. -/
theorem later_runEvents {pre mid : List SockOps} {pid : UInt32} {met : TuningMetrics}
    (h : ClockAdvances (pre ++ mid)) (hmid : ∀ e ∈ mid, ¬(e.isConnect = true ∧ e.pid = pid))
    (hmet : (runEvents .empty pre).metricsMap.lookup pid = some met) :
    ∃ met', (runEvents .empty (pre ++ mid)).metricsMap.lookup pid = some met' ∧
      met.Later met' := by
  induction mid using List.reverseRecOn with
  | nil => exact ⟨met, by rw [List.append_nil]; exact hmet, .refl met⟩
  | append_singleton mid sk ih =>
    rw [← List.append_assoc] at h ⊢
    obtain ⟨met', hmet', hlater⟩ :=
      ih h.of_append fun e he => hmid e (List.mem_append_left _ he)
    obtain ⟨met'', hmet'', hf⟩ := record_stays hmet' (hmid sk (by simp))
    have hstep := ((until_runEvents h.of_append).follows h.latest_le hmet' hf).2
    exact ⟨met'', by rw [runEvents_snoc]; exact hmet'', hlater.trans hstep⟩

/-- **Durations never wrap.** As long as the clock does not go back, in every state of a run every
record was started by the latest reading and its duration is at most the time since; every update
that reads the clock subtracts a start time that is not in the future; and from one `TCP_CONNECT` of
a process to the next its record keeps address, port and start time and its duration does not
decrease. -/
theorem durations_never_wrap {evs : List SockOps} (h : ClockAdvances evs) :
    (∀ pre, pre <+: evs → ∀ pid met, (runEvents .empty pre).metricsMap.lookup pid = some met →
      met.startTimeNs ≤ latestClock pre ∧
      met.durationUs.toNat ≤ ((latestClock pre).toNat - met.startTimeNs.toNat) / 1000) ∧
    (∀ pre e post, evs = pre ++ e :: post → e.isUpdate = true →
      ∀ pid met, (runEvents .empty pre).cookiePidMap.lookup e.cookie = some pid →
        (runEvents .empty pre).metricsMap.lookup pid = some met → met.startTimeNs > 0 →
        met.startTimeNs ≤ e.ktimeNs ∧
        (e.ktimeNs - met.startTimeNs).toNat = e.ktimeNs.toNat - met.startTimeNs.toNat) ∧
    (∀ pre mid post, evs = pre ++ mid ++ post → ∀ pid met,
      (∀ e ∈ mid, ¬(e.isConnect = true ∧ e.pid = pid)) →
      (runEvents .empty pre).metricsMap.lookup pid = some met →
      ∃ met', (runEvents .empty (pre ++ mid)).metricsMap.lookup pid = some met' ∧
        met'.remoteIp = met.remoteIp ∧ met'.remotePort = met.remotePort ∧
        met'.startTimeNs = met.startTimeNs ∧ met.durationUs ≤ met'.durationUs) := by
  refine ⟨?_, ?_, ?_⟩
  · rintro pre ⟨post, rfl⟩ pid met hmet
    obtain ⟨hstart, hdur⟩ := until_runEvents h.of_append pid met hmet
    exact ⟨hstart, hdur⟩
  · rintro pre e post rfl hu pid met hpid hmet hz
    rw [List.append_cons] at h
    have hle := h.of_append.latest_le (readsClock_of_update hu hpid hmet hz)
    have hstart := UInt64.le_trans (until_runEvents h.of_append.of_append pid met hmet).started hle
    exact ⟨hstart, UInt64.toNat_sub_of_le _ _ hstart⟩
  · rintro pre mid post rfl pid met hmid hmet
    obtain ⟨met', hmet', hip, hport, hstart, hdur⟩ := later_runEvents h.of_append hmid hmet
    exact ⟨met', hmet', hip, hport, hstart, hdur⟩

/-- A process connects twice, and its first socket updates the record of the second. -/
theorem durations_never_wrap_mixed :
    ClockAdvances mixedEvents ∧
    ∃ met, (runEvents .empty mixedEvents).metricsMap.lookup 4242 = some met ∧
      met.startTimeNs = 2000000 ∧ met.startTimeNs ≤ latestClock mixedEvents ∧
      met.durationUs.toNat ≤ ((latestClock mixedEvents).toNat - met.startTimeNs.toNat) / 1000 := by
  have h : ClockAdvances mixedEvents := by decide
  exact ⟨h, _, rfl, rfl, (durations_never_wrap h).1 mixedEvents (List.prefix_refl _) 4242 _ rfl⟩

end SocketTuner.Agent
