import SocketTuner.Agent.Metrics
import SocketTuner.Lib.Layout

/-!
# The maps in bytes

The kernel's maps hold bytes. The agent marshals and unmarshals the structures that `bpf2go` made
(`env-ebpf-agent/ebpf/bpf_bpf.go`), one field after the other; `socket_tuner.c` reads and writes the
fields of its own structures, where the C compiler puts them.

`ByteSys` is `AgentSys` on such maps: the same calls in flight, every map command and every event of
the program done in bytes. It has the same traces (`trace_bytes_iff`), so what holds of every run of
the agent on maps of values holds of it on maps of bytes.
-/

namespace SocketTuner.Agent

open Layout

/-! ## The two declarations of each structure -/

/-- `struct ip_port_key`: `ip`, `port`. -/
def cIpPortKey : List Nat := [4, 4]

/-- `struct tuning_action`: eight `__u32`, `enable_ecn`, `pacing_status`, `keepalive_idle`. -/
def cTuningAction : List Nat := [4, 4, 4, 4, 4, 4, 4, 4, 1, 1, 4]

/-- `struct tuning_metrics`: `remote_ip`, `remote_port`, `srtt_us`, `total_retrans`, `bytes_sent`,
`bytes_received`, `start_time_ns`, `duration_us`. -/
def cTuningMetrics : List Nat := [4, 4, 4, 4, 8, 8, 8, 8]

/-- `BpfIpPortKey` -/
def bpfIpPortKey : List Item := [.field 4, .field 4]

/-- `BpfTuningAction` -/
def bpfTuningAction : List Item :=
  [.field 4, .field 4, .field 4, .field 4, .field 4, .field 4, .field 4, .field 4,
    .field 1, .field 1, .blank 2, .field 4]

/-- `BpfTuningMetrics` -/
def bpfTuningMetrics : List Item :=
  [.field 4, .field 4, .field 4, .field 4, .field 8, .field 8, .field 8, .field 8]

/-- `bpf2go` named every gap of the C structures. -/
theorem bpf_items : bpfIpPortKey = items cIpPortKey ∧ bpfTuningAction = items cTuningAction ∧
    bpfTuningMetrics = items cTuningMetrics :=
  ⟨rfl, rfl, rfl⟩

/-- The fields of a key, in their order in memory. -/
def IpPortKey.numbers (key : IpPortKey) : List Nat := [key.ip.toNat, key.port.toNat]

/-- The fields of an action, in their order in memory. -/
def TuningAction.numbers (act : TuningAction) : List Nat :=
  [act.maxPacingRate.toNat, act.sndCwndClamp.toNat, act.congAlgo.toNat, act.initCwnd.toNat,
    act.windowClamp.toNat, act.noDelay.toNat, act.rtoMin.toNat, act.retransAfter.toNat,
    act.enableEcn.toNat, act.pacingStatus.toNat, act.keepaliveIdle.toNat]

/-- The action with these fields; one that is not there is 0. -/
def TuningAction.ofNumbers (vs : List Nat) : TuningAction where
  maxPacingRate := .ofNat (vs.getD 0 0)
  sndCwndClamp := .ofNat (vs.getD 1 0)
  congAlgo := .ofNat (vs.getD 2 0)
  initCwnd := .ofNat (vs.getD 3 0)
  windowClamp := .ofNat (vs.getD 4 0)
  noDelay := .ofNat (vs.getD 5 0)
  rtoMin := .ofNat (vs.getD 6 0)
  retransAfter := .ofNat (vs.getD 7 0)
  enableEcn := .ofNat (vs.getD 8 0)
  pacingStatus := .ofNat (vs.getD 9 0)
  keepaliveIdle := .ofNat (vs.getD 10 0)

/-- The fields of a record, in their order in memory. -/
def TuningMetrics.numbers (met : TuningMetrics) : List Nat :=
  [met.remoteIp.toNat, met.remotePort.toNat, met.srttUs.toNat, met.totalRetrans.toNat,
    met.bytesSent.toNat, met.bytesReceived.toNat, met.startTimeNs.toNat, met.durationUs.toNat]

/-- The record with these fields; one that is not there is 0. -/
def TuningMetrics.ofNumbers (vs : List Nat) : TuningMetrics where
  remoteIp := .ofNat (vs.getD 0 0)
  remotePort := .ofNat (vs.getD 1 0)
  srttUs := .ofNat (vs.getD 2 0)
  totalRetrans := .ofNat (vs.getD 3 0)
  bytesSent := .ofNat (vs.getD 4 0)
  bytesReceived := .ofNat (vs.getD 5 0)
  startTimeNs := .ofNat (vs.getD 6 0)
  durationUs := .ofNat (vs.getD 7 0)

theorem TuningAction.ofNumbers_numbers (act : TuningAction) : ofNumbers act.numbers = act := by
  simp [ofNumbers, numbers]

theorem TuningMetrics.ofNumbers_numbers (met : TuningMetrics) : ofNumbers met.numbers = met := by
  simp [ofNumbers, numbers]

theorem fits_u32 (x : UInt32) : x.toNat < 256 ^ 4 := x.toNat_lt
theorem fits_u64 (x : UInt64) : x.toNat < 256 ^ 8 := x.toNat_lt
theorem fits_u8 (x : UInt8) : x.toNat < 256 ^ 1 := x.toNat_lt

theorem IpPortKey.fits (key : IpPortKey) : Fits cIpPortKey key.numbers :=
  .cons (fits_u32 _) (.cons (fits_u32 _) .nil)

theorem TuningAction.fits (act : TuningAction) : Fits cTuningAction act.numbers := by
  simp only [Fits, cTuningAction, numbers, List.forall₂_cons, fits_u32, fits_u8, true_and]
  exact .nil

theorem TuningMetrics.fits (met : TuningMetrics) : Fits cTuningMetrics met.numbers := by
  simp only [Fits, cTuningMetrics, numbers, List.forall₂_cons, fits_u32, fits_u64, true_and]
  exact .nil

/-! ## The program in bytes -/

/-- The maps as the kernel holds them. -/
structure ByteMaps where
  actionMap : BoundedMap (List UInt8) (List UInt8) 1024
  metricsMap : BoundedMap (List UInt8) (List UInt8) 10240
  cookiePidMap : BoundedMap (List UInt8) (List UInt8) 65536

/-- The maps when the program is loaded. -/
def ByteMaps.empty : ByteMaps := ⟨.empty, .empty, .empty⟩

/-- `struct ip_port_key key = {}; key.ip = …; key.port = …;` -/
def cKey (ip port : UInt32) : List UInt8 :=
  assign 0 cIpPortKey 1 port.toNat (assign 0 cIpPortKey 0 ip.toNat (zeroed cIpPortKey))

/-- `struct tuning_metrics initial = {}`, and the three fields the program sets. -/
def cInitial (sk : SockOps) : List UInt8 :=
  let initial := zeroed cTuningMetrics
  let initial := assign 0 cTuningMetrics 6 sk.ktimeNs.toNat initial
  let initial := assign 0 cTuningMetrics 0 sk.remoteIp4.toNat initial
  assign 0 cTuningMetrics 1 (bswap32 sk.remotePort).toNat initial

/-- `update_metrics` on the record `met` points to. -/
def cMeasure (sk : SockOps) (met : List UInt8) : List UInt8 :=
  let met := assign 0 cTuningMetrics 2 (sk.srttUs >>> 3).toNat met
  let met := assign 0 cTuningMetrics 3 sk.totalRetrans.toNat met
  let met := assign 0 cTuningMetrics 4 sk.bytesAcked.toNat met
  let met := assign 0 cTuningMetrics 5 sk.bytesReceived.toNat met
  let startTimeNs := UInt64.ofNat ((view 0 cTuningMetrics met).getD 6 0)
  if startTimeNs > 0 then
    assign 0 cTuningMetrics 7 ((sk.ktimeNs - startTimeNs) / 1000).toNat met
  else met

/-- `update_metrics` on maps of bytes. -/
def ByteMaps.updateMetrics (m : ByteMaps) (sk : SockOps) : ByteMaps :=
  match m.cookiePidMap.lookup (leBytes 8 sk.cookie.toNat) with
  | none => m
  | some pidPtr =>
    let pid := leBytes 4 (load 0 4 pidPtr)
    match m.metricsMap.lookup pid with
    | none => m
    | some met => { m with metricsMap := m.metricsMap.update pid (cMeasure sk met) }

/-- `bpf_sockmap` on maps of bytes. -/
def ByteMaps.bpfSockmap (m : ByteMaps) (sk : SockOps) : ByteMaps × Effects :=
  if sk.family ≠ AF_INET then (m, {})
  else
    let key := cKey sk.remoteIp4 0
    match sk.op with
    | .tcpConnectCb =>
      let pid := leBytes 4 (sk.pidTgid >>> 32).toUInt32.toNat
      let m := { m with
        cookiePidMap := m.cookiePidMap.update (leBytes 8 sk.cookie.toNat) pid }
      ({ m with metricsMap := m.metricsMap.update pid (cInitial sk) }, {})
    | .activeEstablishedCb | .passiveEstablishedCb =>
      let sockopts := match m.actionMap.lookup key with
        | some act => (TuningAction.ofNumbers (view 0 cTuningAction act)).calls
        | none => []
      (m, { sockopts, cbFlagsSet := some (sk.cbFlags ||| BPF_SOCK_OPS_STATE_CB_FLAG) })
    | .stateCb | .retransCb => (m.updateMetrics sk, {})
    | .other => (m, {})

/-! ## The agent's commands in bytes -/

/-- `AgentWorld` with maps of bytes. -/
structure ByteWorld where
  lastCommand : String
  maps : ByteMaps

/-- The agent when it starts: no command, empty maps. -/
def ByteWorld.init : ByteWorld := { lastCommand := "", maps := .empty }

/-- `MetricsMap.Lookup`: an error when the key is not there, or a size is not that of the map. -/
def ByteMaps.lookupMetrics (m : ByteMaps) (key : List UInt8) : Option TuningMetrics :=
  if key.length = sizeof [4] then
    match m.metricsMap.lookup key with
    | some metric =>
      if metric.length = size bpfTuningMetrics then
        some (.ofNumbers (unmarshal bpfTuningMetrics metric))
      else none
    | none => none
  else none

/-- `AgentCmd.exec` on maps of bytes: keys and values go through the marshalling of the eBPF
library, which refuses a size that is not the map's. -/
def AgentCmd.execBytes (o : AgentOutside) : (c : AgentCmd) → ByteWorld → c.Ret × ByteWorld
  | .setLastCommand cmd, w => ((), { w with lastCommand := cmd })
  | .getLastCommand, w => (w.lastCommand, w)
  | .start _, w => (o.start, w)
  | .wait _, w => (o.wait, w)
  | .putAction key action, w =>
    let keyBytes := marshal bpfIpPortKey key.numbers
    let valueBytes := marshal bpfTuningAction action.numbers
    if keyBytes.length = sizeof cIpPortKey ∧ valueBytes.length = sizeof cTuningAction ∧
        w.maps.actionMap.Accepts keyBytes then
      (none, { w with maps := { w.maps with
        actionMap := w.maps.actionMap.update keyBytes valueBytes } })
    else (some o.putErr, w)
  | .lookupMetric pid, w =>
    (match w.maps.lookupMetrics (leBytes 4 pid.toNat) with
      | some metric => .ok metric
      | none => .error o.lookupErr, w)

/-- `GetMetrics`, which nothing calls: it looks for an address in the map of process ids. -/
def Manager.getMetrics (o : AgentOutside) (ip : String) (port : UInt32) (m : ByteMaps) :
    Except String TuningMetrics :=
  match Manager.ipToKey ip port with
  | .error err => .error err
  | .ok key =>
    match m.lookupMetrics (marshal bpfIpPortKey key.numbers) with
    | some metric => .ok metric
    | none => .error o.lookupErr

/-- `GetMetrics` never returns metrics: its key has not the size of the map's. -/
theorem Manager.getMetrics_ne_ok (o : AgentOutside) (ip : String) (port : UInt32) (m : ByteMaps)
    (met : TuningMetrics) : Manager.getMetrics o ip port m ≠ .ok met := by
  unfold Manager.getMetrics
  split
  · exact nofun
  · next key _ =>
    have hkey : (marshal bpfIpPortKey key.numbers).length ≠ sizeof [4] := by
      rw [length_marshal]
      decide
    have hnone : m.lookupMetrics (marshal bpfIpPortKey key.numbers) = none := if_neg hkey
    rw [hnone]
    exact nofun

/-- `AgentSys` with maps of bytes. -/
structure ByteSys where
  world : ByteWorld
  calls : Nat → Option InFlight

/-- The agent when it starts, with no call in flight. -/
def ByteSys.init : ByteSys := { world := .init, calls := fun _ => none }

/-- Replace the call `id`, or end it. -/
def ByteSys.setCall (s : ByteSys) (id : Nat) (call : Option InFlight) : ByteSys :=
  { s with calls := Function.update s.calls id call }

/-- `AgentSys.step` on maps of bytes. -/
def ByteSys.step (sha256Hex : String → String) (s : ByteSys) :
    AgentAction → Option (AgentLabel × ByteSys)
  | .call id req =>
    if (s.calls id).isSome then none
    else some (.call id req, s.setCall id (some { req, prog := Server.handle sha256Hex req }))
  | .command id o =>
    match s.calls id with
    | some { req, prog := .op c k, process } =>
      let (r, world) := c.execBytes o s.world
      some (.command id ⟨c, r⟩, ByteSys.setCall { s with world } id
        (some { req, prog := k r, process := processAfter process ⟨c, r⟩ }))
    | _ => none
  | .answer id =>
    match s.calls id with
    | some { prog := .ret resp, .. } => some (.answer id resp, s.setCall id none)
    | _ => none
  | .sock owner sk =>
    if owner.all fun id => (s.calls id).any fun call => call.process.isSome then
      let (maps, eff) := s.world.maps.bpfSockmap sk
      some (.sock owner sk eff, { s with world := { s.world with maps } })
    else none

/-- A step of the agent on maps of bytes. -/
abbrev ByteStep (sha256Hex : String → String) := Lts.Acts (ByteSys.step sha256Hex)

/-! ## What the bytes stand for -/

/-- A process id as a map key or value. -/
def pidBytes (pid : UInt32) : List UInt8 := leBytes 4 pid.toNat
/-- A socket cookie as a map key. -/
def cookieBytes (cookie : UInt64) : List UInt8 := leBytes 8 cookie.toNat
/-- An address as the key of `action_map`. -/
def IpPortKey.bytes (key : IpPortKey) : List UInt8 := marshal bpfIpPortKey key.numbers

theorem pidBytes_injective : pidBytes.Injective := by
  intro x y h
  apply UInt32.toNat_inj.1
  rw [← ofLe_leBytes (fits_u32 x), ← ofLe_leBytes (fits_u32 y)]
  exact congrArg ofLe h

theorem cookieBytes_injective : cookieBytes.Injective := by
  intro x y h
  apply UInt64.toNat_inj.1
  rw [← ofLe_leBytes (fits_u64 x), ← ofLe_leBytes (fits_u64 y)]
  exact congrArg ofLe h

theorem IpPortKey.bytes_injective : IpPortKey.bytes.Injective := by
  intro x y h
  have hnums : x.numbers = y.numbers := by
    have hx : unmarshal bpfIpPortKey x.bytes = x.numbers := unmarshal_marshal x.fits
    have hy : unmarshal bpfIpPortKey y.bytes = y.numbers := unmarshal_marshal y.fits
    rw [← hx, ← hy, h]
  simp only [numbers, List.cons.injEq, UInt32.toNat_inj, and_true] at hnums
  obtain ⟨ip, port⟩ := x
  obtain ⟨rfl, rfl⟩ := hnums
  rfl

/-- The byte maps hold the entries of the maps, and no others. -/
structure ByteMaps.Represents (b : ByteMaps) (m : Maps) : Prop where
  actionMap : b.actionMap.Represents IpPortKey.bytes
    (fun act bs => Holds cTuningAction act.numbers bs) m.actionMap
  metricsMap : b.metricsMap.Represents pidBytes
    (fun met bs => Holds cTuningMetrics met.numbers bs) m.metricsMap
  cookiePidMap : b.cookiePidMap.Represents cookieBytes (fun pid bs => bs = pidBytes pid)
    m.cookiePidMap

theorem ByteMaps.represents_empty : ByteMaps.empty.Represents .empty :=
  ⟨BoundedMap.represents_empty, BoundedMap.represents_empty, BoundedMap.represents_empty⟩

/-! ## The program -/

/-- The program's key is the agent's, byte for byte. -/
theorem cKey_eq (ip port : UInt32) : cKey ip port = (IpPortKey.mk ip port).bytes := by
  have h : Holds cIpPortKey [ip.toNat, port.toNat] (cKey ip port) :=
    ((holds_zeroed cIpPortKey).assign (i := 0) rfl (fits_u32 ip)).assign (i := 1) rfl
      (fits_u32 port)
  refine h.eq_marshal ?_
  simp [items, explicit, cIpPortKey, blanks, padding, alignUp, sizeof, stop]

theorem holds_cInitial (sk : SockOps) :
    Holds cTuningMetrics (initialMetrics sk).numbers (cInitial sk) := by
  have hstart := (holds_zeroed cTuningMetrics).assign (i := 6) rfl (fits_u64 sk.ktimeNs)
  have hip := hstart.assign (i := 0) rfl (fits_u32 sk.remoteIp4)
  exact hip.assign (i := 1) rfl (fits_u32 (bswap32 sk.remotePort))

theorem holds_cMeasure {met : TuningMetrics} {bs : List UInt8}
    (h : Holds cTuningMetrics met.numbers bs) (sk : SockOps) :
    Holds cTuningMetrics (met.measure sk).numbers (cMeasure sk bs) := by
  have hsrtt := h.assign (i := 2) rfl (fits_u32 (sk.srttUs >>> 3))
  have hretrans := hsrtt.assign (i := 3) rfl (fits_u32 sk.totalRetrans)
  have hsent := hretrans.assign (i := 4) rfl (fits_u64 sk.bytesAcked)
  have hreceived := hsent.assign (i := 5) rfl (fits_u64 sk.bytesReceived)
  -- none of these writes touches the start time the duration is read from
  have hstart : UInt64.ofNat ((view 0 cTuningMetrics _).getD 6 0) = met.startTimeNs :=
    (congrArg (fun vs => UInt64.ofNat (vs.getD 6 0)) hreceived.view_eq).trans UInt64.ofNat_toNat
  unfold cMeasure TuningMetrics.measure
  simp only [hstart]
  by_cases hpos : met.startTimeNs > 0
  · simp only [if_pos hpos]
    exact hreceived.assign (i := 7) rfl (fits_u64 ((sk.ktimeNs - met.startTimeNs) / 1000))
  · simp only [if_neg hpos]
    exact hreceived

namespace ByteMaps.Represents

variable {b : ByteMaps} {m : Maps}

theorem updateMetrics (h : b.Represents m) (sk : SockOps) :
    (b.updateMetrics sk).Represents (Agent.updateMetrics m sk) := by
  rw [updateMetrics_eq]
  unfold ByteMaps.updateMetrics
  have hcookie := h.cookiePidMap.lookup_rel sk.cookie
  unfold cookieBytes at hcookie
  generalize m.cookiePidMap.lookup sk.cookie = r at hcookie ⊢
  generalize b.cookiePidMap.lookup (leBytes 8 sk.cookie.toNat) = r' at hcookie ⊢
  cases hcookie with
  | none => exact h
  | @some pid _ hpid =>
    subst hpid
    have hload : leBytes 4 (load 0 4 (pidBytes pid)) = pidBytes pid := by
      rw [load, List.drop_zero, pidBytes, List.take_of_length_le (by simp),
        ofLe_leBytes (fits_u32 pid)]
    have hmetric := h.metricsMap.lookup_rel pid
    simp only [hload, Option.bind_some]
    generalize hm : m.metricsMap.lookup pid = q at hmetric ⊢
    generalize b.metricsMap.lookup (pidBytes pid) = q' at hmetric ⊢
    cases hmetric with
    | none => exact h
    | @some met bs hmet =>
      exact { h with
        metricsMap := h.metricsMap.update pidBytes_injective (holds_cMeasure hmet sk) }

theorem lookupMetrics (h : b.Represents m) (pid : UInt32) :
    b.lookupMetrics (pidBytes pid) = m.metricsMap.lookup pid := by
  have hkey : (pidBytes pid).length = sizeof [4] := length_leBytes _ _
  unfold ByteMaps.lookupMetrics
  rw [if_pos hkey]
  have hmetric := h.metricsMap.lookup_rel pid
  generalize m.metricsMap.lookup pid = r at hmetric ⊢
  generalize b.metricsMap.lookup (pidBytes pid) = r' at hmetric ⊢
  cases hmetric with
  | none => rfl
  | @some met bs hmet =>
    have hlen : bs.length = size bpfTuningMetrics := hmet.length_eq
    have hread : unmarshal bpfTuningMetrics bs = met.numbers := hmet.unmarshal_eq
    simp only [if_pos hlen, hread, TuningMetrics.ofNumbers_numbers]

/-- **One event in bytes** has the effects it has on values, and keeps the representation. -/
theorem bpfSockmap (h : b.Represents m) (sk : SockOps) :
    (b.bpfSockmap sk).2 = (Agent.bpfSockmap m sk).2 ∧
      (b.bpfSockmap sk).1.Represents (Agent.bpfSockmap m sk).1 := by
  unfold ByteMaps.bpfSockmap Agent.bpfSockmap
  by_cases hf : sk.family = AF_INET
  · cases hop : sk.op
    case tcpConnectCb =>
      simp only [hf, ne_eq, not_true_eq_false, if_false, true_and]
      exact { h with
        cookiePidMap := h.cookiePidMap.update cookieBytes_injective rfl
        metricsMap := h.metricsMap.update pidBytes_injective (holds_cInitial sk) }
    case activeEstablishedCb | passiveEstablishedCb =>
      have haction := h.actionMap.lookup_rel ⟨sk.remoteIp4, 0⟩
      simp only [hf, ne_eq, not_true_eq_false, if_false, cKey_eq]
      refine ⟨?_, h⟩
      generalize m.actionMap.lookup ⟨sk.remoteIp4, 0⟩ = r at haction ⊢
      generalize b.actionMap.lookup (IpPortKey.mk sk.remoteIp4 0).bytes = r' at haction ⊢
      cases haction with
      | none => rfl
      | @some act bs hact => simp only [hact.view_eq, TuningAction.ofNumbers_numbers]
    case stateCb | retransCb =>
      simp only [hf, ne_eq, not_true_eq_false, if_false, true_and]
      exact h.updateMetrics sk
    case other =>
      simp only [hf, ne_eq, not_true_eq_false, if_false, true_and]
      exact h
  · simp only [hf, ne_eq, not_false_eq_true, if_true, true_and]
    exact h

end ByteMaps.Represents

/-! ## The agent -/

/-- The same command, and maps that represent each other. -/
structure ByteWorld.Represents (b : ByteWorld) (w : AgentWorld) : Prop where
  lastCommand : b.lastCommand = w.lastCommand
  maps : b.maps.Represents w.maps

/-- **One command in bytes** returns what it returns on values. -/
theorem ByteWorld.Represents.exec {b : ByteWorld} {w : AgentWorld} (h : b.Represents w)
    (o : AgentOutside) (c : AgentCmd) :
    (c.execBytes o b).1 = (c.exec o w).1 ∧ (c.execBytes o b).2.Represents (c.exec o w).2 := by
  cases c with
  | setLastCommand cmd => exact ⟨rfl, rfl, h.maps⟩
  | getLastCommand => exact ⟨h.lastCommand, h⟩
  | start argv => exact ⟨rfl, h⟩
  | wait pid => exact ⟨rfl, h⟩
  | putAction key action =>
    have hkey : (marshal bpfIpPortKey key.numbers).length = sizeof cIpPortKey := length_marshal _ _
    have hvalue : (marshal bpfTuningAction action.numbers).length = sizeof cTuningAction :=
      length_marshal _ _
    have hacc : b.maps.actionMap.Accepts (marshal bpfIpPortKey key.numbers) ↔
        w.maps.actionMap.Accepts key := h.maps.actionMap.accepts_iff key
    have hput := h.maps.actionMap.update IpPortKey.bytes_injective (holds_marshal action.fits)
      (k := key)
    simp only [AgentCmd.execBytes, AgentCmd.exec, hkey, hvalue, true_and]
    by_cases ha : w.maps.actionMap.Accepts key
    · rw [if_pos (hacc.2 ha)]
      exact ⟨(if_pos ha).symm, h.lastCommand, { h.maps with actionMap := hput }⟩
    · rw [if_neg (fun hb => ha (hacc.1 hb))]
      refine ⟨(if_neg ha).symm, h.lastCommand, { h.maps with actionMap := ?_ }⟩
      -- the refused write leaves the map of values as it was, too
      unfold BoundedMap.update
      rw [dif_neg ha]
      exact h.maps.actionMap
  | lookupMetric pid =>
    refine ⟨?_, h⟩
    simp only [AgentCmd.execBytes, AgentCmd.exec]
    rw [← h.maps.lookupMetrics pid]
    rfl

/-- Worlds that represent each other, and the same calls in flight. -/
structure ByteSys.Represents (b : ByteSys) (s : AgentSys) : Prop where
  world : b.world.Represents s.world
  calls : b.calls = s.calls

theorem ByteSys.represents_init : ByteSys.init.Represents .init :=
  ⟨⟨rfl, ByteMaps.represents_empty⟩, rfl⟩

theorem ByteSys.Represents.setCall {b : ByteSys} {s : AgentSys} (h : b.Represents s) (id : Nat)
    (call : Option InFlight) : (b.setCall id call).Represents (s.setCall id call) :=
  ⟨h.world, by unfold ByteSys.setCall AgentSys.setCall; rw [h.calls]⟩

/-- **One step in bytes** is possible when it is on values, with the same label. -/
theorem ByteSys.Represents.step {sha256Hex : String → String} {b : ByteSys} {s : AgentSys}
    (h : b.Represents s) (a : AgentAction) :
    Option.Rel (fun x y => x.1 = y.1 ∧ x.2.Represents y.2) (b.step sha256Hex a)
      (s.step sha256Hex a) := by
  cases a with
  | call id req =>
    simp only [ByteSys.step, AgentSys.step, h.calls]
    split
    · exact .none
    · exact .some ⟨rfl, h.setCall id _⟩
  | command id o =>
    simp only [ByteSys.step, AgentSys.step, h.calls]
    rcases s.calls id with _ | ⟨req, prog, process⟩
    · exact .none
    · cases prog with
      | ret resp => exact .none
      | op c k =>
        obtain ⟨hret, hworld⟩ := h.world.exec o c
        simp only [hret]
        exact .some ⟨rfl, ByteSys.Represents.setCall ⟨hworld, rfl⟩ id _⟩
  | answer id =>
    simp only [ByteSys.step, AgentSys.step, h.calls]
    rcases s.calls id with _ | ⟨req, prog, process⟩
    · exact .none
    · cases prog with
      | ret resp => exact .some ⟨rfl, h.setCall id none⟩
      | op c k => exact .none
  | sock owner sk =>
    obtain ⟨heff, hmaps⟩ := h.world.maps.bpfSockmap sk
    simp only [ByteSys.step, AgentSys.step, h.calls, heff]
    split
    · exact .some ⟨rfl, ⟨h.world.lastCommand, hmaps⟩, rfl⟩
    · exact .none

/-- **The agent on bytes has the traces of the agent on values.** -/
theorem trace_bytes_iff (sha256Hex : String → String) (ls : List AgentLabel) :
    Lts.Trace (ByteStep sha256Hex) .init ls ↔ Lts.Trace (AgentStep sha256Hex) .init ls :=
  Lts.trace_iff_of_lockstep (R := ByteSys.Represents) (fun _ _ a h => h.step a)
    ByteSys.represents_init ls

end SocketTuner.Agent
