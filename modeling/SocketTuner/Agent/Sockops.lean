import SocketTuner.Lib.BoundedMap

/-!
# The sockops program

`env-ebpf-agent/ebpf/socket_tuner.c`. `bpfSockmap` is run by the kernel on every socket event of
the host; it reads and writes three hash maps and sets socket options. An event carries what the
program reads of `struct bpf_sock_ops` and what its helpers return (`bpf_get_socket_cookie`,
`bpf_get_current_pid_tgid`, `bpf_ktime_get_ns`). Return codes of helpers are ignored, as in the
source: a map write that the kernel refuses has no effect.
-/

namespace SocketTuner.Agent

/-- The `BPF_SOCK_OPS_*` codes the program has a case for. -/
inductive SockOp
  | tcpConnectCb
  | activeEstablishedCb
  | passiveEstablishedCb
  | stateCb
  | retransCb
  | other
  deriving DecidableEq, Repr

/-- A socket event: the fields of `struct bpf_sock_ops` and the results of the helpers. -/
structure SockOps where
  op : SockOp
  family : UInt32
  remoteIp4 : UInt32
  remotePort : UInt32
  srttUs : UInt32
  totalRetrans : UInt32
  bytesAcked : UInt64
  bytesReceived : UInt64
  cbFlags : UInt32
  cookie : UInt64
  pidTgid : UInt64
  ktimeNs : UInt64
  deriving DecidableEq, Repr

/-- `struct tuning_action` -/
structure TuningAction where
  maxPacingRate : UInt32
  sndCwndClamp : UInt32
  congAlgo : UInt32
  initCwnd : UInt32
  windowClamp : UInt32
  noDelay : UInt32
  rtoMin : UInt32
  retransAfter : UInt32
  enableEcn : UInt8
  pacingStatus : UInt8
  keepaliveIdle : UInt32
  deriving DecidableEq, Repr

/-- `struct tuning_metrics` -/
structure TuningMetrics where
  remoteIp : UInt32
  remotePort : UInt32
  srttUs : UInt32
  totalRetrans : UInt32
  bytesSent : UInt64
  bytesReceived : UInt64
  startTimeNs : UInt64
  durationUs : UInt64
  deriving DecidableEq, Repr

/-- `struct ip_port_key` -/
structure IpPortKey where
  ip : UInt32
  port : UInt32
  deriving DecidableEq, Repr

/-- The maps, with the `max_entries` of their declarations. -/
structure Maps where
  actionMap : BoundedMap IpPortKey TuningAction 1024
  metricsMap : BoundedMap UInt32 TuningMetrics 10240
  cookiePidMap : BoundedMap UInt64 UInt32 65536

/-- The maps when the program is loaded. -/
def Maps.empty : Maps := ⟨.empty, .empty, .empty⟩

/-! ## Socket options -/

/-- The family of IPv4. -/
def AF_INET : UInt32 := 2
/-- The level of the options of every socket. -/
def SOL_SOCKET : Nat := 1
/-- A pacing rate in bytes per second. -/
def SO_MAX_PACING_RATE : Nat := 47
/-- The level of the options of TCP. -/
def SOL_TCP : Nat := 6
/-- Nagle's algorithm off. -/
def TCP_NODELAY : Nat := 1
/-- Seconds without data before a keepalive probe. -/
def TCP_KEEPIDLE : Nat := 4
/-- The bound of the advertised window, in bytes. -/
def TCP_WINDOW_CLAMP : Nat := 10
/-- The congestion control algorithm, by name. -/
def TCP_CONGESTION : Nat := 13
/-- Milliseconds that sent data may stay unacknowledged. -/
def TCP_USER_TIMEOUT : Nat := 18
/-- The initial congestion window, in segments. -/
def TCP_BPF_IW : Nat := 1001
/-- The bound of the congestion window, in segments. -/
def TCP_BPF_SNDCWND_CLAMP : Nat := 1002
/-- The flag that asks for `STATE_CB` events. -/
def BPF_SOCK_OPS_STATE_CB_FLAG : UInt32 := 4

/-- The value a `bpf_setsockopt` call passes: a `__u32` or a NUL-padded name. -/
inductive OptVal
  | u32 (v : UInt32)
  | name (s : String)
  deriving DecidableEq, Repr

/-- One `bpf_setsockopt` call. -/
structure SetSockOpt where
  level : Nat
  optname : Nat
  optval : OptVal
  deriving DecidableEq, Repr

/-- `if (v > 0) bpf_setsockopt(skops, level, optname, &v, sizeof(v))`. -/
def setIfPos (level optname : Nat) (v : UInt32) : List SetSockOpt :=
  if v > 0 then [⟨level, optname, .u32 v⟩] else []

/-- The chain of `if`s on `cong_algo`: a number that is neither 1 nor 2 sets nothing. -/
def setCongestion (congAlgo : UInt32) : List SetSockOpt :=
  if congAlgo > 0 then
    if congAlgo = 1 then [⟨SOL_TCP, TCP_CONGESTION, .name "cubic"⟩]
    else if congAlgo = 2 then [⟨SOL_TCP, TCP_CONGESTION, .name "bbr"⟩]
    else []
  else []

/-- The calls made for an action, in the order of the source. -/
def TuningAction.calls (act : TuningAction) : List SetSockOpt :=
  setIfPos SOL_SOCKET SO_MAX_PACING_RATE act.maxPacingRate ++
  setIfPos SOL_TCP TCP_BPF_SNDCWND_CLAMP act.sndCwndClamp ++
  setCongestion act.congAlgo ++
  setIfPos SOL_TCP TCP_BPF_IW act.initCwnd ++
  setIfPos SOL_TCP TCP_WINDOW_CLAMP act.windowClamp ++
  setIfPos SOL_TCP TCP_NODELAY act.noDelay ++
  setIfPos SOL_TCP TCP_USER_TIMEOUT act.retransAfter ++
  setIfPos SOL_TCP TCP_KEEPIDLE act.keepaliveIdle

/-! ## The options of an action -/

/-- The options an action can ask for, in the order they are set, each with whether it does. -/
def TuningAction.controls (act : TuningAction) : List (Bool × SetSockOpt) :=
  [(act.maxPacingRate ≠ 0, ⟨SOL_SOCKET, SO_MAX_PACING_RATE, .u32 act.maxPacingRate⟩),
   (act.sndCwndClamp ≠ 0, ⟨SOL_TCP, TCP_BPF_SNDCWND_CLAMP, .u32 act.sndCwndClamp⟩),
   (act.congAlgo = 1, ⟨SOL_TCP, TCP_CONGESTION, .name "cubic"⟩),
   (act.congAlgo = 2, ⟨SOL_TCP, TCP_CONGESTION, .name "bbr"⟩),
   (act.initCwnd ≠ 0, ⟨SOL_TCP, TCP_BPF_IW, .u32 act.initCwnd⟩),
   (act.windowClamp ≠ 0, ⟨SOL_TCP, TCP_WINDOW_CLAMP, .u32 act.windowClamp⟩),
   (act.noDelay ≠ 0, ⟨SOL_TCP, TCP_NODELAY, .u32 act.noDelay⟩),
   (act.retransAfter ≠ 0, ⟨SOL_TCP, TCP_USER_TIMEOUT, .u32 act.retransAfter⟩),
   (act.keepaliveIdle ≠ 0, ⟨SOL_TCP, TCP_KEEPIDLE, .u32 act.keepaliveIdle⟩)]

/-- The options an action asks for. -/
def TuningAction.asked (act : TuningAction) : List SetSockOpt :=
  (act.controls.filter Prod.fst).map Prod.snd

theorem setIfPos_eq (level optname : Nat) (v : UInt32) :
    setIfPos level optname v =
      ([(decide (v ≠ 0), ⟨level, optname, .u32 v⟩)].filter Prod.fst).map Prod.snd := by
  by_cases hv : v = 0
  · simp [setIfPos, hv]
  · simp [setIfPos, UInt32.pos_iff_ne_zero, hv]

theorem setCongestion_eq (congAlgo : UInt32) :
    setCongestion congAlgo =
      ([(decide (congAlgo = 1), ⟨SOL_TCP, TCP_CONGESTION, .name "cubic"⟩),
        (decide (congAlgo = 2), (⟨SOL_TCP, TCP_CONGESTION, .name "bbr"⟩ : SetSockOpt))].filter
          Prod.fst).map Prod.snd := by
  by_cases h1 : congAlgo = 1
  · subst h1; rfl
  · by_cases h2 : congAlgo = 2
    · subst h2; rfl
    · simp [setCongestion, h1, h2]

theorem TuningAction.calls_eq_asked (act : TuningAction) : act.calls = act.asked := by
  unfold calls asked controls
  simp only [setIfPos_eq, setCongestion_eq, ← List.map_append, ← List.filter_append]
  rfl

/-- No field of the action has an effect: the numbers are zero and the congestion algorithm is not
one the program knows. -/
def TuningAction.Ineffective (act : TuningAction) : Prop :=
  act.maxPacingRate = 0 ∧ act.sndCwndClamp = 0 ∧ (act.congAlgo ≠ 1 ∧ act.congAlgo ≠ 2) ∧
  act.initCwnd = 0 ∧ act.windowClamp = 0 ∧ act.noDelay = 0 ∧ act.retransAfter = 0 ∧
  act.keepaliveIdle = 0

instance (act : TuningAction) : Decidable act.Ineffective := inferInstanceAs (Decidable (_ ∧ _))

/-- Nothing is set exactly for an action without an effective field. -/
theorem TuningAction.calls_eq_nil_iff (act : TuningAction) :
    act.calls = [] ↔ act.Ineffective := by
  rw [calls_eq_asked]
  simp [asked, controls, Ineffective, and_assoc]

/-! ## The program -/

/-- `update_metrics`: the record of the process that connected the socket, if both are known. -/
def updateMetrics (m : Maps) (sk : SockOps) : Maps :=
  match m.cookiePidMap.lookup sk.cookie with
  | none => m
  | some pid =>
    match m.metricsMap.lookup pid with
    | none => m
    | some met =>
      let met := { met with
        srttUs := sk.srttUs >>> 3  -- Linux srtt scaling
        totalRetrans := sk.totalRetrans
        bytesSent := sk.bytesAcked
        bytesReceived := sk.bytesReceived }
      let met := if met.startTimeNs > 0 then
          { met with durationUs := (sk.ktimeNs - met.startTimeNs) / 1000 }
        else met
      { m with metricsMap := m.metricsMap.update pid met }

/-- `__builtin_bswap32`. -/
def bswap32 (x : UInt32) : UInt32 :=
  let mid : UInt32 := 0xff00
  (x <<< 24) ||| ((x &&& mid) <<< 8) ||| ((x >>> 8) &&& mid) ||| (x >>> 24)

/-- What one run of the program did besides writing maps: the options it set, and the callback
flags it asked for. -/
structure Effects where
  sockopts : List SetSockOpt := []
  cbFlagsSet : Option UInt32 := none
  deriving DecidableEq, Repr

/-- The record a `TCP_CONNECT` event creates. -/
def initialMetrics (sk : SockOps) : TuningMetrics :=
  { remoteIp := sk.remoteIp4, remotePort := bswap32 sk.remotePort, srttUs := 0, totalRetrans := 0,
    bytesSent := 0, bytesReceived := 0, startTimeNs := sk.ktimeNs, durationUs := 0 }

/-- `bpf_sockmap` -/
def bpfSockmap (m : Maps) (sk : SockOps) : Maps × Effects :=
  -- Only care about IPv4 for now
  if sk.family ≠ AF_INET then (m, {})
  else
    let key : IpPortKey := { ip := sk.remoteIp4, port := 0 }
    match sk.op with
    | .tcpConnectCb =>
      let pid := (sk.pidTgid >>> 32).toUInt32
      let m := { m with cookiePidMap := m.cookiePidMap.update sk.cookie pid }
      ({ m with metricsMap := m.metricsMap.update pid (initialMetrics sk) }, {})
    | .activeEstablishedCb | .passiveEstablishedCb =>
      let sockopts := match m.actionMap.lookup key with
        | some act => act.calls
        | none => []
      (m, { sockopts, cbFlagsSet := some (sk.cbFlags ||| BPF_SOCK_OPS_STATE_CB_FLAG) })
    | .stateCb | .retransCb => (updateMetrics m sk, {})
    | .other => (m, {})

/-- The maps after a list of events. -/
def runEvents (m : Maps) (evs : List SockOps) : Maps :=
  evs.foldl (fun m sk => (bpfSockmap m sk).1) m

/-! ## What the program leaves alone -/

theorem actionMap_bpfSockmap (m : Maps) (sk : SockOps) :
    (bpfSockmap m sk).1.actionMap = m.actionMap := by
  unfold bpfSockmap
  split
  · rfl
  · cases sk.op
    case stateCb | retransCb =>
      simp only [updateMetrics]
      split
      · rfl
      · split <;> rfl
    all_goals rfl

/-- A connection on which the program looks for an action: IPv4, and established. -/
def SockOps.Established (sk : SockOps) : Prop :=
  sk.family = AF_INET ∧ (sk.op = .activeEstablishedCb ∨ sk.op = .passiveEstablishedCb)

/-- **The options an event sets** are those of the action stored for its remote address. -/
theorem sockopts_bpfSockmap (m : Maps) (sk : SockOps) :
    (sk.Established →
      (bpfSockmap m sk).2.sockopts =
        ((m.actionMap.lookup ⟨sk.remoteIp4, 0⟩).map TuningAction.calls).getD []) ∧
    (¬sk.Established → (bpfSockmap m sk).2.sockopts = []) := by
  unfold bpfSockmap SockOps.Established
  by_cases hf : sk.family = AF_INET
  · cases ho : sk.op
    case activeEstablishedCb | passiveEstablishedCb =>
      cases hl : m.actionMap.lookup ⟨sk.remoteIp4, 0⟩ <;> simp [hf, hl]
    all_goals simp [hf]
  · simp [hf]

end SocketTuner.Agent
