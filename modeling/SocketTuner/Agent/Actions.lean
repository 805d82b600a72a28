import SocketTuner.Agent.Baseline

/-!
# What an action does

`SetAction` writes `action_map` under a key made from the text of the target; the sockops program
reads it under a key made from the remote address of the socket. Both keys are the address with the
port zeroed (`ipToKey_eq_ok_iff`), so the options set on a connection are those of the last action
for its address, whatever else happened (`latest_action_wins`).

Of the eleven tuning fields of a request the program applies eight. Two requests for one target are
told apart exactly when they differ in one of these (`controls_distinguished_iff`): the minimal RTO,
ECN and the pacing status are stored and never read.
-/

namespace SocketTuner.Agent

/-! ## Targets -/

/-- The four bytes of a word in memory. -/
def addrBytes (x : UInt32) : List UInt8 :=
  let (b0, b1, b2, b3) := lePutUint32 x
  [b0, b1, b2, b3]

/-- A target string denotes the address `x`, the word `remote_ip4` of a socket: it is parsed to an
IPv4 address of the same bytes. -/
def Denotes (ip : String) (x : UInt32) : Prop := to4 (parseIP ip) = addrBytes x

instance (ip : String) (x : UInt32) : Decidable (Denotes ip x) :=
  inferInstanceAs (Decidable (_ = _))

theorem Denotes.unique {ip : String} {x y : UInt32} (hx : Denotes ip x) (hy : Denotes ip y) :
    x = y := by
  have hbytes : addrBytes x = addrBytes y := Eq.trans (Eq.symm hx) hy
  simp only [addrBytes, List.cons.injEq, and_true] at hbytes
  rw [← leUint32_lePutUint32 x, ← leUint32_lePutUint32 y, hbytes.1, hbytes.2.1, hbytes.2.2.1,
    hbytes.2.2.2]

/-- The key of a target is the address it denotes, without a port. -/
theorem Manager.ipToKey_eq_ok_iff {ip : String} {port : UInt32} {key : IpPortKey} :
    ipToKey ip port = .ok key ↔ Denotes ip key.ip ∧ key.port = 0 := by
  unfold ipToKey Denotes
  split
  · next b0 b1 b2 b3 hip =>
    rw [hip]
    constructor
    · intro h
      cases h
      simp [addrBytes, lePutUint32_leUint32]
    · rintro ⟨hbytes, hport⟩
      simp only [addrBytes, List.cons.injEq, and_true] at hbytes
      obtain ⟨rfl, rfl, rfl, rfl⟩ := hbytes
      rw [leUint32_lePutUint32, ← hport]
  · next hip =>
    constructor
    · intro h
      cases h
    · rintro ⟨hbytes, -⟩
      exact absurd hbytes (hip _ _ _ _)

/-! ## Histories of actions and socket events -/

/-- A call of `SetAction` with its result, or a socket event with its effects. -/
inductive ManagerLabel
  | setAction (ip : String) (port : UInt32) (action : TuningAction) (err : Option String)
  | sock (sk : SockOps) (eff : Effects)

/-- What can happen next to the manager's maps. -/
inductive ManagerAction
  | setAction (o : AgentOutside) (ip : String) (port : UInt32) (action : TuningAction)
  | sock (sk : SockOps)

/-- A call of `SetAction`, or a socket event of the host. -/
def managerStep (w : AgentWorld) : ManagerAction → Option (ManagerLabel × AgentWorld)
  | .setAction o ip port action =>
    let (err, w) := (Manager.setAction ip port action).run (AgentCmd.exec o) w
    some (.setAction ip port action err, w)
  | .sock sk =>
    let (maps, eff) := bpfSockmap w.maps sk
    some (.sock sk eff, { w with maps })

/-- A step of the manager and the kernel. -/
abbrev ManagerStep := Lts.Acts managerStep

/-- A step with the states around it. -/
abbrev ManagerTrans := Lts.Trans AgentWorld ManagerLabel

theorem ManagerStep.cases {w w' : AgentWorld} {l : ManagerLabel} (h : ManagerStep w l w') :
    (∃ o ip port action, l = .setAction ip port action
        ((Manager.setAction ip port action).run (AgentCmd.exec o) w).1 ∧
      w' = ((Manager.setAction ip port action).run (AgentCmd.exec o) w).2) ∨
    (∃ sk, l = .sock sk (bpfSockmap w.maps sk).2 ∧
      w' = { w with maps := (bpfSockmap w.maps sk).1 }) := by
  obtain ⟨a, h⟩ := h
  cases a with
  | setAction o ip port action =>
    simp only [managerStep, Option.some.injEq, Prod.mk.injEq] at h
    exact .inl ⟨o, ip, port, action, h.1.symm, h.2.symm⟩
  | sock sk =>
    simp only [managerStep, Option.some.injEq, Prod.mk.injEq] at h
    exact .inr ⟨sk, h.1.symm, h.2.symm⟩

/-- The action a successful `SetAction` stores for the address `x`. -/
def ManagerLabel.setFor (x : UInt32) : ManagerLabel → Option TuningAction
  | .setAction ip _ action none => if Denotes ip x then some action else none
  | _ => none

theorem Manager.setAction_run (o : AgentOutside) (ip : String) (port : UInt32)
    (action : TuningAction) (w : AgentWorld) (x : UInt32) :
    let r := (setAction ip port action).run (AgentCmd.exec o) w
    r.2.maps.actionMap.lookup ⟨x, 0⟩ =
      ((ManagerLabel.setAction ip port action r.1).setFor x).or
        (w.maps.actionMap.lookup ⟨x, 0⟩) := by
  unfold setAction
  cases hk : ipToKey ip port with
  | error err => simp [Prog.run, ManagerLabel.setFor]
  | ok key =>
    obtain ⟨hden, hport⟩ := ipToKey_eq_ok_iff.1 hk
    obtain ⟨kip, kport⟩ := key
    cases hport
    simp only [actionMapPut, Prog.call, Prog.run, AgentCmd.exec, BoundedMap.lookup_update]
    by_cases ha : w.maps.actionMap.Accepts ⟨kip, 0⟩
    · by_cases hx : x = kip
      · subst hx
        simp [ManagerLabel.setFor, ha, show Denotes ip x from hden]
      · have hnot : ¬Denotes ip x := fun h => hx (h.unique hden)
        simp [ManagerLabel.setFor, ha, hx, hnot]
    · simp [ManagerLabel.setFor, ha]

/-- One entry of a history changes the action of an address by what it stores for it. -/
theorem ManagerStep.lookup_actionMap {w w' : AgentWorld} {l : ManagerLabel}
    (h : ManagerStep w l w') (x : UInt32) :
    w'.maps.actionMap.lookup ⟨x, 0⟩ = (l.setFor x).or (w.maps.actionMap.lookup ⟨x, 0⟩) := by
  rcases h.cases with ⟨o, ip, port, action, rfl, rfl⟩ | ⟨sk, rfl, rfl⟩
  · exact Manager.setAction_run o ip port action w x
  · rw [actionMap_bpfSockmap]
    rfl

/-- The action of the last successful `SetAction` for an address. -/
def latestAction (x : UInt32) (tr : List ManagerTrans) : Option TuningAction :=
  tr.foldl (fun last y => (y.lab.setFor x).or last) none

theorem lookup_eq_latestAction {tr : List ManagerTrans} {w : AgentWorld}
    (h : Lts.Run ManagerStep .init tr w) (x : UInt32) :
    w.maps.actionMap.lookup ⟨x, 0⟩ = latestAction x tr :=
  h.view_eq_foldl (v := fun w => w.maps.actionMap.lookup ⟨x, 0⟩)
    (fun _ _ _ hs => hs.lookup_actionMap x)

/-- The entry is a successful `SetAction` whose target denotes `x`. -/
def Sets (x : UInt32) (l : ManagerLabel) : Prop :=
  ∃ ip port action, l = .setAction ip port action none ∧ Denotes ip x

theorem setFor_eq_none {x : UInt32} {l : ManagerLabel} (h : ¬Sets x l) : l.setFor x = none := by
  unfold ManagerLabel.setFor
  split
  · next ip port action =>
    split
    · next hden => exact absurd ⟨ip, port, action, rfl, hden⟩ h
    · rfl
  · rfl

theorem foldl_setFor {x : UInt32} {tr : List ManagerTrans} (h : ∀ y ∈ tr, ¬Sets x y.lab)
    (last : Option TuningAction) :
    tr.foldl (fun last y => (y.lab.setFor x).or last) last = last := by
  induction tr with
  | nil => rfl
  | cons y tr ih =>
    rw [List.foldl_cons, setFor_eq_none (h y List.mem_cons_self), Option.none_or]
    exact ih fun z hz => h z (List.mem_cons_of_mem y hz)

/-- **The latest action wins, and only for its target.** In every history of `SetAction` calls and
socket events, the options set when a connection to the address `x` is established are those that
the last successful `SetAction` for `x` asks for, and none if there is none. Nothing else of the
history matters: not the ports, not earlier actions, not actions for other addresses. -/
theorem latest_action_wins {tr pre post : List ManagerTrans} {x : ManagerTrans} {w : AgentWorld}
    {sk : SockOps} {eff : Effects} (h : Lts.Run ManagerStep .init tr w)
    (htr : tr = pre ++ x :: post) (hlab : x.lab = .sock sk eff) (hest : sk.Established) :
    (∀ pre' y mid ip port action, pre = pre' ++ y :: mid →
      y.lab = .setAction ip port action none → Denotes ip sk.remoteIp4 →
      (∀ z ∈ mid, ¬Sets sk.remoteIp4 z.lab) → eff.sockopts = action.asked) ∧
    ((∀ y ∈ pre, ¬Sets sk.remoteIp4 y.lab) → eff.sockopts = []) := by
  subst htr
  obtain ⟨_, hpre, hrest⟩ := h.split
  obtain ⟨rfl, hstep, -⟩ := hrest.head
  rw [hlab] at hstep
  have heff : eff.sockopts =
      ((latestAction sk.remoteIp4 pre).map TuningAction.calls).getD [] := by
    rcases hstep.cases with ⟨_, _, _, _, hl, -⟩ | ⟨sk', hl, -⟩
    · cases hl
    · obtain ⟨rfl, rfl⟩ := ManagerLabel.sock.inj hl
      rw [← lookup_eq_latestAction hpre]
      exact (sockopts_bpfSockmap _ sk).1 hest
  constructor
  · rintro pre' y mid ip port action rfl hy hden hmid
    have hset : y.lab.setFor sk.remoteIp4 = some action := by
      rw [hy]
      exact if_pos hden
    rw [heff, latestAction, List.foldl_append, List.foldl_cons, hset, Option.some_or,
      foldl_setFor hmid, Option.map_some, Option.getD_some, TuningAction.calls_eq_asked]
  · intro hnone
    rw [heff, latestAction, foldl_setFor hnone]
    rfl

/-- An action that sets the congestion algorithm and the initial window. -/
def cubicAction (initCwnd : UInt32) : TuningAction :=
  Server.action { congAlgo := 1, initCwnd }

/-- Two actions for one address, one for another, and a connection to the first. -/
def retunedHistory : List ManagerTrans × AgentWorld :=
  Lts.played managerStep .init
    [.setAction {} "142.250.1.100" 80 (cubicAction 10),
     .setAction {} "142.250.1.100" 443 (cubicAction 20),
     .setAction {} "142.250.1.101" 443 (cubicAction 30),
     .sock (googleEvent .activeEstablishedCb)]

theorem latest_action_wins_retuned :
    ∃ x ∈ retunedHistory.1, ∃ eff, x.lab = .sock (googleEvent .activeEstablishedCb) eff ∧
      eff.sockopts = (cubicAction 20).asked := by
  have hrun : Lts.Run ManagerStep .init retunedHistory.1 retunedHistory.2 := Lts.run_played rfl
  refine ⟨_, List.getLast_mem (show retunedHistory.1 ≠ [] by decide), _, rfl, ?_⟩
  refine (latest_action_wins hrun rfl rfl
    ⟨rfl, .inl rfl⟩).1 (retunedHistory.1.take 1) _ (retunedHistory.1.drop 2 |>.take 1)
    _ _ _ rfl rfl (by decide) ?_
  intro z hz
  cases List.mem_singleton.1 hz
  rintro ⟨ip, port, action, hl, hden⟩
  cases hl
  revert hden
  decide

/-! ## Which fields have an effect -/

/-- The tuning fields of a request. -/
def tuningFields (req : StepRequest) : List UInt32 :=
  [req.maxPacingRate, req.sndCwndClamp, req.congAlgo, req.initCwnd, req.windowClamp, req.noDelay,
   req.rtoMin, req.retransAfter, req.enableEcn, req.pacingStatus, req.keepaliveIdle]

/-- Those of them the program applies. -/
def appliedFields (req : StepRequest) : List UInt32 :=
  [req.maxPacingRate, req.sndCwndClamp, req.congAlgo, req.initCwnd, req.windowClamp, req.noDelay,
   req.retransAfter, req.keepaliveIdle]

/-- The options set on a connection that is established after the `SetAction` of a request and some
other events of the host. -/
def nextOptions (req : StepRequest) (o : AgentOutside) (w : AgentWorld) (evs : List SockOps)
    (sk : SockOps) : List SetSockOpt :=
  let w := ((Manager.setAction req.targetIp req.targetPort (Server.action req)).run
    (AgentCmd.exec o) w).2
  (bpfSockmap (runEvents w.maps evs) sk).2.sockopts

/-- The value an option is set to. -/
def optval (opts : List SetSockOpt) (level optname : Nat) : Option OptVal :=
  (opts.find? fun c => c.level = level ∧ c.optname = optname).map SetSockOpt.optval

theorem optval_append (opts opts' : List SetSockOpt) (level optname : Nat) :
    optval (opts ++ opts') level optname =
      (optval opts level optname).or (optval opts' level optname) := by
  simp only [optval, List.find?_append]
  cases opts.find? fun c => c.level = level ∧ c.optname = optname <;> rfl

theorem optval_setIfPos (l n : Nat) (v : UInt32) (level optname : Nat) :
    optval (setIfPos l n v) level optname =
      if v ≠ 0 ∧ l = level ∧ n = optname then some (.u32 v) else none := by
  by_cases hv : v = 0
  · simp [optval, setIfPos, hv]
  · by_cases hc : l = level ∧ n = optname
    · simp [optval, setIfPos, UInt32.pos_iff_ne_zero, hv, hc]
    · simp [optval, setIfPos, UInt32.pos_iff_ne_zero, hv, hc]

theorem optval_setCongestion (congAlgo : UInt32) (level optname : Nat) :
    optval (setCongestion congAlgo) level optname =
      if SOL_TCP = level ∧ TCP_CONGESTION = optname then
        if congAlgo = 1 then some (.name "cubic")
        else if congAlgo = 2 then some (.name "bbr") else none
      else none := by
  by_cases h1 : congAlgo = 1
  · by_cases hc : SOL_TCP = level ∧ TCP_CONGESTION = optname
    · simp [optval, setCongestion, h1, hc]
    · simp [optval, setCongestion, h1, hc]
  · by_cases h2 : congAlgo = 2
    · by_cases hc : SOL_TCP = level ∧ TCP_CONGESTION = optname
      · simp [optval, setCongestion, h2, hc]
      · simp [optval, setCongestion, h2, hc]
    · simp [optval, setCongestion, h1, h2]

/-- What a number asks for. -/
def posVal (v : UInt32) : Option OptVal := if v ≠ 0 then some (.u32 v) else none

/-- What a congestion algorithm asks for. -/
def congVal (congAlgo : UInt32) : Option OptVal :=
  if congAlgo = 1 then some (.name "cubic") else if congAlgo = 2 then some (.name "bbr") else none

theorem posVal_injective : Function.Injective posVal := by
  intro v v' h
  unfold posVal at h
  by_cases hv : v = 0
  · by_cases hv' : v' = 0
    · rw [hv, hv']
    · simp [hv, hv'] at h
  · by_cases hv' : v' = 0
    · simp [hv, hv'] at h
    · simpa [hv, hv'] using h

theorem optval_calls (act : TuningAction) :
    optval act.calls SOL_SOCKET SO_MAX_PACING_RATE = posVal act.maxPacingRate ∧
    optval act.calls SOL_TCP TCP_BPF_SNDCWND_CLAMP = posVal act.sndCwndClamp ∧
    optval act.calls SOL_TCP TCP_CONGESTION = congVal act.congAlgo ∧
    optval act.calls SOL_TCP TCP_BPF_IW = posVal act.initCwnd ∧
    optval act.calls SOL_TCP TCP_WINDOW_CLAMP = posVal act.windowClamp ∧
    optval act.calls SOL_TCP TCP_NODELAY = posVal act.noDelay ∧
    optval act.calls SOL_TCP TCP_USER_TIMEOUT = posVal act.retransAfter ∧
    optval act.calls SOL_TCP TCP_KEEPIDLE = posVal act.keepaliveIdle := by
  simp [TuningAction.calls, optval_append, optval_setIfPos, optval_setCongestion, posVal, congVal,
    SOL_SOCKET, SOL_TCP, SO_MAX_PACING_RATE, TCP_BPF_SNDCWND_CLAMP, TCP_CONGESTION, TCP_BPF_IW,
    TCP_WINDOW_CLAMP, TCP_NODELAY, TCP_USER_TIMEOUT, TCP_KEEPIDLE]

/-- A congestion algorithm the program knows. -/
def KnownAlgo (congAlgo : UInt32) : Prop := congAlgo = 1 ∨ congAlgo = 2

theorem congVal_injOn : Set.InjOn congVal {c | KnownAlgo c} := by
  rintro c (rfl | rfl) c' (rfl | rfl) h
  · rfl
  · simp [congVal] at h
  · simp [congVal] at h
  · rfl

/-- The calls made for a request tell its applied fields. -/
theorem calls_action_eq_iff {req req' : StepRequest} (hc : KnownAlgo req.congAlgo)
    (hc' : KnownAlgo req'.congAlgo) :
    (Server.action req).calls = (Server.action req').calls ↔
      appliedFields req = appliedFields req' := by
  constructor
  · intro h
    obtain ⟨h1, h2, h3, h4, h5, h6, h7, h8⟩ := optval_calls (Server.action req)
    obtain ⟨h1', h2', h3', h4', h5', h6', h7', h8'⟩ := optval_calls (Server.action req')
    rw [h] at h1 h2 h3 h4 h5 h6 h7 h8
    have e1 := posVal_injective (h1.symm.trans h1')
    have e2 := posVal_injective (h2.symm.trans h2')
    have e3 := congVal_injOn hc hc' (h3.symm.trans h3')
    have e4 := posVal_injective (h4.symm.trans h4')
    have e5 := posVal_injective (h5.symm.trans h5')
    have e6 := posVal_injective (h6.symm.trans h6')
    have e7 := posVal_injective (h7.symm.trans h7')
    have e8 := posVal_injective (h8.symm.trans h8')
    simp only [Server.action] at e1 e2 e3 e4 e5 e6 e7 e8
    simp only [appliedFields, e1, e2, e3, e4, e5, e6, e7, e8]
  · intro h
    simp only [appliedFields, List.cons.injEq, and_true] at h
    obtain ⟨h1, h2, h3, h4, h5, h6, h7, h8⟩ := h
    simp only [TuningAction.calls, Server.action, h1, h2, h3, h4, h5, h6, h7, h8]

/-- The options set on the next connection to the target of a request. -/
theorem nextOptions_eq {req : StepRequest} {w : AgentWorld} {sk : SockOps}
    (hden : Denotes req.targetIp sk.remoteIp4) (hest : sk.Established) (o : AgentOutside)
    (evs : List SockOps) :
    nextOptions req o w evs sk =
      if w.maps.actionMap.Accepts ⟨sk.remoteIp4, 0⟩ then (Server.action req).calls else [] := by
  have hkey : Manager.ipToKey req.targetIp req.targetPort = .ok ⟨sk.remoteIp4, 0⟩ :=
    Manager.ipToKey_eq_ok_iff.2 ⟨hden, rfl⟩
  unfold nextOptions
  rw [(sockopts_bpfSockmap _ sk).1 hest, actionMap_runEvents]
  simp only [Manager.setAction, hkey, actionMapPut, Prog.call, Prog.run, AgentCmd.exec,
    BoundedMap.lookup_update]
  by_cases ha : w.maps.actionMap.Accepts ⟨sk.remoteIp4, 0⟩
  · simp [ha]
  · -- a map that refuses the key does not have it
    have hnone : w.maps.actionMap.lookup ⟨sk.remoteIp4, 0⟩ = none :=
      Option.eq_none_iff_forall_ne_some.2 fun v hv => ha (BoundedMap.accepts_of_lookup hv)
    simp [ha, hnone]

/-- **When the controls have an effect.** Two requests for one target are told apart by the options
set on the next connection to it exactly when the kernel takes the action and they differ in a field
that the program applies. -/
theorem controls_distinguished_iff {req req' : StepRequest} {o o' : AgentOutside} {w : AgentWorld}
    {evs evs' : List SockOps} {sk : SockOps} (hip : req'.targetIp = req.targetIp)
    (hden : Denotes req.targetIp sk.remoteIp4) (hest : sk.Established)
    (hc : KnownAlgo req.congAlgo) (hc' : KnownAlgo req'.congAlgo) :
    (tuningFields req ≠ tuningFields req' →
      nextOptions req o w evs sk ≠ nextOptions req' o' w evs' sk) ↔
    (tuningFields req ≠ tuningFields req' →
      w.maps.actionMap.Accepts ⟨sk.remoteIp4, 0⟩ ∧ appliedFields req ≠ appliedFields req') := by
  rw [nextOptions_eq hden hest, nextOptions_eq (hip ▸ hden) hest]
  by_cases ha : w.maps.actionMap.Accepts ⟨sk.remoteIp4, 0⟩
  · simp only [ha, if_true, true_and, ne_eq, calls_action_eq_iff hc hc']
  · simp [ha]

/-- A request that sets the algorithm only. -/
def plainRequest : StepRequest := { targetIp := "142.250.1.100", congAlgo := 1 }
/-- The same with a window of 20 segments. -/
def windowRequest : StepRequest := { plainRequest with initCwnd := 20 }

theorem controls_distinguished_initCwnd :
    tuningFields plainRequest ≠ tuningFields windowRequest ∧
      nextOptions plainRequest {} .init [] (googleEvent .activeEstablishedCb) ≠
        nextOptions windowRequest {} .init [] (googleEvent .activeEstablishedCb) := by
  have hne : tuningFields plainRequest ≠ tuningFields windowRequest := by decide
  refine ⟨hne, (controls_distinguished_iff ?_ ?_ ?_ ?_ ?_).2 (fun _ => ⟨?_, ?_⟩) hne⟩
  · rfl
  · decide
  · exact ⟨rfl, .inl rfl⟩
  · exact .inl rfl
  · exact .inl rfl
  · decide
  · decide

/-- Two requests that differ in the minimal RTO, ECN and pacing. -/
def rtoRequest : StepRequest :=
  { plainRequest with rtoMin := 200, enableEcn := 1, pacingStatus := 1 }

/-- The same options are set for both. -/
theorem rto_ecn_pacing_ignored :
    (Denotes plainRequest.targetIp (googleEvent .activeEstablishedCb).remoteIp4 ∧
      tuningFields plainRequest ≠ tuningFields rtoRequest) ∧
    nextOptions plainRequest {} .init [] (googleEvent .activeEstablishedCb) =
      nextOptions rtoRequest {} .init [] (googleEvent .activeEstablishedCb) := by
  decide

end SocketTuner.Agent
