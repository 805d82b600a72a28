import SocketTuner.Agent.Fresh
import SocketTuner.System.Provenance

/-!
# What agents measure for clients

The way back of an observation through the deployment, from the socket events of an agent's host
over its record and its response to the router's handler and the answer of the client's RPC.

`deployment_measures`: an observation that the router answers a client with is one that the agent of
the session has reported to this very handler, from a record of the process it started in a call of
this handler. The address in it is that of a connection of the process, and the counters are all
zero or all those of one event of a socket that the process connected.
-/

namespace SocketTuner.System

open Env Router Agent GoMap

variable {sha256Hex : String → String} {cfg : EnvConfig}

/-! ## Records -/

/-- The socket events of an agent's run. -/
def sockEvents (tr : AgentTrace) : List SockOps := tr.filterMap fun x => x.lab.event

theorem sockEvents_append (tr tr' : AgentTrace) :
    sockEvents (tr ++ tr') = sockEvents tr ++ sockEvents tr' := List.filterMap_append

/-- The process connected the socket. -/
def Owner (evs : List SockOps) (c : UInt64) (pid : UInt32) : Prop :=
  ∃ conn ∈ evs, conn.isConnect = true ∧ conn.cookie = c ∧ conn.pid = pid

/-- The record is of a connection of the process, and what it measures comes from one event of a
socket that the process connected. -/
structure MeasuredBy (evs : List SockOps) (pid : UInt32) (met : TuningMetrics) : Prop where
  connected : ∃ conn ∈ evs, conn.isConnect = true ∧ conn.pid = pid ∧
    met.remoteIp = conn.remoteIp4 ∧ met.remotePort = bswap32 conn.remotePort ∧
    met.startTimeNs = conn.ktimeNs
  measured : met.Unmeasured ∨
    ∃ e ∈ evs, e.isUpdate = true ∧ Owner evs e.cookie pid ∧ met.TakenFrom e

theorem Owner.mono {evs evs' : List SockOps} (h : evs ⊆ evs') {c : UInt64} {pid : UInt32}
    (ho : Owner evs c pid) : Owner evs' c pid := by
  obtain ⟨conn, hconn, hrest⟩ := ho
  exact ⟨conn, h hconn, hrest⟩

theorem MeasuredBy.mono {evs evs' : List SockOps} (h : evs ⊆ evs') {pid : UInt32}
    {met : TuningMetrics} (hm : MeasuredBy evs pid met) : MeasuredBy evs' pid met where
  connected := by
    obtain ⟨conn, hconn, hrest⟩ := hm.connected
    exact ⟨conn, h hconn, hrest⟩
  measured := by
    refine hm.measured.imp_right ?_
    rintro ⟨e, he, hu, ho, ht⟩
    exact ⟨e, h he, hu, ho.mono h, ht⟩

/-- An update measures the whole record. -/
theorem MeasuredBy.measure {evs : List SockOps} {pid : UInt32} {met : TuningMetrics} {sk : SockOps}
    (hm : MeasuredBy evs pid met) (hu : sk.isUpdate = true) (ho : Owner evs sk.cookie pid) :
    MeasuredBy (evs ++ [sk]) pid (met.measure sk) where
  connected := (hm.mono (List.subset_append_left evs [sk])).connected
  measured := by
    refine .inr ⟨sk, by simp, hu, ho.mono (List.subset_append_left evs [sk]), rfl, rfl, rfl, rfl,
      ?_⟩
    by_cases hz : met.startTimeNs > 0
    · simp [TuningMetrics.measure, hz]
    · -- a record without a start time never had a duration
      have hzero : met.durationUs = 0 := by
        rcases hm.measured with h | ⟨e, -, -, -, -, -, -, -, h⟩
        · exact h.2.2.2.2
        · rw [h, if_neg hz]
      simp only [TuningMetrics.measure, if_neg hz, hzero]

/-- The maps hold what the events before them left. -/
structure RecordsInv (evs : List SockOps) (m : Maps) : Prop where
  owner : ∀ c pid, m.cookiePidMap.lookup c = some pid → Owner evs c pid
  record : ∀ pid met, m.metricsMap.lookup pid = some met → MeasuredBy evs pid met

theorem RecordsInv.sock {evs : List SockOps} {m : Maps} (hi : RecordsInv evs m) (sk : SockOps) :
    RecordsInv (evs ++ [sk]) (bpfSockmap m sk).1 where
  owner c pid h := by
    rw [lookup_cookiePidMap_bpfSockmap] at h
    split at h
    · next hc =>
      cases h
      exact ⟨sk, by simp, hc.1, hc.2.1.symm, rfl⟩
    · exact (hi.owner c pid h).mono (List.subset_append_left evs [sk])
  record pid met h := by
    rcases record_cases h with ⟨hc, hpid, rfl⟩ | ⟨old, hold, rfl | ⟨hu, ho, rfl⟩⟩
    · exact ⟨⟨sk, by simp, hc, hpid, rfl, rfl, rfl⟩, .inl ⟨rfl, rfl, rfl, rfl, rfl⟩⟩
    · exact (hi.record pid met hold).mono (List.subset_append_left evs [sk])
    · exact (hi.record pid old hold).measure hu (hi.owner _ pid ho)

theorem RecordsInv.step {pre : AgentTrace} {x : Lts.Trans AgentSys AgentLabel}
    (hi : RecordsInv (sockEvents pre) x.src.world.maps)
    (h : AgentStep sha256Hex x.src x.lab x.dst) :
    RecordsInv (sockEvents (pre ++ [x])) x.dst.world.maps := by
  rw [sockEvents_append]
  rcases h.maps_cases with ⟨sk, hl, hm⟩ | ⟨hl, hc, hm⟩
  · rw [show sockEvents [x] = [sk] by simp [sockEvents, hl], hm]
    exact hi.sock sk
  · rw [show sockEvents [x] = [] by simp [sockEvents, hl], List.append_nil]
    exact ⟨fun c pid => hc ▸ hi.owner c pid, fun pid met => hm ▸ hi.record pid met⟩

/-! ## Calls -/

/-- A call of the handler started the process. -/
def Started (tr : AgentTrace) (id : Nat) (pid : UInt32) : Prop :=
  ∃ x ∈ tr, ∃ argv, x.lab = .command id ⟨.start argv, (.ok pid : Except String UInt32)⟩

/-- The handler read the record in `metrics_map`, under the id of a process that it started before,
and there it was measured. The process id 0 stands for none: a run that failed returns it. -/
def Reports (tr : AgentTrace) (id : Nat) (met : TuningMetrics) : Prop :=
  ∃ pre x post pid, tr = pre ++ x :: post ∧
    x.lab = .command id ⟨.lookupMetric pid, (.ok met : Except String TuningMetrics)⟩ ∧
    x.src.world.maps.metricsMap.lookup pid = some met ∧
    (Started pre id pid ∨ pid = 0) ∧ MeasuredBy (sockEvents pre) pid met

theorem Started.append {tr : AgentTrace} {id : Nat} {pid : UInt32} (h : Started tr id pid)
    (tr' : AgentTrace) : Started (tr ++ tr') id pid := by
  obtain ⟨x, hx, hlab⟩ := h
  exact ⟨x, List.mem_append_left _ hx, hlab⟩

theorem Reports.append {tr : AgentTrace} {id : Nat} {met : TuningMetrics} (h : Reports tr id met)
    (tr' : AgentTrace) : Reports (tr ++ tr') id met := by
  obtain ⟨pre, x, post, pid, rfl, hrest⟩ := h
  exact ⟨pre, x, post ++ tr', pid, by simp, hrest⟩

/-- The process a call has started is one of its handler, and what it has read was measured. -/
structure ViewOk (tr : AgentTrace) (id : Nat) (v : CallView) : Prop where
  pid : ∀ pid, v.pid = some pid → Started tr id pid
  read : ∀ met, v.read = some (.ok met) → Reports tr id met

theorem ViewOk.append {tr : AgentTrace} {id : Nat} {v : CallView} (h : ViewOk tr id v)
    (tr' : AgentTrace) : ViewOk (tr ++ tr') id v :=
  ⟨fun pid hp => (h.pid pid hp).append tr', fun met hr => (h.read met hr).append tr'⟩

/-- Every record was measured, and every call in flight keeps to a view of what it measured. -/
structure ReportInv (tr : AgentTrace) (s : AgentSys) : Prop where
  records : RecordsInv (sockEvents tr) s.world.maps
  calls : ∀ id call, s.calls id = some call →
    ∃ v, call.prog.Meets callProtocol v ∧ ViewOk tr id v

theorem reportInv_init : ReportInv [] .init where
  records := ⟨fun _ _ h => (by cases h), fun _ _ h => (by cases h)⟩
  calls _ _ h := by cases h

theorem ViewOk.track {pre : AgentTrace} {x : Lts.Trans AgentSys AgentLabel}
    (hi : RecordsInv (sockEvents pre) x.src.world.maps)
    (h : AgentStep sha256Hex x.src x.lab x.dst) {id : Nat} {v : CallView} {c : AgentCmd} {r : c.Ret}
    (hv : ViewOk pre id v) (hlab : x.lab = .command id ⟨c, r⟩) (hc : callProtocol.allows v c) :
    ViewOk (pre ++ [x]) id (v.track ⟨c, r⟩) := by
  have hold := hv.append [x]
  cases c with
  | start argv =>
    cases r with
    | error err => exact hold
    | ok pid =>
      refine ⟨fun pid' hp => ?_, hold.read⟩
      cases hp
      exact ⟨x, by simp, argv, hlab⟩
  | lookupMetric pid =>
    refine ⟨hold.pid, fun met hr => ?_⟩
    have hr : r = .ok met := Option.some.inj hr
    have hfound : x.src.world.maps.metricsMap.lookup pid = some met := by
      rw [hlab, hr] at h
      exact h.lookup_of_ok
    have hpid : Started pre id pid ∨ pid = 0 := hc.imp_left (hv.pid pid)
    exact ⟨pre, x, [], pid, rfl, by rw [hlab, hr], hfound, hpid, hi.record pid met hfound⟩
  | setLastCommand _ | getLastCommand | wait _ | putAction _ _ => exact hold

theorem ReportInv.step {pre : AgentTrace} {x : Lts.Trans AgentSys AgentLabel}
    (hi : ReportInv pre x.src) (h : AgentStep sha256Hex x.src x.lab x.dst) :
    ReportInv (pre ++ [x]) x.dst where
  records := hi.records.step h
  calls id' call' hc := by
    have hold : ∀ call, x.src.calls id' = some call →
        ∃ v, call.prog.Meets callProtocol v ∧ ViewOk (pre ++ [x]) id' v := fun call hcall => by
      obtain ⟨v, hmeets, hv⟩ := hi.calls id' call hcall
      exact ⟨v, hmeets, hv.append [x]⟩
    rcases h.cases with ⟨id, req, -, hs⟩ | ⟨id, o, c, k, call, hlab, hcall, hop, hs⟩ |
      ⟨id, resp, call, -, -, -, hs⟩ | ⟨owner, sk, -, hs⟩
    · rw [hs] at hc
      rcases AgentSys.calls_setCall hc with ⟨-, hnew⟩ | ⟨-, hcall⟩
      · cases hnew
        exact ⟨{}, handle_meets sha256Hex req, fun _ hp => (by cases hp), fun _ hr => (by cases hr)⟩
      · exact hold call' hcall
    · rw [hs] at hc
      rcases AgentSys.calls_setCall hc with ⟨rfl, hnew⟩ | ⟨-, hcall'⟩
      · cases hnew
        obtain ⟨v, hmeets, hv⟩ := hi.calls id' call hcall
        rw [hop] at hmeets
        exact ⟨_, hmeets.2 _, hv.track hi.records h hlab hmeets.1⟩
      · exact hold call' hcall'
    · rw [hs] at hc
      rcases AgentSys.calls_setCall hc with ⟨-, hnone⟩ | ⟨-, hcall⟩
      · cases hnone
      · exact hold call' hcall
    · rw [hs] at hc
      exact hold call' hc

theorem answer_measured {tr : AgentTrace} {ag ag' : AgentSys} {id : Nat} {resp : AgentResp}
    {obs : Observation} (h : Lts.Run (AgentStep sha256Hex) .init tr ag)
    (hs : AgentStep sha256Hex ag (.answer id resp) ag') (hobs : resp.observation = some obs) :
    ∃ met, obs = Agent.Server.reported met ∧ Reports tr id met := by
  have hi : ReportInv tr ag := h.history (P := fun _ _ => True) (fun _ _ hi hs _ => hi.step hs)
    (fun _ _ _ _ => trivial) reportInv_init
  rcases hs.cases with ⟨_, _, hl, -⟩ | ⟨_, _, _, _, _, hl, -⟩ | ⟨_, _, call, hl, hcall, hret, -⟩ |
    ⟨_, _, hl, -⟩ <;> cases hl
  obtain ⟨v, hmeets, hv⟩ := hi.calls id call hcall
  rw [hret] at hmeets
  obtain ⟨met, hread, rfl⟩ := hmeets obs hobs
  exact ⟨met, rfl, hv.read met hread⟩

/-! ## Handlers -/

/-- The agent's response a command of a handler returned. -/
def replyObservation : RouterEvent → Option (Addr × Observation)
  | ⟨.agentReset agent _, r⟩ =>
    match (r : Except String ResetResponse) with
    | .ok resp => resp.initialObservation.map (agent.addr, ·)
    | .error _ => none
  | ⟨.agentStep agent _, r⟩ =>
    match (r : Except String StepResponse) with
    | .ok resp => resp.observation.map (agent.addr, ·)
    | .error _ => none
  | ⟨.pool _, _⟩ => none

/-- The session and the observation of an answer to a client. -/
def answerObservation : (rpc : Rpc) → Handled rpc.Resp → Option (Addr × Observation)
  | .reset _, .ok resp => resp.initialObservation.map (resp.sessionId, ·)
  | .step req, .ok resp => resp.observation.map (req.sessionId, ·)
  | _, _ => none

theorem answer_reply_reset {req : ResetRequest} {log : List RouterEvent} {resp : ResetResponse}
    {obs : Observation} (h : Prog.After (Router.Server.reset req) log (.ret (.ok resp)))
    (hobs : resp.initialObservation = some obs) :
    ∃ ev ∈ log, replyObservation ev = some (resp.sessionId, obs) := by
  obtain ⟨r, log₁, rfl, h₁⟩ := Prog.after_op_ret_iff.1 h
  cases r with
  | error err => cases (Prog.after_ret_iff.1 h₁).2
  | ok agent =>
    obtain ⟨_, log₂, rfl, h₂⟩ := Prog.after_op_ret_iff.1 h₁
    obtain ⟨r', log₃, rfl, h₃⟩ := Prog.after_op_ret_iff.1 h₂
    cases r' with
    | error err =>
      obtain ⟨_, log₄, rfl, h₄⟩ := Prog.after_op_ret_iff.1 h₃
      cases (Prog.after_ret_iff.1 h₄).2
    | ok resp' =>
      obtain ⟨rfl, he⟩ := Prog.after_ret_iff.1 h₃
      cases he
      refine ⟨⟨.agentReset agent req, (.ok resp' : Except String ResetResponse)⟩, by simp, ?_⟩
      exact congrArg (Option.map (agent.addr, ·)) hobs

theorem answer_reply_step {req : StepRequest} {log : List RouterEvent} {resp : StepResponse}
    {obs : Observation} (h : Prog.After (Router.Server.step req) log (.ret (.ok resp)))
    (hobs : resp.observation = some obs) :
    ∃ ac, lookupEvent req.sessionId ac ∈ log ∧
      ∃ ev ∈ log, replyObservation ev = some (ac.addr, obs) := by
  unfold Router.Server.step at h
  split at h
  · cases (Prog.after_ret_iff.1 h).2
  obtain ⟨r, log₁, rfl, h₁⟩ := Prog.after_op_ret_iff.1 h
  cases r with
  | error err => cases (Prog.after_ret_iff.1 h₁).2
  | ok agent =>
    obtain ⟨_, log₂, rfl, h₂⟩ := Prog.after_op_ret_iff.1 h₁
    obtain ⟨r', log₃, rfl, h₃⟩ := Prog.after_op_ret_iff.1 h₂
    cases r' with
    | error err => cases (Prog.after_ret_iff.1 h₃).2
    | ok resp' =>
      have hresp : resp' = resp := by
        change Prog.After (if resp'.done = true then _ else _) _ _ at h₃
        split at h₃
        · obtain ⟨_, log₄, rfl, h₄⟩ := Prog.after_op_ret_iff.1 h₃
          cases (Prog.after_ret_iff.1 h₄).2
          rfl
        · cases (Prog.after_ret_iff.1 h₃).2
          rfl
      refine ⟨agent, List.mem_cons_self,
        ⟨.agentStep agent req, (.ok resp' : Except String StepResponse)⟩, by simp, ?_⟩
      exact congrArg (Option.map (agent.addr, ·)) (hresp ▸ hobs)

/-- A handler answers with the observation that the agent of the session gave it. -/
theorem answer_reply {r : RouterState} (hi : RouterInv r) {id : HandlerId} {hd : Handler}
    (hh : r.handlers id = some hd) {res : Handled hd.rpc.Resp} (hret : hd.prog = .ret res)
    {addr : Addr} {obs : Observation} (hobs : answerObservation hd.rpc res = some (addr, obs)) :
    ∃ ev ∈ hd.log, replyObservation ev = some (addr, obs) := by
  have hafter := hi.after id hd hh
  rw [hret] at hafter
  have hfound := fun a ac => hi.found id hd a ac hh
  obtain ⟨client, rpc, log, prog⟩ := hd
  cases rpc with
  | reset req =>
    cases res with
    | fail => cases hobs
    | ok resp =>
      obtain ⟨_, hobs, heq⟩ := Option.map_eq_some_iff.1 hobs
      cases heq
      exact answer_reply_reset hafter hobs
  | step req =>
    cases res with
    | fail => cases hobs
    | ok resp =>
      obtain ⟨_, hobs, heq⟩ := Option.map_eq_some_iff.1 hobs
      cases heq
      obtain ⟨ac, hac, hev⟩ := answer_reply_step hafter hobs
      rwa [hfound _ ac hac] at hev
  | close req => cases hobs

theorem RouterStep.answered {r r' : RouterState} (hi : RouterInv r) {id : HandlerId} {a : ClientId}
    {rpc : Rpc} {res : Handled rpc.Resp} (h : RouterStep r (.answered id a rpc res) r')
    {addr : Addr} {obs : Observation} (hobs : answerObservation rpc res = some (addr, obs)) :
    ∃ hd, r.handlers id = some hd ∧ hd.client = a ∧
      ∃ ev ∈ hd.log, replyObservation ev = some (addr, obs) := by
  cases h with
  | stay he => exact he.elim
  | answer hh hret => exact ⟨_, hh, rfl, answer_reply hi hh hret hobs⟩

/-- What a handler did is in the run. -/
def LogInv (pre : SysTrace) (s : Sys) : Prop :=
  ∀ id hd, s.router.handlers id = some hd →
    ∀ ev ∈ hd.log, ∃ y ∈ pre, y.lab = .exec id hd.client ev

theorem LogInv.step {pre : SysTrace} {x : Lts.Trans Sys SysEvent} (hi : LogInv pre x.src)
    (h : SysStep cfg x.src x.lab x.dst) : LogInv (pre ++ [x]) x.dst := by
  obtain ⟨act, h⟩ := h
  intro id hd hh ev hev
  have hold : ∀ hd, x.src.router.handlers id = some hd → ∀ ev ∈ hd.log,
      ∃ y ∈ pre ++ [x], y.lab = .exec id hd.client ev := fun hd hh ev hev => by
    obtain ⟨y, hy, hlab⟩ := hi id hd hh ev hev
    exact ⟨y, List.mem_append_left _ hy, hlab⟩
  rcases (Sys.step_router h).handler hh with ⟨hh', -⟩ | ⟨a, rpc, -, rfl⟩ |
    ⟨hd₀, c, k, r, hh', -, he, rfl⟩
  · exact hold hd hh' ev hev
  · cases hev
  · rcases List.mem_append.1 hev with hev | hev
    · exact hold hd₀ hh' ev hev
    · cases List.mem_singleton.1 hev
      exact ⟨x, by simp, he⟩

/-! ## The deployment -/

/-- What is delivered with an observation is the response with it. -/
theorem Delivers.observation {resp : AgentResp} {ev : RouterEvent} {addr addr' : Addr}
    {req : AgentReq} {obs : Observation} (h : Delivers resp ev)
    (hcall : agentCall ev.1 = some (addr', req)) (hobs : replyObservation ev = some (addr, obs)) :
    addr' = addr ∧ resp.observation = some obs := by
  obtain ⟨c, r⟩ := ev
  cases c with
  | pool c => cases hobs
  | agentReset agent req' =>
    cases r with
    | error err => cases hobs
    | ok resp' =>
      obtain ⟨_, hobs, heq⟩ := Option.map_eq_some_iff.1 hobs
      cases heq
      cases hcall
      cases resp with
      | step res => exact h.elim
      | reset res =>
        have hres : res = .ok resp' := Handled.deliver_eq_ok.1 (Eq.symm h)
        exact ⟨rfl, by rw [hres]; exact hobs⟩
  | agentStep agent req' =>
    cases r with
    | error err => cases hobs
    | ok resp' =>
      obtain ⟨_, hobs, heq⟩ := Option.map_eq_some_iff.1 hobs
      cases heq
      cases hcall
      cases resp with
      | reset res => exact h.elim
      | step res =>
        have hres : res = .ok resp' := Handled.deliver_eq_ok.1 (Eq.symm h)
        exact ⟨rfl, by rw [hres]; exact hobs⟩

theorem calling_of_op {r : RouterState} {id : HandlerId} {hd : Handler} {c : RouterCmd}
    {k : c.Ret → RouterProg (Handled hd.rpc.Resp)} (hh : r.handlers id = some hd)
    (hop : hd.prog = .op c k) : r.calling id = agentCall c := by
  unfold RouterState.calling
  rw [hh]
  split
  · next heq =>
    cases heq
    cases hop
    rfl
  · next hne =>
    obtain ⟨client, rpc, log, prog⟩ := hd
    exact (hne client rpc log c k (by rw [← hop])).elim

theorem agentCall_of_reply {ev : RouterEvent} {x : Addr × Observation}
    (h : replyObservation ev = some x) : agentCall ev.1 ≠ none := by
  obtain ⟨c, r⟩ := ev
  cases c with
  | pool c => cases h
  | agentReset agent req => simp [agentCall]
  | agentStep agent req => simp [agentCall]

/-- A response that a handler got is one that an agent gave. -/
theorem DeploymentStep.exec_reply {s s' : Deployment} {e : DeploymentEvent}
    (hi : CallInv s) (h : DeploymentStep sha256Hex cfg s e s') {id : HandlerId} {a : ClientId}
    {ev : RouterEvent} {addr : Addr} {obs : Observation} (he : e.sysPart = .step (.exec id a ev))
    (hobs : replyObservation ev = some (addr, obs)) :
    ∃ resp, e = .replied id addr resp (.exec id a ev) ∧ resp.observation = some obs ∧
      ∃ ag, AgentStep sha256Hex (s.agents addr) (.answer id resp) ag := by
  cases h.kind with
  | sys hs hh =>
    -- no answer comes for a handler that is not at a call
    obtain rfl := Lts.Part.step.inj he
    obtain ⟨act, hs⟩ := hs
    obtain ⟨hd, k, hhd, -, hop⟩ := (Sys.step_router hs).next
    exact absurd ((calling_of_op hhd hop).symm.trans (hh id rfl)) (agentCall_of_reply hobs)
  | fail hs =>
    obtain ⟨_, _, _, c, _, -, rfl⟩ := Sys.step_exec hs
    cases Lts.Part.step.inj he
    cases c <;> cases hobs
  | @reply id' addr' resp o se sys ag hwait hs hag =>
    obtain ⟨call, a', ev', -, -, rfl, hcall, hdel⟩ := hi.answers h
    cases Lts.Part.step.inj he
    obtain ⟨rfl, hresp⟩ := hdel.observation hcall hobs
    exact ⟨resp, rfl, hresp, ag, hag⟩
  | deliver | agent | restart => cases he

/-- The observation is what an agent reported to a handler of the client: it is in the agent's
response and in what the handler's command returned, and the agent made it from a record that it
read for this handler. -/
def MeasuredFor (a : ClientId) (tr : List DeploymentTrans) (obs : Observation) : Prop :=
  ∃ pre y post id addr resp ev, tr = pre ++ y :: post ∧
    y.lab = .replied id addr resp (.exec id a ev) ∧
    resp.observation = some obs ∧ replyObservation ev = some (addr, obs) ∧
    ∃ met, obs = Agent.Server.reported met ∧ Reports (agentTrace addr pre) id met

theorem MeasuredFor.append {a : ClientId} {tr : List DeploymentTrans} {obs : Observation}
    (h : MeasuredFor a tr obs) (tr' : List DeploymentTrans) : MeasuredFor a (tr ++ tr') obs := by
  obtain ⟨pre, y, post, id, addr, resp, ev, rfl, hrest⟩ := h
  exact ⟨pre, y, post ++ tr', id, addr, resp, ev, by simp, hrest⟩

/-- **Clients are told what agents measure.** -/
theorem answered_measured {s : Deployment} {pre post : List DeploymentTrans} {x : DeploymentTrans}
    (h : Lts.Run (DeploymentStep sha256Hex cfg) .init (pre ++ x :: post) s) {id : HandlerId}
    {a : ClientId} {rpc : Rpc} {res : Handled rpc.Resp} {addr : Addr} {obs : Observation}
    (hlab : x.lab = .sys (.answered id a rpc res))
    (hobs : answerObservation rpc res = some (addr, obs)) : MeasuredFor a pre obs := by
  obtain ⟨_, hpre, hrest⟩ := h.split
  obtain ⟨rfl, hstep, -⟩ := hrest.head
  have hlog : LogInv (sysTrace pre) x.src.sys :=
    (run_sysTrace hpre).history (P := fun _ _ => True) (fun _ _ hi hs _ => hi.step hs)
      (fun _ _ _ _ => trivial) (fun _ _ h => (by cases h))
  have hrouter : RouterInv x.src.sys.router :=
    (run_sysTrace hpre).invariant (I := fun s => RouterInv s.router)
      (fun _ _ _ hi hs => hi.step (Sys.step_router hs.choose_spec)) routerInv_init
  -- the handler has the observation from one of its commands
  have hsys : SysStep cfg x.src.sys (.answered id a rpc res) x.dst.sys :=
    (hlab ▸ hstep).sysPart
  obtain ⟨hd, hh, rfl, ev, hev, hreply⟩ :=
    RouterStep.answered hrouter (Sys.step_router hsys.choose_spec) hobs
  obtain ⟨y, hy, hlab'⟩ := hlog id hd hh ev hev
  -- which an agent answered
  obtain ⟨z, hz, hpart⟩ := Lts.exists_of_mem_component hy
  obtain ⟨pre', mid, rfl⟩ := List.append_of_mem hz
  obtain ⟨_, hpre', hrest'⟩ := hpre.split
  obtain ⟨rfl, hstep', -⟩ := hrest'.head
  have hcalls : CallInv z.src := hpre'.invariant (fun _ _ _ hi hs => hi.step hs) callInv_init
  rw [hlab'] at hpart
  obtain ⟨resp, hrep, hresp, ag, hag⟩ := hstep'.exec_reply hcalls hpart hreply
  obtain ⟨met, hmet, hreports⟩ := answer_measured (run_agentTrace hpre' addr) hag hresp
  exact ⟨pre', z, mid, id, addr, resp, ev, rfl, hrep, hresp, hreply, met, hmet, hreports⟩

end SocketTuner.System
