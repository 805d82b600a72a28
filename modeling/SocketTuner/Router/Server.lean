import SocketTuner.Agent.Server
import SocketTuner.Router.Lease

/-!
# The router's handlers

`env-router/internal/grpcserver/server.go`, as programs over the pool methods, each one critical
section, and over the calls to an agent. A call to an agent takes effect when it is sent; what it
returns is any reply, and other parties may act before the handler goes on.

For one call alone the router is composed with the agent it calls:

* `reset_restores_iff`: when a `Reset` that gives no episode leaves the pool as it was.
* `step_done_releases_iff`: when a `Step` whose agent reports termination releases the agent.
-/

namespace SocketTuner.Router

open GoMap

/-- What a handler calls: the pool, and the agent it is connected to. -/
inductive RouterCmd
  | pool (c : PoolCmd)
  /-- `agent.Client.Reset(ctx, req)` -/
  | agentReset (agent : AgentClient) (req : ResetRequest)
  /-- `agent.Client.Step(ctx, req)` -/
  | agentStep (agent : AgentClient) (req : StepRequest)

/-- What a call returns. -/
def RouterCmd.Ret : RouterCmd → Type
  | .pool c => c.Ret
  | .agentReset _ _ => Except String ResetResponse
  | .agentStep _ _ => Except String StepResponse

/-- A handler, or a part of one. -/
abbrev RouterProg := Prog RouterCmd RouterCmd.Ret

namespace AgentPool

/-- `s.pool.LockFreeAgent()` -/
def lockFreeAgent : RouterProg (Except String AgentClient) :=
  Prog.call (RouterCmd.pool .lockFreeAgent)
/-- `s.pool.TouchAgent(addr)` -/
def touchAgent (addr : Addr) : RouterProg Unit := Prog.call (RouterCmd.pool (.touchAgent addr))
/-- `s.pool.FreeAgent(addr)` -/
def freeAgent (addr : Addr) : RouterProg Unit := Prog.call (RouterCmd.pool (.freeAgent addr))
/-- `s.pool.GetAgentBySession(addr)` -/
def getAgentBySession (addr : Addr) : RouterProg (Except String AgentClient) :=
  Prog.call (RouterCmd.pool (.getAgentBySession addr))

end AgentPool

namespace AgentClient

/-- `agent.Client.Reset(ctx, req)` -/
def reset (agent : AgentClient) (req : ResetRequest) : RouterProg (Except String ResetResponse) :=
  Prog.call (RouterCmd.agentReset agent req)
/-- `agent.Client.Step(ctx, req)` -/
def step (agent : AgentClient) (req : StepRequest) : RouterProg (Except String StepResponse) :=
  Prog.call (RouterCmd.agentStep agent req)

end AgentClient

namespace Server

/-- `Reset` locks a free agent and forwards the request; the address becomes the session id. -/
def reset (req : ResetRequest) : RouterProg (Handled ResetResponse) := do
  match ← AgentPool.lockFreeAgent with
  | .error err => pure (.fail none err)
  | .ok agent =>
    AgentPool.touchAgent agent.addr
    match ← agent.reset req with
    | .error err =>
      -- If setup fails, immediately free the node
      AgentPool.freeAgent agent.addr
      pure (.fail none s!"agent reset failed: {err}")
    | .ok resp =>
      -- Tag the response with the physical address acting as a "Session ID"
      pure (.ok { resp with sessionId := agent.addr })

/-- `Step` forwards the request to the agent of its session. -/
def step (req : StepRequest) : RouterProg (Handled StepResponse) :=
  if req.sessionId = "" then
    pure (.fail none "missing session_id in Step Request. Cannot route Action.")
  else do
    match ← AgentPool.getAgentBySession req.sessionId with
    | .error err => pure (.fail none err)
    | .ok agent =>
      AgentPool.touchAgent req.sessionId
      match ← agent.step req with
      | .error err => pure (.fail none s!"agent step failed: {err}")
      | .ok resp =>
        -- If the network trace indicates termination, release the node back to pool
        if resp.done then
          AgentPool.freeAgent req.sessionId
          pure (.ok resp)
        else pure (.ok resp)

/-- `Close` frees the agent of the session. -/
def close (req : CloseRequest) : RouterProg (Handled CloseResponse) :=
  if req.sessionId = "" then pure (.fail none "missing session_id in Close Request")
  else do
    AgentPool.freeAgent req.sessionId
    pure (.ok { success := true })

end Server

/-! ## One call alone -/

/-- What a call takes from outside: for its `n`-th command what the pool method takes, and the
replies of the agents. -/
structure RouterHost where
  pool : Nat → Outside := fun _ => {}
  reset : AgentClient → ResetRequest → Except String ResetResponse := fun _ _ => .error ""
  step : AgentClient → StepRequest → Except String StepResponse := fun _ _ => .error ""

/-- The `n`-th command of a call, with what it takes from outside. -/
def RouterCmd.execAt (o : RouterHost) : (c : RouterCmd) → Pool × Nat → c.Ret × (Pool × Nat)
  | .pool c, s => ((c.exec (o.pool s.2) s.1).1, (c.exec (o.pool s.2) s.1).2, s.2 + 1)
  | .agentReset agent req, s => (o.reset agent req, s.1, s.2 + 1)
  | .agentStep agent req, s => (o.step agent req, s.1, s.2 + 1)

namespace RouterProg

variable {α : Type} (o : RouterHost) (pool : Pool) (n : Nat)

/-- A handler from its `n`-th command on, with no other request interleaved. -/
def runFrom (p : RouterProg α) : α × (Pool × Nat) := p.run (RouterCmd.execAt o) (pool, n)

@[simp] theorem runFrom_ret (a : α) : RouterProg.runFrom o pool n (.ret a) = (a, pool, n) := rfl

@[simp] theorem runFrom_lockFreeAgent (f : Except String AgentClient → RouterProg α) :
    (AgentPool.lockFreeAgent >>= f).runFrom o pool n =
      (f (pool.lockFreeAgent (o.pool n).order (o.pool n).clock).1).runFrom o
        (pool.lockFreeAgent (o.pool n).order (o.pool n).clock).2 (n + 1) := rfl

@[simp] theorem runFrom_touchAgent (addr : Addr) (f : Unit → RouterProg α) :
    (AgentPool.touchAgent addr >>= f).runFrom o pool n =
      (f ()).runFrom o (pool.touchAgent addr ((o.pool n).clock addr)) (n + 1) := rfl

@[simp] theorem runFrom_freeAgent (addr : Addr) (f : Unit → RouterProg α) :
    (AgentPool.freeAgent addr >>= f).runFrom o pool n =
      (f ()).runFrom o (pool.freeAgent addr) (n + 1) := rfl

@[simp] theorem runFrom_getAgentBySession (addr : Addr)
    (f : Except String AgentClient → RouterProg α) :
    (AgentPool.getAgentBySession addr >>= f).runFrom o pool n =
      (f (pool.getAgentBySession addr)).runFrom o pool (n + 1) := rfl

@[simp] theorem runFrom_agentReset (agent : AgentClient) (req : ResetRequest)
    (f : Except String ResetResponse → RouterProg α) :
    (agent.reset req >>= f).runFrom o pool n = (f (o.reset agent req)).runFrom o pool (n + 1) := rfl

@[simp] theorem runFrom_agentStep (agent : AgentClient) (req : StepRequest)
    (f : Except String StepResponse → RouterProg α) :
    (agent.step req >>= f).runFrom o pool n = (f (o.step agent req)).runFrom o pool (n + 1) := rfl

/-- A handler alone: what it returns and the pool it leaves. -/
def alone (p : RouterProg α) (o : RouterHost) (pool : Pool) : α × Pool :=
  ((p.runFrom o pool 0).1, (p.runFrom o pool 0).2.1)

end RouterProg

/-- What happens to a request and its reply on the way. -/
inductive Delivery
  | delivered
  | requestLost (err : String)
  | replyLost (err : String)
  deriving DecidableEq, Repr

/-- The reply the caller sees. -/
def Delivery.reply {α : Type} (d : Delivery) (h : Handled α) : Except String α :=
  match d with
  | .delivered => h.deliver
  | .requestLost err | .replyLost err => .error err

/-- The agents behind the router during one call, each with its state, its host and the fate of
a message to it. -/
structure Agents where
  world : Addr → Agent.AgentWorld := fun _ => .init
  host : Addr → Agent.Host := fun _ => {}
  net : Addr → Delivery := fun _ => .delivered

/-- The router's view of these agents. -/
def Agents.routerHost (ag : Agents) (sha256Hex : String → String) (pool : Nat → Outside) :
    RouterHost where
  pool
  reset agent req := (ag.net agent.addr).reply
    ((Agent.Server.reset sha256Hex req).alone (ag.host agent.addr) (ag.world agent.addr)).1
  step agent req := (ag.net agent.addr).reply
    ((Agent.Server.step req).alone (ag.host agent.addr) (ag.world agent.addr)).1

/-! ## A `Reset` that gives no episode -/

namespace Pool

theorem flags_touchAgent (p : Pool) (addr : Addr) (now : Time) (a : Addr) :
    (p.touchAgent addr now).flags a = p.flags a := by
  unfold flags
  rw [lookup_touchAgent]
  split
  · cases p.agents.lookup a <;> rfl
  · rfl

theorem flags_freeAgent (p : Pool) (addr a : Addr) :
    (p.freeAgent addr).flags a =
      if a = addr then (p.flags a).bind fun f => if f.2 then none else some (false, false)
      else p.flags a := by
  unfold flags
  rw [lookup_freeAgent]
  split
  · cases p.agents.lookup a with
    | none => rfl
    | some ac => cases hp : ac.pendingRemoval <;> simp [AgentClient.released, hp]
  · rfl

theorem flags_lockFreeAgent {p p' : Pool} (hp : PoolInv p) {order : List Addr}
    {clock : Addr → Time} {ac : AgentClient} (h : p.lockFreeAgent order clock = (.ok ac, p')) :
    p.flags ac.addr = some (false, false) ∧
      ∀ a, p'.flags a = if a = ac.addr then some (true, false) else p.flags a := by
  obtain ⟨addr, old, hold, hfree, rfl, rfl⟩ := lockFreeAgent_ok h
  have haddr : old.addr = addr := hp.addr_eq hold
  simp only [AgentClient.isFree, Bool.and_eq_true, Bool.not_eq_true'] at hfree
  refine ⟨by rw [flags, haddr, hold]; simp [hfree], fun a => ?_⟩
  simp only [flags, lookup_put, haddr]
  split
  · simp [hfree]
  · rfl

end Pool

/-- The call returned an error, or a response with `success = false`. -/
def NoEpisode : Handled ResetResponse → Prop
  | .ok resp => resp.success = false
  | .fail _ _ => True

/-- What `Reset` does, by the outcome of the lock and of the call to the agent. -/
theorem Server.reset_alone (req : ResetRequest) (o : RouterHost) (p : Pool) :
    (Server.reset req).alone o p =
      match p.lockFreeAgent (o.pool 0).order (o.pool 0).clock with
      | (.error err, p') => (.fail none err, p')
      | (.ok agent, p') =>
        let p' := p'.touchAgent agent.addr ((o.pool 1).clock agent.addr)
        match o.reset agent req with
        | .error err => (.fail none s!"agent reset failed: {err}", p'.freeAgent agent.addr)
        | .ok resp => (.ok { resp with sessionId := agent.addr }, p') := by
  unfold Server.reset RouterProg.alone
  rcases hl : p.lockFreeAgent (o.pool 0).order (o.pool 0).clock with ⟨r, p'⟩
  cases r with
  | error err => simp [hl]
  | ok agent => cases hr : o.reset agent req <;> simp [hl, hr]

/-- A `Reset` that gives no episode loses the agent it locked exactly when the agent answers with
`success = false`. -/
theorem Server.reset_flags_iff {p : Pool} (hp : PoolInv p) (req : ResetRequest) (o : RouterHost)
    (hr : IsRange p.agents (o.pool 0).order) :
    (NoEpisode ((Server.reset req).alone o p).1 →
      ∀ a, ((Server.reset req).alone o p).2.flags a = p.flags a) ↔
    ∀ agent p', p.lockFreeAgent (o.pool 0).order (o.pool 0).clock = (.ok agent, p') →
      ∀ resp, o.reset agent req = .ok resp → resp.success = true := by
  rw [Server.reset_alone]
  rcases hl : p.lockFreeAgent (o.pool 0).order (o.pool 0).clock with ⟨r, p'⟩
  cases r with
  | error err =>
    obtain ⟨rfl, -⟩ := Pool.lockFreeAgent_error hr hl
    simp
  | ok agent =>
    obtain ⟨hbefore, hlocked⟩ := Pool.flags_lockFreeAgent hp hl
    have htouched : ∀ a, (p'.touchAgent agent.addr ((o.pool 1).clock agent.addr)).flags a =
        if a = agent.addr then some (true, false) else p.flags a := fun a => by
      rw [Pool.flags_touchAgent, hlocked]
    cases hreply : o.reset agent req with
    | error err =>
      -- the entry was free, so locking and freeing it restores its flags
      have hfreed : ∀ a, ((p'.touchAgent agent.addr ((o.pool 1).clock agent.addr)).freeAgent
          agent.addr).flags a = p.flags a := fun a => by
        rw [Pool.flags_freeAgent, htouched]
        by_cases ha : a = agent.addr
        · simp [ha, hbefore]
        · simp [ha]
      simp [hfreed, hreply]
    | ok resp =>
      simp only [hreply, NoEpisode, htouched]
      constructor
      · intro h agent' p'' he resp' hr'
        cases he
        rw [hreply] at hr'
        cases hr'
        by_contra hs
        have := h (by simpa using hs) agent.addr
        simp [hbefore] at this
      · intro h hs
        have := h agent p' rfl resp hreply
        simp [hs] at this

/-- An agent's `Reset` reaches the router as an error exactly when it is not delivered. -/
theorem Agents.reset_reply (ag : Agents) (sha256Hex : String → String) (pool : Nat → Outside)
    (agent : AgentClient) (req : ResetRequest) :
    (∀ resp, (ag.routerHost sha256Hex pool).reset agent req = .ok resp → resp.success = true) ↔
      ag.net agent.addr ≠ .delivered ∨
        Agent.Server.ResetSucceeds sha256Hex req (ag.host agent.addr) := by
  obtain ⟨resp, hresp, hsucc⟩ :=
    Agent.Server.reset_alone sha256Hex req (ag.host agent.addr) (ag.world agent.addr)
  simp only [Agents.routerHost, hresp, ← hsucc]
  cases ag.net agent.addr <;> simp [Delivery.reply, Handled.deliver]

/-- **When a `Reset` that gives no episode leaves the pool as it was**: exactly when no agent is
free, the call to the locked agent fails, or that agent's reset succeeds. -/
theorem reset_restores_iff {p : Pool} (hp : PoolReachable p) (sha256Hex : String → String)
    (req : ResetRequest) (ag : Agents) (pool : Nat → Outside)
    (hr : IsRange p.agents (pool 0).order) :
    (NoEpisode ((Server.reset req).alone (ag.routerHost sha256Hex pool) p).1 →
      ∀ a, ((Server.reset req).alone (ag.routerHost sha256Hex pool) p).2.flags a = p.flags a) ↔
    ∀ agent p', p.lockFreeAgent (pool 0).order (pool 0).clock = (.ok agent, p') →
      ag.net agent.addr ≠ .delivered ∨
        Agent.Server.ResetSucceeds sha256Hex req (ag.host agent.addr) := by
  rw [Server.reset_flags_iff hp.inv req (ag.routerHost sha256Hex pool) hr]
  simp only [Agents.reset_reply]
  rfl

/-- The order of a `range` over the pool of one agent, for every command. -/
def oneAgent : Nat → Outside := fun _ => { order := ["10.0.0.7:50051"] }

/-- Agents on whose hosts every process starts, with pid 4242, and exits with status 0. -/
def quietAgents : Agents := { host := fun _ => { outside := fun _ => { start := .ok 4242 } } }

/-- A `Reset` of the google task. -/
def googleReset : ResetRequest := ⟨"curl -4 -sI -m 5 http://google.com"⟩

/-- The digest of that command. -/
def googleSha : String → String :=
  fun _ => "b09f967a0e12ebf17a37cf7e6592477209a75ea0c7e54cc289db78fddf28830b"

/-- The same agents when their replies get lost. -/
def silentAgents : Agents :=
  { quietAgents with net := fun _ => .replyLost "context deadline exceeded" }

/-- Of three agents the free one is locked and, the reply lost, freed again. -/
theorem reset_restores_lost :
    NoEpisode ((Server.reset googleReset).alone
      (silentAgents.routerHost googleSha fun _ => { order := leavingCalls.threeAgents })
      leavingPool).1 ∧
    ∀ a, ((Server.reset googleReset).alone
      (silentAgents.routerHost googleSha fun _ => { order := leavingCalls.threeAgents })
      leavingPool).2.flags a = leavingPool.flags a :=
  ⟨trivial, (reset_restores_iff leavingPool_reachable googleSha googleReset silentAgents _
    (by decide)).2 (fun _ _ _ => .inl nofun) trivial⟩

/-- The digest of `whoami`, which no entry of `allowedHashes` equals. -/
def whoamiSha : String → String :=
  fun _ => "f25297859cf0a70af5c053a5464a5fa647a35ceee1d91397331903846d79ffc1"

/-- A rejected command leaves the agent busy. -/
theorem reset_rejected_keeps_busy :
    PoolReachable idlePool ∧ IsRange idlePool.agents (oneAgent 0).order ∧
      NoEpisode
        ((Server.reset ⟨"whoami"⟩).alone (quietAgents.routerHost whoamiSha oneAgent) idlePool).1 ∧
      idlePool.flags "10.0.0.7:50051" = some (false, false) ∧
      ((Server.reset ⟨"whoami"⟩).alone (quietAgents.routerHost whoamiSha oneAgent)
        idlePool).2.flags "10.0.0.7:50051" = some (true, false) :=
  ⟨idlePool_reachable, by decide, rfl, by decide, by decide⟩

/-! ## A `Step` whose agent reports termination -/

/-- What `Step` does for a session, by the outcome of the lookup and of the call to the agent. -/
theorem Server.step_alone {req : StepRequest} (hs : req.sessionId ≠ "") (o : RouterHost)
    (p : Pool) :
    (Server.step req).alone o p =
      match p.getAgentBySession req.sessionId with
      | .error err => (.fail none err, p)
      | .ok agent =>
        let p' := p.touchAgent req.sessionId ((o.pool 1).clock req.sessionId)
        match o.step agent req with
        | .error err => (.fail none s!"agent step failed: {err}", p')
        | .ok resp => (.ok resp, if resp.done then p'.freeAgent req.sessionId else p') := by
  unfold Server.step RouterProg.alone
  cases hl : p.getAgentBySession req.sessionId with
  | error err => simp [hs, hl]
  | ok agent =>
    cases hr : o.step agent req with
    | error err => simp [hs, hl, hr]
    | ok resp => cases hd : resp.done <;> simp [hs, hl, hr, hd]

theorem Server.step_ok_iff (req : StepRequest) (o : RouterHost) (p : Pool) (resp : StepResponse) :
    ((Server.step req).alone o p).1 = .ok resp ↔
      req.sessionId ≠ "" ∧
        ∃ ac, p.agents.lookup req.sessionId = some ac ∧ o.step ac req = .ok resp := by
  by_cases hs : req.sessionId = ""
  · simp [Server.step, RouterProg.alone, hs]
  · rw [Server.step_alone hs, Pool.getAgentBySession]
    cases hl : p.agents.lookup req.sessionId with
    | none => simp
    | some ac => cases hr : o.step ac req <;> simp [hs, hr]

/-- What the handler of the session's agent returns, if the request reaches it. -/
def Agents.stepHandled (ag : Agents) (req : StepRequest) : Option (Handled StepResponse) :=
  if req.sessionId = "" then none
  else
    match ag.net req.sessionId with
    | .requestLost _ => none
    | .delivered | .replyLost _ =>
      some ((Agent.Server.step req).alone (ag.host req.sessionId) (ag.world req.sessionId)).1

/-- The agent's handler runs for the request and produces a response with `Done`. -/
def Agents.ReportsDone (ag : Agents) (req : StepRequest) : Prop :=
  ∃ h resp, ag.stepHandled req = some h ∧ h.produced = some resp ∧ resp.done = true

/-- The request reaches the agent. -/
def Agents.Reaches (ag : Agents) (req : StepRequest) : Prop :=
  req.sessionId ≠ "" ∧ ∀ err, ag.net req.sessionId ≠ .requestLost err

theorem Agents.reportsDone_iff (ag : Agents) (req : StepRequest) :
    ag.ReportsDone req ↔ ag.Reaches req ∧
      ¬Agent.Server.MetricFound req (ag.host req.sessionId) (ag.world req.sessionId) := by
  rw [← Agent.Server.step_done_iff]
  unfold Agents.ReportsDone Agents.Reaches Agents.stepHandled
  by_cases hs : req.sessionId = ""
  · simp [hs]
  · cases ag.net req.sessionId <;> simp [hs]

theorem Pool.leased_touchAgent {p : Pool} {a : Addr} (addr : Addr) (now : Time) (h : p.Leased a) :
    (p.touchAgent addr now).Leased a := by
  rw [Pool.leased_iff] at h ⊢
  rwa [Pool.table_touchAgent]

/-- **When an agent that reports termination is released**: exactly when it does not report it,
because the request does not reach it, its `SetAction` fails, or `metrics_map` has the record it
looks up. A reported termination never releases the agent. -/
theorem step_done_releases_iff {p : Pool} (hp : PoolReachable p) (sha256Hex : String → String)
    (req : StepRequest) (hb : p.Leased req.sessionId) (ag : Agents) (pool : Nat → Outside) :
    (ag.ReportsDone req →
      ¬((Server.step req).alone (ag.routerHost sha256Hex pool) p).2.Leased req.sessionId) ↔
    (ag.Reaches req →
      Agent.Server.MetricFound req (ag.host req.sessionId) (ag.world req.sessionId)) := by
  rw [Agents.reportsDone_iff]
  constructor
  · rintro h hreach
    by_contra hm
    refine h ⟨hreach, hm⟩ ?_
    obtain ⟨ac, hac, hbusy⟩ := hb
    have haddr : ac.addr = req.sessionId := hp.inv.addr_eq hac
    have hget : p.getAgentBySession req.sessionId = .ok ac := by
      simp [Pool.getAgentBySession, hac]
    -- the response with `Done` is dropped, so the router takes its error branch
    have hreply : ∃ err, (ag.routerHost sha256Hex pool).step ac req = .error err := by
      simp only [Agents.routerHost, haddr]
      cases ag.net req.sessionId with
      | delivered => exact Agent.Server.step_deliver_done hm
      | requestLost err => exact ⟨err, rfl⟩
      | replyLost err => exact ⟨err, rfl⟩
    obtain ⟨err, hreply⟩ := hreply
    rw [Server.step_alone hreach.1, hget]
    simp only [hreply]
    exact Pool.leased_touchAgent _ _ ⟨ac, hac, hbusy⟩
  · rintro h ⟨hreach, hm⟩
    exact absurd (h hreach) hm

/-- A step of the leased agent towards an address it has talked to. -/
def googleStep : StepRequest := { sessionId := "10.0.0.7:50051", targetIp := "142.250.1.100" }

/-- Process 4242 connects to that address. -/
def connect4242 : Agent.SockOps :=
  { op := .tcpConnectCb, family := Agent.AF_INET, remoteIp4 := 0x6401fa8e, remotePort := 0x50000000,
    srttUs := 0, totalRetrans := 0, bytesAcked := 0, bytesReceived := 0, cbFlags := 0, cookie := 1,
    pidTgid := 0x109200000000, ktimeNs := 1000000 }

/-- Agents whose last command is set and whose process connects before it exits. -/
def connectingAgents : Agents :=
  { world := fun _ => { Agent.AgentWorld.init with lastCommand := googleReset.command }
    host := fun _ => { events := fun n => if n = 4 then [connect4242] else []
                       outside := fun _ => { start := .ok 4242 } } }

theorem step_done_releases_connecting :
    (connectingAgents.ReportsDone googleStep →
      ¬((Server.step googleStep).alone (connectingAgents.routerHost googleSha oneAgent)
        leasedPool).2.Leased googleStep.sessionId) ∧
    (connectingAgents.Reaches googleStep →
      Agent.Server.MetricFound googleStep (connectingAgents.host googleStep.sessionId)
        (connectingAgents.world googleStep.sessionId)) := by
  have hfound : Agent.Server.MetricFound googleStep (connectingAgents.host googleStep.sessionId)
      (connectingAgents.world googleStep.sessionId) := by
    intro key hk _
    have : key = ⟨0x6401fa8e, 0⟩ := by
      have hkey : Agent.Manager.ipToKey googleStep.targetIp googleStep.targetPort =
        .ok ⟨0x6401fa8e, 0⟩ := by decide
      rw [hkey] at hk
      exact (Except.ok.inj hk).symm
    subst this
    rfl
  exact ⟨(step_done_releases_iff leasedPool_reachable googleSha googleStep ⟨_, rfl, rfl⟩ _ _).2
    fun _ => hfound, fun _ => hfound⟩

/-- An agent without a command reports `Done`, and stays busy. -/
theorem step_done_keeps_busy :
    PoolReachable leasedPool ∧ leasedPool.Leased googleStep.sessionId ∧
      quietAgents.ReportsDone googleStep ∧
      ((Server.step googleStep).alone (quietAgents.routerHost googleSha oneAgent)
        leasedPool).2.Leased googleStep.sessionId :=
  ⟨leasedPool_reachable, ⟨_, rfl, rfl⟩, ⟨_, _, rfl, rfl, rfl⟩, ⟨_, rfl, rfl⟩⟩

end SocketTuner.Router
