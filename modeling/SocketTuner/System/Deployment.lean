import SocketTuner.Agent.Commands
import SocketTuner.System.Steps

/-!
# The deployment

Clients, the router and the agent processes together. A call of a handler to an agent starts a call
of the agent process behind the address; the agent runs it among its other calls and the socket
events of its host, and its answer is what the handler goes on with. A call may never reach the
agent, its answer may be lost, and the handler may give up while the agent goes on. A pod may be
replaced at any time by another under the same address, with a new process and empty maps.

The deployment refines both of the models it is made of (`deployment_refines`): without the agents
it is a run of the clients against the router, and each agent process has made a run of its own.
So what holds of the parts holds of the whole, and it can be followed from one part into another:

* `deployment_runs_tasks`: every process an agent starts is the command of a task that some client
  asked for.
* `deployment_tunes_sessions`: what an agent has in `action_map` is from `Step` requests of clients
  for a session of this very agent.
-/

namespace SocketTuner.System

open Env Router Agent GoMap

/-! ## States and steps -/

/-- The call of an agent that a command of the router makes. -/
def agentCall : RouterCmd → Option (Addr × AgentReq)
  | .agentReset agent req => some (agent.addr, .reset req)
  | .agentStep agent req => some (agent.addr, .step req)
  | .pool _ => none

/-- The call of an agent that a handler makes next. -/
def RouterState.calling (r : RouterState) (h : HandlerId) : Option (Addr × AgentReq) :=
  match r.handlers h with
  | some { prog := .op c _, .. } => agentCall c
  | _ => none

/-- What a handler takes from the answer of an agent. -/
def answerChoice : AgentResp → Choice
  | .reset resp => { reset := resp.deliver }
  | .step resp => { step := resp.deliver }

/-- Clients and router, with an agent process behind each address. -/
structure Deployment where
  sys : Sys
  /-- The agent process behind an address. A call of handler `h` has the id `h` there. -/
  agents : Addr → AgentSys
  /-- Where the call of a handler was delivered, while the handler waits for it. -/
  waiting : HandlerId → Option Addr

/-- Everything just started, with an empty pool. -/
def Deployment.init : Deployment :=
  { sys := .init, agents := fun _ => .init, waiting := fun _ => none }

/-- Replace the agent behind an address. -/
def Deployment.setAgent (s : Deployment) (addr : Addr) (ag : AgentSys) : Deployment :=
  { s with agents := Function.update s.agents addr ag }

/-- Record where a handler's call is, or that the handler waits no more. -/
def Deployment.setWaiting (s : Deployment) (h : HandlerId) (addr : Option Addr) : Deployment :=
  { s with waiting := Function.update s.waiting h addr }

/-- What can happen next in the deployment. -/
inductive DeploymentAction
  /-- Anything that clients and router do but for calls to agents. -/
  | sys (act : Action)
  /-- The call of a handler reaches its agent. -/
  | deliver (h : HandlerId)
  /-- The agent answers, and the answer reaches the handler. -/
  | reply (h : HandlerId) (o : Outside)
  /-- The call of a handler fails, whether or not it reached its agent. -/
  | fail (h : HandlerId) (err : String) (o : Outside)
  /-- A command or socket event of an agent, or an answer that is lost. -/
  | agent (addr : Addr) (act : AgentAction)
  /-- Another process takes over the address. -/
  | restart (addr : Addr)

/-- What a step did. -/
inductive DeploymentEvent
  | sys (e : SysEvent)
  | delivered (h : HandlerId) (addr : Addr) (req : AgentReq)
  | replied (h : HandlerId) (addr : Addr) (resp : AgentResp) (e : SysEvent)
  | agent (addr : Addr) (l : AgentLabel)
  | restarted (addr : Addr)

/-- The action makes a handler go on with a command. -/
def Action.execs : Action → Option HandlerId
  | .exec h _ => some h
  | _ => none

/-- The action starts a call of the agent. -/
def startsCall : AgentAction → Bool
  | .call _ _ => true
  | _ => false

/-- The deployment as a function of the next action: the steps of `Sys.step` and of `AgentSys.step`,
with the calls of handlers delivered as calls of agents and their answers as replies. -/
def Deployment.step (sha256Hex : String → String) (cfg : EnvConfig) (s : Deployment) :
    DeploymentAction → Option (DeploymentEvent × Deployment)
  | .sys act =>
    if (act.execs.bind s.sys.router.calling).isSome then none
    else (s.sys.step cfg act).map fun (e, sys) => (.sys e, { s with sys })
  | .deliver h =>
    match s.sys.router.calling h, s.waiting h with
    | some (addr, req), none =>
      ((s.agents addr).step sha256Hex (.call h req)).map fun (_, ag) =>
        (.delivered h addr req, (s.setAgent addr ag).setWaiting h (some addr))
    | _, _ => none
  | .reply h o =>
    match s.waiting h with
    | none => none
    | some addr =>
      match (s.agents addr).step sha256Hex (.answer h) with
      | some (.answer _ resp, ag) =>
        (s.sys.step cfg (.exec h { answerChoice resp with pool := o })).map fun (e, sys) =>
          (.replied h addr resp e, Deployment.setWaiting { s.setAgent addr ag with sys } h none)
      | _ => none
  | .fail h err o =>
    if (s.sys.router.calling h).isSome then
      (s.sys.step cfg (.exec h { pool := o, reset := .error err, step := .error err })).map
        fun (e, sys) => (.sys e, Deployment.setWaiting { s with sys } h none)
    else none
  | .agent addr act =>
    if startsCall act then none
    else ((s.agents addr).step sha256Hex act).map fun (l, ag) => (.agent addr l, s.setAgent addr ag)
  | .restart addr => some (.restarted addr, s.setAgent addr .init)

/-- A step of the deployment. -/
abbrev DeploymentStep (sha256Hex : String → String) (cfg : EnvConfig) :=
  Lts.Acts (Deployment.step sha256Hex cfg)

/-- A step with the states around it. -/
abbrev DeploymentTrans := Lts.Trans Deployment DeploymentEvent

/-- A step of clients and router. -/
abbrev SysStep (cfg : EnvConfig) := Lts.Acts (Sys.step cfg)

variable {sha256Hex : String → String} {cfg : EnvConfig} {s s' : Deployment} {e : DeploymentEvent}

/-- A handler that goes on is at another kind of command, or at its end. -/
theorem Sys.step_handler {s s' : Sys} {act : Action} {e : SysEvent} {h : HandlerId}
    (hs : s.step cfg act = some (e, s')) (he : e.handler = some h)
    (hact : (act.execs.bind s.router.calling).isSome = false) : s.router.calling h = none := by
  cases act with
  | exec id o =>
    have hid : id = h := by
      simp only [Sys.step] at hs
      split at hs
      · split at hs
        · cases hs
          exact Option.some.inj he
        · cases hs
      · cases hs
    subst hid
    exact Option.not_isSome_iff_eq_none.1 (Bool.eq_false_iff.1 hact)
  | answer id arrives =>
    simp only [Sys.step] at hs
    split at hs
    · next hh =>
      cases hs
      obtain rfl := Option.some.inj he
      unfold RouterState.calling
      rw [hh]
    · cases hs
  | invoke _ _ | send _ _ | lose _ _ | fail _ _ | finish _ | background _ _ =>
    simp only [Sys.step] at hs
    split at hs <;> cases hs
    cases he

theorem Sys.step_exec {s s' : Sys} {h : HandlerId} {o : Choice} {e : SysEvent}
    (hs : s.step cfg (.exec h o) = some (e, s')) :
    ∃ client rpc log c k, s.router.handlers h = some { client, rpc, log, prog := .op c k } ∧
      e = .exec h client ⟨c, (commandExec o c s.router.pool).1⟩ := by
  simp only [Sys.step] at hs
  split at hs
  · next hh =>
    split at hs
    · cases hs
      exact ⟨_, _, _, _, _, hh, rfl⟩
    · cases hs
  · cases hs

/-- What a step is: one of clients and router, the start of a call, its end, its failure, a step of
an agent, or a new agent process. -/
inductive StepKind (sha256Hex : String → String) (cfg : EnvConfig) (s : Deployment) :
    DeploymentEvent → Deployment → Prop
  | sys {se : SysEvent} {sys : Sys} (hs : SysStep cfg s.sys se sys)
      (hh : ∀ id, se.handler = some id → s.sys.router.calling id = none) :
      StepKind sha256Hex cfg s (.sys se) { s with sys }
  | deliver {id : HandlerId} {addr : Addr} {req : AgentReq} {ag : AgentSys}
      (hcall : s.sys.router.calling id = some (addr, req)) (hwait : s.waiting id = none)
      (hag : AgentStep sha256Hex (s.agents addr) (.call id req) ag) :
      StepKind sha256Hex cfg s (.delivered id addr req)
        ((s.setAgent addr ag).setWaiting id (some addr))
  | reply {id : HandlerId} {addr : Addr} {resp : AgentResp} {o : Outside} {se : SysEvent}
      {sys : Sys} {ag : AgentSys} (hwait : s.waiting id = some addr)
      (hs : s.sys.step cfg (.exec id { answerChoice resp with pool := o }) = some (se, sys))
      (hag : AgentStep sha256Hex (s.agents addr) (.answer id resp) ag) :
      StepKind sha256Hex cfg s (.replied id addr resp se)
        (Deployment.setWaiting { s.setAgent addr ag with sys } id none)
  | fail {id : HandlerId} {err : String} {o : Outside} {se : SysEvent} {sys : Sys}
      (hs : s.sys.step cfg
        (.exec id { pool := o, reset := .error err, step := .error err }) = some (se, sys)) :
      StepKind sha256Hex cfg s (.sys se) (Deployment.setWaiting { s with sys } id none)
  | agent {addr : Addr} {l : AgentLabel} {ag : AgentSys}
      (hag : AgentStep sha256Hex (s.agents addr) l ag) (hcall : ∀ id req, l ≠ .call id req) :
      StepKind sha256Hex cfg s (.agent addr l) (s.setAgent addr ag)
  | restart (addr : Addr) :
      StepKind sha256Hex cfg s (.restarted addr) (s.setAgent addr .init)

theorem DeploymentStep.kind (h : DeploymentStep sha256Hex cfg s e s') :
    StepKind sha256Hex cfg s e s' := by
  obtain ⟨act, h⟩ := h
  cases act with
  | sys act =>
    simp only [Deployment.step] at h
    split at h
    · cases h
    · next hact =>
      obtain ⟨⟨se, sys⟩, hs, he⟩ := Option.map_eq_some_iff.1 h
      cases he
      exact .sys ⟨act, hs⟩ fun id hid => Sys.step_handler hs hid (Bool.eq_false_iff.2 hact)
  | deliver id =>
    simp only [Deployment.step] at h
    split at h
    · next addr req hcall hwait =>
      obtain ⟨⟨l, ag⟩, hs, he⟩ := Option.map_eq_some_iff.1 h
      cases he
      have hl : l = .call id req := by
        simp only [AgentSys.step] at hs
        split at hs <;> cases hs
        rfl
      exact .deliver hcall hwait ⟨_, hl ▸ hs⟩
    · cases h
  | reply id o =>
    simp only [Deployment.step] at h
    split at h
    · cases h
    · next addr hwait =>
      split at h
      · next id' resp ag hs =>
        obtain ⟨⟨se, sys⟩, hsys, he⟩ := Option.map_eq_some_iff.1 h
        cases he
        have hid : id' = id := by
          simp only [AgentSys.step] at hs
          split at hs <;> cases hs
          rfl
        exact .reply hwait hsys ⟨_, hid ▸ hs⟩
      · cases h
  | fail id err o =>
    simp only [Deployment.step] at h
    split at h
    · obtain ⟨⟨se, sys⟩, hs, he⟩ := Option.map_eq_some_iff.1 h
      cases he
      exact .fail hs
    · cases h
  | agent addr act =>
    simp only [Deployment.step] at h
    split at h
    · cases h
    · next hcall =>
      obtain ⟨⟨l, ag⟩, hs, he⟩ := Option.map_eq_some_iff.1 h
      cases he
      refine .agent ⟨act, hs⟩ ?_
      rintro id req rfl
      cases act with
      | call id' req' => exact hcall rfl
      | command id' o => simp only [AgentSys.step] at hs; split at hs <;> cases hs
      | answer id' => simp only [AgentSys.step] at hs; split at hs <;> cases hs
      | sock owner sk => simp only [AgentSys.step] at hs; split at hs <;> cases hs
  | restart addr =>
    cases h
    exact .restart addr

/-! ## The parts -/

/-- What an event is for clients and router. -/
def DeploymentEvent.sysPart : DeploymentEvent → Lts.Part SysEvent
  | .sys e | .replied _ _ _ e => .step e
  | .delivered _ _ _ | .agent _ _ | .restarted _ => .skip

/-- What an event is for the agent process behind `a`. -/
def DeploymentEvent.agentPart (a : Addr) : DeploymentEvent → Lts.Part AgentLabel
  | .sys _ => .skip
  | .delivered h addr req => if addr = a then .step (.call h req) else .skip
  | .replied h addr resp _ => if addr = a then .step (.answer h resp) else .skip
  | .agent addr l => if addr = a then .step l else .skip
  | .restarted addr => if addr = a then .restart else .skip

/-- What clients and router did. -/
def sysTrace (tr : List DeploymentTrans) : List (Lts.Trans Sys SysEvent) :=
  Lts.component Deployment.sys DeploymentEvent.sysPart tr

/-- What the process now behind `a` did. -/
def agentTrace (a : Addr) (tr : List DeploymentTrans) : AgentTrace :=
  Lts.component (fun s => s.agents a) (DeploymentEvent.agentPart a) tr

theorem DeploymentStep.sysPart (h : DeploymentStep sha256Hex cfg s e s') :
    Lts.StepsAs Deployment.sys DeploymentEvent.sysPart (SysStep cfg) .init s e s' := by
  cases h.kind with
  | sys hs => exact hs
  | deliver => rfl
  | reply _ hs => exact ⟨_, hs⟩
  | fail hs => exact ⟨_, hs⟩
  | agent => rfl
  | restart => rfl

/-- A step of the process behind `addr` is one of the process behind `a` if that is the address. -/
theorem stepsAs_of_setAgent {addr a : Addr} {l : AgentLabel} {ag : AgentSys}
    (h : AgentStep sha256Hex (s.agents addr) l ag)
    (hag : s'.agents = Function.update s.agents addr ag)
    (hpart : e.agentPart a = if addr = a then .step l else .skip) :
    Lts.StepsAs (fun s => s.agents a) (DeploymentEvent.agentPart a) (AgentStep sha256Hex) .init
      s e s' := by
  unfold Lts.StepsAs
  rw [hpart]
  by_cases haddr : addr = a
  · subst haddr
    simpa [hag] using h
  · simp [hag, haddr, Ne.symm haddr]

theorem DeploymentStep.agentPart (h : DeploymentStep sha256Hex cfg s e s') (a : Addr) :
    Lts.StepsAs (fun s => s.agents a) (DeploymentEvent.agentPart a) (AgentStep sha256Hex) .init
      s e s' := by
  cases h.kind with
  | sys => rfl
  | deliver _ _ hag => exact stepsAs_of_setAgent hag rfl rfl
  | reply _ _ hag => exact stepsAs_of_setAgent hag rfl rfl
  | fail => rfl
  | agent hag => exact stepsAs_of_setAgent hag rfl rfl
  | restart addr =>
    unfold Lts.StepsAs DeploymentEvent.agentPart Deployment.setAgent
    by_cases haddr : addr = a
    · subst haddr
      simp
    · simp [haddr, Ne.symm haddr]

theorem run_sysTrace {tr : List DeploymentTrans}
    (h : Lts.Run (DeploymentStep sha256Hex cfg) .init tr s) :
    Lts.Run (SysStep cfg) .init (sysTrace tr) s.sys :=
  h.component (fun _ _ _ hs => hs.sysPart) rfl

theorem run_agentTrace {tr : List DeploymentTrans}
    (h : Lts.Run (DeploymentStep sha256Hex cfg) .init tr s) (a : Addr) :
    Lts.Run (AgentStep sha256Hex) .init (agentTrace a tr) (s.agents a) :=
  h.component (fun _ _ _ hs => hs.agentPart a) rfl

/-! ## Calls and answers -/

/-- A response of the request's kind. -/
def Answers : AgentReq → AgentResp → Prop
  | .reset _, .reset _ | .step _, .step _ => True
  | _, _ => False

/-- The command of the handler returned what gRPC delivers of the agent's response. -/
def Delivers : AgentResp → RouterEvent → Prop
  | .reset res, ⟨.agentReset _ _, r⟩ => r = res.deliver
  | .step res, ⟨.agentStep _ _, r⟩ => r = res.deliver
  | _, _ => False

/-- A call ends with an answer of the kind of its request. -/
def kindProtocol (req : AgentReq) : Prog.Protocol AgentCmd AgentCmd.Ret Unit AgentResp where
  track _ _ := ()
  allows _ _ := True
  final _ resp := Answers req resp

theorem handle_meets_kind (req : AgentReq) :
    (Agent.Server.handle sha256Hex req).Meets (kindProtocol req) () := by
  have hall : ∀ {α : Type} (p : AgentProg α),
      p.Meets ((kindProtocol req).withFinal fun _ _ => True) () := fun p =>
    p.meets_of_forall (fun _ _ => trivial) (fun _ _ => trivial) _
  cases req with
  | reset req => exact Prog.Meets.bind (hall _) fun _ _ _ => trivial
  | step req => exact Prog.Meets.bind (hall _) fun _ _ _ => trivial

theorem call_origin {ag ag' : AgentSys} {l : AgentLabel} (h : AgentStep sha256Hex ag l ag')
    {id : Nat} {call' : InFlight} (hc : ag'.calls id = some call') :
    l = .call id call'.req ∨ ∃ call, ag.calls id = some call ∧ call.req = call'.req := by
  rcases h.cases with ⟨id', req, rfl, rfl⟩ | ⟨id', o, c, k, call, rfl, hcall, -, rfl⟩ |
    ⟨id', resp, call, rfl, -, -, rfl⟩ | ⟨owner, sk, rfl, rfl⟩
  · rcases AgentSys.calls_setCall hc with ⟨rfl, hnew⟩ | ⟨-, hold⟩
    · cases hnew
      exact .inl rfl
    · exact .inr ⟨call', hold, rfl⟩
  · rcases AgentSys.calls_setCall hc with ⟨rfl, hnew⟩ | ⟨-, hold⟩
    · cases hnew
      exact .inr ⟨call, hcall, rfl⟩
    · exact .inr ⟨call', hold, rfl⟩
  · rcases AgentSys.calls_setCall hc with ⟨-, hnone⟩ | ⟨-, hold⟩
    · cases hnone
    · exact .inr ⟨call', hold, rfl⟩
  · exact .inr ⟨call', hc, rfl⟩

/-- What every call in flight still has to do meets the protocol of its request. -/
def CallsMeet {μ : Type} (P : AgentReq → Prog.Protocol AgentCmd AgentCmd.Ret μ AgentResp)
    (ag : AgentSys) : Prop :=
  ∀ id call, ag.calls id = some call → ∃ m, call.prog.Meets (P call.req) m

section CallsMeet

variable {μ : Type} {P : AgentReq → Prog.Protocol AgentCmd AgentCmd.Ret μ AgentResp}

theorem callsMeet_init : CallsMeet P .init := by
  intro id call h
  cases h

theorem CallsMeet.step {m : μ} (hm : ∀ req, (Agent.Server.handle sha256Hex req).Meets (P req) m)
    {ag ag' : AgentSys} {l : AgentLabel} (hi : CallsMeet P ag)
    (h : AgentStep sha256Hex ag l ag') : CallsMeet P ag' := by
  intro id' call' hc
  rcases h.cases with ⟨id, req, rfl, rfl⟩ | ⟨id, o, c, k, call, rfl, hcall, hop, rfl⟩ |
    ⟨id, resp, call, rfl, -, -, rfl⟩ | ⟨owner, sk, rfl, rfl⟩
  · rcases AgentSys.calls_setCall hc with ⟨-, hnew⟩ | ⟨-, hold⟩
    · cases hnew
      exact ⟨m, hm req⟩
    · exact hi id' call' hold
  · rcases AgentSys.calls_setCall hc with ⟨-, hnew⟩ | ⟨-, hold⟩
    · cases hnew
      obtain ⟨m', hmeets⟩ := hi id call hcall
      rw [hop] at hmeets
      exact ⟨_, hmeets.2 _⟩
    · exact hi id' call' hold
  · rcases AgentSys.calls_setCall hc with ⟨-, hnone⟩ | ⟨-, hold⟩
    · cases hnone
    · exact hi id' call' hold
  · exact hi id' call' hc

end CallsMeet

/-- A handler keeps the call it makes until it goes on. -/
theorem RouterStep.calling {r r' : RouterState} {se : SysEvent} (h : RouterStep r se r')
    {id : HandlerId} {x : Addr × AgentReq} (hc : r.calling id = some x)
    (hh : se.handler ≠ some id) : r'.calling id = some x := by
  have hset : ∀ (pool : Pool) {id' : HandlerId} {hd : Option Handler}, id' ≠ id →
      (RouterState.setHandler { r with pool } id' hd).calling id = r.calling id := by
    intro pool id' hd hne
    unfold RouterState.calling
    rw [RouterState.handlers_setHandler, if_neg (Ne.symm hne)]
  cases h with
  | stay => exact hc
  | @accept id' a rpc hnone =>
    refine (hset r.pool ?_).trans hc
    rintro rfl
    unfold RouterState.calling at hc
    rw [hnone] at hc
    cases hc
  | exec o => exact (hset _ fun he => hh (congrArg some he)).trans hc
  | answer => exact (hset r.pool fun he => hh (congrArg some he)).trans hc
  | background => exact hc

/-- A handler that waits is at the call, and what is in flight at the agent is this call. -/
structure CallInv (s : Deployment) : Prop where
  kind : ∀ a, CallsMeet kindProtocol (s.agents a)
  waits : ∀ id addr, s.waiting id = some addr → ∃ req,
    s.sys.router.calling id = some (addr, req) ∧
    ∀ call, (s.agents addr).calls id = some call → call.req = req

theorem callInv_init : CallInv .init where
  kind _ := callsMeet_init
  waits _ _ h := by cases h

theorem CallInv.step (hi : CallInv s) (h : DeploymentStep sha256Hex cfg s e s') :
    CallInv s' := by
  have hkind : ∀ {addr ag}, CallsMeet kindProtocol ag →
      ∀ a, CallsMeet kindProtocol (Function.update s.agents addr ag a) := by
    intro addr ag hag a
    by_cases ha : a = addr
    · subst ha
      rwa [Function.update_self]
    · rw [Function.update_of_ne ha]
      exact hi.kind a
  -- a handler that goes on does not wait any more
  have hgone : ∀ {sys se id} {o : Choice},
      s.sys.step cfg (.exec id o) = some (se, sys) → ∀ id' addr,
      Function.update s.waiting id none id' = some addr →
      id' ≠ id ∧ ∃ req, sys.router.calling id' = some (addr, req) ∧
        ∀ call, (s.agents addr).calls id' = some call → call.req = req := by
    intro sys se id o hs id' addr hw
    have hne : id' ≠ id := by
      rintro rfl
      rw [Function.update_self] at hw
      cases hw
    rw [Function.update_of_ne hne] at hw
    obtain ⟨req, hcalling, hreq⟩ := hi.waits id' addr hw
    obtain ⟨_, _, _, c, k, -, rfl⟩ := Sys.step_exec hs
    exact ⟨hne, req, (Sys.step_router hs).calling hcalling fun he => hne (Option.some.inj he).symm,
      hreq⟩
  -- a step of an agent that does not start the call leaves its request what it is
  have hreq : ∀ {addr ag l id}, AgentStep sha256Hex (s.agents addr) l ag →
      (∀ req, l ≠ .call id req) → ∀ addr' call,
      (Function.update s.agents addr ag addr').calls id = some call →
      ∃ call', (s.agents addr').calls id = some call' ∧ call'.req = call.req := by
    intro addr ag l id hag hl addr' call hc
    by_cases haddr : addr' = addr
    · subst haddr
      rw [Function.update_self] at hc
      exact (call_origin hag hc).resolve_left (hl _)
    · rw [Function.update_of_ne haddr] at hc
      exact ⟨call, hc, rfl⟩
  cases h.kind with
  | @sys se sys hs hh =>
    refine ⟨hi.kind, fun id addr hw => ?_⟩
    obtain ⟨req, hcalling, hreq⟩ := hi.waits id addr hw
    obtain ⟨act, hs⟩ := hs
    refine ⟨req, (Sys.step_router hs).calling hcalling fun he => ?_, hreq⟩
    rw [hh id he] at hcalling
    cases hcalling
  | @deliver id addr req ag hcall hwait hag =>
    refine ⟨hkind ((hi.kind addr).step handle_meets_kind hag), fun id' addr' hw => ?_⟩
    change Function.update s.waiting id (some addr) id' = some addr' at hw
    by_cases hid : id' = id
    · subst hid
      rw [Function.update_self] at hw
      obtain rfl := Option.some.inj hw
      refine ⟨req, hcall, fun call hc => ?_⟩
      change (Function.update s.agents addr ag addr).calls id' = some call at hc
      rw [Function.update_self] at hc
      rcases hag.cases with ⟨id, req', hl, rfl⟩ | ⟨_, _, _, _, _, hl, -⟩ | ⟨_, _, _, hl, -⟩ |
        ⟨_, _, hl, -⟩ <;> cases hl
      rcases AgentSys.calls_setCall hc with ⟨-, hnew⟩ | ⟨hne, -⟩
      · cases hnew
        rfl
      · exact absurd rfl hne
    · rw [Function.update_of_ne hid] at hw
      obtain ⟨req', hcalling, hold⟩ := hi.waits id' addr' hw
      refine ⟨req', hcalling, fun call hc => ?_⟩
      obtain ⟨call', hc', heq⟩ := hreq hag (fun r hl => hid (by cases hl; rfl)) addr' call hc
      exact heq ▸ hold call' hc'
  | @reply id addr resp o se sys ag hwait hs hag =>
    refine ⟨hkind ((hi.kind addr).step handle_meets_kind hag), fun id' addr' hw => ?_⟩
    obtain ⟨hne, req, hcalling, hold⟩ := hgone hs id' addr' hw
    refine ⟨req, hcalling, fun call hc => ?_⟩
    obtain ⟨call', hc', heq⟩ := hreq hag (fun r hl => by cases hl) addr' call hc
    exact heq ▸ hold call' hc'
  | fail hs =>
    refine ⟨hi.kind, fun id' addr' hw => ?_⟩
    exact (hgone hs id' addr' hw).2
  | @agent addr l ag hag hcall =>
    refine ⟨hkind ((hi.kind addr).step handle_meets_kind hag), fun id' addr' hw => ?_⟩
    obtain ⟨req, hcalling, hold⟩ := hi.waits id' addr' hw
    refine ⟨req, hcalling, fun call hc => ?_⟩
    obtain ⟨call', hc', heq⟩ := hreq hag (hcall id') addr' call hc
    exact heq ▸ hold call' hc'
  | restart addr =>
    refine ⟨hkind callsMeet_init, fun id' addr' hw => ?_⟩
    obtain ⟨req, hcalling, hold⟩ := hi.waits id' addr' hw
    refine ⟨req, hcalling, fun call hc => ?_⟩
    change (Function.update s.agents addr .init addr').calls id' = some call at hc
    by_cases haddr : addr' = addr
    · subst haddr
      rw [Function.update_self] at hc
      cases hc
    · rw [Function.update_of_ne haddr] at hc
      exact hold call hc

/-- An answer of an agent belongs to the call that its handler makes. -/
theorem CallInv.answers (hi : CallInv s) {id : HandlerId} {addr : Addr} {resp : AgentResp}
    {se : SysEvent} (h : DeploymentStep sha256Hex cfg s (.replied id addr resp se) s') :
    ∃ call a ev, (s.agents addr).calls id = some call ∧ call.prog = .ret resp ∧
      se = .exec id a ev ∧ agentCall ev.1 = some (addr, call.req) ∧ Delivers resp ev := by
  cases h.kind with
  | reply hwait hs hag =>
    obtain ⟨req, hcalling, hreq⟩ := hi.waits id addr hwait
    rcases hag.cases with ⟨_, _, hl, -⟩ | ⟨_, _, _, _, _, hl, -⟩ |
      ⟨_, _, call, hl, hcall, hret, -⟩ | ⟨_, _, hl, -⟩ <;> cases hl
    obtain rfl := hreq call hcall
    have hkind : Answers call.req resp := by
      obtain ⟨_, hmeets⟩ := hi.kind addr id call hcall
      rw [hret] at hmeets
      exact hmeets
    obtain ⟨client, _, _, c, k, hh, rfl⟩ := Sys.step_exec hs
    have hc : agentCall c = some (addr, call.req) := by
      unfold RouterState.calling at hcalling
      rwa [hh] at hcalling
    refine ⟨call, client, _, hcall, hret, rfl, hc, ?_⟩
    cases c with
    | pool c => cases hc
    | agentReset agent req =>
      obtain ⟨-, hreq'⟩ := Prod.mk.inj (Option.some.inj hc)
      rw [← hreq'] at hkind
      cases resp with
      | reset res => rfl
      | step res => exact hkind.elim
    | agentStep agent req =>
      obtain ⟨-, hreq'⟩ := Prod.mk.inj (Option.some.inj hc)
      rw [← hreq'] at hkind
      cases resp with
      | reset res => exact hkind.elim
      | step res => rfl

/-- **The deployment refines its parts.** In every run clients and router make a run of their own,
and so does each agent process; and when an agent answers a handler, the answer is the agent's
response to the very request that this handler makes there, as gRPC delivers it. -/
theorem deployment_refines {tr : List DeploymentTrans}
    (h : Lts.Run (DeploymentStep sha256Hex cfg) .init tr s) :
    Lts.Run (SysStep cfg) .init (sysTrace tr) s.sys ∧
    (∀ a, Lts.Run (AgentStep sha256Hex) .init (agentTrace a tr) (s.agents a)) ∧
    ∀ x ∈ tr, ∀ id addr resp e, x.lab = .replied id addr resp e →
      ∃ call a ev, (x.src.agents addr).calls id = some call ∧ call.prog = .ret resp ∧
        e = .exec id a ev ∧ agentCall ev.1 = some (addr, call.req) ∧ Delivers resp ev := by
  refine ⟨run_sysTrace h, run_agentTrace h, ?_⟩
  intro x hx id addr resp e hlab
  have hi := (h.invariant_mem (I := CallInv) (fun _ _ _ hi hs => hi.step hs) callInv_init x hx).1
  exact hi.answers (hlab ▸ h.step_of_mem x hx)

/-- Client 0 leases the agent, whose baseline run connects, and makes a step with a larger initial
window, up to the connection of its run. -/
def episodeActions : List DeploymentAction :=
  [.sys addLoneAgent, .sys (.invoke 0 .reset), .sys (.send 0 0), .sys (.exec 0 answering),
   .sys (.exec 0 answering), .deliver 0, .agent loneAgent (.command 0 {}),
   .agent loneAgent (.command 0 {}), .agent loneAgent (.command 0 {}),
   .agent loneAgent (.command 0 { start := .ok 4242 }),
   .agent loneAgent (.sock (some 0) (googleEvent .tcpConnectCb)),
   .agent loneAgent (.command 0 {}), .agent loneAgent (.command 0 {}),
   .reply 0 { order := [loneAgent] }, .sys (.answer 0 true), .sys (.finish 0),
   .sys (.invoke 0 (.step { initCwnd := 20 })), .sys (.send 0 1), .sys (.exec 1 answering),
   .sys (.exec 1 answering), .deliver 1, .agent loneAgent (.command 1 {}),
   .agent loneAgent (.command 1 {}), .agent loneAgent (.command 1 {}),
   .agent loneAgent (.command 1 { start := .ok 4243 }),
   .agent loneAgent (.sock (some 1) (googleEvent .activeEstablishedCb))]

/-- The run of these actions. -/
def episodeRun : List DeploymentTrans × Deployment :=
  Lts.played (Deployment.step sha256Google .default) .init episodeActions

theorem run_episodeRun :
    Lts.Run (DeploymentStep sha256Google .default) .init episodeRun.1 episodeRun.2 :=
  Lts.run_played (by decide +kernel)

theorem deployment_refines_episode :
    ∃ x ∈ episodeRun.1, ∃ resp e, x.lab = .replied 0 loneAgent resp e ∧
      ∃ call a ev, (x.src.agents loneAgent).calls 0 = some call ∧ call.prog = .ret resp ∧
        e = .exec 0 a ev ∧ agentCall ev.1 = some (loneAgent, call.req) ∧ Delivers resp ev := by
  have hlt : 13 < episodeRun.1.length := by decide +kernel
  obtain ⟨-, -, h⟩ := deployment_refines run_episodeRun
  exact ⟨episodeRun.1[13], List.getElem_mem _, _, _, rfl, h _ (List.getElem_mem _) _ _ _ _ rfl⟩

end SocketTuner.System
