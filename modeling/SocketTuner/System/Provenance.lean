import SocketTuner.Agent.Actions
import SocketTuner.System.Deployment

/-!
# What clients cause on the agents

Followed through the whole deployment, from the method call of a client over the router's handlers
to the agent processes:

* `deployment_runs_tasks`: every process an agent starts is the command of a task that a client has
  asked for.
* `deployment_tunes_sessions`: every socket option an agent sets is asked for by a `Step` that a
  client has sent for a session of this very agent, with the remote address of the socket as target.

Nothing else has an effect on a host, however calls overlap, messages are lost and agents restart.
-/

namespace SocketTuner.System

open Env Router Agent GoMap

variable {sha256Hex : String → String} {cfg : EnvConfig}

/-! ## What clients ask for -/

/-- The requests the methods of an environment make. -/
def Asks : Rpc → Prop
  | .reset req => ∃ task ∈ TASKS, req = ⟨task.command⟩
  | .step req => ∃ env : SocketTunerEnvironment, ∃ action, env.stepRequest action = .ok req
  | .close _ => True

/-- Clients send nothing else. -/
def clientProtocol (α : Type) : Prog.Protocol Rpc Rpc.Ret Unit α where
  track _ _ := ()
  allows _ rpc := Asks rpc
  final _ _ := True

theorem resetAttempts_meets {command : String} (hc : Asks (.reset ⟨command⟩)) (left : Nat) :
    (SocketTunerEnvironment.resetAttempts command left).Meets (clientProtocol _) () := by
  induction left with
  | zero => trivial
  | succ left ih =>
    refine ⟨hc, fun r => ?_⟩
    cases r with
    | ok response =>
      change Prog.Meets _ (if response.success = true then _ else _) _
      split
      · trivial
      · split
        · exact ih
        · trivial
    | error e =>
      change Prog.Meets _ (if 0 < left then _ else _) _
      split
      · exact ih
      · trivial

theorem reset_meets (env : SocketTunerEnvironment) : env.reset.Meets (clientProtocol _) () := by
  simp only [SocketTunerEnvironment.reset]
  have htask : Asks (.reset ⟨(currentTask env.resetCount).command⟩) :=
    ⟨currentTask env.resetCount, List.get_mem _ _, rfl⟩
  split
  · trivial
  · exact Prog.Meets.bind (resetAttempts_meets htask 3) fun _ r _ => by cases r <;> trivial

theorem scoreStep_meets (env : SocketTunerEnvironment) (response : StepResponse) :
    (env.scoreStep cfg response).Meets (clientProtocol _) () := by
  simp only [SocketTunerEnvironment.scoreStep]
  split
  · exact ⟨trivial, fun _ => trivial⟩
  · trivial

theorem step_meets (action : UISocketTunerAction) (env : SocketTunerEnvironment) :
    (env.step cfg action).Meets (clientProtocol _) () := by
  simp only [SocketTunerEnvironment.step]
  split
  · trivial
  · next req hreq =>
    split
    · trivial
    · refine ⟨⟨_, action, hreq⟩, fun r => ?_⟩
      cases r with
      | error e => trivial
      | ok response =>
        change Prog.Meets _ (SocketTunerEnvironment.scoreStep cfg _ response >>= _) _
        exact Prog.Meets.bind (scoreStep_meets _ response) fun _ _ _ => trivial

theorem close_meets (env : SocketTunerEnvironment) : env.close.Meets (clientProtocol _) () := by
  simp only [SocketTunerEnvironment.close]
  split
  · trivial
  · split
    · trivial
    · exact ⟨trivial, fun _ => trivial⟩

theorem perform_meets (env : SocketTunerEnvironment) (call : Call) :
    (perform cfg env call).Meets (clientProtocol _) () := by
  cases call with
  | reset => exact Prog.Meets.bind (reset_meets env) fun _ _ _ => trivial
  | step action => exact Prog.Meets.bind (step_meets action env) fun _ _ _ => trivial
  | close => exact Prog.Meets.bind (close_meets env) fun _ _ _ => trivial

/-! ## The clients' side of a step -/

theorem Client.resume_cases (c : Client) (h : HandlerId) (rpc : Rpc) (res : Handled rpc.Resp) :
    c.resume h rpc res = c ∨
      ∃ k, c = .waiting h rpc k ∧ c.resume h rpc res = .running (k res.deliver) := by
  cases c with
  | idle env => exact .inl rfl
  | running prog => exact .inl rfl
  | waiting h' rpc' k =>
    by_cases he : h' = h ∧ rpc = rpc'
    · obtain ⟨rfl, rfl⟩ := he
      exact .inr ⟨k, rfl, by simp [Client.resume]⟩
    · exact .inl (by simp [Client.resume, he])

/-- What a step of the system does to the clients. -/
inductive ClientStep (cfg : EnvConfig) :
    (ClientId → Client) → SysEvent → (ClientId → Client) → Prop
  | stay {cs : ClientId → Client} {e : SysEvent} (he : ∀ a rpc, e ≠ .sent a rpc)
      (he' : ∀ a result, e ≠ .returned a result) : ClientStep cfg cs e cs
  | invoke {cs : ClientId → Client} {a : ClientId} {env : SocketTunerEnvironment}
      (hc : cs a = .idle env) (call : Call) :
      ClientStep cfg cs (.invoked a call)
        (Function.update cs a (.running (perform cfg env call)))
  | send {cs : ClientId → Client} {a : ClientId} {rpc : Rpc} {k : rpc.Ret → CallProg}
      (hc : cs a = .running (.op rpc k)) (h : HandlerId) :
      ClientStep cfg cs (.sent a rpc) (Function.update cs a (.waiting h rpc k))
  | lose {cs : ClientId → Client} {a : ClientId} {rpc : Rpc} {k : rpc.Ret → CallProg}
      (hc : cs a = .running (.op rpc k)) (err : String) :
      ClientStep cfg cs (.sent a rpc)
        (Function.update cs a (.running (k (.error err : Except String rpc.Resp))))
  | resume {cs : ClientId → Client} {a : ClientId} {h : HandlerId} {rpc : Rpc}
      {k : rpc.Ret → CallProg} (hc : cs a = .waiting h rpc k) (res : Handled rpc.Resp) :
      ClientStep cfg cs (.answered h a rpc res)
        (Function.update cs a (.running (k res.deliver)))
  | fail {cs : ClientId → Client} {a : ClientId} {h : HandlerId} {rpc : Rpc}
      {k : rpc.Ret → CallProg} (hc : cs a = .waiting h rpc k) (err : String) :
      ClientStep cfg cs (.failed a)
        (Function.update cs a (.running (k (.error err : Except String rpc.Resp))))
  | finish {cs : ClientId → Client} {a : ClientId} {result : CallResult}
      {env : SocketTunerEnvironment} (hc : cs a = .running (.ret (result, env))) :
      ClientStep cfg cs (.returned a result) (Function.update cs a (.idle env))

theorem Sys.step_clients {s s' : Sys} {act : Action} {e : SysEvent}
    (h : s.step cfg act = some (e, s')) : ClientStep cfg s.clients e s'.clients := by
  cases act with
  | invoke a call =>
    simp only [Sys.step] at h
    split at h
    · next hc => cases h; exact .invoke hc call
    · cases h
  | send a id =>
    simp only [Sys.step] at h
    split at h
    · next hc _ => cases h; exact .send hc id
    · cases h
  | lose a err =>
    simp only [Sys.step] at h
    split at h
    · next hc => cases h; exact .lose hc err
    · cases h
  | exec id o =>
    simp only [Sys.step] at h
    split at h
    · split at h <;> cases h
      exact .stay (fun _ _ he => by cases he) fun _ _ he => by cases he
    · cases h
  | answer id arrives =>
    simp only [Sys.step] at h
    split at h
    · next client rpc log res hh =>
      have hstay : ClientStep cfg s.clients (.answered id client rpc res) s.clients :=
        .stay (fun _ _ he => by cases he) fun _ _ he => by cases he
      cases arrives with
      | false => cases h; exact hstay
      | true =>
        cases h
        change ClientStep cfg s.clients _
          (Function.update s.clients client ((s.clients client).resume id rpc res))
        rcases (s.clients client).resume_cases id rpc res with hr | ⟨k, hc, hr⟩
        · rw [hr, Function.update_eq_self]
          exact hstay
        · rw [hr]
          exact .resume hc res
    · cases h
  | fail a err =>
    simp only [Sys.step] at h
    split at h
    · next hc => cases h; exact .fail hc err
    · cases h
  | finish a =>
    simp only [Sys.step] at h
    split at h
    · next hc => cases h; exact .finish hc
    · cases h
  | background c o =>
    simp only [Sys.step] at h
    split at h <;> cases h
    exact .stay (fun _ _ he => by cases he) fun _ _ he => by cases he

/-- What a client still has to do only asks for what its methods do. -/
def Client.Meets : Client → Prop
  | .idle _ => True
  | .running prog => prog.Meets (clientProtocol _) ()
  | .waiting _ _ k => ∀ r, (k r).Meets (clientProtocol _) ()

/-- Clients keep to their methods in a step, and so does what they send in it. -/
theorem ClientStep.meets {cs cs' : ClientId → Client} {e : SysEvent}
    (h : ClientStep cfg cs e cs') (hi : ∀ a, (cs a).Meets) :
    (∀ a, (cs' a).Meets) ∧ ∀ a rpc, e = .sent a rpc → Asks rpc := by
  have hset : ∀ {a c}, Client.Meets c → ∀ b, (Function.update cs a c b).Meets := by
    intro a c hc b
    by_cases hb : b = a
    · subst hb
      rwa [Function.update_self]
    · rw [Function.update_of_ne hb]
      exact hi b
  cases h with
  | stay he => exact ⟨hi, fun a rpc h => absurd h (he a rpc)⟩
  | invoke _ call => exact ⟨hset (perform_meets _ call), fun _ _ h => by cases h⟩
  | @send a rpc k hc id =>
    have hmeets := hi a
    rw [hc] at hmeets
    exact ⟨hset hmeets.2, fun _ _ h => by cases h; exact hmeets.1⟩
  | @lose a rpc k hc err =>
    have hmeets := hi a
    rw [hc] at hmeets
    exact ⟨hset (hmeets.2 _), fun _ _ h => by cases h; exact hmeets.1⟩
  | @resume a _ _ _ hc res =>
    have hmeets := hi a
    rw [hc] at hmeets
    exact ⟨hset (hmeets res.deliver), fun _ _ h => by cases h⟩
  | @fail a _ _ _ hc err =>
    have hmeets := hi a
    rw [hc] at hmeets
    exact ⟨hset (hmeets _), fun _ _ h => by cases h⟩
  | @finish a result env hc => exact ⟨hset (c := .idle env) trivial, fun _ _ h => by cases h⟩

/-! ## What reaches the agents -/

/-- The steps of a run, oldest first. -/
abbrev SysTrace := List (Lts.Trans Sys SysEvent)

/-- Clients only ask for what their methods do, and each handler has its request from one. -/
structure SentInv (pre : SysTrace) (s : Sys) : Prop where
  clients : ∀ a, (s.clients a).Meets
  sent : ∀ y ∈ pre, ∀ a rpc, y.lab = .sent a rpc → Asks rpc
  handler : ∀ h hd, s.router.handlers h = some hd → ∃ y ∈ pre, y.lab = .sent hd.client hd.rpc

theorem sentInv_init : SentInv [] .init where
  clients _ := trivial
  sent _ h := by cases h
  handler _ _ h := by cases h

theorem SentInv.step {pre : SysTrace} {x : Lts.Trans Sys SysEvent} (hi : SentInv pre x.src)
    (h : SysStep cfg x.src x.lab x.dst) : SentInv (pre ++ [x]) x.dst := by
  obtain ⟨act, h⟩ := h
  obtain ⟨hclients, hsent⟩ := (Sys.step_clients h).meets hi.clients
  refine ⟨hclients, fun y hy a rpc hlab => ?_, fun id hd hh => ?_⟩
  · rcases List.mem_append.1 hy with hy | hy
    · exact hi.sent y hy a rpc hlab
    · obtain rfl := List.mem_singleton.1 hy
      exact hsent a rpc hlab
  · have hold : ∀ hd, x.src.router.handlers id = some hd →
        ∃ y ∈ pre ++ [x], y.lab = .sent hd.client hd.rpc := fun hd hh => by
      obtain ⟨y, hy, hlab⟩ := hi.handler id hd hh
      exact ⟨y, List.mem_append_left _ hy, hlab⟩
    rcases (Sys.step_router h).handler hh with ⟨hh', -⟩ | ⟨a, rpc, he, rfl⟩ |
      ⟨hd₀, c, k, res, hh', -, -, rfl⟩
    · exact hold hd hh'
    · exact ⟨x, by simp, he⟩
    · exact hold hd₀ hh'

/-- A handler calls agents with its own request only. -/
def forwardProtocol (rpc : Rpc) (α : Type) : Prog.Protocol RouterCmd RouterCmd.Ret Unit α where
  track _ _ := ()
  allows _
    | .agentReset _ req => rpc = .reset req
    | .agentStep _ req => rpc = .step req
    | .pool _ => True
  final _ _ := True

theorem handle_meets_forward (rpc : Rpc) : (handle rpc).Meets (forwardProtocol rpc _) () := by
  cases rpc with
  | reset req =>
    refine ⟨trivial, fun r => ?_⟩
    cases r with
    | error err => trivial
    | ok agent =>
      refine ⟨trivial, fun _ => ⟨rfl, fun r => ?_⟩⟩
      cases r with
      | error err => exact ⟨trivial, fun _ => trivial⟩
      | ok resp => trivial
  | step req =>
    change (Router.Server.step req).Meets _ _
    unfold Router.Server.step
    split
    · trivial
    · refine ⟨trivial, fun r => ?_⟩
      cases r with
      | error err => trivial
      | ok agent =>
        refine ⟨trivial, fun _ => ⟨rfl, fun r => ?_⟩⟩
        cases r with
        | error err => trivial
        | ok resp =>
          change Prog.Meets _ (if resp.done = true then _ else _) _
          split
          · exact ⟨trivial, fun _ => trivial⟩
          · trivial
  | close req =>
    change (Router.Server.close req).Meets _ _
    unfold Router.Server.close
    split
    · trivial
    · exact ⟨trivial, fun _ => trivial⟩

/-- A request a client sent, for the agent's address if it is a `Step`. -/
def SentTo (addr : Addr) (pre : List DeploymentTrans) : AgentReq → Prop
  | .reset req => Asks (.reset req) ∧ ∃ a, ∃ y ∈ pre, y.lab = .sys (.sent a (.reset req))
  | .step req => Asks (.step req) ∧ req.sessionId = addr ∧
      ∃ a, ∃ y ∈ pre, y.lab = .sys (.sent a (.step req))

theorem SentTo.append {addr : Addr} {pre : List DeploymentTrans} {req : AgentReq}
    (h : SentTo addr pre req) (post : List DeploymentTrans) : SentTo addr (pre ++ post) req := by
  cases req with
  | reset req =>
    obtain ⟨hask, a, y, hy, hlab⟩ := h
    exact ⟨hask, a, y, List.mem_append_left _ hy, hlab⟩
  | step req =>
    obtain ⟨hask, hs, a, y, hy, hlab⟩ := h
    exact ⟨hask, hs, a, y, List.mem_append_left _ hy, hlab⟩

variable {s s' : Deployment} {tr : List DeploymentTrans} {addr : Addr}

/-- An answer of an agent makes its handler go on, and nothing else. -/
theorem DeploymentStep.eq_sys {e : DeploymentEvent} (h : DeploymentStep sha256Hex cfg s e s')
    {se : SysEvent} (he : e.sysPart = .step se) (hne : ∀ id a ev, se ≠ .exec id a ev) :
    e = .sys se := by
  cases h.kind with
  | sys | fail => exact congrArg DeploymentEvent.sys (Lts.Part.step.inj he)
  | reply hwait hs hag =>
    obtain ⟨_, _, _, _, _, -, rfl⟩ := Sys.step_exec hs
    exact absurd (Lts.Part.step.inj he).symm (hne _ _ _)
  | deliver | agent | restart => cases he

theorem exists_sent (h : Lts.Run (DeploymentStep sha256Hex cfg) .init tr s) {a : ClientId}
    {rpc : Rpc} (hs : ∃ y ∈ sysTrace tr, y.lab = .sent a rpc) :
    ∃ y ∈ tr, y.lab = .sys (.sent a rpc) := by
  obtain ⟨y, hy, hlab⟩ := hs
  obtain ⟨z, hz, hpart⟩ := Lts.exists_of_mem_component hy
  exact ⟨z, hz, (h.step_of_mem z hz).eq_sys (hlab ▸ hpart) fun _ _ _ he => by cases he⟩

theorem DeploymentStep.delivered {id : HandlerId} {req : AgentReq}
    (h : DeploymentStep sha256Hex cfg s (.delivered id addr req) s') :
    s.sys.router.calling id = some (addr, req) := by
  cases h.kind with
  | deliver hcall => exact hcall

/-- Every call that is delivered to an agent comes from a client. -/
theorem delivered_sent {pre post : List DeploymentTrans} {x : DeploymentTrans}
    (h : Lts.Run (DeploymentStep sha256Hex cfg) .init (pre ++ x :: post) s) {id : HandlerId}
    {req : AgentReq} (hlab : x.lab = .delivered id addr req) : SentTo addr pre req := by
  obtain ⟨_, hpre, hrest⟩ := h.split
  obtain ⟨rfl, hstep, -⟩ := hrest.head
  rw [hlab] at hstep
  have hsent : SentInv (sysTrace pre) x.src.sys :=
    (run_sysTrace hpre).history (P := fun _ _ => True) (fun _ _ hi hs _ => hi.step hs)
      (fun _ _ _ _ => trivial) sentInv_init
  have hrouter : RouterInv x.src.sys.router :=
    (run_sysTrace hpre).invariant (I := fun s => RouterInv s.router)
      (fun _ _ _ hi hs => hi.step (Sys.step_router hs.choose_spec)) routerInv_init
  have hcalling := hstep.delivered
  unfold RouterState.calling at hcalling
  split at hcalling
  · next client rpc log c k hh =>
    have hafter := hrouter.after id _ hh
    have hmeets := (handle_meets_forward rpc).after hafter
    obtain ⟨y, hy, hy'⟩ := hsent.handler id _ hh
    have hask := hsent.sent y hy client rpc hy'
    have hsys : ∃ y ∈ pre, y.lab = .sys (.sent client rpc) := exists_sent hpre ⟨y, hy, hy'⟩
    cases c with
    | pool c => cases hcalling
    | agentReset ac req =>
      cases hcalling
      have hrpc : rpc = .reset req := hmeets.1
      rw [hrpc] at hask hsys
      exact ⟨hask, client, hsys⟩
    | agentStep ac req =>
      cases hcalling
      have hrpc : rpc = .step req := hmeets.1
      rw [hrpc] at hask hsys
      obtain ⟨-, -, hfound, -⟩ := handle_forward hafter
      exact ⟨hask, (hrouter.found id _ _ ac hh hfound).symm, client, hsys⟩
  · cases hcalling

/-- A call starts at an agent when it is delivered. -/
theorem DeploymentStep.called {e : DeploymentEvent} (h : DeploymentStep sha256Hex cfg s e s')
    {id : Nat} {req : AgentReq} (he : e.agentPart addr = .step (.call id req)) :
    e = .delivered id addr req := by
  cases h.kind with
  | sys | fail => cases he
  | @deliver id' addr' req' =>
    change (if addr' = addr then Lts.Part.step (AgentLabel.call id' req') else .skip) = _ at he
    split at he
    · next haddr =>
      subst haddr
      cases he
      rfl
    · cases he
  | @reply id' addr' resp =>
    change (if addr' = addr then Lts.Part.step (AgentLabel.answer id' resp) else .skip) = _ at he
    split at he <;> cases he
  | @agent addr' l ag hag hcall =>
    change (if addr' = addr then Lts.Part.step l else .skip) = _ at he
    split at he
    · exact absurd (Lts.Part.step.inj he) (hcall id req)
    · cases he
  | restart addr' =>
    change (if addr' = addr then Lts.Part.restart else .skip) = _ at he
    split at he <;> cases he

theorem called_sent (h : Lts.Run (DeploymentStep sha256Hex cfg) .init tr s) {id : Nat}
    {req : AgentReq} (hc : ∃ y ∈ agentTrace addr tr, y.lab = .call id req) :
    SentTo addr tr req := by
  obtain ⟨y, hy, hlab⟩ := hc
  obtain ⟨z, hz, hpart⟩ := Lts.exists_of_mem_component hy
  obtain ⟨pre, post, rfl⟩ := List.append_of_mem hz
  exact (delivered_sent h ((h.step_of_mem z hz).called (hlab ▸ hpart))).append _

/-! ## Processes -/

/-- A process is started with the fields of a command a call of the agent submitted. -/
theorem start_authorized {pre : AgentTrace} {ag ag' : AgentSys}
    (hi : AuthorizedInv sha256Hex pre ag) {id : Nat} {argv : List String}
    {r : (AgentCmd.start argv).Ret}
    (h : AgentStep sha256Hex ag (.command id ⟨.start argv, r⟩) ag') :
    ∃ cmd, Authorized sha256Hex pre cmd ∧ argv = Executor.fields cmd := by
  rcases h.cases with ⟨_, _, hl, -⟩ | ⟨_, o, c, k, call, hl, hcall, hop, -⟩ | ⟨_, _, _, hl, -⟩ |
    ⟨_, _, hl, -⟩ <;> cases hl
  obtain ⟨v, hv, hread⟩ := hi.reads hcall
  rw [hop] at hv
  obtain ⟨cmd, hcmd, hargv, hne⟩ := hv.1
  rcases hread cmd hcmd with rfl | ha
  · exact absurd hargv hne
  · exact ⟨cmd, ha, hargv⟩

theorem DeploymentStep.agent {l : AgentLabel}
    (h : DeploymentStep sha256Hex cfg s (.agent addr l) s') :
    ∃ ag, AgentStep sha256Hex (s.agents addr) l ag := by
  cases h.kind with
  | agent hag => exact ⟨_, hag⟩

/-- **Agents run what clients ask for.** Over every run of the deployment, each process an agent
starts is the command of a task, which is on the agent's list of commands and which a client has
asked for in a `Reset`. -/
theorem deployment_runs_tasks {pre post : List DeploymentTrans} {x : DeploymentTrans}
    (h : Lts.Run (DeploymentStep sha256Hex cfg) .init (pre ++ x :: post) s) {id : Nat}
    {argv : List String} {r : (AgentCmd.start argv).Ret}
    (hlab : x.lab = .agent addr (.command id ⟨.start argv, r⟩)) :
    ∃ task ∈ TASKS, argv = Executor.fields task.command ∧
      sha256Hex task.command ∈ Executor.allowedHashes ∧
      ∃ a, ∃ y ∈ pre, y.lab = .sys (.sent a (.reset ⟨task.command⟩)) := by
  obtain ⟨_, hpre, hrest⟩ := h.split
  obtain ⟨rfl, hstep, -⟩ := hrest.head
  rw [hlab] at hstep
  obtain ⟨ag, hag⟩ := hstep.agent
  have hi : AuthorizedInv sha256Hex (agentTrace addr pre) (x.src.agents addr) :=
    (run_agentTrace hpre addr).history (P := fun _ _ => True) (fun _ _ hi hs _ => hi.step hs)
      (fun _ _ _ _ => trivial) authorizedInv_init
  obtain ⟨cmd, ⟨hallowed, y, hy, id', hcall⟩, rfl⟩ := start_authorized hi hag
  obtain ⟨⟨task, htask, heq⟩, a, z, hz, hsent⟩ := called_sent hpre ⟨y, hy, hcall⟩
  cases heq
  exact ⟨task, htask, rfl, hallowed, a, z, hz, hsent⟩

theorem deployment_runs_tasks_episode :
    ∃ pre x post argv r, episodeRun.1 = pre ++ x :: post ∧
      x.lab = .agent loneAgent (.command 0 ⟨.start argv, r⟩) ∧
      ∃ task ∈ TASKS, argv = Executor.fields task.command ∧
        sha256Google task.command ∈ Executor.allowedHashes ∧
        ∃ a, ∃ y ∈ pre, y.lab = .sys (.sent a (.reset ⟨task.command⟩)) :=
  ⟨episodeRun.1.take 9, _, episodeRun.1.drop 10, _, _, rfl, rfl,
    deployment_runs_tasks run_episodeRun rfl⟩

/-! ## Socket options -/

/-- A call writes the action of its own request under the key of its own target. -/
def actionProtocol (req : AgentReq) (α : Type) : Prog.Protocol AgentCmd AgentCmd.Ret Unit α where
  track _ _ := ()
  allows _
    | .putAction key action => ∃ r, req = .step r ∧
        Manager.ipToKey r.targetIp r.targetPort = .ok key ∧ action = Agent.Server.action r
    | _ => True
  final _ _ := True

theorem run_meets_action (req : AgentReq) : Executor.run.Meets (actionProtocol req _) () := by
  unfold Executor.run
  refine ⟨trivial, fun (cmd : String) => ?_⟩
  change Prog.Meets _ (if cmd = "" then _ else _) _
  split
  · trivial
  · refine ⟨trivial, fun (cmd' : String) => ?_⟩
    change Prog.Meets _ (if (Executor.fields cmd').length = 0 then _ else _) _
    split
    · trivial
    · refine ⟨trivial, fun r => ?_⟩
      cases r with
      | error err => trivial
      | ok pid => exact ⟨trivial, fun w => by cases w <;> trivial⟩

theorem getMetricForPid_meets_action (req : AgentReq) (pid : UInt32) :
    (Manager.getMetricForPid pid).Meets (actionProtocol req _) () :=
  ⟨trivial, fun r => by cases r <;> trivial⟩

theorem handle_meets_action (req : AgentReq) :
    (Agent.Server.handle sha256Hex req).Meets (actionProtocol req _) () := by
  cases req with
  | reset req =>
    have hset : (Executor.setCommand sha256Hex req.command).Meets
        (actionProtocol (.reset req) _) () := by
      simp only [Executor.setCommand]
      split
      · trivial
      · exact ⟨trivial, fun _ => trivial⟩
    refine Prog.Meets.bind (Q := fun _ _ => True) ?_ fun _ _ _ => trivial
    refine Prog.Meets.bind hset fun _ err _ => ?_
    cases err with
    | some err => trivial
    | none =>
      refine Prog.Meets.bind (run_meets_action _) fun _ r _ => ?_
      obtain ⟨pid, err⟩ := r
      cases err with
      | some err => trivial
      | none => exact Prog.Meets.bind (getMetricForPid_meets_action _ pid) fun _ _ _ => trivial
  | step req =>
    have hset : (Manager.setAction req.targetIp req.targetPort (Agent.Server.action req)).Meets
        (actionProtocol (.step req) _) () := by
      unfold Manager.setAction
      split
      · trivial
      · next key hkey => exact ⟨⟨req, rfl, hkey, rfl⟩, fun _ => trivial⟩
    refine Prog.Meets.bind (Q := fun _ _ => True) ?_ fun _ _ _ => trivial
    refine Prog.Meets.bind hset fun _ err _ => ?_
    cases err with
    | some err => trivial
    | none =>
      refine Prog.Meets.bind (run_meets_action _) fun _ r _ => ?_
      refine Prog.Meets.bind (getMetricForPid_meets_action _ r.1) fun _ r _ => ?_
      cases r <;> trivial

theorem written_putAction {id : Nat} {key key' : IpPortKey} {action action' : TuningAction}
    {r : (AgentCmd.putAction key' action').Ret}
    (h : written key (.command id ⟨.putAction key' action', r⟩) = some action) :
    key' = key ∧ action' = action := by
  obtain ⟨w, hw, hkey⟩ := Option.bind_eq_some_iff.1 h
  split at hkey
  · next hk =>
    cases (r : Option String) with
    | none =>
      cases hw
      exact ⟨hk, Option.some.inj hkey⟩
    | some err => cases hw
  · cases hkey

/-- A write is the action of a `Step` the agent was called with, under the key of its target. -/
theorem actionMap_called {tr : AgentTrace} {ag : AgentSys}
    (h : Lts.Run (AgentStep sha256Hex) .init tr ag) {key : IpPortKey} {action : TuningAction}
    (hl : ag.world.maps.actionMap.lookup key = some action) :
    ∃ req id, (∃ y ∈ tr, y.lab = .call id (.step req)) ∧
      Manager.ipToKey req.targetIp req.targetPort = .ok key ∧ action = Agent.Server.action req := by
  rw [lookup_actionMap h] at hl
  obtain ⟨x, hx, hw⟩ := exists_of_lastWritten hl
  obtain ⟨pre, post, rfl⟩ := List.append_of_mem hx
  obtain ⟨_, hpre, hrest⟩ := h.split
  obtain ⟨rfl, hstep, -⟩ := hrest.head
  have hmeets : CallsMeet (fun req => actionProtocol req AgentResp) x.src :=
    hpre.invariant (fun _ _ _ hi hs => hi.step handle_meets_action hs) callsMeet_init
  have hasked : AuthorizedInv sha256Hex pre x.src :=
    hpre.history (P := fun _ _ => True) (fun _ _ hi hs _ => hi.step hs)
      (fun _ _ _ _ => trivial) authorizedInv_init
  rcases hstep.cases with ⟨id, req, hlab, -⟩ | ⟨id, o, c, k, call, hlab, hcall, hop, -⟩ |
    ⟨id, resp, call, hlab, -⟩ | ⟨owner, sk, hlab, -⟩
  · rw [hlab] at hw; cases hw
  · obtain ⟨y, hy, hy'⟩ := hasked.asked hcall
    obtain ⟨_, hcallMeets⟩ := hmeets id call hcall
    rw [hop] at hcallMeets
    rw [hlab] at hw
    cases c with
    | putAction key' action' =>
      obtain ⟨r, hreq, hkey, rfl⟩ := hcallMeets.1
      obtain ⟨rfl, rfl⟩ := written_putAction hw
      exact ⟨r, id, ⟨y, List.mem_append_left _ hy, hreq ▸ hy'⟩, hkey, rfl⟩
    | setLastCommand _ | getLastCommand | start _ | wait _ | lookupMetric _ => cases hw
  · rw [hlab] at hw; cases hw
  · rw [hlab] at hw; cases hw

/-- **Agents tune what clients ask for.** Over every run of the deployment, each option an agent
sets on a socket is one that a `Step` asks for, which a client has sent for a session of this agent
and whose target is the remote address of the socket. -/
theorem deployment_tunes_sessions {pre post : List DeploymentTrans} {x : DeploymentTrans}
    (h : Lts.Run (DeploymentStep sha256Hex cfg) .init (pre ++ x :: post) s) {owner : Option Nat}
    {sk : SockOps} {eff : Effects} (hlab : x.lab = .agent addr (.sock owner sk eff)) :
    ∀ opt ∈ eff.sockopts, ∃ req, opt ∈ (Agent.Server.action req).asked ∧ req.sessionId = addr ∧
      Denotes req.targetIp sk.remoteIp4 ∧
      (∃ a, ∃ y ∈ pre, y.lab = .sys (.sent a (.step req))) ∧
      ∃ env : SocketTunerEnvironment, ∃ action, env.stepRequest action = .ok req := by
  intro opt hopt
  obtain ⟨_, hpre, hrest⟩ := h.split
  obtain ⟨rfl, hstep, -⟩ := hrest.head
  rw [hlab] at hstep
  obtain ⟨ag, hag⟩ := hstep.agent
  rcases hag.cases with ⟨_, _, hl, -⟩ | ⟨_, _, _, _, _, hl, -⟩ | ⟨_, _, _, hl, -⟩ |
    ⟨_, _, hl, -⟩ <;> cases hl
  obtain ⟨hset, hnone⟩ := sockopts_bpfSockmap (x.src.agents addr).world.maps sk
  by_cases hest : sk.Established
  · rw [hset hest] at hopt
    cases hact : (x.src.agents addr).world.maps.actionMap.lookup ⟨sk.remoteIp4, 0⟩ with
    | none => rw [hact] at hopt; cases hopt
    | some action =>
      rw [hact] at hopt
      obtain ⟨req, id, hcall, hkey, rfl⟩ := actionMap_called (run_agentTrace hpre addr) hact
      obtain ⟨hask, hs, hsent⟩ := called_sent hpre hcall
      refine ⟨req, ?_, hs, (Manager.ipToKey_eq_ok_iff.1 hkey).1, hsent, hask⟩
      rwa [← TuningAction.calls_eq_asked]
  · rw [hnone hest] at hopt
    cases hopt

theorem deployment_tunes_sessions_episode :
    ∃ pre x post eff, episodeRun.1 = pre ++ x :: post ∧
      x.lab = .agent loneAgent (.sock (some 1) (googleEvent .activeEstablishedCb) eff) ∧
      (⟨SOL_TCP, TCP_BPF_IW, .u32 20⟩ : SetSockOpt) ∈ eff.sockopts ∧
      ∀ opt ∈ eff.sockopts, ∃ req, opt ∈ (Agent.Server.action req).asked ∧
        req.sessionId = loneAgent ∧
        Denotes req.targetIp (googleEvent .activeEstablishedCb).remoteIp4 ∧
        (∃ a, ∃ y ∈ pre, y.lab = .sys (.sent a (.step req))) ∧
        ∃ env : SocketTunerEnvironment, ∃ action, env.stepRequest action = .ok req :=
  ⟨episodeRun.1.take 25, _, [], _, rfl, rfl, by decide +kernel,
    deployment_tunes_sessions run_episodeRun rfl⟩

end SocketTuner.System
