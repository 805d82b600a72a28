import SocketTuner.Env.Discipline
import SocketTuner.Router.Server

/-!
# One step through the whole stack

`SocketTunerEnvironment.step` calls the router, whose `Step` calls the agent, whose `Step` runs the
command. Here the three are composed for one call, with any fate of the messages between them and
any outcome on the agent's host.

The agent looks up the record of the process whether or not `Run` failed, so the reward does not
depend on the error of the run (`step_answers`). `failed_run_unrewarded_iff` says when a failed run
is nevertheless not rewarded, with the rewards computed in doubles.
-/

namespace SocketTuner.System

open Env Router Agent.Server Rounding

/-- Everything behind the environment during one call. -/
structure Stack where
  sha256Hex : String → String
  agents : Agents := {}
  /-- What the pool methods take from outside. -/
  pool : Nat → Outside := fun _ => {}
  /-- The fate of the environment's messages. -/
  net : Delivery := .delivered

namespace Stack

variable (st : Stack)

/-- What the router's handlers have around them. -/
def routerHost : RouterHost := st.agents.routerHost st.sha256Hex st.pool

/-- A handler of the router behind the network. -/
def serve {α : Type} (h : RouterProg (Handled α)) (p : Pool) : Except String α × Pool :=
  match st.net with
  | .requestLost err => (.error err, p)
  | .replyLost err => (.error err, (h.alone st.routerHost p).2)
  | .delivered => ((h.alone st.routerHost p).1.deliver, (h.alone st.routerHost p).2)

/-- An RPC of the environment. -/
def rpc : (c : Rpc) → Pool → c.Ret × Pool
  | .reset req, p => st.serve (Router.Server.reset req) p
  | .step req, p => st.serve (Router.Server.step req) p
  | .close req, p => st.serve (Router.Server.close req) p

/-- `SocketTunerEnvironment.step` on this stack: what it returns or raises. -/
def step (cfg : EnvConfig) (action : UISocketTunerAction) (env : SocketTunerEnvironment)
    (p : Pool) : Except PyErr SocketTunerObservation :=
  ((env.step cfg action).run st.rpc p).1.1

/-- The world of the session's agent. -/
def world (req : StepRequest) : Agent.AgentWorld := st.agents.world req.sessionId
/-- The host of the session's agent. -/
def host (req : StepRequest) : Agent.Host := st.agents.host req.sessionId

/-- The step reaches `Executor.Run`: the request is well formed and delivered, its session is in
the pool, and its action is written under `key`. -/
structure Runs (p : Pool) (env : SocketTunerEnvironment) (action : UISocketTunerAction)
    (req : StepRequest) (key : Agent.IpPortKey) : Prop where
  request : env.stepRequest action = .ok req
  channel : env.channelClosed = false
  delivered : ∀ err, st.net ≠ .requestLost err
  session : req.sessionId ≠ ""
  known : req.sessionId ∈ p.agents
  forwarded : ∀ err, st.agents.net req.sessionId ≠ .requestLost err
  target : Agent.Manager.ipToKey req.targetIp req.targetPort = .ok key
  accepted : (st.world req).maps.actionMap.Accepts key

/-- `Run` was reached and returned no error. -/
def RunCompletes (p : Pool) (env : SocketTunerEnvironment) (action : UISocketTunerAction) : Prop :=
  ∃ req key, st.Runs p env action req key ∧
    (stepRun req key (st.host req) (st.world req)).1.2 = none

/-- Both replies arrive. -/
def RepliesArrive (req : StepRequest) : Prop :=
  st.net = .delivered ∧ st.agents.net req.sessionId = .delivered

end Stack

/-- A reward above the minimum, or an early stop. -/
def Rewarded (env : SocketTunerEnvironment) : Except PyErr SocketTunerObservation → Prop
  | .error _ => False
  | .ok o => ¬(o.reward = 1 / 100 ∧
      (score binary64 env.baselineDuration o.observation.durationUs.toNat).doneEarly = false)

instance (env : SocketTunerEnvironment) : (r : Except PyErr SocketTunerObservation) →
    Decidable (Rewarded env r)
  | .error _ => .isFalse id
  | .ok _ => inferInstanceAs (Decidable (¬_))

/-- The `Close` of a step does not matter to its result. -/
theorem scoreStep_run {σ : Type} (h : (c : Rpc) → σ → c.Ret × σ) (s : σ) (cfg : EnvConfig)
    (env : SocketTunerEnvironment) (response : StepResponse) :
    ((SocketTunerEnvironment.scoreStep cfg env response).run h s).1 =
      env.stepResult (response.observation.getD {})
        (env.stepDone cfg response
          (score cfg.round env.baselineDuration (response.observation.getD {}).durationUs.toNat))
        (score cfg.round env.baselineDuration (response.observation.getD {}).durationUs.toNat) := by
  unfold SocketTunerEnvironment.scoreStep
  simp only
  split <;> rfl

namespace Stack

variable {st : Stack} {p : Pool}

theorem rpc_step_ok_iff (hp : PoolInv p) (req : StepRequest) (resp : StepResponse) :
    (st.serve (Router.Server.step req) p).1 = .ok resp ↔
      st.RepliesArrive req ∧ req.sessionId ≠ "" ∧ req.sessionId ∈ p.agents ∧
        ∃ key metric, Agent.Manager.ipToKey req.targetIp req.targetPort = .ok key ∧
          (st.world req).maps.actionMap.Accepts key ∧
          stepMetric req key (st.host req) (st.world req) = some metric ∧
          resp = { done := false, observation := some (reported metric) } := by
  unfold serve RepliesArrive
  cases hn : st.net with
  | requestLost err => simp
  | replyLost err => simp
  | delivered =>
    have hreply : ∀ ac, p.agents.lookup req.sessionId = some ac →
        (st.routerHost.step ac req = .ok resp ↔ st.agents.net req.sessionId = .delivered ∧
          ((Agent.Server.step req).alone (st.host req) (st.world req)).1 = .ok resp) := by
      intro ac hac
      simp only [routerHost, Agents.routerHost, hp.addr_eq hac]
      cases st.agents.net req.sessionId <;> simp [Delivery.reply, host, world]
    simp only [Handled.deliver_eq_ok, Router.Server.step_ok_iff, true_and, Finmap.mem_iff,
      ← Agent.Server.step_ok_iff]
    constructor
    · rintro ⟨hs, ac, hac, hr⟩
      obtain ⟨hnet, hr⟩ := (hreply ac hac).1 hr
      exact ⟨hnet, hs, ⟨ac, hac⟩, hr⟩
    · rintro ⟨hnet, hs, ⟨ac, hac⟩, hr⟩
      exact ⟨hs, ac, hac, (hreply ac hac).2 ⟨hnet, hr⟩⟩

theorem run_sendStep {α : Type} (req : StepRequest) (f : Except String StepResponse → EnvProg α) :
    (sendStep req >>= f).run st.rpc p =
      (f (st.serve (Router.Server.step req) p).1).run st.rpc
        (st.serve (Router.Server.step req) p).2 := rfl

theorem step_eq (cfg : EnvConfig) (action : UISocketTunerAction) (env : SocketTunerEnvironment) :
    st.step cfg action env p =
      match env.stepRequest action with
      | .error e => .error e
      | .ok req =>
        if env.channelClosed then .error SocketTunerEnvironment.closedChannel
        else
          match (st.serve (Router.Server.step req) p).1 with
          | .error e => .error (.rpcError e)
          | .ok response =>
            let sc := score cfg.round env.baselineDuration
              (response.observation.getD {}).durationUs.toNat
            let env := { env with stepCount := env.stepCount + 1 }
            env.stepResult (response.observation.getD {}) (env.stepDone cfg response sc) sc := by
  have hreq : ({ env with stepCount := env.stepCount + 1 }).stepRequest action =
    env.stepRequest action := rfl
  simp only [step, SocketTunerEnvironment.step, hreq]
  cases env.stepRequest action with
  | error e => rfl
  | ok req =>
    cases env.channelClosed with
    | true => rfl
    | false =>
      simp only [Bool.false_eq_true, ↓reduceIte, run_sendStep]
      cases (st.serve (Router.Server.step req) p).1 with
      | error e => rfl
      | ok response =>
        simp only [Prog.run_bind, scoreStep_run]
        rfl

/-- **What a step through the stack returns.** It answers exactly when `Run` was reached, the record
of the process is there and the replies arrive; the answer is then computed from that record and
the baseline. The error of the run does not occur in it. -/
theorem step_answers (hp : PoolInv p) (cfg : EnvConfig) (action : UISocketTunerAction)
    (env : SocketTunerEnvironment) :
    (∃ err, st.step cfg action env p = .error err ∧
      ∀ req key, st.Runs p env action req key → st.RepliesArrive req →
        stepMetric req key (st.host req) (st.world req) = none) ∨
    ∃ req key metric o, st.Runs p env action req key ∧ st.RepliesArrive req ∧
      stepMetric req key (st.host req) (st.world req) = some metric ∧
      st.step cfg action env p = .ok o ∧ o.observation = reported metric ∧
      o.reward = (score cfg.round env.baselineDuration metric.durationUs.toNat).reward := by
  rw [step_eq]
  cases hq : env.stepRequest action with
  | error e =>
    refine .inl ⟨e, rfl, fun req key h _ => ?_⟩
    rw [h.request] at hq
    cases hq
  | ok req =>
    cases hc : env.channelClosed with
    | true =>
      refine .inl ⟨_, rfl, fun req key h _ => ?_⟩
      rw [h.channel] at hc
      cases hc
    | false =>
      cases hr : (st.serve (Router.Server.step req) p).1 with
      | error e =>
        refine .inl ⟨_, by simp only [hr, Bool.false_eq_true, ↓reduceIte]; rfl,
          fun req' key h harr => ?_⟩
        obtain rfl : req' = req := by
          have := h.request
          rw [hq] at this
          exact (Except.ok.inj this).symm
        by_contra hm
        obtain ⟨metric, hm⟩ := Option.ne_none_iff_exists'.1 hm
        have := (rpc_step_ok_iff hp req' { done := false, observation := some (reported metric) }).2
          ⟨harr, h.session, h.known, key, metric, h.target, h.accepted, hm, rfl⟩
        rw [hr] at this
        cases this
      | ok response =>
        obtain ⟨harr, hs, hk, key, metric, htarget, hacc, hm, rfl⟩ :=
          (rpc_step_ok_iff hp req response).1 hr
        have hid := (SocketTunerEnvironment.stepRequest_env hq).1
        have hsome : env.sessionId = some req.sessionId := by
          cases hsid : env.sessionId with
          | none => rw [hid, hsid] at hs; exact absurd rfl hs
          | some id => rw [hid, hsid]; rfl
        have hruns : st.Runs p env action req key :=
          { request := hq, channel := hc, delivered := by simp [harr.1], session := hs,
            known := hk, forwarded := by simp [harr.2], target := htarget, accepted := hacc }
        simp only [hr, SocketTunerEnvironment.stepResult, hsome, Bool.false_eq_true, ↓reduceIte]
        exact .inr ⟨req, key, metric, _, hruns, harr, hm, rfl, rfl, rfl⟩

end Stack

/-- **When a failed run is not rewarded.** A reward above the minimum or an early stop is given
only for a run that completed, exactly when every run that fails has its reply lost, has left no
record, or has left one whose duration is missing or not more than three quarters of a percent below
the baseline. In doubles the limit is `17293822569102705 / 2 ^ 61`, a hair above that. -/
theorem failed_run_unrewarded_iff (st : Stack) {p : Pool} (hp : PoolReachable p) (maxSteps : Int)
    (action : UISocketTunerAction) (env : SocketTunerEnvironment) :
    (Rewarded env (st.step { maxSteps } action env p) → st.RunCompletes p env action) ↔
    ∀ req key, st.Runs p env action req key →
      (stepRun req key (st.host req) (st.world req)).1.2 ≠ none → st.RepliesArrive req →
      ∀ metric, stepMetric req key (st.host req) (st.world req) = some metric →
        env.baselineDuration = 0 ∨ metric.durationUs.toNat = 0 ∨
          2 ^ 61 * env.baselineDuration ≤
            17293822569102705 * env.baselineDuration + 2 ^ 61 * metric.durationUs.toNat := by
  have hunique : ∀ {req key req' key'}, st.Runs p env action req key →
      st.Runs p env action req' key' → req' = req ∧ key' = key := by
    intro req key req' key' h h'
    have hreq := h.request
    rw [h'.request] at hreq
    cases hreq
    have hkey := h.target
    rw [h'.target] at hkey
    cases hkey
    exact ⟨rfl, rfl⟩
  simp only [← score_min_iff]
  rcases Stack.step_answers hp.inv { maxSteps } action env with
    ⟨err, hres, hnone⟩ | ⟨req, key, metric, o, hruns, harr, hm, hres, hobs, hrew⟩
  · rw [hres]
    constructor
    · intro _ req key hruns _ harr metric hm
      rw [hnone req key hruns harr] at hm
      cases hm
    · intro _ h
      exact h.elim
  · have hrewarded : Rewarded env (.ok o) ↔
        ¬((score binary64 env.baselineDuration metric.durationUs.toNat).reward = 1 / 100 ∧
          (score binary64 env.baselineDuration metric.durationUs.toNat).doneEarly = false) := by
      rw [Rewarded, hobs, hrew]
      rfl
    rw [hres, hrewarded]
    constructor
    · intro h req' key' hruns' herr _ metric' hm'
      obtain ⟨rfl, rfl⟩ := hunique hruns hruns'
      rw [hm] at hm'
      cases hm'
      by_contra hmin
      obtain ⟨req'', key'', hruns'', hok⟩ := h hmin
      obtain ⟨rfl, rfl⟩ := hunique hruns hruns''
      exact herr hok
    · intro h hmin
      refine ⟨req, key, hruns, ?_⟩
      by_contra herr
      exact hmin (h req key hruns herr harr metric hm)

/-! ## Two steps -/

/-- An environment in an episode on the leased agent, with a baseline of one millisecond. -/
def googleEnv : SocketTunerEnvironment :=
  { SocketTunerEnvironment.init with
    sessionId := some "10.0.0.7:50051", baselineDuration := 1000, targetIp := "142.250.1.100",
    targetPort := 80 }

/-- The agent's process connects, and nothing is lost. -/
def goodStack : Stack := { sha256Hex := googleSha, agents := connectingAgents, pool := oneAgent }

theorem failed_run_unrewarded_connecting :
    PoolReachable leasedPool ∧
    (Rewarded googleEnv (goodStack.step .default {} googleEnv leasedPool) →
      goodStack.RunCompletes leasedPool googleEnv {}) := by
  refine ⟨leasedPool_reachable,
    (failed_run_unrewarded_iff goodStack leasedPool_reachable 5 {} googleEnv).2 ?_⟩
  intro req key _ herr
  have hfields : Agent.Executor.fields googleReset.command ≠ [] := by decide
  exact absurd ((Agent.Executor.run_ok_iff _ _ 1).2 ⟨hfields, ⟨4242, rfl⟩, rfl⟩) herr

/-- Process 4242 is killed a tenth of a millisecond after it connected. -/
def killedAgents : Agents :=
  { connectingAgents with
    host := fun _ =>
      { events := fun n => if n = 4 then
          [connect4242, { connect4242 with op := .stateCb, ktimeNs := 1100000 }] else []
        outside := fun _ => { start := .ok 4242, wait := some "signal: killed" } } }

/-- The same with a process that is killed. -/
def killedStack : Stack := { goodStack with agents := killedAgents }

/-- A run that was killed earns the highest reward and stops the episode. -/
theorem killed_run_rewarded :
    PoolReachable leasedPool ∧
    Rewarded googleEnv (killedStack.step .default {} googleEnv leasedPool) ∧
    ¬killedStack.RunCompletes leasedPool googleEnv {} := by
  refine ⟨leasedPool_reachable, by decide +kernel, ?_⟩
  rintro ⟨req, key, hruns, hok⟩
  have hwait := ((Agent.Executor.run_ok_iff _ _ 1).1 hok).2.2
  cases hwait

end SocketTuner.System
