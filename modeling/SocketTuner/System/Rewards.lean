import SocketTuner.System.Measured

/-!
# Rewards are measured

Followed on to what the methods of a client return. A client keeps the observations of its replies
and nothing else, so the reward of a step is the score of two durations that agents measured for
this client (`deployment_rewards`), however calls overlap, messages are lost and agents restart.
The score is the one of the environment's arithmetic, in doubles by default.
-/

namespace SocketTuner.System

open Env Router Agent GoMap

variable {sha256Hex : String → String} {cfg : EnvConfig}

/-! ## What a method returns -/

/-- The observations of a client's replies. -/
def received (seen : List Observation) : RpcEvent → List Observation
  | ⟨.reset _, r⟩ =>
    match (r : Except String ResetResponse) with
    | .ok resp => seen ++ resp.initialObservation.toList
    | .error _ => seen
  | ⟨.step _, r⟩ =>
    match (r : Except String StepResponse) with
    | .ok resp => seen ++ resp.observation.toList
    | .error _ => seen
  | ⟨.close _, _⟩ => seen

/-- An observation that was received, or the empty one that stands for none. -/
def Known (seen : List Observation) (obs : Observation) : Prop := obs = {} ∨ obs ∈ seen

/-- The baseline is the duration of an observation received. -/
def EnvOk (seen : List Observation) (env : SocketTunerEnvironment) : Prop :=
  ∃ obs, Known seen obs ∧ env.baselineDuration = obs.durationUs.toNat

/-- The observation was received, and a step's reward is its score against the baseline. -/
structure ResultOk (cfg : EnvConfig) (seen : List Observation) (o : SocketTunerObservation) :
    Prop where
  known : Known seen o.observation
  scored : ∀ n base reduction, o.metadata = .step n base reduction →
    o.reward = (score cfg.round base o.observation.durationUs.toNat).reward ∧
      ∃ obs, Known seen obs ∧ base = obs.durationUs.toNat

/-- What a method keeps to: it remembers the observations of its replies. -/
def scoreProtocol (cfg : EnvConfig) : Prog.Protocol Rpc Rpc.Ret (List Observation)
    (CallResult × SocketTunerEnvironment) where
  track := received
  allows _ _ := True
  final seen x := EnvOk seen x.2 ∧ ∀ o, x.1 = .ok (some o) → ResultOk cfg seen o

theorem Known.mono {seen seen' : List Observation} (h : seen ⊆ seen') {obs : Observation}
    (hk : Known seen obs) : Known seen' obs := hk.imp_right fun hm => h hm

theorem EnvOk.mono {seen seen' : List Observation} (h : seen ⊆ seen') {env : SocketTunerEnvironment}
    (he : EnvOk seen env) : EnvOk seen' env := by
  obtain ⟨obs, hk, hb⟩ := he
  exact ⟨obs, hk.mono h, hb⟩

theorem ResultOk.mono {seen seen' : List Observation} (h : seen ⊆ seen')
    {o : SocketTunerObservation} (hr : ResultOk cfg seen o) : ResultOk cfg seen' o where
  known := hr.known.mono h
  scored n base reduction hm := by
    obtain ⟨hreward, obs, hk, hb⟩ := hr.scored n base reduction hm
    exact ⟨hreward, obs, hk.mono h, hb⟩

theorem received_mono {seen seen' : List Observation} (e : RpcEvent) (h : seen ⊆ seen') :
    received seen e ⊆ received seen' e := by
  have happ : ∀ l : List Observation, seen ++ l ⊆ seen' ++ l := fun l =>
    List.append_subset.2 ⟨List.subset_append_of_subset_left l h, List.subset_append_right seen' l⟩
  obtain ⟨rpc, r⟩ := e
  cases rpc with
  | reset req =>
    cases r with
    | error err => exact h
    | ok resp => exact happ _
  | step req =>
    cases r with
    | error err => exact h
    | ok resp => exact happ _
  | close req => exact h

theorem meets_of_subset {seen seen' : List Observation} (h : seen ⊆ seen') {p : CallProg}
    (hp : p.Meets (scoreProtocol cfg) seen) : p.Meets (scoreProtocol cfg) seen' := by
  refine Prog.Meets.mono (· ⊆ ·) (fun e hle => received_mono e hle) (fun _ _ _ => trivial) ?_ hp h
  rintro m m' ⟨result, env⟩ hle ⟨henv, hres⟩
  exact ⟨henv.mono hle, fun o ho => (hres o ho).mono hle⟩

theorem known_getD {seen : List Observation} (obs? : Option Observation) :
    Known (seen ++ obs?.toList) (obs?.getD {}) := by
  cases obs? with
  | none => exact .inl rfl
  | some obs => exact .inr (by simp)

variable (cfg) in
/-- A reset that succeeds has received its observation. -/
theorem resetAttempts_meets_score (command : String) (left : Nat) {seen : List Observation} :
    (SocketTunerEnvironment.resetAttempts command left).Meets
      ((scoreProtocol cfg).withFinal fun seen' r => seen ⊆ seen' ∧
        ∀ response, r = .ok response → Known seen' (response.initialObservation.getD {})) seen := by
  suffices h : ∀ now, seen ⊆ now → (SocketTunerEnvironment.resetAttempts command left).Meets
      ((scoreProtocol cfg).withFinal fun seen' r => seen ⊆ seen' ∧
        ∀ response, r = .ok response → Known seen' (response.initialObservation.getD {})) now from
    h seen (List.Subset.refl _)
  induction left with
  | zero => exact fun now h => ⟨h, fun _ hr => by cases hr⟩
  | succ left ih =>
    intro now h
    refine ⟨trivial, fun r => ?_⟩
    cases r with
    | ok response =>
      have hnow : seen ⊆ now ++ response.initialObservation.toList :=
        List.subset_append_of_subset_left _ h
      change Prog.Meets _ (if response.success = true then _ else _) _
      split
      · exact ⟨hnow, fun _ hr => by cases hr; exact known_getD _⟩
      · split
        · exact ih _ hnow
        · exact ⟨hnow, fun _ hr => by cases hr⟩
    | error e =>
      change Prog.Meets _ (if 0 < left then _ else _) _
      split
      · exact ih _ h
      · exact ⟨h, fun _ hr => by cases hr⟩

theorem reset_meets_score {seen : List Observation} {env : SocketTunerEnvironment}
    (h : EnvOk seen env) : env.reset.Meets ((scoreProtocol cfg).withFinal fun seen' x =>
      EnvOk seen' x.2 ∧ ∀ o, x.1 = .ok o → ResultOk cfg seen' o) seen := by
  simp only [SocketTunerEnvironment.reset]
  split
  · exact ⟨h, fun _ hr => by cases hr⟩
  · refine Prog.Meets.bind (resetAttempts_meets_score cfg _ 3) fun seen' r hr => ?_
    obtain ⟨hsub, hknown⟩ := hr
    cases r with
    | error e => exact ⟨h.mono hsub, fun _ hr => by cases hr⟩
    | ok response =>
      refine ⟨⟨_, hknown response rfl, rfl⟩, fun o ho => ?_⟩
      cases ho
      exact ⟨hknown response rfl, fun _ _ _ hm => by cases hm⟩

theorem scoreStep_meets_score {seen : List Observation} {env : SocketTunerEnvironment}
    {response : StepResponse} (h : EnvOk seen env)
    (hk : Known seen (response.observation.getD {})) :
    (env.scoreStep cfg response).Meets ((scoreProtocol cfg).withFinal fun seen' r =>
      EnvOk seen' env ∧ ∀ o, r = .ok o → ResultOk cfg seen' o) seen := by
  have hres : ∀ done o, env.stepResult (response.observation.getD {}) done
      (score cfg.round env.baselineDuration (response.observation.getD {}).durationUs.toNat) =
        .ok o → ResultOk cfg seen o := by
    intro done o ho
    unfold SocketTunerEnvironment.stepResult at ho
    split at ho
    · cases ho
    · cases ho
      refine ⟨hk, fun n base reduction hm => ?_⟩
      cases hm
      exact ⟨rfl, h⟩
  simp only [SocketTunerEnvironment.scoreStep]
  split
  · exact ⟨trivial, fun _ => ⟨h, hres _⟩⟩
  · exact ⟨h, hres _⟩

theorem step_meets_score (action : UISocketTunerAction) {seen : List Observation}
    {env : SocketTunerEnvironment} (h : EnvOk seen env) :
    (env.step cfg action).Meets ((scoreProtocol cfg).withFinal fun seen' x =>
      EnvOk seen' x.2 ∧ ∀ o, x.1 = .ok o → ResultOk cfg seen' o) seen := by
  simp only [SocketTunerEnvironment.step]
  have henv : EnvOk seen { env with stepCount := env.stepCount + 1 } := h
  split
  · exact ⟨henv, fun _ hr => by cases hr⟩
  · split
    · exact ⟨henv, fun _ hr => by cases hr⟩
    · refine ⟨trivial, fun r => ?_⟩
      cases r with
      | error e => exact ⟨henv, fun _ hr => by cases hr⟩
      | ok response =>
        change Prog.Meets _ (SocketTunerEnvironment.scoreStep cfg _ response >>= _) _
        have hsub : seen ⊆ seen ++ response.observation.toList := List.subset_append_left _ _
        exact Prog.Meets.bind (scoreStep_meets_score (henv.mono hsub) (known_getD _))
          fun _ _ hr => hr

theorem close_meets_score {seen : List Observation} {env : SocketTunerEnvironment}
    (h : EnvOk seen env) :
    env.close.Meets ((scoreProtocol cfg).withFinal fun seen' x => EnvOk seen' x.2) seen := by
  simp only [SocketTunerEnvironment.close]
  split
  · exact h
  · split
    · exact h
    · exact ⟨trivial, fun _ => h⟩

theorem perform_meets_score {seen : List Observation} {env : SocketTunerEnvironment}
    (h : EnvOk seen env) (call : Call) : (perform cfg env call).Meets (scoreProtocol cfg) seen := by
  have hmap : ∀ {seen : List Observation} {r : Except PyErr SocketTunerObservation},
      (∀ o, r = .ok o → ResultOk cfg seen o) →
      ∀ o, r.map some = .ok (some o) → ResultOk cfg seen o := by
    intro seen r hr o ho
    cases r with
    | error e => cases ho
    | ok o' =>
      cases ho
      exact hr o rfl
  cases call with
  | reset => exact Prog.Meets.bind (reset_meets_score h) fun _ _ hr => ⟨hr.1, hmap hr.2⟩
  | step action =>
    exact Prog.Meets.bind (step_meets_score action h) fun _ _ hr => ⟨hr.1, hmap hr.2⟩
  | close =>
    refine Prog.Meets.bind (close_meets_score h) fun seen' x hx => ⟨hx, fun o ho => ?_⟩
    obtain ⟨r, env'⟩ := x
    cases r <;> cases ho

/-! ## What clients know -/

/-- The observation an event answers the client with. -/
def SysEvent.answerFor (a : ClientId) : SysEvent → Option Observation
  | .answered _ b rpc res => if b = a then (answerObservation rpc res).map Prod.snd else none
  | _ => none

theorem answerFor_eq_some {a : ClientId} {e : SysEvent} {obs : Observation}
    (h : e.answerFor a = some obs) : ∃ id rpc res addr, e = .answered id a rpc res ∧
      answerObservation rpc res = some (addr, obs) := by
  cases e with
  | answered id b rpc res =>
    simp only [SysEvent.answerFor] at h
    split at h
    · next hb =>
      obtain ⟨⟨addr, _⟩, hans, rfl⟩ := Option.map_eq_some_iff.1 h
      exact ⟨id, rpc, res, addr, by rw [hb], hans⟩
    · cases h
  | invoked | sent | failed | exec | returned | background => cases h

/-- What a client was answered. -/
def answersFor (a : ClientId) (tr : SysTrace) : List Observation :=
  tr.filterMap fun x => x.lab.answerFor a

/-- What a client still has to do keeps to what it has seen. -/
def Client.Scores (cfg : EnvConfig) (seen : List Observation) : Client → Prop
  | .idle env => EnvOk seen env
  | .running prog => prog.Meets (scoreProtocol cfg) seen
  | .waiting _ rpc k => ∀ r : rpc.Ret, (k r).Meets (scoreProtocol cfg) (received seen ⟨rpc, r⟩)

theorem Client.Scores.mono {seen seen' : List Observation} (h : seen ⊆ seen') {c : Client}
    (hc : c.Scores cfg seen) : c.Scores cfg seen' := by
  cases c with
  | idle env => exact EnvOk.mono h hc
  | running prog => exact meets_of_subset h hc
  | waiting id rpc k => exact fun r => meets_of_subset (received_mono _ h) (hc r)

theorem received_error (seen : List Observation) (rpc : Rpc) (err : String) :
    received seen ⟨rpc, (.error err : Except String rpc.Resp)⟩ = seen := by
  cases rpc <;> rfl

/-- A reply that arrives is the answer. -/
theorem received_deliver (seen : List Observation) (id : HandlerId) (a : ClientId) (rpc : Rpc)
    (res : Handled rpc.Resp) : received seen ⟨rpc, res.deliver⟩ =
      seen ++ ((SysEvent.answered id a rpc res).answerFor a).toList := by
  cases rpc with
  | reset req =>
    cases res with
    | fail resp err => simp [received, Handled.deliver, SysEvent.answerFor, answerObservation]
    | ok resp =>
      cases ho : resp.initialObservation <;>
        simp [received, Handled.deliver, SysEvent.answerFor, answerObservation, ho]
  | step req =>
    cases res with
    | fail resp err => simp [received, Handled.deliver, SysEvent.answerFor, answerObservation]
    | ok resp =>
      cases ho : resp.observation <;>
        simp [received, Handled.deliver, SysEvent.answerFor, answerObservation, ho]
  | close req => simp [received, SysEvent.answerFor, answerObservation]

/-- A step of the system, for what clients have seen; and what a method returns. -/
theorem ClientStep.scores {cs cs' : ClientId → Client} {e : SysEvent}
    (h : ClientStep cfg cs e cs') {seen : ClientId → List Observation}
    (hi : ∀ a, (cs a).Scores cfg (seen a)) :
    (∀ a, (cs' a).Scores cfg (seen a ++ (e.answerFor a).toList)) ∧
      ∀ a o, e = .returned a (.ok (some o)) → ResultOk cfg (seen a) o := by
  have hold : ∀ a, (cs a).Scores cfg (seen a ++ (e.answerFor a).toList) := fun a =>
    (hi a).mono (List.subset_append_left _ _)
  have hset : ∀ {a c}, Client.Scores cfg (seen a ++ (e.answerFor a).toList) c →
      ∀ b, (Function.update cs a c b).Scores cfg (seen b ++ (e.answerFor b).toList) := by
    intro a c hc b
    by_cases hb : b = a
    · subst hb
      rwa [Function.update_self]
    · rw [Function.update_of_ne hb]
      exact hold b
  cases h with
  | stay he he' => exact ⟨hold, fun a o h => absurd h (he' a _)⟩
  | @invoke a env hc call =>
    have hclient := hold a
    rw [hc] at hclient
    exact ⟨hset (perform_meets_score hclient call), fun _ _ h => by cases h⟩
  | @send a rpc k hc id =>
    have hclient := hold a
    rw [hc] at hclient
    exact ⟨hset hclient.2, fun _ _ h => by cases h⟩
  | @lose a rpc k hc err =>
    have hclient := hold a
    rw [hc] at hclient
    have hk : (k (.error err : Except String rpc.Resp)).Meets (scoreProtocol cfg)
        (received _ ⟨rpc, (.error err : Except String rpc.Resp)⟩) := hclient.2 _
    rw [received_error] at hk
    exact ⟨hset hk, fun _ _ h => by cases h⟩
  | @resume a id rpc k hc res =>
    have hclient := hi a
    rw [hc] at hclient
    have hk := hclient res.deliver
    rw [received_deliver _ id a] at hk
    exact ⟨hset hk, fun _ _ h => by cases h⟩
  | @fail a id rpc k hc err =>
    have hclient := hold a
    rw [hc] at hclient
    have hk := hclient (.error err : Except String rpc.Resp)
    rw [received_error] at hk
    exact ⟨hset hk, fun _ _ h => by cases h⟩
  | @finish a result env hc =>
    have hclient := hold a
    have hnow := hi a
    rw [hc] at hclient hnow
    exact ⟨hset hclient.1, fun _ o h => by cases h; exact hnow.2 o rfl⟩

/-- Every client keeps to what it was answered. -/
def ScoreInv (cfg : EnvConfig) (pre : SysTrace) (s : Sys) : Prop :=
  ∀ a, (s.clients a).Scores cfg (answersFor a pre)

theorem scoreInv_init : ScoreInv cfg [] .init := fun _ => ⟨{}, .inl rfl, rfl⟩

theorem answersFor_snoc (a : ClientId) (pre : SysTrace) (x : Lts.Trans Sys SysEvent) :
    answersFor a (pre ++ [x]) = answersFor a pre ++ (x.lab.answerFor a).toList := by
  unfold answersFor
  rw [List.filterMap_append]
  cases hx : x.lab.answerFor a <;> simp [hx]

theorem ScoreInv.step {pre : SysTrace} {x : Lts.Trans Sys SysEvent} (hi : ScoreInv cfg pre x.src)
    (h : SysStep cfg x.src x.lab x.dst) : ScoreInv cfg (pre ++ [x]) x.dst := by
  obtain ⟨act, h⟩ := h
  intro a
  rw [answersFor_snoc]
  exact ((Sys.step_clients h).scores hi).1 a

/-! ## The deployment -/

/-- What a client was answered is what agents measured for it. -/
theorem answersFor_measured {s : Deployment} {tr : List DeploymentTrans}
    (h : Lts.Run (DeploymentStep sha256Hex cfg) .init tr s) {a : ClientId} {obs : Observation}
    (hobs : obs ∈ answersFor a (sysTrace tr)) : MeasuredFor a tr obs := by
  obtain ⟨y, hy, hy'⟩ := List.mem_filterMap.1 hobs
  obtain ⟨z, hz, hpart⟩ := Lts.exists_of_mem_component hy
  obtain ⟨id, rpc, res, addr, hlab, hans⟩ := answerFor_eq_some hy'
  obtain ⟨pre, post, rfl⟩ := List.append_of_mem hz
  have hsys := (h.step_of_mem z hz).eq_sys (hlab ▸ hpart) fun _ _ _ he => by cases he
  exact (answered_measured h hsys hans).append (z :: post)

/-- The observation an agent measured for the client, or the empty one that stands for none. -/
def MeasuredOrNone (a : ClientId) (tr : List DeploymentTrans) (obs : Observation) : Prop :=
  obs = {} ∨ MeasuredFor a tr obs

/-- **Rewards are measured.** Over every run of the deployment, the reward that a step of a client
returns is the score of the duration it observed against a baseline, and both durations are of
observations that agents measured for this client. -/
theorem deployment_rewards {s : Deployment} {pre post : List DeploymentTrans} {x : DeploymentTrans}
    (h : Lts.Run (DeploymentStep sha256Hex cfg) .init (pre ++ x :: post) s) {a : ClientId}
    {o : SocketTunerObservation} (hlab : x.lab = .sys (.returned a (.ok (some o)))) {n base : Nat}
    {reduction : ℚ} (hstep : o.metadata = .step n base reduction) :
    o.reward = (score cfg.round base o.observation.durationUs.toNat).reward ∧
      MeasuredOrNone a pre o.observation ∧
      ∃ obs, MeasuredOrNone a pre obs ∧ base = obs.durationUs.toNat := by
  obtain ⟨_, hpre, hrest⟩ := h.split
  obtain ⟨rfl, hx, -⟩ := hrest.head
  have hi : ScoreInv cfg (sysTrace pre) x.src.sys :=
    (run_sysTrace hpre).history (P := fun _ _ => True) (fun _ _ hi hs _ => hi.step hs)
      (fun _ _ _ _ => trivial) scoreInv_init
  have hsys : SysStep cfg x.src.sys (.returned a (.ok (some o))) x.dst.sys :=
    (hlab ▸ hx).sysPart
  have hres : ResultOk cfg (answersFor a (sysTrace pre)) o :=
    ((Sys.step_clients hsys.choose_spec).scores hi).2 a o rfl
  have hknown : ∀ {obs}, Known (answersFor a (sysTrace pre)) obs → MeasuredOrNone a pre obs :=
    fun hk => hk.imp_right (answersFor_measured hpre)
  obtain ⟨hreward, obs, hk, hbase⟩ := hres.scored n base reduction hstep
  exact ⟨hreward, hknown hres.known, obs, hknown hk, hbase⟩

/-- An event of a second process, on a socket of its own. -/
def secondEvent (op : SockOp) (ktimeNs : UInt64) : SockOps :=
  { googleEvent op with cookie := 2, pidTgid := 0x109300000000, ktimeNs }

/-- The episode again, with the connections ended after 2000 and after 1500 microseconds, up to the
return of the step. -/
def scoreActions : List DeploymentAction :=
  episodeActions.take 11 ++ [.agent loneAgent (.sock (some 0) googleState)] ++
  (episodeActions.drop 11).take 14 ++
  [.agent loneAgent (.sock (some 1) (secondEvent .tcpConnectCb 5000000)),
   .agent loneAgent (.sock (some 1) (secondEvent .stateCb 6500000)),
   .agent loneAgent (.command 1 {}), .agent loneAgent (.command 1 {}),
   .reply 1 { order := [loneAgent] }, .sys (.answer 1 true), .sys (.finish 0)]

/-- The run of these actions. -/
def scoreRun : List DeploymentTrans × Deployment :=
  Lts.played (Deployment.step sha256Google .default) .init scoreActions

theorem run_scoreRun : Lts.Run (DeploymentStep sha256Google .default) .init scoreRun.1 scoreRun.2 :=
  Lts.run_played (by decide +kernel)

theorem scoreRun_ne_nil : scoreRun.1 ≠ [] := List.ne_nil_of_length_pos (by decide +kernel)

/-- What the step returns. -/
def scoredResult : SocketTunerObservation :=
  { observation := { remoteIp := "142.250.1.100", remotePort := 80, durationUs := 1500 }
    sessionId := loneAgent
    done := false
    reward := 1 / 2
    metadata := .step 1 2000 (1 / 4) }

/-- The client and the observation a method returned. -/
def DeploymentEvent.result : DeploymentEvent → Option (ClientId × SocketTunerObservation)
  | .sys (.returned a (.ok (some o))) => some (a, o)
  | _ => none

theorem eq_returned_of_result {e : DeploymentEvent} {a : ClientId} {o : SocketTunerObservation}
    (h : e.result = some (a, o)) : e = .sys (.returned a (.ok (some o))) := by
  unfold DeploymentEvent.result at h
  split at h
  · cases h
    rfl
  · cases h

theorem deployment_rewards_score :
    ∃ pre x, scoreRun.1 = pre ++ [x] ∧ x.lab = .sys (.returned 0 (.ok (some scoredResult))) ∧
      scoredResult.reward = (score EnvConfig.default.round 2000 1500).reward ∧
      MeasuredOrNone 0 pre scoredResult.observation ∧
      ∃ obs, MeasuredOrNone 0 pre obs ∧ 2000 = obs.durationUs.toNat := by
  have hsplit := (List.dropLast_append_getLast scoreRun_ne_nil).symm
  have hlab : (scoreRun.1.getLast scoreRun_ne_nil).lab =
      .sys (.returned 0 (.ok (some scoredResult))) :=
    eq_returned_of_result (by decide +kernel)
  exact ⟨_, _, hsplit, hlab, deployment_rewards (hsplit ▸ run_scoreRun) hlab rfl⟩

end SocketTuner.System
