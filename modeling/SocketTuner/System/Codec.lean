import SocketTuner.Agent.Actions
import SocketTuner.Agent.Metrics
import SocketTuner.Env.Inference

/-!
# Addresses and ports on their way around

The sockops program records the address of a connection as a word, the agent reports it as a string,
the environment sends that string back as the target of its steps, and the agent turns it into the
key under which the sockops program looks for an action. The two codecs are inverse to each other:
the key has the address that was recorded, and no other string with dots means it (`address_codec`).
-/

namespace SocketTuner.System

open Env Agent Prog

/-! ## Addresses -/

theorem denotes_renderIp (met : TuningMetrics) :
    Denotes (Manager.renderIp met) met.remoteIp := to4_parseIP_ipString _ _ _ _

/-- A target without a colon is the string reported for the address it denotes. -/
theorem renderIp_of_denotes {ip : String} {met : TuningMetrics} (hcolon : ':' ∉ ip.toList)
    (hden : Denotes ip met.remoteIp) : Manager.renderIp met = ip :=
  (eq_ipString_of_parseIP hcolon hden).symm

/-! ## Ports -/

/-- The mask of `bswap32` keeps the second byte. -/
theorem toNat_and_mid (x : UInt32) : (x &&& 0xff00).toNat = x.toNat / 2 ^ 8 % 2 ^ 8 * 2 ^ 8 := by
  have hmask : (0xff00 : UInt32).toNat = (2 ^ 8 - 1) <<< 8 := by decide
  rw [UInt32.toNat_and, hmask, ← Nat.shiftRight_eq_div_pow, ← Nat.and_two_pow_sub_one_eq_mod,
    ← Nat.shiftLeft_eq]
  apply Nat.eq_of_testBit_eq
  intro i
  simp only [Nat.testBit_and, Nat.testBit_shiftLeft, Nat.testBit_shiftRight]
  by_cases hi : 8 ≤ i
  · rw [Nat.add_sub_cancel' hi]
    simp [hi]
  · simp [hi]

theorem bswap32_leUint32 (b0 b1 b2 b3 : UInt8) :
    bswap32 (leUint32 b0 b1 b2 b3) = leUint32 b3 b2 b1 b0 := by
  have h0 := b0.toNat_lt
  have h1 := b1.toNat_lt
  have h2 := b2.toNat_lt
  have h3 := b3.toNat_lt
  have hw := toNat_leUint32 b0 b1 b2 b3
  generalize leUint32 b0 b1 b2 b3 = w at hw
  have hbyte0 : (w <<< 24).toNat = b0.toNat * 2 ^ 24 := by
    rw [UInt32.toNat_shiftLeft, Nat.shiftLeft_eq, hw]
    simp only [UInt32.reduceToNat, Nat.reduceMod]
    omega
  have hbyte1 : ((w &&& 0xff00) <<< 8).toNat = b1.toNat * 2 ^ 16 := by
    rw [UInt32.toNat_shiftLeft, Nat.shiftLeft_eq, toNat_and_mid, hw]
    simp only [UInt32.reduceToNat, Nat.reduceMod]
    omega
  have hbyte2 : ((w >>> 8) &&& 0xff00).toNat = b2.toNat * 2 ^ 8 := by
    rw [toNat_and_mid, UInt32.toNat_shiftRight, Nat.shiftRight_eq_div_pow, hw]
    simp only [UInt32.reduceToNat, Nat.reduceMod]
    omega
  have hbyte3 : (w >>> 24).toNat = b3.toNat := by
    rw [UInt32.toNat_shiftRight, Nat.shiftRight_eq_div_pow, hw]
    simp only [UInt32.reduceToNat, Nat.reduceMod]
    omega
  rw [← UInt32.toNat_inj, toNat_leUint32, bswap32]
  simp only [UInt32.toNat_or, hbyte0, hbyte1, hbyte2, hbyte3]
  -- from the lowest byte up, as the bytes of a word are put together
  rw [Nat.or_comm, Nat.or_comm (_ ||| _), Nat.or_comm (_ * 2 ^ 24), ← Nat.or_assoc, ← Nat.or_assoc,
    or_mul_two_pow 8 _ (by omega), or_mul_two_pow 16 _ (by omega), or_mul_two_pow 24 _ (by omega)]

/-- The word `remote_port` of a port: its two bytes, in network byte order, are the upper half. -/
def portWord (p : UInt16) : UInt32 := leUint32 0 0 (p >>> 8).toUInt8 p.toUInt8

theorem bswap32_portWord (p : UInt16) : bswap32 (portWord p) = p.toUInt32 := by
  have hp := p.toNat_lt
  rw [portWord, bswap32_leUint32, ← UInt32.toNat_inj, toNat_leUint32]
  simp only [UInt16.toNat_toUInt8, UInt16.toNat_shiftRight, UInt16.toNat_toUInt32,
    Nat.shiftRight_eq_div_pow, UInt16.reduceToNat, UInt8.reduceToNat, Nat.reduceMod]
  omega

/-! ## The target of an episode -/

/-- `reset` takes the target from the response that has `success`. -/
theorem reset_target {env env' : SocketTunerEnvironment} {log : List RpcEvent}
    {r : Except PyErr SocketTunerObservation} (h : After env.reset log (.ret (r, env')))
    {req : ResetRequest} {resp : ResetResponse}
    (hmem : ⟨.reset req, (.ok resp : Except String ResetResponse)⟩ ∈ log)
    (hs : resp.success = true) :
    env'.targetIp = (resp.initialObservation.getD {}).remoteIp ∧
      env'.targetPort = (resp.initialObservation.getD {}).remotePort := by
  have hacq : acquired ⟨.reset req, (.ok resp : Except String ResetResponse)⟩ ≠ none := by
    simp [acquired, hs]
  unfold SocketTunerEnvironment.reset at h
  simp only at h
  split at h
  · rw [(after_ret_iff.1 h).1] at hmem
    cases hmem
  · obtain ⟨log₁, log₂, a, rfl, h₁, h₂⟩ := after_bind_ret_iff.1 h
    have hlog₂ : log₂ = [] := by
      cases a with
      | error e => exact (after_ret_iff.1 h₂).1
      | ok response => exact (after_ret_iff.1 h₂).1
    rw [hlog₂, List.append_nil] at hmem
    obtain ⟨err, -, hlog⟩ | ⟨req', resp', pre, rfl, -, rfl, hpre⟩ :=
      SocketTunerEnvironment.resetAttempts_log h₁
    · exact absurd (hlog _ hmem).2 hacq
    · rcases List.mem_append.1 hmem with hmem | hmem
      · exact absurd (hpre _ hmem).2 hacq
      · cases List.mem_singleton.1 hmem
        cases (after_ret_iff.1 h₂).2
        exact ⟨rfl, rfl⟩

/-- Steps are sent to the target, and leave it as it is. -/
theorem steps_target {cfg : EnvConfig} {env env' : SocketTunerEnvironment} {tr : CallTrace}
    (h : Lts.Run (CallStep cfg) env tr env')
    (hsteps : ∀ x ∈ tr, ∃ action, x.lab.call = .step action) {req : StepRequest}
    {reply : Except String StepResponse} (hsent : ⟨.step req, reply⟩ ∈ sent tr) :
    req.targetIp = env.targetIp ∧ req.targetPort = env.targetPort := by
  induction h with
  | nil => cases hsent
  | @cons env env₁ env' e tr hs _ ih =>
    obtain ⟨call, log, result⟩ := e
    obtain ⟨action, rfl⟩ : ∃ action, call = .step action := hsteps _ List.mem_cons_self
    obtain ⟨log₁, log₂, ⟨r, env₂⟩, hlog, h₁, h₂⟩ := after_bind_ret_iff.1 hs
    obtain ⟨rfl, hr⟩ := after_ret_iff.1 h₂
    cases hr
    rw [List.append_nil] at hlog
    subst hlog
    simp only [sent, List.flatMap_cons, List.mem_append] at hsent
    rcases hsent with hsent | hsent
    · have hreq := SocketTunerEnvironment.stepRequest_of_sent h₁ hsent
      exact (SocketTunerEnvironment.stepRequest_env hreq).2
    · have henv := (SocketTunerEnvironment.step_env h₁).1
      have hrest := ih (fun x hx => hsteps x (List.mem_cons_of_mem _ hx)) hsent
      rw [henv] at hrest
      exact hrest

/-- A `Step` request of an episode whose `reset` was answered with the observation. -/
inductive TargetedBy (obs : Observation) (req : StepRequest) : Prop
  | intro {cfg : EnvConfig} {env env' u : SocketTunerEnvironment} {log : List RpcEvent}
      {r : Except PyErr SocketTunerObservation} {resetReq : ResetRequest} {resp : ResetResponse}
      {tr : CallTrace} {reply : Except String StepResponse}
      (hreset : After env.reset log (.ret (r, env')))
      (hresp : ⟨.reset resetReq, (.ok resp : Except String ResetResponse)⟩ ∈ log)
      (hsuccess : resp.success = true) (hobs : resp.initialObservation = some obs)
      (hrun : Lts.Run (CallStep cfg) env' tr u)
      (hsteps : ∀ x ∈ tr, ∃ action, x.lab.call = .step action)
      (hsent : ⟨.step req, reply⟩ ∈ sent tr) : TargetedBy obs req

theorem TargetedBy.target {obs : Observation} {req : StepRequest} (h : TargetedBy obs req) :
    req.targetIp = obs.remoteIp ∧ req.targetPort = obs.remotePort := by
  obtain ⟨hreset, hresp, hsuccess, hobs, hrun, hsteps, hsent⟩ := h
  obtain ⟨hip, hport⟩ := steps_target hrun hsteps hsent
  obtain ⟨hip', hport'⟩ := reset_target hreset hresp hsuccess
  rw [hobs] at hip' hport'
  exact ⟨hip.trans hip', hport.trans hport'⟩

/-! ## The codec -/

/-- **Addresses and ports survive the round trip.**
* The string reported for any address is accepted as a target, with the key of that address.
* In every run of the agent, what `GetMetricForPid` reports for a process comes from one of its
  connections. A step of the episode that got this report is for the key of the remote address of
  that connection, under which the sockops program looks for the options of every connection with
  this address; and the port reported is the one the kernel held in network byte order.
* Different addresses have different strings.
* A target that is accepted and has no colon, so every dotted quad, is the string reported for the
  address of its key. -/
theorem address_codec :
    (∀ met port, Manager.ipToKey (Manager.renderIp met) port = .ok ⟨met.remoteIp, 0⟩) ∧
    (∀ sha256Hex tr s o pid met ip port, Lts.Run (AgentStep sha256Hex) .init tr s →
      ((Manager.getMetricForPid pid).run (AgentCmd.exec o) s.world).1 = .ok (met, ip, port) →
      ∃ x ∈ tr, ∃ sk, x.lab.event = some sk ∧ sk.isConnect = true ∧ sk.pid = pid ∧
        (∀ req, TargetedBy (Server.observation met ip port) req →
          Manager.ipToKey req.targetIp req.targetPort = .ok ⟨sk.remoteIp4, 0⟩) ∧
        (∀ m sk', sk'.Established → sk'.remoteIp4 = sk.remoteIp4 →
          (bpfSockmap m sk').2.sockopts =
            ((m.actionMap.lookup ⟨sk.remoteIp4, 0⟩).map TuningAction.calls).getD []) ∧
        ∀ p, sk.remotePort = portWord p → port = p.toUInt32) ∧
    (∀ met met', Manager.renderIp met = Manager.renderIp met' → met.remoteIp = met'.remoteIp) ∧
    (∀ ip port key met, ':' ∉ ip.toList → Manager.ipToKey ip port = .ok key →
      met.remoteIp = key.ip → Manager.renderIp met = ip) := by
  have hkey : ∀ met port, Manager.ipToKey (Manager.renderIp met) port = .ok ⟨met.remoteIp, 0⟩ :=
    fun met port => Manager.ipToKey_eq_ok_iff.2 ⟨denotes_renderIp met, rfl⟩
  refine ⟨hkey, ?_, ?_, ?_⟩
  · intro sha256Hex tr s o pid met ip port hrun hreport
    obtain ⟨hmet, rfl, rfl⟩ := Manager.getMetricForPid_run_ok_iff.1 hreport
    obtain ⟨x, hx, sk, hl, hc, hpid, hip, hport⟩ := connected_of_lookup hrun pid met hmet
    refine ⟨x, hx, sk, hl, hc, hpid, fun req hreq => ?_, fun m sk' hest hsk' => ?_, fun p hp => ?_⟩
    · rw [hreq.target.1, ← hip]
      exact hkey met req.targetPort
    · rw [← hsk']
      exact (sockopts_bpfSockmap m sk').1 hest
    · rw [hport, hp, bswap32_portWord]
  · intro met met' heq
    exact (denotes_renderIp met).unique (heq ▸ denotes_renderIp met')
  · intro ip port key met hcolon hk hmet
    refine renderIp_of_denotes hcolon ?_
    rw [hmet]
    exact (Manager.ipToKey_eq_ok_iff.1 hk).1

/-- A router that answers a `Reset` with the observation. -/
def observing (obs : Observation) : (c : Rpc) → c.Ret
  | .reset _ =>
    (.ok { success := true, sessionId := "10.0.0.7:50051", initialObservation := some obs } :
      Except _ _)
  | .step _ => (.ok {} : Except _ _)
  | .close _ => (.ok { success := true } : Except _ _)

theorem exists_targetedBy (obs : Observation) : ∃ req, TargetedBy obs req :=
  ⟨_, .intro (after_play (observing obs) (SocketTunerEnvironment.init).reset) List.mem_cons_self
    rfl rfl (run_playCalls false [.step {}] _)
    (fun x hx => ⟨{}, by rw [List.mem_singleton.1 hx]⟩) List.mem_cons_self⟩

/-- The report of a baseline run, and a step of its episode. -/
theorem address_codec_baseline :
    ∃ x ∈ (playActions (baselineActions 0)).1, ∃ sk, x.lab.event = some sk ∧
      ∃ req, TargetedBy (Server.observation (initialMetrics (googleEvent .tcpConnectCb))
        "142.250.1.100" 80) req ∧
      Manager.ipToKey req.targetIp req.targetPort = .ok ⟨sk.remoteIp4, 0⟩ := by
  obtain ⟨x, hx, sk, hl, -, -, hkey, -, -⟩ := address_codec.2.1 sha256Google _ _ {} 4242
    (initialMetrics (googleEvent .tcpConnectCb)) "142.250.1.100" 80
    (run_playActions (baselineActions 0) rfl) (by rfl)
  obtain ⟨req, hreq⟩ := exists_targetedBy
    (Server.observation (initialMetrics (googleEvent .tcpConnectCb)) "142.250.1.100" 80)
  exact ⟨x, hx, sk, hl, req, hreq, hkey req hreq⟩

end SocketTuner.System
