import Mathlib.Algebra.Order.Group.Int
import SocketTuner.Router.Stale
import SocketTuner.Router.WarmPool

/-!
# Starting the router

`env-router/main.go` reads its configuration from the environment, starts the session cleanup, the
watcher and the scaler, and serves. The numbers of seconds are any `int`, and
`time.Duration(n) * time.Second` wraps.

What `SESSION_TIMEOUT_SECONDS` then means: as long as it is at most 9223372036, and no longer, a
cleanup frees only agents that were idle for more than that many seconds (`keepsSessions_iff`). And
however large, a lease that is not used for the timeout and one cleanup interval is over
(`leases_expire`).
-/

namespace SocketTuner.Router

open GoMap LeaseTable

/-! ## Configuration -/

/-- `envOrDefault`: an empty variable counts as not set. -/
def envOrDefault (getenv : String → String) (key fallback : String) : String :=
  if getenv key ≠ "" then getenv key else fallback

/-- The configuration of the router. -/
structure Config where
  listenAddr : String
  agentServiceName : String
  agentNamespace : String
  agentDeploymentName : String
  agentGRPCPort : String
  warmPoolSize : Int64
  scalerIntervalSec : Int64
  sessionTimeoutSec : Int64
  cleanupIntervalSec : Int64
  deriving DecidableEq, Repr

/-- The configuration `main` reads from the environment. -/
def config (getenv : String → String) : Config where
  listenAddr := envOrDefault getenv "LISTEN_ADDR" ":50050"
  agentServiceName := getenv "AGENT_SERVICE_NAME"
  agentNamespace := envOrDefault getenv "AGENT_NAMESPACE" "default"
  agentDeploymentName := getenv "AGENT_DEPLOYMENT_NAME"
  agentGRPCPort := envOrDefault getenv "AGENT_GRPC_PORT" "50051"
  warmPoolSize := Router.warmPoolSize getenv
  scalerIntervalSec := envIntOrDefault getenv "SCALER_INTERVAL_SECONDS" 10
  sessionTimeoutSec := envIntOrDefault getenv "SESSION_TIMEOUT_SECONDS" 300
  cleanupIntervalSec := envIntOrDefault getenv "CLEANUP_INTERVAL_SECONDS" 60

/-- `time.Duration(n) * time.Second`, in nanoseconds. -/
def seconds (n : Int64) : Int64 := n * 1000000000

theorem toInt_seconds (n : Int64) :
    (seconds n).toInt = (n.toInt * 1000000000).bmod 18446744073709551616 := by
  rw [seconds, Int64.toInt_mul]
  rfl

/-- A wrapped duration is too short, never too long. -/
theorem toInt_seconds_le {n : Int64} (h : 0 ≤ n.toInt) :
    (seconds n).toInt ≤ n.toInt * 1000000000 := by
  rw [toInt_seconds, Int.bmod_eq_emod]
  split <;> omega

theorem le_toInt_seconds_iff {n : Int64} :
    n.toInt * 1000000000 ≤ (seconds n).toInt ↔ n.toInt ≤ 9223372036 := by
  rw [toInt_seconds, Int.bmod_eq_emod]
  split <;> omega

/-! ## The start -/

/-- How the process ends before it serves. -/
inductive Exit
  | fatal (msg : String)
  | panic (msg : String)
  deriving DecidableEq, Repr

/-- What `main` is told by the libraries it calls. -/
structure Startup where
  inClusterConfig : Option String := none
  newForConfig : Option String := none
  listen : Option String := none

/-- `if err != nil { log.Fatalf(…) }` -/
def fatalIf (text : String) : Option String → Except Exit Unit
  | some err => .error (.fatal s!"{text}: {err}")
  | none => .ok ()

/-- `time.NewTicker(d)`, which panics unless the interval is positive. -/
def newTicker (d : Int64) : Except Exit Unit :=
  if d ≤ 0 then .error (.panic "non-positive interval for NewTicker") else .ok ()

/-- `main` up to `Serve`. The two tickers are made in goroutines; whenever one of them panics, the
process ends. -/
def main (getenv : String → String) (out : Startup) : Except Exit Config := do
  let cfg := config getenv
  if cfg.agentServiceName = "" then
    throw (.fatal "AGENT_SERVICE_NAME environment variable is required")
  if cfg.agentDeploymentName = "" then
    throw (.fatal "AGENT_DEPLOYMENT_NAME environment variable is required")
  fatalIf "Failed to get in-cluster K8s config" out.inClusterConfig
  fatalIf "Failed to create K8s client" out.newForConfig
  newTicker (seconds cfg.cleanupIntervalSec)
  newTicker (seconds cfg.scalerIntervalSec)
  fatalIf "Failed to listen" out.listen
  return cfg

@[simp] theorem fatalIf_ok_iff {text : String} {err : Option String} :
    fatalIf text err = .ok () ↔ err = none := by
  cases err <;> simp [fatalIf]

@[simp] theorem newTicker_ok_iff {d : Int64} : newTicker d = .ok () ↔ 0 < d.toInt := by
  have hle : d ≤ 0 ↔ d.toInt ≤ 0 := Int64.le_iff_toInt_le
  unfold newTicker
  split
  · next h => simpa using hle.1 h
  · next h => simpa using fun hd => h (hle.2 hd)

/-- The router serves exactly if it is told its service and deployment, its libraries agree, and
neither interval is wrapped or set to something that is not positive. -/
theorem main_ok_iff {getenv : String → String} {out : Startup} {cfg : Config} :
    main getenv out = .ok cfg ↔ cfg = config getenv ∧ cfg.agentServiceName ≠ "" ∧
      cfg.agentDeploymentName ≠ "" ∧ out.inClusterConfig = none ∧ out.newForConfig = none ∧
      0 < (seconds cfg.cleanupIntervalSec).toInt ∧ 0 < (seconds cfg.scalerIntervalSec).toInt ∧
      out.listen = none := by
  have bind_ok : ∀ {x : Except Exit Unit} {f : Unit → Except Exit Config},
      x >>= f = .ok cfg ↔ x = .ok () ∧ f () = .ok cfg := by
    intro x f
    cases x <;> simp [bind, Except.bind]
  have pure_ok : (pure (config getenv) : Except Exit Config) = .ok cfg ↔ cfg = config getenv :=
    ⟨fun h => (Except.ok.inj h).symm, fun h => congrArg Except.ok h.symm⟩
  unfold main
  constructor
  · intro h
    by_cases hs : (config getenv).agentServiceName = ""
    · simp [hs, throw, throwThe, MonadExceptOf.throw, bind, Except.bind] at h
    by_cases hd : (config getenv).agentDeploymentName = ""
    · simp [hs, hd, throw, throwThe, MonadExceptOf.throw, bind, Except.bind] at h
    simp only [hs, hd, ↓reduceIte, bind_ok, fatalIf_ok_iff, newTicker_ok_iff, pure_ok] at h
    obtain ⟨hcluster, hclient, hcleanup, hscaler, hlisten, rfl⟩ := h
    exact ⟨rfl, hs, hd, hcluster, hclient, hcleanup, hscaler, hlisten⟩
  · rintro ⟨rfl, hs, hd, hrest⟩
    simpa only [hs, hd, ↓reduceIte, bind_ok, fatalIf_ok_iff, newTicker_ok_iff, pure_ok, and_true]
      using hrest

/-- The names the router needs, and a session timeout. -/
def testEnv (sessionTimeout : String) (key : String) : String :=
  if key = "AGENT_SERVICE_NAME" then "env-ebpf-agent"
  else if key = "AGENT_DEPLOYMENT_NAME" then "env-ebpf-agent"
  else if key = "SESSION_TIMEOUT_SECONDS" then sessionTimeout
  else ""

theorem main_testEnv (sessionTimeout : String) :
    main (testEnv sessionTimeout) {} = .ok (config (testEnv sessionTimeout)) := by
  have hname : "env-ebpf-agent" ≠ "" := by decide
  have hcleanup : 0 < (seconds 60).toInt := by decide
  have hscaler : 0 < (seconds 10).toInt := by decide
  exact main_ok_iff.2 ⟨rfl, hname, hname, rfl, rfl, hcleanup, hscaler, rfl⟩

/-! ## The running router -/

/-- Its cleanups all have the session timeout. -/
def Config.Makes (cfg : Config) : PoolCmd → Prop
  | .cleanupStaleAgents timeout => timeout = (seconds cfg.sessionTimeoutSec).toInt
  | _ => True

/-- A call on the pool that a router with this configuration makes. -/
def RouterStep (cfg : Config) (p : Pool) (e : TimedEvent) (p' : Pool) : Prop :=
  cfg.Makes e.2.1 ∧ TimedStep p e p'

/-- A router `main` started, with the calls it made on its pool. -/
structure Serves (getenv : String → String) (cfg : Config) (tr : List TimedTrans) (p : Pool) :
    Prop where
  started : ∃ out, main getenv out = .ok cfg
  run : Lts.Run (RouterStep cfg) Pool.newPool tr p

/-- The call is one of `CleanupStaleAgents`. -/
def IsCleanup (x : TimedTrans) : Prop := ∃ timeout, x.lab.2.1 = .cleanupStaleAgents timeout

theorem RouterStep.poolInv {cfg : Config} {p p' : Pool} {e : TimedEvent} (hp : PoolInv p)
    (h : RouterStep cfg p e p') : PoolInv p' := hp.step h.2.poolStep

/-- A cleanup of the router is one with its session timeout. -/
theorem RouterStep.cleanup {cfg : Config} {x : TimedTrans} (h : RouterStep cfg x.src x.lab x.dst)
    (hx : IsCleanup x) :
    IsRange x.src.agents x.lab.1.order ∧
      x.src.cleanupStaleAgents (seconds cfg.sessionTimeoutSec).toInt x.lab.1.order x.lab.1.clock =
        x.dst := by
  obtain ⟨timeout, htimeout⟩ := hx
  obtain ⟨hmakes, hr, he⟩ := h
  have hdst : (x.lab.2.1.exec x.lab.1 x.src).2 = x.dst := congrArg Prod.snd he
  rw [htimeout] at hmakes hdst
  obtain rfl : timeout = (seconds cfg.sessionTimeoutSec).toInt := hmakes
  exact ⟨hr, hdst⟩

theorem run_routerCalls {cfg : Config} {l : List (Outside × PoolCmd)} :
    ∀ {p : Pool}, p.OrdersOk l → (∀ x ∈ l, cfg.Makes x.2) →
      Lts.Run (RouterStep cfg) p (p.timedCalls l) (p.calls l).2 := by
  induction l with
  | nil => intro p _ _; exact .nil p
  | cons x l ih =>
    intro p h hm
    obtain ⟨hx, hl⟩ := List.forall_mem_cons.1 hm
    exact .cons ⟨hx, h.1, rfl⟩ (ih h.2 hl)

/-! ## No session ends early -/

theorem leased_cleanup_iff {p : Pool} {order : List Addr} (hr : IsRange p.agents order)
    {timeout : Duration} {clock : Addr → Time} {a : Addr} {ac : AgentClient}
    (hac : p.agents.lookup a = some ac) :
    (p.cleanupStaleAgents timeout order clock).Leased a ↔
      ac.busy = true ∧ clock a - ac.lastActivity ≤ timeout := by
  unfold Pool.Leased
  rcases cleanup_entry hr timeout clock hac with ⟨hstale, hafter⟩ | ⟨hfresh, hafter⟩
  · simp only [AgentClient.isStale, Bool.and_eq_true, decide_eq_true_eq] at hstale
    refine iff_of_false ?_ fun h => absurd h.2 (Int.not_le.2 hstale.2)
    rintro ⟨ac', hac', hbusy⟩
    obtain ⟨-, rfl⟩ := AgentClient.released_eq_some.1 (hafter.symm.trans hac')
    cases hbusy
  · simp only [AgentClient.isStale, Bool.and_eq_false_iff, decide_eq_false_iff_not,
      Int.not_lt] at hfresh
    rw [hafter]
    constructor
    · rintro ⟨ac', hac', hbusy⟩
      cases hac'
      exact ⟨hbusy, hfresh.resolve_left (by simp [hbusy])⟩
    · rintro ⟨hbusy, -⟩
      exact ⟨ac, rfl, hbusy⟩

/-- A cleanup frees an agent only after the configured time without activity. -/
def KeepsSessions (getenv : String → String) : Prop :=
  ∀ cfg tr p pre x post a, Serves getenv cfg tr p → (tr.flatMap readings).Pairwise (· ≤ ·) →
    tr = pre ++ x :: post → IsCleanup x → Released a x →
      ∀ t ∈ activities a pre, cfg.sessionTimeoutSec.toInt * 1000000000 < x.lab.1.clock a - t

/-- An agent is leased at 0 and not used. -/
def unusedCalls : List (Outside × PoolCmd) :=
  [({}, .addAgent "10.0.0.7:50051"), ({ order := ["10.0.0.7:50051"] }, .lockFreeAgent)]

/-- The pool after these calls. -/
def unusedPool : Pool := (Pool.newPool.calls unusedCalls).2

theorem unusedPool_range : IsRange unusedPool.agents ["10.0.0.7:50051"] := by decide

theorem lookup_unusedPool : unusedPool.agents.lookup "10.0.0.7:50051" =
    some { addr := "10.0.0.7:50051", conn := 0, busy := true, lastActivity := 0,
           pendingRemoval := false } := by decide

/-- The cleanup of `cfg` at `now`. -/
def cleanupCall (cfg : Config) (now : Time) : Outside × PoolCmd :=
  ({ order := ["10.0.0.7:50051"], clock := fun _ => now },
    .cleanupStaleAgents (seconds cfg.sessionTimeoutSec).toInt)

theorem run_unused (cfg : Config) (now : Time) : Lts.Run (RouterStep cfg) Pool.newPool
    (Pool.newPool.timedCalls (unusedCalls ++ [cleanupCall cfg now]))
    (Pool.newPool.calls (unusedCalls ++ [cleanupCall cfg now])).2 :=
  run_routerCalls ⟨by decide, by decide, unusedPool_range, trivial⟩
    (by simp [unusedCalls, cleanupCall, Config.Makes])

/-- **The session timeout is kept** exactly if the seconds, in nanoseconds, do not wrap. -/
theorem keepsSessions_iff {getenv : String → String} {out : Startup} {cfg : Config}
    (h : main getenv out = .ok cfg) :
    KeepsSessions getenv ↔ cfg.sessionTimeoutSec.toInt ≤ 9223372036 := by
  constructor
  · intro hkeeps
    by_contra hlong
    have hwrap := mt le_toInt_seconds_iff.1 hlong
    -- the cleanup runs when the wrapped timeout has just passed
    obtain ⟨now, hnow⟩ : ∃ now, now = max 0 ((seconds cfg.sessionTimeoutSec).toInt + 1) :=
      ⟨_, rfl⟩
    have hsplit : Pool.newPool.timedCalls (unusedCalls ++ [cleanupCall cfg now]) =
      Pool.newPool.timedCalls unusedCalls ++ _ :: [] := rfl
    have hread : (Pool.newPool.timedCalls (unusedCalls ++ [cleanupCall cfg now])).flatMap readings =
      [0, 0, now] := rfl
    have hpos : 0 ≤ now := by omega
    have hclock : [0, 0, now].Pairwise (· ≤ ·) := by simp [hpos]
    have hfreed : ¬((cleanupCall cfg now).2.exec (cleanupCall cfg now).1 unusedPool).2.Leased
        "10.0.0.7:50051" := by
      intro hleased
      have hle : now - 0 ≤ (seconds cfg.sessionTimeoutSec).toInt :=
        ((leased_cleanup_iff unusedPool_range lookup_unusedPool).1 hleased).2
      omega
    have hkept := hkeeps cfg _ _ _ _ [] _ ⟨⟨out, h⟩, run_unused cfg now⟩ (hread ▸ hclock) hsplit
      ⟨_, rfl⟩ ⟨⟨_, lookup_unusedPool, rfl⟩, hfreed⟩ 0 (by decide)
    have hlt : cfg.sessionTimeoutSec.toInt * 1000000000 < now - 0 := hkept
    omega
  · rintro hshort cfg' tr p pre x post a ⟨⟨out', h'⟩, hrun⟩ hclock rfl hx
      ⟨⟨ac, hac, hbusy⟩, hfree⟩ t ht
    obtain rfl : cfg' = cfg := (main_ok_iff.1 h').1.trans (main_ok_iff.1 h).1.symm
    obtain ⟨_, hpre, hrest⟩ := hrun.split
    obtain ⟨rfl, hstep, -⟩ := hrest.head
    obtain ⟨hr, hdst⟩ := hstep.cleanup hx
    rw [List.flatMap_append, List.pairwise_append] at hclock
    have hlatest := (lastActivity_latest (hpre.mono fun _ _ _ hs => hs.2) hclock.1 hac).2 t ht
    rw [← hdst, leased_cleanup_iff hr hac, not_and, Int.not_le] at hfree
    calc cfg'.sessionTimeoutSec.toInt * 1000000000
        ≤ (seconds cfg'.sessionTimeoutSec).toInt := le_toInt_seconds_iff.2 hshort
      _ < x.lab.1.clock a - ac.lastActivity := hfree hbusy
      _ ≤ x.lab.1.clock a - t := Int.sub_le_sub_left hlatest _

/-- Up to 9223372036 seconds, some 292 years. -/
theorem keepsSessions_testEnv :
    KeepsSessions (testEnv "9223372036") ∧ ¬KeepsSessions (testEnv "9223372037") :=
  ⟨(keepsSessions_iff (main_testEnv _)).2 (by decide),
    fun h => absurd ((keepsSessions_iff (main_testEnv _)).1 h) (by decide)⟩

/-! ## No lease outlives its use -/

/-- The busy agents were all used at `bound` or later. -/
def UsedSince (bound : Time) (p : Pool) : Prop :=
  ∀ a ac, p.agents.lookup a = some ac → ac.busy = true → bound ≤ ac.lastActivity

theorem TimedStep.activity_of_gain {x : TimedTrans} (hp : PoolInv x.src)
    (hs : TimedStep x.src x.lab x.dst) {a : Addr} (ha : ¬x.src.Leased a) (ha' : x.dst.Leased a) :
    activity a x ≠ none := by
  obtain ⟨p, ⟨o, ⟨c, r⟩⟩, p'⟩ := x
  have hlock := (PoolStep.refines hp hs.poolStep).lock_of_held (mt Pool.leased_iff.2 ha)
    (Pool.leased_iff.1 ha')
  cases c with
  | lockFreeAgent =>
    cases r with
    | error err => cases hlock
    | ok ac =>
      obtain rfl : ac.addr = a := Op.lock.inj hlock
      simp [activity]
  | addAgent addr => cases r <;> cases hlock
  | _ => cases hlock

/-- Calls at `bound` or later keep it. -/
theorem UsedSince.step {bound : Time} {x : TimedTrans} (h : UsedSince bound x.src)
    (hp : PoolInv x.src) (hs : TimedStep x.src x.lab x.dst) (hr : ∀ t ∈ readings x, bound ≤ t) :
    UsedSince bound x.dst := by
  intro a ac hac hbusy
  have hlast := hs.lastActivity hp (Finmap.mem_iff.2 ⟨ac, hac⟩)
  rw [hac, Option.map_some] at hlast
  cases hact : activity a x with
  | some t =>
    rw [show activity a ⟨x.src, x.lab, x.dst⟩ = some t from hact, Option.some_or] at hlast
    obtain rfl := Option.some.inj hlast
    exact hr _ ((activity_sublist a x).subset (by simp [hact]))
  | none =>
    rw [show activity a ⟨x.src, x.lab, x.dst⟩ = none from hact, Option.none_or] at hlast
    have hleased : x.src.Leased a := by
      by_contra hnot
      exact hs.activity_of_gain hp hnot ⟨ac, hac, hbusy⟩ hact
    obtain ⟨old, hold, holdbusy⟩ := hleased
    rw [hold, Option.map_some] at hlast
    exact Option.some.inj hlast ▸ h a old hold holdbusy

/-- A cleanup at `tick` or later leaves no lease that was not used within the timeout. -/
theorem UsedSince.cleanup {p : Pool} {o : Outside} {timeout : Duration} {tick : Time}
    (hr : IsRange p.agents o.order)
    (hclock : ∀ a ac, p.agents.lookup a = some ac → ac.busy = true → tick ≤ o.clock a) :
    UsedSince (tick - max timeout 0) (p.cleanupStaleAgents timeout o.order o.clock) := by
  intro a ac hac hbusy
  have hold : ∃ old, p.agents.lookup a = some old := by
    rw [Pool.lookup_cleanupStaleAgents hr] at hac
    obtain ⟨old, hold, -⟩ := Option.bind_eq_some_iff.1 hac
    exact ⟨old, hold⟩
  obtain ⟨old, hold⟩ := hold
  rcases cleanup_entry hr timeout o.clock hold with ⟨-, hafter⟩ | ⟨hfresh, hafter⟩
  · obtain ⟨-, rfl⟩ := AgentClient.released_eq_some.1 (hafter.symm.trans hac)
    cases hbusy
  · obtain rfl : old = ac := Option.some.inj (hafter.symm.trans hac)
    simp only [AgentClient.isStale, hbusy, Bool.true_and, decide_eq_false_iff_not,
      Int.not_lt] at hfresh
    calc tick - max timeout 0
        ≤ o.clock a - timeout := Int.sub_le_sub (hclock a old hold hbusy) (le_max_left _ _)
      _ ≤ old.lastActivity := Int.sub_le_of_sub_le hfresh

theorem mem_readings_cleanup {x : TimedTrans} (hx : IsCleanup x)
    (hr : IsRange x.src.agents x.lab.1.order) {a : Addr} (ha : x.src.Leased a) :
    x.lab.1.clock a ∈ readings x := by
  obtain ⟨p, ⟨o, ⟨c, r⟩⟩, p'⟩ := x
  obtain ⟨timeout, hc⟩ := hx
  obtain rfl : c = .cleanupStaleAgents timeout := hc
  obtain ⟨ac, hac, hbusy⟩ := ha
  refine List.mem_map.2 ⟨a, List.mem_filter.2 ⟨?_, ?_⟩, rfl⟩
  · exact (hr.mem_iff a).2 (Finmap.mem_iff.2 ⟨ac, hac⟩)
  · rw [hac]
    exact hbusy

/-- **Leases expire.** An agent that is still leased one cleanup interval after a cleanup was used
within the session timeout and that interval, whatever calls were made in between. -/
theorem leases_expire {getenv : String → String} {cfg : Config} {tr pre post : List TimedTrans}
    {x : TimedTrans} {p : Pool} {tick now : Time} (h : Serves getenv cfg tr p)
    (htimeout : 0 ≤ cfg.sessionTimeoutSec.toInt) (htr : tr = pre ++ x :: post) (hx : IsCleanup x)
    (htick : ∀ t ∈ (x :: post).flatMap readings, tick ≤ t)
    (hnow : now - tick ≤ (seconds cfg.cleanupIntervalSec).toInt) {a : Addr} (ha : p.Leased a) :
    ∃ t ∈ activities a tr, now - t ≤
      cfg.sessionTimeoutSec.toInt * 1000000000 + (seconds cfg.cleanupIntervalSec).toInt := by
  obtain ⟨-, hrun⟩ := h
  subst htr
  obtain ⟨_, hpre, hrest⟩ := hrun.split
  obtain ⟨rfl, hstep, hpost⟩ := hrest.head
  obtain ⟨hr, hdst⟩ := hstep.cleanup hx
  rw [List.flatMap_cons, List.forall_mem_append] at htick
  have hinv : PoolInv x.src := hpre.invariant (fun _ _ _ hp hs => hs.poolInv hp) poolInv_newPool
  have hused : UsedSince (tick - max (seconds cfg.sessionTimeoutSec).toInt 0) x.dst :=
    hdst ▸ UsedSince.cleanup hr fun a ac hac hbusy =>
      htick.1 _ (mem_readings_cleanup hx hr ⟨ac, hac, hbusy⟩)
  -- no call since then leased an agent or kept it busy without using it at `tick` or later
  have hafter := (hpost.restrict fun y hy t ht =>
    htick.2 t (List.mem_flatMap.2 ⟨y, hy, ht⟩)).invariant
    (I := fun q => PoolInv q ∧ UsedSince (tick - max (seconds cfg.sessionTimeoutSec).toInt 0) q)
    (fun s e t hI hs => ⟨hs.1.poolInv hI.1, hI.2.step (x := ⟨s, e, t⟩) hI.1 hs.1.2 fun r hr =>
      (Int.sub_le_self _ (le_max_right _ _)).trans (hs.2 r hr)⟩)
    ⟨hstep.poolInv hinv, hused⟩
  obtain ⟨ac, hac, hbusy⟩ := ha
  have hlast := getLast_activities (hrun.mono fun _ _ _ hs => hs.2) a
  rw [hac, Option.map_some] at hlast
  refine ⟨_, List.mem_of_getLast? hlast, ?_⟩
  have hbound := hafter.2 a ac hac hbusy
  have htime := toInt_seconds_le htimeout
  calc now - ac.lastActivity
      ≤ now - (tick - max (seconds cfg.sessionTimeoutSec).toInt 0) := Int.sub_le_sub_left hbound _
    _ = (now - tick) + max (seconds cfg.sessionTimeoutSec).toInt 0 :=
      (sub_add _ _ _).symm
    _ ≤ (seconds cfg.cleanupIntervalSec).toInt + cfg.sessionTimeoutSec.toInt * 1000000000 :=
      Int.add_le_add hnow (max_le htime (by omega))
    _ = _ := Int.add_comm _ _

/-- The agent leased at 0 is touched at 300, after a cleanup at 200. -/
def touchedCalls : List (Outside × PoolCmd) :=
  unusedCalls ++ [cleanupCall (config (testEnv "")) 200,
    ({ order := ["10.0.0.7:50051"], clock := fun _ => 300 }, .touchAgent "10.0.0.7:50051")]

theorem leases_expire_touched :
    ∃ t ∈ activities "10.0.0.7:50051" (Pool.newPool.timedCalls touchedCalls),
      60000000200 - t ≤ 360000000000 := by
  have hok : Pool.newPool.OrdersOk touchedCalls :=
    ⟨by decide, by decide, by decide, by decide, trivial⟩
  have hmakes : ∀ x ∈ touchedCalls, (config (testEnv "")).Makes x.2 := by
    simp [touchedCalls, unusedCalls, cleanupCall, Config.Makes]
  have hsplit : Pool.newPool.timedCalls touchedCalls =
    Pool.newPool.timedCalls unusedCalls ++ _ :: _ := rfl
  have htick : ∀ t ∈ ((Pool.newPool.timedCalls touchedCalls).drop 2).flatMap readings, 200 ≤ t := by
    decide
  exact leases_expire ⟨⟨_, main_testEnv _⟩, run_routerCalls hok hmakes⟩ (by decide) hsplit ⟨_, rfl⟩
    htick (by decide) (by decide)

end SocketTuner.Router
