import SocketTuner.Env.Environment
import SocketTuner.Router.Server

/-!
# Clients and router together

Any number of environments call one router. A client makes one method call at a time and, in it,
one RPC at a time. The router runs a handler for every request it received, and the handlers'
pool methods interleave in any order, with each other and with the background calls of the stale
cleanup and the endpoint watcher. An agent answers a handler with any reply.

A message can be lost: a request may never reach the router, an answer may never reach the client,
and a client may see its RPC fail while the handler goes on.

`Sys.step` is the whole system as a function of the next action. What the router does in it is
`RouterStep`, and this is all the later invariants look at.
-/

namespace SocketTuner.System

open Env Router GoMap

/-- A client, by number. -/
abbrev ClientId := Nat

/-- A request at the router, by the number of its goroutine. -/
abbrev HandlerId := Nat

/-- A command of a handler and its result. -/
abbrev RouterEvent := Prog.Event RouterCmd RouterCmd.Ret

/-- The rest of a method call of an environment. -/
abbrev CallProg := EnvProg (CallResult × SocketTunerEnvironment)

/-- The router's handler for a request. -/
def handle : (rpc : Rpc) → RouterProg (Handled rpc.Resp)
  | .reset req => Router.Server.reset req
  | .step req => Router.Server.step req
  | .close req => Router.Server.close req

/-! ## States -/

/-- A client: between two calls, in the middle of one, or in an RPC of one. -/
inductive Client
  | idle (env : SocketTunerEnvironment)
  | running (prog : CallProg)
  /-- In an RPC that handler `h` serves. -/
  | waiting (h : HandlerId) (rpc : Rpc) (k : rpc.Ret → CallProg)

/-- A request in flight at the router: what its handler did and still has to do. -/
structure Handler where
  client : ClientId
  rpc : Rpc
  log : List RouterEvent
  prog : RouterProg (Handled rpc.Resp)

/-- The router's pool and the requests in flight there. -/
structure RouterState where
  pool : Pool
  handlers : HandlerId → Option Handler

/-- Replace the handler `h`, or end it. -/
def RouterState.setHandler (r : RouterState) (h : HandlerId) (hd : Option Handler) : RouterState :=
  { r with handlers := Function.update r.handlers h hd }

/-- The router and its clients. -/
structure Sys where
  router : RouterState
  clients : ClientId → Client

/-- A router with an empty pool, and clients with new environments. -/
def Sys.init : Sys :=
  { router := { pool := .newPool, handlers := fun _ => none }, clients := fun _ => .idle .init }

/-- Replace the state of a client. -/
def Sys.setClient (s : Sys) (a : ClientId) (c : Client) : Sys :=
  { s with clients := Function.update s.clients a c }

/-! ## Steps -/

/-- What a command of a handler takes from outside. -/
structure Choice where
  pool : Outside := {}
  reset : Except String ResetResponse := .error ""
  step : Except String StepResponse := .error ""

/-- A command of a handler on the pool; the reply of an agent is given from outside. -/
def commandExec (o : Choice) : (c : RouterCmd) → Pool → c.Ret × Pool
  | .pool c, p => c.exec o.pool p
  | .agentReset _ _, p => (o.reset, p)
  | .agentStep _ _, p => (o.step, p)

/-- The pool methods that no handler calls: those of the cleanup, the watcher and the scaler. -/
def IsBackground : PoolCmd → Bool
  | .lockFreeAgent | .freeAgent _ | .touchAgent _ | .getAgentBySession _ => false
  | .addAgent _ | .removeAgent _ | .cleanupStaleAgents _ | .freeCount | .totalCount
  | .removeAgentsNotIn _ | .close => true

/-- What can happen next. -/
inductive Action
  | invoke (a : ClientId) (call : Call)
  /-- The RPC of a client reaches the router, as handler `h`. -/
  | send (a : ClientId) (h : HandlerId)
  /-- The RPC of a client fails before it reaches the router. -/
  | lose (a : ClientId) (err : String)
  | exec (h : HandlerId) (o : Choice)
  | answer (h : HandlerId) (arrives : Bool)
  /-- The RPC a client waits for fails, whatever its handler does. -/
  | fail (a : ClientId) (err : String)
  | finish (a : ClientId)
  | background (c : PoolCmd) (o : Outside)

/-- What a step did. -/
inductive SysEvent
  | invoked (a : ClientId) (call : Call)
  | sent (a : ClientId) (rpc : Rpc)
  | failed (a : ClientId)
  /-- A command of handler `h`, which serves client `a`. -/
  | exec (h : HandlerId) (a : ClientId) (e : RouterEvent)
  | answered (h : HandlerId) (a : ClientId) (rpc : Rpc) (res : Handled rpc.Resp)
  | returned (a : ClientId) (result : CallResult)
  | background (e : PoolEvent)

/-- The client resumes with the answer if it waits for it. -/
def Client.resume (h : HandlerId) (rpc : Rpc) (res : Handled rpc.Resp) : Client → Client
  | .waiting h' rpc' k =>
    if e : h' = h ∧ rpc = rpc' then .running (k (e.2 ▸ res.deliver)) else .waiting h' rpc' k
  | c => c

/-- The system as a function of the next action; `none` if it cannot happen now. -/
def Sys.step (cfg : EnvConfig) (s : Sys) : Action → Option (SysEvent × Sys)
  | .invoke a call =>
    match s.clients a with
    | .idle env => some (.invoked a call, s.setClient a (.running (perform cfg env call)))
    | _ => none
  | .send a h =>
    match s.clients a, s.router.handlers h with
    | .running (.op rpc k), none =>
      some (.sent a rpc, Sys.setClient { s with
        router := s.router.setHandler h
          (some { client := a, rpc, log := [], prog := handle rpc }) } a (.waiting h rpc k))
    | _, _ => none
  | .lose a err =>
    match s.clients a with
    | .running (.op rpc k) =>
      some (.sent a rpc, s.setClient a (.running (k (.error err : Except String rpc.Resp))))
    | _ => none
  | .exec h o =>
    match s.router.handlers h with
    | some { client, rpc, log, prog := .op c k } =>
      if IsRange s.router.pool.agents o.pool.order then
        let (r, pool) := commandExec o c s.router.pool
        some (.exec h client ⟨c, r⟩, { s with
          router := RouterState.setHandler { s.router with pool } h
            (some { client, rpc, log := log ++ [⟨c, r⟩], prog := k r }) })
      else none
    | _ => none
  | .answer h arrives =>
    match s.router.handlers h with
    | some { client, rpc, prog := .ret res, .. } =>
      let s' := { s with router := s.router.setHandler h none }
      some (.answered h client rpc res,
        if arrives then s'.setClient client ((s.clients client).resume h rpc res) else s')
    | _ => none
  | .fail a err =>
    match s.clients a with
    | .waiting _ rpc k =>
      some (.failed a, s.setClient a (.running (k (.error err : Except String rpc.Resp))))
    | _ => none
  | .finish a =>
    match s.clients a with
    | .running (.ret (result, env)) => some (.returned a result, s.setClient a (.idle env))
    | _ => none
  | .background c o =>
    if IsBackground c = true ∧ IsRange s.router.pool.agents o.order then
      let (r, pool) := c.exec o s.router.pool
      some (.background ⟨c, r⟩, { s with router := { s.router with pool } })
    else none

/-! ## The router's side -/

/-- An event in which the router does nothing. -/
def SysEvent.Quiet : SysEvent → Prop
  | .invoked _ _ | .sent _ _ | .failed _ | .returned _ _ => True
  | .exec _ _ _ | .answered _ _ _ _ | .background _ => False

/-- What a step of the system does to the router. -/
inductive RouterStep : RouterState → SysEvent → RouterState → Prop
  | stay {r : RouterState} {e : SysEvent} (he : e.Quiet) : RouterStep r e r
  | accept {r : RouterState} {h : HandlerId} (a : ClientId) (rpc : Rpc) (hh : r.handlers h = none) :
      RouterStep r (.sent a rpc)
        (r.setHandler h (some { client := a, rpc, log := [], prog := handle rpc }))
  | exec {r : RouterState} {h : HandlerId} {hd : Handler} {c : RouterCmd}
      {k : c.Ret → RouterProg (Handled hd.rpc.Resp)} (o : Choice) (hh : r.handlers h = some hd)
      (hp : hd.prog = .op c k) (hr : IsRange r.pool.agents o.pool.order) :
      RouterStep r (.exec h hd.client ⟨c, (commandExec o c r.pool).1⟩)
        (RouterState.setHandler { r with pool := (commandExec o c r.pool).2 } h
          (some { hd with
            log := hd.log ++ [⟨c, (commandExec o c r.pool).1⟩]
            prog := k (commandExec o c r.pool).1 }))
  | answer {r : RouterState} {h : HandlerId} {hd : Handler} {res : Handled hd.rpc.Resp}
      (hh : r.handlers h = some hd) (hp : hd.prog = .ret res) :
      RouterStep r (.answered h hd.client hd.rpc res) (r.setHandler h none)
  | background {r : RouterState} {c : PoolCmd} (o : Outside) (hc : IsBackground c = true)
      (hr : IsRange r.pool.agents o.order) :
      RouterStep r (.background ⟨c, (c.exec o r.pool).1⟩) { r with pool := (c.exec o r.pool).2 }

theorem Sys.step_router {cfg : EnvConfig} {s s' : Sys} {a : Action} {e : SysEvent}
    (h : s.step cfg a = some (e, s')) : RouterStep s.router e s'.router := by
  cases a with
  | invoke a call =>
    simp only [Sys.step] at h
    split at h
    · cases h; exact .stay trivial
    · cases h
  | send a id =>
    simp only [Sys.step] at h
    split at h
    · next hid => cases h; exact .accept a _ hid
    · cases h
  | lose a err =>
    simp only [Sys.step] at h
    split at h
    · cases h; exact .stay trivial
    · cases h
  | exec id o =>
    simp only [Sys.step] at h
    split at h
    · next hid =>
      split at h
      · next hr => cases h; exact .exec o hid rfl hr
      · cases h
    · cases h
  | answer id arrives =>
    simp only [Sys.step] at h
    split at h
    · next hid =>
      cases arrives with
      | true => cases h; exact .answer hid rfl
      | false => cases h; exact .answer hid rfl
    · cases h
  | fail a err =>
    simp only [Sys.step] at h
    split at h
    · cases h; exact .stay trivial
    · cases h
  | finish a =>
    simp only [Sys.step] at h
    split at h
    · cases h; exact .stay trivial
    · cases h
  | background c o =>
    simp only [Sys.step] at h
    split at h
    · next hc => cases h; exact .background o hc.1 hc.2
    · cases h

/-- The pool method an event calls. -/
def SysEvent.poolEvent : SysEvent → Option PoolEvent
  | .exec _ _ ⟨.pool c, r⟩ => some ⟨c, r⟩
  | .background e => some e
  | _ => none

/-- The handler an event is a step of. -/
def SysEvent.handler : SysEvent → Option HandlerId
  | .exec h _ _ | .answered h _ _ _ => some h
  | _ => none

@[simp] theorem RouterState.handlers_setHandler (r : RouterState) (h h' : HandlerId)
    (hd : Option Handler) :
    (r.setHandler h hd).handlers h' = if h' = h then hd else r.handlers h' :=
  Function.update_apply ..

namespace RouterStep

variable {r r' : RouterState} {e : SysEvent}

/-- The pool changes by the methods called. -/
theorem pool (h : RouterStep r e r') :
    (e.poolEvent = none ∧ r'.pool = r.pool) ∨
      ∃ pe, e.poolEvent = some pe ∧ PoolStep r.pool pe r'.pool := by
  cases h with
  | stay he => cases e <;> first | exact .inl ⟨rfl, rfl⟩ | exact he.elim
  | accept a rpc hh => exact .inl ⟨rfl, rfl⟩
  | @exec h hd c k o hh hp hr =>
    cases c with
    | pool c => exact .inr ⟨_, rfl, o.pool, hr, rfl⟩
    | agentReset agent req => exact .inl ⟨rfl, rfl⟩
    | agentStep agent req => exact .inl ⟨rfl, rfl⟩
  | answer hh hp => exact .inl ⟨rfl, rfl⟩
  | background o hc hr => exact .inr ⟨_, rfl, o, hr, rfl⟩

theorem isBackground {pe : PoolEvent} (h : RouterStep r (.background pe) r') :
    IsBackground pe.1 = true := by
  cases h with
  | stay he => exact he.elim
  | background o hc hr => exact hc

/-- A command is the next one of its handler. -/
theorem next {h : HandlerId} {a : ClientId} {c : RouterCmd} {res : c.Ret}
    (hs : RouterStep r (.exec h a ⟨c, res⟩) r') :
    ∃ hd k, r.handlers h = some hd ∧ hd.client = a ∧ hd.prog = .op c k := by
  cases hs with
  | stay he => exact he.elim
  | @exec _ hd _ k o hh hp hr => exact ⟨hd, k, hh, rfl, hp⟩

/-- Where a request in flight comes from: it was there and did nothing, it is new, or it made a
command. -/
theorem handler (hs : RouterStep r e r') {h : HandlerId} {hd' : Handler}
    (hh : r'.handlers h = some hd') :
    (r.handlers h = some hd' ∧ e.handler ≠ some h) ∨
      (∃ a rpc, e = .sent a rpc ∧ hd' = { client := a, rpc, log := [], prog := handle rpc }) ∨
      ∃ hd c k res, r.handlers h = some hd ∧ hd.prog = .op c k ∧
        e = .exec h hd.client ⟨c, res⟩ ∧
        hd' = { hd with log := hd.log ++ [⟨c, res⟩], prog := k res } := by
  cases hs with
  | stay he =>
    refine .inl ⟨hh, ?_⟩
    cases e <;> first | exact he.elim | simp [SysEvent.handler]
  | @accept h₀ a rpc hh₀ =>
    simp only [RouterState.handlers_setHandler] at hh
    split at hh
    · cases hh; exact .inr (.inl ⟨a, rpc, rfl, rfl⟩)
    · exact .inl ⟨hh, by simp [SysEvent.handler]⟩
  | @exec h₀ hd c k o hh₀ hp hr =>
    simp only [RouterState.handlers_setHandler] at hh
    split at hh
    · next heq =>
      subst heq
      cases hh
      exact .inr (.inr ⟨hd, c, k, _, hh₀, hp, rfl, rfl⟩)
    · next hne => exact .inl ⟨hh, by simpa [SysEvent.handler] using Ne.symm hne⟩
  | @answer h₀ hd res hh₀ hp =>
    simp only [RouterState.handlers_setHandler] at hh
    split at hh
    · cases hh
    · next hne => exact .inl ⟨hh, by simpa [SysEvent.handler] using Ne.symm hne⟩
  | background o hc hr => exact .inl ⟨hh, by simp [SysEvent.handler]⟩

end RouterStep

/-! ## What every reachable router satisfies -/

/-- A lookup that found an agent. -/
def lookupEvent (a : Addr) (ac : AgentClient) : RouterEvent :=
  ⟨.pool (.getAgentBySession a), (.ok ac : Except String AgentClient)⟩

/-- The pool is as it should be, and every handler is where its log says and was given the agent it
looked up. -/
structure RouterInv (r : RouterState) : Prop where
  pool : PoolInv r.pool
  /-- Each handler is where its log says. -/
  after : ∀ h hd, r.handlers h = some hd → Prog.After (handle hd.rpc) hd.log hd.prog
  found : ∀ h hd a ac, r.handlers h = some hd → lookupEvent a ac ∈ hd.log → ac.addr = a

theorem routerInv_init : RouterInv Sys.init.router where
  pool := poolInv_newPool
  after _ _ h := by cases h
  found _ _ _ _ h := by cases h

theorem RouterInv.step {r r' : RouterState} {e : SysEvent} (hi : RouterInv r)
    (hs : RouterStep r e r') : RouterInv r' where
  pool := by
    rcases hs.pool with ⟨-, heq⟩ | ⟨pe, -, hp⟩
    · rw [heq]; exact hi.pool
    · exact hi.pool.step hp
  after h hd' hh := by
    rcases hs.handler hh with ⟨hold, -⟩ | ⟨a, rpc, -, rfl⟩ | ⟨hd, c, k, res, hold, hp, -, rfl⟩
    · exact hi.after h hd' hold
    · exact .nil _
    · have := hi.after h hd hold
      rw [hp] at this
      exact this.snoc res
  found h hd' a ac hh hmem := by
    rcases hs.handler hh with ⟨hold, -⟩ | ⟨b, rpc, -, rfl⟩ | ⟨hd, c, k, res, hold, hp, rfl, rfl⟩
    · exact hi.found h hd' a ac hold hmem
    · cases hmem
    · rcases List.mem_append.1 hmem with hmem | hmem
      · exact hi.found h hd a ac hold hmem
      · rcases hs.pool with ⟨hnone, -⟩ | ⟨pe, hpe, o, -, hexec⟩
        · cases List.mem_singleton.1 hmem
          cases hnone
        · cases List.mem_singleton.1 hmem
          cases hpe
          have hfound := congrArg Prod.fst hexec
          exact hi.pool.getAgentBySession_addr hfound

end SocketTuner.System
