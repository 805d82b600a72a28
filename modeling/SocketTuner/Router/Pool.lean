import SocketTuner.Lib.GoMap
import SocketTuner.Lib.Run

/-!
# The router's agent pool

`env-router/internal/pool/pool.go`. Every method of `Pool` holds the mutex from its first line to
its return, so each is one atomic function on the pool. What a method takes from outside is an
argument: the outcome of `grpc.Dial`, the order in which a `range` visits the map, the clock.

The connections are numbered in the order they are dialed. The pool keeps the number of dials and
the `Conn.Close` calls made so far, so that the life of a connection can be stated. The stub
`Client` is a function of `Conn` and is not kept apart from it; the log lines are left out.
-/

namespace SocketTuner.Router

open GoMap

/-- An agent address `ip:port`. It is also the session id of every lease of that agent. -/
abbrev Addr := String

/-- A `time.Time`, in nanoseconds. -/
abbrev Time := Int
/-- A `time.Duration`, in nanoseconds. -/
abbrev Duration := Int

/-- A connection, by the number of its dial. -/
abbrev ConnId := Nat

/-- `AgentClient`: an agent of the pool and its lease. -/
structure AgentClient where
  addr : Addr
  conn : ConnId
  busy : Bool
  lastActivity : Time
  /-- marked for cleanup after episode ends -/
  pendingRemoval : Bool
  deriving DecidableEq, Repr

/-- `AgentPool`: the agents by address, with what was dialed and closed so far. -/
structure Pool where
  agents : GoMap Addr AgentClient
  /-- How many connections were dialed. -/
  dialed : Nat
  /-- The `Conn.Close` calls made, the latest first. -/
  closed : List ConnId

namespace AgentClient

/-- The test `!ac.Busy && !ac.pendingRemoval` of `LockFreeAgent` and `FreeCount`. -/
def isFree (ac : AgentClient) : Bool := !ac.busy && !ac.pendingRemoval

/-- The test `ac.Busy && time.Since(ac.LastActivity) > timeout` of `CleanupStaleAgents`. -/
def isStale (timeout : Duration) (now : Time) (ac : AgentClient) : Bool :=
  ac.busy && decide (timeout < now - ac.lastActivity)

end AgentClient

namespace Pool

/-- `NewPool` -/
def newPool : Pool := { agents := ∅, dialed := 0, closed := [] }

/-- `ac.Conn.Close(); delete(p.agents, addr)`. -/
def drop (p : Pool) (addr : Addr) (ac : AgentClient) : Pool :=
  { p with agents := p.agents.erase addr, closed := ac.conn :: p.closed }

/-- `*p.agents[addr] = ac`: the map holds pointers, so writing a field of an entry is this. -/
def put (p : Pool) (addr : Addr) (ac : AgentClient) : Pool :=
  { p with agents := p.agents.insert addr ac }

/-- Dials a new agent and adds it to the pool. No-op if already present, except that a pending
removal is cancelled. -/
def addAgent (addr : Addr) (dialErr : Option String) (now : Time) (p : Pool) :
    Option String × Pool :=
  match p.agents.lookup addr with
  | some ac =>
    if ac.pendingRemoval then (none, p.put addr { ac with pendingRemoval := false })
    else (none, p)
  | none =>
    match dialErr with
    | some err => (some s!"failed to dial agent {addr}: {err}", p)
    | none =>
      let ac := { addr, conn := p.dialed, busy := false, lastActivity := now,
                  pendingRemoval := false }
      (none, { p.put addr ac with dialed := p.dialed + 1 })

/-- Removes an idle agent immediately, or marks a busy agent for deferred removal. -/
def removeAgent (addr : Addr) (p : Pool) : Pool :=
  match p.agents.lookup addr with
  | none => p
  | some ac =>
    if ac.busy then p.put addr { ac with pendingRemoval := true } else p.drop addr ac

/-- Finds the first free agent, locks it and returns it. -/
def lockFreeAgent (order : List Addr) (clock : Addr → Time) (p : Pool) :
    Except String AgentClient × Pool :=
  match findRange p.agents AgentClient.isFree order with
  | some (addr, ac) =>
    let ac := { ac with busy := true, lastActivity := clock addr }
    (.ok ac, p.put addr ac)
  | none => (.error s!"no free agents available (capacity: {p.agents.keys.card})", p)

/-- Unlocks an agent. One whose removal is pending is closed and removed. -/
def freeAgent (addr : Addr) (p : Pool) : Pool :=
  match p.agents.lookup addr with
  | none => p
  | some ac =>
    let ac := { ac with busy := false }
    if ac.pendingRemoval then p.drop addr ac else p.put addr ac

/-- Records activity of the agent. -/
def touchAgent (addr : Addr) (now : Time) (p : Pool) : Pool :=
  match p.agents.lookup addr with
  | some ac => p.put addr { ac with lastActivity := now }
  | none => p

/-- The body of the loop of `CleanupStaleAgents`. -/
def cleanupEntry (timeout : Duration) (clock : Addr → Time) (p : Pool) (addr : Addr)
    (ac : AgentClient) : Pool :=
  if ac.isStale timeout (clock addr) then
    let ac := { ac with busy := false }
    if ac.pendingRemoval then p.drop addr ac else p.put addr ac
  else p

/-- Finds busy agents that have had no activity for `timeout` and releases them back to the pool.
The clock is read again for each entry. -/
def cleanupStaleAgents (timeout : Duration) (order : List Addr) (clock : Addr → Time) (p : Pool) :
    Pool :=
  forRange Pool.agents (cleanupEntry timeout clock) order p

/-- Looks an agent up by its session id, which is its address. -/
def getAgentBySession (addr : Addr) (p : Pool) : Except String AgentClient :=
  match p.agents.lookup addr with
  | some ac => .ok ac
  | none => .error s!"session agent {addr} not found"

/-- The number of free agents. -/
def freeCount (order : List Addr) (p : Pool) : Nat :=
  forRange (fun _ : Nat => p.agents) (fun count _ ac => if ac.isFree then count + 1 else count)
    order 0

/-- The number of agents, free or not. -/
def totalCount (p : Pool) : Nat := p.agents.keys.card

/-- The body of the loop of `RemoveAgentsNotIn`. -/
def removeEntry (liveAddrs : Finset Addr) (p : Pool) (addr : Addr) (ac : AgentClient) : Pool :=
  if addr ∈ liveAddrs then p
  else if ac.busy then p.put addr { ac with pendingRemoval := true }
  else p.drop addr ac

/-- Removes all agents whose address is not in the provided set. Busy agents are marked for
deferred removal. -/
def removeAgentsNotIn (liveAddrs : Finset Addr) (order : List Addr) (p : Pool) : Pool :=
  forRange Pool.agents (removeEntry liveAddrs) order p

/-- Closes every connection and keeps the entries. -/
def close (order : List Addr) (p : Pool) : Pool :=
  forRange Pool.agents (fun p _ ac => { p with closed := ac.conn :: p.closed }) order p

end Pool

/-! ## The methods as commands -/

/-- The methods of the pool, with their arguments. -/
inductive PoolCmd
  | addAgent (addr : Addr)
  | removeAgent (addr : Addr)
  | lockFreeAgent
  | freeAgent (addr : Addr)
  | touchAgent (addr : Addr)
  | cleanupStaleAgents (timeout : Duration)
  | getAgentBySession (addr : Addr)
  | freeCount
  | totalCount
  | removeAgentsNotIn (liveAddrs : Finset Addr)
  | close
  deriving DecidableEq

/-- What a method returns. -/
def PoolCmd.Ret : PoolCmd → Type
  | .addAgent _ => Option String
  | .lockFreeAgent => Except String AgentClient
  | .getAgentBySession _ => Except String AgentClient
  | .freeCount => Nat
  | .totalCount => Nat
  | .removeAgent _ | .freeAgent _ | .touchAgent _ | .cleanupStaleAgents _ | .removeAgentsNotIn _
  | .close => Unit

/-- What a method takes from outside: the outcome of `grpc.Dial`, the order of a `range` over the
pool, and the clock reading taken for each address. -/
structure Outside where
  dialErr : Option String := none
  order : List Addr := []
  clock : Addr → Time := fun _ => 0

/-- What a method returns, and the pool it leaves. -/
def PoolCmd.exec (o : Outside) : (c : PoolCmd) → Pool → c.Ret × Pool
  | .addAgent addr, p => p.addAgent addr o.dialErr (o.clock addr)
  | .removeAgent addr, p => ((), p.removeAgent addr)
  | .lockFreeAgent, p => p.lockFreeAgent o.order o.clock
  | .freeAgent addr, p => ((), p.freeAgent addr)
  | .touchAgent addr, p => ((), p.touchAgent addr (o.clock addr))
  | .cleanupStaleAgents timeout, p => ((), p.cleanupStaleAgents timeout o.order o.clock)
  | .getAgentBySession addr, p => (p.getAgentBySession addr, p)
  | .freeCount, p => (p.freeCount o.order, p)
  | .totalCount, p => (p.totalCount, p)
  | .removeAgentsNotIn liveAddrs, p => ((), p.removeAgentsNotIn liveAddrs o.order)
  | .close, p => ((), p.close o.order)

/-- A method call and what it returned. -/
abbrev PoolEvent := (c : PoolCmd) × c.Ret

/-- One method call on the pool, with any dial outcome, any iteration order of the map and any
clock readings. -/
def PoolStep (p : Pool) (e : PoolEvent) (p' : Pool) : Prop :=
  ∃ o : Outside, IsRange p.agents o.order ∧ e.1.exec o p = (e.2, p')

/-- The pools some sequence of method calls leads to from `NewPool`. -/
def PoolReachable (p : Pool) : Prop := Lts.Reachable PoolStep Pool.newPool p

end SocketTuner.Router
