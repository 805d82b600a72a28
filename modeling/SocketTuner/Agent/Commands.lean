import SocketTuner.Agent.Baseline

/-!
# Which commands run

The check of a command and its execution are in different calls, with the field `lastCommand`
between them: `SetCommand` writes it, `Run` reads it twice, and any calls may come in between.

* `only_allowed_commands`: every process is started with the fields of one command that some
  `Reset` submitted and whose digest is allowed.
* `own_commands`: a `Reset` runs its own command and a `Step` that of the last `Reset`, in every
  run where each request arrives when the field is not another's (`Orderly`). A rejected `Reset`
  does not clear the field (`step_after_rejected_reset`).
-/

namespace SocketTuner.Agent

open Prog

variable {sha256Hex : String → String}

/-! ## What a call does with the field -/

/-- Whether a call wrote the field, and what it read there last. -/
structure CommandView where
  stored : Bool := false
  read : Option String := none

/-- What one command adds to it. -/
def CommandView.track (v : CommandView) : Event AgentCmd AgentCmd.Ret → CommandView
  | ⟨.setLastCommand _, _⟩ => { v with stored := true }
  | ⟨.getLastCommand, r⟩ => { v with read := some r }
  | _ => v

/-- Only an authorized `Reset` writes the field, before it reads it, and a process is started with
the fields of what was read. -/
def commandProtocol (sha256Hex : String → String) (req : AgentReq) (α : Type) :
    Protocol AgentCmd AgentCmd.Ret CommandView α where
  track := CommandView.track
  allows v
    | .setLastCommand cmd => req = .reset ⟨cmd⟩ ∧ sha256Hex cmd ∈ Executor.allowedHashes
    | .getLastCommand => ∀ r, req = .reset r → v.stored = true
    | .start argv => ∃ cmd, v.read = some cmd ∧ argv = Executor.fields cmd ∧ argv ≠ []
    | _ => True
  final _ _ := True

section Meets

variable {req : AgentReq} {v : CommandView}

theorem run_meets_command (hv : ∀ r, req = .reset r → v.stored = true) :
    Executor.run.Meets (commandProtocol sha256Hex req _) v := by
  unfold Executor.run
  refine ⟨hv, fun (cmd : String) => ?_⟩
  change Meets _ (if cmd = "" then _ else _) _
  split
  · trivial
  · refine ⟨hv, fun (cmd' : String) => ?_⟩
    change Meets _ (if (Executor.fields cmd').length = 0 then _ else _) _
    split
    · trivial
    · next hne =>
      refine ⟨⟨cmd', rfl, rfl, fun h => hne (by rw [h]; rfl)⟩, fun r => ?_⟩
      cases r with
      | error err => trivial
      | ok pid => exact ⟨trivial, fun w => by cases w <;> trivial⟩

theorem getMetricForPid_meets_command (pid : UInt32) :
    (Manager.getMetricForPid pid).Meets (commandProtocol sha256Hex req _) v :=
  ⟨trivial, fun r => by cases r <;> trivial⟩

end Meets

theorem reset_meets_command (req : ResetRequest) (v : CommandView) :
    (Server.reset sha256Hex req).Meets (commandProtocol sha256Hex (.reset req) _) v := by
  -- when `SetCommand` succeeds it has written the field
  have hset : (Executor.setCommand sha256Hex req.command).Meets
      ((commandProtocol sha256Hex (.reset req) AgentResp).withFinal fun v err =>
        err = none → v.stored = true) v := by
    simp only [Executor.setCommand]
    split
    · intro h; cases h
    · next ha => exact ⟨⟨rfl, not_not.1 ha⟩, fun _ _ => rfl⟩
  refine Meets.bind hset fun v err hv => ?_
  cases err with
  | some err => trivial
  | none =>
    refine Meets.bind (run_meets_command fun _ _ => hv rfl) fun v r _ => ?_
    obtain ⟨pid, err⟩ := r
    cases err with
    | some err => trivial
    | none => exact Meets.bind (getMetricForPid_meets_command pid) fun _ _ _ => trivial

theorem step_meets_command (req : StepRequest) (v : CommandView) :
    (Server.step req).Meets (commandProtocol sha256Hex (.step req) _) v := by
  have hset : (Manager.setAction req.targetIp req.targetPort (Server.action req)).Meets
      (commandProtocol sha256Hex (.step req) _) v := by
    unfold Manager.setAction
    split
    · trivial
    · exact ⟨trivial, fun _ => trivial⟩
  refine Meets.bind hset fun v err _ => ?_
  cases err with
  | some err => trivial
  | none =>
    refine Meets.bind (run_meets_command fun _ h => by cases h) fun v r _ => ?_
    refine Meets.bind (getMetricForPid_meets_command r.1) fun v r _ => ?_
    cases r <;> trivial

theorem handle_meets_command (req : AgentReq) (v : CommandView) :
    (Server.handle sha256Hex req).Meets (commandProtocol sha256Hex req _) v := by
  cases req with
  | reset req => exact Meets.bind (reset_meets_command req v) fun _ _ _ => trivial
  | step req => exact Meets.bind (step_meets_command req v) fun _ _ _ => trivial

theorem AgentCmd.command_cases (o : AgentOutside) (c : AgentCmd) (w : AgentWorld)
    (v : CommandView) :
    (∃ cmd, c = .setLastCommand cmd ∧ (c.exec o w).2.lastCommand = cmd ∧
      v.track ⟨c, (c.exec o w).1⟩ = { v with stored := true }) ∨
    (c = .getLastCommand ∧ (c.exec o w).2.lastCommand = w.lastCommand ∧
      v.track ⟨c, (c.exec o w).1⟩ = { v with read := some w.lastCommand }) ∨
    ((c.exec o w).2.lastCommand = w.lastCommand ∧ v.track ⟨c, (c.exec o w).1⟩ = v) := by
  cases c with
  | setLastCommand cmd => exact .inl ⟨cmd, rfl, rfl, rfl⟩
  | getLastCommand => exact .inr (.inl ⟨rfl, rfl, rfl⟩)
  | start _ | wait _ | putAction _ _ | lookupMetric _ => exact .inr (.inr ⟨rfl, rfl⟩)

theorem AgentSys.calls_setCall {s : AgentSys} {id id' : Nat} {call? : Option InFlight}
    {call : InFlight} (h : (s.setCall id call?).calls id' = some call) :
    id' = id ∧ call? = some call ∨ id' ≠ id ∧ s.calls id' = some call := by
  by_cases hid : id' = id
  · subst hid
    exact .inl ⟨rfl, by simpa [AgentSys.setCall] using h⟩
  · exact .inr ⟨hid, by simpa [AgentSys.setCall, hid] using h⟩

/-! ## Only allowed commands run -/

/-- A `Reset` among the steps submitted the command, and its digest is allowed. -/
def Authorized (sha256Hex : String → String) (pre : AgentTrace) (cmd : String) : Prop :=
  sha256Hex cmd ∈ Executor.allowedHashes ∧ ∃ y ∈ pre, ∃ id, y.lab = .call id (.reset ⟨cmd⟩)

theorem Authorized.append {pre : AgentTrace} {cmd : String} (h : Authorized sha256Hex pre cmd)
    (tr : AgentTrace) : Authorized sha256Hex (pre ++ tr) cmd := by
  obtain ⟨ha, y, hy, id, hlab⟩ := h
  exact ⟨ha, y, List.mem_append_left _ hy, id, hlab⟩

/-- What the field holds and what a call read there is an authorized command, or nothing. -/
structure AuthorizedInv (sha256Hex : String → String) (pre : AgentTrace) (s : AgentSys) : Prop where
  field : s.world.lastCommand = "" ∨ Authorized sha256Hex pre s.world.lastCommand
  asked : ∀ {id call}, s.calls id = some call → ∃ y ∈ pre, y.lab = .call id call.req
  reads : ∀ {id call}, s.calls id = some call → ∃ v : CommandView,
    call.prog.Meets (commandProtocol sha256Hex call.req AgentResp) v ∧
    ∀ cmd, v.read = some cmd → cmd = "" ∨ Authorized sha256Hex pre cmd

theorem authorizedInv_init : AuthorizedInv sha256Hex [] .init where
  field := .inl rfl
  asked h := by cases h
  reads h := by cases h

theorem AuthorizedInv.step {pre : AgentTrace} {x : Lts.Trans AgentSys AgentLabel}
    (hi : AuthorizedInv sha256Hex pre x.src) (h : AgentStep sha256Hex x.src x.lab x.dst) :
    AuthorizedInv sha256Hex (pre ++ [x]) x.dst := by
  obtain ⟨s, l, s'⟩ := x
  have hold : ∀ {cmd}, cmd = "" ∨ Authorized sha256Hex pre cmd →
      cmd = "" ∨ Authorized sha256Hex (pre ++ [⟨s, l, s'⟩]) cmd :=
    fun hc => hc.imp_right fun hc => hc.append _
  -- a call that the step does not touch
  have hasked : ∀ {id call}, s.calls id = some call →
      ∃ y ∈ pre ++ [⟨s, l, s'⟩], y.lab = .call id call.req := fun hcall => by
    obtain ⟨y, hy, hlab⟩ := hi.asked hcall
    exact ⟨y, List.mem_append_left _ hy, hlab⟩
  have hreads : ∀ {id call}, s.calls id = some call → ∃ v : CommandView,
      call.prog.Meets (commandProtocol sha256Hex call.req AgentResp) v ∧
      ∀ cmd, v.read = some cmd → cmd = "" ∨ Authorized sha256Hex (pre ++ [⟨s, l, s'⟩]) cmd :=
    fun hcall => by
      obtain ⟨v, hv, hread⟩ := hi.reads hcall
      exact ⟨v, hv, fun cmd hcmd => hold (hread cmd hcmd)⟩
  change AgentStep sha256Hex s l s' at h
  rcases h.cases with ⟨id, req, rfl, rfl⟩ | ⟨id, o, c, k, call, rfl, hcall, hop, rfl⟩ |
    ⟨id, resp, call, rfl, hcall, hret, rfl⟩ | ⟨owner, sk, rfl, rfl⟩
  · refine ⟨hold hi.field, fun hc => ?_, fun hc => ?_⟩
    · rcases AgentSys.calls_setCall hc with ⟨rfl, hnew⟩ | ⟨-, hc⟩
      · cases hnew
        exact ⟨_, List.mem_append_right _ (List.mem_singleton_self _), rfl⟩
      · exact hasked hc
    · rcases AgentSys.calls_setCall hc with ⟨-, hnew⟩ | ⟨-, hc⟩
      · cases hnew
        exact ⟨{}, handle_meets_command req {}, fun cmd hcmd => by cases hcmd⟩
      · exact hreads hc
  · obtain ⟨v, hv, hread⟩ := hi.reads hcall
    rw [hop] at hv
    refine ⟨?_, fun hc => ?_, fun hc => ?_⟩
    · rcases c.command_cases o s.world v with ⟨cmd, rfl, -, -⟩ | ⟨-, hl, -⟩ | ⟨hl, -⟩
      · -- the command a `Reset` stores is the one it was called with
        obtain ⟨hreq, ha⟩ := hv.1
        obtain ⟨y, hy, hlab⟩ := hasked hcall
        have hauth : Authorized sha256Hex (pre ++ [_]) cmd := ⟨ha, y, hy, id, by rw [hlab, hreq]⟩
        exact .inr hauth
      · exact hl ▸ hold hi.field
      · exact hl ▸ hold hi.field
    · rcases AgentSys.calls_setCall hc with ⟨rfl, hnew⟩ | ⟨-, hc⟩
      · cases hnew
        obtain ⟨y, hy, hlab⟩ := hasked hcall
        exact ⟨y, hy, hlab⟩
      · exact hasked hc
    · rcases AgentSys.calls_setCall hc with ⟨-, hnew⟩ | ⟨-, hc⟩
      · cases hnew
        refine ⟨_, hv.2 _, fun cmd hcmd => ?_⟩
        change (v.track _).read = some cmd at hcmd
        rcases c.command_cases o s.world v with ⟨_, -, -, ht⟩ | ⟨-, -, ht⟩ | ⟨-, ht⟩ <;>
          rw [ht] at hcmd
        · exact hold (hread cmd hcmd)
        · obtain rfl := Option.some.inj hcmd
          exact hold hi.field
        · exact hold (hread cmd hcmd)
      · exact hreads hc
  · refine ⟨hold hi.field, fun hc => ?_, fun hc => ?_⟩
    · rcases AgentSys.calls_setCall hc with ⟨-, hnone⟩ | ⟨-, hc⟩
      · cases hnone
      · exact hasked hc
    · rcases AgentSys.calls_setCall hc with ⟨-, hnone⟩ | ⟨-, hc⟩
      · cases hnone
      · exact hreads hc
  · exact ⟨hold hi.field, hasked, hreads⟩

/-- **Only allow-listed commands run.** Over every run: each process is started with the fields of
a command that an earlier `Reset` submitted and whose digest is allowed; the field changes only to
the command of an authorized `Reset`; and a `SetCommand` that returns an error does nothing. -/
theorem only_allowed_commands {tr : AgentTrace} {s : AgentSys}
    (h : Lts.Run (AgentStep sha256Hex) .init tr s) :
    (∀ pre x post id argv r, tr = pre ++ x :: post → x.lab = .command id ⟨.start argv, r⟩ →
      ∃ cmd, Authorized sha256Hex pre cmd ∧ argv = Executor.fields cmd) ∧
    (∀ x ∈ tr, x.dst.world.lastCommand ≠ x.src.world.lastCommand →
      ∃ id call cmd r, x.src.calls id = some call ∧ call.req = .reset ⟨cmd⟩ ∧
        x.lab = .command id ⟨.setLastCommand cmd, r⟩ ∧ sha256Hex cmd ∈ Executor.allowedHashes) ∧
    ∀ cmdStr log err, After (Executor.setCommand sha256Hex cmdStr) log (.ret (some err)) →
      log = [] := by
  have hinv : ∀ {pre x post}, tr = pre ++ x :: post → AuthorizedInv sha256Hex pre x.src ∧
      AgentStep sha256Hex x.src x.lab x.dst := by
    rintro pre x post rfl
    exact ⟨Lts.Run.history_split (P := fun _ _ => True) (fun _ _ hi hs _ => hi.step hs) h
      (fun _ _ _ _ => trivial) authorizedInv_init, h.step_of_mem x (by simp)⟩
  refine ⟨fun pre x post id argv r htr hlab => ?_, fun x hx hne => ?_,
    fun cmdStr log err hlog => ?_⟩
  · obtain ⟨hi, hstep⟩ := hinv htr
    rw [hlab] at hstep
    rcases hstep.cases with ⟨_, _, hl, -⟩ | ⟨_, o, c, k, call, hl, hcall, hop, -⟩ |
      ⟨_, _, _, hl, -⟩ | ⟨_, _, hl, -⟩ <;> cases hl
    obtain ⟨v, hv, hread⟩ := hi.reads hcall
    rw [hop] at hv
    obtain ⟨cmd, hcmd, hargv, hne⟩ := hv.1
    rcases hread cmd hcmd with rfl | ha
    · exact absurd hargv hne
    · exact ⟨cmd, ha, hargv⟩
  · obtain ⟨pre, post, rfl⟩ := List.append_of_mem hx
    obtain ⟨hi, hstep⟩ := hinv rfl
    rcases hstep.cases with ⟨_, _, hl, hd⟩ | ⟨id, o, c, k, call, hl, hcall, hop, hd⟩ |
      ⟨_, _, _, hl, -, -, hd⟩ | ⟨_, _, hl, hd⟩
    · exact absurd (by rw [hd]; rfl) hne
    · obtain ⟨v, hv, -⟩ := hi.reads hcall
      rw [hop] at hv
      rcases c.command_cases o x.src.world v with ⟨cmd, rfl, -, -⟩ | ⟨-, hw, -⟩ | ⟨hw, -⟩
      · exact ⟨id, call, cmd, _, hcall, hv.1.1, hl, hv.1.2⟩
      · exact absurd (by rw [hd]; exact hw) hne
      · exact absurd (by rw [hd]; exact hw) hne
    · exact absurd (by rw [hd]; rfl) hne
    · exact absurd (by rw [hd]) hne
  · simp only [Executor.setCommand] at hlog
    split at hlog
    · exact (after_ret_iff.1 hlog).1
    · obtain ⟨_, _, -, hret⟩ := after_op_ret_iff.1 hlog
      obtain ⟨-, hret⟩ := after_ret_iff.1 hret
      cases hret

theorem only_allowed_commands_baseline :
    ∃ pre x post argv r, (playActions (baselineActions 0)).1 = pre ++ x :: post ∧
      x.lab = .command 0 ⟨.start argv, r⟩ ∧
      ∃ cmd, Authorized sha256Google pre cmd ∧ argv = Executor.fields cmd :=
  ⟨(playActions (baselineActions 0)).1.take 4, _, (playActions (baselineActions 0)).1.drop 5, _, _,
    rfl, rfl,
    (only_allowed_commands (run_playActions (baselineActions 0) rfl)).1 _ _ _ 0 _ _ rfl rfl⟩

/-! ## Whose command runs -/

/-- The last `Reset` request among the steps. -/
def lastReset (tr : AgentTrace) : Option ResetRequest :=
  tr.foldl (fun last x => match x.lab with
    | .call _ (.reset req) => some req
    | _ => last) none

/-- The command a process has to run: that of the `Reset` itself, and for a `Step` that of the last
`Reset`, which has to be authorized. -/
def OwnCommand (sha256Hex : String → String) (pre : AgentTrace)
    (x : Lts.Trans AgentSys AgentLabel) : Prop :=
  ∀ id argv r call, x.lab = .command id ⟨.start argv, r⟩ → x.src.calls id = some call →
    match call.req with
    | .reset req => argv = Executor.fields req.command
    | .step _ => ∃ req, lastReset pre = some req ∧
        sha256Hex req.command ∈ Executor.allowedHashes ∧ argv = Executor.fields req.command

/-- The command of the last `Reset`, if that is authorized. -/
def Current (sha256Hex : String → String) (pre : AgentTrace) (cmd : String) : Prop :=
  sha256Hex cmd ∈ Executor.allowedHashes ∧ lastReset pre = some ⟨cmd⟩

/-- The command writes or reads the field, or runs what was read. -/
def AgentCmd.usesCommand : AgentCmd → Bool
  | .setLastCommand _ | .getLastCommand | .start _ => true
  | .wait _ | .putAction _ _ | .lookupMetric _ => false

/-- The program has still to use the field. -/
def UsesCommand (p : AgentProg AgentResp) : Prop :=
  ∃ log c k, After p log (.op c k) ∧ c.usesCommand = true

/-- The call is in flight and has still to use the field. -/
def AgentSys.Pending (s : AgentSys) (id : Nat) (call : InFlight) : Prop :=
  s.calls id = some call ∧ UsesCommand call.prog

/-- When a `Reset` request arrives, the calls that have still to use the field are for the same
command: each `Reset`, unless the request is rejected, and, when there is a `Step`, the last
`Reset`. When a `Step` request arrives, the field holds the command of the last `Reset`, or nothing,
and no `Reset` has still to write another. -/
def Orderly (sha256Hex : String → String) (pre : AgentTrace) (x : Lts.Trans AgentSys AgentLabel) :
    Prop :=
  (∀ id req, x.lab = .call id (.reset req) → ∀ id' call, x.src.Pending id' call →
    match call.req with
      | .reset req' => sha256Hex req.command ∈ Executor.allowedHashes → req' = req
      | .step _ => lastReset pre = some req) ∧
  (∀ id req, x.lab = .call id (.step req) →
    (x.src.world.lastCommand = "" ∨ Current sha256Hex pre x.src.world.lastCommand) ∧
    ∀ id' call req', x.src.Pending id' call → call.req = .reset req' → lastReset pre = some req')

theorem lastReset_append (pre : AgentTrace) (x : Lts.Trans AgentSys AgentLabel) :
    lastReset (pre ++ [x]) = match x.lab with
      | .call _ (.reset req) => some req
      | _ => lastReset pre := by
  simp only [lastReset, List.foldl_append, List.foldl_cons, List.foldl_nil]

theorem UsesCommand.of_op {c : AgentCmd} {k : c.Ret → AgentProg AgentResp}
    (h : c.usesCommand = true) : UsesCommand (.op c k) :=
  ⟨[], c, k, .nil _, h⟩

theorem UsesCommand.of_cont {c : AgentCmd} {k : c.Ret → AgentProg AgentResp} {r : c.Ret}
    (h : UsesCommand (k r)) : UsesCommand (.op c k) := by
  obtain ⟨log, c', k', hafter, hc'⟩ := h
  exact ⟨_, c', k', .cons hafter, hc'⟩

/-- A rejected `Reset` does nothing. -/
theorem allowed_of_usesCommand {req : ResetRequest}
    (h : UsesCommand (Server.handle sha256Hex (.reset req))) :
    sha256Hex req.command ∈ Executor.allowedHashes := by
  by_contra ha
  obtain ⟨log, c, k, hafter, -⟩ := h
  simp only [Server.handle, Server.reset, Executor.setCommand, ha, not_false_eq_true, ↓reduceIte]
    at hafter
  cases (after_ret_iff.1 hafter).2

/-- The commands a call may read. -/
def Own (sha256Hex : String → String) (pre : AgentTrace) (req : AgentReq) (cmd : String) : Prop :=
  match req with
  | .reset req => cmd = req.command
  | .step _ => cmd = "" ∨ Current sha256Hex pre cmd

/-- For the calls that have still to use the field: what it holds, for a `Reset` once it is written,
and what the call read is the call's own. -/
structure OwnInv (sha256Hex : String → String) (pre : AgentTrace) (s : AgentSys) : Prop where
  own : ∀ {id call}, s.Pending id call → ∃ v : CommandView,
    call.prog.Meets (commandProtocol sha256Hex call.req AgentResp) v ∧
    ((∀ req, call.req = .reset req → v.stored = true) →
      Own sha256Hex pre call.req s.world.lastCommand) ∧
    ∀ cmd, v.read = some cmd → Own sha256Hex pre call.req cmd
  same : ∀ {id id' call call' req req'}, s.Pending id call → s.Pending id' call' →
    call.req = .reset req → call'.req = .reset req' → req = req'
  last : ∀ {id id' call call' req req'}, s.Pending id call → s.Pending id' call' →
    call.req = .step req → call'.req = .reset req' → lastReset pre = some req'

theorem ownInv_init : OwnInv sha256Hex [] .init where
  own h := by cases h.1
  same h := by cases h.1
  last h := by cases h.1

theorem Own.of_lastReset {pre pre' : AgentTrace} {req : AgentReq} {cmd : String}
    (h : Own sha256Hex pre req cmd) (hl : ∀ r, req = .step r → lastReset pre' = lastReset pre) :
    Own sha256Hex pre' req cmd := by
  cases req with
  | reset req => exact h
  | step req => exact h.imp_right fun hc => ⟨hc.1, (hl req rfl).trans hc.2⟩

theorem AgentSys.pending_setCall {s : AgentSys} {w : AgentWorld} {id id' : Nat}
    {call? : Option InFlight} {call : InFlight}
    (h : (AgentSys.setCall { s with world := w } id call?).Pending id' call) :
    id' = id ∧ call? = some call ∧ UsesCommand call.prog ∨ id' ≠ id ∧ s.Pending id' call := by
  rcases AgentSys.calls_setCall h.1 with ⟨rfl, hnew⟩ | ⟨hne, hold⟩
  · exact .inl ⟨rfl, hnew, h.2⟩
  · exact .inr ⟨hne, hold, h.2⟩

/-- A request arrives. -/
theorem OwnInv.call {pre : AgentTrace} {s : AgentSys} {id : Nat} {req : AgentReq}
    (hi : OwnInv sha256Hex pre s)
    (ho : Orderly sha256Hex pre ⟨s, .call id req,
      s.setCall id (some { req, prog := Server.handle sha256Hex req })⟩) :
    OwnInv sha256Hex (pre ++ [⟨s, .call id req,
        s.setCall id (some { req, prog := Server.handle sha256Hex req })⟩])
      (s.setCall id (some { req, prog := Server.handle sha256Hex req })) := by
  -- with a `Step` in flight the last `Reset` stays what it is
  have hlast : ∀ {id' call req'}, s.Pending id' call → call.req = .step req' →
      lastReset (pre ++ [⟨s, .call id req,
        s.setCall id (some { req, prog := Server.handle sha256Hex req })⟩]) = lastReset pre := by
    intro id' call req' hp hstep
    rw [lastReset_append]
    cases req with
    | reset req =>
      have horder := ho.1 id req rfl id' call hp
      rw [hstep] at horder
      exact horder.symm
    | step req => rfl
  have hnew : ∀ {id' call},
      (s.setCall id (some { req, prog := Server.handle sha256Hex req })).Pending id' call →
      call = { req, prog := Server.handle sha256Hex req } ∧
        UsesCommand (Server.handle sha256Hex req) ∨ s.Pending id' call := by
    intro id' call hp
    rcases AgentSys.pending_setCall hp with ⟨-, hcall, huse⟩ | ⟨-, hp⟩
    · cases hcall
      exact .inl ⟨rfl, huse⟩
    · exact .inr hp
  refine ⟨fun hp => ?_, fun hp hp' hreq hreq' => ?_, fun hp hp' hreq hreq' => ?_⟩
  · rcases hnew hp with ⟨rfl, -⟩ | hp
    · refine ⟨{}, handle_meets_command req {}, fun hst => ?_, fun cmd hcmd => by cases hcmd⟩
      cases req with
      | reset req => cases hst req rfl
      | step req =>
        refine (ho.2 id req rfl).1.imp_right fun hc => ⟨hc.1, ?_⟩
        rw [lastReset_append]
        exact hc.2
    · obtain ⟨v, hv, hfield, hread⟩ := hi.own hp
      exact ⟨v, hv, fun hst => (hfield hst).of_lastReset fun r hr => hlast hp hr,
        fun cmd hcmd => (hread cmd hcmd).of_lastReset fun r hr => hlast hp hr⟩
  · rcases hnew hp with ⟨rfl, huse⟩ | hs <;> rcases hnew hp' with ⟨rfl, huse'⟩ | hs'
    · exact AgentReq.reset.inj (hreq.symm.trans hreq')
    · subst hreq
      have horder := ho.1 id _ rfl _ _ hs'
      rw [hreq'] at horder
      exact (horder (allowed_of_usesCommand huse)).symm
    · subst hreq'
      have horder := ho.1 id _ rfl _ _ hs
      rw [hreq] at horder
      exact horder (allowed_of_usesCommand huse')
    · exact hi.same hs hs' hreq hreq'
  · rcases hnew hp with ⟨rfl, huse⟩ | hs <;> rcases hnew hp' with ⟨rfl, huse'⟩ | hs'
    · cases hreq.symm.trans hreq'
    · subst hreq
      rw [lastReset_append]
      exact (ho.2 id _ rfl).2 _ _ _ hs' hreq'
    · subst hreq'
      rw [lastReset_append]
    · rw [hlast hs hreq]
      exact hi.last hs hs' hreq hreq'

/-- A call issues a command. -/
theorem OwnInv.command {pre : AgentTrace} {x : Lts.Trans AgentSys AgentLabel} {s : AgentSys}
    {id : Nat} {o : AgentOutside} {c : AgentCmd} {k : c.Ret → AgentProg AgentResp} {call : InFlight}
    {process : Option UInt32} (hi : OwnInv sha256Hex pre s) (hcall : s.calls id = some call)
    (hop : call.prog = .op c k) (hlast : lastReset (pre ++ [x]) = lastReset pre) :
    OwnInv sha256Hex (pre ++ [x]) (AgentSys.setCall { s with world := (c.exec o s.world).2 } id
      (some { req := call.req, prog := k (c.exec o s.world).1, process })) := by
  have hkeep : ∀ {req cmd}, Own sha256Hex pre req cmd → Own sha256Hex (pre ++ [x]) req cmd :=
    fun h => h.of_lastReset fun _ _ => hlast
  -- the call was pending before the command, with the same request
  have hpending : UsesCommand (k (c.exec o s.world).1) → s.Pending id call :=
    fun h => ⟨hcall, hop ▸ h.of_cont⟩
  have hback : ∀ {id' call'}, (AgentSys.setCall { s with world := (c.exec o s.world).2 } id
      (some { req := call.req, prog := k (c.exec o s.world).1, process })).Pending id' call' →
      ∃ call₀, s.Pending id' call₀ ∧ call₀.req = call'.req := by
    intro id' call' hp
    rcases AgentSys.pending_setCall hp with ⟨rfl, hnew, huse⟩ | ⟨-, hp⟩
    · cases hnew
      exact ⟨call, hpending huse, rfl⟩
    · exact ⟨call', hp, rfl⟩
  refine ⟨@fun _ call' hp => ?_, fun hp hp' hreq hreq' => ?_, fun hp hp' hreq hreq' => ?_⟩
  · rcases AgentSys.pending_setCall hp with ⟨rfl, hnew, huse⟩ | ⟨-, hs⟩
    · cases hnew
      obtain ⟨v, hv, hfield, hread⟩ := hi.own (hpending huse)
      rw [hop] at hv
      have hmeets : (k (c.exec o s.world).1).Meets (commandProtocol sha256Hex call.req AgentResp)
          (v.track ⟨c, (c.exec o s.world).1⟩) := hv.2 _
      refine ⟨_, hmeets, ?_⟩
      rcases c.command_cases o s.world v with ⟨cmd, rfl, hw, ht⟩ | ⟨rfl, hw, ht⟩ | ⟨hw, ht⟩ <;>
        rw [ht]
      · -- a `Reset` stores its own command
        obtain ⟨hreq, -⟩ := hv.1
        exact ⟨fun _ => by rw [hreq]; exact hw, fun cmd hcmd => hkeep (hread cmd hcmd)⟩
      · have hown := hfield hv.1
        refine ⟨fun _ => ?_, fun cmd hcmd => ?_⟩
        · exact hw.symm ▸ hkeep hown
        · obtain rfl := Option.some.inj hcmd
          exact hkeep hown
      · exact ⟨fun hst => hw.symm ▸ hkeep (hfield hst), fun cmd hcmd => hkeep (hread cmd hcmd)⟩
    · obtain ⟨v, hv, hfield, hread⟩ := hi.own hs
      refine ⟨v, hv, fun hst => ?_, fun cmd hcmd => hkeep (hread cmd hcmd)⟩
      rcases c.command_cases o s.world v with ⟨cmd, rfl, hw, -⟩ | ⟨-, hw, -⟩ | ⟨hw, -⟩
      · -- another `Reset` writes the field: its command is the call's own too
        have hp₀ : s.Pending id call := ⟨hcall, hop ▸ .of_op rfl⟩
        obtain ⟨_, hmeets, -⟩ := hi.own hp₀
        rw [hop] at hmeets
        obtain ⟨hreset, ha⟩ := hmeets.1
        change Own sha256Hex _ _ (AgentCmd.exec o _ s.world).2.lastCommand
        rw [hw]
        cases hreq : call'.req with
        | reset req' => exact congrArg ResetRequest.command (hi.same hp₀ hs hreset hreq)
        | step req => exact .inr ⟨ha, hlast.trans (hi.last hs hp₀ hreq hreset)⟩
      · exact hw.symm ▸ hkeep (hfield hst)
      · exact hw.symm ▸ hkeep (hfield hst)
  · obtain ⟨call₀, hp₀, h₀⟩ := hback hp
    obtain ⟨call₁, hp₁, h₁⟩ := hback hp'
    exact hi.same hp₀ hp₁ (h₀.trans hreq) (h₁.trans hreq')
  · obtain ⟨call₀, hp₀, h₀⟩ := hback hp
    obtain ⟨call₁, hp₁, h₁⟩ := hback hp'
    rw [hlast]
    exact hi.last hp₀ hp₁ (h₀.trans hreq) (h₁.trans hreq')

theorem OwnInv.step {pre : AgentTrace} {x : Lts.Trans AgentSys AgentLabel}
    (hi : OwnInv sha256Hex pre x.src) (h : AgentStep sha256Hex x.src x.lab x.dst)
    (ho : Orderly sha256Hex pre x) : OwnInv sha256Hex (pre ++ [x]) x.dst := by
  obtain ⟨s, l, s'⟩ := x
  change AgentStep sha256Hex s l s' at h
  rcases h.cases with ⟨id, req, rfl, rfl⟩ | ⟨id, o, c, k, call, rfl, hcall, hop, rfl⟩ |
    ⟨id, resp, call, rfl, hcall, hret, rfl⟩ | ⟨owner, sk, rfl, rfl⟩
  · exact hi.call ho
  · exact hi.command hcall hop (lastReset_append _ _)
  · have hback : ∀ {id' call'}, (s.setCall id none).Pending id' call' → s.Pending id' call' := by
      intro id' call' hp
      rcases AgentSys.pending_setCall hp with ⟨-, hnone, -⟩ | ⟨-, hp⟩
      · cases hnone
      · exact hp
    refine ⟨fun hp => ?_, fun hp hp' => hi.same (hback hp) (hback hp'), fun hp hp' hreq hreq' => ?_⟩
    · obtain ⟨v, hv, hfield, hread⟩ := hi.own (hback hp)
      exact ⟨v, hv, fun hst => (hfield hst).of_lastReset fun _ _ => lastReset_append _ _,
        fun cmd hcmd => (hread cmd hcmd).of_lastReset fun _ _ => lastReset_append _ _⟩
    · rw [lastReset_append]
      exact hi.last (hback hp) (hback hp') hreq hreq'
  · refine ⟨fun hp => ?_, hi.same, fun hp hp' hreq hreq' => ?_⟩
    · obtain ⟨v, hv, hfield, hread⟩ := hi.own hp
      exact ⟨v, hv, fun hst => (hfield hst).of_lastReset fun _ _ => lastReset_append _ _,
        fun cmd hcmd => (hread cmd hcmd).of_lastReset fun _ _ => lastReset_append _ _⟩
    · rw [lastReset_append]
      exact hi.last hp hp' hreq hreq'

/-- **When runs belong to their episode.** In every run where each request arrives when the field is
not another's, a `Reset` runs its own command and a `Step` the command of the last `Reset`, and none
if that was rejected. -/
theorem own_commands {tr : AgentTrace} {s : AgentSys}
    (h : Lts.Run (AgentStep sha256Hex) .init tr s)
    (ho : ∀ pre x post, tr = pre ++ x :: post → Orderly sha256Hex pre x) :
    ∀ pre x post, tr = pre ++ x :: post → OwnCommand sha256Hex pre x := by
  rintro pre x post rfl id argv r call hlab hcall
  have hi : OwnInv sha256Hex pre x.src :=
    Lts.Run.history_split (fun _ _ hi hs ho => hi.step hs ho) h ho ownInv_init
  have hstep := h.step_of_mem x (by simp)
  rw [hlab] at hstep
  rcases hstep.cases with ⟨_, _, hl, -⟩ | ⟨_, o, c, k, call', hl, hcall', hop, -⟩ |
    ⟨_, _, _, hl, -⟩ | ⟨_, _, hl, -⟩ <;> cases hl
  obtain rfl := Option.some.inj (hcall.symm.trans hcall')
  obtain ⟨v, hv, -, hread⟩ := hi.own ⟨hcall, hop ▸ .of_op rfl⟩
  rw [hop] at hv
  obtain ⟨cmd, hcmd, rfl, hne⟩ := hv.1
  have hown := hread cmd hcmd
  cases hreq : call.req with
  | reset req =>
    rw [hreq] at hown
    exact congrArg Executor.fields hown
  | step req =>
    rw [hreq] at hown
    rcases hown with rfl | ⟨ha, hlast⟩
    · exact absurd rfl hne
    · exact ⟨_, hlast, ha, rfl⟩

/-- With one call at a time it is enough that no `Step` follows a rejected `Reset` while the field
holds an earlier command. -/
theorem orderly_of_idle {pre : AgentTrace} {x : Lts.Trans AgentSys AgentLabel}
    (hidle : ∀ id req, x.lab = .call id req → ∀ id', x.src.calls id' = none)
    (hstep : ∀ id req, x.lab = .call id (.step req) →
      x.src.world.lastCommand = "" ∨ Current sha256Hex pre x.src.world.lastCommand) :
    Orderly sha256Hex pre x := by
  have hnone : ∀ {id req}, x.lab = .call id req → ∀ id' call, ¬x.src.Pending id' call := by
    rintro id req hlab id' call ⟨hcall, -⟩
    rw [hidle id req hlab id'] at hcall
    cases hcall
  exact ⟨fun id req hlab id' call hp => absurd hp (hnone hlab id' call),
    fun id req hlab => ⟨hstep id req hlab, fun id' call req' hp => absurd hp (hnone hlab id' call)⟩⟩

/-- A `Reset` for the google command, answered, and a `Step` up to its process. -/
def episodeActions : List AgentAction :=
  [.call 0 (.reset ⟨"curl -4 -sI -m 5 http://google.com"⟩), .command 0 {}, .command 0 {},
   .command 0 {}, .command 0 { start := .ok 4242 }, .command 0 {}, .command 0 {}, .answer 0,
   .call 1 (.step { targetIp := "142.250.1.100" }), .command 1 {}, .command 1 {}, .command 1 {},
   .command 1 { start := .ok 4243 }]

/-- The requests are the first and the ninth action, and no call is in flight before either. -/
theorem orderly_episode {pre post : AgentTrace} {x : Lts.Trans AgentSys AgentLabel}
    (htr : (playActions episodeActions).1 = pre ++ x :: post) : Orderly sha256Google pre x := by
  have hpre : pre = (playActions episodeActions).1.take pre.length := by simp [htr]
  have hx : (playActions episodeActions).1[pre.length]? = some x := by simp [htr]
  have hlen : pre.length < 13 := (List.getElem?_eq_some_iff.1 hx).1
  have hrest : ∀ i < 13, i ≠ 0 → i ≠ 8 → (playActions episodeActions).1[i]?.all fun x =>
      match x.lab with
      | .call _ _ => false
      | _ => true := by decide
  by_cases hfirst : pre.length = 0
  · rw [hfirst] at hx
    cases hx
    exact orderly_of_idle (fun _ _ _ _ => rfl) fun _ _ hlab => by cases hlab
  by_cases hninth : pre.length = 8
  · rw [hninth] at hx hpre
    cases hx
    refine orderly_of_idle (fun _ _ _ id' => ?_) fun _ _ _ => .inr ⟨by decide, hpre ▸ rfl⟩
    cases id' <;> rfl
  · have hcall : ∀ id req, x.lab ≠ .call id req := fun id req hlab => by
      have hfalse := hrest _ hlen hfirst hninth
      rw [hx, Option.all_some, hlab] at hfalse
      cases hfalse
    exact orderly_of_idle (fun id req hlab => absurd hlab (hcall id req))
      fun id req hlab => absurd hlab (hcall id _)

theorem own_commands_episode :
    ∃ pre x post argv r, (playActions episodeActions).1 = pre ++ x :: post ∧
      x.lab = .command 1 ⟨.start argv, r⟩ ∧ x.src.calls 1 ≠ none ∧
      OwnCommand sha256Google pre x :=
  ⟨(playActions episodeActions).1.take 12, _, [], _, _, rfl, rfl, nofun,
    own_commands (run_playActions episodeActions rfl) (fun _ _ _ htr => orderly_episode htr)
      _ _ _ rfl⟩

/-- Digests that allow every command but one. -/
def sha256NoReboot (cmd : String) : String :=
  if cmd = "reboot" then "" else sha256Google cmd

/-- A `Reset` is rejected after one that succeeded, and a `Step` is asked for. -/
def rejectedActions : List AgentAction :=
  [.call 0 (.reset ⟨"curl -4 -sI -m 5 http://google.com"⟩), .command 0 {}, .command 0 {},
   .command 0 {}, .command 0 { start := .ok 4242 }, .command 0 {}, .command 0 {}, .answer 0,
   .call 1 (.reset ⟨"reboot"⟩), .answer 1,
   .call 2 (.step { targetIp := "142.250.1.100" }), .command 2 {}, .command 2 {}, .command 2 {},
   .command 2 { start := .ok 4243 }]

/-- The `Step` runs the command of the episode before. -/
theorem step_after_rejected_reset :
    ∃ tr s pre x, Lts.Run (AgentStep sha256NoReboot) .init tr s ∧ tr = pre ++ [x] ∧
      lastReset pre = some ⟨"reboot"⟩ ∧ sha256NoReboot "reboot" ∉ Executor.allowedHashes ∧
      x.lab = .command 2 ⟨.start ["curl", "-4", "-sI", "-m", "5", "http://google.com"],
        (.ok 4243 : Except _ _)⟩ ∧ ¬OwnCommand sha256NoReboot pre x := by
  have hrun : Lts.Run (AgentStep sha256NoReboot) .init
      (Lts.played (AgentSys.step sha256NoReboot) .init rejectedActions).1
      (Lts.played (AgentSys.step sha256NoReboot) .init rejectedActions).2 := Lts.run_played rfl
  refine ⟨_, _, (Lts.played (AgentSys.step sha256NoReboot) .init rejectedActions).1.take 14, _,
    hrun, rfl, rfl, by decide, rfl, fun hown => ?_⟩
  obtain ⟨req, hlast, ha, -⟩ := hown 2 _ _ _ rfl rfl
  obtain rfl := Option.some.inj hlast
  exact absurd ha (by decide)

end SocketTuner.Agent
