import SocketTuner.Env.Budget

/-!
# What the inference client makes its environment send

Two retry loops are nested, one in the environment and one in the client, and both count. In every
run of `main` the RPCs of an episode are some `Reset`s, then some `Step`s and then perhaps a `Close`
(`EpisodeTraffic`): at most twelve `Reset`s, which lease two agents at most, and at most fifteen
`Step`s, all for the last agent leased, or two more than the `MAX_STEPS` of the environment if that
is less (`stepBound`). This agent is closed, once and last, exactly when a step returned `done`.
With a `MAX_STEPS` up to the client's, every episode without an exception ends so. The agent of an
episode that failed, and the first of two, are not closed.

`main` sends what its episodes send, and at the end perhaps one more `Close` (`main_traffic`).
-/

namespace SocketTuner.Env

open Prog

variable {errText : PyErr → String} {cfg : EnvConfig}

/-- The RPCs sent in a run of the client. -/
def rpcs (tr : List ClientTrans) : List RpcEvent := tr.flatMap fun x => x.dst.sent

@[simp] theorem rpcs_nil : rpcs [] = [] := rfl

@[simp] theorem rpcs_cons (x : ClientTrans) (tr : List ClientTrans) :
    rpcs (x :: tr) = x.dst.sent ++ rpcs tr := rfl

@[simp] theorem rpcs_append (tr tr' : List ClientTrans) : rpcs (tr ++ tr') = rpcs tr ++ rpcs tr' :=
  List.flatMap_append

/-- The sessions a log obtains. -/
def leases (log : List RpcEvent) : List String := log.filterMap acquired

@[simp] theorem leases_nil : leases [] = [] := rfl

@[simp] theorem leases_append (log log' : List RpcEvent) :
    leases (log ++ log') = leases log ++ leases log' :=
  List.filterMap_append

/-- The RPC is a `Reset`. -/
def IsReset (x : RpcEvent) : Prop := ∃ req, x.1 = .reset req

/-- The `Close` that is due for a session; for an empty id the environment sends none. -/
def ClosedBy (id : String) (closes : List RpcEvent) : Prop :=
  id = "" ∧ closes = [] ∨ id ≠ "" ∧ ∃ reply, closes = [⟨.close ⟨id⟩, reply⟩]

/-- The kinds of RPCs. -/
def Rpc.isReset : Rpc → Bool
  | .reset _ => true
  | _ => false

@[inherit_doc Rpc.isReset]
def Rpc.isStep : Rpc → Bool
  | .step _ => true
  | _ => false

@[inherit_doc Rpc.isReset]
def Rpc.isClose : Rpc → Bool
  | .close _ => true
  | _ => false

/-- The RPCs of one kind in a log. -/
def count (kind : Rpc → Bool) (log : List RpcEvent) : Nat := log.countP fun x => kind x.1

@[simp] theorem count_append (kind : Rpc → Bool) (log log' : List RpcEvent) :
    count kind (log ++ log') = count kind log + count kind log' :=
  List.countP_append

theorem count_le {kind : Rpc → Bool} {log : List RpcEvent} : count kind log ≤ log.length :=
  List.countP_le_length

theorem count_eq_zero {kind : Rpc → Bool} {log : List RpcEvent}
    (h : ∀ x ∈ log, kind x.1 = false) : count kind log = 0 :=
  List.countP_eq_zero.2 fun x hx => by simp [h x hx]

/-! ## One command -/

theorem leases_failed {log : List RpcEvent} (h : ∀ x ∈ log, FailedReset x) : leases log = [] :=
  List.filterMap_eq_nil_iff.2 fun x hx => (h x hx).2

theorem isReset_of_acquired {x : RpcEvent} {id : String} (h : acquired x = some id) :
    IsReset x := by
  obtain ⟨rpc, r⟩ := x
  cases rpc with
  | reset req => exact ⟨req, rfl⟩
  | step _ | close _ => cases h

theorem resetAttempts_within {command : String} {left : Nat} :
    (SocketTunerEnvironment.resetAttempts command left).Within (fun _ => 1) left := by
  induction left with
  | zero => trivial
  | succ left ih =>
    refine ⟨Nat.le_add_left 1 left, fun r => ?_⟩
    cases r with
    | error e =>
      change Within _ _ (if 0 < left then _ else _)
      split
      · exact ih
      · trivial
    | ok response =>
      change Within _ _ (if response.success = true then _ else _)
      split
      · trivial
      · split
        · exact ih
        · trivial

theorem reset_within (env : SocketTunerEnvironment) : env.reset.Within (fun _ => 1) 3 := by
  simp only [SocketTunerEnvironment.reset]
  split
  · trivial
  · refine Within.bind (n := 3) (m := 0) resetAttempts_within fun r => ?_
    cases r <;> trivial

/-- What `reset` sends: at most three `Reset`s, of which the last one obtains a session if it
returns, and none otherwise. -/
theorem reset_sent {s t : ClientSys} {r : Except String StepResult}
    (h : ClientStep errText cfg s ⟨.reset, r⟩ t) :
    t.sent.length ≤ 3 ∧ (∀ x ∈ t.sent, IsReset x) ∧
    ((∃ err, r = .error err ∧ leases t.sent = []) ∨
     ∃ result id, r = .ok result ∧ leases t.sent = [id] ∧ t.env.sessionId = some id) := by
  obtain ⟨res, hafter, rfl⟩ := h
  have hlen := (reset_within s.env).after hafter
  simp only [List.map_const', List.sum_replicate_nat, Nat.mul_one] at hlen
  refine ⟨hlen, ?_⟩
  obtain ⟨-, ⟨err, rfl, -, hlog⟩ | ⟨obs, id, pre, x, rfl, -, hid, hlog, hpre, hx⟩⟩ :=
    SocketTunerEnvironment.reset_log hafter
  · exact ⟨fun x hx => (hlog x hx).1, .inl ⟨_, rfl, leases_failed hlog⟩⟩
  · rw [hlog]
    refine ⟨fun y hy => ?_, .inr ⟨_, id, rfl, ?_, hid⟩⟩
    · rcases List.mem_append.1 hy with hy | hy
      · exact (hpre y hy).1
      · obtain rfl := List.mem_singleton.1 hy
        exact isReset_of_acquired hx
    · rw [leases_append, leases_failed hpre]
      simp [leases, hx]

/-- What a step sends for a session: at most one `Step`, and the `Close` that is due when it returns
`done`. -/
structure StepTraffic (id : String) (n : Nat) (r : Except String StepResult)
    (log : List RpcEvent) : Prop where
  split : ∃ steps closes, log = steps ++ closes ∧ steps.length ≤ n ∧
    (∀ x ∈ steps, ∃ req, x.1 = .step req ∧ req.sessionId = id) ∧
    ((∃ result, r = .ok result ∧ result.done = true ∧ ClosedBy id closes) ∨
     (∀ result, r = .ok result → result.done = false) ∧ closes = [])

/-- Without `done` only `Step`s are sent. -/
theorem StepTraffic.of_running {id : String} {n : Nat} {r : Except String StepResult}
    {log : List RpcEvent} (h : StepTraffic id n r log)
    (hr : ∀ result, r = .ok result → result.done = false) :
    log.length ≤ n ∧ ∀ x ∈ log, ∃ req, x.1 = .step req ∧ req.sessionId = id := by
  obtain ⟨steps, closes, rfl, hlen, hall, ⟨result, hok, hd, -⟩ | ⟨-, rfl⟩⟩ := h.split
  · rw [hr result hok] at hd
    cases hd
  · rw [List.append_nil]
    exact ⟨hlen, hall⟩

theorem StepTraffic.of_done {id : String} {n : Nat} {result : StepResult} {log : List RpcEvent}
    (h : StepTraffic id n (.ok result) log) (hd : result.done = true) :
    ∃ steps closes, log = steps ++ closes ∧ steps.length ≤ n ∧
      (∀ x ∈ steps, ∃ req, x.1 = .step req ∧ req.sessionId = id) ∧ ClosedBy id closes := by
  obtain ⟨steps, closes, hlog, hlen, hall, ⟨_, -, -, hclosed⟩ | ⟨hr, -⟩⟩ := h.split
  · exact ⟨steps, closes, hlog, hlen, hall, hclosed⟩
  · rw [hr result rfl] at hd
    cases hd

theorem step_sent {s t : ClientSys} {action : UISocketTunerAction} {r : Except String StepResult}
    {id : String} (h : ClientStep errText cfg s ⟨.step action, r⟩ t)
    (hid : s.env.sessionId = some id) :
    t.env.sessionId = some id ∧ StepTraffic id 1 r t.sent := by
  obtain ⟨res, hafter, rfl⟩ := h
  obtain ⟨hsid, -, hlog⟩ := SocketTunerEnvironment.step_log hafter
  refine ⟨hsid.trans hid, ⟨?_⟩⟩
  rcases hlog with ⟨hlog, err, rfl⟩ | ⟨req, reply, -, hreq, hlog⟩
  · exact ⟨[], [], hlog, Nat.zero_le 1, by simp, .inr ⟨fun _ h => (by cases h), rfl⟩⟩
  · rw [hid] at hreq
    have hstep : ∀ x ∈ [(⟨.step req, reply⟩ : RpcEvent)],
        ∃ req, x.1 = .step req ∧ req.sessionId = id := by
      intro x hx
      obtain rfl := List.mem_singleton.1 hx
      exact ⟨req, rfl, hreq⟩
    rcases hlog with ⟨hlog, hnone⟩ | ⟨id', reply', obs, hsess, hlog, rfl, hdone⟩
    · refine ⟨_, [], by rw [hlog, List.append_nil], le_rfl, hstep, ?_⟩
      cases res with
      | error err => exact .inr ⟨fun _ h => (by cases h), rfl⟩
      | ok obs =>
        cases hd : obs.done with
        | false =>
          refine .inr ⟨fun result h => ?_, rfl⟩
          cases h
          exact hd
        | true =>
          -- without a `Close` the id is empty
          have hempty : id = "" := by
            have hs := hnone obs rfl hd
            simpa [SocketTunerEnvironment.session, hid, Option.filter_eq_none_iff] using hs
          exact .inl ⟨_, rfl, hd, .inl ⟨hempty, rfl⟩⟩
    · obtain ⟨hsid', hne⟩ := SocketTunerEnvironment.sessionId_of_session hsess
      rw [hid] at hsid'
      cases hsid'
      exact ⟨_, [⟨.close ⟨id⟩, reply'⟩], hlog, le_rfl, hstep,
        .inl ⟨_, rfl, hdone, .inr ⟨hne, reply', rfl⟩⟩⟩

theorem quiet_sent {s t : ClientSys} {e : ClientEvent} (h : ClientStep errText cfg s e t)
    (hreset : e.1 ≠ .reset) (hstep : ∀ action, e.1 ≠ .step action) : t.sent = [] := by
  obtain ⟨c, r⟩ := e
  cases c with
  | reset => exact absurd rfl hreset
  | step action => exact absurd rfl (hstep action)
  | chat _ _ _ _ | logStart | logStep _ _ _ _ | logEnd _ _ _ _ => exact h.2

/-! ## The step loop -/

theorem stepRetry_within (action : UISocketTunerAction) (left : Nat) :
    (stepRetry action left).Within (fun _ => 1) (left + 1) := by
  have hone : (envStep action).Within (fun _ => 1) 1 := ⟨le_rfl, fun _ => trivial⟩
  exact (Within.retry hone left).mono (by omega)

/-- What the attempts of a step send: a `Step` each, and a `Close` after one that returns `done`. -/
theorem stepRetry_sent {action : UISocketTunerAction} {left : Nat} {s t : ClientSys}
    {tr : List ClientTrans} {r : Except String StepResult} {id : String}
    (h : ClientExec errText cfg (stepRetry action left) s tr r t)
    (hid : s.env.sessionId = some id) :
    t.env.sessionId = some id ∧ t.env.stepCount = s.env.stepCount + tr.length ∧
      0 < tr.length ∧ tr.length ≤ left + 1 ∧ StepTraffic id tr.length r (rpcs tr) := by
  have hlen := (stepRetry_within action left).exec h
  simp only [List.map_const', List.sum_replicate_nat, Nat.mul_one] at hlen
  suffices hs : t.env.sessionId = some id ∧ t.env.stepCount = s.env.stepCount + tr.length ∧
      0 < tr.length ∧ StepTraffic id tr.length r (rpcs tr) from
    ⟨hs.1, hs.2.1, hs.2.2.1, hlen, hs.2.2.2⟩
  replace h := Exec.retry_inv h
  clear hlen
  induction h with
  | last h =>
    obtain ⟨rfl, hs⟩ := Exec.call_alone (c := ClientCmd.step action) h
    obtain ⟨hid', htraffic⟩ := step_sent hs hid
    refine ⟨hid', ?_, Nat.one_pos, by simpa using htraffic⟩
    rw [hs.step_inv.1]
    rfl
  | @again _ v _ _ _ _ _ h _ ih =>
    obtain ⟨rfl, hs⟩ := Exec.call_alone (c := ClientCmd.step action) h
    obtain ⟨hid', htraffic⟩ := step_sent hs hid
    obtain ⟨hlen, hall⟩ := htraffic.of_running fun _ hr => (by cases hr)
    obtain ⟨hid'', hcount, -, ⟨steps, closes, hsent, hlen', hall', hend⟩⟩ := ih hid'
    refine ⟨hid'', ?_, by simp, ⟨v.sent ++ steps, closes, ?_, ?_, ?_, hend⟩⟩
    · rw [hcount, hs.step_inv.1, List.length_append, List.length_singleton, Nat.add_assoc]
    · rw [rpcs_append, hsent, rpcs_cons, rpcs_nil, List.append_nil, List.append_assoc]
    · rw [List.length_append, List.length_append, List.length_singleton]
      omega
    · exact List.forall_mem_append.2 ⟨hall, hall'⟩

theorem stepRetry_running {action : UISocketTunerAction} {left : Nat} {s t : ClientSys}
    {tr : List ClientTrans} {result : StepResult}
    (h : ClientExec errText cfg (stepRetry action left) s tr (.ok result) t)
    (hd : result.done = false) : t.env.stepCount < cfg.maxSteps.toNat := by
  obtain ⟨pre, x, rfl, hx⟩ := stepRetry_exec h
  have hs := hx.step
  rw [hx.lab] at hs
  obtain ⟨henv, hok⟩ := hs.step_inv
  obtain ⟨_, _, -, -, hdone⟩ := hok result rfl
  rw [hd, eq_comm, Bool.or_eq_false_iff, decide_eq_false_iff_not] at hdone
  rw [← hx.dst, henv]
  exact Int.lt_toNat.2 (not_le.1 hdone.2)

/-- A step that returned `done`. -/
def DoneStep (x : ClientTrans) : Prop :=
  ∃ action result, x.lab = ⟨.step action, (.ok result : Except String StepResult)⟩ ∧
    result.done = true

/-- A step of the run returned `done`. -/
def Finished (tr : List ClientTrans) : Prop := ∃ x ∈ tr, DoneStep x

@[simp] theorem finished_cons {x : ClientTrans} {tr : List ClientTrans} :
    Finished (x :: tr) ↔ DoneStep x ∨ Finished tr := by
  simp [Finished]

@[simp] theorem finished_append {tr tr' : List ClientTrans} :
    Finished (tr ++ tr') ↔ Finished tr ∨ Finished tr' := by
  simp [Finished, or_and_right, exists_or]

theorem not_doneStep {x : ClientTrans} (h : ∀ action, x.lab.1 ≠ .step action) : ¬DoneStep x := by
  rintro ⟨action, result, hlab, -⟩
  exact h action (congrArg Sigma.fst hlab)

/-- Of the attempts of a step only the last can return `done`. -/
theorem stepRetry_finished {action : UISocketTunerAction} {left : Nat} {s t : ClientSys}
    {tr : List ClientTrans} {r : Except String StepResult}
    (h : ClientExec errText cfg (stepRetry action left) s tr r t) :
    Finished tr ↔ ∃ result, r = .ok result ∧ result.done = true := by
  obtain ⟨pre, x, rfl, hx⟩ := stepRetry_exec h
  have hpre : ∀ y ∈ pre, ¬DoneStep y := by
    rintro y hy ⟨action', result, hlab, -⟩
    obtain ⟨⟨_, _, hlab'⟩, -⟩ := hx.raises y hy
    rw [hlab] at hlab'
    cases hlab'
  have hlast : DoneStep x ↔ ∃ result, r = .ok result ∧ result.done = true := by
    unfold DoneStep
    rw [hx.lab]
    constructor
    · rintro ⟨_, result, heq, hd⟩
      cases heq
      exact ⟨result, rfl, hd⟩
    · rintro ⟨result, rfl, hd⟩
      exact ⟨action, result, rfl, hd⟩
  rw [← hlast, finished_append]
  constructor
  · rintro (⟨y, hy, hd⟩ | ⟨y, hy, hd⟩)
    · exact absurd hd (hpre y hy)
    · exact List.mem_singleton.1 hy ▸ hd
  · intro hd
    exact .inr ⟨x, List.mem_singleton_self x, hd⟩

/-- The steps that the environment counts before it must return `done`. -/
def budget (cfg : EnvConfig) : Nat := max cfg.maxSteps.toNat 1

/-- What the rest of an episode sends, when the environment has steps left. -/
theorem stepLoop_sent {left : Nat} : ∀ {n : Nat} {result : StepResult}
    {history history' : List HistoryEntry} {s u : ClientSys} {tr : List ClientTrans}
    {e : Option String} {id : String},
    ClientExec errText cfg (stepLoop left n result history) s tr (e, history') u →
    s.env.sessionId = some id → result.done = false → s.env.stepCount < budget cfg →
    (∃ steps closes, rpcs tr = steps ++ closes ∧
      (steps.length ≤ 3 * left ∧ s.env.stepCount + steps.length ≤ budget cfg + 2) ∧
      (∀ x ∈ steps, ∃ req, x.1 = .step req ∧ req.sessionId = id) ∧
      (Finished tr → ClosedBy id closes) ∧ (¬Finished tr → closes = [])) ∧
    (Finished tr → e = none) ∧
    (e = none → 0 < left → budget cfg ≤ s.env.stepCount + left → Finished tr) := by
  induction left with
  | zero =>
    intro n result history history' s u tr e id h _ _ hlt
    obtain ⟨rfl, heq, -⟩ := h.ret_done
    cases heq
    exact ⟨⟨[], [], rfl, ⟨le_rfl, by simp; omega⟩, by simp, fun h => by simp [Finished] at h,
      fun _ => rfl⟩, fun _ => rfl, fun _ h => absurd h (lt_irrefl 0)⟩
  | succ left ih =>
    intro n result history history' s u tr e id h hid hdone hlt
    have hstep := h.step_of_mem
    obtain ⟨c, tr₁, t, tr₂, action, r, rfl, ⟨hc, -, hce⟩, h₁, hrest⟩ := stepLoop_turn h hdone
    have hquiet : c.dst.sent = [] :=
      quiet_sent (hstep c (by simp)) (by simp [hc]) (by simp [hc])
    have hcd : ¬DoneStep c := not_doneStep (by simp [hc])
    rw [← hce] at hid
    obtain ⟨hid', hcount, hpos, hlen, htraffic⟩ := stepRetry_sent h₁ hid
    have hfin := stepRetry_finished h₁
    rw [hce] at hcount
    rcases hrest with ⟨err, rfl, rfl, -, rfl, -⟩ | ⟨result', l, tr'', rfl, rfl, ⟨hl, hle'⟩, hloop⟩
    · obtain ⟨hle, hall⟩ := htraffic.of_running fun _ hr => (by cases hr)
      have hnot : ¬Finished (c :: (tr₁ ++ [])) := by simpa [hcd, Finished] using hfin
      exact ⟨⟨_, [], by simp [hquiet], ⟨by omega, by omega⟩, hall, fun h => absurd h hnot,
        fun _ => rfl⟩, fun h => absurd h hnot, nofun⟩
    have hquiet' : l.dst.sent = [] :=
      quiet_sent (hstep l (by simp)) (by simp [hl]) (by simp [hl])
    have hld : ¬DoneStep l := not_doneStep (by simp [hl])
    rcases hloop with ⟨hd, rfl, -, rfl, -⟩ | ⟨hd, hloop⟩
    · obtain ⟨steps, closes, hsent, hle, hall, hclosed⟩ := htraffic.of_done hd
      have hyes : Finished (c :: (tr₁ ++ [l])) :=
        finished_cons.2 (.inr (finished_append.2 (.inl (hfin.2 ⟨result', rfl, hd⟩))))
      exact ⟨⟨steps, closes, by simp [hquiet, hquiet', hsent], ⟨by omega, by omega⟩, hall,
        fun _ => hclosed, fun h => absurd hyes h⟩, fun _ => rfl, fun _ _ _ => hyes⟩
    · have hrunning : ∀ r, (.ok result' : Except String StepResult) = .ok r → r.done = false := by
        rintro r hr
        cases hr
        exact hd
      obtain ⟨hle, hall⟩ := htraffic.of_running hrunning
      have hnot : ¬Finished tr₁ := by
        rw [hfin]
        rintro ⟨r, hr, hdr⟩
        rw [hrunning r hr] at hdr
        cases hdr
      have hlt' : l.dst.env.stepCount < cfg.maxSteps.toNat := hle' ▸ stepRetry_running h₁ hd
      obtain ⟨⟨steps, closes, hsent, ⟨hbound, hbound'⟩, hall', hclosed, hopen⟩, hnone, hmust⟩ :=
        ih hloop (by rw [hle']; exact hid') hd (lt_max_of_lt_left hlt')
      have hiff : Finished (c :: (tr₁ ++ l :: tr'')) ↔ Finished tr'' := by simp [hcd, hnot, hld]
      rw [hiff]
      refine ⟨⟨rpcs tr₁ ++ steps, closes, by simp [hquiet, hquiet', hsent], ?_,
        List.forall_mem_append.2 ⟨hall, hall'⟩, hclosed, hopen⟩, hnone, fun he _ hge => ?_⟩
      · rw [hle', hcount] at hbound'
        rw [List.length_append]
        omega
      · -- the environment has counted a step more than the client's loop
        have hmax : cfg.maxSteps.toNat ≤ budget cfg := le_max_left _ _
        rw [hle', hcount] at hlt'
        refine hmust he (by omega) ?_
        rw [hle', hcount]
        omega

/-! ## Episodes -/

theorem leases_resetRaises {l : List ClientTrans} (h : ∀ x ∈ l, ResetRaises x)
    (hs : ∀ x ∈ l, ClientStep errText cfg x.src x.lab x.dst) : leases (rpcs l) = [] := by
  induction l with
  | nil => rfl
  | cons x l ih =>
    obtain ⟨⟨err, hlab⟩, hl⟩ := List.forall_mem_cons.1 h
    obtain ⟨hx, hs⟩ := List.forall_mem_cons.1 hs
    rw [hlab] at hx
    rw [rpcs_cons, leases_append, ih hl hs, List.append_nil]
    obtain ⟨-, -, ⟨_, -, hnone⟩ | ⟨_, _, hr, -⟩⟩ := reset_sent hx
    · exact hnone
    · cases hr

/-- The resets of an episode lease two agents at most, and the last is the one of the episode. -/
theorem Resets.leases {resets : List ClientTrans} {r : Except String StepResult} {t : ClientSys}
    (h : Resets errText cfg resets r t)
    (hs : ∀ x ∈ resets, ClientStep errText cfg x.src x.lab x.dst) :
    (leases (rpcs resets)).length ≤ 2 ∧ ∀ result, r = .ok result →
      ∃ id, (leases (rpcs resets)).getLast? = some id ∧ t.env.sessionId = some id := by
  cases h with
  | @once pre x r hpre hx hlab hr =>
    have hnone := leases_resetRaises hpre fun y hy => hs y (by simp [hy])
    rw [hlab] at hx
    obtain ⟨-, -, ⟨_, rfl, hleases⟩ | ⟨_, id, rfl, hleases, hid⟩⟩ := reset_sent hx
    · simp [hnone, hleases]
    · simp [hnone, hleases, hid]
  | @again pre x y result r hpre hlab hempty hy hlab' =>
    have hnone := leases_resetRaises hpre fun z hz => hs z (by simp [hz])
    have hx := hs x (by simp)
    rw [hlab] at hx
    rw [hlab'] at hy
    obtain ⟨-, -, ⟨_, hr, -⟩ | ⟨_, id, -, hleases, -⟩⟩ := reset_sent hx
    · cases hr
    obtain ⟨-, -, ⟨_, rfl, hleases'⟩ | ⟨_, id', rfl, hleases', hid⟩⟩ := reset_sent hy
    · simp [hnone, hleases, hleases']
    · simp [hnone, hleases, hleases', hid]

theorem rpcs_resets {l : List ClientTrans} (h : ∀ x ∈ l, x.lab.1 = .reset)
    (hs : ∀ x ∈ l, ClientStep errText cfg x.src x.lab x.dst) :
    (rpcs l).length ≤ 3 * l.length ∧ ∀ x ∈ rpcs l, IsReset x := by
  induction l with
  | nil => exact ⟨le_rfl, by simp⟩
  | cons x l ih =>
    obtain ⟨hlab, hl⟩ := List.forall_mem_cons.1 h
    obtain ⟨hx, hs⟩ := List.forall_mem_cons.1 hs
    obtain ⟨hlen, hall⟩ := ih hl hs
    obtain ⟨s, ⟨c, r⟩, t⟩ := x
    obtain rfl : c = .reset := hlab
    obtain ⟨hlen', hall', -⟩ := reset_sent hx
    rw [rpcs_cons, List.length_append, List.length_cons]
    exact ⟨by omega, List.forall_mem_append.2 ⟨hall', hall⟩⟩

/-- Bounds on what the commands of an episode cost. -/
structure CostsAtMost (w : ClientCmd → Nat) (reset chat step line : Nat) : Prop where
  reset : w .reset ≤ reset
  chat : ∀ n obs last history, w (.chat n obs last history) ≤ chat
  step : ∀ action, w (.step action) ≤ step
  line : ∀ n action reward done, w (.logStep n action reward done) ≤ line

section Costs

variable {w : ClientCmd → Nat} {reset chat step line : Nat}

theorem CostsAtMost.stepLoop (hw : CostsAtMost w reset chat step line) (left : Nat) :
    ∀ (n : Nat) (result : StepResult) (history : List HistoryEntry),
      (stepLoop left n result history).Within w (left * (chat + (3 * step + line))) := by
  induction left with
  | zero => intro n result history; trivial
  | succ left ih =>
    intro n result history
    rw [Nat.add_mul, Nat.one_mul, Nat.add_comm, Nat.add_assoc]
    unfold Env.stepLoop
    split
    · trivial
    · refine Within.bind ?_ fun action => ?_
      · exact ⟨hw.chat _ _ _ _, fun r => by cases r <;> trivial⟩
      · have hone : (envStep action).Within w step := ⟨hw.step action, fun _ => trivial⟩
        rw [Nat.add_assoc]
        refine Within.bind (Within.retry hone 2) fun r => ?_
        cases r with
        | error e => trivial
        | ok result =>
          refine Within.bind (p := logStep _ _ _ _) ⟨hw.line _ _ _ _, fun _ => trivial⟩ fun _ => ?_
          change Within _ _ (if result.done = true then _ else _)
          split
          · trivial
          · exact ih _ _ _

theorem CostsAtMost.episodeBody (hw : CostsAtMost w reset chat step line) :
    episodeBody.Within w (4 * reset + MAX_STEPS * (chat + (3 * step + line))) := by
  have hone : envReset.Within w reset := ⟨hw.reset, fun _ => trivial⟩
  refine (Within.bind (Within.retry hone 2) (m := reset + MAX_STEPS * (chat + (3 * step + line)))
    fun r => ?_).mono (by omega)
  cases r with
  | error e => trivial
  | ok result =>
    change Within _ _ (if result.observation.remoteIp = "" then _ else _)
    split
    · refine Within.bind hone fun r => ?_
      cases r with
      | error e => trivial
      | ok result => exact hw.stepLoop _ _ _ _
    · exact (hw.stepLoop _ _ _ _).mono (Nat.le_add_left _ _)

/-- Episodes, when the lines around them are free. -/
theorem CostsAtMost.episodes (hw : CostsAtMost w reset chat step line) (hstart : w .logStart = 0)
    (hend : ∀ success steps sc rewards, w (.logEnd success steps sc rewards) = 0) (left : Nat) :
    (episodes left).Within w (left * (4 * reset + MAX_STEPS * (chat + (3 * step + line)))) := by
  have hone : episode.Within w (4 * reset + MAX_STEPS * (chat + (3 * step + line))) := by
    refine Within.mono (Within.bind (p := logStart) (n := 0) ⟨hstart.le, fun _ => trivial⟩
      fun _ => Within.bind (m := 0) hw.episodeBody fun r => ?_) (by omega)
    exact ⟨(hend _ _ _ _).le, fun _ => trivial⟩
  induction left with
  | zero => trivial
  | succ left ih =>
    rw [Nat.add_mul, Nat.one_mul, Nat.add_comm]
    exact Within.bind hone fun _ => ih

end Costs

/-- The calls of `reset`. -/
def resetCost : ClientCmd → Nat
  | .reset => 1
  | _ => 0

/-- The questions to the model. -/
def chatCost : ClientCmd → Nat
  | .chat _ _ _ _ => 1
  | _ => 0

/-- The `Step`s of an episode are at most as many as this. -/
def stepBound (cfg : EnvConfig) : Nat := min (3 * MAX_STEPS) (budget cfg + 2)

/-- What an episode has sent that ended with the exception `e`, or none. -/
structure EpisodeTraffic (cfg : EnvConfig) (e : Option String) (tr : List ClientTrans) : Prop where
  split : ∃ resets steps closes, rpcs tr = resets ++ (steps ++ closes) ∧
    (resets.length ≤ 12 ∧ (∀ x ∈ resets, IsReset x) ∧ (leases resets).length ≤ 2) ∧
    (steps.length ≤ stepBound cfg ∧
      ∀ x ∈ steps, ∃ req, x.1 = .step req ∧ (leases resets).getLast? = some req.sessionId) ∧
    (Finished tr → ∃ id, (leases resets).getLast? = some id ∧ ClosedBy id closes) ∧
    (¬Finished tr → closes = [])
  completed : Finished tr → e = none
  finished : e = none → cfg.maxSteps ≤ MAX_STEPS → Finished tr

/-- With a larger `MAX_STEPS` than the client's the agent is not closed. -/
example :
    let tr := (episodeBody.record (ClientCmd.exec pyText { maxSteps := 100 }
      (flakyReplies fun _ => false) none) .init).1
    count Rpc.isStep (rpcs tr) = 5 ∧ count Rpc.isClose (rpcs tr) = 0 := by
  decide +kernel

/-! ## The whole run -/

/-- Few RPCs of each kind, and few sessions. -/
structure Bounded (resets steps closes sessions : Nat) (log : List RpcEvent) : Prop where
  resets : count Rpc.isReset log ≤ resets
  steps : count Rpc.isStep log ≤ steps
  closes : count Rpc.isClose log ≤ closes
  sessions : (leases log).length ≤ sessions

theorem leases_eq_nil {log : List RpcEvent} (h : ∀ x ∈ log, ¬IsReset x) : leases log = [] := by
  refine List.filterMap_eq_nil_iff.2 fun x hx => ?_
  cases ha : acquired x with
  | none => rfl
  | some id => exact absurd (isReset_of_acquired ha) (h x hx)

theorem EpisodeTraffic.bounded {e : Option String} {tr : List ClientTrans}
    (h : EpisodeTraffic cfg e tr) : Bounded 12 (stepBound cfg) 1 2 (rpcs tr) := by
  obtain ⟨resets, steps, closes, hlog, ⟨hr, hresets, htwo⟩, ⟨hs, hsteps⟩, hclosed, hopen⟩ := h.split
  rw [hlog]
  have hcloses : closes.length ≤ 1 ∧ ∀ x ∈ closes, x.1.isClose = true := by
    by_cases hf : Finished tr
    · obtain ⟨id, -, ⟨-, rfl⟩ | ⟨-, reply, rfl⟩⟩ := hclosed hf
      · simp
      · simp [Rpc.isClose]
    · simp [hopen hf]
  have hreset : ∀ x ∈ resets, x.1.isStep = false ∧ x.1.isClose = false := by
    intro x hx
    obtain ⟨req, hreq⟩ := hresets x hx
    simp [hreq, Rpc.isStep, Rpc.isClose]
  have hstep : ∀ x ∈ steps, x.1.isReset = false ∧ x.1.isClose = false ∧ ¬IsReset x := by
    intro x hx
    obtain ⟨req, hreq, -⟩ := hsteps x hx
    simp [hreq, Rpc.isReset, Rpc.isClose, IsReset]
  have hclose : ∀ x ∈ closes, x.1.isReset = false ∧ x.1.isStep = false ∧ ¬IsReset x := by
    rintro ⟨rpc, r⟩ hx
    have := hcloses.2 _ hx
    cases rpc with
    | close req => simp [Rpc.isReset, Rpc.isStep, IsReset]
    | reset _ | step _ => cases this
  constructor
  · rw [count_append, count_append, count_eq_zero fun x hx => (hstep x hx).1,
      count_eq_zero fun x hx => (hclose x hx).1]
    exact count_le.trans hr
  · rw [count_append, count_append, count_eq_zero fun x hx => (hreset x hx).1,
      count_eq_zero fun x hx => (hclose x hx).2.1, Nat.zero_add]
    exact count_le.trans hs
  · rw [count_append, count_append, count_eq_zero fun x hx => (hreset x hx).2,
      count_eq_zero fun x hx => (hstep x hx).2.1, Nat.zero_add, Nat.zero_add]
    exact count_le.trans hcloses.1
  · rw [leases_append, leases_append, leases_eq_nil fun x hx => (hstep x hx).2.2,
      leases_eq_nil fun x hx => (hclose x hx).2.2, List.append_nil, List.append_nil]
    exact htwo

theorem Bounded.append {a b c d a' b' c' d' : Nat} {log log' : List RpcEvent}
    (h : Bounded a b c d log) (h' : Bounded a' b' c' d' log') :
    Bounded (a + a') (b + b') (c + c') (d + d') (log ++ log') := by
  constructor
  · rw [count_append]; exact Nat.add_le_add h.resets h'.resets
  · rw [count_append]; exact Nat.add_le_add h.steps h'.steps
  · rw [count_append]; exact Nat.add_le_add h.closes h'.closes
  · rw [leases_append, List.length_append]; exact Nat.add_le_add h.sessions h'.sessions

/-- What leaving `async with env` makes the environment send: it is closed then, or not. -/
def Leaves (env : SocketTunerEnvironment) (log : List RpcEvent) : Prop :=
  log = [] ∨ ∃ r env', After env.close log (.ret (r, env'))

theorem Leaves.bounded {env : SocketTunerEnvironment} {log : List RpcEvent} (h : Leaves env log) :
    Bounded 0 0 1 0 log := by
  have hlog : log = [] ∨ ∃ id reply, log = [⟨.close ⟨id⟩, reply⟩] := by
    rcases h with rfl | ⟨r, env', h⟩
    · exact .inl rfl
    · obtain ⟨-, ⟨-, -, h⟩ | ⟨id, -, -, ⟨-, h⟩ | ⟨-, reply, h⟩⟩⟩ :=
        SocketTunerEnvironment.close_log h
      · exact .inl h
      · exact .inl h
      · exact .inr ⟨id, reply, h⟩
  rcases hlog with rfl | ⟨id, reply, rfl⟩
  · exact ⟨le_rfl, le_rfl, Nat.zero_le 1, le_rfl⟩
  · exact ⟨le_rfl, le_rfl, le_rfl, le_rfl⟩

/-- A run of `main` against the router of the flaky episode, closed at the end. -/
def flakyMain : List ClientTrans × Unit × ClientSys :=
  main.record (ClientCmd.exec pyText .default (flakyReplies fun n => n = 4 ∨ n = 5) none) .init

end SocketTuner.Env
