import Headgate.Workflow.Cancel

/-!
# Retries that meet failing calls and missing rows

A tick evaluates a retry receipt in two parts: it rejects a competing graft and passes the retry
on to failed children, then it reads the row of every node of the accepted graph.  An error of
the first part ends the tick.  An error of the second part rejects the receipt, whatever the
error was: a refusal by the graph, a row that is gone, or a read that the store did not answer.
-/

namespace Headgate.Workflow

open Headgate.Core Data

variable {row : Job} {c : Call} {id missing : String} {b : Bool} {node : NodeSpec}
  {recovery : WorkflowRecovery}

section
variable {cel : Cel} {codec : Codec} {base : CoordinatorTask} {cursor : WorkflowCursor}
  {fate : Nat → Fate} {requests : Bool} {ids : List String} {n : Nat} {s : Store} {α : Type}

/-! ## Section 1: Programs that stop at a failing call -/

/-- Calls that decide nothing about a receipt: reads, requests to children, and the deletion of
the jobs `ids`. -/
def Call.evaluates (ids : List String) : Call → Bool
  | .getJob _ _ | .getJobCheckpoint _ | .operatorRetry _ | .enqueue _ => true
  | .deleteJob id => id ∈ ids
  | _ => false

/-- The one call after whose failure the code goes on, with a second read of the child. -/
def Call.reopens : Call → Bool
  | .operatorRetry _ => true
  | _ => false

/-- The run made no other calls, and it ended with the first one that was not answered; with
`requests`, the reopening of a child is excepted. -/
abbrev Evaluating (requests : Bool) (ids : List String)
    (run : List (Call × Fate) × Except JobError α × Store) : Prop :=
  Prog.Careful (· ≠ .answered) (fun c => c.evaluates ids = true)
    (fun c => (requests && c.reopens) = true) run

theorem serve_failed {o : Fate} (h : o ≠ .answered) :
    (Store.serve cel c o s).1 = Store.unavailable cel c := by
  cases o with
  | answered => exact absurd rfl h
  | lost | unanswered => rfl

/-- A call of the evaluation, if the program has no use for the failure. -/
theorem evaluating_call {k : c.Reply → Program α} (hc : c.evaluates ids = true)
    (hfail : ∃ e, k (Store.unavailable cel c) = .fail e)
    (hk : ∀ r n s, Evaluating requests ids ((k r).fated (Store.serve cel) fate n s)) :
    Evaluating requests ids ((Prog.call c k).fated (Store.serve cel) fate n s) := by
  refine .call hc (fun hfailed _ => ?_) (hk _ _ _)
  rw [serve_failed hfailed]
  exact hfail

section
variable (id : String) (b : Bool) (w : String) (node : NodeSpec)

theorem evaluating_ofReply (r : Except StoreError α) :
    Evaluating requests ids ((ofReply r).fated (Store.serve cel) fate n s) := by
  cases r with
  | ok | error => exact .nil

theorem evaluating_ofCheck (r : Except String α) :
    Evaluating requests ids ((ofCheck r).fated (Store.serve cel) fate n s) := by
  cases r with
  | ok | error => exact .nil

theorem evaluating_getJob :
    Evaluating requests ids ((getJob id b).fated (Store.serve cel) fate n s) :=
  evaluating_call rfl ⟨_, rfl⟩ fun r _ _ => evaluating_ofReply r

theorem evaluating_checkpoint :
    Evaluating requests ids ((getJobCheckpoint id).fated (Store.serve cel) fate n s) :=
  evaluating_call rfl ⟨_, rfl⟩ fun r _ _ => evaluating_ofReply r

theorem evaluating_requireJob (missing : String) :
    Evaluating requests ids ((requireJob id b missing).fated (Store.serve cel) fate n s) := by
  refine (evaluating_getJob id b).bind fun job m s' _ => ?_
  cases job with
  | none | some => exact .nil

theorem evaluating_reopenCoordinator :
    Evaluating true ids ((reopenCoordinator id).fated (Store.serve cel) fate n s) := by
  refine .call rfl (fun _ hnot => absurd rfl hnot) ?_
  rcases (Store.serve cel (.operatorRetry id) (fate n) s).1 with e | _
  · refine (evaluating_getJob id false).bind fun job m s' _ => ?_
    cases job with
    | none => exact .nil
    | some =>
      dsimp only
      split
      · exact .nil
      · exact .nil
  · exact .nil

theorem evaluating_readCoordinator :
    Evaluating requests ids ((readCoordinator w).fated (Store.serve cel) fate n s) := by
  refine (evaluating_requireJob _ _ _).bind fun job m s' _ => ?_
  cases job.payload with
  | none => exact .nil
  | some payload =>
    dsimp only
    cases CoordinatorTask.decode payload with
    | none | some => exact .nil

theorem evaluating_requireRecovered :
    Evaluating requests ids ((requireRecovered node).fated (Store.serve cel) fate n s) := by
  refine (evaluating_getJob _ _).bind fun job m s' _ => ?_
  cases job with
  | none => exact .nil
  | some =>
    dsimp only
    split
    · exact .nil
    · exact .nil

/-- The request that a parent makes for a child, without recoveries. -/
theorem evaluating_request (revision : Nat) :
    Evaluating true ids
      ((requestFailedSubgraphRetry codec w revision []).fated (Store.serve cel) fate n s) := by
  refine (evaluating_ofCheck _).bind fun _ _ _ _ => ?_
  refine (evaluating_readCoordinator w).bind fun found _ _ _ => ?_
  refine (evaluating_ofCheck _).bind fun _ _ _ _ => ?_
  refine (evaluating_ofCheck _).bind fun _ _ _ _ => ?_
  -- there is nothing to recover
  refine .bind (.nil) fun _ _ _ _ => ?_
  refine (Prog.Careful.each (fun node _ _ _ => evaluating_requireRecovered node) _ _).bind
    fun _ _ _ _ => ?_
  refine (evaluating_checkpoint _).bind fun checkpoint _ _ _ => ?_
  rcases checkpoint with _ | _ | cursor
  · exact .nil
  · exact .nil
  refine (evaluating_ofCheck _).bind fun _ _ _ _ => ?_
  refine (evaluating_ofCheck _).bind fun _ _ _ _ => ?_
  refine (evaluating_ofCheck _).bind fun _ _ _ _ => ?_
  refine (evaluating_ofCheck _).bind fun receipt _ _ _ => ?_
  refine .bind (evaluating_call rfl ⟨_, rfl⟩ fun r _ _ => evaluating_ofReply r) fun _ _ _ _ => ?_
  refine (evaluating_reopenCoordinator _).bind fun _ _ _ _ => ?_
  exact .nil

theorem evaluating_retryFailedChild :
    Evaluating true ids ((retryFailedChild codec node).fated (Store.serve cel) fate n s) := by
  unfold retryFailedChild
  split
  · exact .nil
  split
  · exact .nil
  rename_i child _
  -- the link, its coordinator and the checkpoint are read before anything is asked for
  refine (evaluating_getJob _ _).bind fun link _ _ _ => ?_
  cases link with
  | none => exact .nil
  | some =>
    dsimp only
    split
    · refine (evaluating_requireJob _ _ _).bind fun coordinator _ _ _ => ?_
      split
      · refine (evaluating_checkpoint _).bind fun checkpoint _ _ _ => ?_
        rcases checkpoint with _ | _ | cursor
        · exact .nil
        · exact .nil
        · refine (evaluating_request _ _).bind fun _ _ _ _ => ?_
          exact .nil
      · exact .nil
    · exact .nil

end

theorem evaluating_rejectGraft {receiptId : String} {nodes : List NodeSpec}
    (h : ∀ id ∈ nodes.map NodeSpec.jobId ++ [receiptId], id ∈ ids) :
    Evaluating requests ids ((rejectGraft receiptId nodes).fated (Store.serve cel) fate n s) := by
  refine Prog.Careful.each (fun id hid n s => ?_) _ _
  refine (evaluating_getJob _ _).bind fun job _ _ _ => ?_
  cases job with
  | none => exact .nil
  | some =>
    dsimp only
    split
    · exact evaluating_call (decide_eq_true (h id hid)) ⟨_, rfl⟩ fun r _ _ => evaluating_ofReply r
    · exact .nil

theorem evaluating_failedNodes (nodes : List NodeSpec) (n : Nat) (s : Store) :
    Evaluating requests ids ((failedNodesToRetry nodes).fated (Store.serve cel) fate n s) := by
  induction nodes generalizing n s with
  | nil => exact .nil
  | cons node rest ih =>
    refine (evaluating_requireJob _ _ _).bind fun job m s' _ => ?_
    have hcons : Evaluating requests ids (((failedNodesToRetry rest).bind fun retry =>
        (.done (node.jobId :: retry) : Program (List String))).fated (Store.serve cel) fate m s') :=
      (ih m s').bind fun _ _ _ _ => .nil
    cases job.state with
    | archived | cancelled => exact hcons
    | quarantined | undecodable => exact .nil
    | _ => exact ih m s'

/-! ## Section 2: The evaluation of a receipt -/

/-- The receipt of a retry that the graph gives no reason to reject. -/
structure Store.RetryPending (s : Store) (base : CoordinatorTask) (cursor : WorkflowCursor) :
    Prop where
  settled : cursor.pendingRetryReceipt = none
  room : cursor.revision + 1 < 2 ^ 64
  failed : cursor.failed = true
  enabled : base.failedSubgraphRetry = true
  receipt : ∃ row, s.jobs (retryReceiptId base.workflowId (cursor.revision + 1)) = some row ∧
    row.state = .pending ∧ RetryTask.decode row.content = some ⟨base.workflowId, cursor.revision⟩

/-- The first part: what comes before the nodes are read. -/
def prepareRetry (codec : Codec) (base : CoordinatorTask) (cursor : WorkflowCursor) :
    Program Unit := do
  let _ ← getJob (retryReceiptId base.workflowId (cursor.revision + 1)) true
  rejectCompetingGraft (graftReceiptId base.workflowId (cursor.revision + 1))
  Prog.each (retryFailedChild codec) (effectiveWorkflow base cursor).nodes

/-- What the result of the second part decides. -/
def decideRetry (cursor : WorkflowCursor) (job receiptId : String) :
    Except JobError (List String) → Program (Option Tick × WorkflowCursor)
  | .error _ => do
    rejectGraft receiptId []
    return (some .failed, cursor)
  | .ok jobs => do
    let cursor ← ofCheck (acceptRetry cursor receiptId)
    persistWorkflowCursor job cursor
    reopenFailedNodes jobs
    promoteJob receiptId
    return (some .waiting, cursor)

/-- The tick over a pending receipt, in its parts. -/
theorem Store.RetryPending.reconcileRetry_fated (h : s.RetryPending base cursor) (job : String) :
    (reconcileRetry codec base cursor job).fated (Store.serve cel) fate 0 s =
      ((prepareRetry codec base cursor).bind fun _ =>
        (failedNodesToRetry (effectiveWorkflow base cursor).nodes).attempt.bind
          (decideRetry cursor job (retryReceiptId base.workflowId (cursor.revision + 1)))).fated
        (Store.serve cel) fate 0 s := by
  obtain ⟨row, hrow, hpending, hdecode⟩ := h.receipt
  have hstart : reconcileRetry codec base cursor job = requestedRetry codec base cursor job := by
    unfold reconcileRetry settleRetry
    rw [h.settled]
    rfl
  have hroom : decide (cursor.revision + 1 ≥ 2 ^ 64) = false := decide_eq_false (by
    have := h.room
    omega)
  have hconsider (receiptId : String) : considerRetry codec base cursor job receiptId row.content
      = fulfilRetry codec base cursor job receiptId := by
    unfold considerRetry
    rw [hdecode]
    simp [h.enabled, h.failed]
  rw [hstart]
  unfold requestedRetry
  rw [hroom]
  -- both begin with the read of the receipt
  refine Prog.fated_call_congr ?_
  cases fate 0 with
  | lost | unanswered => rfl
  | answered =>
    have hread : (Store.serve cel
        (.getJob (retryReceiptId base.workflowId (cursor.revision + 1)) true) .answered s).1
        = .ok (some (row.summary true)) := congrArg (fun r => Except.ok (Option.map _ r)) hrow
    rw [hread]
    have hgo : (row.summary true).state = .pending := hpending
    simp only [ofReply, Prog.bind_eq, Prog.bind, hgo, if_true, Prog.bind_assoc]
    refine congrArg (fun p => Prog.fated _ _ p _ _) ((hconsider _).trans ?_)
    rfl

/-- The jobs that go with a competing graft. -/
def Store.competing (s : Store) (base : CoordinatorTask) (cursor : WorkflowCursor) : List String :=
  let receiptId := graftReceiptId base.workflowId (cursor.revision + 1)
  match s.jobs receiptId with
  | none => []
  | some row =>
    (((GraftTask.decode row.content).map GraftTask.nodes).getD []).map NodeSpec.jobId ++ [receiptId]

theorem evaluating_competing :
    Evaluating requests (s.competing base cursor)
      ((rejectCompetingGraft (graftReceiptId base.workflowId (cursor.revision + 1))).fated
        (Store.serve cel) fate n s) := by
  refine .call rfl (fun hfailed _ => ⟨.store .unavailable, by rw [serve_failed hfailed]; rfl⟩) ?_
  cases fate n with
  | lost | unanswered => exact .nil
  | answered =>
    unfold Store.competing
    cases hrow : s.jobs (graftReceiptId base.workflowId (cursor.revision + 1)) with
    | none =>
      simp only [Store.serve, Store.perform, hrow]
      exact .nil
    | some =>
      simp only [Store.serve, Store.perform, hrow, Option.map_some, ofReply, Prog.bind]
      split
      · exact evaluating_rejectGraft fun id hid => hid
      · exact .nil

theorem evaluating_prepareRetry (n : Nat) :
    Evaluating true (s.competing base cursor)
      ((prepareRetry codec base cursor).fated (Store.serve cel) fate n s) := by
  refine (evaluating_getJob _ _).bind fun row m s' hread => ?_
  -- an answered read leaves the store alone, and a failed one ends the program
  have hsame : s' = s := by
    obtain ⟨calls, hread⟩ := hread
    simp only [getJob, Prog.fated] at hread
    cases hfate : fate n with
    | answered =>
      rw [hfate] at hread
      exact (congrArg (fun r => r.2.2) hread).symm
    | lost | unanswered =>
      rw [hfate] at hread
      cases congrArg (fun r => r.2.1) hread
  rw [hsame]
  refine evaluating_competing.bind fun _ _ _ _ => ?_
  exact Prog.Careful.each (fun node _ _ _ => evaluating_retryFailedChild node) _ _

/-- The run of the first part. -/
def Store.askedRetry (s : Store) (cel : Cel) (codec : Codec) (base : CoordinatorTask)
    (cursor : WorkflowCursor) (fate : Nat → Fate) : List (Call × Fate) × Except JobError Unit × Store :=
  (prepareRetry codec base cursor).fated (Store.serve cel) fate 0 s

/-- The reads of the second part, if it is reached. -/
def Store.nodeReads (s : Store) (cel : Cel) (codec : Codec) (base : CoordinatorTask)
    (cursor : WorkflowCursor) (fate : Nat → Fate) : List (Call × Fate) :=
  match s.askedRetry cel codec base cursor fate with
  | (_, .error _, _) => []
  | (calls, .ok _, s') => ((failedNodesToRetry (effectiveWorkflow base cursor).nodes).fated
      (Store.serve cel) fate calls.length s').1

/-- The reopening of a child was not answered, and the child was then found reopened. -/
def Store.MadeGood (s : Store) (cel : Cel) (codec : Codec) (base : CoordinatorTask)
    (cursor : WorkflowCursor) (fate : Nat → Fate) : Prop :=
  (∃ x ∈ (s.askedRetry cel codec base cursor fate).1, x.2 ≠ .answered ∧ x.1.reopens = true) ∧
    (s.askedRetry cel codec base cursor fate).2.1 = .ok ()

/-- What is decided is decided by calls. -/
theorem decideRetry_calls {job receiptId : String} {result : Except JobError (List String)}
    (haccept : ∃ accepted, acceptRetry cursor receiptId = .ok accepted) :
    ((decideRetry cursor job receiptId result).fated (Store.serve cel) fate n s).1 ≠ [] := by
  obtain ⟨accepted, haccept⟩ := haccept
  cases result with
  | error => exact List.cons_ne_nil _ _
  | ok =>
    simp only [decideRetry, haccept]
    exact List.cons_ne_nil _ _

/-- **Failing calls.**  Let a call fail in the evaluation of a pending receipt.  The tick ends
there with an error, and has decided nothing, if every read of a node was answered and the call is
no reopening of a child that a second read made good; unless a counter is at its end, only then. -/
theorem failing_call_undecided_iff (job : String) (h : s.RetryPending base cursor)
    (hfail : ∃ x ∈ (s.askedRetry cel codec base cursor fate).1
      ++ s.nodeReads cel codec base cursor fate, x.2 ≠ .answered) :
    let tick := (reconcileRetry codec base cursor job).fated (Store.serve cel) fate 0 s
    let calls := (s.askedRetry cel codec base cursor fate).1
      ++ s.nodeReads cel codec base cursor fate
    let undecided := (∃ e, tick.2.1 = .error e) ∧ tick.1 = calls
    let harmless := (∀ x ∈ s.nodeReads cel codec base cursor fate, x.2 = .answered) ∧
      ¬ s.MadeGood cel codec base cursor fate
    (∀ x ∈ calls, x.1.evaluates (s.competing base cursor) = true) ∧ (harmless → undecided) ∧
      ((∃ accepted, acceptRetry cursor (retryReceiptId base.workflowId (cursor.revision + 1))
        = .ok accepted) → undecided → harmless) := by
  have hcareful : Evaluating true (s.competing base cursor)
      ((prepareRetry codec base cursor).fated (Store.serve cel) fate 0 s) :=
    evaluating_prepareRetry 0
  dsimp only
  rw [h.reconcileRetry_fated, Prog.fated_bind]
  unfold Store.MadeGood
  unfold Store.nodeReads at hfail ⊢
  unfold Store.askedRetry at hfail ⊢
  rcases hasked : (prepareRetry codec base cursor).fated (Store.serve cel) fate 0 s
    with ⟨asked, e | u, s₁⟩
  · -- the first part ended the tick
    rw [hasked] at hcareful
    simp only [List.append_nil]
    exact ⟨fun x hx => (hcareful x hx).1, fun _ => ⟨⟨e, rfl⟩, trivial⟩,
      fun _ _ => ⟨List.forall_mem_nil _, fun ⟨_, hok⟩ => by cases hok⟩⟩
  rw [hasked] at hcareful hfail
  have hreads : Evaluating false (s.competing base cursor)
      ((failedNodesToRetry (effectiveWorkflow base cursor).nodes).fated (Store.serve cel) fate
        asked.length s₁) := evaluating_failedNodes _ _ _
  dsimp only at hfail ⊢
  rw [Prog.fated_bind, Prog.fated_attempt, Nat.zero_add]
  rcases hrun : (failedNodesToRetry (effectiveWorkflow base cursor).nodes).fated (Store.serve cel)
    fate asked.length s₁ with ⟨reads, result, s₂⟩
  rw [hrun] at hreads hfail
  refine ⟨fun x hx => ?_, ?_, ?_⟩
  · rcases List.mem_append.mp hx with hx | hx
    · exact (hcareful x hx).1
    · exact (hreads x hx).1
  · -- the first part came to its end, so a read failed or a reopening was made good
    rintro ⟨hanswered, hnot⟩
    obtain ⟨x, hx, hfailed⟩ := hfail
    rcases List.mem_append.mp hx with hx | hx
    · by_cases hreopens : x.1.reopens = true
      · exact absurd ⟨⟨x, hx, hfailed, hreopens⟩, rfl⟩ hnot
      · obtain ⟨e, he⟩ := (hcareful x hx).2 hfailed (by simp [hreopens])
        cases he
    · exact absurd (hanswered x hx) hfailed
  · rintro haccept ⟨-, hcalls⟩
    -- an accepted retry writes the cursor, which would be one call more
    have hnone := List.append_right_eq_self.mp (List.append_cancel_left hcalls)
    exact absurd hnone (decideRetry_calls haccept)

/-! ## Section 3: When a retry is accepted -/

/-- Every call is answered. -/
abbrev allAnswered : Nat → Fate := fun _ => .answered

/-- A node with a row that a retry reopens or leaves alone. -/
def Store.Retriable (s : Store) (node : NodeSpec) : Prop :=
  ∃ row, s.jobs node.jobId = some row ∧ row.state ≠ .quarantined ∧ row.state ≠ .undecodable

/-- No link of the graph is to a child that has to be retried first. -/
def Store.NoFailedLink (s : Store) (nodes : List NodeSpec) : Prop :=
  ∀ node ∈ nodes, node.kind = .childWorkflow → ∀ row, s.jobs node.jobId = some row →
    reopens row.state = false

theorem requireJob_some (h : s.jobs id = some row) :
    (requireJob id b missing).fated (Store.serve cel) allAnswered n s
      = ([(.getJob id b, .answered)], .ok (row.summary b), s) := by
  simp [requireJob, getJob, Prog.fated, Prog.bind, Store.serve, Store.perform, ofReply, h]

theorem requireJob_none (h : s.jobs id = none) :
    (requireJob id b missing).fated (Store.serve cel) allAnswered n s
      = ([(.getJob id b, .answered)], .error (.workflow missing), s) := by
  simp [requireJob, getJob, Prog.fated, Prog.bind, Store.serve, Store.perform, ofReply, refuse, h]

/-- The second part reads, and succeeds on retriable nodes. -/
theorem failedNodes_allAnswered (nodes : List NodeSpec) (n : Nat) :
    ((∃ jobs, ((failedNodesToRetry nodes).fated (Store.serve cel) allAnswered n s).2.1 = .ok jobs) ↔
      ∀ node ∈ nodes, s.Retriable node) ∧
    ((failedNodesToRetry nodes).fated (Store.serve cel) allAnswered n s).2.2 = s := by
  induction nodes generalizing n with
  | nil => exact ⟨⟨fun _ => List.forall_mem_nil _, fun _ => ⟨[], rfl⟩⟩, rfl⟩
  | cons node rest ih =>
    rw [List.forall_mem_cons]
    unfold failedNodesToRetry
    cases hrow : s.jobs node.jobId with
    | none =>
      rw [Prog.bind_eq, Prog.fated_bind, requireJob_none hrow]
      refine ⟨⟨?_, ?_⟩, rfl⟩
      · rintro ⟨jobs, hjobs⟩
        cases hjobs
      · rintro ⟨⟨row, hsome, -⟩, -⟩
        rw [hrow] at hsome
        cases hsome
    | some row =>
      rw [Prog.bind_eq, Prog.fated_bind, requireJob_some hrow]
      have hnode : s.Retriable node ↔ row.state ≠ .quarantined ∧ row.state ≠ .undecodable := by
        simp [Store.Retriable, hrow]
      rw [hnode]
      dsimp only [Job.summary, List.length_singleton]
      have hrest := ih (n + 1)
      have hcons : ((∃ jobs, (((failedNodesToRetry rest).bind fun retry =>
          (.done (node.jobId :: retry) : Program (List String))).fated (Store.serve cel) allAnswered
            (n + 1) s).2.1 = .ok jobs) ↔ ∀ node ∈ rest, s.Retriable node) ∧
          (((failedNodesToRetry rest).bind fun retry => (.done (node.jobId :: retry) :
            Program (List String))).fated (Store.serve cel) allAnswered (n + 1) s).2.2 = s := by
        rw [Prog.fated_bind_done, ← hrest.1]
        refine ⟨?_, hrest.2⟩
        cases ((failedNodesToRetry rest).fated (Store.serve cel) allAnswered (n + 1) s).2.1 with
        | error => simp [Except.map]
        | ok jobs => exact ⟨fun _ => ⟨jobs, rfl⟩, fun _ => ⟨_, rfl⟩⟩
      -- failed nodes join the list, two states refuse the retry, the others are passed over
      cases row.state with
      | archived | cancelled => simpa using hcons
      | quarantined | undecodable => exact ⟨by simp [refuse, Prog.fated], rfl⟩
      | _ => simpa using hrest

/-- Without a competing graft and failed links the first part only reads. -/
theorem prepareRetry_allAnswered
    (hgraft : s.jobs (graftReceiptId base.workflowId (cursor.revision + 1)) = none)
    (hlinks : s.NoFailedLink (effectiveWorkflow base cursor).nodes) :
    ∃ calls, (prepareRetry codec base cursor).fated (Store.serve cel) allAnswered 0 s
      = (calls, .ok (), s) := by
  have hlink : ∀ node ∈ (effectiveWorkflow base cursor).nodes, ∀ n, ∃ calls,
      (retryFailedChild codec node).fated (Store.serve cel) allAnswered n s = (calls, .ok (), s) := by
    intro node hnode n
    unfold retryFailedChild
    split
    · exact ⟨[], rfl⟩
    rename_i hkind
    split
    · exact ⟨[], rfl⟩
    cases hrow : s.jobs node.jobId with
    | none => exact ⟨[(.getJob node.jobId false, .answered)], by
        simp [getJob, Prog.fated, Prog.bind, Store.serve, Store.perform, ofReply, hrow]⟩
    | some row =>
      have hquiet := hlinks node hnode (not_not.mp hkind) row hrow
      exact ⟨[(.getJob node.jobId false, .answered)], by
        simp [getJob, Prog.fated, Prog.bind, Store.serve, Store.perform, ofReply, hrow,
          Job.summary, hquiet]⟩
  -- the loop over the nodes makes no change, so every round meets the same store
  have hlinked : ∀ nodes, (∀ node ∈ nodes, node ∈ (effectiveWorkflow base cursor).nodes) → ∀ n,
      ∃ calls, (Prog.each (retryFailedChild codec) nodes).fated (Store.serve cel) allAnswered n s
        = (calls, .ok (), s) := by
    intro nodes
    induction nodes with
    | nil => exact fun _ _ => ⟨[], rfl⟩
    | cons node rest ih =>
      intro hin n
      obtain ⟨first, hfirst⟩ := hlink node (hin node List.mem_cons_self) n
      obtain ⟨second, hsecond⟩ :=
        ih (fun node hnode => hin node (List.mem_cons_of_mem _ hnode)) (n + first.length)
      refine ⟨first ++ second, ?_⟩
      rw [Prog.each, Prog.fated_bind, hfirst]
      simp only [hsecond]
  obtain ⟨calls, hcalls⟩ := hlinked _ (fun _ h => h) 2
  refine ⟨(.getJob (retryReceiptId base.workflowId (cursor.revision + 1)) true, .answered)
    :: (.getJob (graftReceiptId base.workflowId (cursor.revision + 1)) true, .answered) :: calls, ?_⟩
  simp [prepareRetry, rejectCompetingGraft, getJob, Prog.fated, Prog.bind, Store.serve,
    Store.perform, ofReply, hgraft, hcalls]

/-- The tick writes the cursor of the accepted retry. -/
theorem setCursor_mem_iff {accepted : WorkflowCursor} (job : String)
    (h : s.RetryPending base cursor)
    (hgraft : s.jobs (graftReceiptId base.workflowId (cursor.revision + 1)) = none)
    (hlinks : s.NoFailedLink (effectiveWorkflow base cursor).nodes)
    (haccept : acceptRetry cursor (retryReceiptId base.workflowId (cursor.revision + 1))
      = .ok accepted) :
    (.setCursor job accepted, .answered) ∈
        ((reconcileRetry codec base cursor job).fated (Store.serve cel) allAnswered 0 s).1 ↔
      ∀ node ∈ (effectiveWorkflow base cursor).nodes, s.Retriable node := by
  obtain ⟨calls, hprepare⟩ : ∃ calls, (prepareRetry codec base cursor).fated (Store.serve cel)
      allAnswered 0 s = (calls, .ok (), s) := prepareRetry_allAnswered hgraft hlinks
  have hfirst : Evaluating true (s.competing base cursor)
      ((prepareRetry codec base cursor).fated (Store.serve cel) allAnswered 0 s) :=
    evaluating_prepareRetry 0
  have hsecond : Evaluating false [] ((failedNodesToRetry (effectiveWorkflow base cursor).nodes).fated
      (Store.serve cel) allAnswered calls.length s) := evaluating_failedNodes _ _ _
  have hreads : (∃ jobs, ((failedNodesToRetry (effectiveWorkflow base cursor).nodes).fated
      (Store.serve cel) allAnswered calls.length s).2.1 = .ok jobs) ↔
      ∀ node ∈ (effectiveWorkflow base cursor).nodes, s.Retriable node :=
    (failedNodes_allAnswered _ _).1
  rw [← hreads, h.reconcileRetry_fated, Prog.fated_bind]
  rw [hprepare] at hfirst ⊢
  dsimp only
  rw [Prog.fated_bind, Prog.fated_attempt, Nat.zero_add]
  rcases hrun : (failedNodesToRetry (effectiveWorkflow base cursor).nodes).fated (Store.serve cel)
    allAnswered calls.length s with ⟨reads, e | jobs, s'⟩
  · rw [hrun] at hsecond
    -- nothing in the evaluation or in the rejection writes a cursor
    refine ⟨fun hmem => ?_, fun ⟨jobs, hjobs⟩ => by cases hjobs⟩
    rcases List.mem_append.mp hmem with hmem | hmem
    · cases (hfirst _ hmem).1
    rcases List.mem_append.mp hmem with hmem | hmem
    · cases (hsecond _ hmem).1
    · have hreject : Evaluating false [retryReceiptId base.workflowId (cursor.revision + 1)]
          ((rejectGraft (retryReceiptId base.workflowId (cursor.revision + 1)) []).fated
            (Store.serve cel) allAnswered (calls.length + reads.length) s') :=
        evaluating_rejectGraft fun id hid => hid
      have hrejected := hreject.bind (f := fun _ => (.done (some Tick.failed, cursor) : Program _))
        fun _ _ _ _ => .nil
      cases (hrejected _ hmem).1
  · refine ⟨fun _ => ⟨jobs, rfl⟩, fun _ => ?_⟩
    refine List.mem_append_right _ (List.mem_append_right _ ?_)
    simp only [decideRetry, haccept]
    exact List.mem_cons_self

/-! ## Section 4: Recoveries -/

/-- A recovery that fits the state of its node. -/
def WorkflowRecovery.Fits (recovery : WorkflowRecovery) : State → Prop
  | .quarantined => recovery.releaseQuarantine = true
  | .undecodable => recovery.payload.isSome = true ∧ recovery.schemaVersion.isSome = true
  | _ => False

theorem recoverNode_fits (hrow : s.jobs node.jobId = some row) (hfits : recovery.Fits row.state) :
    ((recoverNode codec node recovery).fated (Store.serve cel) allAnswered n s).2.1 = .ok () := by
  unfold recoverNode
  rw [Prog.bind_eq, Prog.fated_bind, requireJob_some hrow]
  cases hstate : row.state with
  | quarantined =>
    rw [hstate] at hfits
    have hrelease : recovery.releaseQuarantine = true := hfits
    simp only [Job.summary, hstate, hrelease, if_true]
    rfl
  -- the new payload is stored first, and the operator's retry takes the job as it is then
  | undecodable =>
    rw [hstate] at hfits
    obtain ⟨hpayload, hversion⟩ := hfits
    obtain ⟨replacement, hpayload⟩ := Option.isSome_iff_exists.mp hpayload
    obtain ⟨version, hversion⟩ := Option.isSome_iff_exists.mp hversion
    simp [Job.summary, hstate, hpayload, hversion, operatorRetry, Prog.fated, Prog.bind, Store.serve,
      Store.perform, Store.editPayload, Store.operatorRetry, Store.onJob, hrow, ofReply,
      Store.retriable]
  | _ =>
    rw [hstate] at hfits
    exact hfits.elim

/-- A recovery succeeds exactly on the nodes of the payload. -/
theorem recoverNodes_iff (hnames : ((effectiveWorkflow base cursor).nodes.map NodeSpec.name).Nodup)
    (hnode : node ∈ (effectiveWorkflow base cursor).nodes) (hname : recovery.node = node.name)
    (hrow : s.jobs node.jobId = some row) (hfits : recovery.Fits row.state) :
    ((recoverNodes codec base [recovery] []).fated (Store.serve cel) allAnswered n s).2.1 = .ok () ↔
      node ∈ base.nodes := by
  unfold recoverNodes
  rw [if_neg List.not_mem_nil]
  cases hfind : base.nodes.reverse.find? fun node => node.name = recovery.node with
  | none =>
    refine ⟨fun h => (by cases h), fun hin => ?_⟩
    have hnot := List.find?_eq_none.mp hfind node (List.mem_reverse.mpr hin)
    simp [hname] at hnot
  | some found =>
    have hfound : found ∈ base.nodes := List.mem_reverse.mp (List.mem_of_find?_eq_some hfind)
    have hnamed : found.name = recovery.node := by simpa using List.find?_some hfind
    -- node names are distinct, so the one found by name is the one meant
    have hsame : found = node :=
      List.inj_on_of_nodup_map hnames (List.mem_append_left _ hfound) hnode (hnamed.trans hname)
    subst hsame
    refine ⟨fun _ => hfound, fun _ => ?_⟩
    have hdone : ((recoverNode codec found recovery).bind fun _ =>
        (.done () : Program Unit)).fated (Store.serve cel) allAnswered n s = _ :=
      Prog.fated_bind_done _ (fun _ => ()) _ _
    dsimp only
    rw [Prog.bind_eq, recoverNodes, hdone, recoverNode_fits hrow hfits]
    rfl

end

/-- Two tasks; retries are enabled. -/
def failedTask : CoordinatorTask where
  workflowId := "w"
  nodes := [{ name := "a", jobId := "w:a" }, { name := "b", jobId := "w:b" }]
  failedSubgraphRetry := true

def failedCursor : WorkflowCursor := { failed := true, completed := ["b"] }

def plainRow (state : State) (content : Payload) : Job :=
  ⟨state, "t", "default", "f", content, 0, none⟩

/-- `a` failed and `b` was recorded completed; its row may be gone. -/
def retryStore (b : Option Job) : Store where
  jobs id :=
    if id = retryReceiptId "w" 2 then some (plainRow .pending (RetryTask.encode ⟨"w", 1⟩))
    else if id = "c" then some (plainRow .running {})
    else if id = "w:a" then some (plainRow .archived {})
    else if id = "w:b" then b else none

theorem retryPending_retryStore (b : Option Job) :
    (retryStore b).RetryPending failedTask failedCursor where
  settled := rfl
  room := by decide
  failed := rfl
  enabled := rfl
  receipt := ⟨plainRow .pending (RetryTask.encode ⟨"w", 1⟩), rfl, rfl, rfl⟩

/-- The call in place `n` does not arrive. -/
def lostAt (n : Nat) : Nat → Fate := fun m => if m = n then .lost else .answered

/-- A tick over the receipt. -/
def retryTick (b : Option Job) (fate : Nat → Fate) :
    List (Call × Fate) × Except JobError (Option Tick × WorkflowCursor) × Store :=
  (reconcileRetry plainCodec failedTask failedCursor "c").fated (Store.serve noConditions) fate 0
    (retryStore b)

theorem failing_call_undecided_iff_lost_receipt :
    (retryStore none).RetryPending failedTask failedCursor ∧
    ∃ e, (retryTick none (lostAt 0)).2.1 = .error e := by
  have hasked : ((retryStore none).askedRetry noConditions plainCodec failedTask failedCursor
      (lostAt 0)).1 = [(.getJob (retryReceiptId "w" 2) true, .lost)] := rfl
  have hreads : (retryStore none).nodeReads noConditions plainCodec failedTask failedCursor
      (lostAt 0) = [] := rfl
  refine ⟨retryPending_retryStore none, ((failing_call_undecided_iff "c"
    (retryPending_retryStore none) ?_).2.1 ⟨?_, ?_⟩).1⟩
  · rw [hasked]
    simp
  · rw [hreads]
    exact List.forall_mem_nil _
  · rintro ⟨-, hok⟩
    cases hok

/-- The read of a node is lost: the receipt is deleted, and the tick fails the workflow that the
next tick would have reopened. -/
theorem lost_read_rejects :
    (retryStore (some (plainRow .completed {}))).RetryPending failedTask failedCursor ∧
    (retryTick (some (plainRow .completed {})) (lostAt 2)).2.1.map Prod.fst = .ok (some .failed) ∧
    (retryTick (some (plainRow .completed {})) (lostAt 2)).2.2.jobs (retryReceiptId "w" 2) = none ∧
    (retryTick (some (plainRow .completed {})) (fun _ => .answered)).2.1.map Prod.fst
      = .ok (some .waiting) :=
  ⟨retryPending_retryStore _, rfl, rfl, rfl⟩

end Headgate.Workflow
