import Headgate.Redis.Moves
import Headgate.Redis.Rules

/-!
# The writes a call consists of

Apart from admission, a call is a sequence of writes by the scripts' helpers, each
to one job and under a guard that the script has checked.  `Write` lists the
helpers with their guards, and `step_writes` cuts every such call into them.
What a call does to any group of keys then needs one argument per helper, and the
loops of the scripts are walked through once, here.
-/

namespace Headgate.Redis

open Headgate.Core Data Relation

variable {key : Bytes} {id : String} {seen : List (Bytes × String)} {now : Int} {s s' : Store}
  {batch fresh : List Envelope} {e : Envelope} {reply : EnqueueReply} {j : Job} {op : Op}
  {k : Lifecycle}

/-! ## Section 1: The writes -/

section
variable {t : Store}

/-- One write of a plain call.  A write that changes the lifecycle of a job follows the rule of
the call, where the retention of the job is sound. -/
inductive Write (op : Op) (now : Int) (s : Store) : Store → Prop where
  -- the replacement block of `enqueue.lua`, on a holder that is neither claimed nor finished
  | debounce (e : Envelope) (holder : String) (j : Job) (row : s.job? holder = some j)
      (idle : State.isMutable j.state = true)
      (rule : op.rule holder j.lifecycle (some { j.lifecycle with state := .scheduled })) :
      Write op now s (debounceHolder now e holder j.state s)
  | payload (e : Envelope) (holder : String) (j : Job) (row : s.job? holder = some j)
      (idle : State.isMutable j.state = true) : Write op now s (replacePayload e holder s)
  | due (e : Envelope) (holder : String) (j : Job) (row : s.job? holder = some j)
      (scheduled : j.state = .scheduled) : Write op now s (replaceScheduledAt now e holder s)
  | refit (holder : String) (j : Job) (priority : Int) (maxAttempts : Nat)
      (row : s.job? holder = some j) (idle : State.isMutable j.state = true)
      (rule : op.rule holder j.lifecycle (some { j.lifecycle with maxAttempts := maxAttempts })) :
      Write op now s (s.setJob holder { j with priority := priority, maxAttempts := maxAttempts })
  /-- A new job with a free unique key. -/
  | arrive (e : Envelope) (mem : e ∈ op.batch) (absent : s.job? e.id = none)
      (window : 0 ≤ e.uniqueWindowMs) (retention : 0 ≤ e.retentionMs)
      (free : keyArg e ≠ [] → e.uniqueWindowMs = 0 → s.holders.unique (keyArg e) = none) :
      Write op now s (writeJob now s e)
  -- lease-guarded scripts
  | reconcile (id : String) (j : Job) (actual : Int) (row : s.job? id = some j)
      (running : j.state = .running) (metered : ¬ op.isUnmetered) :
      Write op now s (reconcile now id j actual s)
  | finishKeep (id : String) (j : Job) (attempt : Nat) (errors : List AttemptEntry)
      (result : Option JobResult) (to_ : State) (e : Event) (row : s.job? id = some j)
      (running : j.state = .running) (terminal : to_.isTerminal = true) (out : to_ ≠ .quarantined)
      (ends : e.ends id j) (rule : 0 ≤ j.retentionMs →
        op.rule id j.lifecycle (some { j.lifecycle with state := to_, attempt := attempt })) :
      Write op now s ((finishKeep now id
        { j with attempt := attempt, errors := errors, result := result } to_ s).record e)
  | finishDelete (id : String) (j : Job) (e : Event) (row : s.job? id = some j)
      (running : j.state = .running) (ends : e.ends id j)
      (rule : 0 ≤ j.retentionMs → op.rule id j.lifecycle none) :
      Write op now s ((finishDelete id j s).record e)
  | requeue (id : String) (j : Job) (attempt : Nat) (errors : List AttemptEntry) (score : Int)
      (to_ : State) (e : Event) (row : s.job? id = some j) (running : j.state = .running)
      (waiting : to_.isWaiting = true) (ends : e.ends id j)
      (rule : op.rule id j.lifecycle (some { j.lifecycle with state := to_, attempt := attempt }))
      (timely : op.isTimely → to_ = .available ∨ now < score) :
      Write op now s ((requeue now id { j with attempt := attempt, errors := errors } score to_
        s).record e)
  | renew (ref : LeaseRef) (j : Job) (leaseMs : Int) (row : s.job? ref.jobId = some j)
      (held : j.heldBy ref = true) : Write op now s (renewOne now leaseMs s ref)
  | fenced (id : String) (j : Job) (checkpoint : Option Checkpoint) (output : Option JobOutput)
      (progress : Option JobProgress) (row : s.job? id = some j) (running : j.state = .running) :
      Write op now s (s.setJob id
        { j with checkpoint := checkpoint, output := output, progress := progress })
  -- sweeps
  | crash (id : String) (j : Job) (row : s.job? id = some j) (running : j.state = .running)
      (prints : op.movesPrints) (rule : op.rule id j.lifecycle (some
        { j.lifecycle with state := .quarantined, crashAttempt := j.crashAttempt + 1 })) :
      Write op now s (quarantineCrashed now id j s)
  | retryCrash (base cap : Int) (id : String) (j : Job) (row : s.job? id = some j)
      (running : j.state = .running) (rule : op.rule id j.lifecycle (some
        { j.lifecycle with state := .retryable, crashAttempt := j.crashAttempt + 1 })) :
      Write op now s (retryCrashed now base cap id j s)
  | stray (id : String) (idle : ∀ j, s.job? id = some j → j.state ≠ .running) :
      Write op now s { s with running := { s.running with lease := s.running.lease.remove id } }
  | promote (id : String) (j : Job) (row : s.job? id = some j)
      (due : j.state = .scheduled ∨ j.state = .retryable)
      (rule : op.rule id j.lifecycle (some { j.lifecycle with state := .available })) :
      Write op now s { s.setJob id { j with state := .available } with
        index := (s.index.remSched id).moveIdx j.queue j.state .available j.scheduledAtMs id }
  | evict (id : String) (j : Job) (row : s.job? id = some j)
      (evictable : State.isEvictable j.state = true) (prints : op.movesPrints)
      (rule : op.rule id j.lifecycle none) :
      Write op now s { (s.delJob id).record (.deleted id) with
        index := ((s.index.remIdx j.queue j.state id).remTags j.tags id).remRet id }
  | sweep (limit : Int) (fp id : String) (j : Job) (n : Int) (row : s.job? id = some j)
      (waiting : j.state.isWaiting = true) (listed : id ∈ s.index.fpi fp)
      (rule : op.rule id j.lifecycle (some { j.lifecycle with state := .quarantined })) :
      Write op now s (sweepOne now limit fp (s, n) id).1
  -- the operator's transitions
  | cancel (id : String) (j : Job) (row : s.job? id = some j)
      (unfinished : j.state.isUnfinished = true)
      (rule : op.rule id j.lifecycle (some { j.lifecycle with state := .cancelled })) :
      Write op now s (doCancel now id j s)
  | retry (id : String) (j : Job) (row : s.job? id = some j)
      (retriable : State.isRetriable j.state = true)
      (rule : op.rule id j.lifecycle (some { j.lifecycle with state := .available })) :
      Write op now s (doRetry now id j s).1
  | delete (id : String) (j : Job) (row : s.job? id = some j) (idle : j.state ≠ .running)
      (rule : op.rule id j.lifecycle none) : Write op now s (doDelete id j s)
  | activate (id : String) (j : Job) (to_ : State) (at_ : Int) (x : Index)
      (row : s.job? id = some j) (pending : j.state = .pending) (waiting : to_.isWaiting = true)
      (rule : op.rule id j.lifecycle (some { j.lifecycle with state := to_ }))
      (sched : x = s.index ∧ to_ = .available ∨ x = s.index.addSched at_ id) :
      Write op now s (activatePending id j to_ at_ { s with index := x })
  | reschedule (id : String) (j : Job) (at_ : Int) (row : s.job? id = some j)
      (delayed : j.state = .scheduled ∨ j.state = .retryable) :
      Write op now s { s.setJob id { j with scheduledAtMs := at_ } with
        waiting := s.waiting.add id j.queue j.partitionKey j.stickyWorker at_
        index := (s.index.addSched at_ id).addIdx j.queue j.state at_ id }
  | edit (id : String) (j : Job) (payload : Bytes) (sv : Nat) (fp : String)
      (row : s.job? id = some j) (idle : j.state ≠ .running) (edits : op.edits fp) :
      Write op now s (editPayload id payload sv fp s).1
  -- due times and retention only
  | retain (id : String) (j : Job) (due : Int) (row : s.job? id = some j)
      (evictable : State.isEvictable j.state = true) (final : j.finalizedAtMs = some now)
      (lapse : due = now + j.retentionMs) :
      Write op now s { s with index := { s.index with ret := s.index.ret.add due id } }
  | unsched (id : String)
      (idle : ∀ j, s.job? id = some j → ¬ (j.state = .scheduled ∨ j.state = .retryable)) :
      Write op now s { s with index := s.index.remSched id }
  | unret (id : String) (idle : ∀ j, s.job? id = some j → ¬ State.isEvictable j.state = true) :
      Write op now s { s with index := s.index.remRet id }
  | policy (p : Policy) (quarantine : p.quarantine = s.policy.quarantine)
      (deficit : p.deficit = s.policy.deficit)
      (depth : ¬ op.resetsDepth → p.enqueue = s.policy.enqueue)
      (rate : op.isUnmetered → p.rate = s.policy.rate) : Write op now s { s with policy := p }

/-- A sequence of writes. -/
def Writes (op : Op) (now : Int) : Store → Store → Prop := ReflTransGen (Write op now)

theorem Writes.refl (s : Store) : Writes op now s s := ReflTransGen.refl

theorem Writes.one (w : Write op now s t) : Writes op now s t := ReflTransGen.single w

/-- What every round does in a reflexive and transitive relation, a loop does that carries the
store next to other variables. -/
theorem lift_foldl {α β : Type} {r : Store → Store → Prop} (refl : ∀ s, r s s)
    (trans : ∀ s t u, r s t → r t u → r s u) (store : β → Store) {f : β → α → β}
    (h : ∀ b x, r (store b) (store (f b x))) (xs : List α) (b : β) :
    r (store b) (store (xs.foldl f b)) := by
  induction xs generalizing b with
  | nil => exact refl _
  | cons x xs ih => exact trans _ _ _ (h b x) (ih (f b x))

theorem Writes.foldl_of {α β : Type} (store : β → Store) {f : β → α → β}
    (h : ∀ b x, Writes op now (store b) (store (f b x))) :
    ∀ (xs : List α) b, Writes op now (store b) (store (xs.foldl f b)) :=
  lift_foldl .refl (fun _ _ _ => .trans) store h

theorem Writes.foldl {α : Type} {f : Store → α → Store} (h : ∀ s x, Writes op now s (f s x))
    (xs : List α) (s : Store) : Writes op now s (xs.foldl f s) :=
  .foldl_of id h xs s

/-- What every write does in a reflexive and transitive relation, a sequence does. -/
theorem lift_writes {w r : Store → Store → Prop} (h : ReflTransGen w s t) (refl : ∀ s, r s s)
    (trans : ∀ s t u, r s t → r t u → r s u) (write : ∀ s t, w s t → r s t) : r s t := by
  induction h with
  | refl => exact refl s
  | tail _ w ih => exact trans _ _ _ ih (write _ _ w)

end

/-! ## Section 2: Enqueue -/

section
variable {arrivals : List Envelope} {holder : String} {t : Store}

/-- The holder has a row in one of the states. -/
def HolderIn (states : State → Prop) (holder : String) (s : Store) : Prop :=
  ∃ j, s.job? holder = some j ∧ states j.state

theorem HolderIn.of_set {states : State → Prop} {j' : Job}
    (jobs : t.jobs = (s.setJob holder j').jobs) (h : states j'.state) : HolderIn states holder t :=
  ⟨j', (Store.job?_of_insert jobs holder).trans (if_pos rfl), h⟩

/-- A replacement under its flag, on a holder in the states `P`. -/
private theorem applyWhen_writes {P : State → Prop} {b : Bool} {f : Store → Store}
    {p : Store × Bool} (hp : Writes (.enqueue arrivals) now s p.1 ∧ HolderIn P holder p.1)
    (hf : b = true → ∀ j, p.1.job? holder = some j → P j.state →
      Write (.enqueue arrivals) now p.1 (f p.1) ∧ HolderIn P holder (f p.1)) :
    Writes (.enqueue arrivals) now s (applyWhen b f p).1 ∧
      HolderIn P holder (applyWhen b f p).1 := by
  unfold applyWhen
  split
  · rename_i hb
    obtain ⟨hwrites, j, row, hj⟩ := hp
    obtain ⟨hwrite, hafter⟩ := hf hb j row hj
    exact ⟨.tail hwrites hwrite, hafter⟩
  · exact hp

theorem replaceHolder_writes (now : Int) (e : Envelope) (holder : String) (s : Store) :
    Writes (.enqueue arrivals) now s (replaceHolder now e holder s).1 := by
  unfold replaceHolder
  cases row : s.job? holder with
  | none => exact .refl s
  | some j =>
    dsimp only
    split
    · rename_i idle
      -- a row that was scheduled at first still is when its due time is replaced
      have hstart : Writes (.enqueue arrivals) now s s ∧ HolderIn (fun st =>
          State.isMutable st = true ∧ (j.state = .scheduled → st = .scheduled)) holder s :=
        ⟨.refl s, j, row, idle, fun h => h⟩
      have hdebounce := applyWhen_writes (b := decide (e.uniqueDebounceMs > 0))
        (f := debounceHolder now e holder j.state) (p := (s, false)) hstart fun _ k hk _ => by
          rw [row] at hk
          cases hk
          refine ⟨.debounce e holder j row idle ⟨.scheduled, j.maxAttempts, .inr ⟨idle, rfl⟩, rfl⟩, ?_⟩
          unfold debounceHolder
          rw [row]
          exact .of_set rfl ⟨rfl, fun _ => rfl⟩
      have hpayload := applyWhen_writes (b := decide (e.uniqueReplace % 2 ≥ 1))
        (f := replacePayload e holder) hdebounce fun _ k hk hst => by
          refine ⟨.payload e holder k hk hst.1, ?_⟩
          unfold replacePayload
          rw [hk]
          exact .of_set rfl hst
      have hdue := applyWhen_writes
        (b := decide (e.uniqueReplace / 2 % 2 ≥ 1) && decide (j.state = .scheduled))
        (f := replaceScheduledAt now e holder) hpayload fun hb k hk hst => by
          rw [Bool.and_eq_true] at hb
          refine ⟨.due e holder k hk (hst.2 (of_decide_eq_true hb.2)), ?_⟩
          unfold replaceScheduledAt
          rw [hk]
          exact .of_set rfl hst
      have hpriority := applyWhen_writes (b := decide (e.uniqueReplace / 4 % 2 ≥ 1))
        (f := replacePriority e holder) hdue fun _ k hk hst => by
          unfold replacePriority
          rw [hk]
          exact ⟨.refit holder k e.priority k.maxAttempts hk hst.1
            ⟨k.state, k.maxAttempts, .inl rfl, rfl⟩, .of_set rfl hst⟩
      refine (applyWhen_writes (f := replaceMaxAttempts e holder) hpriority fun _ k hk hst => ?_).1
      unfold replaceMaxAttempts
      rw [hk]
      exact ⟨.refit holder k k.priority e.maxAttempts hk hst.1
        ⟨k.state, e.maxAttempts, .inl rfl, rfl⟩, .of_set rfl hst⟩
    · exact .refl s

/-- The validate pass changes the store only by replacing fields of one holder. -/
private theorem validatePass_writes (now : Int) (s : Store) (fresh : List Envelope)
    (seen : List (Bytes × String)) :
    Writes (.enqueue arrivals) now s (validatePass now s fresh seen).1 := by
  induction fresh generalizing seen with
  | nil => exact .refl s
  | cons e rest ih =>
    unfold validatePass
    -- the pass stops at a quarantined fingerprint or a repeated key without a write; only a held key
    -- writes, to the holder
    split
    · exact .refl s
    · split
      · split
        · exact .refl s
        · split
          · unfold onHolder
            split
            · exact replaceHolder_writes now e _ s
            · exact .refl s
          · exact ih _
      · exact ih _

end

/-- What the validate pass has established when it lets a batch through. -/
structure Admissible (now : Int) (s : Store) (fresh : List Envelope) : Prop where
  free : ∀ e ∈ fresh, keyArg e ≠ [] → holderOf s now e = none
  keys : fresh.Pairwise fun a b => keyArg a ≠ [] → keyArg b ≠ keyArg a

theorem Admissible.cons (h : Admissible now s fresh) (free : keyArg e ≠ [] → holderOf s now e = none)
    (keys : ∀ b ∈ fresh, keyArg e ≠ [] → keyArg b ≠ keyArg e) : Admissible now s (e :: fresh) :=
  ⟨List.forall_mem_cons.mpr ⟨free, h.free⟩, List.pairwise_cons.mpr ⟨keys, h.keys⟩⟩

private theorem lookup_cons_none {key' : Bytes} (h : ((key, id) :: seen).lookup key' = none) :
    key' ≠ key ∧ seen.lookup key' = none := by
  rw [List.lookup_cons] at h
  split at h
  · cases h
  · rename_i hne
    exact ⟨by simpa using hne, h⟩

theorem validatePass_none (h : validatePass now s fresh seen = (s', none)) :
    s' = s ∧ Admissible now s fresh ∧
      ∀ e ∈ fresh, keyArg e ≠ [] → seen.lookup (keyArg e) = none := by
  induction fresh generalizing seen with
  | nil =>
    cases h
    exact ⟨rfl, ⟨by simp, List.Pairwise.nil⟩, by simp⟩
  | cons e rest ih =>
    unfold validatePass at h
    split at h
    · cases h
    · split at h
      · rename_i hkey
        split at h
        · cases h
        · rename_i hseen
          split at h
          · cases h
          · rename_i hholder
            -- the key is added to `seen`, so every later envelope is checked against it
            obtain ⟨hs, hadm, hlook⟩ := ih h
            have hnew := fun b hb hk => lookup_cons_none (hlook b hb hk)
            refine ⟨hs, hadm.cons (fun _ => hholder) fun b hb _ hbe => ?_, ?_⟩
            · exact (hnew b hb (hbe ▸ hkey)).1 hbe
            · exact List.forall_mem_cons.mpr ⟨fun _ => hseen, fun b hb hk => (hnew b hb hk).2⟩
      · rename_i hkey
        have hnil : ∀ {P : Prop}, keyArg e ≠ [] → P := fun hk => absurd hk hkey
        obtain ⟨hs, hadm, hlook⟩ := ih h
        exact ⟨hs, hadm.cons hnil fun _ _ => hnil, List.forall_mem_cons.mpr ⟨hnil, hlook⟩⟩

private theorem unique_claimKey {u : Holders} (h : keyArg e ≠ [] → key ≠ keyArg e) :
    (claimKey now e u).unique key = u.unique key := by
  unfold claimKey
  split
  · rename_i hk
    split
    · split
      · rfl
      · rfl
    · exact Function.update_of_ne (h hk) _ _
  · rfl

/-- The write pass over envelopes with new ids and free keys. -/
private theorem writePass_writes (now : Int) (arrivals fresh : List Envelope) (s : Store)
    (mem : ∀ e ∈ fresh, e ∈ arrivals.map prepare) (ids : (fresh.map Envelope.id).Nodup)
    (absent : ∀ e ∈ fresh, s.job? e.id = none) (window : ∀ e ∈ fresh, 0 ≤ e.uniqueWindowMs)
    (retention : ∀ e ∈ fresh, 0 ≤ e.retentionMs)
    (keys : fresh.Pairwise fun a b => keyArg a ≠ [] → keyArg b ≠ keyArg a)
    (free : ∀ e ∈ fresh, keyArg e ≠ [] → e.uniqueWindowMs = 0 →
      s.holders.unique (keyArg e) = none) :
    Writes (.enqueue arrivals) now s (fresh.foldl (writeJob now) s) := by
  -- each write keeps what the later ones need: their ids stay absent and their keys free
  induction fresh generalizing s with
  | nil => exact .refl s
  | cons e rest ih =>
    rw [List.map_cons, List.nodup_cons] at ids
    rw [List.pairwise_cons] at keys
    have hhead : Write (.enqueue arrivals) now s (writeJob now s e) :=
      .arrive e (mem e List.mem_cons_self) (absent e List.mem_cons_self)
        (window e List.mem_cons_self) (retention e List.mem_cons_self) (free e List.mem_cons_self)
    refine .head hhead (ih (writeJob now s e)
      (fun e' he' => mem e' (List.mem_cons_of_mem _ he')) ids.2 ?_ ?_ ?_ keys.2 ?_)
    · intro e' he'
      have hne : e'.id ≠ e.id := by
        intro heq
        exact ids.1 (List.mem_map.mpr ⟨e', he', heq⟩)
      exact (Store.job?_setJob s e.id e'.id (newJob now e)).trans
        ((if_neg hne).trans (absent e' (List.mem_cons_of_mem _ he')))
    · exact fun e' he' => window e' (List.mem_cons_of_mem _ he')
    · exact fun e' he' => retention e' (List.mem_cons_of_mem _ he')
    · intro e' he' hk hw
      have hsame : (writeJob now s e).holders.unique (keyArg e') = s.holders.unique (keyArg e') :=
        unique_claimKey (keys.1 e' he')
      rw [hsame]
      exact free e' (List.mem_cons_of_mem _ he') hk hw

theorem idPass_ok (h : idPass s batch = .ok fresh) :
    fresh.Sublist batch ∧ ∀ e ∈ fresh, s.job? e.id = none := by
  induction batch generalizing fresh with
  | nil =>
    cases h
    exact ⟨List.Sublist.refl _, by simp⟩
  | cons e rest ih =>
    unfold idPass at h
    split at h
    · cases h
    · cases hj : s.job? e.id with
      | none =>
        simp only [hj] at h
        cases hr : idPass s rest with
        | error => simp [hr, Except.map] at h
        | ok =>
          simp only [hr, Except.map, Except.ok.injEq] at h
          obtain ⟨hsub, hnone⟩ := ih hr
          subst h
          refine ⟨hsub.cons_cons e, fun e' he' => ?_⟩
          rcases List.mem_cons.mp he' with rfl | hin
          · exact hj
          · exact hnone e' hin
      | some =>
        -- a replay of a stored job is skipped, other content under its id is a conflict
        simp only [hj] at h
        split at h
        · obtain ⟨hsub, hnone⟩ := ih h
          exact ⟨hsub.cons e, hnone⟩
        · cases h

theorem idPass_rejects (h : idPass s batch = .error reply) : parseTagged reply ≠ .ok () := by
  induction batch with
  | nil => cases h
  | cons e rest ih =>
    unfold idPass at h
    split at h
    · cases h
      exact fun hok => by cases hok
    · split at h
      · cases hr : idPass s rest with
        | error =>
          rw [hr] at h
          cases h
          exact ih hr
        | ok =>
          rw [hr] at h
          cases h
      · split at h
        · exact ih h
        · cases h
          exact fun hok => by cases hok

theorem depthPass_rejects {queues : List String} (h : depthPass s fresh queues = some reply) :
    parseTagged reply ≠ .ok () := by
  induction queues with
  | nil => cases h
  | cons queue rest ih =>
    unfold depthPass at h
    dsimp only at h
    split at h
    · exact ih h
    · split at h
      · cases h
        exact fun hok => by cases hok
      · exact ih h

theorem enqueue_writes (now : Int) (arrivals : List Envelope) (s : Store) :
    Writes (.enqueue arrivals) now s (enqueue now arrivals s).1 := by
  unfold enqueue
  split
  · exact .refl s
  split
  · exact .refl s
  rename_i hok
  obtain ⟨hnodup, henv⟩ := validateEnqueue_ok hok
  -- the boundary has checked the ranges that the write pass relies on
  have hraw : ∀ e ∈ arrivals.map prepare, 0 ≤ e.uniqueWindowMs ∧ 0 ≤ e.retentionMs := by
    intro e he
    obtain ⟨raw, hraw, rfl⟩ := List.mem_map.mp he
    exact ⟨(henv raw hraw).windowNonneg, (henv raw hraw).retentionNonneg⟩
  unfold enqueueScript
  split
  · exact .refl s
  rename_i fresh hfresh
  obtain ⟨hsub, habsent⟩ := idPass_ok hfresh
  have hval : Writes (.enqueue arrivals) now s (validatePass now s fresh []).1 :=
    validatePass_writes now s fresh []
  split
  · -- a rejected batch may still have replaced or debounced a holder
    rename_i s' reply hpass
    rw [hpass] at hval
    exact hval
  rename_i s' hpass
  obtain ⟨rfl, hadm, -⟩ := validatePass_none hpass
  split
  · exact .refl s'
  -- the write pass can raise midway, so only a front part of the batch is written
  have hreached : (reached fresh).Sublist fresh := List.take_sublist _ _
  have hbatch := hreached.trans hsub
  refine writePass_writes now arrivals (reached fresh) s' (fun e he => hbatch.subset he) ?_
    (fun e he => habsent e (hreached.subset he)) (fun e he => (hraw e (hbatch.subset he)).1)
    (fun e he => (hraw e (hbatch.subset he)).2) (hadm.keys.sublist hreached) ?_
  · apply (hbatch.map _).nodup
    rw [List.map_map]
    exact hnodup
  · intro e he hk hw
    have hfree := hadm.free e (hreached.subset he) hk
    rw [holderOf, if_neg (by omega)] at hfree
    exact hfree

/-- The validate pass rejects by the quarantine or by a held key. -/
theorem validatePass_rejects (h : validatePass now s fresh seen = (s', some reply)) :
    (s' = s ∧ ((∃ fp, reply = .quar fp) ∨ ∃ id, reply = .dup id)) ∨
      ∃ e ∈ fresh, ∃ holder, holderOf s now e = some holder ∧
        s' = (onHolder now e holder s).1 ∧ reply = (onHolder now e holder s).2 := by
  induction fresh generalizing seen with
  | nil => cases h
  | cons e rest ih =>
    unfold validatePass at h
    split at h
    · cases h
      exact .inl ⟨rfl, .inl ⟨_, rfl⟩⟩
    · split at h
      · split at h
        · cases h
          exact .inl ⟨rfl, .inr ⟨_, rfl⟩⟩
        · split at h
          · rename_i holder hholder
            cases h
            -- the store is touched only here, and the pass ends with it
            exact .inr ⟨e, List.mem_cons_self, holder, hholder, rfl, rfl⟩
          · exact (ih h).imp_right fun ⟨e', he', hrest⟩ =>
              ⟨e', List.mem_cons_of_mem _ he', hrest⟩
      · exact (ih h).imp_right fun ⟨e', he', hrest⟩ => ⟨e', List.mem_cons_of_mem _ he', hrest⟩

theorem onHolder_reply (now : Int) (e : Envelope) (holder : String) (s : Store) :
    (onHolder now e holder s).2 = .dup holder ∨ (onHolder now e holder s).2 = .dupr holder := by
  unfold onHolder
  split
  · dsimp only
    split
    · exact .inr rfl
    · exact .inl rfl
  · exact .inl rfl

/-- Without an entry that is refused, the write pass comes to every envelope. -/
theorem reached_eq (h : fresh.any Envelope.raises = false) : reached fresh = fresh := by
  have hlength : fresh.findIdx Envelope.raises = fresh.length :=
    List.findIdx_eq_length.mpr fun e he => by simpa using List.any_eq_false.mp h e he
  rw [reached, hlength]
  exact List.take_of_length_le (Nat.le_succ _)

/-- An accepted batch: what the checks found, and what the write pass wrote. -/
structure Accepted (now : Int) (batch fresh : List Envelope) (s s' : Store) : Prop where
  ids : (batch.map Envelope.id).Nodup
  replays : idPass s batch = .ok fresh
  free : Admissible now s fresh
  room : depthPass s fresh (demandQueues fresh) = none
  written : s' = fresh.foldl (writeJob now) s

theorem enqueueScript_accepted (ids : (batch.map Envelope.id).Nodup)
    (h : parseTagged (enqueueScript now batch s).2 = .ok ()) :
    ∃ fresh, Accepted now batch fresh s (enqueueScript now batch s).1 := by
  unfold enqueueScript at h ⊢
  split at h
  · -- an id pass that fails answers with an error or a conflict
    rename_i reply hpass
    exact absurd h (idPass_rejects hpass)
  · rename_i fresh hfresh
    split at h
    · rename_i s' reply hpass
      exfalso
      rcases validatePass_rejects hpass with ⟨-, ⟨fp, rfl⟩ | ⟨id, rfl⟩⟩ | ⟨e, -, holder, -, -, hreply⟩
      · cases h
      · cases h
      · rcases onHolder_reply now e holder s with hdup | hdup
        · rw [hreply, hdup] at h
          cases h
        · rw [hreply, hdup] at h
          cases h
    · rename_i s' hpass
      obtain ⟨rfl, hfree, -⟩ := validatePass_none hpass
      split at h
      · rename_i reply hroom
        exact absurd h (depthPass_rejects hroom)
      · rename_i hroom
        dsimp only at h
        split at h
        · cases h
        · rename_i hraises
          refine ⟨fresh, ids, hfresh, hfree, hroom, ?_⟩
          rw [reached_eq (Bool.not_eq_true _ ▸ hraises)]

/-- **Acceptance.**  An enqueue that answers `Ok` has passed every check and written the
envelopes that are no replays. -/
theorem enqueue_accepted (h : (enqueue now batch s).2 = .ok ()) :
    ∃ fresh, Accepted now (batch.map prepare) fresh s (enqueue now batch s).1 := by
  unfold enqueue at h ⊢
  split
  · -- an empty batch is accepted without a call of the script
    rename_i hempty
    rw [List.isEmpty_iff] at hempty
    subst hempty
    exact ⟨[], List.nodup_nil, rfl, ⟨by simp, List.Pairwise.nil⟩, rfl, rfl⟩
  · rename_i hbatch
    rw [if_neg hbatch] at h
    split at h
    · cases h
    · rename_i hok
      refine enqueueScript_accepted ?_ h
      rw [List.map_map]
      exact (validateEnqueue_ok hok).1

/-- The write pass leaves the other ids alone. -/
theorem job?_writePass (h : ∀ e ∈ fresh, e.id ≠ id) :
    (fresh.foldl (writeJob now) s).job? id = s.job? id := by
  induction fresh generalizing s with
  | nil => rfl
  | cons e rest ih =>
    rw [List.foldl_cons, ih fun e' he' => h e' (List.mem_cons_of_mem _ he')]
    exact (Store.job?_setJob s e.id id (newJob now e)).trans
      (if_neg fun heq => h e List.mem_cons_self heq.symm)

/-- The write pass writes each envelope as its own row. -/
theorem job?_writePass_mem (ids : (fresh.map Envelope.id).Nodup) (mem : e ∈ fresh) :
    (fresh.foldl (writeJob now) s).job? e.id = some (newJob now e) := by
  induction fresh generalizing s with
  | nil => cases mem
  | cons f rest ih =>
    rw [List.map_cons, List.nodup_cons] at ids
    rw [List.foldl_cons]
    rcases List.mem_cons.mp mem with rfl | hin
    · rw [job?_writePass fun e' he' heq => ids.1 (List.mem_map.mpr ⟨e', he', heq⟩)]
      exact (Store.job?_setJob s e.id e.id (newJob now e)).trans (if_pos rfl)
    · exact ih ids.2 hin

theorem Accepted.nodup (h : Accepted now batch fresh s s') : (fresh.map Envelope.id).Nodup :=
  ((idPass_ok h.replays).1.map _).nodup h.ids

/-- A row that an accepted batch adds is one of its new envelopes. -/
theorem Accepted.added (h : Accepted now batch fresh s s') (absent : s.job? id = none)
    (row : s'.job? id = some j) : ∃ e ∈ fresh, e.id = id ∧ j = newJob now e := by
  rw [h.written] at row
  by_cases hmem : ∃ e ∈ fresh, e.id = id
  · obtain ⟨e, he, rfl⟩ := hmem
    rw [job?_writePass_mem h.nodup he] at row
    cases row
    exact ⟨e, he, rfl, rfl⟩
  · rw [job?_writePass fun e he heq => hmem ⟨e, he, heq⟩, absent] at row
    cases row

/-! ## Section 3: Leases and sweeps -/

section

theorem Job.heldBy_iff (j : Job) (ref : LeaseRef) :
    j.heldBy ref = true ↔
      j.state = .running ∧ j.lease.map Lease.leaseId = some ref.leaseId ∧ j.fence = ref.fence := by
  simp [Job.heldBy, and_assoc]

/-- The correction writes the row with the charge cleared. -/
theorem reconcile_row (now : Int) (id : String) (j : Job) (actual : Int) (s : Store) :
    (reconcile now id j actual s).job? id = some { j with rateCharge := 0 } := by
  have hset := Store.job?_setJob s id id { j with rateCharge := 0 }
  rw [if_pos rfl] at hset
  unfold reconcile
  dsimp only
  split
  · exact hset
  · split
    · exact hset
    · exact hset

theorem backoff_pos {base cap : Int} (hbase : 0 < base) (hcap : 0 < cap) (n : Nat) :
    0 < backoff base cap n :=
  lt_min hcap (by positivity)

/-- The branches of `ack.lua` are the core transitions. -/
private theorem ackOutcome_writes {ref : LeaseRef} {a : AckArgs} (hvalid : validateAck a = .ok ())
    (row : s.job? ref.jobId = some j) (held : j.heldBy ref = true)
    (h : ackOutcome now ref.jobId j a s = some s') :
    Writes (.ack ref a) now s (s'.record (.acked ref.jobId ref.leaseId ref.fence)) := by
  obtain ⟨running, hlease, hfence⟩ := (j.heldBy_iff ref).mp held
  have ends : (Event.acked ref.jobId ref.leaseId ref.fence).ends ref.jobId j :=
    ⟨rfl, running, hlease, hfence⟩
  have hrule : ∀ new, new = j.lifecycle.afterOutcome 0 a.outcome →
      (Op.ack ref a).rule ref.jobId j.lifecycle new := fun new hnew => ⟨rfl, running, hnew⟩
  have hstate : j.lifecycle.state = .running := running
  unfold ackOutcome at h
  cases ha : a.outcome with
  | success =>
    simp only [ha, Option.some.injEq] at h
    subst h
    rw [ha, Lifecycle.afterOutcome_success hstate] at hrule
    unfold ackSuccess
    split
    case isTrue hzero =>
      refine .one (.finishDelete _ j _ row running ends fun _ => hrule _ (if_neg ?_).symm)
      show ¬ 0 < j.retentionMs
      omega
    case isFalse hkept =>
      -- the entry of `ret` is written a second time
      refine ReflTransGen.tail (Writes.one (.finishKeep _ j j.attempt _ _ .completed _ row running rfl
        (by decide) ends fun hsound => hrule _ (if_pos ?_).symm))
        (.retain _ _ _ ((Store.job?_setJob _ _ _ _).trans (if_pos rfl)) rfl rfl rfl)
      show 0 < j.retentionMs
      omega
  | retry =>
    simp only [ha, Option.some.injEq] at h
    subst h
    rw [ha, Lifecycle.afterOutcome_retry hstate] at hrule
    unfold ackRetry
    dsimp only
    split
    case isTrue hleft =>
      have hleft' : j.lifecycle.attempt + 1 < j.lifecycle.maxAttempts := hleft
      rw [if_pos hleft'] at hrule
      refine .one (.requeue _ j _ _ _ .retryable _ row running rfl ends (hrule _ rfl)
        fun hop => .inr ?_)
      rcases hop ha with hdelay | ⟨hdefault, hbase, hcap⟩
      · rw [if_neg (by omega)]
        omega
      · have := backoff_pos hbase hcap (j.attempt + 1)
        rw [if_pos hdefault]
        omega
    case isFalse hspent =>
      have hspent' : ¬ j.lifecycle.attempt + 1 < j.lifecycle.maxAttempts := hspent
      rw [if_neg hspent'] at hrule
      exact .one (.finishKeep _ j _ _ j.result .archived _ row running rfl (by decide) ends
        fun _ => hrule _ rfl)
  | skip | undecodable =>
    simp only [ha, Option.some.injEq] at h
    subst h
    rw [ha, Lifecycle.afterOutcome_of_transition hstate (by decide) (by decide)] at hrule
    exact .one (.finishKeep _ j j.attempt _ j.result _ _ row running rfl (by decide) ends
      fun _ => hrule _ rfl)
  | revoke =>
    simp only [ha, Option.some.injEq] at h
    subst h
    rw [ha, Lifecycle.afterOutcome_of_transition hstate (by decide) (by decide)] at hrule
    exact .one (.finishDelete _ j _ row running ends fun _ => hrule _ rfl)
  | snooze | rateLimited =>
    simp only [ha, Option.some.injEq] at h
    subst h
    rw [ha, Lifecycle.afterOutcome_of_transition hstate (by decide) (by decide)] at hrule
    refine .one (.requeue _ j j.attempt j.errors _ _ _ row running rfl ends (hrule _ rfl) fun _ => ?_)
    simp [validateAck, ha] at hvalid ⊢ <;> exact hvalid
  | leaseLost => simp [ha] at h

section
variable (limit : Int) (order : SetOrder String) (ref : LeaseRef) (s : Store) (id : String)

theorem ack_writes (now : Int) (ref : LeaseRef) (a : AckArgs) (s : Store) :
    Writes (.ack ref a) now s (ack now ref a s).1 := by
  unfold ack
  split
  case h_1 => exact .refl s
  case h_2 hvalid =>
    unfold ackScript
    cases row : s.job? ref.jobId with
    | none => exact .refl s
    | some j =>
      dsimp only
      split
      case isFalse => exact .refl s
      case isTrue held =>
        -- the store and the row after the optional correction
        cases ha : a.actualWeight with
        | none =>
          cases ho : ackOutcome now ref.jobId j a s with
          | none => exact .refl s
          | some => exact ackOutcome_writes hvalid row held ho
        | some w =>
          have hrec : Write (.ack ref a) now s (reconcile now ref.jobId j w s) :=
            .reconcile ref.jobId j w row ((j.heldBy_iff ref).mp held).1 id
          cases ho : ackOutcome now ref.jobId { j with rateCharge := 0 } a
              (reconcile now ref.jobId j w s) with
          | none => exact .one hrec
          | some s' =>
            exact .head hrec
              (ackOutcome_writes hvalid (reconcile_row now ref.jobId j w s) held ho)

private theorem renewOne_writes (leaseMs : Int) (s : Store) (ref : LeaseRef) :
    Writes op now s (renewOne now leaseMs s ref) := by
  cases row : s.job? ref.jobId with
  | none =>
    rw [renewOne, row]
    exact .refl s
  | some j =>
    cases held : j.heldBy ref with
    | true => exact .one (.renew ref j leaseMs row held)
    | false =>
      rw [renewOne, row]
      simp only [held]
      exact .refl s

private theorem fencedWrite_writes {f : Job → Job} (hf : ∀ j, f j = { j with
      checkpoint := (f j).checkpoint, output := (f j).output, progress := (f j).progress }) :
    Writes op now s (fencedWrite ref f s) := by
  unfold fencedWrite
  cases row : s.job? ref.jobId with
  | none => exact .refl s
  | some j =>
    dsimp only
    split
    · rename_i held
      rw [hf j]
      exact .one (.fenced ref.jobId j _ _ _ row ((j.heldBy_iff ref).mp held).1)
    · exact .refl s

private theorem reclaimOne_writes (crashLimit base cap : Int) (s : Store) (id : String) :
    Writes (.reclaim limit crashLimit base cap) now s (reclaimOne now crashLimit base cap s id) := by
  unfold reclaimOne
  cases row : s.job? id with
  | none =>
    -- an entry of the lease set without a running row is only removed
    exact .one (.stray id (by simp [row]))
  | some j =>
    dsimp only
    split
    case isFalse hidle =>
      exact .one (.stray id (by simpa [row] using hidle))
    case isTrue running =>
      -- what the script does to the row is the lifecycle's answer to a lost lease
      have hrule : ∀ new, new = j.lifecycle.afterOutcome crashLimit .leaseLost →
          (Op.reclaim limit crashLimit base cap).rule id j.lifecycle new :=
        fun new hnew => ⟨running, hnew⟩
      rw [Lifecycle.afterOutcome_leaseLost running] at hrule
      split
      case isTrue hlimit =>
        have hlimit' : crashLimit ≤ (j.lifecycle.crashAttempt : Int) + 1 := hlimit
        rw [if_pos hlimit'] at hrule
        exact .one (.crash id j row running trivial (hrule _ rfl))
      case isFalse hbelow =>
        have hbelow' : ¬ crashLimit ≤ (j.lifecycle.crashAttempt : Int) + 1 := hbelow
        rw [if_neg hbelow'] at hrule
        exact .one (.retryCrash base cap id j row running (hrule _ rfl))

private theorem promoteOne_writes : Writes (.promote limit) now s (promoteOne s id) := by
  have hsame : ({ s with index := s.index.remSched id } : Store).job? id = s.job? id := rfl
  unfold promoteOne
  dsimp only
  rw [hsame]
  cases row : s.job? id with
  | none =>
    exact .one (.unsched id (by simp [row]))
  | some j =>
    dsimp only
    split
    case isFalse hidle =>
      exact .one (.unsched id (by simpa [row] using hidle))
    case isTrue hdue =>
      refine .one (.promote id j row hdue ?_)
      -- due rows are scheduled or retryable; each has its own event of the lifecycle
      rcases hdue with hst | hst
      · exact .inl ⟨_, rfl, by simp [Lifecycle.afterEvent, Job.lifecycle, hst, lifecycleTransition]⟩
      · exact .inr ⟨_, rfl, by simp [Lifecycle.afterEvent, Job.lifecycle, hst, lifecycleTransition]⟩

private theorem evictOne_writes : Writes (.evict limit) now s (evictOne s id) := by
  unfold evictOne
  cases row : s.job? id with
  | none =>
    exact .one (.unret id (by simp [row]))
  | some j =>
    dsimp only
    split
    case isFalse hidle =>
      exact .one (.unret id (by simpa [row] using hidle))
    case isTrue hevictable =>
      exact .one (.evict id j row hevictable trivial ⟨hevictable, rfl⟩)

private theorem sweepOne_writes (fp : String) (p : Store × Int) (id : String)
    (listed : id ∈ p.1.index.fpi fp) :
    Writes (.quarantineSweep limit order) now p.1 (sweepOne now limit fp p id).1 := by
  cases row : p.1.job? id with
  | none =>
    unfold sweepOne
    rw [row]
    split
    · exact .refl _
    · exact .refl _
  | some j =>
    -- only jobs that wait are moved to quarantine, others are passed over
    by_cases hwaiting : j.state.isWaiting = true
    · exact .one (.sweep limit fp id j p.2 row hwaiting listed ⟨hwaiting, rfl⟩)
    · unfold sweepOne
      rw [row]
      dsimp only
      rw [if_neg hwaiting]
      split
      · exact .refl _
      · exact .refl _

/-- The others stay listed. -/
private theorem sweepOne_listed (fp : String) (p : Store × Int) {x : String} (hx : x ≠ id)
    (hin : x ∈ p.1.index.fpi fp) : x ∈ (sweepOne now limit fp p id).1.index.fpi fp := by
  have hcut : x ∈ Function.update p.1.index.fpi fp ((p.1.index.fpi fp).erase id) fp := by
    simp [hx, hin]
  unfold sweepOne
  split
  · exact hin
  · split
    · exact hin
    · split
      · exact hcut
      · exact hin

private theorem sweepLoop_lift {r : Store → Store → Prop} (refl : ∀ s, r s s)
    (trans : ∀ s t u, r s t → r t u → r s u) (fp : String)
    (one : ∀ (p : Store × Int) id, id ∈ p.1.index.fpi fp → r p.1 (sweepOne now limit fp p id).1)
    {ids : List String} (p : Store × Int) (hnodup : ids.Nodup)
    (hin : ∀ id ∈ ids, id ∈ p.1.index.fpi fp) :
    r p.1 (ids.foldl (sweepOne now limit fp) p).1 := by
  induction ids generalizing p with
  | nil => exact refl _
  | cons id rest ih =>
    rw [List.nodup_cons] at hnodup
    refine trans _ _ _ (one p id (hin id List.mem_cons_self))
      (ih (sweepOne now limit fp p id) hnodup.2 fun x hx => ?_)
    -- an id still to come is another one, so its entry is still there
    exact sweepOne_listed limit id fp p (fun heq => hnodup.1 (heq ▸ hx))
      (hin x (List.mem_cons_of_mem _ hx))

/-- What moving one job listed under a quarantined fingerprint does in a reflexive and transitive
relation, the sweep does. -/
theorem quarantineSweep_lift {r : Store → Store → Prop} (refl : ∀ s, r s s)
    (trans : ∀ s t u, r s t → r t u → r s u)
    (one : ∀ fp ∈ s.policy.quarantine, ∀ (p : Store × Int) id, id ∈ p.1.index.fpi fp →
      r p.1 (sweepOne now limit fp p id).1) : r s (quarantineSweep now limit order s) := by
  -- the count is carried from one fingerprint to the next
  have hloop : ∀ fps : List String, (∀ fp ∈ fps, fp ∈ s.policy.quarantine) → ∀ p : Store × Int,
      r p.1 (fps.foldl (fun p fp => if p.2 ≥ limit then p
        else (order.list (p.1.index.fpi fp)).foldl (sweepOne now limit fp) p) p).1 := by
    intro fps
    induction fps with
    | nil => exact fun _ p => refl p.1
    | cons fp rest ih =>
      intro hfps p
      refine trans _ _ _ ?_ (ih (fun g hg => hfps g (List.mem_cons_of_mem _ hg)) _)
      dsimp only
      split
      · exact refl p.1
      · exact sweepLoop_lift limit refl trans fp (one fp (hfps fp List.mem_cons_self)) p
          (order.nodup _) fun id hid => (order.mem_list _ _).mp hid
  exact hloop _ (fun fp hfp => (order.mem_list _ _).mp hfp) (s, 0)

theorem quarantineSweep_writes :
    Writes (.quarantineSweep limit order) now s (quarantineSweep now limit order s) :=
  quarantineSweep_lift limit order s .refl (fun _ _ _ => .trans)
    fun fp _ p id => sweepOne_writes limit order fp p id

end

/-! ## Section 4: Operators -/

theorem fires_cancel (h : k.state.isUnfinished = true) :
    Fires .operatorCancel k (some { k with state := .cancelled }) := by
  refine ⟨_, rfl, ?_⟩
  unfold Lifecycle.afterEvent
  cases hst : k.state <;> simp_all [State.isUnfinished, lifecycleTransition]

theorem fires_retry (h : State.isRetriable k.state = true) :
    Fires .operatorRetry k (some { k with state := .available }) := by
  refine ⟨_, rfl, ?_⟩
  unfold Lifecycle.afterEvent
  cases hst : k.state <;> simp_all [State.isRetriable, lifecycleTransition]

section
variable (x : String) (at_ : Int) (s : Store)

theorem operatorCancel_writes : Writes (.operatorCancel x) now s (operatorCancel now x s).1 := by
  unfold operatorCancel
  cases row : s.job? x with
  | none => exact .refl s
  | some j =>
    dsimp only
    split
    case isTrue h => exact .one (.cancel x j row h ⟨rfl, fires_cancel h⟩)
    case isFalse => exact .refl s

theorem operatorRetry_writes : Writes (.operatorRetry x) now s (operatorRetry now x s).1 := by
  unfold operatorRetry
  cases row : s.job? x with
  | none => exact .refl s
  | some j =>
    dsimp only
    split
    case isFalse => exact .refl s
    case isTrue h =>
      have hwrite : Write (.operatorRetry x) now s (doRetry now x j s).1 :=
        .retry x j row h ⟨rfl, fires_retry h⟩
      split
      case h_1 hr =>
        rw [hr] at hwrite
        exact .one hwrite
      case h_2 hr =>
        rw [hr] at hwrite
        exact .one hwrite

theorem deleteJob_writes : Writes (.deleteJob x) now s (deleteJob x s).1 := by
  unfold deleteJob
  cases row : s.job? x with
  | none => exact .refl s
  | some j =>
    dsimp only
    split
    case isTrue => exact .refl s
    case isFalse h => exact .one (.delete x j row h ⟨rfl, h, rfl⟩)

theorem promoteJob_writes : Writes (.promoteJob x) now s (promoteJob now x s).1 := by
  unfold promoteJob
  cases row : s.job? x with
  | none => exact .refl s
  | some j =>
    dsimp only
    split
    case isFalse => exact .refl s
    case isTrue h =>
      refine .one (.activate x j .available now s.index row h rfl ⟨rfl, _, rfl, ?_⟩ (.inl ⟨rfl, rfl⟩))
      simp [Lifecycle.afterEvent, Job.lifecycle, h, lifecycleTransition]

theorem schedulePendingJob_writes :
    Writes (.schedulePendingJob x at_) now s (schedulePendingJob x at_ s).1 := by
  unfold schedulePendingJob
  cases row : s.job? x with
  | none => exact .refl s
  | some j =>
    dsimp only
    split
    case isFalse => exact .refl s
    case isTrue h =>
      -- the script indexes the due time first, then activates the row
      have hwrite : Write (.schedulePendingJob x at_) now s (activatePending x j .scheduled at_
          { s with index := s.index.addSched at_ x }) :=
        .activate x j .scheduled at_ _ row h.1 rfl ⟨rfl, h.1, rfl⟩ (.inr rfl)
      exact .one hwrite

theorem rescheduleJob_writes : Writes (.rescheduleJob x at_) now s (rescheduleJob x at_ s).1 := by
  unfold rescheduleJob
  cases row : s.job? x with
  | none => exact .refl s
  | some j =>
    dsimp only
    split
    case isFalse => exact .refl s
    case isTrue h => exact .one (.reschedule x j at_ row h)

theorem editPayload_writes (payload : Bytes) (sv : Nat) (fp : String) (s : Store) :
    Writes (.editPayload x payload sv fp) now s (editPayload x payload sv fp s).1 := by
  cases row : s.job? x with
  | none =>
    rw [editPayload, row]
    exact .refl s
  | some j =>
    by_cases hrun : j.state = .running
    · rw [editPayload, row]
      simp only [hrun]
      exact .refl s
    · exact .one (.edit x j payload sv fp row hrun rfl)

end

end

/-! ## Section 5: Bulk batches -/

section
variable {a : BulkArgs} {cursor : BulkCursor} {order : SetOrder String}

/-- The scanned states are ones the action applies to. -/
private theorem bulkApply_write (row : s.job? id = some j)
    (allowed : j.state ∈ bulkActionStates a.action) :
    Write (.bulk a cursor order) now s (bulkApply now a id j s).1 := by
  have hrule : ∀ new, a.action.rule j.lifecycle new →
      (Op.bulk a cursor order).rule id j.lifecycle new := fun _ h => h
  unfold bulkApply
  cases ha : a.action with
  | cancel =>
    rw [ha] at allowed hrule
    -- the states that the action selects are those its event is allowed from
    have hunfinished : j.state.isUnfinished = true := by
      simp only [bulkActionStates, List.mem_cons, List.not_mem_nil, or_false] at allowed
      rcases allowed with h | h | h <;> rw [h] <;> rfl
    exact .cancel id j row hunfinished (hrule _ (fires_cancel hunfinished))
  | retry =>
    rw [ha] at allowed hrule
    have hretriable : State.isRetriable j.state = true := by
      simp only [bulkActionStates, List.mem_cons, List.not_mem_nil, or_false] at allowed
      rcases allowed with h | h <;> rw [h] <;> rfl
    have hwrite : Write (.bulk a cursor order) now s (doRetry now id j s).1 :=
      .retry id j row hretriable (hrule _ (fires_retry hretriable))
    dsimp only
    split
    · rename_i hr
      rw [hr] at hwrite
      exact hwrite
    · rename_i hr
      rw [hr] at hwrite
      exact hwrite
  | delete =>
    rw [ha] at allowed hrule
    have hidle : j.state ≠ .running := by
      intro hrun
      rw [hrun] at allowed
      simp [bulkActionStates] at allowed
    exact .delete id j row hidle (hrule _ ⟨hidle, rfl⟩)

private theorem bulkOne_writes {st : State} (allowed : st ∈ bulkActionStates a.action) (b : BulkRun)
    (id : String) : Writes (.bulk a cursor order) now b.store (bulkOne now a st b id).store := by
  unfold bulkOne
  split
  · exact .refl _
  · cases row : b.store.job? id with
    | none => exact .refl _
    | some j =>
      dsimp only
      split
      · rename_i hmatch
        -- the row is read again: it may have left the state since the listing
        have hst : j.state = st := by
          simp only [bulkMatches, Bool.and_eq_true, decide_eq_true_eq] at hmatch
          exact hmatch.1.1.1
        have happlied : Write (.bulk a cursor order) now b.store (bulkApply now a id j b.store).1 :=
          bulkApply_write row (hst ▸ allowed)
        split
        · rename_i happ
          rw [happ] at happlied
          exact .one happlied
        · rename_i happ
          rw [happ] at happlied
          exact .one happlied
      · exact .refl _

private theorem bulkLoop_writes (queues : List String) (fuel : Nat) (b : BulkRun) :
    Writes (.bulk a cursor order) now b.store (bulkLoop now a queues fuel b).store := by
  induction fuel generalizing b with
  | zero => exact .refl _
  | succ n ih =>
    unfold bulkLoop
    split
    · split
      · rename_i q st hq hst
        -- the loop goes over queues and states in turn; the fuel bounds the calls
        have hallowed := (List.mem_filter.mp (List.mem_of_getElem? hst)).1
        have hids : ∀ ids : List String, Writes (.bulk a cursor order) now b.store
            (ids.foldl (bulkOne now a st) b).store :=
          fun ids => .foldl_of BulkRun.store (bulkOne_writes hallowed) ids b
        dsimp only
        split
        · exact ih { b with cursor := nextZset a b.cursor }
        · split
          · exact hids _
          · exact .trans (hids _) (ih _)
      · exact .refl _
    · exact .refl _

end

/-! ## Section 6: Every plain call -/

/-- **The cut.**  A plain call is a sequence of writes. -/
theorem step_writes (s : Store) (c : Call) (h : c.op.isPlain) :
    Writes c.op c.now s (step s c) := by
  obtain ⟨now, op⟩ := c
  cases op with
  | enqueue batch => exact enqueue_writes now batch s
  | admission | quarantineRelease => exact h.elim
  | ack ref args => exact ack_writes now ref args s
  | renew refs leaseMs => exact .foldl (renewOne_writes leaseMs) refs s
  | checkpoint ref | output ref | progress ref => exact fencedWrite_writes ref s fun _ => rfl
  | reclaim limit crashLimit base cap =>
    exact .foldl (reclaimOne_writes limit crashLimit base cap) _ s
  | promote limit => exact .foldl (promoteOne_writes limit) _ s
  | operatorCancel id => exact operatorCancel_writes id s
  | operatorRetry id => exact operatorRetry_writes id s
  | deleteJob id => exact deleteJob_writes id s
  | promoteJob id => exact promoteJob_writes id s
  | schedulePendingJob id atMs => exact schedulePendingJob_writes id atMs s
  | rescheduleJob id atMs => exact rescheduleJob_writes id atMs s
  | editPayload id payload sv fp => exact editPayload_writes id payload sv fp s
  | quarantineSweep limit order => exact quarantineSweep_writes limit order s
  | evict limit => exact .foldl (evictOne_writes limit) _ s
  | bulk args cursor => exact bulkLoop_writes _ _ ⟨s, cursor, 0, args.batch * 10⟩
  | upsertRateClass =>
    simp only [step]
    split
    · exact .one (.policy _ rfl rfl (fun _ => rfl) fun h => h.elim)
    · exact .refl s
  | upsertConcurrencyLimit =>
    simp only [step]
    split
    · exact .one (.policy _ rfl rfl (fun _ => rfl) fun _ => rfl)
    · exact .refl s
  | setEnqueueLimit => exact .one (.policy _ rfl rfl (fun h => (h trivial).elim) fun _ => rfl)
  | setQueueWeight =>
    simp only [step]
    split
    · exact .refl s
    · exact .one (.policy _ rfl rfl (fun _ => rfl) fun _ => rfl)
  -- the queue's settings go, or new jobs are shut out while old ones are left; deficits and
  -- buckets stay
  | deleteQueue queue force =>
    have hkept : (deleteQueue queue force s.policy).quarantine = s.policy.quarantine ∧
        (deleteQueue queue force s.policy).deficit = s.policy.deficit ∧
        (deleteQueue queue force s.policy).rate = s.policy.rate := by
      unfold deleteQueue
      dsimp only
      split
      · exact ⟨rfl, rfl, rfl⟩
      · split
        · exact ⟨rfl, rfl, rfl⟩
        · exact ⟨rfl, rfl, rfl⟩
    exact .one (.policy _ hkept.1 hkept.2.1 (fun h => (h trivial).elim) fun _ => hkept.2.2)
  | setQueuePaused => exact .one (.policy _ rfl rfl (fun _ => rfl) fun _ => rfl)

end Headgate.Redis
