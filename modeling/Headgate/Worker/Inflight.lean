import Headgate.Data.Run

/-!
# The in-flight table of a worker

A worker starts a handler for every claim it is given and keeps a table of them.  A heartbeat
renews the leases of the table and cancels the handlers of the jobs that the store reports as
lost; the room for new claims is the capacity less the size of the table.  The store reports job
ids.  The Rust worker keys its table by task: it drops every entry of a reported job, while the
cancelled handler runs on to its next await point.  The Go worker keys it by job id: a second
attempt replaces the entry of the first, and a handler that ends deletes the entry of its job,
whoever it belongs to.

Main results:

* `inflight_per_attempt` - handlers whose lease is honoured stay in the table and are not
  cancelled, if no claim is taken up while the worker still has an earlier attempt of its job;
* `running_le_capacity` - no more handlers run than the capacity, if the Rust worker admits nothing
  while a cancelled handler still runs, and the Go worker no job of which it still has an attempt.
-/

namespace Headgate.Worker

open Data

/-! ## Section 1: The worker -/

inductive Runtime where
  | rust
  | go
  deriving DecidableEq, Repr

/-- The lease of one attempt; `seq` numbers the admissions of the worker. -/
structure Lease where
  jobId : String
  seq : Nat
  fence : Nat
  deriving DecidableEq, Repr

/-- The two attempts have one key in the table: Rust keys it by task, Go by job id. -/
def Runtime.sameKey : Runtime → Lease → Lease → Bool
  | .rust, l, l' => l = l'
  | .go, l, l' => l.jobId = l'.jobId

structure Inflight where
  lease : Lease
  lost : Bool
  deriving DecidableEq, Repr

/-- The worker, and what the store holds for it. -/
structure Runner where
  /-- the leases of this worker that the store honours -/
  held : String → Option Lease
  /-- claims of the last admission that are still to be taken up -/
  admitted : List Lease
  inflight : List Inflight
  /-- handlers that have started and not ended -/
  running : List Lease
  /-- handlers that have ended and are still to be cleaned up -/
  ended : List Lease
  /-- the answer to a heartbeat that was not acted upon yet -/
  lost : Option (List String)
  /-- handlers that a heartbeat has told to stop -/
  cancelled : List Lease
  seq : Nat

def Runner.init : Runner := ⟨fun _ => none, [], [], [], [], none, [], 0⟩

inductive Event where
  /-- the store's answer to an admission: job ids and fences -/
  | admission (claims : List (String × Nat))
  | takeUp
  /-- the lease of a job ends: acknowledged, reclaimed, cancelled or displaced -/
  | lose (job : String)
  | renew
  | actOnLost
  | ends (lease : Lease)
  | cleanUp (lease : Lease)
  deriving DecidableEq, Repr

/-- The loop waits for its next event. -/
def Runner.idle (w : Runner) : Prop := w.admitted = [] ∧ w.lost = none

instance (w : Runner) : Decidable w.idle := inferInstanceAs (Decidable (_ ∧ _))

/-- The leases of an admission. -/
def leasesOf (seq : Nat) (claims : List (String × Nat)) : List Lease :=
  claims.map fun c => ⟨c.1, seq, c.2⟩

/-- `admit_once`: claims for the free places, of jobs that have no lease. -/
def admitOnce (capacity : Nat) (claims : List (String × Nat)) (w : Runner) : Runner :=
  if w.idle ∧ w.inflight.length < capacity ∧ claims.length ≤ capacity - w.inflight.length ∧
      (claims.map Prod.fst).Nodup ∧ ∀ c ∈ claims, w.held c.1 = none then
    { w with
      held := fun job => ((leasesOf (w.seq + 1) claims).find? (·.jobId = job)).or (w.held job)
      admitted := leasesOf (w.seq + 1) claims
      seq := w.seq + 1 }
  else w

/-- The next claim enters the table and its handler starts. -/
def takeUp (runtime : Runtime) (w : Runner) : Runner :=
  match w.lost, w.admitted with
  | none, l :: rest =>
    { w with
      admitted := rest
      inflight := ⟨l, false⟩ :: w.inflight.filter fun e => !runtime.sameKey e.lease l
      running := l :: w.running }
  | _, _ => w

/-- A heartbeat sends the leases of the table; the store answers with the ids of those it does
not honour. -/
def renew (w : Runner) : Runner :=
  if w.idle then
    { w with lost := some ((w.inflight.filter fun e =>
        !e.lost && w.held e.lease.jobId ≠ some e.lease).map fun e => e.lease.jobId) }
  else w

/-- The heartbeat cancels the handlers of the reported jobs. -/
def actOnLost (runtime : Runtime) (w : Runner) : Runner :=
  match w.lost with
  | none => w
  | some ids =>
    { w with
      lost := none
      cancelled := (w.inflight.filter fun e => e.lease.jobId ∈ ids).map Inflight.lease ++ w.cancelled
      inflight := match runtime with
        | .rust => w.inflight.filter fun e => e.lease.jobId ∉ ids
        | .go => w.inflight.map fun e => if e.lease.jobId ∈ ids then { e with lost := true } else e }

/-- `finish_task` in the loop, or the end of the goroutine. -/
def cleanUp (runtime : Runtime) (l : Lease) (w : Runner) : Runner :=
  if l ∈ w.ended ∧ (runtime = .rust → w.idle) then
    { w with
      ended := w.ended.erase l
      inflight := w.inflight.filter fun e => !runtime.sameKey e.lease l }
  else w

def step (runtime : Runtime) (capacity : Nat) (w : Runner) : Event → Runner
  | .admission claims => admitOnce capacity claims w
  | .takeUp => takeUp runtime w
  | .lose job => { w with held := Function.update w.held job none }
  | .renew => renew w
  | .actOnLost => actOnLost runtime w
  | .ends l =>
    if l ∈ w.running then { w with running := w.running.erase l, ended := l :: w.ended } else w
  | .cleanUp l => cleanUp runtime l w

variable {runtime : Runtime} {capacity : Nat} {w : Runner}

section
variable {e : Inflight} {l l' : Lease}

theorem sameKey_self : runtime.sameKey l l = true := by
  cases runtime <;> simp [Runtime.sameKey]

theorem sameKey_comm : runtime.sameKey l l' = runtime.sameKey l' l := by
  cases runtime <;> simp [Runtime.sameKey, eq_comm]

theorem sameKey_of_jobId_ne (h : l.jobId ≠ l'.jobId) : runtime.sameKey l l' = false := by
  cases runtime with
  | rust => simpa [Runtime.sameKey] using mt (congrArg _) h
  | go => simpa [Runtime.sameKey] using h

/-- Attempts of different jobs have different keys in either table. -/
theorem sameKey_of_go (h : Runtime.go.sameKey l l' = false) : runtime.sameKey l l' = false :=
  sameKey_of_jobId_ne (by simpa [Runtime.sameKey] using h)

theorem mem_others (he : e ∈ w.inflight) (hkey : runtime.sameKey e.lease l = false) :
    e ∈ w.inflight.filter fun e => !runtime.sameKey e.lease l :=
  List.mem_filter.mpr ⟨he, by simp [hkey]⟩

/-- A heartbeat of the Go worker marks entries and keeps their leases. -/
theorem map_lease_mark (ids : List String) :
    (w.inflight.map fun e => if e.lease.jobId ∈ ids then { e with lost := true } else e).map
      Inflight.lease = w.inflight.map Inflight.lease := by
  rw [List.map_map]
  apply List.map_congr_left
  intro e _
  dsimp only [Function.comp]
  split <;> rfl

end

/-! ## Section 2: One attempt of a job at a time -/

/-- The handlers that the heartbeat is going to cancel. -/
def Runner.cancels (w : Runner) : List Inflight :=
  w.inflight.filter fun e => e.lease.jobId ∈ w.lost.getD []

/-- A running handler whose lease is honoured is in the table for the next heartbeat, and a
heartbeat cancels no handler whose own lease is honoured. -/
def PerAttempt (w : Runner) : Prop :=
  (∀ l ∈ w.running, w.held l.jobId = some l → ⟨l, false⟩ ∈ w.inflight) ∧
    ∀ e ∈ w.cancels, w.held e.lease.jobId ≠ some e.lease

instance (w : Runner) : Decidable (PerAttempt w) := inferInstanceAs (Decidable (_ ∧ _))

/-- No claim is for a job of which the worker still has an attempt. -/
def Apart (w : Runner) : Event → Prop
  | .admission claims =>
    ∀ c ∈ claims, ∀ l ∈ w.inflight.map Inflight.lease ++ (w.running ++ w.ended),
      l.jobId ≠ c.1
  | _ => True

instance (w : Runner) (e : Event) : Decidable (Apart w e) := by
  cases e <;> unfold Apart <;> infer_instance

/-- The attempts of the worker are numbered by admissions and have different keys. -/
structure Attempts (key : Runtime) (w : Runner) : Prop where
  numbered : ∀ l ∈ w.running ++ w.ended ++ w.admitted, l.seq ≤ w.seq
  apart : (w.running ++ w.ended ++ w.admitted).Pairwise fun l l' => key.sameKey l l' = false

section
variable {key : Runtime} (h : Attempts key w)
include h

theorem Attempts.others {l l' : Lease} (hl : l ∈ w.running) (hl' : l' ∈ w.ended ++ w.admitted) :
    key.sameKey l l' = false := by
  have happend := h.apart
  rw [List.append_assoc] at happend
  exact (List.pairwise_append.mp happend).2.2 l hl l' hl'

/-- The same attempts in another order, or some of them. -/
theorem Attempts.of_subperm {w' : Runner} (hseq : w'.seq = w.seq)
    (hsub : (w'.running ++ w'.ended ++ w'.admitted).Subperm (w.running ++ w.ended ++ w.admitted)) :
    Attempts key w' := by
  obtain ⟨ls, hperm, hsub⟩ := hsub
  refine ⟨fun l hl => hseq ▸ h.numbered l (hsub.subset (hperm.mem_iff.mpr hl)), ?_⟩
  exact (hperm.pairwise_iff fun hkey => sameKey_comm ▸ hkey).mp (h.apart.sublist hsub)

theorem Attempts.admitOnce {claims : List (String × Nat)}
    (hapart : key = .go → Apart w (.admission claims)) :
    Attempts key (admitOnce capacity claims w) := by
  unfold Worker.admitOnce
  split
  · rename_i hguard
    obtain ⟨-, -, -, hjobs, -⟩ := hguard
    have happend := List.pairwise_append.mp h.apart
    refine ⟨fun l hl => ?_, List.pairwise_append.mpr ⟨happend.1, ?_, fun l hl l' hl' => ?_⟩⟩
    · rcases List.mem_append.mp hl with hl | hl
      · exact (h.numbered l (List.mem_append_left _ hl)).trans (Nat.le_succ _)
      · obtain ⟨c, -, rfl⟩ := List.mem_map.mp hl
        exact le_rfl
    · rw [List.Nodup, List.pairwise_map] at hjobs
      exact List.pairwise_map.mpr (hjobs.imp fun hjob => sameKey_of_jobId_ne hjob)
    · obtain ⟨c, hc, rfl⟩ := List.mem_map.mp hl'
      cases key with
      | rust =>
        -- the numbers of the admissions tell the tasks apart
        refine decide_eq_false fun hsame => ?_
        have hseq := h.numbered l (List.mem_append_left _ hl)
        rw [hsame] at hseq
        exact absurd hseq (Nat.not_succ_le_self w.seq)
      | go => exact sameKey_of_jobId_ne (hapart rfl c hc l (List.mem_append_right _ hl))
  · exact h

theorem step_attempts (e : Event) (hapart : key = .go → Apart w e) :
    Attempts key (step runtime capacity w e) := by
  cases e with
  | admission => exact h.admitOnce hapart
  -- a lease moves from the admitted ones to the running ones
  | takeUp =>
    dsimp only [step, takeUp]
    split
    · rename_i l rest _ hadmitted
      refine h.of_subperm rfl ?_
      rw [hadmitted, List.append_assoc, List.cons_append, ← List.append_assoc]
      exact List.perm_middle.symm.subperm
    · exact h
  | lose => exact ⟨h.numbered, h.apart⟩
  | renew =>
    dsimp only [step, renew]
    split
    · exact ⟨h.numbered, h.apart⟩
    · exact h
  | actOnLost =>
    dsimp only [step, actOnLost]
    split
    · exact h
    · exact ⟨h.numbered, h.apart⟩
  -- an ended run stays on the books until it is cleaned up
  | ends l =>
    dsimp only [step]
    split
    · rename_i hl
      have hperm : (w.running.erase l ++ l :: w.ended).Perm (w.running ++ w.ended) :=
        List.perm_middle.trans ((List.perm_cons_erase hl).symm.append_right _)
      exact h.of_subperm rfl (hperm.append_right w.admitted).subperm
    · exact h
  | cleanUp l =>
    dsimp only [step, cleanUp]
    split
    · exact h.of_subperm rfl ((List.erase_sublist.append_left _).append_right _).subperm
    · exact h

end

/-- The table has one entry for a job, also counting the claims to be taken up. -/
structure Tracked (w : Runner) : Prop where
  kept : PerAttempt w
  entries : ((w.inflight.map Inflight.lease ++ w.admitted).map Lease.jobId).Nodup

/-- Without an answer to act upon nothing is cancelled. -/
theorem cancels_none (hlost : w.lost = none) :
    ∀ e ∈ w.cancels, w.held e.lease.jobId ≠ some e.lease := by
  simp [Runner.cancels, hlost]

section
variable (h : Tracked w) (hattempts : Attempts .go w)
include h

theorem Tracked.admitOnce {claims : List (String × Nat)}
    (hapart : Apart w (.admission claims)) : Tracked (admitOnce capacity claims w) := by
  unfold Worker.admitOnce
  split
  · rename_i hguard
    obtain ⟨⟨hnone, hlost⟩, -, -, hjobs, -⟩ := hguard
    have hentries := h.entries
    rw [hnone, List.append_nil] at hentries
    refine ⟨⟨fun l hl hheld => h.kept.1 l hl ?_, cancels_none hlost⟩, ?_⟩
    · -- the new leases are of jobs that do not run here
      have hfind : (leasesOf (w.seq + 1) claims).find? (·.jobId = l.jobId) = none := by
        apply List.find?_eq_none.mpr
        intro l' hl' hjob
        obtain ⟨c, hc, rfl⟩ := List.mem_map.mp hl'
        exact hapart c hc l (by simp [hl]) (of_decide_eq_true hjob).symm
      dsimp only at hheld
      rwa [hfind, Option.none_or] at hheld
    · -- the new leases are of other jobs than the entries so far
      rw [List.map_append]
      refine List.nodup_append.mpr ⟨hentries, by simpa [leasesOf, Function.comp_def] using hjobs, ?_⟩
      rintro job hold _ hnew rfl
      obtain ⟨l, hl, rfl⟩ := List.mem_map.mp hold
      obtain ⟨l', hl', hsame⟩ := List.mem_map.mp hnew
      obtain ⟨c, hc, rfl⟩ := List.mem_map.mp hl'
      exact hapart c hc l (List.mem_append_left _ hl) hsame.symm
  · exact h

include hattempts in
theorem Tracked.takeUp : Tracked (takeUp runtime w) := by
  unfold Worker.takeUp
  split
  · rename_i l rest hlost hadmitted
    have hentries := h.entries
    rw [hadmitted] at hentries
    refine ⟨⟨fun l' hl' hheld => ?_, cancels_none hlost⟩, ?_⟩
    · -- the entry under the key is overwritten; those of other keys stay
      rcases List.mem_cons.mp hl' with rfl | hold
      · exact List.mem_cons_self
      · apply List.mem_cons_of_mem
        refine mem_others (h.kept.1 l' hold hheld) (sameKey_of_go (hattempts.others hold ?_))
        rw [hadmitted]
        exact List.mem_append_right _ List.mem_cons_self
    · have hperm : ∀ {ls : List Lease}, (l :: ls ++ rest).Perm (ls ++ l :: rest) :=
        List.perm_middle.symm
      refine List.Nodup.sublist (List.Sublist.map _ ?_) ((hperm.map _).nodup_iff.mpr hentries)
      exact List.Sublist.append_right (List.Sublist.cons_cons l (List.filter_sublist.map _)) rest
  · exact h

theorem Tracked.renew : Tracked (renew w) := by
  unfold Worker.renew
  split
  · refine ⟨⟨h.kept.1, fun e he => ?_⟩, h.entries⟩
    obtain ⟨he, hid⟩ := List.mem_filter.mp he
    obtain ⟨e', he', hjob⟩ := List.mem_map.mp (of_decide_eq_true hid)
    obtain ⟨he', hlost⟩ := List.mem_filter.mp he'
    -- the table has one entry of the job, so the answer is about this one
    have hentries := h.entries
    rw [List.map_append, List.map_map] at hentries
    rw [← List.inj_on_of_nodup_map hentries.of_append_left he' he hjob]
    simp only [Bool.and_eq_true, decide_eq_true_eq] at hlost
    exact hlost.2
  · exact h

theorem Tracked.actOnLost : Tracked (actOnLost runtime w) := by
  unfold Worker.actOnLost
  split
  · exact h
  · rename_i ids hlost
    refine ⟨⟨fun l hl hheld => ?_, cancels_none rfl⟩, ?_⟩
    · have hin := h.kept.1 l hl hheld
      -- a lost lease is no longer held, and this one is
      have hout : l.jobId ∉ ids := by
        intro hid
        refine h.kept.2 ⟨l, false⟩ (List.mem_filter.mpr ⟨hin, ?_⟩) hheld
        simpa [hlost] using hid
      cases runtime with
      | rust => exact List.mem_filter.mpr ⟨hin, decide_eq_true hout⟩
      | go => exact List.mem_map.mpr ⟨_, hin, if_neg hout⟩
    · cases runtime with
      | rust =>
        exact h.entries.sublist (((List.filter_sublist.map _).append_right _).map _)
      | go =>
        rw [map_lease_mark]
        exact h.entries

include hattempts in
theorem Tracked.cleanUp (l : Lease) : Tracked (cleanUp runtime l w) := by
  unfold Worker.cleanUp
  split
  · rename_i hguard
    refine ⟨⟨fun l' hl' hheld => ?_, fun e he => ?_⟩, ?_⟩
    · exact mem_others (h.kept.1 l' hl' hheld)
        (sameKey_of_go (hattempts.others hl' (List.mem_append_left _ hguard.1)))
    · exact h.kept.2 e ((List.filter_sublist.filter _).subset he)
    · exact h.entries.sublist (((List.filter_sublist.map _).append_right _).map _)
  · exact h

include hattempts in
theorem step_tracked (e : Event) (hapart : Apart w e) : Tracked (step runtime capacity w e) := by
  cases e with
  | admission => exact h.admitOnce hapart
  | takeUp => exact h.takeUp hattempts
  | lose job =>
    -- what is honoured afterwards was honoured before
    have hheld : ∀ {x l}, Function.update w.held job none x = some l → w.held x = some l := by
      intro x l hx
      by_cases hjob : x = job
      · subst hjob
        rw [Function.update_self] at hx
        cases hx
      · rwa [Function.update_of_ne hjob] at hx
    exact ⟨⟨fun l hl hl' => h.kept.1 l hl (hheld hl'), fun e he hl => h.kept.2 e he (hheld hl)⟩,
      h.entries⟩
  | renew => exact h.renew
  | actOnLost => exact h.actOnLost
  | ends =>
    dsimp only [step]
    split
    · exact ⟨⟨fun l hl => h.kept.1 l (List.mem_of_mem_erase hl), h.kept.2⟩, h.entries⟩
    · exact h
  | cleanUp l => exact h.cleanUp hattempts l

end

theorem init_attempts {key : Runtime} : Attempts key Runner.init := ⟨List.forall_mem_nil _, .nil⟩

/-- **Bookkeeping per attempt.**  In a run that admits no job of which the worker still has an
attempt, in the table, running or not cleaned up, every running handler whose lease is honoured is
in the table and heartbeats cancel other handlers only. -/
theorem inflight_per_attempt (runtime : Runtime) (capacity : Nat) (events : List Event)
    (h : EachStep (step runtime capacity) Apart Runner.init events) :
    PerAttempt (run (step runtime capacity) Runner.init events) := by
  have hinit : Tracked Runner.init :=
    ⟨⟨List.forall_mem_nil _, List.forall_mem_nil _⟩, List.nodup_nil⟩
  refine (run_invariant (fun w => Attempts .go w ∧ Tracked w) (fun w e hapart hw => ?_)
    ⟨init_attempts, hinit⟩ h).2.kept
  exact ⟨step_attempts hw.1 e fun _ => hapart, step_tracked hw.2 hw.1 e hapart⟩

/-- One attempt of a job, and another one after its lease was lost. -/
def twoAttempts : List Event :=
  [.admission [("j", 1)], .takeUp, .lose "j", .admission [("j", 2)], .takeUp]

/-- A heartbeat that finds the lease lost cancels the handler; the next attempt waits for it. -/
theorem inflight_per_attempt_lost :
    PerAttempt (run (step .rust 1) Runner.init [.admission [("j", 1)], .takeUp, .lose "j", .renew,
      .actOnLost, .ends ⟨"j", 1, 1⟩, .cleanUp ⟨"j", 1, 1⟩, .admission [("j", 2)], .takeUp]) :=
  inflight_per_attempt .rust 1 _ (by decide +kernel)

/-- The Rust heartbeat is told of the first attempt and cancels the second one too; the end of the
first attempt in Go takes the second one out of the table. -/
theorem newer_attempt_disturbed :
    ¬ PerAttempt (run (step .rust 2) Runner.init (twoAttempts ++ [.renew])) ∧
    ¬ PerAttempt (run (step .go 2) Runner.init
      (twoAttempts ++ [.ends ⟨"j", 1, 1⟩, .cleanUp ⟨"j", 1, 1⟩])) := by
  decide +kernel

/-! ## Section 3: The capacity -/

/-- A claim is taken only when the handlers before it have stopped: in Rust those that a heartbeat
cancelled, in Go the earlier attempts of its job. -/
def AfterStop (runtime : Runtime) (w : Runner) : Event → Prop
  | .admission claims =>
    match runtime with
    | .rust => ∀ l ∈ w.running, l ∉ w.cancelled
    | .go => Apart w (.admission claims)
  | _ => True

instance (w : Runner) (e : Event) : Decidable (AfterStop runtime w e) := by
  cases e <;> cases runtime <;> unfold AfterStop <;> infer_instance

/-- A running handler has its place in the table unless the Rust heartbeat has cancelled it. -/
structure Seated (runtime : Runtime) (capacity : Nat) (w : Runner) : Prop where
  seats : ∀ l ∈ w.running, l ∈ w.inflight.map Inflight.lease ∨ runtime = .rust ∧ l ∈ w.cancelled
  room : w.running.length + w.admitted.length ≤ capacity

section
variable (h : Seated runtime capacity w) (hattempts : Attempts runtime w)
include h

include hattempts in
/-- The entries of another key are left alone. -/
theorem Seated.seat {l l' : Lease} (hl : l ∈ w.running) (hl' : l' ∈ w.ended ++ w.admitted) :
    l ∈ (w.inflight.filter fun e => !runtime.sameKey e.lease l').map Inflight.lease ∨
      runtime = .rust ∧ l ∈ w.cancelled := by
  refine (h.seats l hl).imp_left fun hin => ?_
  obtain ⟨e, he, rfl⟩ := List.mem_map.mp hin
  exact List.mem_map_of_mem (mem_others he (hattempts.others hl hl'))

include hattempts in
/-- At an admission each running handler has a place of its own in the table. -/
theorem Seated.running_le {claims : List (String × Nat)}
    (hstop : AfterStop runtime w (.admission claims)) : w.running.length ≤ w.inflight.length := by
  have hsub : w.running ⊆ w.inflight.map Inflight.lease := by
    intro l hl
    rcases h.seats l hl with hin | ⟨rfl, hcancelled⟩
    · exact hin
    · exact absurd hcancelled (hstop l hl)
  -- keys of running attempts are distinct, so no lease is counted twice
  have hnodup : w.running.Nodup := by
    have hrunning := hattempts.apart
    rw [List.append_assoc] at hrunning
    refine (List.pairwise_append.mp hrunning).1.imp ?_
    rintro l _ hkey rfl
    rw [sameKey_self] at hkey
    cases hkey
  simpa using (hnodup.subperm hsub).length_le

theorem Seated.actOnLost : Seated runtime capacity (actOnLost runtime w) := by
  unfold Worker.actOnLost
  split
  · exact h
  · rename_i ids _
    refine ⟨fun l hl => ?_, h.room⟩
    cases runtime with
    | rust =>
      rcases h.seats l hl with hin | ⟨-, hcancelled⟩
      · obtain ⟨e, he, rfl⟩ := List.mem_map.mp hin
        -- an entry is kept, or its handler is told to stop
        by_cases hid : e.lease.jobId ∈ ids
        · refine .inr ⟨rfl, List.mem_append_left _ (List.mem_map_of_mem ?_)⟩
          exact List.mem_filter.mpr ⟨he, decide_eq_true hid⟩
        · exact .inl (List.mem_map_of_mem (List.mem_filter.mpr ⟨he, decide_eq_true hid⟩))
      · exact .inr ⟨rfl, List.mem_append_right _ hcancelled⟩
    | go =>
      refine .inl ?_
      rw [map_lease_mark]
      exact (h.seats l hl).resolve_right fun hrust => by cases hrust.1

include hattempts in
theorem step_seated (e : Event) (hstop : AfterStop runtime w e) :
    Seated runtime capacity (step runtime capacity w e) := by
  have hroom := h.room
  cases e with
  | admission =>
    dsimp only [step, admitOnce]
    split
    · have hcount := h.running_le hattempts hstop
      refine ⟨h.seats, ?_⟩
      simp only [leasesOf, List.length_map]
      omega
    · exact h
  | takeUp =>
    dsimp only [step, takeUp]
    split
    · rename_i l rest _ hadmitted
      simp only [hadmitted, List.length_cons] at hroom
      refine ⟨fun l' hl' => ?_, by simp only [List.length_cons]; omega⟩
      rcases List.mem_cons.mp hl' with rfl | hold
      · exact .inl List.mem_cons_self
      · exact (h.seat hattempts hold (by simp [hadmitted])).imp_left (List.mem_cons_of_mem _)
    · exact h
  | lose => exact ⟨h.seats, h.room⟩
  | renew =>
    dsimp only [step, renew]
    split
    · exact ⟨h.seats, h.room⟩
    · exact h
  | actOnLost => exact h.actOnLost
  | ends l =>
    dsimp only [step]
    split
    · have hfewer : (w.running.erase l).length ≤ w.running.length := List.length_erase_le
      exact ⟨fun l' hl' => h.seats l' (List.mem_of_mem_erase hl'), by dsimp only; omega⟩
    · exact h
  | cleanUp l =>
    dsimp only [step, cleanUp]
    split
    · rename_i hguard
      exact ⟨fun l' hl' => h.seat hattempts hl' (List.mem_append_left _ hguard.1), h.room⟩
    · exact h

end

/-- **The capacity.**  In a run that takes claims only when the cancelled handlers (Rust) or the
earlier attempts of the job (Go) have stopped, never more handlers run than the capacity, cancelled
ones included. -/
theorem running_le_capacity (runtime : Runtime) (capacity : Nat) (events : List Event)
    (h : EachStep (step runtime capacity) (AfterStop runtime) Runner.init events) :
    (run (step runtime capacity) Runner.init events).running.length ≤ capacity := by
  have hinit : Seated runtime capacity Runner.init := ⟨List.forall_mem_nil _, Nat.zero_le _⟩
  have h := run_invariant (fun w => Attempts runtime w ∧ Seated runtime capacity w)
    (fun w e hstop hw => ⟨step_attempts hw.1 e fun hgo => ?_, step_seated hw.2 hw.1 e hstop⟩)
    ⟨init_attempts, hinit⟩ h
  · exact (Nat.le_add_right _ _).trans h.2.room
  · subst hgo
    cases e <;> exact hstop

/-- A lease is lost and its handler cancelled; the next claims wait until it has ended. -/
theorem running_le_capacity_lost :
    (run (step .rust 1) Runner.init [.admission [("j", 1)], .takeUp, .lose "j", .renew, .actOnLost,
      .ends ⟨"j", 1, 1⟩, .admission [("k", 1)], .takeUp]).running.length ≤ 1 ∧
    (run (step .go 2) Runner.init [.admission [("j", 1)], .takeUp, .lose "j", .renew, .actOnLost,
      .admission [("k", 1)], .takeUp, .ends ⟨"j", 1, 1⟩, .cleanUp ⟨"j", 1, 1⟩,
      .admission [("j", 2)], .takeUp]).running.length ≤ 2 :=
  ⟨running_le_capacity .rust 1 _ (by decide +kernel),
    running_le_capacity .go 2 _ (by decide +kernel)⟩

/-- A cancelled handler runs on in Rust while its place is given away, and in Go the second attempt
of a job hides the first. -/
theorem running_above_capacity :
    (run (step .rust 1) Runner.init [.admission [("j", 1)], .takeUp, .lose "j", .renew, .actOnLost,
      .admission [("k", 1)], .takeUp]).running.length = 2 ∧
    (run (step .go 2) Runner.init
      (twoAttempts ++ [.admission [("k", 1)], .takeUp])).running.length = 3 := by
  decide +kernel

end Headgate.Worker
