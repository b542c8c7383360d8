import Headgate.Redis.Admission

/-!
# Lease fencing over whole runs

The history of a run says which claim on a job is live: the newest one, until
the job is acked, reclaimed, cancelled, displaced or deleted.  The rows agree
with the history in every reachable store, so the guard that `ack`, `renew`,
`checkpoint`, `output` and `progress` evaluate on the row decides exactly that.

Claims and events are looked at job by job: `Beat` says what a move can do to one
job, and the invariant is kept beat by beat.
-/

namespace Headgate.Redis

open Headgate.Core Data Relation

variable {id l : String} {events h : List Event} {lease : Option String} {j : Job} {s s' : Store}
  {f : Nat} {c : Call} {calls : List Call} {ref : LeaseRef}

/-! ## Section 1: Live claims -/

/-- The claim on `id` that nothing has ended since, newest event first. -/
def liveClaim (id : String) : List Event → Option (String × Nat)
  | [] => none
  | .claimed x lease fence :: h => if x = id then some (lease, fence) else liveClaim id h
  | .acked x _ _ :: h | .reclaimed x :: h | .cancelled x :: h | .displaced x :: h
  | .deleted x :: h => if x = id then none else liveClaim id h
  | .charged _ _ _ :: h | .reconciled _ _ _ :: h => liveClaim id h

/-- The caller's triple names the live claim on its job. -/
def Live (h : List Event) (ref : LeaseRef) : Prop :=
  liveClaim ref.jobId h = some (ref.leaseId, ref.fence)

instance (h : List Event) (ref : LeaseRef) : Decidable (Live h ref) :=
  inferInstanceAs (Decidable (_ = _))

/-- A claim that was made and has been ended or replaced. -/
def Superseded (h : List Event) (id lease : String) (fence : Nat) : Prop :=
  .claimed id lease fence ∈ h ∧ liveClaim id h ≠ some (lease, fence)

/-- The event makes or acks no claim. -/
def Event.silent : Event → Prop
  | .claimed _ _ _ | .acked _ _ _ => False
  | _ => True

/-- The events about one job. -/
def about (id : String) (h : List Event) : List Event := h.filter fun e => e.job = some id

theorem mem_about {e : Event} (hjob : e.job = some id) : e ∈ about id h ↔ e ∈ h := by
  simp [about, hjob]

theorem about_eq_nil (hnone : ∀ e ∈ h, e.job ≠ some id) : about id h = [] :=
  List.filter_eq_nil_iff.mpr fun e he => by simpa using hnone e he

theorem about_eq_self (hall : ∀ e ∈ h, e.job = some id) : about id h = h :=
  List.filter_eq_self.mpr fun e he => by simpa using hall e he

theorem liveClaim_about (id : String) (h : List Event) :
    liveClaim id (about id h) = liveClaim id h := by
  induction h with
  | nil => rfl
  | cons e h ih =>
    by_cases hjob : e.job = some id
    · rw [about, List.filter_cons_of_pos (by simpa using hjob), ← about]
      cases e <;> simp_all [liveClaim, Event.job]
    · rw [about, List.filter_cons_of_neg (by simpa using hjob), ← about, ih]
      cases e <;> simp_all [liveClaim, Event.job]

/-- Events that make no claim leave the claim or end it. -/
theorem liveClaim_append_of_silent (silent : ∀ e ∈ events, e.silent) (id : String) (h : List Event) :
    liveClaim id (events ++ h) = liveClaim id h ∨ liveClaim id (events ++ h) = none := by
  induction events with
  | nil => exact .inl rfl
  | cons e events ih =>
    have hrest := ih fun e' he' => silent e' (by simp [he'])
    have hhead : e.silent := silent e (by simp)
    cases e <;> simp_all [liveClaim, Event.silent] <;> split <;> simp_all

/-- A live claim is in the history. -/
theorem claimed_mem_of_live {lease : String} {fence : Nat}
    (hlive : liveClaim id h = some (lease, fence)) : .claimed id lease fence ∈ h := by
  rw [← liveClaim_about] at hlive
  cases hown : about id h with
  | nil =>
    rw [hown] at hlive
    cases hlive
  | cons e rest =>
    -- the newest event about the job: only a claim leaves something live
    have hmem : e ∈ about id h := by
      rw [hown]
      exact List.mem_cons_self
    obtain ⟨hin, hjob⟩ := List.mem_filter.mp hmem
    rw [hown] at hlive
    cases e <;> simp_all [liveClaim, Event.job]

/-! ## Section 2: Claims on rows -/

/-- What the fence check compares: lease id and fence of a running job. -/
def Job.claim (j : Job) : Option (String × Nat) :=
  if j.state = .running then j.lease.map fun l => (l.leaseId, j.fence) else none

def Store.claim (s : Store) (id : String) : Option (String × Nat) := (s.job? id).bind Job.claim

theorem Job.claim_of_idle (h : j.state ≠ .running) : j.claim = none := if_neg h

theorem Job.claim_of_waiting (h : j.state.isWaiting = true) : j.claim = none :=
  Job.claim_of_idle fun hrun => by simp [hrun, State.isWaiting] at h

theorem Job.claim_of_mutable (h : State.isMutable j.state = true) : j.claim = none :=
  Job.claim_of_idle fun hrun => by simp [hrun, State.isMutable] at h

theorem Job.claim_of_terminal (h : j.state.isTerminal = true) : j.claim = none :=
  Job.claim_of_idle fun hrun => by simp [hrun, State.isTerminal] at h

theorem Job.claim_congr {j' : Job} (state : j'.state = j.state) (lease : j'.lease = j.lease)
    (fence : j'.fence = j.fence) : j'.claim = j.claim := by
  simp only [Job.claim, state, lease, fence]

theorem Job.heldBy_iff_claim (j : Job) (ref : LeaseRef) :
    j.heldBy ref = true ↔ j.claim = some (ref.leaseId, ref.fence) := by
  rw [Job.heldBy_iff, Job.claim]
  by_cases hrun : j.state = .running
  · cases j.lease <;> simp [hrun]
  · simp [hrun]

theorem Store.claim_eq (row : s.job? id = some j) :
    s.claim id = j.claim := by
  simp [Store.claim, row]

/-! ## Section 3: Moves as seen by one job -/

/-- What a move can do to one job, with the events about it; `lease` is the lease id the call may
write. -/
inductive Beat (lease : Option String) (id : String) (old new : Option Job) : List Event → Prop where
  /-- The claim stays; events come only where there is none. -/
  | keep {events : List Event} (silent : ∀ e ∈ events, e.silent)
      (free : events ≠ [] → old.bind Job.claim = none)
      (same : new.bind Job.claim = old.bind Job.claim) : Beat lease id old new events
  /-- The claim ends; an ack names it. -/
  | ended {e : Event} (about : e.job = some id)
      (acked : ∀ l f, e = .acked id l f → old.bind Job.claim = some (l, f))
      (other : ∀ l f, e ≠ .claimed id l f) (gone : new.bind Job.claim = none) :
      Beat lease id old new [e]
  | claimed (l : String) (f : Nat) (own : lease = some l)
      (waiting : ∃ j, old = some j ∧ j.state.isWaiting = true)
      (running : ∃ j, new = some j ∧ j.state.isWaiting = false)
      (made : new.bind Job.claim = some (l, f)) : Beat lease id old new [.claimed id l f]

/-- What a move can do to all jobs. -/
def ClaimMove (lease : Option String) (s s' : Store) : Prop :=
  ∀ id, ∃ events, about id s'.history = events ++ about id s.history ∧
    Beat lease id (s.job? id) (s'.job? id) events

section
variable {row : Option Job} {w : Waiting} {r : Running} {u : Holders}

/-- One row changes, and the events are about it or about none. -/
private theorem ClaimMove.of_effect (eff : Effect s s' id row w r u events)
    (hjob : ∀ e ∈ events, e.job = some id ∨ e.job = none)
    (beat : Beat lease id (s.job? id) row (about id events)) : ClaimMove lease s s' := by
  intro x
  have hrow := eff.rows x
  have hsplit : about x s'.history = about x events ++ about x s.history := by
    rw [eff.history, about, List.filter_append]
    rfl
  -- another job sees neither a changed row nor an event of its own
  by_cases hx : x = id
  · subst hx
    rw [if_pos rfl] at hrow
    exact ⟨_, hsplit, hrow ▸ beat⟩
  · have hnone : about x events = [] := about_eq_nil fun e he heq => by
      rcases hjob e he with h | h <;> rw [heq] at h <;> cases h
      exact hx rfl
    rw [if_neg hx] at hrow
    rw [hnone] at hsplit
    exact ⟨[], hsplit, .keep nofun (absurd rfl) (by rw [hrow])⟩

/-- The row changes without touching its claim, and the history gets rate events only. -/
private theorem ClaimMove.quiet {j' : Job} (hrow : s.job? id = some j)
    (eff : Effect s s' id (some j') w r u events) (rate : ∀ e ∈ events, e.job = none)
    (hclaim : j'.claim = j.claim) : ClaimMove lease s s' := by
  refine .of_effect eff (fun e he => .inr (rate e he)) ?_
  rw [about_eq_nil fun e he => by simp [rate e he], hrow]
  exact .keep nofun (absurd rfl) hclaim

/-- A job without claim before and after; the events are about it. -/
private theorem ClaimMove.idle (hbefore : s.claim id = none)
    (eff : Effect s s' id row w r u events) (silent : ∀ e ∈ events, e.silent)
    (about : ∀ e ∈ events, e.job = some id) (hafter : row.bind Job.claim = none) :
    ClaimMove lease s s' := by
  refine .of_effect eff (fun e he => .inl (about e he)) ?_
  rw [about_eq_self about]
  exact .keep silent (fun _ => hbefore) (hafter.trans hbefore.symm)

/-- A running row loses its claim with the one event that says why. -/
private theorem ClaimMove.over {e : Event} (hrow : s.job? id = some j)
    (eff : Effect s s' id row w r u [e]) (ends : e.ends id j) (hafter : row.bind Job.claim = none) :
    ClaimMove lease s s' := by
  have hjob : e.job = some id := by
    cases e <;> simp_all [Event.ends, Event.job]
  refine .of_effect eff (by simp [hjob]) ?_
  rw [about_eq_self (by simp [hjob]), hrow]
  -- an acknowledgement names the lease and the fence the row had
  refine .ended hjob (fun l f he => ?_) (fun l f he => ?_) hafter
  · subst he
    obtain ⟨-, hrun, hlease, hfence⟩ := ends
    obtain ⟨held, hheld, rfl⟩ := Option.map_eq_some_iff.mp hlease
    simp [Job.claim, hrun, hheld, hfence]
  · subst he
    exact ends

private theorem ClaimMove.still (jobs : s'.jobs = s.jobs) (history : s'.history = s.history) :
    ClaimMove lease s s' := by
  refine fun id => ⟨[], by rw [history]; rfl, .keep nofun (absurd rfl) ?_⟩
  simp only [Store.job?, jobs]

end

private theorem gone_claim {new : Option Job}
    (gone : ∀ j' ∈ new, j.SameRoute j' ∧ j'.state.isTerminal = true) :
    new.bind Job.claim = none := by
  cases new with
  | none => rfl
  | some j' => exact Job.claim_of_terminal (gone j' rfl).2

/-- A job found in a state other than running has no claim. -/
private theorem free_claim (row : s.job? id = some j) (hnone : j.claim = none) :
    s.claim id = none := (Store.claim_eq row).trans hnone

theorem Move.claimMove (lease : Option String) (m : Move s s') :
    ClaimMove lease s s' := by
  cases m with
  | arrive now e absent window free eff =>
    refine .idle (by simp [Store.claim, absent]) eff (by simp) (by simp) (Job.claim_of_idle ?_)
    show initialState now e ≠ .running
    unfold initialState
    split
    · simp
    · split <;> simp
  | rewrite id j j' events row eff rate route state lease' fence =>
    exact .quiet row eff rate (Job.claim_congr state lease' fence)
  | renew id j l expires row running lease' eff =>
    refine .quiet row eff (by simp) ?_
    simp [Job.claim, running, lease']
  | retime id j j' row idle eff route state =>
    exact .idle (free_claim row (Job.claim_of_mutable idle)) eff (by simp) (by simp)
      (Job.claim_of_waiting state)
  | flip id j j' row waiting eff route state =>
    exact .idle (free_claim row (Job.claim_of_waiting waiting)) eff (by simp) (by simp)
      (Job.claim_of_waiting state)
  | park id j new events row idle eff ends gone =>
    -- an unclaimed job is not acked
    have hidle : j.state ≠ .running := fun hrun => by simp [hrun, State.isMutable] at idle
    refine .idle (free_claim row (Job.claim_of_mutable idle)) eff (fun e he => ?_) (fun e he => ?_)
      (gone_claim gone)
    · have hend := ends e he
      cases e <;> simp_all [Event.ends, Event.silent]
    · have hend := ends e he
      cases e <;> simp_all [Event.ends, Event.job]
  | finish id j new e row running eff ends gone => exact .over row eff ends (gone_claim gone)
  | requeue id j j' e row running eff ends route state =>
    exact .over row eff ends (Job.claim_of_waiting state)
  | drop id j u row terminal eff =>
    exact .idle (free_claim row (Job.claim_of_terminal terminal)) eff (by simp [Event.silent])
      (by simp [Event.job]) rfl
  | retry id j j' row terminal eff route state =>
    exact .idle (free_claim row (Job.claim_of_terminal terminal)) eff (by simp) (by simp)
      (Job.claim_of_waiting (by rw [state]; rfl))
  | stray id idle jobs waiting running holders history
  | policy jobs waiting running holders history => exact .still jobs history

theorem ReleaseMove.claimMove (lease : Option String) (m : ReleaseMove s s') :
    ClaimMove lease s s' := by
  cases m with
  | plain m => exact m.claimMove lease
  | release id j j' row quarantined eff route state =>
    exact .idle (free_claim row (Job.claim_of_terminal (by rw [quarantined]; rfl))) eff (by simp)
      (by simp) (Job.claim_of_waiting (by rw [state]; rfl))

theorem GateMove.claimMove {lease : String} (m : GateMove lease s s') :
    ClaimMove (some lease) s s' := by
  cases m with
  | plain m => exact m.claimMove (some lease)
  | claim id j j' l events row waiting eff rate route state leased own fence =>
    have hclaim : j'.claim = some (lease, j.fence + 1) := by
      simp [Job.claim, state, leased, own, fence]
    refine .of_effect eff (fun e he => ?_) ?_
    · rcases List.mem_append.mp he with he | he
      · exact .inr (rate e he)
      · rw [List.mem_singleton.mp he]
        exact .inl rfl
    · have hown : about id (events ++ [.claimed id l.leaseId (j.fence + 1)]) =
          [.claimed id lease (j.fence + 1)] := by
        rw [about, List.filter_append, ← about, about_eq_nil fun e he => by simp [rate e he], own]
        simp [Event.job]
      rw [hown, row]
      exact .claimed lease (j.fence + 1) rfl ⟨j, rfl, waiting⟩ ⟨j', rfl, by rw [state]; rfl⟩ hclaim
  | tidy id queue part sticky absent jobs waiting running holders history =>
    exact .still jobs history
  | heal key jobs waiting running holders history
  | enlist runningp jobs waiting running holders history => exact .still jobs history

/-! ## Section 4: The rows agree with the history -/

/-- The fencing invariant, for one job and the events about it. -/
structure FencedAt (id : String) (claim : Option (String × Nat)) (h : List Event) : Prop where
  /-- The claim on the row is the live one. -/
  live : claim = liveClaim id h
  /-- An acked claim is over. -/
  acked : ∀ l f, .acked id l f ∈ h → Superseded h id l f
  /-- No claim is acked twice. -/
  once : ∀ l f, h.count (.acked id l f) ≤ 1

def Fenced (s : Store) : Prop := ∀ id, FencedAt id (s.claim id) (about id s.history)

theorem fenced_init : Fenced Store.init := fun id =>
  ⟨by simp [Store.claim, liveClaim, about, Store.init, Store.job?],
    fun _ _ h => (List.not_mem_nil h).elim, fun _ _ => Nat.zero_le 1⟩

theorem Fenced.live (h : Fenced s) (id : String) : s.claim id = liveClaim id s.history :=
  (h id).live.trans (liveClaim_about id s.history)

theorem superseded_about : Superseded (about id h) id l f ↔ Superseded h id l f := by
  rw [Superseded, Superseded, mem_about rfl, liveClaim_about]

/-- No claim under the call's lease id is on a job that still waits. -/
def Unclaimed (lease : Option String) (s : Store) : Prop :=
  ∀ l ∈ lease, ∀ id f, .claimed id l f ∈ s.history →
    ∃ j, s.job? id = some j ∧ j.state.isWaiting = false

namespace Beat

variable {old new : Option Job} (b : Beat lease id old new events)
include b

/-- An ack comes alone and names the claim. -/
theorem acks (hmem : .acked id l f ∈ events) :
    events = [.acked id l f] ∧ old.bind Job.claim = some (l, f) := by
  cases b with
  | keep silent => exact (silent _ hmem).elim
  | ended _ acked =>
    cases List.mem_singleton.mp hmem
    exact ⟨rfl, acked l f rfl⟩
  | claimed => cases List.mem_singleton.mp hmem

/-- A claim is the call's own. -/
theorem claims (hmem : .claimed id l f ∈ events) :
    lease = some l ∧ ∃ j, new = some j ∧ j.state.isWaiting = false := by
  cases b with
  | keep silent => exact (silent _ hmem).elim
  | ended _ _ other => exact absurd (List.mem_singleton.mp hmem).symm (other l f)
  | claimed _ _ own _ running =>
    cases List.mem_singleton.mp hmem
    exact ⟨own, running⟩

/-- Row and events change together. -/
theorem live (hs : old.bind Job.claim = liveClaim id h) :
    new.bind Job.claim = liveClaim id (events ++ h) := by
  cases b with
  -- no claim among the events: they end one at most, and then the row had none
  | keep silent free same =>
    rw [same]
    by_cases hnil : events = []
    · rw [hnil]
      exact hs
    · rcases liveClaim_append_of_silent silent id h with heq | heq
      · rw [heq, hs]
      · rw [heq, free hnil]
  | @ended e about acked other gone =>
    rw [gone]
    cases e <;> simp_all [liveClaim, Event.job]
  | claimed _ _ _ _ _ made => simp [made, liveClaim]

section
variable (hfresh : ∀ l ∈ lease, ∀ f, .claimed id l f ∈ h →
  ∃ j, old = some j ∧ j.state.isWaiting = false)
include hfresh

/-- What is over stays over, when a lease id is not reused on the job. -/
theorem superseded (hdead : Superseded h id l f) : Superseded (events ++ h) id l f := by
  refine ⟨List.mem_append_right _ hdead.1, fun hlive => ?_⟩
  cases b with
  | keep silent =>
    rcases liveClaim_append_of_silent silent id h with heq | heq
    · exact hdead.2 (heq ▸ hlive)
    · rw [heq] at hlive
      cases hlive
  | @ended e about acked other => cases e <;> simp_all [liveClaim, Event.job]
  | claimed l' f' own waiting =>
    obtain ⟨rfl, rfl⟩ : l' = l ∧ f' = f := by simpa [liveClaim] using hlive
    obtain ⟨j, rfl, hwait⟩ := waiting
    -- the lease id was used before, and then the job would not be waiting
    obtain ⟨k, hk, hidle⟩ := hfresh l' own f' hdead.1
    cases hk
    rw [hwait] at hidle
    cases hidle

theorem fenced (hs : FencedAt id (old.bind Job.claim) h) :
    FencedAt id (new.bind Job.claim) (events ++ h) where
  live := b.live hs.live
  -- an ack ends the claim it names, and no later event revives it
  acked l f hmem := by
    rcases List.mem_append.mp hmem with hnew | hold
    · obtain ⟨rfl, hclaim⟩ := b.acks hnew
      have hlive := hs.live.symm.trans hclaim
      exact ⟨List.mem_cons_of_mem _ (claimed_mem_of_live hlive), by simp [liveClaim]⟩
    · exact b.superseded hfresh (hs.acked l f hold)
  once l f := by
    by_cases hnew : .acked id l f ∈ events
    · -- the ack names the live claim, so it cannot have been acked before
      obtain ⟨rfl, hclaim⟩ := b.acks hnew
      have hlive := hs.live.symm.trans hclaim
      rw [List.singleton_append, List.count_cons_self,
        List.count_eq_zero_of_not_mem fun hmem => (hs.acked l f hmem).2 hlive]
    · rw [List.count_append, List.count_eq_zero_of_not_mem hnew, zero_add]
      exact hs.once l f

end

end Beat

theorem ClaimMove.superseded (m : ClaimMove lease s s') (hfresh : Unclaimed lease s)
    (hdead : Superseded s.history id l f) : Superseded s'.history id l f := by
  obtain ⟨events, hevents, b⟩ := m id
  rw [← superseded_about] at hdead ⊢
  rw [hevents]
  exact b.superseded (fun l hl f hmem => hfresh l hl id f ((mem_about rfl).mp hmem)) hdead

/-- One move keeps the invariant, when a lease id is not reused on a job. -/
theorem ClaimMove.fenced (m : ClaimMove lease s s') (hs : Fenced s) (hfresh : Unclaimed lease s) :
    Fenced s' := by
  intro id
  obtain ⟨events, hevents, b⟩ := m id
  rw [hevents]
  exact b.fenced (fun l hl f hmem => hfresh l hl id f ((mem_about rfl).mp hmem)) (hs id)

/-- A claim in the history after a move was there before or is the call's own. -/
theorem ClaimMove.mem_claimed (m : ClaimMove lease s s') (hmem : .claimed id l f ∈ s'.history) :
    .claimed id l f ∈ s.history ∨
      lease = some l ∧ ∃ j, s'.job? id = some j ∧ j.state.isWaiting = false := by
  obtain ⟨events, hevents, b⟩ := m id
  rw [← mem_about rfl, hevents, List.mem_append, mem_about rfl] at hmem
  exact hmem.symm.imp_right b.claims

/-! ## Section 5: Whole calls -/

/-- The lease id a call may write. -/
def Op.leaseId : Op → Option String
  | .admission req _ => some req.leaseId
  | _ => none

/-- A call as seen by claims: inside an admission no job comes back to waiting. -/
def ClaimRun (lease : Option String) : Store → Store → Prop :=
  ReflTransGen fun s s' => ClaimMove lease s s' ∧ (lease = none ∨ Aged s s')

theorem step_claimRun (s : Store) (c : Call) (h : EntriesOk s) :
    ClaimRun c.op.leaseId s (step s c) := by
  rcases step_cases s c h with ⟨hplain, hmoves⟩ | ⟨fp, order, hop, hmoves⟩ | ⟨req, order, hop, hgate⟩
  · have hnone : c.op.leaseId = none := by
      cases hc : c.op <;> simp_all [Op.leaseId, Op.isPlain]
    rw [hnone]
    exact .mono (fun _ _ m => ⟨m.claimMove none, .inl rfl⟩) _ _ hmoves
  · rw [hop]
    exact .mono (fun _ _ m => ⟨m.claimMove none, .inl rfl⟩) _ _ hmoves
  · rw [hop]
    exact .mono (fun _ _ m => ⟨m.1.claimMove, .inr m.2⟩) _ _ hgate

/-- **Induction over a call.**  What a move keeps while no lease id is reused, a call under
a fresh lease id keeps. -/
theorem ClaimRun.induct (Inv : Store → Prop)
    (hmove : ∀ s s', ClaimMove lease s s' → Unclaimed lease s → Inv s → Inv s')
    (h : ClaimRun lease s s') (hfresh : Unclaimed lease s) (hs : Inv s) :
    Inv s' := by
  -- the induction has to carry along that the lease id is still unused
  suffices hboth : Unclaimed lease s' ∧ Inv s' from hboth.2
  induction h with
  | refl => exact ⟨hfresh, hs⟩
  | @tail t u _ m ih =>
    obtain ⟨hunclaimed, hinv⟩ := ih
    refine ⟨fun l hl id f hmem => ?_, hmove t u m.1 hunclaimed hinv⟩
    rcases m.1.mem_claimed hmem with hold | ⟨-, hnew⟩
    · -- the job was past waiting already, and an admission brings no job back
      obtain ⟨j, hj, hidle⟩ := hunclaimed l hl id f hold
      rcases m.2 with hnone | haged
      · rw [hnone] at hl
        cases hl
      · rcases haged id with hsame | hnew
        · exact ⟨j, hsame.trans hj, hidle⟩
        · exact hnew
    · exact hnew

/-- The call's lease id is new to the history. -/
def FreshLease (s : Store) (c : Call) : Prop :=
  ∀ l ∈ c.op.leaseId, ∀ id f, .claimed id l f ∉ s.history

theorem FreshLease.unclaimed (h : FreshLease s c) :
    Unclaimed c.op.leaseId s := fun l hl id f hmem => (h l hl id f hmem).elim

/-- The lease ids of a list of calls, in order. -/
def leaseIds (calls : List Call) : List String := calls.filterMap fun c => c.op.leaseId

theorem step_mem_claimed (h : EntriesOk s) (hmem : .claimed id l f ∈ (step s c).history) :
    .claimed id l f ∈ s.history ∨ c.op.leaseId = some l := by
  have hrun := step_claimRun s c h
  generalize step s c = t at hmem hrun
  induction hrun with
  | refl => exact .inl hmem
  | tail _ m ih =>
    rcases m.1.mem_claimed hmem with hold | ⟨hown, -⟩
    · exact ih hold
    · exact .inr hown

/-- Pairwise different lease ids are fresh at every step. -/
theorem eachStep_freshLease (hs : EntriesOk s)
    (hnew : ∀ id l f, .claimed id l f ∈ s.history → l ∉ leaseIds calls)
    (hdistinct : (leaseIds calls).Nodup) :
    EachStep step FreshLease s calls := by
  induction calls generalizing s with
  | nil => exact True.intro
  | cons c calls ih =>
    have hsplit : leaseIds (c :: calls) = c.op.leaseId.toList ++ leaseIds calls := by
      unfold leaseIds
      cases hc : c.op.leaseId <;> simp [hc]
    rw [hsplit] at hdistinct hnew
    refine ⟨fun l hl id f hmem => ?_, ih (step_entriesOk s c hs) (fun id l f hmem => ?_) ?_⟩
    · refine hnew id l f hmem (List.mem_append_left _ ?_)
      rw [Option.mem_toList]
      exact hl
    · -- a claim in the history is an old one or carries the lease id of this call
      rcases step_mem_claimed hs hmem with hold | hown
      · exact fun hl => hnew id l f hold (List.mem_append_right _ hl)
      · have hdisj := (List.nodup_append.mp hdistinct).2.2
        exact fun hl => hdisj l (by simp [hown]) l hl rfl
    · exact (List.nodup_append.mp hdistinct).2.1

theorem step_fenced (hfresh : FreshLease s c) (hs : EntriesOk s) (h : Fenced s) :
    Fenced (step s c) := by
  refine ClaimRun.induct Fenced ?_ (step_claimRun s c hs) hfresh.unclaimed h
  exact fun _ _ m hunclaimed hfenced => m.fenced hfenced hunclaimed

theorem step_superseded (hfresh : FreshLease s c) (hs : EntriesOk s)
    (h : Superseded s.history id l f) :
    Superseded (step s c).history id l f := by
  refine ClaimRun.induct (fun t => Superseded t.history id l f) ?_ (step_claimRun s c hs)
    hfresh.unclaimed h
  exact fun _ _ m hunclaimed hdead => m.superseded hunclaimed hdead

/-! ## Section 6: The guard of the fenced calls -/

/-- The triples a call carries. -/
def Op.refs : Op → List LeaseRef
  | .ack ref _ | .checkpoint ref _ | .output ref _ | .progress ref _ _ _ => [ref]
  | .renew refs _ => refs
  | _ => []

/-- The row of the triple's job is held by another claim or by none. -/
def Unheld (s : Store) (ref : LeaseRef) : Prop :=
  s.claim ref.jobId ≠ some (ref.leaseId, ref.fence)

theorem Unheld.row (h : Unheld s ref) (row : s.job? ref.jobId = some j) : j.heldBy ref = false := by
  rw [Bool.eq_false_iff]
  intro hheld
  exact h ((Store.claim_eq row).trans ((j.heldBy_iff_claim ref).mp hheld))

theorem ack_of_unheld {now : Int} {a : AckArgs} (h : Unheld s ref) :
    (ack now ref a s).1 = s := by
  have hscript : (ackScript now ref a s).1 = s := by
    unfold ackScript
    cases hj : s.job? ref.jobId with
    | none => rfl
    | some => simp [h.row hj]
  unfold ack
  split
  · rfl
  · exact hscript

theorem fencedWrite_of_unheld {f : Job → Job} (h : Unheld s ref) :
    fencedWrite ref f s = s := by
  unfold fencedWrite
  cases hj : s.job? ref.jobId with
  | none => rfl
  | some => simp [h.row hj]

theorem renewOne_of_unheld {now leaseMs : Int} (h : Unheld s ref) :
    renewOne now leaseMs s ref = s := by
  unfold renewOne
  cases hj : s.job? ref.jobId with
  | none => rfl
  | some => simp [h.row hj]

/-- A renewal changes no claim. -/
theorem claim_renewOne (now leaseMs : Int) (ref : LeaseRef) (s : Store) (x : String) :
    (renewOne now leaseMs s ref).claim x = s.claim x := by
  unfold renewOne
  cases hj : s.job? ref.jobId with
  | none => rfl
  | some j =>
    dsimp only
    split
    · -- only the expiry of the lease is written
      have hset := Store.job?_setJob s ref.jobId x { j with
        lease := j.lease.map fun l => { l with expiresAtMs := now + leaseMs } }
      unfold Store.claim
      change (Store.job? (s.setJob ref.jobId _) x).bind Job.claim = _
      rw [hset]
      split
      · rename_i hx
        rw [hx, hj]
        simp [Job.claim, Function.comp_def]
      · rfl
    · rfl

/-- Triples that hold nothing contribute nothing to a renewal. -/
theorem renew_filter (now leaseMs : Int) (p : LeaseRef → Bool) (refs : List LeaseRef)
    (h : ∀ ref ∈ refs, p ref = false → Unheld s ref) :
    renew now leaseMs refs s = renew now leaseMs (refs.filter p) s := by
  induction refs generalizing s with
  | nil => rfl
  | cons ref refs ih =>
    -- a renewal changes no claim, so the other references are held or not as before
    have hrest : ∀ t : Store, (∀ x, t.claim x = s.claim x) →
        renew now leaseMs refs t = renew now leaseMs (refs.filter p) t := by
      intro t ht
      refine ih fun r hr hp => ?_
      unfold Unheld
      rw [ht]
      exact h r (by simp [hr]) hp
    cases hp : p ref with
    | true =>
      rw [List.filter_cons_of_pos hp]
      exact hrest _ (claim_renewOne now leaseMs ref s)
    | false =>
      rw [List.filter_cons_of_neg (by simp [hp])]
      show renew now leaseMs refs (renewOne now leaseMs s ref) = _
      rw [renewOne_of_unheld (h ref (by simp) hp)]
      exact hrest s fun _ => rfl

/-- A fenced call none of whose triples holds its job changes nothing. -/
theorem step_of_unheld (hfenced : c.op.refs ≠ []) (h : ∀ ref ∈ c.op.refs, Unheld s ref) :
    step s c = s := by
  obtain ⟨now, op⟩ := c
  cases op with
  | ack ref => exact ack_of_unheld (h ref (by simp [Op.refs]))
  | checkpoint ref | output ref | progress ref =>
    exact fencedWrite_of_unheld (h ref (by simp [Op.refs]))
  | renew refs leaseMs =>
    have hnone := renew_filter now leaseMs (fun _ => false) refs fun ref hmem _ => h ref hmem
    rw [List.filter_false] at hnone
    exact hnone
  | _ => exact absurd rfl hfenced

/-! ## Section 7: Whole runs -/

/-- Distinct lease ids are fresh at every step of the run. -/
theorem exec_freshLease (distinct : (leaseIds calls).Nodup) :
    EachStep step FreshLease Store.init calls :=
  eachStep_freshLease entriesOk_init (fun _ _ _ hmem => (List.not_mem_nil hmem).elim) distinct

/-- **The fencing invariant** of every run with distinct lease ids. -/
theorem exec_fenced (distinct : (leaseIds calls).Nodup) :
    Fenced (exec calls) :=
  exec_invariant fenced_init (fun calls _ hfresh => step_fenced hfresh (exec_entriesOk calls))
    (exec_freshLease distinct)

/-- A superseded claim stays superseded to the end of the run. -/
theorem exec_superseded {pre mid : List Call} (distinct : (leaseIds (pre ++ mid)).Nodup)
    (h : Superseded (exec pre).history id l f) :
    Superseded (exec (pre ++ mid)).history id l f := by
  have hfresh := ((eachStep_append step FreshLease Store.init pre mid).mp
    (exec_freshLease distinct)).2
  rw [exec_append]
  suffices hboth : EntriesOk (run step (exec pre) mid) ∧
      Superseded (run step (exec pre) mid).history id l f from hboth.2
  refine run_invariant (fun t => EntriesOk t ∧ Superseded t.history id l f)
    (fun s c hfresh hinv => ?_) ⟨exec_entriesOk pre, h⟩ hfresh
  exact ⟨step_entriesOk s c hinv.1, step_superseded hfresh hinv.1 hinv.2⟩

theorem leaseIds_append (pre post : List Call) :
    leaseIds (pre ++ post) = leaseIds pre ++ leaseIds post :=
  List.filterMap_append

/-- A triple that is not live holds no row. -/
theorem Fenced.unheld (h : Fenced s) (hdead : ¬ Live s.history ref) :
    Unheld s ref := fun hclaim => hdead ((h.live _).symm.trans hclaim)

/-- **Lease fencing.**  In a run whose admissions use distinct lease ids, a fenced call changes
the store only through a triple that names the live claim on its job, a claim is acked at
most once, and the holder of a superseded claim never changes anything again. -/
theorem lease_fencing (calls : List Call) (distinct : (leaseIds calls).Nodup) :
    (∀ pre c post, calls = pre ++ c :: post → c.op.refs ≠ [] →
      step (exec pre) c ≠ exec pre → ∃ ref ∈ c.op.refs, Live (exec pre).history ref) ∧
    (∀ pre now refs leaseMs post, calls = pre ++ ⟨now, .renew refs leaseMs⟩ :: post →
      step (exec pre) ⟨now, .renew refs leaseMs⟩ =
        renew now leaseMs (refs.filter fun ref => Live (exec pre).history ref) (exec pre)) ∧
    (∀ id l f, (exec calls).history.count (.acked id l f) ≤ 1) ∧
    (∀ pre mid c post ref, calls = pre ++ mid ++ c :: post → c.op.refs = [ref] →
      Superseded (exec pre).history ref.jobId ref.leaseId ref.fence →
      step (exec (pre ++ mid)) c = exec (pre ++ mid)) := by
  -- a run cut short uses distinct lease ids too
  have hcut : ∀ pre post, calls = pre ++ post → (leaseIds pre).Nodup := by
    intro pre post hsplit
    rw [hsplit, leaseIds_append] at distinct
    exact distinct.of_append_left
  refine ⟨?_, ?_, fun id l f => ?_, ?_⟩
  · intro pre c post hsplit hrefs hchange
    by_contra hnone
    push Not at hnone
    have hfenced := exec_fenced (hcut pre _ hsplit)
    exact hchange (step_of_unheld hrefs fun ref hmem => hfenced.unheld (hnone ref hmem))
  · intro pre now refs leaseMs post hsplit
    have hfenced := exec_fenced (hcut pre _ hsplit)
    apply renew_filter
    intro ref _ hdead
    exact hfenced.unheld (by simpa using hdead)
  · have honce := (exec_fenced distinct id).once l f
    rw [about, List.count_filter (by simp [Event.job])] at honce
    exact honce
  · intro pre mid c post ref hsplit hrefs hdead
    have hdistinct := hcut (pre ++ mid) _ hsplit
    have hover := exec_superseded hdistinct hdead
    refine step_of_unheld (by simp [hrefs]) fun r hr => ?_
    rw [hrefs, List.mem_singleton] at hr
    subst hr
    exact (exec_fenced hdistinct).unheld hover.2

/-- One job that changes hands: leased, reclaimed after expiry, leased again. -/
def handover : List Call :=
  [⟨0, .enqueue [{ id := "x", kind := "k", queue := "q" }]⟩,
    ⟨0, .admission ⟨"w1", "L1", ["q"], 1, 10, 1⟩ SetOrder.increasing⟩,
    ⟨20, .reclaim 10 3 5 5⟩,
    ⟨40, .admission ⟨"w2", "L2", ["q"], 1, 10, 1⟩ SetOrder.increasing⟩]

/-- The first worker's late ack. -/
def lateAck : Call :=
  ⟨41, .ack ⟨"x", "L1", 1⟩ { outcome := .success, retryBaseMs := 5, retryCapMs := 5 }⟩

theorem lease_fencing_handover :
    Live (exec handover).history ⟨"x", "L2", 2⟩ ∧
      Superseded (exec handover).history "x" "L1" 1 ∧
      step (exec handover) lateAck = exec handover := by
  have hdead : Superseded (exec handover).history "x" "L1" 1 := by
    refine ⟨?_, ?_⟩ <;> decide +kernel
  refine ⟨by decide +kernel, hdead, ?_⟩
  obtain ⟨-, -, -, hover⟩ := lease_fencing (handover ++ [lateAck]) (by decide)
  simpa using hover handover [] lateAck [] ⟨"x", "L1", 1⟩ (by simp) rfl hdead

end Headgate.Redis
