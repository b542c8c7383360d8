import Headgate.Redis.Completeness
import Headgate.Redis.Roster
import Headgate.Redis.StateIndex

/-!
# Candidates that stand in their own stream

The gate decides a candidate only if it still finds it in a stream of the chosen
queue, but it makes room for it before it looks.  A candidate that is not there
costs a running job its lease for nothing.

Names with the gate's separators can bring this about: a stream's key is a join of
queue, partition and worker, so a job of another queue may stand in a stream of
this one, and partition `p:worker:w` shares its stream with the pinned stream of
`w` in `p`, so that one job is drawn twice.  Without such names every candidate is
drawn once, from its own stream, and stands there until it is decided.
-/

namespace Headgate.Redis

open Headgate.Core Data Relation

variable {calls : List Call} {queue : String} {c : Candidate} {order : SetOrder String} {now : Int}
  {req : AdmitRequest}

/-! ## Section 1: Names -/

/-- Neither an enqueue nor an admission names a queue with a colon. -/
def PlainQueues (_ : Store) (c : Call) : Prop :=
  (∀ e ∈ c.op.batch, Without ':' e.queue) ∧ ∀ q ∈ c.op.requested, Without ':' q

instance (s : Store) (c : Call) : Decidable (PlainQueues s c) :=
  inferInstanceAs (Decidable ((∀ e ∈ c.op.batch, Without ':' e.queue) ∧
    ∀ q ∈ c.op.requested, Without ':' q))

theorem exec_listedOk_of_plainQueues (hcalls : EachStep step PlainQueues Store.init calls) :
    ListedOk (exec calls) :=
  exec_listedOk (hcalls.mono fun _ _ h => h.2)

/-- No job is in a queue with a colon. -/
def QueuesNamed (s : Store) : Prop := ∀ id j, s.job? id = some j → Without ':' j.queue

theorem exec_queuesNamed (hcalls : EachStep step PlainQueues Store.init calls) :
    QueuesNamed (exec calls) := by
  intro id j row
  have hnamed := exec_about (P := fun v => ∀ f, v.1 = some f → Without ':' f.queue)
    (fun _ _ h => nomatch h) (fun _ c hc v v' htouch h f' hf' => ?_) hcalls id
  · exact hnamed j.face (by rw [Store.about, row]; rfl)
  · -- the queue of a row was there before, or came with the batch
    rcases htouch.rooted hf' with ⟨f, hf, hqueue, -⟩ | ⟨e, he, hqueue, -⟩
    · rw [hqueue]
      exact h f hf
    · rw [hqueue]
      exact hc.1 e he

/-- No partition of a requested queue ends like the pinned streams of the caller. -/
def StreamsApart (req : AdmitRequest) (s : Store) : Prop :=
  req.worker ≠ "" → ∀ q ∈ requestQueues req, ∀ p ∈ s.waiting.parts q,
    ¬ (":worker:" ++ req.worker).toList <:+ p.toList

instance (req : AdmitRequest) (s : Store) : Decidable (StreamsApart req s) :=
  inferInstanceAs (Decidable (req.worker ≠ "" → ∀ q ∈ requestQueues req, ∀ p ∈ s.waiting.parts q,
    ¬ (":worker:" ++ req.worker).toList <:+ p.toList))

/-- Streams of one queue with the same key are one stream, or one is a pinned stream and the
other's partition ends like it. -/
theorem pendingKey_eq {p p' sticky sticky' : String}
    (h : pendingKey queue p sticky = pendingKey queue p' sticky') :
    (sticky = sticky' → p = p') ∧
      (sticky = "" → sticky' ≠ "" → (":worker:" ++ sticky').toList <:+ p.toList) ∧
      (sticky ≠ "" → sticky' = "" → (":worker:" ++ sticky).toList <:+ p'.toList) := by
  have hlist := congrArg String.toList h
  unfold pendingKey at hlist
  refine ⟨?_, ?_, ?_⟩
  · rintro rfl
    apply String.toList_inj.mp
    split at hlist
    · simpa using hlist
    · simpa using hlist
  · rintro rfl hpinned
    rw [if_neg (by simp), if_pos hpinned] at hlist
    refine ⟨p'.toList, ?_⟩
    simpa using hlist.symm
  · rintro hpinned rfl
    rw [if_pos hpinned, if_neg (by simp)] at hlist
    refine ⟨p.toList, ?_⟩
    simpa using hlist

/-! ## Section 2: What is drawn -/

section
variable {s : Store}

/-- A candidate is drawn from the stream of its own queue and partition. -/
theorem partCands_own (hentries : EntriesOk s) (hfound : AllFound s) (hnames : QueuesNamed s)
    (hapart : StreamsApart req s) {part : String} (hq : queue ∈ requestQueues req)
    (hplain : Without ':' queue) (hpart : part ∈ s.waiting.parts queue)
    (hc : c ∈ partCands now req queue part s) :
    c.job.queue = queue ∧ c.job.partitionKey = part ∧
      s.waiting.holds c.id queue c.job.partitionKey c.job.stickyWorker = true := by
  obtain ⟨hids, hcand⟩ := mem_partCands_ids hc
  obtain ⟨-, row, waiting, hmine⟩ := candidate?_eq_some hcand
  obtain ⟨sticky, sc, hsticky, hsc, -⟩ := mem_drawIds_stream hids
  obtain ⟨j, row', -, hkey, -⟩ := hentries _ _ _ hsc
  rw [row] at row'
  obtain rfl := Option.some.inj row'
  -- the queue is what stands before the first colon
  have hqueue : c.job.queue = queue := queue_eq_of_pendingKey (hnames c.id c.job row) hplain hkey
  have hkey' : pendingKey queue c.job.partitionKey c.job.stickyWorker =
      pendingKey queue part sticky := by
    rw [← hkey, ← hqueue]
    rfl
  obtain ⟨hsame, hordinary, hpinned⟩ := pendingKey_eq hkey'
  refine ⟨hqueue, ?_, ?_⟩
  · rcases hsticky with rfl | ⟨rfl, hworker⟩
    · rcases hmine with hown | hown
      · exact hsame hown
      · -- a pinned job in an ordinary stream: the partition drawn ends like a pinned stream
        by_cases hempty : c.job.stickyWorker = ""
        · exact hsame hempty
        · have hend := hpinned hempty rfl
          rw [hown] at hend hempty
          exact absurd hend (hapart hempty queue hq part hpart)
    · rcases hmine with hown | hown
      · -- an ordinary job in a pinned stream: its own partition ends like it
        have hlisted : c.job.partitionKey ∈ s.waiting.parts queue := by
          rw [← hqueue]
          exact (hfound c.id c.job row waiting).part (by rw [hown]; decide)
        exact absurd (hordinary hown hworker) (hapart hworker queue hq _ hlisted)
      · exact hsame hown
  · unfold Waiting.holds
    rw [hkey', hsc]
    rfl

/-- Candidates of distinct ids have distinct ids. -/
theorem filterMap_candidates_nodup {worker : String} {ids : List String} (hids : ids.Nodup) :
    ((ids.filterMap fun id => candidate? worker id s).map Candidate.id).Nodup := by
  induction ids with
  | nil => simp
  | cons id ids ih =>
    rw [List.nodup_cons] at hids
    rw [List.filterMap_cons]
    split
    · exact ih hids.2
    · rename_i c hc
      rw [List.map_cons, List.nodup_cons]
      refine ⟨fun hin => hids.1 ?_, ih hids.2⟩
      -- a second candidate with this id comes from a second occurrence of it
      obtain ⟨d, hd, hid⟩ := List.mem_map.mp hin
      obtain ⟨id', hid', hcand⟩ := List.mem_filterMap.mp hd
      rw [(candidate?_eq_some hc).1, (candidate?_eq_some hcand).1] at hid
      exact hid ▸ hid'

/-- The ids of a partition's candidates are drawn once each. -/
theorem partCands_nodup (hentries : EntriesOk s) (queue part : String) :
    ((partCands now req queue part s).map Candidate.id).Nodup := by
  have hall : (((drawIds now req queue part s).filterMap fun id =>
      candidate? req.worker id s).map Candidate.id).Nodup :=
    filterMap_candidates_nodup (drawIds_nodup hentries queue part)
  have hsorted := ((List.perm_insertionSort (fun a b : Candidate => b.before a = false)
    ((drawIds now req queue part s).filterMap fun id => candidate? req.worker id s)).map
      Candidate.id).nodup_iff.mpr hall
  exact hsorted.sublist ((List.take_sublist _ _).map _)

/-- No id is drawn twice for a queue: the partitions contribute their own jobs. -/
theorem queueCands_nodup (hentries : EntriesOk s) (hfound : AllFound s) (hnames : QueuesNamed s)
    (hapart : StreamsApart req s) (order : SetOrder String) (hq : queue ∈ requestQueues req)
    (hplain : Without ':' queue) :
    ((queueCands now req order queue s).map Candidate.id).Nodup := by
  unfold queueCands
  split
  · exact List.nodup_nil
  · have hparts := sortedParts_nodup order queue s
    have hflat : (((sortedParts order queue s).flatMap fun part =>
        partCands now req queue part s).map Candidate.id).Nodup := by
      rw [List.map_flatMap, List.nodup_flatMap]
      refine ⟨fun part _ => partCands_nodup hentries queue part, ?_⟩
      refine hparts.imp_of_mem fun {part part'} hp hp' hne => ?_
      -- an id in both lists has one row, and that has one partition
      intro id hid hid'
      obtain ⟨c, hc, rfl⟩ := List.mem_map.mp hid
      obtain ⟨c', hc', hsame⟩ := List.mem_map.mp hid'
      obtain ⟨-, hpart, -⟩ := partCands_own hentries hfound hnames hapart hq hplain
        (mem_sortedParts.mp hp) hc
      obtain ⟨-, hpart', -⟩ := partCands_own hentries hfound hnames hapart hq hplain
        (mem_sortedParts.mp hp') hc'
      have hrow := (candidate?_eq_some (mem_partCands_ids hc).2).2.1
      have hrow' := (candidate?_eq_some (mem_partCands_ids hc').2).2.1
      rw [hsame, hrow] at hrow'
      have hjob : c.job = c'.job := Option.some.inj hrow'
      exact hne (by rw [← hpart, ← hpart', hjob])
    exact ((List.perm_insertionSort _ _).map Candidate.id).nodup_iff.mpr hflat

end

/-! ## Section 3: Standing through the loop -/

/-- The streams of other jobs are not touched by a round. -/
theorem considerCandidate_pending (now : Int) (req : AdmitRequest) (queue : String) (c : Candidate)
    (l : Selection) {x : String} (hx : x ≠ c.id) (key : String) :
    ((considerCandidate now req queue c l).store.waiting.pending key).score x =
      (l.store.waiting.pending key).score x := by
  have hclauses := (gateVerdict_clause now req queue c l).waiting
  have hremove : ((l.store.waiting.remove c.id queue c.job.partitionKey
      c.job.stickyWorker).pending key).score x = (l.store.waiting.pending key).score x := by
    rw [Waiting.score_remove, if_neg fun hc => hx hc.2]
  rcases considerCandidate_cases now req queue c l with ⟨-, heq⟩ | ⟨a, -, -, heq⟩ | ⟨a, -, -, heq⟩
  · rw [heq, hclauses]
  · rw [heq]
    show (((gateVerdict now req queue c l).1.store.waiting.remove _ _ _ _).pending key).score x = _
    rw [hclauses]
    exact hremove
  · rw [heq]
    -- a terminal end repeats the removal under the job's own names
    have hend : ∀ to_, ((terminalizeIncoming now c to_ (removeWaiting c.id queue
        c.job.partitionKey c.job.stickyWorker
          (gateVerdict now req queue c l).1.store)).waiting.pending key).score x =
        (l.store.waiting.pending key).score x := by
      intro to_
      show ((((gateVerdict now req queue c l).1.store.waiting.remove c.id queue c.job.partitionKey
        c.job.stickyWorker).remove c.id c.job.queue c.job.partitionKey
          c.job.stickyWorker).pending key).score x = _
      rw [Waiting.score_remove, if_neg fun hc => hx hc.2, hclauses]
      exact hremove
    cases a with
    | claim =>
      have hclaim : (decidedRound now req queue c .claim
          (gateVerdict now req queue c l).1).store.waiting =
            (gateVerdict now req queue c l).1.store.waiting.remove c.id queue c.job.partitionKey
              c.job.stickyWorker := by
        show (claimJob now req queue c _ (removeWaiting c.id queue c.job.partitionKey
          c.job.stickyWorker (gateVerdict now req queue c l).1.store)).waiting = _
        unfold claimJob
        split <;> rfl
      rw [hclaim, hclauses]
      exact hremove
    | discard => exact hend .archived
    | cancelIncoming => exact hend .cancelled

/-- Every candidate to come was drawn from `s` for its own queue, once, and stands in its
stream. -/
structure Standing (s : Store) (l : Selection) : Prop where
  drawn : ∀ q, ∀ c ∈ l.cands q, s.job? c.id = some c.job ∧ c.job.queue = q
  nodup : ∀ q, ((l.cands q).map Candidate.id).Nodup
  stands : ∀ q, ∀ c ∈ l.cands q,
    l.store.waiting.holds c.id q c.job.partitionKey c.job.stickyWorker = true

theorem Standing.round {s : Store} {l : Selection} {q : String} {rest : List Candidate}
    (h : Standing s l) (hc : l.cands q = c :: rest) :
    Standing s (considerCandidate now req q c (l.pop q rest)) := by
  have hcands := considerCandidate_cands now req q c (l.pop q rest)
  have hself : c ∈ l.cands q := by
    rw [hc]
    exact List.mem_cons_self
  have hnodup := h.nodup q
  rw [hc, List.map_cons, List.nodup_cons] at hnodup
  refine ⟨fun q' d hd => ?_, fun q' => ?_, fun q' d hd => ?_⟩
  · rw [hcands] at hd
    exact h.drawn q' d (mem_of_update_rest hc hd)
  · rw [hcands]
    by_cases hq : q' = q
    · subst hq
      dsimp only
      rw [Function.update_self]
      exact hnodup.2
    · dsimp only
      rw [Function.update_of_ne hq]
      exact h.nodup q'
  · rw [hcands] at hd
    have hin := mem_of_update_rest hc hd
    -- the candidates to come have other ids than the one met
    have hne : d.id ≠ c.id := by
      intro hid
      have hrow := (h.drawn q' d hin).1
      rw [hid, (h.drawn q c hself).1] at hrow
      have hjob : c.job = d.job := Option.some.inj hrow
      have hqueue : q' = q := by
        rw [← (h.drawn q' d hin).2, ← hjob, (h.drawn q c hself).2]
      subst hqueue
      dsimp only at hd
      rw [Function.update_self] at hd
      exact hnodup.1 (hid ▸ List.mem_map_of_mem hd)
    unfold Waiting.holds
    rw [considerCandidate_pending now req q c _ hne]
    exact h.stands q' d hin

theorem startSelection_standing {s : Store} (hentries : EntriesOk s) (hfound : AllFound s)
    (hnames : QueuesNamed s) (hapart : StreamsApart req s)
    (hplain : ∀ q ∈ requestQueues req, Without ':' q) {routes : String → Finset String} :
    Standing s (startSelection (s.withRoutes routes)
      (drawnCands now req order (requestQueues req) s)) := by
  have hown : ∀ q, ∀ c ∈ drawnCands now req order (requestQueues req) s q, c.job.queue = q ∧
      s.waiting.holds c.id q c.job.partitionKey c.job.stickyWorker = true := by
    intro q c hc
    obtain ⟨hq, -⟩ := mem_drawnCands hc
    unfold drawnCands at hc
    rw [if_pos hq] at hc
    obtain ⟨-, part, hpart, hc'⟩ := mem_queueCands.mp hc
    obtain ⟨hqueue, -, hholds⟩ := partCands_own hentries hfound hnames hapart hq (hplain q hq)
      hpart hc'
    exact ⟨hqueue, hholds⟩
  refine ⟨fun q c hc => ⟨drawnCands_row hc, (hown q c hc).1⟩, fun q => ?_, fun q c hc =>
    (hown q c hc).2⟩
  show ((drawnCands now req order (requestQueues req) s q).map Candidate.id).Nodup
  unfold drawnCands
  split
  · rename_i hq
    exact queueCands_nodup hentries hfound hnames hapart order hq (hplain q hq)
  · exact List.nodup_nil

/-! ## Section 4: The loop of a well-named call -/

/-- What the names of a run and of a request must be for the zsets and streams to be told
apart. -/
@[mk_iff]
structure NamesApart (calls : List Call) (req : AdmitRequest) : Prop where
  queues : EachStep step PlainQueues Store.init calls
  requested : ∀ q ∈ requestQueues req, Without ':' q
  streams : StreamsApart req (exec calls)

instance (calls : List Call) (req : AdmitRequest) : Decidable (NamesApart calls req) :=
  decidable_of_iff' _ (namesApart_iff ..)

/-- A candidate, as the store had it before the call. -/
structure Fresh (s : Store) (c : Candidate) : Prop where
  row : s.job? c.id = some c.job
  waiting : c.job.state.isWaiting = true

/-- What holds in every state of the loop of a well-named call. -/
structure LoopOk (now : Int) (s : Store) (l : Selection) : Prop where
  ok : SelectionOk l
  roster : Roster now l.store l.runningAdd
  standing : Standing s l
  rules : s.policy.SameRules l.store.policy

theorem LoopOk.start (hnames : NamesApart calls req) (routes : String → Finset String) :
    LoopOk now (exec calls) (startSelection ((exec calls).withRoutes routes)
      (drawnCands now req order (requestQueues req) (exec calls))) := by
  have hentries := exec_entriesOk calls
  have hlisted := exec_listedOk_of_plainQueues hnames.queues
  refine ⟨startSelection_ok hentries, ?_, ?_, .refl _⟩
  · exact (Roster.start hlisted.listed hlisted.names).keep (fun _ => rfl) rfl
  · exact startSelection_standing hentries (exec_allFound calls)
      (exec_queuesNamed hnames.queues) hnames.streams hnames.requested

section
variable {s : Store} {l : Selection} {q : String} {rest : List Candidate}

/-- The candidate met is as it was drawn, and stands in the stream of its queue. -/
theorem LoopOk.head (h : LoopOk now s l) (hc : l.cands q = c :: rest) :
    Fresh s c ∧ c.job.queue = q ∧
      l.store.waiting.holds c.id q c.job.partitionKey c.job.stickyWorker = true := by
  have hself : c ∈ l.cands q := by
    rw [hc]
    exact List.mem_cons_self
  obtain ⟨hrow, hqueue⟩ := h.standing.drawn q c hself
  have hstands := h.standing.stands q c hself
  -- what stands in a stream is waiting
  obtain ⟨-, waiting, -⟩ := (h.ok.head hc).of_holds h.ok.entries hstands
  exact ⟨⟨hrow, waiting⟩, hqueue, hstands⟩

theorem LoopOk.round (h : LoopOk now s l) (hplain : Without ':' q) (hc : l.cands q = c :: rest) :
    LoopOk now s (considerCandidate now req q c (l.pop q rest)) := by
  refine ⟨(h.ok.round now req hc).1, ?_, h.standing.round hc, ?_⟩
  · exact Roster.round (l := l.pop q rest) h.roster
      h.ok.entries (h.ok.head hc) hplain
  · exact h.rules.trans (considerCandidate_rules now req q c (l.pop q rest))

end

end Headgate.Redis
