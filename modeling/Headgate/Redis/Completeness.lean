import Headgate.Redis.Reach
import Headgate.Redis.Ledger

/-!
# The gate claims what it may claim

With no policy in the way and room for every due job, an admission claims every
due job of the requested queues that its worker may run.  `AllFound` brings the
job into the drawn list, and the loop never runs out of capacity or credit
before it has met the job, because each decision uses up another due job.

The jobs that compete for the draw are those whose stream key begins with a
requested queue and a colon (`crowd`).  For names without colon they are the due
jobs of the requested queues.
-/

namespace Headgate.Redis

open Headgate.Core Data

variable {now : Int} {queues : List String} {s : Store} {id part q queue sticky : String} {j : Job}
  {c d : Candidate} {l : Selection} {cands : String → List Candidate} {rest : List Candidate}

/-! ## Section 1: Due jobs and their streams -/

/-- Waiting, with its time reached. -/
def Job.isDue (now : Int) (j : Job) : Bool := j.state.isWaiting && j.scheduledAtMs ≤ now

theorem isDue_iff : j.isDue now = true ↔ j.state.isWaiting = true ∧ j.scheduledAtMs ≤ now := by
  simp [Job.isDue]

/-- The job's stream key begins with the queue's name and a colon. -/
def Job.under (queue : String) (j : Job) : Bool :=
  (queue.toList ++ [':']).isPrefixOf j.pendingKey.toList

/-- The due jobs that the draw of these queues can meet. -/
def crowd (now : Int) (queues : List String) (s : Store) : Finset String :=
  s.ids.filter fun id => (s.job? id).any fun j => j.isDue now && queues.any fun q => j.under q

theorem mem_crowd :
    id ∈ crowd now queues s ↔
      ∃ j, s.job? id = some j ∧ j.isDue now = true ∧ ∃ q ∈ queues, j.under q = true := by
  unfold crowd
  rw [Finset.mem_filter, Store.mem_ids]
  constructor
  · rintro ⟨⟨j, hj⟩, hany⟩
    rw [hj, Option.any_some, Bool.and_eq_true, List.any_eq_true] at hany
    exact ⟨j, hj, hany.1, hany.2⟩
  · rintro ⟨j, hj, hdue, hunder⟩
    refine ⟨⟨j, hj⟩, ?_⟩
    rw [hj, Option.any_some, Bool.and_eq_true, List.any_eq_true]
    exact ⟨hdue, hunder⟩

theorem under_of_pendingKey (h : j.pendingKey = pendingKey queue part sticky) :
    j.under queue = true := by
  obtain ⟨rest, hrest⟩ := pendingKey_toList queue part sticky
  unfold Job.under
  rw [List.isPrefixOf_iff_prefix, h, hrest]
  exact ⟨rest, by simp⟩

/-- For names without colon, the competitors are the due jobs of the requested queues. -/
theorem mem_crowd_of_without_colon (hqueues : ∀ q ∈ queues, Without ':' q)
    (hjobs : ∀ id j, s.job? id = some j → Without ':' j.queue) :
    id ∈ crowd now queues s ↔ ∃ j, s.job? id = some j ∧ j.isDue now = true ∧ j.queue ∈ queues := by
  rw [mem_crowd]
  constructor
  · rintro ⟨j, hj, hdue, q, hq, hunder⟩
    refine ⟨j, hj, hdue, ?_⟩
    unfold Job.under at hunder
    rw [List.isPrefixOf_iff_prefix] at hunder
    obtain ⟨rest, hrest⟩ := hunder
    obtain ⟨own, hown⟩ := pendingKey_toList j.queue j.partitionKey j.stickyWorker
    -- both keys start with a queue and a colon, and the first colon ends the queue
    have hlist : q.toList ++ ':' :: rest = j.queue.toList ++ ':' :: own := by
      refine Eq.trans ?_ (hrest.trans hown)
      simp
    rw [← queue_eq_of_colon (hqueues q hq) (hjobs id j hj) hlist]
    exact hq
  · rintro ⟨j, hj, hdue, hq⟩
    exact ⟨j, hj, hdue, j.queue, hq, under_of_pendingKey rfl⟩

/-- An entry of a requested queue's stream that is due belongs to the crowd. -/
theorem EntriesOk.mem_crowd (h : EntriesOk s) {sc : Int} (hq : queue ∈ queues)
    (hsc : (s.waiting.pending (pendingKey queue part sticky)).score id = some sc) (hdue : sc ≤ now)
    :
    id ∈ crowd now queues s := by
  obtain ⟨j, hj, hwait, hkey, hsched⟩ := h _ _ _ hsc
  exact Redis.mem_crowd.mpr
    ⟨j, hj, isDue_iff.mpr ⟨hwait, hsched ▸ hdue⟩, queue, hq, under_of_pendingKey hkey⟩

/-! ## Section 2: The draw misses nobody -/

section
variable {req : AdmitRequest}

/-- A pinned stream is never the ordinary one of its partition. -/
theorem pendingKey_ne_ordinary {worker : String} (h : worker ≠ "") :
    pendingKey queue part worker ≠ pendingKey queue part "" := by
  intro heq
  have hlen := congrArg (fun k : String => k.toList.length) heq
  simp [pendingKey, h] at hlen

section
variable (hentries : EntriesOk s)
include hentries

theorem mem_drawIds_crowd (hq : queue ∈ queues)
    (h : id ∈ drawIds now req queue part s) : id ∈ crowd now queues s := by
  obtain ⟨sticky, sc, -, hsc, hdue⟩ := mem_drawIds_stream h
  exact hentries.mem_crowd hq hsc hdue

theorem drawIds_nodup (queue part : String) :
    (drawIds now req queue part s).Nodup := by
  unfold drawIds
  rw [List.nodup_append']
  refine ⟨ZSet.rangeByScore_nodup _ _ _, ?_, ?_⟩
  · split
    · exact ZSet.rangeByScore_nodup _ _ _
    · exact List.nodup_nil
  · -- one job stands in one stream, and the two streams have different keys
    intro id hordinary hpinned
    split at hpinned
    · rename_i hworker
      obtain ⟨sc, hsc, -⟩ := ZSet.mem_rangeByScore _ _ _ _ hordinary
      obtain ⟨sc', hsc', -⟩ := ZSet.mem_rangeByScore _ _ _ _ hpinned
      obtain ⟨j, hj, -, hkey, -⟩ := hentries _ _ _ hsc
      obtain ⟨j', hj', -, hkey', -⟩ := hentries _ _ _ hsc'
      rw [hj] at hj'
      cases hj'
      exact pendingKey_ne_ordinary hworker (hkey'.symm.trans hkey)
    · cases hpinned

/-- With credit for all due entries of the partition's streams, a job in one of them is drawn. -/
theorem mem_partCands_of_card_le (entries : Finset String)
    (hin : ∀ sticky, (sticky = "" ∨ sticky = req.worker) → ∀ a sc,
      (s.waiting.pending (pendingKey queue part sticky)).score a = some sc → sc ≤ now →
        a ∈ entries) (hcredit : (entries.card : Int) ≤ deficit req.quantum queue part s)
    (hrow : s.job? id = some j) (hdue : j.isDue now = true)
    (hmine : j.stickyWorker = "" ∨ j.stickyWorker = req.worker)
    (hstream : (s.waiting.pending (pendingKey queue part j.stickyWorker)).score id =
      some j.scheduledAtMs) :
    ⟨id, j⟩ ∈ partCands now req queue part s := by
  obtain ⟨hwait, hsched⟩ := isDue_iff.mp hdue
  -- the job is among the ids
  have hids : id ∈ drawIds now req queue part s := by
    have hrange : id ∈ (s.waiting.pending (pendingKey queue part j.stickyWorker)).rangeByScore now
        (deficit req.quantum queue part s) :=
      ZSet.mem_rangeByScore_of_card_le _ _ _ entries
        (fun a sc ha hsc => hin j.stickyWorker hmine a sc ha hsc) hcredit hstream hsched
    unfold drawIds
    rw [List.mem_append]
    by_cases hpin : j.stickyWorker = ""
    · rw [hpin] at hrange
      exact .inl hrange
    · have hworker : j.stickyWorker = req.worker := hmine.resolve_left hpin
      right
      rw [if_pos (hworker ▸ hpin), ← hworker]
      exact hrange
  -- and the window is wide enough for all of them
  have hdrawn : ∀ a ∈ drawIds now req queue part s, a ∈ entries := by
    intro a ha
    obtain ⟨sticky, sc, hsticky, hsc, hle⟩ := mem_drawIds_stream ha
    exact hin sticky (hsticky.imp_right And.left) a sc hsc hle
  have hlen : (sortCandidates ((drawIds now req queue part s).filterMap fun id =>
      candidate? req.worker id s)).length ≤ (deficit req.quantum queue part s).toNat := by
    have hperm : (sortCandidates ((drawIds now req queue part s).filterMap fun id =>
        candidate? req.worker id s)).length =
        ((drawIds now req queue part s).filterMap fun id => candidate? req.worker id s).length :=
      (List.perm_insertionSort _ _).length_eq
    have hfilter := List.length_filterMap_le (fun id => candidate? req.worker id s)
      (drawIds now req queue part s)
    have hcard : (drawIds now req queue part s).length ≤ entries.card := by
      rw [← List.toFinset_card_of_nodup (drawIds_nodup hentries queue part)]
      apply Finset.card_le_card
      intro a ha
      exact hdrawn a (List.mem_toFinset.mp ha)
    omega
  unfold partCands
  rw [List.take_of_length_le hlen, mem_sortCandidates, List.mem_filterMap]
  exact ⟨id, hids, candidate?_of_row hrow hwait hmine⟩

/-- With credit for the whole crowd, a job in one of the partition's streams is drawn. -/
theorem mem_partCands (hq : queue ∈ queues)
    (hcredit : ((crowd now queues s).card : Int) ≤ deficit req.quantum queue part s)
    (hrow : s.job? id = some j) (hdue : j.isDue now = true)
    (hmine : j.stickyWorker = "" ∨ j.stickyWorker = req.worker)
    (hstream : (s.waiting.pending (pendingKey queue part j.stickyWorker)).score id =
      some j.scheduledAtMs) :
    ⟨id, j⟩ ∈ partCands now req queue part s :=
  mem_partCands_of_card_le hentries (crowd now queues s)
    (fun _ _ _ _ hsc hle => hentries.mem_crowd hq hsc hle) hcredit hrow hdue hmine hstream

theorem drawnCands_crowd {order : SetOrder String} (hq : q ∈ queues)
    (h : c ∈ drawnCands now req order queues s q) :
    c.id ∈ crowd now queues s := by
  obtain ⟨-, -, part, -, hids, -⟩ := mem_drawnCands h
  exact mem_drawIds_crowd hentries hq hids

end

end

/-! ## Section 3: The loop without policy -/

/-- No rate class, no quarantine and no ceiling. -/
structure OpenGate (p : Policy) : Prop where
  rate : ∀ name, p.rate name = none
  quarantine : p.quarantine = ∅
  ceiling : ∀ queue, p.climitq queue = none

/-- Only the credit of its partition can hold a candidate back. -/
theorem gateVerdict_open (now : Int) (req : AdmitRequest) (queue : String) (c : Candidate)
    (h : OpenGate l.store.policy) :
    gateVerdict now req queue c l =
      (l, if passDeficit req queue c l then some Action.claim else none) := by
  have hquarantine : passQuarantine c l.store = true := by
    unfold passQuarantine
    simp [h.quarantine]
  have hrate : passRate now c l = (l, true) := by
    unfold passRate bucketAvail
    dsimp only
    split
    · rfl
    · rw [h.rate c.job.rateClass]
  -- an open gate has no quarantine, no bucket and no ceiling: the deficit decides
  have hceiling : passCeiling now queue c l = (l, some Action.claim) := by
    have hnone : concurrencyPolicy l.store queue = none := by
      unfold concurrencyPolicy
      rw [h.ceiling queue]
      rfl
    unfold passCeiling
    rw [hnone]
  unfold gateVerdict
  rw [if_pos hquarantine, hrate]
  dsimp only
  split
  · exact hceiling
  · rfl

/-- The loop invariant for one due job: every decision so far claimed another job of the
crowd, and the job is claimed or still to come. -/
structure Awaits (s : Store) (now : Int) (queues : List String) (id : String) (j : Job)
    (l : Selection) : Prop where
  ok : SelectionOk l
  gate : OpenGate l.store.policy
  credit : l.store.policy.deficit = s.policy.deficit
  count : l.decided = l.claimed.length
  nodup : l.claimed.Nodup
  inCrowd : ∀ x ∈ l.claimed, x ∈ crowd now queues s
  gone : ∀ x ∈ l.claimed, ∃ k, l.store.job? x = some k ∧ k.state.isWaiting = false
  taken : ∀ key, l.takenPart key ≤ l.decided
  drawn : ∀ q ∈ queues, ∀ c ∈ l.cands q, c.id ∈ crowd now queues s
  target : id ∈ l.claimed ∨
    (l.store.job? id = some j ∧ (l.store.waiting.pending j.pendingKey).score id ≠ none ∧
      ⟨id, j⟩ ∈ l.cands j.queue)

/-- As long as one member of the crowd is not claimed, there are fewer decisions than members. -/
theorem Awaits.decided_lt (h : Awaits s now queues id j l) (hid : id ∈ crowd now queues s)
    (hnot : id ∉ l.claimed) :
    l.decided < (crowd now queues s).card := by
  rw [h.count, ← List.toFinset_card_of_nodup h.nodup]
  apply Finset.card_lt_card
  refine ⟨fun x hx => h.inCrowd x (List.mem_toFinset.mp hx), fun hsub => hnot ?_⟩
  exact List.mem_toFinset.mp (hsub hid)

/-- A candidate that was not the one taken is still to come. -/
theorem mem_update_rest (hc : cands q = c :: rest) (hd : d ∈ cands queue)
    (hne : ¬ (q = queue ∧ c = d)) :
    d ∈ Function.update cands q rest queue := by
  by_cases hq : queue = q
  · subst hq
    rw [Function.update_self]
    rw [hc] at hd
    exact (List.mem_cons.mp hd).resolve_left fun heq => hne ⟨rfl, heq.symm⟩
  · rw [Function.update_of_ne hq]
    exact hd

/-- The candidates after a round were candidates before. -/
theorem mem_of_update_rest (hc : cands q = c :: rest) (hd : d ∈ Function.update cands q rest queue) :
    d ∈ cands queue := by
  by_cases hq : queue = q
  · subst hq
    rw [Function.update_self] at hd
    rw [hc]
    exact List.mem_cons_of_mem _ hd
  · rw [Function.update_of_ne hq] at hd
    exact hd

section
variable {req : AdmitRequest}

section
variable (h : Awaits s now queues id j l)
include h

/-- The credit suffices for every candidate met before the job. -/
theorem Awaits.passDeficit (hid : id ∈ crowd now queues s)
    (hnot : id ∉ l.claimed) (hcredit : CreditOk s)
    (hquantum : ((crowd now queues s).card : Int) ≤ req.quantum) :
    passDeficit req q c (l.pop q rest) = true := by
  have hlt := h.decided_lt hid hnot
  have htaken := h.taken (tableKey q c.job.partitionKey)
  have hpos := hcredit q c.job.partitionKey
  unfold Redis.passDeficit deficit
  dsimp only
  rw [h.credit, decide_eq_true_eq]
  omega

/-- A round that decides nothing keeps the job in sight. -/
theorem Awaits.skip (hc : l.cands q = c :: rest)
    {t : Store} (hok : SelectionOk { l with store := t, cands := Function.update l.cands q rest })
    (hjobs : t.jobs = l.store.jobs) (hpolicy : t.policy = l.store.policy)
    (hstream : (l.store.waiting.pending j.pendingKey).score id ≠ none →
      (t.waiting.pending j.pendingKey).score id ≠ none)
    (hne : id ∉ l.claimed → ¬ (q = j.queue ∧ c = ⟨id, j⟩)) :
    Awaits s now queues id j { l with store := t, cands := Function.update l.cands q rest } := by
  have hrow : ∀ x, t.job? x = l.store.job? x := by
    intro x
    unfold Store.job?
    rw [hjobs]
  refine ⟨hok, ?_, ?_, h.count, h.nodup, h.inCrowd, ?_, h.taken, ?_, ?_⟩
  · rw [hpolicy]
    exact h.gate
  · rw [hpolicy]
    exact h.credit
  · intro x hx
    obtain ⟨k, hk, hidle⟩ := h.gone x hx
    exact ⟨k, (hrow x).trans hk, hidle⟩
  · intro q' hq' d hd
    exact h.drawn q' hq' d (mem_of_update_rest hc hd)
  · by_cases hclaimed : id ∈ l.claimed
    · exact .inl hclaimed
    · rcases h.target with hin | ⟨hj, hscore, hmem⟩
      · exact absurd hin hclaimed
      · exact .inr ⟨(hrow id).trans hj, hstream hscore, mem_update_rest hc hmem (hne hclaimed)⟩

/-- A claim of another job of the crowd, or of the job itself. -/
theorem Awaits.claim (hq : q ∈ queues)
    (hc : l.cands q = c :: rest)
    (hholds : l.store.waiting.holds c.id q c.job.partitionKey c.job.stickyWorker = true)
    (hok : SelectionOk (decidedRound now req q c .claim (l.pop q rest))) :
    Awaits s now queues id j (decidedRound now req q c .claim (l.pop q rest)) := by
  have hmem : c ∈ l.cands q := by
    rw [hc]
    exact List.mem_cons_self
  obtain ⟨hrow, hwait, rfl⟩ := (h.ok.snapshots q c hmem).of_holds h.ok.entries hholds
  have eff := claimJob_effect now req (c := c) (s := l.store)
    (isCharged c { l with
      cands := Function.update l.cands c.job.queue rest
      store := removeWaiting c.id c.job.queue c.job.partitionKey c.job.stickyWorker l.store }) hrow
  have hpolicy := decidedRound_claim_policy now req c.job.queue c (l.pop c.job.queue rest)
  -- claimed jobs no longer wait, and the candidate does
  have hnew : c.id ∉ l.claimed := by
    intro hin
    obtain ⟨k, hk, hidle⟩ := h.gone c.id hin
    rw [hrow] at hk
    cases hk
    rw [hwait] at hidle
    cases hidle
  refine ⟨hok, ?_, ?_, ?_, ?_, ?_, ?_, ?_, ?_, ?_⟩
  · rw [hpolicy]
    exact h.gate
  · rw [hpolicy]
    exact h.credit
  · show l.decided + 1 = (l.claimed ++ [c.id]).length
    rw [List.length_append, h.count]
    rfl
  · show (l.claimed ++ [c.id]).Nodup
    rw [List.nodup_append']
    refine ⟨h.nodup, List.nodup_singleton _, ?_⟩
    intro x hx hx'
    rw [List.mem_singleton.mp hx'] at hx
    exact hnew hx
  · intro x hx
    rcases List.mem_append.mp hx with hold | hx'
    · exact h.inCrowd x hold
    · rw [List.mem_singleton.mp hx']
      exact h.drawn c.job.queue hq c hmem
  · intro x hx
    by_cases hxc : x = c.id
    · exact ⟨_, (eff.rows x).trans (if_pos hxc), rfl⟩
    · have hold : x ∈ l.claimed := by
        rcases List.mem_append.mp hx with hold | hx'
        · exact hold
        · exact absurd (List.mem_singleton.mp hx') hxc
      obtain ⟨k, hk, hidle⟩ := h.gone x hold
      exact ⟨k, ((eff.rows x).trans (if_neg hxc)).trans hk, hidle⟩
  · intro key
    show Function.update l.takenPart (tableKey c.job.queue c.job.partitionKey)
      (l.takenPart (tableKey c.job.queue c.job.partitionKey) + 1) key ≤ ((l.decided + 1 : Nat) : Int)
    have hkey := h.taken key
    by_cases hsame : key = tableKey c.job.queue c.job.partitionKey
    · subst hsame
      rw [Function.update_self]
      omega
    · rw [Function.update_of_ne hsame]
      omega
  · intro q' hq' d hd
    exact h.drawn q' hq' d (mem_of_update_rest hc hd)
  · -- the job itself is claimed now, or it stays where it was
    by_cases hself : id = c.id
    · left
      rw [hself]
      exact List.mem_append_right _ List.mem_cons_self
    · rcases h.target with hin | ⟨hj, hscore, hin⟩
      · exact .inl (List.mem_append_left _ hin)
      · refine .inr ⟨((eff.rows id).trans (if_neg hself)).trans hj, ?_, ?_⟩
        · have hw : (decidedRound now req c.job.queue c .claim
              (l.pop c.job.queue rest)).store.waiting =
              l.store.waiting.removeJob c.id c.job := eff.waiting
          rw [hw, Waiting.score_removeJob, if_neg fun hcon => hself hcon.2]
          exact hscore
        · refine mem_update_rest hc hin fun hcon => hself ?_
          rw [hcon.2]

/-- What a round preserves. -/
theorem Awaits.round (hq : q ∈ queues)
    (hc : l.cands q = c :: rest) (hid : id ∈ crowd now queues s) (hcredit : CreditOk s)
    (hquantum : ((crowd now queues s).card : Int) ≤ req.quantum) :
    Awaits s now queues id j
      (considerCandidate now req q c (l.pop q rest)) := by
  obtain ⟨hok, -⟩ := h.ok.round now req hc
  have hverdict := gateVerdict_open now req q c
    (l := l.pop q rest) h.gate
  rcases considerCandidate_cases now req q c (l.pop q rest) with
    ⟨hnone, heq⟩ | ⟨a, -, hholds, heq⟩ | ⟨a, hsome, hholds, heq⟩
  · -- held back: there was credit for the job, so it was another one
    rw [heq] at hok ⊢
    rw [hverdict] at hok hnone ⊢
    refine h.skip hc hok rfl rfl (fun hs => hs) fun hnot => ?_
    rw [if_pos (h.passDeficit hid hnot hcredit hquantum)] at hnone
    cases hnone
  · -- not in the stream of this queue, where the job is
    rw [heq] at hok ⊢
    rw [hverdict] at hok ⊢
    have habsent : (l.store.waiting.pending
        (pendingKey q c.job.partitionKey c.job.stickyWorker)).score c.id = none := by
      simpa [Waiting.holds] using hholds
    refine h.skip hc hok rfl rfl (fun hs => ?_) fun hnot hcon => ?_
    · show ((l.store.waiting.remove c.id q c.job.partitionKey c.job.stickyWorker).pending
        j.pendingKey).score id ≠ none
      rw [Waiting.score_remove]
      split
      · rename_i hcon
        rw [hcon.1, hcon.2] at hs
        exact absurd habsent hs
      · exact hs
    · rcases h.target with hin | ⟨-, hscore, -⟩
      · exact hnot hin
      · obtain ⟨rfl, rfl⟩ := hcon
        exact hscore habsent
  · rw [heq] at hok ⊢
    rw [hverdict] at hok hsome ⊢
    have hclaim : a = .claim := by
      split at hsome
      · exact (Option.some.inj hsome).symm
      · cases hsome
    subst hclaim
    exact h.claim hq hc hholds hok

end

/-! ## Section 4: The call -/

/-- A due job in reach of the gate is claimed by a call with room for its crowd. -/
theorem selection_claims (hentries : EntriesOk s) (hfound : AllFound s) (hcredit : CreditOk s)
    (hgate : OpenGate s.policy) (hnodup : queues.Nodup) (order : SetOrder String)
    (hcapacity : (crowd now queues s).card ≤ req.capacity)
    (hquantum : ((crowd now queues s).card : Int) ≤ req.quantum) (hrow : s.job? id = some j)
    (hdue : j.isDue now = true) (hq : j.queue ∈ queues) (hpaused : j.queue ∉ s.policy.paused)
    (hmine : j.stickyWorker = "" ∨ j.stickyWorker = req.worker) (hstar : j.stickyWorker ≠ "*") :
    id ∈ (selection now req order queues s).1.claimed := by
  have hfind := hfound id j hrow (isDue_iff.mp hdue).1
  have hid : id ∈ crowd now queues s :=
    mem_crowd.mpr ⟨j, hrow, hdue, j.queue, hq, under_of_pendingKey rfl⟩
  -- the job is drawn
  have hdrawn : ⟨id, j⟩ ∈ drawnCands now req order queues s j.queue := by
    unfold drawnCands
    rw [if_pos hq, mem_queueCands]
    refine ⟨hpaused, j.partitionKey, hfind.part hstar,
      mem_partCands hentries hq ?_ hrow hdue hmine hfind.stream⟩
    have hpos := hcredit j.queue j.partitionKey
    unfold deficit
    omega
  have hend : Awaits s now queues id j (selection now req order queues s).1 := by
    refine selection_induct hentries (fun routes => ?_) fun l q c rest _ hl _ hchoose hc =>
      hl.round (chooseQueue_mem hchoose).1 hc hid hcredit hquantum
    refine ⟨startSelection_ok hentries, hgate, rfl, rfl, List.nodup_nil, ?_, ?_,
      fun _ => le_refl 0, ?_, .inr ?_⟩
    · intro x hx
      cases hx
    · intro x hx
      cases hx
    · intro q hq c hc
      exact drawnCands_crowd hentries hq hc
    · refine ⟨hrow, ?_, hdrawn⟩
      have hscore : (s.waiting.pending j.pendingKey).score id ≠ none := by
        rw [hfind.stream]
        exact Option.some_ne_none _
      exact hscore
  -- the loop stopped at the capacity or met every candidate
  by_contra hnot
  have hlt := hend.decided_lt hid hnot
  rcases selection_exhausts now req order hnodup s with hfull | hempty
  · omega
  · rcases hend.target with hin | ⟨-, -, hmem⟩
    · exact hnot hin
    · rw [hempty j.queue hq] at hmem
      cases hmem

end

/-- **Completeness of the gate.**  In every reachable store all waiting jobs are within the
gate's reach, and a call without policy in its way and with room for the jobs that compete
claims every due job of its queues that it may run, unless the job is pinned to a worker
named `*`. -/
theorem gate_complete (calls : List Call) (now : Int) (req : AdmitRequest)
    (order : SetOrder String) (hgate : OpenGate (exec calls).policy) (hlease : 1 ≤ req.leaseMs)
    (hnames : ∀ q ∈ req.queues, q ≠ "" ∧ Without ',' q)
    (hcapacity : (crowd now req.queues (exec calls)).card ≤ req.capacity)
    (hquantum : ((crowd now req.queues (exec calls)).card : Int) ≤ req.quantum) :
    AllFound (exec calls) ∧
      ∃ claimed, (admitCall now req order (exec calls)).2 = .ok claimed ∧
        ∀ id j, (exec calls).job? id = some j → j.isDue now = true → j.queue ∈ req.queues →
          j.queue ∉ (exec calls).policy.paused →
          (j.stickyWorker = "" ∨ j.stickyWorker = req.worker) → j.stickyWorker ≠ "*" →
            id ∈ claimed := by
  refine ⟨exec_allFound calls, ?_⟩
  have hqueues := mem_scriptQueues hnames
  have hsame : crowd now (requestQueues req) (exec calls) = crowd now req.queues (exec calls) := by
    ext id
    simp only [mem_crowd, requestQueues, hqueues]
  rw [admitCall_eq hlease]
  refine ⟨_, rfl, fun id j hrow hdue hq hpaused hmine hstar => ?_⟩
  exact selection_claims (exec_entriesOk calls) (exec_allFound calls) (exec_creditOk calls) hgate
    (requestQueues_nodup req) order (by rw [hsame]; exact hcapacity) (by rw [hsame]; exact hquantum)
    hrow hdue ((hqueues j.queue).mpr hq) hpaused hmine hstar

/-- An ordinary job and one pinned to `w` wait in one partition. -/
def pinnedPair : List Call :=
  [⟨0, .enqueue [{ id := "a", kind := "k", queue := "q", partitionKey := "p" }]⟩,
    ⟨0, .enqueue [
      { id := "b", kind := "k", queue := "q", partitionKey := "p", stickyWorker := "w" }]⟩]

theorem gate_complete_pinnedPair :
    ∃ claimed, (admitCall 5 ⟨"w", "L1", ["q"], 2, 10, 2⟩ .increasing (exec pinnedPair)).2 =
      .ok claimed ∧ "a" ∈ claimed ∧ "b" ∈ claimed := by
  obtain ⟨-, claimed, hok, hall⟩ := gate_complete pinnedPair 5 ⟨"w", "L1", ["q"], 2, 10, 2⟩
    .increasing ⟨fun _ => rfl, rfl, fun _ => rfl⟩ (by decide) (by decide) (by decide +kernel)
    (by decide +kernel)
  refine ⟨claimed, hok, ?_, ?_⟩
  · exact hall "a" (newJob 0 (prepare
      { id := "a", kind := "k", queue := "q", partitionKey := "p" })) (by decide +kernel)
      (by decide +kernel) (by decide +kernel) (by decide +kernel) (by decide +kernel)
      (by decide +kernel)
  · exact hall "b" (newJob 0 (prepare
      { id := "b", kind := "k", queue := "q", partitionKey := "p", stickyWorker := "w" }))
      (by decide +kernel) (by decide +kernel) (by decide +kernel) (by decide +kernel)
      (by decide +kernel) (by decide +kernel)

/-- The ordinary job leaves and takes the token of the job pinned to `*` with it. -/
def starPinned : List Call :=
  [⟨0, .enqueue [
      { id := "a", kind := "k", queue := "q", partitionKey := "p", stickyWorker := "*" }]⟩,
    ⟨0, .enqueue [{ id := "b", kind := "k", queue := "q", partitionKey := "p" }]⟩,
    ⟨1, .admission ⟨"w", "L1", ["q"], 5, 10, 5⟩ .increasing⟩]

/-- The queue's name is cut at its comma on the way to the script. -/
def commaQueue : List Call := [⟨0, .enqueue [{ id := "a", kind := "k", queue := "q,r" }]⟩]

/-- Partition `r:p` of `q` and partition `p` of `q:r` share one stream. -/
def sharedStream : List Call :=
  [⟨0, .enqueue [{ id := "a", kind := "k", queue := "q:r", partitionKey := "p" }]⟩,
    ⟨1, .enqueue [{ id := "b", kind := "k", queue := "q", partitionKey := "r:p" }]⟩]

/-- Three due jobs that an admission by the right worker, with room for all due jobs of the
requested queue and no policy in its way, does not claim. -/
theorem gate_incomplete :
    (OpenGate (exec starPinned).policy ∧ (exec starPinned).policy.paused = ∅ ∧
      ((exec starPinned).job? "a").map (fun j => (j.isDue 2, j.queue, j.stickyWorker)) =
        some (true, "q", "*") ∧
      (crowd 2 ["q"] (exec starPinned)).card = 1 ∧
      (admitCall 2 ⟨"*", "L2", ["q"], 5, 10, 5⟩ .increasing (exec starPinned)).2.toOption =
        some []) ∧
    (OpenGate (exec commaQueue).policy ∧ (exec commaQueue).policy.paused = ∅ ∧
      ((exec commaQueue).job? "a").map (fun j => (j.isDue 2, j.queue, j.stickyWorker)) =
        some (true, "q,r", "") ∧
      (crowd 2 ["q,r"] (exec commaQueue)).card = 1 ∧
      (admitCall 2 ⟨"w", "L2", ["q,r"], 5, 10, 5⟩ .increasing (exec commaQueue)).2.toOption =
        some []) ∧
    (OpenGate (exec sharedStream).policy ∧ (exec sharedStream).policy.paused = ∅ ∧
      ((exec sharedStream).job? "b").map (fun j => (j.isDue 2, j.queue, j.stickyWorker)) =
        some (true, "q", "") ∧
      ((exec sharedStream).ids.filter fun id =>
        ((exec sharedStream).job? id).any fun j => j.isDue 2 && j.queue = "q").card = 1 ∧
      (admitCall 2 ⟨"w", "L2", ["q"], 1, 10, 1⟩ .increasing (exec sharedStream)).2.toOption =
        some []) := by
  -- a job pinned to "*", a comma in a queue name, a stream shared by two queues
  refine ⟨⟨⟨fun _ => rfl, rfl, fun _ => rfl⟩, by decide +kernel⟩,
    ⟨⟨fun _ => rfl, rfl, fun _ => rfl⟩, by decide +kernel⟩,
    ⟨fun _ => rfl, rfl, fun _ => rfl⟩, by decide +kernel⟩

end Headgate.Redis
