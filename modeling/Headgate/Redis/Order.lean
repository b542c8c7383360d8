import Headgate.Data.Ordered
import Headgate.Redis.Meeting

/-!
# Order within a partition

A queue's candidates are met in the order of priority, due time and id.  So within
a call a job of a partition that is claimed comes before any job of the partition
that was drawn, let through by the policies and still waits.

What was not drawn is another matter.  The draw takes jobs by due time, as many as
the partition has credit, before anything is sorted by priority: a job of high
priority that fell due late is not even looked at.  The order holds for the whole
partition if what the draw leaves out comes after what it takes.
-/

namespace Headgate.Redis

open Headgate.Core Data Relation

variable {req : AdmitRequest}

/-! ## Section 1: The order of candidates -/

/-- Priority descending, then due time, then id, as a key. -/
def Candidate.rank (c : Candidate) : Int ×ₗ Int ×ₗ String :=
  toLex (-c.job.priority, toLex (c.job.scheduledAtMs, c.id))

theorem Candidate.before_iff (a b : Candidate) : a.before b = true ↔ a.rank < b.rank := by
  unfold Candidate.before Candidate.rank
  rw [Prod.Lex.toLex_lt_toLex, Prod.Lex.toLex_lt_toLex]
  by_cases hprio : a.job.priority = b.job.priority
  · rw [if_neg (not_not.mpr hprio)]
    by_cases hdue : a.job.scheduledAtMs = b.job.scheduledAtMs
    · rw [if_neg (not_not.mpr hdue)]
      simp [hprio, hdue]
    · rw [if_pos hdue]
      simp [hprio, hdue]
  · rw [if_pos hprio]
    simp [hprio]

theorem Candidate.id_eq_of_rank {a b : Candidate} (h : a.rank = b.rank) : a.id = b.id := by
  unfold Candidate.rank at h
  rw [toLex_inj, Prod.mk.injEq, toLex_inj, Prod.mk.injEq] at h
  exact h.2.2

theorem sortCandidates_eq (cs : List Candidate) :
    sortCandidates cs = orderBy Candidate.rank cs := by
  have hrel : (fun a b : Candidate => b.before a = false) = fun a b => a.rank ≤ b.rank := by
    funext a b
    rw [← not_lt, ← Candidate.before_iff, Bool.not_eq_true]
  unfold sortCandidates orderBy
  congr!

theorem nodup_rank {cs : List Candidate} (h : (cs.map Candidate.id).Nodup) :
    (cs.map Candidate.rank).Nodup := by
  rw [List.nodup_map_iff_inj_on (List.Nodup.of_map _ h)]
  intro a ha b hb hrank
  exact List.inj_on_of_nodup_map h ha hb (Candidate.id_eq_of_rank hrank)

/-- Candidates in the order the loop meets them. -/
def Sorted (l : Selection) : Prop :=
  ∀ q, (l.cands q).Pairwise fun a b => a.rank < b.rank

theorem Sorted.round {now : Int} {l : Selection} {q : String} {c : Candidate}
    {rest : List Candidate} (h : Sorted l) (hc : l.cands q = c :: rest) :
    Sorted (afterRound now req q c rest l) := by
  intro q'
  unfold afterRound
  rw [considerCandidate_cands]
  dsimp only
  by_cases hq : q' = q
  · subst hq
    have hself := h q'
    rw [hc, List.pairwise_cons] at hself
    rw [Function.update_self]
    exact hself.2
  · rw [Function.update_of_ne hq]
    exact h q'

theorem loopStart_sorted {calls : List Call} (now : Int) (order : SetOrder String)
    (hnames : NamesApart calls req) :
    Sorted (loopStart now req order (exec calls)) := by
  have hnodup : ∀ q, (((loopStart now req order (exec calls)).cands q).map Candidate.id).Nodup :=
    (loopStart_ok now order hnames).standing.nodup
  obtain ⟨routes, hstart⟩ := loopStart_eq now req order (exec calls)
  rw [hstart] at hnodup ⊢
  intro q
  have hids := hnodup q
  show (drawnCands now req order (requestQueues req) (exec calls) q).Pairwise _
  have hids' : ((drawnCands now req order (requestQueues req) (exec calls) q).map
    Candidate.id).Nodup := hids
  unfold drawnCands queueCands at hids' ⊢
  split
  · rename_i hq
    rw [if_pos hq] at hids'
    split
    · exact List.Pairwise.nil
    · rename_i hpaused
      rw [if_neg hpaused, sortCandidates_eq] at hids'
      rw [sortCandidates_eq]
      -- ids are distinct, so no two candidates have one rank
      apply orderBy_strict
      apply nodup_rank
      exact ((orderBy_perm _ _).map Candidate.id).nodup_iff.mp hids'
  · exact List.Pairwise.nil

/-! ## Section 2: Drawn jobs -/

section
variable {now : Int} {weight : String → Int} {queues : List String} {start l m : Selection}
  {q : String} {c d : Candidate} {rest : List Candidate} {s : Store}

/-- When a candidate is met, the candidates of its queue that come before it have been met. -/
theorem Meets.met_before (hsorted : Sorted start)
    (h : Meets now req weight queues start q c rest m) (hd : d ∈ start.cands q)
    (hbefore : d.rank < c.rank) :
    ∃ l rest', Meets now req weight queues start q d rest' l ∧
      Passes now req weight queues (afterRound now req q d rest' l) m := by
  rcases h.path.met hd with hin | hmet
  · -- it cannot stand behind the head of a sorted list
    have hm : Sorted m :=
      h.path.preserves (P := Sorted) (fun _ _ _ _ hmeets hl => hl.round hmeets.next) hsorted
    have hlist := hm q
    rw [h.next, List.pairwise_cons] at hlist
    rw [h.next] at hin
    rcases List.mem_cons.mp hin with rfl | hin
    · exact absurd hbefore (lt_irrefl _)
    · exact absurd hbefore (lt_asymm (hlist.1 d hin))
  · exact hmet

/-- A candidate that was met before a claimed one of its partition, and still waits, was held
back by a policy: the credit that sufficed for the claim sufficed for it. -/
theorem refusal_of_waiting (hok : LoopOk now s start) (hplain : ∀ q ∈ queues, Without ':' q)
    (hd : Meets now req weight queues start q d rest l)
    (hpath : Passes now req weight queues (afterRound now req q d rest l) m)
    {rest' : List Candidate} (hc : Meets now req weight queues start q c rest' m)
    (hclaim : (gateVerdict now req q c (m.pop q rest')).2 = some .claim)
    (hpart : c.job.partitionKey = d.job.partitionKey) {final : Selection}
    (hfinal : Passes now req weight queues m final) {j : Job}
    (row : final.store.job? d.id = some j) (waiting : j.state.isWaiting = true) :
    Refusal now req q d (l.pop q rest) := by
  have hl : LoopOk now s l := hok.passes hplain hd.path
  have hafter : LoopOk now s (afterRound now req q d rest l) := hok.passes hplain hd.after
  have hm : LoopOk now s m := hok.passes hplain hc.path
  rcases hl.decided req hd.next with hnone | ⟨k, hk, hidle⟩
  · rcases refusal_of_none hnone with hrefusal | hcredit
    · exact hrefusal
    · -- no credit for the first, so none for the second
      exfalso
      have hclaimed := passDeficit_iff.mp (passDeficit_of_some hclaim)
      have hshort := mt passDeficit_iff.mpr (Bool.eq_false_iff.mp hcredit)
      apply hshort
      have hmono := hpath.takenPart_le (tableKey q d.job.partitionKey)
      have hround : l.takenPart (tableKey q d.job.partitionKey) ≤
          (afterRound now req q d rest l).takenPart (tableKey q d.job.partitionKey) :=
        considerCandidate_takenPart (l := l.pop q rest) _
      have hsame : ∀ p, deficit req.quantum q p m.store = deficit req.quantum q p l.store := by
        intro p
        unfold deficit
        rw [hm.rules.deficit, hl.rules.deficit]
      rw [hpart] at hclaimed
      have hlimit := hsame d.job.partitionKey
      dsimp only at hclaimed ⊢
      omega
  · -- decided jobs do not wait
    exfalso
    obtain ⟨k', hk', hidle'⟩ := (hpath.trans hfinal).not_waiting hafter.ok hk hidle
    rw [row] at hk'
    cases hk'
    rw [waiting] at hidle'
    cases hidle'

end

/-! ## Section 3: The whole partition -/

/-- A due job of the partition that any worker may run. -/
@[mk_iff]
structure DueIn (now : Int) (queue part : String) (j : Job) : Prop where
  due : j.isDue now = true
  queue : j.queue = queue
  part : j.partitionKey = part
  free : j.stickyWorker = ""

instance (now : Int) (queue part : String) (j : Job) : Decidable (DueIn now queue part j) :=
  decidable_of_iff' _ (dueIn_iff ..)

/-- Where the call draws the partition, what it leaves out comes after what it takes. -/
def LeavesLast (now : Int) (req : AdmitRequest) (queue part : String) (s : Store) : Prop :=
  queue ∈ requestQueues req → queue ∉ s.policy.paused →
    ∀ c ∈ partCands now req queue part s,
      ∀ id ∈ s.ids, ∀ j ∈ s.job? id, DueIn now queue part j →
        ⟨id, j⟩ ∉ partCands now req queue part s → c.before ⟨id, j⟩ = true

instance (now : Int) (req : AdmitRequest) (queue part : String) (s : Store) :
    Decidable (LeavesLast now req queue part s) := by
  unfold LeavesLast
  infer_instance

/-- The job is due for any worker, and the call leaves it waiting without having held it back by
quarantine, rate or ceiling. -/
structure PassedOver (now : Int) (req : AdmitRequest) (order : SetOrder String)
    (queue part : String) (s : Store) (id : String) (j : Job) : Prop where
  row : s.job? id = some j
  dueIn : DueIn now queue part j
  still : ∃ j', (admitCall now req order s).1.job? id = some j' ∧ j'.state.isWaiting = true
  passed : ¬ Refused now req order s id

/-- The call claims the jobs of a partition in order. -/
def InOrder (now : Int) (req : AdmitRequest) (order : SetOrder String) (queue part : String)
    (s : Store) : Prop :=
  ∀ claimed ∈ admitted now req order s, ∀ jc, s.job? claimed = some jc → jc.queue = queue →
    jc.partitionKey = part → ∀ id j, PassedOver now req order queue part s id j →
      Candidate.before ⟨claimed, jc⟩ ⟨id, j⟩ = true

/-- Among drawn jobs the order holds in any case. -/
theorem before_of_drawn {calls : List Call} {now : Int} {order : SetOrder String}
    (hnames : NamesApart calls req) {claimed id : String} {jc j : Job}
    (hclaimed : claimed ∈ admitted now req order (exec calls))
    (rowc : (exec calls).job? claimed = some jc)
    (h : PassedOver now req order jc.queue jc.partitionKey (exec calls) id j)
    (hin : ⟨id, j⟩ ∈ partCands now req jc.queue jc.partitionKey (exec calls)) :
    Candidate.before ⟨claimed, jc⟩ ⟨id, j⟩ = true := by
  obtain ⟨hlease, m, rest, hmeets, hrun, hverdict, hpaused, hlisted, -⟩ :=
    admitted_met hnames hclaimed rowc
  rw [Candidate.before_iff]
  by_contra hnot
  have hok := loopStart_ok now order hnames
  obtain ⟨j', row', waiting⟩ := h.still
  rw [admitCall_job? hlease] at row'
  have hq : jc.queue ∈ requestQueues req := (chooseQueue_mem hmeets.chosen).1
  have hstart : (⟨id, j⟩ : Candidate) ∈ (loopStart now req order (exec calls)).cands jc.queue :=
    mem_loopStart.mpr ⟨hq, mem_queueCands.mpr ⟨hpaused, jc.partitionKey, hlisted, hin⟩⟩
  have hone : Passes now req (qweight (exec calls)) (requestQueues req) m
      (afterRound now req jc.queue ⟨claimed, jc⟩ rest m) :=
    .round .here hmeets.room hmeets.chosen hmeets.next
  have hother : (⟨claimed, jc⟩ : Candidate).rank ≠ Candidate.rank ⟨id, j⟩ := by
    -- the claimed job does not wait
    intro hrank
    have hsame : claimed = id := Candidate.id_eq_of_rank hrank
    subst hsame
    rcases (hok.passes hnames.requested hmeets.path).decided req hmeets.next with
      hnone | ⟨k, hk, hidle⟩
    · rw [hverdict] at hnone
      cases hnone
    · obtain ⟨k', hk', hidle'⟩ :=
        hrun.not_waiting (hok.passes hnames.requested hmeets.after).ok hk hidle
      have hsame : k' = j' := Option.some.inj (hk'.symm.trans row')
      rw [← hsame, hidle'] at waiting
      cases waiting
  have hbefore : Candidate.rank ⟨id, j⟩ < Candidate.rank ⟨claimed, jc⟩ :=
    lt_of_le_of_ne (not_lt.mp hnot) hother.symm
  -- the one that comes first was met first
  obtain ⟨l, rest', hd, hbetween⟩ := hmeets.met_before (loopStart_sorted now order hnames) hstart
    hbefore
  exact h.passed ⟨l, jc.queue, ⟨id, j⟩, rest', rfl, hd,
    refusal_of_waiting hok hnames.requested hd hbetween hmeets hverdict h.dueIn.part.symm
      (hone.trans hrun) row' waiting⟩

/-- **Order within a partition.**  In a run with well-told names, a call claims the jobs of a
partition in order if the draw leaves the last ones out.  If it does claim them in order, then
what the draw leaves out comes after what is claimed. -/
theorem admit_order (calls : List Call) (now : Int) (req : AdmitRequest) (order : SetOrder String)
    (hnames : NamesApart calls req) (queue part : String) :
    (LeavesLast now req queue part (exec calls) →
      InOrder now req order queue part (exec calls)) ∧
    (InOrder now req order queue part (exec calls) →
      ∀ c ∈ partCands now req queue part (exec calls), c.id ∈ admitted now req order (exec calls) →
        c.job.queue = queue → c.job.partitionKey = part →
          ∀ id j, (exec calls).job? id = some j → DueIn now queue part j →
            ⟨id, j⟩ ∉ partCands now req queue part (exec calls) → c.before ⟨id, j⟩ = true) := by
  constructor
  · rintro hlast claimed hclaimed jc rowc rfl rfl id j h
    by_cases hin : (⟨id, j⟩ : Candidate) ∈ partCands now req jc.queue jc.partitionKey (exec calls)
    · exact before_of_drawn hnames hclaimed rowc h hin
    · -- a claimed job's partition was drawn
      obtain ⟨-, m, rest, hmeets, -, -, hpaused, -, hdrawn⟩ :=
        admitted_met hnames hclaimed rowc
      have hmem : id ∈ (exec calls).ids := (Store.mem_ids _ id).mpr ⟨j, h.row⟩
      exact hlast (chooseQueue_mem hmeets.chosen).1 hpaused _ hdrawn id hmem j h.row h.dueIn hin
  · rintro horder c hc hclaimed rfl hpart id j row hdue hout
    have waiting := (isDue_iff.mp hdue.due).1
    obtain ⟨hids, hcand⟩ := mem_partCands_ids hc
    -- queue names are kept apart, so no other queue has drawn it either
    have hnone : ∀ q, ⟨id, j⟩ ∉ (loopStart now req order (exec calls)).cands q := by
      intro q hin
      obtain ⟨rfl, -, -, -, hdrawn⟩ := mem_loopStart_own hnames hin
      rw [hdue.queue, hdue.part] at hdrawn
      exact hout hdrawn
    obtain ⟨hrow, hpassed⟩ := admitCall_undrawn hnames row waiting hnone
    exact horder c.id hclaimed c.job (candidate?_eq_some hcand).2.1 rfl hpart id j
      ⟨row, hdue, ⟨j, hrow, waiting⟩, hpassed⟩

/-- A job of high priority falls due after one of low priority. -/
def urgentLast : List Call :=
  [⟨0, .enqueue [{ id := "a", kind := "k", queue := "q", partitionKey := "p" }]⟩,
    ⟨1, .enqueue [{ id := "b", kind := "k", queue := "q", partitionKey := "p", priority := 10 }]⟩]

theorem admit_order_urgentLast :
    admitted 2 ⟨"w", "L", ["q"], 1, 10, 2⟩ .increasing (exec urgentLast) = ["b"] ∧
      InOrder 2 ⟨"w", "L", ["q"], 1, 10, 2⟩ .increasing "q" "p" (exec urgentLast) := by
  refine ⟨by decide +kernel, ?_⟩
  exact (admit_order urgentLast 2 ⟨"w", "L", ["q"], 1, 10, 2⟩ .increasing (by decide +kernel)
    "q" "p").1 (by decide +kernel)

/-- With a quantum of one, only the job that fell due first is drawn: it is claimed, and the one
of high priority waits. -/
theorem order_inverted :
    admitted 2 ⟨"w", "L", ["q"], 1, 10, 1⟩ .increasing (exec urgentLast) = ["a"] ∧
      ¬ InOrder 2 ⟨"w", "L", ["q"], 1, 10, 1⟩ .increasing "q" "p" (exec urgentLast) := by
  have hclaimed : admitted 2 ⟨"w", "L", ["q"], 1, 10, 1⟩ .increasing (exec urgentLast) = ["a"] := by
    decide +kernel
  have hnames : NamesApart urgentLast ⟨"w", "L", ["q"], 1, 10, 1⟩ := by decide +kernel
  refine ⟨hclaimed, fun horder => ?_⟩
  obtain ⟨ja, rowa, hqueue, hpart, hprioa⟩ : ∃ ja, (exec urgentLast).job? "a" = some ja ∧
      ja.queue = "q" ∧ ja.partitionKey = "p" ∧ ja.priority = 0 :=
    ⟨_, rfl, rfl, rfl, rfl⟩
  obtain ⟨jb, rowb, hdue, waiting, hpriob, hout⟩ : ∃ jb, (exec urgentLast).job? "b" = some jb ∧
      DueIn 2 "q" "p" jb ∧ jb.state.isWaiting = true ∧ jb.priority = 10 ∧
      ⟨"b", jb⟩ ∉ partCands 2 ⟨"w", "L", ["q"], 1, 10, 1⟩ "q" "p" (exec urgentLast) :=
    ⟨_, rfl, by decide +kernel, rfl, rfl, by decide +kernel⟩
  -- the urgent job stands behind the draw of one
  have hnone : ∀ q, ⟨"b", jb⟩ ∉ (loopStart 2 ⟨"w", "L", ["q"], 1, 10, 1⟩ .increasing
      (exec urgentLast)).cands q := by
    intro q hin
    obtain ⟨rfl, -, -, -, hdrawn⟩ := mem_loopStart_own hnames hin
    rw [hdue.queue, hdue.part] at hdrawn
    exact hout hdrawn
  obtain ⟨hrow, hpassed⟩ := admitCall_undrawn hnames rowb waiting hnone
  have hbefore := horder "a" (by rw [hclaimed]; exact List.mem_cons_self) ja rowa hqueue hpart "b"
    jb ⟨rowb, hdue, ⟨jb, hrow, waiting⟩, hpassed⟩
  unfold Candidate.before at hbefore
  simp [hprioa, hpriob] at hbefore

end Headgate.Redis
