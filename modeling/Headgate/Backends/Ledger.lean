import Headgate.Mysql.Gate
import Headgate.Postgres.Visible
import Headgate.Redis.Decisions

/-!
# The deficit ledger of the three gates

Redis computes a partition's next deficit from the decisions of the call.  The
SQL gates insert a credit and merge it, and agree with the ledger as long as a
partition does not take more than its quantum.  SQLite keeps no deficits.
-/

namespace Headgate

open Headgate.Core Headgate.Data

/-! ## Section 1: MySQL -/

namespace Mysql

open Headgate.Sql

variable {overfetch now lim : Int} {req : AdmitRequest} {db : GateDb}

theorem chosen_subperm (overfetch now : Int) (req : AdmitRequest) (db : GateDb) (lim : Int) :
    ((chosen overfetch now req db lim).map Decision.cand).Subperm
      (candidates overfetch now req db lim) := by
  have hpool : ((eligiblePool overfetch now req db (candidates overfetch now req db lim)).map
      Decision.cand).Subperm (candidates overfetch now req db lim) := by
    unfold eligiblePool
    split
    · rw [eligFree_cands]
      exact List.filter_sublist.subperm
    · exact (eligPolicy_cands now req db _).subperm
  obtain ⟨l, hperm, hl⟩ : (chosen overfetch now req db lim).Subperm _ := eligible_subperm _
  exact ((hperm.map _).symm.subperm.trans (hl.map _).subperm).trans hpool

/-- Both arms keep to the share. -/
theorem chosen_rank {e : Decision} (he : e ∈ chosen overfetch now req db lim) :
    (e.cand.rankPart : Int) ≤ fairShare req db e.cand.part := by
  have hpool := (eligible_subperm _).subset he
  unfold eligiblePool at hpool
  split at hpool
  · obtain ⟨c, hc, rfl⟩ := List.mem_map.mp hpool
    simpa using (List.mem_filter.mp hc).2
  · have hready := policyReady_of_mem_eligPolicy hpool
    simp only [policyReady, Bool.and_eq_true, decide_eq_true_eq] at hready
    exact hready.2

/-- A named worker selects no row twice. -/
theorem chosen_selected (overfetch now : Int) (db : GateDb) (lim : Int)
    (hworker : req.worker ≠ "") : Selected req db (chosen overfetch now req db lim) where
  read e he := by
    have hcand := (chosen_subperm overfetch now req db lim).subset (List.mem_map_of_mem he)
    obtain ⟨q, -, hq⟩ := List.mem_flatMap.mp hcand
    exact (mem_drawPart hq).1
  ulids := by
    have hcands : ((candidates overfetch now req db lim).map Candidate.ulid).Nodup :=
      drawParts_ulids_nodup (.inr hworker) (activeParts_nodup overfetch) _
    obtain ⟨l, hperm, hl⟩ := chosen_subperm overfetch now req db lim
    have hnodup := (hperm.map Candidate.ulid).nodup_iff.mp ((hl.map Candidate.ulid).nodup hcands)
    rwa [List.map_map] at hnodup
  share _ := length_le_of_rank_le (activeParts_nodup overfetch)
    (chosen_subperm overfetch now req db lim) fun _ he hpart => hpart ▸ chosen_rank he
  capacity := List.length_take_le _ _

/-- The partitions that the deciding pass of a call draws from. -/
def callParts (overfetch now : Int) (req : AdmitRequest) (db : GateDb) : List Part :=
  seenParts overfetch now req (seeded overfetch req db)
    (decidingLimit overfetch now req (seeded overfetch req db))

theorem admitTx_charged {db' : GateDb} {rows : List (String × Job)} {p : Part}
    (hcall : admitTx overfetch now req db = .ok (db', rows)) (hworker : req.worker ≠ "")
    (hquantum : 0 ≤ req.quantum) (hstored : ∀ deficit, db.deficits p = some deficit → 0 ≤ deficit)
    (hseen : p ∈ callParts overfetch now req db) : Charged req db db' p := by
  have hselected := chosen_selected overfetch now (seeded overfetch req db)
    (decidingLimit overfetch now req (seeded overfetch req db)) hworker
  unfold admitTx at hcall
  split at hcall
  · have hcall := Except.ok.inj hcall
    unfold settle at hcall
    rw [if_pos rfl, locked_eq hselected.read] at hcall
    obtain ⟨hdb, -⟩ := Prod.mk.inj hcall
    have hjobs : db'.jobs = settleJobs gateDialect now req (seeded overfetch req db)
        (chosen overfetch now req (seeded overfetch req db)
          (decidingLimit overfetch now req (seeded overfetch req db))) := by
      rw [← hdb]
    have hdeficit : db'.deficits p = some (chargedDeficit req ((seeded overfetch req db).deficits p)
        (decisionsIn (seeded overfetch req db) (chosen overfetch now req (seeded overfetch req db)
          (decidingLimit overfetch now req (seeded overfetch req db))) p)) := by
      rw [← hdb]
      exact if_pos hseen
    -- the rows created beforehand are neither jobs nor deficits
    have hcharged := hselected.charged hjobs hdeficit hquantum hstored
    exact ⟨hcharged.share, hcharged.law_iff, hcharged.law⟩
  · cases hcall

end Mysql

/-! ## Section 2: Postgres -/

theorem Postgres.admitQueries_charged {overfetch now : Int} {req : AdmitRequest}
    {db db' : Sql.GateDb} {rows : List (String × Sql.Job)} {p : Sql.Part}
    (hcall : Postgres.admitQueries overfetch now req db = .ok (db', rows))
    (hquantum : 0 ≤ req.quantum) (hstored : ∀ deficit, db.deficits p = some deficit → 0 ≤ deficit)
    (hseen : p ∈ Postgres.seenParts overfetch now req db true) : Sql.Charged req db db' p := by
  obtain ⟨hjobs, hdeficits, -⟩ := Postgres.admitQueries_ok hcall
  apply (Postgres.chosen_selected overfetch now req db true).charged hjobs _ hquantum hstored
  rw [hdeficits]
  exact if_pos hseen

/-! ## Section 3: The three gates -/

/-- **The deficit ledger.**  The decisions of a partition stay within its carried deficit and one
quantum on every gate.  Redis stores the deficit that the ledger asks for.  Postgres and MySQL do
so exactly if the partition took no more than its quantum, or carried so much that the cap hides
the difference. -/
theorem deficit_ledger (now : Int) (req : AdmitRequest) :
    -- Redis, in every state that a run can reach
    (∀ calls order queue part, 1 ≤ req.leaseMs → 0 ≤ req.quantum →
      Redis.NamesApart calls req →
      (∀ q ∈ Redis.requestQueues req, Redis.Without '\x00' q) →
      Redis.DrawnFrom now req (Redis.exec calls) queue part →
      let s := Redis.exec calls
      let s' := (Redis.admitCall now req order s).1
      ((Redis.decidedIn s s' queue part).card : Int) ≤ s.policy.deficit queue part + req.quantum ∧
      s'.policy.deficit queue part = Sql.ledgerLaw req.quantum (s.policy.deficit queue part)
        (Redis.decidedIn s s' queue part).card)
    -- Postgres
    ∧ (∀ overfetch db db' rows p, 0 ≤ req.quantum →
      (∀ deficit, db.deficits p = some deficit → 0 ≤ deficit) →
      Postgres.admitQueries overfetch now req db = .ok (db', rows) →
      p ∈ Postgres.seenParts overfetch now req db true → Sql.Charged req db db' p)
    -- MySQL, for a named worker
    ∧ (∀ overfetch db db' rows p, 0 ≤ req.quantum → req.worker ≠ "" →
      (∀ deficit, db.deficits p = some deficit → 0 ≤ deficit) →
      Mysql.admitTx overfetch now req db = .ok (db', rows) →
      p ∈ Mysql.callParts overfetch now req db → Sql.Charged req db db' p) := by
  refine ⟨?_, ?_, ?_⟩
  · intro calls order queue part hlease hquantum hnames hkeys hdrawn
    have hqueue := hkeys queue hdrawn.requested
    exact ⟨Redis.admitCall_share order hkeys hlease hnames hquantum hqueue,
      Redis.admitCall_deficit order hkeys hlease hnames hdrawn⟩
  · intro overfetch db db' rows p hquantum hstored hcall hseen
    exact Postgres.admitQueries_charged hcall hquantum hstored hseen
  · intro overfetch db db' rows p hquantum hworker hstored hcall hseen
    exact Mysql.admitTx_charged hcall hworker hquantum hstored hseen

/-- Three jobs of a partition that carries a deficit. -/
def carriedCredit (deficit : Int) : Sql.GateDb where
  jobs := Table.empty.insertRows [
    ("a", Sql.baseJob 0 { queue := "q" }),
    ("b", Sql.baseJob 0 { queue := "q" }),
    ("c", Sql.baseJob 0 { queue := "q" })]
  buckets := .empty
  quarantine := .empty
  limits := .empty
  activePartitions := Table.empty.insert ("q", "") ()
  queueStates := fun _ => none
  deficits := fun _ => some deficit
  inflight := fun _ => none

def threeJobs : AdmitRequest where
  worker := "w"
  leaseId := "l"
  queues := ["q"]
  capacity := 3
  leaseMs := 1000
  quantum := 1

/-- Without a carried deficit one job is taken and the ledger is exact. -/
theorem deficit_ledger_noCredit :
    ∃ db' rows, Postgres.admitQueries 8 5 threeJobs (carriedCredit 0) = .ok (db', rows) ∧
      Sql.decidedIn (carriedCredit 0) db' ("q", "") = 1 ∧
      db'.deficits ("q", "") = some (Sql.ledgerLaw 1 0 1) := by
  refine ⟨_, _, rfl, by decide +kernel, ?_⟩
  have hcharged := (deficit_ledger 5 threeJobs).2.1 8 (carriedCredit 0) _ _ ("q", "") (by decide)
    (by rintro deficit hdeficit; cases hdeficit; decide) rfl (by decide +kernel)
  exact hcharged.law (.inl rfl)

/-- Three jobs taken on a deficit of four and a quantum of one leave two; both SQL gates leave
four. -/
theorem credit_not_spent :
    (∃ db' rows, Postgres.admitQueries 8 5 threeJobs (carriedCredit 4) = .ok (db', rows) ∧
      Sql.decidedIn (carriedCredit 4) db' ("q", "") = 3 ∧
      db'.deficits ("q", "") = some 4 ∧ Sql.ledgerLaw 1 4 3 = 2) ∧
    (∃ db' rows, Mysql.admitTx 8 5 threeJobs (carriedCredit 4) = .ok (db', rows) ∧
      Sql.decidedIn (carriedCredit 4) db' ("q", "") = 3 ∧
      db'.deficits ("q", "") = some 4) := by
  refine ⟨⟨_, _, rfl, ?_, ?_, ?_⟩, ⟨_, _, rfl, ?_, ?_⟩⟩
  all_goals decide +kernel

end Headgate
