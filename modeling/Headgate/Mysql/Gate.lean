import Headgate.Sql.Gate

/-!
# `admit_tx`

The MySQL gate is a transaction: it locks the buckets, creates the rows that
later statements update, and runs `eligible.sql` with a narrow window and, if
that asks for it, with the wide one.  The query is pure, so a pass that asks to
be widened has nothing to undo.
-/

namespace Headgate.Mysql

open Headgate.Core Data Sql

def gateDialect : GateDialect where
  guardsWorker := false
  unnamedSpends := false
  unnamedCharges := true

def negativeLimit : StoreError := .backend "Incorrect arguments to LIMIT"

section Transaction
variable (overfetch now : Int) (req : AdmitRequest) (db : GateDb)

/-! ## Section 1: Rows created beforehand -/

/-- Every requested queue has a row, and every partition that may be drawn a counter. -/
def seeded : GateDb :=
  { db with
    queueStates := fun queue =>
      if (normalizeQueues req.queues).contains queue then some (queueState db queue)
      else db.queueStates queue
    inflight := fun p =>
      if (activeParts req db overfetch).contains p then some ((db.inflight p).getD 0)
      else db.inflight p }

/-! ## Section 2: `eligible.sql` -/

/-- `pol.free`. -/
def policyFree : Bool :=
  db.buckets.entries.isEmpty && db.quarantine.entries.isEmpty
    && (activeParts req db overfetch).all fun p => (db.limits.get p.1).isNone

def wideLimit : Int := req.quantum * 4

def narrowLimit : Int :=
  let parts : Int := max (activeParts req db overfetch).length 1
  min (wideLimit req) ((req.capacity + parts - 1) / parts + 1)

def candidates (lim : Int) : List Candidate :=
  (activeParts req db overfetch).flatMap (drawPart gateDialect now req db lim)

/-- The partitions that had a candidate. -/
def seenParts (lim : Int) : List Part :=
  (activeParts req db overfetch).filter fun p =>
    !(drawPart gateDialect now req db lim p).isEmpty

/-- The policy-free arm still keeps to the fair share. -/
def eligiblePool (cands : List Candidate) : List Decision :=
  if policyFree overfetch req db then
    eligFree (cands.filter fun c => c.rankPart ≤ fairShare req db c.part)
  else eligPolicy now req db cands

def chosen (lim : Int) : List Decision :=
  eligible req db (eligiblePool overfetch now req db (candidates overfetch now req db lim))

def eligZ (selected : List Decision) : Option Decision :=
  if req.capacity ≤ selected.length then (orderBy Decision.key selected).getLast? else none

def partWidens (lim : Int) (p : Part) : Bool :=
  let rows := drawPart gateDialect now req db lim p
  match rows.getLast? with
  | none => false
  | some tail =>
    lim ≤ rows.length && lim < wideLimit req
      && (1 < ((activeParts req db overfetch).map Prod.fst).dedup.length
        || match eligZ req (chosen overfetch now req db lim) with
          | none => true
          | some z => tail.key < z.key)

def widens (lim : Int) : Bool :=
  0 < req.capacity && (activeParts req db overfetch).any (partWidens overfetch now req db lim)

/-! ## Section 3: The transaction -/

/-- The window of the pass that decides. -/
def decidingLimit : Int :=
  if widens overfetch now req db (narrowLimit overfetch req db)
      && narrowLimit overfetch req db ≠ wideLimit req then wideLimit req
  else narrowLimit overfetch req db

/-- `admit_tx`, for a request that names a queue. -/
def admitTx : Except StoreError (GateDb × List (String × Job)) :=
  if 0 ≤ req.capacity * overfetch ∧ 0 ≤ wideLimit req then
    let db := seeded overfetch req db
    let lim := decidingLimit overfetch now req db
    .ok (settle gateDialect now req db true (seenParts overfetch now req db lim)
      (chosen overfetch now req db lim))
  else .error negativeLimit

end Transaction

end Headgate.Mysql
