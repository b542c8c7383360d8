import Headgate.Sql.Gate

/-!
# `admit.sql`

One statement, issued with a narrow window first and again with a wide one if
the narrow window may have hidden a row that belongs in the answer.  A pass that
asks to be widened locks, spends and charges nothing.
-/

namespace Headgate.Postgres

open Headgate.Core Data Sql

def gateDialect : GateDialect where
  guardsWorker := true
  unnamedSpends := true
  unnamedCharges := false

/-- A query with a negative limit fails. -/
def negativeLimit : StoreError := .backend "LIMIT must not be negative"

section Pass
variable (overfetch now : Int) (req : AdmitRequest) (db : GateDb)

/-! ## Section 1: The window -/

/-- `pol.free`: nothing that the policy clauses read exists. -/
def policyFree : Bool :=
  db.buckets.entries.isEmpty && db.quarantine.entries.isEmpty
    && (db.limits.select fun queue _ => req.queues.contains queue).isEmpty

/-- `draw.lim`: a share of the capacity and one row, or the wide window. -/
def drawLimit (wide : Bool) : Int :=
  let parts : Int := max (activeParts req db overfetch).length 1
  if wide then req.quantum * 4
  else min (req.quantum * 4) ((req.capacity + parts - 1) / parts + 1)

/-- The exact bound of the policy-free arm. -/
def freeBound (p : Part) : Int :=
  min (req.quantum * 4) (min (fairShare req db p) (max (req.capacity : Int) 1))

/-- `route_draw.lim`. -/
def routeLimit (wide : Bool) (p : Part) : Int :=
  if policyFree req db then min (freeBound req db p) (drawLimit overfetch req db wide)
  else drawLimit overfetch req db wide

/-- `chain.needed`: could the window have hidden anything at all? -/
def chainNeeded (wide : Bool) : Bool :=
  !wide && (!policyFree req db || (activeParts req db overfetch).any fun p =>
    drawLimit overfetch req db wide < freeBound req db p)

/-! ## Section 2: One pass -/

/-- The rows drawn from one partition. -/
def drawn (wide : Bool) (p : Part) : List Candidate :=
  drawPart gateDialect now req db (routeLimit overfetch req db wide p) p

def candidates (wide : Bool) : List Candidate :=
  (activeParts req db overfetch).flatMap (drawn overfetch now req db wide)

/-- The partitions that had a candidate. -/
def seenParts (wide : Bool) : List Part :=
  (activeParts req db overfetch).filter fun p => !(drawn overfetch now req db wide p).isEmpty

/-- `eligible_pool`: one of the two arms has rows. -/
def eligiblePool (cands : List Candidate) : List Decision :=
  if policyFree req db then eligFree cands else eligPolicy now req db cands

def chosen (wide : Bool) : List Decision :=
  eligible req db (eligiblePool now req db (candidates overfetch now req db wide))

/-- `elig_z`: the row the final limit stops at, if it stops at one. -/
def eligZ (selected : List Decision) : Option Decision :=
  if req.capacity ≤ selected.length then (orderBy Decision.key selected).getLast? else none

/-- The queues in `queue_policy`. -/
def queueCount : Nat := ((activeParts req db overfetch).map Prod.fst).dedup.length

/-- Did the window cut a partition off before the last row that was selected? -/
def partWidens (wide : Bool) (p : Part) : Bool :=
  let rows := drawn overfetch now req db wide p
  let lim := drawLimit overfetch req db wide
  match rows.getLast? with
  | none => false
  | some tail =>
    lim ≤ rows.length && lim < req.quantum * 4
      && (1 < queueCount overfetch req db
        || match eligZ req (chosen overfetch now req db wide) with
          | none => true
          | some z => tail.key < z.key)

/-- `verdict.widen`. -/
def widens (wide : Bool) : Bool :=
  chainNeeded overfetch req db wide && 0 < req.capacity
    && (activeParts req db overfetch).any (partWidens overfetch now req db wide)

/-- Does every `LIMIT` of the statement have a value Postgres accepts? -/
def limitsOk (wide : Bool) : Bool :=
  ((normalizeQueues req.queues).isEmpty || 0 ≤ req.capacity * overfetch)
    && (activeParts req db overfetch).all fun p => 0 ≤ routeLimit overfetch req db wide p

/-- What a pass leaves behind. -/
structure PassResult where
  db : GateDb
  claims : List (String × Job)
  widen : Bool

/-- `admit.sql` with the given window. -/
def admitPass (wide : Bool) : Except StoreError PassResult :=
  if limitsOk overfetch req db wide then
    let widen := widens overfetch now req db wide
    let r := settle gateDialect now req db (!widen) (seenParts overfetch now req db wide)
      (chosen overfetch now req db wide)
    .ok ⟨r.1, r.2, widen⟩
  else .error negativeLimit

end Pass

/-- The driver: a pass that asks to be widened is followed by the next one. -/
def admitPasses (overfetch now : Int) (req : AdmitRequest) :
    List Bool → GateDb → Except StoreError (GateDb × List (String × Job))
  | [], db => .ok (db, [])
  | wide :: rest, db =>
    match admitPass overfetch now req db wide with
    | .error e => .error e
    | .ok r => if r.widen then admitPasses overfetch now req rest r.db else .ok (r.db, r.claims)

/-- The passes of `PgStore::admit`: narrow, then wide. -/
def admitQueries (overfetch now : Int) (req : AdmitRequest) (db : GateDb) :
    Except StoreError (GateDb × List (String × Job)) :=
  admitPasses overfetch now req [false, true] db

end Headgate.Postgres
