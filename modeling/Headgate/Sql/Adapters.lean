import Headgate.Sql.Enqueue

/-!
# The Postgres and MySQL adapters

Rust and Go adapters of one database issue the same statements up to details of
the replacement.  Only the Rust adapter for Postgres scopes unique keys inside
`enqueue_on`; the other three scope them in the plain call.
-/

namespace Headgate.Sql

open Headgate.Core Data

/-! ## Section 1: Rows -/

/-- A `u32` written to a signed column: `as i32` in Rust, `int32(…)` in Go. -/
def asI32 (n : Nat) : Int := Int.bmod n (2 ^ 32)

/-- The columns both dialects fill alike. -/
def baseJob (now : Int) (e : Envelope) : Job where
  kind := e.kind
  schemaVersion := effectiveSchemaVersion e.schemaVersion
  payload := e.payload
  queue := enqueueQueue e
  partitionKey := e.partitionKey
  rateClass := e.rateClass
  weight := effectiveWeight e.weight
  rateCharge := 0
  fingerprint := e.fingerprint
  priority := e.priority
  attempt := 0
  crashAttempt := 0
  maxAttempts := effectiveMaxAttempts e.maxAttempts
  enqueuedAtMs := now
  scheduledAtMs := dueAt now e
  timeoutMs := e.timeoutMs
  deadlineMs := e.deadlineMs
  retentionMs := e.retentionMs
  finalizedAtMs := none
  state := if e.pending then .pending else if dueAt now e > now then .scheduled else .available
  lease := none
  fence := 0
  uniqueKey := e.uniqueKey
  uniqueStates := e.uniqueStates
  uniqueExpiresAtMs := none
  headers := e.headers
  tags := canonicalTags e.tags
  periodicScheduleId := e.periodicScheduleId
  periodicTickMs := e.periodicTickMs
  stickyWorker := e.stickyWorker
  errors := []
  checkpoint := none
  result := none
  output := none
  progress := none

/-- The row Postgres inserts: integers are cast, and a window has an end even without a key. -/
def postgresJob (now : Int) (e : Envelope) : Job :=
  { baseJob now e with
    schemaVersion := asI32 (effectiveSchemaVersion e.schemaVersion)
    weight := asI32 (effectiveWeight e.weight)
    maxAttempts := asI32 (effectiveMaxAttempts e.maxAttempts)
    state :=
      if e.pending then .pending
      else if e.uniqueDebounceMs > 0 then .scheduled
      else if e.scheduledAtMs > now then .scheduled
      else .available
    uniqueExpiresAtMs := if e.uniqueWindowMs > 0 then some (now + e.uniqueWindowMs) else none }

def mysqlJob (now : Int) (e : Envelope) : Job :=
  { baseJob now e with
    uniqueExpiresAtMs :=
      if e.uniqueKey.isSome && e.uniqueWindowMs > 0 then some (now + e.uniqueWindowMs) else none }

/-- `CHECK (weight > 0)`, which a weight beyond 31 bits fails after the cast. -/
def postgresRefuses (e : Envelope) : Option String :=
  if asI32 (effectiveWeight e.weight) > 0 then none
  else some "new row for relation headgate_job violates check constraint headgate_job_weight_check"

/-- The columns of the MySQL table that are narrower than the boundary validation. -/
def mysqlRefuses (e : Envelope) : Option String :=
  if e.id.length > 64 then some "Data too long for column 'ulid'"
  else if effectiveSchemaVersion e.schemaVersion > 2147483647 then
    some "Out of range value for column 'schema_version'"
  else if e.fingerprint.length > 64 then some "Data too long for column 'fingerprint'"
  else if effectiveMaxAttempts e.maxAttempts > 2147483647 then
    some "Out of range value for column 'max_attempts'"
  else if keyLength e > 255 then some "Data too long for column 'unique_key'"
  else if e.uniqueStates > 2147483647 then some "Out of range value for column 'unique_states'"
  else none

/-! ## Section 2: Replacing a holder -/

/-- The masked columns of a replacement; `cast` writes an integer column. -/
def replaceColumns (cast : Nat → Int) (now : Int) (e : Envelope) (j : Job) : Job :=
  { j with
    schemaVersion :=
      if replaces e 0 then cast (effectiveSchemaVersion e.schemaVersion) else j.schemaVersion
    payload := if replaces e 0 then e.payload else j.payload
    fingerprint := if replaces e 0 then e.fingerprint else j.fingerprint
    scheduledAtMs :=
      if replaces e 1 && j.state = .scheduled then
        if e.scheduledAtMs = 0 then now else e.scheduledAtMs
      else j.scheduledAtMs
    priority := if replaces e 2 then e.priority else j.priority
    maxAttempts :=
      if replaces e 3 then cast (effectiveMaxAttempts e.maxAttempts) else j.maxAttempts }

/-- Does the mask name a column that can be replaced in this state? -/
def replacesIn (e : Envelope) (j : Job) : Bool :=
  replaces e 0 || replaces e 2 || replaces e 3 || (replaces e 1 && j.state = .scheduled)

def debounceColumns (cast : Nat → Int) (now : Int) (e : Envelope) (j : Job) : Job :=
  { j with
    schemaVersion := cast (effectiveSchemaVersion e.schemaVersion), payload := e.payload
    fingerprint := e.fingerprint, tags := canonicalTags e.tags, state := .scheduled
    scheduledAtMs := now + e.uniqueDebounceMs }

def debouncable (j : Job) : Bool :=
  [State.pending, .scheduled, .available, .retryable].contains j.state

/-- Debounce and replacement as two statements; the second passes over pending holders. -/
def replaceHolder (cast : Nat → Int) (now : Int) (e : Envelope) (j : Job) : Option Job :=
  if e.uniqueDebounceMs > 0 then
    if debouncable j then some (debounceColumns cast now e j) else none
  else if e.uniqueReplace ≠ 0 then
    if [State.scheduled, .available, .retryable].contains j.state && replacesIn e j then
      some (replaceColumns cast now e j)
    else none
  else none

/-- The one statement of the Rust adapter for Postgres: a debounce also takes the masked
columns, and a replacement also finds pending holders. -/
def postgresReplaceHolder (now : Int) (e : Envelope) (j : Job) : Option Job :=
  if e.uniqueReplace ≠ 0 ∨ e.uniqueDebounceMs > 0 then
    if debouncable j && (e.uniqueDebounceMs > 0 || replacesIn e j) then
      let row := replaceColumns asI32 now e j
      some (if e.uniqueDebounceMs > 0 then debounceColumns asI32 now e row else row)
    else none
  else none

/-! ## Section 3: Adapters -/

def postgresDialect (replace : Int → Envelope → Job → Option Job) : Dialect where
  newJob := postgresJob
  refuses := postgresRefuses
  quarantinesEmpty := true
  abortsOnError := true
  replaceHolder := replace
  tagKey := none

/-- `collation` is the one the tables were made with; the default is blind to case and accents. -/
def mysqlDialect (collation : String → String) : Dialect where
  newJob := mysqlJob
  refuses := mysqlRefuses
  quarantinesEmpty := false
  abortsOnError := false
  replaceHolder := replaceHolder Int.ofNat
  tagKey := some collation

/-- `headgate-postgres`. -/
def postgresRust : Adapter := ⟨postgresDialect postgresReplaceHolder, true⟩

/-- `headgatepgx`. -/
def postgresGo : Adapter := ⟨postgresDialect (replaceHolder asI32), false⟩

/-- `headgate-mysql`. -/
def mysqlRust (collation : String → String) : Adapter := ⟨mysqlDialect collation, false⟩

/-- `headgatemysql`. -/
def mysqlGo (collation : String → String) : Adapter := ⟨mysqlDialect collation, false⟩

end Headgate.Sql
