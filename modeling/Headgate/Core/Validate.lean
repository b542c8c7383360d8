import Headgate.Core.Envelope

/-!
# Boundary validation

`validateEnqueue` is the check every backend runs on a batch before it touches
the store: field bounds, the rules that tie fields together, and the batch-wide
limits.  The checks are made in the order of the source, so the first violated
rule decides the error.
-/

namespace Headgate.Core

/-! ## Section 1: Limits -/

def maxEnqueueBatchSize : Nat := 1000
def maxJobPayloadBytes : Nat := 2 ^ 20
def maxJobHeadersBytes : Nat := 64 * 2 ^ 10
def maxJobHeaderCount : Nat := 128
def maxJobIdentifierLen : Nat := 255
def maxUniqueKeyBytes : Nat := 2 ^ 10
def maxEnqueueBytes : Nat := 16 * 2 ^ 20
def uniqueReplaceAll : Nat := 15

/-! ## Section 2: One envelope -/

/-- ASCII letters, digits and the underscore. -/
def isWordChar (c : Char) : Bool := c.isAlphanum || c == '_'

/-- The rule for kinds: 1-128 bytes, a word character first, then word characters
or one of `-[]<>/.:+`. -/
def validateKind (kind : String) : Except String Unit :=
  let chars := kind.toList
  if !chars.isEmpty && kind.utf8ByteSize ≤ 128 && (chars.take 1).all isWordChar
      && (chars.drop 1).all (fun c => isWordChar c || "-[]<>/.:+".toList.contains c) then
    .ok ()
  else
    .error ("invalid kind `" ++ kind ++
      "`: 1-128 characters, first [A-Za-z0-9_], rest [A-Za-z0-9_] or one of -[]<>/.:+")

/-- The identifier fields bounded by `maxJobIdentifierLen`, with the names the
error message gives them. -/
def identifierFields (e : Envelope) : List (String × String) :=
  [("envelope id", e.id), ("queue", e.queue), ("partition_key", e.partitionKey),
   ("rate_class", e.rateClass), ("fingerprint", e.fingerprint),
   ("periodic_schedule_id", e.periodicScheduleId)]

def headerBytes (e : Envelope) : Nat :=
  (e.headers.map fun kv => kv.1.utf8ByteSize + kv.2.utf8ByteSize).sum

def keyLength (e : Envelope) : Nat := (e.uniqueKey.map List.length).getD 0

/-- The bytes an envelope counts towards the batch before its tags are read. -/
def envelopeBytes (e : Envelope) : Nat :=
  e.payload.length + headerBytes e + e.id.utf8ByteSize + e.kind.utf8ByteSize
    + e.queue.utf8ByteSize + e.partitionKey.utf8ByteSize + e.rateClass.utf8ByteSize
    + e.fingerprint.utf8ByteSize + keyLength e

/-- The bytes of the tags, the sticky worker and the schedule id. -/
def labelBytes (e : Envelope) : Nat :=
  (e.tags.map String.utf8ByteSize).sum + e.stickyWorker.utf8ByteSize
    + e.periodicScheduleId.utf8ByteSize

def isAscii (s : String) : Bool := s.toList.all fun c => c.toNat < 128

/-- Fail with a boundary error when the check is violated. -/
def rejectWhen (violated : Bool) (message : String) : Except StoreError Unit :=
  if violated then .error (.invalid message) else .ok ()

/-- The tag loop: each tag is well formed and new. -/
def validateTags : List String → List String → Except StoreError Unit
  | [], _ => .ok ()
  | tag :: rest, seen => do
    rejectWhen (tag.isEmpty || tag.utf8ByteSize > 64 || !isAscii tag)
      "each tag must be 1-64 ASCII bytes"
    rejectWhen (seen.contains tag) "tags must not contain duplicates"
    validateTags rest (tag :: seen)

/-- The identifier loop: every field within `maxJobIdentifierLen` bytes. -/
def validateIdentifiers : List (String × String) → Except StoreError Unit
  | [] => .ok ()
  | (name, value) :: rest => do
    rejectWhen (value.utf8ByteSize > maxJobIdentifierLen) (name ++ " must be at most 255 bytes")
    validateIdentifiers rest

/-- Two envelopes of one batch may not share an id. -/
def rejectRepeated (seen : List String) (id : String) : Except StoreError Unit :=
  if seen.contains id then .error (.idConflict id) else .ok ()

/-- The body of the batch loop; returns the byte total after this envelope. -/
def validateEnvelope (e : Envelope) (seen : List String) (total : Nat) :
    Except StoreError Nat := do
  rejectWhen e.id.isEmpty "envelope id must not be empty"
  (validateKind e.kind).mapError StoreError.invalid
  validateIdentifiers (identifierFields e)
  rejectWhen (e.payload.length > maxJobPayloadBytes) "payload must be at most 1048576 bytes"
  rejectWhen (keyLength e > maxUniqueKeyBytes) "unique_key must be at most 1024 bytes"
  rejectWhen (e.headers.length > maxJobHeaderCount) "headers must contain at most 128 values"
  rejectWhen (headerBytes e > maxJobHeadersBytes) "headers must total at most 65536 bytes"
  rejectWhen (total + envelopeBytes e > maxEnqueueBytes)
    "enqueue batch data must total at most 16777216 bytes"
  rejectWhen (e.timeoutMs < 0) "timeout_ms must be >= 0"
  rejectWhen (e.deadlineMs < 0) "deadline_ms must be >= 0"
  rejectWhen (e.retentionMs < 0) "retention_ms must be >= 0"
  rejectWhen (e.uniqueWindowMs < 0) "unique_window_ms must be >= 0"
  rejectWhen (e.uniqueDebounceMs < 0) "unique_debounce_ms must be >= 0"
  rejectWhen (e.uniqueDebounceMs > 0 && (keyLength e = 0 || e.uniqueWindowMs > 0))
    "unique_debounce_ms requires lifecycle unique_key"
  rejectWhen (e.uniqueReplace > uniqueReplaceAll) "unique_replace contains unknown fields"
  rejectWhen (e.uniqueReplace ≠ 0 && keyLength e = 0) "unique_replace requires unique_key"
  rejectWhen (e.tags.length > 32) "tags must contain at most 32 values"
  validateTags e.tags []
  rejectWhen (total + envelopeBytes e + labelBytes e > maxEnqueueBytes)
    "enqueue batch data must total at most 16777216 bytes"
  rejectWhen (e.pending && e.scheduledAtMs ≠ 0) "pending jobs cannot also set scheduled_at_ms"
  rejectWhen (!e.stickyWorker.isEmpty && (e.stickyWorker.utf8ByteSize > 255 || !isAscii e.stickyWorker))
    "sticky_worker must be at most 255 ASCII bytes"
  rejectWhen ((e.periodicScheduleId.isEmpty != (e.periodicTickMs == 0)) || e.periodicTickMs < 0)
    "periodic_schedule_id and positive periodic_tick_ms must be set together"
  rejectRepeated seen e.id
  return total + envelopeBytes e + labelBytes e

/-! ## Section 3: The batch -/

/-- The loop over the batch, with the ids seen so far and the byte total. -/
def validateBatch : List Envelope → List String → Nat → Except StoreError Unit
  | [], _, _ => .ok ()
  | e :: rest, seen, total => do
    let total' ← validateEnvelope e seen total
    validateBatch rest (e.id :: seen) total'

/-- The shared boundary check for every backend. -/
def validateEnqueue (batch : List Envelope) : Except StoreError Unit := do
  rejectWhen (batch.length > maxEnqueueBatchSize) "enqueue batch must contain at most 1000 jobs"
  validateBatch batch [] 0
  rejectWhen (batch.length ≠ 1 && batch.any fun e => e.uniqueReplace ≠ 0 || e.uniqueDebounceMs > 0)
    "unique replacement and debounce require a single-job enqueue"

/-! ## Section 4: What an accepted batch satisfies -/

@[simp] theorem rejectWhen_eq_ok (b : Bool) (m : String) (u : Unit) :
    rejectWhen b m = .ok u ↔ b = false := by
  cases b <;> simp [rejectWhen]

/-- A sequenced check passes exactly if its parts do. -/
theorem check_bind_ok {ε α β : Type} (check : Except ε α) (next : α → Except ε β) (b : β) :
    (check >>= next) = .ok b ↔ ∃ a, check = .ok a ∧ next a = .ok b := by
  rcases check with err | a
  · constructor
    · intro h
      cases h
    · rintro ⟨a, h, -⟩
      cases h
  · constructor
    · exact fun h => ⟨a, rfl, h⟩
    · rintro ⟨a', h, hb⟩
      cases h
      exact hb

/-- What the rest of the development uses about an accepted envelope. -/
structure EnvelopeOk (e : Envelope) : Prop where
  idNonempty : e.id ≠ ""
  retentionNonneg : 0 ≤ e.retentionMs
  windowNonneg : 0 ≤ e.uniqueWindowMs
  debounceNonneg : 0 ≤ e.uniqueDebounceMs
  debounceLifecycle : 0 < e.uniqueDebounceMs → e.uniqueWindowMs = 0

private theorem validateEnvelope_ok {e : Envelope} {seen : List String} {total total' : Nat}
    (h : validateEnvelope e seen total = .ok total') :
    EnvelopeOk e ∧ e.id ∉ seen := by
  simp only [validateEnvelope, check_bind_ok, rejectWhen_eq_ok] at h
  obtain ⟨_, hid, _, -, _, -, _, -, _, -, _, -, _, -, _, -, _, -, _, -, _, hret, _, hwin, _,
    hdeb, _, hlife, _, -, _, -, _, -, _, -, _, -, _, -, _, -, _, -, _, hseen, -⟩ := h
  refine ⟨⟨?_, by simpa using hret, by simpa using hwin, by simpa using hdeb, ?_⟩, ?_⟩
  · simpa using hid
  · intro hpos
    simp [hpos] at hlife
    have hwin' : 0 ≤ e.uniqueWindowMs := by simpa using hwin
    omega
  · intro hmem
    simp [rejectRepeated, hmem] at hseen

/-- The ids of an accepted batch are pairwise distinct and its envelopes are
within the bounds of `EnvelopeOk`. -/
theorem validateBatch_ok {batch : List Envelope} {seen : List String} {total : Nat}
    (h : validateBatch batch seen total = .ok ()) :
    (batch.map Envelope.id).Nodup ∧ (∀ e ∈ batch, EnvelopeOk e ∧ e.id ∉ seen) := by
  induction batch generalizing seen total with
  | nil => simp
  | cons e rest ih =>
    rw [validateBatch, check_bind_ok] at h
    obtain ⟨total', he, hrest⟩ := h
    have hhead := validateEnvelope_ok he
    obtain ⟨hnodup, hall⟩ := ih hrest
    refine ⟨?_, ?_⟩
    · rw [List.map_cons, List.nodup_cons]
      refine ⟨?_, hnodup⟩
      intro hmem
      obtain ⟨e', he', hid⟩ := List.mem_map.mp hmem
      exact (hall e' he').2 (by rw [hid]; exact List.mem_cons_self)
    · intro e' he'
      rcases List.mem_cons.mp he' with rfl | hin
      · exact hhead
      · exact ⟨(hall e' hin).1, fun hs => (hall e' hin).2 (List.mem_cons_of_mem _ hs)⟩

theorem validateEnqueue_ok {batch : List Envelope} (h : validateEnqueue batch = .ok ()) :
    (batch.map Envelope.id).Nodup ∧ ∀ e ∈ batch, EnvelopeOk e := by
  simp only [validateEnqueue, check_bind_ok] at h
  obtain ⟨_, -, _, hbatch, -⟩ := h
  obtain ⟨hnodup, hall⟩ := validateBatch_ok hbatch
  exact ⟨hnodup, fun e he => (hall e he).1⟩

/-! ## Section 5: What a rejected batch fails with -/

/-- If the computation fails, its error is as `P` says. -/
def FailsWith {ε α : Type} (P : ε → Prop) (x : Except ε α) : Prop := ∀ err, x = .error err → P err

theorem FailsWith.bind {ε α β : Type} {P : ε → Prop} {x : Except ε α} {f : α → Except ε β}
    (hx : FailsWith P x) (hf : ∀ a, x = .ok a → FailsWith P (f a)) : FailsWith P (x >>= f) := by
  intro err h
  cases x with
  | error =>
    cases h
    exact hx err rfl
  | ok a => exact hf a rfl err h

/-- The errors of the boundary: an invalid field, or an id that the batch repeats. -/
def BoundaryError (err : StoreError) : Prop :=
  (∃ message, err = .invalid message) ∨ ∃ id, id ≠ "" ∧ err = .idConflict id

theorem rejectWhen_failsWith (violated : Bool) (message : String) :
    FailsWith BoundaryError (rejectWhen violated message) := by
  intro err h
  cases violated with
  | true =>
    cases h
    exact .inl ⟨message, rfl⟩
  | false => cases h

private theorem validateTags_failsWith (tags seen : List String) :
    FailsWith BoundaryError (validateTags tags seen) := by
  induction tags generalizing seen with
  | nil => exact nofun
  | cons tag rest ih =>
    exact (rejectWhen_failsWith _ _).bind fun _ _ =>
      (rejectWhen_failsWith _ _).bind fun _ _ => ih (tag :: seen)

private theorem validateIdentifiers_failsWith (fields : List (String × String)) :
    FailsWith BoundaryError (validateIdentifiers fields) := by
  induction fields with
  | nil => exact nofun
  | cons field rest ih => exact (rejectWhen_failsWith _ _).bind fun _ _ => ih

private theorem validateKind_failsWith (kind : String) :
    FailsWith BoundaryError ((validateKind kind).mapError StoreError.invalid) := by
  intro err h
  cases hkind : validateKind kind with
  | error message =>
    rw [hkind] at h
    cases h
    exact .inl ⟨message, rfl⟩
  | ok =>
    rw [hkind] at h
    cases h

private theorem validateEnvelope_failsWith (e : Envelope) (seen : List String) (total : Nat) :
    FailsWith BoundaryError (validateEnvelope e seen total) := by
  refine (rejectWhen_failsWith _ _).bind fun _ hid => ?_
  -- the id is not empty where the batch-wide check names it
  have hnonempty : e.id ≠ "" := by simpa using hid
  have hrepeated : FailsWith BoundaryError (rejectRepeated seen e.id) := by
    intro err h
    unfold rejectRepeated at h
    split at h
    · cases h
      exact .inr ⟨e.id, hnonempty, rfl⟩
    · cases h
  refine (validateKind_failsWith _).bind fun _ _ => ?_
  refine (validateIdentifiers_failsWith _).bind fun _ _ => ?_
  iterate 14 refine (rejectWhen_failsWith _ _).bind fun _ _ => ?_
  refine (validateTags_failsWith _ _).bind fun _ _ => ?_
  iterate 4 refine (rejectWhen_failsWith _ _).bind fun _ _ => ?_
  exact hrepeated.bind fun _ _ => nofun

theorem validateEnqueue_failsWith (batch : List Envelope) :
    FailsWith BoundaryError (validateEnqueue batch) := by
  have hbatch : ∀ (es : List Envelope) (seen : List String) (total : Nat),
      FailsWith BoundaryError (validateBatch es seen total) := by
    intro es
    induction es with
    | nil => exact fun _ _ => nofun
    | cons e rest ih =>
      intro seen total
      exact (validateEnvelope_failsWith e seen total).bind fun total' _ => ih (e.id :: seen) total'
  exact (rejectWhen_failsWith _ _).bind fun _ _ =>
    (hbatch batch [] 0).bind fun _ _ => rejectWhen_failsWith _ _

end Headgate.Core
