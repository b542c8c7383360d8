import Headgate.Redis.Fencing

/-!
# Claims handed to workers

`RedisStore::admit` runs the admission script and then reads every claimed job
back with an `HGETALL` of its own.  Each read is a round trip, so other scripts
can run between the claim and the read.  The system here is the store together
with the admissions whose reads are under way; its inputs are whole scripts and
single reads, in any order.

What a worker is handed is its own claim exactly when the claim is still live at
the read.
-/

namespace Headgate.Redis

open Headgate.Core Data

variable {id : String} {f : Nat} {y : System} {i : Input}

/-! ## Section 1: Reading a job hash -/

/-- `claim_from_hash`: a field that is missing reads as its zero value. -/
def claimFromHash (id : String) : Option Job → Claim
  | none =>
    { envelope := { id := id, weight := effectiveWeight 0 }
      leaseId := "", fence := 0, expiresAtMs := 0, checkpoint := {} }
  | some j =>
    { envelope := {
        id := id, kind := j.kind, schemaVersion := j.schemaVersion, payload := j.payload
        queue := j.queue, partitionKey := j.partitionKey, rateClass := j.rateClass
        stickyWorker := j.stickyWorker, weight := effectiveWeight j.weight
        fingerprint := j.fingerprint, priority := j.priority, attempt := j.attempt
        crashAttempt := j.crashAttempt, maxAttempts := j.maxAttempts
        scheduledAtMs := j.scheduledAtMs, timeoutMs := j.timeoutMs, deadlineMs := j.deadlineMs
        retentionMs := j.retentionMs, periodicScheduleId := j.periodicScheduleId
        periodicTickMs := j.periodicTickMs
        -- the key itself is not handed out
        uniqueKey := none, uniqueStates := j.uniqueStates, uniqueWindowMs := j.uniqueWindowMs
        headers := j.headers, tags := j.tags }
      -- a script that ended the claim has deleted the lease fields
      leaseId := (j.lease.map Lease.leaseId).getD ""
      fence := j.fence
      expiresAtMs := (j.lease.map Lease.expiresAtMs).getD 0
      checkpoint := j.checkpoint.getD {} }

/-- A row under a claim is handed out with it. -/
theorem claimFromHash_of_claim {s : Store} {l : String} (h : s.claim id = some (l, f)) :
    (claimFromHash id (s.job? id)).ref = ⟨id, l, f⟩ := by
  cases hj : s.job? id with
  | none => simp [Store.claim, hj] at h
  | some =>
    rw [Store.claim_eq hj, Job.claim] at h
    split at h
    · obtain ⟨lease, hl, heq⟩ := Option.map_eq_some_iff.mp h
      cases heq
      simp [Claim.ref, claimFromHash, hl]
    · cases h

/-! ## Section 2: The system -/

/-- An admission: the request's lease id, the ids not read back yet and the claims read so far.
`wrote` is a ghost: the claims its own script run made, with the fences it wrote. -/
structure Flight where
  leaseId : String
  wrote : List (String × Nat)
  ids : List String
  units : List Claim

/-- The store and all admissions so far, oldest first. -/
structure System where
  store : Store
  flights : List Flight

def System.init : System := ⟨Store.init, []⟩

inductive Input where
  /-- Any whole call; an admission here is one whose caller never reads back. -/
  | call (c : Call)
  /-- The script of an admission. -/
  | start (now : Int) (req : AdmitRequest) (order : SetOrder String)
  /-- The next `HGETALL` of the given admission. -/
  | read (flight : Nat)

/-- The claims a history holds under a lease id. -/
def claimsUnder (lease : String) (h : List Event) : List (String × Nat) :=
  h.filterMap fun
    | .claimed id l f => if l = lease then some (id, f) else none
    | _ => none

theorem mem_claimsUnder {lease : String} {h : List Event} :
    (id, f) ∈ claimsUnder lease h ↔ .claimed id lease f ∈ h := by
  unfold claimsUnder
  rw [List.mem_filterMap]
  constructor
  · rintro ⟨e, he, heq⟩
    cases e <;> simp_all
  · intro he
    exact ⟨_, he, by simp⟩

/-- One `HGETALL`. -/
def Flight.read (s : Store) (fl : Flight) : Flight :=
  match fl.ids with
  | [] => fl
  | id :: rest => { fl with ids := rest, units := fl.units ++ [claimFromHash id (s.job? id)] }

def System.step (y : System) : Input → System
  | .call c => { y with store := Redis.step y.store c }
  | .start now req order =>
    match admitCall now req order y.store with
    | (s, .error _) => { y with store := s }
    | (s, .ok ids) =>
      ⟨s, y.flights ++ [⟨req.leaseId, claimsUnder req.leaseId s.history, ids, []⟩]⟩
  | .read n =>
    match y.flights[n]? with
    | none => y
    | some fl => { y with flights := y.flights.set n (fl.read y.store) }

/-- The state after a list of inputs. -/
def System.exec (inputs : List Input) : System := run System.step System.init inputs

/-- The script an input runs. -/
def Input.call? : Input → Option Call
  | .call c => some c
  | .start now req order => some ⟨now, .admission req order⟩
  | .read _ => none

def Input.leaseId (i : Input) : Option String := i.call?.bind fun c => c.op.leaseId

theorem System.step_store (y : System) (i : Input) :
    (y.step i).store = match i.call? with
      | none => y.store
      | some c => Redis.step y.store c := by
  cases i with
  | call => rfl
  | start now req order =>
    show (System.step y (.start now req order)).store = (admitCall now req order y.store).1
    unfold System.step
    dsimp only
    split
    · rename_i s e hcall
      rw [hcall]
    · rename_i s ids hcall
      rw [hcall]
  | read n =>
    unfold System.step
    dsimp only
    split <;> rfl

/-- A claim in the history after an input was there before or is made under its lease id. -/
theorem System.mem_claimed (h : EntriesOk y.store) {l : String}
    (hmem : .claimed id l f ∈ (y.step i).store.history) :
    .claimed id l f ∈ y.store.history ∨ i.leaseId = some l := by
  rw [System.step_store] at hmem
  unfold Input.leaseId
  cases hi : i.call? with
  | none =>
    rw [hi] at hmem
    exact .inl hmem
  | some =>
    rw [hi] at hmem
    exact step_mem_claimed h hmem

/-- An admission in the list was there before, was there before its last read, or has just
run its script. -/
theorem System.mem_flights {fl : Flight} (hmem : fl ∈ (y.step i).flights) :
    fl ∈ y.flights ∨
      (∃ n old, i = .read n ∧ y.flights[n]? = some old ∧ fl = old.read y.store) ∨
      (i.leaseId = some fl.leaseId ∧ fl.units = [] ∧
        fl.wrote = claimsUnder fl.leaseId (y.step i).store.history) := by
  cases i with
  | call => exact .inl hmem
  | start =>
    unfold System.step at hmem ⊢
    dsimp only at hmem ⊢
    split at hmem
    · exact .inl hmem
    · rename_i s ids hcall
      rcases List.mem_append.mp hmem with hold | hnew
      · exact .inl hold
      · rw [List.mem_singleton] at hnew
        subst hnew
        exact .inr (.inr ⟨rfl, rfl, rfl⟩)
  | read n =>
    unfold System.step at hmem
    dsimp only at hmem
    split at hmem
    · exact .inl hmem
    · rename_i old hget
      rcases List.mem_or_eq_of_mem_set hmem with hold | hnew
      · exact .inl hold
      · exact .inr (.inl ⟨n, old, rfl, hget, hnew⟩)

theorem Flight.read_leaseId (s : Store) (fl : Flight) : (fl.read s).leaseId = fl.leaseId := by
  unfold Flight.read
  split <;> rfl

/-! ## Section 3: What is handed out -/

/-- The claim about to be read back is still live, and the request's own. -/
def ReadLive (y : System) : Input → Prop
  | .read n => ∀ fl ∈ y.flights[n]?, ∀ id ∈ fl.ids.head?,
    (liveClaim id y.store.history).map Prod.fst = some fl.leaseId
  | _ => True

instance (y : System) (i : Input) : Decidable (ReadLive y i) :=
  match i with
  | .read n => inferInstanceAs (Decidable (∀ fl ∈ y.flights[n]?, ∀ id ∈ fl.ids.head?,
      (liveClaim id y.store.history).map Prod.fst = some fl.leaseId))
  | .call _ => inferInstanceAs (Decidable True)
  | .start _ _ _ => inferInstanceAs (Decidable True)

/-- The lease id of an input is new to the store and to all admissions. -/
def FreshInput (y : System) (i : Input) : Prop :=
  ∀ l ∈ i.leaseId, (∀ id f, .claimed id l f ∉ y.store.history) ∧ ∀ fl ∈ y.flights, fl.leaseId ≠ l

/-- What one admission has handed out, and what its lease id stands for in the history. -/
structure Flight.Own (h : List Event) (fl : Flight) : Prop where
  units : ∀ c ∈ fl.units, c.leaseId = fl.leaseId ∧ (c.envelope.id, c.fence) ∈ fl.wrote
  wrote : ∀ id f, .claimed id fl.leaseId f ∈ h → (id, f) ∈ fl.wrote

structure SystemOk (y : System) : Prop where
  entries : EntriesOk y.store
  fenced : Fenced y.store
  own : ∀ fl ∈ y.flights, fl.Own y.store.history
  distinct : (y.flights.map Flight.leaseId).Nodup

theorem systemOk_init : SystemOk System.init :=
  ⟨entriesOk_init, fenced_init, fun _ h => (List.not_mem_nil h).elim, List.nodup_nil⟩

/-- Reading back a live claim hands out that claim. -/
theorem Flight.Own.read {s : Store} {fl : Flight} (h : fl.Own s.history) (hs : Fenced s)
    (hlive : ∀ id ∈ fl.ids.head?, (liveClaim id s.history).map Prod.fst = some fl.leaseId) :
    (fl.read s).Own s.history := by
  unfold Flight.read
  split
  · exact h
  · rename_i id rest hids
    obtain ⟨⟨l, f⟩, hf, hl⟩ := Option.map_eq_some_iff.mp (hlive id (by simp [hids]))
    cases hl
    refine ⟨fun c hc => ?_, h.wrote⟩
    rcases List.mem_append.mp hc with hold | hnew
    · exact h.units c hold
    · rw [List.mem_singleton] at hnew
      -- the row carries the live claim, and its fence is one this admission wrote
      have hclaim : s.claim id = some (fl.leaseId, f) := (hs.live id).trans hf
      have href := claimFromHash_of_claim hclaim
      rw [← hnew] at href
      obtain ⟨hid, hlease, hfence⟩ := LeaseRef.mk.inj href
      refine ⟨hlease, ?_⟩
      rw [hid, hfence]
      exact h.wrote id f (claimed_mem_of_live hf)

theorem System.step_flightIds (y : System) (i : Input) :
    (y.step i).flights.map Flight.leaseId = y.flights.map Flight.leaseId ∨
      ∃ l, i.leaseId = some l ∧
        (y.step i).flights.map Flight.leaseId = y.flights.map Flight.leaseId ++ [l] := by
  cases i with
  | call => exact .inl rfl
  | start now req =>
    unfold System.step
    dsimp only
    split
    · exact .inl rfl
    · exact .inr ⟨req.leaseId, rfl, by simp⟩
  | read =>
    left
    unfold System.step
    dsimp only
    split
    · rfl
    · rename_i fl hget
      obtain ⟨hn, hfl⟩ := List.getElem?_eq_some_iff.mp hget
      -- a read keeps the lease id of its admission
      rw [List.map_set, Flight.read_leaseId, ← hfl, ← List.getElem_map Flight.leaseId,
        List.set_getElem_self]
      simpa using hn

theorem SystemOk.step (h : SystemOk y) (hfresh : FreshInput y i) (hread : ReadLive y i) :
    SystemOk (y.step i) := by
  have hstore : EntriesOk (y.step i).store ∧ Fenced (y.step i).store := by
    rw [System.step_store]
    cases hi : i.call? with
    | none => exact ⟨h.entries, h.fenced⟩
    | some c =>
      have hlease : FreshLease y.store c := fun l hl => (hfresh l (by simpa [Input.leaseId, hi])).1
      exact ⟨step_entriesOk _ c h.entries, step_fenced hlease h.entries h.fenced⟩
  refine ⟨hstore.1, hstore.2, fun fl hfl => ?_, ?_⟩
  · -- a lease id that an admission holds is claimed under by nobody else
    have hkeep : ∀ old ∈ y.flights, old.Own (y.step i).store.history := by
      intro old hold
      refine ⟨(h.own old hold).units, fun id f hmem => ?_⟩
      rcases System.mem_claimed h.entries hmem with hbefore | hnew
      · exact (h.own old hold).wrote id f hbefore
      · exact absurd rfl ((hfresh _ hnew).2 old hold)
    rcases System.mem_flights hfl with hold | ⟨n, old, rfl, hget, rfl⟩ | ⟨-, hunits, hwrote⟩
    · exact hkeep fl hold
    · have hmem := List.mem_of_getElem? hget
      rw [System.step_store]
      exact (h.own old hmem).read h.fenced (hread old hget)
    · refine ⟨fun c hc => ?_, fun id f hmem => ?_⟩
      · rw [hunits] at hc
        cases hc
      · rw [hwrote]
        exact mem_claimsUnder.mpr hmem
  · rcases System.step_flightIds y i with hsame | ⟨l, hl, hsnoc⟩
    · rw [hsame]
      exact h.distinct
    · rw [hsnoc]
      refine List.nodup_append.mpr ⟨h.distinct, by simp, ?_⟩
      rintro a ha b hb rfl
      obtain ⟨fl, hfl, rfl⟩ := List.mem_map.mp ha
      exact (hfresh l hl).2 fl hfl (List.mem_singleton.mp hb)

/-- Pairwise different lease ids are fresh at every input. -/
theorem eachStep_freshInput {inputs : List Input} (hentries : EntriesOk y.store)
    (hstore : ∀ id l f, .claimed id l f ∈ y.store.history →
      l ∉ inputs.filterMap Input.leaseId)
    (hflights : ∀ fl ∈ y.flights, fl.leaseId ∉ inputs.filterMap Input.leaseId)
    (hdistinct : (inputs.filterMap Input.leaseId).Nodup) :
    EachStep System.step FreshInput y inputs := by
  induction inputs generalizing y with
  | nil => exact True.intro
  | cons i inputs ih =>
    have hsplit : (i :: inputs).filterMap Input.leaseId =
        i.leaseId.toList ++ inputs.filterMap Input.leaseId := by
      cases hi : i.leaseId <;> simp [hi]
    rw [hsplit] at hdistinct hstore hflights
    obtain ⟨-, hrest, hdisj⟩ := List.nodup_append.mp hdistinct
    have hentries' : EntriesOk (y.step i).store := by
      rw [System.step_store]
      split
      · exact hentries
      · exact step_entriesOk _ _ hentries
    -- a lease id used by this input is not used later
    have hspent : ∀ l, i.leaseId = some l → l ∉ inputs.filterMap Input.leaseId :=
      fun l hl hmem => hdisj l (by simp [hl]) l hmem rfl
    refine ⟨fun l hl => ⟨fun id f hmem => ?_, fun fl hfl heq => ?_⟩,
      ih hentries' (fun id l f hmem => ?_) (fun fl hfl => ?_) hrest⟩
    · exact hstore id l f hmem (List.mem_append_left _ (by simpa using hl))
    · rw [← heq] at hl
      exact hflights fl hfl (List.mem_append_left _ (by simpa using hl))
    · rcases System.mem_claimed hentries hmem with hold | hnew
      · exact fun hl => hstore id l f hold (List.mem_append_right _ hl)
      · exact hspent l hnew
    · have hold : ∀ old ∈ y.flights, old.leaseId ∉ inputs.filterMap Input.leaseId :=
        fun old hmem hl => hflights old hmem (List.mem_append_right _ hl)
      rcases System.mem_flights hfl with hmem | ⟨n, old, rfl, hget, rfl⟩ | ⟨hnew, -, -⟩
      · exact hold fl hmem
      · rw [Flight.read_leaseId]
        exact hold old (List.mem_of_getElem? hget)
      · exact hspent _ hnew

/-- **Claims handed out are one's own.**  When the lease ids are distinct and every claim is
still live as it is read back, a claim carries the lease id of the request and a fence the
request's own script run wrote, and no two admissions hand out the same claim. -/
theorem handouts_own (inputs : List Input) (distinct : (inputs.filterMap Input.leaseId).Nodup)
    (reads : EachStep System.step ReadLive System.init inputs) :
    (∀ fl ∈ (System.exec inputs).flights, ∀ c ∈ fl.units,
      c.leaseId = fl.leaseId ∧ (c.envelope.id, c.fence) ∈ fl.wrote) ∧
    (∀ (n m : Nat) (fl fl' : Flight), n ≠ m → (System.exec inputs).flights[n]? = some fl →
      (System.exec inputs).flights[m]? = some fl' →
      ∀ c ∈ fl.units, ∀ c' ∈ fl'.units, c.ref ≠ c'.ref) := by
  have hfresh : EachStep System.step FreshInput System.init inputs :=
    eachStep_freshInput entriesOk_init (fun _ _ _ hmem => (List.not_mem_nil hmem).elim)
      (fun _ hmem => (List.not_mem_nil hmem).elim) distinct
  have hok : SystemOk (System.exec inputs) :=
    run_invariant SystemOk (fun y i hi hy => hy.step hi.1 hi.2) systemOk_init (hfresh.and reads)
  refine ⟨fun fl hfl => (hok.own fl hfl).units, fun n m fl fl' hne hn hm c hc c' hc' heq => hne ?_⟩
  have hlease : fl.leaseId = fl'.leaseId := by
    rw [← ((hok.own fl (List.mem_of_getElem? hn)).units c hc).1,
      ← ((hok.own fl' (List.mem_of_getElem? hm)).units c' hc').1]
    exact congrArg LeaseRef.leaseId heq
  -- one lease id, one admission
  have hget : ((System.exec inputs).flights.map Flight.leaseId)[n]? =
      ((System.exec inputs).flights.map Flight.leaseId)[m]? := by
    rw [List.getElem?_map, List.getElem?_map, hn, hm, Option.map_some, Option.map_some, hlease]
  have hbound : n < ((System.exec inputs).flights.map Flight.leaseId).length := by
    simpa using (List.getElem?_eq_some_iff.mp hn).1
  exact (List.getElem?_inj hbound hok.distinct).mp hget

/-- Each admission reads its claim back before anything else runs. -/
def promptReads : List Input :=
  [.call ⟨0, .enqueue [{ id := "x", kind := "k", queue := "q" }]⟩,
    .start 0 ⟨"w1", "L1", ["q"], 1, 10, 1⟩ SetOrder.increasing,
    .read 0,
    .call ⟨20, .reclaim 10 3 5 5⟩,
    .start 40 ⟨"w2", "L2", ["q"], 1, 10, 1⟩ SetOrder.increasing,
    .read 1]

theorem handouts_own_promptReads :
    (System.exec promptReads).flights.map (fun fl => fl.units.map Claim.ref) =
        [[⟨"x", "L1", 1⟩], [⟨"x", "L2", 2⟩]] ∧
      ∀ fl ∈ (System.exec promptReads).flights, ∀ c ∈ fl.units,
        c.leaseId = fl.leaseId ∧ (c.envelope.id, c.fence) ∈ fl.wrote := by
  refine ⟨by decide +kernel, ?_⟩
  exact (handouts_own promptReads (by decide) (by decide +kernel)).1

/-- The lease of the first admission expires, its job is reclaimed and leased again before
the first read. -/
def overtakenRead : List Input :=
  [.call ⟨0, .enqueue [{ id := "x", kind := "k", queue := "q" }]⟩,
    .start 0 ⟨"w1", "L1", ["q"], 1, 10, 1⟩ SetOrder.increasing,
    .call ⟨20, .reclaim 10 3 5 5⟩,
    .start 40 ⟨"w2", "L2", ["q"], 1, 10, 1⟩ SetOrder.increasing,
    .read 0,
    .read 1]

/-- Both workers are handed the second one's claim. -/
theorem handouts_overtaken :
    (overtakenRead.filterMap Input.leaseId).Nodup ∧
      (System.exec overtakenRead).flights.map (fun fl => (fl.leaseId, fl.units.map Claim.ref)) =
        [("L1", [⟨"x", "L2", 2⟩]), ("L2", [⟨"x", "L2", 2⟩])] := by
  decide +kernel

end Headgate.Redis
