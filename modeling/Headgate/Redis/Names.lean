import Headgate.Data.Joined
import Headgate.Redis.Gate

/-!
# Names inside keys

The scripts build keys and argument texts by joining names with a separator:
queue lists with `,`, keys with `:`, the gate's tables with NUL.  Names are free
texts, so each join can be taken apart again only for names without the
separator.
-/

namespace Headgate.Redis

open Headgate.Core Data

/-- The text does not contain the character. -/
def Without (sep : Char) (name : String) : Prop := sep ∉ name.toList

instance (sep : Char) (name : String) : Decidable (Without sep name) :=
  inferInstanceAs (Decidable (sep ∉ name.toList))

/-! ## Section 1: Comma-separated queue lists -/

private theorem csvChars_field {cs : List Char} (h : ',' ∉ cs) (rest field : List Char) :
    csvChars (cs ++ rest) field = csvChars rest (cs.reverse ++ field) := by
  induction cs generalizing field with
  | nil => rfl
  | cons c cs ih =>
    rw [List.mem_cons, not_or] at h
    rw [List.cons_append, csvChars, if_neg (Ne.symm h.1), ih h.2]
    simp

private theorem csvChars_join {fields : List (List Char)}
    (h : ∀ f ∈ fields, f ≠ [] ∧ ',' ∉ f) :
    csvChars ([','].intercalate fields) [] = fields := by
  induction fields with
  | nil => rfl
  | cons f fields ih =>
    obtain ⟨hne, hcomma⟩ := h f List.mem_cons_self
    have hrest := ih fun g hg => h g (List.mem_cons_of_mem _ hg)
    cases fields with
    | nil =>
      have hlast := csvChars_field hcomma [] []
      rw [List.append_nil] at hlast
      simp [hlast, csvChars, hne]
    | cons =>
      rw [List.intercalate_cons_cons, List.append_assoc, csvChars_field hcomma,
        List.singleton_append, csvChars, if_pos rfl, hrest]
      simp [hne]

/-- The script reads back the queues it was sent, if no name is empty or has a comma. -/
theorem csvFields_csvJoin {queues : List String} (h : ∀ q ∈ queues, q ≠ "" ∧ Without ',' q) :
    csvFields (csvJoin queues) = queues := by
  unfold csvFields csvJoin
  rw [String.toList_intercalate]
  have hfields : ∀ f ∈ queues.map String.toList, f ≠ [] ∧ ',' ∉ f := by
    intro f hf
    obtain ⟨q, hq, rfl⟩ := List.mem_map.mp hf
    refine ⟨fun hnil => (h q hq).1 ?_, (h q hq).2⟩
    exact String.toList_inj.mp hnil
  show (csvChars ([','].intercalate (queues.map String.toList)) []).map String.ofList = queues
  rw [csvChars_join hfields, List.map_map]
  have hid : ∀ q ∈ queues, (String.ofList ∘ String.toList) q = q :=
    fun q _ => String.ofList_toList
  rw [List.map_congr_left hid, List.map_id']

/-- A requested queue is worked on, if no requested name is empty or has a comma. -/
theorem mem_scriptQueues {queues : List String} (h : ∀ q ∈ queues, q ≠ "" ∧ Without ',' q)
    (q : String) : q ∈ scriptQueues (csvJoin (normalizeQueues queues)) ↔ q ∈ queues := by
  have hnormal : ∀ q, q ∈ normalizeQueues queues ↔ q ∈ queues := by
    intro q
    rw [normalizeQueues, List.mem_dedup]
    exact (List.perm_insertionSort _ queues).mem_iff
  unfold scriptQueues
  rw [csvFields_csvJoin fun q hq => h q ((hnormal q).mp hq), List.mem_dedup,
    (List.perm_insertionSort _ _).mem_iff, hnormal]

/-! ## Section 2: Keys -/

theorem partKey_toList (queue part : String) :
    (partKey queue part).toList = queue.toList ++ ':' :: part.toList := by
  simp [partKey]

/-- Partition keys of queues without colon are told apart. -/
theorem partKey_inj {q q' p p' : String} (hq : Without ':' q) (hq' : Without ':' q')
    (h : partKey q p = partKey q' p') : q = q' ∧ p = p' := by
  have hlist := congrArg String.toList h
  rw [partKey_toList, partKey_toList] at hlist
  obtain ⟨hqueue, hpart⟩ := joined_inj hq hq' hlist
  exact ⟨String.toList_inj.mp hqueue, String.toList_inj.mp hpart⟩

/-- A stream's key begins with its queue and a colon. -/
theorem pendingKey_toList (queue part sticky : String) :
    ∃ rest, (pendingKey queue part sticky).toList = queue.toList ++ ':' :: rest := by
  unfold pendingKey
  split
  · exact ⟨part.toList ++ ":worker:".toList ++ sticky.toList, by simp⟩
  · exact ⟨part.toList, by simp⟩

/-- A text that begins with a queue without colon and a colon begins with no other such. -/
theorem queue_eq_of_colon {q q' : String} {rest rest' : List Char} (hq : Without ':' q)
    (hq' : Without ':' q') (h : q.toList ++ ':' :: rest = q'.toList ++ ':' :: rest') : q = q' :=
  String.toList_inj.mp (joined_inj hq hq' h).1

theorem queue_eq_of_pendingKey {q q' p p' w w' : String} (hq : Without ':' q) (hq' : Without ':' q')
    (h : pendingKey q p w = pendingKey q' p' w') : q = q' := by
  obtain ⟨rest, hrest⟩ := pendingKey_toList q p w
  obtain ⟨rest', hrest'⟩ := pendingKey_toList q' p' w'
  apply queue_eq_of_colon hq hq'
  rw [← hrest, ← hrest', h]

/-! ## Section 3: Table keys -/

/-- The gate reads back queue and partition of a table key, for a queue without NUL. -/
theorem splitTableKey_tableKey {queue part : String} (h : Without '\x00' queue) :
    splitTableKey (tableKey queue part) = (queue, part) := by
  have hlist : (tableKey queue part).toList = queue.toList ++ '\x00' :: part.toList := by
    simp [tableKey]
  have hall : ∀ c ∈ queue.toList, decide (c ≠ '\x00') = true := by
    intro c hc
    rw [decide_eq_true_eq]
    rintro rfl
    exact h hc
  unfold splitTableKey
  dsimp only
  rw [hlist, List.takeWhile_append_of_pos hall, List.dropWhile_append_of_pos hall]
  simp

end Headgate.Redis
