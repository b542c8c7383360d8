import Mathlib

/-!
# Sorted sets and unordered enumerations

A sorted set keeps each member once, under an integer score, and lists its
members by `(score, member)`.  The structure carries both facts as fields, so
every operation below is a total function between well-formed sorted sets and
later proofs speak only about `ZSet.score`.

`SetOrder` is the companion for plain sets: an arbitrary but fixed way of
listing the members of a finite set, for programs whose iteration order over a
set is unspecified.
-/

namespace Headgate.Data

variable {α : Type*} [LinearOrder α]

/-! ## Section 1: Sorted sets -/

/-- A sorted set: entries in `(score, member)` order, each member once. -/
structure ZSet (α : Type*) [LinearOrder α] where
  /-- The `(score, member)` pairs. -/
  entries : List (Int ×ₗ α)
  /-- The entries stand in lexicographic order. -/
  sorted : entries.Pairwise (· ≤ ·)
  /-- No member occurs twice. -/
  nodup : (entries.map fun e => (ofLex e).2).Nodup

namespace ZSet

/-- The sorted set without members. -/
def empty : ZSet α := ⟨[], List.Pairwise.nil, List.nodup_nil⟩

/-- The members, in `(score, member)` order. -/
def members (z : ZSet α) : List α := z.entries.map fun e => (ofLex e).2

/-- The score of a member, `none` for a non-member. -/
def score (z : ZSet α) (a : α) : Option Int :=
  (z.entries.find? fun e => (ofLex e).2 = a).map fun e => (ofLex e).1

/-- The entries of `z` whose member is not `a`. -/
def others (z : ZSet α) (a : α) : List (Int ×ₗ α) :=
  z.entries.filter fun e => (ofLex e).2 ≠ a

private theorem others_sorted (z : ZSet α) (a : α) :
    (z.others a).Pairwise (· ≤ ·) :=
  z.sorted.filter _

private theorem others_nodup (z : ZSet α) (a : α) :
    ((z.others a).map fun e => (ofLex e).2).Nodup :=
  z.nodup.sublist (List.filter_sublist.map _)

private theorem not_mem_others (z : ZSet α) (a : α) :
    a ∉ (z.others a).map fun e => (ofLex e).2 := by
  simp [others]

/-- Remove a member. -/
def remove (z : ZSet α) (a : α) : ZSet α :=
  ⟨z.others a, z.others_sorted a, z.others_nodup a⟩

/-- Add a member under a score, replacing the score it had. -/
def add (z : ZSet α) (sc : Int) (a : α) : ZSet α where
  entries := (z.others a).orderedInsert (· ≤ ·) (toLex (sc, a))
  sorted := (z.others_sorted a).orderedInsert _ _
  nodup := by
    have hperm := (List.perm_orderedInsert (· ≤ ·) (toLex (sc, a)) (z.others a)).map
      fun e => (ofLex e).2
    rw [hperm.nodup_iff, List.map_cons, List.nodup_cons]
    exact ⟨z.not_mem_others a, z.others_nodup a⟩

/-- The number of members. -/
def card (z : ZSet α) : Nat := z.entries.length

/-- At most `limit` members with score at most `hi`, lowest first.  A negative
limit asks for all of them. -/
def rangeByScore (z : ZSet α) (hi : Int) (limit : Int) : List α :=
  let hits := (z.entries.filter fun e => (ofLex e).1 ≤ hi).map fun e => (ofLex e).2
  if limit < 0 then hits else hits.take limit.toNat

/-- `count` members starting at position `start`. -/
def range (z : ZSet α) (start count : Nat) : List α :=
  (z.members.drop start).take count

/-- The member in first position. -/
def first (z : ZSet α) : Option α := z.members.head?

/-! ## Section 2: Scores characterise sorted sets -/

section
variable (z : ZSet α) (hi limit : Int)

theorem score_eq_some (a : α) (sc : Int) : z.score a = some sc ↔ toLex (sc, a) ∈ z.entries := by
  constructor
  · intro h
    obtain ⟨e, he, rfl⟩ := Option.map_eq_some_iff.mp h
    have hmem := List.mem_of_find?_eq_some he
    have hsnd : (ofLex e).2 = a := by simpa using List.find?_some he
    rw [← hsnd]
    exact hmem
  · intro h
    have hsome : (z.entries.find? fun e => (ofLex e).2 = a).isSome := by
      rw [List.find?_isSome]
      exact ⟨_, h, by simp⟩
    obtain ⟨e, he⟩ := Option.isSome_iff_exists.mp hsome
    have hmem := List.mem_of_find?_eq_some he
    have hsnd : (ofLex e).2 = a := by simpa using List.find?_some he
    -- two entries with the same member are the same entry
    have heq : e = toLex (sc, a) := List.inj_on_of_nodup_map z.nodup hmem h hsnd
    simp [score, he, heq]

theorem mem_members (a : α) : a ∈ z.members ↔ ∃ sc, z.score a = some sc := by
  simp only [members, List.mem_map, score_eq_some]
  constructor
  · rintro ⟨e, he, rfl⟩
    exact ⟨(ofLex e).1, he⟩
  · rintro ⟨sc, h⟩
    exact ⟨_, h, rfl⟩

@[simp] theorem score_empty (a : α) : (empty : ZSet α).score a = none := rfl

@[simp] theorem score_remove (a b : α) :
    (z.remove a).score b = if b = a then none else z.score b := by
  apply Option.ext
  intro sc
  rw [score_eq_some]
  by_cases hb : b = a
  · simp [remove, others, hb]
  · simp [remove, others, hb, score_eq_some]

@[simp] theorem score_add (sc : Int) (a b : α) :
    (z.add sc a).score b = if b = a then some sc else z.score b := by
  apply Option.ext
  intro t
  rw [score_eq_some, add, List.mem_orderedInsert]
  by_cases hb : b = a
  · subst hb
    simp [others, eq_comm]
  · simp [others, hb, score_eq_some]

theorem card_eq_zero : z.card = 0 ↔ ∀ a, z.score a = none := by
  constructor
  · intro h a
    have hnil : z.entries = [] := List.length_eq_zero_iff.mp h
    simp [score, hnil]
  · intro h
    rw [card, List.length_eq_zero_iff, List.eq_nil_iff_forall_not_mem]
    intro e he
    have hsome : z.score (ofLex e).2 = some (ofLex e).1 := (z.score_eq_some _ _).mpr he
    simp [h] at hsome

theorem card_members : z.members.toFinset.card = z.card := by
  have hnodup : z.members.Nodup := z.nodup
  rw [List.toFinset_card_of_nodup hnodup]
  exact List.length_map _

theorem mem_rangeByScore (a : α) (h : a ∈ z.rangeByScore hi limit) :
    ∃ sc, z.score a = some sc ∧ sc ≤ hi := by
  have hmem : a ∈ (z.entries.filter fun e => (ofLex e).1 ≤ hi).map fun e => (ofLex e).2 := by
    unfold rangeByScore at h
    split at h
    · exact h
    · exact List.mem_of_mem_take h
  simp only [List.mem_map, List.mem_filter, decide_eq_true_eq] at hmem
  obtain ⟨e, ⟨he, hle⟩, rfl⟩ := hmem
  exact ⟨(ofLex e).1, (z.score_eq_some _ _).mpr he, hle⟩

theorem rangeByScore_nodup : (z.rangeByScore hi limit).Nodup := by
  have hall : ((z.entries.filter fun e => (ofLex e).1 ≤ hi).map fun e => (ofLex e).2).Nodup :=
    z.nodup.sublist (List.filter_sublist.map _)
  unfold rangeByScore
  split
  · exact hall
  · exact hall.sublist (List.take_sublist _ _)

/-- A limit at least as large as a set containing every hit cuts nothing off. -/
theorem mem_rangeByScore_of_card_le (S : Finset α)
    (hS : ∀ a sc, z.score a = some sc → sc ≤ hi → a ∈ S) (hcard : (S.card : Int) ≤ limit) {a : α}
    {sc : Int} (ha : z.score a = some sc) (hsc : sc ≤ hi) : a ∈ z.rangeByScore hi limit := by
  have hlim : ¬ limit < 0 := by omega
  set hits := (z.entries.filter fun e => (ofLex e).1 ≤ hi).map fun e => (ofLex e).2 with hhits
  have hnodup : hits.Nodup := z.nodup.sublist (List.filter_sublist.map _)
  have hsub : hits.toFinset ⊆ S := by
    intro b hb
    rw [List.mem_toFinset, hhits, List.mem_map] at hb
    obtain ⟨e, he, rfl⟩ := hb
    rw [List.mem_filter] at he
    exact hS _ _ ((z.score_eq_some _ _).mpr he.1) (of_decide_eq_true he.2)
  have hlen : hits.length ≤ limit.toNat := by
    have hle := Finset.card_le_card hsub
    rw [List.toFinset_card_of_nodup hnodup] at hle
    omega
  have hmem : a ∈ hits := by
    rw [hhits, List.mem_map]
    refine ⟨toLex (sc, a), ?_, rfl⟩
    rw [List.mem_filter]
    exact ⟨(z.score_eq_some _ _).mp ha, decide_eq_true hsc⟩
  unfold rangeByScore
  rw [if_neg hlim, ← hhits, List.take_of_length_le hlen]
  exact hmem

/-- The first member is a member, and it precedes every other one. -/
theorem first_eq_some {a : α} (h : z.first = some a) :
    ∃ sc, z.score a = some sc ∧
      ∀ b t, z.score b = some t → toLex (sc, a) ≤ toLex (t, b) := by
  rw [first, members, List.head?_map, Option.map_eq_some_iff] at h
  obtain ⟨e, he, rfl⟩ := h
  obtain ⟨rest, hrest⟩ := List.head?_eq_some_iff.mp he
  refine ⟨(ofLex e).1, (z.score_eq_some _ _).mpr (by rw [hrest]; exact List.mem_cons_self), ?_⟩
  intro b t hb
  have hmem := (z.score_eq_some _ _).mp hb
  have hsorted := z.sorted
  rw [hrest] at hmem hsorted
  rcases List.mem_cons.mp hmem with heq | hin
  · exact le_of_eq heq.symm
  · exact (List.pairwise_cons.mp hsorted).1 _ hin

end

end ZSet

/-! ## Section 3: Enumerations of plain sets -/

/-- A way of listing finite sets, each member once.  Programs that iterate over
a set in unspecified order take one of these as a parameter. -/
structure SetOrder (α : Type*) where
  /-- The members of a set, in the order the iteration meets them. -/
  list : Finset α → List α
  /-- Exactly the members are listed. -/
  mem_list : ∀ (S : Finset α) (a : α), a ∈ list S ↔ a ∈ S
  /-- Each member is listed once. -/
  nodup : ∀ S : Finset α, (list S).Nodup

/-- The enumeration in increasing order. -/
def SetOrder.increasing : SetOrder α where
  list S := Quotient.liftOn S.val (fun l => l.insertionSort (· ≤ ·)) fun a b hab =>
    ((List.perm_insertionSort _ a).trans (hab.trans (List.perm_insertionSort _ b).symm)).eq_of_pairwise'
      (List.pairwise_insertionSort _ a) (List.pairwise_insertionSort _ b)
  mem_list S a := by
    obtain ⟨val, hval⟩ := S
    induction val using Quotient.inductionOn with
    | h l => exact (List.perm_insertionSort (· ≤ ·) l).mem_iff
  nodup S := by
    obtain ⟨val, hval⟩ := S
    induction val using Quotient.inductionOn with
    | h l => exact (List.perm_insertionSort (· ≤ ·) l).nodup_iff.mpr (by simpa using hval)

end Headgate.Data
