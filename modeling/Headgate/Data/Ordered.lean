import Headgate.Data.Table

/-!
# Queries in the order of a key

`ORDER BY … LIMIT` and the window functions that run along an order: row
numbers and running sums.  What such a query says about the rows up to a cut
depends on the rows up to the cut alone.  So two inputs that agree up to a cut
give the same answer there, however they differ behind it, and a `LIMIT` that
stops before the cut cannot tell them apart.
-/

namespace Headgate.Data

section Ordered
variable {α β κ : Type*} [LinearOrder κ] {key : α → κ} {l l' l₁ l₂ : List α} {a b : α} {m n : Nat}
  {f : α → β} {p : α → Bool} {key' : β → κ}

/-! ## Section 1: Strict order -/

theorem orderBy_perm (key : α → κ) (l : List α) : (orderBy key l).Perm l :=
  List.perm_insertionSort _ l

theorem orderBy_le (key : α → κ) (l : List α) :
    (orderBy key l).Pairwise fun a b => key a ≤ key b := by
  have : IsTrans α fun a b => key a ≤ key b := ⟨fun _ _ _ => le_trans⟩
  have : Std.Total fun a b : α => key a ≤ key b := ⟨fun a b => le_total (key a) (key b)⟩
  exact List.pairwise_insertionSort _ l

/-- An order by a key, without ties. -/
theorem orderBy_strict (h : (l.map key).Nodup) :
    (orderBy key l).Pairwise fun a b => key a < key b := by
  have hne : (orderBy key l).Pairwise fun a b => key a ≠ key b := by
    have := (((orderBy_perm key l).map key).nodup_iff).mpr h
    rwa [List.Nodup, List.pairwise_map] at this
  exact ((orderBy_le key l).and hne).imp fun hab => lt_of_le_of_ne hab.1 hab.2

/-- The first row of an ordered query is a least one. -/
theorem key_head_le (ha : (orderBy key l).head? = some a) (hb : b ∈ l) :
    key a ≤ key b := by
  have hle := orderBy_le key l
  obtain ⟨rest, hrest⟩ := List.head?_eq_some_iff.mp ha
  have hmem : b ∈ orderBy key l := mem_orderBy.mpr hb
  rw [hrest] at hle hmem
  rcases List.mem_cons.mp hmem with rfl | hmem
  · exact le_rfl
  · exact (List.pairwise_cons.mp hle).1 b hmem

/-- A list in strict order is determined by its members. -/
theorem eq_of_strict (h₁ : l₁.Pairwise fun a b => key a < key b)
    (h₂ : l₂.Pairwise fun a b => key a < key b) (h : ∀ a, a ∈ l₁ ↔ a ∈ l₂) : l₁ = l₂ := by
  have hnodup : ∀ {l : List α}, l.Pairwise (fun a b => key a < key b) → l.Nodup :=
    fun hl => hl.imp fun hab heq => by rw [heq] at hab; exact lt_irrefl _ hab
  have hperm : l₁.Perm l₂ := (List.perm_ext_iff_of_nodup (hnodup h₁) (hnodup h₂)).mpr h
  have : Std.Antisymm fun a b : α => key a < key b := ⟨fun _ _ hab hba => absurd hba (lt_asymm hab)⟩
  exact hperm.eq_of_pairwise' h₁ h₂

omit [LinearOrder κ] in
theorem nodup_map_filter (p : α → Bool) (h : (l.map key).Nodup) :
    ((l.filter p).map key).Nodup :=
  (List.filter_sublist.map key).nodup h

section
variable (h : l.Pairwise fun a b => key a < key b)
include h

/-- In strict order the rows before a bound come first. -/
theorem filter_take_of_strict (z : κ) :
    (l.take n).filter (fun b => key b < z) = (l.filter fun b => key b < z).take n := by
  induction l generalizing n with
  | nil => simp
  | cons b rest ih =>
    obtain ⟨hb, hrest⟩ := List.pairwise_cons.mp h
    cases n with
    | zero => rfl
    | succ n =>
      -- behind an element that is too large there are only larger ones
      by_cases hz : key b < z
      · simp [hz, ih hrest]
      · have hnone : rest.filter (fun b => key b < z) = [] :=
          List.filter_eq_nil_iff.mpr fun c hc hcz => hz ((hb c hc).trans (of_decide_eq_true hcz))
        simp [hz, ih hrest, hnone]

/-- A row is among the first ones if fewer come before it. -/
theorem mem_take_of_strict :
    a ∈ l.take n ↔ a ∈ l ∧ (l.filter fun b => key b < key a).length < n := by
  induction l generalizing n with
  | nil => simp
  | cons b rest ih =>
    obtain ⟨hb, hrest⟩ := List.pairwise_cons.mp h
    cases n with
    | zero => simp
    | succ n =>
      rw [List.take_succ_cons, List.mem_cons, List.mem_cons, ih hrest]
      -- the head is before all others and has none before it
      by_cases hab : a = b
      · have hnone : rest.filter (fun c => key c < key b) = [] :=
          List.filter_eq_nil_iff.mpr fun c hc => by simpa using (hb c hc).le
        simp [hab, hnone]
      · simp only [hab, false_or]
        refine and_congr_right fun ha => ?_
        rw [List.filter_cons_of_pos (by simpa using hb a ha), List.length_cons,
          Nat.succ_lt_succ_iff]

end

/-! ## Section 2: `ORDER BY … LIMIT` -/

/-- `ORDER BY key LIMIT n`. -/
def first (key : α → κ) (n : Nat) (l : List α) : List α := (orderBy key l).take n

theorem first_sublist (key : α → κ) (n : Nat) (l : List α) :
    (first key n l).Sublist (orderBy key l) := List.take_sublist _ _

theorem mem_of_mem_first (h : a ∈ first key n l) : a ∈ l :=
  mem_orderBy.mp (List.mem_of_mem_take h)

section
variable (h : (l.map key).Nodup)
include h

theorem first_strict :
    (first key n l).Pairwise fun a b => key a < key b :=
  (orderBy_strict h).sublist (first_sublist key n l)

theorem nodup_map_first :
    ((first key n l).map key).Nodup := by
  have := ((((orderBy_perm key l).map key).nodup_iff).mpr h)
  exact ((first_sublist key n l).map key).nodup this

/-- A row is returned if fewer than the limit come before it. -/
theorem mem_first :
    a ∈ first key n l ↔ a ∈ l ∧ (l.filter fun b => key b < key a).length < n := by
  rw [first, mem_take_of_strict (orderBy_strict h), mem_orderBy,
    ((orderBy_perm key l).filter _).length_eq]

/-- Of the rows below a bound, a limit keeps as many as it can. -/
theorem length_filter_first (k : κ) :
    ((first key n l).filter fun b => key b < k).length
      = min n (l.filter fun b => key b < k).length := by
  rw [first, filter_take_of_strict (orderBy_strict h), List.length_take,
    ((orderBy_perm key l).filter _).length_eq]

end

/-- Two bounded streams merged and bounded again are the bounded whole. -/
theorem first_append_first (h : ((l₁ ++ l₂).map key).Nodup) :
    first key n (first key n l₁ ++ first key n l₂) = first key n (l₁ ++ l₂) := by
  have h' := h
  rw [List.map_append, List.nodup_append] at h'
  obtain ⟨h₁, h₂, hne⟩ := h'
  have hinner : ((first key n l₁ ++ first key n l₂).map key).Nodup := by
    rw [List.map_append, List.nodup_append]
    refine ⟨nodup_map_first h₁, nodup_map_first h₂, ?_⟩
    intro a ha b hb
    obtain ⟨x, hx, rfl⟩ := List.mem_map.mp ha
    obtain ⟨y, hy, rfl⟩ := List.mem_map.mp hb
    exact hne _ (List.mem_map_of_mem (mem_of_mem_first hx)) _
      (List.mem_map_of_mem (mem_of_mem_first hy))
  apply eq_of_strict (first_strict hinner) (first_strict h)
  intro a
  rw [mem_first hinner, mem_first h, List.mem_append, List.mem_append, mem_first h₁, mem_first h₂,
    List.filter_append, List.filter_append, List.length_append, List.length_append,
    length_filter_first h₁, length_filter_first h₂]
  constructor
  · rintro ⟨ha | ha, hlt⟩
    · exact ⟨.inl ha.1, by omega⟩
    · exact ⟨.inr ha.1, by omega⟩
  · rintro ⟨ha | ha, hlt⟩
    · exact ⟨.inl ⟨ha, by omega⟩, by omega⟩
    · exact ⟨.inr ⟨ha, by omega⟩, by omega⟩

/-- An order by a key of the image is the image of the order. -/
theorem orderBy_map {ι : Type*} [LinearOrder ι] {key' : β → ι}
    (h : ∀ a ∈ l, ∀ b ∈ l, key a ≤ key b ↔ key' (f a) ≤ key' (f b)) :
    (orderBy key l).map f = orderBy key' (l.map f) :=
  List.map_insertionSort (r := fun a b => key a ≤ key b) (s := fun a b => key' a ≤ key' b) f l h

theorem first_map {ι : Type*} [LinearOrder ι] {key' : β → ι} (n : Nat)
    (h : ∀ a ∈ l, ∀ b ∈ l, key a ≤ key b ↔ key' (f a) ≤ key' (f b)) :
    (first key n l).map f = first key' n (l.map f) := by
  unfold first
  rw [List.map_take, orderBy_map h]

/-- A limit before a filter and a limit after it give the same rows exactly if no row that the
filter keeps falls behind the limit because of rows that it drops. -/
theorem filter_first_eq_iff (p : α → Bool) (h : (l.map key).Nodup) :
    (first key n l).filter p = first key n (l.filter p) ↔
      ∀ a ∈ l, p a = true → ((l.filter p).filter fun b => key b < key a).length < n →
        (l.filter fun b => key b < key a).length < n := by
  have hfilter := nodup_map_filter p h
  have hmem : ∀ a, a ∈ (first key n l).filter p ↔
      (a ∈ l ∧ (l.filter fun b => key b < key a).length < n) ∧ p a = true := fun a => by
    rw [List.mem_filter, mem_first h]
  constructor
  · intro heq a ha hpa hroom
    have hfirst : a ∈ first key n (l.filter p) :=
      (mem_first hfilter).mpr ⟨List.mem_filter.mpr ⟨ha, hpa⟩, hroom⟩
    rw [← heq] at hfirst
    exact ((hmem a).mp hfirst).1.2
  · -- the filter can only shorten what stands before an element
    intro hroom
    apply eq_of_strict ((first_strict h).filter _) (first_strict hfilter)
    intro a
    rw [hmem, mem_first hfilter, List.mem_filter]
    constructor
    · rintro ⟨⟨ha, hbefore⟩, hpa⟩
      refine ⟨⟨ha, hpa⟩, lt_of_le_of_lt ?_ hbefore⟩
      exact (List.filter_sublist.filter _).length_le
    · rintro ⟨⟨ha, hpa⟩, hbefore⟩
      exact ⟨⟨ha, hroom a ha hpa hbefore⟩, hpa⟩

/-! ## Section 3: Window functions -/

section Window
variable {γ : Type*} [DecidableEq γ]

/-- `row_number() OVER (PARTITION BY group ORDER BY key)`. -/
def rowNumber (group : α → γ) (key : α → κ) (l : List α) (a : α) : Nat :=
  (l.filter fun b => group b = group a ∧ key b < key a).length + 1

/-- `sum(weight) OVER (PARTITION BY group ORDER BY key)`, the row itself included. -/
def runningSum (group : α → γ) (key : α → κ) (weight : α → Int) (l : List α) (a : α) : Int :=
  ((l.filter fun b => group b = group a ∧ key b ≤ key a).map weight).sum

theorem rowNumber_lt {group : α → γ} (ha : a ∈ l) (hgroup : group a = group b) (hab : key a < key b)
    :
    rowNumber group key l a < rowNumber group key l b := by
  refine Nat.succ_lt_succ ?_
  -- the rows before `a` come before `b`, and `a` itself does
  have hsub : (l.filter fun c => group c = group a ∧ key c < key a)
      = (l.filter fun c => group c = group b ∧ key c < key b).filter fun c => key c < key a := by
    rw [List.filter_filter]
    apply List.filter_congr
    intro c _
    have : key c < key a → key c < key b := fun hc => hc.trans hab
    by_cases hc : key c < key a <;> simp [hc, hgroup, this]
  rw [hsub]
  apply List.length_filter_lt_length_iff_exists.mpr
  exact ⟨a, List.mem_filter.mpr ⟨ha, by simp [hgroup, hab]⟩, by simp⟩

end Window

/-- An order by another key that rises with the first is the same order. -/
theorem orderBy_eq_of_rises {ι : Type*} [LinearOrder ι] {key' : α → ι} (h : (l.map key).Nodup)
    (hrise : ∀ a ∈ l, ∀ b ∈ l, key a < key b → key' a < key' b) :
    orderBy key' l = orderBy key l := by
  have hmem : ∀ {a}, a ∈ orderBy key l → a ∈ l := mem_orderBy.mp
  have hstrict : (orderBy key l).Pairwise fun a b => key' a < key' b :=
    (orderBy_strict h).imp_of_mem fun ha hb hab => hrise _ (hmem ha) _ (hmem hb) hab
  have hnodup : (l.map key').Nodup := by
    rw [← (((orderBy_perm key l).map key').nodup_iff), List.Nodup, List.pairwise_map]
    exact hstrict.imp fun hab => ne_of_lt hab
  apply eq_of_strict (orderBy_strict hnodup) hstrict
  intro a
  rw [mem_orderBy, mem_orderBy]

/-! ## Section 4: Agreement up to a cut -/

/-- The rows up to a cut. -/
def upTo (key : α → κ) (z : κ) (l : List α) : List α := l.filter fun a => key a ≤ z

section Cut
variable {z : κ}

section
variable (h : upTo key z l = upTo key z l')
include h

/-- A condition that only holds up to the cut selects the same rows. -/
theorem filter_eq_of_upTo (hp : ∀ a, p a = true → key a ≤ z) :
    l.filter p = l'.filter p := by
  have hcut : ∀ l : List α, l.filter p = (upTo key z l).filter p := by
    intro l
    rw [upTo, List.filter_filter]
    apply List.filter_congr
    intro a _
    have := hp a
    cases hpa : p a <;> simp_all
  rw [hcut l, hcut l', h]

theorem rowNumber_eq_of_upTo {γ : Type*} [DecidableEq γ] {group : α → γ} (ha : key a ≤ z) :
    rowNumber group key l a = rowNumber group key l' a := by
  unfold rowNumber
  rw [filter_eq_of_upTo h]
  intro b hb
  simp only [decide_eq_true_eq] at hb
  exact hb.2.le.trans ha

theorem runningSum_eq_of_upTo {γ : Type*} [DecidableEq γ] {group : α → γ} {weight : α → Int}
    (ha : key a ≤ z) :
    runningSum group key weight l a = runningSum group key weight l' a := by
  unfold runningSum
  rw [filter_eq_of_upTo h]
  intro b hb
  simp only [decide_eq_true_eq] at hb
  exact hb.2.trans ha

end

theorem upTo_filter (p : α → Bool) : upTo key z (l.filter p) = (upTo key z l).filter p := by
  unfold upTo
  rw [List.filter_filter, List.filter_filter]
  apply List.filter_congr
  intro a _
  exact Bool.and_comm _ _

theorem upTo_filter_eq (h : upTo key z l = upTo key z l') {q : α → Bool}
    (hpq : ∀ a, key a ≤ z → p a = q a) :
    upTo key z (l.filter p) = upTo key z (l'.filter q) := by
  rw [upTo_filter, upTo_filter, ← h]
  apply List.filter_congr
  intro a ha
  exact hpq a (by simpa [upTo] using (List.mem_filter.mp ha).2)

theorem upTo_filterMap {f : α → Option β} (hf : ∀ a b, f a = some b → key' b = key a) :
    upTo key' z (l.filterMap f) = (upTo key z l).filterMap f := by
  unfold upTo
  rw [List.filter_filterMap, List.filterMap_filter]
  apply List.filterMap_congr
  intro a _
  cases hfa : f a with
  | none => simp
  | some b =>
    have := hf a b hfa
    by_cases ha : key a ≤ z <;> simp [Option.filter, this, ha]

theorem upTo_filterMap_eq {f g : α → Option β} (hf : ∀ a b, f a = some b → key' b = key a)
    (hg : ∀ a b, g a = some b → key' b = key a) (h : upTo key z l = upTo key z l')
    (hfg : ∀ a, key a ≤ z → f a = g a) :
    upTo key' z (l.filterMap f) = upTo key' z (l'.filterMap g) := by
  rw [upTo_filterMap hf, upTo_filterMap hg, ← h]
  apply List.filterMap_congr
  intro a ha
  exact hfg a (by simpa [upTo] using (List.mem_filter.mp ha).2)

theorem upTo_flatMap {ι : Type*} {f g : ι → List α} {is : List ι}
    (h : ∀ i ∈ is, upTo key z (f i) = upTo key z (g i)) :
    upTo key z (is.flatMap f) = upTo key z (is.flatMap g) := by
  unfold upTo at *
  rw [List.filter_flatMap, List.filter_flatMap]
  exact List.flatMap_congr h

/-- A limit that stops before the cut. -/
theorem first_eq_of_upTo (hl : (l.map key).Nodup) (hl' : (l'.map key).Nodup)
    (h : upTo key z l = upTo key z l') (hn : n ≤ (upTo key z l).length) :
    first key n l = first key n l' := by
  have hcut : ∀ {l l' : List α}, (l.map key).Nodup → (l'.map key).Nodup →
      upTo key z l = upTo key z l' → n ≤ (upTo key z l).length →
      ∀ a ∈ first key n l, a ∈ first key n l' := by
    intro l l' hl hl' h hn a ha
    rw [mem_first hl] at ha
    rw [mem_first hl']
    -- a row behind the cut has all rows up to the cut before it
    have haz : key a ≤ z := by
      by_contra hza
      have hle := ((l.monotone_filter_right (p := fun b => decide (key b ≤ z))
        (q := fun b => decide (key b < key a)) fun b hb => ?_)).length_le
      · rw [upTo] at hn
        omega
      · simp only [decide_eq_true_eq] at hb ⊢
        exact lt_of_le_of_lt hb (not_le.mp hza)
    refine ⟨?_, ?_⟩
    · have hup : a ∈ upTo key z l := List.mem_filter.mpr ⟨ha.1, decide_eq_true haz⟩
      rw [h] at hup
      exact (List.mem_filter.mp hup).1
    · rw [← filter_eq_of_upTo h fun b hb => (of_decide_eq_true hb).le.trans haz]
      exact ha.2
  refine eq_of_strict (first_strict hl) (first_strict hl') fun a => ⟨hcut hl hl' h hn a, ?_⟩
  exact hcut hl' hl h.symm (by rw [← h]; exact hn) a

/-- A shorter window agrees with a longer one up to a cut that it covers. -/
theorem upTo_take_eq (hl : l.Pairwise fun a b => key a < key b) (hn : 0 < n) (hnm : n ≤ m)
    (hz : ∀ t, (l.take n).getLast? = some t → l.length ≤ n ∨ z ≤ key t) :
    upTo key z (l.take n) = upTo key z (l.take m) := by
  have hsplit : l.take m = l.take n ++ (l.take m).drop n := by
    conv_lhs => rw [← List.take_append_drop n (l.take m)]
    rw [List.take_take, min_eq_left hnm]
  have hempty : upTo key z ((l.take m).drop n) = [] := by
    apply List.filter_eq_nil_iff.mpr
    intro a ha
    -- a dropped row comes after the last one kept
    have hne : l.take n ≠ [] := by
      intro hnil
      have hlen := congrArg List.length hnil
      have := List.length_pos_of_mem ha
      simp only [List.length_take, List.length_drop, List.length_nil] at hlen this
      omega
    have hlast := hz _ (List.getLast?_eq_some_getLast hne)
    have hlong : n < l.length := by
      have := List.length_pos_of_mem ha
      simp only [List.length_take, List.length_drop] at this
      omega
    have hafter : key ((l.take n).getLast hne) < key a := by
      have hpair := hl.sublist (List.take_sublist m l)
      rw [hsplit, List.pairwise_append] at hpair
      exact hpair.2.2 _ (List.getLast_mem hne) a ha
    have hz' : z ≤ key ((l.take n).getLast hne) := hlast.resolve_left (by omega)
    simp [not_le.mpr (lt_of_le_of_lt hz' hafter)]
  have hparts : upTo key z (l.take n ++ (l.take m).drop n)
      = upTo key z (l.take n) ++ upTo key z ((l.take m).drop n) := List.filter_append _ _
  rw [hsplit, hparts, hempty, List.append_nil]

end Cut

end Ordered

end Headgate.Data
