import Mathlib

/-!
# Indexes that mirror a table

A store keeps rows by id and, beside them, indexes it maintains by hand.  An
index `Mirrors` the table if it holds exactly the rows that `entry` gives a
value, under that value; a set `Lists` the rows with a property.  Both are stated
for the table as a whole, so one statement says that no entry is missing, that
none is left over, and that none is stale.

Every rule below is about a write to one row: it names what the index must say
about that row afterwards and leaves the others alone.
-/

namespace Headgate.Data

variable {ι ρ β : Type*}

/-! ## Section 1: Indexes with a value -/

/-- The index holds the rows that `entry` gives a value, under that value. -/
def Mirrors (entry : ρ → Option β) (table : ι → Option ρ) (index : ι → Option β) : Prop :=
  ∀ i, index i = (table i).bind entry

section
variable {entry : ρ → Option β} {table table' : ι → Option ρ} {index index' : ι → Option β}

/-- What the index says about a row that is there. -/
theorem Mirrors.at_row (h : Mirrors entry table index) {i : ι} {r : ρ} (hr : table i = some r) :
    index i = entry r := by
  rw [h i, hr, Option.bind_some]

theorem Mirrors.congr (h : Mirrors entry table index) (rows : ∀ x, table' x = table x)
    (cells : ∀ x, index' x = index x) : Mirrors entry table' index' := by
  intro x
  rw [rows, cells]
  exact h x

variable [DecidableEq ι] {i : ι} {row : Option ρ}

section
variable (h : Mirrors entry table index) (rows : ∀ x, table' x = if x = i then row else table x)
include h rows

/-- A row is replaced, and its cell with it. -/
theorem Mirrors.replace
    (cells : ∀ x, index' x = if x = i then row.bind entry else index x) :
    Mirrors entry table' index' := by
  intro x
  rw [rows, cells]
  split
  · rfl
  · exact h x

/-- A row is replaced by one with the same entry, and the index is left alone. -/
theorem Mirrors.keep
    (same : row.bind entry = (table i).bind entry) (cells : ∀ x, index' x = index x) :
    Mirrors entry table' index' := by
  refine h.replace rows fun x => ?_
  rw [cells]
  split
  · rename_i hx
    rw [hx, same]
    exact h i
  · rfl

end

end

/-! ## Section 2: Sets of rows -/

/-- The set lists exactly the rows with the property. -/
def Lists (P : ρ → Prop) (table : ι → Option ρ) (S : Finset ι) : Prop :=
  ∀ i, i ∈ S ↔ ∃ r, table i = some r ∧ P r

section
variable {P : ρ → Prop} {table table' : ι → Option ρ} {S S' : Finset ι}

theorem Lists.congr (h : Lists P table S) (rows : ∀ x, table' x = table x)
    (cells : ∀ x, x ∈ S' ↔ x ∈ S) : Lists P table' S' := by
  intro x
  rw [rows, cells]
  exact h x

/-- A set is determined by the rows it lists. -/
theorem Lists.unique (h : Lists P table S) (h' : Lists P table S') : S' = S := by
  ext x
  rw [h x, h' x]

variable [DecidableEq ι] {i : ι} {row : Option ρ}

section
variable (h : Lists P table S)
include h

theorem Lists.replace
    (rows : ∀ x, table' x = if x = i then row else table x)
    (cells : ∀ x, x ∈ S' ↔ if x = i then ∃ r, row = some r ∧ P r else x ∈ S) :
    Lists P table' S' := by
  intro x
  rw [cells, rows]
  split
  · rfl
  · exact h x

/-- A row that gets the property enters the set. -/
theorem Lists.enter {r : ρ}
    (rows : ∀ x, table' x = if x = i then some r else table x) (has : P r) :
    Lists P table' (insert i S) := by
  refine h.replace rows fun x => ?_
  rw [Finset.mem_insert]
  by_cases hx : x = i
  · simp [hx, has]
  · simp [hx]

/-- A row that loses the property leaves the set. -/
theorem Lists.leave
    (rows : ∀ x, table' x = if x = i then row else table x) (gone : ∀ r, row = some r → ¬ P r) :
    Lists P table' (S.erase i) := by
  refine h.replace rows fun x => ?_
  rw [Finset.mem_erase]
  by_cases hx : x = i
  · have hnone : ¬ ∃ r, row = some r ∧ P r := fun ⟨r, hr, hP⟩ => gone r hr hP
    simp [hx, hnone]
  · simp [hx]

/-- A row keeps the property, or stays without it. -/
theorem Lists.keep
    (rows : ∀ x, table' x = if x = i then row else table x)
    (same : (∃ r, row = some r ∧ P r) ↔ ∃ r, table i = some r ∧ P r) : Lists P table' S := by
  refine h.replace rows fun x => ?_
  split
  · rename_i hx
    rw [hx, same]
    exact h i
  · rfl

end

/-! ## Section 3: Counters -/

/-- A counter of the listed rows goes up by one when a row enters. -/
theorem Lists.card_enter {r : ρ} (h : Lists P table S) (h' : Lists P table' S')
    (rows : ∀ x, table' x = if x = i then some r else table x) (has : P r)
    (was : ∀ r, table i = some r → ¬ P r) : S'.card = S.card + 1 := by
  have hnew : i ∉ S := fun hi => by
    obtain ⟨r, hr, hP⟩ := (h i).mp hi
    exact was r hr hP
  rw [(h.enter rows has).unique h', Finset.card_insert_of_notMem hnew]

/-- A counter of the listed rows goes down by one when a row leaves. -/
theorem Lists.card_leave {r : ρ} (h : Lists P table S) (h' : Lists P table' S')
    (rows : ∀ x, table' x = if x = i then row else table x) (was : table i = some r) (has : P r)
    (gone : ∀ r, row = some r → ¬ P r) : S.card = S'.card + 1 := by
  have hold : i ∈ S := (h i).mpr ⟨r, was, has⟩
  rw [(h.leave rows gone).unique h', Finset.card_erase_add_one hold]

/-- What a row adds to the counter. -/
def tally (P : ρ → Prop) [DecidablePred P] (row : Option ρ) : Int :=
  if row.any fun r => P r then 1 else 0

/-- Whatever replaces a row, the counter moves by what the two rows add to it. -/
theorem Lists.card_replace [DecidablePred P] (h : Lists P table S) (h' : Lists P table' S')
    (rows : ∀ x, table' x = if x = i then row else table x) :
    (S'.card : Int) = S.card + tally P row - tally P (table i) := by
  have hany : ∀ o : Option ρ, (o.any fun r => P r) = true ↔ ∃ r, o = some r ∧ P r := by
    intro o
    cases o <;> simp
  by_cases hnew : ∃ r, row = some r ∧ P r
  · by_cases hold : ∃ r, table i = some r ∧ P r
    · have hsame : S' = S := (h.keep rows ⟨fun _ => hold, fun _ => hnew⟩).unique h'
      rw [tally, tally, if_pos ((hany _).mpr hnew), if_pos ((hany _).mpr hold), hsame]
      omega
    · have hwas : ∀ r, table i = some r → ¬ P r := fun r hr hP => hold ⟨r, hr, hP⟩
      rw [tally, tally, if_pos ((hany _).mpr hnew), if_neg (fun hi => hold ((hany _).mp hi))]
      obtain ⟨r, rfl, has⟩ := hnew
      have hcard := h.card_enter h' rows has hwas
      omega
  · have hgone : ∀ r, row = some r → ¬ P r := fun r hr hP => hnew ⟨r, hr, hP⟩
    by_cases hold : ∃ r, table i = some r ∧ P r
    · rw [tally, tally, if_neg (fun hi => hnew ((hany _).mp hi)), if_pos ((hany _).mpr hold)]
      obtain ⟨r, hr, has⟩ := hold
      have hcard := h.card_leave h' rows hr has hgone
      omega
    · have hsame : S' = S :=
        (h.keep rows ⟨fun hi => absurd hi hnew, fun hi => absurd hi hold⟩).unique h'
      rw [tally, tally, if_neg (fun hi => hnew ((hany _).mp hi)),
        if_neg (fun hi => hold ((hany _).mp hi)), hsame]
      omega

end

end Headgate.Data
