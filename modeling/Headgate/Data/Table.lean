import Headgate.Data.Keyed

/-!
# Tables with a primary key

A table is a list of keyed rows, no key twice.  The operations are the
statements a store issues: insert, update and delete where a condition holds,
and select.  Each has one lemma that says what it does to `get`; the list
behind a table only matters for what an unordered query returns first.
-/

namespace Headgate.Data

/-- In a list whose keys are distinct, a key names one element. -/
theorem eq_of_nodup_filterMap {α κ : Type*} {key : α → Option κ} {l : List α}
    (h : (l.filterMap key).Nodup) {a b : α} (ha : a ∈ l) (hb : b ∈ l) {k : κ}
    (hka : key a = some k) (hkb : key b = some k) : a = b := by
  rw [List.Nodup, List.pairwise_filterMap] at h
  have : Std.Symm fun a b : α => ∀ c, key a = some c → ∀ d, key b = some d → c ≠ d :=
    ⟨fun a b hab c hc d hd => (hab d hd c hc).symm⟩
  by_contra hne
  exact h.forall ha hb hne k hka k hkb rfl

variable {ι ρ : Type*} [DecidableEq ι]

/-- Rows under a primary key. -/
structure Table (ι ρ : Type*) where
  entries : List (ι × ρ)
  nodup : (entries.map Prod.fst).Nodup

namespace Table

variable {t : Table ι ρ} {i : ι} {r : ρ} {d p q : ι → ρ → Bool} {f : ι → ρ → ρ}

def empty : Table ι ρ := ⟨[], List.nodup_nil⟩

/-- The row under a key. -/
def get (t : Table ι ρ) (i : ι) : Option ρ := (t.entries.find? fun e => e.1 = i).map Prod.snd

/-- `UPDATE … SET f WHERE p`. -/
def update (t : Table ι ρ) (p : ι → ρ → Bool) (f : ι → ρ → ρ) : Table ι ρ where
  entries := t.entries.map fun e => (e.1, if p e.1 e.2 then f e.1 e.2 else e.2)
  nodup := by
    rw [List.map_map]
    exact t.nodup

/-- `DELETE … WHERE p`. -/
def delete (t : Table ι ρ) (p : ι → ρ → Bool) : Table ι ρ where
  entries := t.entries.filter fun e => !p e.1 e.2
  nodup := (List.filter_sublist.map Prod.fst).nodup t.nodup

/-- `INSERT`; a row already under the key stays. -/
def insert (t : Table ι ρ) (i : ι) (r : ρ) : Table ι ρ :=
  if h : i ∈ t.entries.map Prod.fst then t
  else ⟨t.entries ++ [(i, r)], by
    rw [List.map_append, List.nodup_append]
    refine ⟨t.nodup, by simp, ?_⟩
    rintro a ha b hb rfl
    simp only [List.map_cons, List.map_nil, List.mem_singleton] at hb
    rw [hb] at ha
    exact h ha⟩

/-- A loop of inserts. -/
def insertRows (t : Table ι ρ) : List (ι × ρ) → Table ι ρ
  | [] => t
  | e :: rest => (t.insert e.1 e.2).insertRows rest

/-- `SELECT … WHERE p`, in table order. -/
def select (t : Table ι ρ) (p : ι → ρ → Bool) : List (ι × ρ) :=
  t.entries.filter fun e => p e.1 e.2

/-- `SELECT count(*) … WHERE p`. -/
def count (t : Table ι ρ) (p : ι → ρ → Bool) : Nat := (t.select p).length

/-- Does a unique index over `key` hold? -/
def uniqueOn {κ : Type*} [DecidableEq κ] (t : Table ι ρ) (key : ρ → Option κ) : Bool :=
  (t.entries.filterMap fun e => key e.2).Nodup

/-- `UPDATE … SET f WHERE key = i AND p`. -/
def updateAt (t : Table ι ρ) (i : ι) (p : ρ → Bool) (f : ρ → ρ) : Table ι ρ :=
  t.update (fun x r => x = i && p r) fun _ => f

theorem mem_entries : (i, r) ∈ t.entries ↔ t.get i = some r := by
  obtain ⟨entries, nodup⟩ := t
  unfold get
  induction entries with
  | nil => simp
  | cons e entries ih =>
    obtain ⟨x, r'⟩ := e
    rw [List.map_cons, List.nodup_cons] at nodup
    by_cases hx : x = i
    · subst hx
      -- the key is taken by the first entry, so by no other
      have hnot : (x, r) ∉ entries := fun hmem => nodup.1 (List.mem_map.mpr ⟨_, hmem, rfl⟩)
      simp [hnot, eq_comm]
    · rw [List.find?_cons_of_neg (by simpa using hx), List.mem_cons]
      rw [← ih nodup.2]
      simp [Ne.symm hx]

theorem mem_select :
    (i, r) ∈ t.select p ↔ t.get i = some r ∧ p i r = true := by
  rw [select, List.mem_filter, mem_entries]

omit [DecidableEq ι] in
theorem select_nodup (t : Table ι ρ) (p : ι → ρ → Bool) : ((t.select p).map Prod.fst).Nodup :=
  (List.filter_sublist.map Prod.fst).nodup t.nodup

@[simp] theorem get_empty (i : ι) : (empty : Table ι ρ).get i = none := rfl

theorem get_update (t : Table ι ρ) (p : ι → ρ → Bool) (f : ι → ρ → ρ) (i : ι) :
    (t.update p f).get i = (t.get i).map fun r => if p i r then f i r else r := by
  unfold get update
  rw [List.find?_map, Option.map_map, Option.map_map]
  -- the update keeps the keys, so the same entry is found
  cases hfind : t.entries.find? ((fun e => decide (e.1 = i)) ∘ fun e : ι × ρ =>
      (e.1, if p e.1 e.2 then f e.1 e.2 else e.2)) with
  | none =>
    have hsame : t.entries.find? (fun e => decide (e.1 = i)) = none := hfind
    rw [hsame]
    rfl
  | some e =>
    have hsame : t.entries.find? (fun e => decide (e.1 = i)) = some e := hfind
    have hkey : e.1 = i := by simpa using List.find?_some hsame
    rw [hsame]
    simp [hkey]

theorem get_updateAt (t : Table ι ρ) (i : ι) (p : ρ → Bool) (f : ρ → ρ) (x : ι) :
    (t.updateAt i p f).get x =
      if x = i then (t.get i).map fun r => if p r then f r else r else t.get x := by
  rw [updateAt, get_update]
  split
  · rename_i hx
    subst hx
    simp
  · rename_i hx
    simp [hx]

/-- An update that matches no row changes nothing. -/
theorem update_eq_self (h : ∀ i r, t.get i = some r → p i r = false) : t.update p f = t := by
  have hsame : ∀ e ∈ t.entries, (e.1, if p e.1 e.2 then f e.1 e.2 else e.2) = e := by
    intro e he
    rw [h e.1 e.2 (mem_entries.mp he)]
    rfl
  have hentries : (t.update p f).entries = t.entries :=
    (List.map_congr_left hsame).trans (List.map_id' t.entries)
  cases hu : t.update p f
  cases t
  simp only [hu] at hentries
  simp only [hentries]

theorem get_delete (t : Table ι ρ) (p : ι → ρ → Bool) (i : ι) :
    (t.delete p).get i = (t.get i).filter fun r => !p i r := by
  apply Option.ext
  intro r
  rw [← mem_entries, delete, List.mem_filter, mem_entries, Option.filter_eq_some_iff]

omit [DecidableEq ι] in
theorem select_delete (t : Table ι ρ) (d p : ι → ρ → Bool) :
    (t.delete d).select p = (t.select p).filter fun e => !d e.1 e.2 := by
  unfold select delete
  rw [List.filter_filter, List.filter_filter]
  apply List.filter_congr
  intro e _
  rw [Bool.and_comm]

omit [DecidableEq ι] in
/-- Rows that a query does not select may be deleted before it. -/
theorem select_delete_of (h : ∀ i r, p i r = true → d i r = false) :
    (t.delete d).select p = t.select p := by
  rw [select_delete]
  apply List.filter_eq_self.mpr
  intro e he
  rw [h e.1 e.2 (List.mem_filter.mp he).2]
  rfl

omit [DecidableEq ι] in
/-- A deletion by data that an update leaves alone commutes with it. -/
theorem delete_update (h : ∀ i r, d i (f i r) = d i r) :
    (t.update p f).delete d = (t.delete d).update p f := by
  have hentries : ∀ l : List (ι × ρ),
      (l.map fun e => (e.1, if p e.1 e.2 then f e.1 e.2 else e.2)).filter (fun e => !d e.1 e.2)
        = (l.filter fun e => !d e.1 e.2).map fun e => (e.1, if p e.1 e.2 then f e.1 e.2 else e.2) := by
    intro l
    rw [List.filter_map]
    congr 1
    apply List.filter_congr
    intro e _
    simp only [Function.comp_apply]
    -- an updated row is deleted exactly if the old one would have been
    split
    · rw [h]
    · rfl
  unfold update delete
  simp only [mk.injEq]
  exact hentries t.entries

theorem delete_updateAt {p : ρ → Bool} {f : ρ → ρ} (h : ∀ x r, d x (f r) = d x r) :
    (t.updateAt i p f).delete d = (t.delete d).updateAt i p f :=
  delete_update fun x r => h x r

theorem get_eq_none : t.get i = none ↔ i ∉ t.entries.map Prod.fst := by
  constructor
  · intro hnone hmem
    obtain ⟨⟨x, r⟩, he, rfl⟩ := List.mem_map.mp hmem
    rw [mem_entries.mp he] at hnone
    cases hnone
  · intro hnot
    cases hget : t.get i with
    | none => rfl
    | some => exact absurd (List.mem_map.mpr ⟨_, mem_entries.mpr hget, rfl⟩) hnot

theorem get_insert (h : t.get i = none) (x : ι) :
    (t.insert i r).get x = if x = i then some r else t.get x := by
  apply Option.ext
  intro r'
  rw [insert, dif_neg (get_eq_none.mp h), ← mem_entries, List.mem_append, mem_entries,
    List.mem_singleton, Prod.mk.injEq]
  split
  · rename_i hx
    subst hx
    simp [h, eq_comm]
  · rename_i hx
    simp [hx]

/-- An insert leaves the rows that are there alone. -/
theorem get_insertRows_of_some (h : t.get i = some r) (rows : List (ι × ρ)) :
    (t.insertRows rows).get i = some r := by
  induction rows generalizing t with
  | nil => exact h
  | cons e rest ih =>
    apply ih
    -- a row under a new key, or one that is refused since its key is taken
    by_cases hfree : t.get e.1 = none
    · have hne : i ≠ e.1 := by
        rintro rfl
        rw [hfree] at h
        cases h
      rw [get_insert hfree, if_neg hne]
      exact h
    · have htaken : e.1 ∈ t.entries.map Prod.fst := by
        by_contra hnot
        exact hfree (get_eq_none.mpr hnot)
      rw [insert, dif_pos htaken]
      exact h

/-- Distinct new keys: the table then holds the new rows and the old ones. -/
theorem get_insertRows {rows : List (ι × ρ)} (hkeys : (rows.map Prod.fst).Nodup)
    (hnew : ∀ e ∈ rows, t.get e.1 = none) :
    (t.insertRows rows).get i = some r ↔ (i, r) ∈ rows ∨ t.get i = some r := by
  induction rows generalizing t with
  | nil => simp [insertRows]
  | cons e rest ih =>
    obtain ⟨x, r₀⟩ := e
    obtain ⟨hnot, hrest⟩ := List.nodup_cons.mp hkeys
    obtain ⟨hfree, hothers⟩ := List.forall_mem_cons.mp hnew
    have hnew' : ∀ e ∈ rest, (t.insert x r₀).get e.1 = none := by
      intro e he
      have hne : e.1 ≠ x := fun heq => hnot (List.mem_map.mpr ⟨e, he, heq⟩)
      rw [get_insert hfree, if_neg hne]
      exact hothers e he
    rw [insertRows, ih hrest hnew', get_insert hfree, List.mem_cons, Prod.mk.injEq]
    by_cases hi : i = x
    · subst hi
      have hfree : t.get i = none := hfree
      simp [hfree, or_comm, eq_comm]
    · simp [hi]

/-- Rows made from their keys fill the places that are free. -/
theorem get_insertRows_map (t : Table ι ρ) (keys : List ι) (g : ι → ρ) (i : ι) :
    (t.insertRows (keys.map fun k => (k, g k))).get i
      = (t.get i).or (if i ∈ keys then some (g i) else none) := by
  -- a key inserted twice keeps the first row, which is the same
  induction keys generalizing t with
  | nil => simp [insertRows]
  | cons k rest ih =>
    rw [List.map_cons, insertRows, ih]
    by_cases hfree : t.get k = none
    · rw [get_insert hfree]
      by_cases hi : i = k
      · subst hi
        simp [hfree]
      · simp [hi]
    · have htaken : k ∈ t.entries.map Prod.fst := by
        by_contra hnot
        exact hfree (get_eq_none.mpr hnot)
      rw [insert, dif_pos htaken]
      by_cases hi : i = k
      · subst hi
        obtain ⟨r, hr⟩ := Option.ne_none_iff_exists'.mp hfree
        simp [hr]
      · simp [hi]

theorem count_eq_zero :
    t.count p = 0 ↔ ∀ i r, t.get i = some r → p i r = false := by
  rw [count, select, List.length_eq_zero_iff, List.filter_eq_nil_iff]
  constructor
  · intro h i r hr
    exact Bool.eq_false_iff.mpr (h (i, r) (mem_entries.mpr hr))
  · rintro h ⟨i, r⟩ he
    exact Bool.eq_false_iff.mp (h i r (mem_entries.mp he))

theorem count_ne_zero : t.count p ≠ 0 ↔ ∃ i r, t.get i = some r ∧ p i r = true := by
  rw [ne_eq, count_eq_zero]
  push Not
  simp only [Bool.not_eq_false]

/-- A count depends on the rows of the table alone. -/
theorem count_congr (h : ∀ i r, t.get i = some r → p i r = q i r) : t.count p = t.count q := by
  unfold count select
  congr 1
  apply List.filter_congr
  rintro ⟨i, r⟩ he
  exact h i r (mem_entries.mp he)

/-- Counts are balanced if every row is. -/
theorem count_balance {gone come : ι → ρ → Bool}
    (h : ∀ i r, t.get i = some r → (if p i r then 1 else 0) + (if gone i r then 1 else 0)
      = (if q i r then 1 else 0) + if come i r then 1 else 0) :
    t.count p + t.count gone = t.count q + t.count come := by
  have hrows : ∀ e ∈ t.entries, _ := fun e he => h e.1 e.2 (mem_entries.mp he)
  simp only [count, select, ← List.countP_eq_length_filter]
  generalize t.entries = rows at hrows
  induction rows with
  | nil => rfl
  | cons e rest ih =>
    have hrest := ih fun e' he' => hrows e' (List.mem_cons_of_mem e he')
    have hrow := hrows e List.mem_cons_self
    simp only [List.countP_cons]
    omega

omit [DecidableEq ι] in
/-- A count splits along a second condition. -/
theorem count_split (t : Table ι ρ) (p q : ι → ρ → Bool) :
    t.count p = t.count (fun i r => p i r && q i r) + t.count (fun i r => p i r && !q i r) := by
  unfold count select
  induction t.entries with
  | nil => rfl
  | cons e rest ih =>
    dsimp only at ih
    simp only [List.filter_cons]
    cases p e.1 e.2 <;> cases q e.1 e.2 <;> simp <;> omega

omit [DecidableEq ι] in
theorem count_le_count (h : ∀ i r, p i r = true → q i r = true) : t.count p ≤ t.count q := by
  rw [t.count_split q p]
  have hsame : t.count (fun i r => q i r && p i r) = t.count p := by
    unfold count select
    congr 1
    apply List.filter_congr
    intro e _
    have := h e.1 e.2
    cases hp : p e.1 e.2 <;> simp_all
  omega

omit [DecidableEq ι] in
/-- The rows that count after an update, told by the rows before it. -/
theorem count_update (t : Table ι ρ) (p : ι → ρ → Bool) (f : ι → ρ → ρ) (q : ι → ρ → Bool) :
    (t.update p f).count q = t.count fun i r => q i (if p i r then f i r else r) := by
  unfold count select update
  rw [List.filter_map, List.length_map]
  rfl

omit [DecidableEq ι] in
theorem count_delete (t : Table ι ρ) (d p : ι → ρ → Bool) :
    (t.delete d).count p = t.count fun i r => p i r && !d i r := by
  unfold count select delete
  rw [List.filter_filter]

omit [DecidableEq ι] in
omit [DecidableEq ι] in
/-- A value occurs among the selected rows as often as rows with it are counted. -/
theorem count_map_select {κ : Type*} [BEq κ] [LawfulBEq κ] [DecidableEq κ] (t : Table ι ρ)
    (p : ι → ρ → Bool) (g : ρ → κ) (x : κ) :
    ((t.select p).map fun e => g e.2).count x = t.count fun i r => p i r && g r = x := by
  unfold count select
  induction t.entries with
  | nil => rfl
  | cons e rest ih =>
    simp only [List.filter_cons]
    cases hp : p e.1 e.2
    · simpa [hp] using ih
    · by_cases hx : g e.2 = x
      · simpa [hx] using ih
      · simpa [hx] using ih

/-- Two tables count alike if the same keys have a row that counts. -/
theorem count_eq_of_keys {t' : Table ι ρ}
    (h : ∀ i, (∃ r, t.get i = some r ∧ p i r = true) ↔ ∃ r, t'.get i = some r ∧ q i r = true) :
    t.count p = t'.count q := by
  have hkeys : ((t.select p).map Prod.fst).Perm ((t'.select q).map Prod.fst) := by
    rw [List.perm_ext_iff_of_nodup (t.select_nodup p) (t'.select_nodup q)]
    intro i
    have hmem : ∀ (t : Table ι ρ) (p : ι → ρ → Bool),
        i ∈ (t.select p).map Prod.fst ↔ ∃ r, t.get i = some r ∧ p i r = true := by
      intro t p
      simp [mem_select]
    rw [hmem, hmem]
    exact h i
  rw [count, count, ← List.length_map (f := Prod.fst), hkeys.length_eq, List.length_map]

/-- **The balance of a count.**  Between two tables whose common rows agree on `c`, the rows with
`c` and `u` change by those that gain `u` and those that lose it. -/
theorem count_exchange (t t' : Table ι ρ) (c u : ρ → Bool)
    (hc : ∀ i r r', t.get i = some r → t'.get i = some r' → c r' = c r) :
    t'.count (fun _ r => c r && u r)
        + t.count (fun i r => c r && u r && !(t'.get i).any u)
      = t.count (fun _ r => c r && u r)
        + t'.count (fun i r => c r && u r && !(t.get i).any u) := by
  -- the keys that have `c` and `u` on both sides
  have hboth : t.count (fun i r => (c r && u r) && (t'.get i).any u)
      = t'.count (fun i r => (c r && u r) && (t.get i).any u) := by
    apply count_eq_of_keys
    intro i
    simp only [Bool.and_eq_true, Option.any_eq_true]
    constructor
    · rintro ⟨r, hr, ⟨hcr, hur⟩, r', hr', hur'⟩
      exact ⟨r', hr', ⟨(hc i r r' hr hr').trans hcr, hur'⟩, r, hr, hur⟩
    · rintro ⟨r', hr', ⟨hcr', hur'⟩, r, hr, hur⟩
      exact ⟨r, hr, ⟨(hc i r r' hr hr').symm.trans hcr', hur⟩, r', hr', hur'⟩
  have hsplit := t.count_split (fun _ r => c r && u r) fun i _ => (t'.get i).any u
  have hsplit' := t'.count_split (fun _ r => c r && u r) fun i _ => (t.get i).any u
  omega

/-- One key selects at most one row. -/
theorem select_key (t : Table ι ρ) (i : ι) (p : ρ → Bool) :
    t.select (fun x r => x = i && p r) = ((t.get i).filter p).toList.map fun r => (i, r) := by
  -- a key has one row at most, so members decide the list
  have hmem : ∀ e, e ∈ t.select (fun x r => x = i && p r) ↔
      e ∈ ((t.get i).filter p).toList.map fun r => (i, r) := by
    rintro ⟨x, r⟩
    rw [mem_select, Bool.and_eq_true, decide_eq_true_eq]
    simp only [List.mem_map, Option.mem_toList, Option.filter_eq_some_iff,
      Prod.mk.injEq, exists_eq_right_right]
    constructor
    · rintro ⟨hr, rfl, hp⟩
      exact ⟨⟨hr, hp⟩, rfl⟩
    · rintro ⟨⟨hr, hp⟩, rfl⟩
      exact ⟨hr, rfl, hp⟩
  cases hrow : (t.get i).filter p with
  | none =>
    rw [hrow] at hmem
    exact List.eq_nil_iff_forall_not_mem.mpr fun e he => List.not_mem_nil ((hmem e).mp he)
  | some r =>
    rw [hrow] at hmem
    have hnodup := (t.select_nodup fun x r => x = i && p r).of_map
    exact List.perm_singleton.mp
      ((List.perm_ext_iff_of_nodup hnodup (List.nodup_singleton _)).mpr hmem)

/-- An update of one row changes a count by what that row counted before and after. -/
theorem count_updateAt {p : ρ → Bool} {f : ρ → ρ} (hr : t.get i = some r) (hp : p r = true)
    (q : ι → ρ → Bool) :
    (t.updateAt i p f).count q + (if q i r then 1 else 0)
      = t.count q + (if q i (f r) then 1 else 0) := by
  -- the two corrections are counts as well, of the one key
  have hone : ∀ b : Bool, t.count (fun x _ => x = i && b) = if b then 1 else 0 := by
    intro b
    rw [count, select_key t i fun _ => b, hr]
    cases b <;> rfl
  rw [← hone, ← hone, updateAt, count_update]
  apply count_balance
  intro x r' hr'
  by_cases hx : x = i
  · subst hx
    rw [hr] at hr'
    cases hr'
    simp [hp, Nat.add_comm]
  · simp [hx]

/-- A unique index holds iff no two rows carry the same key. -/
theorem uniqueOn_iff {κ : Type*} [DecidableEq κ] {key : ρ → Option κ} :
    t.uniqueOn key = true ↔ Exclusive key t.get := by
  rw [uniqueOn, decide_eq_true_eq]
  constructor
  · intro hnodup i i' r r' k hr hr' hk hk'
    exact congrArg Prod.fst
      (eq_of_nodup_filterMap hnodup (mem_entries.mpr hr) (mem_entries.mpr hr') hk hk')
  · -- two entries with one value would be one entry, and entries have distinct keys
    intro hexcl
    rw [List.Nodup, List.pairwise_filterMap]
    refine t.nodup.of_map.pairwise_of_forall_ne ?_
    rintro ⟨i, r⟩ hr ⟨i', r'⟩ hr' hne k hk k' hk' rfl
    have hr := mem_entries.mp hr
    have hr' := mem_entries.mp hr'
    obtain rfl := hexcl i i' r r' k hr hr' hk hk'
    rw [hr] at hr'
    cases hr'
    exact hne rfl

end Table

/-! ## Ordered queries -/

section OrderBy
variable {α κ : Type*} [LinearOrder κ]

/-- `ORDER BY key`. -/
def orderBy (key : α → κ) (l : List α) : List α := l.insertionSort fun a b => key a ≤ key b

theorem mem_orderBy {key : α → κ} {l : List α} {a : α} : a ∈ orderBy key l ↔ a ∈ l :=
  (List.perm_insertionSort _ l).mem_iff

end OrderBy

end Headgate.Data
