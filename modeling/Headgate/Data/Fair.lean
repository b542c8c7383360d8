import Mathlib

/-!
# Weighted fair turns

Parties with weights are served in turns.  The turn goes to a party with work that
has been served least in proportion to its weight, ties by the order of the
parties; the comparison is by cross multiplication, so that it is exact.  A turn
takes one piece of the party's work and may or may not be used: only a used one
counts as service.

While two parties both have work, neither gets ahead of the other by more than
one turn: a party that is ahead is not the least, so it is not chosen.
-/

namespace Headgate.Data

variable {ι : Type*}

/-! ## Section 1: Choosing among parties -/

/-- One comparison of a choice that passes over idle parties. -/
def prefer (idle : ι → Prop) [DecidablePred idle] (before : ι → ι → Bool) (best : Option ι)
    (i : ι) : Option ι :=
  if idle i then best
  else match best with
    | none => some i
    | some b => if before i b then some i else some b

section
variable {idle : ι → Prop} [DecidablePred idle] {before : ι → ι → Bool} {best : Option ι} {c : ι}
  {is : List ι}

theorem foldl_prefer_eq_none :
    is.foldl (prefer idle before) best = none ↔ best = none ∧ ∀ i ∈ is, idle i := by
  induction is generalizing best with
  | nil => simp
  | cons i is ih =>
    rw [List.foldl_cons, ih]
    by_cases hidle : idle i
    · simp [prefer, hidle]
    · cases best with
      | none => simp [prefer, hidle]
      | some b => cases hbefore : before i b <;> simp [prefer, hidle, hbefore]

/-- The choice was made before or falls on a party that is not idle, and it is least in any order
that the comparison decides. -/
theorem foldl_prefer_eq_some {r : ι → ι → Prop} (refl : ∀ i, r i i)
    (trans : ∀ i j k, r i j → r j k → r i k) (yes : ∀ i j, before i j = true → r i j)
    (no : ∀ i j, before i j = false → r j i) (h : is.foldl (prefer idle before) best = some c) :
    (best = some c ∨ c ∈ is ∧ ¬ idle c) ∧ (∀ b, best = some b → r c b) ∧
      ∀ i ∈ is, ¬ idle i → r c i := by
  induction is generalizing best with
  | nil =>
    refine ⟨.inl h, fun b hb => ?_, by simp⟩
    cases h.symm.trans hb
    exact refl c
  | cons i is ih =>
    rw [List.foldl_cons] at h
    obtain ⟨hmem, hbest, hall⟩ := ih h
    by_cases hidle : idle i
    · have hskip : prefer idle before best i = best := if_pos hidle
      rw [hskip] at hmem hbest
      refine ⟨hmem.imp_right (And.imp_left (List.mem_cons_of_mem i)), hbest, fun j hj hwork => ?_⟩
      rcases List.mem_cons.mp hj with rfl | hj
      · exact absurd hidle hwork
      · exact hall j hj hwork
    · -- the better one of the two goes on
      obtain ⟨b₁, hb₁, hsource, hleast, hbefore⟩ : ∃ b₁, prefer idle before best i = some b₁ ∧
          (best = some b₁ ∨ b₁ = i) ∧ r b₁ i ∧ ∀ b, best = some b → r b₁ b := by
        unfold prefer
        rw [if_neg hidle]
        cases best with
        | none => exact ⟨i, rfl, .inr rfl, refl i, by simp⟩
        | some b =>
          cases hcompare : before i b with
          | true => exact ⟨i, by simp [hcompare], .inr rfl, refl i, by simpa using yes i b hcompare⟩
          | false => exact ⟨b, by simp [hcompare], .inl rfl, no i b hcompare, by simpa using refl b⟩
      rw [hb₁] at hmem hbest
      have hlead := hbest b₁ rfl
      refine ⟨?_, fun b hb => trans _ _ _ hlead (hbefore b hb), fun j hj hwork => ?_⟩
      · rcases hmem with hsome | ⟨hin, hwork⟩
        · cases hsome
          rcases hsource with hold | rfl
          · exact .inl hold
          · exact .inr ⟨List.mem_cons_self, hidle⟩
        · exact .inr ⟨List.mem_cons_of_mem _ hin, hwork⟩
      · rcases List.mem_cons.mp hj with rfl | hj
        · exact trans _ _ _ hlead hleast
        · exact hall j hj hwork

end

/-- How often each party was served, and how much work it has left. -/
structure Shares (ι : Type*) where
  served : ι → Int
  waiting : ι → Nat

/-- `i` is served before `j`: less served for its weight, or as much and first in order. -/
def Precedes [LE ι] (weight served : ι → Int) (i j : ι) : Prop :=
  served i * weight j < served j * weight i ∨
    served i * weight j = served j * weight i ∧ i ≤ j

/-! ## Section 2: The order of service -/

section
variable [LinearOrder ι] {weight served : ι → Int} {i j k : ι}

theorem Precedes.le (h : Precedes weight served i j) :
    served i * weight j ≤ served j * weight i := by
  rcases h with h | ⟨h, -⟩
  · exact h.le
  · exact h.le

theorem Precedes.refl (i : ι) : Precedes weight served i i := Or.inr ⟨rfl, le_rfl⟩

/-- Cross multiplication is transitive for positive weights. -/
theorem Precedes.trans (hweight : ∀ i, 1 ≤ weight i) (h : Precedes weight served i j)
    (h' : Precedes weight served j k) : Precedes weight served i k := by
  have hi := hweight i
  have hj := hweight j
  have hk := hweight k
  -- both comparisons, brought to the common factor of `j`
  have hleft : served i * weight k * weight j ≤ served j * weight i * weight k := by
    calc served i * weight k * weight j = served i * weight j * weight k := by ring
      _ ≤ served j * weight i * weight k := mul_le_mul_of_nonneg_right h.le (by omega)
  have hright : served j * weight i * weight k ≤ served k * weight i * weight j := by
    calc served j * weight i * weight k = served j * weight k * weight i := by ring
      _ ≤ served k * weight j * weight i := mul_le_mul_of_nonneg_right h'.le (by omega)
      _ = served k * weight i * weight j := by ring
  have hle : served i * weight k ≤ served k * weight i :=
    le_of_mul_le_mul_right (hleft.trans hright) (by omega)
  rcases lt_or_eq_of_le hle with hlt | heq
  · exact .inl hlt
  · -- a tie at the ends is a tie on the way
    have hsame : served i * weight k * weight j = served k * weight i * weight j := by rw [heq]
    have hij : served i * weight j = served j * weight i := by
      refine le_antisymm h.le (le_of_mul_le_mul_right ?_ (show 0 < weight k by omega))
      calc served j * weight i * weight k ≤ served k * weight i * weight j := hright
        _ = served i * weight k * weight j := hsame.symm
        _ = served i * weight j * weight k := by ring
    have hjk : served j * weight k = served k * weight j := by
      refine le_antisymm h'.le (le_of_mul_le_mul_right ?_ (show 0 < weight i by omega))
      calc served k * weight j * weight i = served k * weight i * weight j := by ring
        _ = served i * weight k * weight j := hsame.symm
        _ ≤ served j * weight i * weight k := hleft
        _ = served j * weight k * weight i := by ring
    have hnames : i ≤ j ∧ j ≤ k :=
      ⟨(h.resolve_left (by rw [hij]; exact lt_irrefl _)).2,
        (h'.resolve_left (by rw [hjk]; exact lt_irrefl _)).2⟩
    exact .inr ⟨heq, hnames.1.trans hnames.2⟩

end

/-! ## Section 3: Turns -/

section
variable [LinearOrder ι] (weight : ι → Int) (parties : List ι)

/-- It is the turn of `i`. -/
structure Turn (s : Shares ι) (i : ι) : Prop where
  party : i ∈ parties
  waits : 0 < s.waiting i
  least : ∀ j ∈ parties, 0 < s.waiting j → Precedes weight s.served i j

/-- A turn takes a piece of work, and counts if it is used. -/
def Shares.take (s : Shares ι) (i : ι) (used : Bool) : Shares ι where
  served := if used then Function.update s.served i (s.served i + 1) else s.served
  waiting := Function.update s.waiting i (s.waiting i - 1)

/-- A sequence of turns; the list names the parties in order, with the use they made. -/
inductive Turns : Shares ι → List (ι × Bool) → Shares ι → Prop where
  | done (s : Shares ι) : Turns s [] s
  | next {s s' : Shares ι} {i : ι} {used : Bool} {ds : List (ι × Bool)}
      (turn : Turn weight parties s i) (rest : Turns (s.take i used) ds s') :
      Turns s ((i, used) :: ds) s'

variable {weight parties} {s s' : Shares ι} {ds : List (ι × Bool)} {i j : ι}

theorem Shares.take_waiting_le (s : Shares ι) (i : ι) (used : Bool) (j : ι) :
    (s.take i used).waiting j ≤ s.waiting j := by
  unfold Shares.take
  by_cases hj : j = i
  · subst hj
    simp
  · simp [hj]

/-- Work only goes away. -/
theorem Turns.waiting_le (h : Turns weight parties s ds s') (i : ι) :
    s'.waiting i ≤ s.waiting i := by
  induction h with
  | done => exact le_rfl
  | next turn rest ih => exact ih.trans (Shares.take_waiting_le _ _ _ i)

/-- Service is counted by the turns used. -/
theorem Turns.served_eq (h : Turns weight parties s ds s') (i : ι) :
    s'.served i = s.served i + ds.count (i, true) := by
  induction h with
  | done => simp
  | @next s s' k used ds turn rest ih =>
    rw [ih]
    -- a turn that is not used counts for nobody
    by_cases hk : (k, used) = (i, true)
    · cases hk
      simp only [Shares.take, if_true]
      rw [Function.update_self, List.count_cons_self]
      push_cast
      ring
    · rw [List.count_cons_of_ne hk]
      cases used with
      | false => rfl
      | true =>
        have hik : i ≠ k := by
          rintro rfl
          exact hk rfl
        simp only [Shares.take, if_true, Function.update_of_ne hik]

/-! ## Section 4: Fairness -/

/-- A party that is ahead of another by no more than one turn stays so, as long as both have
work: when it is served again it was the least. -/
theorem Turns.lead_le (hweight : ∀ i, 1 ≤ weight i) (h : Turns weight parties s ds s')
    (hj : j ∈ parties) (waits : 0 < s'.waiting j)
    (hlead : s.served i * weight j - s.served j * weight i ≤ weight j) :
    s'.served i * weight j - s'.served j * weight i ≤ weight j := by
  induction h with
  | done => exact hlead
  | @next s s' k used ds turn rest ih =>
    apply ih waits
    -- waiting counts only go down, so `j` has had work all along
    have hwaits : 0 < s.waiting j :=
      waits.trans_le ((rest.waiting_le j).trans (Shares.take_waiting_le s k used j))
    cases used with
    | false => exact hlead
    | true =>
      simp only [Shares.take, if_true]
      by_cases hi : i = k
      · subst hi
        by_cases hji : j = i
        · subst hji
          have := hweight j
          linarith
        · -- `i` had the turn although `j` had work
          have hle := (turn.least j hj hwaits).le
          rw [Function.update_self, Function.update_of_ne hji]
          linarith [add_mul (s.served i) 1 (weight j)]
      · rw [Function.update_of_ne hi]
        by_cases hjk : j = k
        · subst hjk
          have hpos := hweight i
          rw [Function.update_self]
          linarith [add_mul (s.served j) 1 (weight i)]
        · rw [Function.update_of_ne hjk]
          exact hlead

/-- **Proportional service.**  Two parties that were tied and both have work at the end were
served in proportion to their weights, up to one turn. -/
theorem Turns.proportional (hweight : ∀ i, 1 ≤ weight i) (h : Turns weight parties s ds s')
    (hi : i ∈ parties) (hj : j ∈ parties) (waits : 0 < s'.waiting i) (waits' : 0 < s'.waiting j)
    (tied : s.served i * weight j = s.served j * weight i) :
    |(ds.count (i, true) : Int) * weight j - ds.count (j, true) * weight i|
      ≤ max (weight i) (weight j) := by
  have hposi := hweight i
  have hposj := hweight j
  have hlead := h.lead_le hweight (i := i) hj waits' (by omega)
  have hlag := h.lead_le hweight (i := j) hi waits (by omega)
  rw [h.served_eq i, h.served_eq j] at hlead hlag
  rw [abs_le]
  constructor
  · have hmax := le_max_left (weight i) (weight j)
    linarith [add_mul (s.served i) (ds.count (i, true) : Int) (weight j),
      add_mul (s.served j) (ds.count (j, true) : Int) (weight i)]
  · have hmax := le_max_right (weight i) (weight j)
    linarith [add_mul (s.served i) (ds.count (i, true) : Int) (weight j),
      add_mul (s.served j) (ds.count (j, true) : Int) (weight i)]

end

end Headgate.Data
