import Headgate.Data.Table

/-!
# How a table evolves

A statement that inserts nothing changes rows and deletes rows.  `Evolves` says
which: every row afterwards comes from one before by a change in `R`, and every
row before is still there unless it is among the rows that may go.  Each
statement of `Table` has one lemma, and a loop of statements is the induction
`Evolves.foldl`.
-/

namespace Headgate.Data

variable {ι ρ : Type*} [DecidableEq ι]

/-- No row. -/
def noRow (_ : ι) (_ : ρ) : Prop := False

/-- Rows change along `R`, and only rows in `gone` are deleted. -/
structure Evolves (R : ι → ρ → ρ → Prop) (gone : ι → ρ → Prop) (t t' : Table ι ρ) : Prop where
  rows : ∀ i r', t'.get i = some r' → ∃ r, t.get i = some r ∧ R i r r'
  stays : ∀ i r, t.get i = some r → gone i r ∨ ∃ r', t'.get i = some r'

namespace Evolves

variable {R R' : ι → ρ → ρ → Prop} {gone gone' : ι → ρ → Prop} {t t' t'' : Table ι ρ}

theorem refl [∀ i, Std.Refl (R i)] (t : Table ι ρ) : Evolves R gone t t where
  rows := fun _ r hr => ⟨r, hr, Std.Refl.refl r⟩
  stays := fun _ r hr => Or.inr ⟨r, hr⟩

theorem mono (h : Evolves R gone t t') (hR : ∀ i r r', R i r r' → R' i r r')
    (hgone : ∀ i r, gone i r → gone' i r) : Evolves R' gone' t t' where
  rows := fun i r' hr' => by
    obtain ⟨r, hr, hrel⟩ := h.rows i r' hr'
    exact ⟨r, hr, hR i r r' hrel⟩
  stays := fun i r hr => (h.stays i r hr).imp_left (hgone i r)

/-- Two evolutions in a row; a row that may go after a change could go before it. -/
theorem trans (hR : ∀ i r r' r'', R i r r' → R i r' r'' → R i r r'')
    (hgone : ∀ i r r', R i r r' → gone i r' → gone i r)
    (h : Evolves R gone t t') (h' : Evolves R gone t' t'') : Evolves R gone t t'' where
  rows := fun i r'' hr'' => by
    obtain ⟨r', hr', hrel'⟩ := h'.rows i r'' hr''
    obtain ⟨r, hr, hrel⟩ := h.rows i r' hr'
    exact ⟨r, hr, hR i r r' r'' hrel hrel'⟩
  stays := fun i r hr => by
    rcases h.stays i r hr with hgo | ⟨r', hr'⟩
    · exact Or.inl hgo
    · refine (h'.stays i r' hr').imp_left fun hgo => ?_
      -- the row in between comes from this one
      obtain ⟨r₀, hr₀, hrel⟩ := h.rows i r' hr'
      rw [hr] at hr₀
      cases hr₀
      exact hgone i r r' hrel hgo

section
variable [∀ i, Std.Refl (R i)]

theorem update {p : ι → ρ → Bool} {f : ι → ρ → ρ}
    (hf : ∀ i r, t.get i = some r → p i r = true → R i r (f i r)) :
    Evolves R gone t (t.update p f) where
  rows := fun i r' hr' => by
    rw [Table.get_update] at hr'
    obtain ⟨r, hr, rfl⟩ := Option.map_eq_some_iff.mp hr'
    refine ⟨r, hr, ?_⟩
    split
    · rename_i hp
      exact hf i r hr hp
    · exact Std.Refl.refl r
  stays := fun i r hr => by
    rw [Table.get_update, hr]
    exact Or.inr ⟨_, rfl⟩

theorem updateAt {i : ι} {p : ρ → Bool} {f : ρ → ρ}
    (hf : ∀ r, t.get i = some r → p r = true → R i r (f r)) :
    Evolves R gone t (t.updateAt i p f) := by
  refine update fun x r hr hp => ?_
  simp only [Bool.and_eq_true, decide_eq_true_eq] at hp
  obtain ⟨rfl, hpr⟩ := hp
  exact hf r hr hpr

theorem delete {p : ι → ρ → Bool}
    (hp : ∀ i r, t.get i = some r → p i r = true → gone i r) :
    Evolves R gone t (t.delete p) where
  rows := fun i r hr => by
    rw [Table.get_delete, Option.filter_eq_some_iff] at hr
    exact ⟨r, hr.1, Std.Refl.refl r⟩
  stays := fun i r hr => by
    rw [Table.get_delete, hr]
    cases hpr : p i r with
    | true => exact Or.inl (hp i r hr hpr)
    | false =>
      refine Or.inr ⟨r, ?_⟩
      rw [Option.filter_some, hpr]
      rfl

/-- A loop of evolutions. -/
theorem foldl {α σ : Type*} {table : σ → Table ι ρ} {f : σ → α → σ}
    (hR : ∀ i r r' r'', R i r r' → R i r' r'' → R i r r'')
    (hgone : ∀ i r r', R i r r' → gone i r' → gone i r) {xs : List α}
    (hf : ∀ s, ∀ x ∈ xs, Evolves R gone (table s) (table (f s x))) (s : σ) :
    Evolves R gone (table s) (table (xs.foldl f s)) := by
  induction xs generalizing s with
  | nil => exact refl (table s)
  | cons x xs ih =>
    have hrest := ih (fun s y hy => hf s y (List.mem_cons_of_mem x hy)) (f s x)
    exact trans hR hgone (hf s x List.mem_cons_self) hrest

end

end Evolves

end Headgate.Data
