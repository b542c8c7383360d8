import Mathlib

/-!
# Tables with exclusive keys

Some rows of a table carry a key.  `Exclusive` says that no two rows carry the
same one; `Holds` says that a holder map names the row that carries a key, which
is how a store without a unique index keeps a table exclusive; `Shrinks` says
that a change gives no row a key it did not carry.  All are stated over an
arbitrary key function, so "carries" may depend on the row's state.
-/

namespace Headgate.Data

variable {ι ρ κ : Type*} {key : ρ → Option κ}

/-- No two rows carry the same key. -/
def Exclusive (key : ρ → Option κ) (table : ι → Option ρ) : Prop :=
  ∀ i i' r r' k, table i = some r → table i' = some r' → key r = some k → key r' = some k → i = i'

/-- The holder of every carried key is the row that carries it. -/
def Holds (key : ρ → Option κ) (table : ι → Option ρ) (holder : κ → Option ι) : Prop :=
  ∀ i r k, table i = some r → key r = some k → holder k = some i

theorem Holds.exclusive {table : ι → Option ρ} {holder : κ → Option ι}
    (h : Holds key table holder) : Exclusive key table := by
  intro i i' r r' k hr hr' hk hk'
  have hi := h i r k hr hk
  have hi' := h i' r' k hr' hk'
  exact Option.some.inj (hi.symm.trans hi')

/-- Every key carried afterwards was carried by the same row before. -/
def Shrinks (key : ρ → Option κ) (table table' : ι → Option ρ) : Prop :=
  ∀ i r' k, table' i = some r' → key r' = some k → ∃ r, table i = some r ∧ key r = some k

theorem Exclusive.shrinks {table table' : ι → Option ρ} (h : Exclusive key table)
    (hs : Shrinks key table table') : Exclusive key table' := by
  intro i i' r r' k hr hr' hk hk'
  obtain ⟨s, hs₁, hk₁⟩ := hs i r k hr hk
  obtain ⟨s', hs₂, hk₂⟩ := hs i' r' k hr' hk'
  exact h i i' s s' k hs₁ hs₂ hk₁ hk₂

section Replace
variable [DecidableEq ι] {table table' : ι → Option ρ} {i : ι} {row : Option ρ}

/-- A row may be replaced if its key names it and the other rows keep theirs. -/
theorem Holds.replace {holder holder' : κ → Option ι} (h : Holds key table holder)
    (rows : ∀ x, table' x = if x = i then row else table x)
    (self : ∀ r k, row = some r → key r = some k → holder' k = some i)
    (others : ∀ k x, x ≠ i → holder k = some x → holder' k = some x) :
    Holds key table' holder' := by
  intro x r k hx hk
  rw [rows] at hx
  split at hx
  · rename_i hxi
    rw [hxi]
    exact self r k hx hk
  · rename_i hxi
    exact others k x hxi (h x r k hx hk)

end Replace

end Headgate.Data
