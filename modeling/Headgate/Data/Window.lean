import Headgate.Data.Run

/-!
# Time windows held under keys

A system whose states hold windows: `window s a = some (k, u)` says that `a`
holds the key `k` until the instant `u`.  A step opens windows under keys that
nobody holds any more, and `Windows` collects what its steps must respect.  Over
a run with a clock that does not go back, two windows of one key never overlap
(`Windows.spaced`), and every window a state holds was opened in the run
(`Windows.traced`).
-/

namespace Headgate.Data

variable {σ ι α κ : Type*} (step : σ → ι → σ) (clock : ι → Int) (window : σ → α → Option (κ × Int))
  (opens : σ → ι → List (α × κ × Int)) (P : σ → ι → Prop)

/-- What steps do to windows; those that meet `P` close none before its end. -/
structure Windows : Prop where
  fresh : ∀ s i a k u, (a, k, u) ∈ opens s i → ∀ b v, window s b = some (k, v) → v ≤ clock i
  opened : ∀ s i a k u, (a, k, u) ∈ opens s i → window (step s i) a = some (k, u)
  kept : ∀ s i a k u, P s i → window s a = some (k, u) → clock i < u →
    window (step s i) a = some (k, u)
  source : ∀ s i a k u, window (step s i) a = some (k, u) →
    window s a = some (k, u) ∨ (a, k, u) ∈ opens s i

variable {step clock window opens P}

section
variable (h : Windows step clock window opens P)
include h

/-- A window stays until a step reads its end or a later instant. -/
theorem Windows.held {s : σ} {is : List ι}
    (hP : EachStep step P s is) {a : α} {k : κ} {u : Int} (hw : window s a = some (k, u)) :
    window (run step s is) a = some (k, u) ∨ ∃ i ∈ is, u ≤ clock i := by
  induction is generalizing s with
  | nil => exact .inl hw
  | cons i is ih =>
    by_cases hlt : clock i < u
    · rcases ih hP.2 (h.kept s i a k u hP.1 hw hlt) with hheld | ⟨j, hj, hle⟩
      · exact .inl hheld
      · exact .inr ⟨j, List.mem_cons_of_mem i hj, hle⟩
    · exact .inr ⟨i, List.mem_cons_self, Int.not_lt.mp hlt⟩

/-- **Windows of one key do not overlap**: a step opens one only after the end of the last. -/
theorem Windows.spaced {s : σ} {i j : ι} {is : List ι}
    (hclock : ∀ x ∈ is, clock x ≤ clock j) (hP : EachStep step P (step s i) is)
    {a b : α} {k : κ} {u v : Int} (ha : (a, k, u) ∈ opens s i)
    (hb : (b, k, v) ∈ opens (run step s (i :: is)) j) : u ≤ clock j := by
  rcases h.held hP (h.opened s i a k u ha) with hheld | ⟨x, hx, hle⟩
  · exact h.fresh _ j b k v hb a u hheld
  · exact Int.le_trans hle (hclock x hx)

/-- **Every window was opened** by some step of the run. -/
theorem Windows.traced {s : σ} {is : List ι} {a : α}
    {k : κ} {u : Int} (hw : window (run step s is) a = some (k, u)) :
    window s a = some (k, u) ∨
      ∃ pre i post, is = pre ++ i :: post ∧ (a, k, u) ∈ opens (run step s pre) i := by
  induction is generalizing s with
  | nil => exact .inl hw
  | cons i is ih =>
    rcases ih hw with hstep | ⟨pre, j, post, hsplit, hopen⟩
    · rcases h.source s i a k u hstep with hold | hnew
      · exact .inl hold
      · exact .inr ⟨[], i, is, rfl, hnew⟩
    · refine .inr ⟨i :: pre, j, post, ?_, hopen⟩
      rw [hsplit]
      rfl

end

end Headgate.Data
