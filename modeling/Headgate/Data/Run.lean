import Mathlib

/-!
# Runs of a deterministic step function

A system is a step function `σ → ι → σ` over labelled inputs; all
nondeterminism lives in the choice of the inputs.  `run` folds a list of inputs,
`EachStep` says that every step of a run meets a side condition in the state it
is taken in, and `run_invariant` is the one induction that every safety theorem
over whole runs uses.
-/

namespace Headgate.Data

variable {σ ι : Type*} (step : σ → ι → σ)

/-- The state after a list of inputs. -/
def run (s : σ) (is : List ι) : σ := is.foldl step s

@[simp] theorem run_nil (s : σ) : run step s [] = s := rfl

@[simp] theorem run_cons (s : σ) (i : ι) (is : List ι) :
    run step s (i :: is) = run step (step s i) is := rfl

theorem run_append (s : σ) (is js : List ι) :
    run step s (is ++ js) = run step (run step s is) js :=
  List.foldl_append

/-- Every step of the run meets `P` in the state it is taken in. -/
def EachStep (P : σ → ι → Prop) : σ → List ι → Prop
  | _, [] => True
  | s, i :: is => P s i ∧ EachStep P (step s i) is

/-- Side conditions that can be decided are decided along the run. -/
instance EachStep.decidable (P : σ → ι → Prop) [∀ s i, Decidable (P s i)] (s : σ) (is : List ι) :
    Decidable (EachStep step P s is) :=
  match is with
  | [] => inferInstanceAs (Decidable True)
  | i :: is =>
    have := EachStep.decidable P (step s i) is
    inferInstanceAs (Decidable (P s i ∧ EachStep step P (step s i) is))

@[simp] theorem eachStep_nil (P : σ → ι → Prop) (s : σ) : EachStep step P s [] := True.intro

@[simp] theorem eachStep_cons (P : σ → ι → Prop) (s : σ) (i : ι) (is : List ι) :
    EachStep step P s (i :: is) ↔ P s i ∧ EachStep step P (step s i) is := Iff.rfl

theorem eachStep_append (P : σ → ι → Prop) (s : σ) (is js : List ι) :
    EachStep step P s (is ++ js) ↔
      EachStep step P s is ∧ EachStep step P (run step s is) js := by
  induction is generalizing s with
  | nil => simp
  | cons i is ih => simp [ih, and_assoc]

variable {step}

/-- **Invariant rule.**  What every admissible step preserves holds at the end of
every run whose steps are all admissible, hence in every state such a run reaches. -/
theorem run_invariant (Inv : σ → Prop) {P : σ → ι → Prop}
    (hstep : ∀ s i, P s i → Inv s → Inv (step s i))
    {s : σ} (hs : Inv s) {is : List ι} (his : EachStep step P s is) :
    Inv (run step s is) := by
  induction is generalizing s with
  | nil => exact hs
  | cons i is ih => exact ih (hstep s i his.1 hs) his.2

/-- A side condition that looks at the inputs only. -/
theorem EachStep.of_forall {P : ι → Prop} {is : List ι} (h : ∀ i ∈ is, P i) (s : σ) :
    EachStep step (fun _ i => P i) s is := by
  induction is generalizing s with
  | nil => exact True.intro
  | cons i is ih =>
    obtain ⟨hi, his⟩ := List.forall_mem_cons.mp h
    exact ⟨hi, ih his (step s i)⟩

/-- A run without side condition. -/
theorem EachStep.trivial (is : List ι) (s : σ) : EachStep step (fun _ _ => True) s is :=
  .of_forall (fun _ _ => True.intro) s

/-- The side condition of a run may be weakened. -/
theorem EachStep.mono {P Q : σ → ι → Prop} (h : ∀ s i, P s i → Q s i)
    {s : σ} {is : List ι} (his : EachStep step P s is) : EachStep step Q s is := by
  induction is generalizing s with
  | nil => exact True.intro
  | cons i is ih => exact ⟨h s i his.1, ih his.2⟩

/-- Two side conditions of one run. -/
theorem EachStep.and {P Q : σ → ι → Prop} {s : σ} {is : List ι} (hP : EachStep step P s is)
    (hQ : EachStep step Q s is) : EachStep step (fun s i => P s i ∧ Q s i) s is := by
  induction is generalizing s with
  | nil => exact True.intro
  | cons i is ih => exact ⟨⟨hP.1, hQ.1⟩, ih hP.2 hQ.2⟩

end Headgate.Data
