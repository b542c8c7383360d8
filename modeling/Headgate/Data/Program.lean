import Mathlib

/-!
# Programs that work by calls

A `Prog` is a program whose only effects are calls to a service; it goes on with the replies.
It can be run against fixed answers (`answered`), alone on a store (`alone`), or with a fate for
every call (`fated`).
-/

namespace Headgate.Data

/-- A program that makes calls and goes on with their replies. -/
inductive Prog (C : Type) (Rp : C → Type) (ε α : Type) : Type where
  | done (a : α)
  | fail (e : ε)
  | call (c : C) (k : Rp c → Prog C Rp ε α)

namespace Prog

section
variable {C ε α β : Type} {Rp : C → Type} {ans : (c : C) → Rp c} {p : Prog C Rp ε α}
  {f : α → Prog C Rp ε β} {calls : List C} {b : β} {bs : List β} {n : Nat}

def bind : Prog C Rp ε α → (α → Prog C Rp ε β) → Prog C Rp ε β
  | .done a, f => f a
  | .fail e, _ => .fail e
  | .call c k, f => .call c fun r => (k r).bind f

instance : Monad (Prog C Rp ε) where
  pure := .done
  bind := bind

@[simp] theorem pure_eq (a : α) : (pure a : Prog C Rp ε α) = .done a := rfl

@[simp] theorem bind_eq (p : Prog C Rp ε α) (f : α → Prog C Rp ε β) : p >>= f = p.bind f := rfl

theorem bind_assoc {γ : Type} (p : Prog C Rp ε α) (f : α → Prog C Rp ε β)
    (g : β → Prog C Rp ε γ) : (p.bind f).bind g = p.bind fun a => (f a).bind g := by
  induction p with
  | done | fail => rfl
  | call c k ih =>
    simp only [bind, call.injEq, heq_eq_eq, true_and]
    exact funext ih

/-- The error becomes a result. -/
def attempt : Prog C Rp ε α → Prog C Rp ε (Except ε α)
  | .done a => .done (.ok a)
  | .fail e => .done (.error e)
  | .call c k => .call c fun r => (k r).attempt

/-- One after the other. -/
def each (f : β → Prog C Rp ε Unit) : List β → Prog C Rp ε Unit
  | [] => .done ()
  | b :: bs => (f b).bind fun _ => each f bs

/-- One after the other, with the results. -/
def collect (f : β → Prog C Rp ε α) : List β → Prog C Rp ε (List α)
  | [] => .done []
  | b :: bs => (f b).bind fun a => (collect f bs).bind fun as => .done (a :: as)

/-- The calls made, and the result, when each call has the same answer whenever it is made. -/
def answered (ans : (c : C) → Rp c) : Prog C Rp ε α → List C × Except ε α
  | .done a => ([], .ok a)
  | .fail e => ([], .error e)
  | .call c k => (c :: (answered ans (k (ans c))).1, (answered ans (k (ans c))).2)

/-- The program by itself on a store. -/
def alone {S : Type} (serve : (c : C) → S → Rp c × S) : Prog C Rp ε α → S → Except ε α × S
  | .done a, s => (.ok a, s)
  | .fail e, s => (.error e, s)
  | .call c k, s => alone serve (k (serve c s).1) (serve c s).2

/-- Answers to a program in two parts: the first part's result decides the second. -/
theorem answered_bind (ans : (c : C) → Rp c) (p : Prog C Rp ε α) (f : α → Prog C Rp ε β) :
    (p.bind f).answered ans = match p.answered ans with
      | (calls, .ok a) => (calls ++ ((f a).answered ans).1, ((f a).answered ans).2)
      | (calls, .error e) => (calls, .error e) := by
  induction p with
  | done => simp [bind, answered]
  | fail => rfl
  | call c k ih =>
    simp only [bind, answered, ih]
    cases (k (ans c)).answered ans with
    | mk calls r => cases r <;> rfl

/-- The two parts of a program that came to a result. -/
theorem answered_bind_ok (h : (p.bind f).answered ans = (calls, .ok b)) :
    ∃ first a second, p.answered ans = (first, .ok a) ∧ (f a).answered ans = (second, .ok b) ∧
      calls = first ++ second := by
  rw [answered_bind] at h
  cases hp : p.answered ans with
  | mk first r =>
    rw [hp] at h
    cases r with
    | error => cases h
    | ok a =>
      obtain ⟨hcalls, hresult⟩ := Prod.ext_iff.mp h
      exact ⟨first, a, _, rfl, Prod.ext rfl hresult, hcalls.symm⟩

/-- The first call of a program, and what follows its answer. -/
theorem answered_call {c : C} {k : Rp c → Prog C Rp ε α} {r : Except ε α}
    (h : (Prog.call c k).answered ans = (calls, r)) :
    ∃ rest, (k (ans c)).answered ans = (rest, r) ∧ calls = c :: rest := by
  obtain ⟨hcalls, hresult⟩ := Prod.ext_iff.mp h
  exact ⟨_, Prod.ext rfl hresult, hcalls.symm⟩

/-- A collection that came to a result has one for each item. -/
theorem answered_collect_ok {f : β → Prog C Rp ε α} {as : List α}
    (h : (collect f bs).answered ans = (calls, .ok as)) :
    List.Forall₂ (fun b a => ∃ cs, (f b).answered ans = (cs, .ok a)) bs as := by
  induction bs generalizing calls as with
  | nil =>
    cases h
    exact .nil
  | cons b bs ih =>
    obtain ⟨first, a, second, hb, hrest, -⟩ := answered_bind_ok h
    obtain ⟨_, as', _, hbs, hdone, -⟩ := answered_bind_ok hrest
    cases hdone
    exact .cons ⟨first, hb⟩ (ih hbs)

/-- A program alone, in two parts. -/
theorem alone_bind_ok {S : Type} {serve : (c : C) → S → Rp c × S} {s s' : S}
    (h : (p.bind f).alone serve s = (.ok b, s')) :
    ∃ a s₁, p.alone serve s = (.ok a, s₁) ∧ (f a).alone serve s₁ = (.ok b, s') := by
  induction p generalizing s with
  | done a => exact ⟨a, s, rfl, h⟩
  | fail => cases h
  | call c k ih => exact ih _ h

/-- A loop that came to its end has made the calls of its first item. -/
theorem answered_each_ok {f : β → Prog C Rp ε Unit}
    (h : (each f (b :: bs)).answered ans = (calls, .ok ())) :
    ∃ first, (f b).answered ans = (first, .ok ()) ∧ ∀ c ∈ first, c ∈ calls := by
  obtain ⟨first, _, second, hb, -, rfl⟩ := answered_bind_ok h
  exact ⟨first, hb, fun c hc => List.mem_append_left _ hc⟩

/-! ### Calls that can fail -/

section
variable {S O : Type} {serve : (c : C) → O → S → Rp c × S} {fate : Nat → O} {failed : O → Prop}
  {P excused : C → Prop} {s : S}

/-- The calls made with their fates, the result and the store, when the call in place `n` has
the fate `fate n`. -/
def fated (serve : (c : C) → O → S → Rp c × S) (fate : Nat → O) :
    Prog C Rp ε α → Nat → S → List (C × O) × Except ε α × S
  | .done a, _, s => ([], .ok a, s)
  | .fail e, _, s => ([], .error e, s)
  | .call c k, n, s =>
    let next := fated serve fate (k (serve c (fate n) s).1) (n + 1) (serve c (fate n) s).2
    ((c, fate n) :: next.1, next.2)

/-- Two programs with the same first call differ after it only. -/
theorem fated_call_congr {c : C} {k k' : Rp c → Prog C Rp ε α}
    (h : (k (serve c (fate n) s).1).fated serve fate (n + 1) (serve c (fate n) s).2
      = (k' (serve c (fate n) s).1).fated serve fate (n + 1) (serve c (fate n) s).2) :
    (Prog.call c k).fated serve fate n s = (Prog.call c k').fated serve fate n s := by
  simp only [fated, h]

theorem fated_bind (p : Prog C Rp ε α) (f : α → Prog C Rp ε β) (n : Nat) (s : S) :
    (p.bind f).fated serve fate n s = match p.fated serve fate n s with
      | (calls, .ok a, s') =>
        (calls ++ ((f a).fated serve fate (n + calls.length) s').1,
          ((f a).fated serve fate (n + calls.length) s').2)
      | (calls, .error e, s') => (calls, .error e, s') := by
  induction p generalizing n s with
  | done => simp [bind, fated]
  | fail => rfl
  | call c k ih =>
    simp only [bind, fated, ih]
    rcases (k (serve c (fate n) s).1).fated serve fate (n + 1) (serve c (fate n) s).2
      with ⟨calls, e | a, s'⟩
    · rfl
    · simp only [List.length_cons, List.cons_append, Nat.add_assoc, Nat.add_comm 1]

theorem fated_bind_done (p : Prog C Rp ε α) (f : α → β) (n : Nat) (s : S) :
    (p.bind fun a => .done (f a)).fated serve fate n s
      = ((p.fated serve fate n s).1, (p.fated serve fate n s).2.1.map f,
        (p.fated serve fate n s).2.2) := by
  rw [fated_bind]
  rcases p.fated serve fate n s with ⟨calls, e | a, s'⟩
  · rfl
  · simp [fated, Except.map]

theorem fated_attempt (p : Prog C Rp ε α) (n : Nat) (s : S) :
    p.attempt.fated serve fate n s
      = ((p.fated serve fate n s).1, .ok (p.fated serve fate n s).2.1,
        (p.fated serve fate n s).2.2) := by
  induction p generalizing n s with
  | done | fail => rfl
  | call c k ih => simp only [attempt, fated, ih]

/-- Only calls of `P` were made, and one that failed ended the run unless it is excused. -/
def Careful (failed : O → Prop) (P excused : C → Prop) (run : List (C × O) × Except ε α × S) : Prop :=
  ∀ x ∈ run.1, P x.1 ∧ (failed x.2 → ¬ excused x.1 → ∃ e, run.2.1 = .error e)

theorem Careful.nil {r : Except ε α} : Careful failed P excused (([] : List (C × O)), r, s) :=
  List.forall_mem_nil _

theorem Careful.bind (hp : Careful failed P excused (p.fated serve fate n s))
    (hf : ∀ a m s', (∃ calls, p.fated serve fate n s = (calls, .ok a, s')) →
      Careful failed P excused ((f a).fated serve fate m s')) :
    Careful failed P excused ((p.bind f).fated serve fate n s) := by
  rw [fated_bind]
  rcases hrun : p.fated serve fate n s with ⟨calls, e | a, s'⟩
  · rw [hrun] at hp
    exact fun x hx => ⟨(hp x hx).1, fun _ _ => ⟨e, rfl⟩⟩
  · intro x hx
    rcases List.mem_append.mp hx with hx | hx
    · -- the first part came to a result, so what failed there was excused
      rw [hrun] at hp
      refine ⟨(hp x hx).1, fun hfailed hexcused => ?_⟩
      obtain ⟨e, he⟩ := (hp x hx).2 hfailed hexcused
      cases he
    · exact hf a _ s' ⟨calls, hrun⟩ x hx

theorem Careful.each {f : β → Prog C Rp ε Unit}
    (h : ∀ b ∈ bs, ∀ n s, Careful failed P excused ((f b).fated serve fate n s)) (n : Nat) (s : S) :
    Careful failed P excused ((Prog.each f bs).fated serve fate n s) := by
  induction bs generalizing n s with
  | nil => exact .nil
  | cons b bs ih =>
    refine (h b List.mem_cons_self n s).bind fun _ m s' _ => ?_
    exact ih (fun b hb => h b (List.mem_cons_of_mem _ hb)) m s'

theorem Careful.call {c : C} {k : Rp c → Prog C Rp ε α} (hc : P c)
    (hfail : failed (fate n) → ¬ excused c → ∃ e, k (serve c (fate n) s).1 = .fail e)
    (hk : Careful failed P excused
      ((k (serve c (fate n) s).1).fated serve fate (n + 1) (serve c (fate n) s).2)) :
    Careful failed P excused ((Prog.call c k).fated serve fate n s) := by
  intro x hx
  rcases List.mem_cons.mp hx with rfl | hx
  · refine ⟨hc, fun hfailed hexcused => ?_⟩
    obtain ⟨e, he⟩ := hfail hfailed hexcused
    exact ⟨e, by simp only [fated, he]⟩
  · exact hk x hx

end

end

end Prog

end Headgate.Data
