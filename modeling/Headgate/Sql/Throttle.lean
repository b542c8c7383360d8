import Headgate.Core.Validate
import Headgate.Data.Evolve
import Headgate.Data.Window
import Headgate.Sql.Calls

/-!
# The law of throttle windows

A job enqueued with a window throttles its key: until the window ends no other
job of that key is accepted, and afterwards the key is free again.  The law has
these two halves, `Client.Spaced` and `Client.Reopens`, stated over what a producer
sees of a store: the calls, the rows that appear and the verdicts.  Each half
takes the condition under which a store keeps it.
-/

namespace Headgate.Sql

open Headgate.Core Data

/-- A store as its producers see it. -/
structure Client (σ ι : Type) where
  init : σ
  step : σ → ι → σ
  now : ι → Int
  /-- When the store lets the window of an envelope end. -/
  ends : ι → Envelope → Int
  ends_le : ∀ c e, ends c e ≤ now c + e.uniqueWindowMs
  /-- An end beyond the 64 bits of a timestamp is not kept. -/
  ends_eq : ∀ c e, now c + e.uniqueWindowMs < 2 ^ 63 → ends c e = now c + e.uniqueWindowMs
  /-- The envelopes a call brings. -/
  arriving : ι → List Envelope
  /-- Is there a row under this id? -/
  stored : σ → String → Bool
  verdict : σ → ι → Except StoreError Unit
  /-- The verdicts that are due to a unique key. -/
  keyRejection : StoreError → Bool

namespace Client

variable {σ ι : Type} (S : Client σ ι)

/-- The store after a run from the empty one. -/
def exec (calls : List ι) : σ := run S.step S.init calls

/-- The envelopes a call inserts; a replay of a stored job is none of them. -/
def accepted (s : σ) (c : ι) : List Envelope :=
  (S.arriving c).filter fun e => !S.stored s e.id && S.stored (S.step s c) e.id

/-- The windows a call opens. -/
def opens (s : σ) (c : ι) : List (String × Bytes × Int) :=
  (S.accepted s c).filterMap fun e => opening (S.ends c e) e

/-- Two accepted enqueues of one throttled key are at least the window of the first apart, if that
window ends within the range of timestamps, the steps in between meet `P` and the clock does not
go back. -/
def Spaced (P : σ → ι → Prop) : Prop :=
  ∀ before c between c', (∀ d ∈ c :: between, S.now d ≤ S.now c') →
    EachStep S.step P (S.exec (before ++ [c])) between →
    ∀ e ∈ S.accepted (S.exec before) c, ∀ e' ∈ S.accepted (S.exec (before ++ c :: between)) c',
    ∀ key, effectiveUniqueKey e = some key → effectiveUniqueKey e' = some key →
      0 < e.uniqueWindowMs → 0 < e'.uniqueWindowMs → S.now c + e.uniqueWindowMs < 2 ^ 63 →
        S.now c + e.uniqueWindowMs ≤ S.now c'

/-- Every window that the run opened under a key of the call has ended. -/
def WindowsOver (calls : List ι) (c : ι) : Prop :=
  EachStep S.step (fun s d => ∀ e' ∈ S.accepted s d, ∀ e ∈ S.arriving c,
    (effectiveUniqueKey e).isSome → effectiveUniqueKey e' = effectiveUniqueKey e →
      0 < e'.uniqueWindowMs → S.now d + e'.uniqueWindowMs ≤ S.now c) S.init calls

instance (calls : List ι) (c : ι) : Decidable (S.WindowsOver calls c) := by
  unfold WindowsOver
  infer_instance

/-- Once the windows of its keys are over, a call that meets `P` is not rejected for a key. -/
def Reopens (P : σ → ι → Prop) : Prop :=
  ∀ calls c, P (S.exec calls) c → S.WindowsOver calls c →
    FailsWith (fun err => S.keyRejection err = false) (S.verdict (S.exec calls) c)

/-- The call's keys are distinct, and every one of them is throttled. -/
def Throttles (c : ι) : Prop :=
  ((S.arriving c).filterMap effectiveUniqueKey).Nodup ∧
    ∀ e ∈ S.arriving c, (effectiveUniqueKey e).isSome → 0 < e.uniqueWindowMs

instance (c : ι) : Decidable (S.Throttles c) := by
  unfold Throttles
  infer_instance

variable {S} {window : σ → String → Option (Bytes × Int)} {P : σ → ι → Prop}

theorem mem_opens {s : σ} {c : ι} {id : String} {k : Bytes} {u : Int} :
    (id, k, u) ∈ S.opens s c ↔ ∃ e ∈ S.accepted s c, opening (S.ends c e) e = some (id, k, u) :=
  List.mem_filterMap

theorem mem_accepted {s : σ} {c : ι} {e : Envelope} :
    e ∈ S.accepted s c ↔ e ∈ S.arriving c ∧ S.stored s e.id = false ∧
      S.stored (S.step s c) e.id = true := by
  simp [accepted, List.mem_filter]

section Rows
variable {ρ : Type} {rows : σ → Table String ρ} {win : ρ → Option (Bytes × Int)}
  {gone : String → ρ → Prop} {new : Envelope → ρ} {t t' t₀ : Table String ρ} {s : σ} {c : ι}
  {es : List Envelope}

/-- The windows on the rows of a table go on: none appears, and an open one stays unless its row is
in `gone`. -/
structure Carries (win : ρ → Option (Bytes × Int)) (now : Int) (gone : String → ρ → Prop)
    (t t' : Table String ρ) : Prop where
  rows : ∀ id j', t'.get id = some j' →
    ∃ j, t.get id = some j ∧ ∀ w, win j' = some w → win j = some w
  stays : ∀ id j k u, t.get id = some j → win j = some (k, u) → now < u →
    gone id j ∨ ∃ j', t'.get id = some j' ∧ win j' = some (k, u)

theorem Carries.of_evolves {R : String → ρ → ρ → Prop} {now : Int} (h : Evolves R gone t t')
    (hback : ∀ id j j' w, R id j j' → win j' = some w → win j = some w)
    (hstays : ∀ id j j' k u, R id j j' → win j = some (k, u) → now < u → win j' = some (k, u)) :
    Carries win now gone t t' where
  rows := by
    intro id j' hj'
    obtain ⟨j, hj, hR⟩ := h.rows id j' hj'
    exact ⟨j, hj, fun w => hback id j j' w hR⟩
  stays := by
    intro id j k u hj hw hlt
    refine (h.stays id j hj).imp_right fun ⟨j', hj'⟩ => ?_
    obtain ⟨j₀, hj₀, hR⟩ := h.rows id j' hj'
    rw [hj] at hj₀
    cases hj₀
    exact ⟨j', hj', hstays id j j' k u hR hw hlt⟩

/-- A call carries the rows to `t₀` and inserts the row `new e` for each of the envelopes `es`. -/
structure RowStep (S : Client σ ι) (rows : σ → Table String ρ) (win : ρ → Option (Bytes × Int))
    (new : Envelope → ρ) (gone : String → ρ → Prop) (s : σ) (c : ι) (t₀ : Table String ρ)
    (es : List Envelope) : Prop where
  carried : Carries win (S.now c) gone (rows s) t₀
  after : ∀ {id j}, (rows (S.step s c)).get id = some j ↔
    (∃ e ∈ es, e.id = id ∧ new e = j) ∨ t₀.get id = some j
  arrived : ∀ e ∈ es, e ∈ S.arriving c ∧ (rows s).get e.id = none
  ids : ∀ e ∈ es, ∀ e' ∈ S.arriving c, e'.id = e.id → e' = e
  window : ∀ e ∈ es, ∀ {k u}, win (new e) = some (k, u) ↔ opening (S.ends c e) e = some (e.id, k, u)
  free : ∀ e ∈ es, ∀ {id j k u v}, (rows s).get id = some j → win j = some (k, v) →
    opening (S.ends c e) e = some (e.id, k, u) → v ≤ S.now c

/-- A call that inserts nothing. -/
theorem RowStep.of_carries (h : Carries win (S.now c) gone (rows s) (rows (S.step s c))) :
    RowStep S rows win new gone s c (rows (S.step s c)) [] := by
  refine ⟨h, ?_, ?_, ?_, ?_, ?_⟩ <;> simp

theorem RowStep.mem_accepted (h : RowStep S rows win new gone s c t₀ es)
    (hstored : ∀ s id, S.stored s id = ((rows s).get id).isSome) {e : Envelope} :
    e ∈ S.accepted s c ↔ e ∈ es := by
  rw [Client.mem_accepted, hstored, hstored, Option.isSome_iff_exists]
  constructor
  · rintro ⟨he, habsent, j, hj⟩
    -- a row that was not there before is one of those that arrived
    rcases h.after.mp hj with ⟨e', he', hid, -⟩ | hold
    · rw [h.ids e' he' e he hid.symm]
      exact he'
    · obtain ⟨j₀, hj₀, -⟩ := h.carried.rows e.id j hold
      simp [hj₀] at habsent
  · intro he
    obtain ⟨harriving, habsent⟩ := h.arrived e he
    exact ⟨harriving, by simp [habsent], new e, h.after.mpr (.inl ⟨e, he, rfl, rfl⟩)⟩

/-- **A store whose calls insert rows beside the ones they carry keeps windows**, as long as the
rows that go have no open one. -/
theorem windows_of_rowStep {new : ι → Envelope → ρ} {gone : σ → ι → String → ρ → Prop}
    (hstored : ∀ s id, S.stored s id = ((rows s).get id).isSome)
    (hstep : ∀ s c, ∃ t₀ es, RowStep S rows win (new c) (gone s c) s c t₀ es)
    (hcloses : ∀ s c, P s c → ∀ id j k u, (rows s).get id = some j → gone s c id j →
      win j = some (k, u) → u ≤ S.now c) :
    Windows S.step S.now (fun s id => ((rows s).get id).bind win) S.opens P where
  fresh := by
    intro s c id k u hopen b v hb
    obtain ⟨e, he, hopening⟩ := mem_opens.mp hopen
    obtain ⟨rfl, -⟩ := opening_eq_some.mp hopening
    obtain ⟨t₀, es, h⟩ := hstep s c
    obtain ⟨j, hj, hwin⟩ := Option.bind_eq_some_iff.mp hb
    exact h.free e ((h.mem_accepted hstored).mp he) hj hwin hopening
  opened := by
    intro s c id k u hopen
    obtain ⟨e, he, hopening⟩ := mem_opens.mp hopen
    obtain ⟨rfl, -⟩ := opening_eq_some.mp hopening
    obtain ⟨t₀, es, h⟩ := hstep s c
    have he := (h.mem_accepted hstored).mp he
    exact Option.bind_eq_some_iff.mpr
      ⟨_, h.after.mpr (.inl ⟨e, he, rfl, rfl⟩), (h.window e he).mpr hopening⟩
  -- a window that is still open may not lose its row
  kept := by
    intro s c id k u hP hw hlt
    obtain ⟨j, hj, hwin⟩ := Option.bind_eq_some_iff.mp hw
    obtain ⟨t₀, es, h⟩ := hstep s c
    rcases h.carried.stays id j k u hj hwin hlt with hgone | ⟨j', hj', hwin'⟩
    · exact absurd hlt (Int.not_lt.mpr (hcloses s c hP id j k u hj hgone hwin))
    · exact Option.bind_eq_some_iff.mpr ⟨j', h.after.mpr (.inr hj'), hwin'⟩
  source := by
    intro s c id k u hw
    obtain ⟨j, hj, hwin⟩ := Option.bind_eq_some_iff.mp hw
    obtain ⟨t₀, es, h⟩ := hstep s c
    rcases h.after.mp hj with ⟨e, he, rfl, rfl⟩ | hold
    · exact .inr (mem_opens.mpr ⟨e, (h.mem_accepted hstored).mpr he, (h.window e he).mp hwin⟩)
    · obtain ⟨j₀, hj₀, hback⟩ := h.carried.rows id j hold
      exact .inl (Option.bind_eq_some_iff.mpr ⟨j₀, hj₀, hback _ hwin⟩)

end Rows

/-- A store that keeps windows spaces the enqueues of a key. -/
theorem spaced_of_windows (h : Windows S.step S.now window S.opens P) : S.Spaced P := by
  intro before c between c' hclock hP e he e' he' key hkey hkey' hpos hpos' hfits
  have hstart : S.exec (before ++ [c]) = S.step (S.exec before) c :=
    run_append S.step _ before [c]
  have hmiddle : S.exec (before ++ c :: between) = run S.step (S.exec before) (c :: between) :=
    run_append S.step _ before (c :: between)
  rw [hstart] at hP
  rw [hmiddle] at he'
  have hopen : (e.id, key, S.now c + e.uniqueWindowMs) ∈ S.opens (S.exec before) c :=
    mem_opens.mpr ⟨e, he, opening_eq_some.mpr ⟨rfl, hkey, hpos, S.ends_eq c e hfits⟩⟩
  have hopen' : (e'.id, key, S.ends c' e') ∈
      S.opens (run S.step (S.exec before) (c :: between)) c' :=
    mem_opens.mpr ⟨e', he', opening_eq_some.mpr ⟨rfl, hkey', hpos', rfl⟩⟩
  exact h.spaced (fun x hx => hclock x (List.mem_cons_of_mem c hx)) hP hopen hopen'

/-- When its windows are over, no row holds a key of the call beyond the call's clock. -/
theorem WindowsOver.ended {calls : List ι} {c : ι} (hover : S.WindowsOver calls c)
    (h : Windows S.step S.now window S.opens P) (hinit : ∀ id, window S.init id = none)
    {id : String} {k : Bytes} {u : Int} (hw : window (S.exec calls) id = some (k, u))
    {e : Envelope} (he : e ∈ S.arriving c) (hkey : effectiveUniqueKey e = some k) : u ≤ S.now c := by
  rcases h.traced hw with hstart | ⟨before, d, after, hsplit, hopens⟩
  · rw [hinit] at hstart
    cases hstart
  · obtain ⟨e', he', hopening⟩ := mem_opens.mp hopens
    obtain ⟨-, hkey', hpos, rfl⟩ := opening_eq_some.mp hopening
    -- the step that opened the window is one of the run
    rw [WindowsOver, hsplit, eachStep_append] at hover
    exact (S.ends_le d e').trans
      (hover.2.1 e' he' e he (by simp [hkey]) (hkey'.trans hkey.symm) hpos)

end Client

end Headgate.Sql
