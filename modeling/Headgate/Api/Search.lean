import Mathlib

/-!
# Job search

The listing takes a filter with one slot for each field.  The parameters of the
request fill some of the slots, then the terms of `q` are written into them one
after another.  What a request asks for is the conjunction of all of these; the
filter keeps of each slot what was written last.
-/

namespace Headgate.Api

/-! ## Section 1: Terms and filters -/

/-- The fields that are compared as texts. -/
inductive Field where
  | id
  | queue
  | state
  | kind
  | partitionKey
  | rateClass
  | fingerprint
  deriving DecidableEq, Repr

/-- What a filter looks at of a job. -/
structure JobSummary where
  text : Field → String
  priority : Int
  tags : List String

/-- `JobFilter`; the slots of the text fields are one function. -/
structure JobFilter where
  text : Field → Option String := fun _ => none
  kindPrefix : Option String := none
  priority : Option Int := none
  tagsAll : List String := []
  tagsAny : List String := []

/-- One condition of a request. -/
inductive Term where
  | text (field : Field) (value : String)
  | kindPrefix (value : String)
  | priority (value : Int)
  | tag (value : String)
  | tagAny (value : String)
  deriving DecidableEq, Repr

/-- The assignment of a condition to its slot. -/
def JobFilter.put (f : JobFilter) : Term → JobFilter
  | .text field v => { f with text := Function.update f.text field (some v) }
  | .kindPrefix v => { f with kindPrefix := some v }
  | .priority n => { f with priority := some n }
  | .tag v => { f with tagsAll := f.tagsAll ++ [v] }
  | .tagAny v => { f with tagsAny := f.tagsAny ++ [v] }

/-- The jobs a store lists for a filter. -/
def JobFilter.Lists (f : JobFilter) (j : JobSummary) : Prop :=
  (∀ field, ∀ v ∈ f.text field, j.text field = v) ∧
    (∀ v ∈ f.kindPrefix, v.toList <+: (j.text .kind).toList) ∧
    (∀ n ∈ f.priority, j.priority = n) ∧ (∀ v ∈ f.tagsAll, v ∈ j.tags) ∧
    (f.tagsAny ≠ [] → ∃ v ∈ f.tagsAny, v ∈ j.tags)

/-! ## Section 2: The request -/

structure ListParams where
  q : Option String := none
  queue : Option String := none
  state : Option String := none
  kind : Option String := none
  partitionKey : Option String := none
  tagsAll : Option String := none
  tagsAny : Option String := none

/-- `char::is_whitespace`. -/
def isWhitespace (c : Char) : Bool :=
  (0x9 ≤ c.toNat && c.toNat ≤ 0xd) || (0x2000 ≤ c.toNat && c.toNat ≤ 0x200a) ||
    [0x20, 0x85, 0xa0, 0x1680, 0x2028, 0x2029, 0x202f, 0x205f, 0x3000].contains c.toNat

/-- The non-empty pieces between separators. -/
def pieces (separator : Char → Bool) (text : String) : List String :=
  ((text.toList.splitOnP separator).filter fun piece => !piece.isEmpty).map String.ofList

/-- `str::parse::<i32>`. -/
def parseI32 (text : String) : Option Int :=
  let (sign, digits) : Int × List Char := match text.toList with
    | '-' :: rest => (-1, rest)
    | '+' :: rest => (1, rest)
    | chars => (1, chars)
  let n := sign * digits.foldl (fun (n : Int) c => 10 * n + c.toNat - 48) 0
  if digits ≠ [] ∧ digits.all Char.isDigit ∧ -2 ^ 31 ≤ n ∧ n < 2 ^ 31 then some n else none

/-- One term of `q`: `field:value`, or the beginning of a kind. -/
def parseTerm (term : String) : Except String Term :=
  match term.toList.span (· ≠ ':') with
  | (_, []) => .ok (.kindPrefix term)
  | (field, _ :: rest) =>
    let v := String.ofList rest
    match String.ofList field with
    | "id" => .ok (.text .id v)
    | "queue" => .ok (.text .queue v)
    | "state" => .ok (.text .state v)
    | "kind" => .ok (.text .kind v)
    | "partition" => .ok (.text .partitionKey v)
    | "rate_class" => .ok (.text .rateClass v)
    | "fingerprint" => .ok (.text .fingerprint v)
    | "tag" => .ok (.tag v)
    | "tag_any" => .ok (.tagAny v)
    | "priority" =>
      match parseI32 v with
      | some n => .ok (.priority n)
      | none => .error s!"priority `{v}` is not a number"
    | f => .error s!"unknown search field `{f}`"

/-- The conditions that the other parameters make. -/
def ListParams.terms (p : ListParams) : List Term :=
  (p.queue.map (.text .queue)).toList ++ (p.state.map (.text .state)).toList
    ++ (p.kind.map (.text .kind)).toList ++ (p.partitionKey.map (.text .partitionKey)).toList
    ++ (pieces (· = ',') (p.tagsAll.getD "")).map .tag
    ++ (pieces (· = ',') (p.tagsAny.getD "")).map .tagAny

/-- `parse_q`. -/
def parseQ (q : String) (f : JobFilter) : Except String JobFilter :=
  (pieces isWhitespace q).foldlM (fun f term => (parseTerm term).map f.put) f

/-- The filter that `list_jobs` hands to the store. -/
def listFilter (p : ListParams) : Except String JobFilter :=
  let f := p.terms.foldl JobFilter.put {}
  match p.q with
  | none => .ok f
  | some q => parseQ q f

/-- All conditions of an accepted request. -/
def ListParams.asked (p : ListParams) : Except String (List Term) :=
  ((pieces isWhitespace (p.q.getD "")).mapM parseTerm).map (p.terms ++ ·)

/-! ## Section 3: What is asked for -/

section
variable (asked : List Term)

/-- The values given for a text field, in order. -/
def given (field : Field) : List String :=
  asked.filterMap fun
    | .text field' v => if field' = field then some v else none
    | _ => none

/-- The terms without a field. -/
def bare : List String := asked.filterMap fun | .kindPrefix v => some v | _ => none

def priorities : List Int := asked.filterMap fun | .priority n => some n | _ => none

def tags : List String := asked.filterMap fun | .tag v => some v | _ => none

def alternatives : List String := asked.filterMap fun | .tagAny v => some v | _ => none

/-- The job meets every condition; the alternatives among the tags are one condition. -/
def Wanted (j : JobSummary) : Prop :=
  (∀ field, ∀ v ∈ given asked field, j.text field = v) ∧
    (∀ v ∈ bare asked, v.toList <+: (j.text .kind).toList) ∧
    (∀ n ∈ priorities asked, j.priority = n) ∧ (∀ v ∈ tags asked, v ∈ j.tags) ∧
    (alternatives asked ≠ [] → ∃ v ∈ alternatives asked, v ∈ j.tags)

/-- A field is given one value only, and the bare terms are beginnings of the kind, or of the last
of them if no kind is given. -/
def Agree : Prop :=
  (∀ field, ∀ v ∈ given asked field, ∀ v' ∈ given asked field, v = v') ∧
    (∀ n ∈ priorities asked, ∀ n' ∈ priorities asked, n = n') ∧
    ∀ b ∈ bare asked, ∀ k ∈ (given asked .kind).getLast?.or (bare asked).getLast?,
      b.toList <+: k.toList

/-- The last kind does not begin with the last bare term: no job can be listed. -/
def Void : Prop :=
  ∃ k ∈ (given asked .kind).getLast?, ∃ b ∈ (bare asked).getLast?, ¬ b.toList <+: k.toList

/-- Each slot keeps what was written last; the tags are collected. -/
theorem foldl_put : asked.foldl JobFilter.put {} =
    { text := fun field => (given asked field).getLast?
      kindPrefix := (bare asked).getLast?
      priority := (priorities asked).getLast?
      tagsAll := tags asked
      tagsAny := alternatives asked } := by
  induction asked using List.reverseRecOn with
  | nil => rfl
  | append_singleton asked t ih =>
    rw [List.foldl_append, ih]
    cases t with
    | text field v =>
      simp only [List.foldl_cons, List.foldl_nil, JobFilter.put, given, bare, priorities, tags,
        alternatives, List.filterMap_append, List.filterMap_cons, List.filterMap_nil,
        List.append_nil, JobFilter.mk.injEq, and_true]
      funext field'
      by_cases h : field = field'
      · subst h
        simp
      · simp [h, Ne.symm h]
    | _ => simp [JobFilter.put, given, bare, priorities, tags, alternatives]

end

/-- A request is accepted exactly if all its terms are read, and then they are written in order. -/
theorem listFilter_eq (p : ListParams) :
    listFilter p = p.asked.map fun asked => asked.foldl JobFilter.put {} := by
  have hfold : ∀ (terms : List String) (f : JobFilter),
      terms.foldlM (fun f term => (parseTerm term).map f.put) f =
        (terms.mapM parseTerm).map fun ts => ts.foldl JobFilter.put f := by
    intro terms
    induction terms with
    | nil => exact fun f => rfl
    | cons term terms ih =>
      intro f
      rw [List.foldlM_cons, List.mapM_cons]
      cases parseTerm term with
      | error => rfl
      | ok t =>
        refine (ih (f.put t)).trans ?_
        cases terms.mapM parseTerm <;> rfl
  unfold listFilter ListParams.asked
  cases p.q with
  | none =>
    show Except.ok _ = Except.ok (List.foldl JobFilter.put {} (p.terms ++ []))
    rw [List.append_nil]
  | some q =>
    refine (hfold _ _).trans ?_
    cases hread : (pieces isWhitespace q).mapM parseTerm with
    | error => simp [hread, Except.map]
    | ok ts => simp [hread, Except.map, List.foldl_append]

/-- Where all values are the same, the last one speaks for them. -/
theorem eq_of_last {α : Type} {l : List α} {x v : α} (hlast : ∀ v ∈ l.getLast?, x = v)
    (hsame : ∀ v ∈ l, ∀ v' ∈ l, v = v') (hv : v ∈ l) : x = v := by
  have hne := List.ne_nil_of_mem hv
  rw [hlast _ (List.getLast?_eq_some_getLast hne)]
  exact hsame _ (List.getLast_mem hne) v hv

/-- **Search.**  The listing of an accepted request is what it asks for, for every job, exactly if
its terms agree, or the last kind and the last bare term let no job through. -/
theorem search_iff_agree (p : ListParams) (asked : List Term) (h : p.asked = .ok asked) :
    (∀ j, (∃ f, listFilter p = .ok f ∧ f.Lists j) ↔ Wanted asked j) ↔
      Agree asked ∨ Void asked := by
  have hfilter := listFilter_eq p
  rw [h, Except.map, foldl_put] at hfilter
  simp only [hfilter, Except.ok.injEq, exists_eq_left', JobFilter.Lists]
  constructor
  · intro hsame
    refine or_iff_not_imp_right.mpr fun hopen => ?_
    -- a job that has in every slot what the filter looks for
    have hlisted := (hsame {
      text := fun field => (given asked field).getLast?.getD
        (if field = .kind then (bare asked).getLast?.getD "" else "")
      priority := (priorities asked).getLast?.getD 0
      tags := tags asked ++ alternatives asked }).mp ?_
    · obtain ⟨htext, hbare, hpriority, -⟩ := hlisted
      refine ⟨fun field v hv v' hv' => (htext field v hv).symm.trans (htext field v' hv'),
        fun n hn n' hn' => (hpriority n hn).symm.trans (hpriority n' hn'), fun b hb k hk => ?_⟩
      have hkind := hbare b hb
      cases hlast : (given asked .kind).getLast? with
      | none => simp_all
      | some k' => simp_all
    · refine ⟨fun field v hv => by simp_all, fun b hb => ?_, fun n hn => by simp_all,
        fun v hv => List.mem_append_left _ hv, fun hany => ?_⟩
      · cases hlast : (given asked .kind).getLast? with
        | none => simp_all
        | some k =>
          by_contra hnot
          exact hopen ⟨k, hlast, b, hb, by simpa [hlast] using hnot⟩
      · obtain ⟨v, hv⟩ := List.exists_mem_of_ne_nil _ hany
        exact ⟨v, hv, List.mem_append_right _ hv⟩
  · intro hcond j
    constructor
    · rintro ⟨htext, hbare, hpriority, htags, hany⟩
      rcases hcond with ⟨hfields, hnumbers, hbegin⟩ | ⟨k, hk, b, hb, hnot⟩
      · refine ⟨fun field v hv => eq_of_last (htext field) (hfields field) hv, fun b hb => ?_,
          fun n hn => eq_of_last hpriority hnumbers hn, htags, hany⟩
        cases hlast : (given asked .kind).getLast? with
        | none =>
          have hb₁ := List.getLast?_eq_some_getLast (List.ne_nil_of_mem hb)
          exact (hbegin b hb _ (by rw [hlast, hb₁]; rfl)).trans (hbare _ hb₁)
        | some k =>
          rw [htext .kind k hlast]
          exact hbegin b hb k (by rw [hlast]; rfl)
      · rw [← htext .kind k hk] at hnot
        exact absurd (hbare b hb) hnot
    · rintro ⟨htext, hbare, hpriority, htags, hany⟩
      exact ⟨fun field v hv => htext field v (List.mem_of_getLast? hv),
        fun v hv => hbare v (List.mem_of_getLast? hv),
        fun n hn => hpriority n (List.mem_of_getLast? hn), htags, hany⟩

theorem search_iff_agree_two_terms :
    Agree [.text .state "archived", .kindPrefix "mail", .text .queue "a"] ∧
      ∀ j, (∃ f, listFilter { state := some "archived", q := some "mail queue:a" } = .ok f ∧
        f.Lists j) ↔ Wanted [.text .state "archived", .kindPrefix "mail", .text .queue "a"] j := by
  have hagree : Agree [.text .state "archived", .kindPrefix "mail", .text .queue "a"] :=
    ⟨fun field => by cases field <;> decide, by decide, by decide⟩
  exact ⟨hagree, (search_iff_agree { state := some "archived", q := some "mail queue:a" } _
    (by decide +kernel)).mpr (.inl hagree)⟩

/-- The parameter asks for one queue, the term for another: the jobs of the second are listed. -/
theorem search_overwrites_queue :
    ({ queue := some "a", q := some "queue:b" } : ListParams).asked =
        .ok [.text .queue "a", .text .queue "b"] ∧
      ∃ j, (∃ f, listFilter { queue := some "a", q := some "queue:b" } = .ok f ∧ f.Lists j) ∧
        ¬ Wanted [.text .queue "a", .text .queue "b"] j := by
  have hasked : ({ queue := some "a", q := some "queue:b" } : ListParams).asked =
      .ok [.text .queue "a", .text .queue "b"] := by decide +kernel
  refine ⟨hasked, ⟨fun _ => "b", 0, []⟩, ⟨_, (listFilter_eq _).trans (by rw [hasked]; rfl), ?_⟩, ?_⟩
  · simp [JobFilter.Lists, JobFilter.put, Function.update_apply]
  · rintro ⟨htext, -⟩
    exact absurd (htext .queue "a" (by decide)) (by decide)

end Headgate.Api
