import Headgate.Core.Envelope

/-!
# Claims grouped into units

The claims of an admission are handed to batch handlers in units of one kind.  The loop puts
each claim into the last unit that still has room for its kind.  Among the units of a kind only
the last one can have room, so a kind's claims stay in order and fill as few units as they can.
-/

namespace Headgate.Core

/-! ## Section 1: The loop -/

abbrev Claim.kind (c : Claim) : String := c.envelope.kind

structure AdmissionUnit where
  claims : List Claim
  deriving DecidableEq, Repr

/-- The unit has room for a claim of the kind. -/
def AdmissionUnit.takes (max : Nat) (kind : String) (u : AdmissionUnit) : Bool :=
  decide (u.claims.length < max) && u.claims.head?.any fun first => first.kind = kind

/-- Push a claim to the last unit that takes it. -/
def pushClaim (max : Nat) (claim : Claim) : List AdmissionUnit → Option (List AdmissionUnit)
  | [] => none
  | u :: units =>
    match pushClaim max claim units with
    | some units' => some (u :: units')
    | none =>
      if u.takes max claim.kind then some (⟨u.claims ++ [claim]⟩ :: units) else none

/-- The body of the loop. -/
def groupClaim (max : Nat) (units : List AdmissionUnit) (claim : Claim) : List AdmissionUnit :=
  (pushClaim max claim units).getD (units ++ [⟨[claim]⟩])

def groupAdmissionClaims (claims : List Claim) (maxUnitSize : Nat) : List AdmissionUnit :=
  claims.foldl (groupClaim (max maxUnitSize 1)) []

/-- The claims in the order in which the units are read. -/
def unitClaims (units : List AdmissionUnit) : List Claim := units.flatMap AdmissionUnit.claims

def ofKind (kind : String) (claims : List Claim) : List Claim :=
  claims.filter fun c => c.kind = kind

/-- The number of units with a claim of the kind. -/
def unitCount (kind : String) (units : List AdmissionUnit) : Nat :=
  units.countP fun u => ofKind kind u.claims ≠ []

/-- The units hold the claims, each once, by kind and within the size. -/
structure Regroups (claims : List Claim) (max : Nat) (units : List AdmissionUnit) : Prop where
  once : (unitClaims units).Perm claims
  oneKind : ∀ u ∈ units, ∀ c ∈ u.claims, ∀ d ∈ u.claims, c.kind = d.kind
  size : ∀ u ∈ units, u.claims.length ≤ max

variable {m : Nat} {claim : Claim} {units pre post : List AdmissionUnit} {done : List Claim}
  {u : AdmissionUnit}

/-- A claim goes to a unit that takes it, or no unit does. -/
theorem pushClaim_cases (m : Nat) (claim : Claim) (units : List AdmissionUnit) :
    (pushClaim m claim units = none ∧ ∀ u ∈ units, u.takes m claim.kind = false) ∨
      ∃ pre u post, units = pre ++ u :: post ∧ u.takes m claim.kind = true ∧
        pushClaim m claim units = some (pre ++ ⟨u.claims ++ [claim]⟩ :: post) := by
  induction units with
  | nil => exact .inl ⟨rfl, by simp⟩
  | cons u units ih =>
    unfold pushClaim
    -- a later unit is preferred: the search runs from the end
    rcases ih with ⟨hnone, hall⟩ | ⟨pre, v, post, rfl, htakes, hpush⟩
    · rw [hnone]
      cases htakes : u.takes m claim.kind with
      | true => exact .inr ⟨[], u, units, rfl, htakes, by simp⟩
      | false => exact .inl ⟨by simp, by simpa [htakes] using hall⟩
    · rw [hpush]
      exact .inr ⟨u :: pre, v, post, rfl, htakes, rfl⟩

theorem takes_iff {kind : String} : u.takes m kind = true ↔
    u.claims.length < m ∧ ∃ first, u.claims.head? = some first ∧ first.kind = kind := by
  simp [AdmissionUnit.takes, Option.any_eq_true]

/-! ## Section 2: The invariant -/

/-- After the claims `done`: a unit that another one of its kind follows is full. -/
structure Grouped (m : Nat) (done : List Claim) (units : List AdmissionUnit) : Prop
    extends Regroups done m units where
  order : ∀ kind, ofKind kind (unitClaims units) = ofKind kind done
  full : units.Pairwise fun u v => ∀ c ∈ u.claims, ∀ d ∈ v.claims,
    c.kind = d.kind → m ≤ u.claims.length

/-- A claim goes to the last unit of its kind, or into an empty one behind them. -/
theorem Grouped.push (h : Grouped m done (pre ++ u :: post)) (hroom : u.claims.length < m)
    (hkind : ∀ c ∈ u.claims, c.kind = claim.kind)
    (hpre : ∀ v ∈ pre, ∀ c ∈ v.claims, c.kind = claim.kind →
      m ≤ v.claims.length)
    (hpost : ∀ c ∈ unitClaims post, c.kind ≠ claim.kind) :
    Grouped m (done ++ [claim]) (pre ++ ⟨u.claims ++ [claim]⟩ :: post) := by
  obtain ⟨⟨honce, honeKind, hsize⟩, horder, hfull⟩ := h
  have hall : ∀ c ∈ u.claims ++ [claim], c.kind = claim.kind := by
    simpa [or_imp, forall_and] using hkind
  have hold : unitClaims (pre ++ u :: post) =
      unitClaims pre ++ u.claims ++ unitClaims post := by simp [unitClaims]
  have hnew : unitClaims (pre ++ ⟨u.claims ++ [claim]⟩ :: post) =
      unitClaims pre ++ u.claims ++ claim :: unitClaims post := by simp [unitClaims]
  rw [hold] at honce horder
  rw [List.forall_mem_append, List.forall_mem_cons] at honeKind hsize
  rw [List.pairwise_append, List.pairwise_cons] at hfull
  refine ⟨⟨?_, ?_, ?_⟩, fun kind => ?_, ?_⟩
  · rw [hnew]
    exact List.perm_middle.trans ((honce.cons claim).trans (List.perm_append_singleton claim done).symm)
  · rw [List.forall_mem_append, List.forall_mem_cons]
    exact ⟨honeKind.1, fun c hc d hd => (hall c hc).trans (hall d hd).symm, honeKind.2.2⟩
  · rw [List.forall_mem_append, List.forall_mem_cons]
    exact ⟨hsize.1, by simpa using hroom, hsize.2.2⟩
  · have hkept := horder kind
    rw [hnew]
    simp only [ofKind, List.filter_append, List.filter_cons] at hkept ⊢
    rw [← hkept]
    -- behind the unit there is no claim of the kind, so the new one is the last
    by_cases hk : claim.kind = kind
    · have hnil : (unitClaims post).filter (fun c => decide (c.kind = kind)) = [] := by
        simpa [hk] using hpost
      simp [hnil]
    · simp [hk]
  · rw [List.pairwise_append, List.pairwise_cons]
    refine ⟨hfull.1, ⟨fun v hv c hc d hd heq => ?_, hfull.2.1.2⟩, fun v hv => ?_⟩
    · exact absurd (heq.symm.trans (hall c hc)) (hpost d (List.mem_flatMap_of_mem hv hd))
    · rw [List.forall_mem_cons]
      exact ⟨fun c hc d hd heq => hpre v hv c hc (heq.trans (hall d hd)),
        fun w hw => hfull.2.2 v hv w (List.mem_cons_of_mem u hw)⟩

theorem groupClaim_grouped (hm : 1 ≤ m) (h : Grouped m done units) (claim : Claim) :
    Grouped m (done ++ [claim]) (groupClaim m units claim) := by
  unfold groupClaim
  rcases pushClaim_cases m claim units with ⟨hpush, hnone⟩ | ⟨pre, u, post, rfl, htakes, hpush⟩
  · rw [hpush]
    -- an empty unit changes nothing
    have hempty : Grouped m done (units ++ [⟨[]⟩]) := by
      have hsame : unitClaims (units ++ [⟨[]⟩]) = unitClaims units := by simp [unitClaims]
      refine ⟨⟨hsame ▸ h.once, ?_, ?_⟩, hsame ▸ h.order, ?_⟩
      · simpa [or_imp, forall_and] using h.oneKind
      · simpa [or_imp, forall_and] using h.size
      · simpa [List.pairwise_append] using h.full
    refine hempty.push hm (by simp) (fun v hv c hc hkind => ?_) (by simp [unitClaims])
    -- a unit of the kind that does not take the claim has no room
    obtain ⟨first, rest, hcons⟩ := List.exists_cons_of_ne_nil (List.ne_nil_of_mem hc)
    have hfirst : first.kind = claim.kind :=
      (h.oneKind v hv first (by simp [hcons]) c hc).trans hkind
    by_contra hroom
    have htakes := takes_iff.mpr ⟨not_le.mp hroom, first, by simp [hcons], hfirst⟩
    rw [hnone v hv] at htakes
    cases htakes
  · rw [hpush]
    obtain ⟨hroom, first, hfirst, hkind⟩ := takes_iff.mp htakes
    have hin : first ∈ u.claims := List.mem_of_head? hfirst
    have hfull := h.full
    rw [List.pairwise_append, List.pairwise_cons] at hfull
    refine h.push hroom (fun c hc => (h.oneKind u (by simp) c hc first hin).trans hkind)
      (fun v hv c hc heq => hfull.2.2 v hv u List.mem_cons_self c hc first hin (heq.trans hkind.symm))
      fun c hc heq => ?_
    obtain ⟨v, hv, hcv⟩ := List.mem_flatMap.mp hc
    exact absurd (hfull.2.1.1 v hv first hin c hcv (hkind.trans heq.symm)) (not_le.mpr hroom)

theorem groupAdmissionClaims_grouped (claims : List Claim) (maximum : Nat) :
    Grouped (max maximum 1) claims (groupAdmissionClaims claims maximum) := by
  unfold groupAdmissionClaims
  induction claims using List.reverseRecOn with
  | nil => exact ⟨⟨.nil, by simp, by simp⟩, fun _ => rfl, .nil⟩
  | append_singleton claims claim ih =>
    rw [List.foldl_append]
    exact groupClaim_grouped (le_max_right _ _) ih claim

/-! ## Section 3: The fewest units -/

theorem ofKind_cons (kind : String) (u : AdmissionUnit) (units : List AdmissionUnit) :
    (ofKind kind (unitClaims (u :: units))).length =
      (ofKind kind u.claims).length + (ofKind kind (unitClaims units)).length := by
  simp [ofKind, unitClaims]

theorem unitCount_cons (kind : String) (u : AdmissionUnit) (units : List AdmissionUnit) :
    unitCount kind (u :: units) =
      unitCount kind units + if ofKind kind u.claims = [] then 0 else 1 := by
  simp [unitCount, List.countP_cons]

/-- Units hold what they have room for. -/
theorem Regroups.count_le (h : Regroups done m units) (kind : String) :
    (ofKind kind done).length ≤ m * unitCount kind units := by
  have hperm : (ofKind kind (unitClaims units)).length = (ofKind kind done).length :=
    (h.once.filter _).length_eq
  rw [← hperm]
  obtain ⟨-, -, hsize⟩ := h
  clear hperm
  -- a unit holds at most `m` claims of the kind, and counts if it holds one
  induction units with
  | nil => simp [ofKind, unitClaims]
  | cons u units ih =>
    have hrest := ih fun v hv => hsize v (List.mem_cons_of_mem _ hv)
    have hu : (ofKind kind u.claims).length ≤ m :=
      (List.length_filter_le _ _).trans (hsize u List.mem_cons_self)
    rw [ofKind_cons, unitCount_cons, Nat.mul_add]
    split
    · rename_i hnil
      simpa [hnil] using hrest
    · omega

/-- All units of a kind but one are full. -/
theorem Grouped.count_lt (h : Grouped m done units) (hm : 1 ≤ m) (kind : String) :
    m * unitCount kind units < m + (ofKind kind done).length := by
  rw [← h.order kind]
  obtain ⟨⟨-, hkind, -⟩, -, hfull⟩ := h
  -- from the last unit backwards: all units of the kind before it are full
  induction units with
  | nil => exact Nat.lt_add_right _ hm
  | cons u units ih =>
    rw [List.pairwise_cons] at hfull
    have hrest := ih hfull.2 fun v hv => hkind v (List.mem_cons_of_mem _ hv)
    rw [ofKind_cons, unitCount_cons, Nat.mul_add]
    split
    · omega
    · rename_i hsome
      obtain ⟨c, hc⟩ := List.exists_mem_of_ne_nil _ hsome
      have hpos := List.length_pos_of_mem hc
      rw [ofKind, List.mem_filter, decide_eq_true_eq] at hc
      by_cases hzero : unitCount kind units = 0
      · rw [hzero]
        omega
      · -- another unit of the kind follows, so this one is full of it
        obtain ⟨v, hv, hany⟩ := List.countP_pos_iff.mp (Nat.pos_of_ne_zero hzero)
        obtain ⟨d, hd⟩ := List.exists_mem_of_ne_nil _ (of_decide_eq_true hany)
        rw [ofKind, List.mem_filter, decide_eq_true_eq] at hd
        have hlength := hfull.1 v hv c hc.1 d hd.1 (hc.2.trans hd.2.symm)
        have hwhole : ofKind kind u.claims = u.claims := by
          rw [ofKind, List.filter_eq_self]
          intro e he
          rw [decide_eq_true_eq, ← hc.2]
          exact hkind u List.mem_cons_self e he c hc.1
        rw [hwhole]
        omega

/-- **Grouping only regroups**: every claim is in one unit, a kind keeps its order, and no other
way to group the claims needs fewer units of a kind. -/
theorem groupAdmissionClaims_least (claims : List Claim) (maximum : Nat) :
    Regroups claims (max 1 maximum) (groupAdmissionClaims claims maximum) ∧
      ∀ kind, ofKind kind (unitClaims (groupAdmissionClaims claims maximum)) = ofKind kind claims ∧
        ∀ units, Regroups claims (max 1 maximum) units →
          unitCount kind (groupAdmissionClaims claims maximum) ≤ unitCount kind units := by
  rw [max_comm]
  have h := groupAdmissionClaims_grouped claims maximum
  refine ⟨h.toRegroups, fun kind => ⟨h.order kind, fun units hunits => ?_⟩⟩
  have hlt := h.count_lt (le_max_right _ _) kind
  have hle := hunits.count_le kind
  have hmul : max maximum 1 * unitCount kind (groupAdmissionClaims claims maximum) <
      max maximum 1 * (unitCount kind units + 1) := by
    rw [Nat.mul_succ]
    omega
  exact Nat.lt_succ_iff.mp (Nat.lt_of_mul_lt_mul_left hmul)

end Headgate.Core
