import Mathlib

/-!
# Schedule specs

The evaluation of a schedule spec: `@every:<ms>` intervals aligned to the epoch, and
cron expressions, in UTC or in the zone that a `CRON_TZ=` prefix names.  Instants and
wall clocks are epoch milliseconds; a wall clock is encoded as if it were UTC.

The cron library and the time-zone database are parameters, gathered in `CronEngine`
with the one law of the library the scheduler rests on: an occurrence after an instant
is later than it.
-/

namespace Headgate.Schedule

variable {after first now t : Int} {spec : String} {cap : Nat}

/-- What the evaluation takes from the cron library and the time-zone database. -/
structure CronEngine where
  /-- `cron::Schedule` -/
  Compiled : Type
  /-- `cron::Schedule::from_str` -/
  fromStr : String → Except String Compiled
  /-- `schedule.after(&instant).next()` -/
  after : Compiled → Int → Option Int
  after_lt : ∀ c t t', after c t = some t' → t < t'
  /-- `chrono_tz::Tz` -/
  Tz : Type
  /-- `Tz::from_str` -/
  tzFromStr : String → Option Tz
  /-- The wall clock that the zone shows at an instant. -/
  naiveLocal : Tz → Int → Int
  /-- `tz.from_local_datetime(&wall).earliest()` -/
  earliest : Tz → Int → Option Int
  /-- `DateTime::<Utc>::from_timestamp_millis(ms)` is `Some`. -/
  inRange : Int → Bool

/-! ## Section 1: Texts -/

/-- The characters with the White_Space property: `char::is_whitespace`. -/
def isWhitespace (c : Char) : Bool :=
  let n := c.toNat
  (9 ≤ n && n ≤ 13) || n = 0x20 || n = 0x85 || n = 0xA0 || n = 0x1680 ||
    (0x2000 ≤ n && n ≤ 0x200A) || n = 0x2028 || n = 0x2029 || n = 0x202F || n = 0x205F ||
    n = 0x3000

/-- `str::strip_prefix`. -/
def stripPrefix (pre cs : List Char) : Option (List Char) :=
  if pre.isPrefixOf cs then some (cs.drop pre.length) else none

/-- `str::split_once` at a character. -/
def splitOnce (sep : Char) (cs : List Char) : Option (List Char × List Char) :=
  match cs.dropWhile (· ≠ sep) with
  | [] => none
  | _ :: rest => some (cs.takeWhile (· ≠ sep), rest)

/-- `str::split_whitespace`. -/
def splitWhitespace (cs : List Char) : List (List Char) :=
  (cs.splitOnP isWhitespace).filter (· ≠ [])

/-- The value of a nonempty run of decimal digits. -/
def parseDigits : List Char → Option Nat
  | [] => none
  | cs => if cs.all Char.isDigit then some (cs.foldl (fun n c => 10 * n + (c.toNat - 48)) 0) else none

/-- `str::parse::<i64>`: an optional sign, digits, and the range of the type. -/
def parseI64 (cs : List Char) : Option Int :=
  let value : Option Int := match cs with
    | '-' :: ds => (parseDigits ds).map fun n => -(n : Int)
    | '+' :: ds => (parseDigits ds).map fun n => (n : Int)
    | ds => (parseDigits ds).map fun n => (n : Int)
  value.filter fun v => -2 ^ 63 ≤ v && v < 2 ^ 63

/-- Lists of fields joined by a character. -/
def joinWith (sep : Char) (fields : List (List Char)) : List Char := [sep].intercalate fields

/-! ## Section 2: The fields of a cron expression -/

/-- A POSIX day of week (`0`–`7`, both ends Sunday) in the library's numbering (`1`–`7`). -/
def shiftDow (tok : List Char) : Option Int :=
  (parseI64 tok).bind fun d => if 0 ≤ d ∧ d ≤ 7 then some (d % 7 + 1) else none

def decimal (n : Int) : List Char := (toString n).toList

/-- One element of a day-of-week list. -/
def translateDowPart (part : List Char) : List Char :=
  let (range, step) := match splitOnce '/' part with
    | some (r, s) => (r, some s)
    | none => (part, none)
  let translated := match splitOnce '-' range with
    | some (a, b) =>
      match shiftDow a, shiftDow b with
      | some a, some b =>
        -- a range that passes Saturday is cut in two
        if b < a then decimal a ++ "-7,1".toList else decimal a ++ '-' :: decimal b
      | _, _ => range
    | none =>
      match shiftDow range with
      | some d => decimal d
      | none => range
  match step with
  | some s => translated ++ '/' :: s
  | none => translated

/-- `translate_posix_dow`. -/
def translatePosixDow (field : List Char) : List Char :=
  joinWith ',' ((field.splitOn ',').map translateDowPart)

/-- The six fields of an expression. -/
structure Fields where
  sec : List Char
  min : List Char
  hour : List Char
  dom : List Char
  month : List Char
  dow : List Char
  deriving DecidableEq, Repr

/-- The fields joined by blanks. -/
def Fields.text (f : Fields) : String :=
  String.ofList (joinWith ' ' [f.sec, f.min, f.hour, f.dom, f.month, f.dow])

/-- `normalized_fields`. -/
def normalizedFields (body spec : String) : Except String Fields :=
  match splitWhitespace body.toList with
  -- classic crontab has no seconds
  | [min, hour, dom, month, dow] => .ok ⟨['0'], min, hour, dom, month, translatePosixDow dow⟩
  | [sec, min, hour, dom, month, dow] => .ok ⟨sec, min, hour, dom, month, translatePosixDow dow⟩
  | _ => .error s!"bad cron `{spec}`: want 5 fields, or 6 with seconds"

/-- Is the field something else than a star? -/
def restricted (field : List Char) : Bool := field ≠ ['*'] && field ≠ ['?']

/-! ## Section 3: Zones -/

def tzPrefix : List Char := "CRON_TZ=".toList

def isZoneByte (c : Char) : Bool := c.isAlphanum || c = '_' || c = '+' || c = '-'

/-- `zone_name_is_wellformed`; lengths are in bytes. -/
def zoneNameIsWellformed (name : List Char) : Bool :=
  name ≠ [] && (String.ofList name).utf8ByteSize ≤ 64 &&
    (name.splitOn '/').all fun seg => (seg.head?.any Char.isUpper) && seg.all isZoneByte

variable (eng : CronEngine)

/-- `split_tz`: the zone of a spec, if it names one, and the rest. -/
def splitTz (spec : String) : Except String (Option eng.Tz × String) :=
  match stripPrefix tzPrefix spec.toList with
  | none => .ok (none, spec)
  | some rest =>
    let name := rest.takeWhile fun c => !isWhitespace c
    let body := (rest.dropWhile fun c => !isWhitespace c).dropWhile isWhitespace
    let bad := s!"unknown timezone `{String.ofList name}`"
    if zoneNameIsWellformed name then
      match eng.tzFromStr (String.ofList name) with
      | some tz => .ok (some tz, String.ofList body)
      | none => .error bad
    else .error bad

/-! ## Section 4: The next tick -/

/-- `parse_one`. -/
def parseOne (normalized original : String) : Except String eng.Compiled :=
  match eng.fromStr normalized with
  | .ok c => .ok c
  | .error e => .error s!"bad cron `{original}`: {e}"

/-- `compile`: one library schedule, or the two whose union is the POSIX meaning of two
restricted day fields. -/
def compile (body spec : String) : Except String (List eng.Compiled) := do
  let f ← normalizedFields body spec
  if restricted f.dom && restricted f.dow then
    let domOnly ← parseOne eng { f with dow := ['*'] }.text spec
    let dowOnly ← parseOne eng { f with dom := ['*'] }.text spec
    return [domOnly, dowOnly]
  else
    let one ← parseOne eng f.text spec
    return [one]

def instant (ms : Int) : Except String Int :=
  if eng.inRange ms then .ok ms else .error s!"timestamp {ms} out of range"

def noOccurrence (spec : String) : String := s!"cron `{spec}` has no future occurrence"

/-- `next_wall`: the earliest occurrence of the union. -/
def nextWall (scheds : List eng.Compiled) (spec : String) (afterMs : Int) : Except String Int := do
  let after ← instant eng afterMs
  match (scheds.filterMap fun c => eng.after c after).min? with
  | some t => .ok t
  | none => .error (noOccurrence spec)

/-- The loop of `next_local` over candidate wall clocks. -/
def nextLocalLoop (scheds : List eng.Compiled) (spec : String) (afterMs : Int) (tz : eng.Tz) :
    Nat → Int → Except String Int
  | 0, _ => .error (noOccurrence spec)
  | fuel + 1, wall => do
    let next ← nextWall eng scheds spec wall
    let wall ← instant eng next
    match eng.earliest tz wall with
    | some ms =>
      -- a repeated wall clock may stand for an instant that has passed
      if ms > afterMs then .ok ms else nextLocalLoop scheds spec afterMs tz fuel wall
    | none => nextLocalLoop scheds spec afterMs tz fuel wall

def maxWallCandidates : Nat := 100000

/-- `next_local`. -/
def nextLocal (scheds : List eng.Compiled) (spec : String) (afterMs : Int) (tz : eng.Tz) :
    Except String Int := do
  let after ← instant eng afterMs
  nextLocalLoop eng scheds spec afterMs tz maxWallCandidates (eng.naiveLocal tz after)

def everyPrefix : List Char := "@every:".toList

/-- The next multiple of an interval. -/
def nextEvery (spec : String) (ms : List Char) (afterMs : Int) : Except String Int :=
  match parseI64 ms with
  | none => .error s!"bad @every spec `{spec}`"
  | some n =>
    if n < 1 then .error "@every period must be >= 1ms" else .ok ((afterMs / n + 1) * n)

/-- `next_after`: the next tick strictly after an instant. -/
def nextAfter (spec : String) (afterMs : Int) : Except String Int := do
  let (tz, body) ← splitTz eng spec
  match stripPrefix everyPrefix body.toList with
  | some ms =>
    match tz with
    | some _ => .error s!"`@every` is epoch-aligned UTC and takes no CRON_TZ: `{spec}`"
    | none => nextEvery spec ms afterMs
  | none =>
    let scheds ← compile eng body spec
    match tz with
    | none => nextWall eng scheds spec afterMs
    | some tz => nextLocal eng scheds spec afterMs tz

/-! ## Section 5: Due ticks -/

/-- The loop of `due_ticks` from the tick `t`. -/
def dueTicksLoop (spec : String) (nowMs : Int) (cap : Nat) :
    Nat → Int → List Int → Except String (List Int)
  | 0, _, ticks => .ok ticks
  | fuel + 1, t, ticks => do
    let t ← nextAfter eng spec t
    if t > nowMs then .ok ticks
    else
      let ticks := ticks ++ [t]
      -- only the most recent ones are kept
      let ticks := if ticks.length > cap then ticks.drop 1 else ticks
      dueTicksLoop spec nowMs cap fuel t ticks

/-- `due_ticks`: the stored next run and its successors up to now, oldest first. -/
def dueTicks (spec : String) (firstMs nowMs : Int) (cap : Nat) : Except String (List Int) :=
  if firstMs > nowMs then .ok [] else dueTicksLoop eng spec nowMs cap 10000 firstMs [firstMs]

/-- `validate`. -/
def validate (spec : String) : Except String Unit := (nextAfter eng spec 0).map fun _ => ()

/-- A tick of a spec. -/
def IsTick (spec : String) (t : Int) : Prop := ∃ after, nextAfter eng spec after = .ok t

variable {eng}

/-! ## Section 6: Ticks move forward -/

theorem bind_eq_ok {α β : Type} {x : Except String α} {f : α → Except String β} {b : β} :
    (x >>= f) = .ok b ↔ ∃ a, x = .ok a ∧ f a = .ok b := by
  cases x with
  | error | ok => simp [bind, Except.bind]

theorem instant_eq_ok {ms : Int} (h : instant eng ms = .ok t) : t = ms := by
  unfold instant at h
  split at h
  · exact (Except.ok.inj h).symm
  · cases h

theorem nextEvery_lt {ms : List Char} (h : nextEvery spec ms after = .ok t) : after < t := by
  unfold nextEvery at h
  split at h
  · cases h
  · rename_i n _
    split at h
    · cases h
    · rename_i hn
      rw [← Except.ok.inj h]
      exact Int.lt_ediv_add_one_mul_self after (by omega)

theorem nextWall_lt {scheds : List eng.Compiled} (h : nextWall eng scheds spec after = .ok t) :
    after < t := by
  obtain ⟨a, ha, h⟩ := bind_eq_ok.mp h
  rw [instant_eq_ok ha] at h
  cases hmin : (scheds.filterMap fun c => eng.after c after).min? with
  | none =>
    rw [hmin] at h
    cases h
  | some t' =>
    rw [hmin] at h
    -- the least occurrence is an occurrence of one of the schedules
    obtain ⟨c, -, hc⟩ := List.mem_filterMap.mp (List.min?_mem hmin)
    rw [← Except.ok.inj h]
    exact eng.after_lt c after t' hc

theorem nextLocalLoop_lt {scheds : List eng.Compiled} {tz : eng.Tz} (fuel : Nat) (wall : Int)
    (h : nextLocalLoop eng scheds spec after tz fuel wall = .ok t) :
    after < t := by
  induction fuel generalizing wall with
  | zero => cases h
  | succ fuel ih =>
    obtain ⟨next, -, h⟩ := bind_eq_ok.mp h
    obtain ⟨wall', -, h⟩ := bind_eq_ok.mp h
    split at h
    · split at h
      · rename_i hlate
        rw [← Except.ok.inj h]
        exact hlate
      · exact ih _ h
    · exact ih _ h

/-- The next tick after an instant is later than it. -/
theorem nextAfter_lt (h : nextAfter eng spec after = .ok t) :
    after < t := by
  obtain ⟨⟨tz, body⟩, -, h⟩ := bind_eq_ok.mp h
  dsimp only at h
  split at h
  · split at h
    · cases h
    · exact nextEvery_lt h
  · obtain ⟨scheds, -, h⟩ := bind_eq_ok.mp h
    split at h
    · exact nextWall_lt h
    · obtain ⟨a, -, h⟩ := bind_eq_ok.mp h
      exact nextLocalLoop_lt _ _ h

/-- The ticks that `due_ticks` returns are not before its start. -/
theorem dueTicksLoop_le (fuel : Nat) (t : Int) (ticks : List Int) (ht : first ≤ t)
    (hticks : ∀ x ∈ ticks, first ≤ x) {out : List Int}
    (h : dueTicksLoop eng spec now cap fuel t ticks = .ok out) : ∀ x ∈ out, first ≤ x := by
  induction fuel generalizing t ticks with
  | zero =>
    cases h
    exact hticks
  | succ fuel ih =>
    obtain ⟨t', ht', h⟩ := bind_eq_ok.mp h
    have hlater : first ≤ t' := ht.trans (nextAfter_lt ht').le
    split at h
    · cases h
      exact hticks
    · refine ih t' _ hlater ?_ h
      have hall : ∀ x ∈ ticks ++ [t'], first ≤ x := by
        intro x hx
        rcases List.mem_append.mp hx with hold | hnew
        · exact hticks x hold
        · rw [List.mem_singleton.mp hnew]
          exact hlater
      intro x hx
      split at hx
      · exact hall x (List.mem_of_mem_drop hx)
      · exact hall x hx

theorem dueTicks_le {ticks : List Int} (h : dueTicks eng spec first now cap = .ok ticks) :
    ∀ x ∈ ticks, first ≤ x := by
  unfold dueTicks at h
  split at h
  · cases h
    intro x hx
    cases hx
  · refine dueTicksLoop_le 10000 first [first] le_rfl ?_ h
    intro x hx
    rw [List.mem_singleton.mp hx]

end Headgate.Schedule
