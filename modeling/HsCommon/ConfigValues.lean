import HsCommon.ConfigFile

/-!
# HSConfigReader.h, what a value is read as

Three of the four conversions share the flag that tells that the text has been converted, but each
has a member of its own. The first one that is made fills its member and the others stay zero. The
fourth never converts.
-/

namespace HsCommon

/-- Conversions of the C library and of the language, with the width of a `long`. -/
structure HSConversions (Double Float : Type) where
  long : ULongWidth
  atoi : List UInt8 → Int32
  atol : List UInt8 → ℤ
  atof : List UInt8 → Double
  toFloat : Double → Float

inductive HSMember
  | int
  | double
  | long
  deriving DecidableEq, Repr

inductive HSResult (Double Float : Type)
  | bool (b : Bool)
  | integer (n : ℤ)
  | float (x : Float)
  | double (x : Double)
  | text (s : List UInt8)
  deriving DecidableEq, Repr

namespace HSValue
variable {Double Float : Type} (c : HSConversions Double Float)

def store (u : UnionValue Double) (s : List UInt8) : HSMember → UnionValue Double
  | .int => { u with intValue := (c.atoi s).toInt }
  | .double => { u with doubleValue := c.atof s }
  | .long => { u with longValue := c.atol s }

def parsed (v : HSValue Double) (m : HSMember) : HSValue Double :=
  if v.seted then v
  else { v with seted := true, unionValue := store c v.unionValue (cStr v.strValue) m }

def toIntegelValue (v : HSValue Double) : ℤ × HSValue Double :=
  let v := v.parsed c .int
  (v.unionValue.intValue, v)

def toDoubleValue (v : HSValue Double) : Double × HSValue Double :=
  let v := v.parsed c .double
  (v.unionValue.doubleValue, v)

def toLongValue (v : HSValue Double) : ℤ × HSValue Double :=
  let v := v.parsed c .long
  (v.unionValue.longValue, v)

def toLonglongValue (v : HSValue Double) : ℤ × HSValue Double := (v.unionValue.longlongValue, v)

def asBool (v : HSValue Double) : Bool × HSValue Double :=
  let (n, v) := v.toIntegelValue c
  (decide (n ≠ 0), v)

def asChar (v : HSValue Double) : ℤ × HSValue Double :=
  let (n, v) := v.toIntegelValue c
  (n.bmod (2 ^ 8), v)

def asUchar (v : HSValue Double) : ℤ × HSValue Double :=
  let (n, v) := v.toIntegelValue c
  (n % 2 ^ 8, v)

def asShort (v : HSValue Double) : ℤ × HSValue Double :=
  let (n, v) := v.toIntegelValue c
  (n.bmod (2 ^ 16), v)

def asUshort (v : HSValue Double) : ℤ × HSValue Double :=
  let (n, v) := v.toIntegelValue c
  (n % 2 ^ 16, v)

def asInt (v : HSValue Double) : ℤ × HSValue Double := v.toIntegelValue c

def asUint (v : HSValue Double) : ℤ × HSValue Double :=
  let (n, v) := v.toIntegelValue c
  (n % 2 ^ 32, v)

def asFloat (v : HSValue Double) : Float × HSValue Double :=
  let (x, v) := v.toDoubleValue c
  (c.toFloat x, v)

def asDouble (v : HSValue Double) : Double × HSValue Double := v.toDoubleValue c

def asLong (v : HSValue Double) : ℤ × HSValue Double := v.toLongValue c

def asUlong (v : HSValue Double) : ℤ × HSValue Double :=
  let (n, v) := v.toLongValue c
  (n % 2 ^ (8 * c.long.size), v)

def asLonglong (v : HSValue Double) : ℤ × HSValue Double := v.toLonglongValue

def asUlonglong (v : HSValue Double) : ℤ × HSValue Double :=
  let (n, v) := v.toLonglongValue
  (n % 2 ^ 64, v)

def asCString (v : HSValue Double) : List UInt8 := cStr v.strValue

def asString (v : HSValue Double) : List UInt8 := v.strValue

end HSValue

inductive HSAccessor
  | asBool
  | asChar
  | asUchar
  | asShort
  | asUshort
  | asInt
  | asUint
  | asFloat
  | asDouble
  | asLong
  | asUlong
  | asLonglong
  | asUlonglong
  | asCString
  | asString
  deriving DecidableEq, Repr

namespace HSAccessor
variable {Double Float : Type} (c : HSConversions Double Float)

def call : HSAccessor → HSValue Double → HSResult Double Float × HSValue Double
  | .asBool, v => (v.asBool c).map .bool id
  | .asChar, v => (v.asChar c).map .integer id
  | .asUchar, v => (v.asUchar c).map .integer id
  | .asShort, v => (v.asShort c).map .integer id
  | .asUshort, v => (v.asUshort c).map .integer id
  | .asInt, v => (v.asInt c).map .integer id
  | .asUint, v => (v.asUint c).map .integer id
  | .asFloat, v => (v.asFloat c).map .float id
  | .asDouble, v => (v.asDouble c).map .double id
  | .asLong, v => (v.asLong c).map .integer id
  | .asUlong, v => (v.asUlong c).map .integer id
  | .asLonglong, v => v.asLonglong.map .integer id
  | .asUlonglong, v => v.asUlonglong.map .integer id
  | .asCString, v => (.text v.asCString, v)
  | .asString, v => (.text v.asString, v)

def answers : HSValue Double → List HSAccessor → List (HSResult Double Float)
  | _, [] => []
  | v, a :: calls => (a.call c v).1 :: answers (a.call c v).2 calls

def member : HSAccessor → Option HSMember
  | .asBool | .asChar | .asUchar | .asShort | .asUshort | .asInt | .asUint => some .int
  | .asFloat | .asDouble => some .double
  | .asLong | .asUlong => some .long
  | .asLonglong | .asUlonglong | .asCString | .asString => none

def result (u : UnionValue Double) (s : List UInt8) : HSAccessor → HSResult Double Float
  | .asBool => .bool (decide (u.intValue ≠ 0))
  | .asChar => .integer (u.intValue.bmod (2 ^ 8))
  | .asUchar => .integer (u.intValue % 2 ^ 8)
  | .asShort => .integer (u.intValue.bmod (2 ^ 16))
  | .asUshort => .integer (u.intValue % 2 ^ 16)
  | .asInt => .integer u.intValue
  | .asUint => .integer (u.intValue % 2 ^ 32)
  | .asFloat => .float (c.toFloat u.doubleValue)
  | .asDouble => .double u.doubleValue
  | .asLong => .integer u.longValue
  | .asUlong => .integer (u.longValue % 2 ^ (8 * c.long.size))
  | .asLonglong => .integer u.longlongValue
  | .asUlonglong => .integer (u.longlongValue % 2 ^ 64)
  | .asCString => .text (cStr s)
  | .asString => .text s

def after (a : HSAccessor) (v : HSValue Double) : HSValue Double :=
  a.member.elim v (v.parsed c)

theorem call_eq (a : HSAccessor) (v : HSValue Double) :
    a.call c v = (a.result c (a.after c v).unionValue (a.after c v).strValue, a.after c v) := by
  cases a <;> rfl

@[simp] theorem after_strValue (a : HSAccessor) (v : HSValue Double) :
    (a.after c v).strValue = v.strValue := by
  rw [after]
  cases a.member with
  | none => rfl
  | some m =>
    rw [Option.elim_some, HSValue.parsed]
    split_ifs <;> rfl

theorem after_of_seted (a : HSAccessor) {v : HSValue Double} (h : v.seted = true) :
    a.after c v = v := by
  rw [after]
  cases a.member with
  | none => rfl
  | some m => exact if_pos h

theorem answers_of_seted {v : HSValue Double} (h : v.seted = true) (calls : List HSAccessor) :
    answers c v calls = calls.map (result c v.unionValue v.strValue) := by
  induction calls with
  | nil => rfl
  | cons a calls ih => rw [answers, call_eq, after_of_seted c a h, ih, List.map_cons]

section fresh
variable [Zero Double]

def firstMember (calls : List HSAccessor) : Option HSMember := calls.findSome? member

def filled (s : List UInt8) (m : Option HSMember) : HSValue Double :=
  m.elim (.new s) ((HSValue.new s).parsed c)

def fresh (s : List UInt8) (a : HSAccessor) : HSResult Double Float := (a.call c (.new s)).1

theorem fresh_eq (s : List UInt8) (a : HSAccessor) :
    fresh c s a = a.result c (filled c s a.member).unionValue s := by
  rw [fresh, call_eq, after_strValue]
  rfl

theorem result_of_member_none {a : HSAccessor} (h : a.member = none) (s : List UInt8)
    (m : Option HSMember) :
    a.result c (filled c s m).unionValue s = a.result c (filled c s none).unionValue s := by
  cases m with
  | none => rfl
  | some m =>
    cases a
    all_goals first
      | cases h; done
      | (cases m <;> rfl)

theorem answers_new (s : List UInt8) (calls : List HSAccessor) :
    answers c (.new s) calls =
      calls.map (result c (filled c s (firstMember calls)).unionValue s) := by
  induction calls with
  | nil => rfl
  | cons a calls ih =>
    rw [answers, call_eq, after_strValue, List.map_cons]
    cases hm : a.member with
    | none =>
      have hafter : a.after c (HSValue.new s) = HSValue.new s := by
        rw [after, hm]
        rfl
      have hfirst : firstMember (a :: calls) = firstMember calls := by
        rw [firstMember, List.findSome?_cons, hm]
        rfl
      rw [hafter, ih, hfirst, result_of_member_none c hm s (firstMember calls)]
      rfl
    | some m =>
      have hafter : a.after c (HSValue.new s) = filled c s (some m) := by
        rw [after, hm]
        rfl
      have hfirst : firstMember (a :: calls) = some m := by
        rw [firstMember, List.findSome?_cons, hm]
      rw [hafter, answers_of_seted c rfl, hfirst]
      rfl

def Vanishes (s : List UInt8) : HSAccessor → Prop
  | .asBool | .asInt | .asUint => c.atoi s = 0
  | .asChar | .asUchar => 2 ^ 8 ∣ (c.atoi s).toInt
  | .asShort | .asUshort => 2 ^ 16 ∣ (c.atoi s).toInt
  | .asFloat => c.toFloat (c.atof s) = c.toFloat 0
  | .asDouble => c.atof s = 0
  | .asLong => c.atol s = 0
  | .asUlong => 2 ^ (8 * c.long.size) ∣ c.atol s
  | .asLonglong | .asUlonglong | .asCString | .asString => True

/-! Only the member that is asked for is filled. -/

theorem filled_intValue {m : Option HSMember} (hm : m ≠ some .int) (s : List UInt8) :
    (filled c s m).unionValue.intValue = 0 := by
  rcases m with _ | (_ | _ | _)
  · rfl
  · exact absurd rfl hm
  · rfl
  · rfl

theorem filled_doubleValue {m : Option HSMember} (hm : m ≠ some .double) (s : List UInt8) :
    (filled c s m).unionValue.doubleValue = 0 := by
  rcases m with _ | (_ | _ | _)
  · rfl
  · rfl
  · exact absurd rfl hm
  · rfl

theorem filled_longValue {m : Option HSMember} (hm : m ≠ some .long) (s : List UInt8) :
    (filled c s m).unionValue.longValue = 0 := by
  rcases m with _ | (_ | _ | _)
  · rfl
  · rfl
  · rfl
  · exact absurd rfl hm

theorem toInt_eq_zero_iff (n : Int32) : n.toInt = 0 ↔ n = 0 := by
  rw [← Int32.toInt_zero, Int32.toInt_inj]

theorem toInt_emod_eq_zero_iff (n : Int32) : n.toInt % 2 ^ 32 = 0 ↔ n = 0 := by
  have hle := n.le_toInt
  have hlt := n.toInt_lt
  rw [← toInt_eq_zero_iff]
  omega

theorem result_zero_iff {a : HSAccessor} {m : Option HSMember} (ha : a.member ≠ none)
    (hm : m ≠ a.member) (s : List UInt8) :
    a.result c (filled c s m).unionValue s = fresh c s a ↔ Vanishes c (cStr s) a := by
  rw [fresh_eq]
  cases a with
  | asLonglong | asUlonglong | asCString | asString => exact absurd rfl ha
  | asBool =>
    have hzero := filled_intValue c hm s
    have hown : (filled c s (some .int)).unionValue.intValue = (c.atoi (cStr s)).toInt := rfl
    simp [result, member, hzero, hown, Vanishes, toInt_eq_zero_iff]
  | asUint =>
    have hzero := filled_intValue c hm s
    have hown : (filled c s (some .int)).unionValue.intValue = (c.atoi (cStr s)).toInt := rfl
    rw [result, member, result, hzero, hown, HSResult.integer.injEq, Int.zero_emod, eq_comm,
      toInt_emod_eq_zero_iff, Vanishes]
  | asChar | asUchar | asShort | asUshort | asInt =>
    have hzero := filled_intValue c hm s
    have hown : (filled c s (some .int)).unionValue.intValue = (c.atoi (cStr s)).toInt := rfl
    simp only [result, member, hzero, hown, Vanishes, HSResult.integer.injEq, Int.zero_bmod,
      Int.zero_emod, @eq_comm ℤ 0, ← Int.dvd_iff_bmod_eq_zero, ← Int.dvd_iff_emod_eq_zero,
      toInt_eq_zero_iff, Nat.cast_ofNat, Nat.cast_pow]
  | asFloat | asDouble =>
    have hzero := filled_doubleValue c hm s
    have hown : (filled c s (some .double)).unionValue.doubleValue = c.atof (cStr s) := rfl
    simp only [result, member, hzero, hown, Vanishes, HSResult.float.injEq, HSResult.double.injEq]
    exact eq_comm
  | asLong | asUlong =>
    have hzero := filled_longValue c hm s
    have hown : (filled c s (some .long)).unionValue.longValue = c.atol (cStr s) := rfl
    simp only [result, member, hzero, hown, Vanishes, HSResult.integer.injEq, Int.zero_emod,
      @eq_comm ℤ 0, Int.dvd_iff_emod_eq_zero]

/-- Every call returns what it would return first exactly if those that share the flag all ask for
one member, or what they ask for is zero. -/
theorem answers_fresh_iff (s : List UInt8) (calls : List HSAccessor) :
    answers c (.new s) calls = calls.map (fresh c s) ↔
      ∀ a ∈ calls, a.member = none ∨ a.member = firstMember calls ∨ Vanishes c (cStr s) a := by
  rw [answers_new, List.map_inj_left]
  apply forall₂_congr
  intro a _
  by_cases ha : a.member = none
  · rw [fresh_eq, ha]
    simp only [result_of_member_none c ha s, true_or]
  by_cases hm : a.member = firstMember calls
  · rw [fresh_eq, ← hm]
    simp only [true_or, or_true]
  · simp only [result_zero_iff c ha (Ne.symm hm), ha, hm, false_or]

end fresh

/-- The text `5` is 0 as an `int` once it has been asked for as a `double`. -/
theorem answers_not_fresh :
    answers (⟨.eight, atoi .eight, strtol .eight, fun _ => (5 : ℚ), id⟩ : HSConversions ℚ ℚ)
        (.new [53]) [.asDouble, .asInt] ≠
      [.asDouble, .asInt].map
        (fresh ⟨.eight, atoi .eight, strtol .eight, fun _ => (5 : ℚ), id⟩ [53]) := by
  decide

end HSAccessor

namespace HSValue
variable {Double Float : Type} [Zero Double]

def decimalValue (s : List UInt8) : ℤ :=
  let (negative, n) := readDecimal s
  if negative then -n else n

def libraryConversions (w : ULongWidth) (atof : List UInt8 → Double) (toFloat : Double → Float) :
    HSConversions Double Float := ⟨w, atoi w, strtol w, atof, toFloat⟩

structure ReadsAs (c : HSConversions Double Float) (s : List UInt8) (n : ℤ) : Prop where
  int : (asInt c (.new s)).1 = n
  long : (asLong c (.new s)).1 = n
  longlong : (asLonglong (.new s : HSValue Double)).1 = n
  uint : (asUint c (.new s)).1 = n % 2 ^ 32
  ulong : (asUlong c (.new s)).1 = n % 2 ^ (8 * c.long.size)
  ulonglong : (asUlonglong (.new s : HSValue Double)).1 = n % 2 ^ 64

theorem strtol_eq_decimalValue (w : ULongWidth) {s : List UInt8}
    (hlow : -2 ^ 31 ≤ decimalValue s) (hhigh : decimalValue s < 2 ^ 31) :
    strtol w s = decimalValue s := by
  have hbound : (2 : ℤ) ^ 31 ≤ 2 ^ (8 * w.size - 1) := by
    apply pow_le_pow_right₀ one_le_two
    have hsize := w.four_le_size
    omega
  have hvalue : strtol w s =
      max (-2 ^ (8 * w.size - 1)) (min (2 ^ (8 * w.size - 1) - 1) (decimalValue s)) := rfl
  rw [hvalue, min_eq_right (by omega), max_eq_right (by omega)]

theorem atoi_eq_decimalValue (w : ULongWidth) {s : List UInt8}
    (hlow : -2 ^ 31 ≤ decimalValue s) (hhigh : decimalValue s < 2 ^ 31) :
    (atoi w s).toInt = decimalValue s := by
  rw [atoi, strtol_eq_decimalValue w hlow hhigh]
  exact Int32.toInt_ofInt_of_le hlow hhigh

section library
variable (w : ULongWidth) (atof : List UInt8 → Double) (toFloat : Double → Float)
  {s : List UInt8} {n : ℤ}

theorem int_long_read (hs : decimalValue (cStr s) = n) (hlow : -2 ^ 31 ≤ n) (hhigh : n < 2 ^ 31) :
    (asInt (libraryConversions w atof toFloat) (.new s)).1 = n ∧
    (asLong (libraryConversions w atof toFloat) (.new s)).1 = n := by
  subst hs
  exact ⟨atoi_eq_decimalValue w hlow hhigh, strtol_eq_decimalValue w hlow hhigh⟩

/-- What is spelled is read for every width of the integer exactly if it is zero. -/
theorem readsAs_iff (hs : decimalValue (cStr s) = n) (hlow : -2 ^ 31 ≤ n) (hhigh : n < 2 ^ 31) :
    ReadsAs (libraryConversions w atof toFloat) s n ↔ n = 0 := by
  constructor
  · intro h
    exact h.longlong.symm
  · intro hn
    obtain ⟨hint, hlong⟩ := int_long_read w atof toFloat hs hlow hhigh
    refine ⟨hint, hlong, hn.symm, congrArg (· % 2 ^ 32) hint, congrArg (· % _) hlong, ?_⟩
    rw [hn]
    rfl

end library

theorem readsAs_zero :
    decimalValue (cStr [32, 45, 48]) = 0 ∧
    ReadsAs (libraryConversions .eight (fun _ => (0 : ℚ)) id) [32, 45, 48] 0 :=
  ⟨by decide, (readsAs_iff .eight (fun _ => (0 : ℚ)) id (by decide) (by decide)
    (by decide)).mpr rfl⟩

theorem longlong_five : decimalValue (cStr [53]) = 5 ∧
    ¬ ReadsAs (libraryConversions .eight (fun _ => (5 : ℚ)) id) [53] 5 := by
  refine ⟨by decide, fun h => ?_⟩
  have hlonglong : (0 : ℤ) = 5 := h.longlong
  revert hlonglong
  decide

end HSValue
end HsCommon
