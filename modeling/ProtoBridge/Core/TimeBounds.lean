import Mathlib.Tactic.Ring

/-!
# Bounded time arithmetic

A `Time` is a signed count of ticks in 64 bits, and its greatest value marks what does not fit. Counts of
nanoseconds are unsigned and have 128 bits.
-/

namespace ProtoBridge.Core.TimeBounds

/-- `__uint128_t`. -/
abbrev Wide := BitVec 128

/-- The step of a `Time`. -/
abbrev Time := Int64

/-- `Time::Unit`. -/
inductive TimeUnit
  | Y | D | H | MIN | S | MS | US | NS | PS | FS | LAST | AUTO
  deriving DecidableEq

structure Scale where
  numerator : UInt64
  denominator : UInt64

/-- `TickScale`, the ticks in a second. There is none for a unit that is not a resolution. -/
def tickScale : TimeUnit → Option Scale
  | .Y => some ⟨1, 31536000⟩
  | .D => some ⟨1, 86400⟩
  | .H => some ⟨1, 3600⟩
  | .MIN => some ⟨1, 60⟩
  | .S => some ⟨1, 1⟩
  | .MS => some ⟨1000, 1⟩
  | .US => some ⟨1000000, 1⟩
  | .NS => some ⟨1000000000, 1⟩
  | .PS => some ⟨1000000000000, 1⟩
  | .FS => some ⟨1000000000000000, 1⟩
  | .LAST | .AUTO => none

/-- `Time::Max`. -/
def timeMax : Time := Int64.maxValue

/-- `std::numeric_limits<int64_t>::max()` as a wide count. -/
def maximum : Wide := 9223372036854775807

/-- A 64-bit count as a wide one. -/
def wide (x : UInt64) : Wide := x.toBitVec.setWidth 128

/-- `static_cast<int64_t>` of a wide count. -/
def toTime (x : Wide) : Time := Int64.ofBitVec (x.setWidth 64)

/-- `Horizon`, at a current time. -/
def horizon (now : Time) : Time := if now < 0 then 0 else Int64.maxValue - now

/-- `CanSchedule`, at a current time. -/
def canSchedule (now delay : Time) : Bool := !decide (delay < 0) && decide (delay < horizon now)

/-- `SaturatingAdd`. -/
def saturatingAdd (a b : Time) : Time :=
  if a < 0 ∨ b < 0 then timeMax
  else if b > Int64.maxValue - a then timeMax
  else a + b

/-- `FromNanoseconds`. -/
def fromNanoseconds (s : Scale) (ns : Wide) : Time :=
  if s.numerator ≥ 1000000000 then
    let factor := s.numerator / 1000000000
    if ns > maximum / wide factor then timeMax else toTime (ns * wide factor)
  else
    let divisor := (1000000000 / s.numerator) * s.denominator
    let ticks := ns / wide divisor
    if ticks ≥ maximum then timeMax else toTime ticks

/-- `ToNanoseconds`. -/
def toNanoseconds (s : Scale) (time : Time) : Wide :=
  if time < 0 then 0
  else
    let ticks := wide time.toUInt64
    if s.numerator ≥ 1000000000 then ticks / wide (s.numerator / 1000000000)
    else ticks * wide ((1000000000 / s.numerator) * s.denominator)

/-- `NanosecondLimit`. -/
def nanosecondLimit (s : Scale) : Wide :=
  if s.numerator ≥ 1000000000 then
    let factor := s.numerator / 1000000000
    maximum / wide factor + if maximum % wide factor ≠ 0 then 1 else 0
  else maximum * wide ((1000000000 / s.numerator) * s.denominator)

/-- `RoundTicks`, for a denominator that is not zero. -/
def roundTicks (numerator denominator : Wide) : Time :=
  let ticks := numerator / denominator
  if ticks ≥ maximum then timeMax
  else
    let remainder := numerator % denominator
    toTime (ticks + if remainder ≥ denominator / 2 + denominator % 2 then 1 else 0)

/-! ## What is meant -/

/-- The whole ticks of a count of nanoseconds. -/
def ticksOf (s : Scale) (ns : Nat) : Nat := ns * s.numerator.toNat / (1000000000 * s.denominator.toNat)

/-- The nanoseconds of a tick, and one where a tick is shorter. -/
def tickLength (s : Scale) : Nat := max (1000000000 * s.denominator.toNat / s.numerator.toNat) 1

/-- Nanoseconds become ticks, and ticks become nanoseconds. -/
structure Conversions (s : Scale) : Prop where
  mono : ∀ ns ns' : Wide, ns ≤ ns' → fromNanoseconds s ns ≤ fromNanoseconds s ns'
  max_iff : ∀ ns, fromNanoseconds s ns = timeMax ↔ nanosecondLimit s ≤ ns
  exact : ∀ ns, ns < nanosecondLimit s → (fromNanoseconds s ns).toInt = ticksOf s ns.toNat
  back : ∀ ns, ns < nanosecondLimit s →
    (toNanoseconds s (fromNanoseconds s ns)).toNat = ns.toNat - ns.toNat % tickLength s

/-- Sums of times that are not negative. -/
structure SaturatingSums : Prop where
  comm : ∀ a b : Time, 0 ≤ a → 0 ≤ b → saturatingAdd a b = saturatingAdd b a
  assoc : ∀ a b c : Time, 0 ≤ a → 0 ≤ b → 0 ≤ c →
    saturatingAdd (saturatingAdd a b) c = saturatingAdd a (saturatingAdd b c)
  mono : ∀ a a' b b' : Time, 0 ≤ a → 0 ≤ b → a ≤ a' → b ≤ b' → saturatingAdd a b ≤ saturatingAdd a' b'
  absorbing : ∀ a : Time, 0 ≤ a → saturatingAdd a timeMax = timeMax ∧ saturatingAdd timeMax a = timeMax

/-- A quotient in ticks is the nearest one, and of two the greater. -/
structure Rounding : Prop where
  nearest : ∀ numerator denominator : Wide, denominator ≠ 0 →
    (roundTicks numerator denominator).toInt =
      min ((2 * numerator.toNat + denominator.toNat) / (2 * denominator.toNat)) (2 ^ 63 - 1 : Nat)
  mono : ∀ numerator numerator' denominator : Wide, denominator ≠ 0 → numerator ≤ numerator' →
    roundTicks numerator denominator ≤ roundTicks numerator' denominator

/-- An event is due at a time from now on, which is not the greatest one. -/
def Scheduling : Prop :=
  ∀ now delay : Time, 0 ≤ now → canSchedule now delay = true →
    (now + delay).toInt = now.toInt + delay.toInt ∧ now.toInt - 1 < (now + delay).toInt ∧ now + delay < timeMax

variable {u : TimeUnit} {s : Scale} {a b now delay : Time}

/-! ## Values -/

theorem toInt_lt (a : Time) : a.toInt < 2 ^ 63 := Int64.toInt_lt a

theorem toInt_zero : (0 : Time).toInt = 0 := rfl

theorem toInt_maxValue : Int64.maxValue.toInt = 2 ^ 63 - 1 := rfl

theorem toInt_timeMax : timeMax.toInt = 2 ^ 63 - 1 := rfl

theorem toNat_maximum : maximum.toNat = 2 ^ 63 - 1 := rfl

theorem nonneg_iff : 0 ≤ a ↔ 0 ≤ a.toInt := by
  rw [Int64.le_iff_toInt_le, toInt_zero]

theorem not_neg (ha : 0 ≤ a.toInt) : ¬ a < 0 := by
  rw [Int64.lt_iff_toInt_lt, toInt_zero]
  omega

theorem eq_timeMax_iff : a = timeMax ↔ a.toInt = 2 ^ 63 - 1 := by
  rw [← Int64.toInt_inj, toInt_timeMax]

theorem toNat_wide (x : UInt64) : (wide x).toNat = x.toNat := by
  have hlt := x.toNat_lt
  unfold wide
  rw [BitVec.toNat_setWidth]
  exact Nat.mod_eq_of_lt (by
    show x.toNat < 2 ^ 128
    omega)

theorem toInt_toTime {x : Wide} (hx : x.toNat < 2 ^ 63) : (toTime x).toInt = x.toNat := by
  have hsame : (x.setWidth 64).toNat = x.toNat := by
    rw [BitVec.toNat_setWidth]
    exact Nat.mod_eq_of_lt (by omega)
  show (x.setWidth 64).toInt = x.toNat
  rw [BitVec.toInt_eq_toNat_of_lt (by omega), hsame]

theorem toInt_maxValue_sub (ha : 0 ≤ a.toInt) : (Int64.maxValue - a).toInt = 2 ^ 63 - 1 - a.toInt := by
  have hlt := toInt_lt a
  rw [Int64.toInt_sub, toInt_maxValue]
  exact Int.bmod_eq_of_le (by omega) (by omega)

/-! ## Sums and events -/

theorem toInt_saturatingAdd (ha : 0 ≤ a.toInt) (hb : 0 ≤ b.toInt) :
    (saturatingAdd a b).toInt = min (a.toInt + b.toInt) (2 ^ 63 - 1) := by
  unfold saturatingAdd
  rw [if_neg (not_or.mpr ⟨not_neg ha, not_neg hb⟩)]
  split
  · rename_i hover
    rw [gt_iff_lt, Int64.lt_iff_toInt_lt, toInt_maxValue_sub ha] at hover
    rw [toInt_timeMax]
    omega
  · rename_i hfits
    rw [gt_iff_lt, Int64.lt_iff_toInt_lt, toInt_maxValue_sub ha] at hfits
    rw [Int64.toInt_add, Int.bmod_eq_of_le (by omega) (by omega)]
    omega

theorem saturatingSums : SaturatingSums := by
  refine ⟨?_, ?_, ?_, ?_⟩
  · intro a b ha hb
    rw [nonneg_iff] at ha hb
    rw [← Int64.toInt_inj, toInt_saturatingAdd ha hb, toInt_saturatingAdd hb ha, add_comm]
  · intro a b c ha hb hc
    rw [nonneg_iff] at ha hb hc
    have hab := toInt_saturatingAdd ha hb
    have hbc := toInt_saturatingAdd hb hc
    have hab' : 0 ≤ (saturatingAdd a b).toInt := by omega
    have hbc' : 0 ≤ (saturatingAdd b c).toInt := by omega
    rw [← Int64.toInt_inj, toInt_saturatingAdd hab' hc, toInt_saturatingAdd ha hbc', hab, hbc]
    omega
  · intro a a' b b' ha hb hle hle'
    rw [nonneg_iff] at ha hb
    rw [Int64.le_iff_toInt_le] at hle hle' ⊢
    rw [toInt_saturatingAdd ha hb, toInt_saturatingAdd (by omega) (by omega)]
    omega
  · intro a ha
    rw [nonneg_iff] at ha
    have hmax := toInt_timeMax
    rw [eq_timeMax_iff, eq_timeMax_iff, toInt_saturatingAdd ha (by omega), toInt_saturatingAdd (by omega) ha]
    omega

theorem toInt_horizon (hnow : 0 ≤ now.toInt) : (horizon now).toInt = 2 ^ 63 - 1 - now.toInt := by
  unfold horizon
  rw [if_neg (not_neg hnow), toInt_maxValue_sub hnow]

theorem scheduling : Scheduling := by
  intro now delay hnow haccepted
  rw [nonneg_iff] at hnow
  unfold canSchedule at haccepted
  rw [Bool.and_eq_true, Bool.not_eq_true', decide_eq_false_iff_not, decide_eq_true_iff,
    Int64.lt_iff_toInt_lt, Int64.lt_iff_toInt_lt, toInt_horizon hnow, toInt_zero] at haccepted
  obtain ⟨hdelay, hhorizon⟩ := haccepted
  have hsum : (now + delay).toInt = now.toInt + delay.toInt := by
    rw [Int64.toInt_add]
    exact Int.bmod_eq_of_le (by omega) (by omega)
  refine ⟨hsum, ?_, ?_⟩
  · omega
  · rw [Int64.lt_iff_toInt_lt, toInt_timeMax]
    omega

/-! ## Rounding -/

theorem nearest_eq (n : Nat) {d : Nat} (hd : 0 < d) :
    (2 * n + d) / (2 * d) = n / d + if d / 2 + d % 2 ≤ n % d then 1 else 0 := by
  have hsplit := Nat.div_add_mod n d
  have hrest := Nat.mod_lt n hd
  split
  · rename_i hhalf
    apply Nat.div_eq_of_lt_le
    · calc (n / d + 1) * (2 * d) = 2 * (d * (n / d)) + 2 * d := by ring
        _ ≤ 2 * n + d := by omega
    · calc 2 * n + d < 2 * (d * (n / d)) + 4 * d := by omega
        _ = (n / d + 1 + 1) * (2 * d) := by ring
  · rename_i hhalf
    apply Nat.div_eq_of_lt_le
    · calc (n / d + 0) * (2 * d) = 2 * (d * (n / d)) := by ring
        _ ≤ 2 * n + d := by omega
    · calc 2 * n + d < 2 * (d * (n / d)) + 2 * d := by omega
        _ = (n / d + 0 + 1) * (2 * d) := by ring

theorem toInt_roundTicks {numerator denominator : Wide} (hd : denominator ≠ 0) :
    (roundTicks numerator denominator).toInt =
      min ((2 * numerator.toNat + denominator.toNat) / (2 * denominator.toNat)) (2 ^ 63 - 1 : Nat) := by
  have hpos : 0 < denominator.toNat := by
    rcases Nat.eq_zero_or_pos denominator.toNat with hzero | hpos
    · exact absurd (BitVec.eq_of_toNat_eq hzero) hd
    · exact hpos
  have hhalf : (denominator / 2 + denominator % 2).toNat = denominator.toNat / 2 + denominator.toNat % 2 := by
    have hlt := denominator.isLt
    rw [BitVec.toNat_add, BitVec.toNat_udiv, BitVec.toNat_umod]
    exact Nat.mod_eq_of_lt (by
      show denominator.toNat / 2 + denominator.toNat % 2 < 2 ^ 128
      omega)
  have hup : numerator % denominator ≥ denominator / 2 + denominator % 2 ↔
      denominator.toNat / 2 + denominator.toNat % 2 ≤ numerator.toNat % denominator.toNat := by
    rw [ge_iff_le, BitVec.le_def, hhalf, BitVec.toNat_umod]
  have hticks : (numerator / denominator).toNat = numerator.toNat / denominator.toNat := BitVec.toNat_udiv
  rw [nearest_eq _ hpos]
  unfold roundTicks
  dsimp only
  split
  · rename_i hover
    rw [ge_iff_le, BitVec.le_def, toNat_maximum, hticks] at hover
    rw [toInt_timeMax]
    split <;> omega
  · rename_i hfits
    rw [ge_iff_le, BitVec.le_def, toNat_maximum, hticks] at hfits
    by_cases hhigh : numerator % denominator ≥ denominator / 2 + denominator % 2
    · have hvalue : (numerator / denominator + 1).toNat = numerator.toNat / denominator.toNat + 1 := by
        rw [BitVec.toNat_add, hticks]
        exact Nat.mod_eq_of_lt (by
          show numerator.toNat / denominator.toNat + 1 < 2 ^ 128
          omega)
      rw [if_pos hhigh, if_pos (hup.mp hhigh), toInt_toTime (by omega), hvalue]
      omega
    · rw [if_neg hhigh, if_neg (fun h => hhigh (hup.mpr h)),
        show numerator / denominator + 0 = numerator / denominator from BitVec.add_zero _,
        toInt_toTime (by omega), hticks]
      omega

theorem rounding : Rounding := by
  refine ⟨fun _ _ => toInt_roundTicks, ?_⟩
  intro numerator numerator' denominator hd hle
  rw [BitVec.le_def] at hle
  rw [Int64.le_iff_toInt_le, toInt_roundTicks hd, toInt_roundTicks hd]
  have hquotient : (2 * numerator.toNat + denominator.toNat) / (2 * denominator.toNat) ≤
      (2 * numerator'.toNat + denominator.toNat) / (2 * denominator.toNat) :=
    Nat.div_le_div_right (by omega)
  omega

/-! ## Conversions -/

/-- A tick of a nanosecond or less. -/
structure Fine (s : Scale) (factor : Nat) : Prop where
  numerator : s.numerator.toNat = factor * 1000000000
  denominator : s.denominator.toNat = 1
  pos : 0 < factor
  small : factor < 2 ^ 20

/-- A tick of more than a nanosecond. -/
structure Coarse (s : Scale) (divisor : Nat) : Prop where
  numerator : 0 < s.numerator.toNat ∧ s.numerator.toNat < 1000000000
  length : ((1000000000 / s.numerator) * s.denominator).toNat = divisor
  whole : 1000000000 * s.denominator.toNat = s.numerator.toNat * divisor
  pos : 0 < divisor
  small : divisor < 2 ^ 60

theorem tickScale_cases (h : tickScale u = some s) : (∃ factor, Fine s factor) ∨ ∃ divisor, Coarse s divisor := by
  cases u <;> simp only [tickScale, Option.some.injEq, reduceCtorEq] at h <;> subst h
  · exact .inr ⟨31536000000000000, by decide, by decide, by decide, by decide, by decide⟩
  · exact .inr ⟨86400000000000, by decide, by decide, by decide, by decide, by decide⟩
  · exact .inr ⟨3600000000000, by decide, by decide, by decide, by decide, by decide⟩
  · exact .inr ⟨60000000000, by decide, by decide, by decide, by decide, by decide⟩
  · exact .inr ⟨1000000000, by decide, by decide, by decide, by decide, by decide⟩
  · exact .inr ⟨1000000, by decide, by decide, by decide, by decide, by decide⟩
  · exact .inr ⟨1000, by decide, by decide, by decide, by decide, by decide⟩
  · exact .inl ⟨1, by decide, by decide, by decide, by decide⟩
  · exact .inl ⟨1000, by decide, by decide, by decide, by decide⟩
  · exact .inl ⟨1000000, by decide, by decide, by decide, by decide⟩

variable {factor divisor : Nat} {ns ns' : Wide}

namespace Fine

theorem ge (h : Fine s factor) : s.numerator ≥ 1000000000 := by
  have hpos := h.pos
  rw [ge_iff_le, UInt64.le_iff_toNat_le, h.numerator]
  show 1000000000 ≤ factor * 1000000000
  omega

theorem toNat_factor (h : Fine s factor) : (wide (s.numerator / 1000000000)).toNat = factor := by
  rw [toNat_wide, UInt64.toNat_div, h.numerator]
  exact Nat.mul_div_cancel factor (by decide)

theorem toInt_fromNanoseconds (h : Fine s factor) (ns : Wide) :
    (fromNanoseconds s ns).toInt = min (ns.toNat * factor) (2 ^ 63 - 1 : Nat) := by
  have hpos := h.pos
  unfold fromNanoseconds
  rw [if_pos h.ge]
  dsimp only
  split
  · rename_i hover
    rw [gt_iff_lt, BitVec.lt_def, BitVec.toNat_udiv, h.toNat_factor, toNat_maximum,
      Nat.div_lt_iff_lt_mul hpos] at hover
    rw [toInt_timeMax]
    omega
  · rename_i hfits
    rw [gt_iff_lt, BitVec.lt_def, BitVec.toNat_udiv, h.toNat_factor, toNat_maximum,
      Nat.div_lt_iff_lt_mul hpos] at hfits
    have hvalue : (ns * wide (s.numerator / 1000000000)).toNat = ns.toNat * factor := by
      rw [BitVec.toNat_mul, h.toNat_factor]
      exact Nat.mod_eq_of_lt (by omega)
    rw [toInt_toTime (by omega), hvalue]
    omega

theorem limit_le_iff (h : Fine s factor) : nanosecondLimit s ≤ ns ↔ 2 ^ 63 - 1 ≤ ns.toNat * factor := by
  have hpos := h.pos
  have hsmall := h.small
  have hsplit := Nat.div_add_mod (2 ^ 63 - 1) factor
  have hrest := Nat.mod_lt (2 ^ 63 - 1) hpos
  have hquotient := Nat.div_le_self (2 ^ 63 - 1) factor
  unfold nanosecondLimit
  rw [if_pos h.ge]
  dsimp only
  have hdiv : (maximum / wide (s.numerator / 1000000000)).toNat = (2 ^ 63 - 1) / factor := by
    rw [BitVec.toNat_udiv, h.toNat_factor, toNat_maximum]
  have hmod : (maximum % wide (s.numerator / 1000000000)).toNat = (2 ^ 63 - 1) % factor := by
    rw [BitVec.toNat_umod, h.toNat_factor, toNat_maximum]
  split
  · rename_i hrem
    have hne : (2 ^ 63 - 1) % factor ≠ 0 := fun hzero => hrem (BitVec.eq_of_toNat_eq (hmod.trans hzero))
    have hvalue : (maximum / wide (s.numerator / 1000000000) + 1).toNat = (2 ^ 63 - 1) / factor + 1 := by
      rw [BitVec.toNat_add, hdiv]
      exact Nat.mod_eq_of_lt (by
        show (2 ^ 63 - 1) / factor + 1 < 2 ^ 128
        omega)
    rw [BitVec.le_def, hvalue, Nat.add_one_le_iff, Nat.div_lt_iff_lt_mul hpos]
    constructor
    · exact le_of_lt
    · intro hle
      refine lt_of_le_of_ne hle fun heq => hne ?_
      rw [heq]
      exact Nat.mul_mod_left _ _
  · rename_i hrem
    rw [not_not] at hrem
    have hzero : (2 ^ 63 - 1) % factor = 0 := by rw [← hmod, hrem]; rfl
    rw [show maximum / wide (s.numerator / 1000000000) + 0 = maximum / wide (s.numerator / 1000000000) from
      BitVec.add_zero _, BitVec.le_def, hdiv]
    exact Nat.div_le_iff_le_mul_of_dvd (by omega) (Nat.dvd_of_mod_eq_zero hzero)

theorem ticksOf_eq (h : Fine s factor) (n : Nat) : ticksOf s n = n * factor := by
  unfold ticksOf
  rw [h.numerator, h.denominator, Nat.mul_one, ← Nat.mul_assoc]
  exact Nat.mul_div_cancel _ (by decide)

theorem tickLength_eq (h : Fine s factor) : tickLength s = 1 := by
  have hpos := h.pos
  unfold tickLength
  rw [h.numerator, h.denominator]
  refine max_eq_right ?_
  calc 1000000000 * 1 / (factor * 1000000000) ≤ 1000000000 * 1 / 1000000000 :=
        Nat.div_le_div_left (by omega) (by decide)
    _ = 1 := rfl

end Fine

namespace Coarse

theorem lt (h : Coarse s divisor) : ¬ s.numerator ≥ 1000000000 := by
  have hsmall := h.numerator.2
  rw [ge_iff_le, UInt64.le_iff_toNat_le]
  show ¬ 1000000000 ≤ s.numerator.toNat
  omega

theorem toNat_divisor (h : Coarse s divisor) :
    (wide ((1000000000 / s.numerator) * s.denominator)).toNat = divisor := by
  rw [toNat_wide, h.length]

theorem toInt_fromNanoseconds (h : Coarse s divisor) (ns : Wide) :
    (fromNanoseconds s ns).toInt = min (ns.toNat / divisor) (2 ^ 63 - 1 : Nat) := by
  unfold fromNanoseconds
  rw [if_neg h.lt]
  dsimp only
  have hvalue : (ns / wide ((1000000000 / s.numerator) * s.denominator)).toNat = ns.toNat / divisor := by
    rw [BitVec.toNat_udiv, h.toNat_divisor]
  split
  · rename_i hover
    rw [ge_iff_le, BitVec.le_def, hvalue, toNat_maximum] at hover
    rw [toInt_timeMax]
    omega
  · rename_i hfits
    rw [ge_iff_le, BitVec.le_def, hvalue, toNat_maximum] at hfits
    rw [toInt_toTime (by omega), hvalue]
    omega

theorem limit_le_iff (h : Coarse s divisor) : nanosecondLimit s ≤ ns ↔ 2 ^ 63 - 1 ≤ ns.toNat / divisor := by
  have hsmall := h.small
  have hproduct : (maximum * wide ((1000000000 / s.numerator) * s.denominator)).toNat =
      (2 ^ 63 - 1) * divisor := by
    rw [BitVec.toNat_mul, h.toNat_divisor, toNat_maximum]
    exact Nat.mod_eq_of_lt (by omega)
  unfold nanosecondLimit
  rw [if_neg h.lt, BitVec.le_def, hproduct, Nat.le_div_iff_mul_le h.pos]

theorem ticksOf_eq (h : Coarse s divisor) (n : Nat) : ticksOf s n = n / divisor := by
  unfold ticksOf
  rw [h.whole, Nat.mul_comm n]
  exact Nat.mul_div_mul_left n divisor h.numerator.1

theorem tickLength_eq (h : Coarse s divisor) : tickLength s = divisor := by
  have hpos := h.pos
  unfold tickLength
  rw [h.whole, Nat.mul_div_cancel_left _ h.numerator.1]
  exact max_eq_left hpos

end Coarse

theorem toNat_ticks (ha : 0 ≤ a.toInt) : (wide a.toUInt64).toNat = a.toInt.toNat := by
  rw [toNat_wide]
  show a.toBitVec.toNat = a.toBitVec.toInt.toNat
  have hpositive : 0 ≤ a.toBitVec.toInt := ha
  rw [BitVec.toInt_eq_toNat_of_lt]
  · rfl
  · exact BitVec.toInt_pos_iff.mp hpositive

theorem Conversions.of_value {value : Nat → Nat} (hvalue : ∀ ns : Wide,
      (fromNanoseconds s ns).toInt = min (value ns.toNat) (2 ^ 63 - 1 : Nat))
    (hmono : ∀ n n', n ≤ n' → value n ≤ value n')
    (hlimit : ∀ ns : Wide, nanosecondLimit s ≤ ns ↔ 2 ^ 63 - 1 ≤ value ns.toNat)
    (hticks : ∀ n, ticksOf s n = value n)
    (hback : ∀ ns : Wide, (fromNanoseconds s ns).toInt = value ns.toNat → value ns.toNat < 2 ^ 63 →
      (toNanoseconds s (fromNanoseconds s ns)).toNat = ns.toNat - ns.toNat % tickLength s) :
    Conversions s := by
  have hexact : ∀ ns, ns < nanosecondLimit s → value ns.toNat < 2 ^ 63 - 1 := by
    intro ns hlt
    rw [← not_le]
    exact fun hover => absurd ((hlimit ns).mpr hover) (BitVec.not_le.mpr hlt)
  refine ⟨?_, ?_, ?_, ?_⟩
  · intro ns ns' hle
    have hvalues := hmono _ _ (BitVec.le_def.mp hle)
    rw [Int64.le_iff_toInt_le, hvalue, hvalue]
    omega
  · intro ns
    rw [eq_timeMax_iff, hvalue, hlimit]
    omega
  · intro ns hlt
    have hfits := hexact ns hlt
    rw [hvalue, hticks]
    omega
  · intro ns hlt
    have hfits := hexact ns hlt
    refine hback ns ?_ (by omega)
    rw [hvalue]
    omega

theorem Fine.conversions (h : Fine s factor) : Conversions s := by
  refine Conversions.of_value h.toInt_fromNanoseconds ?_ (fun ns => h.limit_le_iff) h.ticksOf_eq ?_
  · exact fun n n' hle => Nat.mul_le_mul_right factor hle
  · intro ns htime hfits
    have hpositive : 0 ≤ (fromNanoseconds s ns).toInt := by
      rw [htime]
      exact Int.natCast_nonneg _
    unfold toNanoseconds
    rw [if_neg (not_neg hpositive), if_pos h.ge, BitVec.toNat_udiv, h.toNat_factor, toNat_ticks hpositive,
      htime, Int.toNat_natCast, Nat.mul_div_cancel _ h.pos, h.tickLength_eq, Nat.mod_one]
    rfl

theorem Coarse.conversions (h : Coarse s divisor) : Conversions s := by
  refine Conversions.of_value h.toInt_fromNanoseconds ?_ (fun ns => h.limit_le_iff) h.ticksOf_eq ?_
  · exact fun n n' hle => Nat.div_le_div_right hle
  · intro ns htime hfits
    have hpositive : 0 ≤ (fromNanoseconds s ns).toInt := by
      rw [htime]
      exact Int.natCast_nonneg _
    have hwhole := Nat.div_add_mod ns.toNat divisor
    have hproduct : ns.toNat / divisor * divisor = ns.toNat - ns.toNat % divisor := by
      rw [Nat.mul_comm]
      omega
    unfold toNanoseconds
    rw [if_neg (not_neg hpositive), if_neg h.lt, BitVec.toNat_mul, h.toNat_divisor, toNat_ticks hpositive,
      htime, Int.toNat_natCast, h.tickLength_eq, hproduct]
    -- whole ticks are no more than the count they come from
    exact Nat.mod_eq_of_lt (lt_of_le_of_lt (Nat.sub_le _ _) ns.isLt)

/-- Bounded time arithmetic never wraps, at any resolution. -/
theorem never_wraps (h : tickScale u = some s) : Conversions s ∧ SaturatingSums ∧ Rounding ∧ Scheduling := by
  refine ⟨?_, saturatingSums, rounding, scheduling⟩
  rcases tickScale_cases h with ⟨factor, hfine⟩ | ⟨divisor, hcoarse⟩
  · exact hfine.conversions
  · exact hcoarse.conversions

theorem never_wraps_us :
    Conversions ⟨1000000, 1⟩ ∧ SaturatingSums ∧ Rounding ∧ Scheduling :=
  never_wraps (show tickScale .US = some ⟨1000000, 1⟩ from rfl)

end ProtoBridge.Core.TimeBounds
