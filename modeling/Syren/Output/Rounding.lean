import Mathlib.Tactic.Linarith
import Mathlib.Tactic.NormNum
import Mathlib.Tactic.Positivity
import Mathlib.Tactic.Ring
import Syren.Output.Float
import Syren.Output.Words

/-! How far the floating-point numbers of the sinks are from the exact ones, and that rounding keeps
their order. -/
namespace Syren.Output
open Text

variable {x y : ℚ}

/-- The nearest integer is at most one half away. -/
theorem abs_nearestEven_sub (x : ℚ) : |(nearestEven x : ℚ) - x| ≤ 1 / 2 := by
  have hlow := Int.floor_le x
  have hhigh := Int.lt_floor_add_one x
  unfold nearestEven
  dsimp only
  rw [abs_le]
  split_ifs with hdown hup
  · constructor <;> linarith
  · push_cast
    constructor <;> linarith
  · obtain heven | hodd := Int.emod_two_eq_zero_or_one ⌊x⌋
    · rw [heven]
      push_cast
      constructor <;> linarith
    · rw [hodd]
      push_cast
      constructor <;> linarith

theorem nearestEven_intCast (k : ℤ) : nearestEven k = k := by
  simp [nearestEven]

theorem nearestEven_mono (h : x ≤ y) : nearestEven x ≤ nearestEven y := by
  have hx := abs_le.mp (abs_nearestEven_sub x)
  have hy := abs_le.mp (abs_nearestEven_sub y)
  have hfloor : ⌊x⌋ ≤ ⌊y⌋ := Int.floor_mono h
  obtain hsame | hless := hfloor.eq_or_lt
  · -- in one unit interval the part above the floor decides
    unfold nearestEven
    dsimp only
    rw [hsame]
    have hfract : x - ⌊y⌋ ≤ y - ⌊y⌋ := by linarith
    have hmod := Int.emod_two_eq_zero_or_one ⌊y⌋
    split_ifs <;> first | omega | linarith
  · have hxle : nearestEven x ≤ ⌊x⌋ + 1 := by
      have hx' := Int.lt_floor_add_one x
      have hlt : (nearestEven x : ℚ) < ⌊x⌋ + 1 + 1 := by linarith
      have hint : nearestEven x < ⌊x⌋ + 1 + 1 := by exact_mod_cast hlt
      omega
    have hyge : ⌊y⌋ ≤ nearestEven y := by
      have hy' := Int.floor_le y
      have hlt : ((⌊y⌋ - 1 : ℤ) : ℚ) < nearestEven y := by
        push_cast
        linarith
      have hint : ⌊y⌋ - 1 < nearestEven y := by exact_mod_cast hlt
      omega
    omega

/-- The distance between two neighbouring `f64` near a number. -/
def ulp (x : ℚ) : ℚ := (2 : ℚ) ^ (Int.log 2 x - 52)

theorem ulp_pos (x : ℚ) : 0 < ulp x := zpow_pos (by norm_num) _

theorem toF64_eq (x : ℚ) : toF64 x = nearestEven (x / ulp x) * ulp x := rfl

theorem toF64_zero : toF64 0 = 0 := by
  have hzero : nearestEven ((0 : ℤ) : ℚ) = 0 := nearestEven_intCast 0
  rw [toF64_eq, zero_div, ← Int.cast_zero, hzero, Int.cast_zero, zero_mul]

/-- The power of two that a number is at least, in units of its last place. -/
theorem ulp_scale (x : ℚ) : (2 : ℚ) ^ Int.log 2 x = 2 ^ 52 * ulp x := by
  rw [ulp, zpow_sub₀ (by norm_num)]
  norm_num
  ring

theorem ulp_le (hx : 0 < x) : 2 ^ 52 * ulp x ≤ x := by
  rw [← ulp_scale]
  exact_mod_cast Int.zpow_log_le_self (b := 2) (by norm_num) hx

theorem lt_ulp (x : ℚ) : x < 2 ^ 53 * ulp x := by
  have hlog := Int.lt_zpow_succ_log_self (b := 2) (by norm_num) x
  have hstep : (2 : ℚ) ^ (Int.log 2 x + 1) = 2 ^ 53 * ulp x := by
    rw [zpow_add_one₀ (by norm_num), ulp_scale]
    ring
  calc x < (2 : ℚ) ^ (Int.log 2 x + 1) := by exact_mod_cast hlog
    _ = 2 ^ 53 * ulp x := hstep

/-- An `f64` is off by at most half a unit in the last place. -/
theorem abs_toF64_sub_ulp (x : ℚ) : |toF64 x - x| ≤ ulp x / 2 := by
  have hulp := ulp_pos x
  have hround := abs_nearestEven_sub (x / ulp x)
  have hsplit : toF64 x - x = (nearestEven (x / ulp x) - x / ulp x) * ulp x := by
    rw [toF64_eq, sub_mul, div_mul_cancel₀ _ hulp.ne']
  calc |toF64 x - x| = |(nearestEven (x / ulp x) : ℚ) - x / ulp x| * ulp x := by
        rw [hsplit, abs_mul, abs_of_pos hulp]
    _ ≤ 1 / 2 * ulp x := mul_le_mul_of_nonneg_right hround hulp.le
    _ = ulp x / 2 := by ring

/-- The relative error of an `f64`. -/
theorem abs_toF64_sub (hx : 0 ≤ x) : |toF64 x - x| ≤ x / 2 ^ 53 := by
  obtain rfl | hpos := hx.eq_or_lt
  · simp [toF64_zero]
  · have hulp := ulp_le hpos
    have hhalf := abs_toF64_sub_ulp x
    linarith

theorem toF64_le_top (x : ℚ) : toF64 x ≤ 2 ^ 53 * ulp x := by
  have hulp := ulp_pos x
  have hlt : x / ulp x < ((2 ^ 53 : ℤ) : ℚ) := by
    rw [div_lt_iff₀ hulp]
    exact_mod_cast lt_ulp x
  have hround := nearestEven_mono hlt.le
  rw [nearestEven_intCast] at hround
  rw [toF64_eq]
  apply mul_le_mul_of_nonneg_right _ hulp.le
  exact_mod_cast hround

theorem bottom_le_toF64 (hx : 0 < x) : 2 ^ 52 * ulp x ≤ toF64 x := by
  have hulp := ulp_pos x
  have hle : ((2 ^ 52 : ℤ) : ℚ) ≤ x / ulp x := by
    rw [le_div_iff₀ hulp]
    exact_mod_cast ulp_le hx
  have hround := nearestEven_mono hle
  rw [nearestEven_intCast] at hround
  rw [toF64_eq]
  apply mul_le_mul_of_nonneg_right _ hulp.le
  exact_mod_cast hround

theorem toF64_nonneg (hx : 0 ≤ x) : 0 ≤ toF64 x := by
  obtain rfl | hpos := hx.eq_or_lt
  · exact toF64_zero.ge
  · have hbottom := bottom_le_toF64 hpos
    have hulp := ulp_pos x
    linarith

/-- Rounding to an `f64` keeps the order, also where the last place changes. -/
theorem toF64_mono (hx : 0 ≤ x) (h : x ≤ y) : toF64 x ≤ toF64 y := by
  obtain rfl | hpos := hx.eq_or_lt
  · rw [toF64_zero]
    exact toF64_nonneg h
  · have hpos' := hpos.trans_le h
    obtain hsame | hless := (Int.log_mono_right (b := 2) hpos h).eq_or_lt
    · have hulp : ulp x = ulp y := by rw [ulp, ulp, hsame]
      have hround := nearestEven_mono (div_le_div_of_nonneg_right h (ulp_pos y).le)
      rw [toF64_eq, toF64_eq, hulp]
      apply mul_le_mul_of_nonneg_right _ (ulp_pos y).le
      exact_mod_cast hround
    · have hdouble : 2 ^ 53 * ulp x ≤ 2 ^ 52 * ulp y := by
        have hpow : (2 : ℚ) ^ (Int.log 2 x + 1) ≤ 2 ^ Int.log 2 y :=
          zpow_le_zpow_right₀ (by norm_num) hless
        rw [zpow_add_one₀ (by norm_num), ulp_scale, ulp_scale] at hpow
        linarith
      exact (toF64_le_top x).trans (hdouble.trans (bottom_le_toF64 hpos'))

/-- Numbers below `2 ^ 53` are exact. -/
theorem toF64_natCast {n : ℕ} (hn : n < 2 ^ 53) : toF64 n = n := by
  obtain rfl | hpos := Nat.eq_zero_or_pos n
  · exact_mod_cast toF64_zero
  · have hlog : Int.log 2 (n : ℚ) = Nat.log 2 n := Int.log_natCast 2 n
    have hsmall : Nat.log 2 n ≤ 52 := Nat.le_of_lt_succ (Nat.log_lt_of_lt_pow hpos.ne' hn)
    -- in units of its last place the number is an integer
    have hunits : (n : ℚ) / ulp n = ((n * 2 ^ (52 - Nat.log 2 n) : ℤ) : ℚ) := by
      have hexp : Int.log 2 (n : ℚ) - 52 = -((52 - Nat.log 2 n : ℕ) : ℤ) := by omega
      rw [ulp, hexp, zpow_neg, zpow_natCast, div_inv_eq_mul]
      push_cast
      rfl
    rw [toF64_eq, hunits, nearestEven_intCast, ← hunits, div_mul_cancel₀ _ (ulp_pos _).ne']

section Fixed

/-- The number that a text with so many digits after the point stands for, in units of the last. -/
def readFixed (digits : ℕ) (text : List Char) : Option ℕ := do
  let (whole, fraction) ← splitOnce '.' text
  if fraction.length = digits ∧ (whole ++ fraction).all Char.isDigit then
    return Nat.ofDigitChars 10 (whole ++ fraction) 0
  else none

/-- The number as it is printed: the nearest one with so many digits after the point, in units of
the last. -/
def shown (digits : ℕ) (x : ℚ) : ℕ := (nearestEven (x * 10 ^ digits)).toNat

/-- A number is read back as it is printed. -/
theorem readFixed_fixed {digits : ℕ} (hdigits : 0 < digits) (x : ℚ) :
    readFixed digits (fixed digits x) = some (shown digits x) := by
  let n := shown digits x
  let whole := dec (n / Nat.pow 10 digits)
  let rest := dec (n % Nat.pow 10 digits)
  let zeros := List.replicate (digits - rest.length) '0'
  have hpow : 0 < Nat.pow 10 digits := Nat.pow_pos (by decide)
  have hlen : rest.length ≤ digits :=
    (Nat.length_toDigits_le_iff (by decide) hdigits).mpr (Nat.mod_lt n hpow)
  have hpoint : '.' ∉ whole := fun h => absurd (isDigit_dec _ _ h) (by decide)
  have hzeros : ∀ c ∈ zeros, c.isDigit := by
    intro c hc
    rw [List.eq_of_mem_replicate hc]
    decide
  have hall : (whole ++ (zeros ++ rest)).all Char.isDigit := by
    simp only [List.all_eq_true, List.mem_append]
    rintro c (hc | hc | hc)
    · exact isDigit_dec _ c hc
    · exact hzeros c hc
    · exact isDigit_dec _ c hc
  have htotal : (zeros ++ rest).length = digits := by
    rw [List.length_append, List.length_replicate]
    omega
  have hexp : 10 ^ rest.length * 10 ^ (digits - rest.length) = Nat.pow 10 digits := by
    rw [← Nat.pow_add]
    exact congrArg (Nat.pow 10) (by omega)
  have hvalue : Nat.ofDigitChars 10 (whole ++ (zeros ++ rest)) 0 = n := by
    rw [Nat.ofDigitChars_append, Nat.ofDigitChars_append, ofDigitChars_dec,
      Nat.ofDigitChars_replicate_zero, Nat.ofDigitChars_eq_ofDigitChars_zero, ofDigitChars_dec,
      ← Nat.mul_assoc, hexp]
    exact Nat.div_add_mod n _
  have htext : fixed digits x = whole ++ '.' :: (zeros ++ rest) := by
    show whole ++ '.' :: zeros ++ rest = _
    rw [List.append_assoc, List.cons_append]
  rw [readFixed, htext, splitOnce_append hpoint]
  show (if _ then _ else _) = _
  rw [if_pos ⟨htotal, hall⟩, hvalue]
  rfl

theorem shown_mono {digits : ℕ} (h : x ≤ y) : shown digits x ≤ shown digits y :=
  Int.toNat_le_toNat (nearestEven_mono (mul_le_mul_of_nonneg_right h (by positivity)))

theorem abs_shown_sub (digits : ℕ) (hx : 0 ≤ x) :
    |(shown digits x : ℚ) - x * 10 ^ digits| ≤ 1 / 2 := by
  have hscaled : (0 : ℚ) ≤ x * 10 ^ digits := by positivity
  have hround := nearestEven_mono hscaled
  have hzero : nearestEven 0 = 0 := by exact_mod_cast nearestEven_intCast 0
  have hnat : ((shown digits x : ℤ) : ℚ) = nearestEven (x * 10 ^ digits) := by
    rw [shown, Int.toNat_of_nonneg (hzero ▸ hround)]
  have hcast : (shown digits x : ℚ) = nearestEven (x * 10 ^ digits) := by
    exact_mod_cast hnat
  rw [hcast]
  exact abs_nearestEven_sub _

end Fixed

section Columns

/-- The microseconds that are printed for some nanoseconds. -/
def micros (ns : ℕ) : ℕ := shown 6 (toF64 (toF64 ns / 10 ^ 9))

/-- The hundredths of a percent that are printed for a part of a total. -/
def hundredths (ns grand : ℕ) : ℕ := shown 2 (toF64 (toF64 (toF64 ns / toF64 grand) * 100))

theorem readFixed_formatSecs (ns : ℕ) : readFixed 6 (formatSecs ns) = some (micros ns) :=
  readFixed_fixed (by decide) _

theorem readFixed_formatPct (ns grand : ℕ) :
    readFixed 2 (formatPct ns grand) = some (hundredths ns grand) :=
  readFixed_fixed (by decide) _

theorem toF64_cast_nonneg (n : ℕ) : 0 ≤ toF64 n := toF64_nonneg (Nat.cast_nonneg n)

theorem toF64_cast_mono {m n : ℕ} (h : m ≤ n) : toF64 m ≤ toF64 n :=
  toF64_mono (Nat.cast_nonneg m) (Nat.cast_le.mpr h)

/-- More time is never printed as less. -/
theorem micros_mono {m n : ℕ} (h : m ≤ n) : micros m ≤ micros n := by
  apply shown_mono
  apply toF64_mono (div_nonneg (toF64_cast_nonneg m) (by norm_num))
  exact div_le_div_of_nonneg_right (toF64_cast_mono h) (by norm_num)

/-- What is printed is half a microsecond off at most, but for the precision of an `f64`. -/
theorem micros_close (ns : ℕ) : |(1000 * micros ns : ℚ) - ns| ≤ 500 + ns / 2 ^ 51 := by
  have hns : (0 : ℚ) ≤ ns := Nat.cast_nonneg ns
  have ha := toF64_cast_nonneg ns
  have hsecs : (0 : ℚ) ≤ toF64 ns / 10 ^ 9 := div_nonneg ha (by norm_num)
  have hfirst := abs_le.mp (abs_toF64_sub hns)
  have hsecond := abs_le.mp (abs_toF64_sub hsecs)
  have hlast := abs_le.mp (abs_shown_sub 6 (toF64_nonneg hsecs))
  have hmicros : (micros ns : ℚ) = shown 6 (toF64 (toF64 ns / 10 ^ 9)) := rfl
  rw [abs_le, hmicros]
  constructor <;> linarith

theorem hundredths_mono {m n grand : ℕ} (h : m ≤ n) : hundredths m grand ≤ hundredths n grand := by
  have hgrand := toF64_cast_nonneg grand
  have hratio : (0 : ℚ) ≤ toF64 m / toF64 grand := div_nonneg (toF64_cast_nonneg m) hgrand
  apply shown_mono
  apply toF64_mono (mul_nonneg (toF64_nonneg hratio) (by norm_num))
  apply mul_le_mul_of_nonneg_right _ (by norm_num)
  exact toF64_mono hratio (div_le_div_of_nonneg_right (toF64_cast_mono h) hgrand)

/-- No part is printed as more than the whole. -/
theorem hundredths_le {ns grand : ℕ} (h : ns ≤ grand) : hundredths ns grand ≤ 10000 := by
  have hgrand := toF64_cast_nonneg grand
  have hratio : toF64 ns / toF64 grand ≤ 1 := div_le_one_of_le₀ (toF64_cast_mono h) hgrand
  have hnonneg : (0 : ℚ) ≤ toF64 ns / toF64 grand := div_nonneg (toF64_cast_nonneg ns) hgrand
  have hone : toF64 ((1 : ℕ) : ℚ) = (1 : ℕ) := toF64_natCast (by norm_num)
  have hhundred : toF64 ((100 : ℕ) : ℚ) = (100 : ℕ) := toF64_natCast (by norm_num)
  have hpart : toF64 (toF64 ns / toF64 grand) * 100 ≤ ((100 : ℕ) : ℚ) := by
    have hle := toF64_mono hnonneg hratio
    rw [← Nat.cast_one, hone] at hle
    push_cast at hle ⊢
    linarith
  have hpercent : toF64 (toF64 (toF64 ns / toF64 grand) * 100) ≤ 100 := by
    have hle := toF64_mono (mul_nonneg (toF64_nonneg hnonneg) (by norm_num)) hpart
    rw [hhundred] at hle
    exact_mod_cast hle
  have hshown : shown 2 (100 : ℚ) = 10000 := by
    have hround := nearestEven_intCast 10000
    have hscaled : (100 : ℚ) * 10 ^ 2 = ((10000 : ℤ) : ℚ) := by norm_num
    rw [shown, hscaled, hround]
    rfl
  exact hshown ▸ shown_mono hpercent

/-- The ratio of two rounded numbers is near that of the numbers. -/
theorem abs_ratio_sub {ns grand : ℕ} (h : ns ≤ grand) (hpos : 0 < grand) :
    |toF64 ns / toF64 grand - (ns : ℚ) / grand| ≤ 4 / 2 ^ 53 := by
  have hns : (0 : ℚ) ≤ ns := Nat.cast_nonneg ns
  have hgrand : (0 : ℚ) < grand := Nat.cast_pos.mpr hpos
  have hle : (ns : ℚ) ≤ grand := Nat.cast_le.mpr h
  have hfirst := abs_toF64_sub hns
  have hsecond := abs_toF64_sub hgrand.le
  have hlow : (grand : ℚ) / 2 ≤ toF64 grand := by
    have hdown := (abs_le.mp hsecond).1
    linarith
  have hb : 0 < toF64 grand := by linarith
  have hcross : toF64 ns / toF64 grand - (ns : ℚ) / grand =
      ((toF64 ns - ns) * grand - ns * (toF64 grand - grand)) / (toF64 grand * grand) := by
    rw [div_sub_div _ _ hb.ne' hgrand.ne']
    congr 1
    ring
  have htop : |(toF64 ns - ns) * grand - ns * (toF64 grand - grand)| ≤
      2 * (grand * grand) / 2 ^ 53 := by
    have hleft : |(toF64 ns - ns) * grand| ≤ grand * grand / 2 ^ 53 := by
      rw [abs_mul, abs_of_pos hgrand]
      have hbound : |toF64 ns - ns| ≤ grand / 2 ^ 53 := by linarith
      have hmul := mul_le_mul_of_nonneg_right hbound hgrand.le
      linarith
    have hright : |(ns : ℚ) * (toF64 grand - grand)| ≤ grand * grand / 2 ^ 53 := by
      rw [abs_mul, abs_of_nonneg hns]
      have hmul := mul_le_mul hle hsecond (abs_nonneg _) hgrand.le
      linarith
    have hsum := abs_sub ((toF64 ns - ns) * grand) (ns * (toF64 grand - grand))
    linarith
  rw [hcross, abs_div, abs_of_pos (mul_pos hb hgrand), div_le_iff₀ (mul_pos hb hgrand)]
  have hsquare := mul_le_mul_of_nonneg_right hlow hgrand.le
  linarith

/-- A percentage is half a hundredth off at most, but for the precision of an `f64`. -/
theorem hundredths_close {ns grand : ℕ} (h : ns ≤ grand) (hpos : 0 < grand) :
    |(hundredths ns grand : ℚ) - 10000 * (ns / grand)| ≤ 1 / 2 + 1 / 2 ^ 36 := by
  have hgrand := toF64_cast_nonneg grand
  have hratio : (0 : ℚ) ≤ toF64 ns / toF64 grand := div_nonneg (toF64_cast_nonneg ns) hgrand
  have hle : toF64 ns / toF64 grand ≤ 1 := div_le_one_of_le₀ (toF64_cast_mono h) hgrand
  have hpercent : (0 : ℚ) ≤ toF64 (toF64 ns / toF64 grand) * 100 :=
    mul_nonneg (toF64_nonneg hratio) (by norm_num)
  have hfirst := abs_le.mp (abs_ratio_sub h hpos)
  have hsecond := abs_le.mp (abs_toF64_sub hratio)
  have hthird := abs_le.mp (abs_toF64_sub hpercent)
  have hlast := abs_le.mp (abs_shown_sub 2 (toF64_nonneg hpercent))
  have hshown : (hundredths ns grand : ℚ) =
      shown 2 (toF64 (toF64 (toF64 ns / toF64 grand) * 100)) := rfl
  rw [abs_le, hshown]
  constructor <;> linarith

end Columns

/-- Whatever two durations are, their seconds are read as numbers of microseconds that are half a
microsecond off at most, but for the precision of an `f64`, and in the order of the durations. -/
theorem TextSink.seconds_readBack (m n : UInt64) : ∃ a b : ℕ, readFixed 6 (fmtSecs m) = some a ∧
    readFixed 6 (fmtSecs n) = some b ∧ |(1000 * a : ℚ) - m.toNat| ≤ 500 + m.toNat / 2 ^ 51 ∧
    |(1000 * b : ℚ) - n.toNat| ≤ 500 + n.toNat / 2 ^ 51 ∧ (m ≤ n → a ≤ b) :=
  ⟨micros m.toNat, micros n.toNat, readFixed_formatSecs _, readFixed_formatSecs _,
    micros_close _, micros_close _, micros_mono⟩

end Syren.Output
