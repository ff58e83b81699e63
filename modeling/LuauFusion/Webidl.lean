import LuauFusion.Lib.Rounding
import Mathlib.Data.Int.ModEq
/-!
# Integers from numbers

`webidl/00_webidl.js`: `createIntegerConversion`, which makes the converters of
`byte`, `octet`, `short`, `long` and their unsigned kin. A finite number is a
rational: every operation here is exact on doubles, up to 53 bits. What a converter makes
of a number without options may be `-0` (`convert_wraps`); with `clamp` it is the nearest
integer (`convert_clamps`).
-/
open LuauFusion.Lib

namespace LuauFusion.Webidl

/-- `finite 0` is `+0`. -/
inductive JsNumber where
  | nan
  | infinity
  | negInfinity
  | negZero
  | finite (q : ℚ)
  deriving DecidableEq

namespace JsNumber

def isNaN : JsNumber → Bool
  | nan => true
  | _ => false

def isFinite : JsNumber → Bool
  | negZero | finite _ => true
  | nan | infinity | negInfinity => false

/-- What a finite number is worth. -/
def value : JsNumber → ℚ
  | finite q => q
  | _ => 0

/-- `x < y` -/
def lt : JsNumber → JsNumber → Bool
  | nan, _ | _, nan | infinity, _ | _, negInfinity => false
  | negInfinity, _ | _, infinity => true
  | x, y => x.value < y.value

/-- A result that keeps the sign of `q` when it is zero. -/
def signed (q r : ℚ) : JsNumber := if r = 0 ∧ q < 0 then negZero else finite r

def mathTrunc : JsNumber → JsNumber
  | finite q => signed q (truncate q)
  | x => x

def mathFloor : JsNumber → JsNumber
  | finite q => finite ⌊q⌋
  | x => x

def mathRound : JsNumber → JsNumber
  | finite q => signed q (round q)
  | x => x

/-- `x % y`, of finite numbers. -/
def rem : JsNumber → JsNumber → JsNumber
  | negZero, _ => negZero
  | x, y => signed x.value (x.value - y.value * truncate (x.value / y.value))

/-- `x & 1` -/
def lowBit (x : JsNumber) : ℤ := truncate x.value % 2

/-- Neither is `-0`. -/
def mathMax (x y : JsNumber) : JsNumber := if x.lt y then y else x

def mathMin (x y : JsNumber) : JsNumber := if y.lt x then y else x

end JsNumber

open JsNumber

def censorNegativeZero : JsNumber → JsNumber
  | negZero => finite 0
  | x => x

def evenRound (x : JsNumber) : JsNumber :=
  if lt (finite 0) x && rem x (finite 1) == finite (1 / 2) && x.lowBit == 0 ||
      lt x (finite 0) && rem x (finite 1) == finite (-1 / 2) && x.lowBit == 1 then
    censorNegativeZero x.mathFloor
  else censorNegativeZero x.mathRound

def integerPart (n : JsNumber) : JsNumber := censorNegativeZero n.mathTrunc

/-- `x < 0 ? -1 : 1`, which is `1` for `-0`. -/
def sign (x : JsNumber) : ℤ := if x.lt (finite 0) then -1 else 1

def modulo (x y : JsNumber) : JsNumber :=
  let signMightNotMatch := x.rem y
  if sign y ≠ sign signMightNotMatch then finite (signMightNotMatch.value + y.value) else signMightNotMatch

/-- The text of `makeException`. -/
def makeException (message : String) (errPrefix context : Option String) : String :=
  let text : Option String → String := fun t => t.getD ""
  (if text errPrefix = "" then "" else text errPrefix ++ ": ") ++
    (if text context = "" then "Value" else text context) ++ " " ++ message

structure ConverterOpts where
  enforceRange : Bool
  clamp : Bool

def lowerBound (bitLength : Nat) (unsigned : Bool) : ℤ :=
  if unsigned then 0 else if bitLength = 64 then -(2 ^ 53 - 1) else -2 ^ (bitLength - 1)

def upperBound (bitLength : Nat) (unsigned : Bool) : ℤ :=
  if bitLength = 64 then 2 ^ 53 - 1 else if unsigned then 2 ^ bitLength - 1 else 2 ^ (bitLength - 1) - 1

/-- What the converter makes of a number, or the text of its `TypeError`. -/
def createIntegerConversion (bitLength : Nat) (unsigned : Bool) (x : JsNumber) (errPrefix context : Option String)
    (opts : ConverterOpts) : Except String JsNumber :=
  let lower := lowerBound bitLength unsigned
  let upper := upperBound bitLength unsigned
  let x := censorNegativeZero x
  if opts.enforceRange then
    if !x.isFinite then .error (makeException "is not a finite number" errPrefix context)
    else
      let x := integerPart x
      if x.lt (finite lower) || lt (finite upper) x then
        .error (makeException ("is outside the accepted range of " ++ toString lower ++ " to " ++ toString upper ++ ", inclusive")
          errPrefix context)
      else .ok x
  else if !x.isNaN && opts.clamp then .ok (evenRound (mathMin (mathMax x (finite lower)) (finite upper)))
  else if !x.isFinite || x == finite 0 then .ok (finite 0)
  else
    let x := integerPart x
    if !x.lt (finite lower) && !lt (finite upper) x then .ok x
    else
      let x := modulo x (finite (2 ^ bitLength))
      if !unsigned && !x.lt (finite (2 ^ (bitLength - 1))) then .ok (finite (x.value - 2 ^ bitLength)) else .ok x

def byte := createIntegerConversion 8 false
def octet := createIntegerConversion 8 true
def short := createIntegerConversion 16 false
def unsignedShort := createIntegerConversion 16 true
def long := createIntegerConversion 32 false
def unsignedLong := createIntegerConversion 32 true

/-! ## What the operations come to -/

@[simp] theorem value_signed (q r : ℚ) : (signed q r).value = r := by
  unfold signed
  split
  · next h => exact h.1.symm
  · rfl

@[simp] theorem censor_signed (q r : ℚ) : censorNegativeZero (signed q r) = finite r := by
  unfold signed
  split
  · next h => rw [h.1]; rfl
  · rfl

@[simp] theorem lt_finite (a b : ℚ) : lt (finite a) (finite b) = decide (a < b) := rfl

theorem lt_signed (q r c : ℚ) : lt (signed q r) (finite c) = decide (r < c) := by
  unfold signed
  split
  · next h => rw [h.1]; rfl
  · rfl

theorem signed_self (k : ℤ) : signed k k = finite k := by
  refine if_neg ?_
  rintro ⟨h, h'⟩
  exact h'.ne h

theorem signed_ne_zero {q r : ℚ} (hr : r ≠ 0) : signed q r = finite r := if_neg fun h => hr h.1

theorem integerPart_finite (q : ℚ) : integerPart (finite q) = finite (truncate q) := censor_signed _ _

theorem rem_finite (a b : ℚ) : rem (finite a) (finite b) = signed a (a - b * truncate (a / b)) := rfl

theorem truncate_div (t : ℤ) {m : ℤ} (hm : 0 < m) : truncate ((t : ℚ) / m) = t.tdiv m := by
  obtain ⟨d, rfl⟩ := Int.eq_ofNat_of_zero_le hm.le
  have hd : (0 : ℚ) < (d : ℤ) := by exact_mod_cast hm
  unfold truncate
  rcases le_or_gt 0 t with ht | ht
  · have hnot : ¬ (t : ℚ) / (d : ℤ) < 0 := by
      rw [not_lt]
      exact div_nonneg (by exact_mod_cast ht) hd.le
    rw [if_neg hnot, Int.cast_natCast, Rat.floor_intCast_div_natCast, Int.tdiv_eq_ediv_of_nonneg ht]
  · have hneg : (t : ℚ) / (d : ℤ) < 0 := div_neg_of_neg_of_pos (by exact_mod_cast ht) hd
    rw [if_pos hneg, Int.cast_natCast, Rat.ceil_intCast_div_natCast, ← Int.tdiv_eq_ediv_of_nonneg (by omega), Int.neg_tdiv,
      neg_neg]

theorem rem_int (t : ℤ) {m : ℤ} (hm : 0 < m) : rem (finite t) (finite m) = signed t (t.tmod m : ℤ) := by
  rw [rem_finite, truncate_div t hm, Int.tmod_def]
  push_cast
  rfl

theorem sign_signed (q r : ℚ) : sign (signed q r) = if r < 0 then -1 else 1 := by
  unfold signed
  split
  · next h =>
    rw [h.1, if_neg (lt_irrefl 0)]
    rfl
  · simp only [sign, lt_finite, decide_eq_true_eq]

/-- The sign is corrected, but not that of a zero. -/
theorem modulo_int (t : ℤ) {m : ℤ} (hm : 0 < m) : modulo (finite t) (finite m) = signed t (t % m : ℤ) := by
  have hsign : sign (finite m) = 1 := by
    rw [sign, lt_finite, decide_eq_false (by exact_mod_cast hm.le.not_gt)]
    rfl
  have hnonneg := Int.emod_nonneg t hm.ne'
  have hlt := Int.emod_lt_of_pos t hm
  have htmod := Int.tmod_eq_emod (a := t) (b := m)
  have habs : (m.natAbs : ℤ) = m := Int.natAbs_of_nonneg hm.le
  have hvalue : (finite (m : ℚ)).value = m := rfl
  rw [modulo, rem_int t hm, hsign, sign_signed, value_signed, hvalue]
  by_cases h : 0 ≤ t ∨ m ∣ t
  · have hr : t.tmod m = t % m := by
      rw [htmod, if_pos h]
      exact sub_zero _
    have hnot : ¬ ((t % m : ℤ) : ℚ) < 0 := by exact_mod_cast hnonneg.not_gt
    rw [hr, if_neg hnot, if_neg (by simp)]
  · have hr : t.tmod m = t % m - m := by rw [htmod, if_neg h, habs]
    have hneg : ((t % m - m : ℤ) : ℚ) < 0 := by exact_mod_cast (by omega : t % m - m < 0)
    have hpos : ((t % m : ℤ) : ℚ) ≠ 0 := by exact_mod_cast fun h0 => h (.inr (Int.dvd_of_emod_eq_zero h0))
    rw [hr, if_pos hneg, if_pos (by simp), signed, if_neg fun h => hpos h.1]
    push_cast
    rw [sub_add_cancel]

theorem signed_eq_finite {q r c : ℚ} (hc : c ≠ 0) : signed q r = finite c ↔ r = c := by
  unfold signed
  split
  · next h => exact iff_of_false (by rintro ⟨⟩) fun hr => hc (hr.symm.trans h.1)
  · exact JsNumber.finite.injEq _ _ ▸ Iff.rfl

/-- Below zero, one half short of the next integer is one half past the last. -/
theorem half_below {q : ℚ} : q - ⌈q⌉ = -1 / 2 ∧ ⌈q⌉ % 2 = 1 ↔ q = ⌊q⌋ + 1 / 2 ∧ Even ⌊q⌋ := by
  constructor
  · rintro ⟨hq, hodd⟩
    have hfloor : ⌊q⌋ = ⌈q⌉ - 1 := by
      rw [Int.floor_eq_iff]
      push_cast
      constructor <;> linarith
    rw [hfloor]
    refine ⟨by push_cast; linarith, ?_⟩
    rw [Int.even_iff]
    omega
  · rintro ⟨hq, heven⟩
    have hceil : ⌈q⌉ = ⌊q⌋ + 1 := by
      rw [Int.ceil_eq_iff]
      push_cast
      constructor <;> linarith
    rw [hceil]
    refine ⟨by push_cast; linarith, ?_⟩
    rw [Int.even_iff] at heven
    omega

theorem evenRound_finite (q : ℚ) : evenRound (finite q) = finite (roundEven q) := by
  have hrem : ∀ c : ℚ, c ≠ 0 → ((rem (finite q) (finite 1) == finite c) = true ↔ q - truncate q = c) := by
    intro c hc
    rw [beq_iff_eq, rem_finite, signed_eq_finite hc, one_mul, div_one]
  have hbit : ∀ b : ℤ, (((finite q).lowBit == b) = true ↔ truncate q % 2 = b) := fun b => beq_iff_eq
  have hhalf : (lt (finite 0) (finite q) && rem (finite q) (finite 1) == finite (1 / 2) && (finite q).lowBit == 0 ||
      lt (finite q) (finite 0) && rem (finite q) (finite 1) == finite (-1 / 2) && (finite q).lowBit == 1) = true ↔
      q = ⌊q⌋ + 1 / 2 ∧ Even ⌊q⌋ := by
    simp only [Bool.or_eq_true, Bool.and_eq_true, lt_finite, decide_eq_true_eq, hbit,
      hrem (1 / 2) (by norm_num), hrem (-1 / 2) (by norm_num)]
    rcases lt_trichotomy q 0 with hneg | rfl | hpos
    · have htrunc : truncate q = ⌈q⌉ := if_pos hneg
      rw [htrunc, ← half_below]
      exact ⟨fun h => h.elim (fun h => absurd h.1.1 hneg.not_gt) fun h => ⟨h.1.2, h.2⟩, fun h => .inr ⟨⟨hneg, h.1⟩, h.2⟩⟩
    · simp
    · have htrunc : truncate q = ⌊q⌋ := if_neg hpos.not_gt
      rw [htrunc, Int.even_iff]
      constructor
      · rintro (⟨⟨-, h⟩, heven⟩ | ⟨⟨h, -⟩, -⟩)
        · exact ⟨by linarith, heven⟩
        · exact absurd h hpos.not_gt
      · rintro ⟨h, heven⟩
        exact .inl ⟨⟨hpos, by linarith⟩, heven⟩
  unfold evenRound roundEven
  by_cases h : q = ⌊q⌋ + 1 / 2 ∧ Even ⌊q⌋
  · rw [if_pos (hhalf.2 h), if_pos h]
    rfl
  · rw [if_neg fun hc => h (hhalf.1 hc), if_neg h]
    exact censor_signed _ _

/-! ## What a converter makes of a number -/

section Converter
variable {n : Nat} (hn : 0 < n) (hn' : n ≤ 53) (unsigned : Bool)

include hn in
theorem two_pow_half : (2 : ℤ) ^ n = 2 ^ (n - 1) + 2 ^ (n - 1) := by
  rw [← mul_two, ← pow_succ, Nat.sub_add_cancel hn]

include hn' in
theorem lowerBound_eq : lowerBound n unsigned = if unsigned then 0 else -2 ^ (n - 1) := by
  rw [lowerBound, if_neg (by omega : n ≠ 64)]

include hn hn' in
/-- There are `2 ^ n` integers between the bounds. -/
theorem upperBound_eq : upperBound n unsigned = lowerBound n unsigned + 2 ^ n - 1 := by
  have hhalf := two_pow_half hn
  rw [lowerBound_eq hn', upperBound, if_neg (by omega : n ≠ 64)]
  cases unsigned
  · simp only [Bool.false_eq_true, if_false]
    omega
  · simp only [if_true]
    omega

include hn hn' in
theorem zero_mem_bounds : lowerBound n unsigned ≤ 0 ∧ 0 ≤ upperBound n unsigned := by
  have hpos : (0 : ℤ) < 2 ^ (n - 1) := by positivity
  have hhalf := two_pow_half hn
  rw [upperBound_eq hn hn', lowerBound_eq hn']
  cases unsigned
  · simp only [Bool.false_eq_true, if_false]
    omega
  · simp only [if_true]
    omega

include hn hn' in
/-- An integer out of bounds is brought into them by its remainder, less `2 ^ n` in
the upper half of a signed type. -/
theorem wrap_eq (t : ℤ) :
    ∃ k : ℤ, (if !unsigned && !lt (modulo (finite t) (finite (2 ^ n))) (finite (2 ^ (n - 1)))
        then finite ((modulo (finite t) (finite (2 ^ n))).value - 2 ^ n) else modulo (finite t) (finite (2 ^ n))) =
        signed t k ∧
      lowerBound n unsigned ≤ k ∧ k ≤ upperBound n unsigned ∧ k ≡ t [ZMOD 2 ^ n] := by
  have hpow : (0 : ℤ) < 2 ^ n := by positivity
  have hhalf := two_pow_half hn
  have hnonneg := Int.emod_nonneg t hpow.ne'
  have hlt := Int.emod_lt_of_pos t hpow
  have hcast : ((2 ^ n : ℤ) : ℚ) = 2 ^ n := by push_cast; rfl
  have hcast' : ((2 ^ (n - 1) : ℤ) : ℚ) = 2 ^ (n - 1) := by push_cast; rfl
  have hmodulo := modulo_int t hpow
  rw [hcast] at hmodulo
  rw [upperBound_eq hn hn', lowerBound_eq hn', hmodulo, ← hcast', lt_signed, value_signed, ← hcast]
  by_cases hhigh : unsigned = false ∧ 2 ^ (n - 1) ≤ t % 2 ^ n
  · obtain ⟨rfl, hhigh⟩ := hhigh
    have hnot : ¬ ((t % 2 ^ n : ℤ) : ℚ) < (2 ^ (n - 1) : ℤ) := by exact_mod_cast hhigh.not_gt
    have hne : ((t % 2 ^ n - 2 ^ n : ℤ) : ℚ) ≠ 0 := by exact_mod_cast (by omega : t % 2 ^ n - 2 ^ n ≠ 0)
    refine ⟨t % 2 ^ n - 2 ^ n, ?_, ?_, ?_, ?_⟩
    · simp only [hnot, signed_ne_zero hne, Bool.not_false, decide_false, Bool.and_self, if_true]
      push_cast
      rfl
    · simp only [Bool.false_eq_true, if_false]
      omega
    · simp only [Bool.false_eq_true, if_false]
      omega
    · exact Int.sub_modulus_modEq_iff.2 (Int.mod_modEq t _)
  · refine ⟨t % 2 ^ n, ?_, ?_, ?_, Int.mod_modEq t _⟩
    · refine if_neg fun h => hhigh ?_
      rw [Bool.and_eq_true, Bool.not_eq_true', Bool.not_eq_true', decide_eq_false_iff_not, not_lt] at h
      exact ⟨h.1, by exact_mod_cast h.2⟩
    · cases unsigned
      · simp only [Bool.false_eq_true, if_false]
        omega
      · exact hnonneg
    · cases unsigned
      · have hlow : t % 2 ^ n < 2 ^ (n - 1) := not_le.1 fun h => hhigh ⟨rfl, h⟩
        simp only [Bool.false_eq_true, if_false]
        omega
      · simp only [if_true]
        omega

end Converter

theorem outside_eq (lower upper t : ℤ) :
    (lt (finite t) (finite lower) || lt (finite upper) (finite t)) = !decide (lower ≤ t ∧ t ≤ upper) := by
  rw [lt_finite, lt_finite, Bool.eq_iff_iff]
  simp only [Bool.or_eq_true, decide_eq_true_eq, Bool.not_eq_true', decide_eq_false_iff_not, Int.cast_lt]
  omega

theorem inside_eq (lower upper t : ℤ) :
    (!lt (finite t) (finite lower) && !lt (finite upper) (finite t)) = decide (lower ≤ t ∧ t ≤ upper) := by
  rw [← Bool.not_or, outside_eq, Bool.not_not]

theorem convert_inside {n : Nat} {unsigned : Bool} {q : ℚ}
    (h : lowerBound n unsigned ≤ truncate q ∧ truncate q ≤ upperBound n unsigned) (errPrefix context : Option String) :
    createIntegerConversion n unsigned (finite q) errPrefix context ⟨false, false⟩ = .ok (finite (truncate q)) := by
  simp only [createIntegerConversion, censorNegativeZero, isNaN, isFinite, integerPart_finite, inside_eq, decide_eq_true h]
  by_cases hq : finite q = finite 0
  · rw [beq_iff_eq.2 hq, JsNumber.finite.inj hq]
    rfl
  · rw [beq_eq_false_iff_ne.2 hq]
    rfl

/-- Every number becomes the one integer between the bounds that is its integer part
modulo `2 ^ n`, where `NaN` and the infinities count as zero. A negative multiple of
`2 ^ n` becomes `-0`. -/
theorem convert_wraps {n : Nat} (hn : 0 < n) (hn' : n ≤ 53) (unsigned : Bool) (x : JsNumber)
    (errPrefix context : Option String) :
    ∃ k : ℤ, createIntegerConversion n unsigned x errPrefix context ⟨false, false⟩ = .ok (signed (truncate x.value) k) ∧
      lowerBound n unsigned ≤ k ∧ k ≤ upperBound n unsigned ∧ k ≡ truncate x.value [ZMOD 2 ^ n] := by
  have hzero : ∃ k : ℤ, (.ok (finite 0) : Except String JsNumber) = .ok (signed (truncate (0 : ℚ)) k) ∧
      lowerBound n unsigned ≤ k ∧ k ≤ upperBound n unsigned ∧ k ≡ truncate (0 : ℚ) [ZMOD 2 ^ n] := by
    obtain ⟨hlo, hhi⟩ := zero_mem_bounds hn hn' unsigned
    have htrunc : truncate (0 : ℚ) = 0 := rfl
    rw [htrunc]
    exact ⟨0, by rw [signed_self]; rfl, hlo, hhi, rfl⟩
  cases x with
  | nan | infinity | negInfinity | negZero => exact hzero
  | finite q =>
    by_cases hin : lowerBound n unsigned ≤ truncate q ∧ truncate q ≤ upperBound n unsigned
    · refine ⟨truncate q, ?_, hin.1, hin.2, rfl⟩
      rw [convert_inside hin, value, signed_self]
    · obtain ⟨k, hk, hrest⟩ := wrap_eq hn hn' unsigned (truncate q)
      refine ⟨k, ?_, hrest⟩
      have hne : (finite q == finite 0) = false := by
        rw [beq_eq_false_iff_ne]
        rintro ⟨⟩
        exact hin (zero_mem_bounds hn hn' unsigned)
      simp only [createIntegerConversion, censorNegativeZero, isNaN, isFinite, integerPart_finite, hne, inside_eq,
        decide_eq_false hin]
      rw [value, ← hk]
      exact (apply_ite Except.ok _ _ _).symm

/-- -512 as an octet is `-0`. -/
theorem convert_wraps_octet : octet (finite (-512)) none none ⟨false, false⟩ = .ok negZero := by
  obtain ⟨k, hk, hlo, hhi, hmod⟩ := convert_wraps (n := 8) (by decide) (by decide) true (finite (-512)) none none
  have htrunc : truncate (-512 : ℚ) = -512 := by decide +kernel
  have hlower : (0 : ℤ) ≤ k := hlo
  have hupper : k ≤ 255 := hhi
  rw [value, htrunc] at hk hmod
  have hzero : k = 0 := by
    have hmod' : k % 256 = -512 % 256 := hmod
    omega
  rw [hzero] at hk
  exact hk.trans (congrArg _ (if_pos (by decide +kernel)))

/-- With `enforceRange` a converter is what it is without, and turns away exactly the
numbers whose integer part is not between the bounds. -/
theorem convert_enforces (n : Nat) (unsigned : Bool) (x : JsNumber) (errPrefix context : Option String) (clamp : Bool) :
    createIntegerConversion n unsigned x errPrefix context ⟨true, clamp⟩ =
      if x.isFinite ∧ lowerBound n unsigned ≤ truncate x.value ∧ truncate x.value ≤ upperBound n unsigned then
        createIntegerConversion n unsigned x errPrefix context ⟨false, false⟩
      else .error (makeException
        (if x.isFinite then "is outside the accepted range of " ++ toString (lowerBound n unsigned) ++ " to " ++
          toString (upperBound n unsigned) ++ ", inclusive" else "is not a finite number") errPrefix context) := by
  have hfinite : ∀ q : ℚ, createIntegerConversion n unsigned (finite q) errPrefix context ⟨true, clamp⟩ =
      if lowerBound n unsigned ≤ truncate q ∧ truncate q ≤ upperBound n unsigned then
        createIntegerConversion n unsigned (finite q) errPrefix context ⟨false, false⟩
      else .error (makeException ("is outside the accepted range of " ++ toString (lowerBound n unsigned) ++ " to " ++
        toString (upperBound n unsigned) ++ ", inclusive") errPrefix context) := by
    intro q
    by_cases h : lowerBound n unsigned ≤ truncate q ∧ truncate q ≤ upperBound n unsigned
    · rw [if_pos h, convert_inside h]
      simp only [createIntegerConversion, censorNegativeZero, isFinite, integerPart_finite, outside_eq, decide_eq_true h]
      rfl
    · rw [if_neg h]
      simp only [createIntegerConversion, censorNegativeZero, isFinite, integerPart_finite, outside_eq, decide_eq_false h]
      rfl
  cases x with
  | nan | infinity | negInfinity =>
    rw [if_neg fun h => by cases h.1]
    rfl
  | negZero =>
    refine (hfinite 0).trans ?_
    simp only [isFinite, value, true_and, if_true]
    rfl
  | finite q =>
    refine (hfinite q).trans ?_
    simp only [isFinite, value, true_and, if_true]

/-- The integers a number may be clamped to: the nearest one, and 0 for `NaN`. -/
def Clamped (lower upper : ℤ) : JsNumber → ℤ → Prop
  | nan, k => k = 0
  | infinity, k => k = upper
  | negInfinity, k => k = lower
  | negZero, k => NearestEven lower upper (0 : ℚ) k
  | finite q, k => NearestEven lower upper q k

theorem max_finite (q r : ℚ) : mathMax (finite q) (finite r) = finite (max q r) := by
  rw [mathMax, lt_finite, max_def_lt, apply_ite finite]
  simp only [decide_eq_true_eq]

theorem min_finite (q r : ℚ) : mathMin (finite q) (finite r) = finite (min q r) := by
  rw [mathMin, lt_finite, min_comm, min_def_lt, apply_ite finite]
  simp only [decide_eq_true_eq]

/-- With `clamp` every number becomes the nearest integer between the bounds, the even
one of two, and never `-0`. -/
theorem convert_clamps {n : Nat} (hn : 0 < n) (hn' : n ≤ 53) (unsigned : Bool) (x : JsNumber)
    (errPrefix context : Option String) :
    ∃ k : ℤ, createIntegerConversion n unsigned x errPrefix context ⟨false, true⟩ = .ok (finite k) ∧
      Clamped (lowerBound n unsigned) (upperBound n unsigned) x k := by
  obtain ⟨hlo, hhi⟩ := zero_mem_bounds hn hn' unsigned
  have hle : lowerBound n unsigned ≤ upperBound n unsigned := hlo.trans hhi
  have hle' : (lowerBound n unsigned : ℚ) ≤ upperBound n unsigned := by exact_mod_cast hle
  have hfinite : ∀ q : ℚ, evenRound (mathMin (mathMax (finite q) (finite (lowerBound n unsigned)))
      (finite (upperBound n unsigned))) =
      finite (roundEven (min (max q (lowerBound n unsigned)) (upperBound n unsigned))) := by
    intro q
    rw [max_finite, min_finite, evenRound_finite]
  cases x with
  | nan => exact ⟨0, rfl, rfl⟩
  | infinity =>
    refine ⟨upperBound n unsigned, ?_, rfl⟩
    have heven := evenRound_finite (upperBound n unsigned)
    rw [roundEven_intCast] at heven
    exact congrArg Except.ok heven
  | negInfinity =>
    refine ⟨lowerBound n unsigned, ?_, rfl⟩
    have heven : evenRound (mathMin (finite (lowerBound n unsigned)) (finite (upperBound n unsigned))) =
        finite (lowerBound n unsigned) := by
      rw [min_finite, min_eq_left hle', evenRound_finite, roundEven_intCast]
    exact congrArg Except.ok heven
  | negZero => exact ⟨_, congrArg Except.ok (hfinite 0), nearestEven_clamp hle 0⟩
  | finite q =>
    refine ⟨_, ?_, nearestEven_clamp hle q⟩
    rw [← hfinite]
    rfl

/-- Halfway between 2 and 3. -/
theorem convert_clamps_octet : octet (finite (5 / 2)) none none ⟨false, true⟩ = .ok (finite 2) := by
  obtain ⟨k, hk, hclamped⟩ := convert_clamps (n := 8) (by decide) (by decide) true (finite (5 / 2)) none none
  have htwo : roundEven (min (max (5 / 2 : ℚ) (0 : ℤ)) (255 : ℤ)) = 2 := by decide +kernel
  have hnearest : NearestEven 0 255 (5 / 2 : ℚ) 2 := htwo ▸ nearestEven_clamp (by decide) (5 / 2 : ℚ)
  have hk2 : k = 2 := NearestEven.unique hclamped hnearest
  rw [hk2] at hk
  exact hk

end LuauFusion.Webidl
