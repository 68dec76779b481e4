import AlgebraSql.Numeric.Quantity
import AlgebraSql.Proofs.Numerals
import Mathlib.Data.Nat.Digits.Defs
import Mathlib.Tactic.Ring

/-!
# Whole numbers — what becomes of a whole number that is rounded and written.

A whole number of at most 53 binary digits is a binary number itself, and its own digits are the shortest ones
that are rounded to it: the next number with fewer digits is at least one away, and a number is rounded only over
half a unit.  Up to twenty-one digits a whole number is written digit by digit.
-/

namespace AlgebraSql

namespace Binary

/-- Rounding a whole multiple gives the factor. -/
theorem divNearest_of_dvd {v grid : Nat} (hgrid : 0 < grid) (h : grid ∣ v) : divNearest v grid = v / grid := by
  unfold divNearest
  rw [Nat.mod_eq_zero_of_dvd h, if_pos hgrid]

/-- A covered number on the grid is its own neighbour. -/
theorem neighbour?_of_dvd {covered : Nat → Bool} {v grid : Nat} (hgrid : 0 < grid) (h : grid ∣ v)
    (hv : covered v = true) : neighbour? covered v grid = some v := by
  have hlow : v / grid * grid = v := Nat.div_mul_cancel h
  unfold neighbour?
  rw [divNearest_of_dvd hgrid h]
  simp only [hlow, hv]
  cases covered (v + grid) <;> rfl

/-- Where no other number on the grids is covered, a covered number has no neighbour with fewer digits. -/
theorem coarsest_eq {covered : Nat → Bool} {v : Nat} (hv : covered v = true)
    (honly : ∀ k x, ¬ 10 ^ k ∣ v → 10 ^ k ∣ x → covered x = false) (zeros : Nat) :
    coarsest covered v zeros = v := by
  induction zeros with
  | zero => rfl
  | succ zeros ih =>
    have hgrid : 0 < 10 ^ (zeros + 1) := by positivity
    unfold coarsest
    show (neighbour? covered v (10 ^ (zeros + 1))).getD _ = v
    by_cases hdvd : 10 ^ (zeros + 1) ∣ v
    · rw [neighbour?_of_dvd hgrid hdvd hv]
      rfl
    · have hlow : covered (v / 10 ^ (zeros + 1) * 10 ^ (zeros + 1)) = false := honly _ _ hdvd (Nat.dvd_mul_left _ _)
      have hhigh : covered (v / 10 ^ (zeros + 1) * 10 ^ (zeros + 1) + 10 ^ (zeros + 1)) = false :=
        honly _ _ hdvd ((Nat.dvd_add_right (Nat.dvd_mul_left _ _)).mpr dvd_rfl)
      unfold neighbour?
      simp only [hlow, hhigh]
      exact ih

end Binary

namespace Decimal

/-- Taking out the powers of ten that were put in. -/
theorem reduce_mul (m : Int) (scale : Nat) : reduce (m * 10 ^ scale) scale = ⟨m, 0⟩ := by
  induction scale with
  | zero => simp [reduce]
  | succ scale ih =>
    have hten : m * 10 ^ (scale + 1) = m * 10 ^ scale * 10 := by ring
    have hmod : m * 10 ^ (scale + 1) % 10 = 0 := by omega
    have hdiv : m * 10 ^ (scale + 1) / 10 = m * 10 ^ scale := by omega
    rw [reduce, if_pos hmod, hdiv, ih]

/-- The nearest binary number of a whole number with at most 53 binary digits is the number itself. -/
theorem binarySize_ofInt {n : Int} (h : n.natAbs < 2 ^ 53) :
    ∃ k : Nat, (ofInt n).binarySize = ⟨n.natAbs * 2 ^ k, -k⟩ := by
  have hexponent : ∃ k : Nat, Binary.exponentFor n.natAbs 1 = -k ∧ n.natAbs * 2 ^ k < 2 ^ 53 := by
    by_cases hzero : n.natAbs = 0
    · exact ⟨53, by rw [hzero]; decide, by simp [hzero]⟩
    · have hlog : n.natAbs.log2 < 53 := (Nat.log2_lt hzero).mpr h
      have hlead : ¬ n.natAbs * Binary.twoTo 0 < 1 * Binary.twoTo n.natAbs.log2 := by
        show ¬ n.natAbs * 2 ^ 0 < 1 * 2 ^ n.natAbs.log2
        have hle := Nat.log2_self_le hzero
        omega
      refine ⟨52 - n.natAbs.log2, ?_, ?_⟩
      · have hone : Nat.log2 1 = 0 := by decide
        simp only [Binary.exponentFor, hone, Int.ofNat_zero, sub_zero, Int.toNat_neg_natCast, Int.toNat_natCast, hlead,
          if_false, Binary.minExponent]
        omega
      · calc n.natAbs * 2 ^ (52 - n.natAbs.log2)
            < 2 ^ (n.natAbs.log2 + 1) * 2 ^ (52 - n.natAbs.log2) :=
              Nat.mul_lt_mul_of_pos_right Nat.lt_log2_self (by positivity)
          _ = 2 ^ 53 := by rw [← pow_add]; congr 1; omega
  obtain ⟨k, hk, hlt⟩ := hexponent
  refine ⟨k, ?_⟩
  have hsize : (ofInt n).binarySize = Binary.nearest n.natAbs 1 := rfl
  have hnearest : Binary.divNearest (n.natAbs * 2 ^ k) 1 = n.natAbs * 2 ^ k := by
    rw [Binary.divNearest_of_dvd Nat.one_pos (one_dvd _), Nat.div_one]
  have hnormal : n.natAbs * 2 ^ k ≠ Binary.twoTo 53 := Nat.ne_of_lt hlt
  rw [hsize, Binary.nearest]
  simp only [hk, neg_neg, Int.toNat_natCast, Int.toNat_neg_natCast]
  show Binary.normal (Binary.divNearest (n.natAbs * 2 ^ k) 1) (-k) = _
  rw [hnearest, Binary.normal, if_neg hnormal]

end Decimal

namespace Binary

/-- A whole number of units is covered by itself. -/
theorem covers_self (b : Binary) (unit : Nat) (hunit : 0 < unit) : b.covers unit (4 * b.significand * unit) = true := by
  have hlower : b.lowerEnd ≤ 4 * b.significand - 1 := by
    unfold lowerEnd
    split <;> omega
  have hupper : 4 * b.significand * unit < b.upperEnd * unit :=
    Nat.mul_lt_mul_of_pos_right (by simp [upperEnd]) hunit
  unfold covers
  by_cases heven : b.significand % 2 = 0
  · have hle : b.lowerEnd * unit ≤ 4 * b.significand * unit := Nat.mul_le_mul_right _ (by omega)
    simp [heven, hle, hupper.le]
  · have hlt : b.lowerEnd * unit < 4 * b.significand * unit := Nat.mul_lt_mul_of_pos_right (by omega) hunit
    simp [heven, hlt, hupper]

/-- What is covered lies at most half a unit away. -/
theorem near_of_covers {b : Binary} {unit x : Nat} (h : b.covers unit x = true) :
    4 * b.significand * unit ≤ x + 2 * unit ∧ x ≤ 4 * b.significand * unit + 2 * unit := by
  have hbounds : b.lowerEnd * unit ≤ x ∧ x ≤ b.upperEnd * unit := by
    unfold covers at h
    split at h
    · simpa using h
    · have hboth : b.lowerEnd * unit < x ∧ x < b.upperEnd * unit := by simpa using h
      exact ⟨hboth.1.le, hboth.2.le⟩
  have hlower : (4 * b.significand - 2) * unit ≤ b.lowerEnd * unit := by
    refine Nat.mul_le_mul_right _ ?_
    unfold lowerEnd
    split <;> omega
  rw [Nat.sub_mul] at hlower
  have hupper : b.upperEnd * unit = 4 * b.significand * unit + 2 * unit := Nat.add_mul ..
  omega

end Binary

namespace Decimal

/-- A power of ten above the units of a whole number is a multiple of four of them. -/
theorem tenPow_units (k : Nat) : (10 : Nat) ^ (k + 2) = 2 ^ k * (4 * 5 ^ (k + 2)) := by
  have hsplit : (10 : Nat) ^ (k + 2) = 2 ^ (k + 2) * 5 ^ (k + 2) := mul_pow 2 5 (k + 2)
  rw [hsplit, pow_add 2 k 2]
  ring

/-- Around a multiple of a power of ten no multiple of a larger power is covered. -/
theorem not_covers_of_not_dvd {b : Binary} {m k : Nat} (hv : 4 * b.significand * 5 ^ (k + 2) = m * 10 ^ (k + 2))
    {j x : Nat} (hj : ¬ 10 ^ j ∣ m * 10 ^ (k + 2)) (hx : 10 ^ j ∣ x) : b.covers (5 ^ (k + 2)) x = false := by
  by_contra hcovered
  obtain ⟨hlow, hhigh⟩ := Binary.near_of_covers (Bool.eq_true_of_not_eq_false hcovered)
  rw [hv] at hlow hhigh
  have hlarge : k + 2 ≤ j := by
    by_contra hsmall
    exact hj (dvd_mul_of_dvd_right (pow_dvd_pow 10 (by omega)) _)
  obtain ⟨y, rfl⟩ : 10 ^ (k + 2) ∣ x := (pow_dvd_pow 10 hlarge).trans hx
  have hne : y ≠ m := by
    rintro rfl
    exact hj (by rwa [mul_comm] at hx)
  -- two multiples of the power of ten are at least four units apart, and what is covered is at most two away
  have hunit : 0 < 5 ^ (k + 2) := by positivity
  have hstep : 4 * 5 ^ (k + 2) ≤ 10 ^ (k + 2) := by
    rw [tenPow_units]
    exact Nat.le_mul_of_pos_left _ (by positivity)
  rcases Nat.lt_or_gt_of_ne hne with hlt | hgt
  · have hmul : 10 ^ (k + 2) * (y + 1) ≤ 10 ^ (k + 2) * m := Nat.mul_le_mul_left _ hlt
    rw [Nat.mul_add, mul_comm _ m] at hmul
    omega
  · have hmul : 10 ^ (k + 2) * (m + 1) ≤ 10 ^ (k + 2) * y := Nat.mul_le_mul_left _ hgt
    rw [Nat.mul_add, mul_comm _ m] at hmul
    omega

/-- **`rounded?`** — a whole number with at most 53 binary digits is its own rounding. -/
theorem rounded?_ofInt {n : Int} (h : n.natAbs < 2 ^ 53) : (ofInt n).rounded? = some (ofInt n) := by
  obtain ⟨k, hsize⟩ := binarySize_ofInt h
  set b : Binary := ⟨n.natAbs * 2 ^ k, -k⟩ with hb
  have hquarter : Binary.quarter b.exponent = (5 ^ (k + 2), k + 2) := by
    have hup : (2 - (-(k : Int))).toNat = k + 2 := by omega
    have hdown : (-(k : Int) - 2).toNat = 0 := by omega
    simp only [Binary.quarter, hb, hup, hdown]
    show (5 ^ (k + 2) * 2 ^ 0, k + 2) = _
    simp
  have hv : 4 * b.significand * 5 ^ (k + 2) = n.natAbs * 10 ^ (k + 2) := by
    rw [tenPow_units, hb]
    ring
  have hself := b.covers_self (5 ^ (k + 2)) (by positivity)
  rw [hv] at hself
  have honly : ∀ j x, ¬ 10 ^ j ∣ n.natAbs * 10 ^ (k + 2) → 10 ^ j ∣ x → b.covers (5 ^ (k + 2)) x = false :=
    fun j x hj hx => not_covers_of_not_dvd hv hj hx
  have hshortest : b.shortest = ⟨(n.natAbs * 10 ^ (k + 2) : Nat), k + 2⟩ := by
    simp only [Binary.shortest, hquarter, hv, Binary.coarsest_eq hself honly]
  have hrange : b.inRange = true := by
    simp only [Binary.inRange, hb, Binary.maxExponent, decide_eq_true_eq]
    omega
  have hsigned : (b.shortest.signedAs (ofInt n)) = ⟨n * 10 ^ (k + 2), k + 2⟩ := by
    rw [hshortest]
    simp only [signedAs, ofInt]
    congr 1
    push_cast
    rw [← mul_assoc, Int.sign_mul_abs]
  unfold rounded?
  simp only [hsize, hrange, if_true, hsigned]
  exact congrArg some (reduce_mul n (k + 2))

/-! ## Texts -/

/-- Up to twenty-one digits a whole number is written digit by digit. -/
theorem toText_ofNat {n : Nat} (h : n < 10 ^ 21) : (ofInt n).toText = String.ofList (Nat.toDigits 10 n) := by
  by_cases hzero : n = 0
  · subst hzero
    rfl
  · have hmantissa : (ofInt n).mantissa ≠ 0 := by simpa [ofInt] using hzero
    have hall := significant_append n
    have hlength := Nat.toDigits_length 10 n 21 (by decide) h
    rw [← hall, List.length_append, List.length_replicate] at hlength
    rw [toText_of_ne hmantissa]
    have hsign : ¬ (ofInt n).mantissa < 0 := by simp [ofInt]
    have habs : (ofInt n).mantissa.natAbs = n := by simp [ofInt]
    have hpoint : ((significant n).1.length : Int) ≤ (significant n).1.length + (significant n).2 - (ofInt n).scale
        ∧ ((significant n).1.length : Int) + (significant n).2 - (ofInt n).scale ≤ 21 := by
      simp only [ofInt, Int.natCast_zero]
      omega
    have hzeros : ((significant n).1.length + (significant n).2 - (ofInt n).scale - (significant n).1.length : Int).toNat
        = (significant n).2 := by
      simp only [ofInt]
      omega
    simp only [hsign, decide_false, Bool.false_eq_true, if_false, List.nil_append, habs, placePoint, if_pos hpoint,
      hzeros, String.ofList_toList, hall]

end Decimal

/-- Digits are plain text already. -/
theorem plainText_digits {ds : List Char} (h : Digits ds) : plainText (String.ofList ds) = String.ofList ds := by
  have hread : Scientific.read? ds = none := by
    have hbody : Scientific.readBody false ds = none := by
      have hsplit := splitMantissa_whole h (show NoDigit [] by simp [NoDigit]) (by simp)
      rw [List.append_nil] at hsplit
      simp [Scientific.readBody, hsplit, Scientific.readPower]
    cases ds with
    | nil => exact hbody
    | cons c cs =>
      have hc : c.isDigit = true := h c List.mem_cons_self
      have hminus : c ≠ '-' := by rintro rfl; cases hc
      have hplus : c ≠ '+' := by rintro rfl; cases hc
      simpa [Scientific.read?, hminus, hplus] using hbody
  unfold plainText
  rw [String.toList_ofList, hread]

namespace Quantity

/-- Digits have no white space at their ends. -/
theorem trim_digits {ds : List Char} (h : Digits ds) : Text.trim (String.ofList ds) = String.ofList ds := by
  have hblank : ∀ c, c.isDigit = true → Text.isBlank c = false := by
    intro c hc
    obtain ⟨hlow, hhigh⟩ : 48 ≤ c.toNat ∧ c.toNat ≤ 57 := by
      simpa [Char.isDigit, UInt32.le_iff_toNat_le] using hc
    unfold Text.isBlank
    simp only [Bool.or_eq_false_iff, Bool.and_eq_false_iff, decide_eq_false_iff_not, beq_eq_false_iff_ne]
    omega
  have hdrop : ∀ es : List Char, Digits es → es.dropWhile Text.isBlank = es := by
    intro es hes
    cases es with
    | nil => rfl
    | cons c cs => rw [List.dropWhile_cons_of_neg (by simp [hblank c (hes c List.mem_cons_self)])]
  have hreverse : Digits ds.reverse := fun c hc => h c (List.mem_reverse.mp hc)
  rw [Text.trim, String.toList_ofList, hdrop ds h, hdrop _ hreverse, List.reverse_reverse]

/-- Digits are read as an unsigned numeral. -/
theorem ofText_eq_ofUnsigned {ds : List Char} (h : Digits ds) (hne : ds ≠ []) :
    ofText (String.ofList ds) = ofUnsigned false ds := by
  have hhead : ∀ c ∈ ds, c ≠ '-' ∧ c ≠ '+' ∧ c ≠ 'x' ∧ c ≠ 'X' ∧ c ≠ 'o' ∧ c ≠ 'O' ∧ c ≠ 'b' ∧ c ≠ 'B' := by
    intro c hc
    have hdigit := h c hc
    refine ⟨?_, ?_, ?_, ?_, ?_, ?_, ?_, ?_⟩ <;> (rintro rfl; cases hdigit)
  unfold ofText
  rw [trim_digits h, String.toList_ofList]
  split
  · exact absurd rfl hne
  · exact absurd rfl (hhead _ List.mem_cons_self).1
  · exact absurd rfl (hhead _ List.mem_cons_self).2.1
  all_goals first
    | rfl
    | (rename_i ds; have hsecond := hhead _ (List.mem_cons_of_mem _ List.mem_cons_self); simp at hsecond)

/-- A number in range is held as its rounding. -/
theorem ofDecimal_of_rounded {d e : Decimal} (h : d.rounded? = some e) : ofDecimal d = .finite e := by
  unfold ofDecimal
  rw [h]

/-- **`ofText`** — the digits of a whole number stand for the number, if it is its own rounding. -/
theorem ofText_digits {n : Nat} (h : n < 10 ^ 21) (hround : (Decimal.ofInt n).rounded? = some (Decimal.ofInt n)) :
    ofText (String.ofList (Nat.toDigits 10 n)) = .finite (Decimal.ofInt n) := by
  have hdigits := digits_toDigits n
  have hne : Nat.toDigits 10 n ≠ [] := Nat.toDigits_ne_nil
  have hlength := Nat.toDigits_length 10 n 21 (by decide) h
  have hvalue := digitsValue_toDigits n
  rw [ofText_eq_ofUnsigned hdigits hne]
  generalize Nat.toDigits 10 n = ds at hdigits hne hlength hvalue
  have hinfinity : (ds == "Infinity".toList) = false := by
    rw [beq_eq_false_iff_ne]
    rintro rfl
    exact absurd (hdigits 'I' (by decide)) (by decide)
  have hsplit := splitMantissa_whole hdigits (show NoDigit [] by simp [NoDigit]) (by simp)
  rw [List.append_nil] at hsplit
  have htrim := (trimZeros_traits hdigits).1
  have hshort : (ds.dropWhile (· == '0')).length ≤ 21 := (List.dropWhile_suffix _).length_le.trans hlength
  simp only [ofUnsigned, hinfinity, Bool.false_eq_true, if_false, hsplit, List.isEmpty_nil, if_true,
    List.isEmpty_eq_false_iff.mpr hne, Bool.false_and, ofScientific, List.append_nil]
  -- zeros alone stand for zero; otherwise the digits behind them are within the range
  by_cases hzeros : ds.dropWhile (· == '0') = []
  · have hzero : n = 0 := by
      rw [Scientific.trimZeros, hzeros] at htrim
      rw [← hvalue, ← htrim]
      rfl
    simp [hzeros, hzero]
    rfl
  · have hkept : Scientific.trimZeros ds = ds.dropWhile (· == '0') := by
      unfold Scientific.trimZeros
      split
      · contradiction
      · rfl
    rw [hkept, hvalue] at htrim
    have hsmall : ¬ ((ds.dropWhile (· == '0')).isEmpty = true
        ∨ ((ds.dropWhile (· == '0')).length : Int) + (0 - (([] : List Char).length : Int)) < -323) := by
      simp [hzeros]
    have hlarge : ¬ (309 : Int) < (ds.dropWhile (· == '0')).length + (0 - (([] : List Char).length : Int)) := by
      simp
      omega
    rw [if_neg hsmall, if_neg hlarge]
    have hpower : (0 - (([] : List Char).length : Int)).toNat = 0 ∧ (-(0 - (([] : List Char).length : Int))).toNat = 0 :=
      ⟨rfl, rfl⟩
    rw [htrim, hpower.1, hpower.2, Decimal.tenTo, mul_one]
    have hwhole : (⟨n, 0⟩ : Decimal) = Decimal.ofInt n := rfl
    rw [hwhole]
    exact ofDecimal_of_rounded hround

end Quantity

end AlgebraSql
