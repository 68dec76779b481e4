import AlgebraSql.Proofs.Datum
import AlgebraSql.Proofs.ValueOrder

/-!
# Numerals — the text of a number stands for the number.

A numeral is a run of digits with a point somewhere and a power of ten behind it, so its value is the
value of all its digits times a power of ten.  The text of a number puts the point into its significant
digits, and plain text moves the point by the power of ten; neither changes the value.
-/

namespace AlgebraSql

open Decimal

/-- All characters are decimal digits. -/
abbrev Digits (ds : List Char) : Prop := ∀ c ∈ ds, c.isDigit = true

/-! ## Runs of digits -/

theorem digitsValue_append (as bs : List Char) :
    digitsValue (as ++ bs) = digitsValue as * 10 ^ bs.length + digitsValue bs := by
  change Nat.ofDigitChars 10 (as ++ bs) 0 = Nat.ofDigitChars 10 as 0 * _ + Nat.ofDigitChars 10 bs 0
  rw [Nat.ofDigitChars_append, Nat.ofDigitChars_eq_ofDigitChars_zero, mul_comm]

@[simp]
theorem digitsValue_zeros (n : Nat) : digitsValue (List.replicate n '0') = 0 :=
  Nat.ofDigitChars_replicate_zero.trans (mul_zero _)

@[simp]
theorem digitsValue_toDigits (n : Nat) : digitsValue (Nat.toDigits 10 n) = n := Nat.ofDigitChars_ten_toDigits

theorem digits_toDigits (n : Nat) : Digits (Nat.toDigits 10 n) := fun _ hc =>
  Nat.isDigit_of_mem_toDigits (by decide) (by decide) hc

theorem digits_zeros (n : Nat) : Digits (List.replicate n '0') := fun c hc => by
  rw [List.eq_of_mem_replicate hc]
  rfl

theorem Digits.append {as bs : List Char} (ha : Digits as) (hb : Digits bs) : Digits (as ++ bs) := fun c hc =>
  (List.mem_append.mp hc).elim (ha c) (hb c)

theorem Digits.take {ds : List Char} (h : Digits ds) (n : Nat) : Digits (ds.take n) := fun c hc =>
  h c (List.mem_of_mem_take hc)

theorem Digits.drop {ds : List Char} (h : Digits ds) (n : Nat) : Digits (ds.drop n) := fun c hc =>
  h c (List.mem_of_mem_drop hc)

/-- A digit is no sign. -/
theorem not_sign_of_isDigit {c : Char} (h : c.isDigit = true) : c ≠ '-' ∧ c ≠ '+' := by
  constructor
  · rintro rfl
    cases h
  · rintro rfl
    cases h

theorem digitsValue_zero_cons (ds : List Char) : digitsValue ('0' :: ds) = digitsValue ds := rfl

/-- Leading zeros carry nothing. -/
theorem trimZeros_traits {ds : List Char} (h : Digits ds) :
    digitsValue (Scientific.trimZeros ds) = digitsValue ds ∧ Digits (Scientific.trimZeros ds) := by
  induction ds with
  | nil => exact ⟨rfl, by simp [Scientific.trimZeros, Digits]⟩
  | cons c ds ih =>
    by_cases hc : c = '0'
    · subst hc
      have htrim : Scientific.trimZeros ('0' :: ds) = Scientific.trimZeros ds := rfl
      rw [htrim, digitsValue_zero_cons]
      exact ih fun c hc => h c (by simp [hc])
    · have htrim : Scientific.trimZeros (c :: ds) = c :: ds := by simp [Scientific.trimZeros, hc]
      rw [htrim]
      exact ⟨rfl, h⟩

/-! ## Reading -/

/-- A text does not go on with a digit. -/
def NoDigit (rest : List Char) : Prop := ∀ c, rest.head? = some c → c.isDigit = false

theorem takeWhile_digits {ds rest : List Char} (h : Digits ds) (hrest : NoDigit rest) :
    (ds ++ rest).takeWhile Char.isDigit = ds ∧ (ds ++ rest).dropWhile Char.isDigit = rest := by
  induction ds with
  | nil =>
    cases rest with
    | nil => simp
    | cons c rest => simp [hrest c rfl]
  | cons d ds ih =>
    obtain ⟨htake, hdrop⟩ := ih fun c hc => h c (by simp [hc])
    simp [h d (by simp), htake, hdrop]

theorem splitMantissa_whole {ds rest : List Char} (h : Digits ds) (hrest : NoDigit rest)
    (hpoint : rest.head? ≠ some '.') : Scientific.splitMantissa (ds ++ rest) = (ds, [], rest) := by
  obtain ⟨htake, hdrop⟩ := takeWhile_digits h hrest
  unfold Scientific.splitMantissa
  rw [hdrop]
  split
  · exact absurd rfl hpoint
  · rw [htake]

theorem splitMantissa_point {ds es rest : List Char} (hds : Digits ds) (hes : Digits es) (hrest : NoDigit rest) :
    Scientific.splitMantissa (ds ++ '.' :: (es ++ rest)) = (ds, es, rest) := by
  have hpoint : NoDigit ('.' :: (es ++ rest)) := fun c hc => by
    cases hc
    rfl
  obtain ⟨htake, hdrop⟩ := takeWhile_digits hds hpoint
  obtain ⟨htake', hdrop'⟩ := takeWhile_digits hes hrest
  unfold Scientific.splitMantissa
  rw [hdrop]
  simp only [htake, htake', hdrop']

namespace Datum

/-- A numeral with or without a sign. -/
theorem ofDigits_signed (negative : Bool) {cs : List Char} (hcs : ∀ c, cs.head? = some c → c ≠ '-' ∧ c ≠ '+') :
    ofDigits (String.ofList ((if negative then ['-'] else []) ++ cs)) = ofUnsigned negative cs := by
  unfold ofDigits
  rw [String.toList_ofList]
  cases negative with
  | true => rfl
  | false =>
    cases cs with
    | nil => rfl
    | cons c cs =>
      obtain ⟨hminus, hplus⟩ := hcs c rfl
      simp only [Bool.false_eq_true, if_false, List.nil_append]
      split
      · simp_all
      · simp_all
      · rfl

/-- The number that digits with a sign and a power of ten stand for. -/
def scaled (negative : Bool) (digits : List Char) (power : Int) : Datum :=
  .number ((if negative then -(digitsValue digits : ℚ) else digitsValue digits) * 10 ^ power)

theorem ofScientific_eq (n : Scientific) :
    ofScientific n = scaled n.negative (n.whole ++ n.fraction) (n.exponent - n.fraction.length) := rfl

theorem ofUnsigned_whole (negative : Bool) {ds : List Char} (h : Digits ds) :
    ofUnsigned negative ds = scaled negative ds 0 := by
  have hsplit := @splitMantissa_whole ds [] h (by simp [NoDigit]) (by simp)
  rw [List.append_nil] at hsplit
  simp [ofUnsigned, hsplit, ofScientific_eq]

theorem ofUnsigned_point (negative : Bool) {ds es : List Char} (hds : Digits ds) (hes : Digits es) :
    ofUnsigned negative (ds ++ '.' :: es) = scaled negative (ds ++ es) (-es.length) := by
  have hsplit := @splitMantissa_point ds es [] hds hes (by simp [NoDigit])
  rw [List.append_nil] at hsplit
  simp [ofUnsigned, hsplit, ofScientific_eq]

/-- Zeros on either side of digits, and a power of ten. -/
theorem scaled_zeros (negative : Bool) (ds : List Char) (power : Int) (m n : Nat) :
    scaled negative (List.replicate m '0' ++ ds ++ List.replicate n '0') (power - n) = scaled negative ds power := by
  have hvalue : digitsValue (List.replicate m '0' ++ ds ++ List.replicate n '0') = digitsValue ds * 10 ^ n := by
    simp [digitsValue_append]
  simp only [scaled, hvalue]
  have hten : (10 : ℚ) ≠ 0 := by norm_num
  rw [zpow_sub₀ hten, zpow_natCast]
  congr 1
  split <;> (push_cast; field_simp)

theorem scaled_congr (negative : Bool) {ds es : List Char} (h : digitsValue ds = digitsValue es) (power : Int) :
    scaled negative ds power = scaled negative es power := by simp only [scaled, h]

/-- Digits with a point behind some of them. -/
theorem ofUnsigned_placed (negative : Bool) {ds : List Char} (h : Digits ds) (n : Nat) :
    ofUnsigned negative (if ds.length ≤ n then Scientific.trimZeros (ds ++ List.replicate (n - ds.length) '0')
      else Scientific.trimZeros (ds.take n) ++ '.' :: ds.drop n) = scaled negative ds (n - ds.length) := by
  split
  · rename_i hle
    obtain ⟨hvalue, hdigits⟩ := trimZeros_traits (h.append (digits_zeros (n - ds.length)))
    have hzeros := scaled_zeros negative ds (n - ds.length) 0 (n - ds.length)
    rw [ofUnsigned_whole negative hdigits, scaled_congr negative hvalue, ← hzeros]
    congr 1
    omega
  · rename_i hlt
    obtain ⟨hvalue, hdigits⟩ := trimZeros_traits (h.take n)
    have hsame : digitsValue (Scientific.trimZeros (ds.take n) ++ ds.drop n) = digitsValue ds := by
      rw [digitsValue_append, hvalue, ← digitsValue_append, List.take_append_drop]
    rw [ofUnsigned_point negative hdigits (h.drop n), scaled_congr negative hsame, List.length_drop]
    congr 1
    omega

/-- Digits with a point anywhere, also outside of them. -/
theorem ofUnsigned_pointed (negative : Bool) {ds : List Char} (h : Digits ds) (point : Int) :
    ofUnsigned negative (Scientific.pointed ds point) = scaled negative ds (point - ds.length) := by
  unfold Scientific.pointed
  by_cases hpoint : point ≤ 0
  · simp only [hpoint, if_true]
    have hzeros := scaled_zeros negative ds (point - ds.length) (1 - point).toNat 0
    rw [ofUnsigned_placed negative ((digits_zeros _).append h) 1, ← hzeros]
    simp only [List.replicate_zero, List.append_nil, List.length_append, List.length_replicate]
    congr 1
    omega
  · simp only [hpoint, if_false]
    rw [ofUnsigned_placed negative h point.toNat]
    congr 1
    omega

end Datum

/-! ## Plain text -/

namespace Scientific

/-- Digits without leading zeros begin with a digit, whatever follows them. -/
theorem head_trimZeros {ds : List Char} (h : Digits ds) (rest : List Char) (c : Char)
    (hc : (trimZeros ds ++ rest).head? = some c) : c ≠ '-' ∧ c ≠ '+' := by
  have hdigit : c.isDigit = true := by
    cases hds : trimZeros ds with
    | nil =>
      unfold trimZeros at hds
      split at hds
      · cases hds
      · contradiction
    | cons d rest =>
      rw [hds] at hc
      cases hc
      exact (trimZeros_traits h).2 _ (by simp [hds])
  exact not_sign_of_isDigit hdigit

theorem head_pointed {ds : List Char} (h : Digits ds) (point : Int) (c : Char)
    (hc : (pointed ds point).head? = some c) : c ≠ '-' ∧ c ≠ '+' := by
  have hall : ∀ {es : List Char} (n : Nat), Digits es → (if es.length ≤ n then
      trimZeros (es ++ List.replicate (n - es.length) '0')
      else trimZeros (es.take n) ++ '.' :: es.drop n).head? = some c → c ≠ '-' ∧ c ≠ '+' := by
    intro es n hes hc
    split at hc
    · exact head_trimZeros (hes.append (digits_zeros _)) [] c (by simpa using hc)
    · exact head_trimZeros (hes.take n) _ c hc
  unfold pointed at hc
  by_cases hpoint : point ≤ 0
  · simp only [hpoint, if_true] at hc
    exact hall 1 ((digits_zeros _).append h) hc
  · simp only [hpoint, if_false] at hc
    exact hall point.toNat h hc

theorem digits_takeWhile (cs : List Char) : Digits (cs.takeWhile Char.isDigit) := fun c hc =>
  List.all_eq_true.mp List.all_takeWhile c hc

/-- What is read of a numeral behind its sign. -/
theorem readBody_traits {negative : Bool} {cs : List Char} {n : Scientific} (h : readBody negative cs = some n) :
    Digits n.whole ∧ Digits n.fraction ∧ Datum.ofUnsigned negative cs = Datum.ofScientific n := by
  have hsplit : Digits (splitMantissa cs).1 ∧ Digits (splitMantissa cs).2.1 := by
    unfold splitMantissa
    split
    · exact ⟨digits_takeWhile _, digits_takeWhile _⟩
    · exact ⟨digits_takeWhile _, by simp [Digits]⟩
  simp only [readBody, Option.map_eq_some_iff] at h
  obtain ⟨e, he, rfl⟩ := h
  refine ⟨hsplit.1, hsplit.2, ?_⟩
  have hrest : (splitMantissa cs).2.2.isEmpty = false := by
    cases hnil : (splitMantissa cs).2.2 with
    | nil =>
      rw [hnil] at he
      cases he
    | cons c rest => rfl
  simp [Datum.ofUnsigned, hrest, he]

/-- What is read of a numeral with its sign. -/
theorem read?_traits {cs : List Char} {n : Scientific} (h : read? cs = some n) :
    Digits n.whole ∧ Digits n.fraction ∧ Datum.ofDigits (String.ofList cs) = Datum.ofScientific n := by
  unfold Datum.ofDigits
  rw [String.toList_ofList]
  rcases cs with _ | ⟨c, cs⟩
  · exact readBody_traits h
  · by_cases hminus : c = '-'
    · subst hminus
      exact readBody_traits h
    · by_cases hplus : c = '+'
      · subst hplus
        exact readBody_traits h
      · have hbody : readBody false (c :: cs) = some n := by simpa [read?, hminus, hplus] using h
        simpa [hminus, hplus] using readBody_traits hbody

end Scientific

/-- **`plainText`** — plain text stands for the same number. -/
theorem ofDigits_plainText (text : String) : Datum.ofDigits (plainText text) = Datum.ofDigits text := by
  unfold plainText
  cases hn : Scientific.read? text.toList with
  | none => rfl
  | some n =>
    obtain ⟨hwhole, hfraction, hvalue⟩ := Scientific.read?_traits hn
    rw [String.ofList_toList] at hvalue
    change Datum.ofDigits (String.ofList n.plain) = _
    unfold Scientific.plain
    rw [hvalue, Datum.ofDigits_signed _ (Scientific.head_pointed (hwhole.append hfraction) _),
      Datum.ofUnsigned_pointed _ (hwhole.append hfraction), Datum.ofScientific_eq]
    congr 1
    rw [List.length_append]
    omega

/-! ## Texts of numbers -/

namespace Datum

/-- The mantissa of a numeral with a power of ten behind it. -/
theorem splitMantissa_power {d : Char} {es ks : List Char} (hd : d.isDigit = true) (hes : Digits es) (down : Bool) :
    Scientific.splitMantissa
        (d :: ((if es.isEmpty then [] else '.' :: es) ++ 'e' :: (if down then '-' else '+') :: ks))
      = ([d], es, 'e' :: (if down then '-' else '+') :: ks) := by
  have hone : Digits [d] := by simpa [Digits] using hd
  have hnodigit : NoDigit ('e' :: (if down then '-' else '+') :: ks) := fun c hc => by
    cases hc
    rfl
  cases es with
  | nil => exact splitMantissa_whole hone hnodigit (by simp)
  | cons e es => exact splitMantissa_point hone hes hnodigit

/-- The power of ten behind a mantissa. -/
theorem readPower_power {ks : List Char} (hks : Digits ks) (hne : ks ≠ []) (down : Bool) :
    Scientific.readPower ('e' :: (if down then '-' else '+') :: ks)
      = some (if down then -(digitsValue ks : Int) else digitsValue ks) := by
  have hdigits : Scientific.readDigits ks = some (digitsValue ks) := by
    have hall : ks.all Char.isDigit = true := List.all_eq_true.mpr hks
    simp [Scientific.readDigits, hne, hall]
  cases down <;> simp [Scientific.readPower, Scientific.readExponent, hdigits]

/-- A numeral with a power of ten behind it. -/
theorem ofUnsigned_power (negative : Bool) {d : Char} {es ks : List Char} (hd : d.isDigit = true) (hes : Digits es)
    (hks : Digits ks) (hne : ks ≠ []) (down : Bool) :
    ofUnsigned negative (d :: ((if es.isEmpty then [] else '.' :: es) ++ 'e' :: (if down then '-' else '+') :: ks))
      = scaled negative (d :: es) ((if down then -(digitsValue ks : Int) else digitsValue ks) - es.length) := by
  unfold ofUnsigned
  rw [splitMantissa_power hd hes]
  simp only [List.isEmpty_cons, Bool.false_eq_true, if_false, readPower_power hks hne, ofScientific_eq]
  rfl

/-- Numbers that are very large or very small are written with a power of ten. -/
theorem toList_placePoint_power {d : Char} {es : List Char} {point : Int}
    (hbehind : ¬ (((d :: es).length : Int) ≤ point ∧ point ≤ 21)) (hinside : ¬ (0 < point ∧ point ≤ 21))
    (hbefore : ¬ (-6 < point ∧ point ≤ 0)) :
    (placePoint (d :: es) point).toList = d :: ((if es.isEmpty then [] else '.' :: es)
      ++ 'e' :: (if decide (point - 1 < 0) then '-' else '+') :: Nat.toDigits 10 (point - 1).natAbs) := by
  unfold placePoint
  simp only [if_neg hbehind, if_neg hinside, if_neg hbefore]
  by_cases hdown : point - 1 < 0 <;> cases es <;> simp [hdown, Nat.toList_repr]

/-- Digits with the point where `placePoint` puts it. -/
theorem ofUnsigned_placePoint (negative : Bool) {ds : List Char} (h : Digits ds) (hne : ds ≠ []) (point : Int) :
    ofUnsigned negative (placePoint ds point).toList = scaled negative ds (point - ds.length) := by
  unfold placePoint
  by_cases hbehind : (ds.length : Int) ≤ point ∧ point ≤ 21
  · have hzeros := scaled_zeros negative ds (point - ds.length) 0 (point - ds.length).toNat
    simp only [if_pos hbehind, String.toList_ofList]
    rw [ofUnsigned_whole negative (h.append (digits_zeros _)), ← hzeros]
    simp only [List.replicate_zero, List.nil_append]
    congr 1
    omega
  by_cases hinside : 0 < point ∧ point ≤ 21
  · simp only [if_neg hbehind, if_pos hinside, String.toList_ofList]
    rw [ofUnsigned_point negative (h.take _) (h.drop _), List.take_append_drop, List.length_drop]
    congr 1
    omega
  by_cases hbefore : -6 < point ∧ point ≤ 0
  · have hzeros := scaled_zeros negative ds (point - ds.length) (1 + (-point).toNat) 0
    simp only [if_neg hbehind, if_neg hinside, if_pos hbefore]
    have htext : ("0." ++ String.ofList (List.replicate (-point).toNat '0' ++ ds)).toList
        = List.replicate 1 '0' ++ '.' :: (List.replicate (-point).toNat '0' ++ ds) := by simp
    rw [htext, ofUnsigned_point negative (digits_zeros 1) ((digits_zeros _).append h), ← hzeros]
    simp only [List.replicate_add, List.replicate_zero, List.append_nil, List.length_append,
      List.length_replicate, List.append_assoc]
    congr 1
    omega
  · obtain ⟨d, es, rfl⟩ := List.exists_cons_of_ne_nil hne
    have hes : Digits es := fun c hc => h c (by simp [hc])
    have hpower := ofUnsigned_power negative (h d (by simp)) hes (digits_toDigits (point - 1).natAbs)
      Nat.toDigits_ne_nil (decide (point - 1 < 0))
    have htext := toList_placePoint_power hbehind hinside hbefore
    unfold placePoint at htext
    rw [htext, hpower, digitsValue_toDigits]
    congr 1
    simp only [decide_eq_true_eq, List.length_cons]
    omega

end Datum

/-- An integer by its sign and its size. -/
theorem signed_natAbs (n : Int) :
    (if decide (n < 0) then -(n.natAbs : ℚ) else n.natAbs) = n := by
  have habs : ((n.natAbs : Int) : ℚ) = ((|n| : Int) : ℚ) := by rw [Int.natCast_natAbs]
  rw [Int.cast_natCast] at habs
  by_cases hneg : n < 0
  · simp [hneg, habs, abs_of_neg hneg]
  · simp [hneg, habs, abs_of_nonneg (not_lt.mp hneg)]

namespace Decimal

/-- The zeros at the end of reversed digits are counted, and the rest is kept. -/
theorem dropZeros_split (ds : List Char) :
    List.replicate (dropZeros ds).1 '0' ++ (dropZeros ds).2 = ds ∧ (dropZeros ds).2.head? ≠ some '0' := by
  induction ds with
  | nil => simp [dropZeros]
  | cons c ds ih =>
    by_cases hc : c = '0'
    · subst hc
      obtain ⟨hsplit, hhead⟩ := ih
      refine ⟨?_, hhead⟩
      change List.replicate ((dropZeros ds).1 + 1) '0' ++ (dropZeros ds).2 = _
      rw [List.replicate_succ, List.cons_append, hsplit]
    · have hkeep : dropZeros (c :: ds) = (0, c :: ds) := by simp [dropZeros, hc]
      simp [hkeep, hc]

/-- The significant digits of a number and the zeros behind them are its digits. -/
theorem significant_append (n : Nat) :
    (significant n).1 ++ List.replicate (significant n).2 '0' = Nat.toDigits 10 n := by
  have hsplit := congrArg List.reverse (dropZeros_split (Nat.toDigits 10 n).reverse).1
  rwa [List.reverse_append, List.reverse_replicate, List.reverse_reverse] at hsplit

theorem digits_significant (n : Nat) : Digits (significant n).1 := fun c hc =>
  digits_toDigits n c (by rw [← significant_append]; exact List.mem_append_left _ hc)

theorem significant_ne_nil {n : Nat} (h : n ≠ 0) : (significant n).1 ≠ [] := fun hnil => by
  have hzeros := congrArg digitsValue (significant_append n)
  rw [hnil, List.nil_append, digitsValue_zeros, digitsValue_toDigits] at hzeros
  exact h hzeros.symm

/-- The text of digits begins with a digit. -/
theorem head_placePoint {ds : List Char} (h : Digits ds) (hne : ds ≠ []) (point : Int) (c : Char)
    (hc : (placePoint ds point).toList.head? = some c) : c ≠ '-' ∧ c ≠ '+' := by
  obtain ⟨d, es, rfl⟩ := List.exists_cons_of_ne_nil hne
  have hdigit : c.isDigit = true := by
    unfold placePoint at hc
    by_cases hbehind : ((d :: es).length : Int) ≤ point ∧ point ≤ 21
    · simp only [if_pos hbehind, String.toList_ofList, List.cons_append, List.head?_cons, Option.some.injEq] at hc
      exact hc ▸ h d (by simp)
    by_cases hinside : 0 < point ∧ point ≤ 21
    · obtain ⟨n, hn⟩ : ∃ n, point.toNat = n + 1 := ⟨point.toNat - 1, by omega⟩
      simp only [if_neg hbehind, if_pos hinside, hn, String.toList_ofList, List.take_succ_cons, List.cons_append,
        List.head?_cons, Option.some.injEq] at hc
      exact hc ▸ h d (by simp)
    by_cases hbefore : -6 < point ∧ point ≤ 0
    · simp only [if_neg hbehind, if_neg hinside, if_pos hbefore] at hc
      have hzero : c = '0' := by simpa using hc.symm
      rw [hzero]
      rfl
    · simp only [if_neg hbehind, if_neg hinside, if_neg hbefore] at hc
      have hfirst : c = d := by simpa using hc.symm
      exact hfirst ▸ h d (by simp)
  exact not_sign_of_isDigit hdigit

/-- The text of a number other than zero: its sign, and its digits with the point among them. -/
theorem toText_of_ne {a : Decimal} (h : a.mantissa ≠ 0) :
    a.toText = String.ofList ((if decide (a.mantissa < 0) then ['-'] else [])
      ++ (placePoint (significant a.mantissa.natAbs).1
        ((significant a.mantissa.natAbs).1.length + (significant a.mantissa.natAbs).2 - a.scale)).toList) := by
  unfold toText
  rw [if_neg (by simpa using h)]
  by_cases hneg : a.mantissa < 0 <;> simp [hneg]

/-- **`toText`** — the text of a number stands for it. -/
theorem ofDigits_toText (a : Decimal) : Datum.ofDigits a.toText = .number a.toRat := by
  by_cases hzero : a.mantissa = 0
  · have hvalue : a.toRat = 0 := by simp [toRat, hzero]
    have htext := @Datum.ofDigits_signed false (List.replicate 1 '0') (by simp)
    rw [toText, if_pos (by simpa using hzero), hvalue]
    rw [Datum.ofUnsigned_whole false (digits_zeros 1), Datum.scaled, digitsValue_zeros] at htext
    simpa using htext
  · have hne := significant_ne_nil (Int.natAbs_ne_zero.mpr hzero)
    have hdigits := digits_significant a.mantissa.natAbs
    set ds := (significant a.mantissa.natAbs).1 with hds
    set zeros := (significant a.mantissa.natAbs).2 with hz
    have hzeros := Datum.scaled_zeros (decide (a.mantissa < 0)) ds (zeros - a.scale) 0 zeros
    have hpower : (ds.length + zeros - a.scale : Int) - ds.length = zeros - a.scale := by omega
    rw [toText_of_ne hzero, Datum.ofDigits_signed _ (head_placePoint hdigits hne _), Datum.ofUnsigned_placePoint _ hdigits hne,
      hpower, ← hzeros, List.replicate_zero, List.nil_append, significant_append, Datum.scaled,
      digitsValue_toDigits, toRat]
    have hscale : ((zeros : Int) - a.scale - zeros : Int) = -(a.scale : Int) := by omega
    rw [signed_natAbs, hscale, zpow_neg, zpow_natCast, div_eq_mul_inv]

end Decimal

namespace Value

/-- The text of an integer: its sign and its digits. -/
theorem toString_signed (n : Int) :
    toString n = String.ofList ((if decide (n < 0) then ['-'] else []) ++ Nat.toDigits 10 n.natAbs) := by
  apply String.toList_inj.mp
  cases n with
  | ofNat m => simp [Int.toString_eq_repr, Int.repr, Nat.toList_repr]
  | negSucc m => simp [Int.toString_eq_repr, Int.repr, Nat.toList_repr, Int.negSucc_lt_zero]

/-- Digits begin with no sign. -/
theorem head_toDigits (m : Nat) (c : Char) (hc : (Nat.toDigits 10 m).head? = some c) : c ≠ '-' ∧ c ≠ '+' :=
  not_sign_of_isDigit (digits_toDigits m c (List.mem_of_mem_head? hc))

/-- The text of an integer stands for it. -/
theorem ofDigits_toString (n : Int) : Datum.ofDigits (toString n) = .number n := by
  rw [toString_signed, Datum.ofDigits_signed _ (head_toDigits _), Datum.ofUnsigned_whole _ (digits_toDigits _), Datum.scaled,
    digitsValue_toDigits, signed_natAbs, zpow_zero, mul_one]

end Value

/-! ## Endpoints -/

/-- A number is written as the number that it is: it is finite, and no digits of it are left out. -/
def Double.WrittenExactly : Double → Prop
  | .finite negative size _ => (written negative size).toRat = (size.exact.withSign negative).toRat
  | .infinite _ | .undefined => False

instance : DecidablePred Double.WrittenExactly
  | .finite .. => inferInstanceAs (Decidable (_ = _))
  | .infinite _ | .undefined => isFalse id

namespace Value

/-- The datum that an endpoint stands for; there is none for a number that is not finite. -/
def datum : Value → Datum
  | .text s => .text s
  | .number x => x.position.rational?.elim .null .number
  | .integer n => .number n
  | .flag b => .bool b

/-- The text of an endpoint stands for it, which only the text of a number may fail to do. -/
def WrittenExactly : Value → Prop
  | .number x => x.WrittenExactly
  | _ => True

@[simp] theorem writtenExactly_integer (n : Int) : (integer n).WrittenExactly := trivial

/-- A number that is written exactly can be compared. -/
theorem sort?_of_writtenExactly {x : Double} (h : x.WrittenExactly) : (number x).sort? = some .number := by
  cases x with
  | finite negative size held => rfl
  | infinite negative => cases h
  | undefined => cases h

/-- The text of a number of either representation stands for it, if it is written exactly. -/
theorem ofDigits_toText {v : Value} (h : v.sort? = some .number) (hwritten : v.WrittenExactly) :
    Datum.ofDigits v.toText = v.datum := by
  cases v with
  | number x =>
    cases x with
    | finite negative size held =>
      have hvalue : (Double.written negative size).toRat = (size.exact.withSign negative).toRat := hwritten
      rw [toText, Double.toText, Decimal.ofDigits_toText, hvalue]
      rfl
    | infinite negative => cases hwritten
    | undefined => cases hwritten
  | integer n => exact ofDigits_toString n
  | text s => cases h
  | flag b => cases h

end Value

end AlgebraSql
