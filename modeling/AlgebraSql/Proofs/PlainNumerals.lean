import AlgebraSql.Proofs.Numerals
import Mathlib.Tactic.NormNum

/-!
# Plain numerals — scientific notation gives way to plain digits, and nothing else changes.

A text in scientific notation is a sign, digits with at most one point among them, a letter and a signed power of ten;
everything but the letter and the digits of the power may be left out.  Its plain text is a numeral without a power
of ten and without a plus sign, does not begin with zeros that carry nothing, and denotes the same number.  A text of
any other form is left as it is, and so a plain text is too.
-/

namespace AlgebraSql

open Decimal

/-! ## Numbers as they are written -/

/-- A sign in front of digits, if there is one. -/
inductive Sign where
  | absent | plus | minus
  deriving DecidableEq

namespace Sign

def chars : Sign → List Char
  | .absent => []
  | .plus => ['+']
  | .minus => ['-']

def isMinus : Sign → Bool
  | .minus => true
  | _ => false

/-- The number behind the sign, or its opposite. -/
def applied {α : Type} [Neg α] : Sign → α → α
  | .minus, a => -a
  | _, a => a

end Sign

/-- The point and the digits behind it, if there is a point. -/
def behindPoint : Option (List Char) → List Char
  | none => []
  | some ds => '.' :: ds

/-- The number that digits with or without a point denote: each place behind the point counts a tenth of the one before. -/
def placeValue (whole : List Char) (fraction : Option (List Char)) : ℚ :=
  digitsValue whole + digitsValue (fraction.getD []) / 10 ^ (fraction.getD []).length

/-- **`ScientificText`** — a text in scientific notation, by its parts. -/
structure ScientificText where
  sign : Sign
  whole : List Char
  fraction : Option (List Char)
  /-- The letter in front of the power is a large one. -/
  capital : Bool
  powerSign : Sign
  power : List Char
  digits_whole : Digits whole
  digits_fraction : Digits (fraction.getD [])
  digits_power : Digits power
  power_ne : power ≠ []

namespace ScientificText

/-- The letter and the power of ten. -/
def powerChars (s : ScientificText) : List Char :=
  (if s.capital then 'E' else 'e') :: (s.powerSign.chars ++ s.power)

/-- The text behind the sign. -/
def unsigned (s : ScientificText) : List Char := s.whole ++ behindPoint s.fraction ++ s.powerChars

def toText (s : ScientificText) : String := String.ofList (s.sign.chars ++ s.unsigned)

def exponent (s : ScientificText) : ℤ := s.powerSign.applied (digitsValue s.power : ℤ)

/-- The number that a text in scientific notation denotes. -/
def value (s : ScientificText) : ℚ := s.sign.applied (placeValue s.whole s.fraction * 10 ^ s.exponent)

/-- The numeral that is read of a text in scientific notation. -/
def numeral (s : ScientificText) : Scientific :=
  ⟨s.sign.isMinus, s.whole, s.fraction.getD [], s.exponent⟩

end ScientificText

/-- **`PlainNumeral`** — a numeral without a power of ten, by its parts: digits on both sides of its point, if it has
one, and no zero in front of other digits. -/
structure PlainNumeral where
  negative : Bool
  whole : List Char
  fraction : Option (List Char)
  digits_whole : Digits whole
  whole_ne : whole ≠ []
  whole_lead : whole.head? = some '0' → whole = ['0']
  digits_fraction : Digits (fraction.getD [])
  fraction_ne : fraction ≠ some []

namespace PlainNumeral

/-- The text behind the sign. -/
def unsigned (p : PlainNumeral) : List Char := p.whole ++ behindPoint p.fraction

def toText (p : PlainNumeral) : String := String.ofList ((if p.negative then ['-'] else []) ++ p.unsigned)

/-- The number that a plain numeral denotes. -/
def value (p : PlainNumeral) : ℚ := if p.negative then -placeValue p.whole p.fraction else placeValue p.whole p.fraction

end PlainNumeral

/-! ## Values -/

/-- Digits on both sides of a point denote the number of all digits, less the places behind the point. -/
theorem placeValue_mul (whole : List Char) (fraction : Option (List Char)) (e : ℤ) :
    placeValue whole fraction * 10 ^ e
      = digitsValue (whole ++ fraction.getD []) * 10 ^ (e - (fraction.getD []).length) := by
  have hten : (10 : ℚ) ≠ 0 := by norm_num
  rw [placeValue, digitsValue_append, zpow_sub₀ hten, zpow_natCast]
  push_cast
  field_simp

/-- The number that a plain numeral denotes is read of its text. -/
theorem PlainNumeral.ofDigits_toText (p : PlainNumeral) : Datum.ofDigits p.toText = .number p.value := by
  have hhead : ∀ c, p.unsigned.head? = some c → c ≠ '-' ∧ c ≠ '+' := by
    intro c hc
    obtain ⟨d, ds, hds⟩ := List.exists_cons_of_ne_nil p.whole_ne
    rw [unsigned, hds, List.cons_append, List.head?_cons, Option.some.injEq] at hc
    exact not_sign_of_isDigit (hc ▸ p.digits_whole d (by simp [hds]))
  have hread : Datum.ofUnsigned p.negative p.unsigned
      = Datum.scaled p.negative (p.whole ++ p.fraction.getD []) (0 - (p.fraction.getD []).length) := by
    have hfraction := p.digits_fraction
    unfold unsigned
    cases hf : p.fraction with
    | none => simpa [behindPoint] using Datum.ofUnsigned_whole p.negative p.digits_whole
    | some ds =>
      rw [hf] at hfraction
      simpa [behindPoint] using Datum.ofUnsigned_point p.negative p.digits_whole hfraction
  have hvalue := placeValue_mul p.whole p.fraction 0
  rw [zpow_zero, mul_one] at hvalue
  rw [toText, Datum.ofDigits_signed _ hhead, hread, Datum.scaled, value, hvalue]
  cases p.negative <;> simp

/-- The number that a text in scientific notation denotes is that of its numeral. -/
theorem ScientificText.ofScientific_numeral (s : ScientificText) : Datum.ofScientific s.numeral = .number s.value := by
  rw [Datum.ofScientific_eq, Datum.scaled, value, placeValue_mul]
  cases hs : s.sign <;> simp [numeral, hs, Sign.applied, Sign.isMinus]

/-! ## Reading scientific notation -/

namespace ScientificText

theorem noDigit_powerChars (s : ScientificText) :
    NoDigit s.powerChars ∧ s.powerChars.head? ≠ some '.' ∧ s.powerChars ≠ [] := by
  unfold powerChars NoDigit
  cases s.capital <;> simp

/-- The letter and the power are read as the exponent. -/
theorem readPower_powerChars (s : ScientificText) : Scientific.readPower s.powerChars = some s.exponent := by
  have hdigits : Scientific.readDigits s.power = some (digitsValue s.power) := by
    have hall : s.power.all Char.isDigit = true := List.all_eq_true.mpr s.digits_power
    simp [Scientific.readDigits, s.power_ne, hall]
  have hexponent : Scientific.readExponent (s.powerSign.chars ++ s.power) = some s.exponent := by
    unfold exponent
    cases s.powerSign with
    | minus => simp [Sign.chars, Sign.applied, Scientific.readExponent, hdigits]
    | plus => simp [Sign.chars, Sign.applied, Scientific.readExponent, hdigits]
    | absent =>
      -- without a sign the power begins with a digit, which is no sign
      obtain ⟨d, ds, hds⟩ := List.exists_cons_of_ne_nil s.power_ne
      obtain ⟨hminus, hplus⟩ := not_sign_of_isDigit (s.digits_power d (by simp [hds]))
      show Scientific.readExponent s.power = _
      rw [hds] at hdigits ⊢
      simp [Scientific.readExponent, hminus, hplus, hdigits, Sign.applied]
  unfold powerChars
  cases s.capital <;> exact hexponent

/-- The text behind the sign is read as the numeral. -/
theorem readBody_unsigned (s : ScientificText) (negative : Bool) :
    Scientific.readBody negative s.unsigned = some ⟨negative, s.whole, s.fraction.getD [], s.exponent⟩ := by
  obtain ⟨hnodigit, hpoint, -⟩ := noDigit_powerChars s
  have hsplit : Scientific.splitMantissa s.unsigned = (s.whole, s.fraction.getD [], s.powerChars) := by
    have hfraction := s.digits_fraction
    unfold unsigned
    cases hf : s.fraction with
    | none => simpa [behindPoint] using splitMantissa_whole s.digits_whole hnodigit hpoint
    | some ds =>
      rw [hf] at hfraction
      simpa [behindPoint] using splitMantissa_point s.digits_whole hfraction hnodigit
  simp [Scientific.readBody, hsplit, readPower_powerChars]

/-- What stands behind the sign does not begin with a sign. -/
theorem head_unsigned (s : ScientificText) (c : Char) (hc : s.unsigned.head? = some c) : c ≠ '-' ∧ c ≠ '+' := by
  unfold unsigned at hc
  cases hw : s.whole with
  | cons d ds =>
    obtain rfl : d = c := by simpa [hw] using hc
    exact not_sign_of_isDigit (s.digits_whole d (by simp [hw]))
  | nil =>
    cases hf : s.fraction <;> cases hcap : s.capital <;>
      (simp [hw, hf, hcap, behindPoint, powerChars] at hc; subst hc; decide)

/-- A text in scientific notation is read as its numeral. -/
theorem read?_toText (s : ScientificText) : Scientific.read? s.toText.toList = some s.numeral := by
  rw [toText, String.toList_ofList]
  cases hs : s.sign with
  | minus => simp [Sign.chars, Scientific.read?, readBody_unsigned, numeral, hs, Sign.isMinus]
  | plus => simp [Sign.chars, Scientific.read?, readBody_unsigned, numeral, hs, Sign.isMinus]
  | absent =>
    have hbody := readBody_unsigned s false
    show Scientific.read? s.unsigned = _
    cases hu : s.unsigned with
    | nil => simpa [hu, Scientific.read?, numeral, hs, Sign.isMinus] using hbody
    | cons c cs =>
      obtain ⟨hminus, hplus⟩ := head_unsigned s c (by rw [hu]; rfl)
      simpa [hu, Scientific.read?, hminus, hplus, numeral, hs, Sign.isMinus] using hbody

end ScientificText

namespace Scientific

/-- Whatever is split into a mantissa and a rest is made of them. -/
theorem splitMantissa_parts (cs : List Char) :
    ∃ fraction : Option (List Char), Digits (splitMantissa cs).1 ∧ Digits (fraction.getD [])
      ∧ cs = (splitMantissa cs).1 ++ behindPoint fraction ++ (splitMantissa cs).2.2 := by
  have hwhole := digits_takeWhile cs
  have hcs : cs.takeWhile Char.isDigit ++ cs.dropWhile Char.isDigit = cs := List.takeWhile_append_dropWhile
  unfold splitMantissa
  split
  · next rest hrest =>
    refine ⟨some (rest.takeWhile Char.isDigit), hwhole, digits_takeWhile rest, ?_⟩
    rw [behindPoint, List.append_assoc, List.cons_append, List.takeWhile_append_dropWhile, ← hrest, hcs]
  · refine ⟨none, hwhole, by simp [Digits], ?_⟩
    simp [behindPoint, hcs]

theorem readDigits_parts {ds : List Char} {k : Nat} (h : readDigits ds = some k) : Digits ds ∧ ds ≠ [] := by
  unfold readDigits at h
  split at h
  · cases h
  · next hds =>
    simp only [Bool.or_eq_true, Bool.not_eq_true', not_or, List.isEmpty_iff, Bool.not_eq_false] at hds
    exact ⟨List.all_eq_true.mp hds.2, hds.1⟩

/-- Whatever is read as an exponent is a letter, a sign that may be missing, and digits. -/
theorem readPower_parts {cs : List Char} {e : Int} (h : readPower cs = some e) :
    ∃ (capital : Bool) (sign : Sign) (power : List Char), Digits power ∧ power ≠ []
      ∧ cs = (if capital then 'E' else 'e') :: (sign.chars ++ power) := by
  have hexponent : ∀ {ds : List Char}, readExponent ds = some e →
      ∃ (sign : Sign) (power : List Char), Digits power ∧ power ≠ [] ∧ ds = sign.chars ++ power := by
    intro ds hds
    unfold readExponent at hds
    split at hds
    · next power =>
      obtain ⟨_, hread, -⟩ := Option.map_eq_some_iff.mp hds
      obtain ⟨k, hk, -⟩ := Option.bind_eq_some_iff.mp hread
      exact ⟨.minus, power, (readDigits_parts hk).1, (readDigits_parts hk).2, rfl⟩
    · next power =>
      obtain ⟨k, hk, -⟩ := Option.map_eq_some_iff.mp hds
      exact ⟨.plus, power, (readDigits_parts hk).1, (readDigits_parts hk).2, rfl⟩
    · obtain ⟨k, hk, -⟩ := Option.map_eq_some_iff.mp hds
      exact ⟨.absent, ds, (readDigits_parts hk).1, (readDigits_parts hk).2, rfl⟩
  unfold readPower at h
  split at h
  · obtain ⟨sign, power, hdigits, hne, rfl⟩ := hexponent h
    exact ⟨false, sign, power, hdigits, hne, rfl⟩
  · obtain ⟨sign, power, hdigits, hne, rfl⟩ := hexponent h
    exact ⟨true, sign, power, hdigits, hne, rfl⟩
  · cases h

/-- Whatever is read behind a sign is the text of a number in scientific notation. -/
theorem exists_unsigned {negative : Bool} {cs : List Char} {n : Scientific} (h : readBody negative cs = some n)
    (sign : Sign) : ∃ s : ScientificText, s.sign = sign ∧ s.unsigned = cs := by
  simp only [readBody, Option.map_eq_some_iff] at h
  obtain ⟨e, he, -⟩ := h
  obtain ⟨fraction, hwhole, hfraction, hcs⟩ := splitMantissa_parts cs
  obtain ⟨capital, powerSign, power, hpower, hne, hrest⟩ := readPower_parts he
  refine ⟨⟨sign, _, fraction, capital, powerSign, power, hwhole, hfraction, hpower, hne⟩, rfl, ?_⟩
  rw [hrest] at hcs
  exact hcs.symm

/-- Whatever is read is a text in scientific notation. -/
theorem exists_scientificText {cs : List Char} {n : Scientific} (h : read? cs = some n) :
    ∃ s : ScientificText, s.toText.toList = cs := by
  unfold read? at h
  split at h
  · obtain ⟨s, hsign, hs⟩ := exists_unsigned h .minus
    exact ⟨s, by rw [ScientificText.toText, String.toList_ofList, hsign, hs]; rfl⟩
  · obtain ⟨s, hsign, hs⟩ := exists_unsigned h .plus
    exact ⟨s, by rw [ScientificText.toText, String.toList_ofList, hsign, hs]; rfl⟩
  · obtain ⟨s, hsign, hs⟩ := exists_unsigned h .absent
    exact ⟨s, by rw [ScientificText.toText, String.toList_ofList, hsign, hs]; rfl⟩

/-! ## Writing plain digits -/

/-- Digits without leading zeros have a digit, and a zero in front of them is the only one. -/
theorem trimZeros_lead (ds : List Char) :
    trimZeros ds ≠ [] ∧ ((trimZeros ds).head? = some '0' → trimZeros ds = ['0']) := by
  unfold trimZeros
  split
  · exact ⟨by simp, fun _ => rfl⟩
  · next hne =>
    refine ⟨hne, fun hzero => ?_⟩
    have hhead := List.head?_dropWhile_not (· == '0') ds
    rw [hzero] at hhead
    simp at hhead

/-- Digits with the point behind some of them are a plain numeral. -/
theorem exists_placed (negative : Bool) {ds : List Char} (h : Digits ds) (n : Nat) :
    ∃ p : PlainNumeral, p.negative = negative
      ∧ p.unsigned = if ds.length ≤ n then trimZeros (ds ++ List.replicate (n - ds.length) '0')
        else trimZeros (ds.take n) ++ '.' :: ds.drop n := by
  split
  · obtain ⟨-, hdigits⟩ := trimZeros_traits (h.append (digits_zeros (n - ds.length)))
    obtain ⟨hne, hlead⟩ := trimZeros_lead (ds ++ List.replicate (n - ds.length) '0')
    exact ⟨⟨negative, _, none, hdigits, hne, hlead, by simp [Digits], by simp⟩, rfl, List.append_nil _⟩
  · next hlt =>
    obtain ⟨-, hdigits⟩ := trimZeros_traits (h.take n)
    obtain ⟨hne, hlead⟩ := trimZeros_lead (ds.take n)
    have hbehind : some (ds.drop n) ≠ some [] := by simpa using hlt
    exact ⟨⟨negative, _, some (ds.drop n), hdigits, hne, hlead, h.drop n, hbehind⟩, rfl, rfl⟩

/-- The plain digits of a numeral are a plain numeral. -/
theorem exists_plainNumeral {n : Scientific} (hwhole : Digits n.whole) (hfraction : Digits n.fraction) :
    ∃ p : PlainNumeral, p.toText = String.ofList n.plain := by
  have hall := hwhole.append hfraction
  unfold plain pointed PlainNumeral.toText
  by_cases hpoint : (n.whole.length + n.exponent : Int) ≤ 0
  · simp only [hpoint, if_true]
    obtain ⟨p, hnegative, hp⟩ := exists_placed n.negative ((digits_zeros _).append hall) 1
    exact ⟨p, by rw [hnegative, hp]⟩
  · simp only [hpoint, if_false]
    obtain ⟨p, hnegative, hp⟩ := exists_placed n.negative hall (n.whole.length + n.exponent : Int).toNat
    exact ⟨p, by rw [hnegative, hp]⟩

end Scientific

/-! ## Plain text -/

/-- A text in scientific notation has a letter in it. -/
theorem ScientificText.letter_mem (s : ScientificText) : 'e' ∈ s.toText.toList ∨ 'E' ∈ s.toText.toList := by
  rw [toText, String.toList_ofList, unsigned, powerChars]
  cases s.capital <;> simp

/-- A plain numeral has no letter in it. -/
theorem PlainNumeral.letter_not_mem (p : PlainNumeral) : 'e' ∉ p.toText.toList ∧ 'E' ∉ p.toText.toList := by
  have hchars : ∀ c ∈ p.toText.toList, c.isDigit = true ∨ c = '-' ∨ c = '.' := by
    have hwhole := p.digits_whole
    have hfraction := p.digits_fraction
    intro c hc
    rw [toText, String.toList_ofList, unsigned, List.mem_append, List.mem_append] at hc
    rcases hc with hsign | hc | hc
    · cases hn : p.negative <;> simp_all
    · exact .inl (hwhole c hc)
    · cases hf : p.fraction with
      | none => simp [hf, behindPoint] at hc
      | some ds =>
        rw [hf] at hc hfraction
        rcases List.mem_cons.mp hc with rfl | hmem
        · exact .inr (.inr rfl)
        · exact .inl (hfraction c hmem)
  exact ⟨fun h => by simpa using hchars 'e' h, fun h => by simpa using hchars 'E' h⟩

/-- A text that is not in scientific notation is left as it is. -/
theorem plainText_of_ne {text : String} (h : ∀ s : ScientificText, s.toText ≠ text) : plainText text = text := by
  unfold plainText
  cases hn : Scientific.read? text.toList with
  | none => rfl
  | some n =>
    obtain ⟨s, hs⟩ := Scientific.exists_scientificText hn
    exact absurd (String.toList_inj.mp hs) (h s)

/-- A plain numeral is left as it is. -/
theorem PlainNumeral.plainText_toText (p : PlainNumeral) : plainText p.toText = p.toText := by
  apply plainText_of_ne
  intro s hs
  have hletter := s.letter_mem
  rw [hs] at hletter
  exact hletter.elim p.letter_not_mem.1 p.letter_not_mem.2

/-- A text in scientific notation becomes a plain numeral. -/
theorem ScientificText.exists_plainText (s : ScientificText) : ∃ p : PlainNumeral, plainText s.toText = p.toText := by
  obtain ⟨hwhole, hfraction, -⟩ := Scientific.read?_traits s.read?_toText
  obtain ⟨p, hp⟩ := Scientific.exists_plainNumeral hwhole hfraction
  exact ⟨p, by rw [plainText, s.read?_toText, hp]⟩

/-- **Plain numerals** — the plain text of a text in scientific notation is a plain numeral that denotes the same
number; every other text is its own plain text; and so is every plain text. -/
theorem plainText_exact :
    (∀ s : ScientificText, ∃ p : PlainNumeral, plainText s.toText = p.toText ∧ p.value = s.value)
      ∧ (∀ text, (∀ s : ScientificText, s.toText ≠ text) → plainText text = text)
      ∧ ∀ text, plainText (plainText text) = plainText text := by
  refine ⟨?_, fun _ => plainText_of_ne, ?_⟩
  · intro s
    obtain ⟨p, hp⟩ := s.exists_plainText
    refine ⟨p, hp, ?_⟩
    have hvalue : Datum.number p.value = .number s.value := by
      calc Datum.number p.value = Datum.ofDigits (plainText s.toText) := by rw [hp, p.ofDigits_toText]
        _ = Datum.ofDigits s.toText := ofDigits_plainText s.toText
        _ = .number s.value := by
          rw [← s.ofScientific_numeral, ← (Scientific.read?_traits s.read?_toText).2.2, String.ofList_toList]
    exact Datum.number.inj hvalue
  · intro text
    by_cases h : ∃ s : ScientificText, s.toText = text
    · obtain ⟨s, rfl⟩ := h
      obtain ⟨p, hp⟩ := s.exists_plainText
      rw [hp, p.plainText_toText]
    · rw [plainText_of_ne fun s hs => h ⟨s, hs⟩, plainText_of_ne fun s hs => h ⟨s, hs⟩]

/-- A negative numeral without digits in front of its point, and a power of ten that moves the point to the left. -/
def fortieth : ScientificText where
  sign := .minus
  whole := []
  fraction := some ['2', '5', '0']
  capital := true
  powerSign := .minus
  power := ['1']
  digits_whole := by simp [Digits]
  digits_fraction := by simp [Digits]
  digits_power := by simp [Digits]
  power_ne := by simp

/-- It gets a zero in front of the point, and a text with a letter but without a power stays as it is. -/
theorem plainText_exact_fortieth :
    fortieth.toText = "-.250E-1" ∧ fortieth.value = -(1 / 40) ∧ plainText "-.250E-1" = "-0.0250"
      ∧ (∃ p : PlainNumeral, plainText fortieth.toText = p.toText ∧ p.value = fortieth.value)
      ∧ (∀ s : ScientificText, s.toText ≠ "12e") ∧ plainText "12e" = "12e" := by
  obtain ⟨hscientific, hother, -⟩ := plainText_exact
  have hnone : ∀ s : ScientificText, s.toText ≠ "12e" := by
    intro s hs
    have hnone : Scientific.read? "12e".toList = none := by decide +kernel
    have hread := s.read?_toText
    rw [hs, hnone] at hread
    cases hread
  have hvalue : fortieth.value = -(1 / 40) := by
    have hexponent : fortieth.exponent = -1 := rfl
    have hwhole : digitsValue [] = 0 := rfl
    have hfraction : digitsValue ['2', '5', '0'] = 250 := rfl
    rw [ScientificText.value, hexponent]
    norm_num [fortieth, Sign.applied, placeValue, hwhole, hfraction]
  exact ⟨by decide +kernel, hvalue, by decide +kernel, hscientific fortieth, hnone, hother "12e" hnone⟩

end AlgebraSql
