import AlgebraSql.RangeSet.Range
import Mathlib.Data.List.Lex
import Mathlib.Data.Rat.Lemmas
import Mathlib.Data.Sum.Order
import Mathlib.Order.Compare
import Mathlib.Order.CountableDenseLinearOrder
import Mathlib.Tactic.FieldSimp
import Mathlib.Tactic.Positivity

/-!
# The order of values — every value but the undefined number has a place in one linear order.

Values are compared only with values of their sort.  A text stands where the ranks of its characters
stand lexicographically, a number of either representation where its exact value stands, and the infinite
numbers at both ends of the numbers.  So the comparison of two values of one sort is that of their places.
The undefined number is of no sort: it would be equal to numbers that differ from each other.
-/

namespace AlgebraSql

/-- What values may be compared with each other; numbers of both representations are of one sort. -/
inductive ValueSort where
  | text | number | flag
  deriving Repr, DecidableEq

/-- The rational numbers with an infinite one at either end. -/
abbrev ExtendedRat : Type := WithBot (WithTop ℚ)

/-- A linear order in which all values have their place. -/
def Place : Type := List Nat ⊕ₗ (ExtendedRat ⊕ₗ Bool)

noncomputable instance : LinearOrder Place := inferInstanceAs (LinearOrder (List Nat ⊕ₗ (ExtendedRat ⊕ₗ Bool)))

namespace Place

/-- The place of a text with characters of these ranks. -/
def text (ranks : List Nat) : Place := Sum.inlₗ ranks

/-- The place of a number, which may be infinite. -/
def extended (x : ExtendedRat) : Place := Sum.inrₗ (Sum.inlₗ x)

def number (q : ℚ) : Place := extended ((q : WithTop ℚ) : ExtendedRat)

def flag (b : Bool) : Place := Sum.inrₗ (Sum.inrₗ b)

theorem text_strictMono : StrictMono text := fun _ _ h => Sum.Lex.inl_lt_inl_iff.mpr h

theorem extended_strictMono : StrictMono extended := fun _ _ h =>
  Sum.Lex.inr_lt_inr_iff.mpr (Sum.Lex.inl_lt_inl_iff.mpr h)

theorem number_strictMono : StrictMono number := fun _ _ h =>
  extended_strictMono (WithBot.coe_lt_coe.mpr (WithTop.coe_lt_coe.mpr h))

theorem flag_strictMono : StrictMono flag := fun _ _ h =>
  Sum.Lex.inr_lt_inr_iff.mpr (Sum.Lex.inr_lt_inr_iff.mpr h)

end Place

/-! ## Numbers -/

namespace Decimal

theorem tenTo_eq (n : Nat) : tenTo n = 10 ^ n := by
  induction n with
  | zero => rfl
  | succ n ih => rw [tenTo, ih, pow_succ, mul_comm]

/-- The exact value of a number. -/
def toRat (a : Decimal) : ℚ := a.mantissa / 10 ^ a.scale

@[simp]
theorem toRat_ofInt (n : Int) : (ofInt n).toRat = n := by simp [toRat, ofInt]

/-- Numbers are compared by their exact values. -/
theorem compare_eq (a b : Decimal) : a.compare b = cmp a.toRat b.toRat := by
  have hscale : ∀ n : Nat, (0 : ℚ) < 10 ^ n := fun n => by positivity
  have hlt : ∀ a b : Decimal, a.toRat < b.toRat ↔ a.mantissa * tenTo b.scale < b.mantissa * tenTo a.scale := by
    intro a b
    rw [toRat, toRat, div_lt_div_iff₀ (hscale _) (hscale _), tenTo_eq, tenTo_eq]
    exact_mod_cast Iff.rfl
  rw [Decimal.compare, ← cmp_eq_compare]
  simp only [cmp, cmpUsing, hlt]

end Decimal

/-! ## Texts -/

/-- Texts are compared by the ranks of their characters, from left to right. -/
theorem Text.compareChars_eq (as bs : List Char) :
    Text.compareChars as bs
      = cmp (Place.text (as.map Text.unitRank)) (Place.text (bs.map Text.unitRank)) := by
  induction as generalizing bs with
  | nil =>
    cases bs with
    | nil => exact (cmp_self_eq_eq _).symm
    | cons b bs => exact ((cmp_eq_lt_iff _ _).mpr (Place.text_strictMono (List.nil_lt_cons _ _))).symm
  | cons a as ih =>
    cases bs with
    | nil => exact ((cmp_eq_gt_iff _ _).mpr (Place.text_strictMono (List.nil_lt_cons _ _))).symm
    | cons b bs =>
      rw [Text.compareChars, ih, ← cmp_eq_compare, List.map_cons, List.map_cons]
      rcases lt_trichotomy (Text.unitRank a) (Text.unitRank b) with h | h | h
      · have hlist := Place.text_strictMono
          (List.cons_lt_cons_iff.mpr (.inl h) : _ :: as.map Text.unitRank < _ :: bs.map Text.unitRank)
        rw [(cmp_eq_lt_iff _ _).mpr h, (cmp_eq_lt_iff _ _).mpr hlist]
        rfl
      · rw [h, cmp_self_eq_eq, Ordering.eq_then]
        have hcons : StrictMono fun ranks => Place.text (Text.unitRank b :: ranks) := fun _ _ hlt =>
          Place.text_strictMono (List.cons_lt_cons_iff.mpr (.inr ⟨rfl, hlt⟩))
        rw [Place.text_strictMono.cmp_map_eq, hcons.cmp_map_eq]
      · have hlist := Place.text_strictMono
          (List.cons_lt_cons_iff.mpr (.inl h) : _ :: bs.map Text.unitRank < _ :: as.map Text.unitRank)
        rw [(cmp_eq_gt_iff _ _).mpr h, (cmp_eq_gt_iff _ _).mpr hlist]
        rfl

/-! ## Positions -/

namespace Position

/-- The rational number, or the end of them, at which a number lies; the undefined number lies nowhere. -/
def extended? : Position → Option ExtendedRat
  | .below => some ⊥
  | .exactly d => some ((d.toRat : WithTop ℚ) : ExtendedRat)
  | .above => some ((⊤ : WithTop ℚ) : ExtendedRat)
  | .nowhere => none

/-- The rational number at which a number lies. -/
def rational? : Position → Option ℚ
  | .exactly d => some d.toRat
  | _ => none

theorem extended?_of_rational? {p : Position} {q : ℚ} (h : p.rational? = some q) :
    p.extended? = some ((q : WithTop ℚ) : ExtendedRat) := by
  cases p with
  | exactly d => cases h; rfl
  | below | above | nowhere => cases h

theorem less_iff {p q : Position} {x y : ExtendedRat} (hp : p.extended? = some x) (hq : q.extended? = some y) :
    p.less q = true ↔ x < y := by
  cases p with
  | nowhere => cases hp
  | below => cases hp; cases q <;> cases hq <;> simp [less]
  | above => cases hp; cases q <;> cases hq <;> simp [less]
  | exactly d =>
    cases hp
    cases q with
    | nowhere => cases hq
    | below => cases hq; simp [less]
    | above => cases hq; exact iff_of_true rfl (WithBot.coe_lt_coe.mpr (WithTop.coe_lt_top _))
    | exactly e =>
      cases hq
      rw [less, beq_iff_eq, Decimal.compare_eq, cmp_eq_lt_iff, WithBot.coe_lt_coe, WithTop.coe_lt_coe]

/-- Two numbers are compared by where they lie. -/
theorem compare_eq {p q : Position} {x y : ExtendedRat} (hp : p.extended? = some x) (hq : q.extended? = some y) :
    p.compare q = cmp x y := by
  simp only [Position.compare, less_iff hp hq, less_iff hq hp, cmp, cmpUsing]

end Position

/-! ## Values -/

namespace Value

/-- The sort of a value; the undefined number has none. -/
def sort? : Value → Option ValueSort
  | .text _ => some .text
  | .number x => x.position.extended?.map fun _ => .number
  | .integer _ => some .number
  | .flag _ => some .flag

@[simp] theorem sort?_text (s : String) : (text s).sort? = some .text := rfl

@[simp] theorem sort?_integer (n : Int) : (integer n).sort? = some .number := rfl

@[simp] theorem sort?_flag (b : Bool) : (flag b).sort? = some .flag := rfl

/-- The rational number that a value is, in either representation. -/
def rational? : Value → Option ℚ
  | .number x => x.position.rational?
  | .integer n => some n
  | _ => none

/-- The place of a value; the undefined number stands nowhere in particular. -/
noncomputable def place : Value → Place
  | .text s => .text (s.toList.map Text.unitRank)
  | .number x => .extended (x.position.extended?.getD ⊥)
  | .integer n => .number n
  | .flag b => .flag b

/-- A value of the sort of numbers has the place of a number. -/
theorem exists_extended {v : Value} (h : v.sort? = some .number) :
    ∃ p x, v.position? = some p ∧ p.extended? = some x ∧ v.place = .extended x := by
  cases v with
  | number y =>
    obtain ⟨x, hx, -⟩ := Option.map_eq_some_iff.mp h
    exact ⟨y.position, x, rfl, hx, by rw [place, hx]; rfl⟩
  | integer n => exact ⟨_, _, rfl, rfl, by rw [Decimal.toRat_ofInt]; rfl⟩
  | text s => cases h
  | flag b => cases h

/-- A rational number is of the sort of numbers and has the place of the number. -/
theorem traits_of_rational? {v : Value} {q : ℚ} (h : v.rational? = some q) :
    v.sort? = some .number ∧ v.place = .number q := by
  cases v with
  | number x =>
    have hx := Position.extended?_of_rational? h
    exact ⟨by rw [sort?, hx]; rfl, by rw [place, hx]; rfl⟩
  | integer n => cases h; exact ⟨rfl, rfl⟩
  | text s => cases h
  | flag b => cases h

/-- Numbers are compared by their exact values, whatever their representation. -/
theorem order_of_numbers {a b : Value} (ha : a.sort? = some .number) (hb : b.sort? = some .number) :
    a.order b = .ok (cmp a.place b.place) := by
  obtain ⟨p, x, hp, hx, hplace⟩ := exists_extended ha
  obtain ⟨q, y, hq, hy, hplace'⟩ := exists_extended hb
  have hcompare : a.compare? b = some (p.compare q) := by
    cases a <;> cases b <;> simp_all [compare?, position?]
  rw [order, hcompare, Position.compare_eq hx hy, hplace, hplace', Place.extended_strictMono.cmp_map_eq]

/-- Values of one sort are compared by their places. -/
theorem order_eq {a b : Value} {sort : ValueSort} (ha : a.sort? = some sort) (hb : b.sort? = some sort) :
    a.order b = .ok (cmp a.place b.place) := by
  cases sort with
  | number => exact order_of_numbers ha hb
  | text =>
    cases a with
    | text s =>
      cases b with
      | text t => simp only [order, compare?, place, Text.compare16, Text.compareChars_eq]
      | _ => simp [sort?] at hb
    | _ => simp [sort?] at ha
  | flag =>
    cases a with
    | flag p =>
      cases b with
      | flag q =>
        simp only [order, compare?, place]
        rw [Place.flag_strictMono.cmp_map_eq, ← cmp_eq_compare]
        cases p <;> cases q <;> rfl
      | _ => simp [sort?] at hb
    | _ => simp [sort?] at ha

end Value

end AlgebraSql
