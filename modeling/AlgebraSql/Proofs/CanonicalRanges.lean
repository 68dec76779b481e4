import AlgebraSql.Proofs.RangeSets
import Mathlib.Tactic.Linarith

/-!
# Canonical range sets — the ranges of a normal form are the maximal intervals of a union.

Between two different cuts beside numbers there is a number.  So separate ranges are known from the numbers
that they hold: the first one starts where these start and ends where they have their first gap, and the
others hold the numbers behind it.  Lists of ranges that hold the same numbers have normal forms with the same
ends, and a normal form is its own.
-/

namespace AlgebraSql

/-- Two ends at equal numbers, both closed or both open. -/
def Endpoint.Alike (e f : Endpoint) : Prop :=
  (∃ q, e.value.rational? = some q ∧ f.value.rational? = some q) ∧ e.closed = f.closed

namespace Range

/-- Both ends of a range are rational numbers, in either representation. -/
abbrev Rational (r : Range) : Prop := r.Ends fun v => ∃ q, v.rational? = some q

theorem Rational.over {r : Range} (h : r.Rational) : r.Over .number :=
  ⟨fun l hl => (h.1 l hl).elim fun _ hq => (Value.traits_of_rational? hq).1,
    fun u hu => (h.2 u hu).elim fun _ hq => (Value.traits_of_rational? hq).1⟩

/-- **`Alike`** — two ranges are the same up to numerically equal ends. -/
def Alike (r s : Range) : Prop :=
  Option.Rel Endpoint.Alike r.lower s.lower ∧ Option.Rel Endpoint.Alike r.upper s.upper

/-- A number lies in a range: behind its lower end, or on it if it is closed, and before its upper end, or on
it if it is closed. -/
def HoldsNumber (r : Range) (q : ℚ) : Prop :=
  (∀ l, r.lower = some l → ∃ p, l.value.rational? = some p ∧ (p < q ∨ p = q ∧ l.closed = true))
    ∧ ∀ u, r.upper = some u → ∃ p, u.value.rational? = some p ∧ (q < p ∨ q = p ∧ u.closed = true)

end Range

/-! ## Cuts beside numbers -/

namespace Cut

variable {c d : Cut} {p q : Place} {a b : Bool}

theorem beside_inj : beside p a = beside q b ↔ p = q ∧ a = b := by
  simp [beside]

theorem beside_ne_bot : beside p a ≠ ⊥ := bot_lt_beside.ne'

theorem beside_ne_top : beside p a ≠ ⊤ := beside_lt_top.ne

/-- A cut beside a number, or at an end of the order. -/
def IsNumeric (c : Cut) : Prop := c = ⊥ ∨ c = ⊤ ∨ ∃ q b, c = beside (.number q) b

/-- **Density** — between two cuts beside numbers lies a number. -/
theorem exists_number_between (hc : c.IsNumeric) (hd : d.IsNumeric) (h : c < d) :
    ∃ q : ℚ, c ≤ beside (.number q) false ∧ beside (.number q) true ≤ d := by
  have hlt : ∀ {p q : ℚ}, p < q → Place.number p < Place.number q := fun h => Place.number_strictMono h
  rcases hc with rfl | rfl | ⟨p, a, rfl⟩
  · rcases hd with rfl | rfl | ⟨q, b, rfl⟩
    · exact absurd h (lt_irrefl _)
    · exact ⟨0, bot_le, le_top⟩
    · exact ⟨q - 1, bot_le, beside_le_beside.mpr (.inl (hlt (by linarith)))⟩
  · exact absurd h not_top_lt
  · rcases hd with rfl | rfl | ⟨q, b, rfl⟩
    · exact absurd h not_lt_bot
    · exact ⟨p + 1, beside_le_beside.mpr (.inl (hlt (by linarith))), le_top⟩
    · rcases beside_lt_beside.mp h with hpq | ⟨hpq, hab⟩
      · have hpq : p < q := Place.number_strictMono.lt_iff_lt.mp hpq
        obtain ⟨m, hpm, hmq⟩ := exists_between hpq
        exact ⟨m, beside_le_beside.mpr (.inl (hlt hpm)), beside_le_beside.mpr (.inl (hlt hmq))⟩
      · -- the cuts before and behind one number
        obtain ⟨rfl, rfl⟩ : a = false ∧ b = true := by revert hab; cases a <;> cases b <;> decide
        exact ⟨p, le_rfl, hpq ▸ le_rfl⟩

end Cut

/-! ## Ranges of numbers -/

namespace Range

variable {r s : Range}

theorem isNumeric_start (hr : r.Rational) : r.start.IsNumeric := by
  unfold start
  cases hl : r.lower with
  | none => exact .inl rfl
  | some l =>
    obtain ⟨q, hq⟩ := hr.1 l hl
    exact .inr (.inr ⟨q, !l.closed, by rw [Option.elim_some, (Value.traits_of_rational? hq).2]⟩)

theorem isNumeric_stop (hr : r.Rational) : r.stop.IsNumeric := by
  unfold stop
  cases hu : r.upper with
  | none => exact .inr (.inl rfl)
  | some u =>
    obtain ⟨q, hq⟩ := hr.2 u hu
    exact .inr (.inr ⟨q, u.closed, by rw [Option.elim_some, (Value.traits_of_rational? hq).2]⟩)

/-- A range of numbers holds a number if it reaches over its place. -/
theorem holdsNumber_iff (hr : r.Rational) {q : ℚ} : r.HoldsNumber q ↔ r.Covers (.number q) := by
  unfold HoldsNumber Covers
  rw [start_le_beside, beside_le_stop]
  have hplace : ∀ {p : ℚ}, Place.number p < .number q ↔ p < q := Place.number_strictMono.lt_iff_lt
  have hplace' : ∀ {p : ℚ}, Place.number q < .number p ↔ q < p := Place.number_strictMono.lt_iff_lt
  have hinj : ∀ {p p' : ℚ}, Place.number p = .number p' ↔ p = p' := Place.number_strictMono.injective.eq_iff
  refine and_congr (forall₂_congr fun l hl => ?_) (forall₂_congr fun u hu => ?_)
  · obtain ⟨p, hp⟩ := hr.1 l hl
    simp [hp, (Value.traits_of_rational? hp).2, hplace, hinj]
  · obtain ⟨p, hp⟩ := hr.2 u hu
    simp [hp, (Value.traits_of_rational? hp).2, hplace', hinj]

theorem endpoint_alike_iff {e f : Endpoint} (he : ∃ q, e.value.rational? = some q)
    (hf : ∃ q, f.value.rational? = some q) : e.Alike f ↔ e.value.place = f.value.place ∧ e.closed = f.closed := by
  obtain ⟨p, hp⟩ := he
  obtain ⟨q, hq⟩ := hf
  rw [Endpoint.Alike, hp, hq, (Value.traits_of_rational? hp).2, (Value.traits_of_rational? hq).2,
    Place.number_strictMono.injective.eq_iff]
  simp [eq_comm]

/-- **Ranges of numbers** are alike when they start and stop at the same cuts. -/
theorem alike_iff (hr : r.Rational) (hs : s.Rational) :
    r.Alike s ↔ r.start = s.start ∧ r.stop = s.stop := by
  unfold Alike start stop
  refine and_congr ?_ ?_
  · cases hl : r.lower with
    | none =>
      cases hm : s.lower with
      | none => simp
      | some m => simp [Cut.beside_ne_bot.symm]
    | some l =>
      cases hm : s.lower with
      | none => simp [Cut.beside_ne_bot]
      | some m => simp [endpoint_alike_iff (hr.1 l hl) (hs.1 m hm), Cut.beside_inj]
  · cases hu : r.upper with
    | none =>
      cases hw : s.upper with
      | none => simp
      | some w => simp [Cut.beside_ne_top.symm]
    | some u =>
      cases hw : s.upper with
      | none => simp [Cut.beside_ne_top]
      | some w => simp [endpoint_alike_iff (hr.2 u hu) (hs.2 w hw), Cut.beside_inj]

end Range

/-! ## Separate ranges -/

namespace RangeSet

variable {rs ss : List Range} {r s : Range} {q : ℚ}

/-- A range with rational ends that is not empty. -/
structure Definite (r : Range) : Prop where
  ends : r.Rational
  full : r.start < r.stop

/-- Each range ends below the start of those behind it. -/
abbrev Separate (rs : List Range) : Prop := rs.Pairwise fun t u => t.stop < u.start

/-- A range that reaches over a place starts before it and stops behind it. -/
theorem not_covers_of_le_start {p : Place} (h : Cut.beside p true ≤ r.start) : ¬ r.Covers p := fun hcovers =>
  absurd (h.trans hcovers.1) (not_le_of_gt (Cut.lt_behind_iff.mpr le_rfl))

theorem not_covers_of_stop_le {p : Place} (h : r.stop ≤ Cut.beside p false) : ¬ r.Covers p := fun hcovers =>
  absurd (hcovers.2.trans h) (not_le_of_gt (Cut.lt_behind_iff.mpr le_rfl))

/-- In a separate list no range starts before the first one. -/
theorem start_le_of_mem (hrs : ∀ t ∈ r :: rs, Definite t) (hseparate : Separate (r :: rs)) {t : Range}
    (ht : t ∈ r :: rs) : r.start ≤ t.start := by
  rcases List.mem_cons.mp ht with rfl | ht
  · exact le_rfl
  · exact (hrs r (by simp)).full.le.trans ((List.pairwise_cons.mp hseparate).1 t ht).le

/-- The first range starts no later than any range whose numbers are held. -/
theorem start_le_start (hrs : ∀ t ∈ r :: rs, Definite t) (hseparate : Separate (r :: rs)) (hs : Definite s)
    (h : ∀ q : ℚ, s.Covers (.number q) → Covered (r :: rs) (.number q)) : r.start ≤ s.start := by
  by_contra hlt
  rw [not_le] at hlt
  have hnumeric : (min r.start s.stop).IsNumeric := by
    rcases min_choice r.start s.stop with hmin | hmin <;> rw [hmin]
    · exact Range.isNumeric_start (hrs r (by simp)).ends
    · exact Range.isNumeric_stop hs.ends
  -- a number of `s` in front of the first range
  obtain ⟨q, hbehind, hbefore⟩ := Cut.exists_number_between (Range.isNumeric_start hs.ends) hnumeric
    (lt_min hlt hs.full)
  obtain ⟨t, ht, hcovers⟩ := h q ⟨hbehind, hbefore.trans (min_le_right _ _)⟩
  have hfirst : r.start ≤ t.start := start_le_of_mem hrs hseparate ht
  exact not_covers_of_le_start ((hbefore.trans (min_le_left _ _)).trans hfirst) hcovers

/-- In front of the other ranges there is a gap behind the end of the first one. -/
theorem exists_gap (hrs : ∀ t ∈ r :: rs, Definite t) (hseparate : Separate (r :: rs)) {c : Cut}
    (hc : c.IsNumeric) (hlt : r.stop < c) :
    ∃ d : Cut, d.IsNumeric ∧ r.stop < d ∧ d ≤ c ∧ ∀ t ∈ rs, d ≤ t.start := by
  obtain ⟨hfirst, hrest⟩ := List.pairwise_cons.mp hseparate
  cases rs with
  | nil => exact ⟨c, hc, hlt, le_rfl, by simp⟩
  | cons u us =>
    refine ⟨min c u.start, ?_, lt_min hlt (hfirst u (by simp)), min_le_left _ _, fun t ht => ?_⟩
    · rcases min_choice c u.start with hmin | hmin <;> rw [hmin]
      · exact hc
      · exact Range.isNumeric_start (hrs u (by simp)).ends
    · exact (min_le_right _ _).trans (start_le_of_mem (fun v hv => hrs v (by simp [hv])) hrest ht)

/-- The first range stops no earlier than a range with the same start whose numbers are held. -/
theorem stop_le_stop (hrs : ∀ t ∈ r :: rs, Definite t) (hseparate : Separate (r :: rs)) (hs : Definite s)
    (hstart : s.start = r.start) (h : ∀ q : ℚ, s.Covers (.number q) → Covered (r :: rs) (.number q)) :
    s.stop ≤ r.stop := by
  by_contra hlt
  rw [not_le] at hlt
  have hr : Definite r := hrs r (by simp)
  obtain ⟨d, hd, hstop, hle, hgap⟩ := exists_gap hrs hseparate (Range.isNumeric_stop hs.ends) hlt
  -- a number of `s` in the gap
  obtain ⟨q, hbehind, hbefore⟩ := Cut.exists_number_between (Range.isNumeric_stop hr.ends) hd hstop
  have hcovers : s.Covers (.number q) := ⟨hstart ▸ hr.full.le.trans hbehind, hbefore.trans hle⟩
  obtain ⟨t, ht, hheld⟩ := h q hcovers
  rcases List.mem_cons.mp ht with rfl | ht
  · exact not_covers_of_stop_le hbehind hheld
  · exact not_covers_of_le_start (hbefore.trans (hgap t ht)) hheld

/-- The ranges behind the first one hold the numbers behind it. -/
theorem covered_tail (hseparate : Separate (r :: rs)) (hstop : s.stop = r.stop)
    (h : Covered (r :: rs) (.number q) → Covered (s :: ss) (.number q)) (hq : Covered rs (.number q)) :
    Covered ss (.number q) := by
  obtain ⟨t, ht, hcovers⟩ := hq
  obtain ⟨u, hu, hheld⟩ := h ⟨t, List.mem_cons_of_mem _ ht, hcovers⟩
  rcases List.mem_cons.mp hu with rfl | hu
  · have hbehind : r.stop < t.start := (List.pairwise_cons.mp hseparate).1 t ht
    exact absurd hheld (not_covers_of_stop_le (hstop ▸ hbehind.le.trans hcovers.1))
  · exact ⟨u, hu, hheld⟩

/-- A range that is not empty holds a number. -/
theorem exists_covers (hr : Definite r) : ∃ q : ℚ, r.Covers (.number q) :=
  Cut.exists_number_between (Range.isNumeric_start hr.ends) (Range.isNumeric_stop hr.ends) hr.full

/-- **Separate ranges** that hold the same numbers have the same ends. -/
theorem alike_of_covered (hrs : ∀ t ∈ rs, Definite t) (hss : ∀ t ∈ ss, Definite t) (hsep : Separate rs)
    (hsep' : Separate ss) (h : ∀ q : ℚ, Covered rs (.number q) ↔ Covered ss (.number q)) :
    List.Forall₂ Range.Alike rs ss := by
  induction rs generalizing ss with
  | nil =>
    cases ss with
    | nil => exact .nil
    | cons s ss =>
      obtain ⟨q, hq⟩ := exists_covers (hss s (by simp))
      obtain ⟨t, ht, -⟩ := (h q).mpr ⟨s, by simp, hq⟩
      cases ht
  | cons r rs ih =>
    cases ss with
    | nil =>
      obtain ⟨q, hq⟩ := exists_covers (hrs r (by simp))
      obtain ⟨t, ht, -⟩ := (h q).mp ⟨r, by simp, hq⟩
      cases ht
    | cons s ss =>
      have hr : Definite r := hrs r (by simp)
      have hs : Definite s := hss s (by simp)
      have hof : ∀ q : ℚ, r.Covers (.number q) → Covered (s :: ss) (.number q) := fun q hq =>
        (h q).mp ⟨r, by simp, hq⟩
      have hto : ∀ q : ℚ, s.Covers (.number q) → Covered (r :: rs) (.number q) := fun q hq =>
        (h q).mpr ⟨s, by simp, hq⟩
      have hstart : r.start = s.start := le_antisymm (start_le_start hrs hsep hs hto) (start_le_start hss hsep' hr hof)
      have hstop : r.stop = s.stop := le_antisymm (stop_le_stop hss hsep' hr hstart hof)
        (stop_le_stop hrs hsep hs hstart.symm hto)
      refine .cons ((Range.alike_iff hr.ends hs.ends).mpr ⟨hstart, hstop⟩) ?_
      refine ih (fun t ht => hrs t (by simp [ht])) (fun t ht => hss t (by simp [ht])) (List.pairwise_cons.mp hsep).2
        (List.pairwise_cons.mp hsep').2 fun q => ?_
      exact ⟨covered_tail hsep hstop.symm (h q).mp, covered_tail hsep' hstop (h q).mpr⟩

/-- Ranges that are alike hold the same numbers. -/
theorem covered_of_alike (hrs : ∀ t ∈ rs, Definite t) (hss : ∀ t ∈ ss, Definite t)
    (h : List.Forall₂ Range.Alike rs ss) (q : ℚ) : Covered rs (.number q) ↔ Covered ss (.number q) := by
  induction h with
  | nil => exact Iff.rfl
  | @cons r s rs ss halike _ ih =>
    obtain ⟨hstart, hstop⟩ := (Range.alike_iff (hrs r (by simp)).ends (hss s (by simp)).ends).mp halike
    have hrest := ih (fun t ht => hrs t (by simp [ht])) fun t ht => hss t (by simp [ht])
    simp only [Covered, List.exists_mem_cons_iff, Range.Covers, hstart, hstop] at hrest ⊢
    rw [hrest]

/-! ## Building again -/

variable {sort : ValueSort}

/-- A range that starts no earlier than any other is put behind them. -/
theorem insertRange_last (hr : r.Over sort) (hss : ∀ s ∈ ss, s.Over sort ∧ s.start ≤ r.start) :
    insertRange r ss = .ok (ss ++ [r]) := by
  induction ss with
  | nil => rfl
  | cons s ss ih =>
    obtain ⟨hs, hle⟩ := hss s (by simp)
    have hne : cmp r.start s.start ≠ .lt := fun h => absurd ((cmp_eq_lt_iff _ _).mp h) hle.not_gt
    rw [insertRange, Range.compareLower_eq hr hs, ih fun t ht => hss t (by simp [ht])]
    simp [hne, bind, Except.bind, pure, Except.pure]

/-- Sorting keeps ranges in ascending order as they are. -/
theorem sortFrom_of_ascending (h : ∀ t ∈ ss ++ rs, t.Over sort) (hsorted : Ascending (ss ++ rs)) :
    sortFrom ss rs = .ok (ss ++ rs) := by
  induction rs generalizing ss with
  | nil => simp [sortFrom]
  | cons r rs ih =>
    have hbefore : ∀ s ∈ ss, s.Over sort ∧ s.start ≤ r.start := fun s hs =>
      ⟨h s (by simp [hs]), (List.pairwise_append.mp hsorted).2.2 s hs r (by simp)⟩
    have hshift : ss ++ r :: rs = (ss ++ [r]) ++ rs := by simp
    rw [sortFrom, insertRange_last (h r (by simp)) hbefore, hshift]
    rw [hshift] at h hsorted
    exact ih h hsorted

/-- Joining leaves separate ranges as they are. -/
theorem joinFrom_of_separate (h : ∀ t ∈ r :: rs, t.Over sort) (hseparate : Separate (r :: rs)) :
    joinFrom r rs = .ok (r :: rs) := by
  induction rs generalizing r with
  | nil => rfl
  | cons s rs ih =>
    obtain ⟨hfirst, hrest⟩ := List.pairwise_cons.mp hseparate
    have hapart : ¬ s.start ≤ r.stop := not_le.mpr (hfirst s (by simp))
    rw [joinFrom, Range.connected_eq (h r (by simp)) (h s (by simp)), ih (fun t ht => h t (by simp [ht])) hrest]
    simp [hapart, bind, Except.bind, pure, Except.pure]

/-- **Separate ranges** are their own normal form. -/
theorem ofRanges_of_separate (h : ∀ t ∈ rs, Sound sort t) (hseparate : Separate rs) : ofRanges rs = .ok ⟨rs⟩ := by
  have hover : ∀ t ∈ rs, t.Over sort := fun t ht => (h t ht).ofSort
  have hfull : rs.filter (fun t => decide (t.start < t.stop)) = rs :=
    List.filter_eq_self.mpr fun t ht => by simpa using (h t ht).full
  have hsorted : Ascending rs := hseparate.imp_of_mem fun ht _ hlt => ((h _ ht).full.trans hlt).le
  have hsort : sortFrom [] rs = .ok rs := sortFrom_of_ascending hover hsorted
  have hjoin : join rs = .ok rs := by
    cases rs with
    | nil => rfl
    | cons r rs => exact joinFrom_of_separate hover hseparate
  rw [ofRanges, nonEmpty_eq hover, hfull]
  simp only [bind, Except.bind, hsort, hjoin]
  rfl

/-! ## Normal forms -/

/-- **`ofRanges` is canonical** — the normal forms of two lists of ranges of numbers have the same ranges, up to
numerically equal ends, exactly when the same rational numbers lie in the ranges of both lists.  So neither order
nor repetition of ranges matters, and the ranges of a normal form have it as their normal form. -/
theorem ofRanges_canonical (as bs : List Range) (ha : ∀ r ∈ as, r.Rational) (hb : ∀ r ∈ bs, r.Rational) :
    ∃ s t, ofRanges as = .ok s ∧ ofRanges bs = .ok t
      ∧ (List.Forall₂ Range.Alike s.ranges t.ranges
        ↔ ∀ q : ℚ, (∃ r ∈ as, r.HoldsNumber q) ↔ ∃ r ∈ bs, r.HoldsNumber q)
      ∧ ((∀ r, r ∈ as ↔ r ∈ bs) → List.Forall₂ Range.Alike s.ranges t.ranges)
      ∧ ofRanges s.ranges = .ok s ∧ ofRanges t.ranges = .ok t := by
  obtain ⟨s, hs, hsound, hseparate, hcovered, hends⟩ := ofRanges_eq fun r hr => (ha r hr).over
  obtain ⟨t, ht, hsound', hseparate', hcovered', hends'⟩ := ofRanges_eq fun r hr => (hb r hr).over
  have hdefinite : ∀ r ∈ s.ranges, Definite r := fun r hr => ⟨hends _ ha r hr, (hsound r hr).full⟩
  have hdefinite' : ∀ r ∈ t.ranges, Definite r := fun r hr => ⟨hends' _ hb r hr, (hsound' r hr).full⟩
  have hholds : ∀ {rs : List Range}, (∀ r ∈ rs, r.Rational) → ∀ q : ℚ,
      (∃ r ∈ rs, r.HoldsNumber q) ↔ Covered rs (.number q) := fun hrs q =>
    exists_congr fun r => and_congr_right fun hr => Range.holdsNumber_iff (hrs r hr)
  have hcanonical : List.Forall₂ Range.Alike s.ranges t.ranges
      ↔ ∀ q : ℚ, (∃ r ∈ as, r.HoldsNumber q) ↔ ∃ r ∈ bs, r.HoldsNumber q := by
    simp only [hholds ha, hholds hb, ← hcovered, ← hcovered']
    exact ⟨covered_of_alike hdefinite hdefinite', alike_of_covered hdefinite hdefinite' hseparate hseparate'⟩
  refine ⟨s, t, hs, ht, hcanonical, fun hmem => hcanonical.mpr fun q => ?_, ?_, ?_⟩
  · exact exists_congr fun r => and_congr_left fun _ => hmem r
  · exact ofRanges_of_separate hsound hseparate
  · exact ofRanges_of_separate hsound' hseparate'

/-- The numbers of the scattered ranges in ranges that touch each other, the last of them given twice. -/
def regrouped : List Range :=
  let one : Value := .number (Double.ofDecimal 1)
  let three : Value := .number (Double.ofDecimal 3)
  [Range.greaterThan sevenAndHalf, Range.openClosed one (.integer 3), Range.singleton one,
    Range.open (.integer 3) sevenAndHalf, Range.singleton three, Range.greaterThan sevenAndHalf]

theorem ofRanges_canonical_regrouped : (∀ r ∈ scattered, r.Rational) ∧ (∀ r ∈ regrouped, r.Rational)
    ∧ ∃ s t, ofRanges scattered = .ok s ∧ ofRanges regrouped = .ok t
      ∧ (List.Forall₂ Range.Alike s.ranges t.ranges
        ↔ ∀ q : ℚ, (∃ r ∈ scattered, r.HoldsNumber q) ↔ ∃ r ∈ regrouped, r.HoldsNumber q)
      ∧ ((∀ r, r ∈ scattered ↔ r ∈ regrouped) → List.Forall₂ Range.Alike s.ranges t.ranges)
      ∧ ofRanges s.ranges = .ok s ∧ ofRanges t.ranges = .ok t := by
  have hinteger : ∀ n : Int, ∃ q, (Value.integer n).rational? = some q := fun n => ⟨n, rfl⟩
  have hhalf : ∃ q, sevenAndHalf.rational? = some q := Option.isSome_iff_exists.mp (by decide +kernel)
  have hone : ∃ q, (Value.number (Double.ofDecimal 1)).rational? = some q :=
    Option.isSome_iff_exists.mp (by decide +kernel)
  have hthree : ∃ q, (Value.number (Double.ofDecimal 3)).rational? = some q :=
    Option.isSome_iff_exists.mp (by decide +kernel)
  have hscattered : ∀ r ∈ scattered, r.Rational := by
    simp [scattered, Range.Ends, Range.closedOpen, Range.open, Range.closed, Range.greaterThan, Range.between,
      hinteger, hhalf]
  have hregrouped : ∀ r ∈ regrouped, r.Rational := by
    simp [regrouped, Range.Ends, Range.openClosed, Range.open, Range.singleton, Range.greaterThan, Range.between,
      hinteger, hhalf, hone, hthree]
  exact ⟨hscattered, hregrouped, ofRanges_canonical scattered regrouped hscattered hregrouped⟩

/-- Their normal form has the ends of the scattered ranges, one of them in the other representation. -/
example : ofRanges regrouped
    = .ok ⟨[Range.closedOpen (.number (Double.ofDecimal 1)) sevenAndHalf, Range.greaterThan sevenAndHalf]⟩ := by
  decide +kernel

end RangeSet

end AlgebraSql
