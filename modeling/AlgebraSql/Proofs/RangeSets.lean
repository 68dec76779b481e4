import AlgebraSql.Proofs.Run
import AlgebraSql.Proofs.ValueOrder
import AlgebraSql.RangeSet.Basic
import Mathlib.Data.Prod.Lex
import Mathlib.Order.WithBot

/-!
# Range sets — the normal form holds the values of the given ranges, and no others.

A place has a cut before it and a cut behind it, and a range reaches from one cut to another.  In
terms of cuts, every question about ranges is a comparison: whether one is empty, which starts
earlier, whether two are connected.  The normal form is a list of ranges, each of which ends at a cut
below the start of the next.
-/

namespace AlgebraSql

/-! ## Cuts -/

/-- Where a range may start or end: before or behind a place, or at an end of the order. -/
abbrev Cut : Type := WithBot (WithTop (Place ×ₗ Bool))

namespace Cut

/-- The cut behind a place, or before it. -/
def beside (p : Place) (behind : Bool) : Cut :=
  ((toLex (p, behind) : Place ×ₗ Bool) : WithTop (Place ×ₗ Bool))

variable {p q : Place} {a b : Bool} {c : Cut}

theorem beside_lt_beside : beside p a < beside q b ↔ p < q ∨ p = q ∧ a < b := by
  simp [beside, Prod.Lex.toLex_lt_toLex]

theorem beside_le_beside : beside p a ≤ beside q b ↔ p < q ∨ p = q ∧ a ≤ b := by
  simp [beside, Prod.Lex.toLex_le_toLex]

theorem cmp_beside : cmp (beside p a) (beside q b) = (cmp p q).then (compare a.toNat b.toNat) := by
  rcases lt_trichotomy p q with hlt | rfl | hgt
  · rw [(cmp_eq_lt_iff p q).mpr hlt, (cmp_eq_lt_iff _ _).mpr (beside_lt_beside.mpr (.inl hlt))]
    rfl
  · rw [cmp_self_eq_eq, Ordering.eq_then]
    have hbelow : beside p false < beside p true := beside_lt_beside.mpr (.inr ⟨rfl, by decide⟩)
    cases a <;> cases b
    · simp
    · exact (cmp_eq_lt_iff _ _).mpr hbelow
    · exact (cmp_eq_gt_iff _ _).mpr hbelow
    · simp
  · rw [(cmp_eq_gt_iff p q).mpr hgt, (cmp_eq_gt_iff _ _).mpr (beside_lt_beside.mpr (.inl hgt))]
    rfl

@[simp]
theorem bot_lt_beside : ⊥ < beside p a := WithBot.bot_lt_coe _

@[simp]
theorem beside_lt_top : beside p a < ⊤ := WithBot.coe_lt_coe.mpr (WithTop.coe_lt_top _)

/-- Nothing lies between the two cuts of a place. -/
theorem lt_behind_iff : c < beside p true ↔ c ≤ beside p false := by
  rcases c with _ | _ | ⟨q, b⟩
  · exact iff_of_true bot_lt_beside bot_le
  · exact iff_of_false (not_lt_of_gt beside_lt_top) (not_le_of_gt beside_lt_top)
  · have hlt := beside_lt_beside (p := q) (q := p) (a := b) (b := true)
    have hle := beside_le_beside (p := q) (q := p) (a := b) (b := false)
    refine (hlt.trans ?_).trans hle.symm
    cases b <;> simp

end Cut

/-! ## Ranges -/

namespace Range

/-- The cut at which a range starts. -/
noncomputable def start (r : Range) : Cut := r.lower.elim ⊥ fun l => Cut.beside l.value.place !l.closed

/-- The cut at which a range ends. -/
noncomputable def stop (r : Range) : Cut := r.upper.elim ⊤ fun u => Cut.beside u.value.place u.closed

/-- Both ends of a range have a property, as far as it has them. -/
def Ends (p : Value → Prop) (r : Range) : Prop :=
  (∀ l, r.lower = some l → p l.value) ∧ ∀ u, r.upper = some u → p u.value

/-- Both ends of a range are of one sort; the undefined number is of none. -/
abbrev Over (sort : ValueSort) (r : Range) : Prop := r.Ends fun v => v.sort? = some sort

/-- **`Holds`** — a value lies in a range: behind its lower end, or on it if it is closed, and before its
upper end, or on it if it is closed. -/
def Holds (r : Range) (v : Value) : Prop :=
  (∀ l, r.lower = some l → l.value.place < v.place ∨ l.value.place = v.place ∧ l.closed = true)
    ∧ ∀ u, r.upper = some u → v.place < u.value.place ∨ v.place = u.value.place ∧ u.closed = true

/-- The ends of a range are in order: the lower one lies below the upper one, or both are closed and at
one place.  Whether there is a value between two open ends is not asked. -/
def Proper (r : Range) : Prop := ∀ l u, r.lower = some l → r.upper = some u →
  l.value.place < u.value.place ∨ l.value.place = u.value.place ∧ l.closed = true ∧ u.closed = true

/-- A range ends before another one starts, or both are open where they meet. -/
def Precedes (r s : Range) : Prop := ∃ u l, r.upper = some u ∧ s.lower = some l ∧
  (u.value.place < l.value.place ∨ u.value.place = l.value.place ∧ u.closed = false ∧ l.closed = false)

/-- A range reaches over the cuts beside a place. -/
def Covers (r : Range) (p : Place) : Prop := r.start ≤ Cut.beside p false ∧ Cut.beside p true ≤ r.stop

variable {sort : ValueSort} {r s : Range} {v : Value}

theorem start_le_beside {p : Place} : r.start ≤ Cut.beside p false
    ↔ ∀ l, r.lower = some l → l.value.place < p ∨ l.value.place = p ∧ l.closed = true := by
  unfold start
  cases r.lower with
  | none => simp
  | some l => cases hl : l.closed <;> simp [Cut.beside_le_beside, hl]

theorem beside_le_stop {p : Place} : Cut.beside p true ≤ r.stop
    ↔ ∀ u, r.upper = some u → p < u.value.place ∨ p = u.value.place ∧ u.closed = true := by
  unfold stop
  cases r.upper with
  | none => simp
  | some u => cases hu : u.closed <;> simp [Cut.beside_le_beside, hu]

theorem holds_iff : r.Holds v ↔ r.Covers v.place := (start_le_beside.and beside_le_stop).symm

theorem start_lt_top (r : Range) : r.start < ⊤ := by
  unfold start
  cases r.lower with
  | none => exact WithBot.bot_lt_coe _
  | some l => exact Cut.beside_lt_top

theorem bot_lt_stop (r : Range) : ⊥ < r.stop := by
  unfold stop
  cases r.upper with
  | none => exact WithBot.bot_lt_coe _
  | some u => exact Cut.bot_lt_beside

theorem proper_iff : r.Proper ↔ r.start < r.stop := by
  unfold Proper
  cases hu : r.upper with
  | none =>
    have hstop : r.stop = ⊤ := by simp [stop, hu]
    simp [hstop, start_lt_top]
  | some u =>
    cases hl : r.lower with
    | none =>
      have hstart : r.start = ⊥ := by simp [start, hl]
      simp [hstart, bot_lt_stop]
    | some l =>
      simp only [start, stop, hl, hu, Option.elim_some, Cut.beside_lt_beside]
      cases hlc : l.closed <;> cases huc : u.closed <;> simp [hlc, huc]

theorem precedes_iff : r.Precedes s ↔ r.stop < s.start := by
  unfold Precedes
  cases hu : r.upper with
  | none =>
    have hstop : r.stop = ⊤ := by simp [stop, hu]
    simp [hstop]
  | some u =>
    cases hl : s.lower with
    | none =>
      have hstart : s.start = ⊥ := by simp [start, hl]
      simp [hstart]
    | some l =>
      simp only [start, stop, hl, hu, Option.elim_some, Cut.beside_lt_beside]
      cases hlc : l.closed <;> cases huc : u.closed <;> simp [hlc, huc]

/-- A range is empty if it does not end behind its start. -/
theorem isEmpty_eq (h : r.Over sort) : r.isEmpty = .ok (decide (r.stop ≤ r.start)) := by
  obtain ⟨lower, upper⟩ := r
  cases upper with
  | none =>
    have hfull : ¬ stop ⟨lower, none⟩ ≤ start ⟨lower, none⟩ := not_le_of_gt (start_lt_top _)
    cases lower <;> simp [isEmpty, hfull]
  | some u =>
    cases lower with
    | none =>
      have hfull : ¬ stop ⟨none, some u⟩ ≤ start ⟨none, some u⟩ := not_le_of_gt (bot_lt_stop _)
      simp [isEmpty, hfull]
    | some l =>
      have horder := Value.order_eq (h.1 l rfl) (h.2 u rfl)
      simp only [isEmpty, horder, start, stop, Option.elim_some, Cut.beside_le_beside, bind, Except.bind]
      rcases lt_trichotomy l.value.place u.value.place with hlt | heq | hgt
      · simp [(cmp_eq_lt_iff _ _).mpr hlt, hlt.not_gt, hlt.ne', pure, Except.pure]
      · cases hl : l.closed <;> cases hu : u.closed <;> simp [heq, pure, Except.pure]
      · simp [(cmp_eq_gt_iff _ _).mpr hgt, hgt, pure, Except.pure]

/-- Ranges are compared by where they start. -/
theorem compareLower_eq (hr : r.Over sort) (hs : s.Over sort) :
    r.compareLower s = .ok (cmp r.start s.start) := by
  unfold compareLower start
  cases hl : r.lower with
  | none =>
    cases hm : s.lower with
    | none => simp
    | some m => simp [(cmp_eq_lt_iff _ _).mpr (Cut.bot_lt_beside (p := m.value.place) (a := !m.closed))]
  | some l =>
    cases hm : s.lower with
    | none => simp [(cmp_eq_gt_iff _ _).mpr (Cut.bot_lt_beside (p := l.value.place) (a := !l.closed))]
    | some m =>
      have horder := Value.order_eq (hr.1 l hl) (hs.1 m hm)
      simp only [horder, Option.elim_some, bind, Except.bind, pure, Except.pure, Cut.cmp_beside]

/-- A range is connected to another if it does not end before the start of the other. -/
theorem connected_eq (hr : r.Over sort) (hs : s.Over sort) :
    r.connected s = .ok (decide (s.start ≤ r.stop)) := by
  unfold connected start stop
  cases hu : r.upper with
  | none => simp
  | some u =>
    cases hl : s.lower with
    | none => simp
    | some l =>
      have horder := Value.order_eq (hr.2 u hu) (hs.1 l hl)
      simp only [horder, Option.elim_some, Cut.beside_le_beside, bind, Except.bind]
      rcases lt_trichotomy u.value.place l.value.place with hlt | heq | hgt
      · simp [(cmp_eq_lt_iff _ _).mpr hlt, hlt.not_gt, hlt.ne', pure, Except.pure]
      · cases u.closed <;> cases l.closed <;> simp [heq, pure, Except.pure]
      · simp [(cmp_eq_gt_iff _ _).mpr hgt, hgt, pure, Except.pure]

/-- Two ranges as one: it starts where the first does, ends where the later one does, and has no other ends. -/
theorem hull_eq (hr : r.Over sort) (hs : s.Over sort) :
    ∃ t, r.hull s = .ok t ∧ (∀ p, r.Ends p → s.Ends p → t.Ends p) ∧ t.start = r.start
      ∧ t.stop = max r.stop s.stop := by
  unfold hull maxUpper
  cases hu : r.upper with
  | none => exact ⟨⟨r.lower, none⟩, rfl, fun _ hr _ => ⟨hr.1, by simp⟩, rfl, by simp [stop, hu]⟩
  | some u =>
    cases hw : s.upper with
    | none => exact ⟨⟨r.lower, none⟩, rfl, fun _ hr _ => ⟨hr.1, by simp⟩, rfl, by simp [stop, hw]⟩
    | some w =>
      have horder := Value.order_eq (hr.2 u hu) (hs.2 w hw)
      have hupper : ∀ {p : Value → Prop} {e : Endpoint}, r.Ends p → p e.value → (⟨r.lower, some e⟩ : Range).Ends p :=
        fun hr he => ⟨hr.1, fun u hu => by cases hu; exact he⟩
      rcases lt_trichotomy u.value.place w.value.place with hlt | heq | hgt
      · refine ⟨⟨r.lower, some w⟩, ?_, fun _ hr hs => hupper hr (hs.2 w hw), rfl, ?_⟩
        · simp [horder, (cmp_eq_lt_iff _ _).mpr hlt, bind, Except.bind, pure, Except.pure]
        · have hle : Cut.beside u.value.place u.closed ≤ Cut.beside w.value.place w.closed :=
            Cut.beside_le_beside.mpr (.inl hlt)
          simp [stop, hu, hw, hle]
      · refine ⟨⟨r.lower, some ⟨u.value, u.closed || w.closed⟩⟩, ?_, fun _ hr _ => hupper hr (hr.2 u hu), rfl, ?_⟩
        · simp [horder, heq, bind, Except.bind, pure, Except.pure]
        · simp only [stop, hu, hw, Option.elim_some, heq]
          cases u.closed <;> cases w.closed <;> simp [Cut.beside_le_beside]
      · refine ⟨⟨r.lower, some u⟩, ?_, fun _ hr _ => hupper hr (hr.2 u hu), rfl, ?_⟩
        · simp [horder, (cmp_eq_gt_iff _ _).mpr hgt, bind, Except.bind, pure, Except.pure]
        · have hle : Cut.beside w.value.place w.closed ≤ Cut.beside u.value.place u.closed :=
            Cut.beside_le_beside.mpr (.inl hgt)
          simp [stop, hu, hw, hle]

theorem aboveLower_eq (hr : r.Over sort) (hv : v.sort? = some sort) :
    aboveLower v r.lower = .ok (decide (r.start ≤ Cut.beside v.place false)) := by
  unfold start
  cases hl : r.lower with
  | none => simp [aboveLower]
  | some l =>
    have horder := Value.order_eq hv (hr.1 l hl)
    simp only [aboveLower, horder, Option.elim_some, Cut.beside_le_beside, bind, Except.bind]
    rcases lt_trichotomy v.place l.value.place with hlt | heq | hgt
    · simp [(cmp_eq_lt_iff _ _).mpr hlt, hlt.not_gt, hlt.ne', pure, Except.pure]
    · cases l.closed <;> simp [heq, pure, Except.pure]
    · simp [(cmp_eq_gt_iff _ _).mpr hgt, hgt, pure, Except.pure]

theorem belowUpper_eq (hr : r.Over sort) (hv : v.sort? = some sort) :
    belowUpper v r.upper = .ok (decide (Cut.beside v.place true ≤ r.stop)) := by
  unfold stop
  cases hu : r.upper with
  | none => simp [belowUpper]
  | some u =>
    have horder := Value.order_eq hv (hr.2 u hu)
    simp only [belowUpper, horder, Option.elim_some, Cut.beside_le_beside, bind, Except.bind]
    rcases lt_trichotomy v.place u.value.place with hlt | heq | hgt
    · simp [(cmp_eq_lt_iff _ _).mpr hlt, hlt, pure, Except.pure]
    · cases u.closed <;> simp [heq, pure, Except.pure]
    · simp [(cmp_eq_gt_iff _ _).mpr hgt, hgt.not_gt, hgt.ne', pure, Except.pure]

/-- The test whether a value lies in a range has an outcome, which is right. -/
theorem contains_eq (hr : r.Over sort) (hv : v.sort? = some sort) :
    ∃ b, r.contains v = .ok b ∧ (b = true ↔ r.Holds v) := by
  rw [contains, aboveLower_eq hr hv, belowUpper_eq hr hv, holds_iff, Covers]
  by_cases habove : r.start ≤ Cut.beside v.place false
  · exact ⟨decide (Cut.beside v.place true ≤ r.stop), by simp [habove, bind, Except.bind], by simp [habove]⟩
  · exact ⟨false, by simp [habove, bind, Except.bind, pure, Except.pure], by simp [habove]⟩

end Range

/-! ## Normal form -/

namespace RangeSet

/-- A range with both ends of one sort that is not empty. -/
structure Sound (sort : ValueSort) (r : Range) : Prop where
  ofSort : r.Over sort
  full : r.start < r.stop

variable {sort : ValueSort} {rs ss : List Range} {r : Range}

theorem nonEmpty_eq (h : ∀ r ∈ rs, r.Over sort) :
    nonEmpty rs = .ok (rs.filter fun r => decide (r.start < r.stop)) := by
  induction rs with
  | nil => rfl
  | cons r rs ih =>
    rw [nonEmpty, Range.isEmpty_eq (h r (by simp)), ih fun s hs => h s (by simp [hs])]
    by_cases hfull : r.start < r.stop
    · simp [bind, Except.bind, pure, Except.pure, hfull]
    · simp [bind, Except.bind, pure, Except.pure, hfull, not_lt.mp hfull]

/-- Ranges in the order of their starts. -/
abbrev Ascending (rs : List Range) : Prop := rs.Pairwise fun r s => r.start ≤ s.start

theorem insertRange_eq (hr : r.Over sort) (hss : ∀ s ∈ ss, s.Over sort) (hsorted : Ascending ss) :
    ∃ ts, insertRange r ss = .ok ts ∧ ts.Perm (r :: ss) ∧ Ascending ts := by
  induction ss with
  | nil => exact ⟨[r], rfl, .refl _, by simp⟩
  | cons s ss ih =>
    rw [insertRange, Range.compareLower_eq hr (hss s (by simp))]
    obtain ⟨hfirst, hrest⟩ := List.pairwise_cons.mp hsorted
    by_cases hlt : r.start < s.start
    · have hall : ∀ t ∈ s :: ss, r.start ≤ t.start := by
        intro t ht
        rcases List.mem_cons.mp ht with rfl | ht
        · exact hlt.le
        · exact hlt.le.trans (hfirst t ht)
      refine ⟨r :: s :: ss, ?_, .refl _, List.pairwise_cons.mpr ⟨hall, hsorted⟩⟩
      simp [(cmp_eq_lt_iff _ _).mpr hlt, bind, Except.bind, pure, Except.pure]
    · obtain ⟨ts, hts, hperm, hsorted⟩ := ih (fun t ht => hss t (by simp [ht])) hrest
      have hne : cmp r.start s.start ≠ .lt := fun h => hlt ((cmp_eq_lt_iff _ _).mp h)
      refine ⟨s :: ts, by simp [hne, hts, bind, Except.bind, pure, Except.pure],
        (hperm.cons s).trans (.swap r s ss), List.pairwise_cons.mpr ⟨fun t ht => ?_, hsorted⟩⟩
      rcases List.mem_cons.mp (hperm.mem_iff.mp ht) with rfl | ht
      · exact not_lt.mp hlt
      · exact hfirst t ht

theorem sortFrom_eq (hrs : ∀ r ∈ rs, r.Over sort) (hss : ∀ s ∈ ss, s.Over sort) (hsorted : Ascending ss) :
    ∃ ts, sortFrom ss rs = .ok ts ∧ ts.Perm (rs ++ ss) ∧ Ascending ts := by
  induction rs generalizing ss with
  | nil => exact ⟨ss, rfl, .refl _, hsorted⟩
  | cons r rs ih =>
    obtain ⟨us, hus, hperm, hsorted⟩ := insertRange_eq (hrs r (by simp)) hss hsorted
    have hover : ∀ u ∈ us, u.Over sort := by
      intro u hu
      rcases List.mem_cons.mp (hperm.mem_iff.mp hu) with rfl | hu
      · exact hrs u (by simp)
      · exact hss u hu
    obtain ⟨ts, hts, hperm', hsorted⟩ := ih (fun t ht => hrs t (by simp [ht])) hover hsorted
    refine ⟨ts, by simp [sortFrom, hus, hts, bind, Except.bind], ?_, hsorted⟩
    exact hperm'.trans ((hperm.append_left rs).trans List.perm_middle)

/-- The places that the ranges of a list reach over. -/
def Covered (rs : List Range) (p : Place) : Prop := ∃ r ∈ rs, r.Covers p

/-- Two connected ranges reach over the same places as one range for both. -/
theorem covers_hull {r s t : Range} {p : Place} (hstart : r.start ≤ s.start) (hmeet : s.start ≤ r.stop)
    (ht : t.start = r.start) (ht' : t.stop = max r.stop s.stop) : t.Covers p ↔ r.Covers p ∨ s.Covers p := by
  unfold Range.Covers
  rw [ht, ht', le_max_iff]
  constructor
  · rintro ⟨habove, hbelow⟩
    by_cases hr : Cut.beside p true ≤ r.stop
    · exact .inl ⟨habove, hr⟩
    · -- behind the end of the first range the second one has started
      exact .inr ⟨Cut.lt_behind_iff.mp (hmeet.trans_lt (not_le.mp hr)), hbelow.resolve_left hr⟩
  · rintro (⟨habove, hbelow⟩ | ⟨habove, hbelow⟩)
    · exact ⟨habove, .inl hbelow⟩
    · exact ⟨hstart.trans habove, .inr hbelow⟩

/-- **Joining** gives separate ranges that reach over the same places, none of which starts earlier. -/
theorem joinFrom_eq (hr : Sound sort r) (hrs : ∀ s ∈ rs, Sound sort s) (hsorted : Ascending (r :: rs)) :
    ∃ ts, joinFrom r rs = .ok ts ∧ (∀ t ∈ ts, Sound sort t ∧ r.start ≤ t.start)
      ∧ (ts.Pairwise fun t u => t.stop < u.start) ∧ (∀ p, Covered ts p ↔ Covered (r :: rs) p)
      ∧ ∀ p, (∀ s ∈ r :: rs, s.Ends p) → ∀ t ∈ ts, t.Ends p := by
  induction rs generalizing r with
  | nil => exact ⟨[r], rfl, by simp [hr], by simp, fun p => Iff.rfl, fun p h => h⟩
  | cons s rs ih =>
    obtain ⟨hfirst, hrest⟩ := List.pairwise_cons.mp hsorted
    have hs := hrs s (by simp)
    have hrs' : ∀ t ∈ rs, Sound sort t := fun t ht => hrs t (by simp [ht])
    rw [joinFrom, Range.connected_eq hr.ofSort hs.ofSort]
    by_cases hmeet : s.start ≤ r.stop
    · obtain ⟨u, hu, hends, hstart, hstop⟩ := Range.hull_eq hr.ofSort hs.ofSort
      have hsound : Sound sort u := ⟨hends _ hr.ofSort hs.ofSort, by
        rw [hstart, hstop]
        exact hr.full.trans_le (le_max_left _ _)⟩
      have hascending : Ascending (u :: rs) := by
        refine List.pairwise_cons.mpr ⟨fun t ht => ?_, (List.pairwise_cons.mp hrest).2⟩
        rw [hstart]
        exact hfirst t (by simp [ht])
      obtain ⟨ts, hts, hsounds, hseparate, hcovered, hkept⟩ := ih hsound hrs' hascending
      refine ⟨ts, by simp [hmeet, hu, hts, bind, Except.bind], fun t ht => hstart ▸ hsounds t ht, hseparate,
        fun p => ?_, fun p h => hkept p (List.forall_mem_cons.mpr ⟨?_, fun t ht => h t (by simp [ht])⟩)⟩
      · rw [hcovered]
        simp only [Covered, List.exists_mem_cons_iff, covers_hull (hfirst s (by simp)) hmeet hstart hstop, or_assoc]
      · exact hends p (h r (by simp)) (h s (by simp))
    · obtain ⟨ts, hts, hsounds, hseparate, hcovered, hkept⟩ := ih hs hrs' hrest
      have hbehind : ∀ t ∈ ts, r.stop < t.start := fun t ht => (not_le.mp hmeet).trans_le (hsounds t ht).2
      refine ⟨r :: ts, by simp [hmeet, hts, bind, Except.bind, pure, Except.pure], ?_,
        List.pairwise_cons.mpr ⟨hbehind, hseparate⟩, fun p => ?_, fun p h => List.forall_mem_cons.mpr
          ⟨h r (by simp), hkept p fun t ht => h t (List.mem_cons_of_mem _ ht)⟩⟩
      · intro t ht
        rcases List.mem_cons.mp ht with rfl | ht
        · exact ⟨hr, le_rfl⟩
        · exact ⟨(hsounds t ht).1, hr.full.le.trans (hbehind t ht).le⟩
      · have htail := hcovered p
        simp only [Covered, List.exists_mem_cons_iff] at htail ⊢
        rw [htail]

/-- **The normal form** consists of separate ranges that reach over the places of the given ones and have no other
ends. -/
theorem ofRanges_eq (h : ∀ r ∈ rs, r.Over sort) :
    ∃ s, ofRanges rs = .ok s ∧ (∀ t ∈ s.ranges, Sound sort t) ∧ (s.ranges.Pairwise fun t u => t.stop < u.start)
      ∧ (∀ p, Covered s.ranges p ↔ Covered rs p) ∧ ∀ p, (∀ r ∈ rs, r.Ends p) → ∀ t ∈ s.ranges, t.Ends p := by
  have hfull : ∀ r ∈ rs.filter fun r => decide (r.start < r.stop), r.Over sort := fun r hr =>
    h r (List.mem_of_mem_filter hr)
  obtain ⟨ts, hts, hperm, hsorted⟩ := sortFrom_eq hfull (by simp) .nil
  rw [List.append_nil] at hperm
  have hmem : ∀ t, t ∈ ts ↔ t ∈ rs ∧ t.start < t.stop := fun t => by simp [hperm.mem_iff]
  have hsound : ∀ t ∈ ts, Sound sort t := fun t ht => ⟨h t ((hmem t).mp ht).1, ((hmem t).mp ht).2⟩
  -- an empty range reaches over nothing
  have hcovered : ∀ p, Covered ts p ↔ Covered rs p := by
    intro p
    constructor
    · rintro ⟨t, ht, hp⟩
      exact ⟨t, ((hmem t).mp ht).1, hp⟩
    · rintro ⟨t, ht, hp⟩
      exact ⟨t, (hmem t).mpr ⟨ht, (Cut.lt_behind_iff.mpr hp.1).trans_le hp.2⟩, hp⟩
  rw [ofRanges, nonEmpty_eq h]
  cases ts with
  | nil => exact ⟨⟨[]⟩, by simp [hts, join, bind, Except.bind, pure, Except.pure], by simp, .nil, hcovered, by simp⟩
  | cons t ts =>
    obtain ⟨us, hus, hsounds, hseparate, hjoined, hkept⟩ := joinFrom_eq (hsound t (by simp))
      (fun u hu => hsound u (by simp [hu])) hsorted
    exact ⟨⟨us⟩, by simp [hts, join, hus, bind, Except.bind, pure, Except.pure], fun u hu => (hsounds u hu).1,
      hseparate, fun p => (hjoined p).trans (hcovered p), fun p hends => hkept p fun u hu => hends u ((hmem u).mp hu).1⟩

theorem anyM_contains {v : Value} (hrs : ∀ r ∈ rs, r.Over sort) (hv : v.sort? = some sort) :
    ∃ b, rs.anyM (·.contains v) = .ok b ∧ (b = true ↔ ∃ r ∈ rs, r.Holds v) := by
  induction rs with
  | nil => exact ⟨false, rfl, by simp⟩
  | cons r rs ih =>
    obtain ⟨b, hb, hholds⟩ := Range.contains_eq (hrs r (by simp)) hv
    cases b with
    | true => exact ⟨true, by simp [hb, bind, Except.bind, pure, Except.pure], by simp [hholds.mp rfl]⟩
    | false =>
      obtain ⟨c, hc, hrest⟩ := ih fun s hs => hrs s (by simp [hs])
      refine ⟨c, by simp [hb, hc, bind, Except.bind], ?_⟩
      rw [hrest, List.exists_mem_cons_iff, or_iff_right (by simp [← hholds])]

/-- **`ofRanges`** — ranges of one sort have a normal form: its ranges are proper, start one behind the
other and are separate, and it contains a value of the sort exactly when one of the given ranges does. -/
theorem ofRanges_exact (ranges : List Range) (sort : ValueSort) (h : ∀ r ∈ ranges, r.Over sort) :
    ∃ s, ofRanges ranges = .ok s
      ∧ (∀ r ∈ s.ranges, r.Proper)
      ∧ (s.ranges.Pairwise fun r t => r.compareLower t = .ok .lt ∧ r.Precedes t)
      ∧ ∀ v : Value, v.sort? = some sort → ∃ b, s.contains v = .ok b ∧ (b = true ↔ ∃ r ∈ ranges, r.Holds v) := by
  obtain ⟨s, hs, hsound, hseparate, hcovered, -⟩ := ofRanges_eq h
  refine ⟨s, hs, fun r hr => Range.proper_iff.mpr (hsound r hr).full, ?_, fun v hv => ?_⟩
  · refine hseparate.imp_of_mem fun {r t} hr ht hlt => ⟨?_, Range.precedes_iff.mpr hlt⟩
    rw [Range.compareLower_eq (hsound r hr).ofSort (hsound t ht).ofSort,
      (cmp_eq_lt_iff _ _).mpr ((hsound r hr).full.trans hlt)]
  · obtain ⟨b, hb, hholds⟩ := anyM_contains (fun r hr => (hsound r hr).ofSort) hv
    refine ⟨b, hb, hholds.trans ?_⟩
    simp only [Range.holds_iff]
    exact hcovered v.place

/-- Seven and a half. -/
def sevenAndHalf : Value := .number (Double.ofDecimal ⟨75, 1⟩)

/-- Numbers of both representations in ranges that overlap, meet with an open end, are empty or end
before they start. -/
def scattered : List Range :=
  [Range.closedOpen (.integer 5) sevenAndHalf, Range.open (.integer 9) (.integer 9),
    Range.closed (.integer 7) (.integer 2), Range.closed (.integer 1) (.integer 5), Range.greaterThan sevenAndHalf]

theorem ofRanges_exact_scattered : (∀ r ∈ scattered, r.Over .number) ∧ ∃ s, ofRanges scattered = .ok s
    ∧ (∀ r ∈ s.ranges, r.Proper)
    ∧ (s.ranges.Pairwise fun r t => r.compareLower t = .ok .lt ∧ r.Precedes t)
    ∧ ∀ v : Value, v.sort? = some .number → ∃ b, s.contains v = .ok b ∧ (b = true ↔ ∃ r ∈ scattered, r.Holds v) := by
  have hhalf : sevenAndHalf.sort? = some .number := by decide +kernel
  have hover : ∀ r ∈ scattered, r.Over .number := by
    simp [scattered, Range.Ends, Range.closedOpen, Range.open, Range.closed, Range.greaterThan, Range.between,
      hhalf]
  exact ⟨hover, ofRanges_exact scattered .number hover⟩

/-- What is left of them are two ranges without the number between them. -/
example : ofRanges scattered
    = .ok ⟨[Range.closedOpen (.integer 1) sevenAndHalf, Range.greaterThan sevenAndHalf]⟩ := by decide +kernel

/-- Neither of two ranges contains five, one of them because it ends at the undefined number, but their normal
form does; and no truth value lies between the two, yet the range between them is kept as one that is not empty. -/
theorem undefinedEnd_not_exact :
    (∃ s, ofRanges [Range.lessThan (.number .undefined), Range.closed (.integer 1) (.integer 2)] = .ok s
      ∧ s.contains (.integer 5) = .ok true)
    ∧ (Range.lessThan (.number .undefined)).contains (.integer 5) = .ok false
    ∧ (Range.closed (.integer 1) (.integer 2)).contains (.integer 5) = .ok false
    ∧ ofRanges [Range.open (.flag false) (.flag true)] = .ok ⟨[Range.open (.flag false) (.flag true)]⟩
    ∧ ∀ b, (Range.open (.flag false) (.flag true)).contains (.flag b) = .ok false :=
  ⟨⟨_, rfl, rfl⟩, rfl, rfl, rfl, fun b => by cases b <;> rfl⟩

end RangeSet

end AlgebraSql
