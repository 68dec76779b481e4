import AlgebraSql.Convert.Search
import AlgebraSql.Proofs.Doubles
import AlgebraSql.Proofs.RangeSets
import AlgebraSql.Proofs.Values

/-!
# Searches — the test for a search argument accepts the values of its ranges.

A range is tested by one or two comparisons with its ends, each of which is true exactly for the values
on its side, and has no outcome for a missing value.  So the tests of separate ranges, joined by OR,
are true exactly for the values of one of them; a list of points says the same by equality.  The ranges
tested are those of the normal form, which hold the same values as the given ones.
-/

namespace AlgebraSql

open Sql Node

/-! ## Values with a place -/

namespace Datum

/-- The sort of a value that range endpoints are compared with. -/
def sort? : Datum → Option ValueSort
  | .text _ => some .text
  | .number _ => some .number
  | .bool _ => some .flag
  | _ => none

/-- The place of a value; one that cannot be compared stands nowhere in particular. -/
noncomputable def place : Datum → Place
  | .text s => .text (s.toList.map Text.unitRank)
  | .number q => .number q
  | .bool b => .flag b
  | _ => .flag false

/-- Values of one sort are compared by their places. -/
theorem order?_eq {sort : ValueSort} {d e : Datum} (hd : d.sort? = some sort) (he : e.sort? = some sort) :
    d.order? e = some (cmp d.place e.place) := by
  have hsame : d.sort? = e.sort? := hd.trans he.symm
  cases d with
  | text s =>
    cases e with
    | text t => simp only [order?, place, Text.compare16, Text.compareChars_eq]
    | _ => cases hsame
  | number q =>
    cases e with
    | number r => simp only [order?, place, Place.number_strictMono.cmp_map_eq]
    | _ => cases hsame
  | bool a =>
    cases e with
    | bool b => simp only [order?, place, Place.flag_strictMono.cmp_map_eq]
    | _ => cases hsame
  | null => cases hd
  | other c => cases hd

/-! ### Disjunctions -/

/-- A disjunction of truth values is one. -/
theorem connect_or_bools (bs : List Bool) : connect or (.bool false) (bs.map .bool) = .bool (bs.any id) := by
  have hfold : ∀ (bs : List Bool) (b : Bool), (bs.map Datum.bool).foldl or (.bool b) = .bool (b || bs.any id) := by
    intro bs
    induction bs with
    | nil => simp
    | cons c bs ih =>
      intro b
      have hor : or (.bool b) (.bool c) = .bool (b || c) := by cases b <;> cases c <;> rfl
      rw [List.map_cons, List.foldl_cons, hor, ih, List.any_cons, id, Bool.or_assoc]
  cases bs with
  | nil => rfl
  | cons b bs => exact hfold bs b

/-- A disjunction is true only if one of its parts is. -/
theorem mem_of_connect_or {ds : List Datum} (h : connect or (.bool false) ds = .bool true) :
    .bool true ∈ ds := by
  have hor : ∀ d e : Datum, or d e = .bool true → d = .bool true ∨ e = .bool true := by
    intro d e h
    unfold or at h
    split at h <;> simp_all
  have hfold : ∀ (ds : List Datum) (d : Datum), ds.foldl or d = .bool true → d = .bool true ∨ .bool true ∈ ds := by
    intro ds
    induction ds with
    | nil => exact fun d h => .inl h
    | cons e ds ih =>
      intro d h
      rcases ih (or d e) h with h | h
      · rcases hor d e h with rfl | rfl
        · exact .inl rfl
        · exact .inr (by simp)
      · exact .inr (by simp [h])
  cases ds with
  | nil => cases h
  | cons d ds => exact (hfold ds d h).elim (fun h => by simp [h]) fun h => by simp [h]

/-- A disjunction with a true part in front is true. -/
theorem connect_or_true (ds : List Datum) : connect or (.bool false) (.bool true :: ds) = .bool true := by
  change ds.foldl or (.bool true) = .bool true
  induction ds with
  | nil => rfl
  | cons d ds ih => exact ih

end Datum

namespace Value

/-- A value of a sort whose text stands for it. -/
structure WrittenAs (sort : ValueSort) (v : Value) : Prop where
  ofSort : v.sort? = some sort
  exactly : v.WrittenExactly

/-- A value that is written exactly has a datum of its own sort and place. -/
theorem WrittenAs.traits {sort : ValueSort} {v : Value} (h : v.WrittenAs sort) :
    v.datum.sort? = some sort ∧ v.datum.place = v.place := by
  obtain ⟨hsort, hwritten⟩ := h
  cases v with
  | number x =>
    cases x with
    | finite negative size held => exact ⟨hsort, rfl⟩
    | infinite negative => cases hwritten
    | undefined => cases hwritten
  | text s | integer n | flag b => exact ⟨hsort, rfl⟩

end Value

/-! ## Values in ranges -/

namespace Endpoint

/-- A value lies above a lower end, or on it if it is closed. -/
def Under (l : Endpoint) (d : Datum) : Prop :=
  d.order? l.value.datum = some .gt ∨ d.order? l.value.datum = some .eq ∧ l.closed = true

/-- A value lies below an upper end, or on it if it is closed. -/
def Above (u : Endpoint) (d : Datum) : Prop :=
  d.order? u.value.datum = some .lt ∨ d.order? u.value.datum = some .eq ∧ u.closed = true

theorem under_iff {l : Endpoint} {d : Datum} : l.Under d
    ↔ ∃ o, d.order? l.value.datum = some o ∧ (if l.closed then o != .lt else o == .gt) = true := by
  unfold Under
  cases d.order? l.value.datum with
  | none => simp
  | some o => cases o <;> cases l.closed <;> simp

theorem above_iff {u : Endpoint} {d : Datum} : u.Above d
    ↔ ∃ o, d.order? u.value.datum = some o ∧ (if u.closed then o != .gt else o == .lt) = true := by
  unfold Above
  cases d.order? u.value.datum with
  | none => simp
  | some o => cases o <;> cases u.closed <;> simp

end Endpoint

namespace Range

/-- **`Accepts`** — a value of a row lies in a range. -/
def Accepts (r : Range) (d : Datum) : Prop :=
  (∀ l, r.lower = some l → l.Under d) ∧ ∀ u, r.upper = some u → u.Above d

/-- Both ends of a range are of one sort and written exactly. -/
abbrev WrittenOver (sort : ValueSort) (r : Range) : Prop := r.Ends (Value.WrittenAs sort)

variable {sort : ValueSort} {r : Range} {d : Datum}

theorem WrittenOver.over (h : r.WrittenOver sort) : r.Over sort :=
  ⟨fun l hl => (h.1 l hl).ofSort, fun u hu => (h.2 u hu).ofSort⟩

/-- The ends of a range are closed and at one place. -/
def IsPoint (r : Range) : Prop := ∃ l u, r.lower = some l ∧ r.upper = some u ∧ l.closed = true ∧ u.closed = true
  ∧ l.value.place = u.value.place

/-- Values are compared with an end by their places. -/
theorem order?_end {e : Endpoint} (he : e.value.WrittenAs sort) (hd : d.sort? = some sort) :
    d.order? e.value.datum = some (cmp d.place e.value.place) := by
  rw [Datum.order?_eq hd he.traits.1, he.traits.2]

/-- A point accepts what is equal to it. -/
theorem accepts_of_isPoint (hr : r.WrittenOver sort) (h : r.IsPoint) {l : Endpoint} (hl : r.lower = some l)
    (hd : d.sort? = some sort) : r.Accepts d ↔ d.order? l.value.datum = some .eq := by
  obtain ⟨l', u, hl', hu, hlower, hupper, hplace⟩ := h
  obtain rfl : l = l' := Option.some_inj.mp (hl.symm.trans hl')
  simp only [Accepts, hl, hu, Option.some_inj, forall_eq', Endpoint.Under, Endpoint.Above, hlower, hupper,
    order?_end (hr.1 l hl) hd, order?_end (hr.2 u hu) hd, ← hplace, and_true]
  cases cmp d.place l.value.place <;> simp

/-- Every range has a shape, which tells the whole line and the points from other ranges. -/
theorem exists_shape (hr : r.Over sort) :
    ∃ s, r.shape = .ok s ∧ (s = .all ↔ r = .all) ∧ (s = .singleton ↔ r.IsPoint) := by
  obtain ⟨lower, upper⟩ := r
  cases lower with
  | none =>
    cases upper with
    | none => exact ⟨_, rfl, by simp [all], by simp [IsPoint]⟩
    | some u => exact ⟨_, rfl, by cases u.closed <;> simp [all], by cases u.closed <;> simp [IsPoint]⟩
  | some l =>
    cases upper with
    | none => exact ⟨_, rfl, by cases l.closed <;> simp [all], by cases l.closed <;> simp [IsPoint]⟩
    | some u =>
      have horder := Value.order_eq (hr.1 l rfl) (hr.2 u rfl)
      cases hl : l.closed with
      | false => cases hu : u.closed <;> exact ⟨_, by simp [shape, hl, hu]; rfl, by simp [all], by simp [IsPoint, hl]⟩
      | true =>
        cases hu : u.closed with
        | false => exact ⟨.closedOpen, by simp [shape, hl, hu], by simp [all], by simp [IsPoint, hu]⟩
        | true =>
          refine ⟨if cmp l.value.place u.value.place == .eq then .singleton else .closed, ?_, ?_, ?_⟩
          · simp [shape, hl, hu, horder, bind, Except.bind, pure, Except.pure]
          · split <;> simp [all]
          · simp [IsPoint, hl, hu]

theorem accepts_iff (hr : r.WrittenOver sort) (hd : d.sort? = some sort) : r.Accepts d ↔ r.Covers d.place := by
  rw [Covers, start_le_beside, beside_le_stop, Accepts]
  refine and_congr (forall₂_congr fun l hl => ?_) (forall₂_congr fun u hu => ?_)
  · rw [Endpoint.Under, order?_end (hr.1 l hl) hd, Option.some_inj, Option.some_inj, cmp_eq_gt_iff, cmp_eq_eq_iff,
      eq_comm]
  · rw [Endpoint.Above, order?_end (hr.2 u hu) hd, Option.some_inj, Option.some_inj, cmp_eq_lt_iff, cmp_eq_eq_iff]

end Range

/-! ## Tests -/

/-- A type whose constants stand for range endpoints of a sort. -/
def DataType.Suits (type : DataType) : ValueSort → Prop
  | .text => type.family = .character
  | .number => type.family = .numeric
  | .flag => type.family = .boolean

/-- The outcome of a test for a value: whether the value is accepted if it is of the sort, and none if it
is missing. -/
structure Decides (sort : ValueSort) (accepted : Datum → Prop) (d outcome : Datum) : Prop where
  present : d.sort? = some sort → ∃ b, outcome = .bool b ∧ (b = true ↔ accepted d)
  missing : d = .null → outcome = .null

/-- A comparison decides on which side of a value another one lies. -/
theorem compare_decides {sort : ValueSort} {e : Datum} (he : e.sort? = some sort) (test : Ordering → Bool)
    (d : Datum) : Decides sort (fun d => ∃ o, d.order? e = some o ∧ test o = true) d (d.compare test e) where
  present hd := ⟨test (cmp d.place e.place), by simp [Datum.compare, Datum.order?_eq hd he],
    by simp [Datum.order?_eq hd he]⟩
  missing hd := by
    subst hd
    rfl

theorem Decides.congr {sort : ValueSort} {accepted accepted' : Datum → Prop} {d outcome : Datum}
    (h : Decides sort accepted d outcome) (hsame : d.sort? = some sort → (accepted d ↔ accepted' d)) :
    Decides sort accepted' d outcome where
  present hd := by
    obtain ⟨b, hb, haccepted⟩ := h.present hd
    exact ⟨b, hb, haccepted.trans (hsame hd)⟩
  missing := h.missing

/-- Both of two tests. -/
theorem Decides.and {sort : ValueSort} {p q : Datum → Prop} {d x y : Datum} (hp : Decides sort p d x)
    (hq : Decides sort q d y) : Decides sort (fun d => p d ∧ q d) d (x.and y) where
  present hd := by
    obtain ⟨a, rfl, ha⟩ := hp.present hd
    obtain ⟨b, rfl, hb⟩ := hq.present hd
    refine ⟨a && b, by cases a <;> cases b <;> rfl, ?_⟩
    rw [Bool.and_eq_true, ha, hb]
  missing hd := by
    rw [hp.missing hd, hq.missing hd]
    rfl

namespace Convert

variable {d : Dialect} {type : DataType} {sort : ValueSort} {operand : Node}

/-- A constant for an endpoint stands for it: a number by its decimal digits, a text by itself. -/
theorem endpointNode_shows (htype : type.Suits sort) {v : Value} (hv : v.WrittenAs sort) :
    ∃ n, endpointNode d type v = .ok n
      ∧ ∀ {E : Engine} {α : Type} (V : Reading E α), V.Shows n fun _ => v.datum := by
  cases sort with
  | text =>
    cases v with
    | text s =>
      have hfamily : type.family = .character := htype
      exact ⟨Node.string s, by simp [endpointNode, Literal.ofValue, hfamily, Value.toText, Literal.char, literalNode],
        fun V => Reading.shows_string s⟩
    | number x => exact absurd hv.ofSort (by cases h : x.position.extended? <;> simp [Value.sort?, h])
    | integer n | flag b => cases hv.ofSort
  | flag =>
    cases v with
    | flag b =>
      have hfamily : type.family = .boolean := htype
      exact ⟨Node.boolean b, by cases b <;> simp [endpointNode, Literal.ofValue, hfamily, Value.toText,
        Literal.boolean, literalNode], fun V => Reading.shows_boolean b⟩
    | number x => exact absurd hv.ofSort (by cases h : x.position.extended? <;> simp [Value.sort?, h])
    | integer n | text s => cases hv.ofSort
  | number =>
    have hfamily : type.family = .numeric := htype
    have hcounting : Literal.countingFlag v = v := by cases v <;> first | rfl | cases hv.ofSort
    refine ⟨Node.number (plainText v.toText), ?_, fun V => ?_⟩
    · simp only [endpointNode, Literal.ofValue, hfamily, hcounting]
      split <;> rfl
    · rw [← Value.ofDigits_toText hv.ofSort hv.exactly, ← ofDigits_plainText]
      exact Reading.shows_number _

/-- A test against an endpoint decides what its comparison says. -/
theorem compareNode_decides (htype : type.Suits sort) {v : Value} (hv : v.WrittenAs sort) {kind : Kind}
    {test : Ordering → Bool} (hkind : comparison? kind = some test) {accepted : Datum → Prop}
    (hsame : ∀ d : Datum, d.sort? = some sort →
      ((∃ o, d.order? v.datum = some o ∧ test o = true) ↔ accepted d)) :
    ∃ n, compareNode d type operand kind v = .ok n
      ∧ ∀ {E : Engine} {α : Type} (V : Reading E α) {w : α → Datum}, V.Shows operand w →
        ∃ u, V.Shows n u ∧ ∀ a, Decides sort accepted (w a) (u a) := by
  obtain ⟨n, hn, hshows⟩ := @endpointNode_shows d type sort htype v hv
  exact ⟨Node.binary kind operand n, by simp [compareNode, hn], fun V w hw =>
    ⟨_, Reading.shows_comparison hkind hw (hshows V), fun a => (compare_decides hv.traits.1 test _).congr (hsame _)⟩⟩

theorem lowerNode_decides (htype : type.Suits sort) {l : Endpoint} (hl : l.value.WrittenAs sort) :
    ∃ n, lowerNode d type operand l = .ok n
      ∧ ∀ {E : Engine} {α : Type} (V : Reading E α) {w : α → Datum}, V.Shows operand w →
        ∃ u, V.Shows n u ∧ ∀ a, Decides sort l.Under (w a) (u a) := by
  unfold lowerNode
  cases hclosed : l.closed with
  | true => exact compareNode_decides htype hl rfl fun d _ => by simp [Endpoint.under_iff, hclosed]
  | false => exact compareNode_decides htype hl rfl fun d _ => by simp [Endpoint.under_iff, hclosed]

theorem upperNode_decides (htype : type.Suits sort) {u : Endpoint} (hu : u.value.WrittenAs sort) :
    ∃ n, upperNode d type operand u = .ok n
      ∧ ∀ {E : Engine} {α : Type} (V : Reading E α) {w : α → Datum}, V.Shows operand w →
        ∃ x, V.Shows n x ∧ ∀ a, Decides sort u.Above (w a) (x a) := by
  unfold upperNode
  cases hclosed : u.closed with
  | true => exact compareNode_decides htype hu rfl fun d _ => by simp [Endpoint.above_iff, hclosed]
  | false => exact compareNode_decides htype hu rfl fun d _ => by simp [Endpoint.above_iff, hclosed]

/-- The test for a range decides whether it accepts a value, unless it accepts every value. -/
theorem rangeNode_decides (htype : type.Suits sort) {r : Range} (hr : r.WrittenOver sort) :
    ∃ n, rangeNode d type operand r = .ok n
      ∧ ∀ {E : Engine} {α : Type} (V : Reading E α) {w : α → Datum}, V.Shows operand w →
        ∃ u, V.Shows n u ∧ ∀ a, (r = .all → u a = .bool true) ∧ (r ≠ .all → Decides sort r.Accepts (w a) (u a)) := by
  obtain ⟨lower, upper⟩ := r
  cases lower with
  | none =>
    cases upper with
    | none =>
      exact ⟨Node.boolean true, by simp [rangeNode, Range.shape], fun V w _ =>
        ⟨_, Reading.shows_boolean true, fun a => ⟨fun _ => rfl, fun h => absurd rfl h⟩⟩⟩
    | some u =>
      obtain ⟨n, hn, hdecides⟩ : ∃ n, upperNode d type operand u = .ok n ∧ _ := upperNode_decides htype (hr.2 u rfl)
      refine ⟨n, by cases hu : u.closed <;> simp [rangeNode, Range.shape, hu, hn, Node.and, Node.connect],
        fun V w hw => ?_⟩
      obtain ⟨x, hx, hall⟩ := hdecides V hw
      exact ⟨x, hx, fun a => ⟨fun h => by simp [Range.all] at h, fun _ => (hall a).congr fun _ => by
        simp [Range.Accepts]⟩⟩
  | some l =>
    obtain ⟨m, hm, hlower⟩ : ∃ m, lowerNode d type operand l = .ok m ∧ _ := lowerNode_decides htype (hr.1 l rfl)
    cases upper with
    | none =>
      refine ⟨m, by cases hl : l.closed <;> simp [rangeNode, Range.shape, hl, hm, Node.and, Node.connect],
        fun V w hw => ?_⟩
      obtain ⟨x, hx, hall⟩ := hlower V hw
      exact ⟨x, hx, fun a => ⟨fun h => by simp [Range.all] at h, fun _ => (hall a).congr fun _ => by
        simp [Range.Accepts]⟩⟩
    | some u =>
      obtain ⟨s, hs, hall, hpoint⟩ := Range.exists_shape hr.over
      by_cases h : (⟨some l, some u⟩ : Range).IsPoint
      · have hequal : ∀ e : Datum, e.sort? = some sort →
            ((∃ o, e.order? l.value.datum = some o ∧ (o == .eq) = true)
              ↔ (⟨some l, some u⟩ : Range).Accepts e) := fun e he => by
          rw [Range.accepts_of_isPoint hr h rfl he]
          cases e.order? l.value.datum <;> simp
        obtain ⟨n, hn, hdecides⟩ : ∃ n, compareNode d type operand .eq l.value = .ok n ∧ _ :=
          compareNode_decides htype (hr.1 l rfl) rfl hequal
        refine ⟨n, by simp [rangeNode, hs, hpoint.mpr h, hn], fun V w hw => ?_⟩
        obtain ⟨x, hx, hx'⟩ := hdecides V hw
        exact ⟨x, hx, fun a => ⟨fun h => by simp [Range.all] at h, fun _ => hx' a⟩⟩
      · obtain ⟨n, hn, hupper⟩ : ∃ n, upperNode d type operand u = .ok n ∧ _ := upperNode_decides htype (hr.2 u rfl)
        refine ⟨Node.and [m, n], ?_, fun V w hw => ?_⟩
        · have hne : s ≠ .all := fun hs => by simpa [Range.all] using hall.mp hs
          have hne' : s ≠ .singleton := fun hs => h (hpoint.mp hs)
          cases s <;> simp_all [rangeNode]
        obtain ⟨x, hx, hx'⟩ := hlower V hw
        obtain ⟨y, hy, hy'⟩ := hupper V hw
        refine ⟨_, Reading.shows_and (.cons hx (.cons hy .nil)), fun a => ⟨fun h => by simp [Range.all] at h, fun _ => ?_⟩⟩
        exact ((hx' a).and (hy' a)).congr fun _ => by simp [Range.Accepts]

end Convert

/-! ## Points -/

namespace RangeSet

variable {sort : ValueSort} {s : RangeSet}

/-- A test for every element has an outcome if each of them has one. -/
theorem allM_eq {α : Type} {p : α → Except Error Bool} {q : α → Prop} {as : List α}
    (h : ∀ a ∈ as, ∃ b, p a = .ok b ∧ (b = true ↔ q a)) :
    ∃ b, as.allM p = .ok b ∧ (b = true ↔ ∀ a ∈ as, q a) := by
  induction as with
  | nil => exact ⟨true, rfl, by simp⟩
  | cons a as ih =>
    obtain ⟨b, hb, ha⟩ := h a (by simp)
    cases b with
    | true =>
      obtain ⟨c, hc, hrest⟩ := ih fun a ha => h a (by simp [ha])
      exact ⟨c, by simp [List.allM, hb, hc], by rw [hrest, List.forall_mem_cons, and_iff_right (ha.mp rfl)]⟩
    | false => exact ⟨false, by simp [List.allM, hb, pure, Except.pure], by simp [← ha]⟩

theorem isPoints_eq (h : ∀ r ∈ s.ranges, r.Over sort) :
    ∃ b, s.isPoints = .ok b ∧ (b = true ↔ ∀ r ∈ s.ranges, r.IsPoint) := by
  refine allM_eq fun r hr => ?_
  obtain ⟨shape, hshape, -, hpoint⟩ := Range.exists_shape (h r hr)
  exact ⟨shape == .singleton, by simp [hshape, pure, Except.pure], by simpa using hpoint⟩

/-- The values of a set of points are their ends. -/
theorem points_eq (h : ∀ r ∈ s.ranges, r.WrittenOver sort) (hpoints : ∀ r ∈ s.ranges, r.IsPoint) :
    ∃ vs, s.points = .ok vs ∧ List.Forall₂ (fun r v => ∃ l, r.lower = some l ∧ l.value = v) s.ranges vs
      ∧ ∀ v ∈ vs, v.WrittenAs sort := by
  have hall : ∀ rs : List Range, (∀ r ∈ rs, r.WrittenOver sort) → (∀ r ∈ rs, r.IsPoint) →
      ∃ vs : List Value, rs.mapM pointOf = .ok (vs.map some)
        ∧ List.Forall₂ (fun r v => ∃ l, r.lower = some l ∧ l.value = v) rs vs ∧ ∀ v ∈ vs, v.WrittenAs sort := by
    intro rs
    induction rs with
    | nil => exact fun _ _ => ⟨[], rfl, .nil, by simp⟩
    | cons r rs ih =>
      intro h hpoints
      obtain ⟨shape, hshape, -, hpoint⟩ := Range.exists_shape (h r (by simp)).over
      have hr := hpoints r (by simp)
      obtain ⟨vs, hvs, hlower, hsort⟩ := ih (fun r hr => h r (by simp [hr])) fun r hr => hpoints r (by simp [hr])
      obtain rfl := hpoint.mpr hr
      obtain ⟨l, -, hl, -⟩ := hr
      exact ⟨l.value :: vs, by simp [pointOf, hshape, hl, hvs], .cons ⟨l, hl, rfl⟩ hlower,
        List.forall_mem_cons.mpr ⟨(h r (by simp)).1 l hl, hsort⟩⟩
  obtain ⟨vs, hvs, hlower, hsort⟩ := hall s.ranges h hpoints
  exact ⟨vs, by simp [points, hvs, List.filterMap_map], hlower, hsort⟩

end RangeSet

/-! ## Range sets -/

/-- The outcomes of several tests for a value answer whether one of some ranges accepts it. -/
structure Answers (sort : ValueSort) (rs : List Range) (d : Datum) (outcomes : List Datum) : Prop where
  present : d.sort? = some sort →
    ∃ bs : List Bool, outcomes = bs.map .bool ∧ (bs.any id = true ↔ ∃ r ∈ rs, r.Accepts d)
  missing : d = .null → (∀ r ∈ rs, r ≠ .all) → .bool true ∉ outcomes

namespace Answers

variable {sort : ValueSort} {rs : List Range} {d : Datum}

theorem nil : Answers sort [] d [] where
  present _ := ⟨[], rfl, by simp⟩
  missing _ _ := by simp

/-- One more test, for one more range. -/
theorem cons {r : Range} {x : Datum} {xs : List Datum} (hall : r = .all → x = .bool true)
    (hx : r ≠ .all → Decides sort r.Accepts d x) (h : Answers sort rs d xs) : Answers sort (r :: rs) d (x :: xs) where
  present hd := by
    obtain ⟨b, hb, haccepts⟩ : ∃ b, x = .bool b ∧ (b = true ↔ r.Accepts d) := by
      by_cases hr : r = .all
      · exact ⟨true, hall hr, by simp [hr, Range.Accepts, Range.all]⟩
      · exact (hx hr).present hd
    obtain ⟨bs, hbs, hrest⟩ := h.present hd
    exact ⟨b :: bs, by rw [hb, hbs]; rfl, by simp [haccepts, ← hrest]⟩
  missing hd hne := by
    have hx : x = .null := (hx (hne r (by simp))).missing hd
    have hrest := h.missing hd fun r hr => hne r (by simp [hr])
    simp [hx, hrest]

/-- One test for equality with one of the points. -/
theorem points (h : ∀ r ∈ rs, r.WrittenOver sort) (hpoints : ∀ r ∈ rs, r.IsPoint) {vs : List Value}
    (hvs : List.Forall₂ (fun r v => ∃ l, r.lower = some l ∧ l.value = v) rs vs) :
    Answers sort rs d [d.among (vs.map Value.datum)] where
  present hd := by
    have hequal : ∃ bs : List Bool, (vs.map Value.datum).map d.equal = bs.map .bool
        ∧ (bs.any id = true ↔ ∃ r ∈ rs, r.Accepts d) := by
      induction hvs with
      | nil => exact ⟨[], rfl, by simp⟩
      | @cons r v rs vs hv _ ih =>
        obtain ⟨bs, hbs, hrest⟩ := ih (fun r hr => h r (by simp [hr])) fun r hr => hpoints r (by simp [hr])
        obtain ⟨l, hl, rfl⟩ := hv
        have hover := h r (by simp)
        have haccepts := Range.accepts_of_isPoint hover (hpoints r (by simp)) hl hd
        have horder := Range.order?_end (hover.1 l hl) hd
        rw [horder, Option.some_inj] at haccepts
        refine ⟨(cmp d.place l.value.place == .eq) :: bs, ?_, ?_⟩
        · rw [List.map_cons, List.map_cons, hbs, Datum.equal, Datum.compare, horder]
          rfl
        · simp [haccepts, ← hrest]
    obtain ⟨bs, hbs, hany⟩ := hequal
    exact ⟨[bs.any id], by rw [Datum.among, hbs, Datum.connect_or_bools]; rfl, by simpa using hany⟩
  missing hd hne := by
    subst hd
    intro hmem
    have htrue := Datum.mem_of_connect_or (List.mem_singleton.mp hmem).symm
    simp [Datum.equal, Datum.compare, Datum.order?] at htrue

end Answers

namespace Convert

variable {d : Dialect} {type : DataType} {sort : ValueSort} {operand : Node}

theorem rangeNodes_answer (htype : type.Suits sort) {rs : List Range} (h : ∀ r ∈ rs, r.WrittenOver sort) :
    ∃ ns, rs.mapM (rangeNode d type operand) = .ok ns
      ∧ ∀ {E : Engine} {α : Type} (V : Reading E α) {w : α → Datum}, V.Shows operand w →
        ∃ us, List.Forall₂ V.Shows ns us ∧ ∀ a, Answers sort rs (w a) (us.map fun u => u a) := by
  induction rs with
  | nil => exact ⟨[], rfl, fun V w _ => ⟨[], .nil, fun _ => .nil⟩⟩
  | cons r rs ih =>
    obtain ⟨n, hn, hdecides⟩ : ∃ n, rangeNode d type operand r = .ok n ∧ _ :=
      rangeNode_decides htype (h r (by simp))
    obtain ⟨ns, hns, hanswers⟩ := ih fun r hr => h r (by simp [hr])
    refine ⟨n :: ns, by simp [hn, hns], fun V w hw => ?_⟩
    obtain ⟨u, hu, hr⟩ := hdecides V hw
    obtain ⟨us, hus, hrs⟩ := hanswers V hw
    exact ⟨u :: us, .cons hu hus, fun a => .cons (hr a).1 (hr a).2 (hrs a)⟩

/-- Constants for several endpoints. -/
theorem endpointNodes_show (htype : type.Suits sort) {vs : List Value} (h : ∀ v ∈ vs, v.WrittenAs sort) :
    ∃ ns, vs.mapM (endpointNode d type) = .ok ns
      ∧ ∀ {E : Engine} {α : Type} (V : Reading E α), List.Forall₂ V.Shows ns (vs.map fun v _ => v.datum) := by
  induction vs with
  | nil => exact ⟨[], rfl, fun V => .nil⟩
  | cons v vs ih =>
    obtain ⟨n, hn, hv⟩ := @endpointNode_shows d type sort htype v (h v (by simp))
    obtain ⟨ns, hns, hvs⟩ := ih fun v hv => h v (by simp [hv])
    exact ⟨n :: ns, by simp [hn, hns], fun V => .cons (hv V) (hvs V)⟩

/-- The tests for a range set answer whether one of its ranges accepts a value. -/
theorem rangeSetNodes_answer (htype : type.Suits sort) {s : RangeSet} (h : ∀ r ∈ s.ranges, r.WrittenOver sort) :
    ∃ ns, rangeSetNodes d type operand s = .ok ns
      ∧ ∀ {E : Engine} {P : Patterns} {α : Type} (V : Reading (E.withOperators P) α) {w : α → Datum},
        V.Shows operand w →
          ∃ us, List.Forall₂ V.Shows ns us ∧ ∀ a, Answers sort s.ranges (w a) (us.map fun u => u a) := by
  obtain ⟨points, hpoints, hall⟩ := RangeSet.isPoints_eq fun r hr => (h r hr).over
  cases points with
  | false =>
    obtain ⟨ns, hns, hanswers⟩ : ∃ ns, s.ranges.mapM (rangeNode d type operand) = .ok ns ∧ _ :=
      rangeNodes_answer htype h
    exact ⟨ns, by simp [rangeSetNodes, hpoints, hns], fun V w hw => hanswers V hw⟩
  | true =>
    have hpoint := hall.mp rfl
    obtain ⟨vs, hvs, hlower, hsort⟩ := RangeSet.points_eq h hpoint
    rcases vs with _ | ⟨v, _ | ⟨v', vs⟩⟩
    · have hempty : s.ranges = [] := List.forall₂_nil_right_iff.mp hlower
      exact ⟨[], by simp [rangeSetNodes, hpoints, hvs, pure, Except.pure], fun V w _ =>
        ⟨[], .nil, fun _ => hempty ▸ .nil⟩⟩
    · obtain ⟨n, hn, hv⟩ := @endpointNode_shows d type sort htype v (hsort v (by simp))
      refine ⟨[Node.binary .eq operand n], by simp [rangeSetNodes, compareNode, hpoints, hvs, hn], fun V w hw => ?_⟩
      exact ⟨_, .cons (Reading.shows_comparison rfl hw (hv V)) .nil, fun a => .points h hpoint hlower⟩
    · obtain ⟨ns, hns, hconstants⟩ : ∃ ns, (v :: v' :: vs).mapM (endpointNode d type) = .ok ns ∧ _ :=
        endpointNodes_show htype hsort
      refine ⟨[Node.inList operand ns], by simp only [rangeSetNodes, hpoints, hvs]; simp [hns], fun V w hw => ?_⟩
      refine ⟨_, .cons (Reading.shows_inList false hw (hconstants V)) .nil, fun a => ?_⟩
      have hanswer := Answers.points (d := w a) h hpoint hlower
      simpa [Function.comp_def] using hanswer

/-- Among separate ranges, one that accepts everything is the only one. -/
theorem eq_all_of_mem {rs : List Range} (hseparate : rs.Pairwise fun r t => r.stop < t.start)
    (h : Range.all ∈ rs) : rs = [Range.all] := by
  obtain ⟨before, behind, rfl⟩ := List.append_of_mem h
  have hstart : Range.all.start = ⊥ := rfl
  have hstop : Range.all.stop = ⊤ := rfl
  rw [List.pairwise_append, List.pairwise_cons] at hseparate
  obtain ⟨-, ⟨hbehind, -⟩, hbefore⟩ := hseparate
  have hnone : before = [] := List.eq_nil_iff_forall_not_mem.mpr fun r hr => by
    have hlt := hbefore r hr Range.all (by simp)
    rw [hstart] at hlt
    exact not_lt_bot hlt
  have hnone' : behind = [] := List.eq_nil_iff_forall_not_mem.mpr fun r hr => by
    have hlt := hbehind r hr
    rw [hstop] at hlt
    exact not_top_lt hlt
  rw [hnone, hnone', List.nil_append]

/-- **`SearchOutcome`** — what a test for some ranges says of a value: for a value of the sort it is true
or false, and true exactly if one of the ranges accepts the value; for a missing value it is true if
missing values are accepted, and otherwise not true unless the normal form of the ranges is the whole
line. -/
structure SearchOutcome (sort : ValueSort) (ranges : List Range) (sarg : Sarg) (d outcome : Datum) : Prop where
  present : d.sort? = some sort → ∃ b, outcome = .bool b ∧ (b = true ↔ ∃ r ∈ ranges, r.Accepts d)
  accepted : d = .null → sarg.containsNull = true → outcome = .bool true
  rejected : d = .null → sarg.containsNull = false → sarg.rangeSet.ranges ≠ [Range.all] → outcome ≠ .bool true

/-- **`sargNode`** — the test for a search argument over ranges of one sort has the right outcome for
every value of its operand, in a type whose constants can stand for the ends of the ranges, if the text of
every end stands for it. -/
theorem sargNode_exact (d : Dialect) (type : DataType) (sort : ValueSort) (htype : type.Suits sort)
    (ranges : List Range) (h : ∀ r ∈ ranges, r.Over sort) (hwritten : ∀ r ∈ ranges, r.Ends Value.WrittenExactly)
    (containsNull : Bool) (operand : Node) :
    ∃ sarg n, Sarg.ofRanges ranges containsNull = .ok sarg ∧ sarg.containsNull = containsNull
      ∧ sargNode d operand sarg type = .ok n
      ∧ ∀ (E : Engine) (P : Patterns) {α : Type} (V : Reading (E.withOperators P) α) (v : α → Datum),
        V.Shows operand v → ∃ outcome : α → Datum, V.Shows n outcome
          ∧ ∀ a, SearchOutcome sort ranges sarg (v a) (outcome a) := by
  obtain ⟨s, hs, hsound, hseparate, hcovered, hends⟩ := RangeSet.ofRanges_eq h
  have hgiven : ∀ r ∈ ranges, r.WrittenOver sort := fun r hr =>
    ⟨fun l hl => ⟨(h r hr).1 l hl, (hwritten r hr).1 l hl⟩, fun u hu => ⟨(h r hr).2 u hu, (hwritten r hr).2 u hu⟩⟩
  have hover : ∀ r ∈ s.ranges, r.WrittenOver sort := hends _ hgiven
  have haccepts : ∀ {e : Datum}, e.sort? = some sort →
      ((∃ r ∈ s.ranges, r.Accepts e) ↔ ∃ r ∈ ranges, r.Accepts e) := by
    intro e he
    have hiff := hcovered e.place
    constructor
    · rintro ⟨r, hr, haccepts⟩
      obtain ⟨t, ht, hcovers⟩ := hiff.mp ⟨r, hr, (Range.accepts_iff (hover r hr) he).mp haccepts⟩
      exact ⟨t, ht, (Range.accepts_iff (hgiven t ht) he).mpr hcovers⟩
    · rintro ⟨r, hr, haccepts⟩
      obtain ⟨t, ht, hcovers⟩ := hiff.mpr ⟨r, hr, (Range.accepts_iff (hgiven r hr) he).mp haccepts⟩
      exact ⟨t, ht, (Range.accepts_iff (hover t ht) he).mpr hcovers⟩
  obtain ⟨ns, hns, hanswers⟩ : ∃ ns, rangeSetNodes d type operand s = .ok ns ∧ _ :=
    rangeSetNodes_answer htype hover
  refine ⟨⟨s, containsNull⟩, Node.or ((if containsNull then [Node.isNull operand] else []) ++ ns),
    by simp [Sarg.ofRanges, hs, pure, Except.pure], rfl, by simp [sargNode, hns], fun E P α V v hv => ?_⟩
  obtain ⟨us, hus, hall⟩ := hanswers V hv
  cases containsNull with
  | false =>
    refine ⟨_, Reading.shows_or hus, fun a => ⟨fun hsort => ?_, fun _ hfalse => ?_, fun hnull _ hwhole => ?_⟩⟩
    · obtain ⟨bs, hbs, hany⟩ := (hall a).present hsort
      exact ⟨bs.any id, by rw [hbs, Datum.connect_or_bools], hany.trans (haccepts hsort)⟩
    · cases hfalse
    · intro htrue
      have hne : ∀ r ∈ s.ranges, r ≠ .all := by
        rintro r hr rfl
        exact hwhole (eq_all_of_mem hseparate hr)
      exact (hall a).missing hnull hne (Datum.mem_of_connect_or htrue)
  | true =>
    refine ⟨_, Reading.shows_or (.cons (Reading.shows_isNull hv) hus), fun a =>
      ⟨fun hsort => ?_, fun hnull _ => ?_, fun _ hfalse => ?_⟩⟩
    · obtain ⟨bs, hbs, hany⟩ := (hall a).present hsort
      have hpresent : v a ≠ .null := fun hnull => by
        rw [hnull] at hsort
        cases hsort
      refine ⟨(false :: bs).any id, ?_, ?_⟩
      · rw [← Datum.connect_or_bools, List.map_cons, List.map_cons, hbs]
        simp [hpresent]
      · rw [List.any_cons, id, Bool.false_or, hany, haccepts hsort]
    · simp only [List.map_cons, hnull, decide_true]
      exact Datum.connect_or_true _
    · cases hfalse

/-- A whole number as the end of a range, not of the representation for numbers of any size. -/
def wholeEnd (n : Int) : Value := .number (Double.ofDecimal (Decimal.ofInt n))

/-- Whole numbers in two ranges that touch, in one that is empty, and in one without an upper end. -/
def numbersAround : List Range :=
  [Range.closedOpen (wholeEnd 1) (.integer 4), Range.open (wholeEnd 6) (wholeEnd 6),
    Range.closed (.integer 4) (wholeEnd 4), Range.greaterThan (wholeEnd 9)]

theorem sargNode_exact_numbersAround : DataType.integer.Suits .number ∧ (∀ r ∈ numbersAround, r.Over .number)
    ∧ (∀ r ∈ numbersAround, r.Ends Value.WrittenExactly)
    ∧ ∃ sarg n, Sarg.ofRanges numbersAround true = .ok sarg ∧ sarg.containsNull = true
      ∧ sargNode Dialect.ansi (Node.column "c") sarg DataType.integer = .ok n
      ∧ ∀ (E : Engine) (P : Patterns) {α : Type} (V : Reading (E.withOperators P) α) (v : α → Datum),
        V.Shows (Node.column "c") v → ∃ outcome : α → Datum, V.Shows n outcome
          ∧ ∀ a, SearchOutcome .number numbersAround sarg (v a) (outcome a) := by
  have hends : ∀ n : Int, n.natAbs < 2 ^ 53 → (wholeEnd n).WrittenExactly := fun _ h => Double.writtenExactly_ofInt h
  have hsort : ∀ n : Int, n.natAbs < 2 ^ 53 → (wholeEnd n).sort? = some .number := fun n h =>
    Value.sort?_of_writtenExactly (hends n h)
  have hover : ∀ r ∈ numbersAround, r.Over .number := by
    simp [numbersAround, Range.Ends, Range.closedOpen, Range.open, Range.closed, Range.greaterThan, Range.between,
      hsort]
  have hwritten : ∀ r ∈ numbersAround, r.Ends Value.WrittenExactly := by
    simp [numbersAround, Range.Ends, Range.closedOpen, Range.open, Range.closed, Range.greaterThan, Range.between,
      hends]
  exact ⟨rfl, hover, hwritten,
    sargNode_exact Dialect.ansi DataType.integer .number rfl numbersAround hover hwritten true (Node.column "c")⟩

/-- The sixtieth power of two. -/
def largePower : Value := .number (.finite false ⟨2 ^ 52, 8⟩ (by decide))

/-- The sixtieth power of two lies in the range that it makes up, but the condition compares with another number, for
which the digits of its text stand. -/
theorem largePower_notFound :
    (∀ r ∈ [Range.singleton largePower], r.Over .number) ∧ DataType.integer.Suits .number
      ∧ (Range.singleton largePower).Accepts (.number (2 ^ 60))
      ∧ ∃ sarg n, Sarg.ofRanges [Range.singleton largePower] false = .ok sarg
        ∧ sargNode Dialect.ansi (Node.column "x") sarg DataType.integer = .ok n
        ∧ n = Node.binary .eq (Node.column "x") (Node.number "1152921504606847000")
        ∧ ∀ (E : Engine) (P : Patterns) {α : Type} (V : Reading (E.withOperators P) α) (v : α → Datum),
          V.Shows (Node.column "x") v → ∃ outcome : α → Datum, V.Shows n outcome
            ∧ ∀ a, v a = .number (2 ^ 60) → outcome a = .bool false := by
  have hpower : largePower.datum = .number (2 ^ 60) := by decide +kernel
  have hsort : largePower.sort? = some .number := rfl
  have hsarg : Sarg.ofRanges [Range.singleton largePower] false = .ok ⟨⟨[Range.singleton largePower]⟩, false⟩ := by rfl
  have hnode : sargNode Dialect.ansi (Node.column "x") ⟨⟨[Range.singleton largePower]⟩, false⟩ DataType.integer
      = .ok (Node.binary .eq (Node.column "x") (Node.number "1152921504606847000")) := by rfl
  refine ⟨?_, rfl, ?_, _, _, hsarg, hnode, rfl, fun E P α V v hv => ?_⟩
  · simp [Range.Ends, Range.singleton, Range.between, hsort]
  · simp [Range.Accepts, Range.singleton, Range.between, Endpoint.Under, Endpoint.Above, hpower, Datum.order?]
  · refine ⟨_, Reading.shows_comparison rfl hv (Reading.shows_number _), fun a ha => ?_⟩
    rw [ha]
    decide +kernel

end Convert

end AlgebraSql
