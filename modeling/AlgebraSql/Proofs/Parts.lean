import AlgebraSql.Proofs.PlanCheck

/-!
# Parts — what an expression is made of.

The parts of an expression are reached without entering the relation of a sub-query.  The ends of window
frames are parts, which the analysis of plans leaves out; entries of a shared list that nothing refers to are
none.  A property of all parts is inherited by each of them.
-/

namespace AlgebraSql

/-! ## Immediate parts -/

/-- The expression in a frame's end, if there is one. -/
def boundExprs {α : Type} : Option (Bound α) → List α
  | some (.preceding e) | some (.following e) => [e]
  | _ => []

/-- The expressions of a frame. -/
def frameExprs {α : Type} (frame : Frame α) : List α := boundExprs frame.lower ++ boundExprs frame.upper

/-- The expressions of a window. -/
def windowExprs {α : Type} (window : Window α) : List α :=
  window.partition ++ window.order.map (·.key) ++ frameExprs window.frame

namespace Scalar

variable {ρ : Type}

/-- The expressions that stand directly in an expression. -/
def immediate : Scalar ρ → List (Scalar ρ)
  | .localRef i shared _ => (nth? shared i).toList
  | .call _ es _ => es
  | .overWindow _ es window _ _ => es ++ windowExprs window
  | .fieldAccess row _ _ _ => [row]
  | .subQuery _ es _ _ => es
  | _ => []

/-! ## All parts -/

mutual

/-- The expression and everything in it, each before its own parts. -/
def parts : Scalar ρ → List (Scalar ρ)
  | .inputRef i t => [.inputRef i t]
  | .localRef i shared t =>
    .localRef i shared t :: (match i.nat? with
      | some n => partsAt n shared
      | none => [])
  | .literal l => [.literal l]
  | .call op es t => .call op es t :: partsOf es
  | .overWindow op es ⟨partition, order, ⟨rows, lower, upper⟩⟩ distinct t =>
    .overWindow op es ⟨partition, order, ⟨rows, lower, upper⟩⟩ distinct t
      :: (partsOf es ++ (partsOf partition ++ partsOfKeys order ++ (partsOfBound lower ++ partsOfBound upper)))
  | .fieldAccess row field i t => .fieldAccess row field i t :: parts row
  | .correlation id t => [.correlation id t]
  | .subQuery op es r t => .subQuery op es r t :: partsOf es
  | .parameter i t => [.parameter i t]
  | .patternField v i t => [.patternField v i t]

/-- The parts of the expressions of a list. -/
def partsOf : List (Scalar ρ) → List (Scalar ρ)
  | [] => []
  | e :: es => parts e ++ partsOf es

/-- The parts of sort keys. -/
def partsOfKeys : List (SortKey (Scalar ρ)) → List (Scalar ρ)
  | [] => []
  | ⟨e, _, _⟩ :: ks => parts e ++ partsOfKeys ks

/-- The parts of the offset of a frame's end. -/
def partsOfBound : Option (Bound (Scalar ρ)) → List (Scalar ρ)
  | some (.preceding e) => parts e
  | some (.following e) => parts e
  | some .unboundedPreceding => []
  | some .unboundedFollowing => []
  | some .currentRow => []
  | none => []

/-- The parts of the entry of a list that has `n` others before it. -/
def partsAt (n : Nat) : List (Scalar ρ) → List (Scalar ρ)
  | [] => []
  | e :: es => if n = 0 then parts e else partsAt (n - 1) es

end

theorem partsOf_eq (es : List (Scalar ρ)) : partsOf es = es.flatMap parts := by
  induction es with
  | nil => rfl
  | cons e es ih => rw [partsOf, ih, List.flatMap_cons]

theorem partsOfKeys_eq (ks : List (SortKey (Scalar ρ))) : partsOfKeys ks = (ks.map (·.key)).flatMap parts := by
  induction ks with
  | nil => rfl
  | cons k ks ih => rw [partsOfKeys, ih, List.map_cons, List.flatMap_cons]

theorem partsOfBound_eq (b : Option (Bound (Scalar ρ))) : partsOfBound b = (boundExprs b).flatMap parts := by
  rcases b with _ | b
  · rfl
  · cases b <;> simp [partsOfBound, boundExprs]

theorem partsAt_eq (n : Nat) (es : List (Scalar ρ)) : partsAt n es = es[n]?.toList.flatMap parts := by
  induction es generalizing n with
  | nil => rfl
  | cons e es ih => cases n <;> simp [partsAt, ih]

/-- **`parts`** — the parts of an expression are itself and the parts of what stands directly in it. -/
theorem parts_eq (e : Scalar ρ) : e.parts = e :: e.immediate.flatMap parts := by
  cases e with
  | localRef i shared t =>
    rw [parts, immediate, nth?]
    cases i.nat? with
    | none => rfl
    | some n => simp [partsAt_eq]
  | overWindow op es window distinct t =>
    obtain ⟨partition, order, ⟨rows, lower, upper⟩⟩ := window
    simp [parts, immediate, windowExprs, frameExprs, partsOf_eq, partsOfKeys_eq, partsOfBound_eq]
  | _ => simp [parts, immediate, partsOf_eq]

/-- What stands directly in an expression is smaller. -/
theorem sizeOf_lt_of_immediate {e c : Scalar ρ} (h : c ∈ e.immediate) : sizeOf c < sizeOf e := by
  cases e with
  | localRef i shared t =>
    have := List.sizeOf_lt_of_mem (mem_of_nth? (Option.mem_toList.mp h))
    simp only [localRef.sizeOf_spec]
    omega
  | call op es t =>
    have : sizeOf c < sizeOf es := List.sizeOf_lt_of_mem h
    simp only [call.sizeOf_spec]
    omega
  | overWindow op es window distinct t =>
    obtain ⟨partition, order, ⟨rows, lower, upper⟩⟩ := window
    have hbound : ∀ b : Option (Bound (Scalar ρ)), c ∈ boundExprs b → sizeOf c < sizeOf b := by
      rintro (_ | b) hb
      · cases hb
      · cases b <;> simp_all [boundExprs]
        all_goals omega
    simp only [immediate, windowExprs, frameExprs, List.mem_append] at h
    simp only [overWindow.sizeOf_spec, Window.mk.sizeOf_spec, Frame.mk.sizeOf_spec]
    rcases h with h | (h | h) | h | h
    · have := List.sizeOf_lt_of_mem h
      omega
    · have := List.sizeOf_lt_of_mem h
      omega
    · obtain ⟨k, hk, rfl⟩ := List.mem_map.mp h
      have := List.sizeOf_lt_of_mem hk
      obtain ⟨key, direction, nulls⟩ := k
      simp only [SortKey.mk.sizeOf_spec] at this
      simp only
      omega
    · have := hbound lower h
      omega
    · have := hbound upper h
      omega
  | fieldAccess row field i t =>
    obtain rfl := List.mem_singleton.mp h
    simp only [fieldAccess.sizeOf_spec]
    omega
  | subQuery op es r t =>
    have : sizeOf c < sizeOf es := List.sizeOf_lt_of_mem h
    simp only [subQuery.sizeOf_spec]
    omega
  | _ => cases h

/-- Induction on what stands directly in an expression. -/
theorem immediate_induction {P : Scalar ρ → Prop} (h : ∀ e, (∀ c ∈ e.immediate, P c) → P e) (e : Scalar ρ) : P e :=
  h e fun c _ => immediate_induction h c
termination_by sizeOf e
decreasing_by exact sizeOf_lt_of_immediate ‹_›

theorem mem_parts_self (e : Scalar ρ) : e ∈ e.parts := by
  rw [parts_eq]
  exact List.mem_cons_self

/-- What stands directly in an expression has no parts that the expression has not. -/
theorem mem_parts_of_immediate {e c p : Scalar ρ} (hc : c ∈ e.immediate) (hp : p ∈ c.parts) : p ∈ e.parts := by
  rw [parts_eq]
  exact List.mem_cons_of_mem _ (List.mem_flatMap.mpr ⟨c, hc, hp⟩)

end Scalar

/-! ## Windowed calls -/

namespace Scalar

variable {ρ : Type}

theorem subtermsAt_eq (n : Nat) (es : List (Scalar ρ)) : subtermsAt n es = es[n]?.toList.flatMap subterms := by
  induction es generalizing n with
  | nil => rfl
  | cons e es ih => cases n <;> simp [subtermsAt, ih]

theorem mem_subtermsOf {es : List (Scalar ρ)} {e t : Scalar ρ} (he : e ∈ es) (ht : t ∈ e.subterms) : t ∈ subtermsOf es := by
  induction es with
  | nil => cases he
  | cons d es ih =>
    rw [subtermsOf]
    rcases List.mem_cons.mp he with rfl | he
    · exact List.mem_append_left _ ht
    · exact List.mem_append_right _ (ih he)

/-- The analysis of plans sees everything that stands in an expression, but the frames of its windowed calls. -/
theorem mem_subterms_of_immediate {e c t : Scalar ρ} (he : e.isOver = false) (hc : c ∈ e.immediate)
    (ht : t ∈ c.subterms) : t ∈ e.subterms := by
  cases e with
  | localRef i shared u =>
    have hentry := Option.mem_toList.mp hc
    rw [nth?] at hentry
    rw [subterms]
    cases hi : i.nat? with
    | none => simp [hi] at hentry
    | some n =>
      rw [hi] at hentry
      refine List.mem_cons_of_mem _ ?_
      simp only [subtermsAt_eq]
      exact List.mem_flatMap.mpr ⟨c, by simpa using hentry, ht⟩
  | call op es u =>
    rw [subterms]
    exact List.mem_cons_of_mem _ (mem_subtermsOf hc ht)
  | overWindow op es window distinct u => cases he
  | fieldAccess row field i u =>
    rw [subterms]
    obtain rfl := List.mem_singleton.mp hc
    exact List.mem_cons_of_mem _ ht
  | subQuery op es r u =>
    rw [subterms]
    exact List.mem_cons_of_mem _ (mem_subtermsOf hc ht)
  | _ => cases hc

/-- An expression in which the analysis of plans finds no windowed call has none. -/
theorem isOver_of_containsOver {e : Scalar ρ} (h : e.containsOver = false) : ∀ p ∈ e.parts, p.isOver = false := by
  induction e using immediate_induction with
  | h e ih =>
    have hparts : ∀ t ∈ e.subterms, t.isOver = false := by simpa [containsOver] using h
    have hself : e.isOver = false := by
      cases e with
      | overWindow op es window distinct t => exact hparts _ (by rw [subterms]; exact List.mem_cons_self)
      | _ => rfl
    rw [parts_eq]
    intro p hp
    rcases List.mem_cons.mp hp with rfl | hp
    · exact hself
    · obtain ⟨c, hc, hp⟩ := List.mem_flatMap.mp hp
      refine ih c hc ?_ p hp
      simpa [containsOver] using fun t ht => hparts t (mem_subterms_of_immediate hself hc ht)

end Scalar

/-! ## Classes of expressions -/

/-- A class of expressions that holds what stands directly in its members. -/
def PartClosed (A : Expr → Prop) : Prop := ∀ e, A e → ∀ c ∈ e.immediate, A c

theorem PartClosed.and {A B : Expr → Prop} (hA : PartClosed A) (hB : PartClosed B) : PartClosed fun e => A e ∧ B e :=
  fun e he c hc => ⟨hA e he.1 c hc, hB e he.2 c hc⟩

/-- All parts of an expression have a property. -/
theorem partClosed_parts (P : Expr → Prop) : PartClosed fun e => ∀ p ∈ e.parts, P p :=
  fun _ he _ hc p hp => he p (Scalar.mem_parts_of_immediate hc hp)

theorem Scalar.keysSatisfy_iff {k : PlanCheck} (fields : Bool) (keys : List (SortKey Expr)) :
    Scalar.keysSatisfy k fields keys = true ↔ ∀ key ∈ keys, key.key.satisfies k fields = true := by
  induction keys with
  | nil => simp [keysSatisfy]
  | cons key keys ih => simp [keysSatisfy, ih]

theorem Scalar.satisfies_of_boundSatisfies {k : PlanCheck} {fields : Bool} {b : Option (Bound Expr)}
    (h : Scalar.boundSatisfies k fields b = true) : ∀ e ∈ boundExprs b, e.satisfies k fields = true := by
  intro e he
  rcases b with _ | b
  · cases he
  · cases b <;> simp_all [boundExprs, boundSatisfies]

/-- An expression that satisfies a check holds only such expressions. -/
theorem partClosed_satisfies (k : PlanCheck) (fields : Bool) : PartClosed fun e => e.satisfies k fields = true := by
  intro e he c hc
  cases e with
  | localRef i shared t =>
    simp only [Scalar.satisfies, Bool.and_eq_true, Scalar.allSatisfy_iff] at he
    exact he.2 c (mem_of_nth? (Option.mem_toList.mp hc))
  | call op es t =>
    simp only [Scalar.satisfies, Bool.and_eq_true, Scalar.allSatisfy_iff] at he
    exact he.2 c hc
  | overWindow op es window distinct t =>
    obtain ⟨partition, order, ⟨rows, lower, upper⟩⟩ := window
    simp only [Scalar.satisfies, Scalar.windowSatisfies, Scalar.frameSatisfies, Bool.and_eq_true,
      Scalar.allSatisfy_iff] at he
    obtain ⟨⟨-, hes⟩, ⟨hpartition, horder⟩, hlower, hupper⟩ := he
    simp only [Scalar.immediate, windowExprs, frameExprs, List.mem_append] at hc
    rcases hc with hc | (hc | hc) | hc | hc
    · exact hes c hc
    · exact hpartition c hc
    · obtain ⟨k, hk, rfl⟩ := List.mem_map.mp hc
      exact (Scalar.keysSatisfy_iff fields order).mp horder k hk
    · exact Scalar.satisfies_of_boundSatisfies hlower c hc
    · exact Scalar.satisfies_of_boundSatisfies hupper c hc
  | fieldAccess row field i t =>
    simp only [Scalar.satisfies, Bool.and_eq_true] at he
    obtain rfl := List.mem_singleton.mp hc
    exact he.2
  | subQuery op es r t =>
    simp only [Scalar.satisfies, Bool.and_eq_true, Scalar.allSatisfy_iff] at he
    exact he.1.2 c hc
  | _ => cases hc

/-- A frame that satisfies a check has only offsets that do. -/
theorem Scalar.satisfies_of_frameSatisfies {k : PlanCheck} {fields : Bool} {f : Frame Expr}
    (h : Scalar.frameSatisfies k fields f = true) : ∀ e ∈ frameExprs f, e.satisfies k fields = true := by
  obtain ⟨rows, lower, upper⟩ := f
  simp only [Scalar.frameSatisfies, Bool.and_eq_true] at h
  intro e he
  rcases List.mem_append.mp he with he | he
  · exact Scalar.satisfies_of_boundSatisfies h.1 e he
  · exact Scalar.satisfies_of_boundSatisfies h.2 e he

/-- A row pattern that satisfies a check has only expressions that do. -/
theorem Scalar.satisfies_of_patternSatisfies {k : PlanCheck} {spec : RowPattern Expr} (h : Scalar.patternSatisfies k spec = true) :
    ∀ e ∈ spec.pattern :: (spec.measures ++ spec.definitions).map (·.2), e.satisfies k true = true := by
  obtain ⟨pattern, definitions, measures, _, _, _, _, _, _, _, _⟩ := spec
  simp only [Scalar.patternSatisfies, Bool.and_eq_true] at h
  obtain ⟨⟨hpattern, hdefinitions⟩, hmeasures⟩ := h
  simp only [List.map_append, List.mem_cons, List.mem_append, List.mem_map]
  rintro e (rfl | ⟨q, hq, rfl⟩ | ⟨q, hq, rfl⟩)
  · exact hpattern
  · exact (Scalar.namedSatisfy_iff measures).mp hmeasures q hq
  · exact (Scalar.namedSatisfy_iff definitions).mp hdefinitions q hq

end AlgebraSql
