import AlgebraSql.Proofs.Agreement
import AlgebraSql.Proofs.Numerals

/-!
# Values — what operations of SQL compute from the values of their operands.

Conjunctions, comparisons, numbers and case distinctions have their values in every engine.  Lists of
values, changes of sign, missing values replaced and texts compared with patterns are operations of an
engine; `Engine.withOperators` has those of SQL, where two arbitrary predicates stand for the matching
of patterns.  A node shows a value in a reading if that is its only value at every point.
-/

namespace AlgebraSql

open Sql Node

/-! ## Operations of an engine -/

/-- What texts match a pattern, given the text, the pattern and an escape character if there is one. -/
structure Patterns where
  like : List Datum → Bool
  similar : List Datum → Bool

namespace Datum

/-- A number with the other sign. -/
def negate : Datum → Datum
  | .number q => .number (-q)
  | _ => .null

/-- The first value that is not missing. -/
def firstPresent (ds : List Datum) : Datum := (ds.find? fun d => decide (d ≠ .null)).getD .null

/-- A test by a predicate that has no outcome where a value is missing. -/
def tested (test : List Datum → Bool) (negated : Bool) (ds : List Datum) : Datum :=
  if .null ∈ ds then .null else .bool (test ds != negated)

/-- The value is equal to one of several. -/
def among (d : Datum) (ds : List Datum) : Datum := connect or (.bool false) (ds.map d.equal)

theorem not_tested (test : List Datum → Bool) (negated : Bool) (ds : List Datum) :
    (tested test negated ds).not = tested test (!negated) ds := by
  unfold tested
  split
  · rfl
  · cases negated <;> simp [not]

theorem member_single (negated : Bool) (d : Datum) (ds : List Datum) :
    member negated [d] (ds.map fun e => [e]) = if negated then (d.among ds).not else d.among ds := by
  have hequal : (ds.map fun e => [e]).map (equalAll [d]) = ds.map d.equal := by
    rw [List.map_map]
    rfl
  simp only [member, among, hequal]

end Datum

/-- An engine that has the operations of SQL on lists of values, signs, missing values and patterns. -/
def Sql.Engine.withOperators (E : Engine) (P : Patterns) : Engine :=
  { E with
    operation := fun n operands =>
      match n.kind, operands with
      | .in, subject :: rows => Datum.member (n.flag "negated") subject rows
      | .neg, [[d]] => d.negate
      | .like, _ => Datum.tested P.like (n.flag "negated") operands.flatten
      | .similarTo, _ => Datum.tested P.similar (n.flag "negated") operands.flatten
      | .call, _ =>
        if n.text "this" = "COALESCE" then Datum.firstPresent operands.flatten
        else E.operation n operands
      | _, _ => E.operation n operands }

/-! ## Readings -/

variable {E : Engine} {P : Patterns} {α : Type}

namespace Reading

/-- **`Shows`** — a node has one value at every point. -/
def Shows (V : Reading E α) (n : Node) (v : α → Datum) : Prop := V.value n = some fun a => [v a]

variable {V : Reading E α}

theorem Shows.congr {n : Node} {v w : α → Datum} (h : V.Shows n v) (hvw : ∀ a, v a = w a) : V.Shows n w := by
  rwa [← funext hvw]

/-- A node has these values at every point. -/
def Has (V : Reading E α) (n : Node) (u : α → List Datum) : Prop := V.value n = some u

theorem together_has {ns : List Node} {us : List (α → List Datum)} (h : List.Forall₂ V.Has ns us) :
    together (ns.map V.value) = some fun a => us.map fun u => u a := by
  induction h with
  | nil => rfl
  | @cons n u ns us hn _ ih =>
    rw [List.map_cons, show V.value n = _ from hn, together, ih]
    rfl

/-- The values of an operation come from those of its children, however many each of them has. -/
theorem has_operation {n : Node} {us : List (α → List Datum)} {u : α → List Datum} (hn : n.manner = .operation)
    (hchildren : List.Forall₂ V.Has n.children us) (hu : ∀ a, operate E n.bare (us.map fun u => u a) = u a) :
    V.Has n u := by
  rw [Has, V.operation n hn, together_has hchildren, Option.map_some]
  exact congrArg some (funext hu)

/-- A node shows what its operation computes from what its children show. -/
theorem shows_operation {n : Node} {vs : List (α → Datum)} {v : α → Datum} (hn : n.manner = .operation)
    (hchildren : List.Forall₂ V.Shows n.children vs)
    (hv : ∀ a, operate E n.bare (vs.map fun w => [w a]) = [v a]) : V.Shows n v := by
  have hvalues : List.Forall₂ V.Has n.children (vs.map fun v a => [v a]) :=
    List.forall₂_map_right_iff.mpr hchildren
  refine has_operation hn hvalues fun a => ?_
  rw [← hv a, List.map_map]
  rfl

theorem shows_null : V.Shows Node.null fun _ => .null := shows_operation rfl .nil fun _ => rfl

theorem shows_boolean (b : Bool) : V.Shows (Node.boolean b) fun _ => .bool b :=
  shows_operation rfl .nil fun _ => by cases b <;> rfl

theorem shows_string (s : String) : V.Shows (Node.string s) fun _ => .text s :=
  shows_operation rfl .nil fun _ => rfl

theorem shows_number (s : String) : V.Shows (Node.number s) fun _ => Datum.ofDigits s :=
  shows_operation rfl .nil fun _ => rfl

variable {l r n : Node} {v w : α → Datum} {ns : List Node} {vs : List (α → Datum)}

/-- An operation on two operands. -/
theorem shows_binary {kind : Kind} {op : Datum → Datum → Datum}
    (hop : ∀ d e, operate E (Node.binary kind Node.null Node.null) [[d], [e]] = [op d e])
    (hkind : (Node.binary kind l r).manner = .operation) (hl : V.Shows l v) (hr : V.Shows r w) :
    V.Shows (Node.binary kind l r) fun a => op (v a) (w a) :=
  shows_operation hkind (.cons hl (.cons hr .nil)) fun a => hop (v a) (w a)

/-- Operands that are connected from left to right. -/
theorem shows_connect {kind : Kind} {op : Datum → Datum → Datum} {unit : Node} {d : Datum}
    (hop : ∀ d e, operate E (Node.binary kind Node.null Node.null) [[d], [e]] = [op d e])
    (hkind : ∀ l r, (Node.binary kind l r).manner = .operation) (hunit : V.Shows unit fun _ => d)
    (h : List.Forall₂ V.Shows ns vs) :
    V.Shows (Node.connect kind unit ns) fun a => Datum.connect op d (vs.map fun v => v a) := by
  have hfold : ∀ {ns : List Node} {vs : List (α → Datum)}, List.Forall₂ V.Shows ns vs →
      ∀ {m : Node} {u : α → Datum}, V.Shows m u →
        V.Shows (ns.foldl (Node.binary kind) m) fun a => (vs.map fun v => v a).foldl op (u a) := by
    intro ns vs h
    induction h with
    | nil => exact fun hm => hm
    | cons hn _ ih => exact fun hm => ih (shows_binary hop (hkind _ _) hm hn)
  cases h with
  | nil => exact hunit
  | cons hn hrest => exact hfold hrest hn

theorem shows_and (h : List.Forall₂ V.Shows ns vs) :
    V.Shows (Node.and ns) fun a => Datum.connect Datum.and (.bool true) (vs.map fun v => v a) :=
  shows_connect (fun _ _ => rfl) (fun _ _ => rfl) (shows_boolean true) h

theorem shows_or (h : List.Forall₂ V.Shows ns vs) :
    V.Shows (Node.or ns) fun a => Datum.connect Datum.or (.bool false) (vs.map fun v => v a) :=
  shows_connect (fun _ _ => rfl) (fun _ _ => rfl) (shows_boolean false) h

theorem shows_not (h : V.Shows n v) : V.Shows (Node.not n) fun a => (v a).not :=
  shows_operation rfl (.cons h .nil) fun _ => rfl

theorem shows_add (hl : V.Shows l v) (hr : V.Shows r w) :
    V.Shows (Node.binary .add l r) fun a => (v a).arithmetic (· + ·) (w a) :=
  shows_operation rfl (.cons hl (.cons hr .nil)) fun _ => rfl

theorem shows_sub (hl : V.Shows l v) (hr : V.Shows r w) :
    V.Shows (Node.binary .sub l r) fun a => (v a).arithmetic (· - ·) (w a) :=
  shows_operation rfl (.cons hl (.cons hr .nil)) fun _ => rfl

theorem shows_mul (hl : V.Shows l v) (hr : V.Shows r w) :
    V.Shows (Node.binary .mul l r) fun a => (v a).arithmetic (· * ·) (w a) :=
  shows_operation rfl (.cons hl (.cons hr .nil)) fun _ => rfl

/-- A comparison of two values. -/
theorem shows_comparison {kind : Kind} {test : Ordering → Bool} (hkind : comparison? kind = some test)
    (hl : V.Shows l v) (hr : V.Shows r w) :
    V.Shows (Node.binary kind l r) fun a => (v a).compare test (w a) := by
  cases kind <;> cases hkind <;> exact shows_binary (fun _ _ => rfl) rfl hl hr

theorem shows_isTest (negated : Bool) (hl : V.Shows l v) (hr : V.Shows r w) :
    V.Shows (Node.isTest l r negated) fun a => (v a).isTest (w a) negated :=
  shows_operation rfl (.cons hl (.cons hr .nil)) fun _ => by cases negated <;> rfl

theorem shows_isNull (h : V.Shows n v) : V.Shows (Node.isNull n) fun a => .bool (decide (v a = .null)) :=
  shows_operation rfl (.cons h (.cons shows_null .nil)) fun a => by
    change [(v a).isTest .null false] = _
    simp [Datum.isTest]

theorem shows_distinct (negated : Bool) (hl : V.Shows l v) (hr : V.Shows r w) :
    V.Shows (Convert.negatable .isDistinctFrom l [r] negated false) fun a => (v a).isTest (w a) !negated :=
  shows_operation rfl (.cons hl (.cons hr .nil)) fun _ => by cases negated <;> rfl

/-! ### Case distinctions -/

/-- Branches have the values of their conditions and results, one after the other. -/
theorem has_branches (h : List.Forall₂ V.Shows ns vs) (heven : ns.length % 2 = 0) :
    ∃ us, List.Forall₂ V.Has (Convert.branches ns) us
      ∧ ∀ a, (us.map fun u => u a).flatten = vs.map fun v => v a := by
  induction ns using Convert.branches.induct generalizing vs with
  | case1 condition value rest ih =>
    obtain _ | @⟨_, c, _, _, hc, _ | @⟨_, v, _, vs, hv, hrest⟩⟩ := h
    obtain ⟨us, hus, hflat⟩ := ih hrest (by simp only [List.length_cons] at heven; omega)
    have hbranch : V.Has (Node.branch condition value) fun a => [c a, v a] :=
      has_operation rfl (.cons hc (.cons hv .nil)) fun _ => rfl
    exact ⟨_ :: us, .cons hbranch hus, fun a => by simpa using hflat a⟩
  | case2 ns hshort =>
    obtain _ | ⟨hc, _ | ⟨hv, hrest⟩⟩ := h
    · exact ⟨[], .nil, fun _ => rfl⟩
    · cases heven
    · exact absurd rfl (hshort _ _ _)

/-- A case distinction from its parts. -/
theorem shows_case {subject : Option Node} {s : Option (α → Datum)} {m : Node} {d : α → Datum}
    (hsubject : Option.Rel V.Shows subject s) (h : List.Forall₂ V.Shows ns vs) (heven : ns.length % 2 = 0)
    (hm : V.Shows m d) :
    V.Shows (.mk .case (Node.optional "this" subject ++ [("ifs", .nodes (Convert.branches ns))]
        ++ Node.optional "default" (some m)))
      fun a => Datum.caseOf (s.map fun s => s a) (d a) (vs.map fun v => v a) := by
  obtain ⟨us, hus, hflat⟩ := has_branches h heven
  have hparts : List.Forall₂ V.Has (Convert.branches ns ++ [m]) (us ++ [fun a => [d a]]) :=
    List.rel_append hus (.cons hm .nil)
  have hflatten : ∀ a, ((us ++ [fun a => [d a]]).map fun u => u a).flatten
      = (vs.map fun v => v a) ++ [d a] := fun a => by
    rw [List.map_append, List.flatten_append, hflat]
    rfl
  cases hsubject with
  | none =>
    have hchildren : List.Forall₂ V.Has (Node.mk .case (Node.optional "this" none
        ++ [("ifs", .nodes (Convert.branches ns))] ++ Node.optional "default" (some m))).children
        (us ++ [fun a => [d a]]) := by
      simpa [children, Node.optional, Arg.children] using hparts
    refine has_operation rfl hchildren fun a => ?_
    change [caseValue _ ((us ++ [fun a => [d a]]).map fun u => u a).flatten] = _
    rw [hflatten]
    simp [caseValue, bare, Node.optional, Arg.bare]
  | @some n s hn =>
    have hchildren : List.Forall₂ V.Has (Node.mk .case (Node.optional "this" (some n)
        ++ [("ifs", .nodes (Convert.branches ns))] ++ Node.optional "default" (some m))).children
        ((fun a => [s a]) :: us ++ [fun a => [d a]]) := by
      have hn : V.Has n fun a => [s a] := hn
      simpa [children, Node.optional, Arg.children] using ⟨hn, hparts⟩
    refine has_operation rfl hchildren fun a => ?_
    change [caseValue _ (s a :: ((us ++ [fun a => [d a]]).map fun u => u a).flatten)] = _
    rw [hflatten]
    simp [caseValue, bare, Node.optional, Arg.bare]

end Reading

/-! ## Operations beyond those of every engine -/

/-- Operations that SQL leaves to functions of an engine. -/
theorem operate_of_engine {n : Node} (hn : n.kind ∈ [.in, .neg, .like, .similarTo, .call])
    (operands : List (List Datum)) : operate E n operands = [E.operation n operands] := by
  simp only [List.mem_cons, List.not_mem_nil, or_false] at hn
  rcases hn with hkind | hkind | hkind | hkind | hkind <;>
    · simp only [operate, hkind]
      split <;> simp_all [comparison?]

namespace Reading

variable {V : Reading (E.withOperators P) α} {n : Node} {v : α → Datum} {ns : List Node}
  {vs : List (α → Datum)}

/-- An operation of the engine. -/
theorem shows_engine (hkind : n.kind ∈ [.in, .neg, .like, .similarTo, .call]) (hn : n.manner = .operation)
    (hchildren : List.Forall₂ V.Shows n.children vs)
    (hv : ∀ a, (E.withOperators P).operation n.bare (vs.map fun w => [w a]) = v a) : V.Shows n v :=
  shows_operation hn hchildren fun a => by rw [operate_of_engine (by exact hkind), hv]

theorem shows_inList (negated : Bool) (h : V.Shows n v) (hs : List.Forall₂ V.Shows ns vs) :
    V.Shows (Node.inList n ns negated) fun a => if negated then ((v a).among (vs.map fun w => w a)).not
      else (v a).among (vs.map fun w => w a) := by
  have hchildren : List.Forall₂ V.Shows (Node.inList n ns negated).children (v :: vs) := by
    simpa [Node.inList, children, Arg.children] using ⟨h, hs⟩
  refine shows_engine (by simp [Node.inList]) rfl hchildren fun a => ?_
  have hflag : (Node.inList n ns negated).bare.flag "negated" = negated := by
    simp [Node.inList, bare, Arg.bare, flag]
  have hmember := Datum.member_single negated (v a) (vs.map fun w => w a)
  rw [List.map_map] at hmember
  change Datum.member ((Node.inList n ns negated).bare.flag "negated") [v a] (vs.map fun w => [w a]) = _
  rw [hflag]
  exact hmember

theorem shows_neg (h : V.Shows n v) : V.Shows (Node.neg n) fun a => (v a).negate :=
  shows_engine (by simp [Node.neg, Node.wrap]) rfl (.cons h .nil) fun _ => rfl

omit V n v ns in
theorem flatten_single (vs : List (α → Datum)) (a : α) :
    (vs.map fun w => [w a]).flatten = vs.map fun w => w a := by
  rw [← List.flatMap_def, List.map_eq_flatMap]

theorem shows_coalesce (h : List.Forall₂ V.Shows ns vs) :
    V.Shows (Node.call "COALESCE" ns) fun a => Datum.firstPresent (vs.map fun v => v a) := by
  have hchildren : List.Forall₂ V.Shows (Node.call "COALESCE" ns).children vs := by
    simpa [Node.call, children, Arg.children] using h
  refine shows_engine (by simp [Node.call]) rfl hchildren fun a => ?_
  have htext : (Node.call "COALESCE" ns).bare.text "this" = "COALESCE" := by
    simp [Node.call, bare, Arg.bare, text]
  have hkind : (Node.call "COALESCE" ns).bare.kind = .call := rfl
  simp only [Engine.withOperators, hkind, htext, if_true, flatten_single]

/-- A test against a pattern, with or without an escape character. -/
theorem shows_negatable {kind : Kind} (negated : Bool) (h : V.Shows n v) (hs : List.Forall₂ V.Shows ns vs)
    (hlength : ns.length = 1 ∨ ns.length = 2) {test : List Datum → Bool}
    (hkind : kind = .like ∧ test = P.like ∨ kind = .similarTo ∧ test = P.similar) :
    V.Shows (Convert.negatable kind n ns negated true) fun a =>
      Datum.tested test negated ((v :: vs).map fun w => w a) := by
  have hflag : (Convert.negatable kind n ns negated true).bare.flag "negated" = negated := by
    rcases hlength with hlength | hlength
    · obtain ⟨m, rfl⟩ := List.length_eq_one_iff.mp hlength
      simp [Convert.negatable, Node.optional, bare, Arg.bare, flag]
    · obtain ⟨m, k, rfl⟩ := List.length_eq_two.mp hlength
      simp [Convert.negatable, Node.optional, bare, Arg.bare, flag]
  have hchildren : List.Forall₂ V.Shows (Convert.negatable kind n ns negated true).children (v :: vs) := by
    rcases hlength with hlength | hlength
    · obtain ⟨m, rfl⟩ := List.length_eq_one_iff.mp hlength
      exact .cons h hs
    · obtain ⟨m, k, rfl⟩ := List.length_eq_two.mp hlength
      exact .cons h hs
  rcases hkind with ⟨rfl, rfl⟩ | ⟨rfl, rfl⟩
  · refine shows_engine (by simp [Convert.negatable]) rfl hchildren fun a => ?_
    rw [← flatten_single]
    change Datum.tested P.like ((Convert.negatable .like n ns negated true).bare.flag "negated") _ = _
    rw [hflag]
  · refine shows_engine (by simp [Convert.negatable]) rfl hchildren fun a => ?_
    rw [← flatten_single]
    change Datum.tested P.similar ((Convert.negatable .similarTo n ns negated true).bare.flag "negated") _ = _
    rw [hflag]

end Reading

end AlgebraSql
