import AlgebraSql.Proofs.Contexts
import AlgebraSql.Proofs.Expressions
import AlgebraSql.Proofs.Results

/-!
# SELECTs, reference by reference — what the clauses of a query may refer to.

`SoundSelect` is the invariant of a query that is being extended: what it reads from resolves by
itself, and every other clause resolves over the frame of its FROM clause, whatever is around the
query.  Putting a clause into the query keeps the invariant if the clause resolves over the same
frame.
-/

namespace AlgebraSql.Convert

open Sql Node

variable {schema : Schema}

/-! ## Columns -/

theorem resolves_column_plain {name : String} {sc : Scope} :
    (column name).resolves schema sc = true ↔ findsPlain sc name = true := by
  rw [resolves_iff]
  simp only [findsColumn, child?_column, name_column, Option.map_none, Option.isSome_none, Bool.false_eq_true,
    if_false]
  constructor
  · rintro ⟨hcolumn, -⟩
    exact hcolumn rfl
  · intro hfinds
    refine ⟨fun _ => hfinds, fun p hp c hc => ?_⟩
    simp only [column, args_mk, List.mem_cons, List.not_mem_nil, or_false] at hp
    rcases hp with rfl | rfl
    · obtain rfl : c = identifier name := by simpa [Arg.children] using hc
      simp
    · simp at hc

theorem resolves_column_qualified {name table : String} {sc : Scope} :
    (column name (some table)).resolves schema sc = true
      ↔ findsQualified sc.visible table name = true := by
  rw [resolves_iff]
  simp only [findsColumn, child?_column, name_column, table_column, Option.map_some, Option.getD_some,
    Option.isSome_some, if_true]
  constructor
  · rintro ⟨hcolumn, -⟩
    exact hcolumn rfl
  · intro hfinds
    refine ⟨fun _ => hfinds, fun p hp c hc => ?_⟩
    simp only [column, args_mk, List.mem_cons, List.not_mem_nil, or_false] at hp
    rcases hp with rfl | rfl
    · obtain rfl : c = identifier name := by simpa [Arg.children] using hc
      simp
    · obtain rfl : c = identifier table := by simpa using hc
      simp

/-! ## Named inputs -/

/-- The named inputs are visible: exactly one item has the name of each, and it exposes the columns
of the input under names of their own. -/
def Visible (inputs : Aliases) (sc : Scope) : Prop :=
  ∀ input ∈ inputs, sc.visible.filter (·.1 == input.1) = [(input.1, input.2.names)]
    ∧ input.2.names.Nodup

/-- The owner of a position is one of the inputs, and owns the field. -/
theorem mem_of_owner? {inputs : Aliases} {i : Nat} {name : String} {f : Field}
    (h : Context.owner? inputs i = some (name, f)) :
    ∃ fields, (name, fields) ∈ inputs ∧ f ∈ fields := by
  induction inputs generalizing i with
  | nil => cases h
  | cons p rest ih =>
    obtain ⟨a, fields⟩ := p
    unfold Context.owner? at h
    split at h
    · rename_i g hg
      cases h
      exact ⟨fields, by simp, List.mem_of_getElem? hg⟩
    · obtain ⟨gs, hmem, hf⟩ := ih h
      exact ⟨gs, by simp [hmem], hf⟩

theorem count_eq_one {names : List String} {name : String} (h : names.Nodup) (hmem : name ∈ names) :
    (names.count name == 1) = true := by
  simpa using List.count_eq_one_of_mem h hmem

/-- The column of a visible input resolves. -/
theorem Visible.resolves {inputs : Aliases} {sc : Scope} (h : Visible inputs sc) {i : Nat}
    {name : String} {f : Field} (howner : Context.owner? inputs i = some (name, f)) :
    (column f.name (some name)).resolves schema sc = true := by
  obtain ⟨fields, hmem, hf⟩ := mem_of_owner? howner
  obtain ⟨hfilter, hnodup⟩ := h _ hmem
  rw [resolves_column_qualified, findsQualified]
  simp only at hfilter
  rw [hfilter]
  exact count_eq_one hnodup (List.mem_map_of_mem hf)

variable {env : Env}

/-- A field of named inputs that is found is the field of an owner. -/
theorem owner?_of_aliasField (hmap : env.fieldMap = []) {inputs : Aliases} {qualified : Bool}
    {i : Ordinal} {n : Node} (h : Context.aliasField env inputs qualified i = .ok n) :
    ∃ (k : Nat) (name : String) (f : Field), i = .whole k ∧ Context.owner? inputs k = some (name, f)
      ∧ n = column f.name (if qualified then some name else none) := by
  unfold Context.aliasField at h
  split at h
  · rename_i k hk
    split at h
    · rename_i name f howner
      simp only [Env.mapped?, hmap, OrderedMap.get?_nil, Option.getD_none, Except.ok.injEq] at h
      exact ⟨k, name, f, Ordinal.nat?_eq_some_iff.mp hk, howner, h.symm⟩
    · cases h
  · cases h

/-- Qualified fields of visible inputs resolve. -/
theorem readsAt_qualified (hmap : env.fieldMap = []) {inputs : Aliases} {sc : Scope}
    (h : Visible inputs sc) : (Context.aliases inputs true).ReadsAt env schema sc := by
  intro i n hn
  obtain ⟨k, name, f, -, howner, rfl⟩ := owner?_of_aliasField hmap hn
  exact h.resolves howner

/-- Unqualified fields of the only input resolve over the columns of that input. -/
theorem readsAt_single (hmap : env.fieldMap = []) {name : String} {fields : RowType} {sc : Scope}
    (hcolumns : sc.own.columns = fields.names) (hnodup : fields.names.Nodup) :
    (Context.aliases [(name, fields)] false).ReadsAt env schema sc := by
  intro i n hn
  obtain ⟨k, a, f, -, howner, rfl⟩ := owner?_of_aliasField hmap hn
  obtain ⟨gs, hmem, hf⟩ := mem_of_owner? howner
  obtain ⟨rfl, rfl⟩ : a = name ∧ gs = fields := by simpa using hmem
  simp only [Bool.false_eq_true, if_false]
  rw [resolves_column_plain, findsPlain, hcolumns, count_eq_one hnodup (List.mem_map_of_mem hf),
    Bool.true_or]

/-- Fields of two lists of visible inputs resolve. -/
theorem readsAt_join (hmap : env.fieldMap = []) {l r : Aliases} {sc : Scope} (hl : Visible l sc)
    (hr : Visible r sc) :
    (Context.join (.aliases l true) (.aliases r true)).ReadsAt env schema sc := by
  intro i n hn
  cases hi : i.nat? with
  | none => simp [Context.field, hi] at hn
  | some k =>
    simp only [Context.field, hi] at hn
    by_cases hk : k < (Context.aliases l true).fieldCount
    · simp only [hk, if_true] at hn
      exact readsAt_qualified hmap hl _ n hn
    · simp only [hk, if_false] at hn
      split at hn
      · exact readsAt_qualified hmap hr _ n hn
      · cases hn

/-! ## The invariant of a query -/

/-- A node resolves over a frame, whatever is around the query. -/
def Open (schema : Schema) (used : UsedNames) (F : Sql.Frame) (n : Node) : Prop :=
  ∀ outer items, InUse used outer → n.resolves schema ⟨F, outer, items⟩ = true

/-- The output names of a query with a select list. -/
def listedNames (n : Node) : List String := (n.selectList?.getD []).map outputName

/-- A node resolves in ORDER BY over a frame and the output names of a query. -/
def OpenInOrder (schema : Schema) (used : UsedNames) (F : Sql.Frame) (names : List String)
    (n : Node) : Prop :=
  ∀ outer, InUse used outer → n.resolves schema ⟨F, outer, names⟩ = true

/-- **`SoundSelect`** — what a query reads from resolves by itself, and its clauses resolve over what
it reads from. -/
structure SoundSelect (schema : Schema) (used : UsedNames) (F : Sql.Frame) (n : Node) : Prop where
  kind : n.kind = .select
  noAlias : n.hasAlias = false
  reads : ∃ item, n.child? "from" = some (wrap .from item) ∧ item.frame schema = F
  closed : ∀ p ∈ n.args, p.1 = "from" → ∀ c ∈ p.2.children, Closed schema used c
  clauses : ∀ p ∈ n.args, p.1 ≠ "from" → p.1 ≠ "order" → ∀ c ∈ p.2.children, Open schema used F c
  order : ∀ p ∈ n.args, p.1 = "order" →
    ∀ c ∈ p.2.children, OpenInOrder schema used F (listedNames n) c
  having : ∀ c, n.child? "having" = some c → isNeutral c.kind = true

/-- A query without ORDER BY. -/
def Unordered (n : Node) : Prop := ∀ p ∈ n.args, p.1 ≠ "order"

namespace SoundSelect

variable {used : UsedNames} {F : Sql.Frame} {n : Node}

theorem frame_eq (h : SoundSelect schema used F n) : n.frame schema = F := by
  obtain ⟨item, hfrom, rfl⟩ := h.reads
  exact frame_select h.kind hfrom

theorem columns_eq (h : SoundSelect schema used F n) :
    n.columns schema = selectColumns n.selectList? F := by
  rw [columns_select h.kind, h.frame_eq]

theorem isPlainQuery (h : SoundSelect schema used F n) : isPlainQuery n = true :=
  (isPlainQuery_iff n).mpr ⟨.inl h.kind, h.noAlias⟩

/-- A sound query resolves by itself. -/
theorem isClosed (h : SoundSelect schema used F n) : Closed schema used n := by
  intro sc huse
  rw [resolves_iff]
  refine ⟨fun hcolumn => by simp [h.kind] at hcolumn, fun p hp c hc => ?_⟩
  have hscope : n.innerScope schema sc p.1 = selectScope F n.selectList? sc p.1 := by
    simp only [innerScope, h.kind, h.frame_eq]
  rw [hscope, selectScope]
  by_cases hfrom : p.1 = "from"
  · rw [if_pos hfrom]
    exact h.closed p hp hfrom c hc _ (by simpa [Scope.visible] using huse)
  · rw [if_neg hfrom]
    by_cases horder : p.1 = "order"
    · rw [if_pos horder]
      exact h.order p hp horder c hc _ huse
    · rw [if_neg horder]
      exact h.clauses p hp hfrom horder c hc _ _ huse

/-- `SELECT * FROM item` is sound if the item resolves by itself. -/
theorem selectFrom {item : Node} (h : Closed schema used item) :
    SoundSelect schema used (item.frame schema) (Node.selectFrom item) where
  kind := rfl
  noAlias := rfl
  reads := ⟨item, by simp [Node.selectFrom, child?], rfl⟩
  closed := by
    intro p hp _ c hc
    obtain rfl : p = ("from", .node (wrap .from item)) := by simpa [Node.selectFrom] using hp
    obtain rfl : c = wrap .from item := by simpa using hc
    exact fun sc huse => (resolves_wrap rfl item).mpr (h sc huse)
  clauses := by
    intro p hp hne
    obtain rfl : p = ("from", .node (wrap .from item)) := by simpa [Node.selectFrom] using hp
    exact absurd rfl hne
  order := by
    intro p hp horder
    obtain rfl : p = ("from", .node (wrap .from item)) := by simpa [Node.selectFrom] using hp
    simp at horder
  having := by simp [Node.selectFrom, child?]

theorem unordered_selectFrom (item : Node) : Unordered (Node.selectFrom item) := by
  intro p hp
  obtain rfl : p = ("from", .node (wrap .from item)) := by simpa [Node.selectFrom] using hp
  simp

/-- A clause that resolves over the frame may be put into a query; a new select list only into one
without ORDER BY, which might use the old one. -/
theorem set (h : SoundSelect schema used F n) {key : String} {a : Arg} (hfrom : key ≠ "from")
    (halias : key ≠ "alias") (horder : key ≠ "order") (hlist : key = "expressions" → Unordered n)
    (ha : ∀ c ∈ a.children, Open schema used F c) (hhaving : ∀ c, a = .node c → isNeutral c.kind = true) :
    SoundSelect schema used F (n.set key (some a)) where
  kind := by simpa using h.kind
  noAlias := by
    rw [hasAlias, child?_set_of_ne n a halias]
    exact h.noAlias
  reads := by
    obtain ⟨item, hitem, hframe⟩ := h.reads
    exact ⟨item, by rwa [child?_set_of_ne n a hfrom], hframe⟩
  closed := by
    intro p hp hkey c hc
    rcases mem_put hp with rfl | hold
    · exact absurd hkey hfrom
    · exact h.closed p hold hkey c hc
  clauses := by
    intro p hp hkey horder' c hc
    rcases mem_put hp with rfl | hold
    · exact ha c hc
    · exact h.clauses p hold hkey horder' c hc
  order := by
    intro p hp hkey c hc
    rcases mem_put hp with rfl | hold
    · exact absurd hkey horder
    · by_cases hexpressions : key = "expressions"
      · exact absurd hkey (hlist hexpressions p hold)
      · have hnames : listedNames (n.set key (some a)) = listedNames n := by
          simp only [listedNames, selectList?, list?_set_of_ne n a hexpressions]
        rw [hnames]
        exact h.order p hold hkey c hc
  having := by
    intro c hc
    by_cases hkey : key = "having"
    · subst hkey
      cases a <;> simp [child?] at hc
      subst hc
      exact hhaving _ rfl
    · rw [child?_set_of_ne n a hkey] at hc
      exact h.having c hc

/-- ORDER BY may be put into a query if its keys resolve over the frame and the output names. -/
theorem setOrder (h : SoundSelect schema used F n) {items : List Node}
    (hitems : ∀ c ∈ items, OpenInOrder schema used F (listedNames n) c) :
    SoundSelect schema used F (n.set "order" (some (.node (Node.order items)))) where
  kind := by simpa using h.kind
  noAlias := by
    rw [hasAlias, child?_set_of_ne n _ (by decide)]
    exact h.noAlias
  reads := by
    obtain ⟨item, hitem, hframe⟩ := h.reads
    exact ⟨item, by rwa [child?_set_of_ne n _ (by decide)], hframe⟩
  closed := by
    intro p hp hkey c hc
    rcases mem_put hp with rfl | hold
    · simp at hkey
    · exact h.closed p hold hkey c hc
  clauses := by
    intro p hp hkey horder c hc
    rcases mem_put hp with rfl | hold
    · exact absurd rfl horder
    · exact h.clauses p hold hkey horder c hc
  order := by
    intro p hp hkey c hc
    have hnames : listedNames (n.set "order" (some (.node (Node.order items)))) = listedNames n := by
      simp only [listedNames, selectList?, list?_set_of_ne n _ (show "order" ≠ "expressions" by decide)]
    rw [hnames]
    rcases mem_put hp with rfl | hold
    · obtain rfl : c = Node.order items := by simpa using hc
      exact fun outer huse => (resolves_order items).mpr fun c hc => hitems c hc outer huse
    · exact h.order p hold hkey c hc
  having := by
    intro c hc
    rw [child?_set_of_ne n _ (by decide)] at hc
    exact h.having c hc

end SoundSelect

theorem Unordered.set {n : Node} (h : Unordered n) {key : String} (hkey : key ≠ "order") (a : Arg) :
    Unordered (n.set key (some a)) := by
  intro p hp
  rcases mem_put hp with rfl | hold
  · exact hkey
  · exact h p hold

/-! ## Select lists -/

@[simp]
theorem outputName_namedItem (n : Node) (name : String) : (namedItem n name).outputName = name := by
  simp [outputName]

/-- Items under the names of columns resolve where what they name does. -/
theorem Open.namedItem {used : UsedNames} {F : Sql.Frame} {n : Node} (h : Open schema used F n)
    (name : String) : Open schema used F (namedItem n name) := by
  intro outer items huse
  unfold Convert.namedItem
  split
  · exact h outer items huse
  · exact (resolves_aliased _ _).mpr (h outer items huse)

/-- The output names of items that fill a row type are the names of its columns. -/
theorem outputNames_namedItems {ns : List Node} {fields : RowType}
    (h : ns.length = fields.length) : (namedItems ns fields).map outputName = fields.names := by
  induction ns generalizing fields with
  | nil =>
    obtain rfl : fields = [] := List.length_eq_zero_iff.mp h.symm
    rfl
  | cons n ns ih =>
    cases fields with
    | nil => simp at h
    | cons f fields =>
      have hrest := ih (by simpa using h)
      simpa [namedItems, RowType.names] using hrest

end AlgebraSql.Convert
