import AlgebraSql.Types
import Mathlib.Data.List.Nodup
import Mathlib.Tactic.ByContra

/-!
# Fresh names — the numbered search ends at a name that nothing else has.

Small forms decide whether a name is taken.  A number behind a name does not disturb the small form
of what stands before it, so different numbers give different small forms, and among one more
candidates than there are used names one is free.
-/

namespace AlgebraSql

namespace Text

/-! ## Digits in small letters -/

/-- A digit is its own small form, and neither carries case nor is passed over. -/
theorem digit_traits {c : Char} (h : c.isDigit = true) :
    lowerChar c = [c] ∧ c ≠ capitalSigma ∧ inRanges passedOverRanges c = false
      ∧ inRanges casedRanges c = false := by
  have hall : ∀ k : Fin 10, lowerChar (Char.ofNat (48 + k)) = [Char.ofNat (48 + k)]
      ∧ Char.ofNat (48 + k) ≠ capitalSigma
      ∧ inRanges passedOverRanges (Char.ofNat (48 + k)) = false
      ∧ inRanges casedRanges (Char.ofNat (48 + k)) = false := by
    decide +kernel
  simp only [Char.isDigit, Bool.and_eq_true, decide_eq_true_eq] at h
  have hlo : 48 ≤ c.toNat := h.1
  have hhi : c.toNat ≤ 57 := h.2
  have hk := hall ⟨c.toNat - 48, by omega⟩
  have hc : 48 + (c.toNat - 48) = c.toNat := by omega
  simpa only [hc, Char.ofNat_toNat] using hk

/-- Digits are their own small forms, whatever stands before them. -/
theorem lowerFrom_digits {ds : List Char} (h : ∀ c ∈ ds, c.isDigit = true) (before : List Char) :
    lowerFrom before ds = ds := by
  induction ds generalizing before with
  | nil => rfl
  | cons d ds ih =>
    obtain ⟨hsmall, hsigma, -⟩ := digit_traits (h d (by simp))
    have hds := ih (fun c hc => h c (by simp [hc])) (d :: before)
    simp [lowerFrom, hsigma, hsmall, hds]

/-- No cased character is met across digits: they stop the search. -/
theorem meetsCased_append_digits (cs : List Char) {d : Char} (ds : List Char)
    (h : d.isDigit = true) :
    meetsCased (cs ++ d :: ds)
      = ((cs.dropWhile (inRanges passedOverRanges)).head?.any (inRanges casedRanges)) := by
  obtain ⟨-, -, hpassed, hcased⟩ := digit_traits h
  induction cs with
  | nil => simp [meetsCased, hpassed, hcased]
  | cons c cs ih =>
    by_cases hc : inRanges passedOverRanges c = true
    · simpa only [meetsCased, List.cons_append, List.dropWhile_cons, hc, if_true] using ih
    · simp [meetsCased, hc]

/-- The small form of a text with digits behind it ends in these digits, and what stands before them
does not depend on them. -/
theorem lowerFrom_append_digits (cs before : List Char) :
    ∃ stem, ∀ ds : List Char, ds ≠ [] → (∀ c ∈ ds, c.isDigit = true) →
      lowerFrom before (cs ++ ds) = stem ++ ds := by
  induction cs generalizing before with
  | nil => exact ⟨[], fun ds _ h => lowerFrom_digits h before⟩
  | cons c cs ih =>
    obtain ⟨stem, hstem⟩ := ih (c :: before)
    let cased := (cs.dropWhile (inRanges passedOverRanges)).head?.any (inRanges casedRanges)
    refine ⟨(if c == capitalSigma then (if meetsCased before && !cased then ['ς'] else ['σ'])
      else lowerChar c) ++ stem, ?_⟩
    intro ds hne hds
    obtain ⟨d, ds', rfl⟩ := List.exists_cons_of_ne_nil hne
    have hmeets := meetsCased_append_digits cs ds' (hds d (by simp))
    have htail := hstem (d :: ds') hne hds
    simp only [List.cons_append, lowerFrom, hmeets, htail, List.append_assoc, cased]

/-- The small form of a numbered name ends in the number. -/
theorem lower_numbered (name : String) :
    ∃ stem : List Char, ∀ i : Nat,
      lower (name ++ toString i) = String.ofList (stem ++ Nat.toDigits 10 i) := by
  obtain ⟨stem, hstem⟩ := lowerFrom_append_digits name.toList []
  refine ⟨stem, fun i => ?_⟩
  have hdigits : ∀ c ∈ Nat.toDigits 10 i, c.isDigit = true := fun c hc =>
    Nat.isDigit_of_mem_toDigits (by decide) (by decide) hc
  have h := hstem _ Nat.toDigits_ne_nil hdigits
  simp only [lower, String.toList_append, Nat.toString_eq_ofList_toDigits, String.toList_ofList, h]

/-- Different numbers behind a name give different small forms. -/
theorem lower_numbered_injective (name : String) {i j : Nat}
    (h : lower (name ++ toString i) = lower (name ++ toString j)) : i = j := by
  obtain ⟨stem, hstem⟩ := lower_numbered name
  rw [hstem, hstem] at h
  have hlist := congrArg String.toList h
  simp only [String.toList_ofList, List.append_cancel_left_eq] at hlist
  simpa only [Nat.ofDigitChars_ten_toDigits] using congrArg (Nat.ofDigitChars 10 · 0) hlist

end Text

namespace UsedNames

variable {used : UsedNames} {name : String}

/-! ## The search -/

/-- The search from `i` answers with the first free candidate, or has found every one of its
candidates but the last in use. -/
theorem numbered_eq (used : UsedNames) (name : String) (fuel i : Nat) :
    ∃ k, i ≤ k ∧ k ≤ i + fuel ∧ used.numbered name fuel i = name ++ toString k
      ∧ (∀ j, i ≤ j → j < k → used.has (name ++ toString j) = true)
      ∧ (k < i + fuel → used.has (name ++ toString k) = false) := by
  induction fuel generalizing i with
  | zero => exact ⟨i, by omega, by omega, rfl, by omega, by omega⟩
  | succ fuel ih =>
    by_cases hi : used.has (name ++ toString i) = true
    · obtain ⟨k, hik, hk, heq, hbelow, hfree⟩ := ih (i + 1)
      refine ⟨k, by omega, by omega, by simp only [numbered, hi, if_true, heq], ?_,
        fun h => hfree (by omega)⟩
      intro j hij hjk
      rcases Nat.eq_or_lt_of_le hij with rfl | h
      · exact hi
      · exact hbelow j h hjk
    · have hfree : used.has (name ++ toString i) = false := Bool.eq_false_iff.mpr hi
      refine ⟨i, by omega, by omega, ?_, by omega, fun _ => hfree⟩
      simp only [numbered, hfree, Bool.false_eq_true, if_false]

/-- Not all of the first candidates are in use once there are more of them than used names. -/
theorem exists_free (used : UsedNames) (name : String) :
    ∃ j ≤ used.length, used.has (name ++ toString j) = false := by
  by_contra hall
  have htaken : ∀ j ≤ used.length, used.has (name ++ toString j) = true := by
    intro j hj
    by_contra hfree
    exact hall ⟨j, hj, Bool.eq_false_iff.mpr hfree⟩
  let candidates := (List.range (used.length + 1)).map fun j => Text.lower (name ++ toString j)
  have hnodup : candidates.Nodup :=
    List.Nodup.map (fun _ _ hij => Text.lower_numbered_injective name hij) List.nodup_range
  have hsub : candidates ⊆ used := by
    intro c hc
    obtain ⟨j, hj, rfl⟩ := List.mem_map.mp hc
    have := htaken j (by simpa [Nat.lt_succ_iff] using hj)
    simpa [has] using this
  have hlen := hnodup.length_le_of_subset hsub
  simp only [candidates, List.length_map, List.length_range] at hlen
  omega

/-- **`unique`** — the name itself if it is free, otherwise the name with the least number behind it
that makes it free. -/
theorem unique_eq (used : UsedNames) (name : String) :
    (used.has name = false ∧ used.unique name = name)
      ∨ (used.has name = true ∧ ∃ k : Nat, used.unique name = name ++ toString k
          ∧ used.has (name ++ toString k) = false
          ∧ ∀ j < k, used.has (name ++ toString j) = true) := by
  cases hname : used.has name with
  | false => exact .inl ⟨rfl, by simp [unique, hname]⟩
  | true =>
    obtain ⟨k, -, hk, heq, hbelow, hfree⟩ := numbered_eq used name used.length 0
    obtain ⟨m, hm, hmfree⟩ := exists_free used name
    refine .inr ⟨rfl, k, by simp only [unique, hname, if_true, heq], ?_, fun j hj => hbelow j (by omega) hj⟩
    rcases Nat.eq_or_lt_of_le hk with hlast | h
    · -- the search went to its end, so the free candidate can only be the last one
      have hmk : m = k := by
        by_contra hne
        have := hbelow m (by omega) (by omega)
        simp only [hmfree, Bool.false_eq_true] at this
      rw [← hmk]
      exact hmfree
    · exact hfree h

/-- A unique form of a name is free. -/
theorem has_unique (used : UsedNames) (name : String) : used.has (used.unique name) = false := by
  rcases unique_eq used name with ⟨hfree, heq⟩ | ⟨-, k, heq, hfree, -⟩
  · rw [heq]
    exact hfree
  · rw [heq]
    exact hfree

/-- A free name is its own unique form. -/
theorem unique_of_free (h : used.has name = false) : used.unique name = name := by
  simp [unique, h]

/-- A unique form is empty only where the name itself is. -/
theorem unique_ne_empty (h : used.unique name ≠ name) : used.unique name ≠ "" := by
  rcases unique_eq used name with ⟨-, heq⟩ | ⟨-, k, heq, -⟩
  · exact absurd heq h
  · rw [heq]
    intro hempty
    have hlist := congrArg String.toList hempty
    simp only [String.toList_append, Nat.toString_eq_ofList_toDigits, String.toList_ofList,
      String.toList_empty, List.append_eq_nil_iff] at hlist
    exact Nat.toDigits_ne_nil hlist.2

/-- A unique form of a name that is not empty is not empty. -/
theorem unique_ne_empty_of_ne (h : name ≠ "") : used.unique name ≠ "" := by
  by_cases hsame : used.unique name = name
  · rw [hsame]
    exact h
  · exact unique_ne_empty hsame

/-! ## Recording names -/

/-- A name in use and a free one differ, whatever letters they are written in. -/
theorem lower_ne_of_has {a b : String} (ha : used.has a = true) (hb : used.has b = false) :
    Text.lower a ≠ Text.lower b := by
  intro hab
  unfold has at ha hb
  rw [hab, hb] at ha
  cases ha

/-- A recorded name is in use from then on. -/
theorem has_record_self (used : UsedNames) (name : String) :
    (used.record name).has name = true := by
  simp [has, record]

/-- Names in use stay in use. -/
theorem has_record_of_has (other : String) (h : used.has name = true) :
    (used.record other).has name = true := by
  simp only [has, record, List.contains_iff_mem, List.mem_append] at h ⊢
  exact .inl h

/-! ## Several names -/

theorem length_uniquifyAll (used : UsedNames) (names : List String) :
    (used.uniquifyAll names).1.length = names.length := by
  induction names generalizing used with
  | nil => rfl
  | cons name names ih => simp [uniquifyAll, ih]

/-- Free names that differ whatever letters they are written in stay as they are. -/
theorem uniquifyAll_of_nodup {names : List String} (hfree : ∀ n ∈ names, used.has n = false)
    (hnodup : (names.map Text.lower).Nodup) : (used.uniquifyAll names).1 = names := by
  induction names generalizing used with
  | nil => rfl
  | cons first rest ih =>
    simp only [List.map_cons, List.nodup_cons] at hnodup
    have hfirst : used.unique first = first := unique_of_free (hfree first (by simp))
    have hrest : ∀ n ∈ rest, (used.record first).has n = false := by
      intro n hn
      have hn' := hfree n (by simp [hn])
      have hne : Text.lower n ≠ Text.lower first := fun heq =>
        hnodup.1 (heq ▸ List.mem_map_of_mem hn)
      simp only [has, List.contains_eq_mem, decide_eq_false_iff_not] at hn'
      simp [has, record, hn', hne]
    simp [uniquifyAll, uniquify, hfirst, ih hrest hnodup.2]

/-- Several names are made unique one part after the other. -/
theorem uniquifyAll_append (used : UsedNames) (names more : List String) :
    (used.uniquifyAll (names ++ more)).1 = (used.uniquifyAll names).1
      ++ ((used.uniquifyAll names).2.uniquifyAll more).1 := by
  induction names generalizing used with
  | nil => rfl
  | cons name names ih => simp [uniquifyAll, ih]

/-- Unique forms are free and differ, whatever letters they are written in. -/
theorem nodup_uniquifyAll (used : UsedNames) (names : List String) :
    (∀ n ∈ (used.uniquifyAll names).1, used.has n = false)
      ∧ ((used.uniquifyAll names).1.map Text.lower).Nodup := by
  induction names generalizing used with
  | nil => simp [uniquifyAll]
  | cons name names ih =>
    obtain ⟨hfree, hnodup⟩ := ih (used.record (used.unique name))
    have hold : ∀ n, (used.record (used.unique name)).has n = false → used.has n = false := by
      intro n hn
      by_contra hused
      rw [has_record_of_has _ (by simpa using hused)] at hn
      cases hn
    simp only [uniquifyAll, uniquify, List.mem_cons, forall_eq_or_imp, List.map_cons, List.nodup_cons]
    refine ⟨⟨has_unique used name, fun n hn => hold n (hfree n hn)⟩, ?_, hnodup⟩
    intro hmem
    obtain ⟨n, hn, hlower⟩ := List.mem_map.mp hmem
    exact lower_ne_of_has (has_record_self used (used.unique name)) (hfree n hn) hlower.symm

end UsedNames

namespace RowType

@[simp]
theorem length_unique (fields : RowType) : fields.unique.length = fields.length := by
  simp [unique, UsedNames.length_uniquifyAll, names]

/-- Columns whose names differ whatever letters they are written in keep their names. -/
theorem unique_of_nodup {fields : RowType} (h : (fields.names.map Text.lower).Nodup) :
    fields.unique = fields := by
  have hfree : ∀ n ∈ fields.names, UsedNames.has [] n = false := fun _ _ => rfl
  have hnames := UsedNames.uniquifyAll_of_nodup hfree h
  have hsame : ∀ fs : RowType,
      List.zipWith (fun (field : Field) name => { field with name }) fs fs.names = fs := by
    intro fs
    induction fs with
    | nil => rfl
    | cons f fs ih =>
      obtain ⟨name, type⟩ := f
      simpa [names] using ih
  rw [unique, hnames, hsame]

/-- The names of a row type that was made unique. -/
theorem names_unique (fields : RowType) :
    fields.unique.names = (UsedNames.uniquifyAll [] fields.names).1 := by
  have hnames : ∀ (fs : RowType) (ns : List String), ns.length = fs.length →
      (List.zipWith (fun (field : Field) name => { field with name }) fs ns).map (·.name) = ns := by
    intro fs
    induction fs with
    | nil => simp
    | cons f fs ih =>
      intro ns hns
      cases ns with
      | nil => cases hns
      | cons n ns => simp [ih ns (by simpa using hns)]
  exact hnames _ _ (by simp [UsedNames.length_uniquifyAll, names])

/-- Unique names differ. -/
theorem nodup_unique (fields : RowType) : fields.unique.names.Nodup := by
  rw [names_unique]
  exact List.Nodup.of_map _ (UsedNames.nodup_uniquifyAll [] fields.names).2

/-- Columns whose names differ whatever letters they are written in keep their names if they come
first. -/
theorem unique_append_of_nodup {fields : RowType} (more : RowType)
    (h : (fields.names.map Text.lower).Nodup) :
    ∃ rest, (fields ++ more).unique = fields ++ rest ∧ rest.length = more.length := by
  have hfree : ∀ n ∈ fields.names, UsedNames.has [] n = false := fun _ _ => rfl
  have hfirst := UsedNames.uniquifyAll_of_nodup hfree h
  have hsame : ∀ (fs gs : RowType) (ns : List String),
      List.zipWith (fun (field : Field) name => { field with name }) (fs ++ gs) (fs.names ++ ns)
        = fs ++ List.zipWith (fun (field : Field) name => { field with name }) gs ns := by
    intro fs gs ns
    induction fs with
    | nil => rfl
    | cons f fs ih =>
      obtain ⟨name, type⟩ := f
      simpa [names] using ih
  refine ⟨List.zipWith (fun (field : Field) name => { field with name }) more
    ((UsedNames.uniquifyAll [] fields.names).2.uniquifyAll more.names).1, ?_, ?_⟩
  · rw [unique, show (fields ++ more).names = fields.names ++ more.names by simp [names],
      UsedNames.uniquifyAll_append, hfirst, hsame]
  · simp [UsedNames.length_uniquifyAll, names]

end RowType

end AlgebraSql
