import AlgebraSql.Proofs.GroupValues
import AlgebraSql.Proofs.ValueOrder
import Mathlib.Data.Finset.Powerset
import Mathlib.Data.List.Infix
import Mathlib.Data.List.Sort
import Mathlib.Data.List.Sublists

/-!
# Grouping sets — GROUP BY forms the grouping sets of the aggregation, and no others.

A ROLLUP stands for the beginnings of its list of keys, a CUBE for all parts of it, and GROUPING SETS for the
sets that it lists.  Keys are compared as numbers, so sets in ascending order are equal exactly when they have
the same keys.  The sets of a ROLLUP are recognised because from the largest to the smallest each has lost one
key, and those of a CUBE because there are as many different ones as the keys have subsets.
-/

namespace AlgebraSql

/-! ## Keys in ascending order -/

namespace Ordinal

theorem lt_iff (a b : Ordinal) : a.lt b = true ↔ a.value.toRat < b.value.toRat := by
  have hcompare : (a.value.compare b.value == .lt) = true ↔ a.value.toRat < b.value.toRat := by
    rw [Decimal.compare_eq, beq_iff_eq, cmp_eq_lt_iff]
  cases a with
  | whole i =>
    cases b with
    | whole j => simp [lt, value, Decimal.toRat_ofInt]
    | between d => exact hcompare
  | between d => exact hcompare

/-- Ascending keys are sorted by their numbers. -/
theorem ascending_eq (keys : List Ordinal) :
    ascending keys = keys.insertionSort (fun a b => a.value.toRat ≤ b.value.toRat) := by
  have hinsert : ∀ (key : Ordinal) (ks : List Ordinal),
      insertKey key ks = ks.orderedInsert (fun a b => a.value.toRat ≤ b.value.toRat) key := by
    intro key ks
    induction ks with
    | nil => rfl
    | cons k ks ih =>
      unfold insertKey
      rw [List.orderedInsert_cons, ← ih]
      by_cases hlt : k.value.toRat < key.value.toRat
      · rw [if_pos ((lt_iff _ _).mpr hlt), if_neg (not_le.mpr hlt)]
      · rw [if_neg (mt (lt_iff _ _).mp hlt), if_pos (not_lt.mp hlt)]
  induction keys with
  | nil => rfl
  | cons key keys ih =>
    rw [List.insertionSort_cons, ← ih, ← hinsert]
    rfl

/-- The keys are whole numbers. -/
def AllWhole (keys : List Ordinal) : Prop := ∀ key ∈ keys, ∃ i : Int, key = .whole i

/-- **Ascending keys** are equal when the keys are. -/
theorem ascending_congr {keys others : List Ordinal} (hwhole : AllWhole keys) (h : keys.Perm others) :
    ascending keys = ascending others := by
  let le : Ordinal → Ordinal → Prop := fun a b => a.value.toRat ≤ b.value.toRat
  have : Std.Total le := ⟨fun a b => le_total a.value.toRat b.value.toRat⟩
  have : IsTrans Ordinal le := ⟨fun _ _ _ hab hbc => le_trans hab hbc⟩
  have hsorted : ∀ ks : List Ordinal, (ascending ks).Pairwise le := fun ks => by
    rw [ascending_eq]
    exact List.pairwise_insertionSort le ks
  have hperm : (ascending keys).Perm (ascending others) :=
    (Convert.ascending_perm keys).trans (h.trans (Convert.ascending_perm others).symm)
  refine hperm.eq_of_pairwise (fun a b ha hb hab hba => ?_) (hsorted keys) (hsorted others)
  obtain ⟨i, rfl⟩ := hwhole a ((Convert.ascending_perm keys).mem_iff.mp ha)
  obtain ⟨j, rfl⟩ := hwhole b (h.mem_iff.mpr ((Convert.ascending_perm others).mem_iff.mp hb))
  have heq : (Decimal.ofInt i).toRat = (Decimal.ofInt j).toRat := le_antisymm hab hba
  rw [Decimal.toRat_ofInt, Decimal.toRat_ofInt, Int.cast_inj] at heq
  rw [heq]

theorem toFinset_ascending (keys : List Ordinal) : (ascending keys).toFinset = keys.toFinset :=
  List.toFinset_eq_of_perm _ _ (Convert.ascending_perm keys)

/-- Sets of keys without repetitions are the same sets exactly when they are equal in ascending order. -/
theorem ascending_eq_iff {keys others : List Ordinal} (hwhole : AllWhole keys) (hkeys : keys.Nodup)
    (hothers : others.Nodup) : ascending keys = ascending others ↔ keys.toFinset = others.toFinset := by
  constructor
  · intro h
    rw [← toFinset_ascending keys, h, toFinset_ascending]
  · exact fun h => ascending_congr hwhole (List.perm_of_nodup_nodup_toFinset_eq hkeys hothers h)

end Ordinal

namespace Convert

open Sql

/-- The keys of each set. -/
def keySets (sets : List (List Ordinal)) : List (Finset Ordinal) := sets.map List.toFinset

/-! ## Chains -/

/-- A set without one of its keys. -/
def DropsOne (s t : Finset Ordinal) : Prop := ∃ key ∈ s, t = s.erase key

/-- **`IsRollup`** — the sets begin, in some order, with all keys and lose one key at a time down to the empty set. -/
def IsRollup (groupSet : List Ordinal) (sets : List (List Ordinal)) : Prop :=
  ∃ order : List (Finset Ordinal), order.Perm (keySets sets) ∧ order.head? = some groupSet.toFinset
    ∧ order.IsChain DropsOne ∧ order.getLast? = some ∅

theorem DropsOne.card {s t : Finset Ordinal} (h : DropsOne s t) : t.card + 1 = s.card := by
  obtain ⟨key, hkey, rfl⟩ := h
  exact Finset.card_erase_add_one hkey

/-- The sets of a chain become smaller by one each time. -/
theorem card_of_isChain {order : List (Finset Ordinal)} (h : order.IsChain DropsOne) :
    order.Pairwise (fun s t => t.card < s.card)
      ∧ ∀ first last, order.head? = some first → order.getLast? = some last →
        last.card + order.length = first.card + 1 := by
  induction order with
  | nil => exact ⟨.nil, fun _ _ hfirst => by cases hfirst⟩
  | cons s order ih =>
    cases order with
    | nil =>
      refine ⟨List.pairwise_singleton _ _, fun first last hfirst hlast => ?_⟩
      cases hfirst
      cases hlast
      rfl
    | cons t rest =>
      obtain ⟨hdrop, hchain⟩ := List.isChain_cons_cons.mp h
      obtain ⟨hpairwise, hlengths⟩ := ih hchain
      refine ⟨List.pairwise_cons.mpr ⟨fun u hu => ?_, hpairwise⟩, fun first last hfirst hlast => ?_⟩
      · rcases List.mem_cons.mp hu with rfl | hu
        · have := hdrop.card
          omega
        · have := (List.pairwise_cons.mp hpairwise).1 u hu
          have := hdrop.card
          omega
      · cases hfirst
        have hrest := hlengths t last rfl (by rwa [List.getLast?_cons_cons] at hlast)
        have hcard := hdrop.card
        rw [List.length_cons]
        omega

/-- The keys that are dropped between two lists of keys without repetitions. -/
theorem filter_eq_singleton_iff {s t : List Ordinal} (hs : s.Nodup) (ht : t.Nodup) (key : Ordinal) :
    (t.length + 1 = s.length ∧ s.filter (!t.contains ·) = [key])
      ↔ key ∈ s ∧ t.toFinset = s.toFinset.erase key := by
  have hfilter : (s.filter (!t.contains ·)).toFinset = s.toFinset \ t.toFinset := by
    ext k
    simp
  have hcards : s.toFinset.card = s.length ∧ t.toFinset.card = t.length :=
    ⟨List.toFinset_card_of_nodup hs, List.toFinset_card_of_nodup ht⟩
  constructor
  · rintro ⟨hlength, hlist⟩
    have hkey : key ∈ s := (List.mem_filter.mp (hlist ▸ List.mem_singleton_self key)).1
    have hdiff : s.toFinset \ t.toFinset = {key} := by rw [← hfilter, hlist]; rfl
    -- all but one of the keys are left, and there are no more than these
    have herase : s.toFinset.erase key ⊆ t.toFinset := by
      intro k hk
      by_contra hkt
      have hmem : k ∈ s.toFinset \ t.toFinset := Finset.mem_sdiff.mpr ⟨Finset.mem_of_mem_erase hk, hkt⟩
      rw [hdiff, Finset.mem_singleton] at hmem
      exact Finset.ne_of_mem_erase hk hmem
    refine ⟨hkey, (Finset.eq_of_subset_of_card_le herase ?_).symm⟩
    rw [Finset.card_erase_of_mem (List.mem_toFinset.mpr hkey)]
    omega
  · rintro ⟨hkey, heq⟩
    have hcard := Finset.card_erase_add_one (List.mem_toFinset.mpr hkey)
    rw [← heq] at hcard
    refine ⟨by omega, ?_⟩
    refine List.perm_singleton.mp (List.perm_of_nodup_nodup_toFinset_eq (hs.filter _) (List.nodup_singleton key) ?_)
    rw [hfilter, heq, Finset.sdiff_erase (List.mem_toFinset.mpr hkey), Finset.sdiff_self]
    rfl

/-- Keys are found to be dropped one at a time exactly when the sets lose one key at a time. -/
theorem droppedKeys_isSome_iff {sets : List (List Ordinal)} (hsets : ∀ set ∈ sets, set.Nodup) :
    (droppedKeys sets).isSome ↔ (keySets sets).IsChain DropsOne := by
  induction sets with
  | nil => simp [droppedKeys, keySets]
  | cons s sets ih =>
    cases sets with
    | nil => simp [droppedKeys, keySets]
    | cons t rest =>
      have hs := hsets s List.mem_cons_self
      have ht := hsets t (by simp)
      have hrest := ih fun set hset => hsets set (List.mem_cons_of_mem _ hset)
      rw [keySets, List.map_cons, List.map_cons, List.isChain_cons_cons]
      rw [keySets, List.map_cons] at hrest
      rw [← hrest, droppedKeys]
      constructor
      · intro h
        split at h
        · rename_i hlength
          split at h
          · rename_i key hkey
            obtain ⟨hmem, heq⟩ := (filter_eq_singleton_iff hs ht key).mp ⟨hlength, hkey⟩
            exact ⟨⟨key, List.mem_toFinset.mpr hmem, heq⟩, by simpa using h⟩
          · cases h
        · cases h
      · rintro ⟨⟨key, hmem, heq⟩, h⟩
        obtain ⟨hlength, hkey⟩ := (filter_eq_singleton_iff hs ht key).mpr ⟨List.mem_toFinset.mp hmem, heq⟩
        rw [if_pos hlength, hkey]
        simpa using h

/-- Down to the empty set, the sets are what is left of the dropped keys. -/
theorem keySets_of_droppedKeys {sets : List (List Ordinal)} (hsets : ∀ set ∈ sets, set.Nodup) {dropped : List Ordinal}
    (h : droppedKeys sets = some dropped) (hlast : sets.getLast? = some []) :
    keySets sets = dropped.tails.map List.toFinset := by
  induction sets generalizing dropped with
  | nil => cases hlast
  | cons s sets ih =>
    cases sets with
    | nil =>
      obtain rfl : [] = dropped := by simpa [droppedKeys] using h
      obtain rfl : s = [] := by simpa using hlast
      rfl
    | cons t rest =>
      rw [List.getLast?_cons_cons] at hlast
      rw [droppedKeys] at h
      split at h
      · rename_i hlength
        split at h
        · rename_i key hkey
          simp only [Option.map_eq_some_iff] at h
          obtain ⟨others, hothers, rfl⟩ := h
          have hrest := ih (fun set hset => hsets set (List.mem_cons_of_mem _ hset)) hothers hlast
          obtain ⟨hmem, heq⟩ := (filter_eq_singleton_iff (hsets s List.mem_cons_self) (hsets t (by simp)) key).mp
            ⟨hlength, hkey⟩
          have hhead : t.toFinset = others.toFinset := by
            have := congrArg List.head? hrest
            cases others <;> simpa [keySets] using this
          rw [List.tails_cons, List.map_cons, ← hrest, keySets, List.map_cons, List.cons.injEq]
          refine ⟨?_, rfl⟩
          rw [List.toFinset_cons, ← hhead, heq, Finset.insert_erase (List.mem_toFinset.mpr hmem)]
        · cases h
      · cases h

/-! ## Subsets -/

theorem length_eraseDups_le {α : Type} [BEq α] (as : List α) : as.eraseDups.length ≤ as.length := by
  induction hn : as.length using Nat.strong_induction_on generalizing as with
  | _ n ih =>
    cases as with
    | nil => simp
    | cons a as =>
      have hfilter : (as.filter fun b => !b == a).length ≤ as.length := List.length_filter_le _ _
      have := ih _ (by rw [← hn]; exact Nat.lt_succ_of_le hfilter) (as.filter fun b => !b == a) rfl
      rw [List.eraseDups_cons, ← hn, List.length_cons, List.length_cons]
      omega

/-- Nothing is left out exactly when there are no repetitions. -/
theorem length_eraseDups_eq_iff {α : Type} [BEq α] [LawfulBEq α] (as : List α) :
    as.eraseDups.length = as.length ↔ as.Nodup := by
  induction hn : as.length using Nat.strong_induction_on generalizing as with
  | _ n ih =>
    cases as with
    | nil => simp_all
    | cons a as =>
      set others := as.filter fun b => !b == a with hothers
      have hfilter : others.length ≤ as.length := List.length_filter_le _ _
      have hle := length_eraseDups_le others
      have hrest := ih _ (by rw [← hn]; exact Nat.lt_succ_of_le hfilter) others rfl
      rw [List.eraseDups_cons, ← hothers, ← hn, List.length_cons, List.length_cons, List.nodup_cons]
      constructor
      · intro h
        have hall : others = as := List.filter_sublist.eq_of_length (by rw [← hothers]; omega)
        refine ⟨fun hmem => ?_, hall ▸ hrest.mp (by omega)⟩
        rw [← hall, hothers, List.mem_filter] at hmem
        simp at hmem
      · rintro ⟨hmem, hnodup⟩
        have hall : others = as := List.filter_eq_self.mpr fun b hb => by
          simpa using fun heq : b = a => hmem (heq ▸ hb)
        rw [hall] at hrest ⊢
        rw [hrest.mpr hnodup]

/-- As many different subsets as there are at all are all of them. -/
theorem powerset_val_iff {s : Finset Ordinal} {sets : List (Finset Ordinal)} :
    (sets : Multiset (Finset Ordinal)) = s.powerset.val
      ↔ sets.length = 2 ^ s.card ∧ (∀ t ∈ sets, t ⊆ s) ∧ sets.Nodup := by
  constructor
  · intro h
    refine ⟨?_, fun t ht => ?_, ?_⟩
    · rw [← Multiset.coe_card, h, Finset.card_val, Finset.card_powerset]
    · have hmem : t ∈ s.powerset.val := h ▸ Multiset.mem_coe.mpr ht
      exact Finset.mem_powerset.mp hmem
    · rw [← Multiset.coe_nodup, h]
      exact s.powerset.nodup
  · rintro ⟨hlength, hsub, hnodup⟩
    refine Multiset.eq_of_le_of_card_le ((Multiset.le_iff_subset (Multiset.coe_nodup.mpr hnodup)).mpr fun t ht => ?_) ?_
    · exact Finset.mem_powerset.mpr (hsub t (Multiset.mem_coe.mp ht))
    · rw [Finset.card_val, Finset.card_powerset, Multiset.coe_card, hlength]

/-- **`IsCube`** — the sets are the subsets of the keys, each of them once. -/
def IsCube (groupSet : List Ordinal) (sets : List (List Ordinal)) : Prop :=
  (keySets sets : Multiset (Finset Ordinal)) = groupSet.toFinset.powerset.val

/-- The parts of a list without repetitions are its subsets. -/
theorem keySets_sublists {keys : List Ordinal} (hkeys : keys.Nodup) : IsCube keys keys.sublists := by
  refine powerset_val_iff.mpr ⟨?_, fun t ht => ?_, ?_⟩
  · rw [keySets, List.length_map, List.length_sublists, List.toFinset_card_of_nodup hkeys]
  · obtain ⟨part, hpart, rfl⟩ := List.mem_map.mp ht
    exact fun key hkey => List.mem_toFinset.mpr ((List.mem_sublists.mp hpart).subset (List.mem_toFinset.mp hkey))
  · have hbags : (keys.sublists.map Multiset.ofList).Nodup := by
      rw [← Multiset.coe_nodup, ← Multiset.powerset_coe, Multiset.nodup_powerset]
      exact Multiset.coe_nodup.mpr hkeys
    refine List.Nodup.map_on (fun a ha b hb hab => ?_) (List.nodup_sublists.mpr hkeys)
    refine List.inj_on_of_nodup_map hbags ha hb (Multiset.coe_eq_coe.mpr ?_)
    exact List.perm_of_nodup_nodup_toFinset_eq (hkeys.sublist (List.mem_sublists.mp ha))
      (hkeys.sublist (List.mem_sublists.mp hb)) hab

/-! ## Families of grouping sets -/

section

variable {groupSet : List Ordinal} {sets : List (List Ordinal)}

theorem keySets_ascending (sets : List (List Ordinal)) : keySets (sets.map Ordinal.ascending) = keySets sets := by
  rw [keySets, List.map_map]
  exact List.map_congr_left fun set _ => Ordinal.toFinset_ascending set

theorem keySets_bySize (sets : List (List Ordinal)) :
    (keySets (bySize (sets.map Ordinal.ascending))).Perm (keySets sets) :=
  keySets_ascending sets ▸ (bySize_spec _).1.map List.toFinset

/-- The sets that are sorted have no repeated keys either. -/
theorem nodup_of_mem_bySize (hsets : ∀ set ∈ sets, set.Nodup) :
    ∀ set ∈ bySize (sets.map Ordinal.ascending), set.Nodup := by
  intro set hset
  obtain ⟨original, horiginal, rfl⟩ := List.mem_map.mp ((bySize_spec _).1.mem_iff.mp hset)
  exact (ascending_perm original).nodup_iff.mpr (hsets original horiginal)

/-- **The chain of a ROLLUP** is what sorting by size finds. -/
theorem keySets_bySize_of_chain (hsets : ∀ set ∈ sets, set.Nodup) {order : List (Finset Ordinal)}
    (hperm : order.Perm (keySets sets)) (hchain : order.IsChain DropsOne) :
    keySets (bySize (sets.map Ordinal.ascending)) = order := by
  have hsorted : (keySets (bySize (sets.map Ordinal.ascending))).Pairwise fun s t => t.card ≤ s.card := by
    rw [keySets, List.pairwise_map]
    refine (bySize_spec _).2.imp_of_mem fun {s t} hs ht h => ?_
    rwa [List.toFinset_card_of_nodup (nodup_of_mem_bySize hsets s hs),
      List.toFinset_card_of_nodup (nodup_of_mem_bySize hsets t ht)]
  have hsame := (keySets_bySize sets).trans hperm.symm
  have hstrict := (card_of_isChain hchain).1
  -- no two sets of the chain are of one size
  have hsizes : ∀ s ∈ order, ∀ t ∈ order, s.card = t.card → s = t := by
    let same : Finset Ordinal → Finset Ordinal → Prop := fun s t => s.card = t.card → s = t
    have : Std.Symm same := ⟨fun _ _ h heq => (h heq.symm).symm⟩
    have hpairs : order.Pairwise same := hstrict.imp fun {_ _} hlt heq => absurd heq (ne_of_gt hlt)
    exact fun s hs t ht => hpairs.forall_of_forall (fun _ _ _ => rfl) hs ht
  exact hsame.eq_of_pairwise (fun s t hs ht hst hts => hsizes s (hsame.mem_iff.mp hs) t ht (le_antisymm hts hst))
    hsorted (hstrict.imp le_of_lt)

/-- **A ROLLUP is recognised** exactly when the sets are those of one. -/
theorem rollupKeys_isSome_iff (hwhole : Ordinal.AllWhole groupSet) (hkeys : groupSet.Nodup)
    (hsets : ∀ set ∈ sets, set.Nodup) : (rollupKeys groupSet sets).isSome ↔ IsRollup groupSet sets := by
  have hdropped := droppedKeys_isSome_iff (nodup_of_mem_bySize hsets)
  have hlength : (bySize (sets.map Ordinal.ascending)).length = sets.length := by
    rw [length_bySize, List.length_map]
  unfold rollupKeys
  constructor
  · intro h
    split at h
    · cases h
    · rename_i hcount
      dsimp only at h
      split at h
      · rename_i hhead
        have hchain := hdropped.mp (by simpa using h)
        have hfirst : (keySets (bySize (sets.map Ordinal.ascending))).head? = some groupSet.toFinset := by
          rw [keySets, List.head?_map, hhead, Option.map_some, Ordinal.toFinset_ascending]
        refine ⟨_, keySets_bySize sets, hfirst, hchain, ?_⟩
        obtain ⟨last, hlast⟩ : ∃ last, (keySets (bySize (sets.map Ordinal.ascending))).getLast? = some last := by
          cases hlist : keySets (bySize (sets.map Ordinal.ascending)) with
          | nil => rw [hlist] at hfirst; cases hfirst
          | cons s ss => exact ⟨_, List.getLast?_eq_some_getLast (List.cons_ne_nil s ss)⟩
        have hcards := (card_of_isChain hchain).2 _ _ hfirst hlast
        rw [keySets, List.length_map, hlength, List.toFinset_card_of_nodup hkeys, not_not.mp hcount] at hcards
        rw [hlast, Finset.card_eq_zero.mp (by omega : last.card = 0)]
      · cases h
  · rintro ⟨order, hperm, hfirst, hchain, hlast⟩
    have hsorted := keySets_bySize_of_chain hsets hperm hchain
    have hcount : sets.length = groupSet.length + 1 := by
      have hcards := (card_of_isChain hchain).2 _ _ hfirst hlast
      rw [Finset.card_empty, List.toFinset_card_of_nodup hkeys, hperm.length_eq, keySets, List.length_map] at hcards
      omega
    have hhead : (bySize (sets.map Ordinal.ascending)).head? = some (Ordinal.ascending groupSet) := by
      rw [← hsorted, keySets, List.head?_map, Option.map_eq_some_iff] at hfirst
      obtain ⟨first, hfirst, heq⟩ := hfirst
      have hmem : first ∈ sets.map Ordinal.ascending := (bySize_spec _).1.mem_iff.mp (List.mem_of_head? hfirst)
      obtain ⟨original, horiginal, rfl⟩ := List.mem_map.mp hmem
      rw [Ordinal.toFinset_ascending] at heq
      rw [hfirst, (Ordinal.ascending_eq_iff hwhole hkeys (hsets original horiginal)).mpr heq.symm]
    rw [if_neg (not_not.mpr hcount)]
    simp only [hhead, if_true, Option.isSome_map]
    exact hdropped.mpr (hsorted ▸ hchain)

/-- **A CUBE is recognised** exactly when the sets are all subsets. -/
theorem isCube_iff (hwhole : Ordinal.AllWhole groupSet) (hkeys : groupSet.Nodup) (hsets : ∀ set ∈ sets, set.Nodup) :
    isCube groupSet sets = true ↔ IsCube groupSet sets := by
  have hsub : (∀ set ∈ sets, ∀ key ∈ set, key ∈ groupSet) ↔ ∀ t ∈ keySets sets, t ⊆ groupSet.toFinset := by
    simp [keySets, Finset.subset_iff]
  have hnodup : (∀ set ∈ sets, ∀ key ∈ set, key ∈ groupSet) →
      ((sets.map Ordinal.ascending).Nodup ↔ (keySets sets).Nodup) := by
    intro hincluded
    have hinjective : ∀ a ∈ sets, ∀ b ∈ sets, Ordinal.ascending a = Ordinal.ascending b ↔ a.toFinset = b.toFinset :=
      fun a ha b hb => Ordinal.ascending_eq_iff (fun key hkey => hwhole key (hincluded a ha key hkey)) (hsets a ha)
        (hsets b hb)
    rw [keySets, List.Nodup, List.Nodup, List.pairwise_map, List.pairwise_map]
    exact ⟨fun h => h.imp_of_mem fun {a b} ha hb hne heq => hne ((hinjective a ha b hb).mpr heq),
      fun h => h.imp_of_mem fun {a b} ha hb hne heq => hne ((hinjective a ha b hb).mp heq)⟩
  rw [IsCube, powerset_val_iff, List.toFinset_card_of_nodup hkeys, ← hsub, isCube]
  simp only [Bool.and_eq_true, beq_iff_eq, List.all_eq_true, List.contains_iff_mem]
  have hpow : Nat.pow 2 groupSet.length = 2 ^ groupSet.length := rfl
  rw [hpow, show (keySets sets).length = sets.length from List.length_map _, and_assoc]
  refine and_congr_right fun hlength => and_congr_right fun hincluded => ?_
  rw [← hnodup hincluded, ← length_eraseDups_eq_iff, List.length_map]

/-- A list of keys is grouped by plainly only if it is the only set. -/
theorem eq_simple_iff : groupKind groupSet sets = .simple ↔ sets.map Ordinal.ascending = [groupSet] := by
  unfold groupKind
  split
  · simp_all
  · split
    · simp_all
    · split <;> simp_all

theorem rollupKeys_isSome (h : groupKind groupSet sets = .rollup) : (rollupKeys groupSet sets).isSome := by
  unfold groupKind at h
  split at h
  · cases h
  · split at h
    · assumption
    · split at h <;> cases h

/-- **The family** of a grouping that is not plain follows from its sets. -/
theorem groupKind_iff (hwhole : Ordinal.AllWhole groupSet) (hkeys : groupSet.Nodup) (hsets : ∀ set ∈ sets, set.Nodup)
    (hplain : groupKind groupSet sets ≠ .simple) :
    (groupKind groupSet sets = .rollup ↔ IsRollup groupSet sets)
      ∧ (groupKind groupSet sets = .cube ↔ ¬ IsRollup groupSet sets ∧ IsCube groupSet sets) := by
  rw [← rollupKeys_isSome_iff hwhole hkeys hsets, ← isCube_iff hwhole hkeys hsets]
  rw [ne_eq, eq_simple_iff] at hplain
  unfold groupKind
  rw [if_neg hplain]
  by_cases hrollup : (rollupKeys groupSet sets).isSome = true
  · simp [hrollup]
  · by_cases hcube : isCube groupSet sets = true <;> simp [hrollup, hcube]

/-- The beginnings of the keys of a ROLLUP are its sets. -/
theorem keySets_inits (hkeys : groupSet.Nodup) (hsets : ∀ set ∈ sets, set.Nodup) {keys : List Ordinal}
    (h : rollupKeys groupSet sets = some keys) : (keySets keys.inits).Perm (keySets sets) := by
  have hnodup := nodup_of_mem_bySize hsets
  have hlength : (bySize (sets.map Ordinal.ascending)).length = sets.length := by
    rw [length_bySize, List.length_map]
  unfold rollupKeys at h
  split at h
  · cases h
  · rename_i hcount
    dsimp only at h
    split at h
    · rename_i hhead
      simp only [Option.map_eq_some_iff] at h
      obtain ⟨dropped, hdropped, rfl⟩ := h
      -- the last set is empty, since there is one more set than there are keys
      have hlast : (bySize (sets.map Ordinal.ascending)).getLast? = some [] := by
        obtain ⟨rest, hsorted⟩ : ∃ rest, bySize (sets.map Ordinal.ascending) = Ordinal.ascending groupSet :: rest := by
          cases hsorted : bySize (sets.map Ordinal.ascending) with
          | nil => simp [hsorted] at hhead
          | cons first rest => exact ⟨rest, by rw [hsorted] at hhead; simpa using hhead⟩
        have hchain := (droppedKeys_isSome_iff hnodup).mp (by rw [hdropped]; rfl)
        rw [hsorted] at hchain hlength ⊢
        have hcards := (card_of_isChain hchain).2 (Ordinal.ascending groupSet).toFinset
          (((Ordinal.ascending groupSet :: rest).getLast (List.cons_ne_nil _ _)).toFinset) rfl
          (by rw [keySets, List.getLast?_map, List.getLast?_eq_some_getLast (List.cons_ne_nil _ _)]; rfl)
        rw [Ordinal.toFinset_ascending, List.toFinset_card_of_nodup hkeys, keySets, List.length_map, hlength,
          not_not.mp hcount] at hcards
        have hnone : ((Ordinal.ascending groupSet :: rest).getLast (List.cons_ne_nil _ _)).toFinset = ∅ :=
          Finset.card_eq_zero.mp (by omega)
        rw [List.getLast?_eq_some_getLast (List.cons_ne_nil _ _), (List.toFinset_eq_empty_iff _).mp hnone]
      have htails := keySets_of_droppedKeys hnodup hdropped hlast
      have hreversed : keySets dropped.reverse.inits = (keySets (bySize (sets.map Ordinal.ascending))).reverse := by
        rw [htails, List.inits_reverse, keySets, List.map_reverse, List.map_map, List.map_congr_left]
        exact fun part _ => List.toFinset_eq_of_perm _ _ (List.reverse_perm part)
      rw [hreversed]
      exact (List.reverse_perm _).trans (keySets_bySize sets)
    · cases h

end

end Convert

/-! ## What GROUP BY stands for -/

namespace Sql.Node

/-- A node that stands for several keys or for sets of keys. -/
def isGrouping (n : Node) : Bool := n.is .tuple || n.is .rollup || n.is .cube || n.is .groupingSets

/-- The keys of a listed set: those of a tuple, or a single one. -/
def listedSet (n : Node) : List Node := if n.is .tuple then n.list "expressions" else [n]

/-- The sets of keys that the items of GROUP BY stand for: a plain list is one set, and otherwise there is one item. -/
def groupingSets (items : List Node) : List (List Node) :=
  match items with
  | [item] =>
    match item.kind with
    | .rollup => (item.list "expressions").inits
    | .cube => (item.list "expressions").sublists
    | .groupingSets => (item.list "expressions").map listedSet
    | _ => [items]
  | _ => [items]

theorem groupingSets_keys {keys : List Node} (h : ∀ n ∈ keys, n.isGrouping = false) : groupingSets keys = [keys] := by
  unfold groupingSets
  split
  · rename_i item
    have hitem := h item (List.mem_singleton_self item)
    simp only [isGrouping, Node.is, Bool.or_eq_false_iff, beq_eq_false_iff_ne, ne_eq] at hitem
    split <;> simp_all
  · rfl

end Sql.Node

namespace Convert

open Sql Node

variable {env : Env} {ctx : Context}

/-- **`WritesKeys`** — in a context, the keys are written as such nodes, each of which is an expression. -/
def WritesKeys (env : Env) (ctx : Context) (keys : List Ordinal) (key : Ordinal → Node) : Prop :=
  ∀ k ∈ keys, ctx.groupField env k = .ok (key k) ∧ (key k).isGrouping = false

theorem keyNodes_eq {keys all : List Ordinal} {key : Ordinal → Node} (h : WritesKeys env ctx all key)
    (hkeys : ∀ k ∈ keys, k ∈ all) : keyNodes env ctx keys = .ok (keys.map key) := by
  unfold keyNodes
  induction keys with
  | nil => rfl
  | cons k ks ih =>
    rw [List.mapM_cons, (h k (hkeys k List.mem_cons_self)).1, ih fun k' hk' => hkeys k' (List.mem_cons_of_mem _ hk')]
    rfl

/-- A grouping set is listed as its keys. -/
theorem groupingSetNode_eq {set all : List Ordinal} {key : Ordinal → Node} (h : WritesKeys env ctx all key)
    (hset : ∀ k ∈ set, k ∈ all) : ∃ n, groupingSetNode env ctx set = .ok n ∧ n.listedSet = set.map key := by
  unfold groupingSetNode
  split
  · rename_i k
    obtain ⟨hk, hplain⟩ := h k (hset k (List.mem_singleton_self k))
    refine ⟨key k, hk, ?_⟩
    simp only [isGrouping, Bool.or_eq_false_iff] at hplain
    rw [listedSet, hplain.1.1.1, if_neg (by decide)]
    rfl
  · refine ⟨Node.tuple (set.map key), by rw [keyNodes_eq h hset]; rfl, ?_⟩
    simp [listedSet, Node.tuple, Node.is, list, list?, arg?]

/-- All grouping sets are listed as their keys. -/
theorem exists_listed {sets : List (List Ordinal)} {all : List Ordinal} {key : Ordinal → Node}
    (h : WritesKeys env ctx all key) (hsets : ∀ set ∈ sets, ∀ k ∈ set, k ∈ all) :
    ∃ ns, sets.mapM (groupingSetNode env ctx) = .ok ns ∧ ns.map listedSet = sets.map (List.map key) := by
  induction sets with
  | nil => exact ⟨[], rfl, rfl⟩
  | cons set sets ih =>
    obtain ⟨n, hn, hlisted⟩ := groupingSetNode_eq h (hsets set List.mem_cons_self)
    obtain ⟨ns, hns, hrest⟩ := ih fun s hs => hsets s (List.mem_cons_of_mem _ hs)
    exact ⟨n :: ns, by rw [List.mapM_cons, hn, hns]; rfl, by rw [List.map_cons, List.map_cons, hlisted, hrest]⟩

/-- Keys that were checked are positions of fields. -/
theorem positions_of_checked {input : Rel} {keys : List Ordinal}
    (h : keys.forM (fun key => discard (Rel.inputField input key)) = .ok ()) :
    ∃ positions : List Nat, positions.map (fun i : Nat => Ordinal.whole i) = keys
      ∧ ∀ i ∈ positions, i < input.fields.length := by
  rw [forM_eq_ok_iff] at h
  induction keys with
  | nil => exact ⟨[], rfl, by simp⟩
  | cons k ks ih =>
    obtain ⟨hk, hks⟩ := List.forall_mem_cons.mp h
    obtain ⟨positions, rfl, hpositions⟩ := ih hks
    cases hfield : nth? input.fields k with
    | none =>
      rw [Rel.inputField, hfield] at hk
      cases hk
    | some f =>
      obtain ⟨i, hi, rfl⟩ := (nth?_isSome_iff _ k).mp (by rw [hfield]; rfl)
      exact ⟨i :: positions, rfl, List.forall_mem_cons.mpr ⟨hi, hpositions⟩⟩

/-- The keys of an aggregation are positions of fields. -/
theorem allWhole_of_aggregate {input : Rel} {keys groupSet : List Ordinal} {calls : List AggregateCall}
    {given : Option (List (List Ordinal))} {sets : List (List Ordinal)}
    (h : Rel.aggregate? input keys calls given = .ok (.aggregate input groupSet sets calls)) :
    Ordinal.AllWhole groupSet := by
  simp only [Rel.aggregate?, bind_eq_ok_iff, pure_eq_ok_iff] at h
  obtain ⟨u, hchecked, u', -, heq⟩ := h
  injection heq with _ hgroup
  obtain ⟨positions, hpositions, -⟩ := positions_of_checked hchecked
  intro key hkey
  rw [← hgroup, ← hpositions] at hkey
  obtain ⟨i, -, rfl⟩ := List.mem_map.mp hkey
  exact ⟨i, rfl⟩

/-- **Grouping sets** — for an aggregation without repeated keys, GROUP BY stands for the grouping sets, each as
often as it is given, whichever way it is written; and it is written as a ROLLUP or a CUBE, unless it is plain,
exactly when the sets are those of one. -/
theorem groupByNodes_sets {input : Rel} {keys groupSet : List Ordinal} {calls : List AggregateCall}
    {given : Option (List (List Ordinal))} {sets : List (List Ordinal)}
    (hbuilt : Rel.aggregate? input keys calls given = .ok (.aggregate input groupSet sets calls))
    (hkeys : groupSet.Nodup) (hsets : ∀ set ∈ sets, set.Nodup) :
    (∀ (env : Env) (ctx : Context) (key : Ordinal → Node), WritesKeys env ctx (groupSet ++ sets.flatten) key →
      env.dialect.capabilities.groupingSets = true ∨ groupKind groupSet sets = .simple →
      ∃ items written, groupByNodes env ctx groupSet sets = .ok items
        ∧ groupingSets items = List.map (List.map key) written
        ∧ (keySets written : Multiset (Finset Ordinal)) = keySets sets)
    ∧ (groupKind groupSet sets ≠ .simple →
      (groupKind groupSet sets = .rollup ↔ IsRollup groupSet sets)
        ∧ (groupKind groupSet sets = .cube ↔ ¬ IsRollup groupSet sets ∧ IsCube groupSet sets)) := by
  have hwhole := allWhole_of_aggregate hbuilt
  refine ⟨fun env ctx key hkey hsupported => ?_, groupKind_iff hwhole hkeys hsets⟩
  have hall : keyNodes env ctx groupSet = .ok (groupSet.map key) :=
    keyNodes_eq hkey fun k hk => List.mem_append_left _ hk
  unfold groupByNodes
  have hallowed : (groupKind groupSet sets != .simple && !env.dialect.capabilities.groupingSets) = false := by
    rcases hsupported with h | h <;> simp [h]
  simp only [hallowed, Bool.false_eq_true, if_false]
  cases hkind : groupKind groupSet sets with
  | simple =>
    have hsimple := eq_simple_iff.mp hkind
    refine ⟨groupSet.map key, [groupSet], hall, groupingSets_keys fun n hn => ?_, ?_⟩
    · obtain ⟨k, hk, rfl⟩ := List.mem_map.mp hn
      exact (hkey k (List.mem_append_left _ hk)).2
    · rw [← keySets_ascending sets, hsimple]
  | rollup =>
    obtain ⟨dropped, hdropped⟩ := Option.isSome_iff_exists.mp (rollupKeys_isSome hkind)
    have hwritten : keyNodes env ctx dropped = .ok (dropped.map key) :=
      keyNodes_eq hkey fun k hk => by
        obtain ⟨set, hset, hmem⟩ := mem_of_mem_rollupKeys hdropped hk
        exact List.mem_append_right _ (List.mem_flatten.mpr ⟨set, hset, hmem⟩)
    refine ⟨[listNode .rollup (dropped.map key)], dropped.inits, ?_, List.map_inits key, ?_⟩
    · rw [hdropped, Option.getD_some, hwritten]
      rfl
    · exact Multiset.coe_eq_coe.mpr (keySets_inits hkeys hsets hdropped)
  | cube =>
    refine ⟨[listNode .cube (groupSet.map key)], groupSet.sublists, by rw [hall]; rfl, List.sublists_map key groupSet, ?_⟩
    have hplain : groupKind groupSet sets ≠ .simple := by simp [hkind]
    have hcube := ((groupKind_iff hwhole hkeys hsets hplain).2.mp hkind).2
    exact (keySets_sublists hkeys).trans hcube.symm
  | other =>
    have hlisted : ∃ ns, sets.mapM (groupingSetNode env ctx) = .ok ns ∧ ns.map listedSet = sets.map (List.map key) :=
      exists_listed hkey fun set hset k hk => List.mem_append_right _ (List.mem_flatten.mpr ⟨set, hset, hk⟩)
    obtain ⟨ns, hns, hsame⟩ := hlisted
    exact ⟨[listNode .groupingSets ns], sets, by rw [hns]; rfl, hsame, rfl⟩

/-- The sets of a ROLLUP, in some order, are written as `ROLLUP(a, b)`. -/
theorem groupByNodes_sets_shuffled :
    let fields : RowType := [⟨"a", DataType.integer⟩, ⟨"b", DataType.integer⟩]
    let sets : List (List Ordinal) := [[.whole 0], [.whole 1, .whole 0], []]
    let ctx : Context := .aliases [("t", fields)] false
    let key : Ordinal → Node := fun k => if k = .whole 0 then Node.column "a" else Node.column "b"
    (∃ items written, groupByNodes { dialect := Dialect.ansi } ctx [.whole 0, .whole 1] sets = .ok items
        ∧ groupingSets items = List.map (List.map key) written
        ∧ (keySets written : Multiset (Finset Ordinal)) = keySets sets)
      ∧ groupKind [.whole 0, .whole 1] sets = .rollup ∧ IsRollup [.whole 0, .whole 1] sets := by
  intro fields sets ctx key
  have hbuilt : Rel.aggregate? (.scan ["t"] fields) [.whole 1, .whole 0] [] (some sets)
      = .ok (.aggregate (.scan ["t"] fields) [.whole 0, .whole 1] sets []) := rfl
  have hkind : groupKind [.whole 0, .whole 1] sets = .rollup := by decide
  have hwrites : WritesKeys { dialect := Dialect.ansi } ctx ([.whole 0, .whole 1] ++ sets.flatten) key := by
    intro k hk
    have hfields : ∀ k ∈ ([.whole 0, .whole 1] ++ sets.flatten : List Ordinal), k = .whole 0 ∨ k = .whole 1 := by decide
    rcases hfields k hk with rfl | rfl <;> exact ⟨rfl, rfl⟩
  obtain ⟨hexpands, hfamily⟩ := groupByNodes_sets hbuilt (by decide) (by decide)
  refine ⟨hexpands _ ctx key hwrites (.inl rfl), hkind, ?_⟩
  exact (hfamily (by rw [hkind]; decide)).1.mp hkind

end Convert
end AlgebraSql
