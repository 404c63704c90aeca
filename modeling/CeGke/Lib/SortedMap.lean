import Mathlib.Order.Bounds.Defs
import Mathlib.Order.Lattice
import Mathlib.Data.List.Dedup
import Mathlib.Data.List.Nodup

/-!
# Sorted maps

A finite map as a list of entries in strictly increasing order of their keys, so that
walking the list visits the keys in order.  The order is a field of the map; the
operations re-establish it, and what they do is said by `get` alone.
-/

namespace CeGke.Lib

variable {κ α : Type*} [LinearOrder κ]

/-- A map with its keys in increasing order. -/
@[ext]
structure SortedMap (κ α : Type*) [LinearOrder κ] where
  entries : List (κ × α)
  sorted : (entries.map Prod.fst).Pairwise (· < ·)
deriving DecidableEq

namespace SortedMap

/-- The map without entries. -/
def empty : SortedMap κ α := ⟨[], List.Pairwise.nil⟩

/-- The keys, in order. -/
def keys (m : SortedMap κ α) : List κ := m.entries.map Prod.fst

theorem nodup_keys (m : SortedMap κ α) : m.keys.Nodup := m.sorted.imp ne_of_lt

/-- The value of a key. -/
def get (m : SortedMap κ α) (k : κ) : Option α := m.entries.lookup k

theorem lookup_cons_eq_ite (k j : κ) (v : α) (l : List (κ × α)) :
    ((k, v) :: l).lookup j = if j = k then some v else l.lookup j := by
  rw [List.lookup_cons]
  by_cases h : j = k
  · simp [h]
  · rw [beq_eq_false_iff_ne.mpr h, if_neg h]

theorem isSome_get_iff {m : SortedMap κ α} {k : κ} : (m.get k).isSome ↔ k ∈ m.keys := by
  simp only [get, List.lookup_isSome_iff, keys, List.mem_map, beq_iff_eq]
  constructor
  · rintro ⟨e, he, hk⟩
    exact ⟨e, he, hk.symm⟩
  · rintro ⟨e, he, hk⟩
    exact ⟨e, he, hk.symm⟩

/-- A listed entry is the one that is looked up. -/
theorem get_eq_some_iff {m : SortedMap κ α} {k : κ} {v : α} :
    m.get k = some v ↔ (k, v) ∈ m.entries := by
  obtain ⟨l, hl⟩ := m
  simp only [get]
  induction l with
  | nil => simp
  | cons e l ih =>
      obtain ⟨k', v'⟩ := e
      rw [List.map_cons, List.pairwise_cons] at hl
      have ih := ih hl.2
      rw [lookup_cons_eq_ite, List.mem_cons, Prod.mk.injEq, ← ih]
      split_ifs with hk
      · have hnone : l.lookup k ≠ some v := fun h ↦
          (hl.1 k (List.mem_map_of_mem (ih.mp h))).ne hk.symm
        simp [hk, hk ▸ hnone, eq_comm]
      · simp [hk]

/-- A map is what is looked up in it. -/
theorem ext_get {m m' : SortedMap κ α} (h : ∀ k, m.get k = m'.get k) : m = m' := by
  have hmem : ∀ e, e ∈ m.entries ↔ e ∈ m'.entries := by
    rintro ⟨k, v⟩
    rw [← get_eq_some_iff, ← get_eq_some_iff, h]
  have hperm : m.entries.Perm m'.entries :=
    (List.perm_ext_iff_of_nodup m.nodup_keys.of_map m'.nodup_keys.of_map).mpr hmem
  have hsorted := fun m : SortedMap κ α ↦ List.pairwise_map.mp m.sorted
  refine SortedMap.ext (hperm.eq_of_pairwise (fun a b _ _ hab hba ↦ ?_) (hsorted m) (hsorted m'))
  exact absurd hba hab.asymm

/-- The keys of a map are the ones at which something is found. -/
theorem keys_eq_iff {β : Type*} {m : SortedMap κ α} {m' : SortedMap κ β} :
    m.keys = m'.keys ↔ ∀ k, (m.get k).isSome = (m'.get k).isSome := by
  have hmem : ∀ k, (m.get k).isSome = (m'.get k).isSome ↔ (k ∈ m.keys ↔ k ∈ m'.keys) := by
    intro k
    rw [Bool.eq_iff_iff, isSome_get_iff, isSome_get_iff]
  rw [forall_congr' hmem]
  constructor
  · intro h k
    rw [h]
  · intro h
    have hperm := (List.perm_ext_iff_of_nodup m.nodup_keys m'.nodup_keys).mpr h
    exact hperm.eq_of_pairwise (fun a b _ _ hab hba ↦ absurd hba hab.asymm) m.sorted m'.sorted

/-! ## Updating a value in place -/

/-- Apply `f` to the value of `k`, if there is one. -/
def modifyEntry (k : κ) (f : α → α) (e : κ × α) : κ × α := if e.1 = k then (e.1, f e.2) else e

theorem map_fst_modifyEntry (k : κ) (f : α → α) (l : List (κ × α)) :
    (l.map (modifyEntry k f)).map Prod.fst = l.map Prod.fst := by
  rw [List.map_map]
  apply List.map_congr_left
  intro e _
  simp only [Function.comp_apply, modifyEntry]
  split_ifs <;> rfl

/-- Apply `f` to the value of `k`, if there is one. -/
def modify (m : SortedMap κ α) (k : κ) (f : α → α) : SortedMap κ α where
  entries := m.entries.map (modifyEntry k f)
  sorted := (map_fst_modifyEntry k f m.entries).symm ▸ m.sorted

@[simp] theorem keys_modify (m : SortedMap κ α) (k : κ) (f : α → α) :
    (m.modify k f).keys = m.keys := map_fst_modifyEntry k f m.entries

theorem get_modify (m : SortedMap κ α) (k j : κ) (f : α → α) :
    (m.modify k f).get j = if j = k then (m.get j).map f else m.get j := by
  simp only [get, modify]
  induction m.entries with
  | nil => simp
  | cons e l ih =>
      obtain ⟨k', v'⟩ := e
      rw [List.map_cons, modifyEntry]
      by_cases hk : k' = k
      · rw [if_pos hk, lookup_cons_eq_ite, lookup_cons_eq_ite, ih]
        split_ifs <;> simp_all
      · rw [if_neg hk, lookup_cons_eq_ite, lookup_cons_eq_ite, ih]
        split_ifs <;> simp_all

/-! ## Inserting and removing -/

/-- Put an entry where its key belongs, replacing the one that had the key. -/
def insertEntry (k : κ) (v : α) : List (κ × α) → List (κ × α)
  | [] => [(k, v)]
  | e :: l =>
      if k < e.1 then (k, v) :: e :: l
      else if k = e.1 then (k, v) :: l
      else e :: insertEntry k v l

theorem mem_keys_insertEntry {k j : κ} {v : α} {l : List (κ × α)} :
    j ∈ (insertEntry k v l).map Prod.fst ↔ j = k ∨ j ∈ l.map Prod.fst := by
  induction l with
  | nil => simp [insertEntry]
  | cons e l ih =>
      rw [insertEntry]
      split_ifs with hlt heq
      · simp
      · simp [heq]
      · rw [List.map_cons, List.mem_cons, ih, List.map_cons, List.mem_cons]
        exact or_left_comm

theorem sorted_insertEntry (k : κ) (v : α) {l : List (κ × α)}
    (hl : (l.map Prod.fst).Pairwise (· < ·)) :
    ((insertEntry k v l).map Prod.fst).Pairwise (· < ·) := by
  induction l with
  | nil => exact List.pairwise_singleton _ _
  | cons e l ih =>
      rw [List.map_cons, List.pairwise_cons] at hl
      rw [insertEntry]
      split_ifs with hlt heq
      · refine List.Pairwise.cons (fun j hj ↦ ?_) (List.pairwise_cons.mpr hl)
        rcases List.mem_cons.mp hj with rfl | hj
        · exact hlt
        · exact lt_trans hlt (hl.1 j hj)
      · subst heq
        exact List.pairwise_cons.mpr hl
      · refine List.Pairwise.cons (fun j hj ↦ ?_) (ih hl.2)
        rcases mem_keys_insertEntry.mp hj with rfl | hj
        · exact lt_of_le_of_ne (not_lt.mp hlt) (Ne.symm heq)
        · exact hl.1 j hj

/-- Set the value of `k`. -/
def insert (m : SortedMap κ α) (k : κ) (v : α) : SortedMap κ α :=
  ⟨insertEntry k v m.entries, sorted_insertEntry k v m.sorted⟩

theorem get_insert (m : SortedMap κ α) (k j : κ) (v : α) :
    (m.insert k v).get j = if j = k then some v else m.get j := by
  simp only [get, insert]
  induction m.entries with
  | nil => exact lookup_cons_eq_ite k j v []
  | cons e l ih =>
      obtain ⟨k', v'⟩ := e
      rw [insertEntry]
      by_cases hlt : k < k'
      · rw [if_pos hlt, lookup_cons_eq_ite]
      · rw [if_neg hlt]
        by_cases heq : k = k'
        · rw [if_pos heq, lookup_cons_eq_ite, lookup_cons_eq_ite, ← heq]
          split_ifs <;> rfl
        · rw [if_neg heq, lookup_cons_eq_ite, lookup_cons_eq_ite, ih]
          split_ifs with hk' hk
          · exact absurd (hk.symm.trans hk') heq
          all_goals rfl

/-- Set the value of `k` unless it has one. -/
def orInsert (m : SortedMap κ α) (k : κ) (v : α) : SortedMap κ α :=
  if (m.get k).isSome then m else m.insert k v

theorem get_orInsert (m : SortedMap κ α) (k j : κ) (v : α) :
    (m.orInsert k v).get j = (m.get j).or (if j = k then some v else none) := by
  rw [orInsert]
  by_cases hk : (m.get k).isSome
  · rw [if_pos hk]
    split_ifs with hj
    · obtain ⟨w, hw⟩ := Option.isSome_iff_exists.mp hk
      rw [hj, hw, Option.some_or]
    · rw [Option.or_none]
  · rw [if_neg hk, get_insert]
    split_ifs with hj
    · rw [hj, Option.not_isSome_iff_eq_none.mp hk, Option.none_or]
    · rw [Option.or_none]

/-- Remove the entry of `k`. -/
def erase (m : SortedMap κ α) (k : κ) : SortedMap κ α where
  entries := m.entries.filter fun e ↦ e.1 ≠ k
  sorted := m.sorted.sublist (List.filter_sublist.map _)

theorem get_erase (m : SortedMap κ α) (k j : κ) :
    (m.erase k).get j = if j = k then none else m.get j := by
  simp only [get, erase]
  induction m.entries with
  | nil => simp
  | cons e l ih =>
      obtain ⟨k', v'⟩ := e
      by_cases hk : k' = k
      · rw [List.filter_cons_of_neg (by simpa using hk), ih, lookup_cons_eq_ite]
        split_ifs <;> simp_all
      · rw [List.filter_cons_of_pos (by simpa using hk), lookup_cons_eq_ite, lookup_cons_eq_ite,
          ih]
        split_ifs <;> simp_all

theorem erase_of_get_eq_none {m : SortedMap κ α} {k : κ} (h : m.get k = none) :
    m.erase k = m := by
  refine ext_get fun j ↦ ?_
  rw [get_erase]
  split_ifs with hj
  · rw [hj, h]
  · rfl

@[simp] theorem erase_modify (m : SortedMap κ α) (k : κ) (f : α → α) :
    (m.modify k f).erase k = m.erase k := by
  refine ext_get fun j ↦ ?_
  rw [get_erase, get_erase, get_modify]
  split_ifs <;> rfl

@[simp] theorem erase_insert (m : SortedMap κ α) (k : κ) (v : α) :
    (m.insert k v).erase k = m.erase k := by
  refine ext_get fun j ↦ ?_
  rw [get_erase, get_erase, get_insert]
  split_ifs <;> rfl

/-- An entry, and the others. -/
theorem entries_perm {m : SortedMap κ α} {k : κ} {v : α} (h : m.get k = some v) :
    m.entries.Perm ((k, v) :: (m.erase k).entries) := by
  refine (List.perm_ext_iff_of_nodup m.nodup_keys.of_map
    (List.nodup_cons.mpr ⟨?_, (m.erase k).nodup_keys.of_map⟩)).mpr ?_
  · simp [erase]
  · rintro ⟨j, w⟩
    rw [List.mem_cons, ← get_eq_some_iff, ← get_eq_some_iff, get_erase, Prod.mk.injEq]
    by_cases hj : j = k
    · subst hj
      simp [h, eq_comm]
    · simp [hj]

/-! ## The first key -/

@[simp] theorem get_empty (k : κ) : (empty : SortedMap κ α).get k = none := rfl

/-- The first key is the least. -/
theorem isLeast_of_head? {m : SortedMap κ α} {k : κ} (h : m.keys.head? = some k) :
    IsLeast {j | (m.get j).isSome} k := by
  obtain ⟨ks, hks⟩ := List.head?_eq_some_iff.mp h
  have hsorted : m.keys.Pairwise (· < ·) := m.sorted
  rw [hks, List.pairwise_cons] at hsorted
  constructor
  · exact isSome_get_iff.mpr (hks ▸ List.mem_cons_self)
  · intro j hj
    rcases List.mem_cons.mp (hks ▸ isSome_get_iff.mp hj) with rfl | hj
    · exact le_rfl
    · exact (hsorted.1 j hj).le

theorem get_of_head?_eq_none {m : SortedMap κ α} (h : m.keys.head? = none) (k : κ) :
    m.get k = none := by
  rw [← Option.not_isSome_iff_eq_none, isSome_get_iff, List.head?_eq_none_iff.mp h]
  exact List.not_mem_nil

/-! ## Loops over the entries of another map -/

/-- A loop of updates, one for each entry. -/
theorem get_foldl_modify {β : Type*} (f : β → α → α) (es : SortedMap κ β) (m : SortedMap κ α)
    (j : κ) :
    (es.entries.foldl (fun m e ↦ m.modify e.1 (f e.2)) m).get j =
      match es.get j with
      | none => m.get j
      | some b => (m.get j).map (f b) := by
  obtain ⟨l, hl⟩ := es
  simp only [get]
  induction l generalizing m with
  | nil => rfl
  | cons e l ih =>
      obtain ⟨k, b⟩ := e
      rw [List.map_cons, List.pairwise_cons] at hl
      rw [List.foldl_cons, ih _ hl.2, lookup_cons_eq_ite]
      simp only [← get.eq_1, get_modify]
      split_ifs with hj
      · have hnone : l.lookup j = none := by
          rw [← Option.not_isSome_iff_eq_none, List.lookup_isSome_iff]
          rintro ⟨e, he, hke⟩
          exact (hl.1 e.1 (List.mem_map_of_mem he)).ne (hj.symm.trans (eq_of_beq hke))
        rw [hnone]
      · rfl

/-- A loop that makes sure of each key. -/
theorem get_foldl_orInsert (v : α) (ks : List κ) (m : SortedMap κ α) (j : κ) :
    (ks.foldl (fun m k ↦ m.orInsert k v) m).get j =
      (m.get j).or (if j ∈ ks then some v else none) := by
  induction ks generalizing m with
  | nil => simp
  | cons k ks ih =>
      rw [List.foldl_cons, ih, get_orInsert, Option.or_assoc]
      congr 1
      by_cases hj : j = k <;> simp [hj]

/-- A loop that sets each key. -/
theorem get_foldl_insert (v : α) (ks : List κ) (m : SortedMap κ α) (j : κ) :
    (ks.foldl (fun m k ↦ m.insert k v) m).get j = if j ∈ ks then some v else m.get j := by
  induction ks generalizing m with
  | nil => simp
  | cons k ks ih =>
      rw [List.foldl_cons, ih, get_insert]
      by_cases hj : j = k <;> simp [hj]

/-! ## Maps from lists -/

/-- The map of some entries; of those with one key the last one stays. -/
def ofList (l : List (κ × α)) : SortedMap κ α := l.foldl (fun m e ↦ m.insert e.1 e.2) empty

theorem get_foldl_insertEntries (l : List (κ × α)) (m : SortedMap κ α) (k : κ) :
    (l.foldl (fun m e ↦ m.insert e.1 e.2) m).get k = (l.reverse.lookup k).or (m.get k) := by
  induction l generalizing m with
  | nil => rfl
  | cons e l ih =>
      rw [List.foldl_cons, ih, get_insert, List.reverse_cons, List.lookup_append,
        Option.or_assoc, lookup_cons_eq_ite]
      congr 1
      split_ifs <;> rfl

theorem get_ofList (l : List (κ × α)) (k : κ) : (ofList l).get k = l.reverse.lookup k := by
  rw [ofList, get_foldl_insertEntries, get_empty, Option.or_none]

theorem mem_keys_ofList {l : List (κ × α)} {k : κ} :
    k ∈ (ofList l).keys ↔ k ∈ l.map Prod.fst := by
  rw [← isSome_get_iff, get_ofList, List.lookup_isSome_iff, List.mem_map]
  simp only [List.mem_reverse, beq_iff_eq, @eq_comm _ k]

/-- Each entry of the map is one of the list. -/
theorem mem_of_get_ofList {l : List (κ × α)} {k : κ} {v : α} (h : (ofList l).get k = some v) :
    (k, v) ∈ l := by
  rw [get_ofList, List.lookup_eq_some_iff] at h
  obtain ⟨before, after, hl, -⟩ := h
  rw [← List.mem_reverse, hl]
  exact List.mem_append_right _ List.mem_cons_self

/-- Nothing of the list is lost exactly when it has no key twice. -/
theorem length_ofList_iff {l : List (κ × α)} :
    (ofList l).entries.length = l.length ↔ (l.map Prod.fst).Nodup := by
  have hperm : (ofList l).keys.Perm (l.map Prod.fst).dedup :=
    (List.perm_ext_iff_of_nodup (nodup_keys _) (List.nodup_dedup _)).mpr fun k ↦
      mem_keys_ofList.trans List.mem_dedup.symm
  have hlength : (ofList l).entries.length = (l.map Prod.fst).dedup.length := by
    rw [← hperm.length_eq, keys, List.length_map]
  rw [hlength, ← List.length_map Prod.fst]
  constructor
  · exact fun h ↦ List.dedup_eq_self.mp ((List.dedup_sublist _).eq_of_length h)
  · exact fun h ↦ congrArg List.length (List.dedup_eq_self.mpr h)

/-- A list without a key twice is the map. -/
theorem get_ofList_of_mem {l : List (κ × α)} (hl : (l.map Prod.fst).Nodup) {k : κ} {v : α}
    (h : (k, v) ∈ l) : (ofList l).get k = some v := by
  have hmem : k ∈ (ofList l).keys := mem_keys_ofList.mpr (List.mem_map_of_mem h)
  obtain ⟨w, hw⟩ := Option.isSome_iff_exists.mp (isSome_get_iff.mpr hmem)
  have heq : (k, v) = (k, w) := List.inj_on_of_nodup_map hl h (mem_of_get_ofList hw) rfl
  rw [hw, (Prod.mk.inj heq).2]

theorem insertEntry_of_lt {k : κ} {v : α} {l : List (κ × α)}
    (h : ∀ j ∈ l.map Prod.fst, j < k) : insertEntry k v l = l ++ [(k, v)] := by
  induction l with
  | nil => rfl
  | cons e l ih =>
      rw [List.map_cons, List.forall_mem_cons] at h
      rw [insertEntry, if_neg h.1.not_gt, if_neg h.1.ne', ih h.2, List.cons_append]

theorem entries_foldl_insert (l : List (κ × α)) (m : SortedMap κ α)
    (h : ((m.entries ++ l).map Prod.fst).Pairwise (· < ·)) :
    (l.foldl (fun m e ↦ m.insert e.1 e.2) m).entries = m.entries ++ l := by
  induction l generalizing m with
  | nil => exact (List.append_nil _).symm
  | cons e l ih =>
      have hlt : ∀ j ∈ m.entries.map Prod.fst, j < e.1 := by
        rw [List.map_append, List.pairwise_append] at h
        exact fun j hj ↦ h.2.2 j hj e.1 List.mem_cons_self
      have hinsert : (m.insert e.1 e.2).entries = m.entries ++ [e] := insertEntry_of_lt hlt
      rw [List.append_cons, ← hinsert] at h
      rw [List.foldl_cons, ih _ h, hinsert, ← List.append_cons]

/-- The entries of a map make the map. -/
theorem ofList_entries (m : SortedMap κ α) : ofList m.entries = m :=
  SortedMap.ext (entries_foldl_insert m.entries empty m.sorted)

end SortedMap

/-- A set with its members in increasing order. -/
abbrev SortedSet (κ : Type*) [LinearOrder κ] := SortedMap κ Unit

end CeGke.Lib
