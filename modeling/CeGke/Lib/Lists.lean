import Mathlib.Data.List.DropRight
import Mathlib.Data.List.Perm.Subperm
import Mathlib.Data.List.Nodup
import Mathlib.Order.Basic

/-!
# Counting in lists with keys

General facts about a list whose entries carry a key, about removing entries by
their keys, about a list sorted so that the entries with some flag come first, and about
a list stripped at its ends.
-/

namespace CeGke.Lib

variable {α κ : Type*}

/-! ## Removing by key -/

section Keys

variable [DecidableEq κ] (key : α → κ)

/-- The entries whose key is not in `ks`. -/
def without (ks : List κ) (l : List α) : List α := l.filter fun x ↦ key x ∉ ks

variable {key}

theorem mem_without {ks : List κ} {l : List α} {x : α} :
    x ∈ without key ks l ↔ x ∈ l ∧ key x ∉ ks := by
  simp [without]

theorem without_sublist (ks : List κ) (l : List α) : (without key ks l).Sublist l :=
  List.filter_sublist

theorem without_nil (l : List α) : without key [] l = l := by
  simp [without]

theorem without_without (ks js : List κ) (l : List α) :
    without key ks (without key js l) = without key (js ++ ks) l := by
  simp only [without, List.filter_filter]
  apply List.filter_congr
  intro x _
  simp [not_or, and_comm]

/-- Removing keys that do not occur changes nothing. -/
theorem without_eq_self {ks : List κ} {l : List α} (h : ∀ x ∈ l, key x ∉ ks) :
    without key ks l = l := List.filter_eq_self.mpr (by simpa using h)

theorem nodup_without {ks : List κ} {l : List α} (h : (l.map key).Nodup) :
    ((without key ks l).map key).Nodup := h.sublist ((without_sublist ks l).map key)

/-- Removing more keys leaves less. -/
theorem countP_without_anti {ks js : List κ} (h : ks ⊆ js) (p : α → Bool) (l : List α) :
    (without key js l).countP p ≤ (without key ks l).countP p := by
  refine List.Sublist.countP_le ?_
  exact List.monotone_filter_right l fun x hx ↦ by
    simp only [decide_eq_true_eq] at hx ⊢
    exact fun hk ↦ hx (h hk)

/-- With distinct keys, the entries picked out by the keys of some of them are
just those. -/
theorem filter_key_perm {l v : List α} (hl : (l.map key).Nodup) (hv : v.Nodup) (hvl : v ⊆ l) :
    (l.filter fun x ↦ key x ∈ v.map key).Perm v := by
  apply (List.perm_ext_iff_of_nodup (hl.of_map.filter _) hv).mpr
  intro x
  rw [List.mem_filter, decide_eq_true_eq, List.mem_map]
  constructor
  · rintro ⟨hx, y, hy, hxy⟩
    exact List.inj_on_of_nodup_map hl (hvl hy) hx hxy ▸ hy
  · exact fun hx ↦ ⟨hvl hx, x, hx, rfl⟩

/-- What is removed and what is left add up, class by class. -/
theorem countP_without_add {l v : List α} (hl : (l.map key).Nodup) (hv : v.Nodup)
    (hvl : v ⊆ l) (p : α → Bool) :
    (without key (v.map key) l).countP p + v.countP p = l.countP p := by
  rw [← (filter_key_perm hl hv hvl).countP_eq p, Nat.add_comm]
  have hsplit := List.filter_append_perm (fun x ↦ decide (key x ∈ v.map key)) l
  rw [← hsplit.countP_eq p, List.countP_append]
  simp only [without, decide_not]

/-- With distinct keys, removing by `ks` removes at most one entry a key. -/
theorem countP_le_without_add_length {l : List α} (hl : (l.map key).Nodup) (ks : List κ)
    (p : α → Bool) : l.countP p ≤ (without key ks l).countP p + ks.length := by
  have hsplit := List.filter_append_perm (fun x ↦ decide (key x ∈ ks)) l
  have hremoved : (l.filter fun x ↦ key x ∈ ks).length ≤ ks.length := by
    rw [← List.length_map (f := key)]
    refine List.Subperm.length_le (List.Nodup.subperm (hl.sublist (List.filter_sublist.map key)) ?_)
    intro k hk
    obtain ⟨x, hx, rfl⟩ := List.mem_map.mp hk
    simpa using (List.mem_filter.mp hx).2
  rw [← hsplit.countP_eq p, List.countP_append, Nat.add_comm]
  simp only [without, decide_not]
  exact Nat.add_le_add (Nat.le_refl _) (Nat.le_trans List.countP_le_length hremoved)

/-- What comes before the first occurrence of a key. -/
theorem takeWhile_ne_append {k : κ} {before after : List κ} (h : k ∉ before) :
    (before ++ k :: after).takeWhile (· ≠ k) = before := by
  induction before with
  | nil => simp
  | cons a before ih =>
      rw [List.mem_cons, not_or] at h
      rw [List.cons_append, List.takeWhile_cons_of_pos (by simpa using Ne.symm h.1), ih h.2]

end Keys

/-! ## The end of a list -/

/-- In a list whose flagged entries come first, a prefix takes flagged entries as
long as there are any. -/
theorem countP_take_of_flag_first {q : α → Bool} {l : List α}
    (h : l.Pairwise fun a b ↦ q b → q a) (n : ℕ) :
    (l.take n).countP q = min n (l.countP q) := by
  induction l generalizing n with
  | nil => simp
  | cons a l ih =>
      rw [List.pairwise_cons] at h
      cases n with
      | zero => simp
      | succ n =>
          rw [List.take_succ_cons, List.countP_cons, List.countP_cons, ih h.2]
          by_cases ha : q a
          · simp only [ha, if_true]
            omega
          · have hl : l.countP q = 0 := List.countP_eq_zero.mpr fun b hb hq ↦
              ha (h.1 b hb hq)
            simp [ha, hl]

/-- What a prefix of a sorted list takes comes before what it leaves. -/
theorem rel_of_mem_take {r : α → α → Prop} {l : List α} (h : l.Pairwise r) {n : ℕ} {a b : α}
    (ha : a ∈ l.take n) (hb : b ∈ l) (hb' : b ∉ l.take n) : r a b := by
  rw [← List.take_append_drop n l] at h hb
  rcases List.mem_append.mp hb with hb | hb
  · exact absurd hb hb'
  · exact (List.pairwise_append.mp h).2.2 a ha b hb

theorem lookup_append_cons {α β : Type*} [BEq α] [LawfulBEq α] {l m : List (α × β)} {a : α}
    {b : β} (ha : a ∉ l.map Prod.fst) : (l ++ (a, b) :: m).lookup a = some b := by
  refine List.lookup_eq_some_iff.mpr ⟨l, m, rfl, fun p hp ↦ ?_⟩
  rw [bne_iff_ne]
  rintro rfl
  exact ha (List.mem_map_of_mem hp)

section Positions

variable {r : α → α → Prop} [DecidableRel r] {l : List α}

/-- In a strictly sorted list an entry stands behind as many as come before it. -/
theorem countP_rel_of_getElem? (hasymm : ∀ a b, r a b → ¬ r b a) (h : l.Pairwise r) {i : ℕ}
    {x : α} (hx : l[i]? = some x) : l.countP (r · x) = i := by
  induction l generalizing i with
  | nil => exact absurd hx (by simp)
  | cons a l ih =>
      rw [List.pairwise_cons] at h
      cases i with
      | zero =>
          obtain rfl := Option.some.inj hx
          apply List.countP_eq_zero.mpr
          intro b hb hba
          rcases List.mem_cons.mp hb with rfl | hb
          · exact hasymm b b (of_decide_eq_true hba) (of_decide_eq_true hba)
          · exact hasymm a b (h.1 b hb) (of_decide_eq_true hba)
      | succ i =>
          rw [List.getElem?_cons_succ] at hx
          have hax : r a x := h.1 x (List.mem_of_getElem? hx)
          rw [List.countP_cons, ih h.2 hx, if_pos (decide_eq_true hax)]

theorem getElem?_countP_rel (hasymm : ∀ a b, r a b → ¬ r b a) (h : l.Pairwise r) {x : α}
    (hx : x ∈ l) : l[l.countP (r · x)]? = some x := by
  obtain ⟨i, hi⟩ := List.mem_iff_getElem?.mp hx
  rw [countP_rel_of_getElem? hasymm h hi]
  exact hi

end Positions

/-! ## Stripping -/

/-- A list without what satisfies `p` at its ends. -/
def strip (p : α → Bool) (l : List α) : List α := (l.dropWhile p).rdropWhile p

section Strip

variable {p : α → Bool} {l : List α}

/-- What is stripped off stands at the ends and satisfies `p`. -/
theorem exists_append_strip (p : α → Bool) (l : List α) :
    ∃ before after, l = before ++ strip p l ++ after ∧ (∀ a ∈ before, p a) ∧ ∀ a ∈ after, p a := by
  refine ⟨l.takeWhile p, (l.dropWhile p).rtakeWhile p, ?_, ?_, ?_⟩
  · rw [strip, List.append_assoc, List.rdropWhile_append_rtakeWhile,
      List.takeWhile_append_dropWhile]
  · exact fun a ↦ List.mem_takeWhile_imp
  · exact fun a ↦ List.mem_rtakeWhile_imp

/-- What does not satisfy `p` is left. -/
theorem mem_strip {a : α} (h : a ∈ l) (ha : ¬ p a) : a ∈ strip p l := by
  obtain ⟨before, after, hl, hbefore, hafter⟩ := exists_append_strip p l
  rw [hl, List.mem_append, List.mem_append] at h
  rcases h with (h | h) | h
  · exact absurd (hbefore a h) ha
  · exact h
  · exact absurd (hafter a h) ha

theorem dropWhile_eq_self_of_forall (h : ∀ a ∈ l, ¬ p a) : l.dropWhile p = l :=
  List.dropWhile_eq_self_iff.mpr fun hpos ↦ h _ (List.getElem_mem hpos)

/-- Stripping a list of what has been put around it. -/
theorem strip_append {before after : List α} (hbefore : ∀ a ∈ before, p a)
    (hafter : ∀ a ∈ after, p a) (hl : ∀ a ∈ l, ¬ p a) : strip p (before ++ l ++ after) = l := by
  have hreverse : ∀ a ∈ after.reverse, p a := fun a ha ↦ hafter a (List.mem_reverse.mp ha)
  have hlreverse : ∀ a ∈ l.reverse, ¬ p a := fun a ha ↦ hl a (List.mem_reverse.mp ha)
  rw [strip, List.append_assoc, List.dropWhile_append_of_pos hbefore, List.dropWhile_append,
    dropWhile_eq_self_of_forall hl]
  split_ifs with hnil
  · rw [List.dropWhile_eq_nil_iff.mpr hafter, List.rdropWhile_nil, List.isEmpty_iff.mp hnil]
  · rw [List.rdropWhile, List.reverse_append, List.dropWhile_append_of_pos hreverse,
      dropWhile_eq_self_of_forall hlreverse, List.reverse_reverse]

theorem strip_eq_self (h : ∀ a ∈ l, ¬ p a) : strip p l = l := by
  have hstrip : strip p ([] ++ l ++ []) = l :=
    strip_append (fun a ha ↦ absurd ha List.not_mem_nil) (fun a ha ↦ absurd ha List.not_mem_nil) h
  rwa [List.nil_append, List.append_nil] at hstrip

end Strip

end CeGke.Lib
