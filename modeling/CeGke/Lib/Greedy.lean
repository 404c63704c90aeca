import Mathlib.Algebra.BigOperators.Group.Finset.Basic
import Mathlib.Algebra.Order.BigOperators.Group.Finset
import Mathlib.Data.Finset.Card
import Mathlib.Order.Monotone.Basic

/-!
# Greedy choice

Each source makes a sequence of offers that only get worse, and a greedy choice takes the
best of the next offers, again and again.  What it has taken is then never worse than what
is left (`BestTaken.take`), so that it has taken the best offers of all
(`BestTaken.lt_taken_iff`).
-/

namespace CeGke.Lib

variable {ι β : Type*}

section Preorder

variable [Preorder β] {offer : ι → ℕ → β} {s : Set ι} {taken : ι → ℕ}

/-- With `taken a` offers taken of each source `a`, none of them is worse than one that is
left. -/
def BestTaken (offer : ι → ℕ → β) (s : Set ι) (taken : ι → ℕ) : Prop :=
  ∀ a ∈ s, ∀ b ∈ s, ∀ i < taken b, ∀ j, taken a ≤ j → offer b i ≤ offer a j

theorem BestTaken.zero : BestTaken offer s fun _ ↦ 0 :=
  fun _ _ _ _ _ hi ↦ absurd hi (Nat.not_lt_zero _)

/-- Taking a best next offer keeps the best taken. -/
theorem BestTaken.take {taken' : ι → ℕ} (h : BestTaken offer s taken)
    (hmono : ∀ a ∈ s, Monotone (offer a)) {b : ι}
    (hbest : ∀ a ∈ s, offer b (taken b) ≤ offer a (taken a)) (hb : taken' b = taken b + 1)
    (hother : ∀ a ∈ s, a ≠ b → taken' a = taken a) : BestTaken offer s taken' := by
  have hle : ∀ a ∈ s, taken a ≤ taken' a := by
    intro a ha
    by_cases hab : a = b
    · rw [hab, hb]
      exact Nat.le_succ _
    · exact (hother a ha hab).ge
  intro x hx y hy i hi j hj
  have hxj : taken x ≤ j := (hle x hx).trans hj
  by_cases hi' : i < taken y
  · exact h x hx y hy i hi' j hxj
  · -- The one offer that is new was the best.
    have hyb : y = b := by
      by_contra hne
      rw [hother y hy hne] at hi
      exact hi' hi
    subst hyb
    rw [hb] at hi
    obtain rfl : i = taken y := le_antisymm (Nat.le_of_lt_succ hi) (not_lt.mp hi')
    exact (hbest x hx).trans (hmono x hx hxj)

end Preorder

/-! ## The best offers of all -/

section LinearOrder

variable [LinearOrder β]

/-- How many of the first `n` offers of each source come before `x`. -/
def offersBefore (offer : ι → ℕ → β) (s : Finset ι) (n : ℕ) (x : β) : ℕ :=
  ((s.sigma fun _ ↦ Finset.range n).filter fun y ↦ offer y.1 y.2 < x).card

/-- **A greedy choice of `n` offers takes those that fewer than `n` offers come before.** -/
theorem BestTaken.lt_taken_iff {offer : ι → ℕ → β} {s : Finset ι} {taken : ι → ℕ}
    (h : BestTaken offer s taken)
    (hinj : ∀ a ∈ s, ∀ b ∈ s, ∀ i j, offer a i = offer b j → a = b ∧ i = j)
    {a : ι} (ha : a ∈ s) {i : ℕ} :
    i < taken a ↔ offersBefore offer s (∑ b ∈ s, taken b) (offer a i) < ∑ b ∈ s, taken b := by
  set n := ∑ b ∈ s, taken b with hn
  have hle : ∀ b ∈ s, taken b ≤ n := fun b hb ↦
    Finset.single_le_sum (fun _ _ ↦ Nat.zero_le _) hb
  have hcard : (s.sigma fun b ↦ Finset.range (taken b)).card = n := by
    rw [Finset.card_sigma]
    simp only [Finset.card_range, hn]
  rw [offersBefore]
  constructor
  · intro hi
    refine (Finset.card_lt_card
      ((Finset.ssubset_iff_of_subset ?_).mpr ⟨⟨a, i⟩, ?_, ?_⟩)).trans_eq hcard
    · rintro ⟨b, j⟩ hbj
      simp only [Finset.mem_filter, Finset.mem_sigma, Finset.mem_range] at hbj ⊢
      refine ⟨hbj.1.1, lt_of_not_ge fun hj ↦ ?_⟩
      exact absurd (h b hbj.1.1 a ha i hi j hj) (not_le.mpr hbj.2)
    · exact Finset.mem_sigma.mpr ⟨ha, Finset.mem_range.mpr hi⟩
    · exact fun hmem ↦ lt_irrefl _ (Finset.mem_filter.mp hmem).2
  · contrapose!
    intro hi
    refine hcard.symm.trans_le (Finset.card_le_card ?_)
    rintro ⟨b, j⟩ hbj
    simp only [Finset.mem_filter, Finset.mem_sigma, Finset.mem_range] at hbj ⊢
    refine ⟨⟨hbj.1, hbj.2.trans_le (hle b hbj.1)⟩, ?_⟩
    refine lt_of_le_of_ne (h a ha b hbj.1 j hbj.2 i hi) fun heq ↦ ?_
    obtain ⟨rfl, rfl⟩ := hinj b hbj.1 a ha j i heq
    exact absurd hbj.2 (not_lt.mpr hi)

end LinearOrder

end CeGke.Lib
