import Mathlib.Data.Set.Finite.Basic
import Mathlib.Data.Set.Finite.List
import Mathlib.Data.List.Lex
import Mathlib.Data.List.Sort
import Mathlib.Logic.Relation
import Mathlib.Order.Bounds.Defs
import Mathlib.Order.WellFounded

/-!
# Smallest-first topological orders

A dependency graph over ordered nodes, and the orders in which the next element is
always the least of the nodes all of whose dependencies are there (`LeastFirst`).  Such an
order cannot be continued exactly when what is missing is on a cycle or behind one
(`LeastFirst.mem_iff`), and where a node stands in it can be read off the graph: the
`peaks` of a node are the greatest node it depends on, the greatest node above that one
that it depends on, and so on up to itself, and of two nodes the one with the smaller
peaks comes first (`LeastFirst.precedes_iff`).
-/

namespace CeGke.Lib

open Relation

variable {α : Type*}

/-! ## Positions -/

/-- `b` stands before an occurrence of `a`. -/
def Precedes (order : List α) (b a : α) : Prop :=
  ∃ before after, order = before ++ a :: after ∧ b ∈ before

namespace Precedes

variable {order before after : List α} {a b : α}

theorem mem_left (h : Precedes order b a) : b ∈ order := by
  obtain ⟨l, r, rfl, hb⟩ := h
  exact List.mem_append_left _ hb

theorem of_notMem (hb : b ∈ before) (ha : a ∉ before) (hmem : a ∈ before ++ after) :
    Precedes (before ++ after) b a := by
  obtain ⟨l, r, rfl⟩ := List.append_of_mem ((List.mem_append.mp hmem).resolve_left ha)
  exact ⟨before ++ l, r, (List.append_assoc _ _ _).symm, List.mem_append_left _ hb⟩

theorem append_right (h : Precedes order b a) (after : List α) :
    Precedes (order ++ after) b a := by
  obtain ⟨l, r, rfl, hb⟩ := h
  exact ⟨l, r ++ after, by simp, hb⟩

/-- In an order without repetitions, no two elements stand before each other. -/
theorem asymm (hnodup : order.Nodup) (hba : Precedes order b a) : ¬ Precedes order a b := by
  rintro ⟨l, r, heq, ha⟩
  obtain ⟨l', r', rfl, hb⟩ := hba
  obtain ⟨m, n, rfl⟩ := List.append_of_mem hb
  have hnotMem : a ∉ m ++ b :: n := by
    intro h
    exact (List.nodup_append.mp hnodup).2.2 a h a List.mem_cons_self rfl
  rw [List.append_assoc, List.cons_append] at heq hnodup
  have hbr : b ∉ n ++ a :: r' :=
    (List.nodup_cons.mp (List.nodup_append.mp hnodup).2.1).1
  have hbm : b ∉ m := fun h ↦
    (List.nodup_append.mp hnodup).2.2 b h b List.mem_cons_self rfl
  have hml : m = l := ((List.append_cons_inj_of_notMem hbm hbr).mp heq).1
  exact hnotMem (List.mem_append_left _ (hml ▸ ha))

end Precedes

/-! ## Graphs and their orders -/

/-- A finite graph: `dep x y` says that `x` depends on `y`. -/
structure DepGraph (α : Type*) where
  nodes : List α
  dep : α → α → Prop
  left_mem : ∀ {x y}, dep x y → x ∈ nodes
  right_mem : ∀ {x y}, dep x y → y ∈ nodes

namespace DepGraph

variable (g : DepGraph α)

/-- No node depends on itself, directly or not. -/
def Acyclic : Prop := ∀ x, ¬ TransGen g.dep x x

/-- `x` is on a cycle or depends on a node that is. -/
def Behind (x : α) : Prop := ∃ y, ReflTransGen g.dep x y ∧ TransGen g.dep y y

/-- `x` can come next: it is not in the order yet and all its dependencies are. -/
structure Ready (order : List α) (x : α) : Prop where
  mem : x ∈ g.nodes
  notMem : x ∉ order
  deps : ∀ y, g.dep x y → y ∈ order

variable {g} {order : List α} {x y : α}

theorem Behind.of_dep (h : g.Behind y) (hxy : g.dep x y) : g.Behind x := by
  obtain ⟨z, hyz, hz⟩ := h
  exact ⟨z, ReflTransGen.head hxy hyz, hz⟩

theorem Acyclic.not_behind (h : g.Acyclic) (x : α) : ¬ g.Behind x := by
  rintro ⟨y, _, hy⟩
  exact h y hy

theorem acyclic_iff_not_behind : g.Acyclic ↔ ∀ x ∈ g.nodes, ¬ g.Behind x := by
  constructor
  · exact fun h x _ ↦ h.not_behind x
  · intro h x hx
    obtain ⟨y, hxy, _⟩ := TransGen.head'_iff.mp hx
    exact h x (g.left_mem hxy) ⟨x, .refl, hx⟩

theorem mem_of_reflTransGen (h : ReflTransGen g.dep x y) (hx : x ∈ g.nodes) : y ∈ g.nodes := by
  rcases ReflTransGen.cases_tail h with rfl | ⟨z, _, hzy⟩
  · exact hx
  · exact g.right_mem hzy

/-- Away from the cycles, dependencies come to an end. -/
theorem wellFounded_dep (g : DepGraph α) :
    WellFounded fun y x : { x // x ∈ g.nodes ∧ ¬ g.Behind x } ↦ TransGen g.dep x.1 y.1 := by
  have : Finite { x // x ∈ g.nodes ∧ ¬ g.Behind x } :=
    Set.Finite.subset (List.finite_toSet g.nodes) fun x hx ↦ hx.1
  have : IsTrans { x // x ∈ g.nodes ∧ ¬ g.Behind x } fun y x ↦ TransGen g.dep x.1 y.1 :=
    ⟨fun a b c hba hcb ↦ hcb.trans hba⟩
  have : Std.Irrefl fun y x : { x // x ∈ g.nodes ∧ ¬ g.Behind x } ↦ TransGen g.dep x.1 y.1 :=
    ⟨fun x hx ↦ x.2.2 ⟨x.1, .refl, hx⟩⟩
  exact Finite.wellFounded_of_trans_of_irrefl _

/-- A node that is missing, and not because of a cycle, depends on one that can come next. -/
theorem exists_ready (hx : x ∈ g.nodes) (hbehind : ¬ g.Behind x) (hmissing : x ∉ order) :
    ∃ y, ReflTransGen g.dep x y ∧ g.Ready order y := by
  have hgoal : ∀ z : { x // x ∈ g.nodes ∧ ¬ g.Behind x }, z.1 ∉ order →
      ∃ y, ReflTransGen g.dep z.1 y ∧ g.Ready order y := by
    intro z
    induction z using g.wellFounded_dep.induction with
    | _ z ih =>
      intro hz
      by_cases hall : ∀ y, g.dep z.1 y → y ∈ order
      · exact ⟨z.1, .refl, z.2.1, hz, hall⟩
      · push Not at hall
        obtain ⟨y, hzy, hy⟩ := hall
        have hyz : ¬ g.Behind y := fun h ↦ z.2.2 (h.of_dep hzy)
        obtain ⟨w, hyw, hw⟩ := ih ⟨y, g.right_mem hzy, hyz⟩ (TransGen.single hzy) hy
        exact ⟨w, ReflTransGen.head hzy hyw, hw⟩
  exact hgoal ⟨x, hx, hbehind⟩ hmissing

/-! ## Climbing -/

/-- Keep of the list the first element that satisfies `p`, then the first one after it that
depends on it and is a dependency of `x` or `x`, and so on. -/
noncomputable def climb (g : DepGraph α) (x : α) : (α → Prop) → List α → List α
  | _, [] => []
  | p, y :: ys =>
      open Classical in
      if p y then y :: climb g x (fun z ↦ ReflTransGen g.dep x z ∧ TransGen g.dep z y) ys
      else climb g x p ys

section Climb

variable {p : α → Prop} {ys : List α}

theorem climb_cons_of_pos (hy : p y) : g.climb x p (y :: ys) =
    y :: g.climb x (fun z ↦ ReflTransGen g.dep x z ∧ TransGen g.dep z y) ys := by
  rw [climb, if_pos hy]

theorem climb_cons_of_neg (hy : ¬ p y) : g.climb x p (y :: ys) = g.climb x p ys := by
  rw [climb, if_neg hy]

/-- What is kept first satisfies `p`. -/
theorem of_climb_eq_cons {c : α} {cs : List α} (h : g.climb x p ys = c :: cs) :
    p c ∧ c ∈ ys := by
  induction ys with
  | nil => exact absurd h (by simp [climb])
  | cons y ys ih =>
      by_cases hy : p y
      · rw [climb_cons_of_pos hy] at h
        obtain rfl := (List.cons.inj h).1
        exact ⟨hy, List.mem_cons_self⟩
      · rw [climb_cons_of_neg hy] at h
        obtain ⟨hc, hmem⟩ := ih h
        exact ⟨hc, List.mem_cons_of_mem _ hmem⟩

theorem reflTransGen_of_mem_climb (hp : ∀ z, p z → ReflTransGen g.dep x z)
    (hy : y ∈ g.climb x p ys) : ReflTransGen g.dep x y := by
  induction ys generalizing p with
  | nil => exact absurd hy (by simp [climb])
  | cons z ys ih =>
      by_cases hz : p z
      · rw [climb_cons_of_pos hz] at hy
        rcases List.mem_cons.mp hy with rfl | hy
        · exact hp _ hz
        · exact ih (fun w hw ↦ hw.1) hy
      · rw [climb_cons_of_neg hz] at hy
        exact ih hp hy

/-- The climb ends at `x`. -/
theorem self_mem_climb (hp : ∀ z, p z → ReflTransGen g.dep x z) (hx : p x) (hmem : x ∈ ys) :
    x ∈ g.climb x p ys := by
  induction ys generalizing p with
  | nil => exact absurd hmem List.not_mem_nil
  | cons y ys ih =>
      by_cases hy : p y
      · rw [climb_cons_of_pos hy]
        rcases reflTransGen_iff_eq_or_transGen.mp (hp y hy) with rfl | hxy
        · exact List.mem_cons_self
        · rcases List.mem_cons.mp hmem with rfl | hmem
          · exact List.mem_cons_self
          · exact List.mem_cons_of_mem _ (ih (fun w hw ↦ hw.1) ⟨.refl, hxy⟩ hmem)
      · rw [climb_cons_of_neg hy]
        rcases List.mem_cons.mp hmem with rfl | hmem
        · exact absurd hx hy
        · exact ih hp hx hmem

end Climb

/-! ## Smallest first -/

variable [LinearOrder α]

/-- An order in which each element is the least of those that could come next. -/
inductive LeastFirst (g : DepGraph α) : List α → Prop
  | nil : LeastFirst g []
  | snoc {order : List α} {x : α} : LeastFirst g order → IsLeast {y | g.Ready order y} x →
      LeastFirst g (order ++ [x])

namespace LeastFirst

theorem subset_nodes (h : g.LeastFirst order) : order ⊆ g.nodes := by
  induction h with
  | nil => exact List.nil_subset _
  | snoc _ hx ih =>
      exact List.append_subset.mpr ⟨ih, List.cons_subset.mpr ⟨hx.1.mem, List.nil_subset _⟩⟩

theorem nodup (h : g.LeastFirst order) : order.Nodup := by
  induction h with
  | nil => exact List.nodup_nil
  | snoc _ hx ih =>
      refine List.nodup_append.mpr ⟨ih, List.nodup_singleton _, ?_⟩
      rintro a ha b hb rfl
      exact hx.1.notMem (List.mem_singleton.mp hb ▸ ha)

/-- The order only depends on which nodes and edges there are. -/
theorem congr {g' : DepGraph α} (hnodes : ∀ x, x ∈ g.nodes ↔ x ∈ g'.nodes)
    (hdep : ∀ x y, g.dep x y ↔ g'.dep x y) (h : g.LeastFirst order) : g'.LeastFirst order := by
  have hready : ∀ (order : List α) (y : α), g.Ready order y ↔ g'.Ready order y := by
    intro order y
    constructor
    · exact fun h ↦ ⟨(hnodes y).mp h.mem, h.notMem, fun z hz ↦ h.deps z ((hdep y z).mpr hz)⟩
    · exact fun h ↦ ⟨(hnodes y).mpr h.mem, h.notMem, fun z hz ↦ h.deps z ((hdep y z).mp hz)⟩
  induction h with
  | nil => exact .nil
  | @snoc order x _ hx ih =>
      have hset : {y | g.Ready order y} = {y | g'.Ready order y} := Set.ext (hready order)
      exact .snoc ih (hset ▸ hx)

/-- A dependency stands before what depends on it. -/
theorem precedes_of_dep (h : g.LeastFirst order) (hx : x ∈ order) (hxy : g.dep x y) :
    Precedes order y x := by
  induction h with
  | nil => exact absurd hx List.not_mem_nil
  | @snoc order z _ hz ih =>
      rcases List.mem_append.mp hx with hx | hx
      · exact (ih hx).append_right _
      · obtain rfl := List.mem_singleton.mp hx
        exact ⟨order, [], rfl, hz.1.deps y hxy⟩

theorem mem_of_transGen (h : g.LeastFirst order) (hx : x ∈ order) (hxy : TransGen g.dep x y) :
    y ∈ order := by
  induction hxy with
  | single hxy => exact (h.precedes_of_dep hx hxy).mem_left
  | tail _ hyz ih => exact (h.precedes_of_dep ih hyz).mem_left

/-- Every prefix is an order of the same kind, and each element was least in its turn. -/
theorem of_append {before after : List α} (h : g.LeastFirst (before ++ x :: after)) :
    g.LeastFirst before ∧ IsLeast {y | g.Ready before y} x := by
  induction after using List.reverseRecOn with
  | nil =>
      generalize horder : before ++ [x] = order at h
      cases h with
      | nil => exact absurd horder (by simp)
      | snoc h hx =>
          obtain ⟨rfl, hxy⟩ := List.append_inj' horder rfl
          exact (List.cons.inj hxy).1 ▸ ⟨h, hx⟩
  | append_singleton after z ih =>
      rw [← List.cons_append, ← List.append_assoc] at h
      generalize horder : (before ++ x :: after) ++ [z] = order at h
      cases h with
      | nil => exact absurd horder (by simp)
      | snoc h _ => exact ih ((List.append_inj' horder rfl).1 ▸ h)

/-- No element of an order depends on itself. -/
theorem not_behind (h : g.LeastFirst order) (hx : x ∈ order) : ¬ g.Behind x := by
  rintro ⟨y, hxy, hy⟩
  have hmem : y ∈ order := by
    rcases reflTransGen_iff_eq_or_transGen.mp hxy with rfl | hxy
    · exact hx
    · exact h.mem_of_transGen hx hxy
  -- The dependencies of `y` were all there before `y`, so `y` itself was.
  obtain ⟨before, after, rfl⟩ := List.append_of_mem hmem
  obtain ⟨hbefore, hready⟩ := h.of_append
  obtain ⟨z, hyz, hzy⟩ := TransGen.head'_iff.mp hy
  rcases reflTransGen_iff_eq_or_transGen.mp hzy with rfl | hzy
  · exact hready.1.notMem (hready.1.deps _ hyz)
  · exact hready.1.notMem (hbefore.mem_of_transGen (hready.1.deps z hyz) hzy)

/-- **What a full order holds**: once nothing can come next, exactly the nodes that are
neither on a cycle nor behind one. -/
theorem mem_iff (h : g.LeastFirst order) (hfull : ∀ y, ¬ g.Ready order y) (hx : x ∈ g.nodes) :
    x ∈ order ↔ ¬ g.Behind x := by
  constructor
  · exact h.not_behind
  · intro hbehind
    by_contra hmissing
    obtain ⟨y, _, hy⟩ := exists_ready hx hbehind hmissing
    exact hfull y hy

/-- An order with as many elements as there are nodes has them all. -/
theorem nodes_subset (h : g.LeastFirst order) (hlen : g.nodes.length ≤ order.length) :
    g.nodes ⊆ order := by
  have hsub := h.nodup.subperm h.subset_nodes
  exact (hsub.perm_of_length_le hlen).symm.subset

theorem length_eq_iff (h : g.LeastFirst order) (hnodup : g.nodes.Nodup) :
    order.length = g.nodes.length ↔ g.nodes ⊆ order := by
  constructor
  · exact fun hlen ↦ h.nodes_subset hlen.ge
  · intro hall
    exact le_antisymm (h.nodup.subperm h.subset_nodes).length_le (hnodup.subperm hall).length_le

theorem acyclic_iff (h : g.LeastFirst order) (hfull : ∀ y, ¬ g.Ready order y) :
    g.Acyclic ↔ g.nodes ⊆ order := by
  rw [acyclic_iff_not_behind]
  constructor
  · intro hbehind x hx
    exact (h.mem_iff hfull hx).mpr (hbehind x hx)
  · intro hsub x hx
    exact (h.mem_iff hfull hx).mp (hsub hx)

end LeastFirst

/-! ## Where a node stands -/

/-- The peaks of `x`: the greatest of its dependencies and itself, the greatest of those
among them that depend on the first peak, and so on up to `x`. -/
noncomputable def peaks (g : DepGraph α) (x : α) : List α :=
  g.climb x (ReflTransGen g.dep x) (g.nodes.insertionSort (· ≥ ·))

theorem self_mem_peaks (hx : x ∈ g.nodes) : x ∈ g.peaks x :=
  self_mem_climb (fun _ h ↦ h) .refl ((List.mem_insertionSort _).mpr hx)

/-- Without cycles the peaks tell the nodes apart. -/
theorem Acyclic.eq_of_peaks_eq (h : g.Acyclic) (hx : x ∈ g.nodes) (hy : y ∈ g.nodes)
    (heq : g.peaks x = g.peaks y) : x = y := by
  have hxy : ReflTransGen g.dep y x :=
    reflTransGen_of_mem_climb (fun _ h ↦ h) (heq ▸ self_mem_peaks hx)
  have hyx : ReflTransGen g.dep x y :=
    reflTransGen_of_mem_climb (fun _ h ↦ h) (heq ▸ self_mem_peaks hy)
  rcases reflTransGen_iff_eq_or_transGen.mp hxy with heq | hxy
  · exact heq
  · exact absurd (hxy.trans_left hyx) (h y)

namespace LeastFirst

variable {before after : List α} {a b : α}

/-- When `y` has come, and was at least as great as all that was missing below `x`, what is
still missing below `x` is what depends on `y`. -/
theorem missing_iff (hacyclic : g.Acyclic) (h : g.LeastFirst (before ++ y :: after))
    (hx : x ∈ g.nodes) (hmax : ∀ w, ReflTransGen g.dep x w → w ∉ before → w ≤ y) (z : α) :
    ReflTransGen g.dep x z ∧ TransGen g.dep z y ↔
      ReflTransGen g.dep x z ∧ z ∉ before ++ [y] := by
  obtain ⟨hbefore, hready⟩ := h.of_append
  refine and_congr_right fun hxz ↦ ?_
  rw [List.mem_append, List.mem_singleton, not_or]
  constructor
  · intro hzy
    constructor
    · exact fun hz ↦ hready.1.notMem (hbefore.mem_of_transGen hz hzy)
    · rintro rfl
      exact hacyclic z hzy
  · rintro ⟨hz, hne⟩
    obtain ⟨w, hzw, hw⟩ :=
      exists_ready (mem_of_reflTransGen hxz hx) (hacyclic.not_behind z) hz
    have hwy : w = y := le_antisymm (hmax w (hxz.trans hzw) hw.notMem) (hready.2 hw)
    subst hwy
    rcases reflTransGen_iff_eq_or_transGen.mp hzw with heq | hzw
    · exact absurd heq.symm hne
    · exact hzw

/-- If all that is missing below `b` is less than a node missing below `a`, then `b` comes
before `a`. -/
theorem precedes_of_lt (hacyclic : g.Acyclic) (h : g.LeastFirst (before ++ y :: after))
    (hb : b ∈ g.nodes) (ha : a ∈ before ++ y :: after) (hay : ReflTransGen g.dep a y)
    (hlt : ∀ w, ReflTransGen g.dep b w → w ∉ before → w < y) :
    Precedes (before ++ y :: after) b a := by
  obtain ⟨hbefore, hready⟩ := h.of_append
  have hb' : b ∈ before := by
    by_contra hmissing
    obtain ⟨w, hbw, hw⟩ := exists_ready hb (hacyclic.not_behind b) hmissing
    exact absurd (hready.2 hw) (not_le.mpr (hlt w hbw hw.notMem))
  refine Precedes.of_notMem hb' ?_ ha
  intro ha'
  rcases reflTransGen_iff_eq_or_transGen.mp hay with rfl | hay
  · exact hready.1.notMem ha'
  · exact hready.1.notMem (hbefore.mem_of_transGen ha' hay)

section Missing

variable {x y : α} {s : α → Prop} {ys l : List α}
  (hs : ∀ w, s w ↔ ReflTransGen g.dep x w ∧ w ∉ before) (hsys : ∀ w, s w → w ∈ y :: ys)

include hs hsys

/-- The greatest candidate bounds what is still missing further on. -/
theorem missing_le (hle : ∀ w ∈ y :: ys, w ≤ y) :
    ∀ w, ReflTransGen g.dep x w → w ∉ before ++ l → w ≤ y := by
  intro w hxw hw
  exact hle w (hsys w ((hs w).mpr ⟨hxw, fun h ↦ hw (List.mem_append_left _ h)⟩))

omit [LinearOrder α] in
/-- What is missing above the greatest candidate is among the other ones. -/
theorem missing_mem (hacyclic : g.Acyclic) {z : α}
    (hz : ReflTransGen g.dep x z ∧ TransGen g.dep z y) (hmissing : z ∉ before ++ l ++ [y]) :
    z ∈ ys := by
  rw [List.append_assoc] at hmissing
  have hzy := hsys z ((hs z).mpr ⟨hz.1, fun h ↦ hmissing (List.mem_append_left _ h)⟩)
  refine (List.mem_cons.mp hzy).resolve_left ?_
  rintro rfl
  exact hacyclic z hz.2

end Missing

/-- By induction on the candidates, from the greatest down; `p` and `q` are what is missing
below `b` and `a` once `before` has come. -/
theorem precedes_of_climb_lt (h : g.LeastFirst order) (hall : g.nodes ⊆ order)
    (hacyclic : g.Acyclic) (hb : b ∈ g.nodes) (ha : a ∈ g.nodes) {p q : α → Prop}
    {ys : List α} (horder : order = before ++ after)
    (hp : ∀ y, p y ↔ ReflTransGen g.dep b y ∧ y ∉ before)
    (hq : ∀ y, q y ↔ ReflTransGen g.dep a y ∧ y ∉ before)
    (hys : ys.Pairwise (· ≥ ·)) (hpys : ∀ y, p y → y ∈ ys) (hqys : ∀ y, q y → y ∈ ys)
    (hlt : g.climb b p ys < g.climb a q ys) : Precedes order b a := by
  induction ys generalizing before after p q with
  | nil => exact absurd hlt (lt_irrefl _)
  | cons y ys ih =>
      rw [List.pairwise_cons] at hys
      have hle : ∀ w ∈ y :: ys, w ≤ y := by
        intro w hw
        rcases List.mem_cons.mp hw with rfl | hw
        · exact le_rfl
        · exact hys.1 w hw
      have hsplit : (p y ∨ q y) → ∃ l r, after = l ++ y :: r := by
        intro hy
        have hmissing : y ∉ before := hy.elim (fun h ↦ ((hp y).mp h).2) fun h ↦ ((hq y).mp h).2
        have hmem : y ∈ order := hall <| hy.elim
          (fun h ↦ mem_of_reflTransGen ((hp y).mp h).1 hb)
          fun h ↦ mem_of_reflTransGen ((hq y).mp h).1 ha
        rw [horder] at hmem
        exact List.append_of_mem ((List.mem_append.mp hmem).resolve_left hmissing)
      by_cases hpy : p y <;> by_cases hqy : q y
      · -- The same peak: go on above it.
        obtain ⟨l, r, rfl⟩ := hsplit (Or.inl hpy)
        rw [climb_cons_of_pos hpy, climb_cons_of_pos hqy, List.cons_lt_cons_iff] at hlt
        have hlt := (hlt.resolve_left (lt_irrefl y)).2
        rw [← List.append_assoc] at horder
        subst horder
        have hpiff := h.missing_iff hacyclic hb (missing_le hp hpys hle)
        have hqiff := h.missing_iff hacyclic ha (missing_le hq hqys hle)
        have hnext : before ++ l ++ y :: r = before ++ l ++ [y] ++ r := by simp
        exact ih hnext hpiff hqiff hys.2
          (fun z hz ↦ missing_mem hp hpys hacyclic hz ((hpiff z).mp hz).2)
          (fun z hz ↦ missing_mem hq hqys hacyclic hz ((hqiff z).mp hz).2) hlt
      · -- The peaks of `a` are less.
        exfalso
        rw [climb_cons_of_pos hpy, climb_cons_of_neg hqy] at hlt
        cases hclimb : g.climb a q ys with
        | nil => exact absurd (hclimb ▸ hlt) (List.not_lt_nil _)
        | cons c cs =>
            obtain ⟨hc, hmem⟩ := of_climb_eq_cons hclimb
            rw [hclimb, List.cons_lt_cons_iff] at hlt
            rcases hlt with hyc | ⟨rfl, _⟩
            · exact absurd hyc (not_lt.mpr (hys.1 c hmem))
            · exact hqy hc
      · -- All that is missing below `b` is less than `y`.
        obtain ⟨l, r, rfl⟩ := hsplit (Or.inr hqy)
        rw [← List.append_assoc] at horder
        subst horder
        refine h.precedes_of_lt hacyclic hb (hall ha) ((hq y).mp hqy).1 ?_
        intro w hbw hw
        have hpw := (hp w).mpr ⟨hbw, fun h ↦ hw (List.mem_append_left _ h)⟩
        refine lt_of_le_of_ne (hle w (hpys w hpw)) ?_
        rintro rfl
        exact hpy hpw
      · rw [climb_cons_of_neg hpy, climb_cons_of_neg hqy] at hlt
        exact ih horder hp hq hys.2
          (fun z hz ↦ (List.mem_cons.mp (hpys z hz)).resolve_left fun h ↦ hpy (h ▸ hz))
          (fun z hz ↦ (List.mem_cons.mp (hqys z hz)).resolve_left fun h ↦ hqy (h ▸ hz)) hlt

theorem precedes_of_peaks_lt (h : g.LeastFirst order) (hall : g.nodes ⊆ order)
    (hacyclic : g.Acyclic) (hb : b ∈ g.nodes) (ha : a ∈ g.nodes)
    (hlt : g.peaks b < g.peaks a) : Precedes order b a := by
  have hmem : ∀ {x y : α}, x ∈ g.nodes → ReflTransGen g.dep x y →
      y ∈ g.nodes.insertionSort (· ≥ ·) := fun hx hxy ↦
    (List.mem_insertionSort _).mpr (mem_of_reflTransGen hxy hx)
  exact h.precedes_of_climb_lt hall hacyclic hb ha (List.nil_append order).symm (by simp) (by simp)
    (List.pairwise_insertionSort _ _) (fun _ ↦ hmem hb) (fun _ ↦ hmem ha) hlt

/-- **Who comes first**: in a smallest-first order of all nodes, of two nodes the one with
the smaller peaks. -/
theorem precedes_iff (h : g.LeastFirst order) (hall : g.nodes ⊆ order) (hb : b ∈ g.nodes)
    (ha : a ∈ g.nodes) : Precedes order b a ↔ g.peaks b < g.peaks a := by
  have hacyclic : g.Acyclic := acyclic_iff_not_behind.mpr fun x hx ↦ h.not_behind (hall hx)
  constructor
  · intro hba
    rcases lt_trichotomy (g.peaks b) (g.peaks a) with hlt | heq | hlt
    · exact hlt
    · obtain rfl := hacyclic.eq_of_peaks_eq hb ha heq
      exact absurd hba (hba.asymm h.nodup)
    · exact absurd (h.precedes_of_peaks_lt hall hacyclic ha hb hlt) (hba.asymm h.nodup)
  · exact h.precedes_of_peaks_lt hall hacyclic hb ha

end LeastFirst

end DepGraph

end CeGke.Lib
