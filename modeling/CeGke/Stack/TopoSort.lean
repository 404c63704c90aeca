import CeGke.Lib.Topological
import CeGke.Stack

/-!
# The topological sort

`topo_sort` of `src/stack.rs` is Kahn's algorithm on counters: the in-degree of a node and
the set of nodes ready to be emitted.  The invariant of its loop (`TopoState.Inv`) says
what the two stand for, so that what is emitted is a smallest-first order of the graph, and
the sort succeeds exactly when the graph has no cycle (`topoSort_correct`).  What it is left
with otherwise, and reports, are the nodes on the cycles and behind them
(`topoSort_error_exact`).
-/

namespace CeGke

open Lib Relation

namespace DepMap

variable (deps : DepMap)

/-! ## The graph of a dependency map -/

/-- `x` lists `y` among its dependencies. -/
def DependsOn (x y : String) : Prop := ∃ ds, deps.get x = some ds ∧ y ∈ ds.keys

/-- The dependencies of a key; a node that is not a key has none. -/
def dependencies (x : String) : List String := ((deps.get x).map SortedMap.keys).getD []

variable {deps}

theorem mem_dependencies {x y : String} : y ∈ deps.dependencies x ↔ deps.DependsOn x y := by
  unfold dependencies DependsOn
  cases deps.get x <;> simp

theorem nodup_dependencies (x : String) : (deps.dependencies x).Nodup := by
  unfold dependencies
  cases deps.get x with
  | none => exact List.nodup_nil
  | some ds => exact ds.nodup_keys

/-- The keys and the dependencies, in the order in which the first loop meets them. -/
def mentioned (deps : DepMap) : List String := deps.entries.flatMap fun e ↦ e.1 :: e.2.keys

theorem mem_mentioned {x : String} :
    x ∈ deps.mentioned ↔ x ∈ deps.keys ∨ ∃ k, deps.DependsOn k x := by
  simp only [mentioned, List.mem_flatMap, List.mem_cons, SortedMap.keys, List.mem_map, DependsOn,
    SortedMap.get_eq_some_iff]
  constructor
  · rintro ⟨e, he, rfl | hx⟩
    · exact Or.inl ⟨e, he, rfl⟩
    · exact Or.inr ⟨e.1, e.2, he, hx⟩
  · rintro (⟨e, he, rfl⟩ | ⟨k, ds, he, hx⟩)
    · exact ⟨e, he, Or.inl rfl⟩
    · exact ⟨(k, ds), he, Or.inr hx⟩

theorem get_nodes (x : String) :
    deps.nodes.get x = if x ∈ deps.mentioned then some 0 else none := by
  have hflat : deps.nodes =
      deps.mentioned.foldl (fun m k ↦ m.orInsert k 0) SortedMap.empty := by
    rw [mentioned, List.foldl_flatMap]
    rfl
  rw [hflat, SortedMap.get_foldl_orInsert, SortedMap.get_empty, Option.none_or]

theorem mem_nodes {x : String} :
    x ∈ deps.nodes.keys ↔ x ∈ deps.keys ∨ ∃ k, deps.DependsOn k x := by
  rw [← mem_mentioned, ← SortedMap.isSome_get_iff, get_nodes]
  split_ifs with h <;> simp [h]

/-- The graph that `topo_sort` orders. -/
def graph (deps : DepMap) : DepGraph String where
  nodes := deps.nodes.keys
  dep := deps.DependsOn
  left_mem := by
    rintro x y ⟨ds, hds, _⟩
    exact mem_nodes.mpr (Or.inl (SortedMap.isSome_get_iff.mp (hds ▸ rfl)))
  right_mem := by
    intro x y h
    exact mem_nodes.mpr (Or.inr ⟨x, h⟩)

/-! ## What the loops before the main one compute -/

theorem keys_indegrees : deps.indegrees.keys = deps.nodes.keys := by
  have hfold : ∀ (l : List (String × SortedSet String)) (m : SortedMap String ℕ),
      (l.foldl (fun m e ↦ m.modify e.1 fun _ ↦ e.2.keys.length) m).keys = m.keys := by
    intro l
    induction l with
    | nil => exact fun m ↦ rfl
    | cons e l ih => exact fun m ↦ (ih _).trans (SortedMap.keys_modify _ _ _)
  exact hfold _ _

/-- The in-degree of a node is the number of its dependencies. -/
theorem get_indegrees (x : String) : deps.indegrees.get x =
    if x ∈ deps.graph.nodes then some (deps.dependencies x).length else none := by
  have hnodes : deps.nodes.get x = if x ∈ deps.graph.nodes then some 0 else none := by
    rw [get_nodes]
    simp only [graph, mem_nodes, ← mem_mentioned]
  rw [indegrees, SortedMap.get_foldl_modify (fun (ds : SortedSet String) _ ↦ ds.keys.length),
    hnodes, dependencies]
  cases deps.get x with
  | none => rfl
  | some ds => split_ifs <;> rfl

/-- The reverse edges of a node lead to the keys that list it. -/
theorem get_dependents (d : String) : (deps.dependents.get d).getD [] =
    (deps.entries.filter fun e ↦ d ∈ e.2.keys).map Prod.fst := by
  have hinner : ∀ (k : String) (ks : List String) (m : SortedMap String (List String)),
      ks.Nodup →
      ((ks.foldl (fun m d ↦ (m.orInsert d []).modify d (· ++ [k])) m).get d).getD [] =
        (m.get d).getD [] ++ if d ∈ ks then [k] else [] := by
    intro k ks
    induction ks with
    | nil => simp
    | cons a ks ih =>
        intro m hks
        rw [List.nodup_cons] at hks
        rw [List.foldl_cons, ih _ hks.2, SortedMap.get_modify, SortedMap.get_orInsert]
        by_cases hda : d = a
        · subst hda
          rw [if_pos rfl, if_pos rfl, if_neg hks.1, if_pos List.mem_cons_self]
          cases m.get d <;> simp
        · rw [if_neg hda, if_neg hda, Option.or_none]
          simp [hda]
  have houter : ∀ (l : List (String × SortedSet String)) (m : SortedMap String (List String)),
      ((l.foldl (fun m e ↦
        e.2.keys.foldl (fun m d ↦ (m.orInsert d []).modify d (· ++ [e.1])) m) m).get d).getD [] =
        (m.get d).getD [] ++ (l.filter fun e ↦ d ∈ e.2.keys).map Prod.fst := by
    intro l
    induction l with
    | nil => simp
    | cons e l ih =>
        intro m
        rw [List.foldl_cons, ih, hinner _ _ _ e.2.nodup_keys, List.append_assoc]
        by_cases hd : d ∈ e.2.keys <;> simp [hd]
  rw [dependents, houter]
  rfl

theorem mem_dependents {d x : String} :
    x ∈ (deps.dependents.get d).getD [] ↔ deps.DependsOn x d := by
  simp only [get_dependents, List.mem_map, List.mem_filter, decide_eq_true_eq, DependsOn,
    SortedMap.get_eq_some_iff]
  constructor
  · rintro ⟨e, ⟨he, hd⟩, rfl⟩
    exact ⟨e.2, he, hd⟩
  · rintro ⟨ds, he, hd⟩
    exact ⟨(x, ds), ⟨he, hd⟩, rfl⟩

theorem nodup_dependents (d : String) : ((deps.dependents.get d).getD []).Nodup := by
  rw [get_dependents]
  exact deps.nodup_keys.sublist (List.filter_sublist.map _)

end DepMap

/-! ## The main loop -/

namespace TopoState

/-- A release counts one dependency of the node less, and the node is ready when none is left. -/
theorem release_eq (t : TopoState) (node : String) :
    (t.release node).order = t.order ∧
      (∀ x, (t.release node).indegree.get x =
        if x = node then (t.indegree.get x).map (· - 1) else t.indegree.get x) ∧
      ∀ x, ((t.release node).ready.get x).isSome ↔
        (t.ready.get x).isSome ∨ x = node ∧ (t.indegree.get x).map (· - 1) = some 0 := by
  unfold release
  cases hn : t.indegree.get node with
  | none =>
      refine ⟨rfl, fun x ↦ ?_, fun x ↦ ?_⟩
      · split_ifs with hx
        · rw [hx, hn, Option.map_none]
        · rfl
      · constructor
        · exact Or.inl
        · rintro (h | ⟨rfl, h⟩)
          · exact h
          · exact absurd h (by simp [hn])
  | some n =>
      simp only
      refine ⟨by split_ifs <;> rfl, fun x ↦ ?_, fun x ↦ ?_⟩
      · have hmodify : (t.indegree.modify node fun _ ↦ n - 1).get x =
            if x = node then (t.indegree.get x).map (· - 1) else t.indegree.get x := by
          rw [SortedMap.get_modify]
          by_cases hx : x = node
          · rw [if_pos hx, if_pos hx, hx, hn, Option.map_some, Option.map_some]
          · rw [if_neg hx, if_neg hx]
        by_cases hzero : n - 1 = 0
        · rw [if_pos hzero]
          exact hmodify
        · rw [if_neg hzero]
          exact hmodify
      · split_ifs with hzero
        · simp only [SortedMap.get_insert]
          by_cases hx : x = node
          · simp [hx, hn, hzero]
          · simp [hx]
        · simp only
          constructor
          · exact Or.inl
          · rintro (h | ⟨rfl, h⟩)
            · exact h
            · rw [hn, Option.map_some, Option.some.injEq] at h
              exact absurd h hzero

/-- What a loop of releases does, each node released at most once. -/
theorem foldl_release {released : List String} (hnodup : released.Nodup) (t : TopoState) :
    (released.foldl release t).order = t.order ∧
      ∀ x, (released.foldl release t).indegree.get x =
          (if x ∈ released then (t.indegree.get x).map (· - 1) else t.indegree.get x) ∧
        (((released.foldl release t).ready.get x).isSome ↔
          (t.ready.get x).isSome ∨ x ∈ released ∧ (t.indegree.get x).map (· - 1) = some 0) := by
  induction released generalizing t with
  | nil => simp
  | cons node released ih =>
      rw [List.nodup_cons] at hnodup
      obtain ⟨horder, hget⟩ := ih hnodup.2 (t.release node)
      obtain ⟨hrorder, hrindegree, hrready⟩ := t.release_eq node
      rw [List.foldl_cons]
      refine ⟨horder.trans hrorder, fun x ↦ ⟨?_, ?_⟩⟩
      · rw [(hget x).1, hrindegree]
        by_cases hx : x = node
        · subst hx
          simp [hnodup.1]
        · simp [hx]
      · rw [(hget x).2, hrready, hrindegree]
        by_cases hx : x = node
        · subst hx
          simp [hnodup.1]
        · simp [hx]

variable {deps : DepMap} {t : TopoState}

/-- How many dependencies of a node are missing from the order. -/
def missing (deps : DepMap) (order : List String) (x : String) : ℕ :=
  (deps.dependencies x).countP (· ∉ order)

/-- What holds of the main loop: the counters count the dependencies that are missing, and
the ready set holds the nodes that can come next. -/
structure Inv (deps : DepMap) (t : TopoState) : Prop where
  order : deps.graph.LeastFirst t.order
  indegree : ∀ x, t.indegree.get x =
    if x ∈ deps.graph.nodes then some (missing deps t.order x) else none
  ready : ∀ x, (t.ready.get x).isSome ↔ deps.graph.Ready t.order x

theorem missing_eq_zero {order : List String} {x : String} :
    missing deps order x = 0 ↔ ∀ y, deps.graph.dep x y → y ∈ order := by
  simp only [missing, List.countP_eq_zero, decide_eq_true_eq, not_not, DepMap.mem_dependencies]
  rfl

/-- A node that comes is one missing dependency less for those that list it. -/
theorem missing_snoc_of_dep {order : List String} {node x : String} (hnode : node ∉ order)
    (hdep : deps.graph.dep x node) :
    missing deps (order ++ [node]) x = missing deps order x - 1 := by
  have hmem : node ∈ deps.dependencies x := DepMap.mem_dependencies.mpr hdep
  have hperm := List.perm_cons_erase hmem
  have hrest : ((deps.dependencies x).erase node).countP (· ∉ order ++ [node]) =
      ((deps.dependencies x).erase node).countP (· ∉ order) := by
    apply List.countP_congr
    intro y hy
    have hne : y ≠ node := ((DepMap.nodup_dependencies x).mem_erase_iff.mp hy).1
    simp [hne]
  rw [missing, missing, hperm.countP_eq, hperm.countP_eq, List.countP_cons, List.countP_cons,
    hrest]
  simp [hnode]

theorem missing_snoc_of_not_dep {order : List String} {node x : String}
    (hdep : ¬ deps.graph.dep x node) :
    missing deps (order ++ [node]) x = missing deps order x := by
  apply List.countP_congr
  intro y hy
  have hne : y ≠ node := by
    rintro rfl
    exact hdep (DepMap.mem_dependencies.mp hy)
  simp [hne]

theorem ready_iff {order : List String} {x : String} : deps.graph.Ready order x ↔
    x ∈ deps.graph.nodes ∧ x ∉ order ∧ missing deps order x = 0 := by
  rw [missing_eq_zero]
  exact ⟨fun h ↦ ⟨h.mem, h.notMem, h.deps⟩, fun ⟨h, h', h''⟩ ↦ ⟨h, h', h''⟩⟩

/-- What comes next can be read off the ready set. -/
theorem Inv.isLeast (h : t.Inv deps) {node : String} (hhead : t.ready.keys.head? = some node) :
    IsLeast {y | deps.graph.Ready t.order y} node := by
  have hset : {y | (t.ready.get y).isSome} = {y | deps.graph.Ready t.order y} :=
    Set.ext h.ready
  exact hset ▸ SortedMap.isLeast_of_head? hhead

/-- One turn of the loop. -/
theorem Inv.next {t' : TopoState} (h : t.Inv deps) (hnext : t.next deps.dependents = some t') :
    t'.Inv deps ∧ t'.order.length = t.order.length + 1 := by
  rw [TopoState.next, Option.map_eq_some_iff] at hnext
  obtain ⟨node, hhead, ht'⟩ := hnext
  have hleast := h.isLeast hhead
  have hnode := hleast.1
  obtain ⟨horder, hget⟩ := foldl_release (@DepMap.nodup_dependents deps node)
    { t with ready := t.ready.erase node, order := t.order ++ [node] }
  simp only [ht', DepMap.mem_dependents, h.indegree, SortedMap.get_erase] at horder hget
  have hindegree : ∀ x, t'.indegree.get x =
      if x ∈ deps.graph.nodes then some (missing deps t'.order x) else none := by
    intro x
    rw [(hget x).1, horder]
    by_cases hdep : deps.DependsOn x node
    · rw [if_pos (DepMap.mem_dependents.mpr hdep), if_pos (deps.graph.left_mem hdep),
        if_pos (deps.graph.left_mem hdep), missing_snoc_of_dep hnode.notMem hdep, Option.map_some]
    · rw [if_neg (mt DepMap.mem_dependents.mp hdep), missing_snoc_of_not_dep hdep]
  refine ⟨⟨?_, hindegree, ?_⟩, ?_⟩
  · rw [horder]
    exact .snoc h.order hleast
  · intro x
    rw [(hget x).2, horder]
    by_cases hdep : deps.DependsOn x node
    · -- `x` still waited for `node`, so it was neither ready nor emitted.
      have hmem := deps.graph.left_mem hdep
      have hx : x ∉ t.order ++ [node] := by
        rw [List.mem_append, List.mem_singleton, not_or]
        constructor
        · exact fun hx ↦ hnode.notMem (h.order.precedes_of_dep hx hdep).mem_left
        · rintro rfl
          exact hnode.notMem (hnode.deps x hdep)
      have hready : ¬ (t.ready.get x).isSome := fun hx ↦
        hnode.notMem (((h.ready x).mp hx).deps node hdep)
      rw [ready_iff, missing_snoc_of_dep hnode.notMem hdep, if_pos hmem]
      split_ifs with heq <;> simp [hdep, hmem, hx, hready]
    · rw [ready_iff, missing_snoc_of_not_dep hdep]
      have hiff := (h.ready x).trans ready_iff
      by_cases hx : x = node
      · subst hx
        simp [hdep]
      · simp [hx, hdep, hiff]
  · rw [horder, List.length_append, List.length_singleton]

/-- The loop stops only when nothing can come next. -/
theorem Inv.of_next_eq_none (h : t.Inv deps) (hnext : t.next deps.dependents = none) (y : String) :
    ¬ deps.graph.Ready t.order y := by
  rw [TopoState.next, Option.map_eq_none_iff] at hnext
  rw [← h.ready, SortedMap.get_of_head?_eq_none hnext]
  exact Bool.false_ne_true

/-- As many turns as there are nodes are enough. -/
theorem Inv.run {turns : ℕ} (h : t.Inv deps)
    (hturns : deps.graph.nodes.length ≤ t.order.length + turns) :
    (t.run deps.dependents turns).Inv deps ∧
      ∀ y, ¬ deps.graph.Ready (t.run deps.dependents turns).order y := by
  induction turns generalizing t with
  | zero => exact ⟨h, fun y hy ↦ hy.notMem (h.order.nodes_subset hturns hy.mem)⟩
  | succ turns ih =>
      rw [TopoState.run]
      cases hnext : t.next deps.dependents with
      | none => exact ⟨h, h.of_next_eq_none hnext⟩
      | some t' =>
          obtain ⟨h', hlen⟩ := h.next hnext
          exact ih h' (by omega)

/-- What the main loop starts from. -/
def init (deps : DepMap) : TopoState where
  indegree := deps.indegrees
  ready := (deps.indegrees.entries.filter fun e ↦ e.2 = 0).foldl
    (fun ready e ↦ ready.insert e.1 ()) SortedMap.empty

theorem inv_init (deps : DepMap) : (init deps).Inv deps := by
  have hmissing : ∀ x, missing deps [] x = (deps.dependencies x).length := by
    intro x
    simp [missing]
  refine ⟨.nil, fun x ↦ ?_, fun x ↦ ?_⟩
  · exact (DepMap.get_indegrees x).trans (by rw [← hmissing]; rfl)
  · have hready : (init deps).ready =
        ((deps.indegrees.entries.filter fun e ↦ e.2 = 0).map Prod.fst).foldl
          (fun ready k ↦ ready.insert k ()) SortedMap.empty := by
      rw [init, List.foldl_map]
    have hmem : x ∈ (deps.indegrees.entries.filter fun e ↦ e.2 = 0).map Prod.fst ↔
        deps.indegrees.get x = some 0 := by
      simp only [List.mem_map, List.mem_filter, decide_eq_true_eq, SortedMap.get_eq_some_iff]
      constructor
      · rintro ⟨⟨k, n⟩, ⟨he, rfl⟩, rfl⟩
        exact he
      · exact fun he ↦ ⟨(x, 0), ⟨he, rfl⟩, rfl⟩
    rw [hready, SortedMap.get_foldl_insert, ready_iff]
    simp only [hmem, DepMap.get_indegrees, ← hmissing]
    change _ ↔ _ ∧ x ∉ [] ∧ missing deps [] x = 0
    by_cases hnode : x ∈ deps.graph.nodes <;> by_cases hzero : missing deps [] x = 0 <;>
      simp [hnode, hzero]

end TopoState

/-! ## The sort -/

/-- The main loop ends with a smallest-first order that cannot be continued, and the sort
fails with what is not in it. -/
theorem topoSort_spec (deps : DepMap) : ∃ order, deps.graph.LeastFirst order ∧
    (∀ y, ¬ deps.graph.Ready order y) ∧
      topoSort deps =
        if order.length ≠ deps.graph.nodes.length then
          let stuck := ", ".intercalate (deps.graph.nodes.filter fun k ↦ k ∉ order)
          .error s!"dependency cycle detected among: {stuck} (depends_on must form a DAG)"
        else .ok order := by
  have hkeys : deps.indegrees.keys = deps.graph.nodes := DepMap.keys_indegrees
  have hturns : deps.graph.nodes.length ≤
      (TopoState.init deps).order.length + deps.indegrees.keys.length := by
    rw [hkeys]
    exact Nat.le_add_left _ _
  obtain ⟨hinv, hfull⟩ := (TopoState.inv_init deps).run hturns
  refine ⟨_, hinv.order, hfull, ?_⟩
  rw [← hkeys]
  rfl

theorem topoSort_ok {deps : DepMap} {order : List String} (h : topoSort deps = .ok order) :
    deps.graph.LeastFirst order ∧ deps.graph.nodes ⊆ order := by
  obtain ⟨order', horder, hfull, heq⟩ := topoSort_spec deps
  rw [heq] at h
  split_ifs at h with hlen
  obtain rfl := Except.ok.inj h
  exact ⟨horder, (horder.length_eq_iff deps.nodes.nodup_keys).mp (not_not.mp hlen)⟩

theorem topoSort_isOk_iff {deps : DepMap} :
    (∃ order, topoSort deps = .ok order) ↔ deps.graph.Acyclic := by
  obtain ⟨order, horder, hfull, heq⟩ := topoSort_spec deps
  rw [horder.acyclic_iff hfull, heq]
  constructor
  · rintro ⟨order', h⟩
    split_ifs at h with hlen
    exact (horder.length_eq_iff deps.nodes.nodup_keys).mp (not_not.mp hlen)
  · intro hsub
    exact ⟨order, if_neg (not_not.mpr ((horder.length_eq_iff deps.nodes.nodup_keys).mpr hsub))⟩

/-- **`topo_sort` is correct and complete**: it succeeds exactly when the dependencies have
no cycle, and then lists every key and every dependency once, each after all that it
depends on. -/
theorem topoSort_correct (deps : DepMap) :
    ((∃ order, topoSort deps = .ok order) ↔ ∀ x, ¬ TransGen deps.DependsOn x x) ∧
      ∀ order, topoSort deps = .ok order →
        order.Nodup ∧ (∀ x, x ∈ order ↔ x ∈ deps.keys ∨ ∃ k, deps.DependsOn k x) ∧
          ∀ x y, deps.DependsOn x y → Precedes order y x := by
  refine ⟨topoSort_isOk_iff, ?_⟩
  intro order h
  obtain ⟨horder, hall⟩ := topoSort_ok h
  refine ⟨horder.nodup, fun x ↦ ?_, fun x y hxy ↦ ?_⟩
  · rw [← DepMap.mem_nodes]
    constructor
    · exact fun hx ↦ horder.subset_nodes hx
    · exact fun hx ↦ hall hx
  · exact horder.precedes_of_dep (hall (deps.graph.left_mem hxy)) hxy

/-! ## The error -/

/-- The nodes that an order leaves out are those on a cycle or behind one. -/
theorem mem_stuck {deps : DepMap} {order : List String} (h : deps.graph.LeastFirst order)
    (hfull : ∀ y, ¬ deps.graph.Ready order y) {x : String} :
    x ∈ deps.graph.nodes.filter (fun k ↦ k ∉ order) ↔
      ∃ y, ReflTransGen deps.DependsOn x y ∧ TransGen deps.DependsOn y y := by
  rw [List.mem_filter, decide_eq_true_eq]
  constructor
  · rintro ⟨hnode, hx⟩
    exact not_not.mp (mt (h.mem_iff hfull hnode).mpr hx)
  · intro hbehind
    have hnode : x ∈ deps.graph.nodes := by
      obtain ⟨y, hxy, hy⟩ := hbehind
      obtain ⟨z, hxz, _⟩ := TransGen.head'_iff.mp (TransGen.trans_right hxy hy)
      exact deps.graph.left_mem hxz
    exact ⟨hnode, fun hx ↦ h.not_behind hx hbehind⟩

/-- **The cycle report is exact**: an error names, in order and once each, the nodes from
which the dependencies lead to a cycle, and there is an error whenever there is one. -/
theorem topoSort_error_exact (deps : DepMap) : ∃ stuck : List String,
    stuck.Pairwise (· < ·) ∧
      (∀ x, x ∈ stuck ↔ ∃ y, ReflTransGen deps.DependsOn x y ∧ TransGen deps.DependsOn y y) ∧
        ∀ e, topoSort deps = .error e ↔
          stuck ≠ [] ∧ e = "dependency cycle detected among: " ++ ", ".intercalate stuck ++
            " (depends_on must form a DAG)" := by
  obtain ⟨order, horder, hfull, heq⟩ := topoSort_spec deps
  refine ⟨deps.graph.nodes.filter fun k ↦ k ∉ order, deps.nodes.sorted.filter _,
    fun x ↦ mem_stuck horder hfull, fun e ↦ ?_⟩
  have hstuck : deps.graph.nodes.filter (fun k ↦ k ∉ order) = [] ↔
      order.length = deps.graph.nodes.length := by
    rw [List.filter_eq_nil_iff, horder.length_eq_iff deps.nodes.nodup_keys]
    simp only [decide_eq_true_eq, not_not]
    rfl
  rw [heq]
  split_ifs with hlen
  · rw [Except.error.injEq, eq_comm]
    exact (and_iff_right (mt hstuck.mp hlen)).symm
  · have hnil := hstuck.mpr (not_not.mp hlen)
    constructor
    · exact fun h ↦ nomatch h
    · exact fun h ↦ absurd hnil h.1

end CeGke
