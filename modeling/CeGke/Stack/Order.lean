import CeGke.Stack.TopoSort

/-!
# The apply order of a stack

`Stack::apply_order` orders the apps after the last listed publisher of each service they
depend on.  Where a service has one publisher that is all there is to say; with several,
whether the others come first as well is a matter of their place in the smallest-first
order (`Stack.applyOrder_producers_iff`).
-/

namespace CeGke

open Lib

namespace Stack

variable (stack : Stack)

/-! ## What the edges are -/

/-- The app publishes the service in the namespace. -/
def Publishes (app : Deployment) (nameSpace service : String) : Prop :=
  app.service ≠ "" ∧ app.nameSpace = nameSpace ∧ app.service = service

instance (app : Deployment) (nameSpace service : String) :
    Decidable (Publishes app nameSpace service) :=
  inferInstanceAs (Decidable (_ ∧ _ ∧ _))

/-- The last app of the stack that publishes the service in the namespace. -/
def lastPublisher (nameSpace service : String) : Option Deployment :=
  (stack.apps.filter (Publishes · nameSpace service)).getLast?

theorem serviceOwner_eq (nameSpace service : String) :
    stack.serviceOwner (nameSpace, service) =
      (stack.lastPublisher nameSpace service).map Deployment.key := by
  have hfold : ∀ (apps : List Deployment) (owner : String × String → Option String),
      apps.foldl
        (fun owner app ↦
          if app.service = "" then owner
          else Function.update owner (app.nameSpace, app.service) (some app.key))
        owner (nameSpace, service) =
      ((apps.filter (Publishes · nameSpace service)).getLast?.map Deployment.key).or
        (owner (nameSpace, service)) := by
    intro apps
    induction apps using List.reverseRecOn with
    | nil => simp
    | append_singleton apps app ih =>
        intro owner
        rw [List.foldl_append, List.foldl_cons, List.foldl_nil, List.filter_append]
        by_cases hpub : Publishes app nameSpace service
        · obtain ⟨hne, rfl, rfl⟩ := hpub
          simp [hne, Publishes]
        · rw [List.filter_cons_of_neg (by simpa using hpub), List.filter_nil, List.append_nil,
            ← ih]
          by_cases hempty : app.service = ""
          · rw [if_pos hempty]
          · rw [if_neg hempty, Function.update_of_ne]
            rintro heq
            obtain ⟨rfl, rfl⟩ := Prod.mk.inj heq
            exact hpub ⟨hempty, rfl, rfl⟩
  rw [serviceOwner, hfold, Option.or_none]
  rfl

theorem isSome_get_addEdges (entry : SortedSet String) (app : Deployment) (o : String) :
    ((stack.addEdges entry app).get o).isSome ↔ (entry.get o).isSome ∨
      ∃ dep ∈ app.dependsOn, stack.serviceOwner (app.nameSpace, dep.service) = some o ∧
        o ≠ app.key := by
  unfold addEdges
  induction app.dependsOn generalizing entry with
  | nil => simp
  | cons dep deps ih =>
      rw [List.foldl_cons, ih]
      simp only [List.mem_cons, exists_eq_or_imp]
      rw [← or_assoc]
      refine or_congr_left ?_
      cases stack.serviceOwner (app.nameSpace, dep.service) with
      | none => simp
      | some owner =>
          simp only
          split_ifs with hne
          · rw [SortedMap.get_insert]
            split_ifs with ho
            · simp [ho, hne]
            · simp [Ne.symm ho]
          · rw [not_not] at hne
            subst hne
            constructor
            · exact Or.inl
            · rintro (h | ⟨heq, hne⟩)
              · exact h
              · exact absurd (Option.some.inj heq).symm hne

/-- What one turn of the loop over the apps does to the edges. -/
theorem get_addApp (m : DepMap) (app : Deployment) (k : String) :
    ((m.orInsert app.key SortedMap.empty).modify app.key (stack.addEdges · app)).get k =
      if k = app.key then some (stack.addEdges ((m.get k).getD SortedMap.empty) app)
      else m.get k := by
  rw [SortedMap.get_modify, SortedMap.get_orInsert]
  split_ifs with hk
  · cases m.get k <;> rfl
  · exact Option.or_none

theorem dependsOn_iff_getD {m : DepMap} {k o : String} :
    m.DependsOn k o ↔ (((m.get k).getD SortedMap.empty).get o).isSome := by
  unfold DepMap.DependsOn
  cases m.get k with
  | none => simp
  | some ds => simp [SortedMap.isSome_get_iff]

theorem get_edges (k : String) :
    ((stack.edges.get k).isSome ↔ ∃ app ∈ stack.apps, app.key = k) ∧
      ∀ o, stack.edges.DependsOn k o ↔ ∃ app ∈ stack.apps, app.key = k ∧
        ∃ dep ∈ app.dependsOn, stack.serviceOwner (app.nameSpace, dep.service) = some o ∧
          o ≠ app.key := by
  have hfold : ∀ (apps : List Deployment) (m : DepMap),
      let m' := apps.foldl (fun deps app ↦
        (deps.orInsert app.key SortedMap.empty).modify app.key (stack.addEdges · app)) m
      ((m'.get k).isSome ↔ (m.get k).isSome ∨ ∃ app ∈ apps, app.key = k) ∧
        ∀ o, m'.DependsOn k o ↔ m.DependsOn k o ∨ ∃ app ∈ apps, app.key = k ∧
          ∃ dep ∈ app.dependsOn, stack.serviceOwner (app.nameSpace, dep.service) = some o ∧
            o ≠ app.key := by
    intro apps
    induction apps with
    | nil => simp
    | cons app apps ih =>
        intro m
        obtain ⟨hsome, hdep⟩ := ih
          ((m.orInsert app.key SortedMap.empty).modify app.key (stack.addEdges · app))
        simp only [List.foldl_cons, List.mem_cons, exists_eq_or_imp, ← or_assoc]
        constructor
        · rw [hsome, get_addApp]
          refine or_congr_left ?_
          by_cases hk : k = app.key
          · simp [hk]
          · simp [hk, Ne.symm hk]
        · intro o
          rw [hdep]
          refine or_congr_left ?_
          rw [dependsOn_iff_getD, dependsOn_iff_getD, get_addApp]
          by_cases hk : k = app.key
          · rw [if_pos hk, Option.getD_some, isSome_get_addEdges]
            simp [hk]
          · rw [if_neg hk]
            simp [Ne.symm hk]
  obtain ⟨hsome, hdep⟩ := hfold stack.apps SortedMap.empty
  constructor
  · exact hsome.trans (by simp)
  · exact fun o ↦ (hdep o).trans (by simp [DepMap.DependsOn])

/-! ## The graph of a stack -/

/-- Each app is linked to the last publisher of every service it depends on. -/
def links : DepGraph String where
  nodes := stack.apps.map Deployment.key
  dep k o := ∃ app ∈ stack.apps, app.key = k ∧ ∃ dep ∈ app.dependsOn,
    ∃ owner, stack.lastPublisher app.nameSpace dep.service = some owner ∧ owner.key = o ∧ o ≠ k
  left_mem := by
    rintro k o ⟨app, happ, rfl, _⟩
    exact List.mem_map_of_mem happ
  right_mem := by
    rintro k o ⟨app, _, _, dep, _, owner, howner, rfl, _⟩
    exact List.mem_map_of_mem (List.mem_filter.mp (List.mem_of_getLast? howner)).1

theorem edges_dep_iff (k o : String) : stack.edges.graph.dep k o ↔ stack.links.dep k o := by
  refine ((stack.get_edges k).2 o).trans ?_
  simp only [serviceOwner_eq, Option.map_eq_some_iff, links]
  constructor
  · rintro ⟨app, happ, rfl, dep, hdep, ⟨owner, howner, rfl⟩, hne⟩
    exact ⟨app, happ, rfl, dep, hdep, owner, howner, rfl, hne⟩
  · rintro ⟨app, happ, rfl, dep, hdep, owner, howner, rfl, hne⟩
    exact ⟨app, happ, rfl, dep, hdep, ⟨owner, howner, rfl⟩, hne⟩

theorem mem_edges_nodes (k : String) : k ∈ stack.edges.graph.nodes ↔ k ∈ stack.links.nodes := by
  refine DepMap.mem_nodes.trans ?_
  rw [← SortedMap.isSome_get_iff, (stack.get_edges k).1]
  simp only [links, List.mem_map]
  constructor
  · rintro (h | ⟨x, hx⟩)
    · exact h
    · exact List.mem_map.mp (stack.links.right_mem ((stack.edges_dep_iff x k).mp hx))
  · exact Or.inl

variable {stack}

/-- What is applied is a smallest-first order of the links. -/
theorem applyOrder_ok {order : List String} (h : stack.applyOrder = .ok order) :
    stack.links.LeastFirst order ∧ ∀ k, k ∈ order ↔ k ∈ stack.links.nodes := by
  obtain ⟨horder, hall⟩ := topoSort_ok h
  refine ⟨horder.congr stack.mem_edges_nodes stack.edges_dep_iff, fun k ↦ ?_⟩
  rw [← mem_edges_nodes]
  constructor
  · exact fun hk ↦ horder.subset_nodes hk
  · exact fun hk ↦ hall hk

/-! ## What validation promises -/

theorem forM_eq_ok {α : Type} {f : α → Except String Unit} {l : List α} {u : Unit} :
    l.forM f = .ok u ↔ ∀ a ∈ l, f a = .ok () := by
  induction l with
  | nil => simp [pure, Except.pure]
  | cons a l ih =>
      have hcons : (a :: l).forM f = (f a >>= fun _ ↦ l.forM f) := rfl
      rw [hcons, bind_eq_ok, List.forall_mem_cons, ← ih]
      constructor
      · rintro ⟨_, ha, hl⟩
        exact ⟨ha, hl⟩
      · rintro ⟨ha, hl⟩
        exact ⟨(), ha, hl⟩

theorem validateKeys_eq_ok {keys : List String} {apps : List Deployment} {u : Unit} :
    validateKeys keys apps = .ok u ↔
      (apps.map Deployment.key).Nodup ∧ ∀ app ∈ apps, app.key ∉ keys := by
  induction apps generalizing keys with
  | nil => simp [validateKeys]
  | cons app apps ih =>
      simp only [validateKeys, bind_eq_ok, bailIf_eq_ok, exists_const, ih, List.map_cons,
        List.nodup_cons, List.mem_map, not_exists, not_and, List.mem_cons, not_or, forall_eq_or_imp]
      constructor
      · rintro ⟨happ, hnodup, hrest⟩
        exact ⟨⟨fun a ha ↦ (hrest a ha).1, hnodup⟩, happ, fun a ha ↦ (hrest a ha).2⟩
      · rintro ⟨⟨hne, hnodup⟩, happ, hrest⟩
        exact ⟨happ, hnodup, fun a ha ↦ ⟨hne a ha, hrest a ha⟩⟩

/-- What `validate` checks of a stack. -/
structure Valid (stack : Stack) : Prop where
  apps_ne : stack.apps ≠ []
  apps_ok : ∀ app ∈ stack.apps, app.validate = .ok ()
  nodup_keys : (stack.apps.map Deployment.key).Nodup
  published : ∀ app ∈ stack.apps, ∀ dep ∈ app.dependsOn,
    (app.nameSpace, dep.service) ∈ stack.published
  order_ok : ∃ order, stack.applyOrder = .ok order

theorem validate_eq_ok : stack.validate = .ok () ↔ stack.Valid := by
  have hdiscard : discard stack.applyOrder = .ok () ↔ ∃ order, stack.applyOrder = .ok order := by
    cases h : stack.applyOrder with
    | error e =>
        have hdiscard : discard (Except.error e : Except String (List String)) = .error e := rfl
        simp [hdiscard]
    | ok order =>
        have hdiscard : discard (Except.ok order : Except String (List String)) = .ok () := rfl
        simp [hdiscard]
  simp only [validate, bind_eq_ok, bailIf_eq_ok, forM_eq_ok, exists_const, hdiscard, not_not,
    validateKeys_eq_ok]
  constructor
  · rintro ⟨h1, h2, h3, h4, h5⟩
    exact ⟨h1, h2, h3.1, h4, h5⟩
  · rintro ⟨h1, h2, h3, h4, h5⟩
    exact ⟨h1, h2, ⟨h3, by simp⟩, h4, h5⟩

/-! ## Producers and consumers -/

/-- Every publisher of a service comes before every app of its namespace that depends on
the service. -/
def ProducersFirst (stack : Stack) (order : List String) : Prop :=
  ∀ a ∈ stack.apps, ∀ dep ∈ a.dependsOn, ∀ b ∈ stack.apps,
    Publishes b a.nameSpace dep.service → Precedes order b.key a.key

/-- The peaks of every publisher of a service are below those of every app of its namespace
that depends on the service. -/
def ProducersBelow (stack : Stack) : Prop :=
  ∀ a ∈ stack.apps, ∀ dep ∈ a.dependsOn, ∀ b ∈ stack.apps,
    Publishes b a.nameSpace dep.service → stack.links.peaks b.key < stack.links.peaks a.key

theorem Valid.perm {order : List String} (h : stack.Valid) (horder : stack.applyOrder = .ok order) :
    order.Perm (stack.apps.map Deployment.key) := by
  obtain ⟨hleast, hmem⟩ := applyOrder_ok horder
  exact (List.perm_ext_iff_of_nodup hleast.nodup h.nodup_keys).mpr hmem

theorem producersFirst_iff {order : List String} (horder : stack.applyOrder = .ok order) :
    stack.ProducersFirst order ↔ stack.ProducersBelow := by
  obtain ⟨hleast, hmem⟩ := applyOrder_ok horder
  have hall : stack.links.nodes ⊆ order := fun k hk ↦ (hmem k).mpr hk
  have hiff : ∀ a ∈ stack.apps, ∀ b ∈ stack.apps,
      (Precedes order b.key a.key ↔ stack.links.peaks b.key < stack.links.peaks a.key) :=
    fun a ha b hb ↦
      hleast.precedes_iff hall (List.mem_map_of_mem hb) (List.mem_map_of_mem ha)
  constructor
  · intro h a ha dep hdep b hb hpub
    exact (hiff a ha b hb).mp (h a ha dep hdep b hb hpub)
  · intro h a ha dep hdep b hb hpub
    exact (hiff a ha b hb).mpr (h a ha dep hdep b hb hpub)

/-- **When a stack is applied producers first**: a validated stack is ordered, each key
once, and every publisher comes before its consumers exactly when its peaks are below
theirs. -/
theorem applyOrder_producers_iff (h : stack.validate = .ok ()) :
    (∃ order, stack.applyOrder = .ok order ∧ order.Perm (stack.apps.map Deployment.key)) ∧
      ((∃ order, stack.applyOrder = .ok order ∧ order.Perm (stack.apps.map Deployment.key) ∧
          stack.ProducersFirst order) ↔ stack.ProducersBelow) := by
  have hvalid := validate_eq_ok.mp h
  obtain ⟨order, horder⟩ := hvalid.order_ok
  have hperm := hvalid.perm horder
  refine ⟨⟨order, horder, hperm⟩, ?_⟩
  rw [← producersFirst_iff horder]
  constructor
  · rintro ⟨order', horder', _, hfirst⟩
    obtain rfl := Except.ok.inj (horder.symm.trans horder')
    exact hfirst
  · exact fun hfirst ↦ ⟨order, horder, hperm, hfirst⟩

theorem validateDeps_service_ne {name service : String} {seen : List String}
    {deps : List DependencyRef} (h : validateDeps name service seen deps = .ok ()) :
    ∀ dep ∈ deps, dep.service ≠ service := by
  induction deps generalizing seen with
  | nil => exact fun dep hdep ↦ absurd hdep List.not_mem_nil
  | cons dep deps ih =>
      simp only [validateDeps, bind_eq_ok, bailIf_eq_ok, mapError_eq_ok, exists_const] at h
      obtain ⟨_, _, hne, _, hrest⟩ := h
      exact List.forall_mem_cons.mpr ⟨hne, ih hrest⟩

/-- Where no service has two publishers, producers come first. -/
theorem producersFirst_of_unique {order : List String} (h : stack.Valid)
    (horder : stack.applyOrder = .ok order)
    (hunique : ∀ a ∈ stack.apps, ∀ dep ∈ a.dependsOn, ∀ b ∈ stack.apps, ∀ b' ∈ stack.apps,
      Publishes b a.nameSpace dep.service → Publishes b' a.nameSpace dep.service → b = b') :
    stack.ProducersFirst order := by
  intro a ha dep hdep b hb hpub
  obtain ⟨hleast, hmem⟩ := applyOrder_ok horder
  have hmem' : b ∈ stack.apps.filter (Publishes · a.nameSpace dep.service) :=
    List.mem_filter.mpr ⟨hb, decide_eq_true hpub⟩
  obtain ⟨owner, howner⟩ := Option.isSome_iff_exists.mp
    (List.getLast?_isSome.mpr (List.ne_nil_of_mem hmem'))
  obtain ⟨hin, hpub'⟩ := List.mem_filter.mp (List.mem_of_getLast? howner)
  obtain rfl := hunique a ha dep hdep b hb owner hin hpub (of_decide_eq_true hpub')
  have hne : b.key ≠ a.key := by
    intro heq
    have hab : b = a := List.inj_on_of_nodup_map h.nodup_keys hb ha heq
    have hdeps := (Deployment.validate_eq_ok.mp (h.apps_ok a ha)).dependsOn_ok
    exact validateDeps_service_ne hdeps dep hdep (hab ▸ hpub.2.2).symm
  exact hleast.precedes_of_dep ((hmem a.key).mpr (List.mem_map_of_mem ha))
    ⟨a, ha, rfl, dep, hdep, b, howner, rfl, hne⟩

end Stack

section Example

/-- An app that publishes a service and depends on others. -/
def stackApp (name service : String) (dependsOn : List String) : Deployment where
  name
  nameSpace := "default"
  image := "nginx"
  replicas := 1
  service
  dependsOn := dependsOn.map fun service ↦ { service }

/-- The service `db` has two publishers, and the link to the one listed last is the only
one. -/
def twoPublishers : Stack where
  apps := [stackApp "z" "db" [], stackApp "a" "" ["db"], stackApp "b" "db" []]

/-- The other publisher comes after the consumer. -/
theorem twoPublishers_not_producersFirst :
    twoPublishers.validate = .ok () ∧
      ¬ ∃ order, twoPublishers.applyOrder = .ok order ∧
        order.Perm (twoPublishers.apps.map Deployment.key) ∧
          twoPublishers.ProducersFirst order := by
  have horder : twoPublishers.applyOrder = .ok ["default/b", "default/a", "default/z"] := by
    decide +kernel
  refine ⟨by decide +kernel, ?_⟩
  rintro ⟨order, heq, _, hfirst⟩
  obtain rfl := Except.ok.inj (horder.symm.trans heq)
  have hza := hfirst (stackApp "a" "" ["db"]) (by decide) ⟨"db", false⟩ (by decide)
    (stackApp "z" "db" []) (by decide) (by decide)
  have haz : Precedes ["default/b", "default/a", "default/z"] "default/a" "default/z" :=
    ⟨["default/b", "default/a"], [], rfl, by decide⟩
  exact haz.asymm (by decide) hza

/-- A stack in which the consumer is listed first. -/
def onePublisher : Stack where
  apps := [stackApp "web" "" ["db"], stackApp "db" "db" []]

/-- It is applied first all the same, and its peaks are below those of the consumer. -/
theorem applyOrder_producers_onePublisher :
    onePublisher.applyOrder = .ok ["default/db", "default/web"] ∧
      onePublisher.ProducersFirst ["default/db", "default/web"] ∧
      onePublisher.ProducersBelow := by
  have horder : onePublisher.applyOrder = .ok ["default/db", "default/web"] := by
    decide +kernel
  have hfirst : onePublisher.ProducersFirst ["default/db", "default/web"] := by
    intro a ha dep hdep b hb hpub
    rcases List.mem_pair.mp ha with rfl | rfl
    · obtain rfl := List.mem_singleton.mp hdep
      rcases List.mem_pair.mp hb with rfl | rfl
      · exact absurd hpub (by decide)
      · exact ⟨["default/db"], [], rfl, by decide⟩
    · exact absurd hdep List.not_mem_nil
  exact ⟨horder, hfirst, (Stack.applyOrder_producers_iff (by decide +kernel)).2.mp
    ⟨_, horder, by decide +kernel, hfirst⟩⟩

end Example

end CeGke
