import CeGke.Lib.SortedMap
import CeGke.Spec
import Mathlib.Data.String.Basic
import Mathlib.Logic.Function.Basic

/-!
# Stacks

`src/stack.rs`: a manifest of several deployments, the checks made on it as a whole,
and the order in which its apps are applied.

The `BTreeMap`s and `BTreeSet`s of the source are maps and sets sorted by key; a
`HashMap` that is only asked for its values is a function, a `HashSet` that is only
asked for its members a list.
-/

namespace CeGke

open Lib

/-- A multi-deployment manifest. -/
structure Stack where
  nameSpace : Option String := none
  apps : List Deployment
deriving DecidableEq, Repr

/-! ## Topological order -/

/-- A dependency map: for each key the keys that must come first. -/
abbrev DepMap := SortedMap String (SortedSet String)

namespace DepMap

variable (deps : DepMap)

/-- The first loop of `topo_sort`: every key and every dependency is a node. -/
def nodes : SortedMap String ℕ :=
  deps.entries.foldl
    (fun indegree e ↦
      e.2.keys.foldl (fun indegree d ↦ indegree.orInsert d 0) (indegree.orInsert e.1 0))
    SortedMap.empty

/-- The second loop: how many dependencies each node waits for. -/
def indegrees : SortedMap String ℕ :=
  deps.entries.foldl (fun indegree e ↦ indegree.modify e.1 fun _ ↦ e.2.keys.length) deps.nodes

/-- The reverse edges: from a dependency to its dependents. -/
def dependents : SortedMap String (List String) :=
  deps.entries.foldl
    (fun m e ↦ e.2.keys.foldl (fun m d ↦ (m.orInsert d []).modify d (· ++ [e.1])) m)
    SortedMap.empty

end DepMap

/-- What the main loop of `topo_sort` works on. -/
structure TopoState where
  indegree : SortedMap String ℕ
  ready : SortedSet String
  order : List String := []

namespace TopoState

/-- A dependency of `node` is done. -/
def release (t : TopoState) (node : String) : TopoState :=
  match t.indegree.get node with
  | none => t
  | some n =>
      let t := { t with indegree := t.indegree.modify node fun _ ↦ n - 1 }
      if n - 1 = 0 then { t with ready := t.ready.insert node () } else t

/-- One turn of the main loop, if a node is ready. -/
def next (dependents : SortedMap String (List String)) (t : TopoState) : Option TopoState :=
  t.ready.keys.head?.map fun node ↦
    ((dependents.get node).getD []).foldl release
      { t with ready := t.ready.erase node, order := t.order ++ [node] }

/-- The main loop, for as many turns as there are nodes to order. -/
def run (dependents : SortedMap String (List String)) : ℕ → TopoState → TopoState
  | 0, t => t
  | turns + 1, t =>
      match t.next dependents with
      | none => t
      | some t => run dependents turns t

end TopoState

/-- `topo_sort`: Kahn's algorithm, ties broken by the order of the keys. -/
def topoSort (deps : DepMap) : Except String (List String) :=
  let indegree := deps.indegrees
  let ready : SortedSet String :=
    (indegree.entries.filter fun e ↦ e.2 = 0).foldl (fun ready e ↦ ready.insert e.1 ())
      SortedMap.empty
  let order := (TopoState.run deps.dependents indegree.keys.length { indegree, ready }).order
  if order.length ≠ indegree.keys.length then
    let stuck := ", ".intercalate (indegree.keys.filter fun k ↦ k ∉ order)
    .error s!"dependency cycle detected among: {stuck} (depends_on must form a DAG)"
  else .ok order

/-! ## The stack -/

/-- A deployment moves to `nameSpace` if it is still in the default one. -/
def Deployment.intoNameSpace (nameSpace : String) (d : Deployment) : Deployment :=
  if d.nameSpace = "default" then { d with nameSpace } else d

namespace Stack

variable (stack : Stack)

/-- `Stack::apply_namespace`. -/
def applyNameSpace : Stack :=
  match stack.nameSpace with
  | none => stack
  | some nameSpace => { stack with apps := stack.apps.map (Deployment.intoNameSpace nameSpace) }

/-- The app that publishes each service of each namespace: the last one listed. -/
def serviceOwner : String × String → Option String :=
  stack.apps.foldl
    (fun owner app ↦
      if app.service = "" then owner
      else Function.update owner (app.nameSpace, app.service) (some app.key))
    fun _ ↦ none

/-- The keys an app depends on, added to those that are there already. -/
def addEdges (entry : SortedSet String) (app : Deployment) : SortedSet String :=
  app.dependsOn.foldl
    (fun entry d ↦
      match stack.serviceOwner (app.nameSpace, d.service) with
      | none => entry
      | some owner => if owner ≠ app.key then entry.insert owner () else entry)
    entry

/-- The dependency edges between the apps. -/
def edges : DepMap :=
  stack.apps.foldl
    (fun deps app ↦ (deps.orInsert app.key SortedMap.empty).modify app.key (stack.addEdges · app))
    SortedMap.empty

/-- `Stack::apply_order`: the keys of the apps, producers first. -/
def applyOrder : Except String (List String) := topoSort stack.edges

/-- The loop that rejects a second app of the same key; `keys` holds those so far. -/
def validateKeys (keys : List String) : List Deployment → Except String Unit
  | [] => .ok ()
  | app :: apps => do
      bailIf (app.key ∈ keys) s!"stack declares two apps with the same key '{app.key}'"
      validateKeys (app.key :: keys) apps

/-- The services published in each namespace. -/
def published : List (String × String) :=
  (stack.apps.filter fun a ↦ a.service ≠ "").map fun a ↦ (a.nameSpace, a.service)

/-- `Stack::validate`. -/
def validate : Except String Unit := do
  bailIf (stack.apps = []) "stack has no apps (declare at least one under `apps:`)"
  stack.apps.forM Deployment.validate
  validateKeys [] stack.apps
  stack.apps.forM fun app ↦
    app.dependsOn.forM fun dep ↦
      bailIf ((app.nameSpace, dep.service) ∉ stack.published) <|
        s!"app '{app.name}' depends on service '{dep.service}', but no app in namespace " ++
          s!"'{app.nameSpace}' publishes it"
  discard stack.applyOrder

/-- `Stack::from_manifest`, given what the YAML parser returns. -/
def fromManifest (parsed : Except String Stack) : Except String Stack := do
  let stack ← parsed.mapError fun e ↦ s!"stack manifest is not valid YAML/JSON: {e}"
  stack.applyNameSpace.validate
  return stack.applyNameSpace

end Stack

/-- `Deployment::from_manifest`, given what the YAML parser returns. -/
def Deployment.fromManifest (parsed : Except String Deployment) : Except String Deployment := do
  let d ← parsed.mapError fun e ↦ s!"manifest is not valid YAML/JSON: {e}"
  d.validate
  return d

end CeGke
