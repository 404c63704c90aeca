import CeGke.Lib.SortedMap
import CeGke.Reconcile
import CeGke.Revision
import Mathlib.Data.String.Basic

/-!
# The store

What the orchestrator persists between commands (`src/state.rs`): for every managed
deployment its spec and the replicas launched for it.  The `BTreeMap` of the source is
a map sorted by key.
-/

namespace CeGke

open Lib

/-- `STORE_VERSION`. -/
def storeVersion : UInt32 := 1

/-- `MAX_HISTORY`. -/
def maxHistory : ℕ := 10

/-- One managed deployment. -/
structure ManagedDeployment where
  spec : Deployment := {}
  replicas : List ReplicaState := []
  grant : Option String := none
  history : List Deployment := []
  paused : Bool := false
deriving DecidableEq, Repr

/-- The whole persisted store, by key. -/
structure Store where
  version : UInt32 := storeVersion
  deployments : SortedMap String ManagedDeployment := SortedMap.empty
deriving DecidableEq

/-- `ManagedDeployment::push_history`: unless the newest entry has the same revision. -/
def ManagedDeployment.pushHistory [Sha256] (m : ManagedDeployment) (prior : Deployment) :
    ManagedDeployment :=
  if m.history.getLast?.map Deployment.revision = some prior.revision then m
  else
    let history := m.history ++ [prior]
    { m with history := history.drop (history.length - maxHistory) }

namespace Store

/-- `Store::get`. -/
def get (store : Store) (key : String) : Option ManagedDeployment := store.deployments.get key

/-- What the source does through `Store::get_mut`. -/
def modify (store : Store) (key : String) (f : ManagedDeployment → ManagedDeployment) : Store :=
  { store with deployments := store.deployments.modify key f }

/-- Record the handles of a controller. -/
def setReplicas (store : Store) (key : String) (replicas : List ReplicaState) : Store :=
  store.modify key fun m ↦ { m with replicas }

/-- `Store::upsert`: replace the spec, keep replicas and grant. -/
def upsert [Sha256] (store : Store) (spec : Deployment) (grant : Option String) : Store :=
  let key := spec.key
  let entry := (store.get key).getD {}
  let entry :=
    if entry.spec.image ≠ "" ∧ entry.spec.revision ≠ spec.revision then
      entry.pushHistory entry.spec
    else entry
  let entry := { entry with spec, grant := grant.or entry.grant }
  { store with deployments := store.deployments.insert key entry }

/-- `Store::remove`. -/
def remove (store : Store) (key : String) : Store :=
  { store with deployments := store.deployments.erase key }

/-- `Store::names`. -/
def names (store : Store) : List String := store.deployments.keys

/-- `Store::names_in`. -/
def namesIn (store : Store) (nameSpace : String) : List String :=
  (store.deployments.entries.filter fun e ↦ e.2.spec.nameSpace = nameSpace).map Prod.fst

/-- One turn of the loop in `Store::migrate`: a bare key becomes `namespace/name`. -/
def migrateEntry (deployments : SortedMap String ManagedDeployment)
    (e : String × ManagedDeployment) : SortedMap String ManagedDeployment :=
  let (key, managed) := e
  let managed :=
    if managed.spec.nameSpace = "" then
      { managed with spec := { managed.spec with nameSpace := "default" } }
    else managed
  deployments.insert (if '/' ∈ key.toList then key else managed.spec.key) managed

/-- `Store::migrate`. -/
def migrate (store : Store) : Store :=
  if store.version ≥ storeVersion then { store with version := storeVersion }
  else
    { version := storeVersion
      deployments := store.deployments.entries.foldl migrateEntry SortedMap.empty }

/-- A store of this version is left as it is. -/
theorem migrate_of_current {store : Store} (h : store.version = storeVersion) :
    store.migrate = store := by
  rw [migrate, if_pos (UInt32.le_of_eq h.symm), ← h]

theorem get_modify (store : Store) (key key' : String)
    (f : ManagedDeployment → ManagedDeployment) :
    (store.modify key f).get key' =
      if key' = key then (store.get key').map f else store.get key' :=
  SortedMap.get_modify _ _ _ _

theorem get_setReplicas_of_ne (store : Store) {key key' : String} (h : key' ≠ key)
    (replicas : List ReplicaState) :
    (store.setReplicas key replicas).get key' = store.get key' := by
  rw [setReplicas, get_modify, if_neg h]

theorem get_setReplicas_self (store : Store) (key : String) (replicas : List ReplicaState) :
    (store.setReplicas key replicas).get key =
      (store.get key).map fun m ↦ { m with replicas } := by
  rw [setReplicas, get_modify, if_pos rfl]

/-- An upsert keeps the handles that are tracked. -/
theorem get_upsert [Sha256] (store : Store) (spec : Deployment) (grant : Option String) :
    ∃ m, (store.upsert spec grant).get spec.key = some m ∧ m.spec = spec ∧
      m.replicas = ((store.get spec.key).getD {}).replicas := by
  refine ⟨_, (SortedMap.get_insert _ _ _ _).trans (if_pos rfl), rfl, ?_⟩
  simp only [ManagedDeployment.pushHistory]
  split_ifs <;> rfl

theorem get_upsert_of_ne [Sha256] (store : Store) (spec : Deployment) (grant : Option String)
    {key : String} (h : key ≠ spec.key) : (store.upsert spec grant).get key = store.get key :=
  (SortedMap.get_insert _ _ _ _).trans (if_neg h)

end Store

end CeGke
