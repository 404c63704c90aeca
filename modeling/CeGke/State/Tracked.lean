import CeGke.Controller.Bounds
import CeGke.State
import Mathlib.Algebra.GroupWithZero.Nat
import Mathlib.Algebra.Order.BigOperators.Group.List

/-!
# The fleet

All that a store tracks, of whichever deployment (`Store.tracked`).  What is tracked of one
deployment and what is tracked of the others are the two parts of it (`Store.tracked_perm`), and
an edit of one entry leaves the second part alone.
-/

namespace CeGke

open Lib

namespace Store

/-- The replicas of all deployments. -/
def tracked (store : Store) : List ReplicaState :=
  store.deployments.entries.flatMap fun e ↦ e.2.replicas

/-- The replicas of one deployment. -/
def replicasAt (store : Store) (key : String) : List ReplicaState :=
  ((store.get key).getD {}).replicas

/-- The replicas of all deployments but one. -/
def others (store : Store) (key : String) : List ReplicaState := (store.remove key).tracked

variable {store : Store} {key : String}

theorem replicasAt_of_get {managed : ManagedDeployment} (h : store.get key = some managed) :
    store.replicasAt key = managed.replicas := by
  rw [replicasAt, h, Option.getD_some]

theorem mem_tracked {r : ReplicaState} :
    r ∈ store.tracked ↔ ∃ key managed, store.get key = some managed ∧ r ∈ managed.replicas := by
  simp only [tracked, List.mem_flatMap, Prod.exists, get, SortedMap.get_eq_some_iff]

/-- The fleet is what is tracked of one deployment and what is tracked of the others. -/
theorem tracked_perm (store : Store) (key : String) :
    store.tracked.Perm (store.replicasAt key ++ store.others key) := by
  rw [replicasAt, others, remove, tracked]
  cases h : store.get key with
  | none =>
      rw [SortedMap.erase_of_get_eq_none h]
      exact List.Perm.refl _
  | some managed => exact (SortedMap.entries_perm h).flatMap_right _

theorem get_remove (store : Store) (key key' : String) :
    (store.remove key).get key' = if key' = key then none else store.get key' :=
  SortedMap.get_erase _ _ _

theorem mem_others {r : ReplicaState} : r ∈ store.others key ↔
    ∃ key' ≠ key, ∃ managed, store.get key' = some managed ∧ r ∈ managed.replicas := by
  rw [others, mem_tracked]
  simp only [get_remove]
  constructor
  · rintro ⟨key', managed, hget, hr⟩
    split_ifs at hget with hkey
    exact ⟨key', hkey, managed, hget, hr⟩
  · rintro ⟨key', hkey, managed, hget, hr⟩
    exact ⟨key', managed, (if_neg hkey).trans hget, hr⟩

theorem mem_others_of_ne {key' : String} {r : ReplicaState} (hne : key' ≠ key)
    (hr : r ∈ store.replicasAt key') : r ∈ store.others key := by
  cases hget : store.get key' with
  | none =>
      rw [replicasAt, hget] at hr
      exact absurd hr List.not_mem_nil
  | some managed => exact mem_others.mpr ⟨key', hne, managed, hget, replicasAt_of_get hget ▸ hr⟩

/-! ## Edits -/

@[simp] theorem others_modify (store : Store) (key : String)
    (f : ManagedDeployment → ManagedDeployment) :
    (store.modify key f).others key = store.others key := by
  simp only [others, remove, modify, SortedMap.erase_modify]

@[simp] theorem others_setReplicas (store : Store) (key : String) (l : List ReplicaState) :
    (store.setReplicas key l).others key = store.others key :=
  others_modify _ _ _

@[simp] theorem others_upsert [Sha256] (store : Store) (spec : Deployment)
    (grant : Option String) :
    (store.upsert spec grant).others spec.key = store.others spec.key := by
  simp only [others, remove, upsert, SortedMap.erase_insert]

theorem replicasAt_setReplicas {managed : ManagedDeployment} (h : store.get key = some managed)
    (l : List ReplicaState) : (store.setReplicas key l).replicasAt key = l := by
  rw [replicasAt, get_setReplicas_self, h]
  rfl

theorem replicasAt_upsert [Sha256] (store : Store) (spec : Deployment) (grant : Option String) :
    (store.upsert spec grant).replicasAt spec.key = store.replicasAt spec.key := by
  obtain ⟨managed, hget, -, hreplicas⟩ := store.get_upsert spec grant
  rw [replicasAt_of_get hget, hreplicas, replicasAt]

/-- The fleet once other replicas are recorded for one deployment. -/
theorem tracked_setReplicas_perm {managed : ManagedDeployment} (h : store.get key = some managed)
    (l : List ReplicaState) : (store.setReplicas key l).tracked.Perm (l ++ store.others key) := by
  have hperm := (store.setReplicas key l).tracked_perm key
  rwa [others_setReplicas, replicasAt_setReplicas h] at hperm

/-- To apply a deployment tracks nothing new. -/
theorem tracked_upsert_perm [Sha256] (store : Store) (spec : Deployment) (grant : Option String) :
    (store.upsert spec grant).tracked.Perm store.tracked := by
  have hperm := (store.upsert spec grant).tracked_perm spec.key
  rw [others_upsert, replicasAt_upsert] at hperm
  exact hperm.trans (store.tracked_perm spec.key).symm

/-- The handles that are recorded last are the ones that are kept. -/
theorem setReplicas_setReplicas (store : Store) (key : String) (l l' : List ReplicaState) :
    (store.setReplicas key l).setReplicas key l' = store.setReplicas key l' := by
  obtain ⟨version, deployments⟩ := store
  simp only [setReplicas, modify, mk.injEq, true_and]
  refine SortedMap.ext_get fun key' ↦ ?_
  simp only [SortedMap.get_modify]
  split_ifs
  · exact Option.map_map ..
  · rfl

/-! ## Totals -/

/-- The sum over all deployments. -/
def total (f : ManagedDeployment → ℕ) (store : Store) : ℕ :=
  (store.deployments.entries.map fun e ↦ f e.2).sum

variable {f g : ManagedDeployment → ℕ}

theorem total_of_get {managed : ManagedDeployment} (h : store.get key = some managed) :
    store.total f = f managed + (store.remove key).total f := by
  have hperm := (SortedMap.entries_perm h).map fun e ↦ f e.2
  rw [total, hperm.sum_eq, List.map_cons, List.sum_cons]
  rfl

theorem total_mono (hle : ∀ managed, f managed ≤ g managed) (store : Store) :
    store.total f ≤ store.total g :=
  List.sum_le_sum fun e _ ↦ hle e.2

theorem length_tracked (store : Store) :
    store.tracked.length = store.total fun managed ↦ managed.replicas.length := by
  rw [tracked, List.length_flatMap]
  rfl

@[simp] theorem remove_setReplicas (store : Store) (key : String) (l : List ReplicaState) :
    (store.setReplicas key l).remove key = store.remove key := by
  simp only [remove, setReplicas, modify, SortedMap.erase_modify]

/-- Some deployments come to no more than all. -/
theorem sum_le_total {keys : List String} (hkeys : keys.Nodup) (store : Store) :
    (keys.map fun key ↦ ((store.get key).map f).getD 0).sum ≤ store.total f := by
  induction keys generalizing store with
  | nil => exact Nat.zero_le _
  | cons key keys ih =>
      rw [List.nodup_cons] at hkeys
      rw [List.map_cons, List.sum_cons]
      have hrest : ∀ k ∈ keys, (store.remove key).get k = store.get k := by
        intro k hk
        have hne : k ≠ key := fun heq ↦ hkeys.1 (heq ▸ hk)
        rw [get_remove, if_neg hne]
      have ih := ih hkeys.2 (store.remove key)
      rw [List.map_congr_left fun k hk ↦ by rw [hrest k hk]] at ih
      cases hget : store.get key with
      | none =>
          rw [Option.map_none, Option.getD_none, Nat.zero_add]
          refine ih.trans_eq ?_
          rw [remove, SortedMap.erase_of_get_eq_none hget]
      | some managed =>
          rw [total_of_get hget, Option.map_some, Option.getD_some]
          exact Nat.add_le_add_left ih _

end Store

/-- At most this many replicas of the deployment run at once. -/
def ManagedDeployment.room (managed : ManagedDeployment) : ℕ :=
  max managed.replicas.length (managed.spec.replicas.toNat + managed.spec.strategy.surge)

/-- At most this many replicas of all deployments run at once. -/
def Store.room (store : Store) : ℕ := store.total ManagedDeployment.room

namespace Store

variable {store : Store} {key : String} {managed : ManagedDeployment}

theorem length_tracked_le_room (store : Store) : store.tracked.length ≤ store.room := by
  rw [length_tracked]
  exact store.total_mono fun _ ↦ le_max_left _ _

/-- The other deployments leave it room. -/
theorem length_others_add_room_le (h : store.get key = some managed) :
    (store.others key).length + managed.room ≤ store.room := by
  rw [room, total_of_get h, Nat.add_comm]
  exact Nat.add_le_add_left (length_tracked_le_room _) _

/-- A deployment that stays within its room takes none from the others. -/
theorem room_setReplicas_le (h : store.get key = some managed) {l : List ReplicaState}
    (hl : l.length ≤ managed.room) : (store.setReplicas key l).room ≤ store.room := by
  have hget := store.get_setReplicas_self key l
  rw [h, Option.map_some] at hget
  rw [room, room, total_of_get hget, total_of_get h, remove_setReplicas]
  exact Nat.add_le_add_right (max_le hl (le_max_right _ _)) _

end Store

end CeGke
