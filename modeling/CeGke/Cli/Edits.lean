import CeGke.Cli
import Mathlib.Logic.Relation

/-!
# What commands do to the store

Every command and every pass changes the store by a sequence of a few kinds of edits
(`Cli.exec_edits`, `reconcilePass_edits`), whatever the mesh answers and whether or not the
command ends well.  What the edits preserve, all of them preserve.
-/

namespace CeGke

open Relation

variable {σ : Type} [Sha256]

/-! ## What an undo takes -/

namespace Cli

variable {rev : String} {history rest : List Deployment} {prior : Deployment}

theorem splitRevision_eq_none :
    splitRevision rev history = none ↔ ∀ h ∈ history, h.revision ≠ rev := by
  induction history with
  | nil => simp [splitRevision]
  | cons h history ih =>
      rw [List.forall_mem_cons, ← ih, splitRevision]
      cases splitRevision rev history with
      | some taken => simp
      | none => simp

/-- The last entry that has the revision is taken. -/
theorem splitRevision_eq_some (h : splitRevision rev history = some (prior, rest)) :
    ∃ before after, history = before ++ prior :: after ∧ rest = before ++ after ∧
      prior.revision = rev ∧ ∀ d ∈ after, d.revision ≠ rev := by
  induction history generalizing rest with
  | nil => exact absurd h (by simp [splitRevision])
  | cons d history ih =>
      rw [splitRevision] at h
      cases htaken : splitRevision rev history with
      | some taken =>
          obtain ⟨prior', rest'⟩ := taken
          rw [htaken] at h
          simp only [Option.some.injEq, Prod.mk.injEq] at h
          obtain ⟨rfl, rfl⟩ := h
          obtain ⟨before, after, hhistory, hrest, hrev⟩ := ih htaken
          exact ⟨d :: before, after, by rw [hhistory, List.cons_append],
            by rw [hrest, List.cons_append], hrev⟩
      | none =>
          rw [htaken] at h
          simp only [Option.ite_none_right_eq_some, Option.some.injEq, Prod.mk.injEq] at h
          obtain ⟨hrev, rfl, rfl⟩ := h
          exact ⟨[], history, rfl, rfl, hrev, splitRevision_eq_none.mp htaken⟩

/-- An undo takes one entry out of the history, the newest that it may. -/
theorem takeRevision_eq_ok {key : String} {toRevision : Option String}
    (h : takeRevision key history toRevision = .ok (prior, rest)) :
    ∃ before after, history = before ++ prior :: after ∧ rest = before ++ after ∧
      (∀ rev ∈ toRevision, prior.revision = rev ∧ ∀ d ∈ after, d.revision ≠ rev) ∧
      (toRevision = none → after = []) := by
  cases toRevision with
  | none =>
      simp only [takeRevision] at h
      cases hlast : history.getLast? with
      | none =>
          rw [hlast] at h
          exact absurd h (by simp)
      | some d =>
          rw [hlast] at h
          simp only [Except.ok.injEq, Prod.mk.injEq] at h
          obtain ⟨rfl, rfl⟩ := h
          obtain ⟨before, rfl⟩ := List.getLast?_eq_some_iff.mp hlast
          exact ⟨before, [], rfl, by simp, by simp, fun _ ↦ rfl⟩
  | some rev =>
      simp only [takeRevision] at h
      cases htaken : splitRevision rev history with
      | none =>
          rw [htaken] at h
          exact absurd h (by simp)
      | some taken =>
          rw [htaken] at h
          obtain rfl := Except.ok.inj h
          obtain ⟨before, after, hhistory, hrest, hrev⟩ := splitRevision_eq_some htaken
          refine ⟨before, after, hhistory, hrest, ?_, by simp⟩
          rintro _ ⟨⟩
          exact hrev

end Cli

/-! ## Edits -/

/-- The entry that `rollout undo` leaves, having taken `prior` out of the history. -/
def ManagedDeployment.rolledBack (m : ManagedDeployment) (prior : Deployment)
    (history : List Deployment) : ManagedDeployment :=
  { m with
    history
    spec :=
      { prior with
        replicas := m.spec.replicas
        nameSpace := m.spec.nameSpace
        name := m.spec.name } }

/-- The edits of the store. -/
inductive Store.Edit : Store → Store → Prop
  | /-- A spec that passed its validation is applied. -/
    upsert {store : Store} {spec : Deployment} (grant : Option String) :
      spec.validate = .ok () → Edit store (store.upsert spec grant)
  | /-- A deployment is scaled. -/
    scale {store : Store} (key : String) {replicas : UInt32} :
      replicas.toNat ≤ maxReplicas →
        Edit store (store.modify key fun m ↦ { m with spec := { m.spec with replicas } })
  | /-- A deployment is rolled back to an entry of its history. -/
    undo {store : Store} {key : String} {managed : ManagedDeployment}
      {toRevision : Option String} {prior : Deployment} {history : List Deployment} :
      store.get key = some managed →
        Cli.takeRevision key managed.history toRevision = .ok (prior, history) →
          Edit store (store.modify key (·.rolledBack prior history))
  | /-- A rollout is paused or resumed. -/
    pause {store : Store} (key : String) (paused : Bool) :
      Edit store (store.modify key ({ · with paused }))
  | /-- The handles of a controller are recorded. -/
    setReplicas {store : Store} (key : String) (replicas : List ReplicaState) :
      Edit store (store.setReplicas key replicas)
  | /-- A deployment is removed. -/
    remove {store : Store} (key : String) : Edit store (store.remove key)

/-- One store becomes another by edits. -/
def Store.Edits : Store → Store → Prop := ReflTransGen Store.Edit

theorem tickLoop_edits (driver : MeshDriver σ) (clock : ℕ → UInt64) (spec : Deployment)
    (key : String) (left tick : ℕ) (ctrl : Controller) (p : CliState σ) :
    p.store.Edits (tickLoop driver clock spec key left tick ctrl p).store := by
  have hedits := @tickLoop_of_tick σ _ driver clock spec key fun p q ↦ p.store.Edits q.store
  refine hedits (fun _ ↦ ReflTransGen.refl) (fun _ _ _ ↦ ReflTransGen.trans) ?_ left tick ctrl p
  exact fun tick ctrl p ↦ ReflTransGen.single (.setReplicas key _)

theorem reconcilePass_edits (driver : MeshDriver σ) (clock : String → UInt64)
    (fallbackGrant nameSpace : Option String) (store : Store) (mesh : σ) :
    store.Edits (reconcilePass driver clock fallbackGrant nameSpace store mesh).store := by
  have hkey : ∀ (p : Pass σ) (key : String),
      p.store.Edits (reconcileKey driver clock fallbackGrant p key).store := by
    intro p key
    unfold reconcileKey
    split
    · exact ReflTransGen.refl
    · exact ReflTransGen.single (.setReplicas key _)
  have hfold : ∀ (keys : List String) (p : Pass σ),
      p.store.Edits (keys.foldl (reconcileKey driver clock fallbackGrant) p).store := by
    intro keys
    induction keys with
    | nil => exact fun p ↦ ReflTransGen.refl
    | cons key keys ih => exact fun p ↦ (hkey p key).trans (ih _)
  exact hfold _ { store, mesh }

namespace Cli

variable (cli : Cli) (driver : MeshDriver σ) (preflights : ℕ → Preflight)
  (clock : String → ℕ → UInt64)

theorem reconcileToConvergence_edits (key : String) (p : CliState σ) :
    p.store.Edits (cli.reconcileToConvergence driver clock key p).2.store := by
  unfold reconcileToConvergence
  split
  · exact ReflTransGen.refl
  · exact tickLoop_edits driver _ _ _ _ _ _ _

/-- An edit, and the reconciling that follows it. -/
theorem edits_of_edit {p : CliState σ} {store : Store} (key : String) (h : p.store.Edit store) :
    p.store.Edits (cli.reconcileToConvergence driver clock key { p with store }).2.store :=
  ReflTransGen.head h (cli.reconcileToConvergence_edits driver clock key { p with store })

theorem applyOne_edits (pre : Preflight) (spec : Deployment) (p : CliState σ) :
    p.store.Edits (cli.applyOne driver clock pre spec p).2.store := by
  unfold applyOne
  cases hcheck : cli.check pre spec with
  | error e => exact ReflTransGen.refl
  | ok u =>
      obtain ⟨_, hvalid, _⟩ := bind_eq_ok.mp hcheck
      exact cli.edits_of_edit driver clock spec.key (.upsert cli.grant hvalid)

theorem applyApps_edits (i : ℕ) (apps : List Deployment) (p : CliState σ) :
    p.store.Edits (cli.applyApps driver preflights clock i apps p).2.store := by
  have hedits := @applyApps_of_applyOne σ _ cli driver preflights clock
    fun p q ↦ p.store.Edits q.store
  refine hedits (fun _ ↦ ReflTransGen.refl) (fun _ _ _ ↦ ReflTransGen.trans) ?_ i apps p
  exact fun i spec p ↦ cli.applyOne_edits driver clock (preflights i) spec p

theorem rolloutCmd_edits (op : RolloutOp) (p : CliState σ) :
    p.store.Edits (cli.rolloutCmd driver clock op p).2.store := by
  cases op with
  | status name =>
      simp only [rolloutCmd]
      split
      · exact ReflTransGen.refl
      · exact cli.reconcileToConvergence_edits driver clock _ p
  | undo name toRevision =>
      simp only [rolloutCmd]
      split
      · exact ReflTransGen.refl
      · rename_i managed hget
        split
        · exact ReflTransGen.refl
        · rename_i prior history htake
          exact cli.edits_of_edit driver clock _ (.undo hget htake)
  | pause name =>
      simp only [rolloutCmd]
      split
      · exact ReflTransGen.refl
      · exact ReflTransGen.single (.pause _ true)
  | resume name =>
      simp only [rolloutCmd]
      split
      · exact ReflTransGen.refl
      · exact cli.edits_of_edit driver clock _ (.pause _ false)
  | history name =>
      simp only [rolloutCmd]
      split <;> exact ReflTransGen.refl

/-- A command edits the store, whether or not it ends well. -/
theorem exec_edits (cmd : Cmd) (p : CliState σ) :
    p.store.Edits (cli.exec driver preflights clock cmd p).2.store := by
  cases cmd with
  | apply file =>
      rcases file with e | ⟨parsed⟩ | parsed
      · exact ReflTransGen.refl
      · simp only [exec, apply]
        split
        · exact ReflTransGen.refl
        · exact cli.applyOne_edits driver clock _ _ p
      · simp only [exec, apply, applyStack]
        split
        · exact ReflTransGen.refl
        · exact cli.applyApps_edits driver preflights clock 0 _ p
  | scale name replicas =>
      simp only [exec, scale]
      split
      · exact ReflTransGen.refl
      · split_ifs with hmax
        · exact ReflTransGen.refl
        · exact cli.edits_of_edit driver clock _ (.scale _ (not_lt.mp hmax))
  | rollout op => exact cli.rolloutCmd_edits driver clock op p
  | delete name force =>
      simp only [exec, delete]
      split
      · exact ReflTransGen.refl
      · split_ifs
        · exact ReflTransGen.refl
        · exact ReflTransGen.single (.remove _)

end Cli

end CeGke
