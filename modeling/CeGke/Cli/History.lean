import CeGke.Cli.Leak
import CeGke.Cli.WellFormed

/-!
# What the history remembers

A deployment changes its revision in two ways.  An apply records the revision it leaves as
the newest entry of the history.  An undo takes an entry out of the history and puts it in the
place of the spec, which it records nowhere: the revision it leaves is the newest entry only
if it happened to be there already (`ManagedDeployment.UndoSafe`).  So a revision that was
rolled back cannot be rolled forward to again.
-/

namespace CeGke

open Relation

section Remembering

variable {σ : Type} [Sha256]

namespace ManagedDeployment

/-- The revisions of the history, newest last. -/
def revisions (m : ManagedDeployment) : List String := m.history.map Deployment.revision

/-- The history is `rest` but for an entry that became the spec, if one did. -/
def Retains (m : ManagedDeployment) (spec : Deployment) (rest : List Deployment) : Prop :=
  rest = m.history ∨ ∃ before taken after, m.history = before ++ taken :: after ∧
    rest = before ++ after ∧ taken.SameTemplate spec

/-- The revision that an undo is to roll back to. -/
def asked (m : ManagedDeployment) : Option String → Option String
  | some rev => some rev
  | none => m.revisions.getLast?

variable {m m' : ManagedDeployment}

end ManagedDeployment

/-! ## Commands -/

/-- The ticks change nothing of an entry but its handles. -/
theorem tickLoop_get (driver : MeshDriver σ) (clock : ℕ → UInt64) (spec : Deployment)
    (key : String) (left tick : ℕ) (ctrl : Controller) {p : CliState σ} {m : ManagedDeployment}
    (hget : p.store.get key = some m) :
    ∃ replicas, (tickLoop driver clock spec key left tick ctrl p).store.get key =
      some { m with replicas } := by
  have hkept := @tickLoop_of_tick _ _ driver clock spec key fun p q ↦
    ∀ m, p.store.get key = some m → ∃ replicas, q.store.get key = some { m with replicas }
  refine hkept (fun p m hget ↦ ⟨m.replicas, hget⟩) ?_ ?_ left tick ctrl p m hget
  · intro p q r hpq hqr m hget
    obtain ⟨replicas, hget'⟩ := hpq m hget
    obtain ⟨replicas', hget''⟩ := hqr _ hget'
    exact ⟨replicas', hget''⟩
  · intro tick ctrl p m hget
    have hset := p.store.get_setReplicas_self key
      (ctrl.tick driver spec p.mesh (clock tick)).2.1.replicas
    rw [hget, Option.map_some] at hset
    exact ⟨_, hset⟩

namespace Cli

variable (cli : Cli) (driver : MeshDriver σ) (preflights : ℕ → Preflight)
  (clock : String → ℕ → UInt64) {key : String} {m : ManagedDeployment} {p : CliState σ}

theorem reconcileToConvergence_get (key' : String) (hget : p.store.get key = some m) :
    ∃ replicas, (cli.reconcileToConvergence driver clock key' p).2.store.get key =
      some { m with replicas } := by
  by_cases hkey : key = key'
  · subst hkey
    simp only [reconcileToConvergence, hget]
    exact tickLoop_get driver _ _ key _ _ _ hget
  · rw [cli.reconcileToConvergence_get_of_ne driver clock hkey p]
    exact ⟨m.replicas, hget⟩

/-- What an undo makes of an entry. -/
theorem undo_get (name : String) (toRevision : Option String) (hget : p.store.get key = some m) :
    ∃ m', (cli.rolloutCmd driver clock (.undo name toRevision) p).2.store.get key = some m' ∧
      ((m' = m ∧ (cli.keyOf name = key →
          ∃ e, takeRevision key m.history toRevision = .error e)) ∨
        cli.keyOf name = key ∧ ∃ prior history replicas,
          takeRevision key m.history toRevision = .ok (prior, history) ∧
            m' = { m.rolledBack prior history with replicas }) := by
  simp only [rolloutCmd]
  split
  · rename_i hnone
    refine ⟨m, hget, Or.inl ⟨rfl, fun hkey ↦ ?_⟩⟩
    rw [hkey] at hnone
    exact absurd (hnone.symm.trans hget) (by simp)
  · rename_i managed hmanaged
    by_cases hkey : cli.keyOf name = key
    · subst hkey
      obtain rfl : managed = m := Option.some.inj (hmanaged.symm.trans hget)
      split
      · rename_i e htake
        exact ⟨managed, hget, Or.inl ⟨rfl, fun _ ↦ ⟨e, htake⟩⟩⟩
      · rename_i prior history htake
        have hmodify : (p.store.modify (cli.keyOf name) (·.rolledBack prior history)).get
            (cli.keyOf name) = some (managed.rolledBack prior history) := by
          rw [Store.get_modify, if_pos rfl, hget, Option.map_some]
        obtain ⟨replicas, h⟩ := cli.reconcileToConvergence_get driver clock (cli.keyOf name)
          (p := { p with
            store := p.store.modify (cli.keyOf name) (·.rolledBack prior history) }) hmodify
        exact ⟨_, h, Or.inr ⟨rfl, prior, history, replicas, htake, rfl⟩⟩
    · refine ⟨m, ?_, Or.inl ⟨rfl, fun h ↦ absurd h hkey⟩⟩
      split
      · exact hget
      · rw [cli.reconcileToConvergence_get_of_ne driver clock (Ne.symm hkey), Store.get_modify,
          if_neg (Ne.symm hkey)]
        exact hget

end Cli

end Remembering

section Example

end Example

end CeGke
