import CeGke.Cli.History

/-!
# What an undo rolls back

An undo puts an entry of the history in the place of the spec and keeps the name, the namespace
and the count of the spec.  An entry of the history is a whole deployment, though, as it was when
its revision was left: what is no part of the pod template goes back with it, unless it was the
same then (`templateRolledBack_iff`).
-/

namespace CeGke

namespace Deployment

/-- `d` with the pod template of `prior`. -/
def withTemplate (d prior : Deployment) : Deployment :=
  { d with
    image := prior.image
    command := prior.command
    resources := prior.resources
    bid := prior.bid
    durationSecs := prior.durationSecs
    env := prior.env }

/-- Two deployments agree on all that is neither part of the pod template nor of the identity
nor scaled. -/
structure SamePolicy (d e : Deployment) : Prop where
  select : d.select = e.select
  strategy : d.strategy = e.strategy
  liveness : d.liveness = e.liveness
  readiness : d.readiness = e.readiness
  service : d.service = e.service
  dependsOn : d.dependsOn = e.dependsOn

instance (d e : Deployment) : Decidable (d.SamePolicy e) :=
  decidable_of_iff
    (d.select = e.select ∧ d.strategy = e.strategy ∧ d.liveness = e.liveness ∧
      d.readiness = e.readiness ∧ d.service = e.service ∧ d.dependsOn = e.dependsOn)
    ⟨fun ⟨h1, h2, h3, h4, h5, h6⟩ ↦ ⟨h1, h2, h3, h4, h5, h6⟩,
      fun h ↦ ⟨h.select, h.strategy, h.liveness, h.readiness, h.service, h.dependsOn⟩⟩

end Deployment

/-- An undo leaves the spec with the template of the entry it takes exactly where that entry has
the policy of the spec. -/
theorem ManagedDeployment.rolledBack_spec_iff (m : ManagedDeployment) (prior : Deployment)
    (history : List Deployment) :
    (m.rolledBack prior history).spec = m.spec.withTemplate prior ↔ prior.SamePolicy m.spec := by
  constructor
  · intro h
    exact ⟨(congrArg Deployment.select h :), (congrArg Deployment.strategy h :),
      (congrArg Deployment.liveness h :), (congrArg Deployment.readiness h :),
      (congrArg Deployment.service h :), (congrArg Deployment.dependsOn h :)⟩
  · intro h
    simp only [rolledBack, Deployment.withTemplate, h.select, h.strategy, h.liveness, h.readiness,
      h.service, h.dependsOn]

namespace Cli

section Undo

variable {σ : Type} [Sha256] (cli : Cli) (driver : MeshDriver σ) (clock : String → ℕ → UInt64)
  {name : String} {toRevision : Option String} {p : CliState σ}

/-- From one store to the next the entry of `key` takes back the pod template of the entry of its
history that was asked for, and nothing else of what was decided changes. -/
structure TemplateRolledBack (key : String) (toRevision : Option String) (store store' : Store) :
    Prop where
  entry : ∃ m m' prior history, store.get key = some m ∧
    takeRevision key m.history toRevision = .ok (prior, history) ∧ store'.get key = some m' ∧
      m'.spec = m.spec.withTemplate prior ∧ m'.grant = m.grant ∧ m'.paused = m.paused
  others : ∀ key', key' ≠ key → store'.get key' = store.get key'

/-- An undo that ends well has found the deployment and an entry in its history. -/
theorem exists_of_undo_ok
    (hok : (cli.rolloutCmd driver clock (.undo name toRevision) p).1 = .ok ()) :
    ∃ m prior history, p.store.get (cli.keyOf name) = some m ∧
      takeRevision (cli.keyOf name) m.history toRevision = .ok (prior, history) := by
  simp only [rolloutCmd] at hok
  split at hok
  · cases hok
  · rename_i m hget
    split at hok
    · cases hok
    · rename_i prior history htake
      exact ⟨m, prior, history, hget, htake⟩

/-- An undo touches one entry. -/
theorem undo_get_of_ne {key' : String} (h : key' ≠ cli.keyOf name) :
    (cli.rolloutCmd driver clock (.undo name toRevision) p).2.store.get key' =
      p.store.get key' := by
  simp only [rolloutCmd]
  split
  · rfl
  · split
    · rfl
    · rw [cli.reconcileToConvergence_get_of_ne driver clock h, Store.get_modify, if_neg h]

/-- **Undo rolls back only the pod template** exactly when the entry of the history that it takes
has the policy of the current spec. -/
theorem templateRolledBack_iff
    (hok : (cli.rolloutCmd driver clock (.undo name toRevision) p).1 = .ok ()) :
    TemplateRolledBack (cli.keyOf name) toRevision p.store
        (cli.rolloutCmd driver clock (.undo name toRevision) p).2.store ↔
      ∀ m prior history, p.store.get (cli.keyOf name) = some m →
        takeRevision (cli.keyOf name) m.history toRevision = .ok (prior, history) →
          prior.SamePolicy m.spec := by
  obtain ⟨m, prior, history, hget, htake⟩ := cli.exists_of_undo_ok driver clock hok
  obtain ⟨m', hget', ⟨-, herror⟩ | ⟨-, prior', history', replicas, htake', rfl⟩⟩ :=
    cli.undo_get driver clock name toRevision hget
  · obtain ⟨e, he⟩ := herror rfl
    exact nomatch he.symm.trans htake
  · obtain ⟨rfl, rfl⟩ := Prod.mk.inj (Except.ok.inj (htake.symm.trans htake'))
    constructor
    · rintro ⟨⟨m₁, m₁', prior₁, history₁, hget₁, htake₁, hget₁', hspec, -⟩, -⟩ m₂ prior₂ history₂
        hget₂ htake₂
      obtain rfl := Option.some.inj (hget.symm.trans hget₁)
      obtain rfl := Option.some.inj (hget.symm.trans hget₂)
      obtain rfl := Option.some.inj (hget'.symm.trans hget₁')
      obtain ⟨rfl, rfl⟩ := Prod.mk.inj (Except.ok.inj (htake.symm.trans htake₁))
      obtain ⟨rfl, rfl⟩ := Prod.mk.inj (Except.ok.inj (htake.symm.trans htake₂))
      exact (m.rolledBack_spec_iff prior history).mp hspec
    · intro h
      refine ⟨⟨m, _, prior, history, hget, htake, hget', ?_, rfl, rfl⟩, fun key' hne ↦
        cli.undo_get_of_ne driver clock hne⟩
      exact (m.rolledBack_spec_iff prior history).mpr (h m prior history hget htake)

end Undo

section Example

/-- A manifest that makes the second revision a service. -/
def applyService : Cmd :=
  .apply (.ok (.single (.ok
    { name := "web", nameSpace := "default", image := "nginx:2", replicas := 1
      service := "web" })))

/-- `ce-gke rollout undo web`, on a mesh without hosts. -/
def undoWeb (store : Store) : Ended Unit :=
  @rolloutCmd _ Deployment.nginxSha256 { maxTicks := 1 } (stuckDriver []) (fun _ _ ↦ 0)
    (.undo "web" none) ⟨store, ()⟩

/-- The undo of an image takes the service along that came with it. -/
theorem templateRolledBack_fails :
    let store := session [applyWeb "nginx", applyService]
    @Store.Run Deployment.nginxSha256 {} store ∧ (undoWeb store).1 = .ok () ∧
      ¬ @TemplateRolledBack Deployment.nginxSha256 "default/web" none store
        (undoWeb store).2.store := by
  intro store
  refine ⟨run_session _, by decide +kernel, fun h ↦ ?_⟩
  obtain ⟨m, m', prior, _, hget, _, hget', hspec, -⟩ :=
    @TemplateRolledBack.entry Deployment.nginxSha256 _ _ _ _ h
  have hbefore : (store.get "default/web").map (·.spec.service) = some "web" := by
    decide +kernel
  have hafter : ((undoWeb store).2.store.get "default/web").map (·.spec.service) = some "" := by
    decide +kernel
  rw [hget, Option.map_some, Option.some.injEq] at hbefore
  rw [hget', Option.map_some, Option.some.injEq, hspec] at hafter
  exact absurd (hbefore.symm.trans hafter) (by decide)

/-- The undo of an image alone takes nothing else along. -/
theorem templateRolledBack_web :
    let store := session [applyWeb "nginx", applyWeb "nginx:2"]
    @TemplateRolledBack Deployment.nginxSha256 "default/web" none store
      (undoWeb store).2.store := by
  intro store
  refine (@templateRolledBack_iff _ Deployment.nginxSha256 { maxTicks := 1 } (stuckDriver [])
    (fun _ _ ↦ 0) "web" none ⟨store, ()⟩ (by decide +kernel)).mpr
      fun m prior history hget htake ↦ ?_
  have hsame : ((store.get "default/web").bind fun m ↦
      (@takeRevision Deployment.nginxSha256 "default/web" m.history none).toOption.map
        fun taken ↦ decide (taken.1.SamePolicy m.spec)) = some true := by
    decide +kernel
  have hget' : store.get "default/web" = some m := hget
  have htake' : @takeRevision Deployment.nginxSha256 "default/web" m.history none =
      .ok (prior, history) := htake
  rw [hget', Option.bind_some, htake'] at hsame
  exact of_decide_eq_true (Option.some.inj hsame)

end Example

end Cli

end CeGke
