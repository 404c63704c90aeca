import CeGke.Cli.Edits
import CeGke.Cli.Printed
import CeGke.State.Tracked
import CeGke.Secrets

/-!
# Sessions

What is done, one thing after the other, to a state file, a secret file and a mesh: the commands,
the passes of daemons, `get` and the `secret` commands, in any order and with any outcome.

Whatever these do to the store and the mesh they do by effects of a few kinds, each for one
deployment (`Effect`), and one that fails leaves the file as it was (`Op.run_effects`).  So an
invariant of a session is one that effects keep (`runSession_invariant`).
-/

namespace CeGke

open Relation

variable {σ : Type}

/-! ## Get -/

/-- A line of the table that `get` prints, before it is cut to its columns. -/
structure Row where
  name : String
  paused : Bool
  image : String
  replicas : UInt32
  running : ℕ
  revision : String
deriving DecidableEq, Repr

/-- The loop over the replicas in `get`: how many are running, by the phase that is told or else
the recorded one. -/
def countRunning (driver : MeshDriver σ) (m : ManagedDeployment) :
    List ReplicaState → ℕ × σ → ℕ × σ
  | [], ns => ns
  | r :: replicas, (running, s) =>
      let (res, s) := driver.phase r.nodeId r.jobId m.spec.liveness m.grant s
      countRunning driver m replicas
        (if res.toOption.getD r.phase = .running then running + 1 else running, s)

/-- The loop over the deployments in `get`. -/
def getRows [Sha256] (driver : MeshDriver σ) (store : Store) :
    List String → σ → Except String (List Row) × σ
  | [], s => (.ok [], s)
  | key :: keys, s =>
      match store.get key with
      | none => (.error "deployment present", s)
      | some m =>
          let (running, s) := countRunning driver m m.replicas (0, s)
          let (rows, s) := getRows driver store keys s
          (rows.map (⟨key, m.paused, m.spec.image, m.spec.replicas, running, m.spec.revision⟩ :: ·),
            s)

/-- `get`. -/
def Cli.get [Sha256] (cli : Cli) (driver : MeshDriver σ) (name : Option String)
    (p : CliState σ) : Except String (List Row) × CliState σ :=
  match name with
  | some n =>
      let key := cli.keyOf n
      if (p.store.get key).isNone then (.error s!"no deployment '{key}'", p)
      else
        let (rows, mesh) := getRows driver p.store [key] p.mesh
        (rows, { p with mesh })
  | none =>
      let (rows, mesh) := getRows driver p.store (p.store.namesIn cli.nameSpace) p.mesh
      (rows, { p with mesh })

/-! ## Operations -/

/-- The files and the mesh. -/
structure World (σ : Type) where
  file : Store := {}
  secrets : SecretStore := {}
  mesh : σ

/-- Something that is done. -/
inductive Op where
  | /-- A command that changes the store. -/
    command (cli : Cli) (preflights : ℕ → Preflight) (clock : String → ℕ → UInt64) (cmd : Cmd)
  | get (cli : Cli) (name : Option String)
  | /-- One turn of the loop of `run_daemon`, with the secrets that were in their file when the
    daemon was started. -/
    pass (secrets : SecretStore) (nameSpace fallbackGrant : Option String)
      (clock : String → UInt64)
  | secret (stdin : Except String String) (op : SecretOp)

/-- What is printed, or logged. -/
inductive Output where
  | lines (text : List String)
  | table (rows : List Row)
  | logs (entries : List ReconcileLog) (unconverged : ℕ)
deriving DecidableEq, Repr

/-- What is printed, and the error that comes after it if there is one. -/
structure Outcome where
  printed : Output
  error : Option String := none
deriving DecidableEq, Repr

/-- The error of what has failed. -/
def failure {α : Type} : Except String α → Option String
  | .error e => some e
  | .ok _ => none

/-- `main` and `run_daemon`; `node` is the driver that is built with the secrets. -/
def Op.run [Sha256] (node : SecretStore → MeshDriver σ) :
    Op → World σ → Outcome × World σ
  | .command cli preflights clock cmd, w =>
      let (res, p) := cli.main (node w.secrets) preflights clock cmd w.file w.mesh
      let start : CliState σ := { store := w.file.migrate, mesh := w.mesh }
      ({ printed := .lines (cli.execLines (node w.secrets) preflights clock cmd start)
         error := failure res },
        { w with file := p.store, mesh := p.mesh })
  | .get cli name, w =>
      match cli.get (node w.secrets) name { store := w.file.migrate, mesh := w.mesh } with
      | (.error e, p) => ({ printed := .table [], error := some e }, { w with mesh := p.mesh })
      | (.ok rows, p) =>
          ({ printed := .table rows },
            { w with file := { p.store with version := storeVersion }, mesh := p.mesh })
  | .pass secrets nameSpace fallbackGrant clock, w =>
      let pass := reconcilePass (node secrets) clock fallbackGrant nameSpace w.file.migrate w.mesh
      let entries := passLogs (node secrets) clock fallbackGrant nameSpace w.file.migrate w.mesh
      ({ printed := .logs entries pass.unconverged },
        { w with file := { pass.store with version := storeVersion }, mesh := pass.mesh })
  | .secret stdin op, w =>
      match secretCmd stdin op w.secrets with
      | .error e => ({ printed := .lines [], error := some e }, w)
      | .ok (text, secrets) => ({ printed := .lines text }, { w with secrets })

/-- One thing after the other, with what each printed. -/
def runSession [Sha256] (node : SecretStore → MeshDriver σ) :
    List Op → World σ → List Outcome × World σ
  | [], w => ([], w)
  | op :: ops, w =>
      let (res, w) := op.run node w
      let (results, w) := runSession node ops w
      (res :: results, w)

/-- The last of them. -/
theorem runSession_concat [Sha256] (node : SecretStore → MeshDriver σ) (ops : List Op) (op : Op)
    (w : World σ) :
    (runSession node (ops ++ [op]) w).2 = (op.run node (runSession node ops w).2).2 := by
  induction ops generalizing w with
  | nil => rfl
  | cons first ops ih => exact ih _

/-! ## Effects -/

/-- One effect on the store and the mesh.  Of the deployments only those under the keys that
`targets` admits are changed, ticked or stopped, they are ticked with the `specs` only, and only
those that `dropped` admits are removed while one of their replicas could not be stopped; `fallback`
is the grant of those that carry none. -/
inductive Effect [Sha256] (driver : MeshDriver σ) (fallback : Option String)
    (targets dropped : String → Prop) (specs : Deployment → Prop) :
    CliState σ → CliState σ → Prop
  | /-- An entry is edited; its handles stay. -/
    edit {key : String} {p : CliState σ} {store : Store} :
      targets key → p.store.Edit store → (∀ k ≠ key, store.get k = p.store.get k) →
        (∃ m, store.get key = some m ∧ m.replicas = ((p.store.get key).getD {}).replicas) →
          Effect driver fallback targets dropped specs p { p with store }
  | /-- A tick, after which the handles are recorded. -/
    tick {key : String} {p : CliState σ} {m : ManagedDeployment} {ctrl : Controller}
      (now : UInt64) :
      targets key → p.store.get key = some m → specs m.spec → ctrl.replicas = m.replicas →
        ctrl.settings = (m.controller fallback).settings →
          Effect driver fallback targets dropped specs p
            { store := p.store.setReplicas key (ctrl.tick driver m.spec p.mesh now).2.1.replicas
              mesh := (ctrl.tick driver m.spec p.mesh now).2.2 }
  | /-- A replica is stopped. -/
    kill {key : String} {p : CliState σ} {m : ManagedDeployment} {r : ReplicaState} :
      targets key → p.store.get key = some m → r ∈ m.replicas →
        Effect driver fallback targets dropped specs p
          { p with mesh := (driver.kill r.nodeId r.jobId (m.grant.or fallback) p.mesh).2 }
  | /-- The replicas of a deployment are stopped, and its entry is removed. -/
    delete {key : String} {p : CliState σ} {m : ManagedDeployment} :
      targets key → p.store.get key = some m →
        ((Cli.killAll driver (m.grant.or fallback) m.replicas (0, p.mesh)).1 = 0 ∨ dropped key) →
          Effect driver fallback targets dropped specs p
            { store := p.store.remove key
              mesh := (Cli.killAll driver (m.grant.or fallback) m.replicas (0, p.mesh)).2 }
  | /-- The phase of a replica is asked for. -/
    ask {key : String} {p : CliState σ} {m : ManagedDeployment} {r : ReplicaState} :
      p.store.get key = some m → r ∈ m.replicas →
        Effect driver fallback targets dropped specs p
          { p with mesh := (driver.phase r.nodeId r.jobId m.spec.liveness m.grant p.mesh).2 }

/-- Effects, one after the other. -/
def Effects [Sha256] (driver : MeshDriver σ) (fallback : Option String)
    (targets dropped : String → Prop) (specs : Deployment → Prop) :
    CliState σ → CliState σ → Prop :=
  ReflTransGen (Effect driver fallback targets dropped specs)

/-- The name that a `rollout` command is given. -/
def RolloutOp.name : RolloutOp → String
  | status name | undo name _ | pause name | resume name | history name => name

/-- The keys of the deployments that a command is about. -/
def Cli.targets [Sha256] (cli : Cli) : Cmd → List String
  | .apply (.error _) => []
  | .apply (.ok (.single parsed)) =>
      match Deployment.fromManifest parsed with
      | .error _ => []
      | .ok spec =>
          [(if cli.nameSpace ≠ "default" then spec.intoNameSpace cli.nameSpace else spec).key]
  | .apply (.ok (.stack parsed)) =>
      match cli.loadStack parsed with
      | .error _ => []
      | .ok apps => apps.map Deployment.key
  | .scale name _ => [cli.keyOf name]
  | .rollout op => [cli.keyOf op.name]
  | .delete name _ => [cli.keyOf name]

/-- The specs that a command reconciles to, from the store as it finds it. -/
def Cli.specs [Sha256] (cli : Cli) (store : Store) : Cmd → List Deployment
  | .apply (.error _) => []
  | .apply (.ok (.single parsed)) =>
      match Deployment.fromManifest parsed with
      | .error _ => []
      | .ok spec =>
          [if cli.nameSpace ≠ "default" then spec.intoNameSpace cli.nameSpace else spec]
  | .apply (.ok (.stack parsed)) =>
      match cli.loadStack parsed with
      | .error _ => []
      | .ok apps => apps
  | .scale name replicas =>
      ((store.get (cli.keyOf name)).map fun m ↦ { m.spec with replicas }).toList
  | .rollout (.status name) | .rollout (.resume name) =>
      ((store.get (cli.keyOf name)).map ManagedDeployment.spec).toList
  | .rollout (.undo name toRevision) =>
      match store.get (cli.keyOf name) with
      | none => []
      | some m =>
          match Cli.takeRevision (cli.keyOf name) m.history toRevision with
          | .error _ => []
          | .ok (prior, history) => [(m.rolledBack prior history).spec]
  | .rollout (.pause _) | .rollout (.history _) | .delete _ _ => []

/-- The keys of the deployments that a command removes even if they could not be stopped. -/
def Cli.drops (cli : Cli) : Cmd → List String
  | .delete name true => [cli.keyOf name]
  | .delete _ false | .apply _ | .scale _ _ | .rollout _ => []

section Effects

variable [Sha256] {driver : MeshDriver σ} {fallback : Option String}
  {targets dropped : String → Prop} {specs : Deployment → Prop} {key : String} {p q : CliState σ}

theorem Effect.mono {targets' dropped' : String → Prop} {specs' : Deployment → Prop}
    (himp : ∀ k, targets k → targets' k) (hdropped : ∀ k, dropped k → dropped' k)
    (hspecs : ∀ d, specs d → specs' d)
    (h : Effect driver fallback targets dropped specs p q) :
    Effect driver fallback targets' dropped' specs' p q := by
  cases h with
  | edit hkey hedit hne hreplicas => exact .edit (himp _ hkey) hedit hne hreplicas
  | tick now hkey hget hspec hreplicas hsettings =>
      exact .tick now (himp _ hkey) hget (hspecs _ hspec) hreplicas hsettings
  | kill hkey hget hr => exact .kill (himp _ hkey) hget hr
  | delete hkey hget hstopped => exact .delete (himp _ hkey) hget (hstopped.imp_right (hdropped _))
  | ask hget hr => exact .ask hget hr

theorem Effects.mono {targets' dropped' : String → Prop} {specs' : Deployment → Prop}
    (himp : ∀ k, targets k → targets' k) (hdropped : ∀ k, dropped k → dropped' k)
    (hspecs : ∀ d, specs d → specs' d)
    (h : Effects driver fallback targets dropped specs p q) :
    Effects driver fallback targets' dropped' specs' p q :=
  ReflTransGen.mono (fun _ _ ↦ Effect.mono himp hdropped hspecs) _ _ h

/-- What every effect keeps. -/
theorem Effects.keeps {I : CliState σ → Prop}
    (hI : ∀ {p q}, Effect driver fallback targets dropped specs p q → I p → I q)
    (h : Effects driver fallback targets dropped specs p q) (hp : I p) : I q := by
  induction h with
  | refl => exact hp
  | tail _ heffect ih => exact hI heffect ih

/-- Entries that are no targets stay as they are. -/
theorem Effects.get_eq (h : Effects driver fallback targets dropped specs p q)
    (hkey : ¬ targets key) : q.store.get key = p.store.get key := by
  have hne : ∀ {k}, targets k → key ≠ k := fun hk heq ↦ hkey (heq ▸ hk)
  refine h.keeps (I := fun q ↦ q.store.get key = p.store.get key) (fun {q q'} heffect hq ↦ ?_) rfl
  cases heffect with
  | edit hk _ hother _ => exact (hother key (hne hk)).trans hq
  | tick _ hk => exact (Store.get_setReplicas_of_ne _ (hne hk) _).trans hq
  | delete hk =>
      rw [Store.get_remove, if_neg (hne hk)]
      exact hq
  | kill | ask => exact hq

/-- The loop of `reconcile_to_convergence` on a controller of the deployment. -/
theorem tickLoop_effects (clock : ℕ → UInt64) {m : ManagedDeployment} (hkey : targets key)
    (hspec : specs m.spec) (left tick : ℕ) {ctrl : Controller}
    (hget : ∃ replicas, p.store.get key = some { m with replicas } ∧ ctrl.replicas = replicas)
    (hsettings : ctrl.settings = (m.controller fallback).settings) :
    Effects driver fallback targets dropped specs p
      (tickLoop driver clock m.spec key left tick ctrl p) := by
  induction left generalizing tick ctrl p with
  | zero => exact ReflTransGen.refl
  | succ left ih =>
      obtain ⟨replicas, hget, hreplicas⟩ := hget
      have htick : Effect driver fallback targets dropped specs p
          { store := p.store.setReplicas key
              (ctrl.tick driver m.spec p.mesh (clock tick)).2.1.replicas
            mesh := (ctrl.tick driver m.spec p.mesh (clock tick)).2.2 } :=
        .tick (m := { m with replicas }) (clock tick) hkey hget hspec hreplicas hsettings
      rw [tickLoop]
      simp only
      split_ifs
      · exact ReflTransGen.single htick
      · refine (ReflTransGen.single htick).trans (ih _ ⟨_, ?_, rfl⟩ ?_)
        · simp only [Store.get_setReplicas_self, hget, Option.map_some]
        · exact (Controller.settings_refresh driver m.spec ctrl p.mesh).trans hsettings

/-- The specs of the entries under some keys. -/
def Store.specsOf (store : Store) (keys : List String) : List Deployment :=
  keys.filterMap fun key ↦ (store.get key).map ManagedDeployment.spec

omit [Sha256] in
theorem Store.mem_specsOf {store : Store} {keys : List String} {m : ManagedDeployment}
    (hkey : key ∈ keys) (hget : store.get key = some m) : m.spec ∈ store.specsOf keys :=
  List.mem_filterMap.mpr ⟨key, hkey, by rw [hget, Option.map_some]⟩

/-- The turn of a deployment leaves all specs. -/
theorem reconcileKey_spec_eq (driver : MeshDriver σ) (clock : String → UInt64)
    (fallback : Option String) (p : Pass σ) {key' : String} {m : ManagedDeployment}
    (h : (reconcileKey driver clock fallback p key').store.get key = some m) :
    ∃ m', p.store.get key = some m' ∧ m'.spec = m.spec := by
  unfold reconcileKey at h
  split at h
  · exact ⟨m, h, rfl⟩
  · by_cases hkey : key = key'
    · subst hkey
      rw [Store.get_setReplicas_self] at h
      obtain ⟨m', hm', rfl⟩ := Option.map_eq_some_iff.mp h
      exact ⟨m', hm', rfl⟩
    · rw [Store.get_setReplicas_of_ne _ hkey] at h
      exact ⟨m, h, rfl⟩

/-- A turn of a pass. -/
theorem reconcileKey_effects (clock : String → UInt64) (hkey : targets key) (p : Pass σ)
    (hspecs : ∀ m, p.store.get key = some m → specs m.spec) :
    Effects driver fallback targets dropped specs ⟨p.store, p.mesh⟩
      ⟨(reconcileKey driver clock fallback p key).store,
        (reconcileKey driver clock fallback p key).mesh⟩ := by
  unfold reconcileKey
  split
  · exact ReflTransGen.refl
  · rename_i m hget
    exact ReflTransGen.single (.tick (clock key) hkey hget (hspecs m hget) rfl rfl)

/-- A pass is effects for the deployments in its scope. -/
theorem reconcilePass_effects (clock : String → UInt64) (nameSpace : Option String)
    (store : Store) (mesh : σ) :
    Effects driver fallback (· ∈ store.scope nameSpace) dropped
      (· ∈ store.specsOf (store.scope nameSpace)) ⟨store, mesh⟩
      ⟨(reconcilePass driver clock fallback nameSpace store mesh).store,
        (reconcilePass driver clock fallback nameSpace store mesh).mesh⟩ := by
  -- On the way the entries keep their specs.
  have hfold : ∀ (keys : List String) (p : Pass σ),
      (∀ key ∈ keys, ∀ m, p.store.get key = some m →
        m.spec ∈ store.specsOf (store.scope nameSpace)) →
      Effects driver fallback (· ∈ keys) dropped (· ∈ store.specsOf (store.scope nameSpace))
        ⟨p.store, p.mesh⟩
        ⟨(keys.foldl (reconcileKey driver clock fallback) p).store,
          (keys.foldl (reconcileKey driver clock fallback) p).mesh⟩ := by
    intro keys
    induction keys with
    | nil => exact fun p _ ↦ ReflTransGen.refl
    | cons key keys ih =>
        intro p hspecs
        obtain ⟨hhead, hrest⟩ := List.forall_mem_cons.mp hspecs
        refine (reconcileKey_effects clock List.mem_cons_self p hhead).trans ?_
        refine (ih _ fun k hk m hm ↦ ?_).mono (fun _ ↦ List.mem_cons_of_mem _) (fun _ ↦ id)
          fun _ ↦ id
        obtain ⟨m', hm', heq⟩ := reconcileKey_spec_eq driver clock fallback p hm
        exact heq ▸ hrest k hk m' hm'
  exact hfold _ { store, mesh } fun key hkey m hm ↦ Store.mem_specsOf hkey hm

namespace Cli

variable (cli : Cli) (preflights : ℕ → Preflight) (clock : String → ℕ → UInt64)

theorem reconcileToConvergence_effects (hkey : targets key)
    (hspecs : ∀ m, p.store.get key = some m → specs m.spec) :
    Effects driver cli.grant targets dropped specs p
      (cli.reconcileToConvergence driver clock key p).2 := by
  unfold reconcileToConvergence
  split
  · exact ReflTransGen.refl
  · rename_i m hget
    exact tickLoop_effects (clock key) hkey (hspecs m hget) _ _ ⟨m.replicas, hget, rfl⟩ rfl

/-- An update of the entry that leaves its handles, and the reconciling that follows it. -/
theorem effects_of_modify {f : ManagedDeployment → ManagedDeployment} (hkey : targets key)
    {m : ManagedDeployment} (hget : p.store.get key = some m)
    (hedit : p.store.Edit (p.store.modify key f)) (hf : ∀ m, (f m).replicas = m.replicas) :
    Effects driver fallback targets dropped specs p { p with store := p.store.modify key f } := by
  refine ReflTransGen.single (.edit hkey hedit (fun k hk ↦ ?_) ⟨f m, ?_, ?_⟩)
  · rw [Store.get_modify, if_neg hk]
  · rw [Store.get_modify, if_pos rfl, hget, Option.map_some]
  · rw [hf, hget, Option.getD_some]

/-- Such an update, and then the reconciling to it. -/
theorem modify_reconcile_effects {f : ManagedDeployment → ManagedDeployment} (hkey : targets key)
    {m : ManagedDeployment} (hget : p.store.get key = some m)
    (hedit : p.store.Edit (p.store.modify key f)) (hf : ∀ m, (f m).replicas = m.replicas)
    (hspec : specs (f m).spec) :
    Effects driver cli.grant targets dropped specs p
      (cli.reconcileToConvergence driver clock key
        { p with store := p.store.modify key f }).2 := by
  refine (effects_of_modify hkey hget hedit hf).trans
    (cli.reconcileToConvergence_effects clock hkey fun m' hm' ↦ ?_)
  simp only [Store.get_modify, if_pos, hget, Option.map_some, Option.some.injEq] at hm'
  exact hm' ▸ hspec

theorem applyOne_effects (pre : Preflight) (spec : Deployment) (hkey : targets spec.key)
    (hspec : specs spec) :
    Effects driver cli.grant targets dropped specs p (cli.applyOne driver clock pre spec p).2 := by
  unfold applyOne
  cases hcheck : cli.check pre spec with
  | error e => exact ReflTransGen.refl
  | ok u =>
      obtain ⟨_, hvalid, _⟩ := bind_eq_ok.mp hcheck
      obtain ⟨m, hm, hmspec, hreplicas⟩ := p.store.get_upsert spec cli.grant
      refine ReflTransGen.trans (ReflTransGen.single (.edit hkey (.upsert cli.grant hvalid)
        (fun k hk ↦ p.store.get_upsert_of_ne spec cli.grant hk) ⟨m, hm, hreplicas⟩))
        (cli.reconcileToConvergence_effects clock hkey fun m' hm' ↦ ?_)
      obtain rfl := Option.some.inj (hm.symm.trans hm')
      exact hmspec ▸ hspec

theorem applyApps_effects (i : ℕ) (apps : List Deployment) (p : CliState σ) :
    Effects driver cli.grant (· ∈ apps.map Deployment.key) dropped (· ∈ apps) p
      (cli.applyApps driver preflights clock i apps p).2 := by
  induction apps generalizing i p with
  | nil => exact ReflTransGen.refl
  | cons spec apps ih =>
      have hone : Effects driver cli.grant (· ∈ (spec :: apps).map Deployment.key) dropped
          (· ∈ spec :: apps) p (cli.applyOne driver clock (preflights i) spec p).2 :=
        cli.applyOne_effects clock _ spec (List.mem_map_of_mem List.mem_cons_self)
          List.mem_cons_self
      rw [applyApps]
      split
      · rename_i heq
        rwa [heq] at hone
      · rename_i heq
        rw [heq] at hone
        exact hone.trans ((ih _ _).mono (fun _ ↦ List.mem_cons_of_mem _) (fun _ ↦ id)
          fun _ ↦ List.mem_cons_of_mem _)

/-- The loop of `delete` on replicas of the deployment. -/
theorem killAll_effects {m : ManagedDeployment} (hkey : targets key)
    (hget : p.store.get key = some m) {replicas : List ReplicaState} (hsub : replicas ⊆ m.replicas)
    (failures : ℕ) :
    Effects driver fallback targets dropped specs p
      { p with
        mesh := (killAll driver (m.grant.or fallback) replicas (failures, p.mesh)).2 } := by
  induction replicas generalizing p failures with
  | nil => exact ReflTransGen.refl
  | cons r replicas ih =>
      obtain ⟨hr, hsub⟩ := List.cons_subset.mp hsub
      have hkill : Effects driver fallback targets dropped specs p
          { p with mesh := (driver.kill r.nodeId r.jobId (m.grant.or fallback) p.mesh).2 } :=
        ReflTransGen.single (.kill hkey hget hr)
      rw [killAll]
      split
      · rename_i u s heq
        rw [heq] at hkill
        exact hkill.trans (ih (p := { p with mesh := s }) hget hsub failures)
      · rename_i e s heq
        rw [heq] at hkill
        exact hkill.trans (ih (p := { p with mesh := s }) hget hsub (failures + 1))

theorem delete_effects (name : String) (force : Bool) :
    Effects driver cli.grant (· ∈ [cli.keyOf name]) (· ∈ cli.drops (.delete name force)) specs p
      (cli.delete driver name force p).2 := by
  simp only [delete]
  split
  · exact ReflTransGen.refl
  · rename_i m hget
    have hkey : cli.keyOf name ∈ [cli.keyOf name] := List.mem_cons_self
    split_ifs with hkept
    · exact killAll_effects hkey hget (List.Subset.refl _) 0
    · refine ReflTransGen.single (.delete hkey hget ?_)
      cases force with
      | true => exact Or.inr List.mem_cons_self
      | false => exact Or.inl (Nat.eq_zero_of_not_pos fun hpos ↦ hkept ⟨hpos, rfl⟩)

theorem rolloutCmd_effects (op : RolloutOp) :
    Effects driver cli.grant (· ∈ [cli.keyOf op.name]) dropped
      (· ∈ cli.specs p.store (.rollout op)) p (cli.rolloutCmd driver clock op p).2 := by
  have hkey : cli.keyOf op.name ∈ [cli.keyOf op.name] := List.mem_cons_self
  cases op with
  | status name =>
      simp only [rolloutCmd]
      split
      · exact ReflTransGen.refl
      · refine cli.reconcileToConvergence_effects clock hkey fun m hm ↦ ?_
        exact Option.mem_toList.mpr (Option.map_eq_some_iff.mpr ⟨m, hm, rfl⟩)
  | undo name toRevision =>
      simp only [rolloutCmd]
      split
      · exact ReflTransGen.refl
      · rename_i m hget
        split
        · exact ReflTransGen.refl
        · rename_i prior history htake
          refine cli.modify_reconcile_effects clock hkey hget (.undo hget htake) (fun _ ↦ rfl) ?_
          simp only [specs, hget, htake, List.mem_singleton]
          rfl
  | pause name =>
      simp only [rolloutCmd]
      split
      · exact ReflTransGen.refl
      · rename_i m hget
        exact effects_of_modify hkey hget (.pause _ true) fun _ ↦ rfl
  | resume name =>
      simp only [rolloutCmd]
      split
      · exact ReflTransGen.refl
      · rename_i m hget
        refine cli.modify_reconcile_effects clock hkey hget (.pause _ false) (fun _ ↦ rfl) ?_
        exact Option.mem_toList.mpr (Option.map_eq_some_iff.mpr ⟨m, hget, rfl⟩)
  | history name =>
      simp only [rolloutCmd]
      split <;> exact ReflTransGen.refl

/-- A command is effects for the deployments that it is about, whether or not it ends well. -/
theorem exec_effects (cmd : Cmd) (p : CliState σ) :
    Effects driver cli.grant (· ∈ cli.targets cmd) (· ∈ cli.drops cmd)
      (· ∈ cli.specs p.store cmd) p (cli.exec driver preflights clock cmd p).2 := by
  cases cmd with
  | apply file =>
      rcases file with e | ⟨parsed⟩ | parsed
      · exact ReflTransGen.refl
      · cases hparsed : Deployment.fromManifest parsed with
        | error e =>
            simp only [exec, apply, hparsed]
            exact ReflTransGen.refl
        | ok spec =>
            simp only [exec, apply, targets, specs, hparsed]
            exact cli.applyOne_effects clock _ _ List.mem_cons_self List.mem_cons_self
      · cases hload : cli.loadStack parsed with
        | error e =>
            simp only [exec, apply, applyStack, hload]
            exact ReflTransGen.refl
        | ok apps =>
            simp only [exec, apply, applyStack, targets, specs, hload]
            exact cli.applyApps_effects preflights clock 0 apps p
  | scale name replicas =>
      have hkey : cli.keyOf name ∈ cli.targets (.scale name replicas) := List.mem_cons_self
      simp only [exec, scale]
      split
      · exact ReflTransGen.refl
      · rename_i m hget
        split_ifs with hmax
        · exact ReflTransGen.refl
        · refine cli.modify_reconcile_effects clock hkey hget (.scale _ (not_lt.mp hmax))
            (fun _ ↦ rfl) ?_
          exact Option.mem_toList.mpr (Option.map_eq_some_iff.mpr ⟨m, hget, rfl⟩)
  | rollout op => exact cli.rolloutCmd_effects clock op
  | delete name force => exact cli.delete_effects name force

/-- The loop over the replicas in `get`. -/
theorem countRunning_effects {m : ManagedDeployment} (hget : p.store.get key = some m)
    {replicas : List ReplicaState} (hsub : replicas ⊆ m.replicas) (running : ℕ) :
    Effects driver fallback targets dropped specs p
      { p with mesh := (countRunning driver m replicas (running, p.mesh)).2 } := by
  induction replicas generalizing p running with
  | nil => exact ReflTransGen.refl
  | cons r replicas ih =>
      obtain ⟨hr, hsub⟩ := List.cons_subset.mp hsub
      have hask : Effect driver fallback targets dropped specs p
          { p with mesh := (driver.phase r.nodeId r.jobId m.spec.liveness m.grant p.mesh).2 } :=
        .ask hget hr
      exact ReflTransGen.head hask
        (ih (p := { p with
          mesh := (driver.phase r.nodeId r.jobId m.spec.liveness m.grant p.mesh).2 }) hget hsub _)

theorem getRows_effects (keys : List String) (p : CliState σ) :
    Effects driver fallback targets dropped specs p
      { p with mesh := (getRows driver p.store keys p.mesh).2 } := by
  induction keys generalizing p with
  | nil => exact ReflTransGen.refl
  | cons key keys ih =>
      rw [getRows]
      split
      · exact ReflTransGen.refl
      · rename_i m hget
        exact (countRunning_effects hget (List.Subset.refl _) 0).trans
          (ih { p with mesh := (countRunning driver m m.replicas (0, p.mesh)).2 })

/-- A `get` asks, and leaves the store. -/
theorem get_effects (name : Option String) (p : CliState σ) :
    Effects driver fallback targets dropped specs p (cli.get driver name p).2 := by
  cases name with
  | none => exact getRows_effects _ p
  | some n =>
      simp only [get]
      split_ifs
      · exact ReflTransGen.refl
      · exact getRows_effects _ p

end Cli

end Effects

/-! ## Invariants -/

/-- What is done changes, ticks and stops only deployments under the keys that `targets` admits. -/
def Op.Within [Sha256] (targets : String → Prop) (file : Store) : Op → Prop
  | .command cli _ _ cmd => ∀ key ∈ cli.targets cmd, targets key
  | .pass _ nameSpace _ _ => ∀ key ∈ file.scope nameSpace, targets key
  | .get _ _ | .secret _ _ => True

/-- The keys of the deployments that are removed even if they could not be stopped. -/
def Op.drops : Op → List String
  | .command cli _ _ cmd => cli.drops cmd
  | .pass _ _ _ _ | .get _ _ | .secret _ _ => []

/-- The keys of the deployments that are changed, ticked or stopped. -/
def Op.keys [Sha256] (file : Store) : Op → List String
  | .command cli _ _ cmd => cli.targets cmd
  | .pass _ nameSpace _ _ => file.scope nameSpace
  | .get _ _ | .secret _ _ => []

/-- The specs that are reconciled to. -/
def Op.specs [Sha256] (file : Store) : Op → List Deployment
  | .command cli _ _ cmd => cli.specs file.migrate cmd
  | .pass _ nameSpace _ _ => file.migrate.specsOf (file.migrate.scope nameSpace)
  | .get _ _ | .secret _ _ => []

/-- So does all that is done in a session. -/
def Within [Sha256] (node : SecretStore → MeshDriver σ) (targets : String → Prop) :
    List Op → World σ → Prop
  | [], _ => True
  | op :: ops, w => op.Within targets w.file ∧ Within node targets ops (op.run node w).2

theorem Op.within_keys [Sha256] (op : Op) (file : Store) : op.Within (· ∈ op.keys file) file := by
  cases op with
  | command | pass => exact fun _ ↦ id
  | get | secret => trivial

theorem Op.Within.of_mem_keys [Sha256] {targets : String → Prop} {file : Store} {op : Op}
    (h : op.Within targets file) {key : String} (hkey : key ∈ op.keys file) : targets key := by
  cases op with
  | command | pass => exact h key hkey
  | get | secret => exact absurd hkey List.not_mem_nil

theorem Within.of_append [Sha256] {node : SecretStore → MeshDriver σ} {targets : String → Prop}
    {done rest : List Op} {op : Op} {w : World σ} (h : Within node targets (done ++ op :: rest) w) :
    op.Within targets (runSession node done w).2.file := by
  induction done generalizing w with
  | nil => exact h.1
  | cons first done ih => exact ih h.2

theorem Op.within_true [Sha256] (op : Op) (file : Store) : op.Within (fun _ ↦ True) file := by
  cases op with
  | command | pass => exact fun _ _ ↦ trivial
  | get | secret => trivial

theorem within_true [Sha256] (node : SecretStore → MeshDriver σ) (ops : List Op) (w : World σ) :
    Within node (fun _ ↦ True) ops w := by
  induction ops generalizing w with
  | nil => trivial
  | cons op ops ih => exact ⟨op.within_true w.file, ih _⟩

/-- What the store and the mesh are before and after. -/
def World.state (w : World σ) : CliState σ := { store := w.file, mesh := w.mesh }

section Invariants

variable [Sha256] {node : SecretStore → MeshDriver σ} {targets dropped : String → Prop}
  {specs : Deployment → Prop} {w : World σ}

theorem Store.Edit.version_eq {store store' : Store} (h : store.Edit store') :
    store'.version = store.version := by
  cases h <;> rfl

theorem Effects.version_eq {driver : MeshDriver σ} {fallback : Option String} {p q : CliState σ}
    (h : Effects driver fallback targets dropped specs p q) :
    q.store.version = p.store.version := by
  refine h.keeps (I := fun q ↦ q.store.version = p.store.version) (fun {q q'} heffect hq ↦ ?_) rfl
  cases heffect with
  | edit _ hedit _ _ => exact hedit.version_eq.trans hq
  | tick | kill | delete | ask => exact hq

/-- A store of this version is saved as it is. -/
theorem Effects.stamp_eq {driver : MeshDriver σ} {fallback : Option String} {p q : CliState σ}
    (h : Effects driver fallback targets dropped specs p q)
    (hversion : p.store.version = storeVersion) :
    { q.store with version := storeVersion } = q.store := by
  rw [← hversion, ← h.version_eq]

/-- **What is done is effects**, and where it fails the file stays as it was. -/
theorem Op.run_effects {op : Op} (hversion : w.file.version = storeVersion)
    (hwithin : op.Within targets w.file) :
    ∃ secrets fallback p, Effects (node secrets) fallback targets (· ∈ op.drops)
        (· ∈ op.specs w.file) w.state p ∧
      ((op.run node w).2.state = p ∨
        (∃ e, (op.run node w).1.error = some e) ∧
          (op.run node w).2.state = { p with store := w.file }) := by
  cases op with
  | command cli preflights clock cmd =>
      have heffects : Effects (node w.secrets) cli.grant targets (· ∈ cli.drops cmd)
          (· ∈ cli.specs w.file.migrate cmd) w.state
            (cli.exec (node w.secrets) preflights clock cmd w.state).2 := by
        rw [Store.migrate_of_current hversion]
        exact (cli.exec_effects preflights clock cmd w.state).mono hwithin (fun _ ↦ id) fun _ ↦ id
      refine ⟨w.secrets, cli.grant, _, heffects, ?_⟩
      have hstamp := heffects.stamp_eq hversion
      cases hexec : cli.exec (node w.secrets) preflights clock cmd w.state with
      | mk res p =>
          rw [hexec] at hstamp
          rw [World.state] at hexec
          cases res with
          | error e =>
              refine Or.inr ⟨⟨e, ?_⟩, ?_⟩ <;>
                simp only [run, Cli.main, Store.migrate_of_current hversion, hexec, World.state,
                  failure]
          | ok u =>
              exact Or.inl (by simp only [run, Cli.main, Store.migrate_of_current hversion, hexec,
                World.state, hstamp])
  | get cli name =>
      have heffects := @Cli.get_effects _ _ (node w.secrets) none targets
        (· ∈ drops (.get cli name)) (· ∈ specs w.file (.get cli name)) cli name w.state
      refine ⟨w.secrets, none, _, heffects, ?_⟩
      have hstamp := heffects.stamp_eq hversion
      cases hget : cli.get (node w.secrets) name w.state with
      | mk res p =>
          rw [hget] at hstamp
          rw [World.state] at hget
          cases res with
          | error e =>
              refine Or.inr ⟨⟨e, ?_⟩, ?_⟩ <;>
                simp only [run, Store.migrate_of_current hversion, hget, World.state]
          | ok rows =>
              exact Or.inl (by simp only [run, Store.migrate_of_current hversion, hget,
                World.state, hstamp])
  | pass secrets nameSpace fallback clock =>
      have heffects : Effects (node secrets) fallback targets
          (· ∈ drops (.pass secrets nameSpace fallback clock))
          (· ∈ specs w.file (.pass secrets nameSpace fallback clock)) w.state
          ⟨(reconcilePass (node secrets) clock fallback nameSpace w.file w.mesh).store,
            (reconcilePass (node secrets) clock fallback nameSpace w.file w.mesh).mesh⟩ := by
        rw [Op.specs, Store.migrate_of_current hversion]
        exact (reconcilePass_effects clock nameSpace w.file w.mesh).mono hwithin (fun _ ↦ id)
          fun _ ↦ id
      refine ⟨secrets, fallback, _, heffects, Or.inl ?_⟩
      have hstamp := heffects.stamp_eq hversion
      simp only [run, World.state, Store.migrate_of_current hversion, hstamp]
  | secret stdin op =>
      refine ⟨w.secrets, none, w.state, ReflTransGen.refl, Or.inl ?_⟩
      simp only [run]
      split <;> rfl

/-- An invariant of the store and the mesh that every effect keeps, and that still holds of the
store from before effects and the mesh after them, is one of sessions. -/
theorem runSession_invariant {I : CliState σ → Prop} {ops : List Op}
    (hI : ∀ {secrets fallback p q},
      Effect (node secrets) fallback targets dropped (fun _ ↦ True) p q → I p → I q)
    (hstale : ∀ {secrets fallback p q},
      Effects (node secrets) fallback targets dropped (fun _ ↦ True) p q →
        I p → I q → I { p with mesh := q.mesh })
    (hversion : w.file.version = storeVersion) (hwithin : Within node targets ops w)
    (hdropped : ∀ op ∈ ops, ∀ key ∈ op.drops, dropped key) (hw : I w.state) :
    I (runSession node ops w).2.state := by
  induction ops generalizing w with
  | nil => exact hw
  | cons op ops ih =>
      obtain ⟨hop, hrest⟩ := hwithin
      obtain ⟨secrets, fallback, p, heffects, hstate⟩ :=
        @Op.run_effects _ _ node _ _ op hversion hop
      obtain ⟨hdrops, hdropped⟩ := List.forall_mem_cons.mp hdropped
      replace heffects := heffects.mono (fun _ ↦ id) hdrops fun _ _ ↦ trivial
      have hp : I p := heffects.keeps (fun h ↦ hI h) hw
      have hversion' : p.store.version = storeVersion := heffects.version_eq.trans hversion
      rcases hstate with hstate | ⟨-, hstate⟩
      · exact ih ((congrArg (·.store.version) hstate).trans hversion') hrest hdropped (hstate ▸ hp)
      · refine ih ((congrArg (·.store.version) hstate).trans hversion) hrest hdropped ?_
        exact hstate ▸ hstale heffects hw hp

end Invariants

end CeGke
