import CeGke.Cli.Session
import CeGke.Controller.Calls

/-!
# Sessions on meshes that answer alike

Two meshes answer alike if related states give the same answers to each call, and stay related
(`MeshDriver.Alike`).  A session on two such meshes prints the same and leaves the same state file
(`session_alike`), also where the values of the secrets differ.

The two meshes side by side are one driver, of which each is a projection, so what holds of a
driver and its projection (`MeshDriver.Refines`) is all that is needed of the code.
-/

namespace CeGke

variable {σ τ ρ : Type}

/-! ## Projections -/

/-- The same store, over another mesh. -/
def CliState.mapMesh (f : τ → σ) (p : CliState τ) : CliState σ :=
  { store := p.store, mesh := f p.mesh }

/-- The same pass, over another mesh. -/
def Pass.mapMesh (f : τ → σ) (p : Pass τ) : Pass σ :=
  { store := p.store, mesh := f p.mesh, unconverged := p.unconverged }

namespace MeshDriver.Refines

variable [Sha256] {driver' : MeshDriver τ} {driver : MeshDriver σ} {f : τ → σ}
  (h : driver'.Refines driver f)

include h

theorem tickLoop (clock : ℕ → UInt64) (spec : Deployment) (key : String) (left tick : ℕ)
    (ctrl : Controller) (p : CliState τ) :
    CeGke.tickLoop driver clock spec key left tick ctrl (p.mapMesh f) =
      (CeGke.tickLoop driver' clock spec key left tick ctrl p).mapMesh f := by
  induction left generalizing tick ctrl p with
  | zero => rfl
  | succ left ih =>
      have hmesh : (p.mapMesh f).mesh = f p.mesh := rfl
      simp only [CeGke.tickLoop, hmesh, h.tick, Prod.map, id]
      split_ifs
      · rfl
      · exact ih _ _
          { store := p.store.setReplicas key
              (ctrl.tick driver' spec p.mesh (clock tick)).2.1.replicas
            mesh := (ctrl.tick driver' spec p.mesh (clock tick)).2.2 }

theorem tickLines (clock : ℕ → UInt64) (spec : Deployment) (key : String) (maxTicks : UInt32)
    (left tick : ℕ) (lastWaiting : List String) (ctrl : Controller) (s : τ) :
    CeGke.tickLines driver clock spec key maxTicks left tick lastWaiting ctrl (f s) =
      CeGke.tickLines driver' clock spec key maxTicks left tick lastWaiting ctrl s := by
  induction left generalizing tick lastWaiting ctrl s with
  | zero => rfl
  | succ left ih => simp only [CeGke.tickLines, h.tick, Prod.map, id, ih]

variable (cli : Cli) (preflights : ℕ → Preflight) (clock : String → ℕ → UInt64)

theorem reconcileLines (key : String) (p : CliState τ) :
    cli.reconcileLines driver clock key (p.mapMesh f) =
      cli.reconcileLines driver' clock key p := by
  have hstore : (p.mapMesh f).store = p.store := rfl
  simp only [Cli.reconcileLines, hstore]
  cases p.store.get key with
  | none => rfl
  | some m => exact h.tickLines _ _ _ _ _ _ _ _ _

theorem reconcileToConvergence (key : String) (p : CliState τ) :
    cli.reconcileToConvergence driver clock key (p.mapMesh f) =
      Prod.map id (CliState.mapMesh f) (cli.reconcileToConvergence driver' clock key p) := by
  have hstore : (p.mapMesh f).store = p.store := rfl
  simp only [Cli.reconcileToConvergence, hstore]
  cases p.store.get key with
  | none => rfl
  | some m =>
      simp only [h.tickLoop]
      rfl

theorem applyOne (pre : Preflight) (spec : Deployment) (p : CliState τ) :
    cli.applyOne driver clock pre spec (p.mapMesh f) =
      Prod.map id (CliState.mapMesh f) (cli.applyOne driver' clock pre spec p) := by
  unfold Cli.applyOne
  cases cli.check pre spec with
  | error e => rfl
  | ok u =>
      exact h.reconcileToConvergence cli clock spec.key
        { p with store := p.store.upsert spec cli.grant }

theorem applyApps (i : ℕ) (apps : List Deployment) (p : CliState τ) :
    cli.applyApps driver preflights clock i apps (p.mapMesh f) =
      Prod.map id (CliState.mapMesh f) (cli.applyApps driver' preflights clock i apps p) := by
  induction apps generalizing i p with
  | nil => rfl
  | cons spec apps ih =>
      simp only [Cli.applyApps, h.applyOne]
      cases cli.applyOne driver' clock (preflights i) spec p with
      | mk res q =>
          cases res with
          | error e => rfl
          | ok u => exact ih (i + 1) q

theorem applyOneLines (note : Deployment → String) (pre : Preflight) (spec : Deployment)
    (p : CliState τ) :
    cli.applyOneLines driver clock note pre spec (p.mapMesh f) =
      cli.applyOneLines driver' clock note pre spec p := by
  unfold Cli.applyOneLines
  cases cli.check pre spec with
  | error e => rfl
  | ok u =>
      exact congrArg _ (h.reconcileLines cli clock spec.key
        { p with store := p.store.upsert spec cli.grant })

theorem applyAppsLines (i : ℕ) (apps : List Deployment) (p : CliState τ) :
    cli.applyAppsLines driver preflights clock i apps (p.mapMesh f) =
      cli.applyAppsLines driver' preflights clock i apps p := by
  induction apps generalizing i p with
  | nil => rfl
  | cons spec apps ih =>
      simp only [Cli.applyAppsLines, h.applyOneLines, h.applyOne]
      cases cli.applyOne driver' clock (preflights i) spec p with
      | mk res q =>
          cases res with
          | error e => rfl
          | ok u => exact congrArg _ (ih (i + 1) q)

theorem rolloutLines (op : RolloutOp) (p : CliState τ) :
    cli.rolloutLines driver clock op (p.mapMesh f) = cli.rolloutLines driver' clock op p := by
  have hstore : (p.mapMesh f).store = p.store := rfl
  cases op with
  | status name =>
      simp only [Cli.rolloutLines, hstore, h.reconcileLines]
  | undo name toRevision =>
      simp only [Cli.rolloutLines, hstore]
      cases p.store.get (cli.keyOf name) with
      | none => rfl
      | some m =>
          simp only
          cases Cli.takeRevision (cli.keyOf name) m.history toRevision with
          | error e => rfl
          | ok taken =>
              exact congrArg _ (h.reconcileLines cli clock _
                { p with store := p.store.modify (cli.keyOf name) (·.rolledBack taken.1 taken.2) })
  | pause name => simp only [Cli.rolloutLines, hstore]
  | resume name =>
      simp only [Cli.rolloutLines, hstore]
      cases p.store.get (cli.keyOf name) with
      | none => rfl
      | some m =>
          exact congrArg _ (h.reconcileLines cli clock _
            { p with store := p.store.modify (cli.keyOf name) ({ · with paused := false }) })
  | history name => simp only [Cli.rolloutLines, hstore]

theorem rolloutCmd (op : RolloutOp) (p : CliState τ) :
    cli.rolloutCmd driver clock op (p.mapMesh f) =
      Prod.map id (CliState.mapMesh f) (cli.rolloutCmd driver' clock op p) := by
  have hstore : (p.mapMesh f).store = p.store := rfl
  cases op with
  | status name =>
      simp only [Cli.rolloutCmd, hstore]
      cases p.store.get (cli.keyOf name) with
      | none => rfl
      | some m => exact h.reconcileToConvergence cli clock _ p
  | undo name toRevision =>
      simp only [Cli.rolloutCmd, hstore]
      cases p.store.get (cli.keyOf name) with
      | none => rfl
      | some m =>
          simp only
          cases Cli.takeRevision (cli.keyOf name) m.history toRevision with
          | error e => rfl
          | ok taken =>
              exact h.reconcileToConvergence cli clock _
                { p with store := p.store.modify (cli.keyOf name) (·.rolledBack taken.1 taken.2) }
  | pause name =>
      simp only [Cli.rolloutCmd, hstore]
      cases p.store.get (cli.keyOf name) with
      | none => rfl
      | some m => rfl
  | resume name =>
      simp only [Cli.rolloutCmd, hstore]
      cases p.store.get (cli.keyOf name) with
      | none => rfl
      | some m =>
          exact h.reconcileToConvergence cli clock _
            { p with store := p.store.modify (cli.keyOf name) ({ · with paused := false }) }
  | history name =>
      simp only [Cli.rolloutCmd, hstore]
      cases p.store.get (cli.keyOf name) with
      | none => rfl
      | some m => rfl

omit [Sha256] in
theorem killAll (grant : Option String) (replicas : List ReplicaState) (failures : ℕ) (s : τ) :
    Cli.killAll driver grant replicas (failures, f s) =
      Prod.map id f (Cli.killAll driver' grant replicas (failures, s)) := by
  induction replicas generalizing failures s with
  | nil => rfl
  | cons r replicas ih =>
      simp only [Cli.killAll, h.kill]
      cases driver'.kill r.nodeId r.jobId grant s with
      | mk res s =>
          cases res with
          | ok u => exact ih failures s
          | error e => exact ih (failures + 1) s

omit [Sha256] in
theorem killLines (grant : Option String) (replicas : List ReplicaState) (s : τ) :
    Cli.killLines driver grant replicas (f s) = Cli.killLines driver' grant replicas s := by
  induction replicas generalizing s with
  | nil => rfl
  | cons r replicas ih =>
      simp only [Cli.killLines, h.kill]
      cases driver'.kill r.nodeId r.jobId grant s with
      | mk res s =>
          cases res with
          | ok u => exact congrArg _ (ih s)
          | error e => exact congrArg _ (ih s)

theorem execLines (cmd : Cmd) (p : CliState τ) :
    cli.execLines driver preflights clock cmd (p.mapMesh f) =
      cli.execLines driver' preflights clock cmd p := by
  have hstore : (p.mapMesh f).store = p.store := rfl
  cases cmd with
  | apply file =>
      rcases file with e | ⟨parsed⟩ | parsed
      · rfl
      · simp only [Cli.execLines, Cli.applyLines, h.applyOneLines]
      · simp only [Cli.execLines, Cli.applyLines, Cli.applyStackLines, h.applyAppsLines]
  | scale name replicas =>
      simp only [Cli.execLines, Cli.scaleLines, hstore]
      cases p.store.get (cli.keyOf name) with
      | none => rfl
      | some m =>
          simp only
          split_ifs
          · rfl
          · exact congrArg _ (h.reconcileLines cli clock _
              { p with
                store := p.store.modify (cli.keyOf name) fun m ↦
                  { m with spec := { m.spec with replicas } } })
  | rollout op => exact h.rolloutLines cli clock op p
  | delete name force =>
      have hmesh : (p.mapMesh f).mesh = f p.mesh := rfl
      simp only [Cli.execLines, Cli.deleteLines, hstore, hmesh, h.killAll, h.killLines, Prod.map,
        id]

theorem exec (cmd : Cmd) (p : CliState τ) :
    cli.exec driver preflights clock cmd (p.mapMesh f) =
      Prod.map id (CliState.mapMesh f) (cli.exec driver' preflights clock cmd p) := by
  have hstore : (p.mapMesh f).store = p.store := rfl
  cases cmd with
  | apply file =>
      rcases file with e | ⟨parsed⟩ | parsed
      · rfl
      · simp only [Cli.exec, Cli.apply]
        cases Deployment.fromManifest parsed with
        | error e => rfl
        | ok spec => exact h.applyOne cli clock _ _ p
      · simp only [Cli.exec, Cli.apply, Cli.applyStack]
        cases cli.loadStack parsed with
        | error e => rfl
        | ok apps => exact h.applyApps cli preflights clock 0 apps p
  | scale name replicas =>
      simp only [Cli.exec, Cli.scale, hstore]
      cases p.store.get (cli.keyOf name) with
      | none => rfl
      | some m =>
          simp only
          split_ifs
          · rfl
          · exact h.reconcileToConvergence cli clock _
              { p with
                store := p.store.modify (cli.keyOf name) fun m ↦
                  { m with spec := { m.spec with replicas } } }
  | rollout op => exact h.rolloutCmd cli clock op p
  | delete name force =>
      simp only [Cli.exec, Cli.delete, hstore]
      cases p.store.get (cli.keyOf name) with
      | none => rfl
      | some m =>
          have hmesh : (p.mapMesh f).mesh = f p.mesh := rfl
          simp only [hmesh, h.killAll, Prod.map, id]
          split_ifs
          · rfl
          · rfl

theorem main (cmd : Cmd) (file : Store) (s : τ) :
    cli.main driver preflights clock cmd file (f s) =
      Prod.map id (CliState.mapMesh f) (cli.main driver' preflights clock cmd file s) := by
  have hexec := h.exec cli preflights clock cmd { store := file.migrate, mesh := s }
  simp only [CliState.mapMesh] at hexec
  rw [Cli.main, Cli.main, hexec]
  cases cli.exec driver' preflights clock cmd { store := file.migrate, mesh := s } with
  | mk res q => cases res <;> rfl

omit [Sha256] in
theorem countRunning (m : ManagedDeployment) (replicas : List ReplicaState) (running : ℕ) (s : τ) :
    CeGke.countRunning driver m replicas (running, f s) =
      Prod.map id f (CeGke.countRunning driver' m replicas (running, s)) := by
  induction replicas generalizing running s with
  | nil => rfl
  | cons r replicas ih =>
      simp only [CeGke.countRunning, h.phase, Prod.map]
      exact ih _ _

theorem getRows (store : Store) (keys : List String) (s : τ) :
    CeGke.getRows driver store keys (f s) =
      Prod.map id f (CeGke.getRows driver' store keys s) := by
  induction keys generalizing s with
  | nil => rfl
  | cons key keys ih =>
      simp only [CeGke.getRows]
      cases store.get key with
      | none => rfl
      | some m =>
          simp only [h.countRunning, Prod.map, ih]
          rfl

theorem get (name : Option String) (p : CliState τ) :
    cli.get driver name (p.mapMesh f) =
      Prod.map id (CliState.mapMesh f) (cli.get driver' name p) := by
  have hstore : (p.mapMesh f).store = p.store := rfl
  have hmesh : (p.mapMesh f).mesh = f p.mesh := rfl
  cases name with
  | none =>
      simp only [Cli.get, hstore, hmesh, h.getRows]
      rfl
  | some n =>
      simp only [Cli.get, hstore, hmesh, h.getRows]
      split_ifs
      · rfl
      · rfl

theorem reconcileKey (clock : String → UInt64) (fallback : Option String) (p : Pass τ)
    (key : String) :
    CeGke.reconcileKey driver clock fallback (p.mapMesh f) key =
      (CeGke.reconcileKey driver' clock fallback p key).mapMesh f := by
  have hstore : (p.mapMesh f).store = p.store := rfl
  have hmesh : (p.mapMesh f).mesh = f p.mesh := rfl
  simp only [CeGke.reconcileKey, hstore]
  cases p.store.get key with
  | none => rfl
  | some m =>
      simp only [hmesh, h.tick]
      rfl

theorem reconcilePass (clock : String → UInt64) (fallback nameSpace : Option String)
    (store : Store) (s : τ) :
    CeGke.reconcilePass driver clock fallback nameSpace store (f s) =
      (CeGke.reconcilePass driver' clock fallback nameSpace store s).mapMesh f := by
  have hfold : ∀ (keys : List String) (p : Pass τ),
      keys.foldl (CeGke.reconcileKey driver clock fallback) (p.mapMesh f) =
        (keys.foldl (CeGke.reconcileKey driver' clock fallback) p).mapMesh f := by
    intro keys
    induction keys with
    | nil => exact fun _ ↦ rfl
    | cons key keys ih =>
        intro p
        rw [List.foldl_cons, List.foldl_cons, h.reconcileKey, ih]
  exact hfold _ { store, mesh := s }

theorem passLogs (clock : String → UInt64) (fallback nameSpace : Option String) (store : Store)
    (s : τ) :
    CeGke.passLogs driver clock fallback nameSpace store (f s) =
      CeGke.passLogs driver' clock fallback nameSpace store s := by
  have hlogs : ∀ (keys : List String) (p : Pass τ),
      CeGke.reconcileLogs driver clock fallback keys (p.mapMesh f) =
        CeGke.reconcileLogs driver' clock fallback keys p := by
    intro keys
    induction keys with
    | nil => exact fun _ ↦ rfl
    | cons key keys ih =>
        intro p
        have hstore : (p.mapMesh f).store = p.store := rfl
        have hmesh : (p.mapMesh f).mesh = f p.mesh := rfl
        simp only [CeGke.reconcileLogs, h.reconcileKey, ih, hstore, hmesh, h.tick]
        rfl
  exact hlogs _ { store, mesh := s }

end MeshDriver.Refines

/-! ## Answering alike -/

/-- The same answer, and related states. -/
def Agree {α : Type} (R : σ → τ → Prop) (x : α × σ) (y : α × τ) : Prop :=
  x.1 = y.1 ∧ R x.2 y.2

/-- From related states each call gets the same answer, and the states stay related. -/
structure MeshDriver.Alike (driver : MeshDriver σ) (driver' : MeshDriver τ) (R : σ → τ → Prop) :
    Prop where
  atlas : ∀ {s t}, R s t → Agree R (driver.atlas s) (driver'.atlas t)
  deploy : ∀ {s t} nodeId d grant, R s t →
    Agree R (driver.deploy nodeId d grant s) (driver'.deploy nodeId d grant t)
  kill : ∀ {s t} nodeId job grant, R s t →
    Agree R (driver.kill nodeId job grant s) (driver'.kill nodeId job grant t)
  phase : ∀ {s t} nodeId job probe grant, R s t →
    Agree R (driver.phase nodeId job probe grant s) (driver'.phase nodeId job probe grant t)
  advertiseService : ∀ {s t} service, R s t →
    Agree R (driver.advertiseService service s) (driver'.advertiseService service t)
  serviceReady : ∀ {s t} service, R s t →
    Agree R (driver.serviceReady service s) (driver'.serviceReady service t)

namespace MeshDriver.Alike

variable {driver : MeshDriver σ} {driver' : MeshDriver τ} {R : σ → τ → Prop}
  (h : driver.Alike driver' R)

/-- One call made of both. -/
def both {α : Type} (left : σ → α × σ) (right : τ → α × τ)
    (h : ∀ {s t}, R s t → Agree R (left s) (right t)) (p : { p : σ × τ // R p.1 p.2 }) :
    α × { p : σ × τ // R p.1 p.2 } :=
  ((left p.1.1).1, ⟨((left p.1.1).2, (right p.1.2).2), (h p.2).2⟩)

/-- The two side by side. -/
def joint : MeshDriver { p : σ × τ // R p.1 p.2 } where
  atlas := both driver.atlas driver'.atlas h.atlas
  deploy nodeId d grant :=
    both (driver.deploy nodeId d grant) (driver'.deploy nodeId d grant) (h.deploy nodeId d grant)
  kill nodeId job grant :=
    both (driver.kill nodeId job grant) (driver'.kill nodeId job grant) (h.kill nodeId job grant)
  phase nodeId job probe grant :=
    both (driver.phase nodeId job probe grant) (driver'.phase nodeId job probe grant)
      (h.phase nodeId job probe grant)
  advertiseService service :=
    both (driver.advertiseService service) (driver'.advertiseService service)
      (h.advertiseService service)
  serviceReady service :=
    both (driver.serviceReady service) (driver'.serviceReady service) (h.serviceReady service)

theorem joint_fst : h.joint.Refines driver fun p ↦ p.1.1 where
  atlas _ := rfl
  deploy _ _ _ _ := rfl
  kill _ _ _ _ := rfl
  phase _ _ _ _ _ := rfl
  advertiseService _ _ := rfl
  serviceReady _ _ := rfl

theorem joint_snd : h.joint.Refines driver' fun p ↦ p.1.2 where
  atlas p := Prod.ext (h.atlas p.2).1.symm rfl
  deploy nodeId d grant p := Prod.ext (h.deploy nodeId d grant p.2).1.symm rfl
  kill nodeId job grant p := Prod.ext (h.kill nodeId job grant p.2).1.symm rfl
  phase nodeId job probe grant p := Prod.ext (h.phase nodeId job probe grant p.2).1.symm rfl
  advertiseService service p := Prod.ext (h.advertiseService service p.2).1.symm rfl
  serviceReady service p := Prod.ext (h.serviceReady service p.2).1.symm rfl

end MeshDriver.Alike

/-! ## Sessions -/

/-- The same command of the secret store, up to the value. -/
inductive SecretOp.Alike : SecretOp → SecretOp → Prop
  | set (name : String) {value value' : String} :
      (value = "-" ↔ value' = "-") → Alike (.set name value) (.set name value')
  | rm (name : String) : Alike (.rm name) (.rm name)
  | ls : Alike .ls .ls

/-- The same operation, up to the values of secrets. -/
inductive Op.Alike : Op → Op → Prop
  | command (cli : Cli) (preflights : ℕ → Preflight) (clock : String → ℕ → UInt64) (cmd : Cmd) :
      Alike (.command cli preflights clock cmd) (.command cli preflights clock cmd)
  | get (cli : Cli) (name : Option String) : Alike (.get cli name) (.get cli name)
  | pass {secrets secrets' : SecretStore} (nameSpace fallback : Option String)
      (clock : String → UInt64) : secrets.Alike secrets' →
        Alike (.pass secrets nameSpace fallback clock) (.pass secrets' nameSpace fallback clock)
  | secret {stdin stdin' : Except String String} {op op' : SecretOp} :
      (∀ e, stdin = .error e ↔ stdin' = .error e) → op.Alike op' →
        Alike (.secret stdin op) (.secret stdin' op')

/-- The same state file and the same names of secrets, and meshes that are related. -/
structure World.Alike (R : σ → τ → Prop) (w : World σ) (w' : World τ) : Prop where
  file : w.file = w'.file
  secrets : w.secrets.Alike w'.secrets
  mesh : R w.mesh w'.mesh

/-- A `secret` command prints the same whatever the values. -/
theorem secretCmd_alike {stdin stdin' : Except String String} {op op' : SecretOp}
    {store store' : SecretStore} (hstdin : ∀ e, stdin = .error e ↔ stdin' = .error e)
    (hop : op.Alike op') (hstore : store.Alike store') :
    (∃ e, secretCmd stdin op store = .error e ∧ secretCmd stdin' op' store' = .error e) ∨
      ∃ text next next', secretCmd stdin op store = .ok (text, next) ∧
        secretCmd stdin' op' store' = .ok (text, next') ∧ next.Alike next' := by
  cases hop with
  | @set name value value' hvalue =>
      by_cases hdash : value = "-"
      · have hdash' := hvalue.mp hdash
        subst hdash hdash'
        cases hin : stdin with
        | error e =>
            rw [(hstdin e).mp hin]
            exact Or.inl ⟨e, rfl, rfl⟩
        | ok text =>
            cases hin' : stdin' with
            | error e => exact absurd ((hstdin e).mpr hin') (by rw [hin]; exact nofun)
            | ok text' => exact Or.inr ⟨_, _, _, rfl, rfl, hstore.set name _ _⟩
      · have hdash' := fun h ↦ hdash (hvalue.mpr h)
        refine Or.inr ⟨[s!"Set secret '{name}'."], _, _, ?_, ?_, hstore.set name value value'⟩
        · simp only [secretCmd, if_neg hdash]
          rfl
        · simp only [secretCmd, if_neg hdash']
          rfl
  | rm name =>
      obtain ⟨hexisted, hrest⟩ := hstore.remove name
      refine Or.inr ?_
      simp only [secretCmd, hexisted]
      split_ifs
      · exact ⟨_, _, _, rfl, rfl, hrest⟩
      · exact ⟨_, _, _, rfl, rfl, hstore⟩
  | ls =>
      have hnames : store.names = store'.names := hstore
      refine Or.inr ⟨_, _, _, rfl, ?_, hstore⟩
      simp only [secretCmd, hnames]

section Session

variable [Sha256] {node : SecretStore → MeshDriver σ} {node' : SecretStore → MeshDriver τ}
  {R : σ → τ → Prop} {w : World σ} {w' : World τ}
  (hnode : ∀ {secrets secrets' : SecretStore}, secrets.Alike secrets' →
    (node secrets).Alike (node' secrets') R)

include hnode

/-- What is done alike in worlds that are alike prints the same and leaves worlds that are
alike. -/
theorem Op.Alike.run {op op' : Op} (hop : op.Alike op') (hw : World.Alike R w w') :
    (op.run node w).1 = (op'.run node' w').1 ∧
      World.Alike R (op.run node w).2 (op'.run node' w').2 := by
  obtain ⟨file, secrets, mesh⟩ := w
  obtain ⟨file', secrets', mesh'⟩ := w'
  obtain ⟨rfl, hsecrets, hmesh⟩ := hw
  simp only at hsecrets hmesh
  -- What a run on the pair of meshes comes to, each of the two comes to.
  let pair : { p : σ × τ // R p.1 p.2 } := ⟨(mesh, mesh'), hmesh⟩
  cases hop with
  | command cli preflights clock cmd =>
      have hjoint := hnode hsecrets
      have hleft := hjoint.joint_fst.main cli preflights clock cmd file pair
      have hright := hjoint.joint_snd.main cli preflights clock cmd file pair
      have hlines := hjoint.joint_fst.execLines cli preflights clock cmd
        { store := file.migrate, mesh := pair }
      have hlines' := hjoint.joint_snd.execLines cli preflights clock cmd
        { store := file.migrate, mesh := pair }
      simp only [pair, CliState.mapMesh] at hleft hright hlines hlines'
      simp only [Op.run, hleft, hright, hlines, hlines']
      exact ⟨rfl, rfl, hsecrets,
        (cli.main hjoint.joint preflights clock cmd file pair).2.mesh.2⟩
  | get cli name =>
      have hjoint := hnode hsecrets
      have hleft := hjoint.joint_fst.get cli name { store := file.migrate, mesh := pair }
      have hright := hjoint.joint_snd.get cli name { store := file.migrate, mesh := pair }
      simp only [pair, CliState.mapMesh] at hleft hright
      simp only [Op.run, hleft, hright]
      cases cli.get hjoint.joint name { store := file.migrate, mesh := pair } with
      | mk res p =>
          cases res with
          | error e => exact ⟨rfl, rfl, hsecrets, p.mesh.2⟩
          | ok rows => exact ⟨rfl, rfl, hsecrets, p.mesh.2⟩
  | pass nameSpace fallback clock hloaded =>
      have hjoint := hnode hloaded
      have hleft := hjoint.joint_fst.reconcilePass clock fallback nameSpace file.migrate pair
      have hright := hjoint.joint_snd.reconcilePass clock fallback nameSpace file.migrate pair
      have hlogs := hjoint.joint_fst.passLogs clock fallback nameSpace file.migrate pair
      have hlogs' := hjoint.joint_snd.passLogs clock fallback nameSpace file.migrate pair
      simp only [pair] at hleft hright hlogs hlogs'
      simp only [Op.run, hleft, hright, hlogs, hlogs']
      exact ⟨rfl, rfl, hsecrets,
        (reconcilePass hjoint.joint clock fallback nameSpace file.migrate pair).mesh.2⟩
  | secret hstdin hop =>
      rcases secretCmd_alike hstdin hop hsecrets with
        ⟨e, hleft, hright⟩ | ⟨text, next, next', hleft, hright, hnext⟩
      · simp only [Op.run, hleft, hright]
        exact ⟨trivial, rfl, hsecrets, hmesh⟩
      · simp only [Op.run, hleft, hright]
        exact ⟨trivial, rfl, hnext, hmesh⟩

/-- So do sessions. -/
theorem runSession_alike {ops ops' : List Op} (hops : List.Forall₂ Op.Alike ops ops')
    (hw : World.Alike R w w') :
    (runSession node ops w).1 = (runSession node' ops' w').1 ∧
      World.Alike R (runSession node ops w).2 (runSession node' ops' w').2 := by
  induction hops generalizing w w' with
  | nil => exact ⟨rfl, hw⟩
  | cons hop _ ih =>
      obtain ⟨hres, hnext⟩ := hop.run hnode hw
      obtain ⟨hrest, hlast⟩ := ih hnext
      exact ⟨congrArg₂ List.cons hres hrest, hlast⟩

end Session

end CeGke
