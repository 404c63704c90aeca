import CeGke.Cli

/-!
# What is printed

The lines that the commands of `src/main.rs` print on their way, on either stream, and what a pass
of `src/daemon.rs` logs.  The loops are those of the commands once more, with what is said at each
step; the error that ends a command is not among the lines.
-/

namespace CeGke

variable {σ : Type}

/-- `short`. -/
def short (s : String) : String := String.ofList (s.toList.take 12)

/-- `strip_ns`: what comes after the first `/`. -/
def stripNs (key : String) : String :=
  match key.toList.dropWhile (· ≠ '/') with
  | [] => key
  | _ :: name => String.ofList name

/-- `fail_note`. -/
def failNote (kind : String) (n : ℕ) : String := if n = 0 then "" else s!", {n} {kind} failure(s)"

/-! ## Reconciling to convergence -/

/-- The line of a tick that did something. -/
def tickNote (tick : ℕ) (report : TickReport) : List String :=
  if report.placed ≠ [] ∨ report.killed ≠ [] ∨ report.placeFailures > 0 ∨ report.killFailures > 0
  then
    [s!"  tick {tick}: +{report.placed.length} placed, -{report.killed.length} killed" ++
      failNote "place" report.placeFailures ++ failNote "kill" report.killFailures]
  else []

/-- The line of a tick that waits for other services than the one before it. -/
def waitingNote (tick : ℕ) (lastWaiting : List String) (report : TickReport) : List String :=
  if report.waitingOn ≠ lastWaiting ∧ report.waitingOn ≠ [] then
    [s!"  tick {tick}: waiting on dependency service(s): " ++ ", ".intercalate report.waitingOn]
  else []

/-- The last line if a tick was done. -/
def convergedNote (key : String) (replicas : List ReplicaState) : String :=
  let (_, running, _) := tallyPhases replicas
  s!"'{key}' converged: {running} running."

/-- The last lines if none was. -/
def notConvergedNote (key : String) (maxTicks : UInt32) (replicas : List ReplicaState) :
    List String :=
  let (pending, running, terminal) := tallyPhases replicas
  let name := stripNs key
  [s!"'{key}' not fully converged within {maxTicks} ticks: {running} running, " ++
      s!"{pending} pending, {terminal} terminal.",
    s!"Re-run `ce-gke rollout status {name}` to continue."]

/-- The lines of `tickLoop`. -/
def tickLines [Sha256] (driver : MeshDriver σ) (clock : ℕ → UInt64) (spec : Deployment)
    (key : String) (maxTicks : UInt32) :
    ℕ → ℕ → List String → Controller → σ → List String
  | 0, _, _, ctrl, _ => notConvergedNote key maxTicks ctrl.replicas
  | left + 1, tick, lastWaiting, ctrl, s =>
      let (report, ctrl, s) := ctrl.tick driver spec s (clock tick)
      tickNote tick report ++ waitingNote tick lastWaiting report ++
        if report.done then [convergedNote key ctrl.replicas]
        else tickLines driver clock spec key maxTicks left (tick + 1) report.waitingOn ctrl s

namespace Cli

section Commands

variable [Sha256] (cli : Cli) (driver : MeshDriver σ) (preflights : ℕ → Preflight)
  (clock : String → ℕ → UInt64)

/-- The lines of `reconcile_to_convergence`. -/
def reconcileLines (key : String) (p : CliState σ) : List String :=
  match p.store.get key with
  | none => []
  | some managed =>
      tickLines driver (clock key) managed.spec key cli.maxTicks cli.maxTicks.toNat 0 []
        (managed.controller cli.grant) p.mesh

/-! ## Apply -/

/-- The first line for the one app of a manifest. -/
def applyNote (spec : Deployment) : String :=
  s!"Applying deployment '{spec.key}' (image {spec.image}, {spec.replicas} replica(s))"

/-- The first line for an app of a stack. -/
def applyAppNote (spec : Deployment) : String :=
  let dependsOn :=
    if spec.dependsOn = [] then ""
    else ", depends_on: " ++ ",".intercalate (spec.dependsOn.map DependencyRef.service)
  s!"Applying '{spec.key}' (image {spec.image}, {spec.replicas} replica(s){dependsOn})"

/-- The lines for an app. -/
def applyOneLines (note : Deployment → String) (pre : Preflight) (spec : Deployment)
    (p : CliState σ) : List String :=
  match cli.check pre spec with
  | .error _ => []
  | .ok _ =>
      note spec ::
        cli.reconcileLines driver clock spec.key { p with store := p.store.upsert spec cli.grant }

/-- The lines of the loop of `apply_stack`, and the one after it. -/
def applyAppsLines : ℕ → List Deployment → CliState σ → List String
  | _, [], _ =>
      ["Stack applied. Run `ce-gke run` to keep dependents reconciling as their dependencies " ++
        "come up."]
  | i, spec :: apps, p =>
      cli.applyOneLines driver clock applyAppNote (preflights i) spec p ++
        match cli.applyOne driver clock (preflights i) spec p with
        | (.error _, _) => []
        | (.ok _, p) => applyAppsLines (i + 1) apps p

/-- The lines of `apply_stack`; the apps are those of the stack, in its order. -/
def applyStackLines (parsed : Except String Stack) (p : CliState σ) : List String :=
  match cli.loadStack parsed with
  | .error _ => []
  | .ok apps =>
      (s!"Applying stack: {apps.length} app(s) in dependency order: " ++
          " -> ".intercalate (apps.map fun app ↦ stripNs app.key)) ::
        cli.applyAppsLines driver preflights clock 0 apps p

/-- The lines of `apply`. -/
def applyLines (file : Except String Manifest) (p : CliState σ) : List String :=
  match file with
  | .error _ => []
  | .ok (.stack parsed) => cli.applyStackLines driver preflights clock parsed p
  | .ok (.single parsed) =>
      match Deployment.fromManifest parsed with
      | .error _ => []
      | .ok spec =>
          let spec :=
            if cli.nameSpace ≠ "default" then spec.intoNameSpace cli.nameSpace else spec
          cli.applyOneLines driver clock applyNote (preflights 0) spec p

/-! ## The other commands -/

/-- The lines of `scale`. -/
def scaleLines (name : String) (replicas : UInt32) (p : CliState σ) : List String :=
  let key := cli.keyOf name
  match p.store.get key with
  | none => []
  | some managed =>
      if replicas.toNat > maxReplicas then []
      else
        s!"Scaling '{key}': {managed.spec.replicas} -> {replicas} replica(s)" ::
          cli.reconcileLines driver clock key
            { p with
              store := p.store.modify key fun m ↦ { m with spec := { m.spec with replicas } } }

/-- A line of `rollout history`. -/
def historyNote (i : ℕ) (h : Deployment) : String := s!"  {i}. {h.revision}  image={h.image}"

/-- The lines of `rollout_cmd`. -/
def rolloutLines (op : RolloutOp) (p : CliState σ) : List String :=
  match op with
  | .status name =>
      let key := cli.keyOf name
      match p.store.get key with
      | none => []
      | some _ => s!"Reconciling '{key}'..." :: cli.reconcileLines driver clock key p
  | .undo name toRevision =>
      let key := cli.keyOf name
      match p.store.get key with
      | none => []
      | some managed =>
          match takeRevision key managed.history toRevision with
          | .error _ => []
          | .ok (prior, history) =>
              let rolled :=
                { prior with
                  replicas := managed.spec.replicas
                  nameSpace := managed.spec.nameSpace
                  name := managed.spec.name }
              s!"Rolling '{key}' back to revision {rolled.revision}" ::
                cli.reconcileLines driver clock key
                  { p with
                    store := p.store.modify key fun m ↦
                      { m with
                        history
                        spec :=
                          { prior with
                            replicas := m.spec.replicas
                            nameSpace := m.spec.nameSpace
                            name := m.spec.name } } }
  | .pause name =>
      let key := cli.keyOf name
      match p.store.get key with
      | none => []
      | some _ => [s!"Paused rollout for '{key}'."]
  | .resume name =>
      let key := cli.keyOf name
      match p.store.get key with
      | none => []
      | some _ =>
          s!"Resumed rollout for '{key}'." ::
            cli.reconcileLines driver clock key
              { p with store := p.store.modify key ({ · with paused := false }) }
  | .history name =>
      let key := cli.keyOf name
      match p.store.get key with
      | none => []
      | some managed =>
          s!"Revision history for '{key}' (newest last):" ::
            (if managed.history = [] then ["  (none)"] else []) ++
            managed.history.mapIdx (fun i h ↦ historyNote (i + 1) h) ++
            [s!"  current: {managed.spec.revision}  image={managed.spec.image}"]

end Commands

/-- The lines of the loop of `delete`, one for each kill. -/
def killLines (driver : MeshDriver σ) (grant : Option String) :
    List ReplicaState → σ → List String
  | [], _ => []
  | r :: replicas, s =>
      let (job, nodeId) := (short r.jobId, short r.nodeId)
      match driver.kill r.nodeId r.jobId grant s with
      | (.ok _, s) => s!"  killed {job} on {nodeId}" :: killLines driver grant replicas s
      | (.error e, s) =>
          s!"  warning: kill of {job} failed: {e}" :: killLines driver grant replicas s

/-- The lines of `delete`. -/
def deleteLines (cli : Cli) (driver : MeshDriver σ) (name : String) (force : Bool)
    (p : CliState σ) : List String :=
  let key := cli.keyOf name
  match p.store.get key with
  | none => []
  | some managed =>
      let grant := managed.grant.or cli.grant
      let (failures, _) := killAll driver grant managed.replicas (0, p.mesh)
      s!"Deleting '{key}': killing {managed.replicas.length} replica(s)" ::
        killLines driver grant managed.replicas p.mesh ++
        if failures > 0 ∧ force = false then
          [s!"{failures} replica(s) could not be killed; the deployment is kept. " ++
            "Re-run with --force to forget it anyway."]
        else
          (if failures > 0 then
            [s!"{failures} replica(s) could not be killed (forgotten anyway via --force)."]
          else []) ++
          [s!"Deleted '{key}'."]

/-- The lines of the command that was given. -/
def execLines [Sha256] (cli : Cli) (driver : MeshDriver σ) (preflights : ℕ → Preflight)
    (clock : String → ℕ → UInt64) : Cmd → CliState σ → List String
  | .apply file => cli.applyLines driver preflights clock file
  | .scale name replicas => cli.scaleLines driver clock name replicas
  | .rollout op => cli.rolloutLines driver clock op
  | .delete name force => cli.deleteLines driver name force

end Cli

/-! ## A pass -/

/-- What a turn of a pass logs. -/
structure ReconcileLog where
  deployment : String
  placed : ℕ
  killed : ℕ
  placeFailures : ℕ
  killFailures : ℕ
  running : ℕ
  pending : ℕ
  terminal : ℕ
deriving DecidableEq, Repr

/-- The record of a tick that did something. -/
def ReconcileLog.ofTick (key : String) (report : TickReport) (replicas : List ReplicaState) :
    List ReconcileLog :=
  let (pending, running, terminal) := tallyPhases replicas
  if report.placed.length + report.killed.length > 0 ∨
      report.placeFailures + report.killFailures > 0 then
    [{ deployment := key
       placed := report.placed.length
       killed := report.killed.length
       placeFailures := report.placeFailures
       killFailures := report.killFailures
       running, pending, terminal }]
  else []

/-- What the turns of these keys log. -/
def reconcileLogs [Sha256] (driver : MeshDriver σ) (clock : String → UInt64)
    (fallbackGrant : Option String) : List String → Pass σ → List ReconcileLog
  | [], _ => []
  | key :: keys, p =>
      (match p.store.get key with
        | none => []
        | some managed =>
            let (report, ctrl, _) :=
              (managed.controller fallbackGrant).tick driver managed.spec p.mesh (clock key)
            ReconcileLog.ofTick key report ctrl.replicas) ++
        reconcileLogs driver clock fallbackGrant keys
          (reconcileKey driver clock fallbackGrant p key)

/-- What a pass logs. -/
def passLogs [Sha256] (driver : MeshDriver σ) (clock : String → UInt64)
    (fallbackGrant nameSpace : Option String) (store : Store) (mesh : σ) : List ReconcileLog :=
  reconcileLogs driver clock fallbackGrant (store.scope nameSpace) { store, mesh }

end CeGke
