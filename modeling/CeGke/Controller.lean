import CeGke.Driver
import CeGke.Revision
import Mathlib.Logic.Function.Basic

/-!
# The controller

`Controller` of `src/controller.rs` and its `tick`: refresh the phases, evaluate the
dependency gate, plan, kill, substitute, place, advertise.

A tick is a function of the driver, its state and the clock; the stages of the source
are functions of their own, in its order.  No stage fails: a driver error becomes a
count in the report, so the `Result` of the source is always `Ok` and is left out.
-/

namespace CeGke

/-- `DEFAULT_FAILURE_THRESHOLD`. -/
def defaultFailureThreshold : UInt32 := 3

/-- The controller's tracked state for one deployment.  `refreshFailures` counts
consecutive refresh failures per job id. -/
structure Controller where
  replicas : List ReplicaState := []
  grant : Option String := none
  maxStaleSecs : UInt64 := 120
  refreshFailures : String → Option UInt32 := fun _ ↦ none
  failureThreshold : UInt32 := defaultFailureThreshold

/-- What happened in one tick. -/
structure TickReport where
  placed : List String := []
  killed : List String := []
  placeFailures : ℕ := 0
  killFailures : ℕ := 0
  serviceAdvertised : Bool := false
  done : Bool := false
  waitingOn : List String := []
deriving DecidableEq, Repr

/-- `Controller::new`: no replicas yet. -/
def Controller.new (grant : Option String) : Controller := { grant }

variable {σ : Type}

/-! ## Refresh -/

/-- The first loop of `refresh`: ask for the phase of every tracked replica. -/
def observePhases (driver : MeshDriver σ) (probe : Option Probe) (grant : Option String) :
    List ReplicaState → σ → List (String × Option Phase) × σ
  | [], s => ([], s)
  | r :: replicas, s =>
      let (res, s) := driver.phase r.nodeId r.jobId probe grant s
      let (updates, s) := observePhases driver probe grant replicas s
      ((r.jobId, res.toOption) :: updates, s)

/-- Set the phase of the first replica with this job id. -/
def setPhase (job : String) (p : Phase) : List ReplicaState → List ReplicaState
  | [] => []
  | r :: replicas =>
      if r.jobId = job then { r with phase := p } :: replicas
      else r :: setPhase job p replicas

/-- One turn of the second loop of `refresh`. -/
def Controller.record (c : Controller) (update : String × Option Phase) : Controller :=
  let (job, maybePhase) := update
  match maybePhase with
  | some p =>
      { c with
        refreshFailures := Function.update c.refreshFailures job none
        replicas := setPhase job p c.replicas }
  | none =>
      let n := (c.refreshFailures job).getD 0 + 1
      { c with
        refreshFailures := Function.update c.refreshFailures job (some n)
        replicas :=
          if max c.failureThreshold 1 ≤ n then setPhase job .failed c.replicas
          else c.replicas }

/-- Drop the counters of replicas that are no longer tracked. -/
def Controller.retainFailures (c : Controller) : Controller :=
  { c with
    refreshFailures := fun job ↦
      if job ∈ jobIds c.replicas then c.refreshFailures job else none }

/-- `Controller::refresh`. -/
def Controller.refresh (driver : MeshDriver σ) (d : Deployment) (c : Controller) (s : σ) :
    Controller × σ :=
  let (updates, s) := observePhases driver d.liveness c.grant c.replicas s
  ((updates.foldl Controller.record c).retainFailures, s)

/-! ## The gate -/

/-- The loop of `evaluate_deps`: a lookup that fails counts as absent. -/
def observeDeps (driver : MeshDriver σ) (nameSpace : String) :
    List DependencyRef → (String → Option DepReadiness) → σ →
      (String → Option DepReadiness) × σ
  | [], readiness, s => (readiness, s)
  | dep :: deps, readiness, s =>
      let (observed, s) := driver.serviceReady (dep.resolvedServiceName nameSpace) s
      observeDeps driver nameSpace deps
        (Function.update readiness dep.service (some (observed.toOption.getD .absent))) s

/-- `Controller::evaluate_deps`. -/
def evaluateDeps (driver : MeshDriver σ) (d : Deployment) (s : σ) : Gate × σ :=
  if d.dependsOn = [] then (.ready, s)
  else
    let (readiness, s) := observeDeps driver d.nameSpace d.dependsOn (fun _ ↦ none) s
    (Gate.evaluate d fun svc ↦ (readiness svc).getD .absent, s)

/-! ## Kills -/

/-- What the stages of a tick work on. -/
structure TickState (σ : Type) where
  replicas : List ReplicaState
  report : TickReport
  mesh : σ

/-- One turn of the kill loop: a replica that is not tracked is skipped, one that could
not be killed stays tracked. -/
def tryKill (driver : MeshDriver σ) (grant : Option String) (t : TickState σ) (job : String) :
    TickState σ :=
  match t.replicas.find? fun r ↦ r.jobId = job with
  | none => t
  | some r =>
      match driver.kill r.nodeId job grant t.mesh with
      | (.ok _, mesh) =>
          { replicas := t.replicas.filter fun r ↦ r.jobId ≠ job
            report := { t.report with killed := t.report.killed ++ [job] }
            mesh }
      | (.error _, mesh) =>
          { t with
            report := { t.report with killFailures := t.report.killFailures + 1 }
            mesh }

/-- The loop of step 3b over the live on-target replicas, tracked when it starts:
retire alternates to the victims whose kill failed while more are left than desired. -/
def killAlternates (driver : MeshDriver σ) (grant : Option String) (toKill : List String) :
    List String → ℤ → TickState σ → TickState σ
  | [], _, t => t
  | job :: onTargetLive, excess, t =>
      if excess ≤ 0 then t
      else if job ∈ toKill then killAlternates driver grant toKill onTargetLive excess t
      else
        match t.replicas.find? fun r ↦ r.jobId = job with
        | none => killAlternates driver grant toKill onTargetLive excess t
        | some r =>
            match driver.kill r.nodeId job grant t.mesh with
            | (.ok _, mesh) =>
                killAlternates driver grant toKill onTargetLive (excess - 1)
                  { replicas := t.replicas.filter fun r ↦ r.jobId ≠ job
                    report :=
                      { t.report with
                        killed := t.report.killed ++ [job]
                        killFailures := t.report.killFailures - 1 }
                    mesh }
            | (.error _, mesh) =>
                killAlternates driver grant toKill onTargetLive excess { t with mesh }

/-- Step 3b: only after a kill failed. -/
def substitute (driver : MeshDriver σ) (grant : Option String) (desired : ℕ) (target : String)
    (toKill : List String) (t : TickState σ) : TickState σ :=
  if t.report.killFailures > 0 then
    let onTargetLive := jobIds (t.replicas.filter (onTarget target))
    killAlternates driver grant toKill onTargetLive ((onTargetLive.length : ℤ) - desired) t
  else t

/-! ## Placements -/

/-- Penalize the first candidate on this host. -/
def penalize (nodeId : String) : List Candidate → List Candidate
  | [] => []
  | c :: candidates =>
      if c.nodeId = nodeId then { c with score := c.score - 150 } :: candidates
      else c :: penalize nodeId candidates

/-- What the placement loop works on. -/
structure PlaceState (σ : Type) where
  toPlace : ℕ
  candidates : List Candidate
  tick : TickState σ

/-- The placement loop; the first argument is how many attempts are left. -/
def placeLoop (driver : MeshDriver σ) (grant : Option String) (d : Deployment)
    (target : String) : ℕ → PlaceState σ → PlaceState σ
  | 0, p => p
  | attempts + 1, p =>
      if p.toPlace = 0 then p
      else
        match p.candidates with
        | [] =>
            let report := p.tick.report
            { p with
              tick :=
                { p.tick with
                  report := { report with placeFailures := report.placeFailures + p.toPlace } } }
        | best :: _ =>
            match driver.deploy best.nodeId d grant p.tick.mesh with
            | (.ok job, mesh) =>
                placeLoop driver grant d target attempts
                  { toPlace := p.toPlace - 1
                    candidates :=
                      (penalize best.nodeId p.candidates).insertionSort Candidate.Before
                    tick :=
                      { replicas := p.tick.replicas ++ [⟨job, best.nodeId, target, .pending⟩]
                        report := { p.tick.report with placed := p.tick.report.placed ++ [job] }
                        mesh } }
            | (.error _, mesh) =>
                placeLoop driver grant d target attempts
                  { p with
                    candidates := p.candidates.filter fun c ↦ c.nodeId ≠ best.nodeId
                    tick := { p.tick with mesh } }

/-- The cap on placement attempts. -/
def maxAttempts (toPlace : ℕ) (candidates : List Candidate) : ℕ :=
  max (saturatingMul toPlace 4) (asU32 (asU32 candidates.length + 1))

/-- Step 4: place on ranked candidates unless the gate holds the deployment. -/
def place (driver : MeshDriver σ) (now maxStaleSecs : UInt64) (grant : Option String)
    (d : Deployment) (target : String) (gate : Gate) (toPlace : ℕ) (t : TickState σ) :
    TickState σ :=
  if toPlace > 0 ∧ gate.isReady then
    let (atlas, mesh) := driver.atlas t.mesh
    let candidates := rank (atlas.toOption.getD []) d now.toNat maxStaleSecs.toNat
    let p := placeLoop driver grant d target (maxAttempts toPlace candidates)
      { toPlace, candidates, tick := { t with mesh } }
    if p.toPlace > 0 ∧ p.candidates ≠ [] then
      let report := p.tick.report
      { p.tick with report := { report with placeFailures := report.placeFailures + p.toPlace } }
    else p.tick
  else t

/-! ## The tick -/

/-- Step 5: advertise the named service when a replica is running. -/
def advertise (driver : MeshDriver σ) (d : Deployment) (gate : Gate) (t : TickState σ) :
    TickState σ :=
  match d.serviceName with
  | none => t
  | some service =>
      if (t.replicas.any fun r ↦ r.phase = .running) ∧ gate.isReady then
        match driver.advertiseService service t.mesh with
        | (.ok _, mesh) => { t with report := { t.report with serviceAdvertised := true }, mesh }
        | (.error _, mesh) =>
            { t with report := { t.report with serviceAdvertised := false }, mesh }
      else t

/-- The bare service names a gate waits for. -/
def Gate.unmet : Gate → List String
  | ready => []
  | waiting unmet => unmet

namespace Controller

variable [Sha256] (driver : MeshDriver σ) (d : Deployment) (c : Controller) (s : σ)

/-- Steps 1 to 2: the tracked replicas after the refresh, the gate, and the plan as far
as it is reported. -/
def planned : Gate × TickState σ :=
  let (c, s) := c.refresh driver d s
  let (gate, s) := evaluateDeps driver d s
  let step := planStep d c.replicas d.revision
  (gate,
    { replicas := c.replicas
      report := { done := step.done && gate.isReady, waitingOn := gate.unmet }
      mesh := s })

/-- The replicas a tick plans for: those tracked after its refresh. -/
def refreshed : List ReplicaState := (c.refresh driver d s).1.replicas

/-- The plan of a tick. -/
def plan : RolloutStep := planStep d (c.refreshed driver d s) d.revision

/-- Step 3: the planned kills. -/
def afterKills : TickState σ :=
  (c.plan driver d s).toKill.foldl (tryKill driver c.grant) (c.planned driver d s).2

/-- Step 3b: the substitutes. -/
def afterSubstitutes : TickState σ :=
  substitute driver c.grant d.replicas.toNat d.revision (c.plan driver d s).toKill
    (c.afterKills driver d s)

/-- Step 4: the placements. -/
def afterPlacements (now : UInt64) : TickState σ :=
  place driver now c.maxStaleSecs c.grant d d.revision (c.planned driver d s).1
    (c.plan driver d s).toPlace (c.afterSubstitutes driver d s)

/-- `Controller::tick`. -/
def tick (now : UInt64) : TickReport × Controller × σ :=
  let t := advertise driver d (c.planned driver d s).1 (c.afterPlacements driver d s now)
  (t.report, { (c.refresh driver d s).1 with replicas := t.replicas }, t.mesh)

/-- The loop of `converge` from tick number `i` on, with so many ticks left; `between` is
what the caller makes of the mesh after a tick that is not done. -/
def convergeLoop (clock : ℕ → UInt64) (between : σ → σ) :
    ℕ → ℕ → TickReport → Controller → σ → TickReport × Controller × σ
  | 0, _, last, c, s => (last, c, s)
  | left + 1, i, _, c, s =>
      let (last, c, s) := c.tick driver d s (clock i)
      if last.done then (last, c, s)
      else convergeLoop clock between left (i + 1) last c (between s)

/-- `Controller::converge`: the report of the last tick. -/
def converge (clock : ℕ → UInt64) (between : σ → σ) (maxTicks : UInt32) :
    TickReport × Controller × σ :=
  convergeLoop driver d clock between maxTicks.toNat 0 {} c s

end Controller

end CeGke
