import CeGke.Deps
import CeGke.Placement

/-!
# The driver

`MeshDriver` of `src/driver.rs`: the calls through which the controller touches the
mesh.  A driver is any machine with a state of its own that answers each call, so a
statement about every driver is a statement about every sequence of answers.
-/

namespace CeGke

/-- The capabilities the controller needs from the mesh. -/
structure MeshDriver (σ : Type) where
  atlas : σ → Except String (List AtlasEntry) × σ
  deploy (nodeId : String) (d : Deployment) (grant : Option String) :
    σ → Except String String × σ
  kill (nodeId jobId : String) (grant : Option String) : σ → Except String Unit × σ
  phase (nodeId jobId : String) (probe : Option Probe) (grant : Option String) :
    σ → Except String Phase × σ
  advertiseService (service : String) : σ → Except String Unit × σ
  serviceReady (service : String) : σ → Except String DepReadiness × σ

/-! ## What happened -/

/-- A call that changed what runs on the mesh. -/
inductive MeshEvent where
  /-- `job` was launched for `d` on `nodeId`. -/
  | deployed (nodeId : String) (d : Deployment) (job : String)
  /-- `job` was stopped on `nodeId`. -/
  | killed (nodeId job : String)
deriving DecidableEq, Repr

namespace MeshEvent

/-- The job an event launched. -/
def deployedJob? : MeshEvent → Option String
  | deployed _ _ job => some job
  | killed _ _ => none

/-- The job an event stopped. -/
def killedJob? : MeshEvent → Option String
  | deployed _ _ _ => none
  | killed _ job => some job

end MeshEvent

/-- The jobs a log launched, in order. -/
def deployedJobs (log : List MeshEvent) : List String := log.filterMap MeshEvent.deployedJob?

/-- The jobs a log stopped, in order. -/
def killedJobs (log : List MeshEvent) : List String := log.filterMap MeshEvent.killedJob?

section Jobs

variable (log : List MeshEvent) (nodeId job : String) (d : Deployment)

@[simp] theorem deployedJobs_nil : deployedJobs [] = [] := rfl

@[simp] theorem killedJobs_nil : killedJobs [] = [] := rfl

@[simp] theorem deployedJobs_append (log' : List MeshEvent) :
    deployedJobs (log ++ log') = deployedJobs log ++ deployedJobs log' :=
  List.filterMap_append

@[simp] theorem killedJobs_append (log' : List MeshEvent) :
    killedJobs (log ++ log') = killedJobs log ++ killedJobs log' := List.filterMap_append

@[simp] theorem deployedJobs_deployed : deployedJobs [.deployed nodeId d job] = [job] := rfl

@[simp] theorem deployedJobs_killed : deployedJobs [.killed nodeId job] = [] := rfl

@[simp] theorem killedJobs_deployed : killedJobs [.deployed nodeId d job] = [] := rfl

@[simp] theorem killedJobs_killed : killedJobs [.killed nodeId job] = [job] := rfl

variable {log} {job}

theorem mem_deployedJobs : job ∈ deployedJobs log ↔ ∃ nodeId d, .deployed nodeId d job ∈ log := by
  rw [deployedJobs, List.mem_filterMap]
  constructor
  · rintro ⟨e, he, hjob⟩
    cases e with
    | deployed nodeId d job' => exact ⟨nodeId, d, Option.some.inj hjob ▸ he⟩
    | killed nodeId job' => exact absurd hjob (by simp [MeshEvent.deployedJob?])
  · rintro ⟨nodeId, d, h⟩
    exact ⟨_, h, rfl⟩

theorem mem_killedJobs : job ∈ killedJobs log ↔ ∃ nodeId, .killed nodeId job ∈ log := by
  rw [killedJobs, List.mem_filterMap]
  constructor
  · rintro ⟨e, he, hjob⟩
    cases e with
    | deployed nodeId d job' => exact absurd hjob (by simp [MeshEvent.killedJob?])
    | killed nodeId job' => exact ⟨nodeId, Option.some.inj hjob ▸ he⟩
  · rintro ⟨nodeId, h⟩
    exact ⟨_, h, rfl⟩

end Jobs

/-- The same driver, with a log of the deploys and kills that succeeded. -/
def MeshDriver.logged {σ : Type} (driver : MeshDriver σ) :
    MeshDriver (σ × List MeshEvent) where
  atlas s := ((driver.atlas s.1).1, (driver.atlas s.1).2, s.2)
  deploy nodeId d grant s :=
    match driver.deploy nodeId d grant s.1 with
    | (.ok job, mesh) => (.ok job, mesh, s.2 ++ [.deployed nodeId d job])
    | (.error e, mesh) => (.error e, mesh, s.2)
  kill nodeId job grant s :=
    match driver.kill nodeId job grant s.1 with
    | (.ok u, mesh) => (.ok u, mesh, s.2 ++ [.killed nodeId job])
    | (.error e, mesh) => (.error e, mesh, s.2)
  phase nodeId job probe grant s :=
    ((driver.phase nodeId job probe grant s.1).1, (driver.phase nodeId job probe grant s.1).2, s.2)
  advertiseService service s :=
    ((driver.advertiseService service s.1).1, (driver.advertiseService service s.1).2, s.2)
  serviceReady service s :=
    ((driver.serviceReady service s.1).1, (driver.serviceReady service s.1).2, s.2)

/-- The event records an answer this driver gives in some state. -/
def MeshDriver.Answers {σ : Type} (driver : MeshDriver σ) : MeshEvent → Prop
  | .deployed nodeId d job => ∃ grant s, (driver.deploy nodeId d grant s).1 = .ok job
  | .killed nodeId job => ∃ grant s, (driver.kill nodeId job grant s).1 = .ok ()

/-- A mesh that has lost touch with its hosts: no phase is known, nothing can be placed,
and the jobs `stuck` cannot be killed. -/
def stuckDriver (stuck : List String) : MeshDriver Unit where
  atlas s := (.ok [], s)
  deploy _ _ _ s := (.error "host unreachable", s)
  kill _ job _ s := (if job ∈ stuck then .error "host unreachable" else .ok (), s)
  phase _ _ _ _ s := (.error "host unreachable", s)
  advertiseService _ s := (.ok (), s)
  serviceReady _ s := (.ok .absent, s)

/-- A mesh of one large host on which everything works; its state are the job ids it has
still to hand out. -/
def scriptedDriver : MeshDriver (List String) where
  atlas jobs := (.ok [⟨"n", 64, 65536, 0, 0, fun _ ↦ true⟩], jobs)
  deploy _ _ _
    | job :: jobs => (.ok job, jobs)
    | [] => (.error "host full", [])
  kill _ _ _ jobs := (.ok (), jobs)
  phase _ _ _ _ jobs := (.ok .running, jobs)
  advertiseService _ jobs := (.ok (), jobs)
  serviceReady _ jobs := (.ok .healthy, jobs)

/-- A mesh of the hosts `hosts` on which everything works but some deploys; its state counts
the deploys, and `takes` says which host takes which of them. -/
def pickyDriver (hosts : List AtlasEntry) (takes : String → ℕ → Bool) : MeshDriver ℕ where
  atlas n := (.ok hosts, n)
  deploy nodeId _ _ n := (if takes nodeId n then .ok s!"job-{n}" else .error "host full", n + 1)
  kill _ _ _ n := (.ok (), n)
  phase _ _ _ _ n := (.ok .running, n)
  advertiseService _ n := (.ok (), n)
  serviceReady _ n := (.ok .healthy, n)

theorem stuckDriver_kill (stuck : List String) (nodeId job : String) (grant : Option String)
    (s : Unit) : (stuckDriver stuck).kill nodeId job grant s =
      (if job ∈ stuck then .error "host unreachable" else .ok (), s) := rfl

end CeGke
