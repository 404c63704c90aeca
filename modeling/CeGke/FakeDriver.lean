import CeGke.Driver
import CeGke.Protocol
import Mathlib.Logic.Function.Basic

/-!
# The mesh driver of the tests

`FakeDriver` of `src/driver.rs`: a small mesh in memory on which calls fail on demand.  What it
tells of a probed job is the effective phase of a host's reply (`fakeDriver_phase_probed`).
-/

namespace CeGke

/-- `FakeState`. -/
structure FakeState where
  hosts : List AtlasEntry
  jobs : String → Option (String × Phase) := fun _ ↦ none
  nextJob : UInt64 := 0
  deployFails : List String := []
  killFails : List String := []
  deployFailOnce : Bool := false
  probeFails : List String := []
  advertised : List String := []
  serviceReadiness : String → Option DepReadiness := fun _ ↦ none

/-- Change the count of running jobs of the first host with this id. -/
def setRunningJobs (nodeId : String) (f : UInt32 → UInt32) : List AtlasEntry → List AtlasEntry
  | [] => []
  | h :: hosts =>
      if h.nodeId = nodeId then { h with runningJobs := f h.runningJobs } :: hosts
      else h :: setRunningJobs nodeId f hosts

/-- `FakeDriver`. -/
def fakeDriver : MeshDriver FakeState where
  atlas s := (.ok s.hosts, s)
  deploy nodeId _ _ s :=
    if s.deployFailOnce then
      (.error s!"injected transient deploy failure (5xx) on {nodeId}",
        { s with deployFailOnce := false })
    else if nodeId ∈ s.deployFails then (.error s!"host {nodeId} rejected the deploy", s)
    else
      let nextJob := s.nextJob + 1
      let job := s!"job-{nextJob}"
      (.ok job, { s with
        nextJob
        hosts := setRunningJobs nodeId (· + 1) s.hosts
        jobs := Function.update s.jobs job (some (nodeId, .pending)) })
  kill _ job _ s :=
    if job ∈ s.killFails then (.error s!"dropped peer: kill of {job} failed", s)
    else
      match s.jobs job with
      | none => (.ok (), s)
      | some (nodeId, _) =>
          (.ok (), { s with
            jobs := Function.update s.jobs job none
            hosts := setRunningJobs nodeId (fun n ↦ if n = 0 then 0 else n - 1) s.hosts })
  phase _ job probe _ s :=
    match s.jobs job with
    | none => (.error s!"unknown job {job}", s)
    | some (_, phase) =>
        -- A job that runs and does not pass its probe is reported as failed.
        if probe.isSome ∧ job ∈ s.probeFails then (.ok .failed, s) else (.ok phase, s)
  advertiseService service s := (.ok (), { s with advertised := s.advertised ++ [service] })
  serviceReady service s := (.ok ((s.serviceReadiness service).getD .absent), s)

namespace FakeState

/-- `FakeDriver::new`. -/
def new (hosts : List AtlasEntry) : FakeState := { hosts }

/-- `fail_probe_on`. -/
def failProbeOn (job : String) (s : FakeState) : FakeState :=
  { s with probeFails := s.probeFails ++ [job] }

/-- `set_service_ready`. -/
def setServiceReady (service : String) (readiness : DepReadiness) (s : FakeState) : FakeState :=
  { s with serviceReadiness := Function.update s.serviceReadiness service (some readiness) }

/-- `set_phase`: of a job that exists. -/
def setPhase (job : String) (phase : Phase) (s : FakeState) : FakeState :=
  { s with
    jobs := Function.update s.jobs job ((s.jobs job).map fun (nodeId, _) ↦ (nodeId, phase)) }

/-- `mark_all_ready`: what is pending runs. -/
def markAllReady (s : FakeState) : FakeState :=
  { s with
    jobs := fun job ↦ (s.jobs job).map fun (nodeId, phase) ↦
      (nodeId, if phase = .pending then .running else phase) }

end FakeState

section Phase

variable (nodeId job : String) (probe : Option Probe) (grant : Option String) (s : FakeState)

@[simp] theorem fakeDriver_phase_snd : (fakeDriver.phase nodeId job probe grant s).2 = s := by
  unfold fakeDriver
  simp only
  split
  · rfl
  · split_ifs
    · rfl
    · rfl

variable {job s}

/-- A probed job: its host's status, which a probe that did not pass overrides. -/
theorem fakeDriver_phase_probed (p : Probe) {host : String} {phase : Phase}
    (hjob : s.jobs job = some (host, phase)) :
    (fakeDriver.phase nodeId job (some p) grant s).1 = .ok
      (ProbeReply.effectivePhase { phase, probePassed := some (decide (job ∉ s.probeFails)) }) := by
  unfold fakeDriver
  simp only [hjob, Option.isSome_some, true_and]
  by_cases hfails : job ∈ s.probeFails
  · rw [if_pos hfails, decide_eq_false (not_not.mpr hfails)]
    rfl
  · rw [if_neg hfails, decide_eq_true hfails]
    rfl

end Phase

end CeGke
