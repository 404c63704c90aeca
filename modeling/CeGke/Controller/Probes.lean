import CeGke.CeDriver
import CeGke.Controller.Recreate
import CeGke.Controller.Retries
import CeGke.FakeDriver
import CeGke.Rollout.Kills

/-!
# Liveness probes over time

The effective phase of a reply is an answer like any other, and an answer sets the phase at
once: the counter of a refresh is one of errors, and `failure_threshold` of the probe is read by
`validate` alone.  So a replica is marked failed at every result that does not pass, and waits
for the threshold only where that is one (`liveness_threshold_iff`).
-/

namespace CeGke

open Lib

variable {σ : Type}

/-! ## Results in a row -/

/-- The results up to the `i`-th end with `threshold` failing ones. -/
def FailedInARow (threshold : ℕ) (passed : ℕ → Bool) (i : ℕ) : Prop :=
  threshold ≤ i + 1 ∧ ∀ j ≤ i, i < j + threshold → passed j = false

section FailedInARow

variable {threshold N : ℕ} {passed : ℕ → Bool}

theorem failedInARow_one {i : ℕ} : FailedInARow 1 passed i ↔ passed i = false := by
  constructor
  · exact fun h ↦ h.2 i le_rfl (Nat.lt_succ_self i)
  · intro h
    refine ⟨Nat.le_add_left 1 i, fun j hj hi ↦ ?_⟩
    obtain rfl := le_antisymm hj (Nat.le_of_lt_succ hi)
    exact h

/-- The first failing result has none before it. -/
theorem not_failedInARow (h : 1 < threshold) {i : ℕ} (hfirst : ∀ j < i, passed j = true) :
    ¬ FailedInARow threshold passed i := by
  rintro ⟨hlen, hfailed⟩
  cases i with
  | zero => exact absurd hlen (not_le.mpr h)
  | succ i =>
      have hprev := hfailed i (Nat.le_succ i) (by omega)
      exact absurd (hfirst i (Nat.lt_succ_self i)) (Bool.not_eq_true _ ▸ hprev)

/-- Every failing result is one of so many in a row only if there is none, or one is enough. -/
theorem forall_failedInARow_iff (h : 0 < threshold) :
    (∀ i < N, passed i = false → FailedInARow threshold passed i) ↔
      threshold = 1 ∨ ∀ i < N, passed i = true := by
  constructor
  · intro hrow
    refine or_iff_not_imp_left.mpr fun hone i ↦ ?_
    have hlt : 1 < threshold := lt_of_le_of_ne h (Ne.symm hone)
    induction i using Nat.strong_induction_on with
    | _ i ih =>
      intro hi
      by_contra hfailed
      rw [Bool.not_eq_true] at hfailed
      exact not_failedInARow hlt (fun j hj ↦ ih j hj (hj.trans hi)) (hrow i hi hfailed)
  · rintro (rfl | hpassed) i hi hfailed
    · exact failedInARow_one.mpr hfailed
    · rw [hpassed i hi] at hfailed
      exact Bool.noConfusion hfailed

end FailedInARow

/-! ## Answers to a probe -/

/-- The reply of a host on which the job runs. -/
def probeResult (passed : Bool) : ProbeReply := { phase := .running, probePassed := some passed }

theorem effectivePhase_probeResult (passed : Bool) :
    (probeResult passed).effectivePhase = if passed then .running else .failed := by
  cases passed <;> rfl

/-- A `CeDriver` hears the effective phase of the reply that comes back. -/
theorem heard_ceDriver [Bincode ProbeRequest] [Bincode ProbeReply] {driver : CeDriver σ}
    {rest : MeshDriver σ} {d : Deployment} {c : Controller} {s : σ}
    {before after : List ReplicaState} {r : ReplicaState}
    (hc : c.replicas = before ++ r :: after) (hnodup : (jobIds c.replicas).Nodup)
    {payload bytes : List UInt8} {reply : ProbeReply}
    (hpayload : (probeRequest r.jobId d.liveness c.grant).encode = .ok payload)
    (hrequest : (driver.ce.request r.nodeId probeTopic payload driver.probeTimeoutMs
      (observePhases (driver.toMeshDriver rest) d.liveness c.grant before s).2).1 = .ok bytes)
    (hreply : ProbeReply.decode bytes = .ok reply) :
    c.heard (driver.toMeshDriver rest) d s r.jobId = some reply.effectivePhase := by
  rw [Controller.heard_of_split hc hnodup]
  exact congrArg Except.toOption (CeDriver.phase_of_reply hpayload hrequest hreply)

theorem observePhases_fakeDriver (probe : Option Probe) (grant : Option String)
    (l : List ReplicaState) (s : FakeState) : (observePhases fakeDriver probe grant l s).2 = s := by
  induction l generalizing s with
  | nil => rfl
  | cons r l ih => exact (ih _).trans (fakeDriver_phase_snd r.nodeId r.jobId probe grant s)

/-- The driver of the tests hears the result of the probe as long as the job runs. -/
theorem heard_fakeDriver {d : Deployment} {c : Controller} {s : FakeState} {job host : String}
    {p : Probe} (hnodup : (jobIds c.replicas).Nodup) (htracked : job ∈ jobIds c.replicas)
    (hprobe : d.liveness = some p) (hjob : s.jobs job = some (host, .running)) :
    c.heard fakeDriver d s job =
      some (probeResult (decide (job ∉ s.probeFails))).effectivePhase := by
  obtain ⟨r, hr, rfl⟩ := mem_jobIds.mp htracked
  obtain ⟨before, after, hc⟩ := List.append_of_mem hr
  rw [Controller.heard_of_split hc hnodup, observePhases_fakeDriver, hprobe,
    fakeDriver_phase_probed r.nodeId c.grant p hjob]
  rfl

/-! ## A probed replica over a run -/

section Run

variable [Sha256] (driver : MeshDriver σ) (d : Deployment) (clock : ℕ → UInt64) (c : Controller)
  (s : σ) (job : String)

/-- Tick `i` finds the replica failed. -/
def MarkedFailed (i : ℕ) : Prop :=
  ∃ q ∈ (Controller.after driver d clock c s i).1.refreshed driver d
    (Controller.after driver d clock c s i).2, q.jobId = job ∧ q.phase = .failed

/-- The replica `job` is tracked through the first `N` ticks, its host has it running, and its
probe has these results. -/
structure ProbedRun (passed : ℕ → Bool) (N : ℕ) : Prop where
  nodup : ∀ i < N, (jobIds (Controller.after driver d clock c s i).1.replicas).Nodup
  tracked : ∀ i < N, job ∈ jobIds (Controller.after driver d clock c s i).1.replicas
  heard : ∀ i < N, (Controller.after driver d clock c s i).1.heard driver d
    (Controller.after driver d clock c s i).2 job = some (probeResult (passed i)).effectivePhase

variable {driver d clock c s job} {passed : ℕ → Bool} {N i : ℕ}

/-- On the mesh of the tests such a replica is one whose job keeps running. -/
theorem ProbedRun.of_fakeDriver {s : FakeState} {p : Probe} (hprobe : d.liveness = some p)
    (hnodup : ∀ i < N, (jobIds (Controller.after fakeDriver d clock c s i).1.replicas).Nodup)
    (htracked : ∀ i < N, job ∈ jobIds (Controller.after fakeDriver d clock c s i).1.replicas)
    (hrunning : ∀ i < N, ∃ host,
      (Controller.after fakeDriver d clock c s i).2.jobs job = some (host, .running)) :
    ProbedRun fakeDriver d clock c s job
      (fun i ↦ decide (job ∉ (Controller.after fakeDriver d clock c s i).2.probeFails)) N where
  nodup := hnodup
  tracked := htracked
  heard i hi := by
    obtain ⟨host, hjob⟩ := hrunning i hi
    exact heard_fakeDriver (hnodup i hi) (htracked i hi) hprobe hjob

/-- A replica is marked failed at every failing result. -/
theorem ProbedRun.markedFailed_iff (h : ProbedRun driver d clock c s job passed N) (hi : i < N) :
    MarkedFailed driver d clock c s job i ↔ passed i = false := by
  have hphase : ∀ q ∈ (Controller.after driver d clock c s i).1.refreshed driver d
      (Controller.after driver d clock c s i).2, q.jobId = job →
        q.phase = (probeResult (passed i)).effectivePhase := by
    rintro q hq rfl
    obtain ⟨r, hr, hrq, hanswer, hmiss⟩ := Controller.refreshed_of_heard (h.nodup i hi) hq
    exact (hanswer _ (h.heard i hi)).1
  constructor
  · rintro ⟨q, hq, hjob, hfailed⟩
    have hresult := (hphase q hq hjob).symm.trans hfailed
    rw [effectivePhase_probeResult] at hresult
    by_contra hpassed
    rw [Bool.not_eq_false] at hpassed
    rw [if_pos hpassed] at hresult
    exact Phase.noConfusion hresult
  · intro hfailed
    have htracked := h.tracked i hi
    rw [← jobIds_refreshed driver d _ (Controller.after driver d clock c s i).2] at htracked
    obtain ⟨q, hq, hjob⟩ := mem_jobIds.mp htracked
    refine ⟨q, hq, hjob, ?_⟩
    rw [hphase q hq hjob, hfailed]
    rfl

/-- A replica that is marked failed is reaped by the same tick. -/
theorem ProbedRun.mem_toKill (h : ProbedRun driver d clock c s job passed N) (hi : i < N)
    (hfailed : MarkedFailed driver d clock c s job i) :
    job ∈ ((Controller.after driver d clock c s i).1.plan driver d
      (Controller.after driver d clock c s i).2).toKill := by
  obtain ⟨q, hq, rfl, hphase⟩ := hfailed
  have hnodup := h.nodup i hi
  rw [← jobIds_refreshed driver d _ (Controller.after driver d clock c s i).2] at hnodup
  refine (jobId_mem_toKill hnodup hq).mpr (List.mem_append_left _ (List.mem_filter.mpr ⟨hq, ?_⟩))
  rw [hphase]
  rfl

/-- **When a liveness probe trips only after its threshold**: a replica whose host has it
running is marked failed only after `failure_threshold` consecutive failing results exactly when
that threshold is one or no result fails. -/
theorem liveness_threshold_iff {p : Probe} (hvalid : d.validate = .ok ())
    (hprobe : d.liveness = some p) (hrun : ProbedRun driver d clock c s job passed N) :
    (∀ i < N, MarkedFailed driver d clock c s job i →
        FailedInARow p.failureThreshold.toNat passed i) ↔
      p.failureThreshold = 1 ∨ ∀ i < N, passed i = true := by
  have hpos : 0 < p.failureThreshold.toNat := by
    rw [Nat.pos_iff_ne_zero, ← UInt32.toNat_zero, ne_eq, UInt32.toNat_inj]
    exact (Deployment.validate_eq_ok.mp hvalid).failureThreshold_ne hprobe
  have hone : p.failureThreshold.toNat = 1 ↔ p.failureThreshold = 1 :=
    UInt32.toNat_inj (b := 1)
  rw [← hone, ← forall_failedInARow_iff hpos]
  constructor
  · exact fun h i hi hfailed ↦ h i hi ((hrun.markedFailed_iff hi).mpr hfailed)
  · exact fun h i hi hmarked ↦ h i hi ((hrun.markedFailed_iff hi).mp hmarked)

end Run

section Example

/-- The template is known by its digest. -/
local instance knownTemplates : Sha256 := Deployment.nginxSha256

/-- A probe that is to fail three times. -/
def patientProbe : Probe where
  kind := .exec ["true"]
  failureThreshold := 3

/-- One replica, watched by that probe. -/
def watchedWeb : Deployment where
  name := "web"
  nameSpace := "default"
  image := "nginx"
  replicas := 1
  liveness := some patientProbe

/-- Its replica runs. -/
def watchedReplica : Controller where
  replicas := [⟨"job-1", "n", "9154645cdccb2449", .running⟩]

/-- The mesh it runs on. -/
def watchedMesh : FakeState where
  hosts := [⟨"n", 64, 65536, 1, 0, fun _ ↦ true⟩]
  jobs job := if job = "job-1" then some ("n", .running) else none
  nextJob := 1

/-- The first result that fails, of three that it takes, has the replica killed. -/
theorem liveness_trips_at_once :
    watchedWeb.validate = .ok () ∧ watchedWeb.liveness = some patientProbe ∧
      ProbedRun fakeDriver watchedWeb (fun _ ↦ 0) watchedReplica
        (watchedMesh.failProbeOn "job-1") "job-1" (fun _ ↦ false) 1 ∧
      MarkedFailed fakeDriver watchedWeb (fun _ ↦ 0) watchedReplica
        (watchedMesh.failProbeOn "job-1") "job-1" 0 ∧
      ¬ FailedInARow patientProbe.failureThreshold.toNat (fun _ ↦ false) 0 ∧
      (watchedReplica.tick fakeDriver watchedWeb (watchedMesh.failProbeOn "job-1") 0).1.killed =
        ["job-1"] := by
  refine ⟨rfl, rfl, ⟨by decide +kernel, by decide +kernel, by decide +kernel⟩, ?_, ?_, ?_⟩
  · exact ⟨_, List.mem_singleton_self _, rfl, rfl⟩
  · exact fun h ↦ absurd h.1 (by decide)
  · decide +kernel

/-- The same with a probe that is to fail once. -/
def hastyWeb : Deployment :=
  { watchedWeb with liveness := some { patientProbe with failureThreshold := 1 } }

/-- Results that pass leave it alone, and where one result is enough a failing one is. -/
theorem liveness_threshold_passing :
    (∀ i < 3, ¬ MarkedFailed fakeDriver watchedWeb (fun _ ↦ 0) watchedReplica watchedMesh
        "job-1" i) ∧
      MarkedFailed fakeDriver hastyWeb (fun _ ↦ 0) watchedReplica
        (watchedMesh.failProbeOn "job-1") "job-1" 0 ∧
      FailedInARow 1 (fun _ ↦ false) 0 := by
  have hmarked : MarkedFailed fakeDriver hastyWeb (fun _ ↦ 0) watchedReplica
      (watchedMesh.failProbeOn "job-1") "job-1" 0 :=
    ⟨_, List.mem_singleton_self _, rfl, rfl⟩
  have hpassing : ProbedRun fakeDriver watchedWeb (fun _ ↦ 0) watchedReplica watchedMesh
      "job-1" (fun _ ↦ true) 3 :=
    ⟨by decide +kernel, by decide +kernel, by decide +kernel⟩
  have hfailing : ProbedRun fakeDriver hastyWeb (fun _ ↦ 0) watchedReplica
      (watchedMesh.failProbeOn "job-1") "job-1" (fun _ ↦ false) 1 :=
    ⟨by decide +kernel, by decide +kernel, by decide +kernel⟩
  refine ⟨fun i hi hmarked ↦ ?_, hmarked, ?_⟩
  · have hrow := (liveness_threshold_iff (by decide +kernel) rfl hpassing).mpr
      (Or.inr fun _ _ ↦ rfl) i hi hmarked
    exact Bool.noConfusion (hrow.2 i le_rfl (Nat.lt_add_of_pos_right (by decide)))
  · exact (liveness_threshold_iff (by decide +kernel) rfl hfailing).mpr
      (Or.inl rfl) 0 Nat.one_pos hmarked

end Example

end CeGke
