import CeGke.Controller.Converge
import CeGke.FakeDriver
import CeGke.Placement.Rank
import Mathlib.Data.Set.Card
import Std.Data.String.ToNat

/-!
# Convergence on the mesh of the tests

`FakeDriver` without injected faults serves every deployment, `mark_all_ready` is what happens
between two ticks, and one host with enough room is enough.  So the controller converges on it
(`fakeDriver_converges`).
-/

namespace CeGke

/-- The first host of this id. -/
def firstHost (nodeId : String) (hosts : List AtlasEntry) : Option AtlasEntry :=
  hosts.find? fun h ↦ h.nodeId = nodeId

theorem firstHost_setRunningJobs (nodeId nodeId' : String) (f : UInt32 → UInt32)
    (hosts : List AtlasEntry) :
    firstHost nodeId (setRunningJobs nodeId' f hosts) =
      if nodeId = nodeId' then
        (firstHost nodeId hosts).map fun h ↦ { h with runningJobs := f h.runningJobs }
      else firstHost nodeId hosts := by
  induction hosts with
  | nil => split_ifs <;> rfl
  | cons h hosts ih =>
      unfold firstHost at ih ⊢
      rw [setRunningJobs]
      by_cases hid : h.nodeId = nodeId'
      · rw [if_pos hid]
        by_cases hnode : h.nodeId = nodeId
        · have heq : nodeId = nodeId' := hnode.symm.trans hid
          simp [hnode, heq]
        · have hne : nodeId ≠ nodeId' := fun heq ↦ hnode (hid.trans heq.symm)
          simp [hnode, hne]
      · rw [if_neg hid]
        by_cases hnode : h.nodeId = nodeId
        · have hne : nodeId ≠ nodeId' := fun heq ↦ hid (hnode.trans heq)
          simp [hnode, hne]
        · simp only [List.find?_cons, hnode, decide_false, ih]

namespace FakeState

/-- The jobs that exist. -/
def known (s : FakeState) : Set String := {job | s.jobs job ≠ none}

/-- The jobs on a host. -/
def on (s : FakeState) (nodeId : String) : Set String :=
  {job | ∃ phase, s.jobs job = some (nodeId, phase)}

/-- No fault has been injected, no job has an id that is still to be given out, and the host
`host` is listed with no more than `base` running jobs besides those that exist on it. -/
structure Sound (host : AtlasEntry) (base : ℕ) (s : FakeState) : Prop where
  deployFails : s.deployFails = []
  killFails : s.killFails = []
  deployFailOnce : s.deployFailOnce = false
  probeFails : s.probeFails = []
  finite : s.known.Finite
  unissued : ∀ n > s.nextJob.toNat, s.jobs s!"job-{n}" = none
  host : ∃ runningJobs : UInt32,
    firstHost host.nodeId s.hosts = some { host with runningJobs } ∧
      runningJobs.toNat ≤ base + (s.on host.nodeId).ncard

/-- What there is to see of the mesh; its services are set by hand. -/
noncomputable def view (host : AtlasEntry) (base capacity : ℕ) : MeshView FakeState where
  sound := Sound host base
  jobs := jobs
  hosts _ := True
  live s service := s.serviceReadiness service = some .healthy
  announces := False
  load s := s.known.ncard
  capacity
  issued s := s.nextJob.toNat
  supply := 2 ^ 64 - 1

variable {host : AtlasEntry} {base capacity : ℕ} {s : FakeState} {job : String}

/-- An id that is still to be given out is not one that has been. -/
theorem jobName_injective : Function.Injective fun n : ℕ ↦ s!"job-{n}" := by
  intro m n h
  have hrepr : "job-" ++ Nat.repr m = "job-" ++ Nat.repr n := by simpa using h
  exact Nat.repr_injective (String.append_right_inj _ |>.mp hrepr)

theorem known_kill (s : FakeState) (job : String) (hosts : List AtlasEntry) :
    known { s with jobs := Function.update s.jobs job none, hosts } = s.known \ {job} := by
  ext k
  by_cases hk : k = job <;> simp [known, hk]

theorem known_deploy (s : FakeState) (job nodeId : String) (phase : Phase) (nextJob : UInt64)
    (hosts : List AtlasEntry) :
    known { s with
      nextJob, hosts, jobs := Function.update s.jobs job (some (nodeId, phase)) } =
      insert job s.known := by
  ext k
  by_cases hk : k = job <;> simp [known, hk]

theorem on_kill (s : FakeState) (job nodeId : String) (hosts : List AtlasEntry) :
    on { s with jobs := Function.update s.jobs job none, hosts } nodeId = s.on nodeId \ {job} := by
  ext k
  by_cases hk : k = job <;> simp [on, hk]

theorem on_deploy (hnone : s.jobs job = none) (nodeId nodeId' : String) (phase : Phase)
    (nextJob : UInt64) (hosts : List AtlasEntry) :
    on { s with
      nextJob, hosts, jobs := Function.update s.jobs job (some (nodeId, phase)) } nodeId' =
      if nodeId' = nodeId then insert job (s.on nodeId') else s.on nodeId' := by
  ext k
  by_cases hk : k = job
  · subst hk
    split_ifs with hnode
    · simp [on, hnode]
    · simp [on, hnone, Ne.symm hnode]
  · split_ifs <;> simp [on, hk]

theorem Sound.finite_on (h : s.Sound host base) (nodeId : String) : (s.on nodeId).Finite := by
  refine h.finite.subset fun job hjob ↦ ?_
  obtain ⟨phase, hphase⟩ := hjob
  simp [known, hphase]

theorem toNat_succ_nextJob {n : UInt64} (h : n.toNat < 2 ^ 64 - 1) :
    (n + 1).toNat = n.toNat + 1 := by
  rw [UInt64.toNat_add, UInt64.toNat_one]
  omega

/-- A kill of a job that exists. -/
theorem Sound.kill (h : s.Sound host base) {nodeId : String} {phase : Phase}
    (hjob : s.jobs job = some (nodeId, phase)) (f : UInt32 → UInt32)
    (hf : ∀ n, (f n).toNat = n.toNat - 1) :
    (view host base capacity).Moves s
      { s with jobs := Function.update s.jobs job none, hosts := setRunningJobs nodeId f s.hosts }
      (Function.update ((view host base capacity).jobs s) job none)
      ((view host base capacity).load s - 1) ((view host base capacity).issued s) := by
  have hmem : job ∈ s.known := by simp [known, hjob]
  refine ⟨?_, rfl, fun _ ↦ id, ?_, le_rfl⟩
  · refine ⟨h.deployFails, h.killFails, h.deployFailOnce, h.probeFails, ?_, fun n hn ↦ ?_, ?_⟩
    · rw [known_kill]
      exact h.finite.sdiff
    · by_cases heq : s!"job-{n}" = job
      · rw [heq]
        exact Function.update_self _ _ _
      · exact (Function.update_of_ne heq _ _).trans (h.unissued n hn)
    · obtain ⟨runningJobs, hhost, hle⟩ := h.host
      simp only [firstHost_setRunningJobs, hhost, Option.map_some]
      by_cases hnode : host.nodeId = nodeId
      · have hmem' : job ∈ s.on host.nodeId := ⟨phase, hnode ▸ hjob⟩
        have hpos := Set.ncard_pos (h.finite_on host.nodeId) |>.mpr ⟨job, hmem'⟩
        refine ⟨f runningJobs, if_pos hnode, ?_⟩
        rw [hf, on_kill, Set.ncard_sdiff_singleton_of_mem hmem']
        omega
      · have hnotMem : job ∉ s.on host.nodeId := by
          rintro ⟨phase', hphase'⟩
          exact hnode (congrArg Prod.fst (Option.some.inj (hphase'.symm.trans hjob)))
        refine ⟨runningJobs, if_neg hnode, ?_⟩
        rwa [on_kill, Set.sdiff_singleton_eq_self hnotMem]
  · simp only [view, known_kill, Set.ncard_sdiff_singleton_of_mem hmem, le_refl]

/-- A deploy, as long as there are ids. -/
theorem Sound.deploy (h : s.Sound host base) (nodeId : String)
    (hissued : s.nextJob.toNat < 2 ^ 64 - 1) :
    s.jobs s!"job-{s.nextJob + 1}" = none ∧
      (view host base capacity).Moves s
        { s with
          nextJob := s.nextJob + 1
          hosts := setRunningJobs nodeId (· + 1) s.hosts
          jobs := Function.update s.jobs s!"job-{s.nextJob + 1}" (some (nodeId, .pending)) }
        (Function.update ((view host base capacity).jobs s) s!"job-{s.nextJob + 1}"
          (some (nodeId, .pending)))
        ((view host base capacity).load s + 1) ((view host base capacity).issued s + 1) := by
  have hnext := toNat_succ_nextJob hissued
  have hname : s!"job-{s.nextJob + 1}" = s!"job-{s.nextJob.toNat + 1}" :=
    congrArg (fun n : ℕ ↦ s!"job-{n}") hnext
  rw [hname]
  set job := s!"job-{s.nextJob.toNat + 1}" with hjob
  have hnone : s.jobs job = none := h.unissued _ (Nat.lt_succ_self _)
  refine ⟨hnone, ?_, rfl, fun _ ↦ id, ?_, hnext.le⟩
  · refine ⟨h.deployFails, h.killFails, h.deployFailOnce, h.probeFails, ?_, fun n hn ↦ ?_, ?_⟩
    · rw [known_deploy]
      exact h.finite.insert job
    · have hn' : n > s.nextJob.toNat + 1 := hnext ▸ hn
      have hne : s!"job-{n}" ≠ job := fun heq ↦ hn'.ne' (jobName_injective heq)
      exact (Function.update_of_ne hne _ _).trans (h.unissued n (by omega))
    · obtain ⟨runningJobs, hhost, hle⟩ := h.host
      simp only [firstHost_setRunningJobs, hhost, Option.map_some]
      rw [on_deploy hnone]
      by_cases hnode : host.nodeId = nodeId
      · have hfresh : job ∉ s.on host.nodeId := by
          rintro ⟨phase, hphase⟩
          exact absurd (hnone.symm.trans hphase) (by simp)
        have hwrap : (runningJobs + 1).toNat ≤ runningJobs.toNat + 1 := by
          rw [UInt32.toNat_add]
          exact Nat.mod_le _ _
        refine ⟨runningJobs + 1, if_pos hnode, ?_⟩
        rw [if_pos hnode, Set.ncard_insert_of_notMem hfresh (h.finite_on _)]
        omega
      · exact ⟨runningJobs, if_neg hnode, by rwa [if_neg hnode]⟩
  · simp only [view, known_deploy]
    exact Set.ncard_insert_le _ _

/-- Phases and services may be set by hand. -/
theorem Sound.setPhase (h : s.Sound host base) (job : String) (phase : Phase) :
    (s.setPhase job phase).Sound host base ∧ (s.setPhase job phase).known = s.known := by
  have hnone : ∀ k, (s.setPhase job phase).jobs k = none ↔ s.jobs k = none := by
    intro k
    by_cases hk : k = job <;> simp [FakeState.setPhase, hk]
  have hknown : (s.setPhase job phase).known = s.known := Set.ext fun k ↦ not_congr (hnone k)
  have hon : ∀ nodeId, (s.setPhase job phase).on nodeId = s.on nodeId := by
    intro nodeId
    ext k
    by_cases hk : k = job
    · subst hk
      cases hjob : s.jobs k <;> simp [on, FakeState.setPhase, hjob, Prod.ext_iff]
    · simp [on, FakeState.setPhase, hk]
  refine ⟨⟨h.deployFails, h.killFails, h.deployFailOnce, h.probeFails, ?_, fun n hn ↦ ?_, ?_⟩,
    hknown⟩
  · rw [hknown]
    exact h.finite
  · exact (hnone _).mpr (h.unissued n hn)
  · rw [hon]
    exact h.host

theorem Sound.setServiceReady (h : s.Sound host base) (service : String)
    (readiness : DepReadiness) : (s.setServiceReady service readiness).Sound host base :=
  ⟨h.deployFails, h.killFails, h.deployFailOnce, h.probeFails, h.finite, h.unissued, h.host⟩

end FakeState

open FakeState

variable {host : AtlasEntry} {base capacity : ℕ}

/-- **The mesh of the tests serves every deployment**, as long as no fault is injected. -/
theorem fakeDriver_serves (d : Deployment) (grant : Option String) :
    fakeDriver.Serves (view host base capacity) d grant where
  phase := by
    intro s nodeId job p hs hp
    have hjob : s.jobs job = some (nodeId, p) := hp
    refine ⟨s, ?_, .refl hs⟩
    have hnone : job ∉ s.probeFails := hs.probeFails ▸ List.not_mem_nil
    simp only [fakeDriver, hjob, hnone, and_false, if_false]
  kill := by
    intro s nodeId job p hs hp
    have hjob : s.jobs job = some (nodeId, p) := hp
    have hnone : job ∉ s.killFails := hs.killFails ▸ List.not_mem_nil
    refine ⟨_, ?_, Sound.kill hs hjob (fun n ↦ if n = 0 then 0 else n - 1) fun n ↦ ?_⟩
    · simp only [fakeDriver, hnone, if_false, hjob]
    · split_ifs with hzero
      · rw [hzero]
        rfl
      · have hone : (1 : UInt32) ≤ n := by
          rw [UInt32.le_iff_toNat_le]
          exact Nat.pos_of_ne_zero fun h ↦ hzero (UInt32.toNat_inj.mp h)
        rw [UInt32.toNat_sub_of_le _ _ hone]
        rfl
  deploy := by
    intro s nodeId hs _ _ hissued
    have hnone : nodeId ∉ s.deployFails := hs.deployFails ▸ List.not_mem_nil
    obtain ⟨hfresh, hmoves⟩ := hs.deploy nodeId hissued
    refine ⟨_, .pending, _, ?_, hfresh, rfl, hmoves⟩
    simp only [fakeDriver, hs.deployFailOnce, Bool.false_eq_true, if_false, hnone]
  advertiseService := by
    intro s service hs
    refine ⟨_, rfl, ⟨?_, rfl, fun _ ↦ id, le_rfl, le_rfl⟩, False.elim⟩
    exact ⟨hs.deployFails, hs.killFails, hs.deployFailOnce, hs.probeFails, hs.finite, hs.unissued,
      hs.host⟩
  serviceReady := by
    intro s service hs
    refine ⟨_, _, rfl, .refl hs, fun hlive ↦ ?_⟩
    rw [hlive]
    rfl

/-- `mark_all_ready` is what happens between two ticks. -/
theorem markAllReady_settles :
    (view host base capacity).Settles markAllReady where
  moves s hs := by
    have hiff : ∀ job, s.markAllReady.jobs job = none ↔ s.jobs job = none :=
      fun job ↦ Option.map_eq_none_iff
    have hknown : s.markAllReady.known = s.known := by
      ext job
      exact not_congr (hiff job)
    have hon : ∀ nodeId, s.markAllReady.on nodeId = s.on nodeId := by
      intro nodeId
      ext job
      cases hjob : s.jobs job with
      | none => simp [FakeState.on, markAllReady, hjob]
      | some e =>
          obtain ⟨nodeId', phase⟩ := e
          simp [FakeState.on, markAllReady, hjob]
    refine ⟨⟨hs.deployFails, hs.killFails, hs.deployFailOnce, hs.probeFails, ?_, fun n hn ↦ ?_, ?_⟩,
      ?_, fun _ ↦ id, ?_, le_rfl⟩
    · rw [hknown]
      exact hs.finite
    · exact (hiff _).mpr (hs.unissued n hn)
    · rw [hon]
      exact hs.host
    · ext1 job
      refine congrArg (Option.map · (s.jobs job)) (funext fun e ↦ ?_)
      obtain ⟨nodeId, phase⟩ := e
      cases phase <;> rfl
    · exact (congrArg Set.ncard hknown).le

/-- One host that is fresh, and fits the deployment with that many jobs on it, is enough. -/
theorem fakeDriver_hasRoom {d : Deployment} {maxStaleSecs now : UInt64}
    (hfresh : isFresh host now.toNat maxStaleSecs.toNat = true)
    (hfits : ∀ runningJobs : UInt32, runningJobs.toNat < base + capacity →
      hostCanFit { host with runningJobs } d = true) :
    fakeDriver.HasRoom (view host base capacity) d maxStaleSecs now := by
  intro s hs hload
  refine ⟨s.hosts, s, rfl, .refl hs, fun _ _ ↦ trivial, ?_⟩
  obtain ⟨runningJobs, hhost, hle⟩ := hs.host
  have hsub : s.on host.nodeId ⊆ s.known := fun job hjob ↦ by
    obtain ⟨phase, hphase⟩ := hjob
    simp [known, hphase]
  have hcard := Set.ncard_le_ncard hsub hs.finite
  have hlt : runningJobs.toNat < base + capacity := by
    have hload' : s.known.ncard < capacity := hload
    omega
  refine List.ne_nil_of_mem (mem_rank.mpr ⟨_, List.mem_of_find?_eq_some hhost, hfresh, ?_, rfl⟩)
  exact hfits runningJobs hlt

/-- **The controller converges on the mesh of the tests**: from any tracked replicas that exist on
their hosts, in whatever phases they are tracked and they are there, with one fresh host that fits
as many more as the surge ceiling allows. -/
theorem fakeDriver_converges [Sha256] {d : Deployment} (hd : d.validate = .ok ()) {c : Controller}
    {s : FakeState} (hs : s.Sound host base) (hnodup : (jobIds c.replicas).Nodup)
    (hknown : ∀ r ∈ c.replicas, ∃ phase, s.jobs r.jobId = some (r.nodeId, phase))
    {clock : ℕ → UInt64}
    (hfresh : ∀ i, isFresh host (clock i).toNat c.maxStaleSecs.toNat = true)
    (hfits : ∀ runningJobs : UInt32,
      runningJobs.toNat < base + (s.known.ncard + (d.replicas.toNat + d.strategy.surge)) →
        hostCanFit { host with runningJobs } d = true)
    (hdeps : ∀ dep ∈ d.dependsOn,
      s.serviceReadiness (dep.resolvedServiceName d.nameSpace) = some .healthy)
    {maxTicks : UInt32} (hmax : 2 * c.replicas.length + 4 ≤ maxTicks.toNat)
    (hissued : s.nextJob.toNat + maxTicks.toNat * d.replicas.toNat ≤ 2 ^ 64 - 1) :
    (c.converge fakeDriver d s clock markAllReady maxTicks).1.done = true ∧
      Converged d d.revision (c.converge fakeDriver d s clock markAllReady maxTicks).2.1.replicas ∧
      ∀ r ∈ (c.converge fakeDriver d s clock markAllReady maxTicks).2.1.replicas,
        (c.converge fakeDriver d s clock markAllReady maxTicks).2.2.jobs r.jobId =
          some (r.nodeId, .running) := by
  set capacity := s.known.ncard + (d.replicas.toNat + d.strategy.surge) with hcapacity
  have hholds : (view host base capacity).Holds s.known.ncard c.replicas s :=
    ⟨hs, hnodup, hknown, Nat.le_add_right _ _⟩
  obtain ⟨hdone, hreconciled⟩ := Controller.converge_served (fakeDriver_serves d c.grant)
    (fun i ↦ fakeDriver_hasRoom (hfresh i) hfits) hcapacity.ge markAllReady_settles hholds
    hissued hdeps hd rfl hmax
  exact ⟨hdone, hreconciled.converged, hreconciled.running⟩

section Example

/-- A host for a few replicas. -/
def fewHost : AtlasEntry := ⟨"a", 16, 16384, 0, 0, fun _ ↦ true⟩

/-- Two replicas of nginx, rolled out one at a time, which need a database. -/
def twoWeb : Deployment where
  name := "web"
  nameSpace := "default"
  image := "nginx"
  replicas := 2
  strategy := .rollingUpdate 0 1
  dependsOn := [⟨"db", true⟩]

/-- The host with three jobs on it, of which the first has come up and the second has crashed since,
and the database. -/
def usedMesh : FakeState :=
  let deploy (s : FakeState) := (fakeDriver.deploy "a" twoWeb none s).2
  (((deploy (deploy (deploy (FakeState.new [fewHost])))).setPhase "job-1" .running).setPhase
    "job-2" .failed).setServiceReady "ce-gke/default/db" .healthy

/-- The jobs are tracked for an older revision, as they were a while ago. -/
def usedController : Controller where
  replicas :=
    [⟨"job-1", "a", "v1", .pending⟩, ⟨"job-2", "a", "v1", .running⟩,
      ⟨"job-3", "a", "v1", .pending⟩]

theorem sound_new : (FakeState.new [fewHost]).Sound fewHost 0 := by
  refine ⟨rfl, rfl, rfl, rfl, ?_, fun _ _ ↦ rfl, 0, rfl, Nat.zero_le _⟩
  simp [known, FakeState.new]

theorem sound_usedMesh : usedMesh.Sound fewHost 0 ∧ usedMesh.known.ncard ≤ 3 := by
  have hstep : ∀ s : FakeState, s.Sound fewHost 0 → s.nextJob.toNat < 2 ^ 64 - 1 →
      ((fakeDriver.deploy "a" twoWeb none s).2).Sound fewHost 0 ∧
        ((fakeDriver.deploy "a" twoWeb none s).2).known.ncard ≤ s.known.ncard + 1 := by
    intro s hs hissued
    have hserves := @fakeDriver_serves fewHost 0 (s.known.ncard + 1) twoWeb none
    have hhost : (FakeState.view fewHost 0 (s.known.ncard + 1)).hosts "a" := trivial
    obtain ⟨_, _, s', hdeploy, _, _, hmoves⟩ :=
      hserves.deploy hs hhost (Nat.lt_succ_self _) hissued
    rw [hdeploy]
    exact ⟨hmoves.sound, hmoves.load⟩
  have hempty : (FakeState.new [fewHost]).known.ncard = 0 := by simp [known, FakeState.new]
  obtain ⟨h₁, hn₁⟩ := hstep _ sound_new (by decide)
  obtain ⟨h₂, hn₂⟩ := hstep _ h₁ (by decide)
  obtain ⟨h₃, hn₃⟩ := hstep _ h₂ (by decide)
  obtain ⟨h₄, hn₄⟩ := h₃.setPhase "job-1" .running
  obtain ⟨h₅, hn₅⟩ := h₄.setPhase "job-2" .failed
  refine ⟨h₅.setServiceReady _ _, ?_⟩
  change (FakeState.known (FakeState.setPhase "job-2" .failed _)).ncard ≤ 3
  rw [hn₅, hn₄]
  omega

/-- From three replicas of an older revision to two of this one. -/
theorem fakeDriver_converges_twoWeb :
    let t := @Controller.converge FakeState Deployment.nginxSha256 fakeDriver twoWeb usedController
      usedMesh (fun _ ↦ 0) markAllReady 10
    t.1.done = true ∧ Converged twoWeb (@Deployment.revision Deployment.nginxSha256 twoWeb)
      t.2.1.replicas ∧
      ∀ r ∈ t.2.1.replicas, t.2.2.jobs r.jobId = some (r.nodeId, .running) := by
  obtain ⟨hsound, hknown⟩ := sound_usedMesh
  refine @fakeDriver_converges fewHost 0 Deployment.nginxSha256 twoWeb (by decide) usedController
    _ hsound (by decide) ?_ (fun _ ↦ 0) (fun _ ↦ by decide) ?_ ?_ 10 (by decide) (by decide)
  · intro r hr
    rcases List.mem_cons.mp hr with rfl | hr
    · exact ⟨.running, by decide +kernel⟩
    rcases List.mem_cons.mp hr with rfl | hr
    · exact ⟨.failed, by decide +kernel⟩
    · obtain rfl := List.mem_singleton.mp hr
      exact ⟨.pending, by decide +kernel⟩
  · have hfew : ∀ n < 6,
        hostCanFit { fewHost with runningJobs := UInt32.ofNat n } twoWeb = true := by
      decide
    intro runningJobs hlt
    have hlt' : runningJobs.toNat < 0 + (3 + 3) :=
      hlt.trans_le (Nat.add_le_add_left (Nat.add_le_add_right hknown _) _)
    simpa using hfew runningJobs.toNat hlt'
  · intro dep hdep
    obtain rfl := List.mem_singleton.mp hdep
    decide +kernel

end Example

end CeGke
