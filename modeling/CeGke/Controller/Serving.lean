import CeGke.Controller.Bounds
import CeGke.Controller.Done
import CeGke.Controller.Hold
import CeGke.Placement.Rank
import CeGke.Rollout.Converge

/-!
# Ticks on a mesh that serves

What a controller needs of a mesh to get its work done: a host with room whenever there is
something to place, a phase for every job that exists from the host that has it, and kills and
deploys that succeed.  The mesh is seen from outside, as a table of jobs on hosts and a set of
services (`MeshView`), and a driver serves it when each call does to the table what it is for.

On such a mesh a tick carries its whole plan out (`Controller.tick_served`).
-/

namespace CeGke

open Lib

variable {σ : Type}

/-- How a job stands once it has had time to come up. -/
def Phase.comeUp : Phase → Phase
  | pending => running
  | p => p

@[simp] theorem Phase.comeUp_comeUp (p : Phase) : p.comeUp.comeUp = p.comeUp := by
  cases p <;> rfl

/-- A job on its host, likewise. -/
def jobUp (e : String × Phase) : String × Phase := (e.1, e.2.comeUp)

@[simp] theorem jobUp_fst (e : String × Phase) : (jobUp e).1 = e.1 := rfl

@[simp] theorem jobUp_snd (e : String × Phase) : (jobUp e).2 = e.2.comeUp := rfl

theorem comeUp_eq (r : ReplicaState) : comeUp r = { r with phase := r.phase.comeUp } := by
  obtain ⟨job, node, revision, phase⟩ := r
  cases phase <;> rfl

@[simp] theorem comeUp_phase (r : ReplicaState) : (comeUp r).phase = r.phase.comeUp := by
  rw [comeUp_eq]

@[simp] theorem comeUp_nodeId (r : ReplicaState) : (comeUp r).nodeId = r.nodeId := by
  rw [comeUp_eq]

/-! ## The mesh from outside -/

/-- What there is to see of a mesh in a state of its driver. -/
structure MeshView (σ : Type) where
  /-- The state is one in which everything works. -/
  sound : σ → Prop
  /-- The jobs that exist, each with its host and its phase. -/
  jobs : σ → String → Option (String × Phase)
  /-- The hosts there are. -/
  hosts : String → Prop
  /-- The services that can be found. -/
  live : σ → String → Prop
  /-- A service can be found once it is advertised. -/
  announces : Prop
  /-- How much of its capacity is taken. -/
  load : σ → ℕ
  capacity : ℕ
  /-- How many job ids have been handed out, of those that there are. -/
  issued : σ → ℕ
  supply : ℕ

/-- From `s` to `s'` the table of jobs became `jobs`, and at most `load` is taken and `issued`
ids handed out. -/
structure MeshView.Moves (v : MeshView σ) (s s' : σ) (jobs : String → Option (String × Phase))
    (load issued : ℕ) : Prop where
  sound : v.sound s'
  jobs : v.jobs s' = jobs
  live : ∀ service, v.live s service → v.live s' service
  load : v.load s' ≤ load
  issued : v.issued s' ≤ issued

/-- From `s` to `s'` there is nothing to see but new services. -/
abbrev MeshView.Still (v : MeshView σ) (s s' : σ) : Prop :=
  v.Moves s s' (v.jobs s) (v.load s) (v.issued s)

/-- Between two ticks whatever is pending comes up. -/
structure MeshView.Settles (v : MeshView σ) (between : σ → σ) : Prop where
  moves : ∀ s, v.sound s →
    v.Moves s (between s) (fun job ↦ (v.jobs s job).map jobUp) (v.load s) (v.issued s)

/-- The replica is a job that exists, and on its host. -/
def MeshView.Knows (v : MeshView σ) (s : σ) (r : ReplicaState) : Prop :=
  ∃ p, v.jobs s r.jobId = some (r.nodeId, p)

/-- The replica as its job stands. -/
def MeshView.found (v : MeshView σ) (s : σ) (r : ReplicaState) : ReplicaState :=
  { r with phase := ((v.jobs s r.jobId).map Prod.snd).getD r.phase }

/-- The driver does for the deployment what it is asked to: of a job only its own host is asked,
and what other hosts would say of it does not matter. -/
structure MeshDriver.Serves (driver : MeshDriver σ) (v : MeshView σ) (d : Deployment)
    (grant : Option String) : Prop where
  phase : ∀ {s nodeId job p}, v.sound s → v.jobs s job = some (nodeId, p) →
    ∃ s', driver.phase nodeId job d.liveness grant s = (.ok p, s') ∧ v.Still s s'
  kill : ∀ {s nodeId job p}, v.sound s → v.jobs s job = some (nodeId, p) →
    ∃ s', driver.kill nodeId job grant s = (.ok (), s') ∧
      v.Moves s s' (Function.update (v.jobs s) job none) (v.load s - 1) (v.issued s)
  /-- A new job is not in the table yet, on no host, and comes up. -/
  deploy : ∀ {s nodeId}, v.sound s → v.hosts nodeId → v.load s < v.capacity →
    v.issued s < v.supply →
      ∃ job p s', driver.deploy nodeId d grant s = (.ok job, s') ∧ v.jobs s job = none ∧
        p.comeUp = .running ∧
        v.Moves s s' (Function.update (v.jobs s) job (some (nodeId, p))) (v.load s + 1)
          (v.issued s + 1)
  advertiseService : ∀ {s} service, v.sound s →
    ∃ s', driver.advertiseService service s = (.ok (), s') ∧ v.Still s s' ∧
      (v.announces → v.live s' service)
  /-- A service that is live is healthy. -/
  serviceReady : ∀ {s} service, v.sound s →
    ∃ answer s', driver.serviceReady service s = (answer, s') ∧ v.Still s s' ∧
      (v.live s service → answer = .ok .healthy)

/-- At this time the atlas lists hosts that there are, and one that fits the deployment, as long as
there is room. -/
def MeshDriver.HasRoom (driver : MeshDriver σ) (v : MeshView σ) (d : Deployment)
    (maxStaleSecs now : UInt64) : Prop :=
  ∀ {s}, v.sound s → v.load s < v.capacity →
    ∃ atlas s', driver.atlas s = (.ok atlas, s') ∧ v.Still s s' ∧ (∀ h ∈ atlas, v.hosts h.nodeId) ∧
      rank atlas d now.toNat maxStaleSecs.toNat ≠ []

namespace MeshView

variable {v : MeshView σ} {s s' s'' : σ} {jobs : String → Option (String × Phase)}
  {load issued : ℕ} {r : ReplicaState}

theorem Still.refl (h : v.sound s) : v.Still s s := ⟨h, rfl, fun _ ↦ id, le_rfl, le_rfl⟩

theorem Moves.trans_still (h : v.Moves s s' jobs load issued) (h' : v.Still s' s'') :
    v.Moves s s'' jobs load issued :=
  ⟨h'.sound, h'.jobs.trans h.jobs, fun service hlive ↦ h'.live service (h.live service hlive),
    h'.load.trans h.load, h'.issued.trans h.issued⟩

theorem Still.trans (h : v.Still s s') (h' : v.Still s' s'') : v.Still s s'' :=
  Moves.trans_still h h'

@[simp] theorem found_jobId : (v.found s r).jobId = r.jobId := rfl

@[simp] theorem found_nodeId : (v.found s r).nodeId = r.nodeId := rfl

theorem jobIds_map_found (l : List ReplicaState) : jobIds (l.map (v.found s)) = jobIds l := by
  rw [jobIds, jobIds, List.map_map]
  rfl

/-- Replicas are found as they were where their jobs stand as they did. -/
theorem found_congr {l : List ReplicaState}
    (h : ∀ r ∈ l, v.jobs s' r.jobId = v.jobs s r.jobId) : l.map (v.found s') = l.map (v.found s) :=
  List.map_congr_left fun r hr ↦ by rw [found, found, h r hr]

theorem Knows.jobs_eq (h : v.Knows s r) :
    v.jobs s r.jobId = some (r.nodeId, (v.found s r).phase) := by
  obtain ⟨p, hp⟩ := h
  simp only [found, hp, Option.map_some, Option.getD_some]

theorem knows_of_up {p : Phase} (h : (v.jobs s r.jobId).map jobUp = some (r.nodeId, p)) :
    v.Knows s r := by
  obtain ⟨⟨nodeId, q⟩, hjob, heq⟩ := Option.map_eq_some_iff.mp h
  exact ⟨q, hjob.trans (congrArg (fun nodeId ↦ some (nodeId, q)) (congrArg Prod.fst heq))⟩

/-- Between two ticks no job moves. -/
theorem Settles.knows {between : σ → σ} (h : v.Settles between) (hs : v.sound s)
    (hr : v.Knows s r) : v.Knows (between s) r := by
  obtain ⟨p, hp⟩ := hr
  refine ⟨p.comeUp, ?_⟩
  simp only [(h.moves s hs).jobs, hp, Option.map_some, jobUp]

/-- What comes up between two ticks is found so. -/
theorem Settles.found_eq {between : σ → σ} (h : v.Settles between) (hs : v.sound s)
    {l : List ReplicaState}
    (hl : ∀ r ∈ l, (v.jobs s r.jobId).map jobUp = some (r.nodeId, r.phase.comeUp)) :
    l.map (v.found (between s)) = l.map comeUp :=
  List.map_congr_left fun r hr ↦ by
    simp only [comeUp_eq, found, (h.moves s hs).jobs, hl r hr, Option.map_some, Option.getD_some]

end MeshView

/-! ## The stages -/

section Stages

variable {driver : MeshDriver σ} {v : MeshView σ} {d : Deployment} {grant : Option String}

/-- Every job that is in the table is answered for. -/
theorem observePhases_served (h : driver.Serves v d grant) {l : List ReplicaState} {s : σ}
    (hs : v.sound s) (hl : ∀ r ∈ l, v.Knows s r) :
    ∃ s', observePhases driver d.liveness grant l s =
        (l.map fun r ↦ (r.jobId, some (v.found s r).phase), s') ∧ v.Still s s' := by
  induction l generalizing s with
  | nil => exact ⟨s, rfl, .refl hs⟩
  | cons r l ih =>
      obtain ⟨hr, hl⟩ := List.forall_mem_cons.mp hl
      obtain ⟨s', hphase, hstill⟩ := h.phase hs hr.jobs_eq
      obtain ⟨s'', hrest, hstill'⟩ := ih hstill.sound fun q hq ↦ by
        rw [MeshView.Knows, hstill.jobs]
        exact hl q hq
      refine ⟨s'', ?_, hstill.trans hstill'⟩
      rw [observePhases, hphase]
      simp only [hrest, MeshView.found, hstill.jobs]
      rfl

theorem observeDeps_served (h : driver.Serves v d grant) (nameSpace : String)
    (deps : List DependencyRef) (readiness : String → Option DepReadiness) {s : σ}
    (hs : v.sound s) :
    ∃ readiness' s', observeDeps driver nameSpace deps readiness s = (readiness', s') ∧
      v.Still s s' ∧
      ((∀ dep ∈ deps, v.live s (dep.resolvedServiceName nameSpace)) →
        ∀ service, (readiness service = some .healthy ∨ ∃ dep ∈ deps, dep.service = service) →
          readiness' service = some .healthy) := by
  induction deps generalizing readiness s with
  | nil =>
      exact ⟨readiness, s, rfl, .refl hs, fun _ service hservice ↦
        hservice.resolve_right (by simp)⟩
  | cons dep deps ih =>
      obtain ⟨answer, s', hanswer, hstill, hhealthy⟩ :=
        h.serviceReady (dep.resolvedServiceName nameSpace) hs
      obtain ⟨readiness', s'', hrest, hstill', hall⟩ := ih
        (Function.update readiness dep.service (some (answer.toOption.getD .absent)))
        hstill.sound
      refine ⟨readiness', s'', ?_, hstill.trans hstill', fun hlive service hservice ↦ ?_⟩
      · rw [observeDeps, hanswer]
        exact hrest
      · obtain ⟨hdep, hdeps⟩ := List.forall_mem_cons.mp hlive
        refine hall (fun dep' hdep' ↦ hstill.live _ (hdeps dep' hdep')) service ?_
        by_cases heq : service = dep.service
        · refine Or.inl ?_
          rw [heq, Function.update_self, hhealthy hdep]
          rfl
        · rw [Function.update_of_ne heq]
          refine hservice.imp_right ?_
          rintro ⟨dep', hmem, rfl⟩
          refine ⟨dep', (List.mem_cons.mp hmem).resolve_left fun hdep' ↦ ?_, rfl⟩
          exact heq (congrArg DependencyRef.service hdep')

/-- Every dependency of the deployment can be found. -/
def MeshView.DepsLive (v : MeshView σ) (d : Deployment) (s : σ) : Prop :=
  ∀ dep ∈ d.dependsOn, v.live s (dep.resolvedServiceName d.nameSpace)

/-- The gate is open when every dependency can be found. -/
theorem evaluateDeps_served (h : driver.Serves v d grant) {s : σ} (hs : v.sound s) :
    ∃ gate s', evaluateDeps driver d s = (gate, s') ∧ v.Still s s' ∧
      (v.DepsLive d s → gate.isReady = true) := by
  unfold evaluateDeps
  split_ifs with hnil
  · exact ⟨.ready, s, rfl, .refl hs, fun _ ↦ rfl⟩
  · obtain ⟨readiness, s', hdeps, hstill, hall⟩ :=
      observeDeps_served h d.nameSpace d.dependsOn (fun _ ↦ none) hs
    rw [hdeps]
    refine ⟨_, s', rfl, hstill, fun hlive ↦ (Gate.evaluate_spec d _).1.mpr fun dep hdep ↦ ?_⟩
    rw [hall hlive dep.service (Or.inr ⟨dep, hdep, rfl⟩)]
    obtain ⟨service, healthy⟩ := dep
    cases healthy <;> rfl

/-- The table without some jobs. -/
def withoutJobs (ks : List String) (jobs : String → Option (String × Phase)) :
    String → Option (String × Phase) :=
  fun job ↦ if job ∈ ks then none else jobs job

theorem withoutJobs_withoutJobs (ks ks' : List String)
    (jobs : String → Option (String × Phase)) :
    withoutJobs ks' (withoutJobs ks jobs) = withoutJobs (ks ++ ks') jobs := by
  ext job
  by_cases hks : job ∈ ks <;> by_cases hks' : job ∈ ks' <;> simp [withoutJobs, hks, hks']

/-- From `t` to `t'` all of `ks` was killed, and nothing failed. -/
structure KilledAll (v : MeshView σ) (ks : List String) (t t' : TickState σ) : Prop where
  replicas : t'.replicas = without ReplicaState.jobId ks t.replicas
  report : t'.report = { t.report with killed := t.report.killed ++ ks }
  moves : v.Moves t.mesh t'.mesh (withoutJobs ks (v.jobs t.mesh)) (v.load t.mesh - ks.length)
    (v.issued t.mesh)

namespace KilledAll

variable {ks ks' : List String} {t t' t'' : TickState σ}

theorem nil (hs : v.sound t.mesh) : KilledAll v [] t t where
  replicas := (without_nil _).symm
  report := by rw [List.append_nil]
  moves := by
    refine ⟨hs, ?_, fun _ ↦ id, le_rfl, le_rfl⟩
    ext job
    simp [withoutJobs]

theorem trans (h : KilledAll v ks t t') (h' : KilledAll v ks' t' t'') :
    KilledAll v (ks ++ ks') t t'' where
  replicas := by rw [h'.replicas, h.replicas, without_without]
  report := by
    rw [h'.report, h.report]
    simp only [List.append_assoc]
  moves := by
    refine ⟨h'.moves.sound, ?_, fun service hlive ↦
      h'.moves.live service (h.moves.live service hlive), ?_,
      h'.moves.issued.trans h.moves.issued⟩
    · rw [h'.moves.jobs, h.moves.jobs, withoutJobs_withoutJobs]
    · have hload := h.moves.load
      have hload' := h'.moves.load
      rw [List.length_append]
      omega

/-- The replicas that are left are known as before. -/
theorem knows (h : KilledAll v ks t t') (hl : ∀ r ∈ t.replicas, v.Knows t.mesh r) :
    ∀ r ∈ t'.replicas, v.Knows t'.mesh r := by
  intro r hr
  rw [h.replicas] at hr
  obtain ⟨hr, hkeep⟩ := mem_without.mp hr
  rw [MeshView.Knows, h.moves.jobs, withoutJobs, if_neg hkeep]
  exact hl r hr

end KilledAll

/-- The kill of a replica that exists succeeds. -/
theorem tryKill_served (h : driver.Serves v d grant) {t : TickState σ} (hs : v.sound t.mesh)
    (hnodup : (jobIds t.replicas).Nodup) {job : String} (hjob : job ∈ jobIds t.replicas)
    (hl : ∀ r ∈ t.replicas, v.Knows t.mesh r) :
    KilledAll v [job] t (tryKill driver grant t job) := by
  obtain ⟨r, hr, rfl⟩ := mem_jobIds.mp hjob
  obtain ⟨p, hp⟩ := hl r hr
  obtain ⟨s', hkill, hmoves⟩ := h.kill hs hp
  have htable : Function.update (v.jobs t.mesh) r.jobId none =
      withoutJobs [r.jobId] (v.jobs t.mesh) := by
    ext job
    by_cases hjob : job = r.jobId <;> simp [withoutJobs, hjob]
  simp only [tryKill, find?_jobId_of_nodup hnodup hr, hkill]
  refine ⟨?_, rfl, htable ▸ hmoves⟩
  simp only [without, List.mem_singleton]

/-- All kills succeed. -/
theorem foldl_tryKill_served (h : driver.Serves v d grant) {ks : List String} {t : TickState σ}
    (hs : v.sound t.mesh) (hks : ks.Nodup) (hnodup : (jobIds t.replicas).Nodup)
    (hsub : ks ⊆ jobIds t.replicas) (hl : ∀ r ∈ t.replicas, v.Knows t.mesh r) :
    KilledAll v ks t (ks.foldl (tryKill driver grant) t) := by
  induction ks generalizing t with
  | nil => exact .nil hs
  | cons job ks ih =>
      rw [List.nodup_cons] at hks
      obtain ⟨hjob, hrest⟩ := List.cons_subset.mp hsub
      have hone := tryKill_served h hs hnodup hjob hl
      have hsub' : ks ⊆ jobIds (tryKill driver grant t job).replicas := by
        intro k hk
        obtain ⟨q, hq, rfl⟩ := mem_jobIds.mp (hrest hk)
        rw [hone.replicas]
        refine mem_jobIds.mpr ⟨q, mem_without.mpr ⟨hq, fun hmem ↦ ?_⟩, rfl⟩
        exact hks.1 (List.mem_singleton.mp hmem ▸ hk)
      have hnodup' : (jobIds (tryKill driver grant t job).replicas).Nodup := by
        rw [hone.replicas]
        exact nodup_without hnodup
      exact hone.trans (ih hone.moves.sound hks.2 hnodup' hsub' (hone.knows hl))

/-- From `t` to `t'` exactly `placed` was launched, as jobs that were not in the table, and
nothing failed. -/
structure Launched (v : MeshView σ) (target : String) (placed : List ReplicaState)
    (t t' : TickState σ) : Prop where
  replicas : t'.replicas = t.replicas ++ placed
  report : t'.report = { t.report with placed := t.report.placed ++ jobIds placed }
  pending : ∀ r ∈ placed, r.phase = .pending ∧ r.revision = target
  nodup : (jobIds placed).Nodup
  fresh : ∀ r ∈ placed, v.jobs t.mesh r.jobId = none
  up : ∀ r ∈ placed, (v.jobs t'.mesh r.jobId).map jobUp = some (r.nodeId, .running)
  kept : ∀ job ∉ jobIds placed, v.jobs t'.mesh job = v.jobs t.mesh job
  sound : v.sound t'.mesh
  live : ∀ service, v.live t.mesh service → v.live t'.mesh service
  load : v.load t'.mesh ≤ v.load t.mesh + placed.length
  issued : v.issued t'.mesh ≤ v.issued t.mesh + placed.length

namespace Launched

variable {target : String} {l m : List ReplicaState} {t t' t'' : TickState σ}

/-- Only the mesh moved, and there is nothing to see of it. -/
theorem of_still {mesh : σ} (h : v.Still t.mesh mesh) :
    Launched v target [] t { t with mesh } where
  replicas := (List.append_nil _).symm
  report := by rw [jobIds_nil, List.append_nil]
  pending := List.forall_mem_nil _
  nodup := List.nodup_nil
  fresh := List.forall_mem_nil _
  up := List.forall_mem_nil _
  kept job _ := congrFun h.jobs job
  sound := h.sound
  live := h.live
  load := h.load
  issued := h.issued

/-- One job was launched. -/
theorem of_deploy {job nodeId : String} {phase : Phase} {mesh : σ}
    (hfresh : v.jobs t.mesh job = none) (hup : phase.comeUp = .running)
    (hmoves : v.Moves t.mesh mesh (Function.update (v.jobs t.mesh) job (some (nodeId, phase)))
      (v.load t.mesh + 1) (v.issued t.mesh + 1)) :
    Launched v target [⟨job, nodeId, target, .pending⟩] t
      { replicas := t.replicas ++ [⟨job, nodeId, target, .pending⟩]
        report := { t.report with placed := t.report.placed ++ [job] }
        mesh } where
  replicas := rfl
  report := rfl
  pending := by simp
  nodup := List.nodup_singleton _
  fresh := by simpa using hfresh
  up := by simp [hmoves.jobs, jobUp, hup]
  kept k hk := by rw [hmoves.jobs, Function.update_of_ne (List.ne_of_not_mem_cons hk)]
  sound := hmoves.sound
  live := hmoves.live
  load := hmoves.load
  issued := hmoves.issued

/-- What was in the table before is none of what was launched. -/
theorem notMem_of_jobs (h : Launched v target l t t') {job : String} {e : String × Phase}
    (hjob : v.jobs t.mesh job = some e) : job ∉ jobIds l := by
  intro hmem
  obtain ⟨r, hr, rfl⟩ := mem_jobIds.mp hmem
  exact absurd (hjob.symm.trans (h.fresh r hr)) (by simp)

/-- What is launched later is not what was launched before. -/
theorem notMem_of_fresh (h : Launched v target l t t') (h' : Launched v target m t' t'')
    {r : ReplicaState} (hr : r ∈ m) : r.jobId ∉ jobIds l := by
  intro hmem
  obtain ⟨q, hq, hid⟩ := mem_jobIds.mp hmem
  have hup := h.up q hq
  rw [hid, h'.fresh r hr] at hup
  exact absurd hup (by simp)

theorem trans (h : Launched v target l t t') (h' : Launched v target m t' t'') :
    Launched v target (l ++ m) t t'' where
  replicas := by rw [h'.replicas, h.replicas, List.append_assoc]
  report := by
    rw [h'.report, h.report, jobIds_append]
    simp only [List.append_assoc]
  pending r hr := (List.mem_append.mp hr).elim (h.pending r) (h'.pending r)
  nodup := by
    rw [jobIds_append]
    refine List.Nodup.append h.nodup h'.nodup fun job hl hm ↦ ?_
    obtain ⟨r, hr, rfl⟩ := mem_jobIds.mp hm
    exact h.notMem_of_fresh h' hr hl
  fresh r hr := by
    rcases List.mem_append.mp hr with hr | hr
    · exact h.fresh r hr
    · rw [← h.kept r.jobId (h.notMem_of_fresh h' hr)]
      exact h'.fresh r hr
  up r hr := by
    rcases List.mem_append.mp hr with hr | hr
    · rw [h'.kept r.jobId fun hmem ↦ ?_]
      · exact h.up r hr
      · obtain ⟨q, hq, hid⟩ := mem_jobIds.mp hmem
        exact h.notMem_of_fresh h' hq (hid ▸ mem_jobIds.mpr ⟨r, hr, rfl⟩)
    · exact h'.up r hr
  kept job hjob := by
    rw [jobIds_append, List.mem_append, not_or] at hjob
    rw [h'.kept job hjob.2, h.kept job hjob.1]
  sound := h'.sound
  live service hlive := h'.live service (h.live service hlive)
  load := by
    have hload := h.load
    have hload' := h'.load
    rw [List.length_append]
    omega
  issued := by
    have hissued := h.issued
    have hissued' := h'.issued
    rw [List.length_append]
    omega

end Launched

theorem penalize_ne_nil {nodeId : String} {l : List Candidate} (hl : l ≠ []) :
    penalize nodeId l ≠ [] := by
  cases l with
  | nil => exact absurd rfl hl
  | cons c l =>
      rw [penalize]
      split_ifs <;> exact List.cons_ne_nil _ _

theorem mem_penalize {nodeId : String} {l : List Candidate} {c : Candidate}
    (hc : c ∈ penalize nodeId l) : ∃ c' ∈ l, c'.nodeId = c.nodeId := by
  induction l with
  | nil => exact absurd hc List.not_mem_nil
  | cons c' l ih =>
      rw [penalize] at hc
      split_ifs at hc
      · rcases List.mem_cons.mp hc with rfl | hc
        · exact ⟨c', List.mem_cons_self, rfl⟩
        · exact ⟨c, List.mem_cons_of_mem _ hc, rfl⟩
      · rcases List.mem_cons.mp hc with rfl | hc
        · exact ⟨c, List.mem_cons_self, rfl⟩
        · obtain ⟨c'', hc'', hid⟩ := ih hc
          exact ⟨c'', List.mem_cons_of_mem _ hc'', hid⟩

/-- The placement loop launches all it was asked for. -/
theorem placeLoop_served (h : driver.Serves v d grant) (target : String) {attempts : ℕ}
    {p : PlaceState σ} (hs : v.sound p.tick.mesh) (hne : p.candidates ≠ [])
    (hhosts : ∀ c ∈ p.candidates, v.hosts c.nodeId)
    (hattempts : p.toPlace ≤ attempts) (hload : v.load p.tick.mesh + p.toPlace ≤ v.capacity)
    (hissued : v.issued p.tick.mesh + p.toPlace ≤ v.supply) :
    (placeLoop driver grant d target attempts p).toPlace = 0 ∧
      ∃ placed, placed.length = p.toPlace ∧
        Launched v target placed p.tick (placeLoop driver grant d target attempts p).tick := by
  induction attempts generalizing p with
  | zero =>
      have hzero : p.toPlace = 0 := Nat.le_zero.mp hattempts
      exact ⟨hzero, [], hzero.symm, .of_still (.refl hs)⟩
  | succ attempts ih =>
      rw [placeLoop]
      split_ifs with hzero
      · exact ⟨hzero, [], hzero.symm, .of_still (.refl hs)⟩
      · cases hcandidates : p.candidates with
        | nil => exact absurd hcandidates hne
        | cons best rest =>
            rw [hcandidates] at hhosts
            obtain ⟨job, phase, mesh, hdeploy, hfresh, hup, hmoves⟩ :=
              h.deploy hs (hhosts best List.mem_cons_self) (by omega) (by omega)
            simp only [hdeploy]
            have hsorted : (penalize best.nodeId (best :: rest)).insertionSort
                Candidate.Before ≠ [] := by
              rw [Ne, ← List.length_eq_zero_iff, List.length_insertionSort,
                List.length_eq_zero_iff]
              exact penalize_ne_nil (List.cons_ne_nil _ _)
            have hhosts' : ∀ c ∈ (penalize best.nodeId (best :: rest)).insertionSort
                Candidate.Before, v.hosts c.nodeId := by
              intro c hc
              obtain ⟨c', hc', hid⟩ := mem_penalize ((List.mem_insertionSort _).mp hc)
              exact hid ▸ hhosts c' hc'
            have hload' := hmoves.load
            have hissued' := hmoves.issued
            obtain ⟨hdone, placed, hlen, hplaced⟩ := ih
              (p :=
                { toPlace := p.toPlace - 1
                  candidates :=
                    (penalize best.nodeId (best :: rest)).insertionSort Candidate.Before
                  tick :=
                    { replicas := p.tick.replicas ++ [⟨job, best.nodeId, target, .pending⟩]
                      report := { p.tick.report with placed := p.tick.report.placed ++ [job] }
                      mesh } })
              hmoves.sound hsorted hhosts' (by simp only; omega) (by simp only; omega)
              (by simp only; omega)
            refine ⟨hdone, _, ?_, (Launched.of_deploy hfresh hup hmoves).trans hplaced⟩
            rw [List.length_append, hlen, List.length_singleton]
            simp only
            omega

/-- Step 4 launches all it was asked for, unless the gate is closed. -/
theorem place_served (h : driver.Serves v d grant) {maxStaleSecs now : UInt64}
    (hroom : driver.HasRoom v d maxStaleSecs now) (target : String) {gate : Gate} {toPlace : ℕ}
    (hmax : toPlace ≤ u32Max) {t : TickState σ} (hs : v.sound t.mesh)
    (hload : toPlace ≠ 0 → v.load t.mesh + toPlace ≤ v.capacity)
    (hissued : v.issued t.mesh + toPlace ≤ v.supply) :
    ∃ placed, placed.length = (if gate.isReady then toPlace else 0) ∧
      Launched v target placed t
        (place driver now maxStaleSecs grant d target gate toPlace t) := by
  rw [place_eq]
  by_cases hplace : toPlace > 0 ∧ gate.isReady
  · rw [if_pos hplace, if_pos hplace.2]
    have hload := hload hplace.1.ne'
    obtain ⟨atlas, mesh, hatlas, hstill, hlisted, hne⟩ := hroom hs (by omega)
    have hhosts : ∀ c ∈ rank atlas d now.toNat maxStaleSecs.toNat, v.hosts c.nodeId := by
      intro c hc
      obtain ⟨host, hhost, _, _, rfl⟩ := mem_rank.mp hc
      exact hlisted host hhost
    have hattempts : toPlace ≤ maxAttempts toPlace
        (rank atlas d now.toNat maxStaleSecs.toNat) := by
      refine le_trans ?_ (le_max_left _ _)
      simp only [saturatingMul]
      omega
    have hload' := hstill.load
    have hissued' := hstill.issued
    obtain ⟨hdone, placed, hlen, hplaced⟩ := placeLoop_served h target
      (p :=
        { toPlace
          candidates := rank atlas d now.toNat maxStaleSecs.toNat
          tick := { t with mesh } })
      hstill.sound hne hhosts hattempts (by simp only; omega) (by simp only; omega)
    refine ⟨placed, hlen, ?_⟩
    simp only [hatlas, Except.toOption, Option.getD_some]
    rw [PlaceState.settle, if_neg fun hleft ↦ hleft.1.ne' hdone]
    exact (Launched.of_still hstill).trans hplaced
  · rw [if_neg hplace]
    refine ⟨[], ?_, .of_still (.refl hs)⟩
    split_ifs with hready
    · by_contra hne
      exact hplace ⟨Nat.pos_of_ne_zero (Ne.symm hne), hready⟩
    · rfl

/-- Step 5 makes the service of a running deployment live. -/
theorem advertise_served (h : driver.Serves v d grant) (gate : Gate) {t : TickState σ}
    (hs : v.sound t.mesh) :
    ∃ mesh serviceAdvertised, advertise driver d gate t =
        { t with report := { t.report with serviceAdvertised }, mesh } ∧
      v.Still t.mesh mesh ∧
      (v.announces → (∃ r ∈ t.replicas, r.phase = .running) → gate.isReady = true →
        ∀ service ∈ d.serviceName, v.live mesh service) := by
  unfold advertise
  split
  · rename_i hnone
    refine ⟨t.mesh, _, rfl, .refl hs, fun _ _ _ service hservice ↦ ?_⟩
    exact absurd (hnone.symm.trans hservice) (by simp)
  · rename_i service hsome
    split_ifs with hrun
    · obtain ⟨mesh, hadvertise, hstill, hlive⟩ := h.advertiseService service hs
      rw [hadvertise]
      refine ⟨mesh, true, rfl, hstill, fun hannounces _ _ service' hservice' ↦ ?_⟩
      rw [← Option.some.inj (hsome.symm.trans hservice')]
      exact hlive hannounces
    · refine ⟨t.mesh, _, rfl, .refl hs, fun _ hrunning hready ↦ absurd ⟨?_, hready⟩ hrun⟩
      obtain ⟨r, hr, hphase⟩ := hrunning
      exact List.any_eq_true.mpr ⟨r, hr, decide_eq_true hphase⟩

end Stages

/-! ## The tick -/

section Survivors

variable {d : Deployment} {l : List ReplicaState} {target : String}

/-- What a plan leaves is live. -/
theorem length_survivors_le (hl : (jobIds l).Nodup) :
    (survivors d l target).length ≤ liveCount l := by
  have hdead : tally target (survivors d l target) .dead = 0 := by
    rw [tally_survivors hl]
    cases hs : d.strategy with
    | recreate => rw [tally_victims_recreate hs]; split_ifs <;> simp
    | rollingUpdate u s => rw [tally_victims_rolling hs]; simp
  have hlen := length_eq_tally target (survivors d l target)
  have hlive := liveCount_eq target (survivors d l target)
  have hle : liveCount (survivors d l target) ≤ liveCount l :=
    (without_sublist _ _).countP_le
  omega

/-- A plan kills what it does not leave. -/
theorem length_survivors_add_toKill (hl : (jobIds l).Nodup) :
    (survivors d l target).length + (planStep d l target).toKill.length = l.length := by
  have hcount := countP_without_add hl (victims_nodup hl).of_map (victims_subset d l target)
    fun _ ↦ true
  rw [survivors, planStep_toKill, jobIds, List.length_map]
  simpa using hcount

/-- With what it places there are no more than the surge ceiling allows. -/
theorem length_survivors_add_toPlace_le (hl : (jobIds l).Nodup)
    (hplace : (planStep d l target).toPlace ≠ 0) :
    (survivors d l target).length + (planStep d l target).toPlace ≤
      d.replicas.toNat + d.strategy.surge := by
  have hle := @length_survivors_le d l target hl
  have hceil := liveCount_add_toPlace_le d l target
  omega

theorem jobIds_survivors_subset : jobIds (survivors d l target) ⊆ jobIds l :=
  ((without_sublist _ _).map _).subset

theorem toKill_subset : (planStep d l target).toKill ⊆ jobIds l := by
  rw [planStep_toKill]
  exact List.map_subset _ (victims_subset d l target)

theorem toPlace_le (d : Deployment) (l : List ReplicaState) (target : String) :
    (planStep d l target).toPlace ≤ d.replicas.toNat := by
  have hle := newLive_add_toPlace_le d l target
  omega

end Survivors

/-- A tick that found the replicas `l` has carried its plan out: all of its kill list is gone,
and `placed` is launched, which is all that was to be placed if the gate was open, and nothing
if it was not. -/
structure Served [Sha256] (v : MeshView σ) (d : Deployment) (l placed : List ReplicaState)
    (ready : Bool) (s : σ) (report : TickReport) (after : List ReplicaState) (s' : σ) :
    Prop where
  replicas : after = survivors d l d.revision ++ placed
  length : placed.length = if ready then (planStep d l d.revision).toPlace else 0
  pending : ∀ r ∈ placed, r.phase = .pending ∧ r.revision = d.revision
  nodup : (jobIds after).Nodup
  killed : report.killed = (planStep d l d.revision).toKill
  reported : report.placed = jobIds placed
  failures : report.killFailures = 0 ∧ report.placeFailures = 0
  done : report.done = ((planStep d l d.revision).done && ready)
  fresh : ∀ r ∈ placed, v.jobs s r.jobId = none ∨ r.jobId ∈ jobIds l
  surviving : ∀ r ∈ survivors d l d.revision, v.jobs s' r.jobId = some (r.nodeId, r.phase)
  up : ∀ r ∈ after, (v.jobs s' r.jobId).map jobUp = some (r.nodeId, r.phase.comeUp)
  kept : ∀ job, job ∉ jobIds l → job ∉ jobIds placed → v.jobs s' job = v.jobs s job
  sound : v.sound s'
  live : ∀ service, v.live s service → v.live s' service
  announced : v.announces → (∃ r ∈ after, r.phase = .running) → ready = true →
    ∀ service ∈ d.serviceName, v.live s' service
  load : ∀ base, v.load s ≤ base + l.length → v.load s' ≤ base + after.length
  issued : v.issued s' ≤ v.issued s + placed.length

/-- A tick has carried its plan out if it killed and launched what was planned, and step 5 only
advertised. -/
theorem Served.of_stages [Sha256] {v : MeshView σ} {d : Deployment} {l placed : List ReplicaState}
    {ready : Bool} {s mesh : σ} {t t' t'' : TickState σ} (hnodup : (jobIds l).Nodup)
    (hl : ∀ r ∈ l, v.jobs s r.jobId = some (r.nodeId, r.phase)) (hplanned : v.Still s t.mesh)
    (hreplicas : t.replicas = l)
    (hreport : t.report =
      { done := (planStep d l d.revision).done && ready, waitingOn := t.report.waitingOn })
    (hkilled : KilledAll v (planStep d l d.revision).toKill t t')
    (hlaunched : Launched v d.revision placed t' t'')
    (hlength : placed.length = if ready then (planStep d l d.revision).toPlace else 0)
    (serviceAdvertised : Bool) (hadvertise : v.Still t''.mesh mesh)
    (hannounced : v.announces → (∃ r ∈ t''.replicas, r.phase = .running) → ready = true →
      ∀ service ∈ d.serviceName, v.live mesh service) :
    Served v d l placed ready s { t''.report with serviceAdvertised } t''.replicas mesh := by
  have hjobs : v.jobs t'.mesh = withoutJobs (planStep d l d.revision).toKill (v.jobs s) := by
    rw [hkilled.moves.jobs, hplanned.jobs]
  have hafter : t''.replicas = survivors d l d.revision ++ placed := by
    rw [hlaunched.replicas, hkilled.replicas, hreplicas]
    rfl
  -- A survivor is still in the table, so it is none of the jobs that were launched.
  have hsurvivor : ∀ r ∈ survivors d l d.revision,
      v.jobs t'.mesh r.jobId = some (r.nodeId, r.phase) := by
    intro r hr
    obtain ⟨hr, hkeep⟩ := mem_without.mp hr
    rw [hjobs, withoutJobs, if_neg hkeep, hl r hr]
  have hkept : ∀ r ∈ survivors d l d.revision,
      v.jobs mesh r.jobId = some (r.nodeId, r.phase) := by
    intro r hr
    rw [hadvertise.jobs, hlaunched.kept r.jobId (hlaunched.notMem_of_jobs (hsurvivor r hr)),
      hsurvivor r hr]
  rw [hlaunched.report, hkilled.report, hreport, hafter]
  exact
    { replicas := rfl
      length := hlength
      pending := hlaunched.pending
      nodup := by
        rw [jobIds_append]
        have hleft : (jobIds (survivors d l d.revision)).Nodup := nodup_without hnodup
        refine hleft.append hlaunched.nodup fun job hs hp ↦ ?_
        obtain ⟨r, hr, rfl⟩ := mem_jobIds.mp hs
        exact hlaunched.notMem_of_jobs (hsurvivor r hr) hp
      killed := List.nil_append _
      reported := List.nil_append _
      failures := ⟨rfl, rfl⟩
      done := rfl
      fresh := by
        intro r hr
        have hnone := hlaunched.fresh r hr
        rw [hjobs, withoutJobs] at hnone
        split_ifs at hnone with hkill
        · exact Or.inr (toKill_subset hkill)
        · exact Or.inl hnone
      surviving := hkept
      up := by
        intro r hr
        rcases List.mem_append.mp hr with hr | hr
        · rw [hkept r hr, Option.map_some]
          rfl
        · rw [hadvertise.jobs, hlaunched.up r hr, (hlaunched.pending r hr).1]
          rfl
      kept := by
        intro job hjob hp
        rw [hadvertise.jobs, hlaunched.kept job hp, hjobs, withoutJobs,
          if_neg fun hkill ↦ hjob (toKill_subset hkill)]
      sound := hadvertise.sound
      live := fun service hservice ↦ hadvertise.live service
        (hlaunched.live service (hkilled.moves.live service (hplanned.live service hservice)))
      announced := fun hannounces hrun hopen ↦
        hannounced hannounces (by rwa [hafter]) hopen
      load := by
        intro base hbase
        have hlen := @length_survivors_add_toKill d l d.revision hnodup
        have hload := hplanned.load
        have hload' := hkilled.moves.load
        have hload'' := hlaunched.load
        have hadvertised := hadvertise.load
        rw [List.length_append]
        omega
      issued := by
        have hissued := hplanned.issued
        have hissued' := hkilled.moves.issued
        have hissued'' := hlaunched.issued
        have hadvertised := hadvertise.issued
        omega }

namespace Controller

variable {driver : MeshDriver σ} {v : MeshView σ} {d : Deployment} {c : Controller} {s : σ}

/-- A refresh finds every replica as its job stands. -/
theorem refresh_served (h : driver.Serves v d c.grant) (hs : v.sound s)
    (hc : (jobIds c.replicas).Nodup) (hknown : ∀ r ∈ c.replicas, v.Knows s r) :
    c.refreshed driver d s = c.replicas.map (v.found s) ∧ v.Still s (c.refresh driver d s).2 := by
  obtain ⟨s', hphases, hstill⟩ := observePhases_served h hs hknown
  have hfold := foldl_record_answers (fun r ↦ (v.found s r).phase)
    (List.nil_append c.replicas).symm hc
  have hrefresh : c.refresh driver d s =
      (((c.replicas.map fun r ↦ (r.jobId, some (v.found s r).phase)).foldl Controller.record
        c).retainFailures, s') := by
    rw [refresh, hphases]
  rw [refreshed, hrefresh]
  refine ⟨?_, hstill⟩
  simp only [retainFailures, hfold, List.nil_append]
  rfl

section Tick

variable [Sha256] (h : driver.Serves v d c.grant) (hs : v.sound s)
  (hc : (jobIds c.replicas).Nodup) (hknown : ∀ r ∈ c.replicas, v.Knows s r)

include h hs hc hknown

/-- What a tick finds, and what it plans for that. -/
theorem planned_served :
    c.plan driver d s = planStep d (c.replicas.map (v.found s)) d.revision ∧
      ∃ gate mesh, c.planned driver d s = (gate,
          { replicas := c.replicas.map (v.found s)
            report :=
              { done := (planStep d (c.replicas.map (v.found s)) d.revision).done && gate.isReady
                waitingOn := gate.unmet }
            mesh }) ∧
        v.Still s mesh ∧ (v.DepsLive d s → gate.isReady = true) := by
  obtain ⟨hrefreshed, hstill⟩ := refresh_served h hs hc hknown
  obtain ⟨gate, mesh, hdeps, hstill', hready⟩ := evaluateDeps_served h hstill.sound
  have hreplicas : (c.refresh driver d s).1.replicas = c.replicas.map (v.found s) := hrefreshed
  refine ⟨by rw [plan, hrefreshed], gate, mesh, ?_, hstill.trans hstill', fun hlive ↦ ?_⟩
  · simp only [planned, hdeps, hreplicas]
  · exact hready fun dep hdep ↦ hstill.live _ (hlive dep hdep)

/-- What its kills leave: the survivors of the plan, and nothing to substitute for. -/
theorem afterSubstitutes_served {gate : Gate} {t : TickState σ}
    (hplanned : c.planned driver d s = (gate, t)) (hstill : v.Still s t.mesh)
    (ht : t.replicas = c.replicas.map (v.found s)) (hreport : t.report.killFailures = 0) :
    KilledAll v (planStep d (c.replicas.map (v.found s)) d.revision).toKill t
      (c.afterSubstitutes driver d s) := by
  set l := c.replicas.map (v.found s) with hl
  have hnodup : (jobIds l).Nodup := by
    rw [hl, MeshView.jobIds_map_found]
    exact hc
  have hknown' : ∀ r ∈ t.replicas, v.Knows t.mesh r := by
    intro r hr
    rw [ht] at hr
    obtain ⟨q, hq, rfl⟩ := List.mem_map.mp hr
    rw [MeshView.Knows, hstill.jobs]
    exact hknown q hq
  have hkillNodup : (planStep d l d.revision).toKill.Nodup := by
    rw [planStep_toKill]
    exact victims_nodup hnodup
  have hkills := foldl_tryKill_served h hstill.sound hkillNodup
    (ht ▸ hnodup) (ht ▸ toKill_subset) hknown'
  have hkillFailures : ((planStep d l d.revision).toKill.foldl (tryKill driver c.grant)
      t).report.killFailures = 0 := by
    rw [hkills.report]
    exact hreport
  rw [afterSubstitutes, afterKills, (planned_served h hs hc hknown).1, hplanned, substitute,
    hkillFailures, if_neg (Nat.lt_irrefl 0)]
  exact hkills

/-- **A tick on a mesh that serves carries its plan out**, if the mesh has room for as many
replicas as the surge ceiling allows. -/
theorem tick_served {now : UInt64} (hroom : driver.HasRoom v d c.maxStaleSecs now) {base : ℕ}
    (hload : v.load s ≤ base + c.replicas.length)
    (hcapacity : base + (d.replicas.toNat + d.strategy.surge) ≤ v.capacity)
    (hissued : v.issued s + d.replicas.toNat ≤ v.supply) :
    ∃ placed ready, (v.DepsLive d s → ready = true) ∧
      Served v d (c.replicas.map (v.found s)) placed ready s (c.tick driver d s now).1
        (c.tick driver d s now).2.1.replicas (c.tick driver d s now).2.2 := by
  obtain ⟨hplan, gate, mesh, hplanned, hstill, hready⟩ := planned_served h hs hc hknown
  have hkilled := afterSubstitutes_served h hs hc hknown hplanned hstill rfl rfl
  set l := c.replicas.map (v.found s) with hl
  have hlen : l.length = c.replicas.length := List.length_map _
  have hnodup : (jobIds l).Nodup := by
    rw [hl, MeshView.jobIds_map_found]
    exact hc
  have htable : ∀ r ∈ l, v.jobs s r.jobId = some (r.nodeId, r.phase) := by
    intro r hr
    obtain ⟨q, hq, rfl⟩ := List.mem_map.mp hr
    exact (hknown q hq).jobs_eq
  -- The kills made room for what is to be placed.
  have hroom' : (planStep d l d.revision).toPlace ≠ 0 →
      v.load (c.afterSubstitutes driver d s).mesh + (planStep d l d.revision).toPlace ≤
        v.capacity := by
    intro hplace
    have hlen' := @length_survivors_add_toKill d l d.revision hnodup
    have hceil := length_survivors_add_toPlace_le hnodup hplace
    have hplannedLoad : v.load mesh ≤ v.load s := hstill.load
    have hkilledLoad := hkilled.moves.load
    simp only at hkilledLoad
    omega
  have htoPlace := toPlace_le d l d.revision
  have hissued' : v.issued (c.afterSubstitutes driver d s).mesh +
      (planStep d l d.revision).toPlace ≤ v.supply := by
    have hspent := hkilled.moves.issued.trans hstill.issued
    omega
  obtain ⟨placed, hlength, hlaunched⟩ := place_served h hroom d.revision
    (htoPlace.trans (Nat.le_pred_of_lt d.replicas.toNat_lt)) hkilled.moves.sound hroom' hissued'
  obtain ⟨mesh', serviceAdvertised, hadvertise, hstill', hlive⟩ :=
    advertise_served h gate hlaunched.sound
  have hafter : c.afterPlacements driver d s now = place driver now c.maxStaleSecs c.grant d
      d.revision gate (planStep d l d.revision).toPlace (c.afterSubstitutes driver d s) := by
    rw [afterPlacements, hplan, hplanned]
  rw [← hafter] at hlaunched hadvertise hstill' hlive
  have htick : (c.tick driver d s now).1 =
        { (c.afterPlacements driver d s now).report with serviceAdvertised } ∧
      (c.tick driver d s now).2.1.replicas = (c.afterPlacements driver d s now).replicas ∧
      (c.tick driver d s now).2.2 = mesh' := by
    simp only [tick, hplanned, hadvertise]
    exact ⟨trivial, trivial, trivial⟩
  obtain ⟨hreport, hreplicas, hmesh⟩ := htick
  rw [hreport, hreplicas, hmesh]
  exact ⟨placed, gate.isReady, hready, .of_stages hnodup htable hstill rfl rfl hkilled hlaunched
    hlength serviceAdvertised hstill' hlive⟩

end Tick

end Controller

end CeGke
