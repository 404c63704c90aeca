import CeGke.Controller.Calls

/-!
# What every call of a tick keeps

A rule for ticks: what holds of the tracked replicas and the mesh, and is kept by each call that a
tick makes of the mesh together with what it makes of the answer, is kept by the tick
(`Controller.tick_keeps`).  Deploys and the advertisement are made only if the gate is ready, so
their laws may use what is known from there on.
-/

namespace CeGke

variable {σ : Type}

/-- The laws for the calls up to the plan: the phases and the dependencies are asked for, and of
the tracked replicas only the phases change, each to one that was `told` or to that of a failed
replica. -/
structure MeshDriver.Observes (driver : MeshDriver σ) (told : σ → String → Phase → Prop)
    (I : List ReplicaState → σ → Prop) : Prop where
  phase : ∀ {l s} nodeId job probe grant, I l s → I l (driver.phase nodeId job probe grant s).2
  told_of_ok : ∀ {s s' nodeId job probe grant p},
    driver.phase nodeId job probe grant s = (.ok p, s') → told s' job p
  told_phase : ∀ {s job p} nodeId job' probe grant, told s job p →
    told (driver.phase nodeId job' probe grant s).2 job p
  recorded : ∀ {l m s}, I l s → m.map ReplicaState.handle = l.map ReplicaState.handle →
    (∀ q ∈ m, q.phase = .failed ∨ told s q.jobId q.phase ∨
      ∃ r ∈ l, r.handle = q.handle ∧ r.phase = q.phase) → I m s
  serviceReady : ∀ {l s} service, I l s → I l (driver.serviceReady service s).2

/-- The laws for the calls after the plan, of a tick for `d` with that gate. -/
structure MeshDriver.Keeps [Sha256] (driver : MeshDriver σ) (d : Deployment)
    (grant : Option String) (gate : Gate) (I : List ReplicaState → σ → Prop) : Prop where
  killed : ∀ {l s s' r}, I l s → r ∈ l → driver.kill r.nodeId r.jobId grant s = (.ok (), s') →
    I (l.filter fun q ↦ q.jobId ≠ r.jobId) s'
  notKilled : ∀ {l s s' r e}, I l s → r ∈ l →
    driver.kill r.nodeId r.jobId grant s = (.error e, s') → I l s'
  atlas : ∀ {l s}, I l s → I l (driver.atlas s).2
  deployed : ∀ {l s s' nodeId job}, gate.isReady → I l s →
    driver.deploy nodeId d grant s = (.ok job, s') →
      I (l ++ [⟨job, nodeId, d.revision, .pending⟩]) s'
  notDeployed : ∀ {l s s' nodeId e}, gate.isReady → I l s →
    driver.deploy nodeId d grant s = (.error e, s') → I l s'
  advertised : ∀ {l s service r}, gate.isReady → d.serviceName = some service → I l s → r ∈ l →
    r.phase = .running → I l (driver.advertiseService service s).2

/-! ## Up to the plan -/

namespace MeshDriver.Observes

variable {driver : MeshDriver σ} {told : σ → String → Phase → Prop}
  {I : List ReplicaState → σ → Prop} (h : driver.Observes told I)

include h

theorem observePhases (probe : Option Probe) (grant : Option String) (replicas : List ReplicaState)
    {l : List ReplicaState} {s : σ} (hs : I l s) :
    I l (CeGke.observePhases driver probe grant replicas s).2 :=
  observePhases_rule (fun nodeId job hs ↦ h.phase nodeId job probe grant hs) replicas hs

/-- What has been told stays told. -/
theorem told_observePhases (probe : Option Probe) (grant : Option String)
    (replicas : List ReplicaState) {s : σ} {job : String} {p : Phase} (htold : told s job p) :
    told (CeGke.observePhases driver probe grant replicas s).2 job p :=
  observePhases_rule (P := (told · job p))
    (fun nodeId job' hs ↦ h.told_phase nodeId job' probe grant hs) replicas htold

/-- The answers have been told. -/
theorem told_of_mem_observePhases (probe : Option Probe) (grant : Option String)
    (replicas : List ReplicaState) {s : σ} {job : String} {p : Phase}
    (hmem : (job, some p) ∈ (CeGke.observePhases driver probe grant replicas s).1) :
    told (CeGke.observePhases driver probe grant replicas s).2 job p := by
  induction replicas generalizing s with
  | nil => exact absurd hmem List.not_mem_nil
  | cons r replicas ih =>
      rw [CeGke.observePhases] at hmem ⊢
      rcases List.mem_cons.mp hmem with heq | hmem
      · change (job, some p) =
          (r.jobId, (driver.phase r.nodeId r.jobId probe grant s).1.toOption) at heq
        cases hphase : driver.phase r.nodeId r.jobId probe grant s with
        | mk res s' =>
            rw [hphase] at heq
            cases res with
            | error e => exact absurd (congrArg Prod.snd heq) (by simp [Except.toOption])
            | ok q =>
                obtain ⟨rfl, rfl⟩ : job = r.jobId ∧ p = q := by
                  simpa [Except.toOption] using heq
                exact h.told_observePhases probe grant replicas (h.told_of_ok hphase)
      · exact ih hmem

theorem evaluateDeps (d : Deployment) {l : List ReplicaState} {s : σ} (hs : I l s) :
    I l (CeGke.evaluateDeps driver d s).2 :=
  evaluateDeps_rule (fun service hs ↦ h.serviceReady service hs) d hs

/-- The refresh. -/
theorem refresh (d : Deployment) {c : Controller} {s : σ} (hs : I c.replicas s) :
    I (c.refresh driver d s).1.replicas (c.refresh driver d s).2 := by
  refine h.recorded (h.observePhases d.liveness c.grant c.replicas hs)
    (map_handle_refresh driver d c s) fun q hq ↦ ?_
  rcases Controller.phase_of_mem_foldl_record hq with hfailed | hmem | htracked
  · exact Or.inl hfailed
  · exact Or.inr (Or.inl (h.told_of_mem_observePhases d.liveness c.grant c.replicas hmem))
  · exact Or.inr (Or.inr htracked)

end MeshDriver.Observes

/-! ## After the plan -/

namespace MeshDriver.Keeps

variable [Sha256] {driver : MeshDriver σ} {d : Deployment} {grant : Option String} {gate : Gate}
  {I : List ReplicaState → σ → Prop} (h : driver.Keeps d grant gate I)

include h

theorem kills : driver.KillsKeep grant (fun _ ↦ True) fun t ↦ I t.replicas t.mesh where
  killed _ ht hr _ hkill := h.killed ht hr hkill
  notKilled _ ht hr _ hkill := h.notKilled ht hr hkill

theorem deploys (hgate : gate.isReady) :
    driver.DeploysKeep grant d d.revision fun t ↦ I t.replicas t.mesh where
  atlas ht := h.atlas ht
  deployed ht hdeploy := h.deployed hgate ht hdeploy
  notDeployed ht hdeploy := h.notDeployed hgate ht hdeploy
  notPlaced _ ht := ht

theorem advertise {t : TickState σ} (ht : I t.replicas t.mesh) :
    I (CeGke.advertise driver d gate t).replicas (CeGke.advertise driver d gate t).mesh := by
  unfold CeGke.advertise
  split
  · exact ht
  · rename_i service hservice
    split_ifs with hready
    · obtain ⟨r, hr, hrunning⟩ := List.any_eq_true.mp hready.1
      have hkept := h.advertised hready.2 hservice ht hr (of_decide_eq_true hrunning)
      split
      · rename_i heq
        rw [heq] at hkept
        exact hkept
      · rename_i heq
        rw [heq] at hkept
        exact hkept
    · exact ht

end MeshDriver.Keeps

/-! ## The tick -/

namespace Controller

variable [Sha256] {driver : MeshDriver σ} {d : Deployment} {c : Controller} {s : σ}
  {told : σ → String → Phase → Prop} {I : List ReplicaState → σ → Prop}

/-- What the calls up to the plan keep. -/
theorem planned_keeps (hobserves : driver.Observes told I) (hs : I c.replicas s) :
    I (c.planned driver d s).2.replicas (c.planned driver d s).2.mesh :=
  hobserves.evaluateDeps d (hobserves.refresh d hs)

/-- From the plan on, a tick keeps what each of its calls keeps. -/
theorem tick_keeps_of_planned (hkeeps : driver.Keeps d c.grant (c.planned driver d s).1 I)
    (hplanned : I (c.planned driver d s).2.replicas (c.planned driver d s).2.mesh)
    (now : UInt64) :
    I (c.tick driver d s now).2.1.replicas (c.tick driver d s now).2.2 := by
  refine hkeeps.advertise (place_rule hkeeps.deploys now c.maxStaleSecs _ ?_)
  refine hkeeps.kills.substitute (fun _ ↦ trivial) _ _ _ ?_
  exact hkeeps.kills.foldl_tryKill (fun _ _ ↦ trivial) hplanned

/-- A tick keeps what each of its calls keeps. -/
theorem tick_keeps (hobserves : driver.Observes told I)
    (hkeeps : driver.Keeps d c.grant (c.planned driver d s).1 I) (hs : I c.replicas s)
    (now : UInt64) :
    I (c.tick driver d s now).2.1.replicas (c.tick driver d s now).2.2 :=
  tick_keeps_of_planned hkeeps (planned_keeps hobserves hs) now

end Controller

end CeGke
