import CeGke.Controller.Stages

/-!
# What a controller tracks

Handles are added and removed in three places of a tick, each with a failure branch
of its own.  The log of the driver is the ground truth: over any run of ticks, the
tracked jobs are those that were there or were launched, less those that were killed
(`tracked_exactly`), and the reports of the ticks are the log, tick by tick.
-/

namespace CeGke

open Lib

variable {σ : Type}

/-! ## The books of a tick -/

/-- From `t` to `t'` the log grew by answers of the driver, the report says by which, and
whatever is tracked anew was launched for `d`. -/
def Booked (driver : MeshDriver σ) (d : Deployment) (t t' : TickState (σ × List MeshEvent)) :
    Prop :=
  ∃ log, t'.mesh.2 = t.mesh.2 ++ log ∧
    (∀ e ∈ log, driver.Answers e) ∧
    t'.report.placed = t.report.placed ++ deployedJobs log ∧
    t'.report.killed = t.report.killed ++ killedJobs log ∧
    ∀ r ∈ t'.replicas, r ∈ t.replicas ∨ MeshEvent.deployed r.nodeId d r.jobId ∈ log

namespace Booked

variable {driver : MeshDriver σ} {d : Deployment} {t t' t'' : TickState (σ × List MeshEvent)}

/-- Nothing was logged and nothing reported. -/
theorem of_eq (hmesh : t'.mesh.2 = t.mesh.2) (hplaced : t'.report.placed = t.report.placed)
    (hkilled : t'.report.killed = t.report.killed) (hreplicas : t'.replicas = t.replicas) :
    Booked driver d t t' := by
  refine ⟨[], ?_, List.forall_mem_nil _, ?_, ?_, fun r hr ↦ Or.inl (hreplicas ▸ hr)⟩
  · rw [hmesh, List.append_nil]
  · rw [hplaced, deployedJobs_nil, List.append_nil]
  · rw [hkilled, killedJobs_nil, List.append_nil]

theorem refl (t : TickState (σ × List MeshEvent)) : Booked driver d t t := of_eq rfl rfl rfl rfl

theorem trans (h : Booked driver d t t') (h' : Booked driver d t' t'') : Booked driver d t t'' := by
  obtain ⟨log, hmesh, hlog, hplaced, hkilled, hnew⟩ := h
  obtain ⟨log', hmesh', hlog', hplaced', hkilled', hnew'⟩ := h'
  refine ⟨log ++ log', ?_, List.forall_mem_append.mpr ⟨hlog, hlog'⟩, ?_, ?_, ?_⟩
  · rw [hmesh', hmesh, List.append_assoc]
  · rw [hplaced', hplaced, deployedJobs_append, List.append_assoc]
  · rw [hkilled', hkilled, killedJobs_append, List.append_assoc]
  · intro r hr
    rcases hnew' r hr with hr | hr
    · exact (hnew r hr).imp_right (List.mem_append_left _)
    · exact Or.inr (List.mem_append_right _ hr)

end Booked

section Stages

variable (driver : MeshDriver σ) (grant : Option String) (d : Deployment) (target : String)

/-- What a kill is logged as. -/
theorem logged_kill {nodeId job : String} {s : σ × List MeshEvent} {res : Except String Unit}
    {mesh : σ × List MeshEvent} (h : driver.logged.kill nodeId job grant s = (res, mesh)) :
    match res with
    | .ok _ => mesh.2 = s.2 ++ [.killed nodeId job] ∧ driver.Answers (.killed nodeId job)
    | .error _ => mesh.2 = s.2 := by
  simp only [MeshDriver.logged] at h
  split at h
  · rename_i hkill
    obtain ⟨rfl, rfl⟩ := Prod.mk.inj h
    exact ⟨rfl, grant, s.1, congrArg Prod.fst hkill⟩
  · obtain ⟨rfl, rfl⟩ := Prod.mk.inj h
    rfl

/-- What a deploy is logged as. -/
theorem logged_deploy {nodeId : String} {s : σ × List MeshEvent} {res : Except String String}
    {mesh : σ × List MeshEvent} (h : driver.logged.deploy nodeId d grant s = (res, mesh)) :
    match res with
    | .ok job => mesh.2 = s.2 ++ [.deployed nodeId d job] ∧
        driver.Answers (.deployed nodeId d job)
    | .error _ => mesh.2 = s.2 := by
  simp only [MeshDriver.logged] at h
  split at h
  · rename_i hdeploy
    obtain ⟨rfl, rfl⟩ := Prod.mk.inj h
    exact ⟨rfl, grant, s.1, congrArg Prod.fst hdeploy⟩
  · obtain ⟨rfl, rfl⟩ := Prod.mk.inj h
    rfl

theorem killsKeep_booked (t : TickState (σ × List MeshEvent)) :
    driver.logged.KillsKeep grant (fun _ ↦ True) (Booked driver d t) where
  killed := by
    intro t' r u mesh killFailures hbooked hr _ hkill
    obtain ⟨hlog, hanswers⟩ := logged_kill driver grant hkill
    refine hbooked.trans ⟨_, hlog, List.forall_mem_singleton.mpr hanswers, ?_, rfl, ?_⟩
    · simp
    · exact fun q hq ↦ Or.inl (List.mem_filter.mp hq).1
  notKilled := by
    intro t' r e mesh killFailures hbooked hr _ hkill
    exact hbooked.trans (Booked.of_eq (logged_kill driver grant hkill) rfl rfl rfl)

theorem deploysKeep_booked (t : TickState (σ × List MeshEvent)) :
    driver.logged.DeploysKeep grant d target (Booked driver d t) where
  atlas hbooked := hbooked.trans (Booked.of_eq rfl rfl rfl rfl)
  deployed := by
    intro t' nodeId job mesh hbooked hdeploy
    obtain ⟨hlog, hanswers⟩ := logged_deploy driver grant d hdeploy
    refine hbooked.trans ⟨_, hlog, List.forall_mem_singleton.mpr hanswers, rfl, ?_, ?_⟩
    · simp
    · intro r hr
      rcases List.mem_append.mp hr with hr | hr
      · exact Or.inl hr
      · rw [List.mem_singleton.mp hr]
        exact Or.inr (List.mem_singleton.mpr rfl)
  notDeployed := by
    intro t' nodeId e mesh hbooked hdeploy
    exact hbooked.trans (Booked.of_eq (logged_deploy driver grant d hdeploy) rfl rfl rfl)
  notPlaced _ hbooked := hbooked.trans (Booked.of_eq rfl rfl rfl rfl)

theorem foldl_tryKill_booked (toKill : List String) (t : TickState (σ × List MeshEvent)) :
    Booked driver d t (toKill.foldl (tryKill driver.logged grant) t) :=
  (killsKeep_booked driver grant d t).foldl_tryKill (fun _ _ ↦ trivial) (Booked.refl t)

theorem substitute_booked (desired : ℕ) (toKill : List String)
    (t : TickState (σ × List MeshEvent)) :
    Booked driver d t (substitute driver.logged grant desired target toKill t) :=
  (killsKeep_booked driver grant d t).substitute (fun _ ↦ trivial) _ _ _ (Booked.refl t)

theorem place_booked (now maxStaleSecs : UInt64) (gate : Gate) (toPlace : ℕ)
    (t : TickState (σ × List MeshEvent)) :
    Booked driver d t (place driver.logged now maxStaleSecs grant d target gate toPlace t) :=
  place_rule (fun _ ↦ deploysKeep_booked driver grant d target t) now maxStaleSecs toPlace
    (Booked.refl t)

theorem advertise_booked (gate : Gate) (t : TickState (σ × List MeshEvent)) :
    Booked driver d t (advertise driver.logged d gate t) := by
  have hlog : ∀ service, (driver.logged.advertiseService service t.mesh).2.2 = t.mesh.2 :=
    fun _ ↦ rfl
  obtain ⟨hreplicas, hplaced, hkilled⟩ := advertise_eq driver.logged d gate t
  refine Booked.of_eq ?_ hplaced hkilled hreplicas
  unfold advertise
  split
  · rfl
  · rename_i service _
    split_ifs
    · have h := hlog service
      split <;> simp_all
    · rfl

end Stages

namespace Controller

variable [Sha256] (driver : MeshDriver σ) (d : Deployment) (c : Controller)
  (s : σ × List MeshEvent)

/-- Neither the refresh nor the gate is logged. -/
theorem planned_log : (c.planned driver.logged d s).2.mesh.2 = s.2 := by
  have hrefresh : (c.refresh driver.logged d s).2.2 = s.2 :=
    observePhases_rule (P := fun s' : σ × List MeshEvent ↦ s'.2 = s.2) (fun _ _ hs ↦ hs)
      c.replicas rfl
  exact evaluateDeps_rule (P := fun s' : σ × List MeshEvent ↦ s'.2 = s.2) (fun _ hs ↦ hs) d
    hrefresh

/-- The report of a tick is what it added to the log. -/
theorem tick_booked (now : UInt64) :
    ∃ log, (c.tick driver.logged d s now).2.2.2 = s.2 ++ log ∧
      (∀ e ∈ log, driver.Answers e) ∧
      (c.tick driver.logged d s now).1.placed = deployedJobs log ∧
      (c.tick driver.logged d s now).1.killed = killedJobs log ∧
      ∀ r ∈ (c.tick driver.logged d s now).2.1.replicas,
        r ∈ c.refreshed driver.logged d s ∨ MeshEvent.deployed r.nodeId d r.jobId ∈ log := by
  have hkills := foldl_tryKill_booked driver c.grant d (c.plan driver.logged d s).toKill
    (c.planned driver.logged d s).2
  have hsubs := substitute_booked driver c.grant d d.revision d.replicas.toNat
    (c.plan driver.logged d s).toKill (c.afterKills driver.logged d s)
  have hplace := place_booked driver c.grant d d.revision now c.maxStaleSecs
    (c.planned driver.logged d s).1 (c.plan driver.logged d s).toPlace
    (c.afterSubstitutes driver.logged d s)
  have hadv := advertise_booked driver d (c.planned driver.logged d s).1
    (c.afterPlacements driver.logged d s now)
  obtain ⟨log, hmesh, hbooked⟩ := ((hkills.trans hsubs).trans hplace).trans hadv
  rw [planned_log] at hmesh
  exact ⟨log, hmesh, hbooked⟩

/-- The tracked replicas and the report of a tick: what was killed is gone, what was
placed comes last, on target. -/
theorem tick_killed_placed {σ : Type} (driver : MeshDriver σ) (s : σ) (now : UInt64) :
    ∃ launched,
      (c.tick driver d s now).2.1.replicas =
          without ReplicaState.jobId (c.tick driver d s now).1.killed
            (c.refreshed driver d s) ++ launched ∧
        (c.tick driver d s now).1.placed = jobIds launched ∧
        (c.tick driver d s now).1.killed ⊆ jobIds c.replicas ∧
        launched.length ≤ (c.plan driver d s).toPlace ∧
        ∀ r ∈ launched, r.revision = d.revision := by
  obtain ⟨ks, _, hkills⟩ := c.afterKills_killed driver d s
  obtain ⟨js, hsubs, _⟩ := c.afterSubstitutes_killed driver d s
  obtain ⟨launched, hplaced, hlen⟩ := c.afterPlacements_placed driver d s now
  obtain ⟨hreplicas, hreport, hreport'⟩ := c.tick_eq driver d s now
  have hboth := hkills.trans hsubs
  have hkilled : (c.tick driver d s now).1.killed = ks ++ js := by
    rw [hreport', hplaced.killed, hboth.killed]
    rfl
  refine ⟨launched, ?_, ?_, ?_, hlen, fun r hr ↦ (hplaced.fresh r hr).2⟩
  · rw [hreplicas, hplaced.replicas, hboth.replicas, hkilled]
    rfl
  · rw [hreport, hplaced.placed, hboth.placed]
    rfl
  · rw [hkilled, ← jobIds_refreshed driver d c s]
    exact hboth.tracked

end Controller

/-! ## The tracked set -/

/-- After `log` the replicas started from `initial` are tracked as they should be. -/
structure Tracks [Sha256] (initial : List ReplicaState) (log : List MeshEvent)
    (replicas : List ReplicaState) : Prop where
  /-- Launched or there from the start, and not killed, in the order of launching. -/
  ids : jobIds replicas =
    (jobIds initial ++ deployedJobs log).filter fun job ↦ job ∉ killedJobs log
  killed : killedJobs log ⊆ jobIds initial ++ deployedJobs log
  /-- On the host and with the revision they were launched with. -/
  handles : ∀ r ∈ replicas, (∃ r₀ ∈ initial, r₀.handle = r.handle) ∨
    ∃ d, MeshEvent.deployed r.nodeId d r.jobId ∈ log ∧ r.revision = d.revision

theorem Tracks.refl [Sha256] (initial : List ReplicaState) : Tracks initial [] initial where
  ids := by simp
  killed := by simp
  handles r hr := Or.inl ⟨r, hr, rfl⟩

/-- A refresh leaves every replica on its host and with its revision. -/
theorem Tracks.handle_refreshed [Sha256] {initial : List ReplicaState} {log : List MeshEvent}
    {c : Controller} (h : Tracks initial log c.replicas) (driver : MeshDriver σ)
    (d : Deployment) (s : σ) {r : ReplicaState} (hr : r ∈ c.refreshed driver d s) :
    (∃ r₀ ∈ initial, r₀.handle = r.handle) ∨
      ∃ d, MeshEvent.deployed r.nodeId d r.jobId ∈ log ∧ r.revision = d.revision := by
  have hhandle : r.handle ∈ c.replicas.map ReplicaState.handle := by
    rw [← map_handle_refresh driver d c s]
    exact List.mem_map_of_mem hr
  obtain ⟨r₁, hr₁, heq⟩ := List.mem_map.mp hhandle
  simp only [ReplicaState.handle, Prod.mk.injEq] at heq
  obtain ⟨hid, hnode, hrevision⟩ := heq
  rcases h.handles r₁ hr₁ with ⟨r₀, hr₀, heq₀⟩ | ⟨d₀, hdeployed, hrev₀⟩
  · refine Or.inl ⟨r₀, hr₀, heq₀.trans ?_⟩
    simp only [ReplicaState.handle, hid, hnode, hrevision]
  · rw [hid, hnode] at hdeployed
    exact Or.inr ⟨d₀, hdeployed, hrevision ▸ hrev₀⟩

/-- A tick keeps track, provided no job id it launched was used before. -/
theorem Tracks.tick [Sha256] {initial : List ReplicaState} {c : Controller}
    {s : σ × List MeshEvent} (h : Tracks initial s.2 c.replicas) (driver : MeshDriver σ)
    (d : Deployment) (now : UInt64)
    (hfresh : (jobIds initial ++
      deployedJobs (c.tick driver.logged d s now).2.2.2).Nodup) :
    Tracks initial (c.tick driver.logged d s now).2.2.2
      (c.tick driver.logged d s now).2.1.replicas := by
  obtain ⟨log, hlog, _, hplaced, hkilled, hnew⟩ := c.tick_booked driver d s now
  obtain ⟨launched, hreplicas, hplaced', htracked, _, hrev⟩ :=
    c.tick_killed_placed d driver.logged s now
  rw [hkilled] at hreplicas htracked
  rw [hlog] at hfresh ⊢
  rw [deployedJobs_append, ← List.append_assoc] at hfresh
  have hdisjoint := (List.nodup_append'.mp hfresh).2.2
  have hold : jobIds c.replicas ⊆ jobIds initial ++ deployedJobs s.2 := by
    rw [h.ids]
    exact List.filter_sublist.subset
  constructor
  · -- The launched jobs are new, so neither the old kills nor this tick's touch them.
    have hkept : (deployedJobs log).filter
        (fun job ↦ job ∉ killedJobs (s.2 ++ log)) = deployedJobs log := by
      rw [List.filter_eq_self]
      intro job hjob
      apply decide_eq_true
      intro hmem
      rw [killedJobs_append, List.mem_append] at hmem
      exact hdisjoint (hmem.elim (fun hk ↦ h.killed hk) fun hk ↦ hold (htracked hk)) hjob
    have hwithout : jobIds (without ReplicaState.jobId (killedJobs log)
        (c.refreshed driver.logged d s)) =
          (jobIds c.replicas).filter fun job ↦ job ∉ killedJobs log := by
      rw [← jobIds_refreshed driver.logged d c s, jobIds, jobIds, List.filter_map]
      rfl
    rw [hreplicas, jobIds_append, hwithout, ← hplaced', hplaced, h.ids, List.filter_filter,
      deployedJobs_append, ← List.append_assoc,
      List.filter_append (jobIds initial ++ deployedJobs s.2) (deployedJobs log), hkept]
    refine congrArg (· ++ _) (List.filter_congr fun job _ ↦ ?_)
    simp [not_or, and_comm]
  · rw [killedJobs_append, deployedJobs_append, ← List.append_assoc]
    apply List.append_subset.mpr
    constructor
    · intro job hjob
      exact List.mem_append_left _ (h.killed hjob)
    · intro job hjob
      exact List.mem_append_left _ (hold (htracked hjob))
  · intro r hr
    by_cases hmem : r ∈ c.refreshed driver.logged d s
    · refine (h.handle_refreshed driver.logged d s hmem).imp_right ?_
      rintro ⟨d₀, hdeployed, hrev₀⟩
      exact ⟨d₀, List.mem_append_left _ hdeployed, hrev₀⟩
    · rw [hreplicas] at hr
      have hlaunched : r ∈ launched :=
        (List.mem_append.mp hr).resolve_left fun hw ↦ hmem (mem_without.mp hw).1
      refine Or.inr ⟨d, ?_, hrev r hlaunched⟩
      exact List.mem_append_right _ ((hnew r (hreplicas ▸ hr)).resolve_left hmem)

/-! ## Runs -/

/-- Tick after tick, each at its time and for its deployment. -/
def runTicks [Sha256] (driver : MeshDriver σ) :
    List (UInt64 × Deployment) → Controller × σ → Controller × σ
  | [], cs => cs
  | (now, d) :: ticks, (c, s) => runTicks driver ticks (c.tick driver d s now).2

/-- A log only grows. -/
theorem runTicks_log [Sha256] (driver : MeshDriver σ) (ticks : List (UInt64 × Deployment))
    (cs : Controller × σ × List MeshEvent) :
    cs.2.2 <+: (runTicks driver.logged ticks cs).2.2 := by
  induction ticks generalizing cs with
  | nil => exact List.prefix_rfl
  | cons tick ticks ih =>
      obtain ⟨log, hlog, _⟩ := cs.1.tick_booked driver tick.2 cs.2 tick.1
      exact (List.prefix_append _ _).trans (hlog ▸ ih _)

theorem Tracks.runTicks [Sha256] {initial : List ReplicaState} (driver : MeshDriver σ)
    (ticks : List (UInt64 × Deployment)) {cs : Controller × σ × List MeshEvent}
    (h : Tracks initial cs.2.2 cs.1.replicas)
    (hfresh : (jobIds initial ++ deployedJobs (runTicks driver.logged ticks cs).2.2).Nodup) :
    Tracks initial (CeGke.runTicks driver.logged ticks cs).2.2
      (CeGke.runTicks driver.logged ticks cs).1.replicas := by
  induction ticks generalizing cs with
  | nil => exact h
  | cons tick ticks ih =>
      refine ih (h.tick driver tick.2 tick.1 ?_) hfresh
      obtain ⟨log, hlog⟩ := runTicks_log driver ticks (cs.1.tick driver.logged tick.2 cs.2 tick.1).2
      refine hfresh.sublist ((List.Sublist.refl _).append ?_)
      refine List.Sublist.filterMap _ ?_
      exact hlog ▸ List.sublist_append_left _ _

/-- **The tracked set is exactly what was launched and not killed.**  Over any run of
ticks in which no job id is handed out twice, the tracked jobs are the initial and the
launched ones without the killed ones, each once; a launched one carries the host it
was deployed on and the revision it was launched for; and every further tick reports
just what it launched and killed. -/
theorem tracked_exactly [Sha256] (driver : MeshDriver σ) (ticks : List (UInt64 × Deployment))
    (c : Controller) (s : σ) :
    let run := runTicks driver.logged ticks (c, s, [])
    let tracked := run.1.replicas
    let log := run.2.2
    (jobIds c.replicas ++ deployedJobs log).Nodup →
      (jobIds tracked).Nodup ∧
      (∀ job, job ∈ jobIds tracked ↔
        (job ∈ jobIds c.replicas ∨ job ∈ deployedJobs log) ∧ job ∉ killedJobs log) ∧
      (∀ r ∈ tracked, r.jobId ∈ deployedJobs log →
        ∃ d, MeshEvent.deployed r.nodeId d r.jobId ∈ log ∧ r.revision = d.revision) ∧
      ∀ now d, ∃ log', (run.1.tick driver.logged d run.2 now).2.2.2 = log ++ log' ∧
        (run.1.tick driver.logged d run.2 now).1.placed = deployedJobs log' ∧
        (run.1.tick driver.logged d run.2 now).1.killed = killedJobs log' := by
  intro run tracked log hfresh
  have htracks := @Tracks.runTicks _ _ c.replicas driver ticks (c, s, [])
    (Tracks.refl c.replicas) hfresh
  refine ⟨?_, ?_, ?_, ?_⟩
  · rw [htracks.ids]
    exact hfresh.filter _
  · intro job
    rw [htracks.ids, List.mem_filter, List.mem_append, decide_eq_true_iff]
  · intro r hr hjob
    rcases htracks.handles r hr with ⟨r₀, hr₀, hhandle⟩ | h
    · refine absurd hjob ((List.nodup_append'.mp hfresh).2.2 ?_)
      exact mem_jobIds.mpr ⟨r₀, hr₀, congrArg Prod.fst hhandle⟩
    · exact h
  · intro now d
    obtain ⟨log', hlog, _, hplaced, hkilled, _⟩ := Controller.tick_booked driver d _ _ now
    exact ⟨log', hlog, hplaced, hkilled⟩

/-- One replica launched, then replaced by nothing. -/
theorem tracked_exactly_scripted :
    let d : Deployment := { image := "nginx", replicas := 1 }
    let cs := @runTicks _ Deployment.nginxSha256 scriptedDriver.logged
      [(0, d), (5, { d with replicas := 0 }), (10, d)] (Controller.new none, ["a", "b"], [])
    jobIds cs.1.replicas = ["b"] ∧
      ∀ job, job ∈ jobIds cs.1.replicas ↔
        (job ∈ jobIds (Controller.new none).replicas ∨ job ∈ deployedJobs cs.2.2) ∧
          job ∉ killedJobs cs.2.2 := by
  intro d cs
  have hexact := @tracked_exactly _ Deployment.nginxSha256 scriptedDriver
    [(0, d), (5, { d with replicas := 0 }), (10, d)] (Controller.new none) ["a", "b"]
  exact ⟨by decide +kernel, (hexact (by decide +kernel)).2.1⟩

end CeGke
