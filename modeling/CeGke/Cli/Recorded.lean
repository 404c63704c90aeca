import CeGke.Cli
import CeGke.Controller.Tracking

/-!
# What a command leaves behind

Whatever a command launches it tracks in its store (`exec_recorded`), and a command that
fails has launched nothing, but for the apply of a stack that the checks of a later app
cut short (`exec_error`, `LeakProne`).
-/

namespace CeGke

variable {σ : Type}

/-- Every job that was launched and not stopped is tracked in the store. -/
def Recorded (store : Store) (log : List MeshEvent) : Prop :=
  ∀ job ∈ deployedJobs log, job ∉ killedJobs log →
    ∃ key managed, store.get key = some managed ∧ job ∈ jobIds managed.replicas

/-- A log that has grown by answers of the driver. -/
def Grown (driver : MeshDriver σ) (log log' : List MeshEvent) : Prop :=
  ∃ added, log' = log ++ added ∧ ∀ e ∈ added, driver.Answers e

theorem Grown.refl (driver : MeshDriver σ) (log : List MeshEvent) : Grown driver log log :=
  ⟨[], (List.append_nil _).symm, List.forall_mem_nil _⟩

theorem Grown.trans {driver : MeshDriver σ} {log log' log'' : List MeshEvent}
    (h : Grown driver log log') (h' : Grown driver log' log'') : Grown driver log log'' := by
  obtain ⟨added, rfl, hadded⟩ := h
  obtain ⟨added', rfl, hadded'⟩ := h'
  exact ⟨added ++ added', List.append_assoc _ _ _, List.forall_mem_append.mpr ⟨hadded, hadded'⟩⟩

theorem Grown.deployedJobs_subset {driver : MeshDriver σ} {log log' : List MeshEvent}
    (h : Grown driver log log') : deployedJobs log ⊆ deployedJobs log' := by
  obtain ⟨added, rfl, _⟩ := h
  rw [deployedJobs_append]
  exact List.subset_append_left _ _

namespace Recorded

variable {store : Store} {log : List MeshEvent}

theorem of_deployedJobs_eq_nil (h : deployedJobs log = []) : Recorded store log := by
  intro job hjob
  rw [h] at hjob
  exact absurd hjob List.not_mem_nil

variable [Sha256]

theorem upsert (h : Recorded store log) (spec : Deployment) (grant : Option String) :
    Recorded (store.upsert spec grant) log := by
  intro job hjob hlive
  obtain ⟨key, managed, hget, htracked⟩ := h job hjob hlive
  by_cases hkey : key = spec.key
  · subst hkey
    obtain ⟨managed', hget', _, hreplicas⟩ := store.get_upsert spec grant
    refine ⟨spec.key, managed', hget', ?_⟩
    rw [hreplicas, hget]
    exact htracked
  · exact ⟨key, managed, (store.get_upsert_of_ne spec grant hkey).trans hget, htracked⟩

/-- A tick of the controller of a deployment, its handles put into the store. -/
theorem tick {s : σ × List MeshEvent} (h : Recorded store s.2) {key : String}
    {managed : ManagedDeployment} (hget : store.get key = some managed) {c : Controller}
    (hc : c.replicas = managed.replicas) (driver : MeshDriver σ) (d : Deployment)
    (now : UInt64) :
    Recorded (store.setReplicas key (c.tick driver.logged d s now).2.1.replicas)
      (c.tick driver.logged d s now).2.2.2 := by
  obtain ⟨log, hlog, _, hplaced, hkilled, _⟩ := c.tick_booked driver d s now
  obtain ⟨launched, hreplicas, hplaced', _⟩ := c.tick_killed_placed d driver.logged s now
  have hget' := store.get_setReplicas_self key (c.tick driver.logged d s now).2.1.replicas
  rw [hget, Option.map_some] at hget'
  intro job hjob hlive
  rw [hlog, deployedJobs_append, List.mem_append] at hjob
  rw [hlog, killedJobs_append, List.mem_append, not_or] at hlive
  rcases hjob with hold | hnew
  · obtain ⟨key', managed', hat, htracked⟩ := h job hold hlive.1
    by_cases hkey : key' = key
    · subst hkey
      obtain rfl := Option.some.inj (hget.symm.trans hat)
      refine ⟨key', _, hget', ?_⟩
      -- It is still tracked after the refresh, and the tick did not kill it.
      rw [← hc, ← jobIds_refreshed driver.logged d c s] at htracked
      obtain ⟨r, hr, rfl⟩ := mem_jobIds.mp htracked
      simp only [hreplicas, jobIds_append, List.mem_append]
      refine Or.inl (mem_jobIds.mpr ⟨r, Lib.mem_without.mpr ⟨hr, ?_⟩, rfl⟩)
      rw [hkilled]
      exact hlive.2
    · exact ⟨key', managed', (store.get_setReplicas_of_ne hkey _).trans hat, htracked⟩
  · refine ⟨key, _, hget', ?_⟩
    rw [← hplaced, hplaced'] at hnew
    simp only [hreplicas, jobIds_append, List.mem_append]
    exact Or.inr hnew

end Recorded

/-- Nothing is placed for a deployment scaled to nothing. -/
theorem planStep_toPlace_of_replicas_eq_zero {d : Deployment} (h : d.replicas = 0)
    (l : List ReplicaState) (target : String) : (planStep d l target).toPlace = 0 := by
  have hzero : d.replicas.toNat = 0 := by rw [h]; rfl
  cases hs : d.strategy with
  | recreate => rw [planStep_toPlace_recreate hs, hzero, Nat.zero_sub, ite_self]
  | rollingUpdate u s => rw [planStep_toPlace_rolling hs, hzero, Nat.zero_sub, Nat.zero_min]

/-! ## What a command leaves in its store -/

/-- A delete launches nothing. -/
theorem Cli.killAll_deployedJobs (driver : MeshDriver σ) (grant : Option String)
    (replicas : List ReplicaState) (fs : ℕ × σ × List MeshEvent) :
    deployedJobs (Cli.killAll driver.logged grant replicas fs).2.2 = deployedJobs fs.2.2 := by
  induction replicas generalizing fs with
  | nil => rfl
  | cons r replicas ih =>
      obtain ⟨failures, s⟩ := fs
      cases hkill : driver.kill r.nodeId r.jobId grant s.1 with
      | mk res mesh =>
          cases res with
          | error e =>
              simp only [Cli.killAll, MeshDriver.logged, hkill]
              exact ih _
          | ok u =>
              simp only [Cli.killAll, MeshDriver.logged, hkill]
              exact (ih _).trans (by simp)

section Commands

variable [Sha256] (cli : Cli) (driver : MeshDriver σ) (preflights : ℕ → Preflight)
  (clock : String → ℕ → UInt64)

theorem tickLoop_recorded (clock : ℕ → UInt64) (spec : Deployment) (key : String)
    (left tick : ℕ) {ctrl : Controller} {p : CliState (σ × List MeshEvent)}
    {managed : ManagedDeployment} (h : Recorded p.store p.mesh.2)
    (hget : p.store.get key = some managed) (hctrl : ctrl.replicas = managed.replicas) :
    Recorded (tickLoop driver.logged clock spec key left tick ctrl p).store
      (tickLoop driver.logged clock spec key left tick ctrl p).mesh.2 := by
  induction left generalizing tick ctrl p managed with
  | zero => exact h
  | succ left ih =>
      have htick := h.tick hget hctrl driver spec (clock tick)
      have hget' := p.store.get_setReplicas_self key
        (ctrl.tick driver.logged spec p.mesh (clock tick)).2.1.replicas
      rw [hget, Option.map_some] at hget'
      rw [tickLoop]
      simp only
      split_ifs
      · exact htick
      · exact ih _ htick hget' rfl

theorem tickLoop_grown (clock : ℕ → UInt64) (spec : Deployment) (key : String)
    (left tick : ℕ) (ctrl : Controller) (p : CliState (σ × List MeshEvent)) :
    Grown driver p.mesh.2 (tickLoop driver.logged clock spec key left tick ctrl p).mesh.2 := by
  have hgrown := @tickLoop_of_tick _ _ driver.logged clock spec key
    fun p q ↦ Grown driver p.mesh.2 q.mesh.2
  refine hgrown (fun _ ↦ Grown.refl driver _) (fun _ _ _ ↦ Grown.trans) ?_ left tick ctrl p
  intro tick ctrl p
  obtain ⟨log, hlog, hanswers, _⟩ := ctrl.tick_booked driver spec p.mesh (clock tick)
  exact ⟨log, hlog, hanswers⟩

theorem tickLoop_get_of_ne (clock : ℕ → UInt64) (spec : Deployment) {key key' : String}
    (h : key' ≠ key) (left tick : ℕ) (ctrl : Controller) (p : CliState σ) :
    (tickLoop driver clock spec key left tick ctrl p).store.get key' = p.store.get key' := by
  have hframe := @tickLoop_of_tick _ _ driver clock spec key
    fun p q ↦ q.store.get key' = p.store.get key'
  refine hframe (fun _ ↦ rfl) (fun _ _ _ hpq hqr ↦ hqr.trans hpq) ?_ left tick ctrl p
  exact fun tick ctrl p ↦ p.store.get_setReplicas_of_ne h _

namespace Cli

/-- Reconciling one deployment leaves the others alone. -/
theorem reconcileToConvergence_get_of_ne {key key' : String} (h : key' ≠ key)
    (p : CliState σ) :
    (cli.reconcileToConvergence driver clock key p).2.store.get key' = p.store.get key' := by
  unfold reconcileToConvergence
  split
  · rfl
  · exact tickLoop_get_of_ne driver _ _ h _ _ _ _

theorem reconcileToConvergence_recorded (key : String) {p : CliState (σ × List MeshEvent)}
    (h : Recorded p.store p.mesh.2) :
    Recorded (cli.reconcileToConvergence driver.logged clock key p).2.store
      (cli.reconcileToConvergence driver.logged clock key p).2.mesh.2 := by
  unfold reconcileToConvergence
  split
  · exact h
  · rename_i managed hget
    exact tickLoop_recorded driver (clock key) _ key _ 0 h hget rfl

theorem applyOne_recorded (pre : Preflight) (spec : Deployment)
    {p : CliState (σ × List MeshEvent)} (h : Recorded p.store p.mesh.2) :
    Recorded (cli.applyOne driver.logged clock pre spec p).2.store
      (cli.applyOne driver.logged clock pre spec p).2.mesh.2 := by
  unfold applyOne
  split
  · exact h
  · exact cli.reconcileToConvergence_recorded driver clock _ (h.upsert spec cli.grant)

theorem applyApps_recorded (i : ℕ) (apps : List Deployment)
    {p : CliState (σ × List MeshEvent)} (h : Recorded p.store p.mesh.2) :
    Recorded (cli.applyApps driver.logged preflights clock i apps p).2.store
      (cli.applyApps driver.logged preflights clock i apps p).2.mesh.2 := by
  have hrecorded := @applyApps_of_applyOne _ _ cli driver.logged preflights clock
    fun p q ↦ Recorded p.store p.mesh.2 → Recorded q.store q.mesh.2
  refine hrecorded (fun _ ↦ id) (fun _ _ _ hpq hqr ↦ hqr ∘ hpq) ?_ i apps p h
  exact fun i spec p h ↦ cli.applyOne_recorded driver clock (preflights i) spec h

theorem applyOne_grown (pre : Preflight) (spec : Deployment)
    (p : CliState (σ × List MeshEvent)) :
    Grown driver p.mesh.2 (cli.applyOne driver.logged clock pre spec p).2.mesh.2 := by
  unfold applyOne
  split
  · exact Grown.refl driver _
  · unfold reconcileToConvergence
    split
    · exact Grown.refl driver _
    · exact tickLoop_grown driver (clock spec.key) _ _ _ _ _
        { p with store := p.store.upsert spec cli.grant }

theorem applyApps_grown (i : ℕ) (apps : List Deployment) (p : CliState (σ × List MeshEvent)) :
    Grown driver p.mesh.2
      (cli.applyApps driver.logged preflights clock i apps p).2.mesh.2 := by
  have hgrown := @applyApps_of_applyOne _ _ cli driver.logged preflights clock
    fun p q ↦ Grown driver p.mesh.2 q.mesh.2
  refine hgrown (fun _ ↦ Grown.refl driver _) (fun _ _ _ ↦ Grown.trans) ?_ i apps p
  exact fun i spec p ↦ cli.applyOne_grown driver clock (preflights i) spec p

/-- What a command comes to: it stops before it touches the mesh, reconciles one deployment,
kills the replicas of one, or applies a stack. -/
theorem exec_cases (driver : MeshDriver σ) (cmd : Cmd) (p : CliState σ) :
    (∃ res store, cli.exec driver preflights clock cmd p = (res, { p with store })) ∨
    (∃ key store, cli.exec driver preflights clock cmd p =
      cli.reconcileToConvergence driver clock key { p with store }) ∨
    (∃ grant replicas store, cli.exec driver preflights clock cmd p =
      (.ok (), { store, mesh := (killAll driver grant replicas (0, p.mesh)).2 })) ∨
    ∃ parsed apps, cmd = .apply (.ok (.stack parsed)) ∧ cli.loadStack parsed = .ok apps ∧
      cli.exec driver preflights clock cmd p =
        cli.applyApps driver preflights clock 0 apps p := by
  cases cmd with
  | apply file =>
      rcases file with e | ⟨parsed⟩ | parsed
      · exact Or.inl ⟨_, _, rfl⟩
      · simp only [exec, apply, applyOne]
        split
        · exact Or.inl ⟨_, _, rfl⟩
        · split
          · exact Or.inl ⟨_, _, rfl⟩
          · exact Or.inr (Or.inl ⟨_, _, rfl⟩)
      · simp only [exec, apply, applyStack]
        split
        · exact Or.inl ⟨_, _, rfl⟩
        · rename_i apps hload
          exact Or.inr (Or.inr (Or.inr ⟨parsed, apps, rfl, hload, rfl⟩))
  | scale name replicas =>
      simp only [exec, scale]
      split
      · exact Or.inl ⟨_, _, rfl⟩
      · split_ifs
        · exact Or.inl ⟨_, _, rfl⟩
        · exact Or.inr (Or.inl ⟨_, _, rfl⟩)
  | rollout op =>
      cases op with
      | undo name toRevision =>
          simp only [exec, rolloutCmd]
          split
          · exact Or.inl ⟨_, _, rfl⟩
          · split
            · exact Or.inl ⟨_, _, rfl⟩
            · exact Or.inr (Or.inl ⟨_, _, rfl⟩)
      | status name | resume name =>
          simp only [exec, rolloutCmd]
          split
          · exact Or.inl ⟨_, _, rfl⟩
          · exact Or.inr (Or.inl ⟨_, _, rfl⟩)
      | pause name | history name =>
          simp only [exec, rolloutCmd]
          split <;> exact Or.inl ⟨_, _, rfl⟩
  | delete name force =>
      simp only [exec, delete]
      split
      · exact Or.inl ⟨_, _, rfl⟩
      · split_ifs <;> exact Or.inr (Or.inr (Or.inl ⟨_, _, _, rfl⟩))

/-- Whatever a command launches it tracks in its store. -/
theorem exec_recorded (cmd : Cmd) {p : CliState (σ × List MeshEvent)}
    (hlog : deployedJobs p.mesh.2 = []) :
    Recorded (cli.exec driver.logged preflights clock cmd p).2.store
      (cli.exec driver.logged preflights clock cmd p).2.mesh.2 := by
  have hnil : ∀ store, Recorded store p.mesh.2 := fun _ ↦ Recorded.of_deployedJobs_eq_nil hlog
  rcases cli.exec_cases preflights clock driver.logged cmd p with
    ⟨_, store, h⟩ | ⟨key, store, h⟩ | ⟨grant, replicas, store, h⟩ | ⟨_, apps, _, _, h⟩
  · rw [h]
    exact hnil store
  · rw [h]
    exact cli.reconcileToConvergence_recorded driver clock key (hnil store)
  · rw [h]
    exact Recorded.of_deployedJobs_eq_nil ((killAll_deployedJobs driver _ _ _).trans hlog)
  · rw [h]
    exact cli.applyApps_recorded driver preflights clock 0 apps (hnil _)

/-! ## What a failing command has launched -/

/-- The apps that are applied before the first check that fails, if one does; `i` counts
the preflights. -/
def cutShort (cli : Cli) (preflights : ℕ → Preflight) :
    ℕ → List Deployment → Option (List Deployment)
  | _, [] => none
  | i, spec :: apps =>
      match cli.check (preflights i) spec with
      | .error _ => some []
      | .ok _ => (cli.cutShort preflights (i + 1) apps).map (spec :: ·)

/-- An app that passes its checks is stored and ticked. -/
theorem applyOne_of_check {pre : Preflight} {spec : Deployment}
    (hcheck : cli.check pre spec = .ok ()) (p : CliState σ) :
    ∃ managed, (p.store.upsert spec cli.grant).get spec.key = some managed ∧
      managed.replicas = ((p.store.get spec.key).getD {}).replicas ∧
      cli.applyOne driver clock pre spec p =
        (.ok (), tickLoop driver (clock spec.key) spec spec.key cli.maxTicks.toNat 0
          (managed.controller cli.grant)
          { p with store := p.store.upsert spec cli.grant }) := by
  obtain ⟨managed, hget, hspec, hreplicas⟩ := p.store.get_upsert spec cli.grant
  refine ⟨managed, hget, hreplicas, ?_⟩
  simp only [applyOne, hcheck, reconcileToConvergence, hget, hspec]

theorem reconcileToConvergence_error {key : String} {p p' : CliState σ} {e : String}
    (h : cli.reconcileToConvergence driver clock key p = (.error e, p')) : p' = p := by
  unfold reconcileToConvergence at h
  split at h
  · exact (congrArg Prod.snd h).symm
  · exact absurd (congrArg Prod.fst h) (by simp)

/-- A loop over apps of which none is to run, or without ticks, launches nothing. -/
theorem tickLoop_idle (clock : ℕ → UInt64) {spec : Deployment} (key : String) {left : ℕ}
    (hidle : left = 0 ∨ spec.replicas = 0) (tick : ℕ) (ctrl : Controller)
    (p : CliState (σ × List MeshEvent)) :
    deployedJobs (tickLoop driver.logged clock spec key left tick ctrl p).mesh.2 =
      deployedJobs p.mesh.2 := by
  induction left generalizing tick ctrl p with
  | zero => rfl
  | succ left ih =>
      have hzero := hidle.resolve_left (Nat.succ_ne_zero left)
      obtain ⟨log, hlog, _, hplaced, _⟩ := ctrl.tick_booked driver spec p.mesh (clock tick)
      obtain ⟨launched, _, hlaunched, _, hlen, _⟩ :=
        ctrl.tick_killed_placed spec driver.logged p.mesh (clock tick)
      have hnone : deployedJobs log = [] := by
        rw [← hplaced, hlaunched, jobIds, List.map_eq_nil_iff, ← List.length_eq_zero_iff]
        exact Nat.le_zero.mp (hlen.trans_eq (planStep_toPlace_of_replicas_eq_zero hzero _ _))
      have htick : deployedJobs (ctrl.tick driver.logged spec p.mesh (clock tick)).2.2.2 =
          deployedJobs p.mesh.2 := by
        rw [hlog, deployedJobs_append, hnone, List.append_nil]
      rw [tickLoop]
      simp only
      split_ifs
      · exact htick
      · exact (ih (Or.inr hzero) _ _ _).trans htick

/-- A stack apply fails only when a check cuts it short, and up to there it has launched
nothing if none of the apps applied is to run. -/
theorem applyApps_error {i : ℕ} {apps : List Deployment} {e : String}
    {p p' : CliState (σ × List MeshEvent)}
    (h : cli.applyApps driver.logged preflights clock i apps p = (.error e, p')) :
    ∃ before, cli.cutShort preflights i apps = some before ∧
      ((cli.maxTicks = 0 ∨ ∀ app ∈ before, app.replicas = 0) →
        deployedJobs p'.mesh.2 = deployedJobs p.mesh.2) := by
  induction apps generalizing i p with
  | nil => exact absurd (congrArg Prod.fst h) (by simp [applyApps])
  | cons spec apps ih =>
      rw [applyApps] at h
      cases hcheck : cli.check (preflights i) spec with
      | error e' =>
          simp only [applyOne, hcheck] at h
          have hp : p = p' := congrArg Prod.snd h
          exact ⟨[], by simp only [cutShort, hcheck], fun _ ↦ by rw [hp]⟩
      | ok u =>
          obtain ⟨managed, _, _, hone⟩ := cli.applyOne_of_check driver.logged clock hcheck p
          rw [hone] at h
          obtain ⟨before, hbefore, hlog⟩ := ih h
          refine ⟨spec :: before, by simp only [cutShort, hcheck, hbefore, Option.map_some], ?_⟩
          intro hidle
          have hidle' := hidle.imp_right fun h app happ ↦ h app (List.mem_cons_of_mem _ happ)
          refine (hlog hidle').trans ?_
          refine tickLoop_idle driver (clock spec.key) spec.key ?_ 0 _ _
          refine hidle.imp (fun h ↦ ?_) fun h ↦ h spec List.mem_cons_self
          rw [h]
          rfl

/-- The commands that lose what they paid for: the apply of a stack that a check cuts
short after an app that wants a replica has had a tick. -/
def LeakProne (cmd : Cmd) : Prop :=
  ∃ parsed apps before, cmd = .apply (.ok (.stack parsed)) ∧ cli.loadStack parsed = .ok apps ∧
    cli.cutShort preflights 0 apps = some before ∧ cli.maxTicks ≠ 0 ∧
      ∃ app ∈ before, app.replicas ≠ 0

/-- Any other command that fails has launched nothing. -/
theorem exec_error {cmd : Cmd} {e : String} {p p' : CliState (σ × List MeshEvent)}
    (h : cli.exec driver.logged preflights clock cmd p = (.error e, p'))
    (hprone : ¬ cli.LeakProne preflights cmd) :
    deployedJobs p'.mesh.2 = deployedJobs p.mesh.2 := by
  rcases cli.exec_cases preflights clock driver.logged cmd p with
    ⟨res, store, hexec⟩ | ⟨key, store, hexec⟩ | ⟨grant, replicas, store, hexec⟩ |
      ⟨parsed, apps, rfl, hload, hexec⟩
  · obtain rfl : { p with store } = p' := congrArg Prod.snd (hexec.symm.trans h)
    rfl
  · rw [cli.reconcileToConvergence_error driver.logged clock (hexec.symm.trans h)]
  · exact absurd (congrArg Prod.fst (hexec.symm.trans h)) (by simp)
  · obtain ⟨before, hbefore, hlog⟩ :=
      cli.applyApps_error driver preflights clock (hexec.symm.trans h)
    refine hlog ?_
    by_contra hidle
    push Not at hidle
    exact hprone ⟨parsed, apps, before, rfl, hload, hbefore, hidle.1, hidle.2⟩

end Cli

end Commands

end CeGke
