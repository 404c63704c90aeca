import CeGke.Cli.Recorded
import CeGke.State.Migrate
import Mathlib.Data.Set.Finite.List

/-!
# Paid replicas and the state file

The store of a command reaches the state file only when the command succeeds, so the
apply of a stack that a check cuts short loses the handles of what it has launched.  On
a mesh that accepts every job and stops none this happens whenever an app applied before
the check wants a replica: `paid_recorded_iff` is exact.
-/

namespace CeGke

/-! ## A mesh that takes everything -/

/-- A host that is always fresh and as large as a host can be. -/
def largestHost : AtlasEntry where
  nodeId := "n"
  cpuCores := 4294967295
  memMb := 4294967295
  runningJobs := 0
  lastSeenSecs := 18446744073709551615
  hasTag _ := true

/-- A mesh of one such host, which takes every job, says of each that it has failed and
cannot be told to stop one; its state counts the ids it has handed out. -/
def leakyDriver (fresh : ℕ → String) : MeshDriver ℕ where
  atlas n := (.ok [largestHost], n)
  deploy _ _ _ n := (.ok (fresh n), n + 1)
  kill _ _ _ n := (.error "host unreachable", n)
  phase _ _ _ _ n := (.ok .failed, n)
  advertiseService _ n := (.ok (), n)
  serviceReady _ n := (.ok .healthy, n)

variable (fresh : ℕ → String)

theorem observePhases_leaky (probe : Option Probe) (grant : Option String)
    (l : List ReplicaState) (s : ℕ × List MeshEvent) :
    observePhases (leakyDriver fresh).logged probe grant l s =
      (l.map fun r ↦ (r.jobId, some .failed), s) := by
  induction l with
  | nil => rfl
  | cons r l ih =>
      have hphase : (leakyDriver fresh).logged.phase r.nodeId r.jobId probe grant s =
          (.ok .failed, s) := rfl
      rw [observePhases, hphase]
      simp only [ih]
      rfl

theorem observeDeps_leaky (nameSpace : String) (deps : List DependencyRef)
    (readiness : String → Option DepReadiness) (s : ℕ × List MeshEvent) (svc : String)
    (h : readiness svc = some .healthy ∨ ∃ dep ∈ deps, dep.service = svc) :
    (observeDeps (leakyDriver fresh).logged nameSpace deps readiness s).1 svc =
      some .healthy := by
  induction deps generalizing readiness with
  | nil => exact h.resolve_right (by simp)
  | cons dep deps ih =>
      refine ih _ ?_
      by_cases hsvc : svc = dep.service
      · subst hsvc
        exact Or.inl (Function.update_self _ _ _)
      · rw [Function.update_of_ne hsvc]
        refine h.imp_right ?_
        rintro ⟨dep', hmem, rfl⟩
        refine ⟨dep', (List.mem_cons.mp hmem).resolve_left fun heq ↦ hsvc (heq ▸ rfl), rfl⟩

/-- The gate is open when every dependency is healthy. -/
theorem Gate.evaluate_eq_ready {d : Deployment} {readiness : String → DepReadiness}
    (h : ∀ dep ∈ d.dependsOn, readiness dep.service = .healthy) :
    Gate.evaluate d readiness = .ready := by
  have hmet : (d.dependsOn.filter fun dep ↦ !Gate.met dep (readiness dep.service)) = [] := by
    apply List.filter_eq_nil_iff.mpr
    intro dep hdep
    rw [h dep hdep]
    cases hhealthy : dep.healthy <;> simp [Gate.met, hhealthy]
  simp only [evaluate, hmet, List.map_nil, if_pos]

theorem evaluateDeps_leaky (d : Deployment) (s : ℕ × List MeshEvent) :
    (evaluateDeps (leakyDriver fresh).logged d s).1 = .ready := by
  unfold evaluateDeps
  split_ifs
  · rfl
  · simp only
    apply Gate.evaluate_eq_ready
    intro dep hdep
    rw [observeDeps_leaky fresh d.nameSpace d.dependsOn _ s dep.service (Or.inr ⟨dep, hdep, rfl⟩)]
    rfl

theorem freeFor_largestHost (d : Deployment) :
    freeFor largestHost d = (4294967295, 4294967295) := by
  have hidle : ∀ n, saturatingMul largestHost.runningJobs.toNat n = 0 := fun n ↦ by
    rw [saturatingMul, show largestHost.runningJobs.toNat = 0 from rfl, Nat.zero_mul, Nat.zero_min]
  rw [freeFor, freeCapacity, hidle, hidle]
  rfl

/-- The host can take a replica of anything. -/
theorem rank_largestHost (d : Deployment) (now maxStaleSecs : UInt64) :
    rank [largestHost] d now.toNat maxStaleSecs.toNat = [candidateOf d largestHost] := by
  have hfresh : isFresh largestHost now.toNat maxStaleSecs.toNat = true := by
    have hnow := now.toNat_lt
    have hseen : largestHost.lastSeenSecs.toNat = 18446744073709551615 := rfl
    rw [isFresh, hseen, decide_eq_true_eq]
    exact Or.inr (by omega)
  have hfit : hostCanFit largestHost d = true := by
    have htags : hostMatchesTags largestHost d.requiredTags = true := by
      simp [hostMatchesTags, largestHost]
    have hcpu := d.resources.cpuCores.toNat_lt
    have hmem : asU32 d.resources.memMb.toNat < 2 ^ 32 := Nat.mod_lt _ (by decide)
    simp only [hostCanFit, htags, freeFor_largestHost, not_true, if_false, decide_eq_true_eq]
    omega
  simp [rank, hfresh, hfit]

/-- Replicas that have all failed leave everything to be placed. -/
theorem planStep_toPlace_failed {d : Deployment} (hd : d.replicas ≠ 0) (target : String)
    {l : List ReplicaState} (hl : ∀ r ∈ l, r.phase = .failed) :
    (planStep d l target).toPlace > 0 := by
  have hpos : 0 < d.replicas.toNat := Nat.pos_of_ne_zero fun h ↦ hd (UInt32.toNat_inj.mp h)
  have hnew : newLive target l = 0 := by
    apply List.countP_eq_zero.mpr
    intro r hr
    simp [onTarget, hl r hr]
  have hold : oldLive target l = 0 := by
    apply List.countP_eq_zero.mpr
    intro r hr
    simp [offTarget, hl r hr]
  have hlive : liveCount l = 0 := by rw [liveCount_eq_add target, hnew, hold]
  cases hs : d.strategy with
  | recreate => rw [planStep_toPlace_recreate hs, hold, hnew, if_neg (lt_irrefl 0)]; omega
  | rollingUpdate u s =>
      rw [planStep_toPlace_rolling hs, hnew, hlive]
      simp only [saturatingAdd, u32Max]
      omega

/-- The placement step of this mesh launches something if it is asked to. -/
theorem place_leaky (now maxStaleSecs : UInt64) (grant : Option String) (d : Deployment)
    (target : String) {toPlace : ℕ} (hpos : toPlace > 0)
    (t : TickState (ℕ × List MeshEvent)) :
    (place (leakyDriver fresh).logged now maxStaleSecs grant d target .ready toPlace
      t).report.placed ≠ [] := by
  obtain ⟨attempts, hattempts⟩ : ∃ attempts,
      maxAttempts toPlace [candidateOf d largestHost] = attempts + 1 := by
    refine Nat.exists_eq_succ_of_ne_zero (Nat.ne_of_gt (lt_max_of_lt_left ?_))
    simp only [saturatingMul, u32Max]
    omega
  have hatlas : (leakyDriver fresh).logged.atlas t.mesh = (.ok [largestHost], t.mesh) := rfl
  have hdeploy : (leakyDriver fresh).logged.deploy (candidateOf d largestHost).nodeId d grant
      t.mesh = (.ok (fresh t.mesh.1), t.mesh.1 + 1, t.mesh.2 ++
        [.deployed (candidateOf d largestHost).nodeId d (fresh t.mesh.1)]) := rfl
  rw [place, if_pos ⟨hpos, rfl⟩]
  simp only [hatlas, Except.toOption, Option.getD_some, rank_largestHost, hattempts, placeLoop,
    if_neg hpos.ne', hdeploy]
  -- What the first turn of the loop launched stays in the report.
  set first : PlaceState (ℕ × List MeshEvent) := PlaceState.mk _ _ _
  have hfirst : first.tick.report.placed = t.report.placed ++ [fresh t.mesh.1] := rfl
  obtain ⟨launched, hplaced, _⟩ :=
    placeLoop_placed (leakyDriver fresh).logged grant d target attempts first
  have hreport := hplaced.placed
  rw [hfirst] at hreport
  split_ifs
  · simp [hreport]
  · simp [hreport]

namespace Controller

variable [Sha256] {d : Deployment} {c : Controller}

/-- So does a tick, for a deployment that wants a replica. -/
theorem tick_leaky (hd : d.replicas ≠ 0) (hc : (jobIds c.replicas).Nodup)
    (s : ℕ × List MeshEvent) (now : UInt64) :
    (c.tick (leakyDriver fresh).logged d s now).1.placed ≠ [] := by
  have hrefreshed : ∀ r ∈ c.refreshed (leakyDriver fresh).logged d s, r.phase = .failed := by
    have hfold := foldl_record_answers (fun _ ↦ .failed) (List.nil_append c.replicas).symm hc
    simp only [refreshed, refresh, observePhases_leaky, retainFailures, hfold]
    simp
  have hpos := planStep_toPlace_failed hd d.revision hrefreshed
  have hgate : (c.planned (leakyDriver fresh).logged d s).1 = .ready :=
    evaluateDeps_leaky fresh d _
  rw [(c.tick_eq (leakyDriver fresh).logged d s now).2.1, afterPlacements, hgate]
  exact place_leaky fresh now c.maxStaleSecs c.grant d d.revision hpos _

end Controller

section Commands

variable [Sha256] (cli : Cli) (preflights : ℕ → Preflight) (clock : String → ℕ → UInt64)

/-- And a loop that has a tick at all. -/
theorem tickLoop_leaky (clock : ℕ → UInt64) {spec : Deployment} (hspec : spec.replicas ≠ 0)
    (key : String) {left : ℕ} (hleft : left ≠ 0) (tick : ℕ) {ctrl : Controller}
    (hctrl : (jobIds ctrl.replicas).Nodup) (p : CliState (ℕ × List MeshEvent)) :
    deployedJobs
      (tickLoop (leakyDriver fresh).logged clock spec key left tick ctrl p).mesh.2 ≠ [] := by
  obtain ⟨left, rfl⟩ := Nat.exists_eq_succ_of_ne_zero hleft
  obtain ⟨log, hlog, _, hplaced, _⟩ :=
    ctrl.tick_booked (leakyDriver fresh) spec p.mesh (clock tick)
  have hne : deployedJobs
      (ctrl.tick (leakyDriver fresh).logged spec p.mesh (clock tick)).2.2.2 ≠ [] := by
    rw [hlog, deployedJobs_append, ← hplaced]
    exact List.append_ne_nil_of_right_ne_nil _ (ctrl.tick_leaky fresh hspec hctrl p.mesh _)
  rw [tickLoop]
  simp only
  split_ifs
  · exact hne
  · refine fun hnil ↦ hne (List.subset_nil.mp ?_)
    rw [← hnil]
    exact (tickLoop_grown (leakyDriver fresh) clock spec key left (tick + 1) _
      { store := _
        mesh := (ctrl.tick (leakyDriver fresh).logged spec p.mesh
          (clock tick)).2.2 }).deployedJobs_subset

namespace Cli

/-- A stack apply that is cut short fails. -/
theorem applyApps_of_cutShort {σ : Type} (driver : MeshDriver σ) {i : ℕ}
    {apps before : List Deployment} (hcut : cli.cutShort preflights i apps = some before)
    (p : CliState σ) : ∃ e q, cli.applyApps driver preflights clock i apps p = (.error e, q) := by
  induction apps generalizing i p before with
  | nil => exact absurd hcut (by simp [cutShort])
  | cons spec apps ih =>
      rw [applyApps]
      cases hcheck : cli.check (preflights i) spec with
      | error e => exact ⟨e, p, by simp only [applyOne, hcheck]⟩
      | ok u =>
          simp only [cutShort, hcheck, Option.map_eq_some_iff] at hcut
          obtain ⟨before, hcut, _⟩ := hcut
          obtain ⟨_, _, _, hone⟩ := cli.applyOne_of_check driver clock hcheck p
          rw [hone]
          exact ih hcut _

/-- And if one of the apps before the failing check wants a replica, something has been
launched by then. -/
theorem applyApps_leaky {i : ℕ} {apps before : List Deployment}
    (hcut : cli.cutShort preflights i apps = some before) (hticks : cli.maxTicks ≠ 0)
    (hwant : ∃ app ∈ before, app.replicas ≠ 0) (hkeys : (apps.map Deployment.key).Nodup)
    {p : CliState (ℕ × List MeshEvent)}
    (hstored : ∀ app ∈ apps, (jobIds ((p.store.get app.key).getD {}).replicas).Nodup) :
    deployedJobs
      (cli.applyApps (leakyDriver fresh).logged preflights clock i apps p).2.mesh.2 ≠ [] := by
  induction apps generalizing i p before with
  | nil => exact absurd hcut (by simp [cutShort])
  | cons spec apps ih =>
      have hgrown := cli.applyApps_grown (leakyDriver fresh) preflights clock (i + 1) apps
      rw [applyApps]
      cases hcheck : cli.check (preflights i) spec with
      | error e =>
          simp only [cutShort, hcheck, Option.some.injEq] at hcut
          subst hcut
          exact absurd hwant (by simp)
      | ok u =>
          simp only [cutShort, hcheck, Option.map_eq_some_iff] at hcut
          obtain ⟨before, hcut, rfl⟩ := hcut
          obtain ⟨managed, _, hreplicas, hone⟩ :=
            cli.applyOne_of_check (leakyDriver fresh).logged clock hcheck p
          rw [hone]
          by_cases hspec : spec.replicas = 0
          · -- Nothing is asked for here, and the other apps are left alone.
            obtain ⟨app, happ, hne⟩ := hwant
            have hmem := (List.mem_cons.mp happ).resolve_left fun heq ↦ hne (heq ▸ hspec)
            rw [List.map_cons, List.nodup_cons] at hkeys
            apply ih hcut ⟨app, hmem, hne⟩ hkeys.2
            intro app' happ'
            have hother : app'.key ≠ spec.key := fun heq ↦
              hkeys.1 (heq ▸ List.mem_map_of_mem happ')
            rw [tickLoop_get_of_ne _ _ _ hother, Store.get_upsert_of_ne _ _ _ hother]
            exact hstored app' (List.mem_cons_of_mem _ happ')
          · have hnodup : (jobIds (managed.controller cli.grant).replicas).Nodup :=
              (congrArg jobIds hreplicas).symm ▸ hstored spec List.mem_cons_self
            have hloop := tickLoop_leaky fresh (clock spec.key) hspec spec.key
              (fun h ↦ hticks (UInt32.toNat_inj.mp h)) 0 hnodup
              { p with store := p.store.upsert spec cli.grant }
            exact fun hnil ↦ hloop (List.subset_nil.mp (hnil ▸ (hgrown _).deployedJobs_subset))

end Cli

end Commands

/-! ## The apps of a stack -/

namespace Cli

/-- Every app stands under its own key. -/
def Keyed (m : String → Option Deployment) : Prop :=
  ∀ key app, m key = some app → app.key = key

section Keyed

variable {m : String → Option Deployment} {app : Deployment}

theorem Keyed.insert (hm : Keyed m) (app : Deployment) :
    Keyed (Function.update m app.key (some app)) := by
  intro key app' h
  by_cases hkey : key = app.key
  · rw [hkey, Function.update_self] at h
    rw [hkey, ← Option.some.inj h]
  · exact hm key app' (by rwa [Function.update_of_ne hkey] at h)

theorem ne_of_update_none {key key' : String} (h : Function.update m key none key' = some app) :
    key' ≠ key := by
  rintro rfl
  rw [Function.update_self] at h
  exact absurd h (by simp)

theorem Keyed.remove (hm : Keyed m) (key : String) : Keyed (Function.update m key none) := by
  intro key' app h
  rw [Function.update_of_ne (ne_of_update_none h)] at h
  exact hm key' app h

theorem keyed_byKey (apps : List Deployment) : Keyed (byKey apps) := by
  have hfold : ∀ m, Keyed m →
      Keyed (apps.foldl (fun m app ↦ Function.update m app.key (some app)) m) := by
    induction apps with
    | nil => exact fun m hm ↦ hm
    | cons app apps ih => exact fun m hm ↦ ih _ (hm.insert app)
  exact hfold _ fun _ _ h ↦ absurd h (by simp)

theorem mem_takeInOrder {order : List String} (hm : Keyed m) (h : app ∈ takeInOrder order m) :
    m app.key = some app := by
  induction order generalizing m with
  | nil => exact absurd h List.not_mem_nil
  | cons key order ih =>
      rw [takeInOrder] at h
      split at h
      · exact ih hm h
      · rename_i spec hspec
        rcases List.mem_cons.mp h with rfl | h
        · rw [hm key app hspec, hspec]
        · have hrest := ih (hm.remove key) h
          rwa [Function.update_of_ne (ne_of_update_none hrest)] at hrest

/-- No two apps that are taken share a key. -/
theorem nodup_takeInOrder (order : List String) (hm : Keyed m) :
    ((takeInOrder order m).map Deployment.key).Nodup := by
  induction order generalizing m with
  | nil => exact List.nodup_nil
  | cons key order ih =>
      rw [takeInOrder]
      split
      · exact ih hm
      · rename_i spec hspec
        refine List.nodup_cons.mpr ⟨fun hmem ↦ ?_, ih (hm.remove key)⟩
        obtain ⟨app, happ, heq⟩ := List.mem_map.mp hmem
        have hne := ne_of_update_none (mem_takeInOrder (hm.remove key) happ)
        exact hne (heq.trans (hm key spec hspec))

end Keyed

theorem nodup_loadStack {cli : Cli} {parsed : Except String Stack} {apps : List Deployment}
    (h : cli.loadStack parsed = .ok apps) : (apps.map Deployment.key).Nodup := by
  have hnodup : ∀ order apps, ((takeInOrder order (byKey apps)).map Deployment.key).Nodup :=
    fun order apps ↦ nodup_takeInOrder order (keyed_byKey apps)
  obtain ⟨stack, _, h⟩ := bind_eq_ok.mp h
  split_ifs at h
  · obtain ⟨_, _, h⟩ := bind_eq_ok.mp h
    obtain ⟨order, _, h⟩ := bind_eq_ok.mp h
    rw [← Except.ok.inj h]
    exact hnodup order _
  · obtain ⟨order, _, h⟩ := bind_eq_ok.mp h
    rw [← Except.ok.inj h]
    exact hnodup order _

end Cli

/-! ## The state file -/

/-- No deployment of the file tracks a job twice. -/
def StoredOnce (file : Store) : Prop :=
  ∀ key managed, file.get key = some managed → (jobIds managed.replicas).Nodup

/-- A migration keeps the handles of every entry. -/
theorem Store.get_migrate {file : Store} {key : String} {managed : ManagedDeployment}
    (h : file.migrate.get key = some managed) :
    ∃ key' managed', file.get key' = some managed' ∧ managed'.replicas = managed.replicas := by
  by_cases hversion : file.version = 0
  · rw [migrate_of_old hversion] at h
    obtain ⟨e, he, heq⟩ := List.mem_map.mp (Lib.SortedMap.mem_of_get_ofList h)
    obtain ⟨-, rfl⟩ := Prod.mk.inj heq
    exact ⟨e.1, e.2, Lib.SortedMap.get_eq_some_iff.mpr he, rfl⟩
  · rw [migrate_of_not_old hversion] at h
    exact ⟨key, managed, h, rfl⟩

theorem StoredOnce.migrate {file : Store} (h : StoredOnce file) : StoredOnce file.migrate := by
  intro key managed hget
  obtain ⟨key', managed', hget', hreplicas⟩ := Store.get_migrate hget
  rw [← hreplicas]
  exact h key' managed' hget'

/-- There are ids enough that the file does not use. -/
theorem Store.exists_fresh (file : Store) :
    ∃ fresh : ℕ → String, fresh.Injective ∧
      ∀ n key managed, file.get key = some managed → fresh n ∉ jobIds managed.replicas := by
  let used := file.deployments.entries.flatMap fun e ↦ jobIds e.2.replicas
  have hfinite : {job | job ∈ used}.Finite := List.finite_toSet used
  let fresh := hfinite.infinite_compl.natEmbedding
  refine ⟨fun n ↦ fresh n, ?_, ?_⟩
  · intro m n h
    exact fresh.injective (Subtype.ext h)
  · intro n key managed hget hmem
    have hentry := Lib.SortedMap.get_eq_some_iff.mp hget
    exact (fresh n).2 (List.mem_flatMap.mpr ⟨_, hentry, hmem⟩)

/-- A store that tracks a job has an entry. -/
theorem Recorded.names_ne_nil {store : Store} {log : List MeshEvent} (h : Recorded store log)
    {job : String} (hdeployed : deployedJobs log = [job]) (hkilled : killedJobs log = []) :
    store.names ≠ [] := by
  obtain ⟨key, managed, hget, _⟩ := h job (by simp [hdeployed]) (by simp [hkilled])
  have hkey : key ∈ store.names :=
    Lib.SortedMap.isSome_get_iff.mp (Option.isSome_iff_exists.mpr ⟨managed, hget⟩)
  exact List.ne_nil_of_mem hkey

namespace Cli

variable [Sha256] (cli : Cli) (preflights : ℕ → Preflight) (cmd : Cmd) (file : Store)

/-- Whatever the mesh and the clock do: when the command ends, the jobs it has launched and
not stopped are in the state file. -/
def PaidRecorded : Prop :=
  ∀ (σ : Type) (driver : MeshDriver σ) (clock : String → ℕ → UInt64) (mesh : σ),
    Recorded (cli.main driver.logged preflights clock cmd file (mesh, [])).2.store
      (cli.main driver.logged preflights clock cmd file (mesh, [])).2.mesh.2

theorem paid_recorded (hprone : ¬ cli.LeakProne preflights cmd) :
    cli.PaidRecorded preflights cmd file := by
  intro σ driver clock mesh
  have hrecorded := cli.exec_recorded driver preflights clock cmd
    (p := { store := file.migrate, mesh := (mesh, []) }) rfl
  unfold main
  split
  · rename_i e p hexec
    refine Recorded.of_deployedJobs_eq_nil ?_
    exact cli.exec_error driver preflights clock hexec hprone
  · rename_i p hexec
    rw [hexec] at hrecorded
    exact hrecorded

variable {cli preflights cmd file}

/-- On the mesh that takes everything a command prone to leak has launched something by the
time it fails, and stopped nothing. -/
theorem LeakProne.exec_leaky (hprone : cli.LeakProne preflights cmd) (honce : StoredOnce file) :
    ∃ e q, cli.exec (leakyDriver fresh).logged preflights (fun _ _ ↦ 0) cmd
        { store := file.migrate, mesh := (0, []) } = (.error e, q) ∧
      deployedJobs q.mesh.2 ≠ [] ∧ ∀ e ∈ q.mesh.2, (leakyDriver fresh).Answers e := by
  obtain ⟨parsed, apps, before, rfl, hload, hcut, hticks, hwant⟩ := hprone
  let p : CliState (ℕ × List MeshEvent) := { store := file.migrate, mesh := (0, []) }
  obtain ⟨e, q, hend⟩ := cli.applyApps_of_cutShort preflights (fun _ _ ↦ 0)
    (leakyDriver fresh).logged hcut p
  have hlaunched := cli.applyApps_leaky fresh preflights (fun _ _ ↦ 0) hcut hticks hwant
    (nodup_loadStack hload) (p := p) fun app _ ↦ by
      cases hget : p.store.get app.key with
      | none => exact List.nodup_nil
      | some managed => exact honce.migrate app.key managed hget
  obtain ⟨log, hlog, hanswers⟩ :=
    cli.applyApps_grown (leakyDriver fresh) preflights (fun _ _ ↦ 0) 0 apps p
  rw [hend] at hlaunched hlog
  refine ⟨e, q, ?_, hlaunched, hlog.trans (List.nil_append log) ▸ hanswers⟩
  simp only [exec, apply, applyStack, hload]
  exact hend

/-- And none of it is in the state file. -/
theorem LeakProne.not_paid_recorded (hprone : cli.LeakProne preflights cmd)
    (honce : StoredOnce file) : ¬ cli.PaidRecorded preflights cmd file := by
  intro hpaid
  obtain ⟨fresh, _, hfresh⟩ := file.exists_fresh
  obtain ⟨e, q, hexec, hlaunched, hanswers⟩ := hprone.exec_leaky fresh honce
  have hrecorded := hpaid ℕ (leakyDriver fresh) (fun _ _ ↦ 0) 0
  rw [cli.main_of_error _ preflights _ hexec] at hrecorded
  obtain ⟨job, hjob⟩ := List.exists_mem_of_ne_nil _ hlaunched
  have hlive : job ∉ killedJobs q.mesh.2 := fun hmem ↦ by
    obtain ⟨nodeId, hkilled⟩ := mem_killedJobs.mp hmem
    obtain ⟨_, _, hok⟩ := hanswers _ hkilled
    exact absurd hok (by simp [leakyDriver])
  obtain ⟨key, managed, hget, htracked⟩ := hrecorded job hjob hlive
  obtain ⟨nodeId, d, hdeployed⟩ := mem_deployedJobs.mp hjob
  obtain ⟨_, n, hn⟩ := hanswers _ hdeployed
  obtain rfl : fresh n = job := Except.ok.inj hn
  exact hfresh n key managed hget htracked

variable (cli preflights cmd file)

/-- **No paid replica is leaked**, unless the apply of a stack is cut short by a check after
an app that wants a replica has had a tick.  Then a replica is leaked on some mesh, provided
the file does not track a job twice. -/
theorem paid_recorded_iff :
    (¬ cli.LeakProne preflights cmd → cli.PaidRecorded preflights cmd file) ∧
      (StoredOnce file →
        (cli.PaidRecorded preflights cmd file ↔ ¬ cli.LeakProne preflights cmd)) := by
  refine ⟨cli.paid_recorded preflights cmd file, ?_⟩
  intro honce
  constructor
  · intro hpaid hprone
    exact hprone.not_paid_recorded honce hpaid
  · exact cli.paid_recorded preflights cmd file

end Cli

section Example

/-- SHA-256 on the template of `nginx` with a bid of five units. -/
abbrev bidSha256 : Sha256 where
  digest bytes :=
    if bytes = Deployment.revisionBytes { image := "nginx", bid := ⟨5⟩ } then
      [148, 200, 249, 125, 239, 133, 239, 107, 232, 149, 252, 60, 196, 50, 68, 97,
        122, 21, 216, 153, 47, 13, 77, 188, 40, 48, 253, 12, 19, 5, 152, 163]
    else []

/-- An app that wants one replica for five units. -/
def paidApp (name : String) : Deployment :=
  { name, nameSpace := "default", image := "nginx", bid := ⟨5⟩, replicas := 1 }

/-- Two such apps in a stack. -/
def twoApps : Cmd := .apply (.ok (.stack (.ok { apps := [paidApp "a", paidApp "b"] })))

/-- The answers of a node that has so much to spend at each preflight. -/
def spendable (free : List ℕ) (i : ℕ) : Preflight where
  status := some ⟨"", ⟨8⟩, some ⟨.ofNat 128 (free.getD i 0)⟩⟩
  authorizes _ _ := none
  credits amount := toString amount.base.toInt

/-- Eight units pay for the first app only: the command fails, and the state file knows
nothing of the replica it has paid for. -/
theorem paid_lost :
    let out := @Cli.main _ bidSha256 {} scriptedDriver.logged (spendable [8, 3]) (fun _ _ ↦ 0)
      twoApps {} (["x"], [])
    out.1 = .error ("insufficient balance: 1 replica(s) x 5 credits = 5 needed, " ++
        "but only 3 spendable") ∧
      deployedJobs out.2.mesh.2 = ["x"] ∧ killedJobs out.2.mesh.2 = [] ∧
      out.2.store.names = [] ∧ ¬ @Cli.PaidRecorded bidSha256 {} (spendable [8, 3]) twoApps {} := by
  intro out
  obtain ⟨hres, hdeployed, hkilled, hnames⟩ : out.1 = .error
      ("insufficient balance: 1 replica(s) x 5 credits = 5 needed, but only 3 spendable") ∧
        deployedJobs out.2.mesh.2 = ["x"] ∧ killedJobs out.2.mesh.2 = [] ∧
          out.2.store.names = [] := by
    decide +kernel
  refine ⟨hres, hdeployed, hkilled, hnames, ?_⟩
  intro hpaid
  have hrecorded := hpaid _ scriptedDriver (fun _ _ ↦ 0) ["x"]
  exact hrecorded.names_ne_nil hdeployed hkilled hnames

/-- With enough for both nothing is lost. -/
theorem paid_recorded_enough :
    @Cli.PaidRecorded bidSha256 {} (spendable [8, 8]) twoApps {} ∧
      ¬ @Cli.PaidRecorded bidSha256 {} (spendable [8, 3]) twoApps {} := by
  have hload : Cli.loadStack {} (.ok { apps := [paidApp "a", paidApp "b"] }) =
      .ok [paidApp "a", paidApp "b"] := by decide +kernel
  have honce : StoredOnce {} := fun key managed h ↦
    absurd h (by simp [Store.get, Lib.SortedMap.get, Lib.SortedMap.empty])
  constructor
  · refine (@Cli.paid_recorded_iff bidSha256 {} (spendable [8, 8]) twoApps {}).1 ?_
    rintro ⟨parsed, apps, before, hcmd, hload', hcut, _⟩
    obtain rfl : Except.ok { apps := [paidApp "a", paidApp "b"] } = parsed := by
      simpa [twoApps] using hcmd
    obtain rfl : [paidApp "a", paidApp "b"] = apps := Except.ok.inj (hload.symm.trans hload')
    have hnone : Cli.cutShort {} (spendable [8, 8]) 0 [paidApp "a", paidApp "b"] = none := by
      decide +kernel
    exact absurd (hnone.symm.trans hcut) (by simp)
  · refine mt ((@Cli.paid_recorded_iff bidSha256 {} (spendable [8, 3]) twoApps {}).2 honce).mp ?_
    refine not_not.mpr ⟨_, _, [paidApp "a"], rfl, hload, ?_, ?_, _, List.mem_singleton_self _, ?_⟩
    all_goals decide +kernel

end Example

end CeGke
