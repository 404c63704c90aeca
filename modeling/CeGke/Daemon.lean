import CeGke.Controller.Misses
import CeGke.State

/-!
# The daemon

`reconcile_pass` of `src/daemon.rs`: one tick for every managed deployment, each with a
controller rebuilt from the store.  What the store does not keep of a controller are
its counters of consecutive misses, so the daemon is a controller kept alive only as
long as no replica is missed three times in a row (`daemon_refines_controller`).
-/

namespace CeGke

open Lib

variable {σ : Type}

/-- The keys a pass reconciles: of one namespace, or all. -/
def Store.scope (store : Store) : Option String → List String
  | some nameSpace => store.namesIn nameSpace
  | none => store.names

/-- What the loop of a pass works on. -/
structure Pass (σ : Type) where
  store : Store
  mesh : σ
  unconverged : ℕ := 0

/-- The controller a pass builds for a managed deployment. -/
def ManagedDeployment.controller (managed : ManagedDeployment) (fallbackGrant : Option String) :
    Controller :=
  { Controller.new (managed.grant.or fallbackGrant) with replicas := managed.replicas }

section Pass

variable [Sha256] (driver : MeshDriver σ) (clock : String → UInt64)
  (fallbackGrant : Option String)

/-- One turn of the loop in `reconcile_pass`; the clock is read at the turn of the key. -/
def reconcileKey (p : Pass σ) (key : String) : Pass σ :=
  match p.store.get key with
  | none => p
  | some managed =>
      let (report, ctrl, mesh) :=
        (managed.controller fallbackGrant).tick driver managed.spec p.mesh (clock key)
      { store := p.store.setReplicas key ctrl.replicas
        mesh
        unconverged := if report.done then p.unconverged else p.unconverged + 1 }

/-- `reconcile_pass`. -/
def reconcilePass (nameSpace : Option String) (store : Store) (mesh : σ) : Pass σ :=
  (store.scope nameSpace).foldl (reconcileKey driver clock fallbackGrant) { store, mesh }

/-- The pass as it stands when the turn of `key` comes. -/
def passTurn (nameSpace : Option String) (store : Store) (mesh : σ) (key : String) : Pass σ :=
  ((store.scope nameSpace).takeWhile (· ≠ key)).foldl (reconcileKey driver clock fallbackGrant)
    { store, mesh }

/-! ## One pass -/

theorem reconcileKey_get_of_ne (p : Pass σ) {key key' : String} (h : key' ≠ key) :
    (reconcileKey driver clock fallbackGrant p key).store.get key' = p.store.get key' := by
  unfold reconcileKey
  split
  · rfl
  · exact p.store.get_setReplicas_of_ne h _

theorem foldl_reconcileKey_get (keys : List String) (p : Pass σ) {key : String}
    (h : key ∉ keys) :
    (keys.foldl (reconcileKey driver clock fallbackGrant) p).store.get key =
      p.store.get key := by
  induction keys generalizing p with
  | nil => rfl
  | cons k keys ih =>
      rw [List.mem_cons, not_or] at h
      rw [List.foldl_cons, ih _ h.2, reconcileKey_get_of_ne _ _ _ _ h.1]

end Pass

theorem Store.mem_scope {store : Store} {nameSpace : Option String} {key : String}
    {managed : ManagedDeployment} (hget : store.get key = some managed) :
    key ∈ store.scope nameSpace ↔ ∀ ns ∈ nameSpace, managed.spec.nameSpace = ns := by
  have hmem := SortedMap.get_eq_some_iff.mp hget
  cases nameSpace with
  | none =>
      simp only [scope, names, SortedMap.keys, Option.not_mem_none, false_imp_iff, implies_true,
        iff_true]
      exact List.mem_map_of_mem hmem
  | some ns =>
      simp only [scope, namesIn, Option.mem_def, Option.some.injEq, forall_eq']
      constructor
      · intro h
        obtain ⟨⟨k, m⟩, he, rfl⟩ := List.mem_map.mp h
        obtain ⟨he, hns⟩ := List.mem_filter.mp he
        rw [Store.get, SortedMap.get_eq_some_iff.mpr he, Option.some.injEq] at hget
        rw [← hget]
        exact of_decide_eq_true hns
      · intro h
        exact List.mem_map.mpr ⟨(key, managed), List.mem_filter.mpr ⟨hmem, decide_eq_true h⟩, rfl⟩

theorem Store.nodup_scope (store : Store) (nameSpace : Option String) :
    (store.scope nameSpace).Nodup := by
  cases nameSpace with
  | none => exact store.deployments.nodup_keys
  | some ns =>
      exact store.deployments.nodup_keys.sublist (List.filter_sublist.map _)

/-- A pass gives the deployment in scope one tick, at its turn, and touches nothing of
it but its handles. -/
theorem reconcilePass_get [Sha256] (driver : MeshDriver σ) (clock : String → UInt64)
    (fallbackGrant nameSpace : Option String) {store : Store} (mesh : σ) {key : String}
    {managed : ManagedDeployment} (hget : store.get key = some managed)
    (hscope : key ∈ store.scope nameSpace) :
    (reconcilePass driver clock fallbackGrant nameSpace store mesh).store.get key =
      some { managed with
        replicas := ((managed.controller fallbackGrant).tick driver managed.spec
          (passTurn driver clock fallbackGrant nameSpace store mesh key).mesh
          (clock key)).2.1.replicas } := by
  set turn := passTurn driver clock fallbackGrant nameSpace store mesh key with hturn
  obtain ⟨before, after, hkeys⟩ := List.append_of_mem hscope
  have hnodup := store.nodup_scope nameSpace
  rw [hkeys, List.nodup_middle] at hnodup
  have hnotMem := (List.nodup_cons.mp hnodup).1
  rw [List.mem_append, not_or] at hnotMem
  rw [passTurn, hkeys, takeWhile_ne_append hnotMem.1] at hturn
  have hget' : turn.store.get key = some managed := by
    rw [hturn, foldl_reconcileKey_get _ _ _ _ _ hnotMem.1]
    exact hget
  rw [reconcilePass, hkeys, List.foldl_append, List.foldl_cons]
  rw [foldl_reconcileKey_get _ _ _ _ _ hnotMem.2]
  rw [← hturn, reconcileKey]
  rw [hget']
  simp only [Store.get_setReplicas_self, hget', Option.map_some]

/-! ## Many passes -/

/-- A daemon and its world: the store it starts from, the state the driver is in when
each pass begins, and what the clock shows at each turn. -/
structure DaemonRun (σ : Type) where
  driver : MeshDriver σ
  nameSpace : Option String
  fallbackGrant : Option String
  store : Store
  mesh : ℕ → σ
  clock : ℕ → String → UInt64

namespace DaemonRun

variable [Sha256] (run : DaemonRun σ) (key : String) (managed : ManagedDeployment)

/-- The store after so many passes. -/
def after : ℕ → Store
  | 0 => run.store
  | n + 1 =>
      (reconcilePass run.driver (run.clock n) run.fallbackGrant run.nameSpace (after n)
        (run.mesh n)).store

/-- The state the driver is in at the turn of `key` in a pass. -/
def turnMesh (n : ℕ) : σ :=
  (passTurn run.driver (run.clock n) run.fallbackGrant run.nameSpace (run.after n) (run.mesh n)
    key).mesh

/-- One controller kept alive, ticked where the daemon ticks a new one. -/
def keptAlive : ℕ → Controller
  | 0 => managed.controller run.fallbackGrant
  | n + 1 =>
      ((keptAlive n).tick run.driver managed.spec (run.turnMesh key n) (run.clock n key)).2.1

/-- The replicas the daemon tracks after so many passes. -/
def tracked (n : ℕ) : List ReplicaState := (((run.after n).get key).getD {}).replicas

/-- What the daemon is answered when it refreshes the deployment in a pass. -/
def answers (n : ℕ) : List (String × Option Phase) :=
  (observePhases run.driver managed.spec.liveness (managed.grant.or run.fallbackGrant)
    (run.tracked key n) (run.turnMesh key n)).1

/-- All it was answered before a pass. -/
def answersBefore : ℕ → List (String × Option Phase)
  | 0 => []
  | n + 1 => answersBefore n ++ run.answers key managed n

/-- The pass misses no replica for the third time in a row that has not failed already:
a job is not missed now, or was not missed last time, or not often enough, or all that
is tracked of it has failed. -/
def NoThirdMiss (n : ℕ) : Prop :=
  ∀ job, missesIn job (run.answers key managed n) = 0 ∨
    streak job (run.answersBefore key managed n) = 0 ∨
    streak job (run.answersBefore key managed n) + missesIn job (run.answers key managed n) < 3 ∨
    ((∀ r ∈ run.tracked key n, r.jobId = job → r.phase = .failed) ∧
      ∀ u ∈ run.answers key managed n, u.1 = job → u.2 = none)

/-- What holds between the daemon and the controller kept alive. -/
structure Simulates (n : ℕ) : Prop where
  get : (run.after n).get key =
    some { managed with replicas := (run.keptAlive key managed n).replicas }
  settings : (run.keptAlive key managed n).settings =
    (managed.controller run.fallbackGrant).settings
  misses : ∀ job, ((run.keptAlive key managed n).misses job).toNat ≤
    streak job (run.answersBefore key managed n)

variable {run key managed}

theorem Simulates.zero (hget : run.store.get key = some managed) :
    run.Simulates key managed 0 :=
  ⟨hget, rfl, fun _ ↦ Nat.zero_le _⟩

theorem Simulates.tracked_eq {n : ℕ} (h : run.Simulates key managed n) :
    run.tracked key n = (run.keptAlive key managed n).replicas := by
  rw [tracked, h.get, Option.getD_some]

theorem Simulates.answers_eq {n : ℕ} (h : run.Simulates key managed n) :
    run.answers key managed n = (observePhases run.driver managed.spec.liveness
      (run.keptAlive key managed n).grant (run.keptAlive key managed n).replicas
      (run.turnMesh key n)).1 := by
  have hgrant : (run.keptAlive key managed n).grant = managed.grant.or run.fallbackGrant :=
    congrArg Prod.fst h.settings
  rw [answers, h.tracked_eq, hgrant]

/-- A pass that misses no replica for the third time keeps the two together. -/
theorem Simulates.succ {n : ℕ} (h : run.Simulates key managed n)
    (hscope : ∀ ns ∈ run.nameSpace, managed.spec.nameSpace = ns)
    (hmiss : run.NoThirdMiss key managed n) : run.Simulates key managed (n + 1) := by
  -- The controller of the pass has the same replicas and settings, and no misses yet.
  let c := run.keptAlive key managed n
  let c' := { managed with replicas := c.replicas }.controller run.fallbackGrant
  have hgrant : c.grant = c'.grant := congrArg Prod.fst h.settings
  have hstale : c.maxStaleSecs = c'.maxStaleSecs := congrArg (fun x ↦ x.2.1) h.settings
  have hthreshold : c.failureThreshold = defaultFailureThreshold :=
    congrArg (fun x ↦ x.2.2) h.settings
  have haligned : Controller.Aligned c c' (run.answers key managed n) := by
    refine ⟨rfl, hthreshold, rfl, ?_⟩
    intro job
    have hzero : (c'.misses job).toNat = 0 := rfl
    rcases hmiss job with hnone | hstreak | hfew | hfailed
    · exact Or.inr (Or.inl hnone)
    · refine Or.inl (UInt32.toNat_inj.mp ?_)
      rw [hzero]
      exact Nat.le_zero.mp (hstreak ▸ h.misses job)
    · have hle : (c.misses job).toNat ≤ streak job (run.answersBefore key managed n) :=
        h.misses job
      exact Or.inr (Or.inr (Or.inl ⟨by omega, by omega⟩))
    · rw [h.tracked_eq] at hfailed
      exact Or.inr (Or.inr (Or.inr hfailed))
  rw [h.answers_eq] at haligned
  have htick := haligned.tick hgrant hstale (run.clock n key)
  have hpass := reconcilePass_get run.driver (run.clock n) run.fallbackGrant run.nameSpace
    (run.mesh n) h.get ((Store.mem_scope h.get).mpr hscope)
  refine ⟨?_, (Controller.settings_refresh _ _ _ _).trans h.settings, ?_⟩
  · rw [after, hpass, keptAlive, htick]
    rfl
  · intro job
    rw [answersBefore, h.answers_eq]
    exact Controller.misses_refresh_le h.misses job

/-- **The daemon refines a controller kept alive** in every run that misses no replica
for the third time in a row: after any number of passes it tracks the same replicas of
the deployment, with the same hosts, revisions and phases. -/
theorem daemon_refines_controller {run : DaemonRun σ} {key : String}
    {managed : ManagedDeployment} (hget : run.store.get key = some managed)
    (hscope : key ∈ run.store.scope run.nameSpace) {n : ℕ}
    (hmiss : ∀ i < n, run.NoThirdMiss key managed i) :
    ∀ i ≤ n, run.tracked key i = (run.keptAlive key managed i).replicas := by
  have hns := (Store.mem_scope hget).mp hscope
  have hsim : ∀ i ≤ n, run.Simulates key managed i := by
    intro i
    induction i with
    | zero => exact fun _ ↦ Simulates.zero hget
    | succ i ih => exact fun hi ↦ (ih (Nat.le_of_succ_le hi)).succ hns (hmiss i hi)
  exact fun i hi ↦ (hsim i hi).tracked_eq

end DaemonRun

section Example

/-- One running replica of a deployment that wants one. -/
def managedWeb : ManagedDeployment where
  spec := { name := "web", nameSpace := "default", image := "nginx", replicas := 1 }
  replicas := [⟨"a", "n", "9154645cdccb2449", .running⟩]

/-- A daemon on a mesh that answers for no replica and kills what it is told to. -/
def silentRun : DaemonRun Unit where
  driver := stuckDriver []
  nameSpace := none
  fallbackGrant := none
  store := { deployments := SortedMap.empty.insert "default/web" managedWeb }
  mesh _ := ()
  clock _ _ := 0

/-- Three misses in a row: the controller kept alive reaps the replica, the daemon goes on
taking it for running. -/
theorem silentRun_diverges :
    silentRun.store.get "default/web" = some managedWeb ∧
      "default/web" ∈ silentRun.store.scope none ∧
      (∀ i < 3, @DaemonRun.answers Unit Deployment.nginxSha256 silentRun "default/web"
        managedWeb i = [("a", none)]) ∧
      @DaemonRun.tracked Unit Deployment.nginxSha256 silentRun "default/web" 3 =
        managedWeb.replicas ∧
      (@DaemonRun.keptAlive Unit Deployment.nginxSha256 silentRun "default/web" managedWeb
        3).replicas = [] := by
  decide +kernel

/-- Up to the second miss they agree. -/
theorem silentRun_agrees :
    @DaemonRun.tracked Unit Deployment.nginxSha256 silentRun "default/web" 2 =
      (@DaemonRun.keptAlive Unit Deployment.nginxSha256 silentRun "default/web" managedWeb
        2).replicas := by
  refine @DaemonRun.daemon_refines_controller Unit Deployment.nginxSha256 silentRun "default/web"
    managedWeb (by decide +kernel) (by decide +kernel) 2 ?_ 2 le_rfl
  intro i hi job
  match i, hi with
  | 0, _ => exact Or.inr (Or.inl rfl)
  | 1, _ =>
      have hanswers : @DaemonRun.answers Unit Deployment.nginxSha256 silentRun "default/web"
          managedWeb 1 = [("a", none)] := by decide +kernel
      have hbefore : @DaemonRun.answersBefore Unit Deployment.nginxSha256 silentRun "default/web"
          managedWeb 1 = [("a", none)] := by decide +kernel
      rw [hanswers, hbefore]
      by_cases hjob : "a" = job
      · subst hjob
        decide
      · exact Or.inl (by simp [missesIn, hjob])

end Example

end CeGke
