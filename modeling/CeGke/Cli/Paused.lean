import CeGke.Cli
import CeGke.Controller.Held
import CeGke.Controller.Recreate

/-!
# Paused rollouts

The pause flag is stored and listed, and nothing else reads it: the branch of
`reconcile_pass` that tests it is empty.  So a paused deployment is ticked like any other, and
stays as it is only if there is nothing left to roll (`paused_iff`).
-/

namespace CeGke

open Lib

section Ticks

variable {σ : Type} [Sha256]

/-! ## The ticks of a deployment -/

namespace DaemonRun

variable (run : DaemonRun σ) (key : String) (managed : ManagedDeployment)

/-- The controller that a pass builds for the deployment. -/
def controllerAt (n : ℕ) : Controller :=
  { managed with replicas := run.tracked key n }.controller run.fallbackGrant

variable {run key managed}

/-- Passes change nothing of an entry but its handles. -/
theorem get_after (hget : run.store.get key = some managed)
    (hscope : ∀ ns ∈ run.nameSpace, managed.spec.nameSpace = ns) (n : ℕ) :
    (run.after n).get key = some { managed with replicas := run.tracked key n } := by
  induction n with
  | zero =>
      rw [tracked]
      simp only [after, hget, Option.getD_some]
  | succ n ih =>
      have hpass := reconcilePass_get run.driver (run.clock n) run.fallbackGrant run.nameSpace
        (run.mesh n) ih ((Store.mem_scope ih).mpr hscope)
      rw [tracked]
      simp only [after, hpass, Option.getD_some]

/-- A pass leaves of the deployment what its tick leaves. -/
theorem tracked_succ (hget : run.store.get key = some managed)
    (hscope : ∀ ns ∈ run.nameSpace, managed.spec.nameSpace = ns) (n : ℕ) :
    run.tracked key (n + 1) = ((run.controllerAt key managed n).tick run.driver managed.spec
      (run.turnMesh key n) (run.clock n key)).2.1.replicas := by
  have hafter := get_after hget hscope n
  have hpass := reconcilePass_get run.driver (run.clock n) run.fallbackGrant run.nameSpace
    (run.mesh n) hafter ((Store.mem_scope hafter).mpr hscope)
  rw [tracked, after, hpass, Option.getD_some]
  rfl

end DaemonRun

namespace Controller

variable (driver : MeshDriver σ) (d : Deployment) (clock : ℕ → UInt64) (c : Controller) (s : σ)

/-- The verdict of the `i`-th tick of a run. -/
def doneAt (i : ℕ) : Bool :=
  ((after driver d clock c s i).1.tick driver d (after driver d clock c s i).2 (clock i)).1.done

/-- A loop of so many ticks that ends at the first one that is done comes to its tick `n`. -/
def ReachesTick (left n : ℕ) : Prop := n < left ∧ ∀ i < n, doneAt driver d clock c s i = false

variable {driver d}

/-- The first tick of a run may be made before the run. -/
theorem after_succ_tick (n : ℕ) :
    after driver d clock c s (n + 1) =
      after driver d (fun i ↦ clock (i + 1)) (c.tick driver d s (clock 0)).2.1
        (c.tick driver d s (clock 0)).2.2 n := by
  induction n with
  | zero => rfl
  | succ n ih => rw [after, ih, after]

theorem doneAt_succ (n : ℕ) :
    doneAt driver d clock c s (n + 1) =
      doneAt driver d (fun i ↦ clock (i + 1)) (c.tick driver d s (clock 0)).2.1
        (c.tick driver d s (clock 0)).2.2 n := by
  rw [doneAt, after_succ_tick, doneAt]

theorem reachesTick_succ (left n : ℕ) :
    ReachesTick driver d clock c s (left + 1) (n + 1) ↔
      (c.tick driver d s (clock 0)).1.done = false ∧
        ReachesTick driver d (fun i ↦ clock (i + 1)) (c.tick driver d s (clock 0)).2.1
          (c.tick driver d s (clock 0)).2.2 left n := by
  rw [ReachesTick, ReachesTick, Nat.add_lt_add_iff_right, and_left_comm]
  refine and_congr_right fun _ ↦ ?_
  constructor
  · intro h
    exact ⟨h 0 n.succ_pos, fun i hi ↦ doneAt_succ clock c s i ▸ h (i + 1) (Nat.succ_lt_succ hi)⟩
  · rintro ⟨h0, h⟩ i hi
    cases i with
    | zero => exact h0
    | succ i =>
        rw [doneAt_succ]
        exact h i (Nat.lt_of_succ_lt_succ hi)

end Controller

/-- The loop of `reconcile_to_convergence` is a run of ticks: it leaves the mesh as it is after
the last tick that it comes to. -/
theorem tickLoop_mesh (driver : MeshDriver σ) (spec : Deployment) (key : String) (left tick : ℕ)
    (clock : ℕ → UInt64) (ctrl : Controller) (p : CliState σ) :
    ∃ n ≤ left, (∀ i < n, ctrl.ReachesTick driver spec (fun i ↦ clock (tick + i)) p.mesh left i) ∧
      (n < left → ¬ ctrl.ReachesTick driver spec (fun i ↦ clock (tick + i)) p.mesh left n) ∧
      (tickLoop driver clock spec key left tick ctrl p).mesh =
        (ctrl.after driver spec (fun i ↦ clock (tick + i)) p.mesh n).2 := by
  induction left generalizing tick ctrl p with
  | zero => exact ⟨0, le_rfl, by simp, by simp, rfl⟩
  | succ left ih =>
      have hclock : (fun i ↦ clock (tick + (i + 1))) = fun i ↦ clock (tick + 1 + i) := by
        funext i
        rw [Nat.add_assoc, Nat.add_comm 1]
      have hzero : ctrl.ReachesTick driver spec (fun i ↦ clock (tick + i)) p.mesh (left + 1) 0 :=
        ⟨left.succ_pos, fun i hi ↦ absurd hi i.not_lt_zero⟩
      rw [tickLoop]
      simp only
      split_ifs with hdone
      · refine ⟨1, left.succ_pos, fun i hi ↦ Nat.lt_one_iff.mp hi ▸ hzero, fun _ h ↦ ?_, rfl⟩
        have hnot : (ctrl.tick driver spec p.mesh (clock tick)).1.done = false :=
          h.2 0 Nat.zero_lt_one
        exact absurd (hdone.symm.trans hnot) (by decide)
      · obtain ⟨n, hn, hbefore, hafter, hmesh⟩ := ih (tick + 1)
          (ctrl.tick driver spec p.mesh (clock tick)).2.1
          { store :=
              p.store.setReplicas key (ctrl.tick driver spec p.mesh (clock tick)).2.1.replicas
            mesh := (ctrl.tick driver spec p.mesh (clock tick)).2.2 }
        have hsucc : ∀ i, ctrl.ReachesTick driver spec (fun i ↦ clock (tick + i)) p.mesh
            (left + 1) (i + 1) ↔ Controller.ReachesTick driver spec (fun i ↦ clock (tick + 1 + i))
              (ctrl.tick driver spec p.mesh (clock tick)).2.1
              (ctrl.tick driver spec p.mesh (clock tick)).2.2 left i := by
          intro i
          rw [Controller.reachesTick_succ, hclock]
          exact and_iff_right (Bool.not_eq_true _ ▸ hdone)
        refine ⟨n + 1, Nat.succ_le_succ hn, fun i hi ↦ ?_, fun hlt h ↦ ?_, ?_⟩
        · cases i with
          | zero => exact hzero
          | succ i => exact (hsucc i).mpr (hbefore i (Nat.lt_of_succ_lt_succ hi))
        · exact hafter (Nat.lt_of_succ_lt_succ hlt) ((hsucc n).mp h)
        · rw [hmesh, Controller.after_succ_tick, hclock]
          rfl

/-! ## Holding still -/

/-- Of what is tracked, the jobs `ids` at least are found live. -/
def FoundLive (ids : List String) (l : List ReplicaState) : Prop :=
  ∀ r ∈ l, r.jobId ∈ ids → r.phase.isAlive

instance (ids : List String) (l : List ReplicaState) : Decidable (FoundLive ids l) :=
  inferInstanceAs (Decidable (∀ r ∈ l, r.jobId ∈ ids → r.phase.isAlive))

/-- Of what is tracked, the jobs `ids` and no others are found live. -/
def FoundAlone (ids : List String) (l : List ReplicaState) : Prop :=
  ∀ r ∈ l, r.phase.isAlive ↔ r.jobId ∈ ids

/-- Every pass and every tick of a convergence is still, whatever the mesh answers, as long as
it answers the refreshes as `finds` says. -/
def ManagedDeployment.HoldsStill (managed : ManagedDeployment) (store : Store) (key : String)
    (finds : List ReplicaState → Prop) : Prop :=
  (∀ {σ : Type} (run : DaemonRun σ), run.store = store → key ∈ store.scope run.nameSpace →
    ∀ n, (∀ i ≤ n, finds ((run.controllerAt key managed i).refreshed run.driver managed.spec
        (run.turnMesh key i))) →
      (run.controllerAt key managed n).Still run.driver managed.spec (run.turnMesh key n)
        (run.clock n key)) ∧
  ∀ {σ : Type} (cli : Cli) (driver : MeshDriver σ) (clock : ℕ → UInt64) (mesh : σ) (n : ℕ),
    (managed.controller cli.grant).ReachesTick driver managed.spec clock mesh
        cli.maxTicks.toNat n →
      let run := (managed.controller cli.grant).after driver managed.spec clock mesh
      (∀ i ≤ n, finds ((run i).1.refreshed driver managed.spec (run i).2)) →
        (run n).1.Still driver managed.spec (run n).2 (clock n)

namespace ManagedDeployment

variable {store : Store} {key : String} {managed : ManagedDeployment}

/-- Where the jobs `ids` are as many as desired, and on the current revision, all is still while
they alone are found live. -/
theorem holdsStill_of_finds (hget : store.get key = some managed) {ids : List String}
    (hrev : ∀ r ∈ managed.replicas, r.jobId ∈ ids → r.revision = managed.spec.revision)
    (hcount : (keep ids managed.replicas).length = managed.spec.replicas.toNat)
    {finds : List ReplicaState → Prop}
    (hfinds : ∀ l, jobIds l ⊆ jobIds managed.replicas → finds l → FoundAlone ids l) :
    managed.HoldsStill store key finds := by
  constructor
  · rintro σ run rfl hscope n hrun
    have hns := (Store.mem_scope hget).mp hscope
    have hzero : (run.controllerAt key managed 0).replicas = managed.replicas := by
      change run.tracked key 0 = managed.replicas
      rw [DaemonRun.tracked, DaemonRun.after, hget, Option.getD_some]
    refine Controller.still_of_finds (run.controllerAt key managed) (run.turnMesh key)
      (fun i ↦ run.clock i key) (DaemonRun.tracked_succ hget hns) (by rwa [hzero])
      (by rwa [hzero]) ?_
    intro i hi hsub
    refine hfinds _ ?_ (hrun i hi)
    rw [jobIds_refreshed]
    rwa [hzero] at hsub
  · intro σ cli driver clock mesh n _ run hrun
    refine Controller.still_of_finds (fun i ↦ (run i).1) (fun i ↦ (run i).2) clock
      (fun _ ↦ rfl) hrev hcount ?_
    intro i hi hsub
    refine hfinds _ ?_ (hrun i hi)
    rw [jobIds_refreshed]
    exact hsub

/-- If all holds still, then the first pass on a mesh where nothing comes up does. -/
theorem HoldsStill.pending {finds : List ReplicaState → Prop}
    (h : managed.HoldsStill store key finds) (hget : store.get key = some managed)
    (hnodup : (jobIds managed.replicas).Nodup) (ids : List String)
    (hfinds : finds (managed.replicas.map fun r ↦
      { r with phase := if r.jobId ∈ ids then .pending else .failed })) :
    (∀ r ∈ managed.replicas, r.jobId ∈ ids → r.revision = managed.spec.revision) ∧
      (keep ids managed.replicas).length ≤ managed.spec.replicas.toNat := by
  let run : DaemonRun Unit :=
    { driver := pendingDriver ids, nameSpace := none, fallbackGrant := none, store,
      mesh := fun _ ↦ (), clock := fun _ _ ↦ 0 }
  have hzero : run.controllerAt key managed 0 = managed.controller none := by
    rw [DaemonRun.controllerAt, DaemonRun.tracked, DaemonRun.after, hget, Option.getD_some]
  have hrefreshed : (managed.controller none).refreshed (pendingDriver ids) managed.spec () =
      managed.replicas.map fun r ↦
        { r with phase := if r.jobId ∈ ids then .pending else .failed } :=
    Controller.refreshed_pending ids managed.spec hnodup ()
  have hscope : key ∈ store.scope none := (Store.mem_scope hget).mpr (by simp)
  have hstill := h.1 run rfl hscope 0 fun i hi ↦ by
    rw [Nat.le_zero.mp hi, hzero, hrefreshed]
    exact hfinds
  rw [hzero] at hstill
  by_contra hnot
  rw [not_and_or, not_le] at hnot
  refine Controller.not_still_pending hnodup (hnot.imp_left fun hrev ↦ ?_) _ hstill
  push Not at hrev
  exact hrev

/-! ## Nothing to roll -/

section Steady

variable (hcount : liveCount managed.replicas = managed.spec.replicas.toNat)

include hcount

omit [Sha256] in
theorem length_keep_of_live {ids : List String}
    (hids : ∀ r ∈ managed.replicas, r.jobId ∈ ids ↔ r.phase.isAlive) :
    (keep ids managed.replicas).length = managed.spec.replicas.toNat := by
  rw [← hcount, keep_eq_map, List.length_map, ← List.countP_eq_length_filter, liveCount]
  exact List.countP_congr fun r hr ↦ by rw [decide_eq_true_eq, hids r hr]

/-- If all that is tracked is live and current, it is enough that it stays live. -/
theorem holdsStill_of_current (hget : store.get key = some managed)
    (hall : ∀ r ∈ managed.replicas, r.phase.isAlive ∧ r.revision = managed.spec.revision) :
    managed.HoldsStill store key (FoundLive (liveJobs managed.replicas)) := by
  have hlive : ∀ r ∈ managed.replicas, r.jobId ∈ liveJobs managed.replicas :=
    fun r hr ↦ mem_liveJobs.mpr ⟨r, hr, (hall r hr).1, rfl⟩
  refine holdsStill_of_finds hget (fun r hr _ ↦ (hall r hr).2)
    (length_keep_of_live hcount fun r hr ↦ iff_of_true (hlive r hr) (hall r hr).1) ?_
  intro l hsub hfound r hr
  obtain ⟨q, hq, hid⟩ := mem_jobIds.mp (hsub (mem_jobIds.mpr ⟨r, hr, rfl⟩))
  have hmem : r.jobId ∈ liveJobs managed.replicas := hid ▸ hlive q hq
  exact iff_of_true (hfound r hr hmem) hmem

/-- If all that is live is current, it is enough that it alone is found live. -/
theorem holdsStill_of_live_current (hget : store.get key = some managed)
    (hnodup : (jobIds managed.replicas).Nodup)
    (hrev : ∀ r ∈ managed.replicas, r.phase.isAlive → r.revision = managed.spec.revision) :
    managed.HoldsStill store key (FoundAlone (liveJobs managed.replicas)) := by
  have hids : ∀ r ∈ managed.replicas, r.jobId ∈ liveJobs managed.replicas ↔ r.phase.isAlive := by
    intro r hr
    constructor
    · intro hid
      obtain ⟨q, hq, halive, hqid⟩ := mem_liveJobs.mp hid
      exact List.inj_on_of_nodup_map hnodup hq hr hqid ▸ halive
    · exact fun halive ↦ mem_liveJobs.mpr ⟨r, hr, halive, rfl⟩
  exact holdsStill_of_finds hget (fun r hr hid ↦ hrev r hr ((hids r hr).mp hid))
    (length_keep_of_live hcount hids) fun _ _ h ↦ h

/-- On a mesh that finds everything pending, all that is tracked counts. -/
theorem HoldsStill.current
    (h : managed.HoldsStill store key (FoundLive (liveJobs managed.replicas)))
    (hget : store.get key = some managed) (hnodup : (jobIds managed.replicas).Nodup) :
    ∀ r ∈ managed.replicas, r.phase.isAlive ∧ r.revision = managed.spec.revision := by
  have hids : ∀ r ∈ managed.replicas, r.jobId ∈ jobIds managed.replicas :=
    fun r hr ↦ mem_jobIds.mpr ⟨r, hr, rfl⟩
  obtain ⟨hrev, hle⟩ := h.pending hget hnodup (jobIds managed.replicas) <| by
    intro q hq _
    obtain ⟨r, hr, rfl⟩ := List.mem_map.mp hq
    simp [hids r hr]
  have hkeep : (keep (jobIds managed.replicas) managed.replicas).length =
      managed.replicas.length := by
    rw [keep_eq_map, List.length_map, List.filter_eq_self.mpr fun r hr ↦
      decide_eq_true (hids r hr)]
  rw [hkeep, ← hcount] at hle
  have halive := List.countP_eq_length.mp (le_antisymm List.countP_le_length hle)
  exact fun r hr ↦ ⟨halive r hr, hrev r hr (hids r hr)⟩

end Steady

/-- On a mesh that finds what was live pending, and nothing else, that must be current. -/
theorem HoldsStill.live_current
    (h : managed.HoldsStill store key (FoundAlone (liveJobs managed.replicas)))
    (hget : store.get key = some managed) (hnodup : (jobIds managed.replicas).Nodup) :
    ∀ r ∈ managed.replicas, r.phase.isAlive → r.revision = managed.spec.revision := by
  obtain ⟨hrev, _⟩ := h.pending hget hnodup (liveJobs managed.replicas) <| by
    intro q hq
    obtain ⟨r, hr, rfl⟩ := List.mem_map.mp hq
    by_cases hid : r.jobId ∈ liveJobs managed.replicas <;> simp [hid]
  exact fun r hr halive ↦ hrev r hr (mem_liveJobs.mpr ⟨r, hr, halive, rfl⟩)

/-- **A deployment that is ticked holds still exactly when there is nothing to roll**, paused
or not, if it has as many live replicas as it wants: all that it tracks is live and on the
current revision.  If what is not live is never found live again, it is enough that all that
is live is on the current revision. -/
theorem holdsStill_iff (hget : store.get key = some managed)
    (hcount : liveCount managed.replicas = managed.spec.replicas.toNat) :
    ((∀ r ∈ managed.replicas, r.phase.isAlive ∧ r.revision = managed.spec.revision) →
      managed.HoldsStill store key (FoundLive (liveJobs managed.replicas))) ∧
    ((jobIds managed.replicas).Nodup →
      (managed.HoldsStill store key (FoundLive (liveJobs managed.replicas)) ↔
        ∀ r ∈ managed.replicas, r.phase.isAlive ∧ r.revision = managed.spec.revision) ∧
      (managed.HoldsStill store key (FoundAlone (liveJobs managed.replicas)) ↔
        ∀ r ∈ managed.replicas, r.phase.isAlive → r.revision = managed.spec.revision)) := by
  refine ⟨holdsStill_of_current hcount hget, fun hnodup ↦ ⟨?_, ?_⟩⟩
  · constructor
    · exact fun h ↦ h.current hcount hget hnodup
    · exact holdsStill_of_current hcount hget
  · constructor
    · exact fun h ↦ h.live_current hget hnodup
    · exact holdsStill_of_live_current hcount hget hnodup

end ManagedDeployment

end Ticks

section Example

/-- A paused deployment of two running replicas, one on the revision `old` and one on the
current revision. -/
def pausedWeb (old : String) : ManagedDeployment where
  spec := { name := "web", nameSpace := "default", image := "nginx:2", replicas := 2 }
  replicas := [⟨"a", "n", old, .running⟩, ⟨"b", "n", "a7331ca093cb740b", .running⟩]
  paused := true

/-- The store that holds it. -/
def pausedStore (old : String) : Store :=
  { deployments := SortedMap.empty.insert "default/web" (pausedWeb old) }

/-- Paused in the middle of a roll, with all replicas up: the next pass, or the next tick of a
command, goes on with the roll. -/
theorem paused_rolls :
    let managed := pausedWeb "9154645cdccb2449"
    let store := pausedStore "9154645cdccb2449"
    managed.paused = true ∧ liveCount managed.replicas = managed.spec.replicas.toNat ∧
      (@reconcilePass _ Deployment.nginxSha256 scriptedDriver.traced (fun _ ↦ 0) none none store
        (["c"], [])).mesh.2 = [.kill "n" "a" none, .deploy "n" none] ∧
      (@Cli.reconcileToConvergence _ Deployment.nginxSha256 { maxTicks := 1 }
        scriptedDriver.traced (fun _ _ ↦ 0) "default/web"
        { store, mesh := (["c"], []) }).2.mesh.2 = [.kill "n" "a" none, .deploy "n" none] ∧
      ¬ @ManagedDeployment.HoldsStill Deployment.nginxSha256 managed store "default/web"
        (FoundLive (liveJobs managed.replicas)) := by
  refine ⟨rfl, by decide, by decide +kernel, by decide +kernel, fun h ↦ ?_⟩
  obtain ⟨hrev, _⟩ := @ManagedDeployment.HoldsStill.pending Deployment.nginxSha256 _ _ _ _ h
    (by decide +kernel) (by decide) ["a", "b"] (by decide)
  exact absurd hrev (by decide +kernel)

/-- With both on the current revision it is left alone. -/
theorem holdsStill_iff_pausedWeb :
    @ManagedDeployment.HoldsStill Deployment.nginxSha256 (pausedWeb "a7331ca093cb740b")
      (pausedStore "a7331ca093cb740b") "default/web"
      (FoundLive (liveJobs (pausedWeb "a7331ca093cb740b").replicas)) := by
  refine (@ManagedDeployment.holdsStill_iff Deployment.nginxSha256
    (pausedStore "a7331ca093cb740b") "default/web" (pausedWeb "a7331ca093cb740b")
    (by decide +kernel) (by decide)).1 ?_
  decide +kernel

end Example

end CeGke
