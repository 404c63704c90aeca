import CeGke.Controller.Stages

/-!
# The calls of a tick

What a tick asks of the mesh, whether or not the mesh does it.  A driver that writes down
the calls it is given answers like the driver itself (`MeshDriver.Refines.tick`), so the
calls of a tick are well defined (`Controller.calls`), and each stage makes calls of one
kind (`Issued`).
-/

namespace CeGke

open Lib

variable {σ τ : Type}

/-! ## Drivers that answer alike -/

/-- `f` maps the states of one driver to states of another in which that one gives the same
answers. -/
structure MeshDriver.Refines (driver' : MeshDriver τ) (driver : MeshDriver σ) (f : τ → σ) :
    Prop where
  atlas : ∀ s, driver.atlas (f s) = Prod.map id f (driver'.atlas s)
  deploy : ∀ nodeId d grant s,
    driver.deploy nodeId d grant (f s) = Prod.map id f (driver'.deploy nodeId d grant s)
  kill : ∀ nodeId job grant s,
    driver.kill nodeId job grant (f s) = Prod.map id f (driver'.kill nodeId job grant s)
  phase : ∀ nodeId job probe grant s,
    driver.phase nodeId job probe grant (f s) =
      Prod.map id f (driver'.phase nodeId job probe grant s)
  advertiseService : ∀ service s,
    driver.advertiseService service (f s) = Prod.map id f (driver'.advertiseService service s)
  serviceReady : ∀ service s,
    driver.serviceReady service (f s) = Prod.map id f (driver'.serviceReady service s)

/-- The same tick state over another mesh. -/
def TickState.mapMesh (f : τ → σ) (t : TickState τ) : TickState σ :=
  { replicas := t.replicas, report := t.report, mesh := f t.mesh }

namespace MeshDriver.Refines

variable {driver' : MeshDriver τ} {driver : MeshDriver σ} {f : τ → σ}
  (h : driver'.Refines driver f)

include h

theorem observePhases (probe : Option Probe) (grant : Option String)
    (replicas : List ReplicaState) (s : τ) :
    CeGke.observePhases driver probe grant replicas (f s) =
      Prod.map id f (CeGke.observePhases driver' probe grant replicas s) := by
  induction replicas generalizing s with
  | nil => rfl
  | cons r replicas ih =>
      simp only [CeGke.observePhases, h.phase, Prod.map, ih]
      rfl

theorem refresh (d : Deployment) (c : Controller) (s : τ) :
    c.refresh driver d (f s) = Prod.map id f (c.refresh driver' d s) := by
  simp only [Controller.refresh, h.observePhases]
  rfl

theorem observeDeps (nameSpace : String) (deps : List DependencyRef)
    (readiness : String → Option DepReadiness) (s : τ) :
    CeGke.observeDeps driver nameSpace deps readiness (f s) =
      Prod.map id f (CeGke.observeDeps driver' nameSpace deps readiness s) := by
  induction deps generalizing readiness s with
  | nil => rfl
  | cons dep deps ih =>
      simp only [CeGke.observeDeps, h.serviceReady, Prod.map, ih]
      rfl

theorem evaluateDeps (d : Deployment) (s : τ) :
    CeGke.evaluateDeps driver d (f s) = Prod.map id f (CeGke.evaluateDeps driver' d s) := by
  unfold CeGke.evaluateDeps
  split_ifs
  · rfl
  · simp only [h.observeDeps]
    rfl

/-- The same states over the two meshes go alike through the kills. -/
theorem killsAlike (grant : Option String) :
    KillsAlike driver' driver grant fun t t' ↦ t' = t.mapMesh f where
  replicas := by
    rintro t _ rfl
    rfl
  killFailures := by
    rintro t _ rfl
    rfl
  answer := by
    rintro t _ nodeId job rfl
    exact (congrArg Prod.fst (h.kill nodeId job grant t.mesh)).symm
  killed := by
    rintro t _ nodeId job count rfl
    simp only [TickState.mapMesh, h.kill, Prod.map]
  notKilled := by
    rintro t _ nodeId job count rfl
    simp only [TickState.mapMesh, h.kill, Prod.map]

/-- And through the deploys. -/
theorem deploysAlike (grant : Option String) (d : Deployment) (target : String) :
    DeploysAlike driver' driver grant d d target fun t t' ↦ t' = t.mapMesh f where
  answer := by
    rintro t _ nodeId rfl
    exact (congrArg Prod.fst (h.deploy nodeId d grant t.mesh)).symm
  deployed := by
    rintro t _ nodeId job rfl
    simp only [TickState.mapMesh, h.deploy, Prod.map]
  notDeployed := by
    rintro t _ nodeId rfl
    simp only [TickState.mapMesh, h.deploy, Prod.map]
  notPlaced := by
    rintro t _ n rfl
    rfl

theorem place (now maxStaleSecs : UInt64) (grant : Option String) (d : Deployment)
    (target : String) (gate : Gate) (toPlace : ℕ) (t : TickState τ) :
    CeGke.place driver now maxStaleSecs grant d target gate toPlace (t.mapMesh f) =
      (CeGke.place driver' now maxStaleSecs grant d target gate toPlace t).mapMesh f := by
  rw [place_eq, place_eq]
  split_ifs
  · have hatlas : driver.atlas (t.mapMesh f).mesh = Prod.map id f (driver'.atlas t.mesh) :=
      h.atlas t.mesh
    have halike := h.deploysAlike grant d target
    rw [hatlas]
    exact halike.settle (halike.placeLoop _ ⟨rfl, rfl, rfl⟩)
  · rfl

theorem advertise (d : Deployment) (gate : Gate) (t : TickState τ) :
    CeGke.advertise driver d gate (t.mapMesh f) =
      (CeGke.advertise driver' d gate t).mapMesh f := by
  unfold CeGke.advertise
  cases d.serviceName with
  | none => rfl
  | some service =>
      have hreplicas : (t.mapMesh f).replicas = t.replicas := rfl
      have hmesh : (t.mapMesh f).mesh = f t.mesh := rfl
      simp only [hreplicas, hmesh, h.advertiseService]
      split_ifs
      · cases hadvertise : driver'.advertiseService service t.mesh with
        | mk res mesh => cases res <;> rfl
      · rfl

theorem refreshed (d : Deployment) (c : Controller) (s : τ) :
    c.refreshed driver d (f s) = c.refreshed driver' d s := by
  rw [Controller.refreshed, h.refresh]
  rfl

variable [Sha256]

theorem plan (d : Deployment) (c : Controller) (s : τ) :
    c.plan driver d (f s) = c.plan driver' d s := by
  rw [Controller.plan, h.refreshed, Controller.plan]

theorem planned (d : Deployment) (c : Controller) (s : τ) :
    (c.planned driver d (f s)).1 = (c.planned driver' d s).1 ∧
      (c.planned driver d (f s)).2 = (c.planned driver' d s).2.mapMesh f := by
  simp only [Controller.planned, h.refresh, Prod.map, h.evaluateDeps]
  exact ⟨rfl, rfl⟩

/-- **Drivers that answer alike are ticked alike.** -/
theorem tick (d : Deployment) (c : Controller) (s : τ) (now : UInt64) :
    c.tick driver d (f s) now =
      Prod.map id (Prod.map id f) (c.tick driver' d s now) := by
  obtain ⟨hgate, hplanned⟩ := h.planned d c s
  have hkills : c.afterKills driver d (f s) = (c.afterKills driver' d s).mapMesh f := by
    rw [Controller.afterKills, h.plan, hplanned]
    exact (h.killsAlike _).foldl_tryKill _ rfl
  have hsubstitutes :
      c.afterSubstitutes driver d (f s) = (c.afterSubstitutes driver' d s).mapMesh f := by
    rw [Controller.afterSubstitutes, h.plan, hkills]
    exact (h.killsAlike _).substitute _ _ _ rfl
  have hplacements :
      c.afterPlacements driver d (f s) now = (c.afterPlacements driver' d s now).mapMesh f := by
    rw [Controller.afterPlacements, h.plan, hgate, hsubstitutes]
    exact h.place _ _ _ _ _ _ _ _
  simp only [Controller.tick, hgate, hplacements, h.advertise, h.refresh]
  rfl

end MeshDriver.Refines

/-! ## The calls -/

/-- What a tick asks of the mesh. -/
inductive MeshCall where
  | deploy (nodeId : String) (grant : Option String)
  | kill (nodeId job : String) (grant : Option String)
  | advertise (service : String)
deriving DecidableEq, Repr

namespace MeshCall

/-- The call stops a replica. -/
def isKill : MeshCall → Bool
  | kill _ _ _ => true
  | deploy _ _ | advertise _ => false

/-- The call launches a replica. -/
def isDeploy : MeshCall → Bool
  | deploy _ _ => true
  | kill _ _ _ | advertise _ => false

/-- The call advertises a service. -/
def isAdvertise : MeshCall → Bool
  | advertise _ => true
  | deploy _ _ | kill _ _ _ => false

theorem not_isKill_of_isDeploy {call : MeshCall} (h : call.isDeploy) : call.isKill = false := by
  cases call with
  | deploy nodeId grant => rfl
  | kill nodeId job grant => exact absurd h Bool.false_ne_true
  | advertise service => rfl

theorem changes_nothing_of_isAdvertise {call : MeshCall} (h : call.isAdvertise) :
    call.isKill = false ∧ call.isDeploy = false := by
  cases call with
  | deploy nodeId grant => exact absurd h Bool.false_ne_true
  | kill nodeId job grant => exact absurd h Bool.false_ne_true
  | advertise service => exact ⟨rfl, rfl⟩

end MeshCall

/-- The same driver, with a list of the calls that would change the mesh, in order. -/
def MeshDriver.traced (driver : MeshDriver σ) : MeshDriver (σ × List MeshCall) where
  atlas s := ((driver.atlas s.1).1, (driver.atlas s.1).2, s.2)
  deploy nodeId d grant s :=
    ((driver.deploy nodeId d grant s.1).1, (driver.deploy nodeId d grant s.1).2,
      s.2 ++ [.deploy nodeId grant])
  kill nodeId job grant s :=
    ((driver.kill nodeId job grant s.1).1, (driver.kill nodeId job grant s.1).2,
      s.2 ++ [.kill nodeId job grant])
  phase nodeId job probe grant s :=
    ((driver.phase nodeId job probe grant s.1).1, (driver.phase nodeId job probe grant s.1).2, s.2)
  advertiseService service s :=
    ((driver.advertiseService service s.1).1, (driver.advertiseService service s.1).2,
      s.2 ++ [.advertise service])
  serviceReady service s :=
    ((driver.serviceReady service s.1).1, (driver.serviceReady service s.1).2, s.2)

theorem MeshDriver.traced_refines (driver : MeshDriver σ) :
    driver.traced.Refines driver Prod.fst :=
  ⟨fun _ ↦ rfl, fun _ _ _ _ ↦ rfl, fun _ _ _ _ ↦ rfl, fun _ _ _ _ _ ↦ rfl, fun _ _ ↦ rfl,
    fun _ _ ↦ rfl⟩

/-- The calls of a tick. -/
def Controller.calls [Sha256] (driver : MeshDriver σ) (d : Deployment) (c : Controller) (s : σ)
    (now : UInt64) : List MeshCall :=
  (c.tick driver.traced d (s, []) now).2.2.2

/-! ## Who makes which calls -/

/-- From `t` to `t'` only calls with `p` were made. -/
def Issued (p : MeshCall → Prop) (t t' : TickState (σ × List MeshCall)) : Prop :=
  ∃ calls, t'.mesh.2 = t.mesh.2 ++ calls ∧ ∀ call ∈ calls, p call

namespace Issued

variable {p q : MeshCall → Prop} {t t' t'' : TickState (σ × List MeshCall)}

theorem of_eq (h : t'.mesh.2 = t.mesh.2) : Issued p t t' :=
  ⟨[], by rw [h, List.append_nil], List.forall_mem_nil _⟩

theorem refl (t : TickState (σ × List MeshCall)) : Issued p t t := of_eq rfl

theorem of_call {call : MeshCall} (h : t'.mesh.2 = t.mesh.2 ++ [call]) (hcall : p call) :
    Issued p t t' :=
  ⟨[call], h, List.forall_mem_singleton.mpr hcall⟩

theorem trans (h : Issued p t t') (h' : Issued p t' t'') : Issued p t t'' := by
  obtain ⟨calls, hmesh, hcalls⟩ := h
  obtain ⟨calls', hmesh', hcalls'⟩ := h'
  refine ⟨calls ++ calls', ?_, List.forall_mem_append.mpr ⟨hcalls, hcalls'⟩⟩
  rw [hmesh', hmesh, List.append_assoc]

theorem mono (hpq : ∀ call, p call → q call) (h : Issued p t t') : Issued q t t' := by
  obtain ⟨calls, hmesh, hcalls⟩ := h
  exact ⟨calls, hmesh, fun call hcall ↦ hpq call (hcalls call hcall)⟩

/-- What was called stays called. -/
theorem subset (h : Issued p t t') : t.mesh.2 ⊆ t'.mesh.2 := by
  obtain ⟨calls, hmesh, _⟩ := h
  rw [hmesh]
  exact List.subset_append_left _ _

end Issued

section Stages

variable (driver : MeshDriver σ) (grant : Option String)

/-- The call kills one of these jobs. -/
def MeshCall.KillsOneOf (toKill : List String) (call : MeshCall) : Prop :=
  ∃ nodeId, ∃ job ∈ toKill, call = .kill nodeId job grant

theorem MeshCall.KillsOneOf.isKill {toKill : List String} {call : MeshCall}
    (h : call.KillsOneOf grant toKill) : call.isKill := by
  obtain ⟨nodeId, job, _, rfl⟩ := h
  rfl

theorem killsKeep_issued (toKill : List String) (t : TickState (σ × List MeshCall)) :
    driver.traced.KillsKeep grant (· ∈ toKill) (Issued (·.KillsOneOf grant toKill) t) where
  killed := by
    intro t' r u mesh killFailures hissued _ hjob hkill
    exact hissued.trans (Issued.of_call (congrArg (·.2.2) hkill).symm ⟨_, _, hjob, rfl⟩)
  notKilled := by
    intro t' r e mesh killFailures hissued _ hjob hkill
    exact hissued.trans (Issued.of_call (congrArg (·.2.2) hkill).symm ⟨_, _, hjob, rfl⟩)

theorem foldl_tryKill_issued (toKill : List String) (t : TickState (σ × List MeshCall)) :
    Issued (·.KillsOneOf grant toKill) t (toKill.foldl (tryKill driver.traced grant) t) :=
  (killsKeep_issued driver grant toKill t).foldl_tryKill (fun _ hjob ↦ hjob) (Issued.refl t)

/-- Whatever is on the kill list and tracked is asked to be killed. -/
theorem mem_foldl_tryKill_calls {job : String} {toKill : List String} (hjob : job ∈ toKill)
    {t : TickState (σ × List MeshCall)} (htracked : job ∈ jobIds t.replicas) :
    ∃ nodeId, .kill nodeId job grant ∈
      (toKill.foldl (tryKill driver.traced grant) t).mesh.2 := by
  induction toKill generalizing t with
  | nil => exact absurd hjob List.not_mem_nil
  | cons job' toKill ih =>
      rw [List.foldl_cons]
      by_cases heq : job' = job
      · subst heq
        have hrest := foldl_tryKill_issued driver grant toKill (tryKill driver.traced grant t job')
        obtain ⟨r, hr, hid⟩ := mem_jobIds.mp htracked
        have hsome : (t.replicas.find? fun r ↦ r.jobId = job').isSome :=
          List.find?_isSome.mpr ⟨r, hr, decide_eq_true hid⟩
        obtain ⟨q, hq⟩ := Option.isSome_iff_exists.mp hsome
        refine ⟨q.nodeId, hrest.subset ?_⟩
        simp only [tryKill, hq, MeshDriver.traced]
        cases (driver.kill q.nodeId job' grant t.mesh.1).1 with
        | ok u => exact List.mem_append_right _ List.mem_cons_self
        | error e => exact List.mem_append_right _ List.mem_cons_self
      · refine ih ((List.mem_cons.mp hjob).resolve_left (Ne.symm heq)) ?_
        obtain ⟨ks, hks, hkilled⟩ := tryKill_killed driver.traced grant t job'
        obtain ⟨r, hr, rfl⟩ := mem_jobIds.mp htracked
        rw [hkilled.replicas]
        exact mem_jobIds.mpr ⟨r, mem_without.mpr
          ⟨hr, fun hk ↦ heq (List.mem_singleton.mp (hks hk)).symm⟩, rfl⟩

theorem killsKeep_isKill (t : TickState (σ × List MeshCall)) :
    driver.traced.KillsKeep grant (fun _ ↦ True) (Issued (·.isKill) t) where
  killed := by
    intro t' r u mesh killFailures hissued _ _ hkill
    exact hissued.trans (Issued.of_call (congrArg (·.2.2) hkill).symm rfl)
  notKilled := by
    intro t' r e mesh killFailures hissued _ _ hkill
    exact hissued.trans (Issued.of_call (congrArg (·.2.2) hkill).symm rfl)

theorem substitute_issued (desired : ℕ) (target : String) (toKill : List String)
    (t : TickState (σ × List MeshCall)) :
    Issued (·.isKill) t (substitute driver.traced grant desired target toKill t) :=
  (killsKeep_isKill driver grant t).substitute (fun _ ↦ trivial) _ _ _ (Issued.refl t)

theorem deploysKeep_issued (d : Deployment) (target : String)
    (t : TickState (σ × List MeshCall)) :
    driver.traced.DeploysKeep grant d target (Issued (·.isDeploy) t) where
  atlas hissued := hissued.trans (Issued.of_eq rfl)
  deployed := by
    intro t' nodeId job mesh hissued hdeploy
    exact hissued.trans (Issued.of_call (congrArg (·.2.2) hdeploy).symm rfl)
  notDeployed := by
    intro t' nodeId e mesh hissued hdeploy
    exact hissued.trans (Issued.of_call (congrArg (·.2.2) hdeploy).symm rfl)
  notPlaced _ hissued := hissued.trans (Issued.of_eq rfl)

theorem place_issued (now maxStaleSecs : UInt64) (d : Deployment) (target : String) (gate : Gate)
    (toPlace : ℕ) (t : TickState (σ × List MeshCall)) :
    Issued (·.isDeploy) t
      (place driver.traced now maxStaleSecs grant d target gate toPlace t) :=
  place_rule (fun _ ↦ deploysKeep_issued driver grant d target t) now maxStaleSecs toPlace
    (Issued.refl t)

theorem advertise_issued (d : Deployment) (gate : Gate) (t : TickState (σ × List MeshCall)) :
    Issued (·.isAdvertise) t (advertise driver.traced d gate t) := by
  unfold advertise
  split
  · exact Issued.refl t
  · rename_i service _
    split_ifs
    · simp only [MeshDriver.traced]
      cases (driver.advertiseService service t.mesh.1).1 with
      | ok u => exact Issued.of_call rfl rfl
      | error e => exact Issued.of_call rfl rfl
    · exact Issued.refl t

end Stages

namespace Controller

variable [Sha256] (driver : MeshDriver σ) (d : Deployment) (c : Controller) (s : σ)

/-- What is asked before the plan is no call. -/
theorem planned_traced (calls : List MeshCall) :
    (c.planned driver.traced d (s, calls)).2.mesh.2 = calls := by
  have hrefresh : (c.refresh driver.traced d (s, calls)).2.2 = calls :=
    observePhases_rule (P := fun s' : σ × List MeshCall ↦ s'.2 = calls) (fun _ _ hs ↦ hs)
      c.replicas rfl
  exact evaluateDeps_rule (P := fun s' : σ × List MeshCall ↦ s'.2 = calls) (fun _ hs ↦ hs) d
    hrefresh

/-- The calls of a tick: first kills, then deploys, then the advertisement. -/
theorem calls_eq (now : UInt64) : ∃ kills deploys advertises,
    c.calls driver d s now = kills ++ deploys ++ advertises ∧
      (c.afterSubstitutes driver.traced d (s, [])).mesh.2 = kills ∧
      (∀ call ∈ kills, call.isKill) ∧ (∀ call ∈ deploys, call.isDeploy) ∧
        ∀ call ∈ advertises, call.isAdvertise := by
  have hkills : Issued (·.isKill) (c.planned driver.traced d (s, [])).2
      (c.afterSubstitutes driver.traced d (s, [])) :=
    ((foldl_tryKill_issued driver c.grant _ _).mono fun _ h ↦ h.isKill).trans
      (substitute_issued driver c.grant _ _ _ _)
  obtain ⟨kills, hkills, hkind⟩ := hkills
  obtain ⟨deploys, hdeploys, hkind'⟩ := place_issued driver c.grant now c.maxStaleSecs d
    d.revision (c.planned driver.traced d (s, [])).1 (c.plan driver.traced d (s, [])).toPlace
    (c.afterSubstitutes driver.traced d (s, []))
  obtain ⟨advertises, hadvertises, hkind''⟩ := advertise_issued driver d
    (c.planned driver.traced d (s, [])).1 (c.afterPlacements driver.traced d (s, []) now)
  rw [planned_traced, List.nil_append] at hkills
  refine ⟨kills, deploys, advertises, ?_, hkills, hkind, hkind', hkind''⟩
  rw [hkills] at hdeploys
  rw [calls, tick]
  simp only
  rw [hadvertises, afterPlacements, hdeploys]

/-- A plan that names nobody and places nothing makes the kills and placements empty. -/
theorem afterPlacements_of_idle (hkill : (c.plan driver d s).toKill = [])
    (hplace : (c.plan driver d s).toPlace = 0) (now : UInt64) :
    c.afterPlacements driver d s now = (c.planned driver d s).2 := by
  have hkills : c.afterKills driver d s = (c.planned driver d s).2 := by
    rw [afterKills, hkill, List.foldl_nil]
  have hsubstitutes : c.afterSubstitutes driver d s = (c.planned driver d s).2 := by
    rw [afterSubstitutes, hkills]
    exact if_neg (Nat.lt_irrefl 0)
  rw [afterPlacements, hsubstitutes, hplace]
  exact if_neg fun h ↦ absurd h.1 (Nat.lt_irrefl 0)

/-- Such a tick only advertises. -/
theorem calls_of_idle (hkill : (c.plan driver d s).toKill = [])
    (hplace : (c.plan driver d s).toPlace = 0) (now : UInt64) :
    ∀ call ∈ c.calls driver d s now, call.isAdvertise := by
  have hplan := driver.traced_refines.plan d c (s, [])
  have hidle := c.afterPlacements_of_idle driver.traced d (s, []) (hplan ▸ hkill)
    (hplan ▸ hplace) now
  obtain ⟨advertises, hadvertises, hkind⟩ := advertise_issued driver d
    (c.planned driver.traced d (s, [])).1 (c.planned driver.traced d (s, [])).2
  rw [planned_traced, List.nil_append] at hadvertises
  rw [calls, tick, hidle]
  simp only
  rw [hadvertises]
  exact hkind

end Controller

end CeGke
