import CeGke.Controller.Hold
import CeGke.Controller.Keeps

/-!
# What happens on a mesh

A driver that writes down, besides what is launched and stopped, which jobs it is told to be running
and which services it is asked to advertise (`MeshDriver.watched`), and what it takes for the
readiness of a service to mean that the service has been advertised (`MeshDriver.Honest`).
-/

namespace CeGke

variable {σ : Type}

/-- Something that happened. -/
inductive Happening where
  | /-- `job` was launched for `d` on `nodeId`. -/
    launched (nodeId : String) (d : Deployment) (job : String)
  | /-- `job` was stopped on `nodeId`. -/
    stopped (nodeId job : String)
  | /-- The phase of `job` was told to be that of a running replica. -/
    running (job : String)
  | /-- The mesh was asked to advertise a service. -/
    advertised (service : String)
deriving DecidableEq, Repr

def Happening.launchedJob? : Happening → Option String
  | .launched _ _ job => some job
  | .stopped _ _ | .running _ | .advertised _ => none

/-- The same driver, with a log of what happened. -/
def MeshDriver.watched (driver : MeshDriver σ) : MeshDriver (σ × List Happening) where
  atlas s := ((driver.atlas s.1).1, (driver.atlas s.1).2, s.2)
  deploy nodeId d grant s :=
    match driver.deploy nodeId d grant s.1 with
    | (.ok job, mesh) => (.ok job, mesh, s.2 ++ [.launched nodeId d job])
    | (.error e, mesh) => (.error e, mesh, s.2)
  kill nodeId job grant s :=
    match driver.kill nodeId job grant s.1 with
    | (.ok u, mesh) => (.ok u, mesh, s.2 ++ [.stopped nodeId job])
    | (.error e, mesh) => (.error e, mesh, s.2)
  phase nodeId job probe grant s :=
    match driver.phase nodeId job probe grant s.1 with
    | (.ok .running, mesh) => (.ok .running, mesh, s.2 ++ [.running job])
    | (res, mesh) => (res, mesh, s.2)
  advertiseService service s :=
    ((driver.advertiseService service s.1).1, (driver.advertiseService service s.1).2,
      s.2 ++ [.advertised service])
  serviceReady service s :=
    ((driver.serviceReady service s.1).1, (driver.serviceReady service s.1).2, s.2)

section Watched

variable {driver : MeshDriver σ} {s s' : σ × List Happening} {nodeId job e : String}
  {d : Deployment} {grant : Option String}

namespace MeshDriver

theorem watched_kill_ok (h : driver.watched.kill nodeId job grant s = (.ok (), s')) :
    s' = ((driver.kill nodeId job grant s.1).2, s.2 ++ [.stopped nodeId job]) := by
  simp only [watched] at h
  split at h
  · rename_i heq
    rw [heq]
    exact (congrArg Prod.snd h).symm
  · exact absurd (congrArg Prod.fst h) (by simp)

theorem watched_kill_error (h : driver.watched.kill nodeId job grant s = (.error e, s')) :
    s' = ((driver.kill nodeId job grant s.1).2, s.2) := by
  simp only [watched] at h
  split at h
  · exact absurd (congrArg Prod.fst h) (by simp)
  · rename_i heq
    rw [heq]
    exact (congrArg Prod.snd h).symm

theorem watched_deploy_ok (h : driver.watched.deploy nodeId d grant s = (.ok job, s')) :
    s' = ((driver.deploy nodeId d grant s.1).2, s.2 ++ [.launched nodeId d job]) := by
  simp only [watched] at h
  split at h
  · rename_i heq
    obtain rfl : _ = job := Except.ok.inj (congrArg Prod.fst h)
    rw [heq]
    exact (congrArg Prod.snd h).symm
  · exact absurd (congrArg Prod.fst h) (by simp)

theorem watched_deploy_error (h : driver.watched.deploy nodeId d grant s = (.error e, s')) :
    s' = ((driver.deploy nodeId d grant s.1).2, s.2) := by
  simp only [watched] at h
  split at h
  · exact absurd (congrArg Prod.fst h) (by simp)
  · rename_i heq
    rw [heq]
    exact (congrArg Prod.snd h).symm

/-- Asking for a phase adds to the log at most that the job is running, and that it does add where
it is told so. -/
theorem watched_phase (nodeId job : String) (probe : Option Probe) (grant : Option String)
    (s : σ × List Happening) :
    (driver.watched.phase nodeId job probe grant s).2.1 =
        (driver.phase nodeId job probe grant s.1).2 ∧
      ((driver.watched.phase nodeId job probe grant s).1 = .ok .running ∧
          (driver.watched.phase nodeId job probe grant s).2.2 = s.2 ++ [.running job] ∨
        (driver.watched.phase nodeId job probe grant s).1 ≠ .ok .running ∧
          (driver.watched.phase nodeId job probe grant s).2.2 = s.2) := by
  simp only [watched]
  split
  · rename_i heq
    rw [heq]
    exact ⟨rfl, Or.inl ⟨rfl, rfl⟩⟩
  · rename_i res mesh hne heq
    rw [heq]
    exact ⟨rfl, Or.inr ⟨hne, rfl⟩⟩

end MeshDriver

end Watched

/-! ## Readiness -/

/-- Only what is `known` is found ready, and nothing gets known but by being advertised. -/
structure MeshDriver.Honest (driver : MeshDriver σ) (known : σ → String → Prop) : Prop where
  found : ∀ {s service r}, (driver.serviceReady service s).1 = .ok r → r ≠ .absent →
    known s service
  atlas : ∀ {s service}, known (driver.atlas s).2 service → known s service
  deploy : ∀ {s service} nodeId d grant, known (driver.deploy nodeId d grant s).2 service →
    known s service
  kill : ∀ {s service} nodeId job grant, known (driver.kill nodeId job grant s).2 service →
    known s service
  phase : ∀ {s service} nodeId job probe grant,
    known (driver.phase nodeId job probe grant s).2 service → known s service
  serviceReady : ∀ {s service} asked, known (driver.serviceReady asked s).2 service →
    known s service
  advertiseService : ∀ {s service} advertised,
    known (driver.advertiseService advertised s).2 service → service = advertised ∨ known s service

/-- Nothing is assumed of a driver of which everything is known. -/
theorem MeshDriver.honest_true (driver : MeshDriver σ) : driver.Honest fun _ _ ↦ True where
  found _ _ := trivial
  atlas _ := trivial
  deploy _ _ _ _ := trivial
  kill _ _ _ _ := trivial
  phase _ _ _ _ _ := trivial
  serviceReady _ _ := trivial
  advertiseService _ _ := Or.inr trivial

namespace MeshDriver.Honest

variable {driver : MeshDriver σ} {known : σ → String → Prop} (h : driver.Honest known)

include h

/-- The log changes nothing. -/
theorem watched : driver.watched.Honest fun s ↦ known s.1 where
  found hanswer hne := h.found hanswer hne
  atlas hs := h.atlas hs
  deploy {s service} nodeId d grant hs := by
    have hdeploy := @Honest.deploy _ _ _ h s.1 service nodeId d grant
    simp only [MeshDriver.watched] at hs
    split at hs
    · rename_i heq
      rw [heq] at hdeploy
      exact hdeploy hs
    · rename_i heq
      rw [heq] at hdeploy
      exact hdeploy hs
  kill {s service} nodeId job grant hs := by
    have hkill := @Honest.kill _ _ _ h s.1 service nodeId job grant
    simp only [MeshDriver.watched] at hs
    split at hs
    · rename_i heq
      rw [heq] at hkill
      exact hkill hs
    · rename_i heq
      rw [heq] at hkill
      exact hkill hs
  phase nodeId job probe grant hs := by
    rw [(watched_phase nodeId job probe grant _).1] at hs
    exact h.phase nodeId job probe grant hs
  serviceReady asked hs := h.serviceReady asked hs
  advertiseService advertised hs := h.advertiseService advertised hs

/-- What the loop over the dependencies has found is known. -/
theorem observeDeps {nameSpace : String} {deps : List DependencyRef}
    {readiness : String → Option DepReadiness} {s : σ} {service : String} {r : DepReadiness}
    (hread : (CeGke.observeDeps driver nameSpace deps readiness s).1 service = some r)
    (hne : r ≠ .absent) :
    readiness service = some r ∨ known s s!"ce-gke/{nameSpace}/{service}" := by
  induction deps generalizing readiness s with
  | nil => exact Or.inl hread
  | cons dep deps ih =>
      rcases ih hread with hread | hknown
      · by_cases hservice : service = dep.service
        · subst hservice
          rw [Function.update_self, Option.some.injEq] at hread
          refine Or.inr ?_
          cases hanswer : (driver.serviceReady (dep.resolvedServiceName nameSpace) s).1 with
          | error e =>
              rw [hanswer] at hread
              exact absurd hread.symm hne
          | ok r' =>
              rw [hanswer] at hread
              obtain rfl : r' = r := hread
              exact h.found hanswer hne
        · rw [Function.update_of_ne hservice] at hread
          exact Or.inl hread
      · exact Or.inr (h.serviceReady _ hknown)

/-- Behind an open gate every dependency is known. -/
theorem known_of_isReady {d : Deployment} {s : σ}
    (hready : (evaluateDeps driver d s).1.isReady) {dep : DependencyRef}
    (hdep : dep ∈ d.dependsOn) : known s (dep.resolvedServiceName d.nameSpace) := by
  unfold evaluateDeps at hready
  rw [if_neg (List.ne_nil_of_mem hdep)] at hready
  have hmet := (Gate.evaluate_spec d fun service ↦
    ((CeGke.observeDeps driver d.nameSpace d.dependsOn (fun _ ↦ none) s).1 service).getD
      .absent).1.mp hready dep hdep
  cases hread : (CeGke.observeDeps driver d.nameSpace d.dependsOn (fun _ ↦ none) s).1
      dep.service with
  | none =>
      rw [hread] at hmet
      exact absurd hmet (by simp [Gate.met])
  | some r =>
      have hne : r ≠ .absent := fun hr ↦ by
        rw [hread, hr] at hmet
        exact absurd hmet (by simp [Gate.met])
      exact (h.observeDeps hread hne).resolve_left (by simp)

end MeshDriver.Honest

end CeGke
