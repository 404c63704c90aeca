import CeGke.Controller.Calls

/-!
# The dependency gate only adds a hold

A tick of a deployment is compared with the tick of the same deployment without its
dependencies (`Controller.gate_only_holds`).  The two make the same plan and the same
kills; an open gate changes nothing at all, and a closed one ends the tick where the kills
end.
-/

namespace CeGke

open Lib

variable {σ : Type}

/-! ## What the gate says -/

namespace Gate

theorem mem_dedup {s : String} {l : List String} : s ∈ dedup l ↔ s ∈ l := by
  induction l using dedup.induct with
  | case1 => rfl
  | case2 t => rfl
  | case3 t l ih =>
      rw [dedup, if_pos rfl, ih]
      simp
  | case4 t u l hne ih => rw [dedup, if_neg hne, List.mem_cons, ih, ← List.mem_cons]

/-- On a sorted list `dedup` leaves each element once. -/
theorem pairwise_dedup {l : List String} (h : l.Pairwise (· ≤ ·)) :
    (dedup l).Pairwise (· < ·) := by
  induction l using dedup.induct with
  | case1 => exact List.Pairwise.nil
  | case2 t => exact List.pairwise_singleton _ _
  | case3 t l ih =>
      rw [dedup, if_pos rfl]
      exact ih h.of_cons
  | case4 t u l hne ih =>
      rw [dedup, if_neg hne, List.pairwise_cons]
      refine ⟨fun s hs ↦ ?_, ih h.of_cons⟩
      have htu : t < u := lt_of_le_of_ne (List.rel_of_pairwise_cons h List.mem_cons_self) hne
      rcases List.mem_cons.mp (mem_dedup.mp hs) with rfl | hs
      · exact htu
      · exact htu.trans_le (List.rel_of_pairwise_cons h.of_cons hs)

theorem evaluate_spec (d : Deployment) (readiness : String → DepReadiness) :
    ((evaluate d readiness).isReady = true ↔
        ∀ dep ∈ d.dependsOn, met dep (readiness dep.service) = true) ∧
      (evaluate d readiness).unmet.Pairwise (· < ·) ∧
      ∀ service, service ∈ (evaluate d readiness).unmet ↔
        ∃ dep ∈ d.dependsOn, dep.service = service ∧ ¬ met dep (readiness service) = true := by
  set unmet := (d.dependsOn.filter fun dep ↦ !met dep (readiness dep.service)).map
    DependencyRef.service with hunmet
  have hmem : ∀ service, service ∈ unmet ↔
      ∃ dep ∈ d.dependsOn, dep.service = service ∧ ¬ met dep (readiness service) = true := by
    intro service
    simp only [hunmet, List.mem_map, List.mem_filter, Bool.not_eq_true', Bool.not_eq_true]
    constructor
    · rintro ⟨dep, ⟨hdep, hnot⟩, rfl⟩
      exact ⟨dep, hdep, rfl, hnot⟩
    · rintro ⟨dep, hdep, rfl, hnot⟩
      exact ⟨dep, ⟨hdep, hnot⟩, rfl⟩
  have heq : evaluate d readiness =
      if unmet = [] then .ready else .waiting (dedup (unmet.insertionSort (· ≤ ·))) := rfl
  rw [heq]
  split_ifs with hnil
  · have hall : ∀ dep ∈ d.dependsOn, met dep (readiness dep.service) = true := by
      intro dep hdep
      by_contra hnot
      have hin := (hmem dep.service).mpr ⟨dep, hdep, rfl, hnot⟩
      rw [hnil] at hin
      exact List.not_mem_nil hin
    refine ⟨⟨fun _ ↦ hall, fun _ ↦ rfl⟩, List.Pairwise.nil, fun service ↦ ?_⟩
    rw [← hmem, hnil]
    rfl
  · refine ⟨⟨fun h ↦ absurd h Bool.false_ne_true, fun h ↦ ?_⟩, ?_, fun service ↦ ?_⟩
    · obtain ⟨service, hin⟩ := List.exists_mem_of_ne_nil unmet hnil
      obtain ⟨dep, hdep, rfl, hnot⟩ := (hmem service).mp hin
      exact absurd (h dep hdep) hnot
    · exact pairwise_dedup (List.pairwise_insertionSort _ _)
    · rw [← hmem]
      exact mem_dedup.trans (List.mem_insertionSort _)

end Gate

/-- What was observed satisfies the dependency: it is live, and healthy if it has to be. -/
def DependencyRef.MetBy (dep : DependencyRef) (answer : Except String DepReadiness) : Prop :=
  answer = .ok .healthy ∨ answer = .ok .livePresent ∧ dep.healthy = false

theorem DependencyRef.met_iff (dep : DependencyRef) (answer : Except String DepReadiness) :
    Gate.met dep (answer.toOption.getD .absent) = true ↔ dep.MetBy answer := by
  obtain ⟨service, healthy⟩ := dep
  unfold MetBy
  rcases answer with e | _ | _ | _ <;> cases healthy <;> simp [Gate.met, Except.toOption]

section Evaluate

variable (driver : MeshDriver σ) (nameSpace : String)

/-- What the driver says of a service of a namespace. -/
def askService (s : σ) (service : String) : Except String DepReadiness :=
  (driver.serviceReady s!"ce-gke/{nameSpace}/{service}" s).1

variable (hready : ∀ service s, (driver.serviceReady service s).2 = s)

include hready

/-- Each answer is filed under the bare name it was asked for. -/
theorem observeDeps_eq (deps : List DependencyRef) (readiness : String → Option DepReadiness)
    (s : σ) :
    observeDeps driver nameSpace deps readiness s =
      (fun service ↦
        if service ∈ deps.map DependencyRef.service then
          some ((askService driver nameSpace s service).toOption.getD .absent)
        else readiness service, s) := by
  induction deps generalizing readiness with
  | nil => simp [observeDeps]
  | cons dep deps ih =>
      rw [observeDeps]
      simp only [hready, ih]
      refine Prod.ext (funext fun service ↦ ?_) rfl
      by_cases hmem : service ∈ deps.map DependencyRef.service
      · simp [hmem]
      · by_cases hservice : service = dep.service
        · subst hservice
          simp [hmem, askService, DependencyRef.resolvedServiceName]
        · simp [hmem, hservice]

/-- The gate waits for exactly the services whose answers do not meet the dependency. -/
theorem evaluateDeps_spec (d : Deployment) (s : σ) :
    (evaluateDeps driver d s).2 = s ∧
      ((evaluateDeps driver d s).1.isReady = true ↔
        ∀ dep ∈ d.dependsOn, dep.MetBy (askService driver d.nameSpace s dep.service)) ∧
      (evaluateDeps driver d s).1.unmet.Pairwise (· < ·) ∧
      ∀ service, service ∈ (evaluateDeps driver d s).1.unmet ↔
        ∃ dep ∈ d.dependsOn, dep.service = service ∧
          ¬ dep.MetBy (askService driver d.nameSpace s service) := by
  unfold evaluateDeps
  split_ifs with hnil
  · rw [hnil]
    exact ⟨rfl, by simp, List.Pairwise.nil, by simp [Gate.unmet]⟩
  · simp only [observeDeps_eq driver d.nameSpace hready]
    -- Every service that is looked up was asked for.
    have hread : ∀ dep ∈ d.dependsOn,
        ((if dep.service ∈ d.dependsOn.map DependencyRef.service then
            some ((askService driver d.nameSpace s dep.service).toOption.getD .absent)
          else none).getD DepReadiness.absent) =
          (askService driver d.nameSpace s dep.service).toOption.getD .absent := by
      intro dep hdep
      rw [if_pos (List.mem_map_of_mem hdep), Option.getD_some]
    obtain ⟨hiff, hsorted, hmem⟩ := Gate.evaluate_spec d fun service ↦
      (if service ∈ d.dependsOn.map DependencyRef.service then
          some ((askService driver d.nameSpace s service).toOption.getD .absent)
        else none).getD DepReadiness.absent
    refine ⟨trivial, hiff.trans (forall₂_congr fun dep hdep ↦ ?_), hsorted, fun service ↦ ?_⟩
    · rw [hread dep hdep, dep.met_iff]
    · rw [hmem service]
      constructor
      · rintro ⟨dep, hdep, rfl, hnot⟩
        rw [hread dep hdep, dep.met_iff] at hnot
        exact ⟨dep, hdep, rfl, hnot⟩
      · rintro ⟨dep, hdep, rfl, hnot⟩
        refine ⟨dep, hdep, rfl, ?_⟩
        rwa [hread dep hdep, dep.met_iff]

end Evaluate

/-! ## The deployment without its dependencies -/

/-- The same deployment, depending on nothing. -/
def Deployment.free (d : Deployment) : Deployment := { d with dependsOn := [] }

/-- The same driver, which answers a deploy of any spec as it answers that of `d`: what
a deploy comes to does not depend on the dependencies listed in the spec. -/
def MeshDriver.answeringFor (driver : MeshDriver σ) (d : Deployment) : MeshDriver σ :=
  { driver with deploy := fun nodeId _ grant ↦ driver.deploy nodeId d grant }

section Free

variable (driver : MeshDriver σ) (d : Deployment)

theorem observePhases_free (probe : Option Probe) (grant : Option String)
    (replicas : List ReplicaState) (s : σ) :
    observePhases (driver.answeringFor d) probe grant replicas s =
      observePhases driver probe grant replicas s := by
  induction replicas generalizing s with
  | nil => rfl
  | cons r replicas ih =>
      simp only [observePhases, ih]
      rfl

theorem refresh_free (c : Controller) (s : σ) :
    c.refresh (driver.answeringFor d) d.free s = c.refresh driver d s := by
  simp only [Controller.refresh, observePhases_free]
  rfl

/-- The two drivers are asked to kill in the same words. -/
theorem killsAlike_free (grant : Option String) :
    KillsAlike (driver.answeringFor d) driver grant Eq where
  replicas := congrArg TickState.replicas
  killFailures := congrArg fun t : TickState σ ↦ t.report.killFailures
  answer := by
    rintro t _ nodeId job rfl
    rfl
  killed := by
    rintro t _ nodeId job count rfl
    rfl
  notKilled := by
    rintro t _ nodeId job count rfl
    rfl

/-- And a deploy of the one deployment is answered as one of the other. -/
theorem deploysAlike_free (grant : Option String) (target : String) :
    DeploysAlike (driver.answeringFor d) driver grant d.free d target Eq where
  answer := by
    rintro t _ nodeId rfl
    rfl
  deployed := by
    rintro t _ nodeId job rfl
    rfl
  notDeployed := by
    rintro t _ nodeId rfl
    rfl
  notPlaced := by
    rintro t _ n rfl
    rfl

theorem substitute_free (grant : Option String) (desired : ℕ) (target : String)
    (toKill : List String) (t : TickState σ) :
    substitute (driver.answeringFor d) grant desired target toKill t =
      substitute driver grant desired target toKill t :=
  (killsAlike_free driver d grant).substitute _ _ _ rfl

theorem place_free (now maxStaleSecs : UInt64) (grant : Option String) (target : String)
    (gate : Gate) (toPlace : ℕ) (t : TickState σ) :
    place (driver.answeringFor d) now maxStaleSecs grant d.free target gate toPlace t =
      place driver now maxStaleSecs grant d target gate toPlace t := by
  have halike := deploysAlike_free driver d grant target
  rw [place_eq, place_eq]
  split_ifs
  · exact halike.settle (halike.placeLoop _ ⟨rfl, rfl, rfl⟩)
  · rfl

end Free

/-! ## The verdict is carried along -/

/-- The same state with another verdict in its report. -/
def TickState.withVerdict (t : TickState σ) (verdict : Bool × List String) : TickState σ :=
  { t with report := { t.report with done := verdict.1, waitingOn := verdict.2 } }

theorem TickState.withVerdict_self {t : TickState σ} {verdict : Bool × List String}
    (h : t.report.verdict = verdict) : t.withVerdict verdict = t := by
  subst h
  rfl

section Verdict

variable (driver : MeshDriver σ) (grant : Option String) (verdict : Bool × List String)

theorem killsAlike_withVerdict :
    KillsAlike driver driver grant fun t t' ↦ t' = t.withVerdict verdict where
  replicas := by
    rintro t _ rfl
    rfl
  killFailures := by
    rintro t _ rfl
    rfl
  answer := by
    rintro t _ nodeId job rfl
    rfl
  killed := by
    rintro t _ nodeId job count rfl
    rfl
  notKilled := by
    rintro t _ nodeId job count rfl
    rfl

theorem foldl_tryKill_withVerdict (toKill : List String) (t : TickState σ) :
    toKill.foldl (tryKill driver grant) (t.withVerdict verdict) =
      (toKill.foldl (tryKill driver grant) t).withVerdict verdict :=
  (killsAlike_withVerdict driver grant verdict).foldl_tryKill _ rfl

theorem substitute_withVerdict (desired : ℕ) (target : String) (toKill : List String)
    (t : TickState σ) :
    substitute driver grant desired target toKill (t.withVerdict verdict) =
      (substitute driver grant desired target toKill t).withVerdict verdict :=
  (killsAlike_withVerdict driver grant verdict).substitute _ _ _ rfl

end Verdict

/-! ## The two ticks -/

theorem MeshDriver.serviceReady_traced {driver : MeshDriver σ}
    (hready : ∀ service s, (driver.serviceReady service s).2 = s) :
    ∀ service s, (driver.traced.serviceReady service s).2 = s := by
  intro service s
  exact Prod.ext (hready service s.1) rfl

namespace Controller

variable [Sha256] {driver : MeshDriver σ} {d : Deployment} {c : Controller} {s : σ}

theorem plan_free : c.plan (driver.answeringFor d) d.free s = c.plan driver d s := by
  simp only [plan, refreshed, refresh_free]
  rfl

section Ready

variable (hready : ∀ service s, (driver.serviceReady service s).2 = s)

include hready

/-- The gate of a tick, in terms of what the driver says after the refresh. -/
theorem planned_gate : (c.planned driver d s).1 =
    (evaluateDeps driver d (c.refresh driver d s).2).1 ∧
      (c.planned driver d s).2.mesh = (c.refresh driver d s).2 :=
  ⟨rfl, (evaluateDeps_spec driver hready d _).1⟩

theorem planned_free : (c.planned driver d s).2 =
    (c.planned (driver.answeringFor d) d.free s).2.withVerdict
      ((c.plan driver d s).done && (c.planned driver d s).1.isReady,
        (c.planned driver d s).1.unmet) := by
  have hmesh := (planned_gate (d := d) (c := c) (s := s) hready).2
  have hmesh' : (c.planned (driver.answeringFor d) d.free s).2.mesh =
      (c.refresh driver d s).2 := by
    rw [← refresh_free]
    rfl
  have hreplicas : (c.planned (driver.answeringFor d) d.free s).2.replicas =
      (c.planned driver d s).2.replicas := by
    simp only [planned_replicas, refreshed, refresh_free]
  rw [TickState.withVerdict, hreplicas, hmesh', ← hmesh]
  rfl

theorem afterSubstitutes_free : c.afterSubstitutes driver d s =
    (c.afterSubstitutes (driver.answeringFor d) d.free s).withVerdict
      ((c.plan driver d s).done && (c.planned driver d s).1.isReady,
        (c.planned driver d s).1.unmet) := by
  have hkills : c.afterKills driver d s =
      (c.afterKills (driver.answeringFor d) d.free s).withVerdict
        ((c.plan driver d s).done && (c.planned driver d s).1.isReady,
          (c.planned driver d s).1.unmet) := by
    rw [afterKills, planned_free hready, foldl_tryKill_withVerdict, afterKills, plan_free]
    rfl
  rw [afterSubstitutes, hkills, substitute_withVerdict, afterSubstitutes, plan_free,
    substitute_free]
  rfl

/-- An open gate changes nothing. -/
theorem tick_of_open (hgate : (c.planned driver d s).1.isReady = true) (now : UInt64) :
    c.tick driver d s now = c.tick (driver.answeringFor d) d.free s now := by
  have hopen : (c.planned driver d s).1 = .ready := by
    cases hgate' : (c.planned driver d s).1 with
    | ready => rfl
    | waiting unmet =>
        rw [hgate'] at hgate
        exact absurd hgate Bool.false_ne_true
  have hverdict : (c.afterSubstitutes (driver.answeringFor d) d.free s).report.verdict =
      ((c.plan driver d s).done && Gate.ready.isReady, Gate.ready.unmet) := by
    rw [afterSubstitutes_report (f := TickReport.verdict) (fun _ _ _ ↦ rfl)]
    simp only [planned, refresh_free]
    rfl
  have hsubstitutes : c.afterSubstitutes driver d s =
      c.afterSubstitutes (driver.answeringFor d) d.free s := by
    rw [afterSubstitutes_free hready, hopen, TickState.withVerdict_self hverdict]
  have hplacements : c.afterPlacements driver d s now =
      c.afterPlacements (driver.answeringFor d) d.free s now := by
    rw [afterPlacements, afterPlacements, hsubstitutes, plan_free, hopen]
    exact (place_free driver d _ _ _ _ _ _ _).symm
  simp only [tick, hplacements, hopen, refresh_free]
  rfl

/-- A closed gate ends the tick where the kills end. -/
theorem tick_of_closed (hgate : (c.planned driver d s).1.isReady = false) (now : UInt64) :
    c.tick driver d s now =
      let t := (c.afterSubstitutes (driver.answeringFor d) d.free s).withVerdict
        (false, (c.planned driver d s).1.unmet)
      (t.report, { (c.refresh driver d s).1 with replicas := t.replicas }, t.mesh) := by
  have hplace : c.afterPlacements driver d s now = c.afterSubstitutes driver d s := by
    refine if_neg ?_
    rw [hgate]
    exact fun h ↦ Bool.false_ne_true h.2
  have hadvertise : ∀ t : TickState σ, advertise driver d (c.planned driver d s).1 t = t := by
    intro t
    unfold advertise
    split
    · rfl
    · rw [hgate, if_neg fun h ↦ Bool.false_ne_true h.2]
  have hsubstitutes := afterSubstitutes_free (d := d) (c := c) (s := s) hready
  rw [hgate, Bool.and_false] at hsubstitutes
  rw [tick, hadvertise, hplace, hsubstitutes]

end Ready

/-- Every dependency is met by what the driver says after the refresh. -/
def DepsMet (driver : MeshDriver σ) (d : Deployment) (c : Controller) (s : σ) : Prop :=
  ∀ dep ∈ d.dependsOn,
    dep.MetBy (askService driver d.nameSpace (c.refresh driver d s).2 dep.service)

theorem isReady_iff (hready : ∀ service s, (driver.serviceReady service s).2 = s) :
    (c.planned driver d s).1.isReady = true ↔ c.DepsMet driver d s := by
  rw [(planned_gate hready).1]
  exact (evaluateDeps_spec driver hready d _).2.1

/-- With an open gate a tick makes the same calls. -/
theorem calls_of_open (hready : ∀ service s, (driver.serviceReady service s).2 = s)
    (hgate : (c.planned driver d s).1.isReady = true) (now : UInt64) :
    c.calls driver d s now = c.calls (driver.answeringFor d) d.free s now := by
  have htraced := driver.traced_refines.planned d c (s, [])
  have htick := tick_of_open (MeshDriver.serviceReady_traced hready) (htraced.1 ▸ hgate) now
  rw [calls, htick]
  rfl

/-- With a closed gate it makes the kills among them. -/
theorem calls_of_closed (hready : ∀ service s, (driver.serviceReady service s).2 = s)
    (hgate : (c.planned driver d s).1.isReady = false) (now : UInt64) :
    c.calls driver d s now =
      (c.calls (driver.answeringFor d) d.free s now).filter (·.isKill) := by
  have htraced := driver.traced_refines.planned d c (s, [])
  have htick := tick_of_closed (MeshDriver.serviceReady_traced hready) (htraced.1 ▸ hgate) now
  obtain ⟨kills, deploys, advertises, hcalls, hkills, hkind, hkind', hkind''⟩ :=
    c.calls_eq (driver.answeringFor d) d.free s now
  have hdeploys : deploys.filter (·.isKill) = [] := by
    refine List.filter_eq_nil_iff.mpr fun call hcall ↦ ?_
    rw [MeshCall.not_isKill_of_isDeploy (hkind' call hcall)]
    exact Bool.false_ne_true
  have hadvertises : advertises.filter (·.isKill) = [] := by
    refine List.filter_eq_nil_iff.mpr fun call hcall ↦ ?_
    rw [(MeshCall.changes_nothing_of_isAdvertise (hkind'' call hcall)).1]
    exact Bool.false_ne_true
  rw [hcalls, List.filter_append, List.filter_append, hdeploys, hadvertises, List.append_nil,
    List.append_nil, List.filter_eq_self.mpr hkind, calls, htick]
  exact hkills

/-- **The dependency gate only adds a hold.**  With every dependency met a tick makes the
same calls, tracks the same replicas and reports the same as a tick of the deployment
without dependencies.  Otherwise it makes that tick's kills, substitutes included, and
nothing else: it tracks what they leave, is not done, and waits for exactly the services
that are not met. -/
theorem gate_only_holds (hready : ∀ service s, (driver.serviceReady service s).2 = s)
    (now : UInt64) :
    (c.DepsMet driver d s →
      c.calls driver d s now = c.calls (driver.answeringFor d) d.free s now ∧
        c.tick driver d s now = c.tick (driver.answeringFor d) d.free s now) ∧
    (¬ c.DepsMet driver d s →
      c.calls driver d s now =
          (c.calls (driver.answeringFor d) d.free s now).filter (·.isKill) ∧
        (c.tick driver d s now).1.killed =
          (c.tick (driver.answeringFor d) d.free s now).1.killed ∧
        (c.tick driver d s now).1.placed = [] ∧
        (c.tick driver d s now).2.1.replicas =
          (c.afterSubstitutes (driver.answeringFor d) d.free s).replicas ∧
        (c.tick driver d s now).1.done = false ∧
        (c.tick driver d s now).1.waitingOn.Pairwise (· < ·) ∧
        ∀ service, service ∈ (c.tick driver d s now).1.waitingOn ↔
          ∃ dep ∈ d.dependsOn, dep.service = service ∧
            ¬ dep.MetBy (askService driver d.nameSpace (c.refresh driver d s).2 service)) := by
  constructor
  · intro hmet
    have hopen := (isReady_iff hready).mpr hmet
    exact ⟨calls_of_open hready hopen now, tick_of_open hready hopen now⟩
  · intro hunmet
    have hclosed : (c.planned driver d s).1.isReady = false :=
      Bool.not_eq_true _ ▸ mt (isReady_iff hready).mp hunmet
    have htick := tick_of_closed hready hclosed now
    obtain ⟨ks, _, hkilled⟩ := c.afterKills_killed (driver.answeringFor d) d.free s
    obtain ⟨js, hkilled', _⟩ := c.afterSubstitutes_killed (driver.answeringFor d) d.free s
    obtain ⟨launched, hplaced, _⟩ := c.afterPlacements_placed (driver.answeringFor d) d.free s now
    obtain ⟨_, _, hsorted, hmem⟩ := evaluateDeps_spec driver hready d (c.refresh driver d s).2
    rw [← (planned_gate hready).1] at hsorted hmem
    refine ⟨calls_of_closed hready hclosed now, ?_, ?_, ?_, ?_, ?_, ?_⟩
    · rw [(c.tick_eq (driver.answeringFor d) d.free s now).2.2, hplaced.killed, htick]
      rfl
    · rw [htick]
      exact hkilled'.placed.trans hkilled.placed
    · rw [htick]
      rfl
    · rw [htick]
      rfl
    · rw [htick]
      exact hsorted
    · rw [htick]
      exact hmem

end Controller

section Example

/-- An app that waits for a database. -/
def waitingWeb : Deployment where
  name := "web"
  nameSpace := "default"
  image := "nginx"
  replicas := 1
  dependsOn := [⟨"db", false⟩]

/-- On a mesh where nothing is published it is held, and its failed replica reaped. -/
theorem gate_only_holds_waitingWeb :
    let c : Controller := { replicas := [⟨"a", "n", "v1", .failed⟩] }
    @Controller.calls Unit Deployment.nginxSha256 (stuckDriver []) waitingWeb c () 0 =
        (@Controller.calls Unit Deployment.nginxSha256
          ((stuckDriver []).answeringFor waitingWeb) waitingWeb.free c () 0).filter (·.isKill) ∧
      (@Controller.tick Unit Deployment.nginxSha256 (stuckDriver []) waitingWeb c ()
        0).1.done = false := by
  intro c
  have hunmet : ¬ c.DepsMet (stuckDriver []) waitingWeb () := by
    intro hmet
    rcases hmet ⟨"db", false⟩ (by decide) with h | ⟨h, _⟩
    · exact absurd h (by simp [askService, stuckDriver])
    · exact absurd h (by simp [askService, stuckDriver])
  have hheld := (@Controller.gate_only_holds Unit Deployment.nginxSha256 (stuckDriver []) waitingWeb
    c () (fun _ _ ↦ rfl) 0).2 hunmet
  exact ⟨hheld.1, hheld.2.2.2.2.1⟩

end Example

end CeGke
