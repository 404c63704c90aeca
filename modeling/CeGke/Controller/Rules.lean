import CeGke.Controller

/-!
# Rules for the stages of a tick

What is kept by each call of the mesh, together with what the tick makes of the answer, is kept by
the loop that makes the calls: one rule for the questions before the plan, one for the kills
(`MeshDriver.KillsKeep`), one for the placements (`MeshDriver.DeploysKeep`).  The two loops of kills
share their laws, for they do the same to the replicas and differ in what they count.

The last section has the rules for a stage over two meshes that answer alike.
-/

namespace CeGke

variable {σ τ : Type}

theorem find?_jobId_eq_some {l : List ReplicaState} {job : String} {r : ReplicaState}
    (h : (l.find? fun r ↦ r.jobId = job) = some r) : r ∈ l ∧ r.jobId = job :=
  ⟨List.mem_of_find?_eq_some h, by simpa using List.find?_some h⟩

/-! ## Questions -/

section Questions

variable {driver : MeshDriver σ} {P : σ → Prop}

theorem observePhases_rule {probe : Option Probe} {grant : Option String}
    (hphase : ∀ {s} nodeId job, P s → P (driver.phase nodeId job probe grant s).2)
    (replicas : List ReplicaState) {s : σ} (hs : P s) :
    P (observePhases driver probe grant replicas s).2 := by
  induction replicas generalizing s with
  | nil => exact hs
  | cons r replicas ih => exact ih (hphase r.nodeId r.jobId hs)

theorem observeDeps_rule (hready : ∀ {s} service, P s → P (driver.serviceReady service s).2)
    (nameSpace : String) (deps : List DependencyRef) (readiness : String → Option DepReadiness)
    {s : σ} (hs : P s) : P (observeDeps driver nameSpace deps readiness s).2 := by
  induction deps generalizing readiness s with
  | nil => exact hs
  | cons dep deps ih => exact ih _ (hready _ hs)

theorem evaluateDeps_rule (hready : ∀ {s} service, P s → P (driver.serviceReady service s).2)
    (d : Deployment) {s : σ} (hs : P s) : P (evaluateDeps driver d s).2 := by
  unfold evaluateDeps
  split_ifs
  · exact hs
  · exact observeDeps_rule hready _ _ _ hs

end Questions

/-! ## Kills -/

/-- The laws for kills of the jobs in `S`: a kill keeps `P` whether it is done or not, and whatever
becomes of the number of failed kills. -/
structure MeshDriver.KillsKeep (driver : MeshDriver σ) (grant : Option String) (S : String → Prop)
    (P : TickState σ → Prop) : Prop where
  killed : ∀ {t r u mesh} killFailures, P t → r ∈ t.replicas → S r.jobId →
    driver.kill r.nodeId r.jobId grant t.mesh = (.ok u, mesh) →
      P { replicas := t.replicas.filter fun q ↦ q.jobId ≠ r.jobId
          report := { t.report with killed := t.report.killed ++ [r.jobId], killFailures }
          mesh }
  notKilled : ∀ {t r e mesh} killFailures, P t → r ∈ t.replicas → S r.jobId →
    driver.kill r.nodeId r.jobId grant t.mesh = (.error e, mesh) →
      P { t with report := { t.report with killFailures }, mesh }

/-- Step 3b, for what is kept while so much excess is left.  The loop asks for the kill of replicas
of its list that are not in the kill list. -/
theorem killAlternates_rule {driver : MeshDriver σ} {grant : Option String} {toKill : List String}
    {P : ℤ → TickState σ → Prop} {onTargetLive : List String}
    (killed : ∀ {n t r u mesh}, 0 < n → P n t → r ∈ t.replicas →
      r.jobId ∈ onTargetLive → r.jobId ∉ toKill →
        driver.kill r.nodeId r.jobId grant t.mesh = (.ok u, mesh) →
          P (n - 1)
            { replicas := t.replicas.filter fun q ↦ q.jobId ≠ r.jobId
              report :=
                { t.report with
                  killed := t.report.killed ++ [r.jobId]
                  killFailures := t.report.killFailures - 1 }
              mesh })
    (notKilled : ∀ {n t r e mesh}, P n t → r ∈ t.replicas → r.jobId ∈ onTargetLive →
      r.jobId ∉ toKill → driver.kill r.nodeId r.jobId grant t.mesh = (.error e, mesh) →
        P n { t with mesh })
    {excess : ℤ} {t : TickState σ} (ht : P excess t) :
    ∃ n, P n (killAlternates driver grant toKill onTargetLive excess t) := by
  induction onTargetLive generalizing excess t with
  | nil => exact ⟨excess, ht⟩
  | cons job onTargetLive ih =>
      have ih' : ∀ {n t}, P n t →
          ∃ m, P m (killAlternates driver grant toKill onTargetLive n t) :=
        ih (fun hn ht hr hjob ↦ killed hn ht hr (List.mem_cons_of_mem _ hjob))
          fun ht hr hjob ↦ notKilled ht hr (List.mem_cons_of_mem _ hjob)
      rw [killAlternates]
      split_ifs with hexcess hmem
      · exact ⟨excess, ht⟩
      · exact ih' ht
      · split
        · exact ih' ht
        · rename_i r hfind
          obtain ⟨hr, rfl⟩ := find?_jobId_eq_some hfind
          split
          · rename_i heq
            exact ih' (killed (not_le.mp hexcess) ht hr List.mem_cons_self hmem heq)
          · rename_i heq
            exact ih' (notKilled ht hr List.mem_cons_self hmem heq)

namespace MeshDriver.KillsKeep

variable {driver : MeshDriver σ} {grant : Option String} {S : String → Prop}
  {P : TickState σ → Prop} (h : driver.KillsKeep grant S P)

include h

theorem tryKill {job : String} (hjob : S job) {t : TickState σ} (ht : P t) :
    P (CeGke.tryKill driver grant t job) := by
  unfold CeGke.tryKill
  split
  · exact ht
  · rename_i r hfind
    obtain ⟨hr, rfl⟩ := find?_jobId_eq_some hfind
    split
    · rename_i heq
      exact h.killed _ ht hr hjob heq
    · rename_i heq
      exact h.notKilled _ ht hr hjob heq

theorem foldl_tryKill {toKill : List String} (hjobs : ∀ job ∈ toKill, S job) {t : TickState σ}
    (ht : P t) : P (toKill.foldl (CeGke.tryKill driver grant) t) :=
  List.foldlRecOn toKill _ ht fun _ ht job hjob ↦ h.tryKill (hjobs job hjob) ht

theorem killAlternates {toKill onTargetLive : List String}
    (hjobs : ∀ job ∈ onTargetLive, job ∉ toKill → S job) (excess : ℤ) {t : TickState σ}
    (ht : P t) : P (CeGke.killAlternates driver grant toKill onTargetLive excess t) := by
  have hkept : ∃ _ : ℤ, P (CeGke.killAlternates driver grant toKill onTargetLive excess t) :=
    killAlternates_rule (P := fun _ ↦ P)
      (fun _ ht hr hjob hnot heq ↦ h.killed _ ht hr (hjobs _ hjob hnot) heq)
      (fun ht hr hjob hnot heq ↦ h.notKilled _ ht hr (hjobs _ hjob hnot) heq) ht
  exact hkept.elim fun _ hkept ↦ hkept

theorem substitute (hall : ∀ job, S job) (desired : ℕ) (target : String) (toKill : List String)
    {t : TickState σ} (ht : P t) :
    P (CeGke.substitute driver grant desired target toKill t) := by
  unfold CeGke.substitute
  split_ifs
  · exact h.killAlternates (fun job _ _ ↦ hall job) _ ht
  · exact ht

end MeshDriver.KillsKeep

/-! ## Placements -/

/-- How step 4 ends: what could not be placed although hosts were left is a failure. -/
def PlaceState.settle (p : PlaceState σ) : TickState σ :=
  if p.toPlace > 0 ∧ p.candidates ≠ [] then
    let report := p.tick.report
    { p.tick with report := { report with placeFailures := report.placeFailures + p.toPlace } }
  else p.tick

theorem place_eq (driver : MeshDriver σ) (now maxStaleSecs : UInt64) (grant : Option String)
    (d : Deployment) (target : String) (gate : Gate) (toPlace : ℕ) (t : TickState σ) :
    place driver now maxStaleSecs grant d target gate toPlace t =
      if toPlace > 0 ∧ gate.isReady then
        let (atlas, mesh) := driver.atlas t.mesh
        let candidates := rank (atlas.toOption.getD []) d now.toNat maxStaleSecs.toNat
        (placeLoop driver grant d target (maxAttempts toPlace candidates)
          { toPlace, candidates, tick := { t with mesh } }).settle
      else t := rfl

/-- The placement loop, for what is kept while so much is left to place. -/
theorem placeLoop_rule {driver : MeshDriver σ} {grant : Option String} {d : Deployment}
    {target : String} {P : ℕ → TickState σ → Prop}
    (deployed : ∀ {n t nodeId job mesh}, P (n + 1) t →
      driver.deploy nodeId d grant t.mesh = (.ok job, mesh) →
        P n
          { replicas := t.replicas ++ [⟨job, nodeId, target, .pending⟩]
            report := { t.report with placed := t.report.placed ++ [job] }
            mesh })
    (notDeployed : ∀ {n t nodeId e mesh}, P n t →
      driver.deploy nodeId d grant t.mesh = (.error e, mesh) → P n { t with mesh })
    (notPlaced : ∀ {n t} placeFailures, P n t →
      P n { t with report := { t.report with placeFailures } })
    (attempts : ℕ) {p : PlaceState σ} (hp : P p.toPlace p.tick) :
    P (placeLoop driver grant d target attempts p).toPlace
      (placeLoop driver grant d target attempts p).tick := by
  induction attempts generalizing p with
  | zero => exact hp
  | succ attempts ih =>
      rw [placeLoop]
      split_ifs with hzero
      · exact hp
      · split
        · exact notPlaced _ hp
        · split
          · rename_i heq
            obtain ⟨n, hn⟩ := Nat.exists_eq_succ_of_ne_zero hzero
            rw [hn] at hp ⊢
            exact ih (deployed hp heq)
          · rename_i heq
            exact ih (notDeployed hp heq)

/-- The laws for placements: a deploy keeps `P` whether it is done or not, and so do the snapshot
and the number of failed placements. -/
structure MeshDriver.DeploysKeep (driver : MeshDriver σ) (grant : Option String) (d : Deployment)
    (target : String) (P : TickState σ → Prop) : Prop where
  atlas : ∀ {t}, P t → P { t with mesh := (driver.atlas t.mesh).2 }
  deployed : ∀ {t nodeId job mesh}, P t → driver.deploy nodeId d grant t.mesh = (.ok job, mesh) →
    P { replicas := t.replicas ++ [⟨job, nodeId, target, .pending⟩]
        report := { t.report with placed := t.report.placed ++ [job] }
        mesh }
  notDeployed : ∀ {t nodeId e mesh}, P t →
    driver.deploy nodeId d grant t.mesh = (.error e, mesh) → P { t with mesh }
  notPlaced : ∀ {t} placeFailures, P t → P { t with report := { t.report with placeFailures } }

namespace MeshDriver.DeploysKeep

variable {driver : MeshDriver σ} {grant : Option String} {d : Deployment} {target : String}
  {P : TickState σ → Prop} (h : driver.DeploysKeep grant d target P)

include h

theorem placeLoop (attempts : ℕ) {p : PlaceState σ} (hp : P p.tick) :
    P (CeGke.placeLoop driver grant d target attempts p).tick :=
  placeLoop_rule (P := fun _ ↦ P) h.deployed h.notDeployed h.notPlaced attempts hp

theorem settle {p : PlaceState σ} (hp : P p.tick) : P p.settle := by
  unfold PlaceState.settle
  split_ifs
  · exact h.notPlaced _ hp
  · exact hp

end MeshDriver.DeploysKeep

/-- Step 4.  Behind a closed gate nothing is placed. -/
theorem place_rule {driver : MeshDriver σ} {grant : Option String} {d : Deployment}
    {target : String} {gate : Gate} {P : TickState σ → Prop}
    (h : gate.isReady → driver.DeploysKeep grant d target P) (now maxStaleSecs : UInt64)
    (toPlace : ℕ) {t : TickState σ} (ht : P t) :
    P (place driver now maxStaleSecs grant d target gate toPlace t) := by
  rw [place_eq]
  split_ifs with hready
  · exact (h hready.2).settle ((h hready.2).placeLoop _ ((h hready.2).atlas ht))
  · exact ht

/-! ## Two runs of a stage -/

/-- The laws for kills on two meshes: related states track the same replicas, a kill is answered
alike on both, and what is made of the answer is related again. -/
structure KillsAlike (driver : MeshDriver σ) (driver' : MeshDriver τ) (grant : Option String)
    (R : TickState σ → TickState τ → Prop) : Prop where
  replicas : ∀ {t t'}, R t t' → t.replicas = t'.replicas
  killFailures : ∀ {t t'}, R t t' → t.report.killFailures = t'.report.killFailures
  answer : ∀ {t t'} nodeId job, R t t' →
    (driver.kill nodeId job grant t.mesh).1 = (driver'.kill nodeId job grant t'.mesh).1
  killed : ∀ {t t'} nodeId job (count : ℕ → ℕ), R t t' →
    R { replicas := t.replicas.filter fun r ↦ r.jobId ≠ job
        report :=
          { t.report with
            killed := t.report.killed ++ [job]
            killFailures := count t.report.killFailures }
        mesh := (driver.kill nodeId job grant t.mesh).2 }
      { replicas := t'.replicas.filter fun r ↦ r.jobId ≠ job
        report :=
          { t'.report with
            killed := t'.report.killed ++ [job]
            killFailures := count t'.report.killFailures }
        mesh := (driver'.kill nodeId job grant t'.mesh).2 }
  notKilled : ∀ {t t'} nodeId job (count : ℕ → ℕ), R t t' →
    R { t with
        report := { t.report with killFailures := count t.report.killFailures }
        mesh := (driver.kill nodeId job grant t.mesh).2 }
      { t' with
        report := { t'.report with killFailures := count t'.report.killFailures }
        mesh := (driver'.kill nodeId job grant t'.mesh).2 }

namespace KillsAlike

variable {driver : MeshDriver σ} {driver' : MeshDriver τ} {grant : Option String}
  {R : TickState σ → TickState τ → Prop} (h : KillsAlike driver driver' grant R)

include h

theorem tryKill {t : TickState σ} {t' : TickState τ} (ht : R t t') (job : String) :
    R (CeGke.tryKill driver grant t job) (CeGke.tryKill driver' grant t' job) := by
  unfold CeGke.tryKill
  rw [h.replicas ht]
  cases t'.replicas.find? fun r ↦ r.jobId = job with
  | none => exact ht
  | some r =>
      have hanswer := h.answer r.nodeId job ht
      have hkilled := h.killed r.nodeId job id ht
      have hnotKilled := h.notKilled r.nodeId job (· + 1) ht
      rcases hkill : driver.kill r.nodeId job grant t.mesh with ⟨res, mesh⟩
      rcases hkill' : driver'.kill r.nodeId job grant t'.mesh with ⟨res', mesh'⟩
      rw [hkill, hkill'] at hanswer hkilled hnotKilled
      obtain rfl : res = res' := hanswer
      simp only [hkill, hkill']
      cases res with
      | ok u => exact h.replicas ht ▸ hkilled
      | error e => exact h.replicas ht ▸ hnotKilled

theorem foldl_tryKill (toKill : List String) {t : TickState σ} {t' : TickState τ} (ht : R t t') :
    R (toKill.foldl (CeGke.tryKill driver grant) t)
      (toKill.foldl (CeGke.tryKill driver' grant) t') := by
  induction toKill generalizing t t' with
  | nil => exact ht
  | cons job toKill ih => exact ih (h.tryKill ht job)

theorem killAlternates (toKill onTargetLive : List String) (excess : ℤ) {t : TickState σ}
    {t' : TickState τ} (ht : R t t') :
    R (CeGke.killAlternates driver grant toKill onTargetLive excess t)
      (CeGke.killAlternates driver' grant toKill onTargetLive excess t') := by
  induction onTargetLive generalizing excess t t' with
  | nil => exact ht
  | cons job onTargetLive ih =>
      rw [CeGke.killAlternates, CeGke.killAlternates]
      split_ifs
      · exact ht
      · exact ih excess ht
      · rw [h.replicas ht]
        cases t'.replicas.find? fun r ↦ r.jobId = job with
        | none => exact ih excess ht
        | some r =>
            have hanswer := h.answer r.nodeId job ht
            have hkilled := h.killed r.nodeId job (· - 1) ht
            have hnotKilled := h.notKilled r.nodeId job id ht
            rcases hkill : driver.kill r.nodeId job grant t.mesh with ⟨res, mesh⟩
            rcases hkill' : driver'.kill r.nodeId job grant t'.mesh with ⟨res', mesh'⟩
            rw [hkill, hkill'] at hanswer hkilled hnotKilled
            obtain rfl : res = res' := hanswer
            simp only [hkill, hkill']
            cases res with
            | ok u => exact ih _ (h.replicas ht ▸ hkilled)
            | error e => exact ih _ (h.replicas ht ▸ hnotKilled)

theorem substitute (desired : ℕ) (target : String) (toKill : List String) {t : TickState σ}
    {t' : TickState τ} (ht : R t t') :
    R (CeGke.substitute driver grant desired target toKill t)
      (CeGke.substitute driver' grant desired target toKill t') := by
  unfold CeGke.substitute
  rw [h.killFailures ht, h.replicas ht]
  split_ifs
  · exact h.killAlternates _ _ _ ht
  · exact ht

end KillsAlike

/-- The laws for deploys on two meshes, of a deployment each. -/
structure DeploysAlike (driver : MeshDriver σ) (driver' : MeshDriver τ) (grant : Option String)
    (d d' : Deployment) (target : String) (R : TickState σ → TickState τ → Prop) : Prop where
  answer : ∀ {t t'} nodeId, R t t' →
    (driver.deploy nodeId d grant t.mesh).1 = (driver'.deploy nodeId d' grant t'.mesh).1
  deployed : ∀ {t t'} nodeId job, R t t' →
    R { replicas := t.replicas ++ [⟨job, nodeId, target, .pending⟩]
        report := { t.report with placed := t.report.placed ++ [job] }
        mesh := (driver.deploy nodeId d grant t.mesh).2 }
      { replicas := t'.replicas ++ [⟨job, nodeId, target, .pending⟩]
        report := { t'.report with placed := t'.report.placed ++ [job] }
        mesh := (driver'.deploy nodeId d' grant t'.mesh).2 }
  notDeployed : ∀ {t t'} nodeId, R t t' →
    R { t with mesh := (driver.deploy nodeId d grant t.mesh).2 }
      { t' with mesh := (driver'.deploy nodeId d' grant t'.mesh).2 }
  notPlaced : ∀ {t t'} (n : ℕ), R t t' →
    R { t with report := { t.report with placeFailures := t.report.placeFailures + n } }
      { t' with report := { t'.report with placeFailures := t'.report.placeFailures + n } }

/-- As much is left to place, on the same candidates. -/
structure PlacesAlike (R : TickState σ → TickState τ → Prop) (p : PlaceState σ)
    (p' : PlaceState τ) : Prop where
  toPlace : p.toPlace = p'.toPlace
  candidates : p.candidates = p'.candidates
  tick : R p.tick p'.tick

namespace DeploysAlike

variable {driver : MeshDriver σ} {driver' : MeshDriver τ} {grant : Option String}
  {d d' : Deployment} {target : String} {R : TickState σ → TickState τ → Prop}
  (h : DeploysAlike driver driver' grant d d' target R)

include h

theorem placeLoop (attempts : ℕ) {p : PlaceState σ} {p' : PlaceState τ}
    (hp : PlacesAlike R p p') :
    PlacesAlike R (CeGke.placeLoop driver grant d target attempts p)
      (CeGke.placeLoop driver' grant d' target attempts p') := by
  induction attempts generalizing p p' with
  | zero => exact hp
  | succ attempts ih =>
      obtain ⟨toPlace, candidates, t⟩ := p
      obtain ⟨_, _, t'⟩ := p'
      obtain ⟨rfl, rfl, ht⟩ := hp
      rw [CeGke.placeLoop, CeGke.placeLoop]
      split_ifs
      · exact ⟨rfl, rfl, ht⟩
      · cases candidates with
        | nil => exact ⟨rfl, rfl, h.notPlaced _ ht⟩
        | cons best rest =>
            have hanswer := h.answer best.nodeId ht
            have hdeployed := fun job ↦ h.deployed best.nodeId job ht
            have hnotDeployed := h.notDeployed best.nodeId ht
            rcases hdeploy : driver.deploy best.nodeId d grant t.mesh with ⟨res, mesh⟩
            rcases hdeploy' : driver'.deploy best.nodeId d' grant t'.mesh with ⟨res', mesh'⟩
            rw [hdeploy, hdeploy'] at hanswer hnotDeployed
            rw [hdeploy, hdeploy'] at hdeployed
            obtain rfl : res = res' := hanswer
            simp only [hdeploy, hdeploy']
            cases res with
            | ok job => exact ih ⟨rfl, rfl, hdeployed job⟩
            | error e => exact ih ⟨rfl, rfl, hnotDeployed⟩

theorem settle {p : PlaceState σ} {p' : PlaceState τ} (hp : PlacesAlike R p p') :
    R p.settle p'.settle := by
  unfold PlaceState.settle
  rw [hp.toPlace, hp.candidates]
  split_ifs
  · exact h.notPlaced _ hp.tick
  · exact hp.tick

end DeploysAlike

end CeGke
