import CeGke.Controller.Calls
import Mathlib.Data.Finset.Card

/-!
# The offers of the placement loop

The placement loop offers replicas to the best candidate until all are placed, no candidate
is left, or the cap on its attempts is reached.  `Offers` is what the driver answers, with
no regard to the cap; a tick places by the longest such run that the cap allows
(`placeLoop_offers`).  The shortfall goes unreported exactly when the last offer that the
cap allows also uses up the last candidate, and replicas are left unplaced beside a host
that rejected none exactly when the cap comes too soon.
-/

namespace CeGke

variable {σ : Type}

/-! ## Runs of offers -/

namespace PlaceState

/-- The best candidate has taken a replica. -/
def accept (target : String) (p : PlaceState σ) (best : Candidate) (job : String) (mesh : σ) :
    PlaceState σ where
  toPlace := p.toPlace - 1
  candidates := (penalize best.nodeId p.candidates).insertionSort Candidate.Before
  tick :=
    { replicas := p.tick.replicas ++ [⟨job, best.nodeId, target, .pending⟩]
      report := { p.tick.report with placed := p.tick.report.placed ++ [job] }
      mesh }

/-- The best candidate has rejected a replica. -/
def reject (p : PlaceState σ) (best : Candidate) (mesh : σ) : PlaceState σ :=
  { p with
    candidates := p.candidates.filter fun c ↦ c.nodeId ≠ best.nodeId
    tick := { p.tick with mesh } }

/-- The hosts that are left. -/
def hosts (p : PlaceState σ) : Finset String := (p.candidates.map Candidate.nodeId).toFinset

/-- How many offers the loop makes at most when it starts from `p`. -/
def cap (p : PlaceState σ) : ℕ := maxAttempts p.toPlace p.candidates

end PlaceState

/-- An offer of the loop, and whether the host took it. -/
structure Offer where
  nodeId : String
  accepted : Bool
deriving DecidableEq, Repr

/-- Between `p` and `p'` the driver gives these answers to what it is offered. -/
inductive Offers (driver : MeshDriver σ) (grant : Option String) (d : Deployment)
    (target : String) : PlaceState σ → List Offer → PlaceState σ → Prop
  | nil (p : PlaceState σ) : Offers driver grant d target p [] p
  | accepted {p p' : PlaceState σ} {best : Candidate} {rest : List Candidate} {job : String}
      {mesh : σ} {offers : List Offer} (hplace : p.toPlace ≠ 0)
      (hbest : p.candidates = best :: rest)
      (hdeploy : driver.deploy best.nodeId d grant p.tick.mesh = (.ok job, mesh))
      (h : Offers driver grant d target (p.accept target best job mesh) offers p') :
      Offers driver grant d target p (⟨best.nodeId, true⟩ :: offers) p'
  | rejected {p p' : PlaceState σ} {best : Candidate} {rest : List Candidate} {e : String}
      {mesh : σ} {offers : List Offer} (hplace : p.toPlace ≠ 0)
      (hbest : p.candidates = best :: rest)
      (hdeploy : driver.deploy best.nodeId d grant p.tick.mesh = (.error e, mesh))
      (h : Offers driver grant d target (p.reject best mesh) offers p') :
      Offers driver grant d target p (⟨best.nodeId, false⟩ :: offers) p'

/-- How many offers were taken. -/
def takenCount (offers : List Offer) : ℕ := offers.countP fun o ↦ o.accepted

/-- How many offers were rejected. -/
def rejectedCount (offers : List Offer) : ℕ := offers.countP fun o ↦ !o.accepted

section Counts

variable (o : Offer) (offers : List Offer)

@[simp] theorem takenCount_nil : takenCount [] = 0 := rfl

@[simp] theorem rejectedCount_nil : rejectedCount [] = 0 := rfl

@[simp] theorem takenCount_cons : takenCount (o :: offers) =
    takenCount offers + if o.accepted then 1 else 0 := List.countP_cons

@[simp] theorem rejectedCount_cons : rejectedCount (o :: offers) =
    rejectedCount offers + if o.accepted then 0 else 1 := by
  rw [rejectedCount, List.countP_cons]
  cases o.accepted <;> rfl

theorem length_eq_takenCount_add :
    offers.length = takenCount offers + rejectedCount offers := by
  induction offers with
  | nil => rfl
  | cons o offers ih =>
      rw [List.length_cons, takenCount_cons, rejectedCount_cons, ih]
      cases o.accepted <;> simp <;> omega

end Counts

/-! ## The hosts that are left -/

theorem map_nodeId_penalize (nodeId : String) (l : List Candidate) :
    (penalize nodeId l).map Candidate.nodeId = l.map Candidate.nodeId := by
  induction l with
  | nil => rfl
  | cons c l ih =>
      rw [penalize]
      split_ifs
      · rfl
      · rw [List.map_cons, List.map_cons, ih]

namespace PlaceState

variable {p : PlaceState σ} {best : Candidate}

@[simp] theorem hosts_accept {target job : String} {mesh : σ} :
    (p.accept target best job mesh).hosts = p.hosts := by
  apply List.toFinset_eq_of_perm
  have hperm := (List.perm_insertionSort Candidate.Before (penalize best.nodeId p.candidates)).map
    Candidate.nodeId
  rwa [map_nodeId_penalize] at hperm

@[simp] theorem hosts_reject {mesh : σ} :
    (p.reject best mesh).hosts = p.hosts.erase best.nodeId := by
  ext nodeId
  simp only [hosts, reject, List.mem_toFinset, List.mem_map, List.mem_filter, Finset.mem_erase,
    decide_eq_true_eq]
  constructor
  · rintro ⟨c, ⟨hc, hne⟩, rfl⟩
    exact ⟨hne, c, hc, rfl⟩
  · rintro ⟨hne, c, hc, rfl⟩
    exact ⟨c, ⟨hc, hne⟩, rfl⟩

theorem card_hosts_eq_zero : p.hosts.card = 0 ↔ p.candidates = [] := by
  rw [hosts, Finset.card_eq_zero, List.toFinset_eq_empty_iff, List.map_eq_nil_iff]

theorem best_mem_hosts {rest : List Candidate} (hbest : p.candidates = best :: rest) :
    best.nodeId ∈ p.hosts := by
  rw [hosts, hbest]
  exact List.mem_toFinset.mpr (List.mem_map_of_mem List.mem_cons_self)

end PlaceState

/-! ## What a run of offers does -/

namespace Offers

variable {driver : MeshDriver σ} {grant : Option String} {d : Deployment} {target : String}
  {p p' p'' : PlaceState σ} {offers offers' : List Offer}

/-- What was taken is placed. -/
theorem toPlace_eq (h : Offers driver grant d target p offers p') :
    p.toPlace = p'.toPlace + takenCount offers := by
  induction h with
  | nil p => rfl
  | accepted hplace hbest hdeploy h ih =>
      rw [PlaceState.accept] at ih
      rw [takenCount_cons, if_pos rfl]
      have hpos := Nat.pos_of_ne_zero hplace
      simp only at ih
      omega
  | rejected hplace hbest hdeploy h ih =>
      rw [takenCount_cons, if_neg Bool.false_ne_true]
      exact ih

/-- Each rejection costs one host. -/
theorem card_hosts_eq (h : Offers driver grant d target p offers p') :
    p.hosts.card = p'.hosts.card + rejectedCount offers := by
  induction h with
  | nil p => rfl
  | accepted hplace hbest hdeploy h ih =>
      rw [rejectedCount_cons, if_pos rfl, Nat.add_zero, ← ih, PlaceState.hosts_accept]
  | rejected hplace hbest hdeploy h ih =>
      have hmem := PlaceState.best_mem_hosts hbest
      rw [PlaceState.hosts_reject, Finset.card_erase_of_mem hmem] at ih
      rw [rejectedCount_cons, if_neg Bool.false_ne_true, ← Nat.add_assoc, ← ih]
      exact (Nat.sub_add_cancel (Finset.card_pos.mpr ⟨_, hmem⟩)).symm

/-- What was taken is reported. -/
theorem placed_eq (h : Offers driver grant d target p offers p') :
    p'.tick.report.placed.length = p.tick.report.placed.length + takenCount offers ∧
      p'.tick.report.placeFailures = p.tick.report.placeFailures := by
  induction h with
  | nil p => exact ⟨rfl, rfl⟩
  | accepted hplace hbest hdeploy h ih =>
      obtain ⟨hplaced, hfailures⟩ := ih
      refine ⟨?_, hfailures⟩
      rw [takenCount_cons, if_pos rfl, hplaced]
      simp only [PlaceState.accept, List.length_append, List.length_singleton]
      omega
  | rejected hplace hbest hdeploy h ih =>
      rw [takenCount_cons, if_neg Bool.false_ne_true]
      exact ih

/-- A host is left exactly when it was there and did not reject. -/
theorem mem_hosts_iff (h : Offers driver grant d target p offers p') {nodeId : String} :
    nodeId ∈ p'.hosts ↔ nodeId ∈ p.hosts ∧ ⟨nodeId, false⟩ ∉ offers := by
  induction h with
  | nil p => simp
  | accepted hplace hbest hdeploy h ih => simp [ih]
  | rejected hplace hbest hdeploy h ih =>
      rw [ih, PlaceState.hosts_reject, Finset.mem_erase, List.mem_cons, not_or, Offer.mk.injEq]
      simp only [and_true]
      constructor
      · rintro ⟨⟨hne, hmem⟩, hnot⟩
        exact ⟨hmem, hne, hnot⟩
      · rintro ⟨hmem, hne, hnot⟩
        exact ⟨⟨hne, hmem⟩, hnot⟩

/-- Nothing is offered when nothing is to place or no host is left. -/
theorem eq_nil (h : Offers driver grant d target p offers p')
    (hstop : p.toPlace = 0 ∨ p.candidates = []) : offers = [] := by
  cases h with
  | nil p => rfl
  | accepted hplace hbest hdeploy h =>
      rcases hstop with hstop | hstop
      · exact absurd hstop hplace
      · exact absurd (hbest.symm.trans hstop) (List.cons_ne_nil _ _)
  | rejected hplace hbest hdeploy h =>
      rcases hstop with hstop | hstop
      · exact absurd hstop hplace
      · exact absurd (hbest.symm.trans hstop) (List.cons_ne_nil _ _)

/-- The answers are determined: a longer run continues a shorter one. -/
theorem exists_append (h : Offers driver grant d target p offers p')
    (h' : Offers driver grant d target p offers' p'') (hle : offers.length ≤ offers'.length) :
    ∃ more, offers' = offers ++ more ∧ Offers driver grant d target p' more p'' := by
  induction h generalizing offers' with
  | nil p => exact ⟨offers', rfl, h'⟩
  | accepted hplace hbest hdeploy h ih =>
      cases h' with
      | nil p => exact absurd hle (by simp)
      | accepted hplace' hbest' hdeploy' h' =>
          obtain ⟨rfl, rfl⟩ := List.cons.inj (hbest.symm.trans hbest')
          obtain ⟨hjob, rfl⟩ := Prod.mk.inj (hdeploy.symm.trans hdeploy')
          obtain rfl := Except.ok.inj hjob
          obtain ⟨more, rfl, hmore⟩ := ih h' (Nat.le_of_succ_le_succ hle)
          exact ⟨more, rfl, hmore⟩
      | rejected hplace' hbest' hdeploy' h' =>
          obtain ⟨rfl, rfl⟩ := List.cons.inj (hbest.symm.trans hbest')
          exact nomatch (Prod.mk.inj (hdeploy.symm.trans hdeploy')).1
  | rejected hplace hbest hdeploy h ih =>
      cases h' with
      | nil p => exact absurd hle (by simp)
      | accepted hplace' hbest' hdeploy' h' =>
          obtain ⟨rfl, rfl⟩ := List.cons.inj (hbest.symm.trans hbest')
          exact nomatch (Prod.mk.inj (hdeploy.symm.trans hdeploy')).1
      | rejected hplace' hbest' hdeploy' h' =>
          obtain ⟨rfl, rfl⟩ := List.cons.inj (hbest.symm.trans hbest')
          obtain ⟨_, rfl⟩ := Prod.mk.inj (hdeploy.symm.trans hdeploy')
          obtain ⟨more, rfl, hmore⟩ := ih h' (Nat.le_of_succ_le_succ hle)
          exact ⟨more, rfl, hmore⟩

/-- A run that has stopped is the longest one. -/
theorem eq_of_stop (h : Offers driver grant d target p offers p')
    (h' : Offers driver grant d target p offers' p'') (hle : offers.length ≤ offers'.length)
    (hstop : offers.length < offers'.length → p'.toPlace = 0 ∨ p'.candidates = []) :
    offers' = offers := by
  obtain ⟨more, rfl, hmore⟩ := h.exists_append h' hle
  suffices hnil : more = [] by rw [hnil, List.append_nil]
  by_contra hne
  have hlt : offers.length < (offers ++ more).length := by
    rw [List.length_append]
    exact Nat.lt_add_of_pos_right (List.length_pos_iff.mpr hne)
  exact hne (hmore.eq_nil (hstop hlt))

end Offers

/-- With few rejections the cap is not used up while replicas are left to place: for it to be,
more than three candidates must reject for each replica. -/
theorem PlaceState.lt_cap (p : PlaceState σ) (hplace : p.toPlace * 4 ≤ u32Max)
    (hsize : p.candidates.length + 1 < 2 ^ 32) {taken rejected : ℕ} (htaken : taken < p.toPlace)
    (hfew : p.toPlace + rejected ≤ p.candidates.length + 1 ∨ rejected ≤ 3 * p.toPlace) :
    taken + rejected < p.cap := by
  have hlen : asU32 (asU32 p.candidates.length + 1) = p.candidates.length + 1 := by
    rw [asU32, asU32, Nat.mod_eq_of_lt (Nat.lt_of_succ_lt hsize), Nat.mod_eq_of_lt hsize]
  rw [cap, maxAttempts, hlen, saturatingMul, min_eq_left hplace, lt_max_iff]
  omega

/-! ## The loop -/

/-- The tick state with `n` more placements that failed. -/
def TickState.failing (t : TickState σ) (n : ℕ) : TickState σ :=
  { t with report := { t.report with placeFailures := t.report.placeFailures + n } }

@[simp] theorem TickState.failing_zero (t : TickState σ) : t.failing 0 = t := rfl

/-- After the loop the replicas that are left count as failures if a candidate is. -/
theorem PlaceState.settle_eq (p : PlaceState σ) :
    p.settle = p.tick.failing (if p.candidates = [] then 0 else p.toPlace) := by
  unfold settle
  by_cases hcandidates : p.candidates = []
  · rw [if_neg fun h ↦ h.2 hcandidates, if_pos hcandidates, TickState.failing_zero]
  · rw [if_neg hcandidates]
    split_ifs with h
    · rfl
    · have hzero : p.toPlace = 0 := Nat.eq_zero_of_not_pos fun hpos ↦ h ⟨hpos, hcandidates⟩
      rw [hzero, TickState.failing_zero]

/-- **The placement loop is the longest run of offers that its cap allows.**  What it leaves
unplaced is a failure, but not when the last candidate rejects the last offer. -/
theorem placeLoop_offers (driver : MeshDriver σ) (grant : Option String) (d : Deployment)
    (target : String) (attempts : ℕ) (p : PlaceState σ) :
    ∃ offers p', Offers driver grant d target p offers p' ∧ offers.length ≤ attempts ∧
      (offers.length < attempts → p'.toPlace = 0 ∨ p'.candidates = []) ∧
        (placeLoop driver grant d target attempts p).settle = p'.tick.failing
          (if p'.candidates = [] ∧ offers.length = attempts then 0 else p'.toPlace) := by
  induction attempts generalizing p with
  | zero =>
      refine ⟨[], p, .nil p, le_rfl, fun h ↦ absurd h (lt_irrefl 0), ?_⟩
      rw [placeLoop, PlaceState.settle_eq]
      simp
  | succ attempts ih =>
      rw [placeLoop]
      split_ifs with hplace
      · refine ⟨[], p, .nil p, Nat.zero_le _, fun _ ↦ Or.inl hplace, ?_⟩
        simp [PlaceState.settle_eq, hplace]
      · split
        · rename_i hnone
          refine ⟨[], p, .nil p, Nat.zero_le _, fun _ ↦ Or.inr hnone, ?_⟩
          simp [PlaceState.settle_eq, hnone, TickState.failing]
        · rename_i best rest hbest
          split
          · rename_i job mesh hdeploy
            obtain ⟨offers, p', hoffers, hle, hstop, hsettle⟩ :=
              ih (p.accept target best job mesh)
            refine ⟨_, p', .accepted hplace hbest hdeploy hoffers, Nat.succ_le_succ hle,
              fun h ↦ hstop (Nat.lt_of_succ_lt_succ h), hsettle.trans ?_⟩
            simp only [List.length_cons, Nat.add_right_cancel_iff]
          · rename_i e mesh hdeploy
            obtain ⟨offers, p', hoffers, hle, hstop, hsettle⟩ := ih (p.reject best mesh)
            refine ⟨_, p', .rejected hplace hbest hdeploy hoffers, Nat.succ_le_succ hle,
              fun h ↦ hstop (Nat.lt_of_succ_lt_succ h), hsettle.trans ?_⟩
            simp only [List.length_cons, Nat.add_right_cancel_iff]

/-! ## The placements of a tick -/

namespace Controller

section Tick

variable [Sha256] (driver : MeshDriver σ) (d : Deployment) (c : Controller) (s : σ)

/-- What the placement loop of a tick starts from. -/
def placing (now : UInt64) : PlaceState σ :=
  let t := c.afterSubstitutes driver d s
  { toPlace := (c.plan driver d s).toPlace
    candidates := rank ((driver.atlas t.mesh).1.toOption.getD []) d now.toNat
      c.maxStaleSecs.toNat
    tick := { t with mesh := (driver.atlas t.mesh).2 } }

@[simp] theorem placing_toPlace (now : UInt64) :
    (c.placing driver d s now).toPlace = (c.plan driver d s).toPlace := rfl

theorem afterPlacements_eq (hready : (c.planned driver d s).1.isReady = true)
    (hplace : 0 < (c.plan driver d s).toPlace) (now : UInt64) :
    c.afterPlacements driver d s now =
      (placeLoop driver c.grant d d.revision (c.placing driver d s now).cap
        (c.placing driver d s now)).settle := by
  rw [afterPlacements, place_eq, if_pos ⟨hplace, hready⟩]
  rfl

/-- The run of offers that a tick makes. -/
theorem tick_offers (hready : (c.planned driver d s).1.isReady = true)
    (hplace : 0 < (c.plan driver d s).toPlace) (now : UInt64) :
    ∃ offers p', Offers driver c.grant d d.revision (c.placing driver d s now) offers p' ∧
      offers.length ≤ (c.placing driver d s now).cap ∧
        (offers.length < (c.placing driver d s now).cap →
          p'.toPlace = 0 ∨ p'.candidates = []) ∧
          (c.tick driver d s now).1.placed.length = takenCount offers ∧
            (c.tick driver d s now).1.placeFailures =
              if p'.candidates = [] ∧ offers.length = (c.placing driver d s now).cap then 0
              else p'.toPlace := by
  obtain ⟨offers, p', hoffers, hle, hstop, hsettle⟩ := placeLoop_offers driver c.grant d
    d.revision (c.placing driver d s now).cap (c.placing driver d s now)
  obtain ⟨hplaced, hfailures⟩ := hoffers.placed_eq
  have hafter := c.afterPlacements_eq driver d s hready hplace now
  have hplaced₀ : (c.placing driver d s now).tick.report.placed = [] :=
    c.afterSubstitutes_report (fun _ _ _ ↦ rfl) driver d s
  have hfailures₀ : (c.placing driver d s now).tick.report.placeFailures = 0 :=
    c.afterSubstitutes_report (fun _ _ _ ↦ rfl) driver d s
  refine ⟨offers, p', hoffers, hle, hstop, ?_, ?_⟩
  · rw [(c.tick_eq driver d s now).2.1, hafter, hsettle, TickState.failing, hplaced, hplaced₀]
    exact Nat.zero_add _
  · have hadvertise : (c.tick driver d s now).1.placeFailures =
        (c.afterPlacements driver d s now).report.placeFailures :=
      advertise_report (fun _ _ ↦ rfl) driver d _ _
    rw [hadvertise, hafter, hsettle, TickState.failing, hfailures, hfailures₀]
    exact Nat.zero_add _

end Tick

/-- **When the shortfall is accounted for**: in a tick that places, what is placed and what is
counted as failed make up what was planned, unless the driver rejects a deploy on every
candidate and takes fewer replicas than planned with just as many offers as the cap. -/
theorem shortfall_accounted_iff [Sha256] (driver : MeshDriver σ) (d : Deployment)
    (c : Controller) (s : σ) (hready : (c.planned driver d s).1.isReady = true)
    (hplace : 0 < (c.plan driver d s).toPlace) (now : UInt64) :
    (c.tick driver d s now).1.placed.length + (c.tick driver d s now).1.placeFailures =
        (c.plan driver d s).toPlace ↔
      ¬ ∃ offers p', Offers driver c.grant d d.revision (c.placing driver d s now) offers p' ∧
        offers.length = (c.placing driver d s now).cap ∧
          takenCount offers < (c.plan driver d s).toPlace ∧
            rejectedCount offers = (c.placing driver d s now).hosts.card := by
  obtain ⟨offers, p', hoffers, hle, hstop, hplaced, hfailures⟩ :=
    c.tick_offers driver d s hready hplace now
  have htaken := hoffers.toPlace_eq
  have hhosts := hoffers.card_hosts_eq
  rw [placing_toPlace] at htaken
  rw [hplaced, hfailures]
  constructor
  · rintro hsum ⟨offers', p'', hoffers', hlen, hless, hall⟩
    obtain rfl := hoffers.eq_of_stop hoffers' (hle.trans_eq hlen.symm) (hlen ▸ hstop)
    have hnone : p'.candidates = [] := by
      rw [← PlaceState.card_hosts_eq_zero]
      omega
    rw [if_pos ⟨hnone, hlen⟩] at hsum
    omega
  · intro hnot
    split_ifs with hcut
    · obtain ⟨hnone, hlen⟩ := hcut
      have hzero := PlaceState.card_hosts_eq_zero.mpr hnone
      by_contra hsum
      exact hnot ⟨offers, p', hoffers, hlen, by omega, by omega⟩
    · omega

/-- Two replicas and seven hosts: one host takes a replica, then all reject one, and the
second replica is neither placed nor counted as failed. -/
theorem shortfall_unaccounted :
    let hosts : List AtlasEntry :=
      ["a", "b", "c", "d", "e", "f", "g"].map fun node ↦ ⟨node, 8, 8192, 0, 0, fun _ ↦ true⟩
    let driver := pickyDriver hosts fun _ n ↦ n = 0
    let d : Deployment :=
      { name := "web", nameSpace := "default", image := "nginx", replicas := 2
        resources := { cpuCores := 1, memMb := 64 } }
    let report := (@Controller.tick ℕ Deployment.nginxSha256 driver d {} 0 0).1
    d.validate = .ok () ∧
      (@Controller.planned ℕ Deployment.nginxSha256 driver d {} 0).1.isReady = true ∧
        (@Controller.plan ℕ Deployment.nginxSha256 driver d {} 0).toPlace = 2 ∧
          report.placed = ["job-0"] ∧ report.placeFailures = 0 := by
  decide +kernel

/-- With the seventh host gone the shortfall is counted, so no run of offers uses up both the
cap and the candidates. -/
theorem shortfall_accounted_six :
    let hosts : List AtlasEntry :=
      ["a", "b", "c", "d", "e", "f"].map fun node ↦ ⟨node, 8, 8192, 0, 0, fun _ ↦ true⟩
    let driver := pickyDriver hosts fun _ n ↦ n = 0
    let d : Deployment := { replicas := 2, resources := { cpuCores := 1, memMb := 64 } }
    let p := @Controller.placing ℕ Deployment.nginxSha256 driver d {} 0 0
    ¬ ∃ offers p',
      Offers driver none d (@Deployment.revision Deployment.nginxSha256 d) p offers p' ∧
        offers.length = p.cap ∧
          takenCount offers < p.toPlace ∧
            rejectedCount offers = p.hosts.card := by
  intro hosts driver d p
  exact (@Controller.shortfall_accounted_iff ℕ Deployment.nginxSha256 driver d {} 0
    (by decide +kernel) (by decide +kernel) 0).mp (by decide +kernel)

/-- **When a willing host is reached**: a tick that places, and in which some candidate
rejects nothing, places all that is planned, unless the cap is used up by fewer replicas
taken than planned and by rejections of some but not all of the candidates. -/
theorem willing_host_reached_iff [Sha256] (driver : MeshDriver σ) (d : Deployment)
    (c : Controller) (s : σ) (hready : (c.planned driver d s).1.isReady = true)
    (hplace : 0 < (c.plan driver d s).toPlace) (now : UInt64) :
    ((∃ w ∈ (c.placing driver d s now).candidates, ∀ offers p',
        Offers driver c.grant d d.revision (c.placing driver d s now) offers p' →
          offers.length ≤ (c.placing driver d s now).cap → ⟨w.nodeId, false⟩ ∉ offers) →
      (c.tick driver d s now).1.placed.length = (c.plan driver d s).toPlace ∧
        (c.tick driver d s now).1.placeFailures = 0) ↔
      ¬ ∃ offers p', Offers driver c.grant d d.revision (c.placing driver d s now) offers p' ∧
        offers.length = (c.placing driver d s now).cap ∧
          takenCount offers < (c.plan driver d s).toPlace ∧
            rejectedCount offers < (c.placing driver d s now).hosts.card := by
  obtain ⟨offers, p', hoffers, hle, hstop, hplaced, hfailures⟩ :=
    c.tick_offers driver d s hready hplace now
  have htaken := hoffers.toPlace_eq
  have hhosts := hoffers.card_hosts_eq
  rw [placing_toPlace] at htaken
  rw [hplaced, hfailures]
  constructor
  · rintro hwilling ⟨offers', p'', hoffers', hlen, hless, hsome⟩
    obtain rfl := hoffers.eq_of_stop hoffers' (hle.trans_eq hlen.symm) (hlen ▸ hstop)
    -- A host that is left has rejected nothing, so the tick should have placed it all.
    have hleft : 0 < p'.hosts.card := by omega
    obtain ⟨nodeId, hnode⟩ := Finset.card_pos.mp hleft
    obtain ⟨hmem, hnever⟩ := hoffers.mem_hosts_iff.mp hnode
    obtain ⟨w, hw, rfl⟩ := List.mem_map.mp (List.mem_toFinset.mp hmem)
    have hall := hwilling ⟨w, hw, fun offers'' q hoffers'' hle'' hrejected ↦ ?_⟩
    · exact hless.ne hall.1
    · obtain ⟨more, rfl, _⟩ := hoffers''.exists_append hoffers' (hle''.trans_eq hlen.symm)
      exact hnever (List.mem_append_left _ hrejected)
  · rintro hnot ⟨w, hw, hnever⟩
    have hmem : w.nodeId ∈ p'.hosts := hoffers.mem_hosts_iff.mpr
      ⟨List.mem_toFinset.mpr (List.mem_map_of_mem hw), hnever _ _ hoffers hle⟩
    have hleft : 0 < p'.hosts.card := Finset.card_pos.mpr ⟨_, hmem⟩
    have hsome : p'.candidates ≠ [] := fun hnone ↦
      hleft.ne' (PlaceState.card_hosts_eq_zero.mpr hnone)
    have hdone : p'.toPlace = 0 := by
      by_contra hpos
      have hlen : offers.length = (c.placing driver d s now).cap := by
        by_contra hne
        exact (hstop (lt_of_le_of_ne hle hne)).elim hpos hsome
      exact hnot ⟨offers, p', hoffers, hlen, by omega, by omega⟩
    rw [if_neg fun h ↦ hsome h.1, hdone]
    exact ⟨by omega, rfl⟩

/-- Three replicas and eleven hosts, of which only the smallest takes any: two are placed
there, and the third is given up. -/
theorem willing_host_missed :
    let hosts : List AtlasEntry :=
      (["a", "b", "c", "d", "e", "f", "g", "h", "i", "j"].map fun node ↦
        ⟨node, 8, 8192, 0, 0, fun _ ↦ true⟩) ++ [⟨"z", 4, 4096, 0, 0, fun _ ↦ true⟩]
    let driver := pickyDriver hosts fun node _ ↦ node = "z"
    let d : Deployment :=
      { name := "web", nameSpace := "default", image := "nginx", replicas := 3
        resources := { cpuCores := 1, memMb := 64 } }
    let report := (@Controller.tick ℕ Deployment.nginxSha256 driver d {} 0 0).1
    d.validate = .ok () ∧
      (@Controller.planned ℕ Deployment.nginxSha256 driver d {} 0).1.isReady = true ∧
        (@Controller.plan ℕ Deployment.nginxSha256 driver d {} 0).toPlace = 3 ∧
          (∃ w ∈ (@Controller.placing ℕ Deployment.nginxSha256 driver d {} 0 0).candidates,
            w.nodeId = "z") ∧
            (∀ d grant n, ∃ job n', driver.deploy "z" d grant n = (.ok job, n')) ∧
              report.placed.length = 2 ∧ report.placeFailures = 1 := by
  intro hosts driver d report
  refine ⟨by decide +kernel, by decide +kernel, by decide +kernel, by decide +kernel, ?_,
    by decide +kernel, by decide +kernel⟩
  exact fun d grant n ↦ ⟨_, _, rfl⟩

/-- Ten hosts, and all three are placed. -/
theorem willing_host_reached_ten :
    let hosts : List AtlasEntry :=
      (["a", "b", "c", "d", "e", "f", "g", "h", "i"].map fun node ↦
        ⟨node, 8, 8192, 0, 0, fun _ ↦ true⟩) ++ [⟨"z", 4, 4096, 0, 0, fun _ ↦ true⟩]
    let driver := pickyDriver hosts fun node _ ↦ node = "z"
    let d : Deployment := { replicas := 3, resources := { cpuCores := 1, memMb := 64 } }
    let p := @Controller.placing ℕ Deployment.nginxSha256 driver d {} 0 0
    ¬ ∃ offers p',
      Offers driver none d (@Deployment.revision Deployment.nginxSha256 d) p offers p' ∧
        offers.length = p.cap ∧
          takenCount offers < p.toPlace ∧
            rejectedCount offers < p.hosts.card := by
  intro hosts driver d p
  exact (@Controller.willing_host_reached_iff ℕ Deployment.nginxSha256 driver d {} 0
    (by decide +kernel) (by decide +kernel) 0).mp fun _ ↦ by decide +kernel

end Controller

end CeGke
