import CeGke.Controller.Calls
import CeGke.Rollout.Converge

/-!
# What a done tick leaves

A tick reports that it is done before it tries the reaps of its own plan.  If they all
succeed it leaves what the deployment asks for, and nothing is left to do; a terminal
replica whose kill fails stays tracked although the tick was done (`Controller.done_iff`).
-/

namespace CeGke

open Lib

variable {σ : Type}

/-! ## The plan of a done tick -/

section Plan

variable {d : Deployment} {l : List ReplicaState} {target : String}

/-- As many replicas are live on target as are desired, and no others. -/
structure AtStrength (d : Deployment) (l : List ReplicaState) (target : String) : Prop where
  oldLive : oldLive target l = 0
  newLive : newLive target l = d.replicas.toNat

theorem atStrength_of_done (hdone : (planStep d l target).done = true) : AtStrength d l target :=
  ⟨(planStep_done.mp hdone).1, (planStep_done.mp hdone).2.1⟩

/-- At strength a plan names only what is terminal. -/
theorem AtStrength.victims_eq (h : AtStrength d l target) :
    victims d l target = l.filter fun r ↦ r.phase.isTerminal := by
  have hoff : ∀ r ∈ l, offTarget target r = false := fun r hr ↦
    Bool.not_eq_true _ ▸ List.countP_eq_zero.mp h.oldLive r hr
  have hunready : l.filter (unreadyOld target) = [] := by
    apply List.filter_eq_nil_iff.mpr
    intro r hr
    simp [unreadyOld, hoff r hr]
  have hready : l.filter (readyOld target) = [] := by
    apply List.filter_eq_nil_iff.mpr
    intro r hr
    simp [readyOld, hoff r hr]
  unfold victims excessNew
  rw [h.oldLive, h.newLive, hunready, hready]
  cases d.strategy with
  | recreate => simp
  | rollingUpdate u s => simp

theorem AtStrength.toPlace_eq (h : AtStrength d l target) : (planStep d l target).toPlace = 0 := by
  cases hs : d.strategy with
  | recreate =>
      rw [planStep_toPlace_recreate hs, h.oldLive, h.newLive, if_neg (Nat.lt_irrefl 0),
        Nat.sub_self]
  | rollingUpdate u s =>
      rw [planStep_toPlace_rolling hs, h.newLive, Nat.sub_self, Nat.zero_min]

/-- Exactly the desired replicas, all running on target. -/
structure Converged (d : Deployment) (target : String) (l : List ReplicaState) : Prop where
  length : l.length = d.replicas.toNat
  running : ∀ r ∈ l, r.phase = .running
  revision : ∀ r ∈ l, r.revision = target

theorem Converged.filter_terminal (h : Converged d target l) :
    l.filter (fun r ↦ r.phase.isTerminal) = [] := by
  apply List.filter_eq_nil_iff.mpr
  intro r hr
  simp [h.running r hr]

/-- Where the deployment has converged there is nothing to plan. -/
theorem Converged.planStep (h : Converged d target l) :
    (planStep d l target).done = true ∧ (planStep d l target).toKill = [] ∧
      (planStep d l target).toPlace = 0 := by
  have hdone : (CeGke.planStep d l target).done = true := by
    refine planStep_done.mpr ⟨?_, ?_, ?_⟩
    · apply List.countP_eq_zero.mpr
      intro r hr
      simp [offTarget, h.revision r hr]
    · rw [← h.length]
      apply List.countP_eq_length.mpr
      intro r hr
      simp [onTarget, h.running r hr, h.revision r hr]
    · rw [← h.length]
      apply List.countP_eq_length.mpr
      intro r hr
      simp [ReplicaState.kind, h.running r hr, h.revision r hr]
  have hstrength := atStrength_of_done hdone
  refine ⟨hdone, ?_, hstrength.toPlace_eq⟩
  rw [planStep_toKill, hstrength.victims_eq, h.filter_terminal, jobIds_nil]

end Plan

/-! ## Reaping -/

/-- The driver kills one replica after the other. -/
def KillsSucceed (driver : MeshDriver σ) (grant : Option String) : List ReplicaState → σ → Prop
  | [], _ => True
  | r :: replicas, s =>
      (driver.kill r.nodeId r.jobId grant s).1 = .ok () ∧
        KillsSucceed driver grant replicas (driver.kill r.nodeId r.jobId grant s).2

/-- A replica that could not be killed stays, for it is named only once. -/
theorem mem_foldl_tryKill {driver : MeshDriver σ} {grant : Option String} {toKill : List String}
    {t : TickState σ} {r : ReplicaState} (hr : r ∈ t.replicas) (hnot : r.jobId ∉ toKill) :
    r ∈ (toKill.foldl (tryKill driver grant) t).replicas := by
  obtain ⟨ks, hks, hkilled⟩ := foldl_tryKill_killed driver grant toKill t
  rw [hkilled.replicas]
  exact mem_without.mpr ⟨hr, fun h ↦ hnot (hks h)⟩

/-- All of the named replicas go exactly when the driver kills them all. -/
theorem reaped_iff (driver : MeshDriver σ) (grant : Option String) {named : List ReplicaState}
    {t : TickState σ} (hnamed : (jobIds named).Nodup) (ht : (jobIds t.replicas).Nodup)
    (hsub : named ⊆ t.replicas) :
    (∀ r ∈ named, r ∉ ((jobIds named).foldl (tryKill driver grant) t).replicas) ↔
      KillsSucceed driver grant named t.mesh := by
  induction named generalizing t with
  | nil => simp [KillsSucceed]
  | cons r named ih =>
      rw [jobIds_cons, List.nodup_cons] at hnamed
      obtain ⟨hr, hsub⟩ := List.cons_subset.mp hsub
      rw [jobIds_cons, List.foldl_cons, KillsSucceed]
      cases hkill : driver.kill r.nodeId r.jobId grant t.mesh with
      | mk res mesh =>
          cases res with
          | error e =>
              have hstep : r ∈ (tryKill driver grant t r.jobId).replicas := by
                rw [(tryKill_of_error ht hr hkill).1]
                exact hr
              constructor
              · intro h
                exact absurd (mem_foldl_tryKill hstep hnamed.1) (h r List.mem_cons_self)
              · exact fun h ↦ absurd h.1 (by simp)
          | ok u =>
              obtain ⟨hreplicas, hmesh, _⟩ := tryKill_of_ok ht hr hkill
              set t' := tryKill driver grant t r.jobId
              have hsub' : named ⊆ t'.replicas := by
                intro r' hr'
                rw [hreplicas]
                refine List.mem_filter.mpr ⟨hsub hr', decide_eq_true ?_⟩
                exact fun hid ↦ hnamed.1 (mem_jobIds.mpr ⟨r', hr', hid⟩)
              have hnodup' : (jobIds t'.replicas).Nodup := by
                rw [hreplicas]
                exact ht.sublist (List.filter_sublist.map _)
              have hgone : r ∉ ((jobIds named).foldl (tryKill driver grant) t').replicas := by
                intro hmem
                obtain ⟨ks, _, hkilled⟩ := foldl_tryKill_killed driver grant (jobIds named) t'
                rw [hkilled.replicas, hreplicas] at hmem
                simpa using (List.mem_filter.mp (mem_without.mp hmem).1).2
              have ih := ih hnamed.2 hnodup' hsub'
              rw [hmesh] at ih
              rw [List.forall_mem_cons, ih]
              exact and_congr_left fun _ ↦ ⟨fun _ ↦ rfl, fun _ ↦ hgone⟩

/-! ## The tick -/

namespace Controller

variable [Sha256] {driver : MeshDriver σ} {d : Deployment} {c : Controller} {s : σ}

theorem plan_done_of_done {now : UInt64} (hdone : (c.tick driver d s now).1.done = true) :
    (c.plan driver d s).done = true ∧ (c.planned driver d s).1.isReady = true := by
  have hverdict := congrArg Prod.fst (c.tick_verdict driver d s now)
  have hboth : ((c.plan driver d s).done && (c.planned driver d s).1.isReady) = true :=
    hverdict.symm.trans hdone
  exact Bool.and_eq_true _ _ ▸ hboth

theorem toKill_of_atStrength (h : AtStrength d (c.refreshed driver d s) d.revision) :
    (c.plan driver d s).toKill =
      jobIds ((c.refreshed driver d s).filter fun r ↦ r.phase.isTerminal) := by
  rw [plan, planStep_toKill, h.victims_eq]

/-- At strength a tick leaves what its kills leave: there is no excess to substitute for and no
shortfall to place. -/
theorem replicas_of_atStrength (h : AtStrength d (c.refreshed driver d s) d.revision)
    (now : UInt64) :
    (c.tick driver d s now).2.1.replicas = (c.afterKills driver d s).replicas := by
  obtain ⟨ks, _, hkilled⟩ := c.afterKills_killed driver d s
  obtain ⟨js, hkilled', _, _, hjs⟩ := c.afterSubstitutes_killed driver d s
  obtain ⟨launched, hplaced, hlen⟩ := c.afterPlacements_placed driver d s now
  have hnew : newLive d.revision (c.afterKills driver d s).replicas ≤ d.replicas.toNat := by
    rw [← h.newLive, hkilled.replicas]
    exact (without_sublist _ _).countP_le
  have hjs' : js = [] := List.eq_nil_of_length_eq_zero (by omega)
  have hlaunched : launched = [] := by
    rw [plan, h.toPlace_eq] at hlen
    exact List.eq_nil_of_length_eq_zero (Nat.le_zero.mp hlen)
  rw [(c.tick_eq driver d s now).1, hplaced.replicas, hkilled'.replicas, hjs', hlaunched,
    List.append_nil, without_nil]

/-- If all its reaps succeed, a done tick leaves the deployment converged. -/
theorem converged_of_reaped (hc : (jobIds c.replicas).Nodup)
    (hdone : (c.plan driver d s).done = true)
    (hreaped : ∀ r ∈ (c.refreshed driver d s).filter fun r ↦ r.phase.isTerminal,
      r ∉ (c.afterKills driver d s).replicas) :
    Converged d d.revision (c.afterKills driver d s).replicas := by
  obtain ⟨ks, hks, hkilled⟩ := c.afterKills_killed driver d s
  have hl : (jobIds (c.refreshed driver d s)).Nodup := jobIds_refreshed driver d c s ▸ hc
  have hreplicas : (c.afterKills driver d s).replicas =
      survivors d (c.refreshed driver d s) d.revision := by
    rw [hkilled.replicas, planned_replicas, survivors]
    apply List.filter_congr
    intro r hr
    refine decide_eq_decide.mpr (not_congr ⟨fun h ↦ hks h, fun h ↦ ?_⟩)
    change r.jobId ∈ (c.plan driver d s).toKill at h
    rw [toKill_of_atStrength (atStrength_of_done hdone)] at h
    obtain ⟨r', hr', hid⟩ := mem_jobIds.mp h
    obtain rfl := List.inj_on_of_nodup_map hl (List.mem_filter.mp hr').1 hr hid
    by_contra hnot
    refine hreaped r' hr' ?_
    rw [hkilled.replicas]
    exact mem_without.mpr ⟨hr, hnot⟩
  obtain ⟨hlen, hall⟩ := survivors_of_done hl hdone
  rw [hreplicas]
  exact ⟨hlen, fun r hr ↦ (hall r hr).1, fun r hr ↦ (hall r hr).2⟩

/-- A following tick, which finds the phases and the gate as they were, calls for no kill
and no deploy, and is done again. -/
def Idles (driver : MeshDriver σ) (d : Deployment) (gate : Gate) (c : Controller) : Prop :=
  ∀ s now, c.refreshed driver d s = c.replicas → (c.planned driver d s).1 = gate →
    (∀ call ∈ c.calls driver d s now, call.isKill = false ∧ call.isDeploy = false) ∧
      (c.tick driver d s now).1.done = true

theorem idles_of_converged {gate : Gate} (hgate : gate.isReady = true)
    (h : Converged d d.revision c.replicas) : c.Idles driver d gate := by
  intro s now hsame hplanned
  have hplan : (c.plan driver d s).done = true ∧ (c.plan driver d s).toKill = [] ∧
      (c.plan driver d s).toPlace = 0 := by
    rw [plan, hsame]
    exact h.planStep
  constructor
  · intro call hcall
    have hkind := c.calls_of_idle driver d s hplan.2.1 hplan.2.2 now call hcall
    exact MeshCall.changes_nothing_of_isAdvertise hkind
  · have hverdict := congrArg Prod.fst (c.tick_verdict driver d s now)
    refine hverdict.trans ?_
    rw [hplan.1, hplanned, hgate, Bool.and_self]

/-- **What a done tick leaves**: exactly the desired replicas, running on target, to which a
following tick has nothing to add, if and only if the driver kills every replica that the
refresh leaves terminal. -/
theorem done_iff (hc : (jobIds c.replicas).Nodup) {now : UInt64}
    (hdone : (c.tick driver d s now).1.done = true) :
    (Converged d d.revision (c.tick driver d s now).2.1.replicas ∧
        (c.tick driver d s now).2.1.Idles driver d (c.planned driver d s).1) ↔
      KillsSucceed driver c.grant
        ((c.refreshed driver d s).filter fun r ↦ r.phase.isTerminal)
        (c.planned driver d s).2.mesh := by
  obtain ⟨hplan, hgate⟩ := plan_done_of_done hdone
  have hl : (jobIds (c.refreshed driver d s)).Nodup := jobIds_refreshed driver d c s ▸ hc
  have hreplicas := replicas_of_atStrength (atStrength_of_done hplan) now
  rw [← reaped_iff driver c.grant (t := (c.planned driver d s).2)
    (hl.sublist (List.filter_sublist.map _)) hl List.filter_sublist.subset,
    ← toKill_of_atStrength (atStrength_of_done hplan)]
  change _ ↔ ∀ r ∈ (c.refreshed driver d s).filter fun r ↦ r.phase.isTerminal,
    r ∉ (c.afterKills driver d s).replicas
  constructor
  · rintro ⟨hconv, _⟩ r hr hmem
    have hrunning := hconv.running r (hreplicas ▸ hmem)
    simp [hrunning] at hr
  · intro hreaped
    have hconv := converged_of_reaped hc hplan hreaped
    rw [← hreplicas] at hconv
    exact ⟨hconv, idles_of_converged hgate hconv⟩

end Controller

section Example

/-- One replica runs, as desired; a failed one is still tracked. -/
def webWithDead : Controller where
  replicas := [⟨"a", "n", "9154645cdccb2449", .running⟩, ⟨"b", "n", "9154645cdccb2449", .failed⟩]

/-- The deployment it is tracked for. -/
def webOne : Deployment where
  name := "web"
  nameSpace := "default"
  image := "nginx"
  replicas := 1

/-- The kill of the failed one does not get through, and the tick is done. -/
theorem done_with_dead :
    (jobIds webWithDead.replicas).Nodup ∧
      (@Controller.tick Unit Deployment.nginxSha256 (stuckDriver ["b"]) webOne webWithDead ()
        0).1.done = true ∧
      (@Controller.tick Unit Deployment.nginxSha256 (stuckDriver ["b"]) webOne webWithDead ()
        0).2.1.replicas = webWithDead.replicas ∧
      webWithDead.replicas.length ≠ webOne.replicas.toNat := by
  decide +kernel

/-- It gets through. -/
theorem done_iff_webWithDead :
    Converged webOne (@Deployment.revision Deployment.nginxSha256 webOne)
        (@Controller.tick Unit Deployment.nginxSha256 (stuckDriver []) webOne webWithDead ()
          0).2.1.replicas ∧
      @Controller.Idles Unit Deployment.nginxSha256 (stuckDriver []) webOne .ready
        (@Controller.tick Unit Deployment.nginxSha256 (stuckDriver []) webOne webWithDead ()
          0).2.1 :=
  (@Controller.done_iff Unit Deployment.nginxSha256 (stuckDriver []) webOne webWithDead ()
    (by decide) 0 (by decide +kernel)).mpr ⟨rfl, trivial⟩

end Example

end CeGke
