import CeGke.Controller.Bounds

/-!
# The availability floor of a tick

A rolling update promises not to drop below `desired - max_unavailable` running
replicas.  The planner keeps the promise under every pattern of failed kills, but
step 3b picks its own victims: it takes live on-target replicas in tracking order,
so it may kill a running one in place of a pending one whose kill failed.

`floor_kept_iff` says for which answers of the driver the floor is kept, and
`floor_kept_always_iff` after which refreshes it is kept whatever the driver answers.
-/

namespace CeGke

open Lib

variable {d : Deployment} {target : String} {k : Kind}

/-! ## What the driver answers -/

section Answers

variable {σ : Type} (driver : MeshDriver σ) (grant : Option String)

/-- The replicas the driver fails to kill, asked for one after the other, and the mesh
that is left. -/
def failedKills : List ReplicaState → σ → List ReplicaState × σ
  | [], s => ([], s)
  | r :: replicas, s =>
      match driver.kill r.nodeId r.jobId grant s with
      | (.ok _, s) => failedKills replicas s
      | (.error _, s) => (r :: (failedKills replicas s).1, (failedKills replicas s).2)

/-- The first so many replicas that the driver does kill, asked for one after the other. -/
def firstKilled : ℕ → List ReplicaState → σ → List ReplicaState
  | 0, _, _ => []
  | _ + 1, [], _ => []
  | n + 1, r :: replicas, s =>
      match driver.kill r.nodeId r.jobId grant s with
      | (.ok _, s) => r :: firstKilled n replicas s
      | (.error _, s) => firstKilled (n + 1) replicas s

theorem failedKills_sublist (l : List ReplicaState) (s : σ) :
    (failedKills driver grant l s).1.Sublist l := by
  induction l generalizing s with
  | nil => exact List.Sublist.refl _
  | cons r l ih =>
      rw [failedKills]
      split
      · exact (ih _).cons r
      · exact (ih _).cons_cons r

theorem length_firstKilled_le (n : ℕ) (l : List ReplicaState) (s : σ) :
    (firstKilled driver grant n l s).length ≤ n := by
  induction l generalizing n s with
  | nil => cases n <;> exact Nat.zero_le _
  | cons r l ih =>
      cases n with
      | zero => exact le_rfl
      | succ n =>
          rw [firstKilled]
          split
          · exact Nat.succ_le_succ (ih n _)
          · exact ih (n + 1) _

variable {t : TickState σ}

/-- Taking one tracked replica off the list takes it off the count. -/
theorem countP_filter_jobId_ne {l : List ReplicaState} (hl : (jobIds l).Nodup)
    {r : ReplicaState} (hr : r ∈ l) (p : ReplicaState → Bool) :
    (l.filter fun r' ↦ r'.jobId ≠ r.jobId).countP p + [r].countP p = l.countP p := by
  have hadd := countP_without_add hl (List.nodup_singleton r)
    (List.cons_subset.mpr ⟨hr, List.nil_subset l⟩) p
  simpa [without] using hadd

theorem nodup_filter_jobId_ne {l : List ReplicaState} (hl : (jobIds l).Nodup) (job : String) :
    (jobIds (l.filter fun r' ↦ r'.jobId ≠ job)).Nodup :=
  hl.sublist (List.filter_sublist.map _)

theorem subset_filter_jobId_ne {named l : List ReplicaState} {r : ReplicaState}
    (hr : r.jobId ∉ jobIds named) (hsub : named ⊆ l) :
    named ⊆ l.filter fun r' ↦ r'.jobId ≠ r.jobId := fun r' hr' ↦
  List.mem_filter.mpr ⟨hsub hr', decide_eq_true fun hid ↦ hr (mem_jobIds.mpr ⟨r', hr', hid⟩)⟩

/-- The kill loop leaves of the named replicas those whose kill failed. -/
theorem foldl_tryKill_failedKills {named : List ReplicaState} (hnamed : (jobIds named).Nodup)
    (ht : (jobIds t.replicas).Nodup) (hsub : named ⊆ t.replicas) :
    let t' := (jobIds named).foldl (tryKill driver grant) t
    let failed := failedKills driver grant named t.mesh
    (∀ p, t'.replicas.countP p + named.countP p = t.replicas.countP p + failed.1.countP p) ∧
      t'.mesh = failed.2 ∧
      t'.report.killFailures = t.report.killFailures + failed.1.length := by
  induction named generalizing t with
  | nil => exact ⟨fun p ↦ rfl, rfl, rfl⟩
  | cons r named ih =>
      rw [jobIds_cons, List.nodup_cons] at hnamed
      obtain ⟨hr, hsub⟩ := List.cons_subset.mp hsub
      rw [jobIds_cons, List.foldl_cons, failedKills]
      split
      · rename_i mesh hkill
        obtain ⟨hreplicas, hmesh, hfailures⟩ := tryKill_of_ok ht hr hkill
        obtain ⟨hcount, hmesh', hfailures'⟩ := ih (t := tryKill driver grant t r.jobId) hnamed.2
          (hreplicas ▸ nodup_filter_jobId_ne ht _)
          (hreplicas ▸ subset_filter_jobId_ne hnamed.1 hsub)
        rw [hmesh] at hcount hmesh' hfailures'
        refine ⟨fun p ↦ ?_, hmesh', hfailures ▸ hfailures'⟩
        have hone := countP_filter_jobId_ne ht hr p
        have hrest := hcount p
        rw [hreplicas] at hrest
        rw [List.countP_cons, ← List.countP_singleton]
        omega
      · rename_i e mesh hkill
        obtain ⟨hreplicas, hmesh, hfailures⟩ := tryKill_of_error ht hr hkill
        obtain ⟨hcount, hmesh', hfailures'⟩ := ih (t := tryKill driver grant t r.jobId) hnamed.2
          (hreplicas ▸ ht) (hreplicas ▸ hsub)
        rw [hmesh] at hcount hmesh' hfailures'
        refine ⟨fun p ↦ ?_, hmesh', ?_⟩
        · have hrest := hcount p
          rw [hreplicas] at hrest
          rw [List.countP_cons, List.countP_cons]
          omega
        · rw [hfailures', hfailures, List.length_cons]
          omega

/-- Step 3b takes the first alternates that the driver kills, as many as there is excess. -/
theorem killAlternates_firstKilled (toKill : List String) {alternates : List ReplicaState}
    (excess : ℤ) (halternates : (jobIds alternates).Nodup) (ht : (jobIds t.replicas).Nodup)
    (hsub : alternates ⊆ t.replicas) (p : ReplicaState → Bool) :
    (killAlternates driver grant toKill (jobIds alternates) excess t).replicas.countP p +
        (firstKilled driver grant excess.toNat
          (without ReplicaState.jobId toKill alternates) t.mesh).countP p =
      t.replicas.countP p := by
  induction alternates generalizing excess t with
  | nil => cases excess.toNat <;> rfl
  | cons r alternates ih =>
      rw [jobIds_cons, List.nodup_cons] at halternates
      obtain ⟨hr, hsub⟩ := List.cons_subset.mp hsub
      rw [jobIds_cons, killAlternates]
      by_cases hexcess : excess ≤ 0
      · rw [if_pos hexcess, Int.toNat_of_nonpos hexcess, firstKilled]
        rfl
      · rw [if_neg hexcess]
        by_cases hmem : r.jobId ∈ toKill
        · rw [if_pos hmem, without, List.filter_cons_of_neg (by simpa using hmem)]
          exact ih excess halternates.2 ht hsub
        · obtain ⟨n, hn⟩ : ∃ n, excess.toNat = n + 1 := ⟨excess.toNat - 1, by omega⟩
          rw [if_neg hmem, without, List.filter_cons_of_pos (by simpa using hmem), hn]
          simp only [find?_jobId_of_nodup ht hr, firstKilled]
          rcases driver.kill r.nodeId r.jobId grant t.mesh with ⟨e | u, mesh⟩
          · have hrest := ih excess (t := { t with mesh }) halternates.2 ht hsub
            rw [hn] at hrest
            exact hrest
          · have hone := countP_filter_jobId_ne ht hr p
            have hrest := ih (excess - 1)
              (t := { replicas := t.replicas.filter fun r' ↦ r'.jobId ≠ r.jobId
                      report :=
                        { t.report with
                          killed := t.report.killed ++ [r.jobId]
                          killFailures := t.report.killFailures - 1 }
                      mesh })
              halternates.2 (nodup_filter_jobId_ne ht _)
              (subset_filter_jobId_ne halternates.1 hsub)
            rw [show (excess - 1).toNat = n by omega] at hrest
            rw [List.countP_cons, ← List.countP_singleton]
            simp only [without] at hrest ⊢
            omega

end Answers

namespace Controller

/-! ## The floor is kept -/

section Kept

variable {σ : Type} [Sha256] (driver : MeshDriver σ) (d : Deployment) {c : Controller} (s : σ)

/-- What a tick launches is pending, so it does not count as running. -/
theorem runningCount_tick (now : UInt64) :
    runningCount (c.tick driver d s now).2.1.replicas =
      runningCount (c.afterSubstitutes driver d s).replicas := by
  obtain ⟨launched, hplaced, _⟩ := c.afterPlacements_placed driver d s now
  have hnone : launched.countP (fun r ↦ r.phase == .running) = 0 := by
    apply List.countP_eq_zero.mpr
    intro r hr hrun
    rw [(hplaced.fresh r hr).1] at hrun
    exact Bool.noConfusion hrun
  rw [(c.tick_eq driver d s now).1, hplaced.replicas, runningCount, List.countP_append, hnone,
    Nat.add_zero, runningCount]

/-- The victims whose kill fails, and the mesh after the kills. -/
def failedVictims (c : Controller) : List ReplicaState × σ :=
  failedKills driver c.grant (victims d (c.refreshed driver d s) d.revision)
    (c.planned driver d s).2.mesh

/-- What step 3b stops: of the replicas live on target that the plan keeps the first ones,
in tracking order, that the driver kills, as many as there are victims live on target whose
kill failed. -/
def substituted (c : Controller) : List ReplicaState :=
  let failed := c.failedVictims driver d s
  firstKilled driver c.grant (newLive d.revision failed.1)
    ((survivors d (c.refreshed driver d s) d.revision).filter (onTarget d.revision)) failed.2

/-- The kills take the victims, except those whose kill fails. -/
theorem afterKills_failedVictims (hc : (jobIds c.replicas).Nodup) :
    (∀ p, (c.afterKills driver d s).replicas.countP p =
        (survivors d (c.refreshed driver d s) d.revision).countP p +
          (c.failedVictims driver d s).1.countP p) ∧
      (c.afterKills driver d s).mesh = (c.failedVictims driver d s).2 ∧
      (c.afterKills driver d s).report.killFailures =
        (c.failedVictims driver d s).1.length := by
  have hl : (jobIds (c.refreshed driver d s)).Nodup := jobIds_refreshed driver d c s ▸ hc
  have hvictims : (jobIds (victims d (c.refreshed driver d s) d.revision)).Nodup :=
    victims_nodup hl
  obtain ⟨hcount, hmesh, hfailures⟩ := foldl_tryKill_failedKills driver c.grant
    (t := (c.planned driver d s).2) hvictims hl
    (victims_subset d (c.refreshed driver d s) d.revision)
  rw [← planStep_toKill] at hcount hmesh hfailures
  refine ⟨fun p ↦ ?_, hmesh, hfailures.trans (Nat.zero_add _)⟩
  have hkept := countP_without_add hl hvictims.of_map
    (victims_subset d (c.refreshed driver d s) d.revision) p
  rw [← jobIds, ← planStep_toKill] at hkept
  have hcount := hcount p
  simp only [planned_replicas] at hcount
  change ((planStep d (c.refreshed driver d s) d.revision).toKill.foldl
    (tryKill driver c.grant) _).replicas.countP p = _
  rw [survivors, failedVictims]
  omega

/-- There are as many replicas over the desired count after the kills as there are victims
live on target whose kill failed. -/
theorem excess_afterKills {u v : UInt32} (hs : d.strategy = .rollingUpdate u v)
    (hc : (jobIds c.replicas).Nodup) :
    ((newLive d.revision (c.afterKills driver d s).replicas : ℤ) - d.replicas.toNat).toNat =
      newLive d.revision (c.failedVictims driver d s).1 := by
  set l := c.refreshed driver d s with hl
  have hnodup : (jobIds l).Nodup := jobIds_refreshed driver d c s ▸ hc
  have hcount := (afterKills_failedVictims driver d s hc).1 (onTarget d.revision)
  have hfailed : newLive d.revision (c.failedVictims driver d s).1 ≤
      newLive d.revision (victims d l d.revision) :=
    (failedKills_sublist _ _ _ _).countP_le
  change newLive d.revision _ = newLive d.revision _ + newLive d.revision _ at hcount
  rw [← hl, newLive_eq d.revision (survivors d l d.revision), tally_survivors hnodup,
    tally_survivors hnodup, tally_victims_rolling hs, tally_victims_rolling hs] at hcount
  rw [newLive_eq d.revision (victims d l d.revision), tally_victims_rolling hs,
    tally_victims_rolling hs] at hfailed
  simp only [newLive_eq d.revision l] at hcount hfailed
  omega

/-- Step 3b takes the substitutes off the list, and nothing else. -/
theorem afterSubstitutes_substituted {u v : UInt32} (hs : d.strategy = .rollingUpdate u v)
    (hc : (jobIds c.replicas).Nodup) (p : ReplicaState → Bool) :
    (c.afterSubstitutes driver d s).replicas.countP p +
        (c.substituted driver d s).countP p =
      (c.afterKills driver d s).replicas.countP p := by
  obtain ⟨_, hmesh, hfailures⟩ := afterKills_failedVictims driver d s hc
  have hexcess := excess_afterKills driver d s hs hc
  have hnodup := nodup_afterKills driver d s hc
  obtain ⟨ks, hks, hkilled⟩ := c.afterKills_killed driver d s
  have hkept : without ReplicaState.jobId (c.plan driver d s).toKill
      ((c.afterKills driver d s).replicas.filter (onTarget d.revision)) =
        (survivors d (c.refreshed driver d s) d.revision).filter (onTarget d.revision) := by
    rw [hkilled.replicas, planned_replicas, survivors, without, without, without,
      List.filter_filter, List.filter_filter, List.filter_filter]
    refine List.filter_congr fun r _ ↦ ?_
    have hsub : r.jobId ∈ ks → r.jobId ∈ (c.plan driver d s).toKill := fun h ↦ hks h
    rw [plan] at hsub ⊢
    rw [Bool.eq_iff_iff]
    simp only [Bool.and_eq_true, decide_eq_true_eq]
    tauto
  have hlen : (jobIds ((c.afterKills driver d s).replicas.filter (onTarget d.revision))).length =
      newLive d.revision (c.afterKills driver d s).replicas := by
    rw [jobIds, List.length_map, newLive, List.countP_eq_length_filter]
  rw [afterSubstitutes, substitute, hfailures]
  split_ifs with hnone
  · have halternates :
        (jobIds ((c.afterKills driver d s).replicas.filter (onTarget d.revision))).Nodup :=
      hnodup.sublist (List.filter_sublist.map _)
    have htaken := killAlternates_firstKilled driver c.grant (c.plan driver d s).toKill
      ((newLive d.revision (c.afterKills driver d s).replicas : ℤ) - d.replicas.toNat)
      halternates hnodup List.filter_sublist.subset p
    rw [hexcess, hkept, hmesh] at htaken
    simp only [hlen]
    exact htaken
  · have hnil : (c.failedVictims driver d s).1 = [] :=
      List.eq_nil_of_length_eq_zero (Nat.eq_zero_of_not_pos hnone)
    rw [substituted, hnil, newLive, List.countP_nil, firstKilled, List.countP_nil, Nat.add_zero]

/-- The substitutes that run are covered: there are no more of them than running victims
whose kill failed and running replicas on target that the plan keeps over the floor. -/
def SubstitutesCovered (c : Controller) (maxUnavailable : ℕ) : Prop :=
  let newRunning := tally d.revision (c.refreshed driver d s) .runningNew
  runningCount (c.substituted driver d s) ≤
    runningCount (c.failedVictims driver d s).1 +
      (min newRunning d.replicas.toNat - (d.replicas.toNat - maxUnavailable))

instance (c : Controller) (maxUnavailable : ℕ) :
    Decidable (c.SubstitutesCovered driver d s maxUnavailable) :=
  inferInstanceAs (Decidable (_ ≤ _))

/-- **When the floor survives failed kills.**  A tick of a rolling update ends with no fewer
running replicas than the floor, or than its refresh left, exactly when the running
substitutes of step 3b are covered. -/
theorem floor_kept_iff {u v : UInt32} (hs : d.strategy = .rollingUpdate u v)
    (hc : (jobIds c.replicas).Nodup) (now : UInt64) :
    min (runningCount (c.refreshed driver d s)) (d.replicas.toNat - u.toNat) ≤
        runningCount (c.tick driver d s now).2.1.replicas ↔
      c.SubstitutesCovered driver d s u.toNat := by
  set l := c.refreshed driver d s with hl
  have hnodup : (jobIds l).Nodup := jobIds_refreshed driver d c s ▸ hc
  have hkills := (afterKills_failedVictims driver d s hc).1 (·.phase == .running)
  have hsubst := afterSubstitutes_substituted driver d s hs hc (·.phase == .running)
  change runningCount _ = runningCount _ + runningCount _ at hkills
  change runningCount _ + runningCount _ = runningCount _ at hsubst
  rw [← hl, runningCount_eq d.revision (survivors d l d.revision), tally_survivors hnodup,
    tally_survivors hnodup, tally_victims_rolling hs, tally_victims_rolling hs] at hkills
  have hrun := runningCount_eq d.revision l
  rw [runningCount_tick, SubstitutesCovered, ← hl]
  simp only [newLive_eq d.revision l] at hkills ⊢
  omega

/-- If the kills of all pending victims succeed, the floor is kept: every running substitute
stands in for a running victim. -/
theorem substitutesCovered_of_running {maxUnavailable : ℕ}
    (h : ∀ r ∈ (c.failedVictims driver d s).1, r.phase ≠ .pending) :
    c.SubstitutesCovered driver d s maxUnavailable := by
  have hlive : newLive d.revision (c.failedVictims driver d s).1 ≤
      runningCount (c.failedVictims driver d s).1 := by
    refine List.countP_mono_left fun r hr hon ↦ ?_
    have halive := (onTarget_iff.mp hon).1
    have hpending := h r hr
    cases hp : r.phase <;> simp [hp] at halive hpending ⊢
  have hlen : (c.substituted driver d s).length ≤
      newLive d.revision (c.failedVictims driver d s).1 := length_firstKilled_le _ _ _ _ _
  have hcount : runningCount (c.substituted driver d s) ≤
      (c.substituted driver d s).length := List.countP_le_length
  exact (hcount.trans (hlen.trans hlive)).trans (Nat.le_add_right _ _)

/-! ## Whatever the driver answers -/

/-- The replicas the refresh leaves give the substitutes of step 3b no way under the
floor: nothing is over the desired count on target, or nothing runs there, or no more
are pending there than may be unavailable, or all may be unavailable. -/
def FloorSafe (d : Deployment) (maxUnavailable : ℕ) (target : String)
    (l : List ReplicaState) : Prop :=
  newLive target l ≤ d.replicas.toNat ∨ tally target l .runningNew = 0 ∨
    tally target l .pendingNew ≤ maxUnavailable ∨ d.replicas.toNat ≤ maxUnavailable

/-- Substitutes are on target, so they do not touch the old replicas. -/
theorem tally_runningOld_afterSubstitutes (hc : (jobIds c.replicas).Nodup) :
    tally d.revision (c.afterSubstitutes driver d s).replicas .runningOld =
      tally d.revision (c.afterKills driver d s).replicas .runningOld := by
  obtain ⟨js, hkilled, hsub, _⟩ := c.afterSubstitutes_killed driver d s
  rw [hkilled.replicas, tally, without, List.countP_filter]
  apply List.countP_congr
  intro r hr
  rw [Bool.and_eq_true, and_iff_left_iff_imp]
  intro hold
  apply decide_eq_true
  intro hmem
  obtain ⟨r', hr', hid⟩ := mem_jobIds.mp (hsub hmem)
  obtain ⟨hmem', hon⟩ := List.mem_filter.mp hr'
  rw [List.inj_on_of_nodup_map (nodup_afterKills driver d s hc) hmem' hr hid, onTarget_eq,
    beq_iff_eq.mp hold] at hon
  exact Bool.noConfusion hon

/-- Where the floor is safe, no pattern of driver answers takes a tick under it. -/
theorem floor_kept_of_safe {u v : UInt32} (hs : d.strategy = .rollingUpdate u v)
    (hc : (jobIds c.replicas).Nodup) (now : UInt64)
    (hsafe : FloorSafe d u.toNat d.revision (c.refreshed driver d s)) :
    min (runningCount (c.refreshed driver d s)) (d.replicas.toNat - u.toNat) ≤
      runningCount (c.tick driver d s now).2.1.replicas := by
  set l := c.refreshed driver d s with hl
  set m := (c.afterSubstitutes driver d s).replicas with hm
  have hnodup : (jobIds l).Nodup := jobIds_refreshed driver d c s ▸ hc
  -- The target revision keeps what is desired of it, and gains no pending replica.
  have hnew : min (newLive d.revision l) d.replicas.toNat ≤ newLive d.revision m :=
    newLive_afterSubstitutes_ge driver d s hc
  have hpend : tally d.revision m .pendingNew ≤ tally d.revision l .pendingNew :=
    (afterSubstitutes_sublist driver d s).countP_le
  -- The old replicas lose no more than the plan retires.
  have hold : tally d.revision (survivors d l d.revision) .runningOld ≤
      tally d.revision m .runningOld := by
    rw [tally_runningOld_afterSubstitutes driver d s hc]
    obtain ⟨ks, hks, hkilled⟩ := c.afterKills_killed driver d s
    rw [hkilled.replicas]
    exact countP_without_anti hks _ _
  rw [tally_survivors hnodup, tally_victims_rolling hs] at hold
  rw [runningCount_tick, runningCount_eq d.revision m]
  have hrun := runningCount_eq d.revision l
  rw [newLive_eq, newLive_eq] at hnew
  simp only [FloorSafe, newLive_eq] at hsafe
  simp only at hold
  omega

end Kept

/-! ## The floor is lost -/

section Stuck

variable (stuck : List String) (grant : Option String)

/-- One failed refresh condemns nothing. -/
theorem refreshed_stuck {l : List ReplicaState} (hl : (jobIds l).Nodup) :
    ({ replicas := l } : Controller).refreshed (stuckDriver stuck) d () = l := by
  have hobserve : ∀ (probe : Option Probe) (m : List ReplicaState),
      (observePhases (stuckDriver stuck) probe none m ()).1 =
        (jobIds m).map fun job ↦ (job, none) := by
    intro probe m
    induction m with
    | nil => rfl
    | cons r m ih =>
        simp only [observePhases, stuckDriver, Except.toOption, jobIds_cons, List.map_cons,
          List.cons.injEq, true_and]
        exact ih
  have hrecord : ∀ (jobs : List String) (c : Controller), jobs.Nodup →
      c.failureThreshold = defaultFailureThreshold →
      (∀ job ∈ jobs, c.refreshFailures job = none) →
      ((jobs.map fun job ↦ (job, none)).foldl Controller.record c).replicas = c.replicas := by
    intro jobs
    induction jobs with
    | nil => exact fun c _ _ _ ↦ rfl
    | cons job jobs ih =>
        intro c hnodup hthreshold hnone
        obtain ⟨hjob, hnodup⟩ := List.nodup_cons.mp hnodup
        have hstep : (c.record (job, none)).replicas = c.replicas := by
          simp only [Controller.record, hthreshold, hnone job List.mem_cons_self]
          exact if_neg (by decide)
        refine (ih (c.record (job, none)) hnodup hthreshold fun job' hjob' ↦ ?_).trans hstep
        have hne : job' ≠ job := fun h ↦ hjob (h ▸ hjob')
        simp only [Controller.record, Function.update_of_ne hne]
        exact hnone job' (List.mem_cons_of_mem _ hjob')
  simp only [Controller.refreshed, Controller.refresh, Controller.retainFailures, hobserve]
  exact hrecord _ _ hl rfl fun _ _ ↦ rfl

theorem find?_jobId_eq_none {l : List ReplicaState} {job : String} :
    (l.find? fun r ↦ r.jobId = job) = none ↔ job ∉ jobIds l := by
  rw [List.find?_eq_none]
  simp [jobIds]

/-- A planned kill goes through unless the job is stuck. -/
theorem tryKill_stuck (t : TickState Unit) (job : String) :
    (tryKill (stuckDriver stuck) grant t job).replicas =
      if job ∈ stuck then t.replicas else without ReplicaState.jobId [job] t.replicas := by
  unfold tryKill
  split
  · rename_i hfind
    rw [find?_jobId_eq_none] at hfind
    rw [without_eq_self fun r hr hmem ↦ hfind
      (mem_jobIds.mpr ⟨r, hr, List.mem_singleton.mp hmem⟩), ite_self]
  · by_cases hstuck : job ∈ stuck <;> simp [stuckDriver_kill, hstuck, without]

theorem foldl_tryKill_stuck (toKill : List String) (t : TickState Unit) :
    (toKill.foldl (tryKill (stuckDriver stuck) grant) t).replicas =
      without ReplicaState.jobId (toKill.filter (· ∉ stuck)) t.replicas := by
  induction toKill generalizing t with
  | nil => exact (without_nil _).symm
  | cons job toKill ih =>
      rw [List.foldl_cons, ih, tryKill_stuck]
      by_cases hstuck : job ∈ stuck
      · simp [hstuck]
      · rw [if_neg hstuck, without_without]
        simp [hstuck]

/-- A kill that went wrong is counted. -/
theorem tryKill_failures {σ : Type} (driver : MeshDriver σ) (t : TickState σ) (job : String) :
    t.report.killFailures ≤ (tryKill driver grant t job).report.killFailures ∧
      (job ∈ jobIds (tryKill driver grant t job).replicas →
        0 < (tryKill driver grant t job).report.killFailures) := by
  unfold tryKill
  split
  · rename_i hfind
    exact ⟨le_rfl, fun h ↦ absurd h (find?_jobId_eq_none.mp hfind)⟩
  · split
    · refine ⟨le_rfl, ?_⟩
      intro h
      obtain ⟨r, hr, hid⟩ := mem_jobIds.mp h
      exact absurd hid (by simpa using (List.mem_filter.mp hr).2)
    · exact ⟨Nat.le_succ _, fun _ ↦ Nat.succ_pos _⟩

/-- A job of the kill list that is tracked after the loop left a failure behind. -/
theorem foldl_tryKill_failures {σ : Type} (driver : MeshDriver σ) (toKill : List String)
    (t : TickState σ) :
    t.report.killFailures ≤ (toKill.foldl (tryKill driver grant) t).report.killFailures ∧
      ∀ job ∈ toKill, job ∈ jobIds (toKill.foldl (tryKill driver grant) t).replicas →
        0 < (toKill.foldl (tryKill driver grant) t).report.killFailures := by
  induction toKill generalizing t with
  | nil => exact ⟨le_rfl, by simp⟩
  | cons j toKill ih =>
      obtain ⟨hmono, hleft⟩ := ih (tryKill driver grant t j)
      obtain ⟨hmono', hleft'⟩ := tryKill_failures grant driver t j
      refine ⟨hmono'.trans hmono, ?_⟩
      intro job hjob htracked
      rcases List.mem_cons.mp hjob with rfl | hjob
      · refine (hleft' ?_).trans_le hmono
        obtain ⟨ks, _, hkilled⟩ := foldl_tryKill_killed driver grant toKill
          (tryKill driver grant t job)
        obtain ⟨r, hr, hid⟩ := mem_jobIds.mp htracked
        rw [List.foldl_cons, hkilled.replicas] at hr
        exact mem_jobIds.mpr ⟨r, (mem_without.mp hr).1, hid⟩
      · exact hleft job hjob htracked

/-- The alternates step 3b gets to kill: the first ones that are neither in the kill list
nor stuck, as many as there is excess. -/
theorem killAlternates_stuck (toKill onTargetLive : List String) (excess : ℕ)
    (t : TickState Unit) (hnodup : onTargetLive.Nodup)
    (htracked : onTargetLive ⊆ jobIds t.replicas) :
    (killAlternates (stuckDriver stuck) grant toKill onTargetLive excess t).replicas =
      without ReplicaState.jobId
        ((onTargetLive.filter fun job ↦ job ∉ toKill ∧ job ∉ stuck).take excess) t.replicas := by
  induction onTargetLive generalizing excess t with
  | nil => simp [killAlternates, without_nil]
  | cons job onTargetLive ih =>
      obtain ⟨hjob, hnodup⟩ := List.nodup_cons.mp hnodup
      obtain ⟨hmem, htracked⟩ := List.cons_subset.mp htracked
      cases excess with
      | zero => simp [killAlternates, without_nil]
      | succ n =>
          rw [killAlternates, if_neg (by omega)]
          by_cases hkill : job ∈ toKill
          · rw [if_pos hkill, ih _ t hnodup htracked]
            simp [hkill]
          · rw [if_neg hkill]
            split
            · rename_i hfind
              exact absurd hmem (find?_jobId_eq_none.mp hfind)
            · by_cases hstuck : job ∈ stuck
              · have hih := ih (n + 1) t hnodup htracked
                simpa [stuckDriver_kill, hkill, hstuck] using hih
              · have hrest : onTargetLive ⊆
                    jobIds (t.replicas.filter fun r' ↦ r'.jobId ≠ job) := by
                  intro job' hjob'
                  obtain ⟨r', hr', rfl⟩ := mem_jobIds.mp (htracked hjob')
                  refine mem_jobIds.mpr ⟨r', List.mem_filter.mpr ⟨hr', ?_⟩, rfl⟩
                  exact decide_eq_true fun h ↦ hjob (h ▸ hjob')
                have hcast : ((n + 1 : ℕ) : ℤ) - 1 = n := by omega
                have hfilter : (t.replicas.filter fun r' ↦ r'.jobId ≠ job) =
                    without ReplicaState.jobId [job] t.replicas := by simp [without]
                simp only [stuckDriver_kill, if_neg hstuck, hcast]
                rw [ih n _ hnodup hrest, hfilter, without_without]
                simp [hkill, hstuck]

/-- Step 3b after a failed kill, while there are no fewer than desired on target. -/
theorem substitute_of_failures {σ : Type} (driver : MeshDriver σ) {desired : ℕ}
    {toKill : List String} {t : TickState σ} (hfail : 0 < t.report.killFailures)
    (hge : desired ≤ newLive target t.replicas) :
    substitute driver grant desired target toKill t =
      killAlternates driver grant toKill (jobIds (t.replicas.filter (onTarget target)))
        ((newLive target t.replicas - desired : ℕ) : ℤ) t := by
  have hlen : (jobIds (t.replicas.filter (onTarget target))).length =
      newLive target t.replicas := by
    rw [jobIds, List.length_map, newLive, List.countP_eq_length_filter]
  rw [substitute, if_pos hfail]
  dsimp only
  rw [hlen, Int.ofNat_sub hge]

end Stuck

section Lost

variable {l : List ReplicaState}

/-- The jobs of the pending on-target replicas. -/
def pendingNewJobs (target : String) (l : List ReplicaState) : List String :=
  jobIds (l.filter fun r ↦ r.kind target == .pendingNew)

theorem mem_pendingNewJobs (hl : (jobIds l).Nodup) {r : ReplicaState} (hr : r ∈ l) :
    r.jobId ∈ pendingNewJobs target l ↔ r.kind target = .pendingNew := by
  rw [pendingNewJobs, mem_jobIds]
  constructor
  · rintro ⟨r', hr', hid⟩
    obtain ⟨hmem, hkind⟩ := List.mem_filter.mp hr'
    rw [← List.inj_on_of_nodup_map hl hmem hr hid]
    exact beq_iff_eq.mp hkind
  · exact fun h ↦ ⟨r, List.mem_filter.mpr ⟨hr, beq_iff_eq.mpr h⟩, rfl⟩

variable [Sha256]

/-- The tick that loses the floor: no pending on-target replica can be killed. -/
def stuckKills (d : Deployment) (l : List ReplicaState) : TickState Unit :=
  ({ replicas := l } : Controller).afterKills (stuckDriver (pendingNewJobs d.revision l)) d ()

theorem stuckKills_replicas (d : Deployment) (hl : (jobIds l).Nodup) :
    (stuckKills d l).replicas = without ReplicaState.jobId
      ((planStep d l d.revision).toKill.filter (· ∉ pendingNewJobs d.revision l)) l := by
  have hrefreshed := refreshed_stuck (d := d) (pendingNewJobs d.revision l) hl
  rw [stuckKills, afterKills, foldl_tryKill_stuck, planned_replicas, plan, hrefreshed]

/-- The pending ones stay, the rest goes as planned. -/
theorem tally_stuckKills (d : Deployment) (hl : (jobIds l).Nodup) :
    tally d.revision (stuckKills d l).replicas k =
      if k = .pendingNew then tally d.revision l k
      else tally d.revision (survivors d l d.revision) k := by
  rw [stuckKills_replicas d hl, tally, without, List.countP_filter]
  split_ifs with hk
  · subst hk
    apply List.countP_congr
    intro r hr
    rw [Bool.and_eq_true, and_iff_left_iff_imp, beq_iff_eq]
    intro hkind
    simp [(mem_pendingNewJobs hl hr).mpr hkind]
  · rw [tally, survivors, without, List.countP_filter]
    apply List.countP_congr
    intro r hr
    rw [Bool.and_eq_true, Bool.and_eq_true, beq_iff_eq]
    apply and_congr_right
    intro hkind
    have hnot : r.jobId ∉ pendingNewJobs d.revision l := by
      rw [mem_pendingNewJobs hl hr, hkind]
      exact hk
    simp [hnot]

/-- Some pending victim was not killed. -/
theorem stuckKills_failures {u v : UInt32} (hs : d.strategy = .rollingUpdate u v)
    (hl : (jobIds l).Nodup) (hexcess : d.replicas.toNat < newLive d.revision l)
    (hpend : 0 < tally d.revision l .pendingNew) :
    0 < (stuckKills d l).report.killFailures := by
  have hvictim : 0 < tally d.revision (victims d l d.revision) .pendingNew := by
    rw [tally_victims_rolling hs]
    simp only
    omega
  obtain ⟨r, hr, hkind⟩ := List.countP_pos_iff.mp hvictim
  have hmem : r ∈ l := victims_subset d l d.revision hr
  have hjob := (mem_pendingNewJobs hl hmem).mpr (beq_iff_eq.mp hkind)
  have htoKill : r.jobId ∈ (planStep d l d.revision).toKill := by
    rw [planStep_toKill]
    exact mem_jobIds.mpr ⟨r, hr, rfl⟩
  have htracked : r.jobId ∈ jobIds (stuckKills d l).replicas := by
    rw [stuckKills_replicas d hl]
    exact mem_jobIds.mpr ⟨r, mem_without.mpr ⟨hmem, by simp [hjob]⟩, rfl⟩
  refine (foldl_tryKill_failures _ _ _ _).2 r.jobId ?_ htracked
  rw [plan, refreshed_stuck _ hl]
  exact htoKill

/-- The alternates of the stuck tick are the running on-target replicas it tracks. -/
theorem alternates_stuckKills (hl : (jobIds l).Nodup) :
    ((jobIds ((stuckKills d l).replicas.filter (onTarget d.revision))).filter fun job ↦
        job ∉ (planStep d l d.revision).toKill ∧ job ∉ pendingNewJobs d.revision l) =
      jobIds ((stuckKills d l).replicas.filter fun r ↦ r.kind d.revision == .runningNew) := by
  rw [jobIds, List.filter_map, List.filter_filter, jobIds]
  refine congrArg (List.map _) (List.filter_congr fun r hr ↦ ?_)
  rw [stuckKills_replicas d hl] at hr
  obtain ⟨hmem, hkept⟩ := mem_without.mp hr
  simp only [List.mem_filter, decide_eq_true_eq, not_and, not_not] at hkept
  rw [onTarget_eq, Bool.eq_iff_iff]
  simp only [Function.comp_apply, Bool.and_eq_true, decide_eq_true_eq, beq_iff_eq]
  rw [mem_pendingNewJobs hl hmem] at hkept ⊢
  constructor
  · rintro ⟨⟨_, hpend⟩, hnew⟩
    cases hk : r.kind d.revision <;> simp_all [Kind.isNew]
  · intro hk
    rw [hk] at hkept ⊢
    exact ⟨⟨fun h ↦ absurd (hkept h) (by decide), by decide⟩, rfl⟩

/-- The running replicas on target once the alternates are gone: as many as there was
excess are killed, all of them running. -/
theorem tally_stuckSubstitutes {u v : UInt32} (hs : d.strategy = .rollingUpdate u v)
    (hl : (jobIds l).Nodup) (hexcess : d.replicas.toNat < newLive d.revision l)
    (hpend : 0 < tally d.revision l .pendingNew) :
    tally d.revision (({ replicas := l } : Controller).afterSubstitutes
        (stuckDriver (pendingNewJobs d.revision l)) d ()).replicas .runningNew =
      tally d.revision (stuckKills d l).replicas .runningNew -
        (newLive d.revision (stuckKills d l).replicas - d.replicas.toNat) := by
  set t := stuckKills d l with ht
  have hnodup : (jobIds t.replicas).Nodup :=
    nodup_afterKills (c := { replicas := l }) (stuckDriver (pendingNewJobs d.revision l)) d () hl
  have hge : d.replicas.toNat ≤ newLive d.revision t.replicas := by
    have hkept := newLive_afterKills_ge (c := { replicas := l })
      (stuckDriver (pendingNewJobs d.revision l)) d () hl
    rw [refreshed_stuck _ hl, min_eq_right hexcess.le] at hkept
    exact hkept
  have hplan : (({ replicas := l } : Controller).plan
      (stuckDriver (pendingNewJobs d.revision l)) d ()) = planStep d l d.revision := by
    rw [plan, refreshed_stuck _ hl]
  rw [afterSubstitutes, hplan]
  change tally d.revision (substitute _ none _ _ _ t).replicas .runningNew = _
  have hsublist : (jobIds (t.replicas.filter (onTarget d.revision))).Sublist (jobIds t.replicas) :=
    List.filter_sublist.map _
  rw [substitute_of_failures _ _ (stuckKills_failures hs hl hexcess hpend) hge,
    killAlternates_stuck _ _ _ _ _ _ (hnodup.sublist hsublist) hsublist.subset,
    alternates_stuckKills hl]
  set running := t.replicas.filter fun r ↦ r.kind d.revision == .runningNew with hrunning
  set excess := newLive d.revision t.replicas - d.replicas.toNat
  have hall : ∀ r ∈ running.take excess, r.kind d.revision = .runningNew := fun r hr ↦
    beq_iff_eq.mp (List.mem_filter.mp (List.mem_of_mem_take hr)).2
  have hsub : running.take excess ⊆ t.replicas := fun r hr ↦
    (List.mem_filter.mp (List.mem_of_mem_take hr)).1
  have hdistinct : (running.take excess).Nodup :=
    (hnodup.of_map.filter _).sublist (List.take_sublist _ _)
  have hadd := tally_without_add d.revision hnodup hdistinct hsub .runningNew
  have hcount : running.length = tally d.revision t.replicas .runningNew :=
    List.countP_eq_length_filter.symm
  rw [tally_of_forall hall, if_pos rfl, List.length_take, hcount, jobIds, List.map_take] at hadd
  rw [jobIds]
  omega

end Lost

/-- Given the deployment and the replicas the refresh leaves: no pattern of driver answers
takes a tick under the availability floor exactly when the floor is safe. -/
theorem floor_kept_always_iff [Sha256] {u v : UInt32} (hs : d.strategy = .rollingUpdate u v)
    {l : List ReplicaState} (hl : (jobIds l).Nodup) :
    (∀ (σ : Type) (driver : MeshDriver σ) (s : σ) (c : Controller) (now : UInt64),
      c.refreshed driver d s = l →
        min (runningCount l) (d.replicas.toNat - u.toNat) ≤
          runningCount (c.tick driver d s now).2.1.replicas) ↔
      FloorSafe d u.toNat d.revision l := by
  constructor
  · intro h
    by_contra hunsafe
    simp only [FloorSafe, not_or, not_le] at hunsafe
    obtain ⟨hexcess, hready, hpend, hfloor⟩ := hunsafe
    have hlost := h Unit (stuckDriver (pendingNewJobs d.revision l)) () { replicas := l } 0
      (refreshed_stuck _ hl)
    rw [runningCount_tick, runningCount_eq d.revision (afterSubstitutes _ _ _ _).replicas,
      tally_stuckSubstitutes hs hl hexcess (Nat.zero_lt_of_lt hpend),
      tally_runningOld_afterSubstitutes _ _ _ hl] at hlost
    change _ ≤ _ + tally d.revision (stuckKills d l).replicas .runningOld at hlost
    rw [newLive_eq d.revision (stuckKills d l).replicas] at hlost
    simp only [tally_stuckKills d hl, tally_survivors hl, tally_victims_rolling hs] at hlost
    have hrun := runningCount_eq d.revision l
    have hnew := newLive_eq d.revision l
    simp at hlost
    omega
  · rintro hsafe σ driver s c now rfl
    exact floor_kept_of_safe driver d s hs (jobIds_refreshed driver d c s ▸ hl) now hsafe

end Controller

open Deployment

/-- Two replicas that must not become unavailable and a pending surplus one that cannot
be killed: step 3b kills a running one in its stead. -/
theorem floor_lost :
    let d : Deployment :=
      { name := "web", nameSpace := "default", image := "nginx", replicas := 2
        strategy := .rollingUpdate 0 1 }
    let c : Controller :=
      { replicas :=
          [⟨"a", "n", "9154645cdccb2449", .running⟩, ⟨"b", "n", "9154645cdccb2449", .running⟩,
            ⟨"p", "m", "9154645cdccb2449", .pending⟩] }
    d.validate = .ok () ∧ (jobIds c.replicas).Nodup ∧
      min (runningCount (c.refreshed (stuckDriver ["p"]) d ())) (2 - 0) = 2 ∧
      runningCount (@Controller.tick Unit nginxSha256 (stuckDriver ["p"]) d c () 0).2.1.replicas =
        1 := by
  decide

/-- A surplus that runs and cannot be killed costs nothing: the running replica that goes in
its stead is one too many. -/
theorem floor_kept_running_surplus :
    let d : Deployment := { image := "nginx", replicas := 2, strategy := .rollingUpdate 0 1 }
    let c : Controller :=
      { replicas :=
          [⟨"a", "n", "9154645cdccb2449", .running⟩, ⟨"b", "n", "9154645cdccb2449", .running⟩,
            ⟨"c", "n", "9154645cdccb2449", .running⟩] }
    min (runningCount (c.refreshed (stuckDriver ["a"]) d ())) (2 - 0) = 2 ∧
      2 ≤ runningCount
        (@Controller.tick Unit nginxSha256 (stuckDriver ["a"]) d c () 0).2.1.replicas := by
  intro d c
  have hmin : min (runningCount (c.refreshed (stuckDriver ["a"]) d ())) (2 - 0) = 2 := by decide
  have hkept := (@Controller.floor_kept_iff Unit nginxSha256 (stuckDriver ["a"]) d c () 0 1 rfl
    (by decide) 0).mpr (by decide +kernel)
  exact ⟨hmin, hmin ▸ hkept⟩

end CeGke
