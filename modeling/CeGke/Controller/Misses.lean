import CeGke.Controller.Stages

/-!
# Missed refreshes

A refresh whose answer is an error is a miss.  The counters of consecutive misses are
all that tells a controller kept alive from one rebuilt from its replicas; they matter
only where they take a replica that has not failed yet to the threshold.
-/

namespace CeGke

variable {σ : Type}

/-- The misses of a job among the answers of a refresh. -/
def missesIn (job : String) (updates : List (String × Option Phase)) : ℕ :=
  updates.countP fun u ↦ u.1 = job ∧ u.2 = none

/-- The misses of a job since it was last answered for. -/
def streak (job : String) (updates : List (String × Option Phase)) : ℕ :=
  updates.foldl (fun n u ↦ if u.1 = job then if u.2 = none then n + 1 else 0 else n) 0

theorem streak_append (job : String) (updates : List (String × Option Phase))
    (u : String × Option Phase) :
    streak job (updates ++ [u]) =
      if u.1 = job then if u.2 = none then streak job updates + 1 else 0
      else streak job updates := by
  rw [streak, List.foldl_append]
  rfl

theorem missesIn_cons (job : String) (u : String × Option Phase)
    (updates : List (String × Option Phase)) :
    missesIn job (u :: updates) =
      missesIn job updates + if u.1 = job ∧ u.2 = none then 1 else 0 := by
  simp only [missesIn, List.countP_cons, decide_eq_true_eq]

/-- The counter of a job; an absent one is zero. -/
def Controller.misses (c : Controller) (job : String) : UInt32 :=
  (c.refreshFailures job).getD 0

namespace Controller

/-! ## One answer -/

theorem misses_record_miss (c : Controller) (job job' : String) :
    (c.record (job, none)).misses job' =
      if job' = job then c.misses job + 1 else c.misses job' := by
  simp only [misses, record]
  by_cases h : job' = job
  · rw [if_pos h, h, Function.update_self]
    rfl
  · rw [if_neg h, Function.update_of_ne h]

theorem misses_record_answer (c : Controller) (job job' : String) (p : Phase) :
    (c.record (job, some p)).misses job' = if job' = job then 0 else c.misses job' := by
  simp only [misses, record]
  by_cases h : job' = job
  · rw [if_pos h, h, Function.update_self]
    rfl
  · rw [if_neg h, Function.update_of_ne h]

/-- What no refresh changes. -/
def settings (c : Controller) : Option String × UInt64 × UInt32 :=
  (c.grant, c.maxStaleSecs, c.failureThreshold)

theorem settings_record (c : Controller) (u : String × Option Phase) :
    (c.record u).settings = c.settings := by
  obtain ⟨job, _ | p⟩ := u <;> rfl

theorem settings_refresh (driver : MeshDriver σ) (d : Deployment) (c : Controller) (s : σ) :
    (c.refresh driver d s).1.settings = c.settings :=
  foldl_record_eq settings_record _ c

theorem failureThreshold_record (c : Controller) (u : String × Option Phase) :
    (c.record u).failureThreshold = c.failureThreshold :=
  congrArg (fun x ↦ x.2.2) (settings_record c u)

theorem failureThreshold_refresh (driver : MeshDriver σ) (d : Deployment) (c : Controller)
    (s : σ) : (c.refresh driver d s).1.failureThreshold = c.failureThreshold :=
  congrArg (fun x ↦ x.2.2) (settings_refresh driver d c s)

theorem replicas_record_miss (c : Controller) (job : String)
    (hc : c.failureThreshold = defaultFailureThreshold) :
    (c.record (job, none)).replicas =
      if 3 ≤ c.misses job + 1 then setPhase job .failed c.replicas else c.replicas := by
  simp only [record, misses, hc]
  rfl

theorem replicas_record_answer (c : Controller) (job : String) (p : Phase) :
    (c.record (job, some p)).replicas = setPhase job p c.replicas := rfl

/-- A counter is at most the misses since the last answer; it would wrap before it
exceeded them. -/
theorem misses_record_le {c : Controller} {past : List (String × Option Phase)}
    (h : ∀ job, (c.misses job).toNat ≤ streak job past) (u : String × Option Phase)
    (job : String) : ((c.record u).misses job).toNat ≤ streak job (past ++ [u]) := by
  obtain ⟨job', _ | p⟩ := u
  · rw [misses_record_miss, streak_append]
    by_cases hjob : job' = job
    · subst hjob
      simp only [if_true]
      rw [UInt32.toNat_add]
      exact (Nat.mod_le _ _).trans (Nat.succ_le_succ (h job'))
    · rw [if_neg hjob, if_neg (Ne.symm hjob)]
      exact h job
  · rw [misses_record_answer, streak_append]
    by_cases hjob : job' = job
    · simp [hjob]
    · rw [if_neg hjob, if_neg (Ne.symm hjob)]
      exact h job

theorem misses_foldl_record_le {c : Controller} {past : List (String × Option Phase)}
    (h : ∀ job, (c.misses job).toNat ≤ streak job past)
    (updates : List (String × Option Phase)) (job : String) :
    ((updates.foldl record c).misses job).toNat ≤ streak job (past ++ updates) := by
  induction updates generalizing c past with
  | nil => exact (List.append_nil past).symm ▸ h job
  | cons u updates ih =>
      have hstep := ih (misses_record_le h u)
      rwa [List.append_assoc] at hstep

/-- After a refresh the counters cover no more than the answers so far. -/
theorem misses_refresh_le {driver : MeshDriver σ} {d : Deployment} {c : Controller} {s : σ}
    {past : List (String × Option Phase)} (h : ∀ job, (c.misses job).toNat ≤ streak job past)
    (job : String) :
    ((c.refresh driver d s).1.misses job).toNat ≤
      streak job (past ++ (observePhases driver d.liveness c.grant c.replicas s).1) := by
  have hfold := misses_foldl_record_le h
    (observePhases driver d.liveness c.grant c.replicas s).1 job
  refine le_trans ?_ hfold
  simp only [refresh, retainFailures, misses]
  split_ifs
  · exact le_rfl
  · exact Nat.zero_le _

/-! ## Two controllers -/

/-- Nothing that is left of a refresh can tell the two controllers apart by `job`: their
counters agree, or it has no miss left, or its misses do not reach the threshold, or all
its replicas have failed and stay so. -/
def Indifferent (c c' : Controller) (updates : List (String × Option Phase)) (job : String) :
    Prop :=
  c.misses job = c'.misses job ∨ missesIn job updates = 0 ∨
    ((c.misses job).toNat + missesIn job updates < 3 ∧
      (c'.misses job).toNat + missesIn job updates < 3) ∨
    ((∀ r ∈ c.replicas, r.jobId = job → r.phase = .failed) ∧
      ∀ u ∈ updates, u.1 = job → u.2 = none)

/-- The two controllers track the same and will do so to the end of the refresh. -/
structure Aligned (c c' : Controller) (updates : List (String × Option Phase)) : Prop where
  replicas : c.replicas = c'.replicas
  threshold : c.failureThreshold = defaultFailureThreshold
  threshold' : c'.failureThreshold = defaultFailureThreshold
  indifferent : ∀ job, Indifferent c c' updates job

theorem mem_setPhase {job : String} {p : Phase} {l : List ReplicaState} {r : ReplicaState}
    (h : r ∈ setPhase job p l) : r ∈ l ∨ r.jobId = job := by
  induction l with
  | nil => exact Or.inl h
  | cons r' l ih =>
      rw [setPhase] at h
      split_ifs at h with hjob
      · rcases List.mem_cons.mp h with rfl | h
        · exact Or.inr hjob
        · exact Or.inl (List.mem_cons_of_mem _ h)
      · rcases List.mem_cons.mp h with rfl | h
        · exact Or.inl List.mem_cons_self
        · exact (ih h).imp_left (List.mem_cons_of_mem _)

theorem setPhase_failed_eq_self {job : String} {l : List ReplicaState}
    (h : ∀ r ∈ l, r.jobId = job → r.phase = .failed) : setPhase job .failed l = l := by
  induction l with
  | nil => rfl
  | cons r l ih =>
      rw [setPhase]
      split_ifs with hjob
      · rw [← h r List.mem_cons_self hjob]
      · rw [ih fun r' hr' ↦ h r' (List.mem_cons_of_mem _ hr')]

theorem refreshFailures_record_of_ne (c : Controller) {u : String × Option Phase} {job : String}
    (h : u.1 ≠ job) : (c.record u).refreshFailures job = c.refreshFailures job := by
  obtain ⟨job', _ | p⟩ := u
  · exact Function.update_of_ne (Ne.symm h) _ _
  · exact Function.update_of_ne (Ne.symm h) _ _

theorem misses_record_of_ne (c : Controller) {u : String × Option Phase} {job : String}
    (h : u.1 ≠ job) : (c.record u).misses job = c.misses job := by
  rw [misses, misses, refreshFailures_record_of_ne c h]

theorem mem_replicas_record {c : Controller} {u : String × Option Phase} {r : ReplicaState}
    (h : r ∈ (c.record u).replicas) : r ∈ c.replicas ∨ r.jobId = u.1 := by
  obtain ⟨job, _ | p⟩ := u
  · simp only [record] at h
    split_ifs at h
    · exact mem_setPhase h
    · exact Or.inl h
  · exact mem_setPhase h

/-- Answers for other jobs leave a replica as it is. -/
theorem mem_replicas_of_foldl_record {updates : List (String × Option Phase)} {c : Controller}
    {q : ReplicaState} (hq : q ∈ (updates.foldl record c).replicas)
    (hjob : q.jobId ∉ updates.map Prod.fst) : q ∈ c.replicas := by
  induction updates generalizing c with
  | nil => exact hq
  | cons u updates ih =>
      rw [List.map_cons, List.mem_cons, not_or] at hjob
      exact (mem_replicas_record (ih hq hjob.2)).resolve_right hjob.1

/-- The answer for one job does not touch the others. -/
theorem Indifferent.record_of_ne {c c' : Controller} {u : String × Option Phase}
    {updates : List (String × Option Phase)} {job : String}
    (h : Indifferent c c' (u :: updates) job) (hne : u.1 ≠ job) :
    Indifferent (c.record u) (c'.record u) updates job := by
  unfold Indifferent at h ⊢
  rw [misses_record_of_ne c hne, misses_record_of_ne c' hne]
  rw [missesIn_cons, if_neg fun hu ↦ hne hu.1, Nat.add_zero] at h
  refine h.imp_right (Or.imp_right (Or.imp_right ?_))
  rintro ⟨hfailed, hmissed⟩
  constructor
  · intro r hr hjob
    refine hfailed r ((mem_replicas_record hr).resolve_right fun hu ↦ hne ?_) hjob
    rw [← hu, hjob]
  · exact fun u' hu' ↦ hmissed u' (List.mem_cons_of_mem _ hu')

/-- Counters with no room to the threshold do not reach it. -/
theorem not_threshold_le {n : UInt32} {k : ℕ} (h : n.toNat + (k + 1) < 3) :
    ¬ 3 ≤ n + 1 ∧ (n + 1).toNat = n.toNat + 1 := by
  have h₁ : (1 : UInt32).toNat = 1 := rfl
  have hadd : (n + 1).toNat = n.toNat + 1 := by
    rw [UInt32.toNat_add, h₁]
    omega
  refine ⟨?_, hadd⟩
  intro hle
  have hle' := UInt32.le_iff_toNat_le.mp hle
  rw [hadd] at hle'
  have h₃ : (3 : UInt32).toNat = 3 := rfl
  omega

/-- A miss leaves the two controllers with the same replicas, and as indifferent to the
job as they were. -/
theorem Aligned.record_miss {c c' : Controller} {job : String}
    {updates : List (String × Option Phase)} (h : Aligned c c' ((job, none) :: updates)) :
    (c.record (job, none)).replicas = (c'.record (job, none)).replicas ∧
      Indifferent (c.record (job, none)) (c'.record (job, none)) updates job := by
  have hmiss := missesIn_cons job (job, none) updates
  rw [if_pos ⟨rfl, rfl⟩] at hmiss
  unfold Indifferent
  rw [replicas_record_miss c job h.threshold, replicas_record_miss c' job h.threshold',
    ← h.replicas, misses_record_miss, misses_record_miss, if_pos rfl, if_pos rfl]
  rcases h.indifferent job with heq | hzero | ⟨hlt, hlt'⟩ | ⟨hfailed, hmissed⟩
  · rw [heq]
    exact ⟨rfl, Or.inl rfl⟩
  · exact absurd hzero (by omega)
  · rw [hmiss] at hlt hlt'
    obtain ⟨hbelow, hnext⟩ := not_threshold_le hlt
    obtain ⟨hbelow', hnext'⟩ := not_threshold_le hlt'
    rw [if_neg hbelow, if_neg hbelow', hnext, hnext']
    exact ⟨rfl, Or.inr (Or.inr (Or.inl ⟨by omega, by omega⟩))⟩
  · rw [setPhase_failed_eq_self hfailed, ite_self, ite_self]
    exact ⟨rfl, Or.inr (Or.inr (Or.inr
      ⟨hfailed, fun u hu ↦ hmissed u (List.mem_cons_of_mem _ hu)⟩))⟩

theorem Aligned.record {c c' : Controller} {u : String × Option Phase}
    {updates : List (String × Option Phase)} (h : Aligned c c' (u :: updates)) :
    Aligned (c.record u) (c'.record u) updates := by
  refine ⟨?_, (failureThreshold_record c u).trans h.threshold,
    (failureThreshold_record c' u).trans h.threshold', fun job' ↦ ?_⟩
  · obtain ⟨job, _ | p⟩ := u
    · exact h.record_miss.1
    · rw [replicas_record_answer, replicas_record_answer, h.replicas]
  · by_cases hjob : u.1 = job'
    · obtain ⟨job, _ | p⟩ := u
      · exact hjob ▸ h.record_miss.2
      · refine Or.inl ?_
        rw [misses_record_answer, misses_record_answer, if_pos hjob.symm, if_pos hjob.symm]
    · exact (h.indifferent job').record_of_ne hjob

/-- To the end of the refresh. -/
theorem Aligned.foldl_record {c c' : Controller} {updates : List (String × Option Phase)}
    (h : Aligned c c' updates) :
    (updates.foldl Controller.record c).replicas =
      (updates.foldl Controller.record c').replicas := by
  induction updates generalizing c c' with
  | nil => exact h.replicas
  | cons u updates ih => exact ih h.record

/-- Aligned controllers with the same settings are left with the same replicas by a
refresh, and by the whole tick. -/
theorem Aligned.tick [Sha256] {driver : MeshDriver σ} {d : Deployment} {c c' : Controller}
    {s : σ} (hgrant : c.grant = c'.grant) (hstale : c.maxStaleSecs = c'.maxStaleSecs)
    (h : Aligned c c' (observePhases driver d.liveness c.grant c.replicas s).1)
    (now : UInt64) :
    (c.tick driver d s now).2.1.replicas = (c'.tick driver d s now).2.1.replicas := by
  have hrefreshed : c.refreshed driver d s = c'.refreshed driver d s := by
    simp only [refreshed, refresh, retainFailures]
    rw [← hgrant, ← h.replicas]
    exact h.foldl_record
  have hmesh : (c.refresh driver d s).2 = (c'.refresh driver d s).2 := by
    simp only [refresh]
    rw [← hgrant, ← h.replicas]
  have hplanned : c.planned driver d s = c'.planned driver d s := by
    simp only [refreshed] at hrefreshed
    simp only [planned, hmesh, hrefreshed]
  have hplan : c.plan driver d s = c'.plan driver d s := by
    simp only [plan, hrefreshed]
  simp only [Controller.tick, afterPlacements, afterSubstitutes, afterKills, hplanned, hplan,
    hgrant, hstale]

end Controller

end CeGke
