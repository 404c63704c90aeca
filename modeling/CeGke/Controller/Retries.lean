import CeGke.Controller.Misses
import CeGke.Controller.Tracking

/-!
# Retries of the health refresh

A controller that is kept alive refreshes its replicas again and again, and between two
refreshes replicas come and go.  What a refresh leaves of a replica depends on the answers
for that replica alone, since it was first tracked: it is marked failed after a run of errors
as long as the threshold, and has the phase last answered before (`RefreshRun.phase_and_counter`).
-/

namespace CeGke

open Lib

variable {σ : Type}

/-! ## Answers over time -/

/-- How many errors the answers end with. -/
def errorRun (answers : List (Option Phase)) : ℕ :=
  (answers.reverse.takeWhile fun a ↦ a = none).length

/-- The last phase that was answered, or the initial one. -/
def lastAnswer (init : Phase) (answers : List (Option Phase)) : Phase :=
  answers.foldl (fun p a ↦ a.getD p) init

/-- The phase of a replica that was first tracked in phase `init` and answered for since. -/
def phaseAfter (threshold : UInt32) (init : Phase) (answers : List (Option Phase)) : Phase :=
  if max threshold.toNat 1 ≤ errorRun answers then .failed else lastAnswer init answers

/-- The counter of such a replica: there is one while its answers end with errors. -/
def counterAfter (answers : List (Option Phase)) : Option UInt32 :=
  if errorRun answers = 0 then none else some (UInt32.ofNat (errorRun answers))

section Answers

variable {threshold : UInt32} {init : Phase} {answers : List (Option Phase)}

@[simp] theorem phaseAfter_nil : phaseAfter threshold init [] = init :=
  if_neg (not_le.mpr (lt_max_of_lt_right Nat.one_pos))

@[simp] theorem counterAfter_nil : counterAfter [] = none := rfl

theorem errorRun_miss : errorRun (answers ++ [none]) = errorRun answers + 1 := by
  simp [errorRun]

theorem errorRun_answer {p : Phase} : errorRun (answers ++ [some p]) = 0 := by
  simp [errorRun]

theorem lastAnswer_miss : lastAnswer init (answers ++ [none]) = lastAnswer init answers := by
  rw [lastAnswer, List.foldl_append]
  rfl

theorem lastAnswer_answer {p : Phase} : lastAnswer init (answers ++ [some p]) = p := by
  rw [lastAnswer, List.foldl_append]
  rfl

theorem phaseAfter_answer {p : Phase} : phaseAfter threshold init (answers ++ [some p]) = p := by
  rw [phaseAfter, errorRun_answer, lastAnswer_answer]
  exact if_neg (not_le.mpr (lt_max_of_lt_right Nat.one_pos))

/-- The counter is one error behind. -/
theorem counterAfter_miss : counterAfter (answers ++ [none]) =
    some ((counterAfter answers).getD 0 + 1) := by
  rw [counterAfter, counterAfter, errorRun_miss, if_neg (Nat.succ_ne_zero _), Option.some.injEq]
  split_ifs with h
  · rw [h]
    rfl
  · rw [Option.getD_some, UInt32.ofNat_add]
    rfl

theorem counterAfter_answer {p : Phase} : counterAfter (answers ++ [some p]) = none := by
  rw [counterAfter, errorRun_answer, if_pos rfl]

theorem toNat_counterAfter_succ (answers : List (Option Phase)) :
    ((counterAfter answers).getD 0 + 1).toNat = (errorRun answers + 1) % 2 ^ 32 := by
  have hget : (counterAfter answers).getD 0 = UInt32.ofNat (errorRun answers) := by
    unfold counterAfter
    split_ifs with h
    · rw [h]
      rfl
    · rfl
  rw [hget, UInt32.toNat_add, UInt32.toNat_ofNat']
  exact Nat.mod_add_mod _ _ _

theorem max_one_le_iff {a n : UInt32} : max a 1 ≤ n ↔ max a.toNat 1 ≤ n.toNat := by
  have hmax : max a 1 = if a ≤ 1 then 1 else a := rfl
  have hone : (1 : UInt32).toNat = 1 := rfl
  rw [hmax, UInt32.le_iff_toNat_le]
  split_ifs with h
  · rw [UInt32.le_iff_toNat_le, hone] at h
    rw [hone, max_eq_right h]
  · rw [UInt32.le_iff_toNat_le, hone, not_le] at h
    rw [max_eq_left h.le]

/-- One more error: the counter decides like the run of errors, for it cannot wrap before it
reaches the threshold, and what has failed stays so. -/
theorem phaseAfter_miss : phaseAfter threshold init (answers ++ [none]) =
    if max threshold 1 ≤ (counterAfter answers).getD 0 + 1 then .failed
    else phaseAfter threshold init answers := by
  have hiff : max threshold 1 ≤ (counterAfter answers).getD 0 + 1 ↔
      max threshold.toNat 1 ≤ (errorRun answers + 1) % 2 ^ 32 := by
    rw [← toNat_counterAfter_succ, max_one_le_iff]
  have hlt : max threshold.toNat 1 < 2 ^ 32 :=
    max_lt threshold.toNat_lt (Nat.one_lt_two_pow (by decide))
  have hmod : (errorRun answers + 1) % 2 ^ 32 ≤ errorRun answers + 1 := Nat.mod_le _ _
  rw [phaseAfter, phaseAfter, errorRun_miss, lastAnswer_miss]
  by_cases hfailed : max threshold.toNat 1 ≤ errorRun answers
  · rw [if_pos (hfailed.trans (Nat.le_succ _)), if_pos hfailed, ite_self]
  · rw [if_neg hfailed]
    have hsucc : (errorRun answers + 1) % 2 ^ 32 = errorRun answers + 1 := by
      apply Nat.mod_eq_of_lt
      omega
    rw [hsucc] at hiff
    by_cases h : max threshold.toNat 1 ≤ errorRun answers + 1
    · rw [if_pos h, if_pos (hiff.mpr h)]
    · rw [if_neg h, if_neg (mt hiff.mp h)]

end Answers

/-! ## One refresh -/

namespace Controller

theorem refreshFailures_foldl_record {updates : List (String × Option Phase)} {job : String}
    (hjob : job ∉ updates.map Prod.fst) (c : Controller) :
    (updates.foldl record c).refreshFailures job = c.refreshFailures job := by
  induction updates generalizing c with
  | nil => rfl
  | cons u updates ih =>
      rw [List.map_cons, List.mem_cons, not_or] at hjob
      exact (ih hjob.2 _).trans (refreshFailures_record_of_ne c (Ne.symm hjob.1))

/-- What a refresh hears of a job; an error is `none`. -/
def heard (driver : MeshDriver σ) (d : Deployment) (c : Controller) (s : σ) (job : String) :
    Option Phase :=
  ((observePhases driver d.liveness c.grant c.replicas s).1.lookup job).join

section Refresh

variable {driver : MeshDriver σ} {d : Deployment} {c : Controller} {s : σ} {q : ReplicaState}

/-- A refresh asks once for each tracked replica. -/
theorem answers_split (driver : MeshDriver σ) (d : Deployment) (s : σ)
    (hnodup : (jobIds c.replicas).Nodup) {job : String} (hjob : job ∈ jobIds c.replicas) :
    ∃ before after,
    (observePhases driver d.liveness c.grant c.replicas s).1 =
        before ++ (job, c.heard driver d s job) :: after ∧
      job ∉ before.map Prod.fst ∧ job ∉ after.map Prod.fst := by
  have hids := map_fst_observePhases driver d.liveness c.grant c.replicas s
  rw [← hids, List.mem_map] at hjob
  rw [← hids] at hnodup
  obtain ⟨⟨job', answer⟩, hmem, rfl⟩ := hjob
  obtain ⟨before, after, hsplit⟩ := List.append_of_mem hmem
  rw [hsplit, List.map_append, List.map_cons] at hnodup
  have hbefore : job' ∉ before.map Prod.fst := fun h ↦
    (List.nodup_append'.mp hnodup).2.2 h List.mem_cons_self
  have hafter : job' ∉ after.map Prod.fst :=
    (List.nodup_cons.mp (List.nodup_append'.mp hnodup).2.1).1
  have hheard : c.heard driver d s job' = answer := by
    rw [heard, hsplit, lookup_append_cons hbefore]
    rfl
  exact ⟨before, after, hheard ▸ hsplit, hbefore, hafter⟩

/-- What is heard of a replica is what the driver answers when its turn comes. -/
theorem heard_of_split {before after : List ReplicaState} {r : ReplicaState}
    (hc : c.replicas = before ++ r :: after) (hnodup : (jobIds c.replicas).Nodup) :
    c.heard driver d s r.jobId = (driver.phase r.nodeId r.jobId d.liveness c.grant
      (observePhases driver d.liveness c.grant before s).2).1.toOption := by
  have hbefore : r.jobId ∉
      (observePhases driver d.liveness c.grant before s).1.map Prod.fst := by
    rw [hc, jobIds_append, jobIds_cons] at hnodup
    rw [map_fst_observePhases]
    exact fun h ↦ (List.nodup_append'.mp hnodup).2.2 h List.mem_cons_self
  rw [heard, hc, observePhases_append, observePhases]
  simp only
  rw [lookup_append_cons hbefore]
  rfl

/-- The answer for a replica decides its phase and its counter, together with what they were:
nothing that is heard of another does. -/
theorem refreshed_of_heard (hnodup : (jobIds c.replicas).Nodup)
    (hq : q ∈ c.refreshed driver d s) : ∃ r ∈ c.replicas, r.jobId = q.jobId ∧
    (∀ p, c.heard driver d s q.jobId = some p →
      q.phase = p ∧ (c.refresh driver d s).1.refreshFailures q.jobId = none) ∧
    (c.heard driver d s q.jobId = none →
      q.phase = (if max c.failureThreshold 1 ≤ (c.refreshFailures q.jobId).getD 0 + 1 then .failed
        else r.phase) ∧
      (c.refresh driver d s).1.refreshFailures q.jobId =
        some ((c.refreshFailures q.jobId).getD 0 + 1)) := by
  have htracked : q.jobId ∈ jobIds c.replicas := by
    rw [← jobIds_refreshed driver d c s]
    exact mem_jobIds.mpr ⟨q, hq, rfl⟩
  obtain ⟨before, after, hsplit, hbefore, hafter⟩ :=
    answers_split driver d s hnodup htracked
  set c₁ := before.foldl record c
  -- The refresh is the answers before, the one in question, and those after it.
  have hrefresh : (c.refresh driver d s).1 = (after.foldl record
      (c₁.record (q.jobId, c.heard driver d s q.jobId))).retainFailures := by
    have hfold : (c.refresh driver d s).1 =
        ((observePhases driver d.liveness c.grant c.replicas s).1.foldl record
          c).retainFailures := rfl
    rw [hfold, hsplit, List.foldl_append, List.foldl_cons]
  rw [refreshed, hrefresh] at hq
  have hmem : q ∈ (c₁.record (q.jobId, c.heard driver d s q.jobId)).replicas :=
    mem_replicas_of_foldl_record hq hafter
  have hcounter : (c.refresh driver d s).1.refreshFailures q.jobId =
      (c₁.record (q.jobId, c.heard driver d s q.jobId)).refreshFailures q.jobId := by
    rw [hrefresh]
    exact (if_pos (mem_jobIds.mpr ⟨q, hq, rfl⟩)).trans (refreshFailures_foldl_record hafter _)
  have hids : jobIds c₁.replicas = jobIds c.replicas := jobIds_foldl_record before c
  have hnodup₁ : (jobIds c₁.replicas).Nodup := hids ▸ hnodup
  have hmisses : c₁.refreshFailures q.jobId = c.refreshFailures q.jobId :=
    refreshFailures_foldl_record hbefore c
  obtain ⟨r, hr, hrq⟩ := mem_jobIds.mp (hids ▸ htracked)
  refine ⟨r, mem_replicas_of_foldl_record hr (hrq ▸ hbefore), hrq, fun p hheard ↦ ?_,
    fun hheard ↦ ?_⟩
  · rw [hheard] at hmem hcounter
    rw [hcounter]
    exact ⟨phase_of_mem_setPhase hnodup₁ hmem rfl, Function.update_self _ _ _⟩
  · rw [hheard] at hmem hcounter
    rw [hcounter]
    simp only [record, hmisses, foldl_record_eq failureThreshold_record, c₁] at hmem ⊢
    refine ⟨?_, Function.update_self _ _ _⟩
    split_ifs at hmem ⊢
    · exact phase_of_mem_setPhase hnodup₁ hmem rfl
    · rw [List.inj_on_of_nodup_map hnodup₁ hmem hr hrq.symm]

/-- There are counters only for what is tracked. -/
theorem mem_of_refreshFailures {job : String}
    (h : (c.refresh driver d s).1.refreshFailures job ≠ none) : job ∈ jobIds c.replicas := by
  rw [← jobIds_refreshed driver d c s]
  by_contra hnot
  exact h (if_neg hnot)

end Refresh

end Controller

/-! ## Refresh after refresh -/

/-- A controller that starts without counters and is refreshed again and again.  Between two
refreshes replicas are dropped and added, the new ones under new job ids. -/
structure RefreshRun (driver : ℕ → MeshDriver σ) (d : ℕ → Deployment) (s : ℕ → σ)
    (c : ℕ → Controller) : Prop where
  new : ∀ job, (c 0).refreshFailures job = none
  nodup : ∀ n, (jobIds (c n).replicas).Nodup
  counters : ∀ n, (c (n + 1)).refreshFailures =
    ((c n).refresh (driver n) (d n) (s n)).1.refreshFailures
  threshold : ∀ n, (c n).failureThreshold = (c 0).failureThreshold
  kept : ∀ n, ∀ r ∈ (c (n + 1)).replicas,
    r ∈ (c n).refreshed (driver n) (d n) (s n) ∨ r.jobId ∉ jobIds (c n).replicas

/-- What the refreshes `m` to `n` hear of a job. -/
def heardSince (driver : ℕ → MeshDriver σ) (d : ℕ → Deployment) (s : ℕ → σ)
    (c : ℕ → Controller) (job : String) (m n : ℕ) : List (Option Phase) :=
  (List.range' m (n + 1 - m)).map fun i ↦ (c i).heard (driver i) (d i) (s i) job

/-- `r` is tracked since just before refresh `m`, and still is at refresh `n`. -/
structure TrackedSince (c : ℕ → Controller) (r : ReplicaState) (m n : ℕ) : Prop where
  le : m ≤ n
  mem : r ∈ (c m).replicas
  new : ∀ k, m = k + 1 → r.jobId ∉ jobIds (c k).replicas
  tracked : ∀ i, m ≤ i → i ≤ n → r.jobId ∈ jobIds (c i).replicas

theorem heardSince_self {driver : ℕ → MeshDriver σ} {d : ℕ → Deployment} {s : ℕ → σ}
    {c : ℕ → Controller} {job : String} {n : ℕ} :
    heardSince driver d s c job n n = [(c n).heard (driver n) (d n) (s n) job] := by
  rw [heardSince, Nat.add_sub_cancel_left]
  rfl

theorem heardSince_succ {driver : ℕ → MeshDriver σ} {d : ℕ → Deployment} {s : ℕ → σ}
    {c : ℕ → Controller} {job : String} {m n : ℕ} (h : m ≤ n) :
    heardSince driver d s c job m (n + 1) = heardSince driver d s c job m n ++
      [(c (n + 1)).heard (driver (n + 1)) (d (n + 1)) (s (n + 1)) job] := by
  have hlen : n + 1 + 1 - m = (n + 1 - m) + 1 := by omega
  have hlast : m + (n + 1 - m) = n + 1 := by omega
  rw [heardSince, hlen, List.range'_1_concat, List.map_append, hlast]
  rfl

namespace RefreshRun

variable {driver : ℕ → MeshDriver σ} {d : ℕ → Deployment} {s : ℕ → σ} {c : ℕ → Controller}

theorem exists_tracked {driver : MeshDriver σ} {d : Deployment} {c : Controller} {s : σ}
    {q : ReplicaState} (hq : q ∈ c.refreshed driver d s) : ∃ r ∈ c.replicas, r.jobId = q.jobId := by
  rw [← mem_jobIds, ← jobIds_refreshed driver d c s]
  exact mem_jobIds.mpr ⟨q, hq, rfl⟩

/-- One refresh of a replica whose answers so far were `answers`. -/
theorem refresh_step (h : RefreshRun driver d s c) {n : ℕ} {init : Phase}
    {answers : List (Option Phase)} {q : ReplicaState}
    (hq : q ∈ (c n).refreshed (driver n) (d n) (s n))
    (hphase : ∀ r ∈ (c n).replicas, r.jobId = q.jobId →
      r.phase = phaseAfter (c 0).failureThreshold init answers)
    (hcounter : (c n).refreshFailures q.jobId = counterAfter answers) :
    q.phase = phaseAfter (c 0).failureThreshold init
        (answers ++ [(c n).heard (driver n) (d n) (s n) q.jobId]) ∧
      ((c n).refresh (driver n) (d n) (s n)).1.refreshFailures q.jobId =
        counterAfter (answers ++ [(c n).heard (driver n) (d n) (s n) q.jobId]) := by
  obtain ⟨r, hr, hrq, hanswer, hmiss⟩ := Controller.refreshed_of_heard (h.nodup n) hq
  cases hheard : (c n).heard (driver n) (d n) (s n) q.jobId with
  | none =>
      obtain ⟨hqphase, hqcounter⟩ := hmiss hheard
      rw [hcounter] at hqphase hqcounter
      rw [phaseAfter_miss, counterAfter_miss, ← hphase r hr hrq, ← h.threshold n]
      exact ⟨hqphase, hqcounter⟩
  | some p =>
      rw [phaseAfter_answer, counterAfter_answer]
      exact hanswer p hheard

/-- The first refresh of a replica. -/
theorem of_new (h : RefreshRun driver d s c) {n : ℕ} {q r : ReplicaState}
    (hq : q ∈ (c n).refreshed (driver n) (d n) (s n)) (hr : r ∈ (c n).replicas)
    (hrq : r.jobId = q.jobId) (hnew : ∀ k, n = k + 1 → r.jobId ∉ jobIds (c k).replicas) :
    TrackedSince c r n n ∧
      q.phase = phaseAfter (c 0).failureThreshold r.phase
        (heardSince driver d s c q.jobId n n) ∧
      ((c n).refresh (driver n) (d n) (s n)).1.refreshFailures q.jobId =
        counterAfter (heardSince driver d s c q.jobId n n) := by
  have htracked : TrackedSince c r n n := by
    refine ⟨le_rfl, hr, hnew, fun i hi hi' ↦ ?_⟩
    obtain rfl := le_antisymm hi' hi
    exact mem_jobIds.mpr ⟨r, hr, rfl⟩
  have hnone : (c n).refreshFailures q.jobId = none := by
    cases n with
    | zero => exact h.new _
    | succ n =>
        rw [h.counters n, ← hrq]
        by_contra hcounter
        exact hnew n rfl (Controller.mem_of_refreshFailures hcounter)
  refine ⟨htracked, ?_⟩
  rw [heardSince_self]
  have hphase : ∀ r' ∈ (c n).replicas, r'.jobId = q.jobId →
      r'.phase = phaseAfter (c 0).failureThreshold r.phase [] := by
    intro r' hr' hr'q
    rw [phaseAfter_nil, List.inj_on_of_nodup_map (h.nodup n) hr' hr (hr'q.trans hrq.symm)]
  exact h.refresh_step hq hphase hnone

/-- **Bounded retry**: after each refresh a replica is failed if the answers for it end with
as many errors as the threshold asks for, and else in the phase last answered, or its first one,
where only the answers since it was first tracked count.  There are counters only for tracked
replicas whose answers end with an error. -/
theorem phase_and_counter (h : RefreshRun driver d s c) (n : ℕ) :
    (∀ job, ((c n).refresh (driver n) (d n) (s n)).1.refreshFailures job ≠ none →
      job ∈ jobIds (c n).replicas) ∧
      ∀ q ∈ (c n).refreshed (driver n) (d n) (s n), ∃ m r, TrackedSince c r m n ∧
        r.jobId = q.jobId ∧
          q.phase = phaseAfter (c 0).failureThreshold r.phase
            (heardSince driver d s c q.jobId m n) ∧
            ((c n).refresh (driver n) (d n) (s n)).1.refreshFailures q.jobId =
              counterAfter (heardSince driver d s c q.jobId m n) := by
  refine ⟨fun job ↦ Controller.mem_of_refreshFailures, ?_⟩
  induction n with
  | zero =>
      intro q hq
      obtain ⟨r, hr, hrq⟩ := exists_tracked hq
      obtain ⟨htracked, hstate⟩ := h.of_new hq hr hrq fun k hk ↦ absurd hk.symm (Nat.succ_ne_zero k)
      exact ⟨0, r, htracked, hrq, hstate⟩
  | succ n ih =>
      intro q hq
      obtain ⟨r, hr, hrq⟩ := exists_tracked hq
      rcases h.kept n r hr with hkept | hnew
      · obtain ⟨m, r₀, htracked, hr₀, hphase, hcounter⟩ := ih r hkept
        have htracked' : TrackedSince c r₀ m (n + 1) := by
          refine ⟨htracked.le.trans (Nat.le_succ n), htracked.mem, htracked.new, fun i hi hi' ↦ ?_⟩
          rcases hi'.lt_or_eq with hlt | rfl
          · exact htracked.tracked i hi (Nat.le_of_lt_succ hlt)
          · exact mem_jobIds.mpr ⟨r, hr, hr₀.symm⟩
        rw [← h.counters n, hrq] at hcounter
        rw [hrq] at hphase
        refine ⟨m, r₀, htracked', hr₀.trans hrq, ?_⟩
        rw [heardSince_succ htracked.le]
        refine h.refresh_step hq (fun r' hr' hr'q ↦ ?_) hcounter
        rw [List.inj_on_of_nodup_map (h.nodup (n + 1)) hr' hr (hr'q.trans hrq.symm), hphase]
      · obtain ⟨htracked, hstate⟩ := h.of_new hq hr hrq fun k hk ↦ by
          obtain rfl := Nat.succ_inj.mp hk
          exact hnew
        exact ⟨n + 1, r, htracked, hrq, hstate⟩

/-- Ticks are such a run, as long as the mesh hands out job ids that are not in use. -/
theorem of_ticks [Sha256] (now : ℕ → UInt64) (hnew : ∀ job, (c 0).refreshFailures job = none)
    (hnodup : ∀ n, (jobIds (c n).replicas).Nodup)
    (htick : ∀ n, c (n + 1) = ((c n).tick (driver n) (d n) (s n) (now n)).2.1)
    (hfresh : ∀ n, ∀ job ∈ ((c n).tick (driver n) (d n) (s n) (now n)).1.placed,
      job ∉ jobIds (c n).replicas) : RefreshRun driver d s c where
  new := hnew
  nodup := hnodup
  counters n := by
    rw [htick n]
    rfl
  threshold n := by
    induction n with
    | zero => rfl
    | succ n ih =>
        have hrefresh := Controller.failureThreshold_refresh (driver n) (d n) (c n) (s n)
        exact (congrArg Controller.failureThreshold (htick n)).trans (hrefresh.trans ih)
  kept n r hr := by
    obtain ⟨launched, hreplicas, hplaced, _⟩ :=
      (c n).tick_killed_placed (d n) (driver n) (s n) (now n)
    rw [htick n, hreplicas] at hr
    rcases List.mem_append.mp hr with hr | hr
    · exact Or.inl (mem_without.mp hr).1
    · exact Or.inr (hfresh n _ (hplaced ▸ mem_jobIds.mpr ⟨r, hr, rfl⟩))

/-- Nothing but refreshes. -/
theorem of_refreshes (hnew : ∀ job, (c 0).refreshFailures job = none)
    (hnodup : (jobIds (c 0).replicas).Nodup)
    (hrefresh : ∀ n, c (n + 1) = ((c n).refresh (driver n) (d n) (s n)).1) :
    RefreshRun driver d s c where
  new := hnew
  nodup n := by
    induction n with
    | zero => exact hnodup
    | succ n ih =>
        rw [hrefresh n]
        exact (jobIds_refreshed (driver n) (d n) (c n) (s n)).symm ▸ ih
  counters n := congrArg Controller.refreshFailures (hrefresh n)
  threshold n := by
    induction n with
    | zero => rfl
    | succ n ih =>
        rw [hrefresh n]
        exact (Controller.failureThreshold_refresh (driver n) (d n) (c n) (s n)).trans ih
  kept n r hr := by
    rw [hrefresh n] at hr
    exact Or.inl hr

/-- A replica on a mesh that has lost touch with its host, three times. -/
theorem phase_and_counter_stuck :
    let step (c : Controller) : Controller := (c.refresh (stuckDriver []) {} ()).1
    let c (n : ℕ) : Controller := step^[n] { replicas := [⟨"a", "n", "v1", .running⟩] }
    (∀ job, (step (c 2)).refreshFailures job ≠ none → job ∈ jobIds (c 2).replicas) ∧
      ∀ q ∈ (step (c 2)).replicas, ∃ m r, TrackedSince c r m 2 ∧ r.jobId = q.jobId ∧
        q.phase = phaseAfter 3 r.phase (heardSince (fun _ ↦ stuckDriver []) (fun _ ↦ {})
          (fun _ ↦ ()) c q.jobId m 2) := by
  intro step c
  have hrun : RefreshRun (fun _ ↦ stuckDriver []) (fun _ ↦ {}) (fun _ ↦ ()) c :=
    of_refreshes (fun _ ↦ rfl) (by decide) fun n ↦ Function.iterate_succ_apply' step n _
  obtain ⟨hcounters, hphases⟩ := hrun.phase_and_counter 2
  refine ⟨hcounters, fun q hq ↦ ?_⟩
  obtain ⟨m, r, htracked, hrq, hphase, _⟩ := hphases q hq
  exact ⟨m, r, htracked, hrq, hphase⟩

end RefreshRun

end CeGke
