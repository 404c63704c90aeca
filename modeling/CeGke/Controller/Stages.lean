import CeGke.Controller.Rules
import CeGke.Rollout.Tally

/-!
# The stages of a tick

What each stage of `Controller::tick` does to the tracked replicas and to the report,
whatever the driver answers.  The refresh only rewrites phases, the kills remove the
replicas they report, the placements append the ones they report, and nothing else
changes (`Killed`, `Placed`).
-/

namespace CeGke

open Lib

variable {σ : Type}

/-! ## Refresh -/

/-- All of a replica but its phase. -/
def ReplicaState.handle (r : ReplicaState) : String × String × String :=
  (r.jobId, r.nodeId, r.revision)

theorem map_handle_setPhase (job : String) (p : Phase) (l : List ReplicaState) :
    (setPhase job p l).map ReplicaState.handle = l.map ReplicaState.handle := by
  induction l with
  | nil => rfl
  | cons r l ih =>
      rw [setPhase]
      split
      · rfl
      · rw [List.map_cons, List.map_cons, ih]

theorem map_handle_record (c : Controller) (update : String × Option Phase) :
    (c.record update).replicas.map ReplicaState.handle =
      c.replicas.map ReplicaState.handle := by
  obtain ⟨job, _ | p⟩ := update
  · simp only [Controller.record]
    split
    · exact map_handle_setPhase _ _ _
    · rfl
  · exact map_handle_setPhase _ _ _

/-- What one answer leaves as it is, all of them do. -/
theorem foldl_record_eq {α : Type*} {f : Controller → α}
    (hrecord : ∀ c update, f (c.record update) = f c) (updates : List (String × Option Phase))
    (c : Controller) : f (updates.foldl Controller.record c) = f c := by
  induction updates generalizing c with
  | nil => rfl
  | cons update updates ih => exact (ih _).trans (hrecord c update)

/-- A refresh only rewrites phases. -/
theorem map_handle_refresh (driver : MeshDriver σ) (d : Deployment) (c : Controller) (s : σ) :
    (c.refresh driver d s).1.replicas.map ReplicaState.handle =
      c.replicas.map ReplicaState.handle :=
  foldl_record_eq (f := fun c ↦ c.replicas.map ReplicaState.handle) map_handle_record _ c

theorem jobIds_eq_of_map_handle {l m : List ReplicaState}
    (h : l.map ReplicaState.handle = m.map ReplicaState.handle) : jobIds l = jobIds m := by
  have hfst := congrArg (List.map Prod.fst) h
  rwa [List.map_map, List.map_map] at hfst

theorem jobIds_refreshed (driver : MeshDriver σ) (d : Deployment) (c : Controller) (s : σ) :
    jobIds (c.refreshed driver d s) = jobIds c.replicas :=
  jobIds_eq_of_map_handle (map_handle_refresh driver d c s)

theorem Controller.jobIds_foldl_record (updates : List (String × Option Phase))
    (c : Controller) : jobIds (updates.foldl record c).replicas = jobIds c.replicas :=
  foldl_record_eq (f := fun c ↦ jobIds c.replicas)
    (fun c update ↦ jobIds_eq_of_map_handle (map_handle_record c update)) updates c

theorem observePhases_append (driver : MeshDriver σ) (probe : Option Probe)
    (grant : Option String) (l m : List ReplicaState) (s : σ) :
    (observePhases driver probe grant (l ++ m) s).1 =
      (observePhases driver probe grant l s).1 ++
        (observePhases driver probe grant m
          (observePhases driver probe grant l s).2).1 := by
  induction l generalizing s with
  | nil => rfl
  | cons r l ih =>
      rw [List.cons_append, observePhases, observePhases]
      simp only [ih, List.cons_append]

theorem map_fst_observePhases (driver : MeshDriver σ) (probe : Option Probe)
    (grant : Option String) (l : List ReplicaState) (s : σ) :
    (observePhases driver probe grant l s).1.map Prod.fst = jobIds l := by
  induction l generalizing s with
  | nil => rfl
  | cons r l ih =>
      rw [observePhases, jobIds_cons]
      simp only [List.map_cons, ih]

theorem phase_of_mem_setPhase {job : String} {p : Phase} {l : List ReplicaState}
    (hl : (jobIds l).Nodup) {q : ReplicaState} (hq : q ∈ setPhase job p l)
    (hjob : q.jobId = job) : q.phase = p := by
  induction l with
  | nil => exact absurd hq List.not_mem_nil
  | cons r l ih =>
      rw [jobIds_cons, List.nodup_cons] at hl
      rw [setPhase] at hq
      split_ifs at hq with hr
      · rcases List.mem_cons.mp hq with rfl | hq
        · rfl
        · exact absurd (mem_jobIds.mpr ⟨q, hq, hjob.trans hr.symm⟩) hl.1
      · rcases List.mem_cons.mp hq with rfl | hq
        · exact absurd hjob hr
        · exact ih hl.2 hq

theorem setPhase_append {job : String} {p : Phase} {done : List ReplicaState}
    (h : job ∉ jobIds done) (l : List ReplicaState) :
    setPhase job p (done ++ l) = done ++ setPhase job p l := by
  induction done with
  | nil => rfl
  | cons r done ih =>
      rw [jobIds_cons, List.mem_cons, not_or] at h
      rw [List.cons_append, setPhase, if_neg (Ne.symm h.1), ih h.2, List.cons_append]

/-- When every replica is answered for and no two share an id, each is set to its answer. -/
theorem foldl_record_answers (p : ReplicaState → Phase) {done l : List ReplicaState}
    {c : Controller} (hc : c.replicas = done ++ l) (hnodup : (jobIds (done ++ l)).Nodup) :
    ((l.map fun r ↦ (r.jobId, some (p r))).foldl Controller.record c).replicas =
      done ++ l.map fun r ↦ { r with phase := p r } := by
  induction l generalizing done c with
  | nil => exact hc
  | cons r l ih =>
      have hfresh : r.jobId ∉ jobIds done := fun hmem ↦ by
        rw [jobIds_append, jobIds_cons] at hnodup
        exact (List.nodup_append'.mp hnodup).2.2 hmem List.mem_cons_self
      have hrecord : (c.record (r.jobId, some (p r))).replicas =
          (done ++ [{ r with phase := p r }]) ++ l := by
        simp only [Controller.record, hc, setPhase_append hfresh, setPhase, if_pos,
          List.append_assoc, List.singleton_append]
      rw [List.map_cons, List.foldl_cons, ih hrecord (by simpa using hnodup)]
      simp

theorem eq_of_mem_setPhase {job : String} {p : Phase} {l : List ReplicaState}
    {q : ReplicaState} (hq : q ∈ setPhase job p l) :
    q ∈ l ∨ ∃ r ∈ l, r.jobId = job ∧ { r with phase := p } = q := by
  induction l with
  | nil => exact Or.inl hq
  | cons r l ih =>
      rw [setPhase] at hq
      split_ifs at hq with hjob
      · rcases List.mem_cons.mp hq with rfl | hq
        · exact Or.inr ⟨r, List.mem_cons_self, hjob, rfl⟩
        · exact Or.inl (List.mem_cons_of_mem _ hq)
      · rcases List.mem_cons.mp hq with rfl | hq
        · exact Or.inl List.mem_cons_self
        · refine (ih hq).imp (List.mem_cons_of_mem _) ?_
          rintro ⟨r', hr', h⟩
          exact ⟨r', List.mem_cons_of_mem _ hr', h⟩

/-- Where the phase of a replica comes from when a refresh has recorded its answers. -/
theorem Controller.phase_of_mem_foldl_record {updates : List (String × Option Phase)}
    {c : Controller} {q : ReplicaState} (hq : q ∈ (updates.foldl record c).replicas) :
    q.phase = .failed ∨ (q.jobId, some q.phase) ∈ updates ∨
      ∃ r ∈ c.replicas, r.handle = q.handle ∧ r.phase = q.phase := by
  have hset : ∀ {c : Controller} {job : String} {p : Phase} {r : ReplicaState},
      r ∈ setPhase job p c.replicas →
        (r.jobId = job ∧ r.phase = p) ∨
          ∃ r' ∈ c.replicas, r'.handle = r.handle ∧ r'.phase = r.phase := by
    intro c job p r hr
    rcases eq_of_mem_setPhase hr with hr | ⟨r', hr', hjob, rfl⟩
    · exact Or.inr ⟨r, hr, rfl, rfl⟩
    · exact Or.inl ⟨hjob, rfl⟩
  induction updates generalizing c with
  | nil => exact Or.inr (Or.inr ⟨q, hq, rfl, rfl⟩)
  | cons u updates ih =>
      rcases ih hq with hfailed | hmem | ⟨r, hr, hhandle, hphase⟩
      · exact Or.inl hfailed
      · exact Or.inr (Or.inl (List.mem_cons_of_mem _ hmem))
      · -- The replica as it was when the first answer had been recorded.
        have hjob : r.jobId = q.jobId := congrArg Prod.fst hhandle
        obtain ⟨job, _ | p⟩ := u
        · simp only [record] at hr
          split_ifs at hr
          · rcases hset hr with ⟨-, hp⟩ | ⟨r', hr', hh, hp⟩
            · exact Or.inl (hphase ▸ hp)
            · exact Or.inr (Or.inr ⟨r', hr', hh.trans hhandle, hp.trans hphase⟩)
          · exact Or.inr (Or.inr ⟨r, hr, hhandle, hphase⟩)
        · rcases hset hr with ⟨hj, hp⟩ | ⟨r', hr', hh, hp⟩
          · refine Or.inr (Or.inl ?_)
            rw [← hjob, ← hphase, hj, hp]
            exact List.mem_cons_self
          · exact Or.inr (Or.inr ⟨r', hr', hh.trans hhandle, hp.trans hphase⟩)

/-! ## Kills -/

/-- From `t` to `t'` exactly the tracked jobs `ks` were killed. -/
structure Killed (ks : List String) (t t' : TickState σ) : Prop where
  replicas : t'.replicas = without ReplicaState.jobId ks t.replicas
  killed : t'.report.killed = t.report.killed ++ ks
  placed : t'.report.placed = t.report.placed
  tracked : ks ⊆ jobIds t.replicas

namespace Killed

variable {ks js : List String} {t t' t'' : TickState σ}

theorem refl (t : TickState σ) : Killed [] t t :=
  ⟨(without_nil _).symm, (List.append_nil _).symm, rfl, List.nil_subset _⟩

theorem trans (h : Killed ks t t') (h' : Killed js t' t'') : Killed (ks ++ js) t t'' where
  replicas := by rw [h'.replicas, h.replicas, without_without]
  killed := by rw [h'.killed, h.killed, List.append_assoc]
  placed := by rw [h'.placed, h.placed]
  tracked := by
    refine List.append_subset.mpr ⟨h.tracked, ?_⟩
    intro job hjob
    obtain ⟨r, hr, rfl⟩ := mem_jobIds.mp (h'.tracked hjob)
    rw [h.replicas] at hr
    exact mem_jobIds.mpr ⟨r, (mem_without.mp hr).1, rfl⟩

/-- One kill that was done. -/
theorem one {r : ReplicaState} (hr : r ∈ t.replicas) (killFailures : ℕ) (mesh : σ) :
    Killed [r.jobId] t
      { replicas := t.replicas.filter fun q ↦ q.jobId ≠ r.jobId
        report := { t.report with killed := t.report.killed ++ [r.jobId], killFailures }
        mesh } where
  replicas := by simp [without]
  killed := rfl
  placed := rfl
  tracked := by simpa using mem_jobIds.mpr ⟨r, hr, rfl⟩

/-- One that was not. -/
theorem none (killFailures : ℕ) (mesh : σ) :
    Killed [] t { t with report := { t.report with killFailures }, mesh } :=
  ⟨(without_nil _).symm, (List.append_nil _).symm, rfl, List.nil_subset _⟩

end Killed

theorem find?_jobId_of_nodup {l : List ReplicaState} (hl : (jobIds l).Nodup) {r : ReplicaState}
    (hr : r ∈ l) : l.find? (fun r' ↦ r'.jobId = r.jobId) = some r := by
  cases hfind : l.find? fun r' ↦ r'.jobId = r.jobId with
  | none => exact absurd (List.find?_eq_none.mp hfind r hr) (by simp)
  | some r' =>
      obtain ⟨hr', hid⟩ := find?_jobId_eq_some hfind
      rw [List.inj_on_of_nodup_map hl hr' hr hid]

section Kill

variable {driver : MeshDriver σ} {grant : Option String} {t : TickState σ} {r : ReplicaState}
  (ht : (jobIds t.replicas).Nodup) (hr : r ∈ t.replicas)

include ht hr

/-- A kill that succeeds takes the replica off the list. -/
theorem tryKill_of_ok {u : Unit} {mesh : σ}
    (hkill : driver.kill r.nodeId r.jobId grant t.mesh = (.ok u, mesh)) :
    (tryKill driver grant t r.jobId).replicas =
        t.replicas.filter (fun r' ↦ r'.jobId ≠ r.jobId) ∧
      (tryKill driver grant t r.jobId).mesh = mesh ∧
      (tryKill driver grant t r.jobId).report.killFailures = t.report.killFailures := by
  refine ⟨?_, ?_, ?_⟩ <;> simp only [tryKill, find?_jobId_of_nodup ht hr, hkill]

/-- A kill that fails does not, and is counted. -/
theorem tryKill_of_error {e : String} {mesh : σ}
    (hkill : driver.kill r.nodeId r.jobId grant t.mesh = (.error e, mesh)) :
    (tryKill driver grant t r.jobId).replicas = t.replicas ∧
      (tryKill driver grant t r.jobId).mesh = mesh ∧
      (tryKill driver grant t r.jobId).report.killFailures = t.report.killFailures + 1 := by
  refine ⟨?_, ?_, ?_⟩ <;> simp only [tryKill, find?_jobId_of_nodup ht hr, hkill]

end Kill

theorem killsKeep_killed (driver : MeshDriver σ) (grant : Option String) (S : String → Prop)
    (t : TickState σ) :
    driver.KillsKeep grant S fun t' ↦ ∃ ks, (∀ k ∈ ks, S k) ∧ Killed ks t t' where
  killed := by
    rintro t' r u mesh killFailures ⟨ks, hks, hkilled⟩ hr hjob -
    refine ⟨ks ++ [r.jobId], ?_, hkilled.trans (Killed.one hr killFailures mesh)⟩
    exact List.forall_mem_append.mpr ⟨hks, List.forall_mem_singleton.mpr hjob⟩
  notKilled := by
    rintro t' r e mesh killFailures ⟨ks, hks, hkilled⟩ - - -
    exact ⟨ks ++ [], by rwa [List.append_nil], hkilled.trans (Killed.none killFailures mesh)⟩

theorem tryKill_killed (driver : MeshDriver σ) (grant : Option String) (t : TickState σ)
    (job : String) : ∃ ks, ks ⊆ [job] ∧ Killed ks t (tryKill driver grant t job) :=
  (killsKeep_killed driver grant (· ∈ [job]) t).tryKill List.mem_cons_self
    ⟨[], List.forall_mem_nil _, Killed.refl t⟩

/-- Step 3 kills part of the kill list. -/
theorem foldl_tryKill_killed (driver : MeshDriver σ) (grant : Option String)
    (toKill : List String) (t : TickState σ) :
    ∃ ks, ks ⊆ toKill ∧ Killed ks t (toKill.foldl (tryKill driver grant) t) :=
  (killsKeep_killed driver grant (· ∈ toKill) t).foldl_tryKill (fun _ hjob ↦ hjob)
    ⟨[], List.forall_mem_nil _, Killed.refl t⟩

/-- Step 3b kills alternates only, and no more than the excess it starts with. -/
theorem killAlternates_killed (driver : MeshDriver σ) (grant : Option String)
    (toKill onTargetLive : List String) (excess : ℤ) (t : TickState σ) :
    ∃ ks, Killed ks t (killAlternates driver grant toKill onTargetLive excess t) ∧
      ks ⊆ onTargetLive ∧ (∀ k ∈ ks, k ∉ toKill) ∧ (ks.length : ℤ) ≤ max excess 0 := by
  have hkept : ∃ n : ℤ, ∃ ks,
      Killed ks t (killAlternates driver grant toKill onTargetLive excess t) ∧
        ks ⊆ onTargetLive ∧ (∀ k ∈ ks, k ∉ toKill) ∧
          (ks.length : ℤ) + max n 0 ≤ max excess 0 := by
    refine killAlternates_rule (P := fun n t' ↦ ∃ ks, Killed ks t t' ∧ ks ⊆ onTargetLive ∧
      (∀ k ∈ ks, k ∉ toKill) ∧ (ks.length : ℤ) + max n 0 ≤ max excess 0) ?_ ?_
      ⟨[], Killed.refl t, List.nil_subset _, List.forall_mem_nil _, ?_⟩
    · rintro n t' r u mesh hn ⟨ks, hkilled, hsub, hnot, hlen⟩ hr hjob hnew -
      refine ⟨ks ++ [r.jobId], hkilled.trans (Killed.one hr _ mesh), ?_, ?_, ?_⟩
      · exact List.append_subset.mpr ⟨hsub, List.cons_subset.mpr ⟨hjob, List.nil_subset _⟩⟩
      · exact List.forall_mem_append.mpr ⟨hnot, List.forall_mem_singleton.mpr hnew⟩
      · rw [List.length_append, List.length_singleton]
        omega
    · rintro n t' r e mesh ⟨ks, hkilled, hsub, hnot, hlen⟩ - - - -
      refine ⟨ks ++ [], hkilled.trans (Killed.none _ mesh), ?_, ?_, ?_⟩ <;>
        rwa [List.append_nil]
    · simp
  obtain ⟨n, ks, hkilled, hsub, hnot, hlen⟩ := hkept
  exact ⟨ks, hkilled, hsub, hnot, by omega⟩

/-- What step 3b kills is live on target, was not in the kill list, and is no more than
what is left over the desired count. -/
theorem substitute_killed (driver : MeshDriver σ) (grant : Option String) (desired : ℕ)
    (target : String) (toKill : List String) (t : TickState σ) :
    ∃ ks, Killed ks t (substitute driver grant desired target toKill t) ∧
      ks ⊆ jobIds (t.replicas.filter (onTarget target)) ∧ (∀ k ∈ ks, k ∉ toKill) ∧
        ks.length ≤ newLive target t.replicas - desired := by
  unfold substitute
  split
  · obtain ⟨ks, hkilled, hsub, hnot, hlen⟩ := killAlternates_killed driver grant toKill
      (jobIds (t.replicas.filter (onTarget target)))
      (((jobIds (t.replicas.filter (onTarget target))).length : ℤ) - desired) t
    refine ⟨ks, hkilled, hsub, hnot, ?_⟩
    rw [jobIds, List.length_map, ← List.countP_eq_length_filter] at hlen
    rw [newLive]
    omega
  · exact ⟨[], Killed.refl t, List.nil_subset _, by simp, Nat.zero_le _⟩

/-! ## Placements -/

/-- From `t` to `t'` exactly `launched` was launched. -/
structure Placed (target : String) (launched : List ReplicaState) (t t' : TickState σ) :
    Prop where
  replicas : t'.replicas = t.replicas ++ launched
  placed : t'.report.placed = t.report.placed ++ jobIds launched
  killed : t'.report.killed = t.report.killed
  fresh : ∀ r ∈ launched, r.phase = .pending ∧ r.revision = target

theorem Placed.refl (target : String) (t : TickState σ) : Placed target [] t t :=
  ⟨(List.append_nil _).symm, (List.append_nil _).symm, rfl, by simp⟩

theorem Placed.trans {target : String} {l m : List ReplicaState} {t t' t'' : TickState σ}
    (h : Placed target l t t') (h' : Placed target m t' t'') : Placed target (l ++ m) t t'' where
  replicas := by rw [h'.replicas, h.replicas, List.append_assoc]
  placed := by rw [h'.placed, h.placed, jobIds_append, List.append_assoc]
  killed := by rw [h'.killed, h.killed]
  fresh r hr := (List.mem_append.mp hr).elim (h.fresh r) (h'.fresh r)

/-- The placement loop launches no more than it was asked for. -/
theorem placeLoop_placed (driver : MeshDriver σ) (grant : Option String) (d : Deployment)
    (target : String) (attempts : ℕ) (p : PlaceState σ) :
    ∃ placed, Placed target placed p.tick (placeLoop driver grant d target attempts p).tick ∧
      placed.length ≤ p.toPlace := by
  have hkept : ∃ placed,
      Placed target placed p.tick (placeLoop driver grant d target attempts p).tick ∧
        placed.length + (placeLoop driver grant d target attempts p).toPlace = p.toPlace := by
    refine placeLoop_rule (P := fun n t ↦ ∃ placed, Placed target placed p.tick t ∧
      placed.length + n = p.toPlace) ?_ ?_ ?_ attempts
      ⟨[], Placed.refl target _, Nat.zero_add _⟩
    · rintro n t nodeId job mesh ⟨placed, hplaced, hlen⟩ -
      refine ⟨placed ++ [⟨job, nodeId, target, .pending⟩],
        hplaced.trans ⟨rfl, rfl, rfl, by simp⟩, ?_⟩
      rw [List.length_append, List.length_singleton]
      omega
    · rintro n t nodeId e mesh ⟨placed, hplaced, hlen⟩ -
      exact ⟨placed, ⟨hplaced.replicas, hplaced.placed, hplaced.killed, hplaced.fresh⟩, hlen⟩
    · rintro n t placeFailures ⟨placed, hplaced, hlen⟩
      exact ⟨placed, ⟨hplaced.replicas, hplaced.placed, hplaced.killed, hplaced.fresh⟩, hlen⟩
  obtain ⟨placed, hplaced, hlen⟩ := hkept
  exact ⟨placed, hplaced, hlen ▸ Nat.le_add_right _ _⟩

theorem place_placed (driver : MeshDriver σ) (now maxStaleSecs : UInt64)
    (grant : Option String) (d : Deployment) (target : String) (gate : Gate) (toPlace : ℕ)
    (t : TickState σ) :
    ∃ placed,
      Placed target placed t (place driver now maxStaleSecs grant d target gate toPlace t) ∧
        placed.length ≤ toPlace := by
  unfold place
  split_ifs
  · obtain ⟨launched, hplaced, hlen⟩ := placeLoop_placed driver grant d target
      (maxAttempts toPlace (rank ((driver.atlas t.mesh).1.toOption.getD []) d now.toNat
        maxStaleSecs.toNat))
      { toPlace
        candidates := rank ((driver.atlas t.mesh).1.toOption.getD []) d now.toNat
          maxStaleSecs.toNat
        tick := { t with mesh := (driver.atlas t.mesh).2 } }
    refine ⟨launched, ?_, hlen⟩
    simp only
    split_ifs <;> exact ⟨hplaced.replicas, hplaced.placed, hplaced.killed, hplaced.fresh⟩
  · exact ⟨[], Placed.refl target t, Nat.zero_le _⟩

/-! ## The whole tick -/

theorem advertise_replicas (driver : MeshDriver σ) (d : Deployment) (gate : Gate)
    (t : TickState σ) : (advertise driver d gate t).replicas = t.replicas := by
  unfold advertise
  split
  · rfl
  · split_ifs
    · split <;> rfl
    · rfl

/-- Advertising changes the report only in what it says of it. -/
theorem advertise_report {α : Type*} {f : TickReport → α}
    (hf : ∀ report advertised, f { report with serviceAdvertised := advertised } = f report)
    (driver : MeshDriver σ) (d : Deployment) (gate : Gate) (t : TickState σ) :
    f (advertise driver d gate t).report = f t.report := by
  unfold advertise
  split
  · rfl
  · split_ifs
    · split
      · exact hf _ _
      · exact hf _ _
    · rfl

theorem advertise_eq (driver : MeshDriver σ) (d : Deployment) (gate : Gate) (t : TickState σ) :
    (advertise driver d gate t).replicas = t.replicas ∧
      (advertise driver d gate t).report.placed = t.report.placed ∧
      (advertise driver d gate t).report.killed = t.report.killed :=
  ⟨advertise_replicas driver d gate t, advertise_report (fun _ _ ↦ rfl) driver d gate t,
    advertise_report (fun _ _ ↦ rfl) driver d gate t⟩

namespace Controller

variable [Sha256] (driver : MeshDriver σ) (d : Deployment) (c : Controller) (s : σ)

@[simp] theorem planned_replicas :
    (c.planned driver d s).2.replicas = c.refreshed driver d s := rfl

/-- The planned kills that are carried out. -/
theorem afterKills_killed :
    ∃ ks, ks ⊆ (c.plan driver d s).toKill ∧
      Killed ks (c.planned driver d s).2 (c.afterKills driver d s) :=
  foldl_tryKill_killed driver c.grant _ _

/-- The substitutes that are killed. -/
theorem afterSubstitutes_killed :
    ∃ ks, Killed ks (c.afterKills driver d s) (c.afterSubstitutes driver d s) ∧
      ks ⊆ jobIds ((c.afterKills driver d s).replicas.filter (onTarget d.revision)) ∧
      (∀ k ∈ ks, k ∉ (c.plan driver d s).toKill) ∧
        ks.length ≤ newLive d.revision (c.afterKills driver d s).replicas -
          d.replicas.toNat :=
  substitute_killed driver c.grant d.replicas.toNat d.revision _ _

/-- The placements that are made. -/
theorem afterPlacements_placed (now : UInt64) :
    ∃ launched, Placed d.revision launched (c.afterSubstitutes driver d s)
        (c.afterPlacements driver d s now) ∧
      launched.length ≤ (c.plan driver d s).toPlace :=
  place_placed driver now c.maxStaleSecs c.grant d d.revision _ _ _

/-- Advertising changes neither what is tracked nor what is reported of it. -/
theorem tick_eq (now : UInt64) :
    (c.tick driver d s now).2.1.replicas = (c.afterPlacements driver d s now).replicas ∧
      (c.tick driver d s now).1.placed = (c.afterPlacements driver d s now).report.placed ∧
      (c.tick driver d s now).1.killed = (c.afterPlacements driver d s now).report.killed :=
  advertise_eq driver d _ _

end Controller

/-! ## What the kills leave alone -/

section Report

variable {α : Type*} {f : TickReport → α}
  (hf : ∀ report killed killFailures,
    f { report with killed := killed, killFailures := killFailures } = f report)
  (driver : MeshDriver σ) (grant : Option String)

include hf

theorem killsKeep_report (a : α) :
    driver.KillsKeep grant (fun _ ↦ True) fun t ↦ f t.report = a where
  killed _ ht _ _ _ := (hf _ _ _).trans ht
  notKilled _ ht _ _ _ := (hf _ _ _).trans ht

theorem foldl_tryKill_report (toKill : List String) (t : TickState σ) :
    f (toKill.foldl (tryKill driver grant) t).report = f t.report :=
  (killsKeep_report hf driver grant _).foldl_tryKill (fun _ _ ↦ trivial) rfl

theorem substitute_report (desired : ℕ) (target : String) (toKill : List String)
    (t : TickState σ) :
    f (substitute driver grant desired target toKill t).report = f t.report :=
  (killsKeep_report hf driver grant _).substitute (fun _ ↦ trivial) _ _ _ rfl

/-- The kills change the report only in what they say of the kills. -/
theorem Controller.afterSubstitutes_report [Sha256] (d : Deployment) (c : Controller) (s : σ) :
    f (c.afterSubstitutes driver d s).report = f (c.planned driver d s).2.report :=
  (substitute_report hf driver c.grant _ _ _ _).trans
    (foldl_tryKill_report hf driver c.grant _ _)

end Report

/-! ## The verdict of a report -/

/-- What a report says of the plan: settled before the kills, and never changed. -/
def TickReport.verdict (report : TickReport) : Bool × List String :=
  (report.done, report.waitingOn)

section Verdict

variable (driver : MeshDriver σ) (grant : Option String)

theorem deploysKeep_verdict (d : Deployment) (target : String) (verdict : Bool × List String) :
    driver.DeploysKeep grant d target fun t ↦ t.report.verdict = verdict where
  atlas ht := ht
  deployed ht _ := ht
  notDeployed ht _ := ht
  notPlaced _ ht := ht

theorem place_verdict (now maxStaleSecs : UInt64) (d : Deployment) (target : String)
    (gate : Gate) (toPlace : ℕ) (t : TickState σ) :
    (place driver now maxStaleSecs grant d target gate toPlace t).report.verdict =
      t.report.verdict :=
  place_rule (fun _ ↦ deploysKeep_verdict driver grant d target _) now maxStaleSecs toPlace rfl

/-- A tick reports what its plan and its gate say. -/
theorem Controller.tick_verdict [Sha256] (d : Deployment) (c : Controller) (s : σ)
    (now : UInt64) :
    (c.tick driver d s now).1.verdict =
      ((c.plan driver d s).done && (c.planned driver d s).1.isReady,
        (c.planned driver d s).1.unmet) := by
  calc (c.tick driver d s now).1.verdict
      = (c.afterPlacements driver d s now).report.verdict :=
        advertise_report (fun _ _ ↦ rfl) _ _ _ _
    _ = (c.afterSubstitutes driver d s).report.verdict := place_verdict _ _ _ _ _ _ _ _ _
    _ = (c.planned driver d s).2.report.verdict :=
        c.afterSubstitutes_report (fun _ _ _ ↦ rfl) driver d s
    _ = _ := rfl

end Verdict

end CeGke
