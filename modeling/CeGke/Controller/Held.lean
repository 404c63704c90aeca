import CeGke.Controller.Calls
import CeGke.Controller.Done

/-!
# When ticks leave a deployment still

A tick is still when it launches nothing and stops nothing that it finds live.  It is if
what it finds is at strength (`still_of_atStrength`), and so is every tick of a run in
which the same replicas are found live every time, all of them on the target revision
(`still_of_finds`).  A replica that is found pending on another revision, or one too many,
is asked to stop at once (`not_still_of_pending`).
-/

namespace CeGke

open Lib

variable {σ : Type}

/-- The call launches a replica, or stops one of `l` that is live. -/
def MeshCall.Disturbs (l : List ReplicaState) : MeshCall → Prop
  | .deploy _ _ => True
  | .kill _ job _ => ∃ r ∈ l, r.jobId = job ∧ r.phase.isAlive
  | .advertise _ => False

/-- The jobs that are live. -/
def liveJobs (l : List ReplicaState) : List String := jobIds (l.filter (·.phase.isAlive))

theorem mem_liveJobs {job : String} {l : List ReplicaState} :
    job ∈ liveJobs l ↔ ∃ r ∈ l, r.phase.isAlive ∧ r.jobId = job := by
  simp only [liveJobs, mem_jobIds, List.mem_filter, and_assoc]

/-- The handles of those of the jobs `ids` that are tracked. -/
def keep (ids : List String) (l : List ReplicaState) : List (String × String × String) :=
  (l.map ReplicaState.handle).filter (·.1 ∈ ids)

theorem keep_eq_map (ids : List String) (l : List ReplicaState) :
    keep ids l = (l.filter (·.jobId ∈ ids)).map ReplicaState.handle := by
  rw [keep, List.filter_map]
  rfl

/-- Excess is not substituted for where there is none. -/
theorem killAlternates_of_nonpos (driver : MeshDriver σ) (grant : Option String)
    (toKill onTargetLive : List String) {excess : ℤ} (h : excess ≤ 0) (t : TickState σ) :
    killAlternates driver grant toKill onTargetLive excess t = t := by
  cases onTargetLive with
  | nil => rfl
  | cons job onTargetLive => rw [killAlternates, if_pos h]

/-- A mesh on which the jobs `ids` are pending for ever and all others have failed, and which
does nothing that it is asked to. -/
def pendingDriver (ids : List String) : MeshDriver Unit where
  atlas s := (.ok [], s)
  deploy _ _ _ s := (.error "host unreachable", s)
  kill _ _ _ s := (.error "host unreachable", s)
  phase _ job _ _ s := (.ok (if job ∈ ids then .pending else .failed), s)
  advertiseService _ s := (.ok (), s)
  serviceReady _ s := (.ok .absent, s)

theorem observePhases_pending (ids : List String) (probe : Option Probe) (grant : Option String)
    (l : List ReplicaState) (s : Unit) :
    (observePhases (pendingDriver ids) probe grant l s).1 =
      l.map fun r ↦ (r.jobId, some (if r.jobId ∈ ids then .pending else .failed)) := by
  induction l with
  | nil => rfl
  | cons r l ih =>
      rw [observePhases]
      simp only [List.map_cons, ← ih]
      rfl

section Plan

variable {d : Deployment} {l : List ReplicaState} {target : String}

/-- A pending replica on another revision is a victim, whatever the strategy. -/
theorem mem_victims_of_offTarget {r : ReplicaState} (hr : r ∈ l) (hoff : offTarget target r)
    (hpending : r.phase = .pending) : r ∈ victims d l target := by
  have hunready : unreadyOld target r := by
    rw [unreadyOld, hoff, hpending]
    rfl
  have hold : oldLive target l > 0 := List.countP_pos_iff.mpr ⟨r, hr, hoff⟩
  unfold victims
  refine List.mem_append_right _ ?_
  cases d.strategy with
  | recreate =>
      rw [if_pos hold]
      exact List.mem_filter.mpr ⟨hr, hoff⟩
  | rollingUpdate u s =>
      exact List.mem_append_left _ (List.mem_append_right _ (List.mem_filter.mpr ⟨hr, hunready⟩))

/-- Of too many replicas on target one is a victim. -/
theorem exists_victim_of_excess (hold : oldLive target l = 0)
    (hexcess : d.replicas.toNat < newLive target l) :
    ∃ r ∈ victims d l target, onTarget target r := by
  have hne : excessNew target l (newLive target l - d.replicas.toNat) ≠ [] := by
    rw [excessNew, Ne, List.take_eq_nil_iff, not_or]
    refine ⟨by omega, fun h ↦ ?_⟩
    have hlen := congrArg List.length h
    rw [List.length_insertionSort, ← List.countP_eq_length_filter] at hlen
    change newLive target l = 0 at hlen
    omega
  obtain ⟨r, hr⟩ := List.exists_mem_of_ne_nil _ hne
  refine ⟨r, List.mem_append_right _ ?_, (mem_of_mem_excessNew hr).2⟩
  cases d.strategy with
  | recreate =>
      rw [if_neg (by omega)]
      exact hr
  | rollingUpdate u s => exact List.mem_append_left _ (List.mem_append_left _ hr)

end Plan

namespace Controller

theorem keep_refreshed (driver : MeshDriver σ) (d : Deployment) (c : Controller) (s : σ)
    (ids : List String) : keep ids (c.refreshed driver d s) = keep ids c.replicas := by
  rw [keep, keep, refreshed, map_handle_refresh]

theorem refreshed_pending (ids : List String) (d : Deployment) {c : Controller}
    (hc : (jobIds c.replicas).Nodup) (s : Unit) :
    c.refreshed (pendingDriver ids) d s =
      c.replicas.map fun r ↦ { r with phase := if r.jobId ∈ ids then .pending else .failed } := by
  have hfold := foldl_record_answers (fun r ↦ if r.jobId ∈ ids then .pending else .failed)
    (List.nil_append c.replicas).symm hc
  simp only [refreshed, refresh, observePhases_pending, retainFailures]
  rw [hfold, List.nil_append]

variable [Sha256]

/-- A tick that launches nothing and stops nothing it finds live. -/
def Still (driver : MeshDriver σ) (d : Deployment) (c : Controller) (s : σ) (now : UInt64) :
    Prop :=
  ∀ call ∈ c.calls driver d s now, ¬ call.Disturbs (c.refreshed driver d s)

section Tick

variable {driver : MeshDriver σ} {d : Deployment} {c : Controller} {s : σ}

/-- At strength the calls of a tick are reaps and the advertisement. -/
theorem calls_of_atStrength (h : AtStrength d (c.refreshed driver d s) d.revision) (now : UInt64)
    {call : MeshCall} (hcall : call ∈ c.calls driver d s now) :
    call.KillsOneOf c.grant (c.plan driver d s).toKill ∨ call.isAdvertise := by
  have hplan := driver.traced_refines.plan d c (s, [])
  have hplace : (c.plan driver.traced d (s, [])).toPlace = 0 := by
    rw [← hplan]
    exact h.toPlace_eq
  have hkills := foldl_tryKill_issued driver c.grant (c.plan driver.traced d (s, [])).toKill
    (c.planned driver.traced d (s, [])).2
  have hsubstitutes : c.afterSubstitutes driver.traced d (s, []) =
      c.afterKills driver.traced d (s, []) := by
    obtain ⟨ks, _, hkilled⟩ := c.afterKills_killed driver.traced d (s, [])
    have hnew : newLive d.revision (c.afterKills driver.traced d (s, [])).replicas ≤
        d.replicas.toNat := by
      rw [← h.newLive, hkilled.replicas, planned_replicas, ← driver.traced_refines.refreshed]
      exact (without_sublist _ _).countP_le
    rw [afterSubstitutes, substitute]
    split_ifs
    · refine killAlternates_of_nonpos _ _ _ _ ?_ _
      rw [jobIds, List.length_map, ← List.countP_eq_length_filter]
      rw [newLive] at hnew
      omega
    · rfl
  have hplacements : c.afterPlacements driver.traced d (s, []) now =
      c.afterKills driver.traced d (s, []) := by
    rw [afterPlacements, hsubstitutes, hplace]
    exact if_neg fun h ↦ absurd h.1 (Nat.lt_irrefl 0)
  obtain ⟨kills, hmesh, hkind⟩ := hkills
  obtain ⟨advertises, hadvertises, hkind'⟩ := advertise_issued driver d
    (c.planned driver.traced d (s, [])).1 (c.afterKills driver.traced d (s, []))
  rw [planned_traced, List.nil_append] at hmesh
  rw [calls, tick, hplacements] at hcall
  simp only at hcall
  rw [hadvertises, afterKills, hmesh] at hcall
  rw [hplan]
  exact (List.mem_append.mp hcall).imp (hkind call) (hkind' call)

/-- At strength a tick is still, if nothing terminal shares its id with a live replica. -/
theorem still_of_atStrength (h : AtStrength d (c.refreshed driver d s) d.revision)
    (hids : ∀ r ∈ c.refreshed driver d s, ∀ q ∈ c.refreshed driver d s, r.jobId = q.jobId →
      r.phase.isTerminal → q.phase.isTerminal) (now : UInt64) : c.Still driver d s now := by
  intro call hcall hdisturbs
  rcases calls_of_atStrength h now hcall with ⟨nodeId, job, hjob, rfl⟩ | hadvertise
  · rw [toKill_of_atStrength h] at hjob
    obtain ⟨r, hr, rfl⟩ := mem_jobIds.mp hjob
    obtain ⟨hr, hterminal⟩ := List.mem_filter.mp hr
    obtain ⟨q, hq, hid, halive⟩ := hdisturbs
    exact Phase.isTerminal_iff.mp (hids r hr q hq hid.symm hterminal) halive
  · cases call with
    | deploy nodeId grant => exact absurd hadvertise Bool.false_ne_true
    | kill nodeId job grant => exact absurd hadvertise Bool.false_ne_true
    | advertise service => exact hdisturbs

/-- A tick that names a live replica is not still. -/
theorem not_still_of_mem_victims {r : ReplicaState}
    (hr : r ∈ victims d (c.refreshed driver d s) d.revision) (halive : r.phase.isAlive)
    (now : UInt64) : ¬ c.Still driver d s now := by
  intro hstill
  have hmem := victims_subset d (c.refreshed driver d s) d.revision hr
  have hplan := driver.traced_refines.plan d c (s, [])
  have hrefreshed := driver.traced_refines.refreshed d c (s, [])
  have hjob : r.jobId ∈ (c.plan driver.traced d (s, [])).toKill := by
    rw [← hplan]
    change r.jobId ∈ (planStep d _ _).toKill
    rw [planStep_toKill]
    exact mem_jobIds.mpr ⟨r, hr, rfl⟩
  have htracked : r.jobId ∈ jobIds (c.planned driver.traced d (s, [])).2.replicas := by
    rw [planned_replicas, ← hrefreshed]
    exact mem_jobIds.mpr ⟨r, hmem, rfl⟩
  obtain ⟨nodeId, hcall⟩ := mem_foldl_tryKill_calls driver c.grant hjob htracked
  obtain ⟨kills, deploys, advertises, hcalls, hkills, _⟩ := c.calls_eq driver d s now
  have hsubstitutes := substitute_issued driver c.grant d.replicas.toNat d.revision
    (c.plan driver.traced d (s, [])).toKill (c.afterKills driver.traced d (s, []))
  refine hstill (.kill nodeId r.jobId c.grant) ?_ ⟨r, hmem, rfl, halive⟩
  rw [hcalls, ← hkills]
  exact List.mem_append_left _ (List.mem_append_left _ (hsubstitutes.subset hcall))

/-- So if all that is found live is pending, a tick is still only at strength. -/
theorem not_still_of_pending
    (hpending : ∀ r ∈ c.refreshed driver d s, r.phase.isAlive → r.phase = .pending)
    (hnot : (∃ r ∈ c.refreshed driver d s, r.phase.isAlive ∧ r.revision ≠ d.revision) ∨
      d.replicas.toNat < liveCount (c.refreshed driver d s)) (now : UInt64) :
    ¬ c.Still driver d s now := by
  by_cases hold : oldLive d.revision (c.refreshed driver d s) = 0
  · have hexcess : d.replicas.toNat < liveCount (c.refreshed driver d s) := by
      refine hnot.resolve_left ?_
      rintro ⟨r, hr, halive, hrev⟩
      exact List.countP_eq_zero.mp hold r hr (offTarget_iff.mpr ⟨halive, hrev⟩)
    rw [liveCount_eq_add d.revision, hold, Nat.add_zero] at hexcess
    obtain ⟨r, hr, hon⟩ := exists_victim_of_excess hold hexcess
    exact not_still_of_mem_victims hr (onTarget_iff.mp hon).1 now
  · obtain ⟨r, hr, hoff⟩ := List.countP_pos_iff.mp (Nat.pos_of_ne_zero hold)
    have halive := (offTarget_iff.mp hoff).1
    exact not_still_of_mem_victims
      (mem_victims_of_offTarget hr hoff (hpending r hr halive)) halive now

end Tick

/-! ## Runs -/

section Run

variable {driver : MeshDriver σ} {d : Deployment} {c : Controller} {s : σ} {ids : List String}
  {initial : List ReplicaState}

/-- If just the jobs `ids` are found live, which are tracked as they were at first, then the
deployment is at strength. -/
theorem atStrength_of_finds (hkeep : keep ids c.replicas = keep ids initial)
    (hrev : ∀ r ∈ initial, r.jobId ∈ ids → r.revision = d.revision)
    (hcount : (keep ids initial).length = d.replicas.toNat)
    (hfinds : ∀ r ∈ c.refreshed driver d s, r.phase.isAlive ↔ r.jobId ∈ ids) :
    AtStrength d (c.refreshed driver d s) d.revision := by
  rw [← keep_refreshed driver d c s ids] at hkeep
  have hrevision : ∀ r ∈ c.refreshed driver d s, r.phase.isAlive → r.revision = d.revision := by
    intro r hr halive
    have hmem : r.handle ∈ keep ids initial := by
      rw [← hkeep]
      exact List.mem_filter.mpr ⟨List.mem_map_of_mem hr, decide_eq_true ((hfinds r hr).mp halive)⟩
    obtain ⟨hmem, hid⟩ := List.mem_filter.mp hmem
    obtain ⟨q, hq, hhandle⟩ := List.mem_map.mp hmem
    simp only [ReplicaState.handle, Prod.mk.injEq] at hhandle
    have hid' : q.jobId ∈ ids := hhandle.1 ▸ of_decide_eq_true hid
    exact hhandle.2.2 ▸ hrev q hq hid'
  constructor
  · apply List.countP_eq_zero.mpr
    intro r hr hoff
    obtain ⟨halive, hne⟩ := offTarget_iff.mp hoff
    exact hne (hrevision r hr halive)
  · rw [← hcount, ← hkeep, keep_eq_map, List.length_map, ← List.countP_eq_length_filter, newLive]
    apply List.countP_congr
    intro r hr
    rw [onTarget_iff, decide_eq_true_eq, ← hfinds r hr]
    exact ⟨fun h ↦ h.1, fun h ↦ ⟨h, hrevision r hr h⟩⟩

/-- At strength a tick keeps what it finds live. -/
theorem keep_tick (h : AtStrength d (c.refreshed driver d s) d.revision)
    (hfinds : ∀ r ∈ c.refreshed driver d s, r.phase.isAlive ↔ r.jobId ∈ ids) (now : UInt64) :
    keep ids (c.tick driver d s now).2.1.replicas = keep ids c.replicas := by
  obtain ⟨ks, hks, hkilled⟩ := c.afterKills_killed driver d s
  rw [replicas_of_atStrength h, hkilled.replicas, planned_replicas, ← keep_refreshed driver d c s,
    keep_eq_map, keep_eq_map, without, List.filter_filter]
  congr 1
  apply List.filter_congr
  intro r _
  rw [Bool.and_eq_left_iff_imp, decide_eq_true_eq, decide_eq_true_eq]
  intro hid hmem
  have hreaped := hks hmem
  rw [toKill_of_atStrength h] at hreaped
  obtain ⟨q, hq, hqid⟩ := mem_jobIds.mp hreaped
  obtain ⟨hq, hterminal⟩ := List.mem_filter.mp hq
  exact Phase.isTerminal_iff.mp hterminal ((hfinds q hq).mpr (hqid ▸ hid))

/-- At strength a tick tracks no new jobs. -/
theorem jobIds_tick_subset (h : AtStrength d (c.refreshed driver d s) d.revision) (now : UInt64) :
    jobIds (c.tick driver d s now).2.1.replicas ⊆ jobIds c.replicas := by
  obtain ⟨ks, _, hkilled⟩ := c.afterKills_killed driver d s
  rw [replicas_of_atStrength h, hkilled.replicas, planned_replicas, ← jobIds_refreshed driver d c s]
  exact ((without_sublist _ _).map _).subset

/-- **A run that finds the same replicas live every time is still**, if they are as many as
desired and all on the target revision. -/
theorem still_of_finds (c : ℕ → Controller) (s : ℕ → σ) (clock : ℕ → UInt64)
    (hstep : ∀ n, (c (n + 1)).replicas = ((c n).tick driver d (s n) (clock n)).2.1.replicas)
    (hrev : ∀ r ∈ (c 0).replicas, r.jobId ∈ ids → r.revision = d.revision)
    (hcount : (keep ids (c 0).replicas).length = d.replicas.toNat) {n : ℕ}
    (hfinds : ∀ i ≤ n, jobIds (c i).replicas ⊆ jobIds (c 0).replicas →
      ∀ r ∈ (c i).refreshed driver d (s i), r.phase.isAlive ↔ r.jobId ∈ ids) :
    (c n).Still driver d (s n) (clock n) := by
  have hinv : ∀ i ≤ n, keep ids (c i).replicas = keep ids (c 0).replicas ∧
      jobIds (c i).replicas ⊆ jobIds (c 0).replicas := by
    intro i
    induction i with
    | zero => exact fun _ ↦ ⟨rfl, List.Subset.refl _⟩
    | succ i ih =>
        intro hi
        obtain ⟨hkeep, hsub⟩ := ih (Nat.le_of_succ_le hi)
        have hfinds' := hfinds i (Nat.le_of_succ_le hi) hsub
        have hstrength := atStrength_of_finds hkeep hrev hcount hfinds'
        rw [hstep]
        exact ⟨(keep_tick hstrength hfinds' _).trans hkeep,
          List.Subset.trans (jobIds_tick_subset hstrength _) hsub⟩
  obtain ⟨hkeep, hsub⟩ := hinv n le_rfl
  have hfinds' := hfinds n le_rfl hsub
  refine still_of_atStrength (atStrength_of_finds hkeep hrev hcount hfinds') ?_ (clock n)
  intro r hr q hq hid hterminal
  rw [Phase.isTerminal_iff] at hterminal ⊢
  intro halive
  exact hterminal ((hfinds' r hr).mpr (hid ▸ (hfinds' q hq).mp halive))

end Run

/-! ## Runs that are not still -/

/-- On a mesh where nothing comes up a tick is still only if the jobs `ids` are at most as many
as desired and all on the target revision. -/
theorem not_still_pending {ids : List String} {d : Deployment} {c : Controller}
    (hc : (jobIds c.replicas).Nodup)
    (hnot : (∃ r ∈ c.replicas, r.jobId ∈ ids ∧ r.revision ≠ d.revision) ∨
      d.replicas.toNat < (keep ids c.replicas).length) (now : UInt64) :
    ¬ c.Still (pendingDriver ids) d () now := by
  apply not_still_of_pending
  · intro r hr halive
    rw [refreshed_pending ids d hc] at hr
    obtain ⟨q, _, rfl⟩ := List.mem_map.mp hr
    by_cases hid : q.jobId ∈ ids
    · exact if_pos hid
    · rw [if_neg hid] at halive
      exact absurd halive Bool.false_ne_true
  · rw [refreshed_pending ids d hc]
    refine hnot.imp ?_ fun hlt ↦ hlt.trans_eq ?_
    · rintro ⟨r, hr, hid, hrev⟩
      exact ⟨_, List.mem_map_of_mem hr, by rw [if_pos hid]; rfl, hrev⟩
    · rw [keep_eq_map, List.length_map, ← List.countP_eq_length_filter, liveCount,
        List.countP_map]
      apply List.countP_congr
      intro r _
      by_cases hid : r.jobId ∈ ids <;> simp [hid]

end Controller

end CeGke
