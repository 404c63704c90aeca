import CeGke.Rollout.Tally

/-!
# What a plan kills

The kill list of `plan_step` names every terminal replica, replicas off target for the roll,
and of the live replicas on target only those in excess of what is desired, the first ones in
kill order (`planStep_kills`).
-/

namespace CeGke

open Lib

variable {d : Deployment} {l : List ReplicaState} {target : String} {r q : ReplicaState}

/-- How many live replicas on target a plan kills: all that are in excess, but none while
a recreate drains. -/
def excess (d : Deployment) (l : List ReplicaState) (target : String) : ℕ :=
  if d.strategy = .recreate ∧ 0 < oldLive target l then 0
  else newLive target l - d.replicas.toNat

theorem excess_le : excess d l target ≤ newLive target l := by
  unfold excess
  split_ifs
  · exact Nat.zero_le _
  · exact Nat.sub_le _ _

/-! ## Which replicas are named -/

/-- With distinct job ids a replica is named when it is a victim. -/
theorem jobId_mem_toKill (hl : (jobIds l).Nodup) (hr : r ∈ l) :
    r.jobId ∈ (planStep d l target).toKill ↔ r ∈ victims d l target := by
  rw [planStep_toKill, mem_jobIds]
  constructor
  · rintro ⟨q, hq, hqr⟩
    exact List.inj_on_of_nodup_map hl (victims_subset d l target hq) hr hqr ▸ hq
  · exact fun h ↦ ⟨r, h, rfl⟩

/-- The victims on target are the trim: the other loops look at other kinds. -/
theorem mem_victims_iff (hr : onTarget target r = true) :
    r ∈ victims d l target ↔ r ∈ excessNew target l (excess d l target) := by
  rw [onTarget_iff] at hr
  have hterminal : r.phase.isTerminal = false := by
    rw [← Bool.not_eq_true, Phase.isTerminal_iff, not_not]
    exact hr.1
  have hoff : offTarget target r = false := by
    rw [← Bool.not_eq_true, offTarget_iff]
    exact fun h ↦ h.2 hr.2
  unfold victims excess
  cases hs : d.strategy with
  | recreate =>
      by_cases hold : 0 < oldLive target l
      · simp [hterminal, hoff, hold, excessNew]
      · simp [hterminal, hold]
  | rollingUpdate u s =>
      have htake : ∀ n, r ∉ (l.filter (readyOld target)).take n := by
        intro n h
        have hready := (List.mem_filter.mp (List.mem_of_mem_take h)).2
        simp [readyOld, hoff] at hready
      simp [hterminal, hoff, unreadyOld, htake]

/-- A live replica on target is named when it is one of the first in kill order. -/
theorem jobId_mem_toKill_iff (hl : (jobIds l).Nodup) (hr : r ∈ l)
    (hon : onTarget target r = true) :
    r.jobId ∈ (planStep d l target).toKill ↔ r ∈ excessNew target l (excess d l target) :=
  (jobId_mem_toKill hl hr).trans (mem_victims_iff hon)

/-- What the trim takes comes before what it leaves. -/
theorem killBefore_of_mem_excessNew {n : ℕ} (hr : r ∈ excessNew target l n) (hq : q ∈ l)
    (hon : onTarget target q = true) (hq' : q ∉ excessNew target l n) : KillBefore r q := by
  refine rel_of_mem_take (List.pairwise_insertionSort KillBefore _) hr ?_ hq'
  exact (List.mem_insertionSort KillBefore).mpr (List.mem_filter.mpr ⟨hq, hon⟩)

/-- How many live replicas on target are named. -/
theorem countP_named (hl : (jobIds l).Nodup) :
    l.countP (fun r ↦ onTarget target r && (planStep d l target).toKill.contains r.jobId) =
      excess d l target := by
  rw [List.countP_eq_length_filter, ← length_excessNew excess_le]
  refine List.Perm.length_eq ((List.perm_ext_iff_of_nodup (hl.of_map.filter _) ?_).mpr ?_)
  · obtain ⟨m, hperm, hsub⟩ := excessNew_subperm l (excess d l target)
    exact hperm.nodup_iff.mp ((hl.of_map.filter _).sublist hsub)
  · intro r
    rw [List.mem_filter, Bool.and_eq_true, List.contains_iff_mem]
    constructor
    · rintro ⟨hr, hon, hnamed⟩
      exact (jobId_mem_toKill_iff hl hr hon).mp hnamed
    · intro h
      obtain ⟨hr, hon⟩ := mem_of_mem_excessNew h
      exact ⟨hr, hon, (jobId_mem_toKill_iff hl hr hon).mpr h⟩

/-! ## What is placed next to it -/

theorem planStep_toPlace_le : (planStep d l target).toPlace ≤
    d.replicas.toNat - newLive target l := by
  cases hs : d.strategy with
  | recreate =>
      rw [planStep_toPlace_recreate hs]
      split_ifs
      · exact Nat.zero_le _
      · exact le_rfl
  | rollingUpdate u s =>
      rw [planStep_toPlace_rolling hs]
      exact min_le_left _ _

/-- A plan that places has no excess. -/
theorem excess_eq_zero_of_toPlace (h : 0 < (planStep d l target).toPlace) :
    excess d l target = 0 := by
  have hless := h.trans_le planStep_toPlace_le
  unfold excess
  split_ifs
  · rfl
  · exact Nat.sub_eq_zero_of_le (Nat.lt_of_sub_pos hless).le

/-! ## The kill list -/

/-- **What `plan_step` kills**: tracked replicas, each once, and all the terminal ones; of
the live replicas on target exactly the excess, the first ones in kill order, so that no
running one goes while a pending one stays; and none at all when it places, which it never
does beyond what is missing. -/
theorem planStep_kills (d : Deployment) (l : List ReplicaState) (target : String)
    (hl : (jobIds l).Nodup) :
    (planStep d l target).toKill.Nodup ∧
      (planStep d l target).toKill ⊆ jobIds l ∧
        (∀ r ∈ l, r.phase.isTerminal = true → r.jobId ∈ (planStep d l target).toKill) ∧
          l.countP (fun r ↦
            onTarget target r && (planStep d l target).toKill.contains r.jobId) =
            (if d.strategy = .recreate ∧ 0 < oldLive target l then 0
              else newLive target l - d.replicas.toNat) ∧
            (∀ r ∈ l, ∀ q ∈ l, onTarget target r = true → onTarget target q = true →
              r.jobId ∈ (planStep d l target).toKill →
                q.jobId ∉ (planStep d l target).toKill →
                  KillBefore r q ∧ ¬ (r.phase = .running ∧ q.phase = .pending)) ∧
              (0 < (planStep d l target).toPlace →
                ∀ r ∈ l, onTarget target r = true → r.jobId ∉ (planStep d l target).toKill) ∧
                (planStep d l target).toPlace ≤ d.replicas.toNat - newLive target l := by
  refine ⟨?_, ?_, ?_, countP_named hl, ?_, ?_, planStep_toPlace_le⟩
  · rw [planStep_toKill]
    exact victims_nodup hl
  · rw [planStep_toKill]
    exact List.map_subset _ (victims_subset d l target)
  · intro r hr hterminal
    rw [jobId_mem_toKill hl hr]
    exact List.mem_append_left _ (List.mem_filter.mpr ⟨hr, hterminal⟩)
  · intro r hr q hq hron hqon hrkill hqkill
    rw [jobId_mem_toKill_iff hl hr hron] at hrkill
    rw [jobId_mem_toKill_iff hl hq hqon] at hqkill
    have hbefore := killBefore_of_mem_excessNew hrkill hq hqon hqkill
    refine ⟨hbefore, ?_⟩
    rintro ⟨hrunning, hpending⟩
    have hphase := hbefore.pending hpending
    rw [hrunning] at hphase
    exact Phase.noConfusion hphase
  · intro hplace r hr hon hkill
    rw [jobId_mem_toKill_iff hl hr hon, excess_eq_zero_of_toPlace hplace] at hkill
    exact List.not_mem_nil hkill

/-- Three replicas on target where one is wanted, beside a failed one: the pending one and
the failed one go, and one of the running ones. -/
theorem planStep_kills_trim :
    let l : List ReplicaState :=
      [⟨"a", "n", "v2", .running⟩, ⟨"b", "n", "v2", .pending⟩, ⟨"c", "n", "v1", .failed⟩,
        ⟨"d", "n", "v2", .running⟩]
    (jobIds l).Nodup ∧
      l.countP (fun r ↦ onTarget "v2" r &&
        (planStep { replicas := 1 } l "v2").toKill.contains r.jobId) = 2 ∧
        "c" ∈ (planStep { replicas := 1 } l "v2").toKill := by
  intro l
  have hl : (jobIds l).Nodup := by decide
  obtain ⟨_, _, hterminal, hcount, _⟩ := planStep_kills { replicas := 1 } l "v2" hl
  exact ⟨hl, hcount, hterminal ⟨"c", "n", "v1", .failed⟩ (by decide) rfl⟩

end CeGke
