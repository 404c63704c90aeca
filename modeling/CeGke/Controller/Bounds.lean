import CeGke.Controller.Stages

/-!
# The bounds of a tick

A plan is made from a census taken before anything is killed.  Kills may fail,
alternates may be killed in their stead, and deploys may be rejected; whatever the
driver answers, a tick stays under the surge ceiling and does not take the target
revision over or under what is desired (`tick_bounds`).
-/

namespace CeGke

open Lib

/-- `max_surge` of a rolling update; a recreate has none. -/
def Strategy.surge : Strategy → ℕ
  | rollingUpdate _ maxSurge => maxSurge.toNat
  | recreate => 0

section Plan

variable {d : Deployment} {l : List ReplicaState} {target : String}

/-- A plan never places over the surge ceiling. -/
theorem liveCount_add_toPlace_le (d : Deployment) (l : List ReplicaState) (target : String) :
    liveCount l + (planStep d l target).toPlace ≤
      max (liveCount l) (d.replicas.toNat + d.strategy.surge) := by
  have hlive := liveCount_eq_add target l
  cases hs : d.strategy with
  | recreate =>
      rw [planStep_toPlace_recreate hs]
      split_ifs <;> simp only [Strategy.surge] <;> omega
  | rollingUpdate u s =>
      rw [planStep_toPlace_rolling hs]
      have hceil : saturatingAdd d.replicas.toNat s.toNat ≤ d.replicas.toNat + s.toNat :=
        min_le_left _ _
      simp only [Strategy.surge]
      omega

/-- A plan never places over what is desired on target. -/
theorem newLive_add_toPlace_le (d : Deployment) (l : List ReplicaState) (target : String) :
    newLive target l + (planStep d l target).toPlace ≤
      max (newLive target l) d.replicas.toNat := by
  cases hs : d.strategy with
  | recreate =>
      rw [planStep_toPlace_recreate hs]
      split_ifs <;> omega
  | rollingUpdate u s =>
      rw [planStep_toPlace_rolling hs]
      omega

/-- A plan never kills below what is desired on target. -/
theorem newLive_survivors_ge (hl : (jobIds l).Nodup) :
    min (newLive target l) d.replicas.toNat ≤ newLive target (survivors d l target) := by
  have hnew := newLive_eq target l
  rw [newLive_eq target (survivors d l target), tally_survivors hl, tally_survivors hl]
  cases hs : d.strategy with
  | recreate =>
      rw [tally_victims_recreate hs, tally_victims_recreate hs]
      split_ifs <;> simp only <;> omega
  | rollingUpdate u s =>
      rw [tally_victims_rolling hs, tally_victims_rolling hs]
      simp only
      omega

end Plan

namespace Controller

variable {σ : Type} [Sha256] (driver : MeshDriver σ) (d : Deployment) {c : Controller} (s : σ)

theorem nodup_afterKills (hc : (jobIds c.replicas).Nodup) :
    (jobIds (c.afterKills driver d s).replicas).Nodup := by
  obtain ⟨ks, _, hkilled⟩ := c.afterKills_killed driver d s
  have hl : (jobIds (c.refreshed driver d s)).Nodup := jobIds_refreshed driver d c s ▸ hc
  rw [hkilled.replicas]
  exact nodup_without hl

/-- The kills of step 3 leave the target revision what is desired. -/
theorem newLive_afterKills_ge (hc : (jobIds c.replicas).Nodup) :
    min (newLive d.revision (c.refreshed driver d s)) d.replicas.toNat ≤
      newLive d.revision (c.afterKills driver d s).replicas := by
  obtain ⟨ks, hks, hkilled⟩ := c.afterKills_killed driver d s
  have hl : (jobIds (c.refreshed driver d s)).Nodup := jobIds_refreshed driver d c s ▸ hc
  have hmore : newLive d.revision (survivors d (c.refreshed driver d s) d.revision) ≤
      newLive d.revision (c.afterKills driver d s).replicas := by
    rw [hkilled.replicas, planned_replicas]
    exact countP_without_anti hks _ _
  exact (newLive_survivors_ge hl).trans hmore

/-- And so do the substitutes of step 3b. -/
theorem newLive_afterSubstitutes_ge (hc : (jobIds c.replicas).Nodup) :
    min (newLive d.revision (c.refreshed driver d s)) d.replicas.toNat ≤
      newLive d.revision (c.afterSubstitutes driver d s).replicas := by
  obtain ⟨js, hkilled, _, _, hlen⟩ := c.afterSubstitutes_killed driver d s
  have hkept := newLive_afterKills_ge driver d s hc
  have hone : newLive d.revision (c.afterKills driver d s).replicas ≤
      newLive d.revision (c.afterSubstitutes driver d s).replicas + js.length := by
    rw [hkilled.replicas]
    exact countP_le_without_add_length (nodup_afterKills driver d s hc) js _
  omega

/-- Step 3b only kills what is live on target. -/
theorem onTarget_of_substituted (hc : (jobIds c.replicas).Nodup) {r : ReplicaState}
    (hr : r ∈ (c.afterKills driver d s).replicas)
    (hr' : r ∉ (c.afterSubstitutes driver d s).replicas) :
    onTarget d.revision r = true := by
  obtain ⟨js, hkilled, hsub, _, _⟩ := c.afterSubstitutes_killed driver d s
  rw [hkilled.replicas, mem_without, not_and, not_not] at hr'
  obtain ⟨r', hmem, hid⟩ := mem_jobIds.mp (hsub (hr' hr))
  obtain ⟨hmem', hon⟩ := List.mem_filter.mp hmem
  rwa [List.inj_on_of_nodup_map (nodup_afterKills driver d s hc) hr hmem' hid.symm]

/-- Killing only shrinks what the refresh left. -/
theorem afterSubstitutes_sublist :
    (c.afterSubstitutes driver d s).replicas.Sublist (c.refreshed driver d s) := by
  obtain ⟨ks, _, hkilled⟩ := c.afterKills_killed driver d s
  obtain ⟨js, hkilled', _⟩ := c.afterSubstitutes_killed driver d s
  rw [hkilled'.replicas, hkilled.replicas]
  exact (without_sublist _ _).trans (without_sublist _ _)

/-- A count after the tick is at most the count after the refresh and the placements. -/
theorem countP_tick_le (now : UInt64) (p : ReplicaState → Bool) :
    (c.tick driver d s now).2.1.replicas.countP p ≤
      (c.refreshed driver d s).countP p + (c.plan driver d s).toPlace := by
  obtain ⟨launched, hplaced, hlen⟩ := c.afterPlacements_placed driver d s now
  rw [(c.tick_eq driver d s now).1, hplaced.replicas, List.countP_append]
  exact Nat.add_le_add (afterSubstitutes_sublist driver d s).countP_le
    (List.countP_le_length.trans hlen)

/-- **The bounds of a tick**, whatever the driver answers: live replicas stay under the
surge ceiling, live on-target ones do not exceed what is desired, the kill phase leaves
the target revision what is desired of it, and substitutes are only ever on target. -/
theorem tick_bounds (hc : (jobIds c.replicas).Nodup) (now : UInt64) :
    liveCount (c.tick driver d s now).2.1.replicas ≤
        max (liveCount (c.refreshed driver d s)) (d.replicas.toNat + d.strategy.surge) ∧
      newLive d.revision (c.tick driver d s now).2.1.replicas ≤
        max (newLive d.revision (c.refreshed driver d s)) d.replicas.toNat ∧
      min (newLive d.revision (c.refreshed driver d s)) d.replicas.toNat ≤
        newLive d.revision (c.afterSubstitutes driver d s).replicas ∧
      ∀ r ∈ (c.afterKills driver d s).replicas,
        r ∉ (c.afterSubstitutes driver d s).replicas →
          r.phase.isAlive = true ∧ r.revision = d.revision := by
  refine ⟨?_, ?_, newLive_afterSubstitutes_ge driver d s hc, ?_⟩
  · exact (countP_tick_le driver d s now _).trans (liveCount_add_toPlace_le d _ _)
  · exact (countP_tick_le driver d s now _).trans (newLive_add_toPlace_le d _ _)
  · intro r hr hr'
    simpa [onTarget] using onTarget_of_substituted driver d s hc hr hr'

end Controller

/-- A scale-down from three to one while the host of `a` is out of reach. -/
theorem Controller.tick_bounds_stuck :
    let d : Deployment := { image := "nginx", replicas := 1 }
    let c : Controller :=
      { replicas :=
          [⟨"a", "n", "9154645cdccb2449", .pending⟩, ⟨"b", "n", "9154645cdccb2449", .running⟩,
            ⟨"c", "n", "9154645cdccb2449", .running⟩] }
    newLive "9154645cdccb2449" (c.refreshed (stuckDriver ["a"]) d ()) = 3 ∧
      liveCount (@Controller.tick Unit Deployment.nginxSha256 (stuckDriver ["a"]) d c ()
        0).2.1.replicas ≤ 3 ∧
      1 ≤ newLive "9154645cdccb2449" (@Controller.afterSubstitutes Unit Deployment.nginxSha256
        (stuckDriver ["a"]) d c ()).replicas := by
  intro d c
  have hrev : @Deployment.revision Deployment.nginxSha256 d = "9154645cdccb2449" :=
    Deployment.revision_nginx ⟨rfl, rfl, rfl, rfl, rfl, rfl⟩
  have hbounds := @Controller.tick_bounds Unit Deployment.nginxSha256 (stuckDriver ["a"]) d c ()
    (by decide) 0
  rw [hrev] at hbounds
  have hlive : liveCount (c.refreshed (stuckDriver ["a"]) d ()) = 3 := by decide
  have hnew : newLive "9154645cdccb2449" (c.refreshed (stuckDriver ["a"]) d ()) = 3 := by decide
  rw [hlive, hnew] at hbounds
  exact ⟨hnew, hbounds.1, hbounds.2.2.1⟩

end CeGke
