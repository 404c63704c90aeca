import CeGke.Controller.Stages

/-!
# Recreate runs one revision at a time

The planner of a recreate places nothing while it counts a live old replica.  What it
counts is what it is told: a replica that was found terminal, and whose reap failed, is
still tracked, and if it is found live again while its successors run there are two
revisions at once, and only then (`Controller.recreate_one_revision`).
-/

namespace CeGke

open Lib

variable {σ : Type}

namespace Controller

/-! ## Runs of ticks -/

section Run

variable [Sha256] (driver : MeshDriver σ) (d : Deployment) (clock : ℕ → UInt64)

/-- The controller and the mesh after so many ticks. -/
def after (c : Controller) (s : σ) : ℕ → Controller × σ
  | 0 => (c, s)
  | n + 1 => ((after c s n).1.tick driver d (after c s n).2 (clock n)).2

variable {driver d clock} {c : Controller} {s : σ}

/-- What a tick keeps where a condition on the tick holds, a run of such ticks keeps. -/
theorem inv_after (inv : Controller → Prop) (Q : Controller → σ → Prop)
    (htick : ∀ c s now, inv c → Q c s → inv (c.tick driver d s now).2.1) (hc : inv c) (n : ℕ)
    (hQ : ∀ i < n, Q (after driver d clock c s i).1 (after driver d clock c s i).2) :
    inv (after driver d clock c s n).1 := by
  induction n with
  | zero => exact hc
  | succ n ih =>
      exact htick _ _ _ (ih fun i hi ↦ hQ i (Nat.lt_succ_of_lt hi)) (hQ n (Nat.lt_succ_self n))

end Run

end Controller

/-! ## Two revisions at once -/

/-- A replica on target and one on another revision are both live. -/
def RunsTwo (target : String) (l : List ReplicaState) : Prop :=
  (∃ r ∈ l, onTarget target r = true) ∧ ∃ r ∈ l, offTarget target r = true

instance (target : String) (l : List ReplicaState) : Decidable (RunsTwo target l) :=
  inferInstanceAs (Decidable (_ ∧ _))

section RunsTwo

variable {target : String} {l m : List ReplicaState}

theorem RunsTwo.mono (h : RunsTwo target l) (hsub : l ⊆ m) : RunsTwo target m := by
  obtain ⟨⟨r, hr, hon⟩, q, hq, hoff⟩ := h
  exact ⟨⟨r, hsub hr, hon⟩, q, hsub hq, hoff⟩

theorem not_runsTwo_of_revision {old : String} (h : ∀ r ∈ l, r.revision = old) :
    ¬ RunsTwo target l := by
  rintro ⟨⟨r, hr, hon⟩, q, hq, hoff⟩
  exact (offTarget_iff.mp hoff).2
    ((h q hq).trans ((h r hr).symm.trans (onTarget_iff.mp hon).2))

end RunsTwo

namespace Controller

variable [Sha256] (driver : MeshDriver σ) (d : Deployment) (c : Controller) (s : σ)

/-- The answers a tick gets when it asks for the phases of the tracked replicas. -/
def answers : List (String × Option Phase) :=
  (observePhases driver d.liveness c.grant c.replicas s).1

/-- The driver answers that the job is `Pending` or `Running`. -/
def AnsweredLive (job : String) : Prop :=
  ∃ answer ∈ c.answers driver d s, answer.1 = job ∧ answer.2.any Phase.isAlive

instance (job : String) : Decidable (c.AnsweredLive driver d s job) :=
  inferInstanceAs (Decidable (∃ answer ∈ c.answers driver d s, _ ∧ _))

/-- A replica that is tracked as terminal is answered live, while one on the other side of the
target revision is answered live or tracked as live. -/
def ComesBack : Prop :=
  ∃ r ∈ c.replicas, r.phase.isTerminal ∧ c.AnsweredLive driver d s r.jobId ∧
    ∃ q ∈ c.replicas, ¬ (q.revision = d.revision ↔ r.revision = d.revision) ∧
      (c.AnsweredLive driver d s q.jobId ∨ q.phase.isAlive)

instance : Decidable (c.ComesBack driver d s) :=
  inferInstanceAs (Decidable (∃ r ∈ c.replicas, _ ∧ _ ∧ ∃ q ∈ c.replicas, _ ∧ _))

/-- Neither what the refresh finds nor what the tick leaves runs two revisions; what is
tracked in between is part of the former. -/
def OneRevision (now : UInt64) : Prop :=
  ¬ RunsTwo d.revision (c.refreshed driver d s) ∧
    ¬ RunsTwo d.revision (c.tick driver d s now).2.1.replicas

variable {driver d c s}

omit [Sha256] in
/-- What a refresh finds live was answered live, or was tracked as live. -/
theorem tracked_of_refreshed {q : ReplicaState} (hq : q ∈ c.refreshed driver d s)
    (halive : q.phase.isAlive) :
    ∃ r ∈ c.replicas, r.revision = q.revision ∧
      (c.AnsweredLive driver d s r.jobId ∨ r.phase.isAlive) := by
  rcases phase_of_mem_foldl_record hq with hfailed | hmem | ⟨r, hr, hhandle, hphase⟩
  · rw [hfailed] at halive
    exact absurd halive (by decide)
  · have hsame : q.handle ∈ c.replicas.map ReplicaState.handle := by
      rw [← map_handle_refresh driver d c s]
      exact List.mem_map_of_mem hq
    obtain ⟨r, hr, hhandle⟩ := List.mem_map.mp hsame
    have hid : r.jobId = q.jobId := congrArg Prod.fst hhandle
    exact ⟨r, hr, congrArg (·.2.2) hhandle, Or.inl ⟨_, hmem, hid.symm, halive⟩⟩
  · exact ⟨r, hr, congrArg (·.2.2) hhandle, Or.inr (hphase ▸ halive)⟩

/-- Where one revision was live, two are found live only if a replica comes back. -/
theorem not_runsTwo_refreshed (hc : ¬ RunsTwo d.revision c.replicas)
    (h : ¬ c.ComesBack driver d s) : ¬ RunsTwo d.revision (c.refreshed driver d s) := by
  rintro ⟨⟨r, hr, hon⟩, q, hq, hoff⟩
  rw [onTarget_iff] at hon
  rw [offTarget_iff] at hoff
  obtain ⟨r₀, hr₀, hrev, hlive⟩ := tracked_of_refreshed hr hon.1
  obtain ⟨q₀, hq₀, hrev', hlive'⟩ := tracked_of_refreshed hq hoff.1
  rw [← hrev] at hon
  rw [← hrev'] at hoff
  -- Which of the two was not live before the refresh.
  by_cases halive : r₀.phase.isAlive
  · by_cases halive' : q₀.phase.isAlive
    · exact hc ⟨⟨r₀, hr₀, onTarget_iff.mpr ⟨halive, hon.2⟩⟩, q₀, hq₀,
        offTarget_iff.mpr ⟨halive', hoff.2⟩⟩
    · exact h ⟨q₀, hq₀, Phase.isTerminal_iff.mpr halive', hlive'.resolve_right halive', r₀, hr₀,
        fun hiff ↦ hoff.2 (hiff.mp hon.2), hlive⟩
  · exact h ⟨r₀, hr₀, Phase.isTerminal_iff.mpr halive, hlive.resolve_right halive, q₀, hq₀,
      fun hiff ↦ hoff.2 (hiff.mpr hon.2), hlive'⟩

/-- A tick of a recreate that plans with one revision live ends with one: it places only
when no old replica is live. -/
theorem not_runsTwo_tick (hs : d.strategy = .recreate)
    (h : ¬ RunsTwo d.revision (c.refreshed driver d s)) (now : UInt64) :
    ¬ RunsTwo d.revision (c.tick driver d s now).2.1.replicas := by
  obtain ⟨ks, _, hkilled⟩ := c.afterKills_killed driver d s
  obtain ⟨js, hkilled', _⟩ := c.afterSubstitutes_killed driver d s
  obtain ⟨launched, hplaced, hlen⟩ := c.afterPlacements_placed driver d s now
  have hsub : (c.afterSubstitutes driver d s).replicas ⊆ c.refreshed driver d s := by
    rw [(hkilled.trans hkilled').replicas]
    exact (without_sublist _ _).subset
  rw [(c.tick_eq driver d s now).1, hplaced.replicas]
  rw [plan, planStep_toPlace_recreate hs] at hlen
  split_ifs at hlen with hold
  · rw [List.eq_nil_of_length_eq_zero (Nat.le_zero.mp hlen), List.append_nil]
    exact fun htwo ↦ h (htwo.mono hsub)
  · rintro ⟨_, q, hq, hoff⟩
    rcases List.mem_append.mp hq with hq | hq
    · exact absurd hoff (List.countP_eq_zero.mp (Nat.eq_zero_of_not_pos hold) q (hsub hq))
    · exact (offTarget_iff.mp hoff).2 (hplaced.fresh q hq).2

/-- **When a recreate runs one revision at a time**: a run of ticks that starts with all
replicas on one revision never runs two if in none of its ticks a replica tracked as terminal
is answered live while one on the other side of the target revision is live. -/
theorem recreate_one_revision (hs : d.strategy = .recreate) {old : String}
    (hold : ∀ r ∈ c.replicas, r.revision = old) (clock : ℕ → UInt64) (n : ℕ)
    (h : ∀ i < n, ¬ (after driver d clock c s i).1.ComesBack driver d
      (after driver d clock c s i).2) :
    ∀ i < n, (after driver d clock c s i).1.OneRevision driver d
      (after driver d clock c s i).2 (clock i) := by
  intro i hi
  have hinv : ¬ RunsTwo d.revision (after driver d clock c s i).1.replicas := by
    refine inv_after (fun c ↦ ¬ RunsTwo d.revision c.replicas)
      (fun c s ↦ ¬ c.ComesBack driver d s) ?_ (not_runsTwo_of_revision hold) i
      fun j hj ↦ h j (hj.trans hi)
    exact fun c s now hc hback ↦ not_runsTwo_tick hs (not_runsTwo_refreshed hc hback) now
  have hrefreshed := not_runsTwo_refreshed hinv (h i hi)
  exact ⟨hrefreshed, not_runsTwo_tick hs hrefreshed (clock i)⟩

end Controller

section Example

/-- A mesh that loses touch with its hosts for the length of a tick: until something is
deployed every replica is reported failed, afterwards every one runs, and no kill gets
through. -/
def returningDriver : MeshDriver Bool where
  atlas s := (.ok [⟨"n", 64, 65536, 0, 0, fun _ ↦ true⟩], s)
  deploy _ _ _ _ := (.ok "b", true)
  kill _ _ _ s := (.error "host unreachable", s)
  phase _ _ _ _ s := (.ok (if s then .running else .failed), s)
  advertiseService _ s := (.ok (), s)
  serviceReady _ s := (.ok .healthy, s)

/-- A workload that cannot run two revisions at once, to be rolled. -/
def recreatedWeb : Deployment where
  name := "web"
  nameSpace := "default"
  image := "nginx"
  replicas := 1
  strategy := .recreate

/-- It runs on an older revision. -/
def oldWeb : Controller where
  replicas := [⟨"a", "n", "v1", .running⟩]

/-- The old replica was taken for failed, its successor placed, and it comes back. -/
theorem recreate_runs_two :
    recreatedWeb.strategy = .recreate ∧ (∀ r ∈ oldWeb.replicas, r.revision = "v1") ∧
      RunsTwo (@Deployment.revision Deployment.nginxSha256 recreatedWeb)
        (@Controller.after Bool Deployment.nginxSha256 returningDriver recreatedWeb (fun _ ↦ 0)
          oldWeb false 2).1.replicas := by
  decide +kernel

/-- The same mesh, except that the old replica is gone for good. -/
def goneDriver : MeshDriver Bool :=
  { returningDriver with
    phase := fun _ job _ _ s ↦ (.ok (if job = "a" then .failed else .running), s) }

/-- The kills of the failed one fail all along, and its successor runs alone. -/
theorem recreate_one_revision_gone :
    (∀ i < 3, @Controller.OneRevision Bool Deployment.nginxSha256 goneDriver recreatedWeb
        (@Controller.after Bool Deployment.nginxSha256 goneDriver recreatedWeb (fun _ ↦ 0)
          oldWeb false i).1
        (@Controller.after Bool Deployment.nginxSha256 goneDriver recreatedWeb (fun _ ↦ 0)
          oldWeb false i).2 0) ∧
      (@Controller.after Bool Deployment.nginxSha256 goneDriver recreatedWeb (fun _ ↦ 0)
        oldWeb false 3).1.replicas =
          [⟨"a", "n", "v1", .failed⟩, ⟨"b", "n", "9154645cdccb2449", .running⟩] :=
  ⟨@Controller.recreate_one_revision Bool Deployment.nginxSha256 goneDriver recreatedWeb oldWeb
    false rfl "v1" (by decide) (fun _ ↦ 0) 3 (by decide +kernel), by decide +kernel⟩

end Example

end CeGke
