import CeGke.Rollout.Tally
import Mathlib.Logic.Relation

/-!
# The budgets of a rolling update

A rolling update promises never to run more than `desired + max_surge` replicas
and never to drop below `desired - max_unavailable` running ones.  The batch of a
step is computed as if it were carried out whole, but kills fail and hosts reject;
here any part of the batch may be the one that is carried out, and the promises
are kept from step to step (`batch_live_le`, `batch_running_ge`) and so over whole
rolls (`rolling_budgets`).
-/

namespace CeGke

open Lib

variable {d : Deployment} {l m : List ReplicaState} {target : String}

/-! ## Partly applied batches -/

/-- The tracked replicas after `kills` were carried out and `placed` were added. -/
def applyBatch (kills : List String) (placed l : List ReplicaState) : List ReplicaState :=
  without ReplicaState.jobId kills l ++ placed

/-- `kills` and `placed` are part of what the plan for `l` asks for. -/
structure PartOfBatch (d : Deployment) (target : String) (l : List ReplicaState)
    (kills : List String) (placed : List ReplicaState) : Prop where
  kills_subset : kills ⊆ (planStep d l target).toKill
  placed_le : placed.length ≤ (planStep d l target).toPlace
  placed_new : ∀ r ∈ placed, r.phase = .pending ∧ r.revision = target

theorem PartOfBatch.runningCount_placed {kills : List String} {placed : List ReplicaState}
    (h : PartOfBatch d target l kills placed) : runningCount placed = 0 := by
  apply List.countP_eq_zero.mpr
  intro r hr hrun
  rw [(h.placed_new r hr).1] at hrun
  exact Bool.noConfusion hrun

theorem liveCount_append (l m : List ReplicaState) :
    liveCount (l ++ m) = liveCount l + liveCount m := List.countP_append

theorem runningCount_append (l m : List ReplicaState) :
    runningCount (l ++ m) = runningCount l + runningCount m := List.countP_append

section Rolling

variable {u s : UInt32} (hs : d.strategy = .rollingUpdate u s)

include hs

/-- The surge ceiling survives any part of a batch. -/
theorem batch_live_le {kills : List String} {placed : List ReplicaState}
    (h : PartOfBatch d target l kills placed) :
    liveCount (applyBatch kills placed l) ≤
      max (liveCount l) (d.replicas.toNat + s.toNat) := by
  have hplace := h.placed_le
  rw [planStep_toPlace_rolling hs] at hplace
  have hkept : liveCount (without ReplicaState.jobId kills l) ≤ liveCount l :=
    (without_sublist kills l).countP_le
  have hnew : liveCount placed ≤ placed.length := List.countP_le_length
  have hceil : saturatingAdd d.replicas.toNat s.toNat ≤ d.replicas.toNat + s.toNat :=
    min_le_left _ _
  rw [applyBatch, liveCount_append]
  omega

/-- The running replicas a fully applied plan leaves.  The trim takes a running
one only when exactly `desired` running ones stay. -/
theorem survivors_running_ge (hl : (jobIds l).Nodup) :
    min (runningCount l) (d.replicas.toNat - u.toNat) ≤
      runningCount (survivors d l target) := by
  rw [runningCount_eq target (survivors d l target), tally_survivors hl, tally_survivors hl,
    tally_victims_rolling hs, tally_victims_rolling hs]
  have hnew := newLive_eq target l
  have hrun := runningCount_eq target l
  simp only
  omega

/-- The availability floor survives any part of a batch. -/
theorem batch_running_ge (hl : (jobIds l).Nodup) {kills : List String}
    {placed : List ReplicaState} (h : PartOfBatch d target l kills placed) :
    min (runningCount l) (d.replicas.toNat - u.toNat) ≤
      runningCount (applyBatch kills placed l) := by
  have hmore : runningCount (survivors d l target) ≤
      runningCount (without ReplicaState.jobId kills l) :=
    countP_without_anti h.kills_subset _ _
  have hsurv : min (runningCount l) (d.replicas.toNat - u.toNat) ≤
      runningCount (survivors d l target) := survivors_running_ge hs hl
  rw [applyBatch, runningCount_append, h.runningCount_placed]
  omega

end Rolling

/-! ## Rolls -/

/-- One move of a roll: part of a batch is carried out, for whatever revision is
the target by then, or a pending replica comes up. -/
inductive RollMove (d : Deployment) : List ReplicaState → List ReplicaState → Prop
  | /-- Fresh replicas keep the tracked job ids distinct. -/
    batch {target : String} {l : List ReplicaState} {kills : List String}
      {placed : List ReplicaState} (part : PartOfBatch d target l kills placed)
      (fresh : (jobIds (applyBatch kills placed l)).Nodup) :
      RollMove d l (applyBatch kills placed l)
  | ready {before after : List ReplicaState} {r : ReplicaState} (hr : r.phase = .pending) :
      RollMove d (before ++ r :: after) (before ++ { r with phase := .running } :: after)

theorem RollMove.nodup (h : RollMove d l m) (hl : (jobIds l).Nodup) : (jobIds m).Nodup := by
  cases h with
  | batch _ fresh => exact fresh
  | ready _ => simpa using hl

/-- A replica that comes up is live before and after. -/
theorem liveCount_ready {before after : List ReplicaState} {r : ReplicaState}
    (hr : r.phase = .pending) :
    liveCount (before ++ { r with phase := .running } :: after) =
      liveCount (before ++ r :: after) := by
  simp [liveCount, List.countP_append, List.countP_cons, hr]

theorem runningCount_ready {before after : List ReplicaState} {r : ReplicaState}
    (hr : r.phase = .pending) :
    runningCount (before ++ { r with phase := .running } :: after) =
      runningCount (before ++ r :: after) + 1 := by
  simp [runningCount, List.countP_append, hr]
  omega

/-- **The budgets of a rolling update.**  Whatever part of a batch is carried out,
and over any roll made of such batches and of replicas coming up, the live
replicas stay under the surge ceiling and the running ones over the availability
floor, as far as they were there to begin with. -/
theorem rolling_budgets {u s : UInt32} (hs : d.strategy = .rollingUpdate u s) :
    (∀ target l kills placed, (jobIds l).Nodup → PartOfBatch d target l kills placed →
      liveCount (applyBatch kills placed l) ≤
          max (liveCount l) (d.replicas.toNat + s.toNat) ∧
        min (runningCount l) (d.replicas.toNat - u.toNat) ≤
          runningCount (applyBatch kills placed l)) ∧
    (∀ l m, (jobIds l).Nodup → Relation.ReflTransGen (RollMove d) l m →
      liveCount m ≤ max (liveCount l) (d.replicas.toNat + s.toNat) ∧
        min (runningCount l) (d.replicas.toNat - u.toNat) ≤ runningCount m) := by
  constructor
  · intro target l kills placed hl h
    exact ⟨batch_live_le hs h, batch_running_ge hs hl h⟩
  intro l m hl hrun
  have key : (jobIds m).Nodup ∧ liveCount m ≤ max (liveCount l) (d.replicas.toNat + s.toNat) ∧
      min (runningCount l) (d.replicas.toNat - u.toNat) ≤ runningCount m := by
    induction hrun with
    | refl => exact ⟨hl, le_max_left _ _, min_le_left _ _⟩
    | tail _ hmove ih =>
        obtain ⟨hnodup, hlive, hready⟩ := ih
        refine ⟨hmove.nodup hnodup, ?_⟩
        cases hmove with
        | batch part _ =>
            have h₁ := batch_live_le hs part
            have h₂ := batch_running_ge hs hnodup part
            omega
        | ready hr =>
            rw [liveCount_ready hr, runningCount_ready hr]
            omega
  exact key.2

/-- A roll of two replicas with one surge replica: it is placed, and comes up. -/
theorem rolling_budgets_surge_one :
    let d : Deployment := { replicas := 2, strategy := .rollingUpdate 0 1 }
    let old : List ReplicaState := [⟨"a", "n", "v1", .running⟩, ⟨"b", "n", "v1", .running⟩]
    PartOfBatch d "v2" old [] [⟨"c", "m", "v2", .pending⟩] ∧
      liveCount (applyBatch [] [⟨"c", "m", "v2", .pending⟩] old) ≤ 3 ∧
      2 ≤ runningCount (old ++ [⟨"c", "m", "v2", .running⟩]) := by
  intro d old
  have hnodup : (jobIds old).Nodup := by decide
  have hpart : PartOfBatch d "v2" old [] [⟨"c", "m", "v2", .pending⟩] :=
    ⟨by decide, by decide, by decide⟩
  have hbudgets := rolling_budgets (d := d) (u := 0) (s := 1) rfl
  have hplace : RollMove d old (applyBatch [] [⟨"c", "m", "v2", .pending⟩] old) :=
    RollMove.batch hpart (by decide)
  have hready : RollMove d (applyBatch [] [⟨"c", "m", "v2", .pending⟩] old)
      (old ++ [⟨"c", "m", "v2", .running⟩]) :=
    @RollMove.ready d old [] ⟨"c", "m", "v2", .pending⟩ rfl
  refine ⟨hpart, (hbudgets.1 "v2" old [] _ hnodup hpart).1, ?_⟩
  exact (hbudgets.2 old _ hnodup ((Relation.ReflTransGen.single hplace).tail hready)).2

end CeGke
