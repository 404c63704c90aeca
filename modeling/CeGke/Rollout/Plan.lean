import CeGke.Reconcile
import Mathlib.Data.List.Sort

/-!
# The rollout planner

`plan_step` of `src/rollout.rs`: the next batch of place and kill actions for the
tracked replicas, the target revision and the strategy.

The counters of the census are natural numbers (they count the entries of a list
held in memory); `desired.saturating_add(max_surge)` is the only arithmetic that
can meet the bound of `u32`, and `saturatingAdd` keeps it.  Truncated subtraction
on naturals is `saturating_sub`.
-/

namespace CeGke

/-- `u32::MAX`. -/
def u32Max : ℕ := 2 ^ 32 - 1

/-- `u32::saturating_add`. -/
def saturatingAdd (a b : ℕ) : ℕ := min (a + b) u32Max

/-- One step of a rolling update. -/
structure RolloutStep where
  toPlace : ℕ := 0
  toKill : List String := []
  done : Bool := false
deriving DecidableEq, Repr

/-- Replica counts relevant to a rolling update. -/
structure RolloutCensus where
  newLive : ℕ := 0
  newReady : ℕ := 0
  oldLive : ℕ := 0
  oldReady : ℕ := 0
  terminal : List String := []
deriving DecidableEq, Repr

/-- One turn of the loop in `census`. -/
def RolloutCensus.add (target : String) (c : RolloutCensus) (r : ReplicaState) :
    RolloutCensus :=
  if r.phase.isTerminal then { c with terminal := c.terminal ++ [r.jobId] }
  else if r.revision = target then
    { c with
      newLive := c.newLive + 1
      newReady := if r.phase = .running then c.newReady + 1 else c.newReady }
  else
    { c with
      oldLive := c.oldLive + 1
      oldReady := if r.phase = .running then c.oldReady + 1 else c.oldReady }

/-- Census the replica set against the target revision. -/
def census (replicas : List ReplicaState) (target : String) : RolloutCensus :=
  replicas.foldl (RolloutCensus.add target) {}

/-- `kill_rank`: lower is killed first. -/
def killRank : Phase → ℕ
  | .pending => 0
  | .running => 1
  | _ => 2

/-- The comparison `kill_excess_new` sorts by: kill rank, then job id. -/
def KillBefore (a b : ReplicaState) : Prop :=
  killRank a.phase < killRank b.phase ∨
    killRank a.phase = killRank b.phase ∧ a.jobId ≤ b.jobId

instance : DecidableRel KillBefore := fun _ _ ↦
  inferInstanceAs (Decidable (_ < _ ∨ _ = _ ∧ _ ≤ _))

/-- The live replicas on the target revision. -/
def onTarget (target : String) (r : ReplicaState) : Bool :=
  r.phase.isAlive && r.revision == target

/-- The live replicas on any other revision. -/
def offTarget (target : String) (r : ReplicaState) : Bool :=
  r.phase.isAlive && r.revision != target

/-- `kill_excess_new`: the `newLive - desired` first on-target replicas in kill order. -/
def killExcessNew (replicas : List ReplicaState) (desired : ℕ) (target : String) (newLive : ℕ)
    (step : RolloutStep) : RolloutStep :=
  let excess := newLive - desired
  let sorted := (replicas.filter (onTarget target)).insertionSort KillBefore
  { step with toKill := step.toKill ++ jobIds (sorted.take excess) }

/-- `plan_recreate`: drain everything not on target, then fill to `desired`. -/
def planRecreate (replicas : List ReplicaState) (desired : ℕ) (target : String)
    (c : RolloutCensus) (step : RolloutStep) : RolloutStep :=
  if c.oldLive > 0 then
    { step with toKill := step.toKill ++ jobIds (replicas.filter (offTarget target)) }
  else
    let step :=
      if c.newLive < desired then { step with toPlace := desired - c.newLive }
      else if c.newLive > desired then killExcessNew replicas desired target c.newLive step
      else step
    { step with done := c.newLive = desired ∧ c.newReady = desired }

/-- The first kill loop of `plan_rolling`: old replicas that are not ready. -/
def unreadyOld (target : String) (r : ReplicaState) : Bool :=
  offTarget target r && r.phase != .running

/-- What the second kill loop of `plan_rolling` looks at: ready old replicas. -/
def readyOld (target : String) (r : ReplicaState) : Bool :=
  offTarget target r && r.phase == .running

/-- The second kill loop of `plan_rolling`: ready old replicas in tracking order,
until `droppable` of them are retired. -/
def retireReady (target : String) : ℕ → List ReplicaState → List String
  | _, [] => []
  | droppable, r :: replicas =>
      if droppable = 0 then []
      else if readyOld target r then r.jobId :: retireReady target (droppable - 1) replicas
      else retireReady target droppable replicas

/-- `plan_rolling`: surge new replicas ahead, retire old ones behind. -/
def planRolling (replicas : List ReplicaState) (desired : ℕ) (target : String)
    (c : RolloutCensus) (maxUnavailable maxSurge : ℕ) (step : RolloutStep) : RolloutStep :=
  let totalLive := c.newLive + c.oldLive
  if c.oldLive = 0 ∧ c.newLive = desired ∧ c.newReady = desired then
    { step with done := true }
  else
    -- Trim: `desired` may have shrunk below what already runs on target.
    let step :=
      if c.newLive > desired then killExcessNew replicas desired target c.newLive step
      else step
    if c.newLive > desired ∧ c.oldLive = 0 then step
    else
      -- Surge: up to `desired + max_surge` replicas in all.
      let surgeCeiling := saturatingAdd desired maxSurge
      let step :=
        if c.newLive < desired then
          { step with toPlace := min (desired - c.newLive) (surgeCeiling - totalLive) }
        else step
      -- Retire: only what is ready now counts toward the floor.
      let availFloor := desired - maxUnavailable
      if c.oldLive > 0 then
        let readyNow := c.newReady + c.oldReady
        let droppableReady := readyNow - availFloor
        { step with
          toKill := step.toKill ++ jobIds (replicas.filter (unreadyOld target)) ++
            retireReady target droppableReady replicas }
      else step

/-- `plan_step`: the next batch of actions. -/
def planStep (d : Deployment) (replicas : List ReplicaState) (target : String) : RolloutStep :=
  let desired := d.replicas.toNat
  let c := census replicas target
  let step : RolloutStep := { toKill := c.terminal }
  match d.strategy with
  | .recreate => planRecreate replicas desired target c step
  | .rollingUpdate maxUnavailable maxSurge =>
      planRolling replicas desired target c maxUnavailable.toNat maxSurge.toNat step

end CeGke
