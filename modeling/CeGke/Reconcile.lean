import CeGke.Spec
import Mathlib.Data.List.Sort

/-!
# Replicas and their reconciliation

`src/reconcile.rs`: what the orchestrator tracks of each replica it launched, and
`reconcile`, the steady-state planner that looks at liveness and count alone.
-/

namespace CeGke

/-- What a replica is doing, from the orchestrator's point of view. -/
inductive Phase where
  | pending
  | running
  | failed
  | succeeded
deriving DecidableEq, Repr

namespace Phase

/-- Is this replica counted toward the desired total? -/
def isAlive : Phase → Bool
  | .pending | .running => true
  | .failed | .succeeded => false

/-- Should this replica be replaced? -/
def isTerminal : Phase → Bool
  | .failed | .succeeded => true
  | .pending | .running => false

/-- `Phase::from_job_status`: an unknown status counts as failed. -/
def fromJobStatus (status : String) : Phase :=
  if status = "pending" then .pending
  else if status = "running" then .running
  else if status = "settled" then .succeeded
  else if status.startsWith "failed" then .failed
  else if status = "awaiting_settlement" then .succeeded
  else .failed

@[simp] theorem isAlive_pending : Phase.pending.isAlive = true := rfl
@[simp] theorem isAlive_running : Phase.running.isAlive = true := rfl
@[simp] theorem isAlive_failed : Phase.failed.isAlive = false := rfl
@[simp] theorem isAlive_succeeded : Phase.succeeded.isAlive = false := rfl
@[simp] theorem isTerminal_pending : Phase.pending.isTerminal = false := rfl
@[simp] theorem isTerminal_running : Phase.running.isTerminal = false := rfl
@[simp] theorem isTerminal_failed : Phase.failed.isTerminal = true := rfl
@[simp] theorem isTerminal_succeeded : Phase.succeeded.isTerminal = true := rfl

@[simp] theorem not_isTerminal (p : Phase) : (!p.isTerminal) = p.isAlive := by
  cases p <;> rfl

theorem isTerminal_iff {p : Phase} : p.isTerminal ↔ ¬ p.isAlive := by
  rw [← not_isTerminal, Bool.not_eq_true', Bool.not_eq_false]

end Phase

/-- One tracked replica.  `revision` is the pod-template hash it was launched with. -/
structure ReplicaState where
  jobId : String
  nodeId : String
  revision : String
  phase : Phase
deriving DecidableEq, Repr

/-- The tracked job ids, in tracking order. -/
def jobIds (replicas : List ReplicaState) : List String := replicas.map ReplicaState.jobId

@[simp] theorem jobIds_nil : jobIds [] = [] := rfl

@[simp] theorem jobIds_cons (r : ReplicaState) (rs : List ReplicaState) :
    jobIds (r :: rs) = r.jobId :: jobIds rs := rfl

@[simp] theorem jobIds_append (rs ss : List ReplicaState) :
    jobIds (rs ++ ss) = jobIds rs ++ jobIds ss := List.map_append

theorem mem_jobIds {job : String} {rs : List ReplicaState} :
    job ∈ jobIds rs ↔ ∃ r ∈ rs, r.jobId = job := List.mem_map

/-! ## The steady state -/

/-- What reconciling asks for. -/
structure Plan where
  toPlace : ℕ := 0
  toKill : List String := []
deriving DecidableEq, Repr

/-- `phase_kill_rank`: lower is killed first. -/
def phaseKillRank : Phase → ℕ
  | .pending => 0
  | .running => 1
  | .succeeded | .failed => 2

/-- The comparison `reconcile` sorts by: kill rank, then job id. -/
def SteadyBefore (a b : ReplicaState) : Prop :=
  phaseKillRank a.phase < phaseKillRank b.phase ∨
    phaseKillRank a.phase = phaseKillRank b.phase ∧ a.jobId ≤ b.jobId

instance : DecidableRel SteadyBefore := fun _ _ ↦
  inferInstanceAs (Decidable (_ < _ ∨ _ = _ ∧ _ ≤ _))

/-- `reconcile`: reap what is terminal, then place the shortfall or kill the excess. -/
def reconcile (d : Deployment) (replicas : List ReplicaState) : Plan :=
  let (terminal, live) := replicas.partition fun r ↦ r.phase.isTerminal
  let plan : Plan := { toKill := jobIds terminal }
  let alive := (UInt32.ofNat live.length).toNat
  let desired := d.replicas.toNat
  if alive < desired then { plan with toPlace := desired - alive }
  else if alive > desired then
    let excess := alive - desired
    { plan with
      toKill := plan.toKill ++ jobIds ((live.insertionSort SteadyBefore).take excess) }
  else plan

/-- `tally_phases`: how many are pending, running, and terminal. -/
def tallyPhases (replicas : List ReplicaState) : ℕ × ℕ × ℕ :=
  (replicas.countP (·.phase = .pending), replicas.countP (·.phase = .running),
    replicas.countP (·.phase.isTerminal))

end CeGke
