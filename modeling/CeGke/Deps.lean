import CeGke.Spec
import Mathlib.Data.List.Sort

/-!
# The dependency gate

`src/deps.rs`: whether a deployment may place replicas, given what was observed of
the services it depends on.
-/

namespace CeGke

/-- Observed readiness of a dependency. -/
inductive DepReadiness where
  | absent
  | livePresent
  | healthy
deriving DecidableEq, Repr

/-- The outcome of the gate.  `unmet` is sorted and without duplicates. -/
inductive Gate where
  | ready
  | waiting (unmet : List String)
deriving DecidableEq, Repr

namespace Gate

/-- Is the gate open? -/
def isReady : Gate → Bool
  | ready => true
  | waiting _ => false

/-- Does what was observed satisfy the dependency? -/
def met (dep : DependencyRef) (observed : DepReadiness) : Bool :=
  match dep.healthy, observed with
  | _, .absent => false
  | false, .livePresent | false, .healthy => true
  | true, .healthy => true
  | true, .livePresent => false

/-- `Vec::dedup` on a list. -/
def dedup : List String → List String
  | [] => []
  | [s] => [s]
  | s :: t :: l => if s = t then dedup (t :: l) else s :: dedup (t :: l)

/-- `Gate::evaluate`. -/
def evaluate (d : Deployment) (readiness : String → DepReadiness) : Gate :=
  let unmet := (d.dependsOn.filter fun dep ↦ !met dep (readiness dep.service)).map
    DependencyRef.service
  if unmet = [] then .ready else .waiting (dedup (unmet.insertionSort (· ≤ ·)))

@[simp] theorem isReady_ready : isReady ready = true := rfl

@[simp] theorem isReady_waiting (unmet : List String) : isReady (waiting unmet) = false := rfl

end Gate

end CeGke
