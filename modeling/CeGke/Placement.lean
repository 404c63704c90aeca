import CeGke.Rollout.Plan

/-!
# Placement

`src/placement.rs`: which hosts of the capacity atlas can take one more replica, and
in which order they are tried.

Capacities are `u32` with saturating multiplication and subtraction; the memory
request is a `u64` that the source truncates with `as u32` before it compares.  The
tags of a host are only ever asked about, through `AtlasEntry::has_tag` of the SDK.
-/

namespace CeGke

/-- `as u32`. -/
def asU32 (n : ℕ) : ℕ := n % 2 ^ 32

/-- `u32::saturating_mul`. -/
def saturatingMul (a b : ℕ) : ℕ := min (a * b) u32Max

/-- `ce_rs::AtlasEntry`: the last capacity signal of a host. -/
structure AtlasEntry where
  nodeId : String
  cpuCores : UInt32
  memMb : UInt32
  runningJobs : UInt32
  lastSeenSecs : UInt64
  hasTag : String → Bool

/-- A scored placement candidate.  Higher is better. -/
structure Candidate where
  nodeId : String
  score : ℤ
  freeCpu : ℕ
  freeMemMb : ℕ
deriving DecidableEq, Repr

/-- `host_matches_tags`. -/
def hostMatchesTags (host : AtlasEntry) (required : List String) : Bool :=
  required.all host.hasTag

/-- `free_capacity`: what is left when every running job is charged one replica. -/
def freeCapacity (host : AtlasEntry) (perReplicaCpu perReplicaMemMb : ℕ) : ℕ × ℕ :=
  let cpuUsed := saturatingMul host.runningJobs.toNat (max perReplicaCpu 1)
  let memUsed := saturatingMul host.runningJobs.toNat (max perReplicaMemMb 1)
  (host.cpuCores.toNat - cpuUsed, host.memMb.toNat - memUsed)

/-- `free_capacity` as `host_can_fit`, `score_host` and `rank` call it. -/
def freeFor (host : AtlasEntry) (d : Deployment) : ℕ × ℕ :=
  freeCapacity host d.resources.cpuCores.toNat (asU32 d.resources.memMb.toNat)

/-- `host_can_fit`. -/
def hostCanFit (host : AtlasEntry) (d : Deployment) : Bool :=
  if ¬ hostMatchesTags host d.requiredTags then false
  else
    let (freeCpu, freeMem) := freeFor host d
    d.resources.cpuCores.toNat ≤ freeCpu ∧ asU32 d.resources.memMb.toNat ≤ freeMem

/-- `score_host`. -/
def scoreHost (host : AtlasEntry) (d : Deployment) : ℤ :=
  let (freeCpu, freeMem) := freeFor host d
  let headroom : ℤ := (freeCpu : ℤ) * 100 + freeMem
  let loadPenalty : ℤ := (host.runningJobs.toNat : ℤ) * 50
  headroom - loadPenalty

/-- The order of candidates: best score first, ties by node id. -/
def Candidate.Before (a b : Candidate) : Prop :=
  b.score < a.score ∨ a.score = b.score ∧ a.nodeId ≤ b.nodeId

instance : DecidableRel Candidate.Before := fun _ _ ↦
  inferInstanceAs (Decidable (_ < _ ∨ _ = _ ∧ _ ≤ _))

/-- The freshness window; `0` disables it. -/
def isFresh (host : AtlasEntry) (nowSecs maxStaleSecs : ℕ) : Bool :=
  maxStaleSecs = 0 ∨ nowSecs - host.lastSeenSecs.toNat ≤ maxStaleSecs

/-- The candidate a host makes. -/
def candidateOf (d : Deployment) (host : AtlasEntry) : Candidate :=
  let (freeCpu, freeMem) := freeFor host d
  { nodeId := host.nodeId, score := scoreHost host d, freeCpu, freeMemMb := freeMem }

/-- `rank`: the hosts that can take a replica, best first. -/
def rank (atlas : List AtlasEntry) (d : Deployment) (nowSecs maxStaleSecs : ℕ) :
    List Candidate :=
  (((atlas.filter fun h ↦ isFresh h nowSecs maxStaleSecs).filter fun h ↦ hostCanFit h d).map
    (candidateOf d)).insertionSort Candidate.Before

end CeGke
