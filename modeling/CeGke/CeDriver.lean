import CeGke.Driver
import CeGke.Serve

/-!
# The mesh driver over a node

`CeDriver` of `src/driver.rs`, as far as phases go.  The client of the orchestrator's own node
is a parameter: a machine that answers, like a driver.

A phase comes from the agent of the host if that answers (`phase_of_answered`), and from the
job record of the node otherwise.
-/

namespace CeGke

variable {σ : Type}

/-- The calls of `ce_rs::CeClient` that tell the phase of a job; `job` is the status in the job
record. -/
structure CeClient (σ : Type) where
  request (nodeId topic : String) (payload : List UInt8) (timeoutMs : UInt64) :
    σ → Except String (List UInt8) × σ
  job (jobId : String) : σ → Except String String × σ

/-- `CeDriver`. -/
structure CeDriver (σ : Type) where
  ce : CeClient σ
  probeTimeoutMs : UInt64 := 5000

/-- The probe of a replica. -/
def probeRequest (jobId : String) (probe : Option Probe) (grant : Option String) :
    ProbeRequest where
  jobId
  checkCommand := (probe.map Probe.checkCommand).getD []
  grant

namespace CeDriver

variable [Bincode ProbeRequest] [Bincode ProbeReply] (driver : CeDriver σ)

/-- The last two lines of `CeDriver::phase`: the node's own record. -/
def localPhase (jobId : String) (s : σ) : Except String Phase × σ :=
  let (status, s) := driver.ce.job jobId s
  (status.map Phase.fromJobStatus, s)

/-- `CeDriver::phase`. -/
def phase (nodeId jobId : String) (probe : Option Probe) (grant : Option String) (s : σ) :
    Except String Phase × σ :=
  match (probeRequest jobId probe grant).encode with
  | .ok payload =>
      match driver.ce.request nodeId probeTopic payload driver.probeTimeoutMs s with
      | (.ok bytes, s) =>
          match ProbeReply.decode bytes with
          | .ok reply => (.ok reply.effectivePhase, s)
          | .error _ => driver.localPhase jobId s
      | (.error _, s) => driver.localPhase jobId s
  | .error _ => driver.localPhase jobId s

/-- The driver as a `MeshDriver`; `rest` does what `CeDriver` does but for the phases. -/
def toMeshDriver (rest : MeshDriver σ) : MeshDriver σ := { rest with phase := driver.phase }

/-! ## Answered probes -/

/-- A reply that comes back gives the phase that it stands for. -/
theorem phase_of_reply {driver : CeDriver σ} {nodeId jobId : String} {probe : Option Probe}
    {grant : Option String} {s : σ} {payload bytes : List UInt8} {reply : ProbeReply}
    (hpayload : (probeRequest jobId probe grant).encode = .ok payload)
    (hrequest : (driver.ce.request nodeId probeTopic payload driver.probeTimeoutMs s).1 =
      .ok bytes) (hreply : ProbeReply.decode bytes = .ok reply) :
    (driver.phase nodeId jobId probe grant s).1 = .ok reply.effectivePhase := by
  rw [phase, hpayload]
  simp only
  split
  · rename_i bytes' s' heq
    rw [heq] at hrequest
    obtain rfl := Except.ok.inj hrequest
    rw [hreply]
  · rename_i e s' heq
    rw [heq] at hrequest
    exact nomatch hrequest

variable [CeCap]

/-- The agent of the host answers the probe that is sent from the state `s`. -/
def Answered (requester : NodeId) (authority : ProbeAuthority) (jobs : JobSource)
    (nodeId jobId : String) (probe : Option Probe) (grant : Option String) (s : σ) : Prop :=
  ∃ payload bytes, (probeRequest jobId probe grant).encode = .ok payload ∧
    handleProbeBytes requester payload authority jobs = .ok bytes ∧
    (driver.ce.request nodeId probeTopic payload driver.probeTimeoutMs s).1 = .ok bytes

variable {driver} {requester : NodeId} {authority : ProbeAuthority} {jobs : JobSource}
  {nodeId jobId : String} {probe : Option Probe} {grant : Option String} {s : σ}

/-- An answered probe gives the phase that the agent's reply stands for. -/
theorem phase_of_answered
    (h : driver.Answered requester authority jobs nodeId jobId probe grant s) :
    (driver.phase nodeId jobId probe grant s).1 =
      .ok (handleProbe requester (probeRequest jobId probe grant) authority
        jobs).effectivePhase := by
  obtain ⟨payload, bytes, hpayload, hbytes, hrequest⟩ := h
  rw [handleProbeBytes_of_encode hpayload] at hbytes
  exact phase_of_reply hpayload hrequest (ProbeReply.decode_of_encode hbytes)

/-- So it gives the phase in the host's table if the probe is admitted, and that of a failed
replica otherwise. -/
theorem phase_of_answered_eq
    (h : driver.Answered requester authority jobs nodeId jobId probe grant s) :
    (authority.Admits requester grant ∧ ValidJobId jobId →
      (driver.phase nodeId jobId probe grant s).1 = .ok ((jobs jobId).getD .failed)) ∧
    (¬ (authority.Admits requester grant ∧ ValidJobId jobId) →
      (driver.phase nodeId jobId probe grant s).1 = .ok .failed) := by
  rw [phase_of_answered h]
  obtain ⟨hadmitted, hrefused⟩ := handleProbe_effectivePhase requester
    (probeRequest jobId probe grant) authority jobs
  exact ⟨fun hadmits ↦ congrArg _ (hadmitted hadmits),
    fun hnot ↦ congrArg _ (hrefused hnot)⟩

end CeDriver

end CeGke
