import CeGke.Protocol

/-!
# The health agent

`src/serve.rs`: how a host answers a probe.  The capability chains of `ce_cap` are a
parameter here, of which nothing is assumed but that they are functions.

A reply says `Failed` of a job for two kinds of reasons: the host's table says so, or does
not know the job, or the request was turned down (`handleProbe_effectivePhase`).
-/

namespace CeGke

/-- `ce_identity::NodeId`. -/
abbrev NodeId := Vector UInt8 32

/-- The crate `ce_cap`: capability chains, the tokens that carry them, and what they
authorize. -/
class CeCap where
  Chain : Type
  decodeChain (token : String) : Except String Chain
  authorize (selfId : NodeId) (acceptedRoots : List NodeId) (selfTags : List String)
    (now : UInt64) (requester : NodeId) (action : String) (chain : Chain)
    (isRevoked : NodeId → UInt64 → Bool) : Except String Unit

/-- `ACTION_PROBE`. -/
def actionProbe : String := "probe"

/-- The host's job table. -/
abbrev JobSource := String → Option Phase

/-- What the agent authorizes probes by. -/
structure ProbeAuthority where
  selfId : NodeId
  acceptedRoots : List NodeId
  selfTags : List String
  now : UInt64
  isRevoked : NodeId → UInt64 → Bool
  requireGrant : Bool

section Agent

variable [CeCap]

/-- Step 1 of `handle_probe`: why the request is turned down, if it is. -/
def ProbeAuthority.refusal (authority : ProbeAuthority) (requester : NodeId) :
    Option String → Option String
  | some token =>
      match CeCap.decodeChain token with
      | .ok chain =>
          match CeCap.authorize authority.selfId authority.acceptedRoots authority.selfTags
            authority.now requester actionProbe chain authority.isRevoked with
          | .error e => some s!"unauthorized: {e}"
          | .ok _ => none
      | .error e => some s!"malformed grant: {e}"
  | none => if authority.requireGrant then some "probe requires a capability grant" else none

/-- `handle_probe`. -/
def handleProbe (requester : NodeId) (req : ProbeRequest) (authority : ProbeAuthority)
    (jobs : JobSource) : ProbeReply :=
  match authority.refusal requester req.grant with
  | some reason => .failed reason
  | none =>
      if req.jobId = "" ∨ req.jobId.utf8ByteSize > 256 then .failed "invalid job id"
      else
        match jobs req.jobId with
        | some phase => { phase }
        | none => { phase := .failed, detail := "host does not know this job" }

/-- `handle_probe_bytes`. -/
def handleProbeBytes [Bincode ProbeRequest] [Bincode ProbeReply] (requester : NodeId)
    (payload : List UInt8) (authority : ProbeAuthority) (jobs : JobSource) :
    Except String (List UInt8) :=
  let reply :=
    match ProbeRequest.decode payload with
    | .ok req => handleProbe requester req authority jobs
    | .error e => .failed s!"bad request: {e}"
  reply.encode

/-! ## What a reply says -/

/-- The agent grants the request. -/
def ProbeAuthority.Admits (authority : ProbeAuthority) (requester : NodeId)
    (grant : Option String) : Prop :=
  match grant with
  | none => authority.requireGrant = false
  | some token => ∃ chain, CeCap.decodeChain token = .ok chain ∧
      CeCap.authorize authority.selfId authority.acceptedRoots authority.selfTags authority.now
        requester actionProbe chain authority.isRevoked = .ok ()

/-- A job id the agent looks up. -/
def ValidJobId (job : String) : Prop := job ≠ "" ∧ job.utf8ByteSize ≤ 256

instance (job : String) : Decidable (ValidJobId job) := inferInstanceAs (Decidable (_ ∧ _))

omit [CeCap] in
theorem not_validJobId {job : String} : ¬ ValidJobId job ↔ job = "" ∨ job.utf8ByteSize > 256 := by
  rw [ValidJobId, not_and_or, not_not, not_le, gt_iff_lt]

variable {authority : ProbeAuthority} {requester : NodeId} {jobs : JobSource}

theorem ProbeAuthority.refusal_eq_none {grant : Option String} :
    authority.refusal requester grant = none ↔ authority.Admits requester grant := by
  cases grant with
  | none =>
      rw [refusal, Admits]
      cases authority.requireGrant <;> simp
  | some token =>
      rw [refusal, Admits]
      cases CeCap.decodeChain token with
      | error e => simp
      | ok chain =>
          simp only [Except.ok.injEq, exists_eq_left']
          cases CeCap.authorize authority.selfId authority.acceptedRoots authority.selfTags
            authority.now requester actionProbe chain authority.isRevoked with
          | error e => simp
          | ok u => simp

/-- A request that is granted is answered from the job table, where no entry counts as failed;
any other is answered with a failure. -/
theorem handleProbe_effectivePhase (requester : NodeId) (req : ProbeRequest)
    (authority : ProbeAuthority) (jobs : JobSource) :
    (authority.Admits requester req.grant ∧ ValidJobId req.jobId →
      (handleProbe requester req authority jobs).effectivePhase =
        (jobs req.jobId).getD .failed) ∧
    (¬ (authority.Admits requester req.grant ∧ ValidJobId req.jobId) →
      (handleProbe requester req authority jobs).effectivePhase = .failed) := by
  rw [← ProbeAuthority.refusal_eq_none, handleProbe]
  simp only [← not_validJobId]
  cases authority.refusal requester req.grant with
  | some reason => simp
  | none =>
      by_cases hvalid : ValidJobId req.jobId
      · cases jobs req.jobId with
        | none => simp [hvalid, ProbeReply.effectivePhase]
        | some phase => simp [hvalid, ProbeReply.effectivePhase]
      · simp [hvalid]

/-- The agent answers the request that was encoded. -/
theorem handleProbeBytes_of_encode [Bincode ProbeRequest] [Bincode ProbeReply]
    {req : ProbeRequest} {payload : List UInt8} (h : req.encode = .ok payload) :
    handleProbeBytes requester payload authority jobs =
      (handleProbe requester req authority jobs).encode := by
  rw [handleProbeBytes, ProbeRequest.decode_of_encode h]

/-! ## What a refusal says -/

/-- The payload is none, or its grant does not let the requester probe, or it has no grant and
needs one. -/
def ProbeAuthority.Refuses [Bincode ProbeRequest] (authority : ProbeAuthority)
    (requester : NodeId) (payload : List UInt8) : Prop :=
  (∃ e, ProbeRequest.decode payload = .error e) ∨
    ∃ req, ProbeRequest.decode payload = .ok req ∧
      ((∃ token, req.grant = some token ∧
          ((∃ e, CeCap.decodeChain token = .error e) ∨
            ∃ chain e, CeCap.decodeChain token = .ok chain ∧
              CeCap.authorize authority.selfId authority.acceptedRoots authority.selfTags
                authority.now requester actionProbe chain authority.isRevoked = .error e)) ∨
        req.grant = none ∧ authority.requireGrant = true)

/-- A request that is turned down is turned down before its job is looked up. -/
theorem handleProbe_of_refusal {req : ProbeRequest} {reason : String}
    (h : authority.refusal requester req.grant = some reason) (jobs : JobSource) :
    handleProbe requester req authority jobs = .failed reason := by
  rw [handleProbe, h]

/-- **Unauthorized probes learn nothing**: they are answered alike by every job table. -/
theorem handleProbeBytes_of_refuses [Bincode ProbeRequest] [Bincode ProbeReply]
    {payload : List UInt8} (h : authority.Refuses requester payload) (jobs jobs' : JobSource) :
    handleProbeBytes requester payload authority jobs =
      handleProbeBytes requester payload authority jobs' := by
  rcases h with ⟨e, hdecode⟩ | ⟨req, hdecode, hgrant⟩
  · rw [handleProbeBytes, handleProbeBytes, hdecode]
  · have hrefusal : ∃ reason, authority.refusal requester req.grant = some reason := by
      rcases hgrant with ⟨token, htoken, ⟨e, hchain⟩ | ⟨chain, e, hchain, hauthorize⟩⟩ |
        ⟨hnone, hrequire⟩
      · exact ⟨_, by rw [htoken, ProbeAuthority.refusal, hchain]⟩
      · exact ⟨_, by simp only [htoken, ProbeAuthority.refusal, hchain, hauthorize]; rfl⟩
      · exact ⟨_, by rw [hnone, ProbeAuthority.refusal, if_pos hrequire]⟩
    obtain ⟨reason, hreason⟩ := hrefusal
    rw [handleProbeBytes, handleProbeBytes, hdecode]
    simp only [handleProbe_of_refusal hreason]

end Agent

section Example

/-- The wire format of probe requests. -/
local instance requestWire : Bincode ProbeRequest := .ofCodec ProbeRequest.codec

/-- The wire format of probe replies. -/
local instance replyWire : Bincode ProbeReply := .ofCodec ProbeReply.codec

/-- A `ce_cap` that takes no text for a chain. -/
local instance chainless : CeCap where
  Chain := Empty
  decodeChain _ := .error "invalid chain"
  authorize _ _ _ _ _ _ chain _ := chain.elim

/-- A probe of the job `a`, without a grant. -/
def ungrantedProbe : List UInt8 := [1, 0, 0, 0, 0, 0, 0, 0, 97, 0, 0, 0, 0, 0, 0, 0, 0, 0]

/-- Without a grant one does not learn whether `a` runs. -/
theorem handleProbeBytes_ungranted :
    let authority : ProbeAuthority := ⟨Vector.replicate 32 1, [], [], 1000, fun _ _ ↦ false, true⟩
    handleProbeBytes (Vector.replicate 32 2) ungrantedProbe authority (fun _ ↦ some .running) =
      handleProbeBytes (Vector.replicate 32 2) ungrantedProbe authority fun _ ↦ none := by
  intro authority
  have hencode : (⟨"a", [], none⟩ : ProbeRequest).encode = .ok ungrantedProbe := rfl
  exact handleProbeBytes_of_refuses
    (Or.inr ⟨_, ProbeRequest.decode_of_encode hencode, Or.inr ⟨rfl, rfl⟩⟩) _ _

end Example

end CeGke
