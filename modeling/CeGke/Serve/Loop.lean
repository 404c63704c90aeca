import CeGke.Auth

/-!
# The loop of the health agent

`serve_cmd` of `src/main.rs`: poll the node of the host for messages and answer each probe from
the node's job list.  The list is asked for anew for every message, and where the node does not
give it an empty one takes its place: of a job that is not in the list the agent says that it
failed (`neverCondemns_iff`).

The node answers from outside, message by message; whether a reply is delivered is left out.
-/

namespace CeGke

open Lib

variable {τ : Type}

/-! ## What the loop reads -/

/-- A message of the mesh, as far as the loop reads it; `τ` is the type of reply tokens. -/
structure AppMessage (τ : Type) where
  topic : String
  sender : String
  replyToken : Option τ
  payload : Except String (List UInt8)

/-- A job of the node's list. -/
structure JobRecord where
  jobId : String
  status : String
deriving DecidableEq, Repr

/-- A node of the atlas. -/
structure TaggedNode where
  nodeId : String
  tags : List String
deriving DecidableEq, Repr

/-- The node of the host as the agent comes to a message: what jobs it has and what tags it
advertises, and what it answers when it is asked for them. -/
structure HostNode where
  table : List JobRecord
  tags : List String
  listing : Except String Unit
  atlas : Except String (List TaggedNode)
  now : UInt64

/-- What `ce.jobs()` gives. -/
def HostNode.jobs (host : HostNode) : Except String (List JobRecord) :=
  host.listing.map fun _ ↦ host.table

/-- A message, and the node as the agent comes to it. -/
structure ProbeTurn (τ : Type) where
  message : AppMessage τ
  host : HostNode

/-- The map that the loop makes of a job list; of two entries with one id the last one stays. -/
def nodeJobs (jobs : List JobRecord) : JobSource := fun job ↦
  (jobs.reverse.find? fun j ↦ j.jobId = job).map fun j ↦ Phase.fromJobStatus j.status

/-- `status_tags`. -/
def statusTags (atlas : Except String (List TaggedNode)) (selfId : String) : List String :=
  ((atlas.toOption.bind fun nodes ↦ nodes.find? fun e ↦ e.nodeId = selfId).map
    TaggedNode.tags).getD []

/-! ## The loop -/

/-- What `serve_cmd` finds out before its loop. -/
structure ServeAgent where
  nodeId : String
  selfId : NodeId
  isRevoked : NodeId → UInt64 → Bool
  requireGrant : Bool

/-- A reply that is sent, and the turn it is sent in. -/
structure SentReply (τ : Type) where
  turn : ProbeTurn τ
  token : τ
  bytes : List UInt8

namespace ServeAgent

/-- `serve_cmd` before its loop, given what the node says of its status and of the revoked
capabilities. -/
def start (status : Except String String) (revoked : Except String (List (String × UInt64)))
    (requireGrant : Bool) : Except String ServeAgent :=
  match status with
  | .error _ => .error "querying node status"
  | .ok nodeId =>
      match parseNodeId nodeId with
      | none => .error "node returned an invalid node id"
      | some selfId => .ok {
          nodeId
          selfId
          isRevoked := fun issuer nonce ↦
            (revoked.toOption.getD []).any fun r ↦ r.1 = hexEncode issuer.toList ∧ r.2 = nonce
          requireGrant }

/-- What the agent judges a request by. -/
def authority (agent : ServeAgent) (selfTags : List String) (now : UInt64) : ProbeAuthority where
  selfId := agent.selfId
  acceptedRoots := []
  selfTags
  now
  isRevoked := agent.isRevoked
  requireGrant := agent.requireGrant

section Serve

variable [CeCap] [Bincode ProbeRequest] [Bincode ProbeReply]

/-- One turn of the inner loop of `serve_cmd`: the reply that is sent, if any. -/
def answer (agent : ServeAgent) (t : ProbeTurn τ) : Option (SentReply τ) :=
  if t.message.topic ≠ probeTopic then none
  else
    match t.message.replyToken with
    | none => none
    | some token =>
        match t.message.payload with
        | .error _ => none
        | .ok payload =>
            match parseNodeId t.message.sender with
            | none => none
            | some requester =>
                let source := nodeJobs (t.host.jobs.toOption.getD [])
                let authority := agent.authority (statusTags t.host.atlas agent.nodeId) t.host.now
                match handleProbeBytes requester payload authority source with
                | .ok bytes => some { turn := t, token, bytes }
                | .error _ => none

/-- The loop of `serve_cmd` over what its polls give. -/
def loop (agent : ServeAgent) : List (Except String (List (ProbeTurn τ))) → List (SentReply τ)
  | [] => []
  | .error _ :: polls => agent.loop polls
  | .ok turns :: polls => turns.filterMap agent.answer ++ agent.loop polls

theorem turn_of_answer {agent : ServeAgent} {t : ProbeTurn τ} {sent : SentReply τ}
    (h : agent.answer t = some sent) : sent.turn = t := by
  rw [answer, Option.ite_none_left_eq_some] at h
  obtain ⟨-, h⟩ := h
  split at h
  · exact nomatch h
  · split at h
    · exact nomatch h
    · split at h
      · exact nomatch h
      · simp only at h
        split at h
        · obtain rfl := Option.some.inj h
          rfl
        · exact nomatch h

/-- A reply is sent in the turn that it answers. -/
theorem mem_loop {agent : ServeAgent} {polls : List (Except String (List (ProbeTurn τ)))}
    {sent : SentReply τ} :
    sent ∈ agent.loop polls ↔
      ∃ turns, .ok turns ∈ polls ∧ ∃ t ∈ turns, agent.answer t = some sent := by
  induction polls with
  | nil => simp [loop]
  | cons poll polls ih =>
      cases poll with
      | error e => simp [loop, ih]
      | ok turns =>
          rw [loop, List.mem_append, List.mem_filterMap, ih]
          constructor
          · rintro (⟨t, ht, hsent⟩ | ⟨turns', hturns', h⟩)
            · exact ⟨turns, List.mem_cons_self, t, ht, hsent⟩
            · exact ⟨turns', List.mem_cons_of_mem _ hturns', h⟩
          · rintro ⟨turns', hturns', t, ht, hsent⟩
            rcases List.mem_cons.mp hturns' with heq | hturns'
            · obtain rfl := Except.ok.inj heq
              exact Or.inl ⟨t, ht, hsent⟩
            · exact Or.inr ⟨turns', hturns', t, ht, hsent⟩

/-! ## Verdicts on live jobs -/

/-- The message is a probe, `req`, of the requester. -/
structure Asks (t : ProbeTurn τ) (requester : NodeId) (req : ProbeRequest) : Prop where
  topic : t.message.topic = probeTopic
  token : ∃ token, t.message.replyToken = some token
  payload : ∃ payload, t.message.payload = .ok payload ∧ ProbeRequest.decode payload = .ok req
  sender : parseNodeId t.message.sender = some requester

/-- The message is a probe that the tags of the host let the requester make, of a job that is
pending or running there. -/
structure AsksOfLive (agent : ServeAgent) (t : ProbeTurn τ) (requester : NodeId)
    (req : ProbeRequest) : Prop extends Asks t requester req where
  admits : (agent.authority t.host.tags t.host.now).Admits requester req.grant
  live : ∃ phase, nodeJobs t.host.table req.jobId = some phase ∧ phase.isAlive

/-- No reply of the loop fails a job that is live and that the requester may ask for. -/
def NeverCondemns (agent : ServeAgent) (polls : List (Except String (List (ProbeTurn τ)))) : Prop :=
  ∀ sent ∈ agent.loop polls, ∀ requester req, agent.AsksOfLive sent.turn requester req →
    ∀ reply, ProbeReply.decode sent.bytes = .ok reply →
      reply.phase ≠ .failed ∧ reply.effectivePhase ≠ .failed

/-- The node gives its job list, the job id is one that is looked up, and the request is admitted
by the tags that the atlas shows of the host. -/
structure Heeds (agent : ServeAgent) (t : ProbeTurn τ) (requester : NodeId) (req : ProbeRequest) :
    Prop where
  listed : t.host.listing = .ok ()
  validJob : ValidJobId req.jobId
  admits : (agent.authority (statusTags t.host.atlas agent.nodeId) t.host.now).Admits requester
    req.grant

/-- The tags that the atlas shows of the host do not admit the request, and the text that says so
does not fit into a message. -/
def RefusesSilently (agent : ServeAgent) (t : ProbeTurn τ) (requester : NodeId)
    (req : ProbeRequest) : Prop :=
  ∃ reason, (agent.authority (statusTags t.host.atlas agent.nodeId) t.host.now).refusal requester
    req.grant = some reason ∧ ∀ bytes, (ProbeReply.failed reason).encode ≠ .ok bytes

/-- `bincode` writes the two short replies that fail a job of an admitted request. -/
structure WritesFailures : Prop where
  unknownJob : ∃ bytes, (⟨.failed, none, "host does not know this job"⟩ : ProbeReply).encode =
    .ok bytes
  invalidJobId : ∃ bytes, (ProbeReply.failed "invalid job id").encode = .ok bytes

variable {agent : ServeAgent} {t : ProbeTurn τ} {requester : NodeId} {req : ProbeRequest}

/-- A probe is answered by the handler, from the job list as the node gives it. -/
theorem Asks.answer_eq (h : Asks t requester req) (agent : ServeAgent) :
    ∃ token, agent.answer t =
      match (handleProbe requester req
        (agent.authority (statusTags t.host.atlas agent.nodeId) t.host.now)
        (nodeJobs (t.host.jobs.toOption.getD []))).encode with
      | .ok bytes => some { turn := t, token, bytes }
      | .error _ => none := by
  obtain ⟨token, htoken⟩ := h.token
  obtain ⟨payload, hpayload, hdecode⟩ := h.payload
  refine ⟨token, ?_⟩
  rw [answer, if_neg (not_not_intro h.topic)]
  simp only [htoken, hpayload, h.sender, handleProbeBytes, hdecode]

/-- A reply that can be written is sent. -/
theorem Asks.exists_answer (h : Asks t requester req) (agent : ServeAgent) {reply : ProbeReply}
    {bytes : List UInt8} (hreply : handleProbe requester req
      (agent.authority (statusTags t.host.atlas agent.nodeId) t.host.now)
      (nodeJobs (t.host.jobs.toOption.getD [])) = reply) (hbytes : reply.encode = .ok bytes) :
    ∃ token, agent.answer t = some { turn := t, token, bytes } := by
  obtain ⟨token, hanswer⟩ := h.answer_eq agent
  rw [hreply, hbytes] at hanswer
  exact ⟨token, hanswer⟩

/-- The reply that is sent is the handler's. -/
theorem Asks.decode_answer (h : Asks t requester req) {sent : SentReply τ}
    (hsent : agent.answer t = some sent) :
    sent.turn = t ∧ ProbeReply.decode sent.bytes = .ok (handleProbe requester req
      (agent.authority (statusTags t.host.atlas agent.nodeId) t.host.now)
      (nodeJobs (t.host.jobs.toOption.getD []))) := by
  obtain ⟨token, hanswer⟩ := h.answer_eq agent
  rw [hanswer] at hsent
  split at hsent
  · rename_i bytes hencode
    obtain rfl := Option.some.inj hsent
    exact ⟨rfl, ProbeReply.decode_of_encode hencode⟩
  · exact nomatch hsent

omit [Bincode ProbeRequest] [Bincode ProbeReply] in
/-- The handler's reply where the job list is given. -/
theorem Heeds.handleProbe_eq (h : agent.Heeds t requester req) {phase : Phase}
    (hphase : nodeJobs t.host.table req.jobId = some phase) :
    handleProbe requester req
      (agent.authority (statusTags t.host.atlas agent.nodeId) t.host.now)
      (nodeJobs (t.host.jobs.toOption.getD [])) = { phase } := by
  have hjobs : t.host.jobs.toOption.getD [] = t.host.table := by
    rw [HostNode.jobs, h.listed]
    rfl
  rw [handleProbe, ProbeAuthority.refusal_eq_none.mpr h.admits, hjobs]
  simp only [← not_validJobId, if_neg (not_not_intro h.validJob), hphase]

omit [Bincode ProbeRequest] [Bincode ProbeReply] in
/-- The handler fails the job of an admitted request that is not heeded. -/
theorem handleProbe_of_not_heeds
    (hadmits : (agent.authority (statusTags t.host.atlas agent.nodeId) t.host.now).Admits requester
      req.grant) (h : ¬ agent.Heeds t requester req) :
    handleProbe requester req
        (agent.authority (statusTags t.host.atlas agent.nodeId) t.host.now)
        (nodeJobs (t.host.jobs.toOption.getD [])) = .failed "invalid job id" ∨
      handleProbe requester req
        (agent.authority (statusTags t.host.atlas agent.nodeId) t.host.now)
        (nodeJobs (t.host.jobs.toOption.getD [])) =
          ⟨.failed, none, "host does not know this job"⟩ := by
  rw [handleProbe, ProbeAuthority.refusal_eq_none.mpr hadmits]
  simp only [← not_validJobId]
  by_cases hvalid : ValidJobId req.jobId
  · obtain ⟨e, hlisting⟩ : ∃ e, t.host.listing = .error e := by
      cases hlisting : t.host.listing with
      | ok u => exact absurd ⟨hlisting, hvalid, hadmits⟩ h
      | error e => exact ⟨e, rfl⟩
    have hjobs : t.host.jobs = .error e := by
      rw [HostNode.jobs, hlisting]
      rfl
    rw [if_neg (not_not_intro hvalid), hjobs]
    exact Or.inr rfl
  · rw [if_pos hvalid]
    exact Or.inl rfl

/-- In one turn: a live job is spared exactly where the table is heeded or nothing is sent. -/
theorem AsksOfLive.spares_iff (hwrites : WritesFailures)
    (h : agent.AsksOfLive t requester req) :
    (∀ sent, agent.answer t = some sent → ∀ reply, ProbeReply.decode sent.bytes = .ok reply →
      reply.phase ≠ .failed ∧ reply.effectivePhase ≠ .failed) ↔
        agent.Heeds t requester req ∨ agent.RefusesSilently t requester req := by
  obtain ⟨phase, hphase, halive⟩ := h.live
  constructor
  · intro hspares
    have hfailed : ∀ reply bytes, handleProbe requester req
        (agent.authority (statusTags t.host.atlas agent.nodeId) t.host.now)
        (nodeJobs (t.host.jobs.toOption.getD [])) = reply → reply.phase = .failed →
          reply.encode ≠ .ok bytes := by
      intro reply bytes hreply hphase hbytes
      obtain ⟨token, hsent⟩ := h.exists_answer agent hreply hbytes
      exact (hspares _ hsent _ (ProbeReply.decode_of_encode hbytes)).1 hphase
    cases hrefusal : (agent.authority (statusTags t.host.atlas agent.nodeId)
        t.host.now).refusal requester req.grant with
    | some reason =>
        exact Or.inr ⟨reason, hrefusal, fun bytes ↦
          hfailed _ bytes (handleProbe_of_refusal hrefusal _) rfl⟩
    | none =>
        by_contra hnot
        have hadmits := ProbeAuthority.refusal_eq_none.mp hrefusal
        rcases handleProbe_of_not_heeds hadmits (not_or.mp hnot).1 with hreply | hreply
        · obtain ⟨bytes, hbytes⟩ := hwrites.invalidJobId
          exact hfailed _ bytes hreply rfl hbytes
        · obtain ⟨bytes, hbytes⟩ := hwrites.unknownJob
          exact hfailed _ bytes hreply rfl hbytes
  · rintro (hheeds | ⟨reason, hrefusal, hsilent⟩) sent hsent reply hreply
    · obtain ⟨-, hdecode⟩ := h.decode_answer hsent
      rw [hheeds.handleProbe_eq hphase] at hdecode
      obtain rfl := Except.ok.inj (hreply.symm.trans hdecode)
      have hne : phase ≠ .failed := by
        rintro rfl
        exact absurd halive Bool.false_ne_true
      exact ⟨hne, hne⟩
    · obtain ⟨token, hanswer⟩ := h.answer_eq agent
      rw [handleProbe_of_refusal hrefusal] at hanswer
      rw [hanswer] at hsent
      split at hsent
      · rename_i bytes hbytes
        exact absurd hbytes (hsilent bytes)
      · cases hsent

/-- **A listing error is no verdict** exactly where there is none: in a run of the loop no live
job is failed if and only if every request for one is heeded or refused in silence. -/
theorem neverCondemns_iff (hwrites : WritesFailures) (agent : ServeAgent)
    (polls : List (Except String (List (ProbeTurn τ)))) :
    agent.NeverCondemns polls ↔
      ∀ turns, .ok turns ∈ polls → ∀ t ∈ turns, ∀ requester req,
        agent.AsksOfLive t requester req →
          agent.Heeds t requester req ∨ agent.RefusesSilently t requester req := by
  constructor
  · intro h turns hturns t ht requester req hasks
    refine (hasks.spares_iff hwrites).mp fun sent hsent reply hreply ↦ ?_
    obtain ⟨hturn, -⟩ := hasks.decode_answer hsent
    exact h sent (mem_loop.mpr ⟨turns, hturns, t, ht, hsent⟩) requester req (hturn ▸ hasks) reply
      hreply
  · intro h sent hsent requester req hasks reply hreply
    obtain ⟨turns, hturns, t, ht, hanswer⟩ := mem_loop.mp hsent
    rw [turn_of_answer hanswer] at hasks
    exact (hasks.spares_iff hwrites).mpr (h turns hturns t ht requester req hasks) sent hanswer
      reply hreply

end Serve

section Example

/-- The wire format of probe requests. -/
local instance loopRequests : Bincode ProbeRequest := requestWire

/-- The wire format of probe replies. -/
local instance loopReplies : Bincode ProbeReply := replyWire

/-- A `ce_cap` that takes no text for a chain. -/
local instance loopChains : CeCap := chainless

theorem writesFailures_wire : WritesFailures := ⟨⟨_, rfl⟩, ⟨_, rfl⟩⟩

theorem decode_ungrantedProbe : ProbeRequest.decode ungrantedProbe = .ok ⟨"a", [], none⟩ := by
  have hencode : (⟨"a", [], none⟩ : ProbeRequest).encode = .ok ungrantedProbe := rfl
  exact ProbeRequest.decode_of_encode hencode

/-- The agent of a host that asks for no grants. -/
def openAgent : ServeAgent where
  nodeId := hexEncode (Vector.replicate 32 1).toList
  selfId := Vector.replicate 32 1
  isRevoked _ _ := false
  requireGrant := false

/-- A probe of `a`, which runs; the node gives its job list or does not. -/
def probeOfRunning (listing : Except String Unit) : ProbeTurn Unit where
  message := {
    topic := probeTopic
    sender := hexEncode (Vector.replicate 32 2).toList
    replyToken := some ()
    payload := .ok ungrantedProbe }
  host := {
    table := [⟨"a", "running"⟩]
    tags := []
    listing
    atlas := .ok []
    now := 1000 }

theorem asksOfLive_probeOfRunning (listing : Except String Unit) :
    openAgent.AsksOfLive (probeOfRunning listing) (Vector.replicate 32 2) ⟨"a", [], none⟩ where
  topic := rfl
  token := ⟨(), rfl⟩
  payload := ⟨ungrantedProbe, rfl, decode_ungrantedProbe⟩
  sender := parseNodeId_hexEncode _
  admits := rfl
  live := ⟨.running, rfl, rfl⟩

/-- The node does not give its job list once, and a running job is failed. -/
theorem neverCondemns_blip :
    openAgent.AsksOfLive (probeOfRunning (.error "timeout")) (Vector.replicate 32 2)
        ⟨"a", [], none⟩ ∧
      ¬ openAgent.NeverCondemns [.ok [probeOfRunning (.error "timeout")]] := by
  have hasks := asksOfLive_probeOfRunning (.error "timeout")
  refine ⟨hasks, fun h ↦ ?_⟩
  obtain ⟨bytes, hbytes⟩ := writesFailures_wire.unknownJob
  obtain ⟨token, hsent⟩ := hasks.exists_answer openAgent rfl hbytes
  have hmem := mem_loop.mpr ⟨_, List.mem_singleton_self _, _, List.mem_singleton_self _, hsent⟩
  exact (h _ hmem _ _ hasks _ (ProbeReply.decode_of_encode hbytes)).1 rfl

/-- It gives its job list, and the job is not failed. -/
theorem neverCondemns_listed : openAgent.NeverCondemns [.ok [probeOfRunning (.ok ())]] := by
  refine (neverCondemns_iff writesFailures_wire openAgent _).mpr ?_
  intro turns hturns t ht requester req hasks
  obtain rfl := Except.ok.inj (List.mem_singleton.mp hturns)
  obtain rfl := List.mem_singleton.mp ht
  obtain ⟨payload, hpayload, hdecode⟩ := hasks.payload
  obtain rfl := Except.ok.inj hpayload
  obtain rfl := Except.ok.inj (hdecode.symm.trans decode_ungrantedProbe)
  exact Or.inl ⟨rfl, by decide, rfl⟩

end Example

end ServeAgent

end CeGke
