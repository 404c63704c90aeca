import CeGke.CeDriver
import CeGke.Controller.Retries

/-!
# Verdicts on a replica

A refresh sets the phase that the driver answers at once, only a driver error is counted
(`phase_refreshed`).  Over a `CeDriver` the answer to a probe that the agent of the host turned
down is a failure like any other, so a refresh heeds the host's table exactly when the agent
admits the probe (`heedsTable_iff`).
-/

namespace CeGke

variable {σ : Type}

/-- The host's table has the job as pending or running; otherwise it is unknown or terminal. -/
def HasLive (jobs : JobSource) (job : String) : Prop := ∃ p, jobs job = some p ∧ p.isAlive

namespace Controller

section Refresh

variable {driver : MeshDriver σ} {d : Deployment} {c : Controller} {s : σ}
  {before after : List ReplicaState} {r : ReplicaState}

/-- A replica whose job is its own has the phase that was answered for it, after a refresh. -/
theorem phase_refreshed (hc : c.replicas = before ++ r :: after)
    (hnodup : (jobIds c.replicas).Nodup) {p : Phase}
    (hanswer : (driver.phase r.nodeId r.jobId d.liveness c.grant
      (observePhases driver d.liveness c.grant before s).2).1 = .ok p) {q : ReplicaState}
    (hq : q ∈ c.refreshed driver d s) (hjob : q.jobId = r.jobId) : q.phase = p := by
  obtain ⟨r', _, _, hanswered, _⟩ := refreshed_of_heard hnodup hq
  refine (hanswered p ?_).1
  rw [hjob, heard_of_split hc hnodup, hanswer]
  rfl

end Refresh

/-! ## Verdicts over the probe protocol -/

section Probed

variable [Bincode ProbeRequest] [Bincode ProbeReply] [CeCap]

variable (driver : CeDriver σ) (rest : MeshDriver σ) (requester : NodeId)
  (authority : ProbeAuthority) (jobs : JobSource) (d : Deployment) (c : Controller) (s : σ)
  (before : List ReplicaState) (r : ReplicaState)

/-- What the driver answers for `r`, asked for after the replicas `before`. -/
def answer : Except String Phase :=
  (driver.phase r.nodeId r.jobId d.liveness c.grant
    (observePhases (driver.toMeshDriver rest) d.liveness c.grant before s).2).1

/-- The agent answers the probe of `r`. -/
def AnsweredFor : Prop :=
  driver.Answered requester authority jobs r.nodeId r.jobId d.liveness c.grant
    (observePhases (driver.toMeshDriver rest) d.liveness c.grant before s).2

/-- The refresh does not leave `r` failed. -/
def KeepsAlive : Prop :=
  ∀ q ∈ c.refreshed (driver.toMeshDriver rest) d s, q.jobId = r.jobId → q.phase ≠ .failed

/-- What a refresh concludes about `r` it takes from the host's table: a live job is not marked
failed, a probe that is turned down is no more than a miss, and a failure is answered only of
a job that is not live. -/
structure HeedsTable : Prop where
  kept : HasLive jobs r.jobId → c.KeepsAlive driver rest d s r
  rejection : ¬ authority.Admits requester c.grant →
    ∃ e, c.answer driver rest d s before r = .error e
  verdict : c.answer driver rest d s before r = .ok .failed → ¬ HasLive jobs r.jobId

variable {driver rest requester authority jobs d c s before r} {after : List ReplicaState}

/-- A probe that is turned down leaves the replica failed at once. -/
theorem phase_refreshed_of_refused
    (hanswered : c.AnsweredFor driver rest requester authority jobs d s before r)
    (hc : c.replicas = before ++ r :: after) (hnodup : (jobIds c.replicas).Nodup)
    (hrefused : ¬ (authority.Admits requester c.grant ∧ ValidJobId r.jobId)) {q : ReplicaState}
    (hq : q ∈ c.refreshed (driver.toMeshDriver rest) d s) (hjob : q.jobId = r.jobId) :
    q.phase = .failed :=
  phase_refreshed hc hnodup ((CeDriver.phase_of_answered_eq hanswered).2 hrefused) hq hjob

/-- A probe that is admitted does not, if the table has the job as live. -/
theorem keepsAlive_of_admitted
    (hanswered : c.AnsweredFor driver rest requester authority jobs d s before r)
    (hc : c.replicas = before ++ r :: after) (hnodup : (jobIds c.replicas).Nodup)
    (hadmitted : authority.Admits requester c.grant ∧ ValidJobId r.jobId)
    (hlive : HasLive jobs r.jobId) : c.KeepsAlive driver rest d s r := by
  intro q hq hjob hfailed
  have hphase := phase_refreshed hc hnodup
    ((CeDriver.phase_of_answered_eq hanswered).1 hadmitted) hq hjob
  obtain ⟨p, hp, halive⟩ := hlive
  rw [hfailed, hp, Option.getD_some] at hphase
  rw [← hphase] at halive
  exact absurd halive Bool.false_ne_true

/-- A refresh heeds the host's table exactly when the agent admits the probe. -/
theorem heedsTable_iff
    (hanswered : c.AnsweredFor driver rest requester authority jobs d s before r)
    (hc : c.replicas = before ++ r :: after) (hnodup : (jobIds c.replicas).Nodup) :
    (HasLive jobs r.jobId → (c.KeepsAlive driver rest d s r ↔
      authority.Admits requester c.grant ∧ ValidJobId r.jobId)) ∧
    (c.HeedsTable driver rest requester authority jobs d s before r ↔
      authority.Admits requester c.grant ∧ (ValidJobId r.jobId ∨ ¬ HasLive jobs r.jobId)) := by
  obtain ⟨hadmitted, hrefused⟩ := CeDriver.phase_of_answered_eq hanswered
  refine ⟨fun hlive ↦ ⟨fun hkept ↦ ?_, fun h ↦ ?_⟩, fun h ↦ ?_, ?_⟩
  · by_contra hnot
    obtain ⟨q, hq, hjob⟩ : ∃ q ∈ c.refreshed (driver.toMeshDriver rest) d s, q.jobId = r.jobId := by
      apply mem_jobIds.mp
      rw [jobIds_refreshed, hc]
      exact mem_jobIds.mpr ⟨r, by simp, rfl⟩
    exact hkept q hq hjob (phase_refreshed_of_refused hanswered hc hnodup hnot hq hjob)
  · exact keepsAlive_of_admitted hanswered hc hnodup h hlive
  · have hadmits : authority.Admits requester c.grant := by
      by_contra hnot
      obtain ⟨e, he⟩ := h.rejection hnot
      have hfailed := hrefused fun hboth ↦ hnot hboth.1
      exact absurd (he.symm.trans hfailed) (by simp)
    refine ⟨hadmits, or_iff_not_imp_left.mpr fun hid ↦ ?_⟩
    exact h.verdict (hrefused fun hboth ↦ hid hboth.2)
  · rintro ⟨hadmits, hid⟩
    refine ⟨fun hlive ↦ ?_, fun hnot ↦ absurd hadmits hnot, fun hfailed ↦ ?_⟩
    · have hvalid := hid.resolve_right (not_not.mpr hlive)
      exact keepsAlive_of_admitted hanswered hc hnodup ⟨hadmits, hvalid⟩ hlive
    · rcases hid with hid | hover
      · rintro ⟨p, hp, halive⟩
        have hphase := (hadmitted ⟨hadmits, hid⟩).symm.trans hfailed
        rw [hp, Option.getD_some, Except.ok.injEq] at hphase
        rw [hphase] at halive
        exact absurd halive Bool.false_ne_true
      · exact hover

end Probed

end Controller

section Example

/-- The wire format of the probe protocol. -/
local instance bincodeRequest : Bincode ProbeRequest := .ofCodec ProbeRequest.codec

/-- The wire format of its replies. -/
local instance bincodeReply : Bincode ProbeReply := .ofCodec ProbeReply.codec

/-- A `ce_cap` that takes no text for a chain. -/
local instance noChains : CeCap where
  Chain := Empty
  decodeChain _ := .error "invalid chain"
  authorize _ _ _ _ _ _ chain _ := chain.elim

/-- The orchestrator. -/
def orchestratorId : NodeId := Vector.replicate 32 2

/-- An agent that admits probes without a grant, or not. -/
def agentAuthority (requireGrant : Bool) : ProbeAuthority where
  selfId := Vector.replicate 32 1
  acceptedRoots := []
  selfTags := []
  now := 1000
  isRevoked _ _ := false
  requireGrant

/-- The table of a host on which `a` runs. -/
def runsA : JobSource := fun job ↦ if job = "a" then some .running else none

/-- A driver whose requests all reach the agent of that host. -/
def agentDriver (requireGrant : Bool) : CeDriver Unit where
  ce := {
    request _ _ payload _ s :=
      (handleProbeBytes orchestratorId payload (agentAuthority requireGrant) runsA, s)
    job _ s := (.error "no such job", s) }

/-- One replica of a web server. -/
def probedSpec : Deployment where
  name := "web"
  nameSpace := "default"
  image := "nginx"
  replicas := 1

/-- The replica, `a`. -/
def replicaA : ReplicaState := ⟨"a", "n", "9154645cdccb2449", .running⟩

/-- The deployment of that replica, controlled without a grant. -/
def probedWeb : Controller where
  replicas := [replicaA]

/-- The probe of `a` as it is sent. -/
def probeOfA : List UInt8 := [1, 0, 0, 0, 0, 0, 0, 0, 97, 0, 0, 0, 0, 0, 0, 0, 0, 0]

theorem encode_probeRequest : (probeRequest "a" none none).encode = .ok probeOfA := rfl

theorem probedWeb_answered (requireGrant : Bool) :
    probedWeb.AnsweredFor (agentDriver requireGrant) (stuckDriver []) orchestratorId
      (agentAuthority requireGrant) runsA probedSpec () [] replicaA := by
  obtain ⟨bytes, hbytes⟩ : ∃ bytes, handleProbeBytes orchestratorId probeOfA
      (agentAuthority requireGrant) runsA = .ok bytes := by
    rw [handleProbeBytes_of_encode encode_probeRequest]
    cases requireGrant
    · exact ⟨_, rfl⟩
    · exact ⟨_, rfl⟩
  exact ⟨probeOfA, bytes, encode_probeRequest, hbytes, hbytes⟩

theorem runsA_hasLive : HasLive runsA replicaA.jobId := ⟨.running, rfl, rfl⟩

/-- An agent that requires a grant turns the probe of a running replica down, and the first
refresh marks the replica failed. -/
theorem refusal_condemns :
    HasLive runsA replicaA.jobId ∧
      probedWeb.AnsweredFor (agentDriver true) (stuckDriver []) orchestratorId
        (agentAuthority true) runsA probedSpec () [] replicaA ∧
      (probedWeb.refreshed ((agentDriver true).toMeshDriver (stuckDriver [])) probedSpec ()) =
        [{ replicaA with phase := .failed }] ∧
      ¬ probedWeb.KeepsAlive (agentDriver true) (stuckDriver []) probedSpec () replicaA ∧
      ¬ probedWeb.HeedsTable (agentDriver true) (stuckDriver []) orchestratorId
        (agentAuthority true) runsA probedSpec () [] replicaA := by
  have hanswered := probedWeb_answered true
  have hrefused : ¬ ((agentAuthority true).Admits orchestratorId probedWeb.grant ∧
      ValidJobId replicaA.jobId) := fun h ↦ absurd h.1 Bool.noConfusion
  let mesh := (agentDriver true).toMeshDriver (stuckDriver [])
  have hphase : ∀ q ∈ probedWeb.refreshed mesh probedSpec (),
      q.jobId = replicaA.jobId → q.phase = .failed := by
    intro q hq hjob
    exact Controller.phase_refreshed_of_refused hanswered (List.nil_append _).symm
      (List.nodup_singleton _) hrefused hq hjob
  have hrefreshed : probedWeb.refreshed mesh probedSpec () =
      [{ replicaA with phase := .failed }] := by
    have hhandle := map_handle_refresh mesh probedSpec probedWeb ()
    obtain ⟨q, hq, hqhandle⟩ := List.map_eq_singleton_iff.mp hhandle
    change probedWeb.refreshed mesh probedSpec () = [q] at hq
    obtain ⟨job, node, revision, phase⟩ := q
    obtain ⟨rfl, rfl, rfl⟩ : job = "a" ∧ node = "n" ∧ revision = "9154645cdccb2449" := by
      simpa [ReplicaState.handle, replicaA] using hqhandle
    have hmem : { replicaA with phase } ∈ probedWeb.refreshed mesh probedSpec () := by
      rw [hq]
      exact List.mem_singleton_self _
    obtain rfl : phase = .failed := hphase _ hmem rfl
    exact hq
  have hkept : ¬ probedWeb.KeepsAlive (agentDriver true) (stuckDriver []) probedSpec ()
      replicaA := by
    intro hkept
    refine hkept { replicaA with phase := .failed } ?_ rfl rfl
    rw [hrefreshed]
    exact List.mem_singleton_self _
  exact ⟨runsA_hasLive, hanswered, hrefreshed, hkept, fun h ↦ hkept (h.kept runsA_hasLive)⟩

/-- An agent that requires none admits it. -/
theorem heedsTable_iff_ungranted :
    probedWeb.KeepsAlive (agentDriver false) (stuckDriver []) probedSpec () replicaA ∧
      probedWeb.HeedsTable (agentDriver false) (stuckDriver []) orchestratorId
        (agentAuthority false) runsA probedSpec () [] replicaA := by
  obtain ⟨hkept, hheeds⟩ := Controller.heedsTable_iff (probedWeb_answered false)
    (List.nil_append _).symm (List.nodup_singleton _)
  have hadmits : (agentAuthority false).Admits orchestratorId probedWeb.grant := rfl
  have hid : ValidJobId replicaA.jobId := by decide
  exact ⟨(hkept runsA_hasLive).mpr ⟨hadmits, hid⟩, hheeds.mpr ⟨hadmits, Or.inl hid⟩⟩

end Example

end CeGke
