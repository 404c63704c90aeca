import CeGke.Cli
import CeGke.Command
import CeGke.Image

/-!
# Deploys of the mesh driver

`CeDriver::bid_spec` and `CeDriver::deploy` of `src/driver.rs`.  What a host is sent is built from
the deployment and the secret store first, and where that fails no host is asked: the controller
sees a deploy that failed like any other, on every host.  The validation before an apply does not
look for it (`deployable_iff`).
-/

namespace CeGke

variable {σ : Type}

/-- `ce_rs::BidSpec`. -/
structure BidSpec where
  image : String
  cmd : List String
  cpuCores : UInt32
  memMb : UInt64
  durationSecs : UInt64
  bid : Amount
deriving DecidableEq, Repr

/-- `CeClient::mesh_deploy`, given the host, the job and the grant. -/
abbrev MeshDeploy (σ : Type) := String → BidSpec → Option String → σ → Except String String × σ

/-- `CeDriver::bid_spec`; `secrets` looks a secret up. -/
def bidSpec (secrets : String → Option String) (d : Deployment) : Except String BidSpec := do
  let cmd ← d.effectiveCommand secrets
  return {
    image := d.image
    cmd
    cpuCores := d.resources.cpuCores
    memMb := d.resources.memMb
    durationSecs := d.durationSecs
    bid := d.bid }

/-- The bid of a deployment whose command is known. -/
theorem exists_bidSpec {secrets : String → Option String} {d : Deployment} {cmd : List String}
    (h : d.effectiveCommand secrets = .ok cmd) :
    ∃ spec, bidSpec secrets d = .ok spec ∧ spec.cmd = cmd := by
  refine ⟨_, bind_eq_ok.mpr ⟨cmd, h, rfl⟩, rfl⟩

/-- The image that a host is sent of an accepted deployment is a reference, unless it is one with
white space around it. -/
theorem inRegistryGrammar_bidSpec_iff {secrets : String → Option String} {d : Deployment}
    {spec : BidSpec} (hvalid : d.validate = .ok ()) (hspec : bidSpec secrets d = .ok spec) :
    InRegistryGrammar spec.image ↔ ¬ Padded d.image := by
  obtain ⟨cmd, -, hspec⟩ := bind_eq_ok.mp hspec
  obtain rfl := Except.ok.inj hspec
  have haccepted := validateImage_eq_ok_iff.mp (Deployment.validate_eq_ok.mp hvalid).image_ok
  exact ⟨fun h hpadded ↦ hpadded.not_inRegistryGrammar h, fun h ↦ haccepted.resolve_right h⟩

/-- The driver `rest` with the deploys of `CeDriver::deploy`. -/
def MeshDriver.withBids (rest : MeshDriver σ) (secrets : String → Option String)
    (meshDeploy : MeshDeploy σ) : MeshDriver σ :=
  { rest with
    deploy := fun nodeId d grant s ↦
      match bidSpec secrets d with
      | .error e => (.error e, s)
      | .ok spec => meshDeploy nodeId spec grant s }

section Deployable

variable (rest : MeshDriver σ) (secrets : String → Option String) (meshDeploy : MeshDeploy σ)
  {d : Deployment}

/-- The deployment can be deployed: there is a command, and a deploy is what the host makes of
the bid. -/
structure Deployable (d : Deployment) : Prop where
  command : ∃ cmd, d.effectiveCommand secrets = .ok cmd
  reaches : ∃ spec, bidSpec secrets d = .ok spec ∧ ∀ nodeId grant s,
    (rest.withBids secrets meshDeploy).deploy nodeId d grant s = meshDeploy nodeId spec grant s

/-- **A deployment can be deployed** exactly when it has a command or no environment, provided
that its secrets are known. -/
theorem deployable_iff (hknows : d.KnowsSecrets secrets) :
    Deployable rest secrets meshDeploy d ↔ d.env = [] ∨ d.command ≠ [] := by
  rw [← Deployment.exists_effectiveCommand_iff hknows]
  constructor
  · exact fun h ↦ h.command
  · rintro ⟨cmd, hcmd⟩
    obtain ⟨spec, hspec, -⟩ := exists_bidSpec hcmd
    refine ⟨⟨cmd, hcmd⟩, spec, hspec, fun nodeId grant s ↦ ?_⟩
    simp only [MeshDriver.withBids, hspec]

end Deployable

section Example

/-- A deployment of the image's own entrypoint, with a variable. -/
def entrypoint : Deployment where
  name := "web"
  nameSpace := "default"
  image := "nginx:2"
  replicas := 1
  env := [{ name := "PORT", value := "80" }]

/-- A mesh of one host that takes every job it is sent. -/
def willing : MeshDriver (List String) :=
  scriptedDriver.withBids (fun _ ↦ none) fun nodeId _ grant jobs ↦
    scriptedDriver.deploy nodeId entrypoint grant jobs

/-- `entrypoint` is applied over a deployment with a running replica. -/
def applyEntrypoint : Ended (List String) :=
  @Cli.applyOne _ Deployment.nginxSha256 {} willing (fun _ _ ↦ 0)
    ⟨none, fun _ _ ↦ none, fun _ ↦ ""⟩ entrypoint
    { store :=
        { deployments := Lib.SortedMap.empty.insert "default/web"
            { spec := { entrypoint with image := "nginx", env := [] }
              replicas := [⟨"a", "n", "9154645cdccb2449", .running⟩] } }
      mesh := ["b"] }

/-- It is accepted and cannot be deployed: the replica that ran is stopped and no other takes its
place, and the apply ends well. -/
theorem deployable_fails :
    entrypoint.validate = .ok () ∧ entrypoint.KnowsSecrets (fun _ ↦ none) ∧
      (¬ ∃ cmd, entrypoint.effectiveCommand (fun _ ↦ none) = .ok cmd) ∧
      applyEntrypoint.1 = .ok () ∧
      (applyEntrypoint.2.store.get "default/web").map (fun m ↦ (m.spec, m.replicas)) =
        some (entrypoint, []) ∧
      applyEntrypoint.2.mesh = ["b"] := by
  refine ⟨by decide, by decide, ?_, by decide +kernel, by decide +kernel, by decide +kernel⟩
  exact (Deployment.exists_effectiveCommand_iff (by decide)).not.mpr (by decide)

/-- With a command it can be deployed. -/
theorem deployable_command :
    Deployable scriptedDriver (fun _ ↦ none) (fun _ _ _ jobs ↦ (.ok "b", jobs))
      { entrypoint with command := ["nginx"] } :=
  (deployable_iff _ _ _ (by decide)).mpr (by decide)

end Example

end CeGke
