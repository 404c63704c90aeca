import CeGke.Cli.Alike
import CeGke.CeDriver.Deploy

/-!
# Secrets

The values of the secrets go into the command that a host is sent, and nowhere else.  Of two
sessions that differ in these values alone, on a node whose answers do not depend on the commands
it is sent, both print the same and leave the same state file (`secrets_not_in_state`).
-/

namespace CeGke

variable {σ : Type}

/-! ## What is sent to a host -/

/-- The same bid, up to the command. -/
def BidSpec.SameBut (spec spec' : BidSpec) : Prop :=
  { spec with cmd := [] } = { spec' with cmd := [] }

/-- Both fail with the same text, or neither fails. -/
def SameOutcome {α β : Type} (x : Except String α) (y : Except String β) : Prop :=
  x.map (fun _ ↦ ()) = y.map fun _ ↦ ()

theorem SameOutcome.bind {α β α' β' : Type} {x : Except String α} {y : Except String β}
    {f : α → Except String α'} {g : β → Except String β'} (h : SameOutcome x y)
    (hfg : ∀ a b, SameOutcome (f a) (g b)) : SameOutcome (x >>= f) (y >>= g) := by
  cases x with
  | error e =>
      cases y with
      | error e' => exact h
      | ok b => exact nomatch h
  | ok a =>
      cases y with
      | error e => exact nomatch h
      | ok b => exact hfg a b

section Alike

variable {secrets secrets' : SecretStore} (h : secrets.Alike secrets')

include h

/-- Whether the loop over the environment fails does not depend on the values. -/
theorem Deployment.assignments_alike (name : String) (env : List EnvVar) :
    SameOutcome (assignments name secrets.get env) (assignments name secrets'.get env) := by
  induction env with
  | nil => rfl
  | cons e env ih =>
      have hrest : ∀ value value' : String,
          SameOutcome (assignments name secrets.get env >>= fun kvs ↦ pure (e.asKv value :: kvs))
            (assignments name secrets'.get env >>= fun kvs ↦ pure (e.asKv value' :: kvs)) :=
        fun _ _ ↦ ih.bind fun _ _ ↦ rfl
      rw [assignments, assignments]
      cases e.valueFrom with
      | none => exact hrest e.value e.value
      | some secretRef =>
          have hknown := SecretStore.alike_iff.mp h secretRef.secret
          simp only
          cases hvalue : secrets.get secretRef.secret with
          | none =>
              rw [hvalue, Option.isSome_none, eq_comm, Option.isSome_eq_false_iff,
                Option.isNone_iff_eq_none] at hknown
              rw [hknown]
              rfl
          | some value =>
              rw [hvalue, Option.isSome_some, eq_comm, Option.isSome_iff_exists] at hknown
              obtain ⟨value', hvalue'⟩ := hknown
              rw [hvalue']
              exact hrest value value'

theorem Deployment.effectiveCommand_alike (d : Deployment) :
    SameOutcome (d.effectiveCommand secrets.get) (d.effectiveCommand secrets'.get) := by
  unfold effectiveCommand
  split_ifs
  · rfl
  · refine SameOutcome.bind rfl fun _ _ ↦ ?_
    exact (assignments_alike h d.name d.env).bind fun _ _ ↦ rfl

/-- A bid is made with both or fails with the same text, and but for the command it is the
same. -/
theorem bidSpec_alike (d : Deployment) :
    (∃ e, bidSpec secrets.get d = .error e ∧ bidSpec secrets'.get d = .error e) ∨
      ∃ spec spec', bidSpec secrets.get d = .ok spec ∧ bidSpec secrets'.get d = .ok spec' ∧
        spec.SameBut spec' := by
  have houtcome := d.effectiveCommand_alike h
  unfold bidSpec
  cases hcmd : d.effectiveCommand secrets.get with
  | error e =>
      cases hcmd' : d.effectiveCommand secrets'.get with
      | error e' =>
          rw [hcmd, hcmd'] at houtcome
          obtain rfl : e = e' := Except.error.inj houtcome
          exact Or.inl ⟨e, rfl, rfl⟩
      | ok cmd' =>
          rw [hcmd, hcmd'] at houtcome
          exact nomatch houtcome
  | ok cmd =>
      cases hcmd' : d.effectiveCommand secrets'.get with
      | error e =>
          rw [hcmd, hcmd'] at houtcome
          exact nomatch houtcome
      | ok cmd' => exact Or.inr ⟨_, _, rfl, rfl, rfl⟩

end Alike

/-! ## What comes back -/

section Session

variable {rest : MeshDriver σ} {meshDeploy : MeshDeploy σ} {R : σ → σ → Prop}

/-- A node that does not let the commands it is sent show in its answers: `R` relates the states
that it treats alike. -/
structure Discreet (rest : MeshDriver σ) (meshDeploy : MeshDeploy σ) (R : σ → σ → Prop) :
    Prop where
  rest : rest.Alike rest R
  meshDeploy : ∀ {s t spec spec'} nodeId grant, spec.SameBut spec' → R s t →
    Agree R (meshDeploy nodeId spec grant s) (meshDeploy nodeId spec' grant t)

/-- The driver answers alike whatever the secrets are worth. -/
theorem Discreet.withBids (h : Discreet rest meshDeploy R) {secrets secrets' : SecretStore}
    (hsecrets : secrets.Alike secrets') :
    (rest.withBids secrets.get meshDeploy).Alike (rest.withBids secrets'.get meshDeploy) R where
  atlas := h.rest.atlas
  deploy {s t} nodeId d grant hst := by
    simp only [MeshDriver.withBids]
    rcases bidSpec_alike hsecrets d with ⟨e, hbid, hbid'⟩ | ⟨spec, spec', hbid, hbid', hsame⟩
    · rw [hbid, hbid']
      exact ⟨rfl, hst⟩
    · rw [hbid, hbid']
      exact h.meshDeploy nodeId grant hsame hst
  kill := h.rest.kill
  phase := h.rest.phase
  advertiseService := h.rest.advertiseService
  serviceReady := h.rest.serviceReady

variable [Sha256]

/-- **The secrets stay out of the state file.**  On a node that does not let the commands show in
its answers, two sessions that differ in the values of the secrets alone, from the start or as they
are set, print the same and leave the same state file and the same names of secrets. -/
theorem secrets_not_in_state (h : Discreet rest meshDeploy R) {ops ops' : List Op}
    (hops : List.Forall₂ Op.Alike ops ops') {w w' : World σ} (hw : World.Alike R w w') :
    let node := fun secrets : SecretStore ↦ rest.withBids secrets.get meshDeploy
    (runSession node ops w).1 = (runSession node ops' w').1 ∧
      (runSession node ops w).2.file = (runSession node ops' w').2.file ∧
      (runSession node ops w).2.secrets.names = (runSession node ops' w').2.secrets.names := by
  obtain ⟨hprinted, hworlds⟩ := runSession_alike (fun hsecrets ↦ h.withBids hsecrets) hops hw
  exact ⟨hprinted, hworlds.file, hworlds.secrets⟩

end Session

section Example

/-- A mesh that writes down the commands it is sent. -/
def writingDriver : MeshDriver (List String × List (List String)) where
  atlas s := ((scriptedDriver.atlas s.1).1, s)
  deploy _ _ _ s := (.error "host full", s)
  kill _ _ _ s := (.ok (), s)
  phase _ _ _ _ s := (.ok .running, s)
  advertiseService _ s := (.ok (), s)
  serviceReady _ s := (.ok .healthy, s)

/-- Each job it is sent it takes, and names it by the next id. -/
def writingDeploy : MeshDeploy (List String × List (List String))
  | _, spec, _, (job :: jobs, cmds) => (.ok job, (jobs, cmds ++ [spec.cmd]))
  | _, spec, _, ([], cmds) => (.error "host full", ([], cmds ++ [spec.cmd]))

theorem discreet_writing : Discreet writingDriver writingDeploy fun s t ↦ s.1 = t.1 where
  rest :=
    { atlas := fun h ↦ ⟨rfl, h⟩
      deploy := fun _ _ _ h ↦ ⟨rfl, h⟩
      kill := fun _ _ _ h ↦ ⟨rfl, h⟩
      phase := fun _ _ _ _ h ↦ ⟨rfl, h⟩
      advertiseService := fun _ h ↦ ⟨rfl, h⟩
      serviceReady := fun _ h ↦ ⟨rfl, h⟩ }
  meshDeploy {s t spec spec'} nodeId grant _ h := by
    obtain ⟨jobs, cmds⟩ := s
    obtain ⟨jobs', cmds'⟩ := t
    obtain rfl : jobs = jobs' := h
    cases jobs with
    | nil => exact ⟨rfl, rfl⟩
    | cons job jobs => exact ⟨rfl, rfl⟩

/-- A password is set and a deployment applied that is given it. -/
def passwordOps (password : String) : List Op :=
  [.secret (.ok "") (.set "db" password),
    .command {} (fun _ ↦ ⟨none, fun _ _ ↦ none, fun _ ↦ ""⟩) (fun _ _ ↦ 0)
      (.apply (.ok (.single (.ok
        { name := "web", nameSpace := "default", image := "nginx", replicas := 1
          command := ["nginx"], env := [{ name := "DB", valueFrom := some ⟨"db"⟩ }] })))),
    .secret (.ok "") .ls]

/-- What becomes of it. -/
def passwordSession (password : String) :
    List Outcome × World (List String × List (List String)) :=
  @runSession _ Deployment.nginxSha256
    (fun secrets ↦ writingDriver.withBids secrets.get writingDeploy) (passwordOps password)
    { mesh := (["a", "b"], []) }

/-- Two passwords: the mesh is told, the state file is not. -/
theorem secrets_not_in_state_password :
    (passwordSession "hunter2").2.mesh.2 = [["env", "DB=hunter2", "nginx"]] ∧
      (passwordSession "swordfish").2.mesh.2 = [["env", "DB=swordfish", "nginx"]] ∧
      (passwordSession "hunter2").1 = (passwordSession "swordfish").1 ∧
      (passwordSession "hunter2").2.file = (passwordSession "swordfish").2.file := by
  have hops : List.Forall₂ Op.Alike (passwordOps "hunter2") (passwordOps "swordfish") :=
    .cons (.secret (fun _ ↦ Iff.rfl) (.set "db" (by decide)))
      (.cons (.command _ _ _ _) (.cons (.secret (fun _ ↦ Iff.rfl) .ls) .nil))
  obtain ⟨hprinted, hfile, -⟩ := @secrets_not_in_state _ writingDriver writingDeploy _
    Deployment.nginxSha256 discreet_writing _ _ hops { mesh := (["a", "b"], []) }
    { mesh := (["a", "b"], []) } ⟨rfl, rfl, rfl⟩
  exact ⟨by decide +kernel, by decide +kernel, hprinted, hfile⟩

end Example

end CeGke
