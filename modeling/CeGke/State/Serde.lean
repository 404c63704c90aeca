import CeGke.Lib.Json
import CeGke.State
import Std.Data.String.ToInt

/-!
# The state file

What serde derives from the attributes of `src/spec.rs`, `src/reconcile.rs` and `src/state.rs`:
for every type its fields, with the defaults of those that may be absent and the values that are
not written.  A type with cases is a map with the case under `type`, and that of a probe stands
among the fields of the probe.  What `Store::save` writes, `Store::load` reads back
(`load_saved`).

The amounts are written by `ce_rs`, and the bytes by `serde_json`.
-/

namespace CeGke

open Lib

/-! ## The spec -/

/-- A list of texts. -/
def stringsCodec : JsonCodec (List String) := .list .string

namespace Resources

def fields : Fields Resources Resources :=
  Fields.pure mk
    |>.ap (.required "cpu_cores" .uint32 cpuCores) rfl
    |>.ap (.required "mem_mb" .uint64 memMb) rfl

def codec : JsonCodec Resources := fields.codec fun _ ↦ rfl

end Resources

namespace Strategy

/-- The fields of a rolling update; both default to `one`. -/
def rollingFields : Fields (UInt32 × UInt32) (UInt32 × UInt32) :=
  Fields.pure Prod.mk
    |>.ap (.default "max_unavailable" .uint32 1 Prod.fst) rfl
    |>.ap (.default "max_surge" .uint32 1 Prod.snd) rfl

/-- The cases by the names of `rename_all = "snake_case"`. -/
def variants : Variants Strategy :=
  ((Variants.case "rolling_update" rollingFields fun _ ↦ rfl).or
    (.case "recreate" (.pure ()) fun _ ↦ rfl) rfl).map
    (fun
      | .rollingUpdate maxUnavailable maxSurge => .inl (maxUnavailable, maxSurge)
      | .recreate => .inr ())
    (Sum.elim (fun p ↦ .rollingUpdate p.1 p.2) fun _ ↦ .recreate)
    fun s ↦ by cases s <;> rfl

def codec : JsonCodec Strategy := (variants.tagged "type" rfl).codec fun _ ↦ rfl

end Strategy

namespace SecretRef

def fields : Fields SecretRef SecretRef :=
  Fields.pure mk |>.ap (.required "secret" .string secret) rfl

def codec : JsonCodec SecretRef := fields.codec fun _ ↦ rfl

end SecretRef

namespace EnvVar

/-- An empty value and an absent reference are not written. -/
def fields : Fields EnvVar EnvVar :=
  Fields.pure mk
    |>.ap (.required "name" .string name) rfl
    |>.ap (.unlessBlank "value" value) rfl
    |>.ap (.unlessNone "value_from" SecretRef.codec nofun valueFrom) rfl

def codec : JsonCodec EnvVar := fields.codec fun _ ↦ rfl

end EnvVar

namespace ProbeKind

def execFields : Fields (List String) (List String) :=
  Fields.pure id |>.ap (.required "command" stringsCodec id) rfl

def tcpFields : Fields UInt16 UInt16 :=
  Fields.pure id |>.ap (.required "port" .uint16 id) rfl

def httpFields : Fields (UInt16 × String) (UInt16 × String) :=
  Fields.pure Prod.mk
    |>.ap (.required "port" .uint16 Prod.fst) rfl
    |>.ap (.default "path" .string "/" Prod.snd) rfl

/-- The cases by the names of `rename_all = "snake_case"`. -/
def variants : Variants ProbeKind :=
  ((Variants.case "exec" execFields fun _ ↦ rfl).or
    ((Variants.case "tcp" tcpFields fun _ ↦ rfl).or
      (.case "http" httpFields fun _ ↦ rfl) rfl) rfl).map
    (fun
      | .exec command => .inl command
      | .tcp port => .inr (.inl port)
      | .http port path => .inr (.inr (port, path)))
    (Sum.elim .exec (Sum.elim .tcp fun p ↦ .http p.1 p.2))
    fun k ↦ by cases k <;> rfl

/-- The case under `type`, beside its fields. -/
def fields : Fields ProbeKind ProbeKind := variants.tagged "type" rfl

end ProbeKind

namespace Probe

/-- The fields of the check are among those of the probe: `flatten`. -/
def fields : Fields Probe Probe :=
  Fields.pure mk
    |>.ap (ProbeKind.fields.flatten kind) rfl
    |>.ap (.default "success_threshold" .uint32 1 successThreshold) rfl
    |>.ap (.default "failure_threshold" .uint32 3 failureThreshold) rfl
    |>.ap (.default "period_secs" .uint64 10 periodSecs) rfl

def codec : JsonCodec Probe := fields.codec fun _ ↦ rfl

end Probe

namespace DependencyRef

def fields : Fields DependencyRef DependencyRef :=
  Fields.pure mk
    |>.ap (.required "service" .string service) rfl
    |>.ap (.default "healthy" .bool false healthy) rfl

def codec : JsonCodec DependencyRef := fields.codec fun _ ↦ rfl

end DependencyRef

namespace Deployment

/-- The fields with the defaults of the manifest, which are not those of `#[derive(Default)]`. -/
def fields (amount : JsonCodec Amount) : Fields Deployment Deployment :=
  Fields.pure mk
    |>.ap (.required "name" .string name) rfl
    |>.ap (.default "namespace" .string "default" nameSpace) rfl
    |>.ap (.required "image" .string image) rfl
    |>.ap (.default "command" stringsCodec [] command) rfl
    |>.ap (.required "replicas" .uint32 replicas) rfl
    |>.ap (.default "resources" Resources.codec {} resources) rfl
    |>.ap (.default "select" stringsCodec [] select) rfl
    |>.ap (.default "bid" amount {} bid) rfl
    |>.ap (.default "duration_secs" .uint64 3600 durationSecs) rfl
    |>.ap (.default "strategy" Strategy.codec (.rollingUpdate 1 1) strategy) rfl
    |>.ap (.unlessEmpty "env" EnvVar.codec env) rfl
    |>.ap (.unlessNone "liveness" Probe.codec nofun liveness) rfl
    |>.ap (.unlessNone "readiness" Probe.codec nofun readiness) rfl
    |>.ap (.unlessBlank "service" service) rfl
    |>.ap (.unlessEmpty "depends_on" DependencyRef.codec dependsOn) rfl

def codec (amount : JsonCodec Amount) : JsonCodec Deployment := (fields amount).codec fun _ ↦ rfl

end Deployment

/-- The fields of a check stand between those of its probe. -/
example : Probe.codec.encode { kind := .http 80 "/healthz" } = .obj
    [("type", .str "http"), ("port", .num 80), ("path", .str "/healthz"),
      ("success_threshold", .num 1), ("failure_threshold", .num 3), ("period_secs", .num 10)] :=
  rfl

/-! ## The store -/

/-- The phases by the names of `rename_all = "snake_case"`. -/
def Phase.codec : JsonCodec Phase :=
  JsonCodec.string.map
    (fun
      | .pending => "pending"
      | .running => "running"
      | .failed => "failed"
      | .succeeded => "succeeded")
    (fun s ↦
      if s = "pending" then some .pending
      else if s = "running" then some .running
      else if s = "failed" then some .failed
      else if s = "succeeded" then some .succeeded
      else none)
    fun p ↦ by cases p <;> rfl

namespace ReplicaState

def fields : Fields ReplicaState ReplicaState :=
  Fields.pure mk
    |>.ap (.required "job_id" .string jobId) rfl
    |>.ap (.required "node_id" .string nodeId) rfl
    |>.ap (.required "revision" .string revision) rfl
    |>.ap (.required "phase" Phase.codec phase) rfl

def codec : JsonCodec ReplicaState := fields.codec fun _ ↦ rfl

end ReplicaState

namespace ManagedDeployment

def fields (amount : JsonCodec Amount) : Fields ManagedDeployment ManagedDeployment :=
  Fields.pure mk
    |>.ap (.required "spec" (Deployment.codec amount) spec) rfl
    |>.ap (.default "replicas" (.list ReplicaState.codec) [] replicas) rfl
    |>.ap (.default "grant" (.option .string nofun) none grant) rfl
    |>.ap (.default "history" (.list (Deployment.codec amount)) [] history) rfl
    |>.ap (.default "paused" .bool false paused) rfl

def codec (amount : JsonCodec Amount) : JsonCodec ManagedDeployment :=
  (fields amount).codec fun _ ↦ rfl

end ManagedDeployment

namespace Store

/-- A store without a version is of the time before there were versions. -/
def fields (amount : JsonCodec Amount) : Fields Store Store :=
  Fields.pure mk
    |>.ap (.default "version" .uint32 0 version) rfl
    |>.ap (.default "deployments" (.sortedMap (ManagedDeployment.codec amount)) .empty deployments)
      rfl

def codec (amount : JsonCodec Amount) : JsonCodec Store := (fields amount).codec fun _ ↦ rfl

variable (amount : JsonCodec Amount)

/-- What `Store::save` writes: the store with the version of today. -/
def saved (store : Store) : Json :=
  let toWrite := { store with version := storeVersion }
  (codec amount).encode toWrite

/-- `Store::load` on what the file holds, if there is one. -/
def load (path : String) : Option Json → Except String Store
  | some v =>
      match (codec amount).decode v with
      | some store => .ok store.migrate
      | none => .error s!"state file {path} is corrupt"
  | none => .ok {}

/-- **Saving and loading a store** gives the store, with the version of today. -/
theorem load_saved (store : Store) (path : String) :
    load amount path (some (store.saved amount)) =
      .ok { store with version := storeVersion } := by
  simp only [load, saved, (codec amount).decode_encode]
  exact congrArg Except.ok (migrate_of_current rfl)

section Example

/-- Amounts in decimal digits. -/
def decimal : JsonCodec Amount :=
  JsonCodec.string.map (fun a ↦ a.base.toInt.repr)
    (fun s ↦ s.toInt?.map fun n ↦ ⟨BitVec.ofInt 128 n⟩)
    fun a ↦ by rw [Int.toInt?_repr, Option.map_some, BitVec.ofInt_toInt]

/-- A store of an older version, of one deployment with something in every field that may be
left out. -/
def probedWeb : Store where
  version := 0
  deployments := SortedMap.empty.insert "default/web"
    { spec :=
        { name := "web", nameSpace := "default", image := "nginx", replicas := 1
          strategy := .recreate
          env := [{ name := "PORT", value := "80" }, { name := "KEY", valueFrom := some ⟨"key"⟩ }]
          liveness := some { kind := .exec ["true"] }
          readiness := some { kind := .http 80 "" }
          service := "web", dependsOn := [{ service := "db", healthy := true }] }
      replicas := [⟨"a", "n", "9154645cdccb2449", .succeeded⟩]
      grant := some ""
      history := [{ name := "web", liveness := some { kind := .tcp 80 } }]
      paused := true }

/-- It comes back as one of this version. -/
theorem load_saved_probedWeb :
    load decimal "gke-state.json" (some (probedWeb.saved decimal)) =
      .ok { probedWeb with version := storeVersion } :=
  load_saved decimal probedWeb "gke-state.json"

end Example

end Store

end CeGke
