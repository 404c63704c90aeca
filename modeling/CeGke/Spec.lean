import Mathlib.Data.String.Basic
import Mathlib.Data.List.DropRight

/-!
# The deployment spec

The declarative desired state of `src/spec.rs`: what a `Deployment` holds, and
the checks `Deployment::validate` makes before anything touches the mesh.

Machine integers are Lean's fixed-width ones, an error is the text the source
bails with, and `name.len()` counts bytes as it does in Rust.  What is only read
by the serializer (`#[serde(...)]` defaults) is left out here.
-/

namespace CeGke

/-! ## Bounds -/

/-- `MAX_REPLICAS`: the ceiling on a deployment's replica count. -/
def maxReplicas : Nat := 4096

/-- `MAX_IMAGE_LEN`, in bytes. -/
def maxImageLen : Nat := 512

/-- `MAX_ENV_VARS`. -/
def maxEnvVars : Nat := 256

/-- `MAX_ENV_LEN`, in bytes. -/
def maxEnvLen : Nat := 32 * 1024

/-! ## Data -/

/-- `ce_rs::Amount`: a signed 128-bit count of base units. -/
@[ext]
structure Amount where
  base : BitVec 128 := 0
deriving DecidableEq, Repr

/-- Per-replica resource request. -/
@[ext]
structure Resources where
  cpuCores : UInt32 := 1
  memMb : UInt64 := 256
deriving DecidableEq, Repr

/-- How replicas are rolled when the pod template changes. -/
inductive Strategy where
  | rollingUpdate (maxUnavailable maxSurge : UInt32)
  | recreate
deriving DecidableEq, Repr

/-- Reference to a secret of the local secret store. -/
structure SecretRef where
  secret : String
deriving DecidableEq, Repr

/-- One environment variable: an inline value, or one resolved from a secret. -/
structure EnvVar where
  name : String
  value : String := ""
  valueFrom : Option SecretRef := none
deriving DecidableEq, Repr

/-- The check a `Probe` performs. -/
inductive ProbeKind where
  | exec (command : List String)
  | tcp (port : UInt16)
  | http (port : UInt16) (path : String)
deriving DecidableEq, Repr

/-- A health probe. -/
structure Probe where
  kind : ProbeKind
  successThreshold : UInt32 := 1
  failureThreshold : UInt32 := 3
  periodSecs : UInt64 := 10
deriving DecidableEq, Repr

/-- A dependency on another service, by its bare name. -/
structure DependencyRef where
  service : String
  healthy : Bool := false
deriving DecidableEq, Repr

/-- The desired state of one workload.  The defaults are those of
`#[derive(Default)]`, not the ones the manifest parser fills in. -/
structure Deployment where
  name : String := ""
  nameSpace : String := ""
  image : String := ""
  command : List String := []
  replicas : UInt32 := 0
  resources : Resources := {}
  select : List String := []
  bid : Amount := {}
  durationSecs : UInt64 := 0
  strategy : Strategy := .rollingUpdate 1 1
  env : List EnvVar := []
  liveness : Option Probe := none
  readiness : Option Probe := none
  service : String := ""
  dependsOn : List DependencyRef := []
deriving DecidableEq, Repr

/-! ## Fallible checks -/

/-- `if bad { bail!(msg) }`. -/
def bailIf (bad : Prop) [Decidable bad] (msg : String) : Except String Unit :=
  if bad then .error msg else .ok ()

@[simp] theorem bailIf_eq_ok {bad : Prop} [Decidable bad] {msg : String} {u : Unit} :
    bailIf bad msg = .ok u ↔ ¬ bad := by
  unfold bailIf
  split <;> simp_all

/-- A sequence of fallible steps ends well only if its first step does. -/
theorem bind_eq_ok {α β : Type} {x : Except String α} {f : α → Except String β} {b : β} :
    x >>= f = .ok b ↔ ∃ a, x = .ok a ∧ f a = .ok b := by
  cases x with
  | error e => simp [bind, Except.bind]
  | ok a => simp [bind, Except.bind]

theorem mapError_eq_ok {α : Type} {x : Except String α} {f : String → String} {a : α} :
    x.mapError f = .ok a ↔ x = .ok a := by
  cases x with
  | error e => simp [Except.mapError]
  | ok b => simp [Except.mapError]

/-! ## Validation -/

/-- `validate_name`: 1-63 bytes of `a-z`, `0-9` and hyphen, no hyphen at either end. -/
def validateName (name : String) : Except String Unit := do
  bailIf (name = "" ∨ name.utf8ByteSize > 63) s!"name '{name}' must be 1-63 characters"
  bailIf (name.toList.head? = some '-' ∨ name.toList.getLast? = some '-')
    s!"name '{name}' must not start or end with a hyphen"
  bailIf (¬ name.toList.all fun c ↦ c.isLower || c.isDigit || c == '-')
    s!"name '{name}' may only contain lowercase letters, digits, and hyphens"

/-- `char::is_whitespace`: the code points with the Unicode property `White_Space`. -/
def isWhitespace (c : Char) : Bool :=
  let v := c.toNat
  (9 ≤ v && v ≤ 13) || v == 0x20 || v == 0x85 || v == 0xA0 || v == 0x1680 ||
    (0x2000 ≤ v && v ≤ 0x200A) || v == 0x2028 || v == 0x2029 || v == 0x202F ||
    v == 0x205F || v == 0x3000

/-- `str::trim`, on the characters. -/
def trim (cs : List Char) : List Char :=
  (cs.dropWhile isWhitespace).rdropWhile isWhitespace

/-- The characters an image reference may hold. -/
def isImageChar (c : Char) : Bool :=
  c.isAlphanum || c == '.' || c == '_' || c == '-' || c == '/' || c == ':' || c == '@'

/-- A character as `{:?}` writes it, between single quotes.  Of the characters it takes for
not printable these are the controls. -/
def debugChar (c : Char) : String :=
  let escaped :=
    if c = '\x00' then "\\0"
    else if c = '\t' then "\\t"
    else if c = '\n' then "\\n"
    else if c = '\r' then "\\r"
    else if c = '\\' then "\\\\"
    else if c = '\'' then "\\'"
    else if c.toNat < 0x20 ∨ (0x7F ≤ c.toNat ∧ c.toNat < 0xA0) then
      "\\u\x7b" ++ String.ofList (Nat.toDigits 16 c.toNat) ++ "\x7d"
    else c.toString
  "'" ++ escaped ++ "'"

/-- `validate_image`.  The checks are made on the trimmed text. -/
def validateImage (image : String) : Except String Unit := do
  let img := String.ofList (trim image.toList)
  bailIf (img = "") "image must not be empty"
  bailIf (img.utf8ByteSize > maxImageLen) s!"image reference exceeds {maxImageLen} bytes"
  match img.toList.find? fun c ↦ !isImageChar c with
  | some bad => .error <|
      s!"image '{img}' contains an invalid character {debugChar bad} " ++
        "(allowed: a-z A-Z 0-9 . _ - / : @)"
  | none => .ok ()

/-- `EnvVar::validate`. -/
def EnvVar.validate (e : EnvVar) : Except String Unit := do
  bailIf (e.name = "" ∨ e.name.utf8ByteSize > maxEnvLen)
    s!"env var name must be 1-{maxEnvLen} chars"
  bailIf (¬ (e.name.toList.head?.map fun c ↦ c.isAlpha || c == '_').getD false)
    s!"env var '{e.name}': name must start with a letter or underscore"
  bailIf (¬ e.name.toList.all fun c ↦ c.isAlphanum || c == '_')
    s!"env var '{e.name}': name may only contain letters, digits, and underscores"
  bailIf (e.value.utf8ByteSize > maxEnvLen)
    s!"env var '{e.name}': value exceeds {maxEnvLen} bytes"
  bailIf (e.value ≠ "" ∧ e.valueFrom.isSome)
    s!"env var '{e.name}': set either an inline value or value_from, not both"

/-- `Probe::validate`. -/
def Probe.validate (p : Probe) : Except String Unit := do
  bailIf (p.successThreshold = 0 ∨ p.failureThreshold = 0) "probe thresholds must be >= 1"
  match p.kind with
  | .exec command => bailIf (command = []) "exec probe needs a non-empty command"
  | .tcp port | .http port _ => bailIf (port = 0) "probe port must be non-zero"

/-- `Probe::check_command`: a connection or a request is checked by a small shell command. -/
def Probe.checkCommand (p : Probe) : List String :=
  match p.kind with
  | .exec command => command
  | .tcp port =>
      ["sh", "-c",
        s!"(exec 3<>/dev/tcp/127.0.0.1/{port}) 2>/dev/null || nc -z 127.0.0.1 {port}"]
  | .http port path =>
      ["sh", "-c",
        s!"wget -q -O /dev/null http://127.0.0.1:{port}{path} || " ++
          s!"curl -fsS http://127.0.0.1:{port}{path} -o /dev/null"]

/-- A probe that may be absent, its error prefixed with the name of its field. -/
def validateProbe (what : String) : Option Probe → Except String Unit
  | none => .ok ()
  | some p => p.validate.mapError fun e ↦ s!"{what} probe: {e}"

/-- The check of `service`; the empty name means no service. -/
def validateService (service : String) : Except String Unit :=
  if service = "" then .ok ()
  else (validateName service).mapError fun e ↦ s!"service name invalid: {e}"

/-- The loop over `env` in `Deployment::validate`; `seen` holds the names so far. -/
def validateEnv (name : String) (seen : List String) : List EnvVar → Except String Unit
  | [] => .ok ()
  | e :: env => do
      e.validate
      bailIf (e.name ∈ seen) s!"deployment '{name}': duplicate env var '{e.name}'"
      validateEnv name (e.name :: seen) env

/-- The loop over `depends_on` in `Deployment::validate`. -/
def validateDeps (name service : String) (seen : List String) :
    List DependencyRef → Except String Unit
  | [] => .ok ()
  | dep :: deps => do
      (validateName dep.service).mapError fun e ↦
        s!"deployment '{name}': depends_on service invalid: {e}"
      bailIf (dep.service = service)
        s!"deployment '{name}': cannot depend on its own service '{dep.service}'"
      bailIf (dep.service ∈ seen)
        s!"deployment '{name}': duplicate dependency on '{dep.service}'"
      validateDeps name service (dep.service :: seen) deps

namespace Deployment

/-- `Deployment::validate`: the first problem found. -/
def validate (d : Deployment) : Except String Unit := do
  validateName d.name
  (validateName d.nameSpace).mapError fun e ↦ s!"namespace invalid: {e}"
  validateImage d.image
  bailIf (d.replicas.toNat > maxReplicas)
    s!"deployment '{d.name}': replicas {d.replicas} exceeds the {maxReplicas} ceiling"
  bailIf (d.resources.cpuCores = 0) s!"deployment '{d.name}': cpu_cores must be >= 1"
  bailIf (d.resources.memMb = 0) s!"deployment '{d.name}': mem_mb must be >= 1"
  bailIf (d.bid.base.toInt < 0) s!"deployment '{d.name}': bid must not be negative"
  bailIf (d.strategy = .rollingUpdate 0 0) <|
    s!"deployment '{d.name}': rolling update needs max_unavailable>0 or max_surge>0 " ++
      "(else it can never progress)"
  bailIf (d.env.length > maxEnvVars)
    s!"deployment '{d.name}': {d.env.length} env vars exceeds the {maxEnvVars} cap"
  validateEnv d.name [] d.env
  validateProbe "liveness" d.liveness
  validateProbe "readiness" d.readiness
  validateService d.service
  validateDeps d.name d.service [] d.dependsOn

/-- What `validate` checks, one field a check. -/
structure Valid (d : Deployment) : Prop where
  name_ok : validateName d.name = .ok ()
  nameSpace_ok : validateName d.nameSpace = .ok ()
  image_ok : validateImage d.image = .ok ()
  replicas_le : d.replicas.toNat ≤ maxReplicas
  cpuCores_ne : d.resources.cpuCores ≠ 0
  memMb_ne : d.resources.memMb ≠ 0
  bid_nonneg : 0 ≤ d.bid.base.toInt
  strategy_ne : d.strategy ≠ .rollingUpdate 0 0
  env_length_le : d.env.length ≤ maxEnvVars
  env_ok : validateEnv d.name [] d.env = .ok ()
  liveness_ok : validateProbe "liveness" d.liveness = .ok ()
  readiness_ok : validateProbe "readiness" d.readiness = .ok ()
  service_ok : validateService d.service = .ok ()
  dependsOn_ok : validateDeps d.name d.service [] d.dependsOn = .ok ()

/-- A deployment is accepted exactly when every check passes. -/
theorem validate_eq_ok {d : Deployment} : d.validate = .ok () ↔ d.Valid := by
  simp only [validate, bind_eq_ok, bailIf_eq_ok, mapError_eq_ok, exists_const, not_lt,
    gt_iff_lt, ← ne_eq]
  constructor
  · rintro ⟨_, h1, _, h2, _, h3, h4, h5, h6, h7, h8, h9, _, h10, _, h11, _, h12, _, h13, h14⟩
    exact ⟨h1, h2, h3, h4, h5, h6, h7, h8, h9, h10, h11, h12, h13, h14⟩
  · rintro ⟨h1, h2, h3, h4, h5, h6, h7, h8, h9, h10, h11, h12, h13, h14⟩
    exact ⟨_, h1, _, h2, _, h3, h4, h5, h6, h7, h8, h9, _, h10, _, h11, _, h12, _, h13, h14⟩

/-- The thresholds of a liveness probe are not zero. -/
theorem Valid.failureThreshold_ne {d : Deployment} (h : d.Valid) {p : Probe}
    (hprobe : d.liveness = some p) : p.failureThreshold ≠ 0 := by
  have hok : p.validate.mapError (fun e ↦ s!"liveness probe: {e}") = .ok () := by
    have hliveness := h.liveness_ok
    rw [hprobe] at hliveness
    exact hliveness
  rw [mapError_eq_ok, Probe.validate, bind_eq_ok] at hok
  obtain ⟨_, hthresholds, _⟩ := hok
  exact fun hzero ↦ bailIf_eq_ok.mp hthresholds (Or.inr hzero)

/-- The store key: `namespace/name`. -/
def key (d : Deployment) : String := s!"{d.nameSpace}/{d.name}"

/-- The service name the healthy replica set advertises, if any. -/
def serviceName (d : Deployment) : Option String :=
  if d.service = "" then none else some s!"ce-gke/{d.nameSpace}/{d.service}"

/-- The loop of `required_tags`: `tags` grows by the entries it does not hold yet. -/
def addTags (tags : List String) : List String → List String
  | [] => tags
  | t :: select => addTags (if t ∈ tags then tags else tags ++ [t]) select

/-- The self-tags a host must advertise: `docker` and the `select` tags. -/
def requiredTags (d : Deployment) : List String := addTags ["docker"] d.select

end Deployment

/-- The name a dependency is resolved under, given the dependent's namespace. -/
def DependencyRef.resolvedServiceName (dep : DependencyRef) (nameSpace : String) : String :=
  s!"ce-gke/{nameSpace}/{dep.service}"

end CeGke
