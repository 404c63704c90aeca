import CeGke.Spec

/-!
# The effective command

`Deployment::effective_command` of `src/spec.rs`: the environment of a deployment is put in front
of its command, as the arguments of `env`.  What starts on the host is what `env` makes of these:
its arguments are assignments up to the first one without a `=`, so a command whose first word
has one is taken for an assignment (`envRun_effectiveCommand_iff`).
-/

namespace CeGke

/-! ## `env` -/

/-- `str::split_once('=')`, on the characters. -/
def splitAtEq : List Char → Option (List Char × List Char)
  | [] => none
  | c :: cs => if c = '=' then some ([], cs) else (splitAtEq cs).map fun p ↦ (c :: p.1, p.2)

/-- An argument that is an assignment, as the name and the value. -/
def splitAssignment (arg : String) : Option (String × String) :=
  (splitAtEq arg.toList).map fun p ↦ (String.ofList p.1, String.ofList p.2)

/-- The leading assignments among the arguments of `env`, and the program with its own. -/
def envArgs : List String → List (String × String) × List String
  | [] => ([], [])
  | arg :: args =>
      match splitAssignment arg with
      | some kv => (kv :: (envArgs args).1, (envArgs args).2)
      | none => ([], arg :: args)

/-- What a command vector starts if it is a call of `env`: the variables that are set, and the
program with its arguments. -/
def envRun : List String → Option (List (String × String) × List String)
  | "env" :: args => some (envArgs args)
  | _ => none

theorem splitAtEq_append {name : List Char} (h : '=' ∉ name) (value : List Char) :
    splitAtEq (name ++ '=' :: value) = some (name, value) := by
  induction name with
  | nil => rfl
  | cons c name ih =>
      rw [List.mem_cons, not_or] at h
      rw [List.cons_append, splitAtEq, if_neg (Ne.symm h.1), ih h.2, Option.map_some]

theorem splitAtEq_eq_none {cs : List Char} : splitAtEq cs = none ↔ '=' ∉ cs := by
  induction cs with
  | nil => simp [splitAtEq]
  | cons c cs ih =>
      rw [splitAtEq, List.mem_cons, not_or, ← ih, @eq_comm _ '=']
      split_ifs with hc
      · simp [hc]
      · simp [hc]

/-- An argument without a `=` is no assignment. -/
theorem splitAssignment_eq_none {arg : String} :
    splitAssignment arg = none ↔ '=' ∉ arg.toList := by
  rw [splitAssignment, Option.map_eq_none_iff, splitAtEq_eq_none]

/-- Nothing is taken for an assignment exactly where the first argument is none. -/
theorem envArgs_eq_self {args : List String} :
    envArgs args = ([], args) ↔ ∀ arg ∈ args.head?, '=' ∉ arg.toList := by
  cases args with
  | nil => simp [envArgs]
  | cons arg args =>
      simp only [List.head?_cons, Option.mem_def, Option.some.injEq, forall_eq', envArgs]
      rw [← splitAssignment_eq_none]
      cases splitAssignment arg with
      | none => simp
      | some kv => simp

/-! ## The command with its environment -/

namespace EnvVar

/-- `EnvVar::as_kv`. -/
def asKv (e : EnvVar) (resolved : String) : String := s!"{e.name}={resolved}"

/-- The value of a variable, if its secret is known. -/
def resolved (resolveSecret : String → Option String) (e : EnvVar) : Option String :=
  match e.valueFrom with
  | some secretRef => resolveSecret secretRef.secret
  | none => some e.value

/-- What an assignment of the variable is read back as. -/
theorem splitAssignment_asKv {e : EnvVar} (h : '=' ∉ e.name.toList) (value : String) :
    splitAssignment (e.asKv value) = some (e.name, value) := by
  have htext : (e.asKv value).toList = e.name.toList ++ '=' :: value.toList := by
    have happend : e.asKv value = e.name ++ "=" ++ value := rfl
    rw [happend, String.toList_append, String.toList_append, List.append_assoc]
    rfl
  rw [splitAssignment, htext, splitAtEq_append h, Option.map_some, String.ofList_toList,
    String.ofList_toList]

/-- A name that is accepted has no `=` in it. -/
theorem eq_notMem_name {e : EnvVar} (h : e.validate = .ok ()) : '=' ∉ e.name.toList := by
  simp only [validate, bind_eq_ok, bailIf_eq_ok, exists_const, not_not, List.all_eq_true] at h
  obtain ⟨-, -, hchars, -⟩ := h
  exact fun hmem ↦ absurd (hchars '=' hmem) (by decide)

end EnvVar

namespace Deployment

/-- The loop over `env` in `Deployment::effective_command`. -/
def assignments (name : String) (resolveSecret : String → Option String) :
    List EnvVar → Except String (List String)
  | [] => .ok []
  | e :: env => do
      let value ←
        match e.valueFrom with
        | some secretRef =>
            match resolveSecret secretRef.secret with
            | some value => .ok value
            | none => .error <|
                s!"deployment '{name}': env '{e.name}' references unknown secret " ++
                  s!"'{secretRef.secret}'"
        | none => .ok e.value
      return e.asKv value :: (← assignments name resolveSecret env)

/-- `Deployment::effective_command`. -/
def effectiveCommand (d : Deployment) (resolveSecret : String → Option String) :
    Except String (List String) :=
  if d.env = [] then .ok d.command
  else do
    bailIf (d.command = []) <|
      s!"deployment '{d.name}': env vars require an explicit `command` " ++
        "(cannot wrap an image entrypoint with env injection)"
    return "env" :: (← assignments d.name resolveSecret d.env) ++ d.command

/-- The resolver knows every secret that the environment refers to. -/
def KnowsSecrets (d : Deployment) (resolveSecret : String → Option String) : Prop :=
  ∀ e ∈ d.env, (e.resolved resolveSecret).isSome

instance (d : Deployment) (resolveSecret : String → Option String) :
    Decidable (d.KnowsSecrets resolveSecret) := inferInstanceAs (Decidable (∀ e ∈ d.env, _))

/-- The variables with their values. -/
def resolvedEnv (d : Deployment) (resolveSecret : String → Option String) :
    List (String × String) :=
  d.env.map fun e ↦ (e.name, (e.resolved resolveSecret).getD "")

variable {resolveSecret : String → Option String} {d : Deployment}

theorem assignments_eq_ok {name : String} {env : List EnvVar}
    (h : ∀ e ∈ env, (e.resolved resolveSecret).isSome) :
    assignments name resolveSecret env =
      .ok (env.map fun e ↦ e.asKv ((e.resolved resolveSecret).getD "")) := by
  induction env with
  | nil => rfl
  | cons e env ih =>
      rw [List.forall_mem_cons] at h
      obtain ⟨value, hvalue⟩ := Option.isSome_iff_exists.mp h.1
      rw [assignments, ih h.2, List.map_cons, hvalue, Option.getD_some]
      rw [EnvVar.resolved] at hvalue
      cases hfrom : e.valueFrom with
      | none =>
          rw [hfrom] at hvalue
          obtain rfl := Option.some.inj hvalue
          rfl
      | some secretRef =>
          rw [hfrom] at hvalue
          simp only [hvalue]
          rfl

/-- The command that is sent where there is one. -/
theorem effectiveCommand_eq_ok (hknows : d.KnowsSecrets resolveSecret) (henv : d.env ≠ [])
    (hcommand : d.command ≠ []) :
    d.effectiveCommand resolveSecret =
      .ok ("env" :: (d.env.map fun e ↦ e.asKv ((e.resolved resolveSecret).getD "")) ++
        d.command) := by
  rw [effectiveCommand, if_neg henv, assignments_eq_ok hknows, bailIf, if_neg hcommand]
  rfl

/-- There is a command to send exactly where the environment is empty or the command is not. -/
theorem exists_effectiveCommand_iff (hknows : d.KnowsSecrets resolveSecret) :
    (∃ cmd, d.effectiveCommand resolveSecret = .ok cmd) ↔ d.env = [] ∨ d.command ≠ [] := by
  by_cases henv : d.env = []
  · exact iff_of_true ⟨d.command, if_pos henv⟩ (Or.inl henv)
  · by_cases hcommand : d.command = []
    · refine iff_of_false ?_ (by simp [henv, hcommand])
      rintro ⟨cmd, hcmd⟩
      rw [effectiveCommand, if_neg henv] at hcmd
      obtain ⟨_, hbail, -⟩ := bind_eq_ok.mp hcmd
      exact bailIf_eq_ok.mp hbail hcommand
    · exact iff_of_true ⟨_, effectiveCommand_eq_ok hknows henv hcommand⟩ (Or.inr hcommand)

/-- What `env` reads off the assignments and what follows them. -/
theorem envArgs_assignments {env : List EnvVar} (h : ∀ e ∈ env, '=' ∉ e.name.toList)
    (value : EnvVar → String) (command : List String) :
    envArgs (env.map (fun e ↦ e.asKv (value e)) ++ command) =
      (env.map (fun e ↦ (e.name, value e)) ++ (envArgs command).1, (envArgs command).2) := by
  induction env with
  | nil => rfl
  | cons e env ih =>
      rw [List.forall_mem_cons] at h
      rw [List.map_cons, List.cons_append, envArgs, EnvVar.splitAssignment_asKv h.1, ih h.2]
      rfl

/-- Every variable that is accepted passes its own check. -/
theorem validate_of_validateEnv {name : String} {seen : List String} {env : List EnvVar}
    (h : validateEnv name seen env = .ok ()) : ∀ e ∈ env, e.validate = .ok () := by
  induction env generalizing seen with
  | nil => exact fun e he ↦ absurd he List.not_mem_nil
  | cons e env ih =>
      obtain ⟨_, he, h⟩ := bind_eq_ok.mp h
      obtain ⟨_, -, h⟩ := bind_eq_ok.mp h
      exact List.forall_mem_cons.mpr ⟨he, ih h⟩

/-- **The wrapper means what the spec says** exactly when the first word of the command has no
`=` in it. -/
theorem envRun_effectiveCommand_iff (hvalid : d.validate = .ok ())
    (hknows : d.KnowsSecrets resolveSecret) (henv : d.env ≠ []) (hcommand : d.command ≠ []) :
    (∃ v, d.effectiveCommand resolveSecret = .ok v ∧
      envRun v = some (d.resolvedEnv resolveSecret, d.command)) ↔
        ∀ word ∈ d.command.head?, '=' ∉ word.toList := by
  have hnames : ∀ e ∈ d.env, '=' ∉ e.name.toList := fun e he ↦
    EnvVar.eq_notMem_name (validate_of_validateEnv (validate_eq_ok.mp hvalid).env_ok e he)
  have hargs := envArgs_assignments hnames (fun e ↦ (e.resolved resolveSecret).getD "") d.command
  simp only [effectiveCommand_eq_ok hknows henv hcommand, Except.ok.injEq, exists_eq_left',
    List.cons_append, envRun, Option.some.injEq, hargs]
  rw [← envArgs_eq_self, resolvedEnv, Prod.mk.injEq, List.append_right_eq_self]
  exact ⟨fun h ↦ Prod.ext h.1 h.2, fun h ↦ ⟨congrArg Prod.fst h, congrArg Prod.snd h⟩⟩

section Example

/-- A deployment with a variable, and a command of these words. -/
def withVariable (command : List String) : Deployment where
  name := "web"
  nameSpace := "default"
  image := "nginx"
  command
  env := [{ name := "PORT", value := "80" }]

/-- A program that has a `=` in its name is taken for one more variable. -/
theorem envRun_effectiveCommand_shifts :
    (withVariable ["./a=b", "run"]).validate = .ok () ∧
      (withVariable ["./a=b", "run"]).effectiveCommand (fun _ ↦ none) =
        .ok ["env", "PORT=80", "./a=b", "run"] ∧
      envRun ["env", "PORT=80", "./a=b", "run"] =
        some ([("PORT", "80"), ("./a", "b")], ["run"]) ∧
      ¬ ∃ v, (withVariable ["./a=b", "run"]).effectiveCommand (fun _ ↦ none) = .ok v ∧
        envRun v = some ((withVariable ["./a=b", "run"]).resolvedEnv (fun _ ↦ none),
          ["./a=b", "run"]) := by
  have hcommand : (withVariable ["./a=b", "run"]).effectiveCommand (fun _ ↦ none) =
      .ok ["env", "PORT=80", "./a=b", "run"] := by
    decide
  refine ⟨by decide, hcommand, by decide, ?_⟩
  rintro ⟨v, hv, hrun⟩
  obtain rfl := Except.ok.inj (hcommand.symm.trans hv)
  exact absurd hrun (by decide)

theorem envRun_effectiveCommand_nginx :
    ∃ v, (withVariable ["nginx", "-g"]).effectiveCommand (fun _ ↦ none) = .ok v ∧
      envRun v = some ([("PORT", "80")], ["nginx", "-g"]) :=
  (envRun_effectiveCommand_iff (d := withVariable ["nginx", "-g"]) (by decide) (by decide)
    (by decide) (by decide)).mpr (by decide)

end Example

end Deployment

end CeGke
