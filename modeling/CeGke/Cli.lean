import Mathlib.Algebra.Group.Int.Defs
import CeGke.Daemon
import CeGke.Stack

/-!
# The commands

The mutating commands of `src/main.rs`: `apply` of a manifest or a stack, `scale`, the
`rollout` operations and `delete`, and the `main` that loads the state file before the
command and saves it after.

A command that fails leaves behind the mesh as it has changed it, but not its store:
`main` returns the error before it saves.  The node that answers the preflights and
the clock are given from outside, call by call.
-/

namespace CeGke

/-- The global options a command reads. -/
structure Cli where
  grant : Option String := none
  nameSpace : String := "default"
  maxTicks : UInt32 := 60
deriving DecidableEq, Repr

/-- What reading a manifest file and parsing it as YAML gives: a manifest with `apps:`
is a stack, any other a single deployment. -/
inductive Manifest where
  | single (parsed : Except String Deployment)
  | stack (parsed : Except String Stack)

/-- `RolloutOp`. -/
inductive RolloutOp where
  | status (name : String)
  | undo (name : String) (toRevision : Option String)
  | pause (name : String)
  | resume (name : String)
  | history (name : String)
deriving DecidableEq, Repr

/-- The commands that take the lock and save the store. -/
inductive Cmd where
  | apply (file : Except String Manifest)
  | scale (name : String) (replicas : UInt32)
  | rollout (op : RolloutOp)
  | delete (name : String) (force : Bool)

/-! ## Preflight -/

/-- `ce_rs::NodeStatus`, as far as the preflight reads it. -/
structure NodeStatus where
  nodeId : String
  balance : Amount
  free : Option Amount
deriving DecidableEq, Repr

/-- What a preflight is answered. -/
structure Preflight where
  /-- The status fetch; `none` if the node is unreachable. -/
  status : Option NodeStatus
  /-- Whether the token lets the node deploy; `none` if either does not parse. -/
  authorizes (token nodeId : String) : Option Bool
  /-- `Amount::credits`. -/
  credits : Amount → String

/-- `i128::saturating_mul`. -/
def saturatingMulI128 (a b : ℤ) : ℤ := max (-2 ^ 127) (min (2 ^ 127 - 1) (a * b))

/-- `preflight_checks`. -/
def Cli.preflightChecks (cli : Cli) (pre : Preflight) (spec : Deployment) :
    Except String Unit :=
  match pre.status with
  | none => .ok ()
  | some status => do
      bailIf (cli.grant.bind (pre.authorizes · status.nodeId) = some false) <|
        "grant preflight failed: the token does not authorize this node to deploy " ++
          "(check requester/expiry/action)"
      let need := saturatingMulI128 spec.bid.base.toInt spec.replicas.toNat
      let free := max (status.free.getD status.balance).base.toInt 0
      let (bid, needed, spendable) :=
        (pre.credits spec.bid, pre.credits ⟨.ofInt 128 need⟩, pre.credits ⟨.ofInt 128 free⟩)
      bailIf (spec.bid.base ≠ 0 ∧ spec.replicas > 0 ∧ need > free) <|
        s!"insufficient balance: {spec.replicas} replica(s) x {bid} credits = {needed} needed, " ++
          s!"but only {spendable} spendable"

/-! ## Reconciling to convergence -/

variable {σ : Type}

/-- What a command works on. -/
structure CliState (σ : Type) where
  store : Store
  mesh : σ
deriving DecidableEq

/-- What a command comes to: its result, and what it has made of the store and the mesh. -/
abbrev Ended (σ : Type) := Except String Unit × CliState σ

/-- The loop of `reconcile_to_convergence` from tick number `tick` on, with so many ticks
left in the budget.  The handles go into the store after every tick. -/
def tickLoop [Sha256] (driver : MeshDriver σ) (clock : ℕ → UInt64) (spec : Deployment)
    (key : String) : ℕ → ℕ → Controller → CliState σ → CliState σ
  | 0, _, _, p => p
  | left + 1, tick, ctrl, p =>
      let (report, ctrl, mesh) := ctrl.tick driver spec p.mesh (clock tick)
      let p := { store := p.store.setReplicas key ctrl.replicas, mesh }
      if report.done then p else tickLoop driver clock spec key left (tick + 1) ctrl p

/-- What composes and holds over each tick holds over the loop. -/
theorem tickLoop_of_tick [Sha256] {driver : MeshDriver σ} {clock : ℕ → UInt64} {spec : Deployment}
    {key : String} {R : CliState σ → CliState σ → Prop} (hrefl : ∀ p, R p p)
    (htrans : ∀ p q r, R p q → R q r → R p r)
    (htick : ∀ tick (ctrl : Controller) p, R p
      { store := p.store.setReplicas key (ctrl.tick driver spec p.mesh (clock tick)).2.1.replicas
        mesh := (ctrl.tick driver spec p.mesh (clock tick)).2.2 })
    (left tick : ℕ) (ctrl : Controller) (p : CliState σ) :
    R p (tickLoop driver clock spec key left tick ctrl p) := by
  induction left generalizing tick ctrl p with
  | zero => exact hrefl p
  | succ left ih =>
      rw [tickLoop]
      simp only
      split_ifs
      · exact htick tick ctrl p
      · exact htrans _ _ _ (htick tick ctrl p) (ih _ _ _)

namespace Cli

section Commands

variable [Sha256] (cli : Cli) (driver : MeshDriver σ) (preflights : ℕ → Preflight)
  (clock : String → ℕ → UInt64)

/-- `reconcile_to_convergence`; it succeeds whether or not it converges. -/
def reconcileToConvergence (key : String) (p : CliState σ) : Ended σ :=
  match p.store.get key with
  | none => (.error "deployment vanished", p)
  | some managed =>
      (.ok (), tickLoop driver (clock key) managed.spec key cli.maxTicks.toNat 0
        (managed.controller cli.grant) p)

/-! ## Apply -/

/-- The checks made on an app right before it is applied. -/
def check (pre : Preflight) (spec : Deployment) : Except String Unit := do
  spec.validate
  cli.preflightChecks pre spec

/-- Check an app, and on success store its spec and reconcile to it. -/
def applyOne (pre : Preflight) (spec : Deployment) (p : CliState σ) : Ended σ :=
  match cli.check pre spec with
  | .error e => (.error e, p)
  | .ok _ =>
      cli.reconcileToConvergence driver clock spec.key
        { p with store := p.store.upsert spec cli.grant }

/-- The loop of `apply_stack`, from the `i`-th app on: the first error ends it. -/
def applyApps : ℕ → List Deployment → CliState σ → Ended σ
  | _, [], p => (.ok (), p)
  | i, spec :: apps, p =>
      match cli.applyOne driver clock (preflights i) spec p with
      | (.error e, p) => (.error e, p)
      | (.ok _, p) => applyApps (i + 1) apps p

variable {cli driver preflights clock} in
/-- What composes and holds over the apply of each app holds over that of a stack. -/
theorem applyApps_of_applyOne {R : CliState σ → CliState σ → Prop} (hrefl : ∀ p, R p p)
    (htrans : ∀ p q r, R p q → R q r → R p r)
    (hone : ∀ i spec p, R p (cli.applyOne driver clock (preflights i) spec p).2) (i : ℕ)
    (apps : List Deployment) (p : CliState σ) :
    R p (cli.applyApps driver preflights clock i apps p).2 := by
  induction apps generalizing i p with
  | nil => exact hrefl p
  | cons spec apps ih =>
      have hstep := hone i spec p
      rw [applyApps]
      split
      · rename_i heq
        rw [heq] at hstep
        exact hstep
      · rename_i heq
        rw [heq] at hstep
        exact htrans _ _ _ hstep (ih _ _)

/-- What the loop of `apply_stack` finds under each key. -/
def byKey (apps : List Deployment) : String → Option Deployment :=
  apps.foldl (fun m app ↦ Function.update m app.key (some app)) fun _ ↦ none

/-- The apps in the order in which the loop of `apply_stack` removes them. -/
def takeInOrder : List String → (String → Option Deployment) → List Deployment
  | [], _ => []
  | key :: order, m =>
      match m key with
      | none => takeInOrder order m
      | some spec => spec :: takeInOrder order (Function.update m key none)

/-- `apply_stack` up to its loop: the apps of the manifest in dependency order. -/
def loadStack (parsed : Except String Stack) : Except String (List Deployment) := do
  let stack ← Stack.fromManifest parsed
  if cli.nameSpace ≠ "default" then
    let stack := { stack with apps := stack.apps.map (Deployment.intoNameSpace cli.nameSpace) }
    stack.validate
    return takeInOrder (← stack.applyOrder) (byKey stack.apps)
  else
    return takeInOrder (← stack.applyOrder) (byKey stack.apps)

/-- `apply_stack`. -/
def applyStack (parsed : Except String Stack) (p : CliState σ) : Ended σ :=
  match cli.loadStack parsed with
  | .error e => (.error e, p)
  | .ok apps => cli.applyApps driver preflights clock 0 apps p

/-- `apply`. -/
def apply (file : Except String Manifest) (p : CliState σ) : Ended σ :=
  match file with
  | .error e => (.error e, p)
  | .ok (.stack parsed) => cli.applyStack driver preflights clock parsed p
  | .ok (.single parsed) =>
      match Deployment.fromManifest parsed with
      | .error e => (.error e, p)
      | .ok spec =>
          let spec :=
            if cli.nameSpace ≠ "default" then spec.intoNameSpace cli.nameSpace else spec
          cli.applyOne driver clock (preflights 0) spec p

/-! ## The other commands -/

/-- The key of a deployment named on the command line. -/
def keyOf (name : String) : String := s!"{cli.nameSpace}/{name}"

/-- `scale`. -/
def scale (name : String) (replicas : UInt32) (p : CliState σ) : Ended σ :=
  let key := cli.keyOf name
  match p.store.get key with
  | none => (.error s!"no deployment '{key}' (apply one first)", p)
  | some _ =>
      if replicas.toNat > maxReplicas then
        (.error s!"replicas {replicas} exceeds the {maxReplicas} ceiling", p)
      else
        cli.reconcileToConvergence driver clock key
          { p with
            store := p.store.modify key fun m ↦ { m with spec := { m.spec with replicas } } }

/-- The last entry of a history that has the revision, and the other entries. -/
def splitRevision (rev : String) : List Deployment → Option (Deployment × List Deployment)
  | [] => none
  | h :: history =>
      match splitRevision rev history with
      | some (prior, rest) => some (prior, h :: rest)
      | none => if h.revision = rev then some (h, history) else none

/-- What `rollout undo` takes out of the history, and what it leaves. -/
def takeRevision (key : String) (history : List Deployment) :
    Option String → Except String (Deployment × List Deployment)
  | some rev =>
      match splitRevision rev history with
      | some taken => .ok taken
      | none => .error s!"no revision '{rev}' in history for '{key}'"
  | none =>
      match history.getLast? with
      | some prior => .ok (prior, history.dropLast)
      | none => .error s!"no prior revision to roll back to for '{key}'"

/-- `rollout_cmd`. -/
def rolloutCmd (op : RolloutOp) (p : CliState σ) : Ended σ :=
  match op with
  | .status name =>
      let key := cli.keyOf name
      match p.store.get key with
      | none => (.error s!"no deployment '{key}'", p)
      | some _ => cli.reconcileToConvergence driver clock key p
  | .undo name toRevision =>
      let key := cli.keyOf name
      match p.store.get key with
      | none => (.error s!"no deployment '{key}'", p)
      | some managed =>
          match takeRevision key managed.history toRevision with
          | .error e => (.error e, p)
          | .ok (prior, history) =>
              cli.reconcileToConvergence driver clock key
                { p with
                  store := p.store.modify key fun m ↦
                    { m with
                      history
                      spec :=
                        { prior with
                          replicas := m.spec.replicas
                          nameSpace := m.spec.nameSpace
                          name := m.spec.name } } }
  | .pause name =>
      let key := cli.keyOf name
      match p.store.get key with
      | none => (.error s!"no deployment '{key}'", p)
      | some _ => (.ok (), { p with store := p.store.modify key ({ · with paused := true }) })
  | .resume name =>
      let key := cli.keyOf name
      match p.store.get key with
      | none => (.error s!"no deployment '{key}'", p)
      | some _ =>
          cli.reconcileToConvergence driver clock key
            { p with store := p.store.modify key ({ · with paused := false }) }
  | .history name =>
      let key := cli.keyOf name
      match p.store.get key with
      | none => (.error s!"no deployment '{key}'", p)
      | some _ => (.ok (), p)

end Commands

/-- The loop of `delete`: how many kills failed. -/
def killAll (driver : MeshDriver σ) (grant : Option String) :
    List ReplicaState → ℕ × σ → ℕ × σ
  | [], fs => fs
  | r :: replicas, (failures, s) =>
      match driver.kill r.nodeId r.jobId grant s with
      | (.ok _, s) => killAll driver grant replicas (failures, s)
      | (.error _, s) => killAll driver grant replicas (failures + 1, s)

/-- `delete`. -/
def delete (cli : Cli) (driver : MeshDriver σ) (name : String) (force : Bool) (p : CliState σ) :
    Ended σ :=
  let key := cli.keyOf name
  match p.store.get key with
  | none => (.error s!"no deployment '{key}'", p)
  | some managed =>
      let (failures, mesh) :=
        killAll driver (managed.grant.or cli.grant) managed.replicas (0, p.mesh)
      if failures > 0 ∧ force = false then (.ok (), { p with mesh })
      else (.ok (), { store := p.store.remove key, mesh })

/-! ## Main -/

section Main

variable [Sha256] (cli : Cli) (driver : MeshDriver σ) (preflights : ℕ → Preflight)
  (clock : String → ℕ → UInt64)

/-- The command that was given. -/
def exec : Cmd → CliState σ → Ended σ
  | .apply file => cli.apply driver preflights clock file
  | .scale name replicas => cli.scale driver clock name replicas
  | .rollout op => cli.rolloutCmd driver clock op
  | .delete name force => cli.delete driver name force

/-- `main`, from the state file as it is found to the state file as it is left. -/
def main (cmd : Cmd) (file : Store) (mesh : σ) : Ended σ :=
  match cli.exec driver preflights clock cmd { store := file.migrate, mesh } with
  | (.error e, p) => (.error e, { p with store := file })
  | (.ok _, p) => (.ok (), { p with store := { p.store with version := storeVersion } })

/-- A command that ends well leaves its store, stamped with the current version. -/
theorem main_eq_ok {cmd : Cmd} {file : Store} {mesh : σ} {p : CliState σ}
    (h : cli.main driver preflights clock cmd file mesh = (.ok (), p)) :
    ∃ q, cli.exec driver preflights clock cmd { store := file.migrate, mesh } = (.ok (), q) ∧
      p = { q with store := { q.store with version := storeVersion } } := by
  unfold main at h
  split at h
  · exact absurd (congrArg Prod.fst h) (by simp)
  · rename_i q hexec
    exact ⟨q, hexec, (congrArg Prod.snd h).symm⟩

/-- A command that fails leaves the state file as it was. -/
theorem main_of_error {cmd : Cmd} {file : Store} {mesh : σ} {e : String} {p : CliState σ}
    (h : cli.exec driver preflights clock cmd { store := file.migrate, mesh } = (.error e, p)) :
    cli.main driver preflights clock cmd file mesh = (.error e, { p with store := file }) := by
  rw [main, h]

end Main

end Cli

end CeGke
