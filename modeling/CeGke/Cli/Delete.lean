import CeGke.Cli
import CeGke.Controller.Calls

/-!
# Deleting a deployment

The loop of `delete` counts the kills that fail and keeps nothing else of them, so a deployment
that is kept is kept with all its handles, those of the stopped replicas among them.  The kill
loop of a tick drops a handle as soon as its kill succeeds (`tryKill`); `delete` comes to the
same only where all kills end alike (`tracksSurvivors_iff`).
-/

namespace CeGke

variable {σ : Type}

/-- The call that stops a replica. -/
def ReplicaState.killCall (grant : Option String) (r : ReplicaState) : MeshCall :=
  .kill r.nodeId r.jobId grant

namespace Cli

/-! ## The kill loop -/

/-- The replicas whose kill fails at its turn in the loop of `delete`, in order. -/
def failedKills (driver : MeshDriver σ) (grant : Option String) :
    List ReplicaState → σ → List ReplicaState
  | [], _ => []
  | r :: replicas, s =>
      match driver.kill r.nodeId r.jobId grant s with
      | (.ok _, s) => failedKills driver grant replicas s
      | (.error _, s) => r :: failedKills driver grant replicas s

section KillAll

variable (driver : MeshDriver σ) (grant : Option String) (replicas : List ReplicaState)

/-- The loop counts the kills that fail. -/
theorem killAll_fst (n : ℕ) (s : σ) :
    (killAll driver grant replicas (n, s)).1 =
      n + (failedKills driver grant replicas s).length := by
  induction replicas generalizing n s with
  | nil => rfl
  | cons r replicas ih =>
      rw [killAll, failedKills]
      rcases hkill : driver.kill r.nodeId r.jobId grant s with ⟨_ | _, s'⟩
      · show (killAll driver grant replicas (n + 1, s')).1 = _
        rw [ih, List.length_cons, Nat.add_assoc, Nat.add_comm 1]
      · exact ih n s'

/-- The loop asks once for every replica, whatever it is answered. -/
theorem killAll_traced (n : ℕ) (s : σ) (calls : List MeshCall) :
    (killAll driver.traced grant replicas (n, s, calls)).2.2 =
      calls ++ replicas.map (ReplicaState.killCall grant) := by
  induction replicas generalizing n s calls with
  | nil => exact (List.append_nil calls).symm
  | cons r replicas ih =>
      rw [killAll, List.map_cons, List.append_cons]
      simp only [MeshDriver.traced]
      split
      · rename_i hkill
        obtain ⟨_, rfl⟩ := Prod.mk.inj hkill
        exact ih _ _ _
      · rename_i hkill
        obtain ⟨_, rfl⟩ := Prod.mk.inj hkill
        exact ih _ _ _

end KillAll

/-! ## The command -/

section Delete

variable (cli : Cli) (driver : MeshDriver σ) (name : String) (force : Bool) (p : CliState σ)

/-- The calls a `delete` makes. -/
def deleteCalls : List MeshCall :=
  (cli.delete driver.traced name force { store := p.store, mesh := (p.mesh, []) }).2.mesh.2

/-- The replicas of `managed` that `delete` fails to stop. -/
def deleteFails (managed : ManagedDeployment) : List ReplicaState :=
  failedKills driver (managed.grant.or cli.grant) managed.replicas p.mesh

/-- What deleting `managed` is to leave: nothing, or an entry that tracks what it failed to
stop. -/
structure TracksSurvivors (managed : ManagedDeployment) : Prop where
  entry : (cli.delete driver name force p).2.store.get (cli.keyOf name) =
    if cli.deleteFails driver p managed = [] ∨ force = true then none
    else some { managed with replicas := cli.deleteFails driver p managed }
  /-- A `delete` that follows asks to stop what is left, and removes the entry when it can. -/
  again : ∀ kept, (cli.delete driver name force p).2.store.get (cli.keyOf name) = some kept →
    ∀ force', cli.deleteCalls driver name force' (cli.delete driver name force p).2 =
        (cli.deleteFails driver p managed).map
          (ReplicaState.killCall (managed.grant.or cli.grant)) ∧
      (failedKills driver (managed.grant.or cli.grant) (cli.deleteFails driver p managed)
          (cli.delete driver name force p).2.mesh = [] →
        (cli.delete driver name force' (cli.delete driver name force p).2).2.store.get
          (cli.keyOf name) = none)
  /-- A pass that follows starts from what is left. -/
  pass : ∀ kept, (cli.delete driver name force p).2.store.get (cli.keyOf name) = some kept →
    ∀ fallbackGrant, (kept.controller fallbackGrant).replicas = cli.deleteFails driver p managed

variable {cli driver name force p} {managed : ManagedDeployment}

variable (driver force) in
/-- What `delete` leaves in the store. -/
theorem delete_get (hget : p.store.get (cli.keyOf name) = some managed) :
    (cli.delete driver name force p).2.store.get (cli.keyOf name) =
      if cli.deleteFails driver p managed = [] ∨ force = true then none else some managed := by
  have hcount : (killAll driver (managed.grant.or cli.grant) managed.replicas (0, p.mesh)).1 =
      (cli.deleteFails driver p managed).length := by
    rw [killAll_fst, Nat.zero_add, deleteFails]
  have hkept : (cli.deleteFails driver p managed).length > 0 ∧ force = false ↔
      ¬ (cli.deleteFails driver p managed = [] ∨ force = true) := by
    rw [not_or, Bool.not_eq_true, gt_iff_lt, List.length_pos_iff]
  simp only [delete, hget, hcount, hkept]
  by_cases h : cli.deleteFails driver p managed = [] ∨ force = true
  · rw [if_neg (not_not_intro h), if_pos h]
    exact (Lib.SortedMap.get_erase _ _ _).trans (if_pos rfl)
  · rw [if_pos h, if_neg h]
    exact hget

/-- The calls of a `delete` are one kill for each handle that is tracked. -/
theorem deleteCalls_eq (hget : p.store.get (cli.keyOf name) = some managed) :
    cli.deleteCalls driver name force p =
      managed.replicas.map (ReplicaState.killCall (managed.grant.or cli.grant)) := by
  have hcalls := killAll_traced driver (managed.grant.or cli.grant) managed.replicas 0 p.mesh []
  rw [List.nil_append] at hcalls
  rw [deleteCalls, ← hcalls]
  simp only [delete, hget]
  split_ifs <;> rfl

/-- **Deleting tracks the survivors** exactly when the entry is to be forgotten anyway, or all
kills succeed, or all fail. -/
theorem tracksSurvivors_iff (hget : p.store.get (cli.keyOf name) = some managed) :
    cli.TracksSurvivors driver name force p managed ↔
      force = true ∨ cli.deleteFails driver p managed = [] ∨
        cli.deleteFails driver p managed = managed.replicas := by
  have hdelete := delete_get driver force hget
  constructor
  · intro h
    have hentry := h.entry
    rw [hdelete] at hentry
    by_cases hgone : cli.deleteFails driver p managed = [] ∨ force = true
    · exact hgone.symm.imp_right Or.inl
    · rw [if_neg hgone, if_neg hgone, Option.some.injEq] at hentry
      exact Or.inr (Or.inr (congrArg ManagedDeployment.replicas hentry).symm)
  · intro h
    by_cases hgone : cli.deleteFails driver p managed = [] ∨ force = true
    · rw [if_pos hgone] at hdelete
      refine ⟨hdelete.trans (if_pos hgone).symm, fun kept hkept ↦ ?_, fun kept hkept ↦ ?_⟩
      · exact nomatch hdelete.symm.trans hkept
      · exact nomatch hdelete.symm.trans hkept
    · have hall : cli.deleteFails driver p managed = managed.replicas :=
        (h.resolve_left fun hforce ↦ hgone (Or.inr hforce)).resolve_left
          fun hnil ↦ hgone (Or.inl hnil)
      rw [if_neg hgone] at hdelete
      refine ⟨hdelete.trans ?_, fun kept hkept force' ↦ ⟨?_, fun hnil ↦ ?_⟩, fun kept hkept _ ↦ ?_⟩
      · rw [if_neg hgone, hall]
      · rw [deleteCalls_eq hdelete, hall]
      · rw [hall] at hnil
        exact (delete_get driver force' hdelete).trans (if_pos (Or.inl hnil))
      · obtain rfl := Option.some.inj (hdelete.symm.trans hkept)
        exact hall.symm

end Delete

section Example

/-- A deployment of two replicas, both running. -/
def twoRunning : ManagedDeployment where
  spec := { name := "web", nameSpace := "default", image := "nginx", replicas := 2 }
  replicas := [⟨"a", "n", "9154645cdccb2449", .running⟩, ⟨"b", "n", "9154645cdccb2449", .running⟩]

/-- The store that holds it. -/
def twoRunningStore : Store where
  deployments := Lib.SortedMap.empty.insert "default/web" twoRunning

/-- One of the two is stopped: both stay tracked, and a pass finds nothing to do. -/
theorem tracksSurvivors_fails :
    ¬ ({} : Cli).TracksSurvivors (stuckDriver ["b"]) "web" false ⟨twoRunningStore, ()⟩
        twoRunning ∧
      (({} : Cli).delete (stuckDriver ["b"]) "web" false ⟨twoRunningStore, ()⟩).2.store =
        twoRunningStore ∧
      (@reconcilePass _ Deployment.nginxSha256 (stuckDriver ["b"]) (fun _ ↦ 0) none none
        twoRunningStore ()).unconverged = 0 := by
  refine ⟨fun h ↦ ?_, by decide, by decide⟩
  have hentry := h.entry
  exact absurd hentry (by decide)

/-- Where neither can be stopped both stay tracked, and should. -/
theorem tracksSurvivors_stuck :
    ({} : Cli).TracksSurvivors (stuckDriver ["a", "b"]) "web" false ⟨twoRunningStore, ()⟩
      twoRunning :=
  (tracksSurvivors_iff (by decide)).mpr (Or.inr (Or.inr (by decide)))

end Example

end Cli

end CeGke
