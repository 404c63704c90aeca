import CeGke.Cli.WellFormed
import CeGke.Controller.Converge
import CeGke.Daemon
import CeGke.Stack.Order
import CeGke.State.Tracked

/-!
# The daemon converges

A pass of the daemon gives every deployment in its scope one tick, each in its turn and on the mesh
that the turns before it left.  On a mesh that serves, each of these ticks carries its plan out
(`reconcilePass_served`).  So where the dependencies of the deployments have a rank, pass after
pass brings them up rank by rank, and then keeps them up (`DaemonRun.daemon_converges`).
-/

namespace CeGke

open Lib

variable {σ : Type}

/-! ## A pass -/

/-- A tick keeps a deployment within its room. -/
theorem Served.length_le [Sha256] {v : MeshView σ} {d : Deployment}
    {l placed after : List ReplicaState} {ready : Bool} {s s' : σ} {report : TickReport}
    (h : Served v d l placed ready s report after s') (hl : (jobIds l).Nodup) :
    after.length ≤ max l.length (d.replicas.toNat + d.strategy.surge) := by
  have hsurvivors := (@length_survivors_le d l d.revision hl).trans
    List.countP_le_length
  have hlength := h.length
  rw [h.replicas, List.length_append]
  by_cases hplace : (planStep d l d.revision).toPlace = 0
  · rw [hplace, ite_self] at hlength
    omega
  · have hceil := length_survivors_add_toPlace_le hl hplace
    split_ifs at hlength <;> omega

section Turn

variable [Sha256] {driver : MeshDriver σ} {clock : String → UInt64} {grant : Option String}
  {v : MeshView σ} {base : ℕ} {key : String} {managed : ManagedDeployment}

/-- From `s` to `s'` the deployment had its turn, in which `found` was found of it and `l` left: it
was ticked on a mesh that had been reached from `s`, and from there the mesh went on to `s'`. -/
structure Ticked (v : MeshView σ) (d : Deployment) (found : List ReplicaState) (s : σ)
    (l : List ReplicaState) (s' : σ) : Prop where
  turn : ∃ placed ready t report t', Served v d found placed ready t report l t' ∧
    (v.DepsLive d t → ready = true) ∧
    (∀ service, v.live s service → v.live t service) ∧
    ∀ service, v.live t' service → v.live s' service
  up : ∀ r ∈ l, (v.jobs s' r.jobId).map jobUp = some (r.nodeId, r.phase.comeUp)

/-- Before and after, other deployments have their turns. -/
theorem Ticked.mono {d : Deployment} {s s' t t' : σ} {found l : List ReplicaState}
    (h : Ticked v d found t l t') (hbefore : ∀ service, v.live s service → v.live t service)
    (hafter : ∀ service, v.live t' service → v.live s' service)
    (hjobs : ∀ r ∈ l, v.jobs s' r.jobId = v.jobs t' r.jobId) : Ticked v d found s l s' := by
  obtain ⟨⟨placed, ready, u, report, u', hserved, hready, hlive, hlive'⟩, hup⟩ := h
  refine ⟨⟨placed, ready, u, report, u', hserved, hready, fun x hx ↦ hlive x (hbefore x hx),
    fun x hx ↦ hafter x (hlive' x hx)⟩, fun r hr ↦ ?_⟩
  rw [hjobs r hr]
  exact hup r hr

/-- The deployment can be ticked whenever its turn comes. -/
structure Tickable (driver : MeshDriver σ) (v : MeshView σ) (now : UInt64)
    (managed : ManagedDeployment) : Prop where
  serves : ∀ grant, driver.Serves v managed.spec grant
  hasRoom : driver.HasRoom v managed.spec (Controller.new none).maxStaleSecs now

omit [Sha256] in
/-- What is tracked of a deployment is a part of the fleet. -/
theorem MeshView.Holds.split {store : Store} {s : σ} (h : v.Holds base store.tracked s)
    (hget : store.get key = some managed) :
    v.Holds base (managed.replicas ++ store.others key) s := by
  have hperm := store.tracked_perm key
  rw [Store.replicasAt_of_get hget] at hperm
  exact h.perm hperm

/-- The turn of a deployment leaves the rest of the fleet alone. -/
theorem MeshView.Holds.turn {store : Store} {s s' : σ} {l placed : List ReplicaState} {ready : Bool}
    {report : TickReport} (h : v.Holds base store.tracked s)
    (hget : store.get key = some managed)
    (hserved :
      Served v managed.spec (managed.replicas.map (v.found s)) placed ready s report l s') :
    v.Holds base (store.setReplicas key l).tracked s' ∧
      ∀ r ∈ store.others key, v.jobs s' r.jobId = v.jobs s r.jobId := by
  have hwhole := h.split hget
  refine ⟨?_, fun r hr ↦ ?_⟩
  · have hpart : v.Holds (base + (store.others key).length) l s' := by
      refine hserved.holds ?_
      rw [List.length_map]
      exact hwhole.part.load
    exact (hwhole.frame hpart hserved.keeps).perm (Store.tracked_setReplicas_perm hget l).symm
  · have hknown := hwhole.known r (List.mem_append_right _ hr)
    refine (hserved.untouched ?_ fun hnone ↦ ?_).2
    · rw [MeshView.jobIds_map_found]
      exact hwhole.notMem_part hr
    · exact absurd (hnone.symm.trans hknown.jobs_eq) (by simp)

/-- How many replicas are asked for under some keys. -/
def demand (store : Store) (keys : List String) : ℕ :=
  (keys.map fun key ↦ ((store.get key).map fun m ↦ m.spec.replicas.toNat).getD 0).sum

omit [Sha256] in
theorem demand_cons (store : Store) (key : String) (keys : List String) :
    demand store (key :: keys) = demand store [key] + demand store keys := by
  simp only [demand, List.map_cons, List.map_nil, List.sum_cons, List.sum_nil, Nat.add_zero]

omit [Sha256] in
theorem demand_append (store : Store) (keys keys' : List String) :
    demand store (keys ++ keys') = demand store keys + demand store keys' := by
  rw [demand, List.map_append, List.sum_append, ← demand, ← demand]

omit [Sha256] in
theorem demand_singleton {store : Store} (hget : store.get key = some managed) :
    demand store [key] = managed.spec.replicas.toNat := by
  simp only [demand, List.map_cons, List.map_nil, hget, Option.map_some, Option.getD_some,
    List.sum_singleton]

omit [Sha256] in
theorem demand_congr {store store' : Store} {keys : List String}
    (h : ∀ k ∈ keys, store'.get k = store.get k) : demand store' keys = demand store keys := by
  refine congrArg List.sum (List.map_congr_left fun k hk ↦ ?_)
  simp only [h k hk]

/-- From `p` to `p'` the deployments under `keys` had their turns, and no others. -/
structure Turned (v : MeshView σ) (base : ℕ) (keys : List String) (p p' : Pass σ) : Prop where
  stored : ∀ key ∉ keys, p'.store.get key = p.store.get key
  ticked : ∀ key ∈ keys, ∀ managed, p.store.get key = some managed →
    ∃ l, p'.store.get key = some { managed with replicas := l } ∧
      Ticked v managed.spec (managed.replicas.map (v.found p.mesh)) p.mesh l p'.mesh
  others : ∀ key ∉ keys, ∀ r ∈ p.store.replicasAt key,
    v.jobs p'.mesh r.jobId = v.jobs p.mesh r.jobId
  holds : v.Holds base p'.store.tracked p'.mesh
  room : p'.store.room ≤ p.store.room
  live : ∀ service, v.live p.mesh service → v.live p'.mesh service
  issued : v.issued p'.mesh ≤ v.issued p.mesh + demand p.store keys

/-- Where there is no deployment there is no turn. -/
theorem Turned.of_forall_none {keys : List String} {p : Pass σ}
    (hholds : v.Holds base p.store.tracked p.mesh) (h : ∀ key ∈ keys, p.store.get key = none) :
    Turned v base keys p p where
  stored _ _ := rfl
  ticked key hkey managed hget := absurd ((h key hkey).symm.trans hget) (by simp)
  others _ _ _ _ := rfl
  holds := hholds
  room := le_rfl
  live _ := id
  issued := Nat.le_add_right _ _

/-- The turns of some deployments and then those of others. -/
theorem Turned.trans {keys keys' : List String} {p p' p'' : Pass σ} (h : Turned v base keys p p')
    (h' : Turned v base keys' p' p'') (hkeys : keys.Disjoint keys') :
    Turned v base (keys ++ keys') p p'' where
  stored key hkey := by
    rw [List.mem_append, not_or] at hkey
    rw [h'.stored key hkey.2, h.stored key hkey.1]
  ticked key hkey managed hget := by
    rcases List.mem_append.mp hkey with hmem | hmem
    · obtain ⟨l, hget', hticked⟩ := h.ticked key hmem managed hget
      have hnot : key ∉ keys' := fun hmem' ↦ hkeys hmem hmem'
      refine ⟨l, (h'.stored key hnot).trans hget', ?_⟩
      refine hticked.mono (fun _ ↦ id) h'.live fun r hr ↦ h'.others key hnot r ?_
      rwa [Store.replicasAt_of_get hget']
    · have hnot : key ∉ keys := fun hmem' ↦ hkeys hmem' hmem
      obtain ⟨l, hget', hticked⟩ := h'.ticked key hmem managed ((h.stored key hnot).trans hget)
      -- The turns before left what is tracked here as it was, so it is found as it was.
      rw [MeshView.found_congr fun r hr ↦
        h.others key hnot r (Store.replicasAt_of_get hget ▸ hr)] at hticked
      exact ⟨l, hget', hticked.mono h.live (fun _ ↦ id) fun _ _ ↦ rfl⟩
  others key hkey r hr := by
    rw [List.mem_append, not_or] at hkey
    rw [← h.others key hkey.1 r hr]
    refine h'.others key hkey.2 r ?_
    rwa [Store.replicasAt, h.stored key hkey.1]
  holds := h'.holds
  room := h'.room.trans h.room
  live service hlive := h'.live service (h.live service hlive)
  issued := by
    have hissued := h.issued
    have hissued' := h'.issued
    rw [demand_congr fun k hk ↦ h.stored k fun hk' ↦ hkeys hk' hk] at hissued'
    rw [demand_append]
    omega

/-- A tick that carries its plan out is a turn. -/
theorem Served.turned {p : Pass σ} {l placed : List ReplicaState} {ready : Bool}
    {report : TickReport} {s' : σ} (hget : p.store.get key = some managed)
    (hholds : v.Holds base p.store.tracked p.mesh)
    (h : Served v managed.spec (managed.replicas.map (v.found p.mesh)) placed ready p.mesh report
      l s')
    (hready : v.DepsLive managed.spec p.mesh → ready = true) (unconverged : ℕ) :
    Turned v base [key] p
      { store := p.store.setReplicas key l, mesh := s', unconverged } := by
  have hplaced : placed.length ≤ managed.spec.replicas.toNat := by
    rw [h.length]
    split_ifs
    · exact toPlace_le _ _ _
    · exact Nat.zero_le _
  have hlength : l.length ≤ managed.room := by
    have hnodup : (jobIds (managed.replicas.map (v.found p.mesh))).Nodup := by
      rw [MeshView.jobIds_map_found]
      exact (hholds.split hget).part.nodup
    refine (h.length_le hnodup).trans_eq ?_
    rw [List.length_map]
    rfl
  obtain ⟨hholds', hothers⟩ := hholds.turn hget h
  exact
    { stored := fun k hk ↦ Store.get_setReplicas_of_ne _ (List.ne_of_not_mem_cons hk) _
      ticked := by
        intro k hk managed' hget'
        obtain rfl := List.mem_singleton.mp hk
        obtain rfl := Option.some.inj (hget.symm.trans hget')
        refine ⟨l, ?_, ⟨placed, ready, _, _, _, h, hready, fun _ ↦ id, fun _ ↦ id⟩, h.up⟩
        rw [Store.get_setReplicas_self, hget]
        rfl
      others := fun k hk r hr ↦
        hothers r (Store.mem_others_of_ne (List.ne_of_not_mem_cons hk) hr)
      holds := hholds'
      room := Store.room_setReplicas_le hget hlength
      live := h.live
      issued := by
        rw [demand_singleton hget]
        exact h.issued.trans (Nat.add_le_add_left hplaced _) }

/-- A turn carries the plan of its deployment out. -/
theorem reconcileKey_served {p : Pass σ}
    (htickable : ∀ managed, p.store.get key = some managed →
      Tickable driver v (clock key) managed)
    (hholds : v.Holds base p.store.tracked p.mesh)
    (hcapacity : base + p.store.room ≤ v.capacity)
    (hissued : v.issued p.mesh + demand p.store [key] ≤ v.supply) :
    Turned v base [key] p (reconcileKey driver clock grant p key) := by
  cases hget : p.store.get key with
  | none =>
      have hstep : reconcileKey driver clock grant p key = p := by
        simp only [reconcileKey, hget]
      rw [hstep]
      exact .of_forall_none hholds fun k hk ↦ List.mem_singleton.mp hk ▸ hget
  | some managed =>
      obtain ⟨hserves, hhasRoom⟩ := htickable managed hget
      have hpart := (hholds.split hget).part
      have hroom := Store.length_others_add_room_le hget
      have hsurge : managed.spec.replicas.toNat + managed.spec.strategy.surge ≤ managed.room :=
        le_max_right _ _
      rw [demand_singleton hget] at hissued
      obtain ⟨placed, ready, hready, hserved⟩ := (managed.controller grant).tick_served
        (hserves _) hpart.sound hpart.nodup hpart.known hhasRoom hpart.load (by omega) hissued
      set t := (managed.controller grant).tick driver managed.spec p.mesh (clock key) with ht
      have hstep : reconcileKey driver clock grant p key =
          { store := p.store.setReplicas key t.2.1.replicas
            mesh := t.2.2
            unconverged := if t.1.done then p.unconverged else p.unconverged + 1 } := by
        simp only [reconcileKey, hget]
        rfl
      rw [hstep]
      exact hserved.turned hget hholds hready _

/-- **A pass carries the plan of each deployment in its scope out**, as far as its gate lets it, and
leaves the jobs of the others as they are. -/
theorem foldl_reconcileKey_served {keys : List String} (hkeys : keys.Nodup) {p : Pass σ}
    (htickable : ∀ key ∈ keys, ∀ managed, p.store.get key = some managed →
      Tickable driver v (clock key) managed)
    (hholds : v.Holds base p.store.tracked p.mesh)
    (hcapacity : base + p.store.room ≤ v.capacity)
    (hissued : v.issued p.mesh + demand p.store keys ≤ v.supply) :
    Turned v base keys p (keys.foldl (reconcileKey driver clock grant) p) := by
  induction keys generalizing p with
  | nil => exact .of_forall_none hholds (List.forall_mem_nil _)
  | cons key keys ih =>
      rw [List.nodup_cons] at hkeys
      obtain ⟨hhead, hrest⟩ := List.forall_mem_cons.mp htickable
      rw [demand_cons] at hissued
      have hturn : Turned v base [key] p (reconcileKey driver clock grant p key) :=
        reconcileKey_served hhead hholds hcapacity (by omega)
      have hsame : ∀ k ∈ keys,
          (reconcileKey driver clock grant p key).store.get k = p.store.get k := by
        intro k hk
        refine hturn.stored k fun heq ↦ hkeys.1 ?_
        rwa [← List.mem_singleton.mp heq]
      have hspent := hturn.issued
      rw [List.foldl_cons]
      refine hturn.trans (ih hkeys.2 (fun k hk m hm ↦ hrest k hk m (hsame k hk ▸ hm))
        hturn.holds ((Nat.add_le_add_left hturn.room _).trans hcapacity) ?_) ?_
      · rw [demand_congr hsame]
        omega
      · exact List.disjoint_singleton.mpr hkeys.1 |>.symm

/-- Turns change nothing in the store but what is tracked. -/
theorem foldl_reconcileKey_get_eq (driver : MeshDriver σ) (clock : String → UInt64)
    (grant : Option String) (keys : List String) (p : Pass σ) (key : String) :
    ∃ l, (keys.foldl (reconcileKey driver clock grant) p).store.get key =
      (p.store.get key).map fun managed ↦ { managed with replicas := l } := by
  induction keys generalizing p with
  | nil =>
      refine ⟨p.store.replicasAt key, ?_⟩
      rw [List.foldl_nil, Store.replicasAt]
      cases p.store.get key <;> rfl
  | cons k keys ih =>
      obtain ⟨l, hl⟩ := ih (reconcileKey driver clock grant p k)
      refine ⟨l, ?_⟩
      rw [List.foldl_cons, hl, reconcileKey]
      split
      · rfl
      · rename_i managed hget
        by_cases hkey : key = k
        · subst hkey
          simp only [Store.get_setReplicas_self, Option.map_map]
          rfl
        · simp only [Store.get_setReplicas_of_ne _ hkey]

end Turn

/-! ## Pass after pass -/

namespace DaemonRun

variable [Sha256] {run : DaemonRun σ} {v : MeshView σ} {between : σ → σ} {base n : ℕ}

/-- What a pass makes of the store and the mesh. -/
def pass (run : DaemonRun σ) (n : ℕ) : Pass σ :=
  reconcilePass run.driver (run.clock n) run.fallbackGrant run.nameSpace (run.after n) (run.mesh n)

/-- What that pass finds of a deployment. -/
def found (run : DaemonRun σ) (v : MeshView σ) (key : String) (n : ℕ) : List ReplicaState :=
  (run.tracked key n).map (v.found (run.mesh n))

/-- Nothing but the daemon touches the mesh, and between two passes what is pending comes up. -/
structure Undisturbed (run : DaemonRun σ) (v : MeshView σ) (between : σ → σ) : Prop where
  mesh : ∀ n, run.mesh (n + 1) = between (run.pass n).mesh
  settles : v.Settles between

/-- The mesh knows the fleet and has room for it, and does for each deployment in scope what the
daemon asks of it. -/
structure Hosted (run : DaemonRun σ) (v : MeshView σ) (base : ℕ) : Prop where
  holds : v.Holds base run.store.tracked (run.mesh 0)
  capacity : base + run.store.room ≤ v.capacity
  hosts : ∀ key ∈ run.store.scope run.nameSpace, ∀ managed, run.store.get key = some managed →
    run.driver.Hosts v (fun n ↦ run.clock n key) managed.spec

/-- What holds before each pass. -/
structure Runs (run : DaemonRun σ) (v : MeshView σ) (base n : ℕ) : Prop where
  holds : v.Holds base (run.after n).tracked (run.mesh n)
  room : (run.after n).room ≤ run.store.room
  live : ∀ service, v.live (run.mesh 0) service → v.live (run.mesh n) service
  issued : v.issued (run.mesh n) ≤ v.issued (run.mesh 0) + n * run.store.room

/-- Passes change nothing in the store but what is tracked. -/
theorem get_after_eq (run : DaemonRun σ) (n : ℕ) (key : String) :
    (run.after n).get key =
      (run.store.get key).map fun managed ↦ { managed with replicas := run.tracked key n } := by
  have hex : ∃ l, (run.after n).get key =
      (run.store.get key).map fun managed ↦ { managed with replicas := l } := by
    induction n with
    | zero =>
        refine ⟨run.store.replicasAt key, ?_⟩
        rw [after, Store.replicasAt]
        cases run.store.get key <;> rfl
    | succ n ih =>
        obtain ⟨l, hl⟩ := ih
        obtain ⟨l', hl'⟩ := foldl_reconcileKey_get_eq run.driver (run.clock n) run.fallbackGrant
          ((run.after n).scope run.nameSpace) { store := run.after n, mesh := run.mesh n } key
        refine ⟨l', hl'.trans ?_⟩
        rw [hl, Option.map_map]
        rfl
  obtain ⟨l, hl⟩ := hex
  rw [tracked, hl]
  cases run.store.get key <;> rfl

theorem mem_scope_after {key : String} {managed : ManagedDeployment}
    (hget : run.store.get key = some managed) :
    key ∈ (run.after n).scope run.nameSpace ↔ key ∈ run.store.scope run.nameSpace := by
  have hget' := run.get_after_eq n key
  rw [hget, Option.map_some] at hget'
  rw [Store.mem_scope hget', Store.mem_scope hget]

/-- What pass `n` did: every deployment in scope had its turn, and what it launched has come up by
the next pass. -/
structure Passed (run : DaemonRun σ) (v : MeshView σ) (n : ℕ) : Prop where
  livePass : ∀ service, v.live (run.mesh n) service → v.live (run.pass n).mesh service
  liveNext : ∀ service, v.live (run.pass n).mesh service → v.live (run.mesh (n + 1)) service
  ticked : ∀ key ∈ run.store.scope run.nameSpace, ∀ managed, run.store.get key = some managed →
    Ticked v managed.spec (run.found v key n) (run.mesh n) (run.tracked key (n + 1))
      (run.pass n).mesh
  jobs : ∀ key ∈ run.store.scope run.nameSpace, ∀ managed, run.store.get key = some managed →
    ∀ r ∈ run.tracked key (n + 1),
      v.jobs (run.mesh (n + 1)) r.jobId = some (r.nodeId, r.phase.comeUp)

/-- In one pass the deployments in scope have their turns. -/
theorem Runs.turned (h : run.Runs v base n) (hhosted : run.Hosted v base)
    (hissued : v.issued (run.mesh n) + run.store.room ≤ v.supply) :
    Turned v base ((run.after n).scope run.nameSpace)
        { store := run.after n, mesh := run.mesh n } (run.pass n) ∧
      v.issued (run.pass n).mesh ≤ v.issued (run.mesh n) + run.store.room := by
  have hnodup := (run.after n).nodup_scope run.nameSpace
  have hdemand : demand (run.after n) ((run.after n).scope run.nameSpace) ≤ run.store.room := by
    refine (Store.sum_le_total hnodup _).trans (le_trans ?_ h.room)
    refine Store.total_mono (fun managed ↦ ?_) _
    exact (Nat.le_add_right _ _).trans (le_max_right _ _)
  have htickable : ∀ key ∈ (run.after n).scope run.nameSpace, ∀ managed,
      (run.after n).get key = some managed →
        Tickable run.driver v (run.clock n key) managed := by
    intro key hkey managed hget
    rw [run.get_after_eq n key] at hget
    obtain ⟨managed', hget', rfl⟩ := Option.map_eq_some_iff.mp hget
    have hhosts := hhosted.hosts key ((mem_scope_after hget').mp hkey) managed' hget'
    exact ⟨hhosts.serves, hhosts.hasRoom n⟩
  have hturned : Turned v base ((run.after n).scope run.nameSpace)
      { store := run.after n, mesh := run.mesh n } (run.pass n) :=
    foldl_reconcileKey_served hnodup htickable h.holds
      ((Nat.add_le_add_left h.room base).trans hhosted.capacity)
      ((Nat.add_le_add_left hdemand _).trans hissued)
  exact ⟨hturned, hturned.issued.trans (Nat.add_le_add_left hdemand _)⟩

/-- **A pass on a mesh that serves**: every deployment in scope has its turn, what it launches has
come up by the next pass, and the mesh goes on knowing the fleet. -/
theorem Runs.succ (h : run.Runs v base n) (hhosted : run.Hosted v base)
    (hundisturbed : run.Undisturbed v between)
    (hissued : v.issued (run.mesh n) + run.store.room ≤ v.supply) :
    run.Runs v base (n + 1) ∧ run.Passed v n := by
  obtain ⟨hturned, hspent⟩ := h.turned hhosted hissued
  have hholds : v.Holds base (run.after (n + 1)).tracked (run.pass n).mesh := hturned.holds
  have hmoves := hundisturbed.settles.moves _ hholds.sound
  have hsettled := hholds.settle hundisturbed.settles
  rw [← hundisturbed.mesh n] at hmoves hsettled
  have hticked : ∀ key ∈ run.store.scope run.nameSpace, ∀ managed,
      run.store.get key = some managed →
        Ticked v managed.spec (run.found v key n) (run.mesh n) (run.tracked key (n + 1))
          (run.pass n).mesh := by
    intro key hkey managed hget
    have hget' := run.get_after_eq n key
    rw [hget, Option.map_some] at hget'
    obtain ⟨l, hl, hticked⟩ := hturned.ticked key ((mem_scope_after hget).mpr hkey) _ hget'
    have htracked : run.tracked key (n + 1) = l := by
      change (((run.pass n).store.get key).getD {}).replicas = l
      rw [hl]
      rfl
    rw [htracked]
    exact hticked
  refine ⟨⟨hsettled, hturned.room.trans h.room, fun service hservice ↦
    hmoves.live service (hturned.live service (h.live service hservice)), ?_⟩,
    hturned.live, hmoves.live, hticked, fun key hkey managed hget r hr ↦ ?_⟩
  · have hbetween := hmoves.issued
    have hissued' := h.issued
    rw [Nat.succ_mul]
    omega
  · rw [hmoves.jobs]
    exact (hticked key hkey managed hget).up r hr

/-- So do all passes, as long as there are job ids. -/
theorem runs (hhosted : run.Hosted v base) (hundisturbed : run.Undisturbed v between)
    {horizon : ℕ} (hissued : v.issued (run.mesh 0) + horizon * run.store.room ≤ v.supply)
    (hn : n ≤ horizon) : run.Runs v base n := by
  induction n with
  | zero => exact ⟨hhosted.holds, le_rfl, fun _ ↦ id, Nat.le_add_right _ _⟩
  | succ n ih =>
      have h := ih (Nat.le_of_succ_le hn)
      have hmul : (n + 1) * run.store.room ≤ horizon * run.store.room := Nat.mul_le_mul_right _ hn
      rw [Nat.succ_mul] at hmul
      have hspent := h.issued
      exact (h.succ hhosted hundisturbed (by omega)).1

/-- The deployment is what was asked for, the mesh runs it, and its service can be found. -/
structure Up (run : DaemonRun σ) (v : MeshView σ) (key : String) (managed : ManagedDeployment)
    (n : ℕ) : Prop where
  converged : Converged managed.spec managed.spec.revision (run.tracked key n)
  running : ∀ r ∈ run.tracked key n, v.jobs (run.mesh n) r.jobId = some (r.nodeId, .running)
  announced : v.announces → managed.spec.replicas ≠ 0 → ∀ service ∈ managed.spec.serviceName,
    v.live (run.mesh n) service

section Progress

variable {key : String} {managed : ManagedDeployment} {horizon : ℕ}
  (hhosted : run.Hosted v base) (hundisturbed : run.Undisturbed v between)
  (hissued : v.issued (run.mesh 0) + horizon * run.store.room ≤ v.supply)

include hhosted hundisturbed hissued

theorem passed (hn : n < horizon) : run.Passed v n := by
  have hruns := runs hhosted hundisturbed hissued hn.le
  have hmul : (n + 1) * run.store.room ≤ horizon * run.store.room := Nat.mul_le_mul_right _ hn
  rw [Nat.succ_mul] at hmul
  have hspent := hruns.issued
  exact (hruns.succ hhosted hundisturbed (by omega)).2

/-- What is live stays so. -/
theorem live_of_le {m : ℕ} (hm : m ≤ n) (hn : n ≤ horizon) {service : String}
    (hlive : v.live (run.mesh m) service) : v.live (run.mesh n) service := by
  induction n, hm using Nat.le_induction with
  | base => exact hlive
  | succ n _ ih =>
      have hpassed := passed hhosted hundisturbed hissued (Nat.lt_of_succ_le hn)
      exact hpassed.liveNext service (hpassed.livePass service (ih (Nat.le_of_succ_le hn)))

theorem depsLive_of_le {d : Deployment} {m : ℕ} (hm : m ≤ n) (hn : n ≤ horizon)
    (hdeps : v.DepsLive d (run.mesh m)) : v.DepsLive d (run.mesh n) :=
  fun dep hdep ↦ live_of_le hhosted hundisturbed hissued hm hn (hdeps dep hdep)

/-- What is tracked of a deployment is part of the fleet. -/
theorem holds_tracked (hn : n ≤ horizon) (key : String) :
    (jobIds (run.tracked key n)).Nodup ∧ (run.tracked key n).length ≤ run.store.room := by
  have hruns := runs hhosted hundisturbed hissued hn
  have hholds := hruns.holds.perm ((run.after n).tracked_perm key)
  have hlen := ((run.after n).tracked_perm key).length_eq
  have hle := ((run.after n).length_tracked_le_room).trans hruns.room
  rw [hlen, List.length_append] at hle
  exact ⟨hholds.part.nodup, (Nat.le_add_right _ _).trans hle⟩

variable (hkey : key ∈ run.store.scope run.nameSpace) (hget : run.store.get key = some managed)

include hkey hget

/-- A pass finds what the one before it left, and what has come up since. -/
theorem found_succ (hn : n < horizon) :
    run.found v key (n + 1) = (run.tracked key (n + 1)).map comeUp := by
  have hjobs := (passed hhosted hundisturbed hissued hn).jobs key hkey managed hget
  refine List.map_congr_left fun r hr ↦ ?_
  simp only [comeUp_eq, MeshView.found, hjobs r hr, Option.map_some, Option.getD_some]

/-- A turn whose plan is done leaves the deployment up. -/
theorem up_succ (hn : n < horizon) (hdeps : v.DepsLive managed.spec (run.mesh n))
    (hdone : (planStep managed.spec (run.found v key n) managed.spec.revision).done = true) :
    run.Up v key managed (n + 1) := by
  have hpassed := passed hhosted hundisturbed hissued hn
  obtain ⟨⟨_, _, t, _, t', hserved, hready, hbefore, hafter⟩, -⟩ :=
    hpassed.ticked key hkey managed hget
  obtain rfl := hready fun dep hdep ↦ hbefore _ (hdeps dep hdep)
  have hnodup : (jobIds (run.found v key n)).Nodup := by
    rw [found, MeshView.jobIds_map_found]
    exact (holds_tracked hhosted hundisturbed hissued hn.le key).1
  have hconverged := hserved.converged hnodup hdone
  refine ⟨hconverged, fun r hr ↦ ?_, fun hannounces hne service hservice ↦ ?_⟩
  · rw [hpassed.jobs key hkey managed hget r hr, hconverged.running r hr]
    rfl
  · exact hpassed.liveNext service (hafter service
      (hserved.announced_of_converged hconverged hannounces hne service hservice))

/-- Once it is up, it stays up. -/
theorem Up.of_le {m : ℕ} (h : run.Up v key managed m) (hm : m ≤ n) (hn : n ≤ horizon)
    (hdeps : v.DepsLive managed.spec (run.mesh m)) : run.Up v key managed n := by
  induction n, hm using Nat.le_induction with
  | base => exact h
  | succ n hmn ih =>
      have hup := ih (Nat.le_of_succ_le hn)
      refine up_succ hhosted hundisturbed hissued hkey hget (Nat.lt_of_succ_le hn)
        (depsLive_of_le hhosted hundisturbed hissued hmn (Nat.le_of_succ_le hn) hdeps) ?_
      have hall : run.found v key n = run.tracked key n := by
        refine (List.map_congr_left fun r hr ↦ ?_).trans (List.map_id _)
        simp only [MeshView.found, hup.running r hr, Option.map_some, Option.getD_some, id,
          ← hup.converged.running r hr]
      rw [hall]
      exact hup.converged.planStep.1

/-- Once its dependencies can be found, the deployment is up before long. -/
theorem up_of_deps (hvalid : managed.spec.validate = .ok ()) {m : ℕ}
    (hdeps : v.DepsLive managed.spec (run.mesh m)) (hm : m + (2 * run.store.room + 4) ≤ n)
    (hn : n ≤ horizon) : run.Up v key managed n := by
  obtain ⟨-, hlength⟩ :=
    holds_tracked hhosted hundisturbed hissued (show m ≤ horizon by omega) key
  have hlen : (run.found v key (m + 0)).length = (run.tracked key m).length := List.length_map _
  have hopen : ∀ i ≤ n - m, v.DepsLive managed.spec (run.mesh (m + i)) := fun i hi ↦
    depsLive_of_le hhosted hundisturbed hissued (Nat.le_add_right m i) (by omega) hdeps
  obtain ⟨i, hi, -, hdone⟩ := @exists_done_of_served _ _ v _ hvalid
    (fun i ↦ run.found v key (m + i)) (n - m)
    (fun i hi ↦ by
      simp only [found, MeshView.jobIds_map_found]
      exact (holds_tracked hhosted hundisturbed hissued (by omega) key).1)
    (fun i hi ↦ by
      have hlt : m + i < horizon := by omega
      obtain ⟨⟨placed, _, t, report, t', hserved, hready, hbefore, -⟩, -⟩ :=
        (passed hhosted hundisturbed hissued hlt).ticked key hkey managed hget
      obtain rfl := hready fun dep hdep ↦ hbefore _ (hopen i hi.le dep hdep)
      exact ⟨placed, t, report, _, t', hserved,
        found_succ hhosted hundisturbed hissued hkey hget hlt⟩)
    (by simp only [hlen]; omega)
  simp only [hlen] at hi
  have hup := up_succ hhosted hundisturbed hissued hkey hget (show m + i < horizon by omega)
    (hopen i (by omega)) hdone
  exact hup.of_le hhosted hundisturbed hissued hkey hget (by omega) hn (hopen (i + 1) (by omega))

end Progress

/-- Each dependency of a deployment in scope can be found from the start, or the mesh announces what
is advertised and it is published by one of a lower rank that is not scaled to nothing. -/
def Ranked (run : DaemonRun σ) (v : MeshView σ) (rank : String → ℕ) : Prop :=
  ∀ key ∈ run.store.scope run.nameSpace, ∀ managed, run.store.get key = some managed →
    ∀ dep ∈ managed.spec.dependsOn,
      v.live (run.mesh 0) (dep.resolvedServiceName managed.spec.nameSpace) ∨
        v.announces ∧ ∃ key' ∈ run.store.scope run.nameSpace, ∃ managed',
          run.store.get key' = some managed' ∧ rank key' < rank key ∧
            managed'.spec.replicas ≠ 0 ∧
              dep.resolvedServiceName managed.spec.nameSpace ∈ managed'.spec.serviceName

/-- **The daemon converges and stays converged.**  On a mesh that nothing else touches, that knows
the tracked replicas in whatever phase, and that serves the deployments in scope, pass after pass
brings them up rank by rank: from pass `(rank key + 1) * (2 * room + 4)` on, the deployment under
`key` has its desired replicas, and the mesh runs them. -/
theorem daemon_converges (hwf : run.store.WellFormed) (hhosted : run.Hosted v base)
    (hundisturbed : run.Undisturbed v between) {rank : String → ℕ} (hranked : run.Ranked v rank)
    {horizon : ℕ} (hissued : v.issued (run.mesh 0) + horizon * run.store.room ≤ v.supply)
    {key : String} (hkey : key ∈ run.store.scope run.nameSpace) {managed : ManagedDeployment}
    (hget : run.store.get key = some managed)
    (hn : (rank key + 1) * (2 * run.store.room + 4) ≤ n) (hhorizon : n ≤ horizon) :
    (run.after n).get key = some { managed with replicas := run.tracked key n } ∧
      Converged managed.spec managed.spec.revision (run.tracked key n) ∧
      ∀ r ∈ run.tracked key n, v.jobs (run.mesh n) r.jobId = some (r.nodeId, .running) := by
  have hup : run.Up v key managed n := by
    induction hrank : rank key using Nat.strong_induction_on generalizing key managed n with
    | _ k ih =>
        rw [hrank, Nat.succ_mul] at hn
        refine up_of_deps hhosted hundisturbed hissued hkey hget (hwf key managed hget).valid
          (m := k * (2 * run.store.room + 4)) (fun dep hdep ↦ ?_) hn hhorizon
        have hm : k * (2 * run.store.room + 4) ≤ horizon := by omega
        rcases hranked key hkey managed hget dep hdep with
          hlive | ⟨hannounces, key', hkey', managed', hget', hlt, hne, hservice⟩
        · exact (runs hhosted hundisturbed hissued hm).live _ hlive
        · rw [hrank] at hlt
          exact (ih (rank key') hlt hkey' hget' (Nat.mul_le_mul_right _ hlt) hm rfl).announced
            hannounces hne _ hservice
  have hget' := run.get_after_eq n key
  rw [hget, Option.map_some] at hget'
  exact ⟨hget', hup.converged, hup.running⟩

/-! ## A daemon alone -/

/-- The store and the mesh before each pass, if nothing but the daemon touches the mesh. -/
def states (driver : MeshDriver σ) (nameSpace fallbackGrant : Option String)
    (clock : ℕ → String → UInt64) (between : σ → σ) (store : Store) (s : σ) : ℕ → Store × σ
  | 0 => (store, s)
  | n + 1 =>
      let (store, s) := states driver nameSpace fallbackGrant clock between store s n
      let p := reconcilePass driver (clock n) fallbackGrant nameSpace store s
      (p.store, between p.mesh)

/-- The run of a daemon alone. -/
def alone (driver : MeshDriver σ) (nameSpace fallbackGrant : Option String)
    (clock : ℕ → String → UInt64) (between : σ → σ) (store : Store) (s : σ) : DaemonRun σ :=
  { driver, nameSpace, fallbackGrant, store, clock
    mesh n := (states driver nameSpace fallbackGrant clock between store s n).2 }

theorem undisturbed_alone (driver : MeshDriver σ) (nameSpace fallbackGrant : Option String)
    (clock : ℕ → String → UInt64) (hsettles : v.Settles between) (store : Store) (s : σ) :
    (alone driver nameSpace fallbackGrant clock between store s).Undisturbed v between := by
  have hafter : ∀ n, (alone driver nameSpace fallbackGrant clock between store s).after n =
      (states driver nameSpace fallbackGrant clock between store s n).1 := by
    intro n
    induction n with
    | zero => rfl
    | succ n ih =>
        rw [after, ih]
        rfl
  refine ⟨fun n ↦ ?_, hsettles⟩
  rw [pass, hafter]
  rfl

section Example

/-- A producer that has crashed and its consumer, both of an older revision. -/
def linkedStore : Store where
  deployments :=
    ⟨[("default/db",
        { spec := stackApp "db" "db" [], replicas := [⟨"1", "b", "v1", .running⟩] }),
      ("default/web",
        { spec := stackApp "web" "" ["db"], replicas := [⟨"0", "a", "v1", .running⟩] })],
      by decide⟩

omit [Sha256] in
theorem get_linkedStore {key : String} {managed : ManagedDeployment}
    (h : linkedStore.get key = some managed) :
    (key = "default/db" ∧
        managed = { spec := stackApp "db" "db" [], replicas := [⟨"1", "b", "v1", .running⟩] }) ∨
      (key = "default/web" ∧
        managed = { spec := stackApp "web" "" ["db"]
                    replicas := [⟨"0", "a", "v1", .running⟩] }) := by
  have hmem := SortedMap.get_eq_some_iff.mp h
  simpa [linkedStore] using hmem

/-- A daemon that finds them so. -/
def linkedRun : DaemonRun SmallMesh :=
  @alone _ Deployment.nginxSha256 smallDriver none none (fun _ _ ↦ 0) SmallMesh.wait linkedStore
    SmallMesh.used

omit [Sha256] in
/-- In pass 24 the consumer runs. -/
theorem daemon_converges_linkedRun :
    (@after _ Deployment.nginxSha256 linkedRun 24).get "default/web" =
        some { spec := stackApp "web" "" ["db"]
               replicas := @tracked _ Deployment.nginxSha256 linkedRun "default/web" 24 } ∧
      Converged (stackApp "web" "" ["db"])
        (@Deployment.revision Deployment.nginxSha256 (stackApp "web" "" ["db"]))
        (@tracked _ Deployment.nginxSha256 linkedRun "default/web" 24) ∧
      ∀ r ∈ @tracked _ Deployment.nginxSha256 linkedRun "default/web" 24,
        SmallMesh.view.jobs (linkedRun.mesh 24) r.jobId = some (r.nodeId, .running) := by
  have hwf : linkedStore.WellFormed := by
    intro key managed hget
    rcases get_linkedStore hget with ⟨rfl, rfl⟩ | ⟨rfl, rfl⟩
    · exact ⟨rfl, by decide +kernel, by decide, List.forall_mem_nil _, List.forall_mem_nil _,
        List.forall_mem_nil _⟩
    · exact ⟨rfl, by decide +kernel, by decide, List.forall_mem_nil _, List.forall_mem_nil _,
        List.forall_mem_nil _⟩
  have hhosted : linkedRun.Hosted SmallMesh.view 0 := by
    have htracked : linkedRun.store.tracked =
        [⟨"1", "b", "v1", .running⟩, ⟨"0", "a", "v1", .running⟩] := by
      decide +kernel
    refine ⟨⟨SmallMesh.sound_used, htracked ▸ by decide, ?_, Nat.zero_le _⟩, by decide +kernel,
      fun key _ managed hget ↦ ?_⟩
    · rw [htracked]
      exact List.forall_mem_cons.mpr
        ⟨SmallMesh.knows_used.2, List.forall_mem_singleton.mpr SmallMesh.knows_used.1⟩
    · have hfresh : ∀ host ∈ idleHosts,
          isFresh host (UInt64.toNat 0) (UInt64.toNat 120) = true := by
        decide
      refine ⟨smallDriver_serves _, fun _ ↦ smallDriver_hasRoom
        ⟨_, List.mem_cons_self, hfresh _ List.mem_cons_self, ?_⟩⟩
      rcases get_linkedStore hget with ⟨rfl, rfl⟩ | ⟨rfl, rfl⟩ <;> decide +kernel
  have hranked : linkedRun.Ranked SmallMesh.view
      fun key ↦ if key = "default/web" then 1 else 0 := by
    intro key hkey managed hget dep hdep
    rcases get_linkedStore hget with ⟨rfl, rfl⟩ | ⟨rfl, rfl⟩
    · exact absurd hdep List.not_mem_nil
    · obtain rfl := List.mem_singleton.mp hdep
      exact Or.inr
        ⟨trivial, "default/db", by decide +kernel, _, rfl, by decide, by decide, by decide⟩
  have hroom : linkedStore.room = 4 := by decide +kernel
  refine @daemon_converges _ Deployment.nginxSha256 linkedRun _ _ 0 24 hwf hhosted
    (@undisturbed_alone _ Deployment.nginxSha256 _ _ _ _ _ _ SmallMesh.wait_settles _ _)
    _ hranked 24 ?_ "default/web" (by decide +kernel) _ rfl ?_ le_rfl
  · rw [show linkedRun.store.room = 4 from hroom]
    decide
  · rw [show linkedRun.store.room = 4 from hroom]
    decide

end Example

end DaemonRun

end CeGke
