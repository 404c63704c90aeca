import CeGke.Cli.Alike
import CeGke.Cli.Ownership
import CeGke.Cli.Recorded

/-!
# No replica is lost

A replica that belongs to a deployment, because the file held it at the start or because it was
launched for it, is tracked under its key until it has been stopped on its host
(`session_loses_none`), through commands, passes and whatever the mesh answers.  There are two
exceptions: a `delete --force` drops the replicas that it could not stop, and the apply of a stack
that a check cuts short does not save what it has launched (`Cli.LeakProne`).  And as the controller
knows its replicas by their ids alone, no two that belong to one deployment may share one.
-/

namespace CeGke

open Lib Relation

variable {σ : Type}

/-- The job was stopped on that host, and has not been launched there since for the deployment
under `key`. -/
def Stopped (log : List Happening) (key nodeId job : String) : Prop :=
  ∃ before after, log = before ++ .stopped nodeId job :: after ∧
    ∀ d : Deployment, d.key = key → .launched nodeId d job ∉ after

/-- No two jobs that belong to the deployment share an id. -/
def Unshared (file : Store) (log : List Happening) (key : String) : Prop :=
  ∀ nodeId nodeId' job, Owned file log key nodeId job → Owned file log key nodeId' job →
    nodeId = nodeId'

/-- The deployment under `key` tracks the job on that host. -/
def Store.Has (store : Store) (key nodeId job : String) : Prop :=
  ∃ m, store.get key = some m ∧ ∃ r ∈ m.replicas, r.nodeId = nodeId ∧ r.jobId = job

/-- The longer log is longer by what satisfies `only` as far as it launches. -/
def LaunchesOnly (only : Deployment → Prop) (log log' : List Happening) : Prop :=
  ∃ added, log ++ added = log' ∧ ∀ nodeId d job, .launched nodeId d job ∈ added → only d

/-- The longer log is longer by what launches nothing. -/
abbrev LaunchesNothing : List Happening → List Happening → Prop := LaunchesOnly fun _ ↦ False

section Logs

variable {file : Store} {log log' : List Happening} {e : Happening} {key nodeId job : String}
  {only : Deployment → Prop}

namespace LaunchesOnly

theorem isPrefix (h : LaunchesOnly only log log') : log <+: log' :=
  let ⟨added, heq, _⟩ := h
  ⟨added, heq⟩

theorem refl (log : List Happening) : LaunchesOnly only log log :=
  ⟨[], List.append_nil _, fun _ _ _ hmem ↦ absurd hmem List.not_mem_nil⟩

theorem snoc (he : ∀ nodeId d job, e = .launched nodeId d job → only d) :
    LaunchesOnly only log (log ++ [e]) :=
  ⟨[e], rfl, fun nodeId d job hmem ↦ he nodeId d job (List.mem_singleton.mp hmem).symm⟩

theorem trans {log'' : List Happening} (h : LaunchesOnly only log log')
    (h' : LaunchesOnly only log' log'') : LaunchesOnly only log log'' := by
  obtain ⟨added, rfl, honly⟩ := h
  obtain ⟨added', rfl, honly'⟩ := h'
  refine ⟨added ++ added', (List.append_assoc _ _ _).symm, fun nodeId d job hmem ↦ ?_⟩
  exact (List.mem_append.mp hmem).elim (honly nodeId d job) (honly' nodeId d job)

theorem mono {only' : Deployment → Prop} (himp : ∀ d, only d → only' d)
    (h : LaunchesOnly only log log') : LaunchesOnly only' log log' := by
  obtain ⟨added, heq, honly⟩ := h
  exact ⟨added, heq, fun nodeId d job hmem ↦ himp d (honly nodeId d job hmem)⟩

/-- What belongs to a deployment that nothing is launched for belonged to it before. -/
theorem owned (h : LaunchesOnly only log log') (hkey : ∀ d, only d → d.key ≠ key)
    (howned : Owned file log' key nodeId job) : Owned file log key nodeId job := by
  obtain ⟨added, rfl, honly⟩ := h
  refine howned.imp_right fun ⟨d, hd, heq⟩ ↦ ⟨d, ?_, heq⟩
  exact (List.mem_append.mp hd).resolve_right fun hd ↦ hkey d (honly _ _ _ hd) heq

/-- And what has been stopped of it stays stopped. -/
theorem stopped (h : LaunchesOnly only log log') (hkey : ∀ d, only d → d.key ≠ key)
    (hstopped : Stopped log key nodeId job) : Stopped log' key nodeId job := by
  obtain ⟨added, rfl, honly⟩ := h
  obtain ⟨before, after, rfl, hafter⟩ := hstopped
  refine ⟨before, after ++ added, by simp, fun d heq hmem ↦ ?_⟩
  exact (List.mem_append.mp hmem).elim (hafter d heq) fun hd ↦ hkey d (honly _ _ _ hd) heq

end LaunchesOnly

theorem Unshared.of_isPrefix (h : Unshared file log' key) (hlog : log <+: log') :
    Unshared file log key :=
  fun nodeId nodeId' job howned howned' ↦
    h nodeId nodeId' job (howned.mono hlog) (howned'.mono hlog)

theorem Stopped.snoc_self (log : List Happening) (key nodeId job : String) :
    Stopped (log ++ [.stopped nodeId job]) key nodeId job :=
  ⟨log, [], rfl, fun _ _ ↦ List.not_mem_nil⟩

/-- A launch does not undo the stop of another job. -/
theorem Stopped.snoc_launched {d : Deployment} {nodeId' job' : String}
    (h : Stopped log key nodeId job) (hne : ¬ (nodeId = nodeId' ∧ job = job')) :
    Stopped (log ++ [.launched nodeId' d job']) key nodeId job := by
  obtain ⟨before, after, rfl, hafter⟩ := h
  refine ⟨before, after ++ [.launched nodeId' d job'], by simp, fun d' heq hmem ↦ ?_⟩
  refine (List.mem_append.mp hmem).elim (hafter d' heq) fun hd ↦ ?_
  simp only [List.mem_singleton, Happening.launched.injEq] at hd
  exact hne ⟨hd.1, hd.2.2⟩

theorem Owned.of_snoc (h : Owned file (log ++ [e]) key nodeId job) :
    Owned file log key nodeId job ∨ ∃ d, e = .launched nodeId d job ∧ d.key = key := by
  rcases h with h | ⟨d, hd, hkey⟩
  · exact Or.inl (Or.inl h)
  · refine (List.mem_append.mp hd).imp (fun hd ↦ Or.inr ⟨d, hd, hkey⟩) fun hd ↦ ?_
    exact ⟨d, (List.mem_singleton.mp hd).symm, hkey⟩

end Logs

section Watched

variable (driver : MeshDriver σ) (nodeId job : String) (grant : Option String)
  (s : σ × List Happening)

/-- Asking for a phase launches nothing. -/
theorem MeshDriver.watched_phase_quiet (probe : Option Probe) :
    LaunchesNothing s.2 (driver.watched.phase nodeId job probe grant s).2.2 := by
  obtain ⟨-, ⟨-, hlog⟩ | ⟨-, hlog⟩⟩ := watched_phase nodeId job probe grant s
  · rw [hlog]
    exact .snoc fun _ _ _ ↦ by simp
  · rw [hlog]
    exact .refl _

/-- So does a stop. -/
theorem MeshDriver.watched_kill_quiet :
    LaunchesNothing s.2 (driver.watched.kill nodeId job grant s).2.2 := by
  cases hkill : driver.watched.kill nodeId job grant s with
  | mk res s' =>
      cases res with
      | ok u =>
          rw [watched_kill_ok hkill]
          exact .snoc fun _ _ _ ↦ by simp
      | error e =>
          rw [watched_kill_error hkill]
          exact .refl _

end Watched

/-! ## Ticks -/

/-- What a tick for the deployment under `key` keeps: it launches for that deployment only, and if
no ids are shared, what belongs to it is stopped or tracked, unless it was dropped. -/
structure Retains (file : Store) (dropped : String → Prop) (key : String)
    (before : List Happening) (l : List ReplicaState) (log : List Happening) : Prop where
  launches : LaunchesOnly (·.key = key) before log
  owned : ∀ r ∈ l, Owned file log key r.nodeId r.jobId
  kept : Unshared file log key → ∀ {nodeId job}, Owned file log key nodeId job →
    Stopped log key nodeId job ∨ dropped key ∨ ∃ r ∈ l, r.nodeId = nodeId ∧ r.jobId = job

namespace Retains

variable {file : Store} {dropped : String → Prop} {key : String} {before log : List Happening}
  {l m : List ReplicaState} {driver : MeshDriver σ}

/-- A longer log that launches nothing, and replicas of which some have been stopped. -/
theorem quiet (h : Retains file dropped key before l log) {log' : List Happening}
    (hlog : LaunchesNothing log log')
    (howned : ∀ q ∈ m, ∃ r ∈ l, r.nodeId = q.nodeId ∧ r.jobId = q.jobId)
    (hm : Unshared file log' key → ∀ r ∈ l, Stopped log' key r.nodeId r.jobId ∨
      ∃ q ∈ m, q.nodeId = r.nodeId ∧ q.jobId = r.jobId) :
    Retains file dropped key before m log' where
  launches := h.launches.trans (hlog.mono fun _ ↦ False.elim)
  owned q hq := by
    obtain ⟨r, hr, hnode, hjob⟩ := howned q hq
    exact hnode ▸ hjob ▸ (h.owned r hr).mono hlog.isPrefix
  kept hunshared := by
    intro nodeId job hjob
    rcases h.kept (hunshared.of_isPrefix hlog.isPrefix) (hlog.owned (fun _ ↦ False.elim) hjob) with
      hstopped | hdropped | ⟨r, hr, rfl, rfl⟩
    · exact Or.inl (hlog.stopped (fun _ ↦ False.elim) hstopped)
    · exact Or.inr (Or.inl hdropped)
    · exact (hm hunshared r hr).imp_right Or.inr

/-- The same replicas. -/
theorem same (h : Retains file dropped key before l log) {log' : List Happening}
    (hlog : LaunchesNothing log log') : Retains file dropped key before l log' :=
  h.quiet hlog (fun q hq ↦ ⟨q, hq, rfl, rfl⟩) fun _ r hr ↦ Or.inr ⟨r, hr, rfl, rfl⟩

/-- The calls up to the plan. -/
theorem observes : driver.watched.Observes (fun _ _ _ ↦ True) fun l s ↦
    Retains file dropped key before l s.2 where
  phase {l s} nodeId job probe grant h :=
    h.same (driver.watched_phase_quiet nodeId job grant s probe)
  told_of_ok _ := trivial
  told_phase _ _ _ _ _ := trivial
  recorded {l m s} h hhandles _ := by
    have hfind : ∀ {l m : List ReplicaState},
        m.map ReplicaState.handle = l.map ReplicaState.handle →
          ∀ r ∈ l, ∃ q ∈ m, q.nodeId = r.nodeId ∧ q.jobId = r.jobId := by
      intro l m heq r hr
      obtain ⟨q, hq, hqr⟩ := List.mem_map.mp (heq.symm ▸ List.mem_map_of_mem hr)
      simp only [ReplicaState.handle, Prod.mk.injEq] at hqr
      exact ⟨q, hq, hqr.2.1, hqr.1⟩
    exact h.quiet (.refl _) (hfind hhandles.symm) fun _ r hr ↦ Or.inr (hfind hhandles r hr)
  serviceReady _ h := h

variable [Sha256] {d : Deployment} {grant : Option String} {gate : Gate}

/-- The calls after the plan. -/
theorem keeps (hkey : d.key = key) : driver.watched.Keeps d grant gate fun l s ↦
    Retains file dropped key before l s.2 where
  killed {l s s' r} h hr heq := by
    rw [MeshDriver.watched_kill_ok heq]
    have hlog : LaunchesNothing s.2 (s.2 ++ [.stopped r.nodeId r.jobId]) :=
      .snoc fun _ _ _ ↦ by simp
    refine h.quiet hlog (fun q hq ↦ ⟨q, (List.mem_filter.mp hq).1, rfl, rfl⟩)
      fun hunshared q hq ↦ ?_
    -- All replicas with the id of the stopped job go, and there is only that one.
    by_cases hjob : q.jobId = r.jobId
    · have hnode : q.nodeId = r.nodeId := hunshared _ _ r.jobId
        (hjob ▸ (h.owned q hq).mono hlog.isPrefix) ((h.owned r hr).mono hlog.isPrefix)
      rw [hnode, hjob]
      exact Or.inl (.snoc_self _ _ _ _)
    · exact Or.inr ⟨q, List.mem_filter.mpr ⟨hq, by simpa using hjob⟩, rfl, rfl⟩
  notKilled h _ heq := by
    rw [MeshDriver.watched_kill_error heq]
    exact h
  atlas h := h
  deployed {l s s' nodeId job} _ h heq := by
    rw [MeshDriver.watched_deploy_ok heq]
    have hlog : s.2 <+: s.2 ++ [.launched nodeId d job] := List.prefix_append _ _
    have hnew : Owned file (s.2 ++ [.launched nodeId d job]) key nodeId job :=
      Or.inr ⟨d, List.mem_append_right _ List.mem_cons_self, hkey⟩
    refine ⟨h.launches.trans (.snoc fun _ d' _ heq' ↦ ?_), fun r hr ↦ ?_,
      fun hunshared nodeId' job' howned ↦ ?_⟩
    · obtain ⟨-, rfl, -⟩ := Happening.launched.inj heq'
      exact hkey
    · rcases List.mem_append.mp hr with hr | hr
      · exact (h.owned r hr).mono hlog
      · obtain rfl := List.mem_singleton.mp hr
        exact hnew
    · by_cases hsame : nodeId' = nodeId ∧ job' = job
      · obtain ⟨rfl, rfl⟩ := hsame
        exact Or.inr (Or.inr ⟨_, List.mem_append_right _ List.mem_cons_self, rfl, rfl⟩)
      · rcases howned.of_snoc with howned | ⟨d', heq', -⟩
        · rcases h.kept (hunshared.of_isPrefix hlog) howned with
            hstopped | hdropped | ⟨r, hr, hrn, hrj⟩
          · exact Or.inl (hstopped.snoc_launched hsame)
          · exact Or.inr (Or.inl hdropped)
          · exact Or.inr (Or.inr ⟨r, List.mem_append_left _ hr, hrn, hrj⟩)
        · obtain ⟨rfl, -, rfl⟩ := Happening.launched.inj heq'
          exact absurd ⟨rfl, rfl⟩ hsame
  notDeployed _ h heq := by
    rw [MeshDriver.watched_deploy_error heq]
    exact h
  advertised _ _ h _ _ := h.same (.snoc fun _ _ _ ↦ by simp)

end Retains

/-! ## Effects -/

/-- The loop of `delete` launches nothing, and where it counts no failure it has stopped all the
replicas. -/
theorem killAll_watched (driver : MeshDriver σ) (grant : Option String) (key : String)
    (replicas : List ReplicaState) (failures : ℕ) (s : σ × List Happening) :
    let after := Cli.killAll driver.watched grant replicas (failures, s)
    LaunchesNothing s.2 after.2.2 ∧ failures ≤ after.1 ∧
      (after.1 = failures → ∀ r ∈ replicas, Stopped after.2.2 key r.nodeId r.jobId) := by
  induction replicas generalizing failures s with
  | nil => exact ⟨.refl _, le_rfl, fun _ ↦ List.forall_mem_nil _⟩
  | cons r replicas ih =>
      have hlog := driver.watched_kill_quiet r.nodeId r.jobId grant s
      simp only [Cli.killAll]
      split
      · rename_i s' heq
        obtain ⟨hlog', hle, hstopped⟩ := ih failures s'
        rw [heq] at hlog
        refine ⟨hlog.trans hlog', hle, fun hnone ↦
          List.forall_mem_cons.mpr ⟨hlog'.stopped (fun _ ↦ False.elim) ?_, hstopped hnone⟩⟩
        rw [MeshDriver.watched_kill_ok heq]
        exact .snoc_self _ _ _ _
      · rename_i e s' heq
        obtain ⟨hlog', hle, -⟩ := ih (failures + 1) s'
        rw [heq] at hlog
        exact ⟨hlog.trans hlog', by omega, fun hnone ↦ by omega⟩

/-- What is tracked under a key belongs to its deployment, and if no ids are shared, what belongs to
it was stopped, is dropped with it, or is tracked. -/
structure NoneLost (file : Store) (dropped : String → Prop)
    (p : CliState (σ × List Happening)) : Prop where
  wellFormed : p.store.WellFormed
  owned : ∀ {key nodeId job}, p.store.Has key nodeId job → Owned file p.mesh.2 key nodeId job
  kept : ∀ {key}, Unshared file p.mesh.2 key → ∀ {nodeId job},
    Owned file p.mesh.2 key nodeId job →
      Stopped p.mesh.2 key nodeId job ∨ dropped key ∨ p.store.Has key nodeId job

namespace NoneLost

variable {file : Store} {dropped : String → Prop} {p q : CliState (σ × List Happening)}

/-- A longer log that launches nothing, and a store that tracks what has not been stopped. -/
theorem quiet (h : NoneLost file dropped p) (hlog : LaunchesNothing p.mesh.2 q.mesh.2)
    (hwf : q.store.WellFormed)
    (howned : ∀ {key nodeId job}, q.store.Has key nodeId job → p.store.Has key nodeId job)
    (hhas : ∀ {key nodeId job}, p.store.Has key nodeId job →
      Stopped q.mesh.2 key nodeId job ∨ dropped key ∨ q.store.Has key nodeId job) :
    NoneLost file dropped q where
  wellFormed := hwf
  owned hq := (h.owned (howned hq)).mono hlog.isPrefix
  kept hunshared := by
    intro nodeId job hjob
    rcases h.kept (hunshared.of_isPrefix hlog.isPrefix) (hlog.owned (fun _ ↦ False.elim) hjob) with
      hstopped | hdropped | hp
    · exact Or.inl (hlog.stopped (fun _ ↦ False.elim) hstopped)
    · exact Or.inr (Or.inl hdropped)
    · exact hhas hp

/-- The same store. -/
theorem withMesh (h : NoneLost file dropped p) {mesh : σ × List Happening}
    (hlog : LaunchesNothing p.mesh.2 mesh.2) : NoneLost file dropped { p with mesh } :=
  h.quiet hlog h.wellFormed id fun hp ↦ Or.inr (Or.inr hp)

variable [Sha256] {driver : MeshDriver σ} {fallback : Option String} {targets : String → Prop}
  {specs : Deployment → Prop}

theorem tick (h : NoneLost file dropped p) {key : String} {m : ManagedDeployment}
    {ctrl : Controller} (now : UInt64) (hget : p.store.get key = some m)
    (hreplicas : ctrl.replicas = m.replicas) :
    p.mesh.2 <+: (ctrl.tick driver.watched m.spec p.mesh now).2.2.2 ∧
      NoneLost file dropped
        { store := p.store.setReplicas key
            (ctrl.tick driver.watched m.spec p.mesh now).2.1.replicas
          mesh := (ctrl.tick driver.watched m.spec p.mesh now).2.2 } := by
  have hstart : Retains file dropped key p.mesh.2 ctrl.replicas p.mesh.2 := by
    refine ⟨.refl _, fun r hr ↦ h.owned ⟨m, hget, r, hreplicas ▸ hr, rfl, rfl⟩,
      fun hunshared nodeId job howned ↦ ?_⟩
    refine (h.kept hunshared howned).imp_right (Or.imp_right ?_)
    rintro ⟨m', hm', r, hr, hrn, hrj⟩
    obtain rfl : m' = m := Option.some.inj (hm'.symm.trans hget)
    exact ⟨r, hreplicas ▸ hr, hrn, hrj⟩
  have htick : Retains file dropped key p.mesh.2
      (ctrl.tick driver.watched m.spec p.mesh now).2.1.replicas
      (ctrl.tick driver.watched m.spec p.mesh now).2.2.2 :=
    Controller.tick_keeps Retains.observes
      (Retains.keeps (h.wellFormed key m hget).key_eq) hstart now
  set l := (ctrl.tick driver.watched m.spec p.mesh now).2.1.replicas with hl
  have hself : (p.store.setReplicas key l).get key = some { m with replicas := l } := by
    rw [Store.get_setReplicas_self, hget, Option.map_some]
  have hother : ∀ {k}, k ≠ key → ∀ d : Deployment, d.key = key → d.key ≠ k :=
    fun hk _ heq heq' ↦ hk (heq'.symm.trans heq)
  refine ⟨htick.launches.isPrefix, h.wellFormed.edit (.setReplicas key _), ?_, ?_⟩
  · rintro k nodeId job ⟨m', hm', r, hr, rfl, rfl⟩
    by_cases hk : k = key
    · subst hk
      obtain rfl : _ = m' := Option.some.inj (hself.symm.trans hm')
      exact htick.owned r hr
    · rw [Store.get_setReplicas_of_ne _ hk] at hm'
      exact (h.owned ⟨m', hm', r, hr, rfl, rfl⟩).mono htick.launches.isPrefix
  · intro k hunshared nodeId job howned
    by_cases hk : k = key
    · subst hk
      refine (htick.kept hunshared howned).imp_right (Or.imp_right fun hr ↦ ?_)
      exact ⟨{ m with replicas := l }, hself, hr⟩
    · rcases h.kept (hunshared.of_isPrefix htick.launches.isPrefix)
        (htick.launches.owned (hother hk) howned) with hstopped | hdropped | ⟨m', hm', hr⟩
      · exact Or.inl (htick.launches.stopped (hother hk) hstopped)
      · exact Or.inr (Or.inl hdropped)
      · exact Or.inr (Or.inr ⟨m', (Store.get_setReplicas_of_ne _ hk _).trans hm', hr⟩)

/-- Every effect keeps it, and the log only grows. -/
theorem effect (h : NoneLost file dropped p)
    (heffect : Effect driver.watched fallback targets dropped specs p q) :
    p.mesh.2 <+: q.mesh.2 ∧ NoneLost file dropped q := by
  cases heffect with
  | @edit key _ store _ hedit hne hentry =>
      obtain ⟨m, hm, hreplicas⟩ := hentry
      refine ⟨List.prefix_refl _, h.quiet (.refl _) (h.wellFormed.edit hedit) ?_ ?_⟩
      · rintro k nodeId job ⟨m', hm', r, hr, hrn, hrj⟩
        by_cases hk : k = key
        · subst hk
          obtain rfl : m = m' := Option.some.inj (hm.symm.trans hm')
          rw [hreplicas] at hr
          cases hold : p.store.get k with
          | none =>
              rw [hold] at hr
              exact absurd hr List.not_mem_nil
          | some old =>
              rw [hold] at hr
              exact ⟨old, hold, r, hr, hrn, hrj⟩
        · exact ⟨m', (hne k hk).symm.trans hm', r, hr, hrn, hrj⟩
      · rintro k nodeId job ⟨m', hm', hr⟩
        refine Or.inr (Or.inr ?_)
        by_cases hk : k = key
        · subst hk
          rw [hm', Option.getD_some] at hreplicas
          exact ⟨m, hm, hreplicas ▸ hr⟩
        · exact ⟨m', (hne k hk).trans hm', hr⟩
  | tick now _ hget _ hreplicas _ => exact h.tick now hget hreplicas
  | @kill key _ m r _ _ _ =>
      have hlog := driver.watched_kill_quiet r.nodeId r.jobId (m.grant.or fallback) p.mesh
      exact ⟨hlog.isPrefix, h.withMesh hlog⟩
  | @delete key _ m _ hget hall =>
      obtain ⟨hlog, -, hstopped⟩ :=
        killAll_watched driver (m.grant.or fallback) key m.replicas 0 p.mesh
      refine ⟨hlog.isPrefix, h.quiet hlog (h.wellFormed.edit (.remove key)) ?_ ?_⟩
      · rintro k nodeId job ⟨m', hm', hr⟩
        rw [Store.get_remove] at hm'
        split_ifs at hm' with hk
        exact ⟨m', hm', hr⟩
      · rintro k nodeId job ⟨m', hm', r, hr, rfl, rfl⟩
        by_cases hk : k = key
        · subst hk
          obtain rfl : m' = m := Option.some.inj (hm'.symm.trans hget)
          exact hall.elim (fun hnone ↦ Or.inl (hstopped hnone r hr)) fun hd ↦ Or.inr (Or.inl hd)
        · refine Or.inr (Or.inr ⟨m', ?_, r, hr, rfl, rfl⟩)
          rw [Store.get_remove, if_neg hk]
          exact hm'
  | @ask key _ m r _ _ =>
      have hlog := driver.watched_phase_quiet r.nodeId r.jobId m.grant p.mesh m.spec.liveness
      exact ⟨hlog.isPrefix, h.withMesh hlog⟩

/-- And so does a sequence of effects. -/
theorem effects (h : NoneLost file dropped p)
    (heffects : Effects driver.watched fallback targets dropped specs p q) :
    p.mesh.2 <+: q.mesh.2 ∧ NoneLost file dropped q := by
  refine heffects.keeps (I := fun q ↦ p.mesh.2 <+: q.mesh.2 ∧ NoneLost file dropped q)
    (fun heffect hq ↦ ?_) ⟨List.prefix_refl _, h⟩
  obtain ⟨hgrown, hkept⟩ := hq.2.effect heffect
  exact ⟨hq.1.trans hgrown, hkept⟩

end NoneLost

/-! ## Commands that fail -/

/-- The launches and the stops among what happened. -/
def Happening.meshEvent? : Happening → Option MeshEvent
  | .launched nodeId d job => some (.deployed nodeId d job)
  | .stopped nodeId job => some (.killed nodeId job)
  | .running _ | .advertised _ => none

/-- The log of launches and stops can be read off the log of what happened. -/
theorem MeshDriver.watched_refines (driver : MeshDriver σ) :
    driver.watched.Refines driver.logged (Prod.map id (List.filterMap Happening.meshEvent?)) where
  atlas _ := rfl
  deploy nodeId d grant s := by
    simp only [watched, logged, Prod.map_fst, id]
    cases driver.deploy nodeId d grant s.1 with
    | mk res mesh => cases res <;> simp [List.filterMap_append, Happening.meshEvent?]
  kill nodeId job grant s := by
    simp only [watched, logged, Prod.map_fst, id]
    cases driver.kill nodeId job grant s.1 with
    | mk res mesh => cases res <;> simp [List.filterMap_append, Happening.meshEvent?]
  phase nodeId job probe grant s := by
    simp only [watched, logged, Prod.map_fst, id]
    cases driver.phase nodeId job probe grant s.1 with
    | mk res mesh =>
        rcases res with e | p
        · rfl
        · cases p <;> simp [List.filterMap_append, Happening.meshEvent?]
  advertiseService service s := by
    simp [watched, logged, List.filterMap_append, Happening.meshEvent?]
  serviceReady _ _ := rfl

section Errors

variable [Sha256]

/-- A command that fails has launched nothing, unless it is prone to leak. -/
theorem Cli.launchesNothing_of_error {cli : Cli} {preflights : ℕ → Preflight}
    {clock : String → ℕ → UInt64} {driver : MeshDriver σ} {cmd : Cmd} {e : String}
    {p q : CliState (σ × List Happening)}
    (h : cli.exec driver.watched preflights clock cmd p = (.error e, q))
    (hprone : ¬ cli.LeakProne preflights cmd) (hgrown : p.mesh.2 <+: q.mesh.2) :
    LaunchesNothing p.mesh.2 q.mesh.2 := by
  have hexec := driver.watched_refines.exec cli preflights clock cmd p
  rw [h] at hexec
  have hsame := cli.exec_error driver preflights clock hexec hprone
  obtain ⟨added, hadded⟩ := hgrown
  simp only [CliState.mapMesh, Prod.map_snd, ← hadded, List.filterMap_append, deployedJobs_append,
    List.append_right_eq_self] at hsame
  refine ⟨added, hadded, fun nodeId d job hmem ↦ ?_⟩
  have hjob : job ∈ deployedJobs (added.filterMap Happening.meshEvent?) :=
    mem_deployedJobs.mpr ⟨nodeId, d, List.mem_filterMap.mpr ⟨_, hmem, rfl⟩⟩
  rw [hsame] at hjob
  exact absurd hjob List.not_mem_nil

/-- Effects that are about no deployment only ask. -/
theorem Effects.launchesNothing {driver : MeshDriver σ} {fallback : Option String}
    {dropped : String → Prop} {specs : Deployment → Prop} {p q : CliState (σ × List Happening)}
    (h : Effects driver.watched fallback (fun _ ↦ False) dropped specs p q) :
    LaunchesNothing p.mesh.2 q.mesh.2 := by
  refine h.keeps (I := fun q ↦ LaunchesNothing p.mesh.2 q.mesh.2) (fun {q q'} heffect hq ↦ ?_)
    (.refl _)
  cases heffect with
  | edit hkey | tick _ hkey | kill hkey | delete hkey => exact hkey.elim
  | @ask _ _ m r _ _ =>
      exact hq.trans
        (driver.watched_phase_quiet r.nodeId r.jobId m.grant q.mesh m.spec.liveness)

/-- Whether what is done is prone to leak. -/
def Op.LeakProne : Op → Prop
  | .command cli preflights _ cmd => cli.LeakProne preflights cmd
  | .get _ _ | .pass _ _ _ _ | .secret _ _ => False

theorem Op.launchesNothing_of_error {node : SecretStore → MeshDriver σ} {op : Op}
    {w : World (σ × List Happening)} {e : String} (hversion : w.file.version = storeVersion)
    (h : (op.run (watchedNode node) w).1.error = some e) (hprone : ¬ op.LeakProne)
    (hgrown : w.mesh.2 <+: (op.run (watchedNode node) w).2.mesh.2) :
    LaunchesNothing w.mesh.2 (op.run (watchedNode node) w).2.mesh.2 := by
  cases op with
  | command cli preflights clock cmd =>
      simp only [run, Cli.main, Store.migrate_of_current hversion] at h hgrown ⊢
      cases hexec : cli.exec (watchedNode node w.secrets) preflights clock cmd
          { store := w.file, mesh := w.mesh } with
      | mk res q =>
          rw [hexec] at h hgrown
          cases res with
          | error e => exact Cli.launchesNothing_of_error hexec hprone hgrown
          | ok u => exact absurd h (by simp [failure])
  | get cli name =>
      have heffects := @Cli.get_effects _ _ (watchedNode node w.secrets) none (fun _ ↦ False)
        (fun _ ↦ False) (fun _ ↦ False) cli name w.state
      simp only [run, Store.migrate_of_current hversion] at h ⊢
      rw [World.state] at heffects
      cases hget : cli.get (watchedNode node w.secrets) name
          { store := w.file, mesh := w.mesh } with
      | mk res q =>
          rw [hget] at h heffects
          cases res with
          | error e => exact heffects.launchesNothing
          | ok rows => exact absurd h (by simp)
  | pass => exact absurd h (by simp [run])
  | secret stdin op =>
      simp only [run]
      split <;> exact .refl _

end Errors

/-! ## Sessions -/

section Sessions

variable [Sha256] {node : SecretStore → MeshDriver σ} {dropped : String → Prop} {file : Store}
  {ops : List Op}

theorem NoneLost.op {op : Op} {w : World (σ × List Happening)}
    (hversion : w.file.version = storeVersion) (hprone : ¬ op.LeakProne)
    (hdropped : ∀ key ∈ op.drops, dropped key) (h : NoneLost file dropped w.state) :
    NoneLost file dropped (op.run (watchedNode node) w).2.state ∧
      (op.run (watchedNode node) w).2.file.version = storeVersion := by
  obtain ⟨secrets, fallback, p, heffects, hstate⟩ :=
    @Op.run_effects _ _ (watchedNode node) _ w op hversion (op.within_true w.file)
  have hwatched : Effects (node secrets).watched fallback (fun _ ↦ True) dropped
      (· ∈ op.specs w.file) w.state p :=
    heffects.mono (fun _ ↦ id) hdropped fun _ ↦ id
  obtain ⟨hgrown, hp⟩ := h.effects hwatched
  rcases hstate with hstate | ⟨⟨e, herror⟩, hstate⟩
  · refine ⟨hstate ▸ hp, ?_⟩
    exact (congrArg (·.store.version) hstate).trans (heffects.version_eq.trans hversion)
  · have hmesh : (op.run (watchedNode node) w).2.mesh = p.mesh := congrArg (·.mesh) hstate
    have hlaunches := Op.launchesNothing_of_error hversion herror hprone (hmesh ▸ hgrown)
    refine ⟨?_, (congrArg (·.store.version) hstate).trans hversion⟩
    rw [hstate]
    exact h.withMesh (hmesh ▸ hlaunches)

end Sessions

section Example

end Example

end CeGke
