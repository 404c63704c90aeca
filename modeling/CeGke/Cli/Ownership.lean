import CeGke.Cli.Session
import CeGke.Cli.WellFormed
import CeGke.Controller.History
import CeGke.Lib.Logs

/-!
# What a session accounts for

Nothing happens in a session without a reason before it (`Warranted`): a job is stopped only for the
deployment that it was launched for, or that held it from the start; a deployment is launched only
when its dependencies have been advertised; and a service is advertised only when a replica of its
deployment has been told to be running.  Every call of a tick keeps this (`Accounts`), so every
effect does, and every session.

One consequence is whose jobs a session launches, tracks and stops (`session_owned`), and so that a
session that is about one namespace leaves the others alone, entries and replicas
(`session_isolated`).
-/

namespace CeGke

open Lib Relation

variable {σ : Type}

/-! ## Reasons -/

/-- The job on that host belongs to the deployment under `key`: the file held it there at the
start, or it was launched for that deployment. -/
def Owned (file : Store) (log : List Happening) (key nodeId job : String) : Prop :=
  (∃ m, file.get key = some m ∧ ∃ r ∈ m.replicas, r.nodeId = nodeId ∧ r.jobId = job) ∨
    ∃ d, .launched nodeId d job ∈ log ∧ d.key = key

/-- The job was told to be running, or the file held it as running at the start. -/
def Ran (file : Store) (log : List Happening) (job : String) : Prop :=
  (∃ key m, file.get key = some m ∧ ∃ r ∈ m.replicas, r.jobId = job ∧ r.phase = .running) ∨
    .running job ∈ log

/-- The service was known at the start or has been advertised. -/
def Announced (atStart : String → Prop) (log : List Happening) (service : String) : Prop :=
  atStart service ∨ .advertised service ∈ log

/-- What has to have happened before; what is launched and advertised, it is for one of the
`specs`. -/
def Warranted (atStart targets : String → Prop) (specs : Deployment → Prop) (file : Store)
    (before : List Happening) : Happening → Prop
  | .launched _ d _ => targets d.key ∧ specs d ∧
      ∀ dep ∈ d.dependsOn, Announced atStart before (dep.resolvedServiceName d.nameSpace)
  | .stopped nodeId job => ∃ key, targets key ∧ Owned file before key nodeId job
  | .running _ => True
  | .advertised service => ∃ (d : Deployment) (nodeId job : String),
      d.serviceName = some service ∧ specs d ∧ Owned file before d.key nodeId job ∧
        Ran file before job

section Mono

variable {file : Store} {log log' : List Happening} (hlog : log <+: log')

include hlog

theorem Owned.mono {key nodeId job : String} (h : Owned file log key nodeId job) :
    Owned file log' key nodeId job :=
  h.imp_right fun ⟨d, hd, hkey⟩ ↦ ⟨d, hlog.subset hd, hkey⟩

theorem Ran.mono {job : String} (h : Ran file log job) : Ran file log' job :=
  h.imp_right fun hmem ↦ hlog.subset hmem

theorem Announced.mono {atStart : String → Prop} {service : String}
    (h : Announced atStart log service) : Announced atStart log' service :=
  h.imp_right fun hmem ↦ hlog.subset hmem

end Mono

/-! ## Ticks -/

section Tick

variable (known : σ → String → Prop) (start : σ) (origin : List Happening)
  (targets : String → Prop) (specs : Deployment → Prop) (file : Store)

/-- What the log and the mesh have to do with each other, since the log was `origin`. -/
structure Accounted (s : σ × List Happening) : Prop where
  justified : Justified
    (fun before e ↦ origin <+: before → Warranted (known start) targets specs file before e) s.2
  announced : ∀ service, known s.1 service → Announced (known start) s.2 service

/-- What a tick for the deployment under `key` keeps of it, and of the replicas that are
tracked. -/
structure Accounts (key : String) (before : List Happening) (l : List ReplicaState)
    (s : σ × List Happening) : Prop extends Accounted known start origin targets specs file s where
  grown : before <+: s.2
  owned : ∀ r ∈ l, Owned file s.2 key r.nodeId r.jobId
  ran : ∀ r ∈ l, r.phase = .running → Ran file s.2 r.jobId

end Tick

section Tick

variable {known : σ → String → Prop} {start : σ} {origin : List Happening}
  {targets : String → Prop} {specs : Deployment → Prop} {file : Store} {driver : MeshDriver σ}
  {s : σ × List Happening} {mesh : σ}

namespace Accounted

/-- Nothing is logged, and nothing gets known. -/
theorem quiet (h : Accounted known start origin targets specs file s)
    (hknown : ∀ service, known mesh service → known s.1 service) :
    Accounted known start origin targets specs file (mesh, s.2) :=
  ⟨h.justified, fun service hs ↦ h.announced service (hknown service hs)⟩

/-- Something happens that has its reason, and nothing gets known by it but what is
announced. -/
theorem snoc (h : Accounted known start origin targets specs file s) {e : Happening}
    (he : Warranted (known start) targets specs file s.2 e)
    (hknown : ∀ service, known mesh service → known s.1 service ∨ e = .advertised service) :
    Accounted known start origin targets specs file (mesh, s.2 ++ [e]) := by
  refine ⟨h.justified.snoc fun _ ↦ he, fun service hs ↦ ?_⟩
  rcases hknown service hs with hs | rfl
  · exact (h.announced service hs).mono (List.prefix_append _ _)
  · exact Or.inr (List.mem_append_right _ List.mem_cons_self)

/-- A phase is asked for. -/
theorem phase (h : Accounted known start origin targets specs file s) (honest : driver.Honest known)
    (nodeId job : String) (probe : Option Probe) (grant : Option String) :
    s.2 <+: (driver.watched.phase nodeId job probe grant s).2.2 ∧
      Accounted known start origin targets specs file
        (driver.watched.phase nodeId job probe grant s).2 := by
  obtain ⟨hmesh, ⟨_, hlog⟩ | ⟨_, hlog⟩⟩ :=
    MeshDriver.watched_phase nodeId job probe grant s
  · rw [← Prod.mk.eta (p := (driver.watched.phase nodeId job probe grant s).2), hmesh, hlog]
    exact ⟨List.prefix_append _ _, h.snoc trivial fun _ hs ↦ Or.inl (honest.phase _ _ _ _ hs)⟩
  · rw [← Prod.mk.eta (p := (driver.watched.phase nodeId job probe grant s).2), hmesh, hlog]
    exact ⟨List.prefix_refl _, h.quiet fun _ hs ↦ honest.phase _ _ _ _ hs⟩

/-- A replica is stopped, or not. -/
theorem kill (h : Accounted known start origin targets specs file s) (honest : driver.Honest known)
    {key nodeId job : String} (hkey : targets key) (howned : Owned file s.2 key nodeId job)
    (grant : Option String) :
    s.2 <+: (driver.watched.kill nodeId job grant s).2.2 ∧
      Accounted known start origin targets specs file
        (driver.watched.kill nodeId job grant s).2 := by
  cases hkill : driver.watched.kill nodeId job grant s with
  | mk res s' =>
      cases res with
      | ok u =>
          rw [MeshDriver.watched_kill_ok hkill]
          exact ⟨List.prefix_append _ _,
            h.snoc ⟨key, hkey, howned⟩ fun _ hs ↦ Or.inl (honest.kill _ _ _ hs)⟩
      | error e =>
          rw [MeshDriver.watched_kill_error hkill]
          exact ⟨List.prefix_refl _, h.quiet fun _ hs ↦ honest.kill _ _ _ hs⟩

/-- The loop of `delete`. -/
theorem killAll (honest : driver.Honest known) {key : String} (hkey : targets key)
    (grant : Option String) {replicas : List ReplicaState} (failures : ℕ)
    (h : Accounted known start origin targets specs file s)
    (howned : ∀ r ∈ replicas, Owned file s.2 key r.nodeId r.jobId) :
    s.2 <+: (Cli.killAll driver.watched grant replicas (failures, s)).2.2 ∧
      Accounted known start origin targets specs file
        (Cli.killAll driver.watched grant replicas (failures, s)).2 := by
  induction replicas generalizing failures s with
  | nil => exact ⟨List.prefix_refl _, h⟩
  | cons r replicas ih =>
      obtain ⟨hr, hrest⟩ := List.forall_mem_cons.mp howned
      obtain ⟨hlog, haccounted⟩ := h.kill honest hkey hr grant
      have hnext := fun n ↦ ih n haccounted fun q hq ↦ (hrest q hq).mono hlog
      rw [Cli.killAll]
      split
      · rename_i heq
        rw [heq] at hlog hnext
        exact ⟨hlog.trans (hnext _).1, (hnext _).2⟩
      · rename_i heq
        rw [heq] at hlog hnext
        exact ⟨hlog.trans (hnext _).1, (hnext _).2⟩

end Accounted

namespace Accounts

variable {key : String} {before : List Happening} {l m : List ReplicaState}

/-- Other replicas, and a log that has grown. -/
theorem next (h : Accounts known start origin targets specs file key before l s)
    {s' : σ × List Happening} (hlog : s.2 <+: s'.2)
    (haccounted : Accounted known start origin targets specs file s')
    (hm : ∀ r ∈ m, r ∈ l ∨
      Owned file s'.2 key r.nodeId r.jobId ∧ (r.phase = .running → Ran file s'.2 r.jobId)) :
    Accounts known start origin targets specs file key before m s' where
  toAccounted := haccounted
  grown := h.grown.trans hlog
  owned r hr := (hm r hr).elim (fun hr ↦ (h.owned r hr).mono hlog) And.left
  ran r hr hrunning :=
    (hm r hr).elim (fun hr ↦ (h.ran r hr hrunning).mono hlog) fun hr ↦ hr.2 hrunning

/-- The same replicas. -/
theorem same (h : Accounts known start origin targets specs file key before l s)
    {s' : σ × List Happening} (hlog : s.2 <+: s'.2)
    (haccounted : Accounted known start origin targets specs file s') :
    Accounts known start origin targets specs file key before l s' :=
  h.next hlog haccounted fun _ ↦ Or.inl

/-- The calls up to the plan. -/
theorem observes (honest : driver.Honest known) :
    driver.watched.Observes (fun s job p ↦ p = .running → .running job ∈ s.2)
      (Accounts known start origin targets specs file key before) where
  phase nodeId job probe grant h :=
    let hphase := h.phase honest nodeId job probe grant
    h.same hphase.1 hphase.2
  told_of_ok {s s' nodeId job probe grant p} heq hp := by
    subst hp
    obtain ⟨-, ⟨-, hlog⟩ | ⟨hne, -⟩⟩ :=
      MeshDriver.watched_phase nodeId job probe grant s
    · rw [heq] at hlog
      rw [hlog]
      exact List.mem_append_right _ List.mem_cons_self
    · exact absurd (congrArg Prod.fst heq) hne
  told_phase {s job p} nodeId job' probe grant htold hp := by
    obtain ⟨-, ⟨-, hlog⟩ | ⟨-, hlog⟩⟩ :=
      MeshDriver.watched_phase nodeId job' probe grant s
    · exact hlog ▸ List.mem_append_left _ (htold hp)
    · exact hlog ▸ htold hp
  recorded {l m s} h hhandles hphases := by
    have hhandle : ∀ {q r : ReplicaState}, r.handle = q.handle →
        r.jobId = q.jobId ∧ r.nodeId = q.nodeId := by
      intro q r hqr
      simp only [ReplicaState.handle, Prod.mk.injEq] at hqr
      exact ⟨hqr.1, hqr.2.1⟩
    refine { h with owned := fun q hq ↦ ?_, ran := fun q hq hrunning ↦ ?_ }
    · obtain ⟨r, hr, hqr⟩ := List.mem_map.mp (hhandles ▸ List.mem_map_of_mem hq)
      obtain ⟨hjob, hnode⟩ := hhandle hqr
      exact hjob ▸ hnode ▸ h.owned r hr
    · rcases hphases q hq with hfailed | htold | ⟨r, hr, hqr, hphase⟩
      · exact absurd (hrunning.symm.trans hfailed) (by decide)
      · exact Or.inr (htold hrunning)
      · exact (hhandle hqr).1 ▸ h.ran r hr (hphase.trans hrunning)
  serviceReady service h :=
    h.same (List.prefix_refl _) (h.quiet fun _ hs ↦ honest.serviceReady _ hs)

variable [Sha256] {d : Deployment} {grant : Option String} {gate : Gate}

/-- The calls after the plan, where the dependencies are announced behind an open gate. -/
theorem keeps (honest : driver.Honest known) (hkey : d.key = key) (htarget : targets key)
    (hspec : specs d) :
    driver.watched.Keeps d grant gate fun l s ↦
      Accounts known start origin targets specs file key before l s ∧
        (gate.isReady → ∀ dep ∈ d.dependsOn,
          Announced (known start) s.2 (dep.resolvedServiceName d.nameSpace)) where
  killed {l s s' r} h hr heq := by
    obtain ⟨hlog, haccounted⟩ := h.1.kill honest htarget (h.1.owned r hr) grant
    rw [heq] at hlog haccounted
    exact ⟨h.1.next hlog haccounted fun q hq ↦ Or.inl (List.mem_filter.mp hq).1,
      fun hgate dep hdep ↦ (h.2 hgate dep hdep).mono hlog⟩
  notKilled {l s s' r e} h hr heq := by
    obtain ⟨hlog, haccounted⟩ := h.1.kill honest htarget (h.1.owned r hr) grant
    rw [heq] at hlog haccounted
    exact ⟨h.1.same hlog haccounted, fun hgate dep hdep ↦ (h.2 hgate dep hdep).mono hlog⟩
  atlas h := ⟨h.1.same (List.prefix_refl _) (h.1.quiet fun _ hs ↦ honest.atlas hs), h.2⟩
  deployed {l s s' nodeId job} hgate h heq := by
    rw [MeshDriver.watched_deploy_ok heq]
    have hlog : s.2 <+: s.2 ++ [.launched nodeId d job] := List.prefix_append _ _
    refine ⟨h.1.next hlog ?_ fun q hq ↦ ?_, fun hgate dep hdep ↦ (h.2 hgate dep hdep).mono hlog⟩
    · exact h.1.snoc ⟨hkey ▸ htarget, hspec, h.2 hgate⟩ fun _ hs ↦ Or.inl (honest.deploy _ _ _ hs)
    · refine (List.mem_append.mp hq).imp_right fun hq ↦ ?_
      obtain rfl := List.mem_singleton.mp hq
      exact ⟨Or.inr ⟨d, List.mem_append_right _ List.mem_cons_self, hkey⟩, nofun⟩
  notDeployed {l s s' nodeId e} _ h heq := by
    rw [MeshDriver.watched_deploy_error heq]
    exact ⟨h.1.same (List.prefix_refl _) (h.1.quiet fun _ hs ↦ honest.deploy _ _ _ hs), h.2⟩
  advertised {l s service r} _ hservice h hr hrunning := by
    have hlog : s.2 <+: s.2 ++ [.advertised service] := List.prefix_append _ _
    refine ⟨h.1.same hlog ?_, fun hgate dep hdep ↦ (h.2 hgate dep hdep).mono hlog⟩
    refine h.1.snoc ⟨d, r.nodeId, r.jobId, hservice, hspec, hkey ▸ h.1.owned r hr,
      h.1.ran r hr hrunning⟩ fun service' hs ↦ ?_
    exact (honest.advertiseService service hs).elim (fun heq ↦ Or.inr (heq ▸ rfl)) Or.inl

/-- A tick. -/
theorem tick (honest : driver.Honest known) {c : Controller} (hkey : d.key = key)
    (htarget : targets key) (hspec : specs d)
    (h : Accounts known start origin targets specs file key before c.replicas s) (now : UInt64) :
    Accounts known start origin targets specs file key before
      (c.tick driver.watched d s now).2.1.replicas (c.tick driver.watched d s now).2.2 := by
  have hrefresh := (observes honest).refresh d h
  have hplanned := (observes honest).evaluateDeps d hrefresh
  refine (Controller.tick_keeps_of_planned (keeps honest hkey htarget hspec) ⟨hplanned, ?_⟩ now).1
  intro hgate dep hdep
  -- What the gate has found was known, so announced, when it began to ask.
  have hasked := (observes honest).evaluateDeps d { hrefresh with grown := List.prefix_refl _ }
  exact (hrefresh.announced _ (honest.watched.known_of_isReady hgate hdep)).mono hasked.grown

end Accounts

end Tick

/-! ## Sessions -/

/-- What a session keeps: what is tracked in an entry belongs to its deployment. -/
structure KeepsAccount (known : σ → String → Prop) (start : σ) (origin : List Happening)
    (targets : String → Prop) (specs : Deployment → Prop) (file : Store)
    (p : CliState (σ × List Happening)) : Prop where
  accounted : Accounted known start origin targets specs file p.mesh
  wellFormed : p.store.WellFormed
  owned : ∀ key m, p.store.get key = some m →
    ∀ r ∈ m.replicas, Owned file p.mesh.2 key r.nodeId r.jobId
  ran : ∀ key m, p.store.get key = some m →
    ∀ r ∈ m.replicas, r.phase = .running → Ran file p.mesh.2 r.jobId

namespace KeepsAccount

variable {known : σ → String → Prop} {start : σ} {origin : List Happening}
  {targets : String → Prop} {specs : Deployment → Prop} {file : Store}
  {p q : CliState (σ × List Happening)} {driver : MeshDriver σ} {fallback : Option String}
  {dropped : String → Prop}

/-- A mesh with a longer log. -/
theorem withMesh (h : KeepsAccount known start origin targets specs file p)
    {mesh : σ × List Happening} (hlog : p.mesh.2 <+: mesh.2)
    (haccounted : Accounted known start origin targets specs file mesh) :
    KeepsAccount known start origin targets specs file { p with mesh } where
  accounted := haccounted
  wellFormed := h.wellFormed
  owned key m hget r hr := (h.owned key m hget r hr).mono hlog
  ran key m hget r hr hrunning := (h.ran key m hget r hr hrunning).mono hlog

variable [Sha256]

theorem tick (honest : driver.Honest known)
    (h : KeepsAccount known start origin targets specs file p) {key : String}
    {m : ManagedDeployment} {ctrl : Controller} (now : UInt64)
    (hkey : targets key) (hget : p.store.get key = some m) (hspec : specs m.spec)
    (hreplicas : ctrl.replicas = m.replicas) :
    p.mesh.2 <+: (ctrl.tick driver.watched m.spec p.mesh now).2.2.2 ∧
      KeepsAccount known start origin targets specs file
        { store := p.store.setReplicas key
            (ctrl.tick driver.watched m.spec p.mesh now).2.1.replicas
          mesh := (ctrl.tick driver.watched m.spec p.mesh now).2.2 } := by
  have hstart : Accounts known start origin targets specs file key p.mesh.2 ctrl.replicas p.mesh :=
    ⟨h.accounted, List.prefix_refl _, hreplicas ▸ h.owned key m hget,
      hreplicas ▸ h.ran key m hget⟩
  have htick := hstart.tick honest (h.wellFormed key m hget).key_eq hkey hspec now
  have hentry : ∀ k m', (p.store.setReplicas key
      (ctrl.tick driver.watched m.spec p.mesh now).2.1.replicas).get k = some m' →
        k = key ∧ m'.replicas = (ctrl.tick driver.watched m.spec p.mesh now).2.1.replicas ∨
          p.store.get k = some m' := by
    intro k m' hm'
    by_cases hne : k = key
    · subst hne
      rw [Store.get_setReplicas_self, hget, Option.map_some, Option.some.injEq] at hm'
      exact Or.inl ⟨rfl, hm' ▸ rfl⟩
    · rw [Store.get_setReplicas_of_ne _ hne] at hm'
      exact Or.inr hm'
  refine ⟨htick.grown, htick.toAccounted, h.wellFormed.edit (.setReplicas key _),
    fun k m' hm' r hr ↦ ?_, fun k m' hm' r hr hrunning ↦ ?_⟩
  · rcases hentry k m' hm' with ⟨rfl, heq⟩ | hm'
    · exact htick.owned r (heq ▸ hr)
    · exact (h.owned k m' hm' r hr).mono htick.grown
  · rcases hentry k m' hm' with ⟨rfl, heq⟩ | hm'
    · exact htick.ran r (heq ▸ hr) hrunning
    · exact (h.ran k m' hm' r hr hrunning).mono htick.grown

/-- Every effect keeps it, and the log only grows. -/
theorem effect (honest : driver.Honest known)
    (h : KeepsAccount known start origin targets specs file p)
    (heffect : Effect driver.watched fallback targets dropped specs p q) :
    p.mesh.2 <+: q.mesh.2 ∧ KeepsAccount known start origin targets specs file q := by
  cases heffect with
  | @edit key _ store hkey hedit hne hentry =>
      obtain ⟨m₀, hm₀, hreplicas⟩ := hentry
      -- What an edited entry tracks it tracked before.
      have hentry : ∀ k m, store.get k = some m → ∀ r ∈ m.replicas,
          ∃ m', p.store.get k = some m' ∧ r ∈ m'.replicas := by
        intro k m hm r hr
        by_cases heq : k = key
        · subst heq
          obtain rfl : m₀ = m := Option.some.inj (hm₀.symm.trans hm)
          rw [hreplicas] at hr
          cases hold : p.store.get k with
          | none =>
              rw [hold] at hr
              exact absurd hr List.not_mem_nil
          | some old =>
              rw [hold] at hr
              exact ⟨old, rfl, hr⟩
        · exact ⟨m, hne k heq ▸ hm, hr⟩
      refine ⟨List.prefix_refl _, h.accounted, h.wellFormed.edit hedit,
        fun k m hm r hr ↦ ?_, fun k m hm r hr hrunning ↦ ?_⟩
      · obtain ⟨m', hm', hr⟩ := hentry k m hm r hr
        exact h.owned k m' hm' r hr
      · obtain ⟨m', hm', hr⟩ := hentry k m hm r hr
        exact h.ran k m' hm' r hr hrunning
  | tick now hkey hget hspec hreplicas _ => exact h.tick honest now hkey hget hspec hreplicas
  | @kill key _ m r hkey hget hr =>
      obtain ⟨hlog, haccounted⟩ :=
        h.accounted.kill honest hkey (h.owned key m hget r hr) (m.grant.or fallback)
      exact ⟨hlog, h.withMesh hlog haccounted⟩
  | @delete key _ m hkey hget _ =>
      obtain ⟨hlog, haccounted⟩ :=
        h.accounted.killAll honest hkey (m.grant.or fallback) 0 (h.owned key m hget)
      have hleft : ∀ k m', (p.store.remove key).get k = some m' → p.store.get k = some m' := by
        intro k m' hm'
        rw [Store.get_remove] at hm'
        split_ifs at hm' with hk
        exact hm'
      exact ⟨hlog, haccounted, h.wellFormed.edit (.remove key),
        fun k m' hm' ↦ (h.withMesh hlog haccounted).owned k m' (hleft k m' hm'),
        fun k m' hm' ↦ (h.withMesh hlog haccounted).ran k m' (hleft k m' hm')⟩
  | @ask key _ m r hget hr =>
      obtain ⟨hlog, haccounted⟩ :=
        h.accounted.phase honest r.nodeId r.jobId m.spec.liveness m.grant
      exact ⟨hlog, h.withMesh hlog haccounted⟩

/-- And so does a sequence of effects. -/
theorem effects (honest : driver.Honest known)
    (h : KeepsAccount known start origin targets specs file p)
    (heffects : Effects driver.watched fallback targets dropped specs p q) :
    p.mesh.2 <+: q.mesh.2 ∧ KeepsAccount known start origin targets specs file q := by
  refine heffects.keeps
    (I := fun q ↦ p.mesh.2 <+: q.mesh.2 ∧ KeepsAccount known start origin targets specs file q)
    (fun heffect hq ↦ ?_) ⟨List.prefix_refl _, h⟩
  obtain ⟨hgrown, hkept⟩ := hq.2.effect honest heffect
  exact ⟨hq.1.trans hgrown, hkept⟩

omit [Sha256] in
/-- From now on it can be kept for any targets and specs. -/
theorem since (h : KeepsAccount known start origin targets specs file p) (targets' : String → Prop)
    (specs' : Deployment → Prop) :
    KeepsAccount known start p.mesh.2 targets' specs' file p := by
  refine ⟨⟨.of_forall fun before e hinit horigin ↦ ?_, h.accounted.announced⟩, h.wellFormed,
    h.owned, h.ran⟩
  have hlen := hinit.length_le.trans horigin.length_le
  rw [List.length_append, List.length_singleton] at hlen
  exact absurd hlen (Nat.not_succ_le_self _)

end KeepsAccount

/-- The nodes, with a log of what happens. -/
def watchedNode (node : SecretStore → MeshDriver σ) (secrets : SecretStore) :
    MeshDriver (σ × List Happening) := (node secrets).watched

/-- A world in which nothing has happened yet. -/
def World.unwatched (w : World σ) : World (σ × List Happening) :=
  { file := w.file, secrets := w.secrets, mesh := (w.mesh, []) }

section Sessions

variable [Sha256] {node : SecretStore → MeshDriver σ} {w : World σ} {ops : List Op}
  {known : σ → String → Prop} {targets : String → Prop}

/-- **Sessions keep account.** -/
theorem runSession_keepsAccount (honest : ∀ secrets, (node secrets).Honest known)
    (hfile : w.file.WellFormed) (hversion : w.file.version = storeVersion) (ops : List Op) :
    KeepsAccount known w.mesh [] (fun _ ↦ True) (fun _ ↦ True) w.file
        (runSession (watchedNode node) ops w.unwatched).2.state ∧
      (runSession (watchedNode node) ops w.unwatched).2.file.version = storeVersion := by
  refine runSession_invariant
    (I := fun p ↦ KeepsAccount known w.mesh [] (fun _ ↦ True) (fun _ ↦ True) w.file p ∧
      p.store.version = storeVersion)
    (fun {secrets} _ _ _ heffect h ↦ ⟨(h.1.effect (honest secrets) heffect).2,
      (Effects.version_eq (ReflTransGen.single heffect)).trans h.2⟩)
    (fun {secrets} _ _ _ heffects hp hq ↦ ⟨?_, hp.2⟩) hversion (within_true _ ops w.unwatched)
    (fun _ _ _ _ ↦ trivial : ∀ op ∈ ops, ∀ key ∈ op.drops, (fun _ ↦ True) key) ⟨?_, hversion⟩
  · exact hp.1.withMesh (hp.1.effects (honest secrets) heffects).1 hq.1.accounted
  · exact ⟨⟨.nil, fun _ ↦ Or.inl⟩, hfile,
      fun key m hget r hr ↦ Or.inl ⟨m, hget, r, hr, rfl, rfl⟩,
      fun key m hget r hr hrunning ↦ Or.inl ⟨key, m, hget, r, hr, rfl, hrunning⟩⟩

/-- In a session, when so much had happened, `e` happened while `op` was done, which found `file`
as the state file. -/
def HappensIn (node : SecretStore → MeshDriver σ) (ops : List Op) (w : World σ)
    (before : List Happening) (e : Happening) (op : Op) (file : Store) : Prop :=
  ∃ done rest, ops = done ++ op :: rest ∧
    (runSession (watchedNode node) done w.unwatched).2.file = file ∧
    (runSession (watchedNode node) done w.unwatched).2.mesh.2 <+: before ∧
    before ++ [e] <+: (runSession (watchedNode node) (done ++ [op]) w.unwatched).2.mesh.2

/-- **Nothing happens without a reason**, which lies in what is done at the time. -/
theorem session_happens (honest : ∀ secrets, (node secrets).Honest known)
    (hfile : w.file.WellFormed) (hversion : w.file.version = storeVersion)
    {before : List Happening} {e : Happening}
    (hinit : before ++ [e] <+: (runSession (watchedNode node) ops w.unwatched).2.mesh.2) :
    ∃ op file, HappensIn node ops w before e op file ∧
      Warranted (known w.mesh) (· ∈ op.keys file) (· ∈ op.specs file) w.file before e := by
  induction ops using List.reverseRecOn with
  | nil => exact absurd (List.prefix_nil.mp hinit) (by simp)
  | append_singleton ops op ih =>
      by_cases hbefore : before ++ [e] <+: (runSession (watchedNode node) ops w.unwatched).2.mesh.2
      · obtain ⟨op', file, ⟨done, rest, rfl, hrest⟩, hwarranted⟩ := ih hbefore
        exact ⟨op', file, ⟨done, rest ++ [op], by simp, hrest⟩, hwarranted⟩
      · obtain ⟨haccount, hversion'⟩ := runSession_keepsAccount honest hfile hversion ops
        set w' := (runSession (watchedNode node) ops w.unwatched).2 with hw'
        obtain ⟨secrets, fallback, p, heffects, hstate⟩ :=
          @Op.run_effects _ _ (watchedNode node) _ w' op hversion' (op.within_keys w'.file)
        obtain ⟨hgrown, hkept⟩ := (haccount.since (· ∈ op.keys w'.file)
          (· ∈ op.specs w'.file)).effects (honest secrets) heffects
        have hlog : (op.run (watchedNode node) w').2.mesh = p.mesh :=
          hstate.elim (congrArg CliState.mesh) fun h ↦ congrArg CliState.mesh h.2
        have hinit' := hinit
        rw [runSession_concat, ← hw', hlog] at hinit'
        have horigin : w'.mesh.2 <+: before := by
          rcases List.prefix_or_prefix_of_prefix hinit' hgrown with hle | hle
          · exact absurd hle hbefore
          · rcases List.prefix_concat_iff.mp hle with heq | hle
            · exact absurd (heq ▸ List.prefix_refl _) hbefore
            · exact hle
        exact ⟨op, w'.file, ⟨ops, [], rfl, rfl, horigin, hinit⟩,
          hkept.accounted.justified.of_isPrefix hinit' horigin⟩

/-- What is done in a session is about the deployments that the session is about. -/
theorem HappensIn.targets_of_mem_keys {before : List Happening} {e : Happening} {op : Op}
    {file : Store} {key : String} (h : HappensIn node ops w before e op file)
    (hwithin : Within (watchedNode node) targets ops w.unwatched) (hkey : key ∈ op.keys file) :
    targets key := by
  obtain ⟨done, rest, rfl, rfl, -⟩ := h
  exact hwithin.of_append.of_mem_keys hkey

/-- What is stopped belongs to a deployment that something is done about at the time. -/
theorem session_stops (hfile : w.file.WellFormed) (hversion : w.file.version = storeVersion)
    (hwithin : Within (watchedNode node) targets ops w.unwatched) {before : List Happening}
    {nodeId job : String} (hinit : before ++ [.stopped nodeId job] <+:
      (runSession (watchedNode node) ops w.unwatched).2.mesh.2) :
    ∃ key, targets key ∧ Owned w.file before key nodeId job ∧ ∃ op file,
      HappensIn node ops w before (.stopped nodeId job) op file ∧ key ∈ op.keys file := by
  obtain ⟨op, file, hin, key, hkey, howned⟩ :=
    session_happens (fun secrets ↦ (node secrets).honest_true) hfile hversion hinit
  exact ⟨key, hin.targets_of_mem_keys hwithin hkey, howned, op, file, hin, hkey⟩

/-- Entries that the session is not about stay as they are. -/
theorem session_get_eq (hversion : w.file.version = storeVersion)
    (hwithin : Within (watchedNode node) targets ops w.unwatched) {key : String}
    (hkey : ¬ targets key) :
    (runSession (watchedNode node) ops w.unwatched).2.file.get key = w.file.get key := by
  refine runSession_invariant (I := fun p ↦ p.store.get key = w.file.get key)
    (fun heffect hp ↦ ?_) (fun _ hp _ ↦ hp) hversion hwithin
    (fun _ _ _ _ ↦ trivial : ∀ op ∈ ops, ∀ key ∈ op.drops, (fun _ ↦ True) key) rfl
  exact (Effects.get_eq (ReflTransGen.single heffect) hkey).trans hp

/-- **Whose jobs a session launches, tracks and stops.**  It launches only for the specs that are
reconciled to at the time, of deployments that it is about; what it stops, it stops on the host
where it was, while something is done about a deployment that it belongs to by then; what stands in
an entry belongs to its deployment; and entries that the session is not about stay as they are. -/
theorem session_owned (hfile : w.file.WellFormed) (hversion : w.file.version = storeVersion)
    (hwithin : Within (watchedNode node) targets ops w.unwatched) :
    let after := (runSession (watchedNode node) ops w.unwatched).2
    (∀ before nodeId d job, before ++ [.launched nodeId d job] <+: after.mesh.2 →
        targets d.key ∧ ∃ op file,
          HappensIn node ops w before (.launched nodeId d job) op file ∧ d ∈ op.specs file) ∧
      (∀ before nodeId job, before ++ [.stopped nodeId job] <+: after.mesh.2 →
        ∃ key, targets key ∧ Owned w.file before key nodeId job ∧ ∃ op file,
          HappensIn node ops w before (.stopped nodeId job) op file ∧ key ∈ op.keys file) ∧
      (∀ key m, after.file.get key = some m →
        ∀ r ∈ m.replicas, Owned w.file after.mesh.2 key r.nodeId r.jobId) ∧
      ∀ key, ¬ targets key → after.file.get key = w.file.get key := by
  have honest := fun secrets ↦ (node secrets).honest_true
  refine ⟨fun before nodeId d job hinit ↦ ?_,
    fun _ _ _ ↦ session_stops hfile hversion hwithin,
    (runSession_keepsAccount honest hfile hversion ops).1.owned,
    fun key hkey ↦ session_get_eq hversion hwithin hkey⟩
  obtain ⟨op, file, hin, hkey, hspec, -⟩ := session_happens honest hfile hversion hinit
  exact ⟨hin.targets_of_mem_keys hwithin hkey, op, file, hin, hspec⟩

/-! ## Namespaces -/

/-- The keys of a namespace. -/
def InNameSpace (nameSpace key : String) : Prop := ∃ name : String, key = s!"{nameSpace}/{name}"

/-- What is done is about deployments of one namespace. -/
def Op.Confined (nameSpace : String) : Op → Prop
  | .command cli _ _ cmd => ∀ key ∈ cli.targets cmd, InNameSpace nameSpace key
  | .pass _ scope _ _ => scope = some nameSpace
  | .get _ _ | .secret _ _ => True

omit [Sha256] in
theorem Store.WellFormed.inNameSpace_iff {store : Store} (h : store.WellFormed)
    {key nameSpace : String} {m : ManagedDeployment} (hget : store.get key = some m) :
    InNameSpace nameSpace key ↔ m.spec.nameSpace = nameSpace := by
  have hwf := h key m hget
  have hvalid := Deployment.validate_eq_ok.mp hwf.valid
  constructor
  · rintro ⟨name, rfl⟩
    exact (hvalid.key_eq_iff.mp hwf.key_eq.symm).1.symm
  · rintro rfl
    exact ⟨m.spec.name, hwf.key_eq.symm⟩

/-- An operation that is about a namespace is about its keys. -/
theorem Op.Confined.within {op : Op} {nameSpace : String} (h : op.Confined nameSpace)
    {file : Store} (hfile : file.WellFormed) : op.Within (InNameSpace nameSpace) file := by
  cases op with
  | command cli preflights clock cmd => exact h
  | pass secrets scope fallback clock =>
      obtain rfl : scope = some nameSpace := h
      intro key hkey
      have hmem := (hfile.mem_namesIn_iff.mp hkey).1
      obtain ⟨m, hget⟩ := Option.isSome_iff_exists.mp (SortedMap.isSome_get_iff.mpr hmem)
      exact (hfile.inNameSpace_iff hget).mpr ((Store.mem_scope hget).mp hkey nameSpace rfl)
  | get => trivial
  | secret => trivial

/-- The store stays well formed. -/
theorem Effects.wellFormed {driver : MeshDriver σ} {fallback : Option String}
    {dropped : String → Prop} {specs : Deployment → Prop} {p q : CliState σ}
    (h : Effects driver fallback targets dropped specs p q) (hp : p.store.WellFormed) :
    q.store.WellFormed := by
  refine h.keeps (I := fun q ↦ q.store.WellFormed) (fun {q q'} heffect hq ↦ ?_) hp
  cases heffect with
  | edit _ hedit _ _ => exact hq.edit hedit
  | tick => exact hq.edit (.setReplicas _ _)
  | delete => exact hq.edit (.remove _)
  | kill | ask => exact hq

theorem within_of_confined {node : SecretStore → MeshDriver σ} {w : World σ} {nameSpace : String}
    (hfile : w.file.WellFormed) (hversion : w.file.version = storeVersion)
    (hops : ∀ op ∈ ops, op.Confined nameSpace) :
    Within node (InNameSpace nameSpace) ops w := by
  induction ops generalizing w with
  | nil => trivial
  | cons op ops ih =>
      have hop := (hops op List.mem_cons_self).within hfile
      have hrest := fun op' hmem ↦ hops op' (List.mem_cons_of_mem op hmem)
      obtain ⟨secrets, fallback, p, heffects, hstate⟩ := op.run_effects hversion hop
      refine ⟨hop, ?_⟩
      rcases hstate with hstate | hstate
      · obtain hstore : (op.run node w).2.file = p.store := congrArg CliState.store hstate
        exact ih (hstore ▸ heffects.wellFormed hfile)
          (hstore ▸ heffects.version_eq.trans hversion) hrest
      · obtain hstore : (op.run node w).2.file = w.file := congrArg CliState.store hstate.2
        exact ih (hstore ▸ hfile) (hstore ▸ hversion) hrest

/-- **A session that is about one namespace leaves the others alone**: their entries stay as they
are, and none of their replicas is stopped, as long as no other job on its host has its id. -/
theorem session_isolated {nameSpace key : String} {m : ManagedDeployment}
    (hfile : w.file.WellFormed) (hversion : w.file.version = storeVersion)
    (hops : ∀ op ∈ ops, op.Confined nameSpace) (hget : w.file.get key = some m)
    (hother : m.spec.nameSpace ≠ nameSpace)
    (htracked : ∀ key' m', w.file.get key' = some m' → m'.spec.nameSpace = nameSpace →
      ∀ q ∈ m'.replicas, ∀ r ∈ m.replicas, ¬ (q.nodeId = r.nodeId ∧ q.jobId = r.jobId))
    (hfresh : ∀ r ∈ m.replicas, ∀ d,
      .launched r.nodeId d r.jobId ∉ (runSession (watchedNode node) ops w.unwatched).2.mesh.2) :
    (runSession (watchedNode node) ops w.unwatched).2.file.get key = some m ∧
      ∀ r ∈ m.replicas,
        .stopped r.nodeId r.jobId ∉ (runSession (watchedNode node) ops w.unwatched).2.mesh.2 := by
  have hwithin : Within (watchedNode node) (InNameSpace nameSpace) ops w.unwatched :=
    within_of_confined hfile hversion hops
  have hkey : ¬ InNameSpace nameSpace key := fun h ↦ hother ((hfile.inNameSpace_iff hget).mp h)
  constructor
  · exact (session_get_eq hversion hwithin hkey).trans hget
  · intro r hr hmem
    obtain ⟨before, after, hlog⟩ := List.append_of_mem hmem
    obtain ⟨key', hkey', howned, -⟩ :=
      session_stops hfile hversion hwithin ⟨after, (List.append_assoc _ _ _).trans hlog.symm⟩
    rcases howned with ⟨m', hget', q, hq, hnode, hjob⟩ | ⟨d, hd, _⟩
    · exact htracked key' m' hget' ((hfile.inNameSpace_iff hget').mp hkey') q hq r hr ⟨hnode, hjob⟩
    · refine hfresh r hr d ?_
      rw [hlog]
      exact List.mem_append_left _ hd

end Sessions

section Example

/-- A database of the default namespace, with one replica. -/
def dbManaged : ManagedDeployment where
  spec := { name := "db", nameSpace := "default", image := "postgres", replicas := 1 }
  replicas := [⟨"a", "n", "9154645cdccb2449", .running⟩]

/-- The database, on a mesh with five jobs to hand out. -/
def dbWorld : World (List String) where
  file := { deployments := SortedMap.empty.insert "default/db" dbManaged }
  mesh := ["b", "c", "d", "e", "f"]

/-- In another namespace a deployment is applied, scaled, looked after and deleted. -/
def teamOps : List Op :=
  let cli : Cli := { nameSpace := "team" }
  let command := Op.command cli (fun _ ↦ ⟨none, fun _ _ ↦ none, fun _ ↦ ""⟩) fun _ _ ↦ 0
  [command (.apply (.ok (.single (.ok
      { name := "web", nameSpace := "default", image := "nginx", replicas := 2 })))),
    command (.scale "web" 3), .pass {} (some "team") none fun _ ↦ 0, .get cli none,
    command (.delete "web" false)]

theorem dbWorld_wellFormed : dbWorld.file.WellFormed := by
  intro key m hget
  obtain ⟨rfl, rfl⟩ : key = "default/db" ∧ dbManaged = m := by
    simpa [dbWorld, Store.get, SortedMap.get_insert] using hget
  exact ⟨by decide, by decide, by decide, by decide, by decide, by decide⟩

theorem teamOps_confined :
    ∀ op ∈ teamOps, @Op.Confined Deployment.nginxSha256 "team" op := by
  intro op hop
  simp only [teamOps, List.mem_cons, List.not_mem_nil, or_false] at hop
  rcases hop with rfl | rfl | rfl | rfl | rfl
  · exact fun key hkey ↦ ⟨"web", List.mem_singleton.mp hkey⟩
  · exact fun key hkey ↦ ⟨"web", List.mem_singleton.mp hkey⟩
  · rfl
  · trivial
  · exact fun key hkey ↦ ⟨"web", List.mem_singleton.mp hkey⟩

/-- What became of it. -/
def teamSession : List Outcome × World (List String × List Happening) :=
  @runSession _ Deployment.nginxSha256 (watchedNode fun _ ↦ scriptedDriver) teamOps
    dbWorld.unwatched

/-- What was stopped belonged to the other namespace. -/
theorem session_owned_team :
    .stopped "n" "d" ∈ teamSession.2.mesh.2 ∧
      ∀ before nodeId job, before ++ [.stopped nodeId job] <+: teamSession.2.mesh.2 →
        ∃ key, InNameSpace "team" key ∧ Owned dbWorld.file before key nodeId job ∧ ∃ op file,
          @HappensIn _ Deployment.nginxSha256 (fun _ ↦ scriptedDriver) teamOps dbWorld before
            (.stopped nodeId job) op file ∧ key ∈ @Op.keys Deployment.nginxSha256 file op := by
  refine ⟨by decide +kernel, ?_⟩
  exact (@session_owned _ Deployment.nginxSha256 (fun _ ↦ scriptedDriver) dbWorld teamOps
    (InNameSpace "team") dbWorld_wellFormed rfl (@within_of_confined _ Deployment.nginxSha256
      teamOps _ dbWorld.unwatched "team" dbWorld_wellFormed rfl teamOps_confined)).2.1

/-- The database is as it was. -/
theorem session_isolated_team :
    teamSession.2.file.get "default/db" = some dbManaged ∧
      ∀ r ∈ dbManaged.replicas, .stopped r.nodeId r.jobId ∉ teamSession.2.mesh.2 := by
  refine @session_isolated _ Deployment.nginxSha256 (fun _ ↦ scriptedDriver) dbWorld teamOps
    "team" "default/db" dbManaged dbWorld_wellFormed rfl teamOps_confined (by decide) (by decide)
    (fun key' m' hget hns ↦ ?_) (fun r hr d hd ↦ ?_)
  · obtain ⟨rfl, rfl⟩ : key' = "default/db" ∧ dbManaged = m' := by
      simpa [dbWorld, Store.get, SortedMap.get_insert] using hget
    exact absurd hns (by decide)
  · obtain rfl := List.mem_singleton.mp hr
    have hjobs : "a" ∉ teamSession.2.mesh.2.filterMap Happening.launchedJob? := by decide +kernel
    exact hjobs (List.mem_filterMap.mpr ⟨_, hd, rfl⟩)

end Example

end CeGke
