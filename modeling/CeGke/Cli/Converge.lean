import CeGke.Cli.Leak
import CeGke.Controller.Converge
import CeGke.Stack.Order
import CeGke.State.Tracked

/-!
# Applying converges

`reconcile_to_convergence` is the loop of the controller, with the handles put into the store
after every tick.  So on a mesh that serves it brings a deployment up and leaves the others as
they were, and an `apply` does so for one app after the other.  In the order in which a stack is
applied, each app finds what it depends on (`Cli.apply_stack_served`).
-/

namespace CeGke

open Lib

variable {σ : Type}

namespace Cli

/-- Each app finds its dependencies among the services that are live, or services are announced and
it is preceded by an app that publishes them and is not scaled to nothing. -/
def Supplied (announces : Prop) : (String → Prop) → List Deployment → Prop
  | _, [] => True
  | live, app :: apps =>
      (∀ dep ∈ app.dependsOn, live (dep.resolvedServiceName app.nameSpace)) ∧
        Supplied announces
          (fun service ↦ live service ∨ announces ∧ app.replicas ≠ 0 ∧ service ∈ app.serviceName)
          apps

theorem Supplied.mono {announces : Prop} {live live' : String → Prop} {apps : List Deployment}
    (h : Supplied announces live apps) (hlive : ∀ service, live service → live' service) :
    Supplied announces live' apps := by
  induction apps generalizing live live' with
  | nil => trivial
  | cons app apps ih =>
      exact ⟨fun dep hdep ↦ hlive _ (h.1 dep hdep),
        ih h.2 fun service hservice ↦ hservice.imp_left (hlive service)⟩

end Cli

variable [Sha256]

/-- `reconcile_to_convergence` is `converge`, with the handles put into the store. -/
theorem tickLoop_eq_convergeLoop (driver : MeshDriver σ) (clock : ℕ → UInt64) (spec : Deployment)
    (key : String) {left : ℕ} (hleft : left ≠ 0) (tick : ℕ) (last : TickReport)
    (ctrl : Controller) (p : CliState σ) :
    tickLoop driver clock spec key left tick ctrl p =
      { store := p.store.setReplicas key
          (Controller.convergeLoop driver spec clock id left tick last ctrl p.mesh).2.1.replicas
        mesh :=
          (Controller.convergeLoop driver spec clock id left tick last ctrl p.mesh).2.2 } := by
  induction left generalizing tick last ctrl p with
  | zero => exact absurd rfl hleft
  | succ left ih =>
      rw [tickLoop, Controller.convergeLoop]
      by_cases hdone : (ctrl.tick driver spec p.mesh (clock tick)).1.done = true
      · simp only [hdone, if_true]
      · simp only [hdone, Bool.false_eq_true, if_false]
        by_cases hlast : left = 0
        · subst hlast
          rfl
        · rw [ih hlast _ (ctrl.tick driver spec p.mesh (clock tick)).1,
            Store.setReplicas_setReplicas]
          rfl

/-- The apps are what they were applied as, the mesh runs them, and of no other deployment has the
entry or a job changed. -/
structure Applied (v : MeshView σ) (base : ℕ) (apps : List Deployment) (p q : CliState σ) :
    Prop where
  holds : v.Holds base q.store.tracked q.mesh
  converged : ∀ app ∈ apps, ∃ managed, q.store.get app.key = some managed ∧ managed.spec = app ∧
    Converged app app.revision managed.replicas ∧
      ∀ r ∈ managed.replicas, v.jobs q.mesh r.jobId = some (r.nodeId, .running)
  untouched : ∀ key ∉ apps.map Deployment.key, q.store.get key = p.store.get key ∧
    ∀ r ∈ p.store.replicasAt key, v.jobs q.mesh r.jobId = v.jobs p.mesh r.jobId
  live : ∀ service, v.live p.mesh service → v.live q.mesh service
  announced : v.announces → ∀ app ∈ apps, app.replicas ≠ 0 → ∀ service ∈ app.serviceName,
    v.live q.mesh service

namespace Applied

variable {v : MeshView σ} {base : ℕ} {app : Deployment} {apps : List Deployment}
  {p q r : CliState σ}

/-- The apps after the first one leave it as it is. -/
theorem cons (h : Applied v base [app] p q) (h' : Applied v base apps q r)
    (hkey : app.key ∉ apps.map Deployment.key) : Applied v base (app :: apps) p r where
  holds := h'.holds
  converged := by
    refine List.forall_mem_cons.mpr ⟨?_, h'.converged⟩
    obtain ⟨managed, hget, hspec, hconverged, hrunning⟩ := h.converged app List.mem_cons_self
    obtain ⟨hget', hjobs⟩ := h'.untouched _ hkey
    refine ⟨managed, hget'.trans hget, hspec, hconverged, fun r hr ↦ ?_⟩
    rw [hjobs r (Store.replicasAt_of_get hget ▸ hr)]
    exact hrunning r hr
  untouched key hnot := by
    rw [List.map_cons, List.mem_cons, not_or] at hnot
    obtain ⟨hget, hjobs⟩ := h.untouched key (by simpa using hnot.1)
    obtain ⟨hget', hjobs'⟩ := h'.untouched key hnot.2
    refine ⟨hget'.trans hget, fun r hr ↦ (hjobs' r ?_).trans (hjobs r hr)⟩
    rwa [Store.replicasAt, hget]
  live service hlive := h'.live service (h.live service hlive)
  announced hannounces := by
    refine List.forall_mem_cons.mpr ⟨fun hne service hservice ↦ ?_, h'.announced hannounces⟩
    exact h'.live service (h.announced hannounces app List.mem_cons_self hne service hservice)

end Applied

namespace Cli

variable {cli : Cli} {driver : MeshDriver σ} {preflights : ℕ → Preflight}
  {clock : String → ℕ → UInt64} {v : MeshView σ} {base : ℕ}

section One

variable {key : String} {managed : ManagedDeployment} {p : CliState σ}

/-- **A deployment of the store is brought up**, and the rest of the fleet left as it was. -/
theorem reconcileToConvergence_served (hprompt : v.Prompt)
    (hget : p.store.get key = some managed)
    (hvalid : managed.spec.validate = .ok ()) (hhosts : driver.Hosts v (clock key) managed.spec)
    (hholds : v.Holds base p.store.tracked p.mesh)
    (hcapacity : base + (p.store.others key).length +
      (managed.spec.replicas.toNat + managed.spec.strategy.surge) ≤ v.capacity)
    (hissued : v.issued p.mesh + cli.maxTicks.toNat * managed.spec.replicas.toNat ≤ v.supply)
    (hdeps : v.DepsLive managed.spec p.mesh)
    (hticks : 2 * managed.replicas.length + 4 ≤ cli.maxTicks.toNat) :
    ∃ l q, cli.reconcileToConvergence driver clock key p = (.ok (), q) ∧
      q.store = p.store.setReplicas key l ∧ v.Holds base q.store.tracked q.mesh ∧
      (∀ r ∈ p.store.others key, v.jobs q.mesh r.jobId = v.jobs p.mesh r.jobId) ∧
      Reconciled v (base + (p.store.others key).length) managed.spec
        (cli.maxTicks.toNat * managed.spec.replicas.toNat) managed.replicas p.mesh l q.mesh := by
  have hperm := p.store.tracked_perm key
  rw [Store.replicasAt_of_get hget] at hperm
  have hwhole := hholds.perm hperm
  obtain ⟨-, hreconciled⟩ := Controller.converge_served (c := managed.controller cli.grant)
    (hhosts.serves _) hhosts.hasRoom hcapacity hprompt hwhole.part hissued
    hdeps hvalid rfl hticks
  set t := (managed.controller cli.grant).converge driver managed.spec p.mesh (clock key) id
    cli.maxTicks with ht
  refine ⟨t.2.1.replicas, ⟨p.store.setReplicas key t.2.1.replicas, t.2.2⟩, ?_, rfl, ?_,
    fun r hr ↦ ?_, hreconciled⟩
  · simp only [reconcileToConvergence, hget]
    rw [tickLoop_eq_convergeLoop _ _ _ _ (Nat.ne_zero_of_lt hticks) 0 {}]
    rfl
  · exact (hwhole.frame hreconciled.holds hreconciled.keeps).perm
      (Store.tracked_setReplicas_perm hget _).symm
  · have hjob := (hwhole.known r (List.mem_append_right _ hr)).jobs_eq
    rw [hjob]
    exact hreconciled.keeps.jobs_eq (hwhole.notMem_part hr) hjob
      (hprompt.jobUp_eq hwhole.sound hjob)

/-- **An app that is applied is brought up.** -/
theorem applyOne_served (hprompt : v.Prompt) {pre : Preflight} {app : Deployment}
    (hcheck : cli.check pre app = .ok ()) (hhosts : driver.Hosts v (clock app.key) app)
    (hholds : v.Holds base p.store.tracked p.mesh)
    (hcapacity : base + p.store.tracked.length + (app.replicas.toNat + app.strategy.surge) ≤
      v.capacity)
    (hissued : v.issued p.mesh + cli.maxTicks.toNat * app.replicas.toNat ≤ v.supply)
    (hdeps : v.DepsLive app p.mesh)
    (hticks : 2 * (p.store.replicasAt app.key).length + 4 ≤ cli.maxTicks.toNat) :
    ∃ q, cli.applyOne driver clock pre app p = (.ok (), q) ∧ Applied v base [app] p q ∧
      q.store.tracked.length ≤ p.store.tracked.length + app.replicas.toNat ∧
      v.issued q.mesh ≤ v.issued p.mesh + cli.maxTicks.toNat * app.replicas.toNat := by
  set store := p.store.upsert app cli.grant with hstore
  obtain ⟨managed, hget, hspec, hreplicas⟩ := p.store.get_upsert app cli.grant
  rw [← hstore] at hget
  change managed.replicas = p.store.replicasAt app.key at hreplicas
  have hothers : (store.others app.key).length ≤ p.store.tracked.length := by
    rw [hstore, Store.others_upsert, (p.store.tracked_perm app.key).length_eq, List.length_append]
    exact Nat.le_add_left _ _
  have hspace : base + (store.others app.key).length +
      (managed.spec.replicas.toNat + managed.spec.strategy.surge) ≤ v.capacity := by
    rw [hspec]
    omega
  have hvalid : app.validate = .ok () := by
    simp only [check, bind_eq_ok] at hcheck
    obtain ⟨_, hvalid, -⟩ := hcheck
    exact hvalid
  obtain ⟨l, q, hrun, hqstore, hqholds, hjobs, hreconciled⟩ := reconcileToConvergence_served
    (p := { p with store }) hprompt hget (hspec ▸ hvalid) (by rwa [hspec])
    (hholds.perm (p.store.tracked_upsert_perm app cli.grant).symm) hspace (hspec ▸ hissued)
    (hspec ▸ hdeps) (hreplicas ▸ hticks)
  rw [hspec] at hreconciled
  have hqget : q.store.get app.key = some { managed with replicas := l } := by
    rw [hqstore, Store.get_setReplicas_self, hget]
    rfl
  refine ⟨q, ?_, ⟨hqholds, ?_, ?_, ?_, ?_⟩, ?_, hreconciled.issued⟩
  · simp only [applyOne, hcheck]
    exact hrun
  · exact List.forall_mem_singleton.mpr
      ⟨_, hqget, hspec, hreconciled.converged, hreconciled.running⟩
  · intro key hkey
    have hne : key ≠ app.key := by simpa using hkey
    refine ⟨?_, fun r hr ↦ hjobs r ?_⟩
    · rw [hqstore, Store.get_setReplicas_of_ne _ hne]
      exact Store.get_upsert_of_ne _ _ _ hne
    · rw [hstore, Store.others_upsert]
      exact Store.mem_others_of_ne hne hr
  · exact hreconciled.keeps.live
  · intro hannounces
    exact List.forall_mem_singleton.mpr (hreconciled.announced hannounces)
  · rw [hqstore, (Store.tracked_setReplicas_perm hget l).length_eq, List.length_append,
      Nat.add_comm, ← hreconciled.converged.length]
    exact Nat.add_le_add_right hothers _

end One

/-! ## A list of apps -/

/-- Enough of everything for the apps: at most this many replicas at once, and this many job ids. -/
def surgeSum (apps : List Deployment) : ℕ :=
  (apps.map fun app ↦ app.replicas.toNat + app.strategy.surge).sum

def replicasSum (apps : List Deployment) : ℕ := (apps.map fun app ↦ app.replicas.toNat).sum

/-- **Apps that are applied in an order that supplies them are brought up**, each in its turn. -/
theorem applyApps_served (hprompt : v.Prompt) {i : ℕ}
    {apps : List Deployment} {p : CliState σ} (hnodup : (apps.map Deployment.key).Nodup)
    (hcheck : ∀ j app, apps[j]? = some app → cli.check (preflights (i + j)) app = .ok ())
    (hhosts : ∀ app ∈ apps, driver.Hosts v (clock app.key) app)
    (hholds : v.Holds base p.store.tracked p.mesh)
    (hcapacity : base + p.store.tracked.length + surgeSum apps ≤ v.capacity)
    (hissued : v.issued p.mesh + cli.maxTicks.toNat * replicasSum apps ≤ v.supply)
    (hsupplied : Supplied v.announces (v.live p.mesh) apps)
    (hticks : ∀ app ∈ apps, 2 * (p.store.replicasAt app.key).length + 4 ≤ cli.maxTicks.toNat) :
    ∃ q, cli.applyApps driver preflights clock i apps p = (.ok (), q) ∧
      Applied v base apps p q := by
  induction apps generalizing i p with
  | nil =>
      refine ⟨p, rfl, hholds, List.forall_mem_nil _, fun _ _ ↦ ⟨rfl, fun _ _ ↦ rfl⟩, fun _ ↦ id,
        fun _ ↦ ?_⟩
      exact List.forall_mem_nil _
  | cons app apps ih =>
      rw [List.map_cons, List.nodup_cons] at hnodup
      simp only [surgeSum, replicasSum, List.map_cons, List.sum_cons, Nat.mul_add]
        at hcapacity hissued
      obtain ⟨hhost, hhosts⟩ := List.forall_mem_cons.mp hhosts
      obtain ⟨htick, hticks⟩ := List.forall_mem_cons.mp hticks
      obtain ⟨q, hone, happlied, hlength, hspent⟩ := applyOne_served hprompt
        (hcheck 0 app rfl) hhost hholds (by omega) (by omega) hsupplied.1 htick
      have huntouched : ∀ app' ∈ apps,
          q.store.replicasAt app'.key = p.store.replicasAt app'.key := by
        intro app' happ'
        have hne : app'.key ∉ [app].map Deployment.key := by
          simpa using fun heq : app'.key = app.key ↦ hnodup.1 (heq ▸ List.mem_map_of_mem happ')
        rw [Store.replicasAt, (happlied.untouched _ hne).1, Store.replicasAt]
      obtain ⟨r, hrest, happlied'⟩ := ih (i := i + 1) (p := q) hnodup.2
        (fun j app' happ' ↦ by
          rw [Nat.add_assoc, Nat.add_comm 1]
          exact hcheck (j + 1) app' happ')
        hhosts happlied.holds (by rw [surgeSum]; omega) (by rw [replicasSum]; omega)
        (hsupplied.2.mono fun service hservice ↦ hservice.elim (happlied.live service) fun hpub ↦
          happlied.announced hpub.1 app List.mem_cons_self hpub.2.1 service hpub.2.2)
        (fun app' happ' ↦ by rw [huntouched app' happ']; exact hticks app' happ')
      refine ⟨r, ?_, happlied.cons happlied' hnodup.1⟩
      rw [Nat.add_zero] at hone
      simp only [applyApps, hone, hrest]

/-! ## A stack -/

section Order

omit [Sha256]

variable {apps : List Deployment} {app : Deployment}

theorem byKey_append_singleton (apps : List Deployment) (app : Deployment) :
    byKey (apps ++ [app]) = Function.update (byKey apps) app.key (some app) :=
  List.foldl_append

theorem byKey_of_mem (hnodup : (apps.map Deployment.key).Nodup) (happ : app ∈ apps) :
    byKey apps app.key = some app := by
  induction apps using List.reverseRecOn with
  | nil => exact absurd happ List.not_mem_nil
  | append_singleton apps last ih =>
      rw [List.map_append, List.nodup_append'] at hnodup
      rw [byKey_append_singleton]
      rcases List.mem_append.mp happ with hin | hlast
      · rw [Function.update_of_ne, ih hnodup.1 hin]
        exact fun heq ↦ hnodup.2.2 (List.mem_map_of_mem hin) (by simp [heq])
      · rw [List.mem_singleton.mp hlast, Function.update_self]

theorem mem_of_byKey {key : String} (h : byKey apps key = some app) : app ∈ apps := by
  induction apps using List.reverseRecOn with
  | nil => exact absurd h (by simp [byKey])
  | append_singleton apps last ih =>
      rw [byKey_append_singleton] at h
      by_cases hkey : key = last.key
      · rw [hkey, Function.update_self, Option.some.injEq] at h
        exact List.mem_append_right _ (List.mem_singleton.mpr h.symm)
      · rw [Function.update_of_ne hkey] at h
        exact List.mem_append_left _ (ih h)

/-- If every key of the order has an app, the apps are taken in the order. -/
theorem map_key_takeInOrder {order : List String} {m : String → Option Deployment} (hm : Keyed m)
    (hsome : ∀ key ∈ order, (m key).isSome) (hnodup : order.Nodup) :
    (takeInOrder order m).map Deployment.key = order := by
  induction order generalizing m with
  | nil => rfl
  | cons key order ih =>
      obtain ⟨hkey, hsome⟩ := List.forall_mem_cons.mp hsome
      obtain ⟨spec, hspec⟩ := Option.isSome_iff_exists.mp hkey
      rw [List.nodup_cons] at hnodup
      simp only [takeInOrder, hspec, List.map_cons, hm key spec hspec]
      rw [ih (hm.remove key) (fun k hk ↦ ?_) hnodup.2]
      have hne : k ≠ key := fun heq ↦ hnodup.1 (heq ▸ hk)
      rw [Function.update_of_ne hne]
      exact hsome k hk

/-- What is applied of a stack: the apps of one that has been validated, in its order. -/
structure InOrder (stack : Stack) (apps : List Deployment) : Prop where
  valid : stack.Valid
  applyOrder : stack.applyOrder = .ok (apps.map Deployment.key)
  mem_iff : ∀ app, app ∈ apps ↔ app ∈ stack.apps

theorem inOrder_takeInOrder {stack : Stack} (h : stack.Valid) {order : List String}
    (horder : stack.applyOrder = .ok order) :
    InOrder stack (takeInOrder order (byKey stack.apps)) := by
  have hperm := h.perm horder
  have hkeys : (takeInOrder order (byKey stack.apps)).map Deployment.key = order := by
    refine map_key_takeInOrder (keyed_byKey _) (fun key hkey ↦ ?_)
      (hperm.nodup_iff.mpr h.nodup_keys)
    obtain ⟨app, happ, rfl⟩ := List.mem_map.mp (hperm.mem_iff.mp hkey)
    rw [byKey_of_mem h.nodup_keys happ]
    rfl
  have hsub : ∀ app ∈ takeInOrder order (byKey stack.apps), app ∈ stack.apps :=
    fun app happ ↦ mem_of_byKey (mem_takeInOrder (keyed_byKey _) happ)
  refine ⟨h, hkeys.symm ▸ horder, fun app ↦ ⟨hsub app, fun happ ↦ ?_⟩⟩
  have hkey : app.key ∈ (takeInOrder order (byKey stack.apps)).map Deployment.key := by
    rw [hkeys, hperm.mem_iff]
    exact List.mem_map_of_mem happ
  obtain ⟨app', happ', heq⟩ := List.mem_map.mp hkey
  exact List.inj_on_of_nodup_map h.nodup_keys (hsub app' happ') happ heq ▸ happ'

theorem loadStack_inOrder {cli : Cli} {parsed : Except String Stack}
    (h : cli.loadStack parsed = .ok apps) : ∃ stack, InOrder stack apps := by
  obtain ⟨stack, hstack, h⟩ := bind_eq_ok.mp h
  split_ifs at h
  · obtain ⟨_, hvalid, h⟩ := bind_eq_ok.mp h
    obtain ⟨order, horder, h⟩ := bind_eq_ok.mp h
    exact ⟨_, Except.ok.inj h ▸ inOrder_takeInOrder (Stack.validate_eq_ok.mp hvalid) horder⟩
  · obtain ⟨order, horder, h⟩ := bind_eq_ok.mp h
    simp only [Stack.fromManifest, bind_eq_ok] at hstack
    obtain ⟨_, _, _, hvalid, hpure⟩ := hstack
    obtain rfl := Except.ok.inj hpure
    exact ⟨_, Except.ok.inj h ▸ inOrder_takeInOrder (Stack.validate_eq_ok.mp hvalid) horder⟩

/-- Each app comes after one that publishes what it depends on. -/
theorem InOrder.exists_publisher {stack : Stack} {before after : List Deployment}
    (h : InOrder stack (before ++ app :: after)) {dep : DependencyRef}
    (hdep : dep ∈ app.dependsOn) :
    ∃ b ∈ before, Stack.Publishes b app.nameSpace dep.service := by
  obtain ⟨hvalid, horder, hmem⟩ := h
  have happ : app ∈ stack.apps := (hmem app).mp (by simp)
  obtain ⟨hleast, hall⟩ := Stack.applyOrder_ok horder
  -- The service is published, and its last publisher is another app.
  obtain ⟨pub, hpub, heq⟩ := List.mem_map.mp (hvalid.published app happ dep hdep)
  obtain ⟨hpub, hne⟩ := List.mem_filter.mp hpub
  obtain ⟨hnameSpace, hservice⟩ := Prod.mk.inj heq
  have hpub' : pub ∈ stack.apps.filter (Stack.Publishes · app.nameSpace dep.service) :=
    List.mem_filter.mpr ⟨hpub, decide_eq_true ⟨of_decide_eq_true hne, hnameSpace, hservice⟩⟩
  obtain ⟨owner, howner⟩ := Option.isSome_iff_exists.mp
    (List.getLast?_isSome.mpr (List.ne_nil_of_mem hpub'))
  obtain ⟨hin, hpublishes⟩ := List.mem_filter.mp (List.mem_of_getLast? howner)
  have hpublishes := of_decide_eq_true hpublishes
  have hne : owner.key ≠ app.key := by
    intro heq
    have hself : owner = app := List.inj_on_of_nodup_map hvalid.nodup_keys hin happ heq
    have hdeps := (Deployment.validate_eq_ok.mp (hvalid.apps_ok app happ)).dependsOn_ok
    exact Stack.validateDeps_service_ne hdeps dep hdep (hself ▸ hpublishes.2.2).symm
  have hprecedes := hleast.precedes_of_dep ((hall app.key).mpr (List.mem_map_of_mem happ))
    ⟨app, happ, rfl, dep, hdep, owner, howner, rfl, hne⟩
  -- So it stands before the app.
  obtain ⟨l, r, hlr, hl⟩ := hprecedes
  have hnodup := hleast.nodup
  rw [List.map_append, List.map_cons] at hlr hnodup
  have hnotMem := List.nodup_middle.mp hnodup
  rw [List.nodup_cons, List.mem_append, not_or] at hnotMem
  obtain ⟨hbefore, -, -⟩ :=
    (List.append_cons_inj_of_notMem hnotMem.1.1 hnotMem.1.2).mp hlr
  rw [← hbefore] at hl
  obtain ⟨b, hb, hkey⟩ := List.mem_map.mp hl
  have hb' : b ∈ stack.apps := (hmem b).mp (List.mem_append_left _ hb)
  exact ⟨b, hb, List.inj_on_of_nodup_map hvalid.nodup_keys hb' hin hkey ▸ hpublishes⟩

/-- So the order supplies the apps, if none that publishes is scaled to nothing. -/
theorem InOrder.supplied {stack : Stack} (h : InOrder stack apps)
    (hscaled : ∀ app ∈ apps, app.service ≠ "" → app.replicas ≠ 0) {announces : Prop}
    (hannounces : announces) (live : String → Prop) : Supplied announces live apps := by
  have hsuffix : ∀ before rest, apps = before ++ rest →
      Supplied announces
        (fun service ↦ ∃ b ∈ before, b.replicas ≠ 0 ∧ service ∈ b.serviceName) rest := by
    intro before rest
    induction rest generalizing before with
    | nil => exact fun _ ↦ trivial
    | cons app rest ih =>
        rintro rfl
        refine ⟨fun dep hdep ↦ ?_, (ih (before ++ [app]) (by simp)).mono ?_⟩
        · obtain ⟨b, hb, hne, hnameSpace, hservice⟩ := h.exists_publisher hdep
          refine ⟨b, hb, hscaled b (List.mem_append_left _ hb) hne, ?_⟩
          rw [Deployment.serviceName, if_neg hne, hnameSpace, hservice]
          rfl
        · rintro service ⟨b, hb, hservice⟩
          rcases List.mem_append.mp hb with hb | hb
          · exact Or.inl ⟨b, hb, hservice⟩
          · exact Or.inr ⟨hannounces, List.mem_singleton.mp hb ▸ hservice⟩
  exact (hsuffix [] apps rfl).mono fun service ⟨b, hb, _⟩ ↦ absurd hb List.not_mem_nil

/-- So does any order if all that they depend on is live. -/
theorem supplied_of_live {announces : Prop} {live : String → Prop}
    (h : ∀ app ∈ apps, ∀ dep ∈ app.dependsOn, live (dep.resolvedServiceName app.nameSpace)) :
    Supplied announces live apps := by
  induction apps with
  | nil => trivial
  | cons app apps ih =>
      obtain ⟨happ, happs⟩ := List.forall_mem_cons.mp h
      exact ⟨happ, (ih happs).mono fun _ ↦ Or.inl⟩

end Order

/-- **A stack is brought up whole**: on a mesh that knows what is tracked, in whatever phase, that
serves the apps and runs a job by the time it is next asked for, with room and job ids for all of
them, one `apply` ends with every app at its desired replicas, running on its revision, and saves
that.  If the mesh announces services, dependencies need no second `apply`; deployments that are
not of the stack are left as they were. -/
theorem apply_stack_served {parsed : Except String Stack} {apps : List Deployment} {file : Store}
    {mesh : σ} (hload : cli.loadStack parsed = .ok apps)
    (hservices : (v.announces ∧ ∀ app ∈ apps, app.service ≠ "" → app.replicas ≠ 0) ∨
      ∀ app ∈ apps, v.DepsLive app mesh)
    (hpre : ∀ i app, apps[i]? = some app → cli.preflightChecks (preflights i) app = .ok ())
    (hprompt : v.Prompt) (hhosts : ∀ app ∈ apps, driver.Hosts v (clock app.key) app)
    (hholds : v.Holds base file.migrate.tracked mesh)
    (hcapacity : base + file.migrate.tracked.length + surgeSum apps ≤ v.capacity)
    (hissued : v.issued mesh + cli.maxTicks.toNat * replicasSum apps ≤ v.supply)
    (hticks : ∀ app ∈ apps,
      2 * (file.migrate.replicasAt app.key).length + 4 ≤ cli.maxTicks.toNat) :
    ∃ q, cli.main driver preflights clock (.apply (.ok (.stack parsed))) file mesh = (.ok (), q) ∧
      Applied v base apps { store := file.migrate, mesh } q := by
  obtain ⟨stack, hstack⟩ := loadStack_inOrder hload
  have hcheck : ∀ j app, apps[j]? = some app →
      cli.check (preflights (0 + j)) app = .ok () := by
    intro j app happ
    have hvalid := hstack.valid.apps_ok app ((hstack.mem_iff app).mp (List.mem_of_getElem? happ))
    rw [Nat.zero_add, check, hvalid]
    exact hpre j app happ
  have hsupplied : Supplied v.announces (v.live mesh) apps := by
    rcases hservices with ⟨hannounces, hscaled⟩ | hlive
    · exact hstack.supplied hscaled hannounces _
    · exact supplied_of_live hlive
  obtain ⟨q, hrun, happlied⟩ := applyApps_served (p := { store := file.migrate, mesh }) hprompt
    (nodup_loadStack hload) hcheck hhosts hholds hcapacity hissued hsupplied hticks
  refine ⟨{ q with store := { q.store with version := storeVersion } }, ?_, ?_⟩
  · simp only [main, exec, apply, applyStack, hload, hrun]
  · exact ⟨happlied.holds, happlied.converged, happlied.untouched, happlied.live,
      happlied.announced⟩

section Example

/-- A node that does not answer. -/
def noPreflight : Preflight := ⟨none, fun _ _ ↦ none, fun _ ↦ ""⟩

/-- What is there before: an older revision of the consumer, which runs, and another deployment, of
which one job has crashed. -/
def usedStore : Store where
  version := storeVersion
  deployments :=
    ⟨[("default/api", { spec := stackApp "api" "" [], replicas := [⟨"1", "b", "v1", .running⟩] }),
      ("default/web",
        { spec := stackApp "web" "" [], replicas := [⟨"0", "a", "v1", .running⟩] })],
      by decide⟩

omit [Sha256] in
/-- A consumer and its producer, in the order of the manifest. -/
theorem apply_stack_served_onePublisher : ∃ q,
    @main _ Deployment.nginxSha256 {} (smallDriver.awaiting SmallMesh.wait) (fun _ ↦ noPreflight)
        (fun _ _ ↦ 0) (.apply (.ok (.stack (.ok onePublisher)))) usedStore SmallMesh.used =
          (.ok (), q) ∧
      @Applied _ Deployment.nginxSha256 SmallMesh.view.awaited 0
        [stackApp "db" "db" [], stackApp "web" "" ["db"]]
        ⟨usedStore.migrate, SmallMesh.used⟩ q := by
  have hfits : ∀ app ∈ [stackApp "db" "db" [], stackApp "web" "" ["db"]],
      ∃ host ∈ idleHosts, isFresh host (UInt64.toNat 0) (UInt64.toNat 120) = true ∧
        hostCanFit host app = true := by
    decide +kernel
  have hholds : SmallMesh.view.awaited.Holds 0 usedStore.migrate.tracked SmallMesh.used := by
    have htracked : usedStore.migrate.tracked =
        [⟨"1", "b", "v1", .running⟩, ⟨"0", "a", "v1", .running⟩] := by
      decide +kernel
    refine ⟨SmallMesh.sound_used, by decide +kernel, ?_, Nat.zero_le _⟩
    rw [htracked]
    exact List.forall_mem_cons.mpr ⟨SmallMesh.knows_used.2.awaited,
      List.forall_mem_singleton.mpr SmallMesh.knows_used.1.awaited⟩
  exact @apply_stack_served SmallMesh Deployment.nginxSha256 {}
    (smallDriver.awaiting SmallMesh.wait) (fun _ ↦ noPreflight) (fun _ _ ↦ 0)
    SmallMesh.view.awaited 0 (.ok onePublisher)
    [stackApp "db" "db" [], stackApp "web" "" ["db"]] usedStore SmallMesh.used
    (by decide +kernel) (Or.inl ⟨trivial, by decide +kernel⟩) (fun _ _ _ ↦ rfl)
    MeshView.Settles.prompt
    (fun app happ ↦ ⟨fun grant ↦ (smallDriver_serves app grant).awaiting SmallMesh.wait_settles,
      fun _ ↦ MeshDriver.HasRoom.awaiting (smallDriver_hasRoom (hfits app happ))⟩)
    hholds (by decide +kernel) (by decide +kernel) (by decide +kernel)

end Example

end Cli

end CeGke
