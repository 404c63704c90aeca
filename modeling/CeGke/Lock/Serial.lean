import CeGke.Cli.Recorded
import CeGke.Lock.Exclusion

/-!
# No lost update

What the lock is for: the processes that load, change and save the state file do so as if
one after another.  The abstract machine has the state file alone, and its steps are whole
commands and passes; the lock refines it as long as no waiter removes the lock of a
process that holds it (`no_lost_update`).  A process that holds the lock for longer than
`LOCK_STALE_SECS` can lose it to a waiter, and then overwrites what that one has saved
(`update_lost`).
-/

namespace CeGke

open Lib

/-! ## What a process does with the lock -/

/-- What a process does between loading the state file and saving it.  The daemon takes
the lock once a pass, so it is a process for each of its passes. -/
inductive Task where
  | command (cli : Cli) (cmd : Cmd)
  | pass (nameSpace grant : Option String)

/-- The task can turn one state file into the other, and ends well. -/
def Task.Saves [Sha256] : Task → Store → Store → Prop
  | command cli cmd, file, out =>
      ∃ (σ : Type) (driver : MeshDriver σ) (preflights : ℕ → Preflight)
        (clock : String → ℕ → UInt64) (mesh mesh' : σ),
        cli.main driver preflights clock cmd file mesh = (.ok (), { store := out, mesh := mesh' })
  | pass nameSpace grant, file, out =>
      ∃ (σ : Type) (driver : MeshDriver σ) (clock : String → UInt64) (mesh : σ),
        out = { (reconcilePass driver clock grant nameSpace file.migrate mesh).store with
          version := storeVersion }

/-- The process that saves. -/
def LockEvent.saver? {P S : Type*} : LockEvent P S → Option P
  | save p _ => some p
  | _ => none

theorem LockEvent.saver?_eq_some {P S : Type*} {e : LockEvent P S} {p : P} :
    e.saver? = some p ↔ ∃ out, e = .save p out := by
  cases e <;> simp [saver?, eq_comm]

namespace LockState

variable {P S : Type*} [DecidableEq P] {s t : LockState P S} {e : LockEvent P S} {p : P}

/-! ## After the load -/

/-- A process that is past its load stays where it is or gets past its save. -/
theorem Change.pc_of_late (h : s.Change e t) (hp : (s.pc p).Late) :
    t.pc p = s.pc p ∨ (t.pc p).Over := by
  have hmoved : ∀ {q : P} {c : Pc S}, ((s.pc q).Late → c.Over) →
      (s.setPc q c).pc p = s.pc p ∨ ((s.setPc q c).pc p).Over := by
    intro q c hc
    by_cases hpq : p = q
    · subst hpq
      rw [setPc_pc_self]
      exact Or.inr (hc hp)
    · exact Or.inl (setPc_pc_of_ne _ _ _ hpq)
  cases h with
  | pass nanos => exact Or.inl rfl
  | quiet hquiet _ => exact hmoved hquiet.late
  | create _ hlate => exact hmoved fun h ↦ absurd h hlate
  | write ok hpc => exact hmoved fun h ↦ absurd h (by simp [hpc, Pc.Late, Pc.Over])
  | remove ok hpc => exact hmoved fun h ↦ absurd h (by simp [hpc, Pc.Late, Pc.Over])
  | drop ok _ => exact hmoved fun _ ↦ trivial
  | save out _ => exact hmoved fun _ ↦ trivial

theorem Change.late (h : s.Change e t) (hp : (s.pc p).Late) : (t.pc p).Late := by
  rcases h.pc_of_late hp with heq | hover
  · rwa [heq]
  · exact hover.late

theorem Change.over (h : s.Change e t) (hp : (s.pc p).Over) : (t.pc p).Over := by
  rcases h.pc_of_late hp.late with heq | hover
  · rwa [heq]
  · exact hover

/-- What a process has loaded is still what the state file holds. -/
def Fresh (s : LockState P S) : Prop :=
  ∀ p since store, s.pc p = .loaded since store → store = s.disk

omit [DecidableEq P] in
theorem holding_of_loaded {since : ℕ} {store : S} (h : s.pc p = .loaded since store) :
    (s.pc p).Holding := by
  rw [h]
  rfl

/-- As long as there is one holder at a time nobody changes the file under a process that
has loaded it. -/
theorem Fresh.change (h : s.Fresh) (howned : s.Owned) (hchange : s.Change e t) : t.Fresh := by
  have hmoved : ∀ {q : P} {c : Pc S},
      (∀ since store, c = .loaded since store → store = s.disk) → (s.setPc q c).Fresh := by
    intro q c hc p since store hp
    by_cases hpq : p = q
    · subst hpq
      rw [setPc_pc_self] at hp
      exact hc since store hp
    · rw [setPc_pc_of_ne _ _ _ hpq] at hp
      exact h p since store hp
  cases hchange with
  | pass nanos => exact h
  | quiet hquiet _ => exact hmoved hquiet.loaded
  | create _ _ => exact hmoved (by simp)
  | write ok _ => exact hmoved (by simp)
  | @remove q left ok _ => exact hmoved (by cases left <;> simp [Pc.retry])
  | drop ok _ => exact hmoved (by simp)
  | @save q since store out hq =>
      intro p since' store' hp
      by_cases hpq : p = q
      · subst hpq
        rw [setPc_pc_self] at hp
        exact absurd hp (by simp)
      · rw [setPc_pc_of_ne _ _ _ hpq] at hp
        exact absurd (howned.exclusive (holding_of_loaded hp) (holding_of_loaded hq)) hpq

omit [DecidableEq P] in
theorem Initial.fresh (h : s.Initial) : s.Fresh := by
  intro p since store hp
  rcases h.pc p with hpc | hpc
  · rw [hpc] at hp
    exact absurd hp (by simp [Pc.retry, lockAttempts])
  · rw [hpc] at hp
    exact absurd hp (by simp)

/-! ## One after another -/

section Runs

variable {work : S → P → S → Prop} {init : LockState P S} {es : List (LockEvent P S)}

theorem Step.over (h : s.Step work e t) (hp : (s.pc p).Over) : (t.pc p).Over :=
  (change_of_next h.next).over hp

/-- A save is made by a process that has loaded, and makes of what it has loaded what its
work can. -/
theorem Step.pc_of_save {out : S} (h : s.Step work (.save p out) t) :
    ∃ since store, s.pc p = .loaded since store ∧ work store p out ∧ t.disk = out ∧
      (t.pc p).Over := by
  have hnext := h.next
  simp only [LockState.next] at hnext
  split at hnext
  · rename_i since store hpc
    refine ⟨since, store, hpc, h.work p out since store rfl hpc, ?_⟩
    rw [← Option.some.inj hnext]
    exact ⟨rfl, by simp [setPc, Pc.Over]⟩
  · exact absurd hnext (by simp)

theorem Step.disk_of_not_save (h : s.Step work e t) (he : e.saver? = none) : t.disk = s.disk := by
  cases change_of_next h.next with
  | save out _ => exact absurd he (by simp [LockEvent.saver?])
  | _ => rfl

/-- The saves of an undisturbed run are steps of the abstract machine, in their order. -/
theorem serial (hinit : init.Initial)
    (hrun : Runs (fun s e t ↦ s.Step work e t ∧ s.Undisturbed e) es init s) :
    Runs work (es.filterMap LockEvent.saver?) init.disk s.disk := by
  have hfresh : Runs (fun s e t ↦ s.Step work e t ∧ s.Fresh) es init s := by
    refine hrun.mono_of_invariant (fun s ↦ s.Owned ∧ s.Fresh) (fun h hstep ↦ ?_)
      ⟨hinit.owned, hinit.fresh⟩
    have hchange := change_of_next hstep.1.next
    exact ⟨⟨hstep.1, h.2⟩, h.1.change hchange hstep.2, h.2.change h.1 hchange⟩
  refine hfresh.simulates disk (fun hstep he ↦ ?_) fun hstep ↦ hstep.1.disk_of_not_save
  obtain ⟨out, rfl⟩ := LockEvent.saver?_eq_some.mp he
  obtain ⟨since, store, hpc, hwork, hdisk, _⟩ := hstep.1.pc_of_save
  rw [hdisk, ← hstep.2 _ since store hpc]
  exact hwork

/-- In particular those of a run of timely holders in which only stale files are removed. -/
theorem serial_of_timely (hinit : init.Initial)
    (hrun : Runs (fun s e t ↦ s.Step work e t ∧ s.Timely ∧ s.RemovesStale e) es init s) :
    Runs work (es.filterMap LockEvent.saver?) init.disk s.disk :=
  serial hinit (undisturbed_of_runs hinit hrun)

/-- No process saves twice. -/
theorem nodup_savers (hrun : Runs (fun s e t ↦ s.Step work e t) es init s) :
    (es.filterMap LockEvent.saver?).Nodup := by
  refine hrun.nodup_filterMap (fun p s ↦ (s.pc p).Over) ?_ (fun h hstep ↦ hstep.over h) ?_
  · intro s e t p hstep he
    obtain ⟨out, rfl⟩ := LockEvent.saver?_eq_some.mp he
    obtain ⟨_, _, _, _, _, hover⟩ := hstep.pc_of_save
    exact hover
  · intro s e t p hover hstep he
    obtain ⟨out, rfl⟩ := LockEvent.saver?_eq_some.mp he
    obtain ⟨since, store, hpc, _⟩ := hstep.pc_of_save
    rw [hpc] at hover
    exact hover

theorem Step.late_of_load (h : s.Step work (.load p) t) : (t.pc p).Late := by
  have hnext := h.next
  simp only [LockState.next] at hnext
  split at hnext
  · rw [← Option.some.inj hnext, setPc_pc_self]
    trivial
  · exact absurd hnext (by simp)

/-- Nobody saves between the load and the save of a process. -/
theorem no_stale_save (hinit : init.Initial) {before mid after : List (LockEvent P S)} {out : S}
    (hrun : Runs (fun s e t ↦ s.Step work e t ∧ s.Undisturbed e)
      (before ++ .load p :: mid ++ .save p out :: after) init s) (q : P) (out' : S) :
    .save q out' ∉ mid := by
  intro hmem
  obtain ⟨mid, rest, rfl⟩ := List.append_of_mem hmem
  obtain ⟨u, hfront, hback⟩ := Runs.append_iff.mp hrun
  obtain ⟨_, hbefore, hfront⟩ := Runs.append_iff.mp hfront
  obtain ⟨loaded, hload, hfront⟩ := Runs.cons_iff.mp hfront
  obtain ⟨v, hmid, hfront⟩ := Runs.append_iff.mp hfront
  obtain ⟨w, hsave, hrest⟩ := Runs.cons_iff.mp hfront
  obtain ⟨_, hsave', _⟩ := Runs.cons_iff.mp hback
  -- When `p` saves it is not past its save, so it was not before.
  have hu : ¬ (u.pc p).Over := by
    obtain ⟨since, store, hpc, _⟩ := hsave'.1.pc_of_save
    rw [hpc]
    exact id
  have hw : ¬ (w.pc p).Over := fun h ↦
    hu (hrest.invariant (fun s ↦ (s.pc p).Over) (fun h hstep ↦ hstep.1.over h) h)
  have hv : ¬ (v.pc p).Over := fun h ↦ hw (hsave.1.over h)
  -- So it holds the lock when `q` saves, and is `q`.
  have hlate : (v.pc p).Late :=
    hmid.invariant (fun s ↦ (s.pc p).Late) (fun h hstep ↦ (change_of_next hstep.1.next).late h)
      hload.1.late_of_load
  have howned : v.Owned := Owned.of_runs hinit (Runs.append_iff.mpr ⟨_, hbefore, .cons hload hmid⟩)
  obtain ⟨since, store, hpc, _, _, hover⟩ := hsave.1.pc_of_save
  obtain rfl : p = q := howned.exclusive (Pc.holding_of_late hlate hv) (holding_of_loaded hpc)
  exact hw hover

end Runs

/-! ## The commands and the daemon -/

/-- **No lost update**, in every run in which no waiter removes the lock file of a process
between its acquire and its drop: the state file is what the tasks that have saved make of
it one after another, each saves once, and none saves a store loaded before another save. -/
theorem no_lost_update [Sha256] (tasks : P → Task) {init s : LockState P Store}
    {es : List (LockEvent P Store)} (hinit : init.Initial)
    (hrun : Runs (fun s e t ↦
      s.Step (fun file p out ↦ (tasks p).Saves file out) e t ∧ s.Undisturbed e) es init s) :
    Runs (fun file p out ↦ (tasks p).Saves file out) (es.filterMap LockEvent.saver?)
        init.disk s.disk ∧
      (es.filterMap LockEvent.saver?).Nodup ∧
      ∀ before mid after p out, es = before ++ .load p :: mid ++ .save p out :: after →
        ∀ q out', .save q out' ∉ mid := by
  refine ⟨serial hinit hrun, nodup_savers (hrun.mono And.left), ?_⟩
  rintro before mid after p out rfl
  exact no_stale_save hinit hrun

end LockState

section Example

/-- A deployment that wants one replica. -/
def managedApp (name : String) : ManagedDeployment where
  spec := { name, nameSpace := "default", image := "nginx", replicas := 1 }

/-- A state file with two deployments. -/
def twoDeployments : Store where
  deployments :=
    (SortedMap.empty.insert "default/a" (managedApp "a")).insert "default/b" (managedApp "b")

/-- Process 0 reconciles `a`, process 1 pauses `b`. -/
def statusAndPause : Fin 2 → Task
  | 0 => .command {} (.rollout (.status "a"))
  | 1 => .command {} (.rollout (.pause "b"))

/-- What they make of that file on a mesh where nothing can be placed. -/
def outs : Fin 2 → Store
  | 0 => twoDeployments
  | 1 => twoDeployments.modify "default/b" ({ · with paused := true })

/-- Neither process has started. -/
def twoProcesses : LockState (Fin 2) Store :=
  ⟨0, none, twoDeployments, fun _ ↦ .retry lockAttempts⟩

/-- The ticks of process 0 take more than two minutes, and process 1 breaks its lock. -/
def slowStatus : List (LockEvent (Fin 2) Store) :=
  [.create 0, .write 0 true, .load 0, .pass (121 * nanosPerSec),
    .create 1, .stat 1 true, .judge 1, .remove 1 true, .create 1, .write 1 true, .load 1,
    .save 1 (outs 1), .drop 1 true, .save 0 (outs 0), .drop 0 true]

/-- Process 1 finds the lock held, sleeps, and has its turn. -/
def inTurn : List (LockEvent (Fin 2) Store) :=
  [.create 0, .write 0 true, .load 0, .create 1, .stat 1 true, .judge 1, .save 0 (outs 0),
    .drop 0 true, .pass lockPause, .wake 1, .create 1, .write 1 true, .load 1, .save 1 (outs 1),
    .drop 1 true]

/-- Whoever saves has loaded the first file and saves what it makes of it. -/
def savesOuts (s : LockState (Fin 2) Store) : LockEvent (Fin 2) Store → Bool
  | .save p out =>
      match s.pc p with
      | .loaded _ store => store = twoDeployments ∧ out = outs p
      | _ => false
  | _ => true

section Nginx

/-- The tasks, with SHA-256 on the template of `nginx`. -/
abbrev nginxWork (file : Store) (p : Fin 2) (out : Store) : Prop :=
  @Task.Saves Deployment.nginxSha256 (statusAndPause p) file out

theorem saves_outs (p : Fin 2) : nginxWork twoDeployments p (outs p) := by
  refine match p with
    | 0 =>
        ⟨Unit, stuckDriver [], fun _ ↦ ⟨none, fun _ _ ↦ none, fun _ ↦ ""⟩, fun _ _ ↦ 0, (),
          (), ?_⟩
    | 1 =>
        ⟨Unit, stuckDriver [], fun _ ↦ ⟨none, fun _ _ ↦ none, fun _ ↦ ""⟩, fun _ _ ↦ 0, (),
          (), ?_⟩
  · decide +kernel
  · decide +kernel

theorem step_of_savesOuts {s t : LockState (Fin 2) Store} {e : LockEvent (Fin 2) Store}
    (h : s.next e = some t) (hsaves : savesOuts s e = true) : s.Step nginxWork e t := by
  refine ⟨h, ?_⟩
  rintro p out since store rfl hpc
  simp only [savesOuts, hpc, decide_eq_true_eq] at hsaves
  rw [hsaves.1, hsaves.2]
  exact saves_outs p

/-- Deployment `b` is paused, in a file of the current version. -/
def Paused (file : Store) : Prop :=
  file.version = storeVersion ∧ (file.get "default/b").any (·.paused)

theorem keyOf_b : Cli.keyOf {} "b" = "default/b" := by decide +kernel

theorem keyOf_a : "default/b" ≠ Cli.keyOf {} "a" := by decide +kernel

/-- Process 1 pauses `b`. -/
theorem paused_of_pause {file out : Store} (h : nginxWork file 1 out) : Paused out := by
  obtain ⟨σ, driver, preflights, clock, mesh, mesh', hmain⟩ := h
  obtain ⟨q, hexec, hq⟩ := @Cli.main_eq_ok _ Deployment.nginxSha256 _ _ _ _ _ _ _ _ hmain
  obtain rfl : out = { q.store with version := storeVersion } := congrArg CliState.store hq
  refine ⟨rfl, ?_⟩
  simp only [Cli.exec, Cli.rolloutCmd] at hexec
  split at hexec
  · exact absurd (congrArg Prod.fst hexec) (by simp)
  · rename_i managed hget
    obtain rfl := congrArg Prod.snd hexec
    have hb : (file.migrate.modify (Cli.keyOf {} "b") ({ · with paused := true })).get
        "default/b" = some { managed with paused := true } := by
      rw [Store.get_modify, keyOf_b, if_pos rfl, ← keyOf_b, hget, Option.map_some]
    exact (congrArg (Option.any (·.paused)) hb).trans rfl

/-- Process 0 leaves `b` alone. -/
theorem paused_of_status {file out : Store} (h : nginxWork file 0 out) (hpaused : Paused file) :
    Paused out := by
  obtain ⟨σ, driver, preflights, clock, mesh, mesh', hmain⟩ := h
  obtain ⟨q, hexec, hq⟩ := @Cli.main_eq_ok _ Deployment.nginxSha256 _ _ _ _ _ _ _ _ hmain
  obtain rfl : out = { q.store with version := storeVersion } := congrArg CliState.store hq
  refine ⟨rfl, ?_⟩
  have hmigrate : file.migrate.get "default/b" = file.get "default/b" := by
    rw [Store.migrate, if_pos (hpaused.1 ▸ UInt32.le_refl _)]
    rfl
  simp only [Cli.exec, Cli.rolloutCmd] at hexec
  split at hexec
  · exact absurd (congrArg Prod.fst hexec) (by simp)
  · have hb := @Cli.reconcileToConvergence_get_of_ne _ Deployment.nginxSha256 {} driver clock _ _
      keyOf_a { store := file.migrate, mesh }
    rw [hexec] at hb
    exact (congrArg (Option.any (·.paused)) (hb.trans hmigrate)).trans hpaused.2

/-- Then the pause is lost: the file ends as it began, which is what the two commands come to
in neither order. -/
theorem update_lost :
    twoProcesses.Initial ∧ (∀ p, .crash p ∉ slowStatus) ∧
      ∃ s, Runs (fun s e t ↦ s.Step nginxWork e t) slowStatus twoProcesses s ∧
        (∀ p, s.pc p = .done) ∧
          ¬ ∃ order, order.Perm (slowStatus.filterMap LockEvent.saver?) ∧
            Runs nginxWork order twoProcesses.disk s.disk := by
  refine ⟨⟨fun _ ↦ Or.inl rfl, by simp [twoProcesses]⟩, by simp [slowStatus], ?_⟩
  have hreplay : (Runs.replay LockState.next savesOuts slowStatus twoProcesses).any
      (fun s ↦ s.disk = outs 0 ∧ ∀ p, s.pc p = .done) = true := by
    decide +kernel
  obtain ⟨s, hs, hend⟩ := (Option.any_eq_true _ _).mp hreplay
  obtain ⟨hdisk, hdone⟩ := of_decide_eq_true hend
  refine ⟨s, (Runs.of_replay hs).mono fun h ↦ step_of_savesOuts h.1 h.2, hdone, ?_⟩
  rintro ⟨order, hperm, hrun⟩
  have hmem : (1 : Fin 2) ∈ order := hperm.mem_iff.mpr (by decide)
  obtain ⟨before, after, rfl⟩ := List.append_of_mem hmem
  obtain ⟨_, _, hrest⟩ := Runs.append_iff.mp hrun
  obtain ⟨file, hpause, hafter⟩ := Runs.cons_iff.mp hrest
  have hpaused : Paused s.disk := by
    refine hafter.invariant Paused (fun {_ p _} h hwork ↦ ?_) (paused_of_pause hpause)
    match p with
    | 0 => exact paused_of_status hwork h
    | 1 => exact paused_of_pause hwork
  rw [hdisk] at hpaused
  exact absurd hpaused.2 (by decide +kernel)

/-- In turn both commands end in the file. -/
theorem no_lost_update_inTurn :
    ∃ s, Runs (fun s e t ↦ s.Step nginxWork e t ∧ s.Undisturbed e) inTurn twoProcesses s ∧
      s.disk = outs 1 ∧ Runs nginxWork [0, 1] twoDeployments s.disk := by
  have hreplay : (Runs.replay LockState.next (fun s e ↦ savesOuts s e && decide (s.Undisturbed e))
      inTurn twoProcesses).any (fun s ↦ s.disk = outs 1) = true := by
    decide +kernel
  obtain ⟨s, hs, hend⟩ := (Option.any_eq_true _ _).mp hreplay
  have hrun : Runs (fun s e t ↦ s.Step nginxWork e t ∧ s.Undisturbed e) inTurn twoProcesses s := by
    apply (Runs.of_replay hs).mono
    intro _ _ _ h
    obtain ⟨hsaves, hundisturbed⟩ := Bool.and_eq_true_iff.mp h.2
    exact ⟨step_of_savesOuts h.1 hsaves, of_decide_eq_true hundisturbed⟩
  have hinit : twoProcesses.Initial := ⟨fun _ ↦ Or.inl rfl, by simp [twoProcesses]⟩
  refine ⟨s, hrun, of_decide_eq_true hend, ?_⟩
  exact (@LockState.no_lost_update _ _ Deployment.nginxSha256 statusAndPause _ _ _ hinit hrun).1

end Nginx

end Example

end CeGke
