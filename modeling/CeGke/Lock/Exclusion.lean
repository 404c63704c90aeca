import CeGke.Lock.Machine

/-!
# Mutual exclusion

The file carries no owner that anybody checks, so the lock excludes only as long as no
waiter removes the file of a process that still holds it (`Undisturbed`).  A waiter that
finds the file stale may be overtaken by another before it removes it, and then removes
the fresh file of that one (`exclusion_lost`).  When every removal still finds what it
removes stale and no holder stays longer than the limit, at most one holds the lock
(`one_holder`).
-/

namespace CeGke

open Lib

variable {P S : Type*}

namespace LockState

/-! ## What a step does -/

section Change

variable (s : LockState P S)

/-- A move of one process that touches neither file: it does not come to hold the lock,
what it loads is what the state file holds, and past the load it can only crash. -/
structure Quiet (p : P) (c : Pc S) : Prop where
  held : ∀ since, c.heldSince = some since → (s.pc p).heldSince = some since
  loaded : ∀ since store, c = .loaded since store → store = s.disk
  late : (s.pc p).Late → c.Over

variable {s} in
/-- A process that does not hold the lock afterwards and was not past its load. -/
theorem Quiet.of_waiting {p : P} {c : Pc S} (hheld : c.heldSince = none)
    (hlate : ¬ (s.pc p).Late) : s.Quiet p c where
  held since h := by simp [hheld] at h
  loaded since store h := by simp [h, Pc.heldSince] at hheld
  late h := absurd h hlate

theorem heldSince_retry (left : ℕ) : (Pc.retry left : Pc S).heldSince = none := by
  cases left <;> rfl

variable [DecidableEq P]

/-- What an event changes. -/
inductive Change : LockEvent P S → LockState P S → Prop
  | pass (nanos : ℕ) : Change (.pass nanos) { s with now := s.now + nanos }
  | quiet {e : LockEvent P S} {p : P} {c : Pc S} : s.Quiet p c → (∀ q out, e ≠ .save q out) →
      Change e (s.setPc p c)
  | create {p : P} : s.lock = none → ¬ (s.pc p).Late →
      Change (.create p) { s.setPc p (.created s.now) with lock := some ⟨p, s.now⟩ }
  | write {p : P} {since : ℕ} (ok : Bool) : s.pc p = .created since →
      Change (.write p ok)
        { s.setPc p (.locked since) with
          lock := if ok then s.lock.map (touch p s.now) else s.lock }
  | remove {p : P} {left : ℕ} (ok : Bool) : s.pc p = .breaking left →
      Change (.remove p ok)
        { s.setPc p (.retry left) with lock := if ok then none else s.lock }
  | drop {p : P} (ok : Bool) : (s.pc p).Holding →
      Change (.drop p ok) { s.setPc p .done with lock := if ok then none else s.lock }
  | save {p : P} {since : ℕ} {store : S} (out : S) : s.pc p = .loaded since store →
      Change (.save p out) { s.setPc p (.saved since) with disk := out }

variable {s} {t : LockState P S}

/-- Every step is a change of one of these kinds. -/
theorem change_of_next {e : LockEvent P S} (h : s.next e = some t) : s.Change e t := by
  cases e with
  | pass nanos =>
      obtain rfl := Option.some.inj h
      exact .pass nanos
  | create p =>
      simp only [next] at h
      split at h
      · rename_i left hpc hlock
        obtain rfl := Option.some.inj h
        exact .create hlock (by simp [hpc, Pc.Late, Pc.Over])
      · rename_i left f hpc hlock
        obtain rfl := Option.some.inj h
        exact .quiet (.of_waiting rfl (by simp [hpc, Pc.Late, Pc.Over])) (by simp)
      · simp at h
  | fail p =>
      simp only [next] at h
      split at h
      · rename_i left hpc
        obtain rfl := Option.some.inj h
        exact .quiet (.of_waiting rfl (by simp [hpc, Pc.Late, Pc.Over])) (by simp)
      · simp at h
  | stat p ok =>
      simp only [next] at h
      split at h
      · rename_i left hpc
        obtain rfl := Option.some.inj h
        exact .quiet (.of_waiting rfl (by simp [hpc, Pc.Late, Pc.Over])) (by simp)
      · simp at h
  | judge p =>
      simp only [next] at h
      split at h
      · rename_i left seen hpc
        have hlate : ¬ (s.pc p).Late := by simp [hpc, Pc.Late, Pc.Over]
        split_ifs at h
        · obtain rfl := Option.some.inj h
          exact .quiet (.of_waiting rfl hlate) (by simp)
        · obtain rfl := Option.some.inj h
          exact .quiet (.of_waiting rfl hlate) (by simp)
      · simp at h
  | remove p ok =>
      simp only [next] at h
      split at h
      · rename_i left hpc
        obtain rfl := Option.some.inj h
        exact .remove ok hpc
      · simp at h
  | wake p =>
      simp only [next] at h
      split at h
      · rename_i left wakeAt hpc
        split_ifs at h
        obtain rfl := Option.some.inj h
        exact .quiet (.of_waiting (heldSince_retry left) (by simp [hpc, Pc.Late, Pc.Over]))
          (by simp)
      · simp at h
  | write p ok =>
      simp only [next] at h
      split at h
      · rename_i since hpc
        obtain rfl := Option.some.inj h
        exact .write ok hpc
      · simp at h
  | load p =>
      simp only [next] at h
      split at h
      · rename_i since hpc
        obtain rfl := Option.some.inj h
        refine .quiet ⟨?_, ?_, ?_⟩ (by simp)
        · simp [hpc, Pc.heldSince]
        · simp [eq_comm]
        · simp [hpc, Pc.Late, Pc.Over]
      · simp at h
  | save p out =>
      simp only [next] at h
      split at h
      · rename_i since store hpc
        obtain rfl := Option.some.inj h
        exact .save out hpc
      · simp at h
  | drop p ok =>
      cases hpc : s.pc p with
      | locked since | loaded since store | saved since =>
          simp only [next, hpc, Option.some.injEq] at h
          subst h
          exact .drop ok (by simp [hpc, Pc.Holding, Pc.heldSince])
      | _ => simp [next, hpc] at h
  | crash p =>
      obtain rfl := Option.some.inj h
      exact .quiet ⟨by simp [Pc.heldSince], by simp, fun _ ↦ trivial⟩ (by simp)

end Change

/-! ## The owner of the file -/

/-- Each holder finds its own file under the lock's name, no older than its hold. -/
def Owned (s : LockState P S) : Prop :=
  ∀ p since, (s.pc p).heldSince = some since →
    since ≤ s.now ∧ ∃ f, s.lock = some f ∧ f.creator = p ∧ since ≤ f.modified

section Owned

variable {s t : LockState P S}

/-- There is one file, so there is one holder. -/
theorem Owned.exclusive (h : s.Owned) {p q : P} (hp : (s.pc p).Holding)
    (hq : (s.pc q).Holding) : p = q := by
  obtain ⟨since, hp⟩ := Option.isSome_iff_exists.mp hp
  obtain ⟨since', hq⟩ := Option.isSome_iff_exists.mp hq
  obtain ⟨_, f, hf, hcreator, _⟩ := h p since hp
  obtain ⟨_, g, hg, hcreator', _⟩ := h q since' hq
  rw [← hcreator, ← hcreator', Option.some.inj (hf.symm.trans hg)]

theorem Initial.owned (h : s.Initial) : s.Owned := by
  intro p since hp
  rcases h.pc p with hpc | hpc
  · rw [hpc, heldSince_retry] at hp
    exact absurd hp (by simp)
  · rw [hpc] at hp
    exact absurd hp (by simp [Pc.heldSince])

variable [DecidableEq P]

/-- Who holds the lock after a move that does not take it held it before. -/
theorem heldSince_of_setPc {p q : P} {c : Pc S} {since : ℕ}
    (hheld : ∀ since, c.heldSince = some since → (s.pc p).heldSince = some since)
    (hq : ((s.setPc p c).pc q).heldSince = some since) : (s.pc q).heldSince = some since := by
  by_cases hqp : q = p
  · subst hqp
    rw [setPc_pc_self] at hq
    exact hheld since hq
  · rwa [setPc_pc_of_ne _ _ _ hqp] at hq

/-- The file may go when nobody but the process that removes it holds the lock, and that
process does not go on holding it. -/
theorem Owned.unlink (h : s.Owned) {p : P} {c : Pc S} {ok : Bool} (hc : c.heldSince = none)
    (halone : ok = true → ∀ q, q ≠ p → ¬ (s.pc q).Holding) :
    Owned { s.setPc p c with lock := if ok then none else s.lock } := by
  intro q since hq
  by_cases hqp : q = p
  · subst hqp
    rw [setPc_pc_self, hc] at hq
    exact absurd hq (by simp)
  · rw [setPc_pc_of_ne _ _ _ hqp] at hq
    have hok : ok ≠ true := fun hok ↦
      halone hok q hqp (Option.isSome_iff_exists.mpr ⟨since, hq⟩)
    simpa [hok] using h q since hq

/-- A step that disturbs no holder keeps the files of the holders. -/
theorem Owned.change (h : s.Owned) {e : LockEvent P S} (hchange : s.Change e t)
    (hundisturbed : s.Undisturbed e) : t.Owned := by
  cases hchange with
  | pass nanos =>
      intro p since hp
      obtain ⟨hnow, hfile⟩ := h p since hp
      exact ⟨Nat.le_add_right_of_le hnow, hfile⟩
  | @quiet _ p c hquiet _ =>
      intro q since hq
      exact h q since (heldSince_of_setPc hquiet.held hq)
  | @create p hlock _ =>
      intro q since hq
      by_cases hqp : q = p
      · subst hqp
        rw [setPc_pc_self] at hq
        obtain rfl : s.now = since := Option.some.inj hq
        exact ⟨Nat.le_refl _, _, rfl, rfl, Nat.le_refl _⟩
      · rw [setPc_pc_of_ne _ _ _ hqp] at hq
        obtain ⟨_, f, hf, _⟩ := h q since hq
        exact absurd (hlock.symm.trans hf) (by simp)
  | @write p since ok hpc =>
      have hheld : ∀ since', (Pc.locked since : Pc S).heldSince = some since' →
          (s.pc p).heldSince = some since' := by
        intro since' hsince
        rw [hpc]
        exact hsince
      intro q since' hq
      obtain ⟨hnow, f, hf, hcreator, hmodified⟩ := h q since' (heldSince_of_setPc hheld hq)
      refine ⟨hnow, ?_⟩
      cases ok with
      | false => exact ⟨f, hf, hcreator, hmodified⟩
      | true =>
          refine ⟨touch p s.now f, by simp [hf], ?_, ?_⟩ <;>
            · unfold touch
              split_ifs
              · assumption
              · assumption
  | @remove p left ok hpc =>
      apply h.unlink (heldSince_retry left)
      intro hok q _ hq
      subst hok
      obtain ⟨since, hq⟩ := Option.isSome_iff_exists.mp hq
      obtain ⟨_, f, hf, rfl, _⟩ := h q since hq
      exact hundisturbed f hf (Option.isSome_iff_exists.mpr ⟨since, hq⟩)
  | @drop p ok hholding =>
      exact h.unlink rfl fun _ q hqp hq ↦ hqp (h.exclusive hq hholding)
  | @save p since store out hpc =>
      have hheld : ∀ since', (Pc.saved since : Pc S).heldSince = some since' →
          (s.pc p).heldSince = some since' := by
        intro since' hsince
        rw [hpc]
        exact hsince
      intro q since' hq
      exact h q since' (heldSince_of_setPc hheld hq)

end Owned

/-! ## Timely holders -/

section Timely

variable {s : LockState P S} {e : LockEvent P S}

theorem lock_of_broken (s : LockState P S) {f : LockFile P} (h : s.broken e = some f) :
    s.lock = some f := by
  unfold broken at h
  split at h
  · exact h
  · exact absurd h (by simp)

/-- The file of a timely holder is not stale, so removing only stale files disturbs nobody. -/
theorem Owned.undisturbed (h : s.Owned) (htimely : s.Timely) (hstale : s.RemovesStale e) :
    s.Undisturbed e := by
  intro f hf hholding
  have hlock : s.lock = some f := s.lock_of_broken hf
  obtain ⟨since, hsince⟩ := Option.isSome_iff_exists.mp hholding
  obtain ⟨_, g, hg, _, hmodified⟩ := h f.creator since hsince
  obtain rfl : f = g := Option.some.inj (hlock.symm.trans hg)
  have hold := of_decide_eq_true (hstale f hf)
  have hlate := htimely f.creator since hsince
  simp only [nanosPerSec, lockStaleSecs] at hold hlate
  omega

section Runs

variable [DecidableEq P] {work : S → P → S → Prop} {init : LockState P S}
  {es : List (LockEvent P S)}

theorem Owned.of_runs (hinit : init.Initial)
    (hrun : Runs (fun s e t ↦ s.Step work e t ∧ s.Undisturbed e) es init s) : s.Owned :=
  hrun.invariant Owned (fun h hstep ↦ h.change (change_of_next hstep.1.next) hstep.2) hinit.owned

/-- A run of timely holders in which only stale files are removed disturbs nobody. -/
theorem undisturbed_of_runs (hinit : init.Initial)
    (hrun : Runs (fun s e t ↦ s.Step work e t ∧ s.Timely ∧ s.RemovesStale e) es init s) :
    Runs (fun s e t ↦ s.Step work e t ∧ s.Undisturbed e) es init s := by
  refine hrun.mono_of_invariant Owned (fun h hstep ↦ ?_) hinit.owned
  obtain ⟨hstep, htimely, hstale⟩ := hstep
  have hundisturbed := h.undisturbed htimely hstale
  exact ⟨⟨hstep, hundisturbed⟩, h.change (change_of_next hstep.next) hundisturbed⟩

/-- **Mutual exclusion.**  In every run whose holders stay in time, and in which a waiter
that removes the lock file still finds it stale, at most one live process holds the lock. -/
theorem one_holder (hinit : init.Initial)
    (hrun : Runs (fun s e t ↦ s.Step work e t ∧ s.Timely ∧ s.RemovesStale e) es init s)
    {p q : P} (hp : (s.pc p).Holding) (hq : (s.pc q).Holding) : p = q :=
  (Owned.of_runs hinit (undisturbed_of_runs hinit hrun)).exclusive hp hq

end Runs

end Timely

end LockState

section Example

/-- Three processes that have not started. -/
def threeProcesses : LockState (Fin 3) Unit := ⟨0, none, (), fun _ ↦ .retry lockAttempts⟩

/-- Process 0 crashes with the lock, and two minutes later the other two find it stale. -/
def crashedHolder : List (LockEvent (Fin 3) Unit) :=
  [.create 0, .write 0 true, .crash 0, .pass (121 * nanosPerSec),
    .create 1, .stat 1 true, .judge 1, .create 2, .stat 2 true, .judge 2]

/-- Process 1 breaks the lock and takes it; process 2 breaks the lock of process 1. -/
def overtaken : List (LockEvent (Fin 3) Unit) :=
  crashedHolder ++ [.remove 1 true, .create 1, .write 1 true, .remove 2 true, .create 2,
    .write 2 true]

/-- Then both hold the lock, although no holder has had it for any time at all. -/
theorem exclusion_lost :
    threeProcesses.Initial ∧ ∃ s, Runs (fun s e t ↦ s.Step (fun _ _ _ ↦ True) e t ∧ s.Timely)
      overtaken threeProcesses s ∧ s.Timely ∧ (s.pc 1).Holding ∧ (s.pc 2).Holding := by
  refine ⟨⟨fun _ ↦ Or.inl rfl, by simp [threeProcesses]⟩, ?_⟩
  have hreplay : (Runs.replay LockState.next (fun s _ ↦ decide s.Timely) overtaken
      threeProcesses).any (fun s ↦ s.Timely ∧ (s.pc 1).Holding ∧ (s.pc 2).Holding) = true := by
    decide +kernel
  obtain ⟨s, hs, hend⟩ := (Option.any_eq_true _ _).mp hreplay
  refine ⟨s, (Runs.of_replay hs).mono ?_, of_decide_eq_true hend⟩
  intro _ _ _ h
  exact ⟨⟨h.1, fun _ _ _ _ _ _ ↦ trivial⟩, of_decide_eq_true h.2⟩

/-- As long as process 2 waits with its removal, process 1 is alone. -/
theorem one_holder_broken :
    ∃ s, Runs (fun s e t ↦ s.Step (fun _ _ _ ↦ True) e t ∧ s.Timely ∧ s.RemovesStale e)
        (crashedHolder ++ [.remove 1 true, .create 1, .write 1 true]) threeProcesses s ∧
      (s.pc 1).Holding ∧ ∀ q, (s.pc q).Holding → q = 1 := by
  have hreplay : (Runs.replay LockState.next (fun s e ↦ decide (s.Timely ∧ s.RemovesStale e))
      (crashedHolder ++ [.remove 1 true, .create 1, .write 1 true]) threeProcesses).any
        (fun s ↦ (s.pc 1).Holding) = true := by
    decide +kernel
  obtain ⟨s, hs, hend⟩ := (Option.any_eq_true _ _).mp hreplay
  have hrun : Runs (fun s e t ↦ s.Step (fun _ _ _ ↦ True) e t ∧ s.Timely ∧ s.RemovesStale e)
      (crashedHolder ++ [.remove 1 true, .create 1, .write 1 true]) threeProcesses s :=
    (Runs.of_replay hs).mono fun h ↦
      ⟨⟨h.1, fun _ _ _ _ _ _ ↦ trivial⟩, of_decide_eq_true h.2⟩
  have hinit : threeProcesses.Initial := ⟨fun _ ↦ Or.inl rfl, by simp [threeProcesses]⟩
  have hone := of_decide_eq_true hend
  exact ⟨s, hrun, hone, fun q hq ↦ LockState.one_holder hinit hrun hq hone⟩

end Example

end CeGke
