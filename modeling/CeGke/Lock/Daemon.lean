import CeGke.Lock.Exclusion

/-!
# The daemon under the state lock

`run_daemon` of `src/daemon.rs` next to any number of commands.  Each pass of the daemon is a
process of its own to the state lock, and so is each command; a command holds the lock for as long
as it works, which can be longer than a waiter waits.  The daemon ends on the error of a pass that
does not get the lock, whether or not it was told to stop (`refused_untold`); it does not where
every pass finds the lock free in one of its attempts (`told_of_left`).

Loads and saves of the state file succeed here.
-/

namespace CeGke

open Lib

/-- Where the daemon is; the argument counts its passes. -/
inductive DaemonPc where
  /-- At the top of its loop. -/
  | atTop (n : ℕ)
  /-- In the pass, from `acquire` to the drop of the lock. -/
  | inPass (n : ℕ)
  /-- In the `select!`, which ends at this time at the latest. -/
  | resting (n wakeAt : ℕ)
  /-- It has left the loop. -/
  | stopped
  /-- It has returned an error from within the loop. -/
  | failed
deriving DecidableEq, Repr

/-- The daemon has left its loop. -/
def DaemonPc.Left (c : DaemonPc) : Prop := c = stopped ∨ c = failed

/-- The lock with its processes, which are the passes of the daemon and the commands, the shutdown
flag, and the daemon. -/
structure DaemonState (P S : Type*) where
  lock : LockState (ℕ ⊕ P) S
  shutdown : Bool
  daemon : DaemonPc

/-- A step of the lock machine, a signal, or a step of the loop of `run_daemon`. -/
inductive DaemonEvent (P S : Type*) where
  | lock (e : LockEvent (ℕ ⊕ P) S)
  /-- The shutdown flag is set. -/
  | signal
  /-- The flag is read at the top of the loop. -/
  | look
  /-- The pass is over, or its `acquire` has returned an error. -/
  | endPass
  /-- The sleep ends. -/
  | wake
  /-- The `select!` is woken by the flag. -/
  | changed
deriving DecidableEq, Repr

namespace DaemonEvent

variable {P S : Type*}

/-- The event of the lock that an event is. -/
def lockEvent? : DaemonEvent P S → Option (LockEvent (ℕ ⊕ P) S)
  | .lock e => some e
  | _ => none

/-- The pass that makes an attempt in an event. -/
def attempt? : DaemonEvent P S → Option ℕ
  | .lock (.create (.inl n)) => some n
  | _ => none

/-- An attempt of a pass fails, though not because the lock file exists. -/
def fails : DaemonEvent P S → Bool
  | .lock (.fail (.inl _)) => true
  | _ => false

end DaemonEvent

/-- The pass of the daemon that an event of the lock is of. -/
def LockEvent.pass? {P S : Type*} : LockEvent (ℕ ⊕ P) S → Option ℕ
  | .pass _ => none
  | .create p | .fail p | .stat p _ | .judge p | .remove p _ | .wake p | .write p _ | .load p
  | .save p _ | .drop p _ | .crash p => p.getLeft?

/-- The event drops the lock. -/
def LockEvent.isDrop {P S : Type*} : LockEvent P S → Bool
  | .drop _ _ => true
  | _ => false

/-- The process has saved and has yet to drop the lock. -/
def Pc.isSaved {S : Type*} : Pc S → Bool
  | saved _ => true
  | _ => false

namespace DaemonState

variable {P S : Type*} [DecidableEq P]

/-- The daemon runs one pass at a time, and a pass drops the lock after its save. -/
def Allows (s : DaemonState P S) (e : LockEvent (ℕ ⊕ P) S) : Prop :=
  ∀ n ∈ e.pass?, s.daemon = .inPass n ∧ (e.isDrop → (s.lock.pc (.inl n)).isSaved)

instance (s : DaemonState P S) (e : LockEvent (ℕ ⊕ P) S) : Decidable (s.Allows e) :=
  inferInstanceAs (Decidable (∀ n ∈ e.pass?, _))

/-- The state an event leads to, if it is possible; the daemon rests for `intervalSecs`. -/
def next (intervalSecs : ℕ) (s : DaemonState P S) : DaemonEvent P S → Option (DaemonState P S)
  | .lock e => (s.lock.next e).map fun lock ↦ { s with lock }
  | .signal => some { s with shutdown := true }
  | .look =>
      match s.daemon with
      | .atTop n => some { s with daemon := if s.shutdown then .stopped else .inPass n }
      | _ => none
  | .endPass =>
      match s.daemon with
      | .inPass n =>
          match s.lock.pc (.inl n) with
          | .done =>
              some { s with
                daemon := .resting n (s.lock.now + max intervalSecs 1 * nanosPerSec) }
          | .refused => some { s with daemon := .failed }
          | _ => none
      | _ => none
  | .wake =>
      match s.daemon with
      | .resting n wakeAt =>
          if wakeAt ≤ s.lock.now then some { s with daemon := .atTop (n + 1) } else none
      | _ => none
  | .changed =>
      match s.daemon with
      | .resting n _ =>
          some { s with daemon := if s.shutdown then .stopped else .atTop (n + 1) }
      | _ => none

/-- A step: an event that is possible, and one of the lock only as the daemon allows it. -/
structure Step (work : S → ℕ ⊕ P → S → Prop) (intervalSecs : ℕ) (s : DaemonState P S)
    (e : DaemonEvent P S) (t : DaemonState P S) : Prop where
  next : s.next intervalSecs e = some t
  allowed : ∀ e' ∈ e.lockEvent?, s.Allows e'
  work : ∀ e' ∈ e.lockEvent?, ∀ p out since store, e' = .save p out →
    s.lock.pc p = .loaded since store → work store p out

/-- The attempts of a pass: the last one finds no lock file, and none fails for another reason
than the file. -/
def FindsFree (s : DaemonState P S) (e : DaemonEvent P S) : Prop :=
  (∀ n ∈ e.attempt?, s.lock.pc (.inl n) = .attempting 0 → s.lock.lock = none) ∧ ¬ e.fails

instance [DecidableEq S] (s : DaemonState P S) (e : DaemonEvent P S) : Decidable (s.FindsFree e) :=
  inferInstanceAs (Decidable ((∀ n ∈ e.attempt?, _ → s.lock.lock = none) ∧ _))

end DaemonState

/-! ## The last attempt -/

/-- In its last attempt a process has found the lock file, or it has been refused. -/
def Pc.Spent {S : Type*} : Pc S → Prop
  | checking left | judging left _ | breaking left | sleeping left _ => left = 0
  | refused => True
  | _ => False

/-- A process that tries again has spent its attempts if it has none left. -/
theorem Pc.spent_retry {S : Type*} {left : ℕ} (h : (Pc.retry left : Pc S).Spent) : left = 0 := by
  cases left with
  | zero => rfl
  | succ left => exact absurd h id

namespace LockState

variable {P S : Type*} [DecidableEq P] {s t : LockState P S} {e : LockEvent P S} {p : P}

theorem spent_of_update {q : P} {c : Pc S} (h : (Function.update s.pc q c p).Spent) :
    (s.pc p).Spent ∨ p = q ∧ c.Spent := by
  by_cases hpq : p = q
  · subst hpq
    rw [Function.update_self] at h
    exact Or.inr ⟨rfl, h⟩
  · rw [Function.update_of_ne hpq] at h
    exact Or.inl h

/-- A move spends nothing if what it leads to is spent only where the process was. -/
theorem spent_of_move {q : P} {c : Pc S} (hc : c.Spent → (s.pc q).Spent)
    (h : (Function.update s.pc q c p).Spent) : (s.pc p).Spent := by
  rcases spent_of_update h with hp | ⟨rfl, hspent⟩
  · exact hp
  · exact hc hspent

/-- A process spends its attempts by finding the file in the last one, or by an error. -/
theorem spent_of_next (h : s.next e = some t) (ht : (t.pc p).Spent) :
    (s.pc p).Spent ∨ (e = .create p ∧ s.pc p = .attempting 0 ∧ s.lock ≠ none) ∨ e = .fail p := by
  cases e with
  | pass nanos =>
      obtain rfl := Option.some.inj h
      exact Or.inl ht
  | create q =>
      simp only [next] at h
      split at h
      · obtain rfl := Option.some.inj h
        exact Or.inl (spent_of_move False.elim ht)
      · rename_i left f hpc hlock
        obtain rfl := Option.some.inj h
        refine (spent_of_update ht).imp_right ?_
        rintro ⟨rfl, hleft : left = 0⟩
        exact Or.inl ⟨rfl, hleft ▸ hpc, by simp [hlock]⟩
      · cases h
  | fail q =>
      simp only [next] at h
      split at h
      · obtain rfl := Option.some.inj h
        exact (spent_of_update ht).imp_right fun hq ↦ Or.inr (by rw [hq.1])
      · cases h
  | stat q ok =>
      simp only [next] at h
      split at h
      · rename_i left hpc
        obtain rfl := Option.some.inj h
        refine Or.inl (spent_of_move (fun hleft ↦ ?_) ht)
        rw [hpc]
        exact hleft
      · cases h
  | judge q =>
      simp only [next] at h
      split at h
      · rename_i left seen hpc
        have hspent : left = 0 → (s.pc q).Spent := by
          rw [hpc]
          exact id
        split_ifs at h
        · obtain rfl := Option.some.inj h
          refine Or.inl (spent_of_move ?_ ht)
          exact hspent
        · obtain rfl := Option.some.inj h
          refine Or.inl (spent_of_move ?_ ht)
          exact hspent
      · cases h
  | remove q ok =>
      simp only [next] at h
      split at h
      · rename_i left hpc
        obtain rfl := Option.some.inj h
        refine Or.inl (spent_of_move (fun hretry ↦ ?_) ht)
        rw [hpc]
        exact Pc.spent_retry hretry
      · cases h
  | wake q =>
      simp only [next] at h
      split at h
      · rename_i left wakeAt hpc
        obtain ⟨-, h⟩ := Option.ite_none_right_eq_some.mp h
        obtain rfl := Option.some.inj h
        refine Or.inl (spent_of_move (fun hretry ↦ ?_) ht)
        rw [hpc]
        exact Pc.spent_retry hretry
      · cases h
  | write q ok =>
      simp only [next] at h
      split at h
      · obtain rfl := Option.some.inj h
        exact Or.inl (spent_of_move False.elim ht)
      · cases h
  | load q =>
      simp only [next] at h
      split at h
      · obtain rfl := Option.some.inj h
        exact Or.inl (spent_of_move False.elim ht)
      · cases h
  | save q out =>
      simp only [next] at h
      split at h
      · obtain rfl := Option.some.inj h
        exact Or.inl (spent_of_move False.elim ht)
      · cases h
  | drop q ok =>
      simp only [next] at h
      split at h
      · obtain rfl := Option.some.inj h
        exact Or.inl (spent_of_move False.elim ht)
      · obtain rfl := Option.some.inj h
        exact Or.inl (spent_of_move False.elim ht)
      · obtain rfl := Option.some.inj h
        exact Or.inl (spent_of_move False.elim ht)
      · cases h
  | crash q =>
      obtain rfl := Option.some.inj h
      exact Or.inl (spent_of_move False.elim ht)

end LockState

/-! ## Runs -/

namespace DaemonState

variable {P S : Type*} [DecidableEq P] {work : S → ℕ ⊕ P → S → Prop} {intervalSecs : ℕ}
  {init s t : DaemonState P S} {e : DaemonEvent P S} {es : List (DaemonEvent P S)}

/-- No pass has spent its attempts, and the daemon has not left the loop untold. -/
structure Untroubled (s : DaemonState P S) : Prop where
  unspent : ∀ n, ¬ (s.lock.pc (.inl n)).Spent
  running : s.daemon ≠ .failed
  told : s.daemon = .stopped → s.shutdown = true

omit [DecidableEq P] in
/-- The daemon goes on. -/
theorem Untroubled.goOn (h : s.Untroubled) {d : DaemonPc} (hd : ¬ d.Left) :
    Untroubled { s with daemon := d } where
  unspent := h.unspent
  running hfailed := hd (Or.inr hfailed)
  told hstopped := absurd (Or.inl hstopped) hd

omit [DecidableEq P] in
/-- The daemon reads the flag, and goes on if it is not set. -/
theorem Untroubled.consult (h : s.Untroubled) {d : DaemonPc} (hd : ¬ d.Left) :
    Untroubled { s with daemon := if s.shutdown then .stopped else d } := by
  by_cases hflag : s.shutdown = true
  · rw [if_pos hflag]
    exact ⟨h.unspent, by simp, fun _ ↦ hflag⟩
  · rw [if_neg hflag]
    exact h.goOn hd

theorem Untroubled.step (h : s.Untroubled) (hstep : s.Step work intervalSecs e t)
    (hfree : s.FindsFree e) : t.Untroubled := by
  have hnext := hstep.next
  cases e with
  | lock e =>
      obtain ⟨lock, hlock, rfl⟩ := Option.map_eq_some_iff.mp hnext
      refine ⟨fun n hspent ↦ ?_, h.running, h.told⟩
      rcases LockState.spent_of_next hlock hspent with hspent | ⟨rfl, hlast, hfile⟩ | rfl
      · exact h.unspent n hspent
      · exact hfile (hfree.1 n rfl hlast)
      · exact hfree.2 rfl
  | signal =>
      obtain rfl := Option.some.inj hnext
      exact ⟨h.unspent, h.running, fun _ ↦ rfl⟩
  | look =>
      simp only [next] at hnext
      split at hnext
      · obtain rfl := Option.some.inj hnext
        exact h.consult (by simp [DaemonPc.Left])
      · exact nomatch hnext
  | endPass =>
      simp only [next] at hnext
      split at hnext
      · rename_i n hdaemon
        split at hnext
        · obtain rfl := Option.some.inj hnext
          exact h.goOn (by simp [DaemonPc.Left])
        · rename_i hpc
          exact absurd (by rw [hpc]; trivial) (h.unspent n)
        · exact nomatch hnext
      · exact nomatch hnext
  | wake =>
      simp only [next] at hnext
      split at hnext
      · obtain ⟨-, hnext⟩ := Option.ite_none_right_eq_some.mp hnext
        obtain rfl := Option.some.inj hnext
        exact h.goOn (by simp [DaemonPc.Left])
      · exact nomatch hnext
  | changed =>
      simp only [next] at hnext
      split at hnext
      · obtain rfl := Option.some.inj hnext
        exact h.consult (by simp [DaemonPc.Left])
      · exact nomatch hnext

omit [DecidableEq P] in
/-- Before anything has happened no attempt is spent. -/
theorem untroubled_of_initial (hinit : init.lock.Initial) {n : ℕ}
    (hdaemon : init.daemon = .atTop n) : init.Untroubled where
  unspent m := by
    rcases hinit.pc (.inl m) with hpc | hpc
    · rw [hpc]
      exact id
    · rw [hpc]
      exact id
  running := by simp [hdaemon]
  told := by simp [hdaemon]

/-- The loop of the daemon does nothing to the lock but through its passes. -/
theorem lock_of_next (h : s.next intervalSecs e = some t) (he : e.lockEvent? = none) :
    t.lock = s.lock := by
  cases e with
  | lock e => exact nomatch he
  | signal =>
      obtain rfl := Option.some.inj h
      rfl
  | look =>
      simp only [next] at h
      split at h
      · obtain rfl := Option.some.inj h
        rfl
      · exact nomatch h
  | endPass =>
      simp only [next] at h
      split at h
      · split at h
        · obtain rfl := Option.some.inj h
          rfl
        · obtain rfl := Option.some.inj h
          rfl
        · exact nomatch h
      · exact nomatch h
  | wake =>
      simp only [next] at h
      split at h
      · obtain ⟨-, h⟩ := Option.ite_none_right_eq_some.mp h
        obtain rfl := Option.some.inj h
        rfl
      · exact nomatch h
  | changed =>
      simp only [next] at h
      split at h
      · obtain rfl := Option.some.inj h
        rfl
      · exact nomatch h

/-- What the daemon and the commands do to the lock is a run of the lock machine. -/
theorem lock_runs (hrun : Runs (fun s e t ↦ s.Step work intervalSecs e t) es init s) :
    Runs (fun s e t ↦ s.Step work e t) (es.filterMap DaemonEvent.lockEvent?) init.lock s.lock := by
  refine hrun.simulates lock ?_ fun hstep ↦ lock_of_next hstep.next
  intro s e t d hstep hlabel
  cases e with
  | lock e =>
      obtain rfl := Option.some.inj hlabel
      obtain ⟨l, hlock, rfl⟩ := Option.map_eq_some_iff.mp hstep.next
      exact ⟨hlock, hstep.work _ rfl⟩
  | signal | look | endPass | wake | changed => exact nomatch hlabel

/-- **The daemon stops only when told to**, in every run in which each pass finds the lock free in
one of its attempts. -/
theorem told_of_left (hinit : init.lock.Initial) (hdaemon : init.daemon = .atTop 0)
    (hrun : Runs (fun s e t ↦ s.Step work intervalSecs e t ∧ s.FindsFree e) es init s)
    (hleft : s.daemon.Left) : s.shutdown = true := by
  have hend : s.Untroubled :=
    hrun.invariant Untroubled (fun h hstep ↦ h.step hstep.1 hstep.2)
      (untroubled_of_initial hinit hdaemon)
  rcases hleft with hstopped | hfailed
  · exact hend.told hstopped
  · exact absurd hfailed hend.running

end DaemonState

section Example

/-- A daemon that has not started, and a command that takes the lock first. -/
def commandFirst : DaemonState (Fin 1) Unit where
  lock := ⟨0, none, (), fun _ ↦ .retry lockAttempts⟩
  shutdown := false
  daemon := .atTop 0

/-- An attempt of the first pass that finds the file. -/
def vainAttempt : List (DaemonEvent (Fin 1) Unit) :=
  [.lock (.create (.inl 0)), .lock (.stat (.inl 0) true), .lock (.judge (.inl 0)),
    .lock (.pass lockPause), .lock (.wake (.inl 0))]

/-- The command holds the lock through all attempts of the pass. -/
def heldThroughout : List (DaemonEvent (Fin 1) Unit) :=
  [.lock (.create (.inr 0)), .lock (.write (.inr 0) true), .lock (.load (.inr 0)), .look] ++
    (List.replicate lockAttempts vainAttempt).flatten ++ [.endPass]

/-- The command gives the lock back before the pass tries. -/
def givenBack : List (DaemonEvent (Fin 1) Unit) :=
  [.lock (.create (.inr 0)), .lock (.write (.inr 0) true), .lock (.load (.inr 0)),
    .lock (.save (.inr 0) ()), .lock (.drop (.inr 0) true), .look, .lock (.create (.inl 0)),
    .lock (.write (.inl 0) true), .lock (.load (.inl 0)), .lock (.save (.inl 0) ()),
    .lock (.drop (.inl 0) true), .endPass, .signal, .changed]

theorem commandFirst_initial : commandFirst.lock.Initial :=
  ⟨fun _ ↦ Or.inl rfl, by simp [commandFirst]⟩

/-- A step that is possible and allowed, where any save may be made. -/
theorem step_of_allows {s t : DaemonState (Fin 1) Unit} {e : DaemonEvent (Fin 1) Unit}
    (hnext : s.next 1 e = some t) (hallows : ∀ e' ∈ e.lockEvent?, s.Allows e') :
    s.Step (fun _ _ _ ↦ True) 1 e t :=
  ⟨hnext, hallows, fun _ _ _ _ _ _ _ _ ↦ trivial⟩

/-- A command that holds the lock for five seconds ends the daemon, which was not told to. -/
theorem refused_untold :
    commandFirst.lock.Initial ∧ commandFirst.daemon = .atTop 0 ∧
      ∃ s, Runs (fun s e t ↦ s.Step (fun _ _ _ ↦ True) 1 e t) heldThroughout commandFirst s ∧
        s.daemon.Left ∧ s.shutdown = false ∧ s.lock.now = 5 * nanosPerSec := by
  refine ⟨commandFirst_initial, rfl, ?_⟩
  have hreplay : (Runs.replay (DaemonState.next 1)
      (fun s e ↦ decide (∀ e' ∈ e.lockEvent?, s.Allows e')) heldThroughout commandFirst).any
        (fun s ↦ s.daemon = .failed ∧ s.shutdown = false ∧ s.lock.now = 5 * nanosPerSec) =
          true := by
    decide +kernel
  obtain ⟨s, hs, hend⟩ := (Option.any_eq_true _ _).mp hreplay
  obtain ⟨hfailed, hrest⟩ := of_decide_eq_true hend
  exact ⟨s, (Runs.of_replay hs).mono fun h ↦ step_of_allows h.1 (of_decide_eq_true h.2),
    Or.inr hfailed, hrest⟩

/-- Where the command gives the lock back in time the daemon stops when it is told to. -/
theorem told_of_left_givenBack :
    ∃ s, Runs (fun s e t ↦ s.Step (fun _ _ _ ↦ True) 1 e t ∧ s.FindsFree e) givenBack
        commandFirst s ∧ s.daemon = .stopped ∧ s.shutdown = true := by
  have hreplay : (Runs.replay (DaemonState.next 1)
      (fun s e ↦ decide ((∀ e' ∈ e.lockEvent?, s.Allows e') ∧ s.FindsFree e)) givenBack
        commandFirst).any (fun s ↦ s.daemon = .stopped) = true := by
    decide +kernel
  obtain ⟨s, hs, hend⟩ := (Option.any_eq_true _ _).mp hreplay
  have hrun : Runs (fun s e t ↦ s.Step (fun _ _ _ ↦ True) 1 e t ∧ s.FindsFree e) givenBack
      commandFirst s :=
    (Runs.of_replay hs).mono fun h ↦
      ⟨step_of_allows h.1 (of_decide_eq_true h.2).1, (of_decide_eq_true h.2).2⟩
  have hstopped := of_decide_eq_true hend
  exact ⟨s, hrun, hstopped,
    DaemonState.told_of_left commandFirst_initial rfl hrun (Or.inl hstopped)⟩

end Example

end CeGke
