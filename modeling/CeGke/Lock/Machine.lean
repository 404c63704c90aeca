import CeGke.Lib.Runs
import Mathlib.Algebra.Group.Nat.Defs
import Mathlib.Data.Fintype.Basic
import Mathlib.Logic.Function.Basic

/-!
# The state lock

`StateLock` of `src/state.rs` as a machine: any number of processes, each of which
acquires the lock, loads the state file, saves it and drops the lock, one file operation
at a time and in any interleaving.

The lock is a file next to the state file.  `acquire` creates it or fails; then it looks
whether the file is stale, which is a look at its metadata and one at the clock, and if so
removes it and tries again.  `drop` removes the file, whoever created it.  A process may
crash anywhere.  Time is counted in nanoseconds and does not run backwards.
-/

namespace CeGke

/-- `LOCK_STALE_SECS`. -/
def lockStaleSecs : ℕ := 120

/-- Nanoseconds in a second. -/
def nanosPerSec : ℕ := 10 ^ 9

/-- The attempts of `StateLock::acquire`. -/
def lockAttempts : ℕ := 50

/-- The pause between two attempts, in nanoseconds. -/
def lockPause : ℕ := 10 ^ 8

/-- `StateLock::is_stale` of a modification time; one in the future is not stale. -/
def isStale (now modified : ℕ) : Bool :=
  modified ≤ now ∧ (now - modified) / nanosPerSec > lockStaleSecs

/-- The lock file. -/
structure LockFile (P : Type*) where
  creator : P
  modified : ℕ
deriving DecidableEq, Repr

/-- Where a process is; `left` counts the attempts it has left after this one. -/
inductive Pc (S : Type*) where
  /-- About to `create_new` the lock file. -/
  | attempting (left : ℕ)
  /-- The file was there; about to read its metadata. -/
  | checking (left : ℕ)
  /-- About to compare the modification time it has read with the clock. -/
  | judging (left : ℕ) (seen : Option ℕ)
  /-- The file was stale; about to `remove_file`. -/
  | breaking (left : ℕ)
  /-- The file was not stale; sleeping until this time. -/
  | sleeping (left wakeAt : ℕ)
  /-- Has created the file at this time; about to write its id into it. -/
  | created (since : ℕ)
  /-- `acquire` has returned. -/
  | locked (since : ℕ)
  /-- Has loaded this store. -/
  | loaded (since : ℕ) (store : S)
  /-- Has saved. -/
  | saved (since : ℕ)
  /-- Has dropped the lock. -/
  | done
  /-- `acquire` has returned an error. -/
  | refused
  | crashed
deriving DecidableEq, Repr

namespace Pc

variable {S : Type*}

/-- The head of the loop in `acquire`. -/
def retry : ℕ → Pc S
  | 0 => refused
  | left + 1 => attempting left

/-- Since when the process holds the lock: from creating the file to the drop. -/
def heldSince : Pc S → Option ℕ
  | created since | locked since | loaded since _ | saved since => some since
  | _ => none

/-- Between a successful acquire and the drop. -/
def Holding (c : Pc S) : Prop := c.heldSince.isSome

instance (c : Pc S) : Decidable c.Holding := inferInstanceAs (Decidable (_ = true))

/-- Past its save. -/
def Over : Pc S → Prop
  | saved _ | done | crashed => True
  | _ => False

/-- Past its load. -/
def Late : Pc S → Prop
  | loaded _ _ => True
  | c => c.Over

theorem Over.late {c : Pc S} (h : c.Over) : c.Late := by
  cases c with
  | loaded since store => trivial
  | _ => exact h

theorem holding_of_late {c : Pc S} (h : c.Late) (h' : ¬ c.Over) : c.Holding := by
  cases c with
  | loaded since store => rfl
  | _ => exact absurd h h'

end Pc

/-- One operation: time passes, or a process does the next thing. -/
inductive LockEvent (P S : Type*) where
  | pass (nanos : ℕ)
  | create (p : P)
  /-- `create_new` fails, though not because the file exists. -/
  | fail (p : P)
  /-- `ok` is whether the metadata can be read. -/
  | stat (p : P) (ok : Bool)
  | judge (p : P)
  | remove (p : P) (ok : Bool)
  | wake (p : P)
  | write (p : P) (ok : Bool)
  | load (p : P)
  | save (p : P) (out : S)
  | drop (p : P) (ok : Bool)
  | crash (p : P)
deriving DecidableEq, Repr

/-- The whole system: the clock, the lock file, the state file and the processes. -/
structure LockState (P S : Type*) where
  now : ℕ
  lock : Option (LockFile P)
  disk : S
  pc : P → Pc S

namespace LockState

variable {P S : Type*} [DecidableEq P]

/-- A process moves. -/
def setPc (s : LockState P S) (p : P) (c : Pc S) : LockState P S :=
  { s with pc := Function.update s.pc p c }

section SetPc

variable (s : LockState P S) (p : P) (c : Pc S)

@[simp] theorem setPc_now : (s.setPc p c).now = s.now := rfl

@[simp] theorem setPc_lock : (s.setPc p c).lock = s.lock := rfl

@[simp] theorem setPc_disk : (s.setPc p c).disk = s.disk := rfl

@[simp] theorem setPc_pc_self : (s.setPc p c).pc p = c := by simp [setPc]

theorem setPc_pc_of_ne {q : P} (h : q ≠ p) : (s.setPc p c).pc q = s.pc q := by
  simp [setPc, h]

end SetPc

/-- Writing into the file it has created gives it a new modification time; if the file has
been removed since, the write goes nowhere. -/
def touch (p : P) (now : ℕ) (f : LockFile P) : LockFile P :=
  if f.creator = p then { f with modified := now } else f

/-- The state an event leads to, if it is possible. -/
def next (s : LockState P S) : LockEvent P S → Option (LockState P S)
  | .pass nanos => some { s with now := s.now + nanos }
  | .create p =>
      match s.pc p, s.lock with
      | .attempting _, none =>
          some { s.setPc p (.created s.now) with lock := some ⟨p, s.now⟩ }
      | .attempting left, some _ => some (s.setPc p (.checking left))
      | _, _ => none
  | .fail p =>
      match s.pc p with
      | .attempting _ => some (s.setPc p .refused)
      | _ => none
  | .stat p ok =>
      match s.pc p with
      | .checking left =>
          some (s.setPc p (.judging left (if ok then s.lock.map LockFile.modified else none)))
      | _ => none
  | .judge p =>
      match s.pc p with
      | .judging left seen =>
          if seen.any (isStale s.now) then some (s.setPc p (.breaking left))
          else some (s.setPc p (.sleeping left (s.now + lockPause)))
      | _ => none
  | .remove p ok =>
      match s.pc p with
      | .breaking left =>
          some { s.setPc p (.retry left) with lock := if ok then none else s.lock }
      | _ => none
  | .wake p =>
      match s.pc p with
      | .sleeping left wakeAt =>
          if wakeAt ≤ s.now then some (s.setPc p (.retry left)) else none
      | _ => none
  | .write p ok =>
      match s.pc p with
      | .created since =>
          some { s.setPc p (.locked since) with
            lock := if ok then s.lock.map (touch p s.now) else s.lock }
      | _ => none
  | .load p =>
      match s.pc p with
      | .locked since => some (s.setPc p (.loaded since s.disk))
      | _ => none
  | .save p out =>
      match s.pc p with
      | .loaded since _ => some { s.setPc p (.saved since) with disk := out }
      | _ => none
  | .drop p ok =>
      match s.pc p with
      | .locked _ | .loaded _ _ | .saved _ =>
          some { s.setPc p .done with lock := if ok then none else s.lock }
      | _ => none
  | .crash p => some (s.setPc p .crashed)

/-- A step: an event that is possible, where a save writes what the work of the process may
make of the store it has loaded. -/
structure Step (work : S → P → S → Prop) (s : LockState P S) (e : LockEvent P S)
    (t : LockState P S) : Prop where
  next : s.next e = some t
  work : ∀ p out since store, e = .save p out → s.pc p = .loaded since store →
    work store p out

/-- The file a waiter removes. -/
def broken (s : LockState P S) : LockEvent P S → Option (LockFile P)
  | .remove _ true => s.lock
  | _ => none

/-- A waiter does not remove the lock file of a process that holds the lock. -/
def Undisturbed (s : LockState P S) (e : LockEvent P S) : Prop :=
  ∀ f ∈ s.broken e, ¬ (s.pc f.creator).Holding

/-- A waiter that removes the lock file still finds it stale. -/
def RemovesStale (s : LockState P S) (e : LockEvent P S) : Prop :=
  ∀ f ∈ s.broken e, isStale s.now f.modified

/-- Every live holder has had the lock for no longer than `LOCK_STALE_SECS`. -/
def Timely (s : LockState P S) : Prop :=
  ∀ p, ∀ since ∈ (s.pc p).heldSince, s.now ≤ since + lockStaleSecs * nanosPerSec

instance (s : LockState P S) (e : LockEvent P S) : Decidable (s.Undisturbed e) :=
  inferInstanceAs (Decidable (∀ f ∈ s.broken e, ¬ (s.pc f.creator).Holding))

instance (s : LockState P S) (e : LockEvent P S) : Decidable (s.RemovesStale e) :=
  inferInstanceAs (Decidable (∀ f ∈ s.broken e, isStale s.now f.modified = true))

instance [Fintype P] (s : LockState P S) : Decidable s.Timely :=
  inferInstanceAs (Decidable (∀ p, ∀ since ∈ (s.pc p).heldSince,
    s.now ≤ since + lockStaleSecs * nanosPerSec))

/-- Nobody has started; a lock file can be left of a process that has crashed. -/
structure Initial (s : LockState P S) : Prop where
  pc : ∀ p, s.pc p = .retry lockAttempts ∨ s.pc p = .crashed
  lock : ∀ f ∈ s.lock, s.pc f.creator = .crashed

end LockState

end CeGke
