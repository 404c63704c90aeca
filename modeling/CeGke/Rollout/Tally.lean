import CeGke.Lib.Lists
import CeGke.Rollout.Plan

/-!
# What a plan does to the counts

The planner only looks at how many replicas of each kind there are.  A tally is
that count, kind by kind, and this file says what `plan_step` does to it: which
replicas it names (`victims`), how many of each kind, and how many it places.
Budgets, convergence and the bounds of a tick are arithmetic on top.
-/

namespace CeGke

open Lib

/-! ## Kinds -/

/-- All the planner distinguishes about a replica, against a target revision. -/
inductive Kind where
  | pendingNew
  | runningNew
  | pendingOld
  | runningOld
  | dead
deriving DecidableEq, Repr

/-- The kind of a replica. -/
def ReplicaState.kind (target : String) (r : ReplicaState) : Kind :=
  match r.phase with
  | .pending => if r.revision = target then .pendingNew else .pendingOld
  | .running => if r.revision = target then .runningNew else .runningOld
  | .failed | .succeeded => .dead

namespace Kind

/-- Live, whatever the revision. -/
def isLive : Kind → Bool
  | .dead => false
  | _ => true

/-- Running, whatever the revision. -/
def isRunning : Kind → Bool
  | .runningNew | .runningOld => true
  | _ => false

/-- Live on the target revision. -/
def isNew : Kind → Bool
  | .pendingNew | .runningNew => true
  | _ => false

/-- Live on another revision. -/
def isOld : Kind → Bool
  | .pendingOld | .runningOld => true
  | _ => false

end Kind

theorem onTarget_iff {target : String} {r : ReplicaState} :
    onTarget target r = true ↔ r.phase.isAlive = true ∧ r.revision = target := by
  rw [onTarget, Bool.and_eq_true, beq_iff_eq]

theorem offTarget_iff {target : String} {r : ReplicaState} :
    offTarget target r = true ↔ r.phase.isAlive = true ∧ r.revision ≠ target := by
  rw [offTarget, Bool.and_eq_true, bne_iff_ne]

section Classify

variable (target : String) (r : ReplicaState)

theorem isAlive_eq : r.phase.isAlive = (r.kind target).isLive := by
  cases hp : r.phase <;> by_cases hr : r.revision = target <;>
    simp [ReplicaState.kind, Kind.isLive, hp, hr]

theorem isTerminal_eq : r.phase.isTerminal = (r.kind target == .dead) := by
  cases hp : r.phase <;> by_cases hr : r.revision = target <;>
    simp [ReplicaState.kind, hp, hr]

theorem isRunning_eq : (r.phase == .running) = (r.kind target).isRunning := by
  cases hp : r.phase <;> by_cases hr : r.revision = target <;>
    simp [ReplicaState.kind, Kind.isRunning, hp, hr]

theorem onTarget_eq : onTarget target r = (r.kind target).isNew := by
  cases hp : r.phase <;> by_cases hr : r.revision = target <;>
    simp [ReplicaState.kind, onTarget, Kind.isNew, hp, hr]

theorem offTarget_eq : offTarget target r = (r.kind target).isOld := by
  cases hp : r.phase <;> by_cases hr : r.revision = target <;>
    simp [ReplicaState.kind, offTarget, Kind.isOld, hp, hr]

theorem unreadyOld_eq : unreadyOld target r = (r.kind target == .pendingOld) := by
  cases hp : r.phase <;> by_cases hr : r.revision = target <;>
    simp [ReplicaState.kind, unreadyOld, offTarget, hp, hr]

theorem readyOld_eq : readyOld target r = (r.kind target == .runningOld) := by
  rw [Bool.eq_iff_iff]
  cases hp : r.phase <;> by_cases hr : r.revision = target <;>
    simp [ReplicaState.kind, readyOld, offTarget, hp, hr]

end Classify

/-! ## Tallies -/

/-- How many replicas of each kind a list holds. -/
def tally (target : String) (l : List ReplicaState) (k : Kind) : ℕ :=
  l.countP fun r ↦ r.kind target == k

/-- Live replicas of a list. -/
def liveCount (l : List ReplicaState) : ℕ := l.countP fun r ↦ r.phase.isAlive

/-- Running replicas of a list. -/
def runningCount (l : List ReplicaState) : ℕ := l.countP fun r ↦ r.phase == .running

/-- Live replicas on the target revision. -/
def newLive (target : String) (l : List ReplicaState) : ℕ := l.countP (onTarget target)

/-- Live replicas on any other revision. -/
def oldLive (target : String) (l : List ReplicaState) : ℕ := l.countP (offTarget target)

variable {target : String} {k : Kind}

@[simp] theorem tally_nil : tally target [] k = 0 := rfl

theorem tally_cons (r : ReplicaState) (l : List ReplicaState) :
    tally target (r :: l) k = tally target l k + if r.kind target = k then 1 else 0 := by
  simp [tally, List.countP_cons]

theorem tally_append (l m : List ReplicaState) :
    tally target (l ++ m) k = tally target l k + tally target m k := List.countP_append

theorem tally_perm {l m : List ReplicaState} (h : l.Perm m) :
    tally target l k = tally target m k := h.countP_eq _

/-- A filter that only looks at the kind keeps or drops each kind as a whole. -/
theorem tally_filter {p : ReplicaState → Bool} (q : Kind → Bool)
    (h : ∀ r, p r = q (r.kind target)) (l : List ReplicaState) :
    tally target (l.filter p) k = if q k then tally target l k else 0 := by
  induction l with
  | nil => simp
  | cons r l ih =>
      by_cases hk : r.kind target = k
      · subst hk
        by_cases hq : q (r.kind target) <;> simp_all [tally_cons]
      · by_cases hq : q (r.kind target) <;> simp_all [tally_cons]

/-- A list of one kind. -/
theorem tally_of_forall {j : Kind} {l : List ReplicaState} (h : ∀ r ∈ l, r.kind target = j) :
    tally target l k = if k = j then l.length else 0 := by
  by_cases hk : k = j
  · subst hk
    rw [if_pos rfl]
    exact List.countP_eq_length.mpr fun r hr ↦ beq_iff_eq.mpr (h r hr)
  · rw [if_neg hk]
    exact List.countP_eq_zero.mpr fun r hr hrk ↦ hk (beq_iff_eq.mp hrk ▸ h r hr)

/-- What is removed by job id and what is left add up, kind by kind. -/
theorem tally_without_add (target : String) {l v : List ReplicaState}
    (hl : (jobIds l).Nodup) (hv : v.Nodup) (hvl : v ⊆ l) (k : Kind) :
    tally target (without ReplicaState.jobId (jobIds v) l) k + tally target v k =
      tally target l k := countP_without_add hl hv hvl _

/-- Counting a property of the kind is adding up tallies. -/
theorem countP_kind {p : ReplicaState → Bool} (q : Kind → Bool)
    (h : ∀ r, p r = q (r.kind target)) (l : List ReplicaState) :
    l.countP p =
      (if q .pendingNew then tally target l .pendingNew else 0) +
      (if q .runningNew then tally target l .runningNew else 0) +
      (if q .pendingOld then tally target l .pendingOld else 0) +
      (if q .runningOld then tally target l .runningOld else 0) +
      (if q .dead then tally target l .dead else 0) := by
  induction l with
  | nil => simp
  | cons r l ih =>
      simp only [List.countP_cons, tally_cons, h r, ih]
      cases hk : r.kind target <;> simp <;> split_ifs <;> omega

theorem liveCount_eq (target : String) (l : List ReplicaState) :
    liveCount l = tally target l .pendingNew + tally target l .runningNew +
      tally target l .pendingOld + tally target l .runningOld := by
  rw [liveCount, countP_kind Kind.isLive (isAlive_eq target)]
  simp [Kind.isLive]

theorem runningCount_eq (target : String) (l : List ReplicaState) :
    runningCount l = tally target l .runningNew + tally target l .runningOld := by
  rw [runningCount, countP_kind Kind.isRunning (isRunning_eq target)]
  simp [Kind.isRunning]

theorem newLive_eq (target : String) (l : List ReplicaState) :
    newLive target l = tally target l .pendingNew + tally target l .runningNew := by
  rw [newLive, countP_kind Kind.isNew (onTarget_eq target)]
  simp [Kind.isNew]

theorem oldLive_eq (target : String) (l : List ReplicaState) :
    oldLive target l = tally target l .pendingOld + tally target l .runningOld := by
  rw [oldLive, countP_kind Kind.isOld (offTarget_eq target)]
  simp [Kind.isOld]

theorem liveCount_eq_add (target : String) (l : List ReplicaState) :
    liveCount l = newLive target l + oldLive target l := by
  rw [liveCount_eq target, newLive_eq, oldLive_eq, ← Nat.add_assoc]

/-! ## The census is a tally -/

/-- The census accumulated over a list. -/
theorem foldl_census (l : List ReplicaState) (c : RolloutCensus) :
    l.foldl (RolloutCensus.add target) c =
      { newLive := c.newLive + newLive target l
        newReady := c.newReady + tally target l .runningNew
        oldLive := c.oldLive + oldLive target l
        oldReady := c.oldReady + tally target l .runningOld
        terminal := c.terminal ++ jobIds (l.filter fun r ↦ r.phase.isTerminal) } := by
  induction l generalizing c with
  | nil => simp [newLive, oldLive]
  | cons r l ih =>
      rw [List.foldl_cons, ih]
      cases hp : r.phase <;> by_cases hr : r.revision = target <;>
        simp [RolloutCensus.add, tally_cons, newLive, oldLive, onTarget, offTarget,
          ReplicaState.kind, hp, hr] <;> omega

theorem census_eq (target : String) (l : List ReplicaState) :
    census l target =
      { newLive := newLive target l
        newReady := tally target l .runningNew
        oldLive := oldLive target l
        oldReady := tally target l .runningOld
        terminal := jobIds (l.filter fun r ↦ r.phase.isTerminal) } := by
  rw [census, foldl_census]
  simp

/-! ## The kill order -/

instance : Std.Total KillBefore where
  total a b := by
    rcases Nat.lt_trichotomy (killRank a.phase) (killRank b.phase) with h | h | h
    · exact Or.inl (Or.inl h)
    · rcases le_total a.jobId b.jobId with hle | hle
      · exact Or.inl (Or.inr ⟨h, hle⟩)
      · exact Or.inr (Or.inr ⟨h.symm, hle⟩)
    · exact Or.inr (Or.inl h)

instance : IsTrans ReplicaState KillBefore where
  trans a b c hab hbc := by
    rcases hab with hab | ⟨hab, hab'⟩
    · rcases hbc with hbc | ⟨hbc, _⟩
      · exact Or.inl (hab.trans hbc)
      · exact Or.inl (hbc ▸ hab)
    · rcases hbc with hbc | ⟨hbc, hbc'⟩
      · exact Or.inl (hab ▸ hbc)
      · exact Or.inr ⟨hab.trans hbc, hab'.trans hbc'⟩

/-- Whatever is killed before a pending replica is pending. -/
theorem KillBefore.pending {a b : ReplicaState} (h : KillBefore a b)
    (hb : b.phase = .pending) : a.phase = .pending := by
  have hrank : killRank a.phase = 0 := by
    rcases h with h | h
    · rw [hb] at h
      exact absurd h (Nat.not_lt_zero _)
    · rw [h.1, hb]
      rfl
  cases ha : a.phase <;> simp [ha, killRank] at hrank ⊢

/-- The `n` on-target replicas `kill_excess_new` names. -/
def excessNew (target : String) (l : List ReplicaState) (n : ℕ) : List ReplicaState :=
  ((l.filter (onTarget target)).insertionSort KillBefore).take n

theorem mem_of_mem_excessNew {l : List ReplicaState} {n : ℕ} {r : ReplicaState}
    (h : r ∈ excessNew target l n) : r ∈ l ∧ onTarget target r = true :=
  List.mem_filter.mp ((List.mem_insertionSort KillBefore).mp (List.mem_of_mem_take h))

theorem excessNew_subperm (l : List ReplicaState) (n : ℕ) :
    (excessNew target l n).Subperm (l.filter (onTarget target)) :=
  (List.take_sublist _ _).subperm.trans (List.perm_insertionSort KillBefore _).subperm

/-- The trim takes as many as it is told to, if there are that many. -/
theorem length_excessNew {n : ℕ} (hn : n ≤ newLive target l) :
    (excessNew target l n).length = n := by
  rw [excessNew, List.length_take, (List.perm_insertionSort KillBefore _).length_eq,
    ← List.countP_eq_length_filter]
  exact min_eq_left hn

/-- The trim takes pending replicas first, and running ones only after the last
pending one. -/
theorem tally_excessNew {l : List ReplicaState} {n : ℕ} (hn : n ≤ newLive target l) :
    tally target (excessNew target l n) k =
      match k with
      | .pendingNew => min n (tally target l .pendingNew)
      | .runningNew => n - tally target l .pendingNew
      | _ => 0 := by
  set sorted := (l.filter (onTarget target)).insertionSort KillBefore with hsorted
  have hperm : sorted.Perm (l.filter (onTarget target)) := List.perm_insertionSort _ _
  have hlen := length_excessNew hn
  have hnone : ∀ j, j.isNew = false → tally target (excessNew target l n) j = 0 := by
    intro j hj
    apply List.countP_eq_zero.mpr
    intro r hr hrj
    have hnew := (mem_of_mem_excessNew hr).2
    rw [onTarget_eq, eq_of_beq hrj, hj] at hnew
    exact Bool.noConfusion hnew
  have hflag : sorted.Pairwise fun a b ↦
      (b.kind target == .pendingNew) → (a.kind target == .pendingNew) := by
    refine (List.pairwise_insertionSort KillBefore _).imp_of_mem fun {a b} ha _ h hb ↦ ?_
    have hb' : b.phase = .pending := by
      cases hp : b.phase <;> by_cases hr : b.revision = target <;>
        simp [ReplicaState.kind, hp, hr] at hb ⊢
    have hr := (List.mem_filter.mp ((List.mem_insertionSort KillBefore).mp ha)).2
    simp only [onTarget, Bool.and_eq_true, beq_iff_eq] at hr
    simp [ReplicaState.kind, h.pending hb', hr.2]
  have hpend : tally target (excessNew target l n) .pendingNew =
      min n (tally target l .pendingNew) := by
    have hsame : tally target sorted .pendingNew = tally target l .pendingNew :=
      (tally_perm hperm).trans (tally_filter Kind.isNew (onTarget_eq target) l)
    rw [tally, excessNew, countP_take_of_flag_first hflag]
    exact congrArg (min n) hsame
  have hsum : tally target (excessNew target l n) .pendingNew +
      tally target (excessNew target l n) .runningNew = n := by
    rw [← newLive_eq, newLive, ← hlen, hlen, List.countP_eq_length.mpr fun r hr ↦
      (mem_of_mem_excessNew hr).2, hlen]
  cases k with
  | pendingNew => exact hpend
  | runningNew => simp only; omega
  | pendingOld => exact hnone _ rfl
  | runningOld => exact hnone _ rfl
  | dead => exact hnone _ rfl

/-! ## The victims of a plan -/

/-- The replicas a plan names, in the order of its kill list. -/
def victims (d : Deployment) (l : List ReplicaState) (target : String) : List ReplicaState :=
  let desired := d.replicas.toNat
  l.filter (fun r ↦ r.phase.isTerminal) ++
    match d.strategy with
    | .recreate =>
        if oldLive target l > 0 then l.filter (offTarget target)
        else excessNew target l (newLive target l - desired)
    | .rollingUpdate maxUnavailable _ =>
        excessNew target l (newLive target l - desired) ++ l.filter (unreadyOld target) ++
          (l.filter (readyOld target)).take (runningCount l - (desired - maxUnavailable.toNat))

theorem retireReady_eq (n : ℕ) (l : List ReplicaState) :
    retireReady target n l = jobIds ((l.filter (readyOld target)).take n) := by
  induction l generalizing n with
  | nil => simp [retireReady]
  | cons r l ih =>
      cases n with
      | zero => simp [retireReady]
      | succ n =>
          cases hr : readyOld target r <;> simp [retireReady, hr, ih]

/-- The planner kills exactly its victims. -/
theorem planStep_toKill (d : Deployment) (l : List ReplicaState) (target : String) :
    (planStep d l target).toKill = jobIds (victims d l target) := by
  have hold : oldLive target l = 0 →
      l.filter (unreadyOld target) = [] ∧ l.filter (readyOld target) = [] := by
    intro h
    rw [oldLive, List.countP_eq_zero] at h
    simp only [List.filter_eq_nil_iff, unreadyOld, readyOld, Bool.and_eq_true, not_and]
    constructor
    · intro r hr hoff
      exact absurd hoff (h r hr)
    · intro r hr hoff
      exact absurd hoff (h r hr)
  have hready : (census l target).newReady + (census l target).oldReady = runningCount l := by
    rw [census_eq, runningCount_eq target]
  unfold planStep victims
  cases hs : d.strategy with
  | recreate =>
      simp only [planRecreate, killExcessNew, census_eq]
      split_ifs with h0 h1 h2
      · simp
      · simp [excessNew, Nat.sub_eq_zero_of_le h1.le]
      · simp [excessNew]
      · simp [excessNew, Nat.sub_eq_zero_of_le (Nat.le_of_not_lt h2)]
  | rollingUpdate u s =>
      simp only [planRolling, killExcessNew, retireReady_eq, hready]
      simp only [census_eq]
      by_cases h0 : oldLive target l = 0
      · simp only [(hold h0).1, (hold h0).2]
        split_ifs <;> simp_all [excessNew]
      · split_ifs <;> simp_all [excessNew]

/-- The three groups the kill loops of `plan_rolling` pick from are disjoint and
make up what is live. -/
theorem groups_perm (target : String) (l : List ReplicaState) :
    (l.filter (onTarget target) ++ l.filter (unreadyOld target) ++
      l.filter (readyOld target)).Perm (l.filter fun r ↦ r.phase.isAlive) := by
  rw [List.perm_iff_count]
  intro a
  induction l with
  | nil => rfl
  | cons r l ih =>
      simp only [List.count_append] at ih ⊢
      cases hp : r.phase <;> by_cases hr : r.revision = target <;>
        simp [onTarget, unreadyOld, readyOld, offTarget, hp, hr, List.count_cons] at ih ⊢ <;>
        omega

/-- No replica is named twice, and only tracked ones are. -/
theorem victims_subperm (d : Deployment) (l : List ReplicaState) (target : String) :
    (victims d l target).Subperm l := by
  have hlive : ∀ v : List ReplicaState, v.Subperm (l.filter fun r ↦ r.phase.isAlive) →
      (l.filter (fun r ↦ r.phase.isTerminal) ++ v).Subperm l := by
    intro v hv
    have hsplit := List.filter_append_perm (fun r : ReplicaState ↦ r.phase.isTerminal) l
    simp only [Phase.not_isTerminal] at hsplit
    exact (List.Subperm.append (List.Subperm.refl _) hv).trans hsplit.subperm
  have hnew : ∀ n, (excessNew target l n).Subperm (l.filter fun r ↦ r.phase.isAlive) := by
    intro n
    refine (excessNew_subperm l n).trans (List.Sublist.subperm ?_)
    apply List.monotone_filter_right l
    intro r hr
    simp only [onTarget, Bool.and_eq_true] at hr
    exact hr.1
  unfold victims
  refine hlive _ ?_
  cases d.strategy with
  | recreate =>
      simp only
      split_ifs
      · refine (List.monotone_filter_right l fun r hr ↦ ?_).subperm
        simp only [offTarget, Bool.and_eq_true] at hr
        exact hr.1
      · exact hnew _
  | rollingUpdate u s =>
      refine List.Subperm.trans ?_ (groups_perm target l).subperm
      exact List.Subperm.append (List.Subperm.append (excessNew_subperm l _)
        (List.Subperm.refl _)) (List.take_sublist _ _).subperm

/-- The victims have distinct job ids if the tracked replicas do. -/
theorem victims_nodup {d : Deployment} {l : List ReplicaState} (hl : (jobIds l).Nodup) :
    (jobIds (victims d l target)).Nodup := by
  obtain ⟨m, hperm, hsub⟩ := victims_subperm d l target
  exact (hperm.map _).nodup_iff.mp (hl.sublist (hsub.map _))

theorem victims_subset (d : Deployment) (l : List ReplicaState) (target : String) :
    victims d l target ⊆ l := (victims_subperm d l target).subset

/-! ## The effect of a plan -/

/-- What is left when the whole kill list of a plan is carried out. -/
def survivors (d : Deployment) (l : List ReplicaState) (target : String) : List ReplicaState :=
  without ReplicaState.jobId (planStep d l target).toKill l

theorem tally_terminal (l : List ReplicaState) :
    tally target (l.filter fun r ↦ r.phase.isTerminal) k =
      if k = .dead then tally target l .dead else 0 := by
  rw [tally_filter (· == .dead) (isTerminal_eq target)]
  cases k <;> simp

theorem tally_unreadyOld (l : List ReplicaState) :
    tally target (l.filter (unreadyOld target)) k =
      if k = .pendingOld then tally target l .pendingOld else 0 := by
  rw [tally_filter (· == .pendingOld) (unreadyOld_eq target)]
  cases k <;> simp

theorem tally_readyOld_take (l : List ReplicaState) (n : ℕ) :
    tally target ((l.filter (readyOld target)).take n) k =
      if k = .runningOld then min n (tally target l .runningOld) else 0 := by
  have hkind : ∀ r ∈ (l.filter (readyOld target)).take n, r.kind target = .runningOld := by
    intro r hr
    have hold := (List.mem_filter.mp (List.mem_of_mem_take hr)).2
    rwa [readyOld_eq, beq_iff_eq] at hold
  have hlen : (l.filter (readyOld target)).length = tally target l .runningOld := by
    rw [← List.countP_eq_length_filter, tally]
    exact List.countP_congr fun r _ ↦ by rw [readyOld_eq]
  rw [tally_of_forall hkind, List.length_take, hlen]

/-- The victims of a rolling update, kind by kind. -/
theorem tally_victims_rolling {d : Deployment} {u s : UInt32}
    (hs : d.strategy = .rollingUpdate u s) (l : List ReplicaState) :
    tally target (victims d l target) k =
      match k with
      | .pendingNew => min (newLive target l - d.replicas.toNat) (tally target l .pendingNew)
      | .runningNew => newLive target l - d.replicas.toNat - tally target l .pendingNew
      | .pendingOld => tally target l .pendingOld
      | .runningOld =>
          min (runningCount l - (d.replicas.toNat - u.toNat)) (tally target l .runningOld)
      | .dead => tally target l .dead := by
  simp only [victims, hs, tally_append, tally_terminal, tally_unreadyOld, tally_readyOld_take,
    tally_excessNew (Nat.sub_le _ _)]
  cases k <;> simp

/-- The victims of a recreate, kind by kind. -/
theorem tally_victims_recreate {d : Deployment} (hs : d.strategy = .recreate)
    (l : List ReplicaState) :
    tally target (victims d l target) k =
      if oldLive target l > 0 then
        match k with
        | .pendingNew | .runningNew => 0
        | k => tally target l k
      else
        match k with
        | .pendingNew => min (newLive target l - d.replicas.toNat) (tally target l .pendingNew)
        | .runningNew => newLive target l - d.replicas.toNat - tally target l .pendingNew
        | .pendingOld | .runningOld => 0
        | .dead => tally target l .dead := by
  simp only [victims, hs, tally_append, tally_terminal]
  by_cases hold : oldLive target l > 0
  · rw [if_pos hold, if_pos hold, tally_filter Kind.isOld (offTarget_eq target)]
    cases k <;> simp [Kind.isOld]
  · rw [if_neg hold, if_neg hold, tally_excessNew (Nat.sub_le _ _)]
    cases k <;> simp

/-- What a fully applied plan leaves, kind by kind. -/
theorem tally_survivors {d : Deployment} {l : List ReplicaState} (hl : (jobIds l).Nodup) :
    tally target (survivors d l target) k =
      tally target l k - tally target (victims d l target) k := by
  have := tally_without_add target hl (victims_nodup hl).of_map
    (victims_subset d l target) k
  rw [survivors, planStep_toKill]
  omega

/-- How much a rolling update places. -/
theorem planStep_toPlace_rolling {d : Deployment} {u s : UInt32}
    (hs : d.strategy = .rollingUpdate u s) (l : List ReplicaState) :
    (planStep d l target).toPlace =
      min (d.replicas.toNat - newLive target l)
        (saturatingAdd d.replicas.toNat s.toNat - liveCount l) := by
  simp only [planStep, hs, planRolling, killExcessNew, census_eq, liveCount_eq_add target]
  split_ifs <;> simp <;> omega

/-- How much a recreate places. -/
theorem planStep_toPlace_recreate {d : Deployment} (hs : d.strategy = .recreate)
    (l : List ReplicaState) :
    (planStep d l target).toPlace =
      if oldLive target l > 0 then 0 else d.replicas.toNat - newLive target l := by
  simp only [planStep, hs, planRecreate, killExcessNew, census_eq]
  split_ifs <;> simp <;> omega

/-- A plan is done, whatever the strategy, when exactly the desired replicas run on
target and no old one is live. -/
theorem planStep_done {d : Deployment} {l : List ReplicaState} :
    (planStep d l target).done = true ↔
      oldLive target l = 0 ∧ newLive target l = d.replicas.toNat ∧
        tally target l .runningNew = d.replicas.toNat := by
  unfold planStep
  cases hs : d.strategy with
  | recreate =>
      simp only [planRecreate, killExcessNew, census_eq]
      split_ifs <;> simp <;> omega
  | rollingUpdate u s =>
      simp only [planRolling, killExcessNew, census_eq]
      split_ifs <;> simp_all

end CeGke
