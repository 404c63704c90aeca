import CeGke.Rollout.Tally

/-!
# The steady state of a rollout

The rollout planner is layered over `reconcile`: as long as no live replica is on another
revision than the target, its decisions are those of the plain reconcile
(`planStep_eq_reconcile`).
-/

namespace CeGke

variable {d : Deployment} {l : List ReplicaState} {target : String}

/-! ## The two kill orders -/

theorem killRank_eq_phaseKillRank (p : Phase) : killRank p = phaseKillRank p := by
  cases p <;> rfl

theorem steadyBefore_iff {a b : ReplicaState} : SteadyBefore a b ↔ KillBefore a b := by
  rw [SteadyBefore, KillBefore, killRank_eq_phaseKillRank, killRank_eq_phaseKillRank]

/-- The two planners sort alike, ties included. -/
theorem insertionSort_steadyBefore (l : List ReplicaState) :
    l.insertionSort SteadyBefore = l.insertionSort KillBefore := by
  have hinsert : ∀ (r : ReplicaState) (l : List ReplicaState),
      l.orderedInsert SteadyBefore r = l.orderedInsert KillBefore r := by
    intro r l
    induction l with
    | nil => rfl
    | cons a l ih => simp only [List.orderedInsert, steadyBefore_iff, ih]
  induction l with
  | nil => rfl
  | cons r l ih => rw [List.insertionSort_cons, List.insertionSort_cons, ih, hinsert]

/-! ## What `reconcile` asks for -/

theorem length_filter_live (l : List ReplicaState) :
    (l.filter fun r ↦ r.phase.isAlive).length = liveCount l :=
  List.countP_eq_length_filter.symm

theorem reconcile_eq (hlen : l.length < 2 ^ 32) :
    reconcile d l =
      { toPlace := d.replicas.toNat - liveCount l
        toKill := jobIds (l.filter fun r ↦ r.phase.isTerminal) ++
          jobIds (((l.filter fun r ↦ r.phase.isAlive).insertionSort KillBefore).take
            (liveCount l - d.replicas.toNat)) } := by
  have hlive : (l.filter (Bool.not ∘ fun r : ReplicaState ↦ r.phase.isTerminal)) =
      l.filter fun r ↦ r.phase.isAlive :=
    congrArg (l.filter ·) (funext fun r ↦ r.phase.not_isTerminal)
  have hlt : liveCount l < 2 ^ 32 := Nat.lt_of_le_of_lt List.countP_le_length hlen
  have halive : (UInt32.ofNat (liveCount l)).toNat = liveCount l :=
    UInt32.toNat_ofNat_of_lt' hlt
  simp only [reconcile, List.partition_eq_filter_filter, hlive, length_filter_live, halive,
    insertionSort_steadyBefore]
  split_ifs with hless hmore
  · rw [Nat.sub_eq_zero_of_le hless.le, List.take_zero, jobIds_nil, List.append_nil]
  · rw [Nat.sub_eq_zero_of_le hmore.le]
  · rw [Nat.le_antisymm (not_lt.mp hmore) (not_lt.mp hless), Nat.sub_self, List.take_zero,
      jobIds_nil, List.append_nil]

/-! ## What the rollout asks for -/

section Steady

variable (hlive : ∀ r ∈ l, r.phase.isAlive → r.revision = target)

include hlive

theorem filter_onTarget_of_steady :
    l.filter (onTarget target) = l.filter fun r ↦ r.phase.isAlive := by
  apply List.filter_congr
  intro r hr
  cases halive : r.phase.isAlive with
  | false => simp [onTarget, halive]
  | true => simp [onTarget, halive, hlive r hr halive]

theorem not_offTarget_of_steady {r : ReplicaState} (hr : r ∈ l) : offTarget target r = false := by
  cases halive : r.phase.isAlive with
  | false => simp [offTarget, halive]
  | true => simp [offTarget, halive, hlive r hr halive]

theorem oldLive_of_steady : oldLive target l = 0 := by
  apply List.countP_eq_zero.mpr
  intro r hr
  simp [not_offTarget_of_steady hlive hr]

theorem newLive_of_steady : newLive target l = liveCount l := by
  rw [liveCount_eq_add target, oldLive_of_steady hlive, Nat.add_zero]

/-- No old replica is named, so only the trim is left of the victims. -/
theorem victims_of_steady :
    victims d l target = (l.filter fun r ↦ r.phase.isTerminal) ++
      ((l.filter fun r ↦ r.phase.isAlive).insertionSort KillBefore).take
        (liveCount l - d.replicas.toNat) := by
  have hunready : l.filter (unreadyOld target) = [] := by
    apply List.filter_eq_nil_iff.mpr
    intro r hr
    simp [unreadyOld, not_offTarget_of_steady hlive hr]
  have hready : l.filter (readyOld target) = [] := by
    apply List.filter_eq_nil_iff.mpr
    intro r hr
    simp [readyOld, not_offTarget_of_steady hlive hr]
  unfold victims excessNew
  rw [filter_onTarget_of_steady hlive, newLive_of_steady hlive, oldLive_of_steady hlive,
    hunready, hready]
  cases d.strategy with
  | recreate => simp
  | rollingUpdate u s => simp

/-- A surge never holds back the shortfall: `desired` itself is within the ceiling. -/
theorem planStep_toPlace_of_steady :
    (planStep d l target).toPlace = d.replicas.toNat - liveCount l := by
  have hmax : d.replicas.toNat ≤ u32Max := Nat.le_pred_of_lt d.replicas.toNat_lt
  cases hs : d.strategy with
  | recreate =>
      rw [planStep_toPlace_recreate hs, oldLive_of_steady hlive, newLive_of_steady hlive,
        if_neg (Nat.lt_irrefl 0)]
  | rollingUpdate u s =>
      rw [planStep_toPlace_rolling hs, newLive_of_steady hlive]
      apply Nat.min_eq_left
      apply Nat.sub_le_sub_right
      exact Nat.le_min.mpr ⟨Nat.le_add_right _ _, hmax⟩

end Steady

/-- **For an unchanged revision the rollout is plain reconcile**: when every live replica is
on the target revision, the two planners place the same number and kill the same replicas in
the same order, whatever the strategy and whatever revisions the terminal replicas are on. -/
theorem planStep_eq_reconcile (hlen : l.length < 2 ^ 32)
    (hlive : ∀ r ∈ l, r.phase.isAlive → r.revision = target) :
    (planStep d l target).toPlace = (reconcile d l).toPlace ∧
      (planStep d l target).toKill = (reconcile d l).toKill := by
  constructor
  · rw [planStep_toPlace_of_steady hlive, reconcile_eq hlen]
  · rw [planStep_toKill, victims_of_steady hlive, reconcile_eq hlen, jobIds_append]

/-- Three live replicas of a deployment that wants two, one of them still pending, beside a
failed one of an older revision. -/
def crowded : List ReplicaState :=
  [⟨"a", "n", "v2", .running⟩, ⟨"b", "n", "v2", .pending⟩, ⟨"c", "n", "v1", .failed⟩,
    ⟨"d", "n", "v2", .running⟩]

theorem planStep_eq_reconcile_crowded :
    (planStep { replicas := 2 } crowded "v2").toPlace =
        (reconcile { replicas := 2 } crowded).toPlace ∧
      (planStep { replicas := 2 } crowded "v2").toKill =
        (reconcile { replicas := 2 } crowded).toKill :=
  planStep_eq_reconcile (by decide) (by decide)

example : (reconcile { replicas := 2 } crowded).toKill = ["c", "b"] := by decide

end CeGke
