import CeGke.Rollout.Tally
import Mathlib.Data.Set.Finite.Lattice
import Mathlib.Data.Fintype.EquivFin

/-!
# The planner converges

The loop of the controller, when everything it asks for happens: plan, kill,
place, and let every pending replica come up.  After one turn nothing is pending
or dead any more, and a roll is then a pair of counts, on target and off target.
The number of running replicas goes up and down along the way; what falls is the
number off target, every turn in which the budget lets one go, and a turn that
lets none go has placed at least one, so that the next one does (`Settled.converge`).
-/

namespace CeGke

open Lib

variable {d : Deployment} {l m : List ReplicaState} {target : String} {k : Kind}

/-! ## Coming up -/

/-- Turn every pending replica into a running one. -/
def comeUp (r : ReplicaState) : ReplicaState :=
  if r.phase = .pending then { r with phase := .running } else r

/-- What becomes of a kind when its replicas come up. -/
def Kind.comeUp : Kind → Kind
  | .pendingNew => .runningNew
  | .pendingOld => .runningOld
  | k => k

@[simp] theorem comeUp_jobId (r : ReplicaState) : (comeUp r).jobId = r.jobId := by
  unfold comeUp
  split <;> rfl

theorem kind_comeUp (r : ReplicaState) : (comeUp r).kind target = (r.kind target).comeUp := by
  cases hp : r.phase <;> by_cases hr : r.revision = target <;>
    simp [comeUp, ReplicaState.kind, Kind.comeUp, hp, hr]

theorem jobIds_map_comeUp (l : List ReplicaState) : jobIds (l.map comeUp) = jobIds l := by
  simp [jobIds]

/-- Coming up moves the pending counts over to the running ones. -/
theorem tally_map_comeUp (l : List ReplicaState) :
    tally target (l.map comeUp) k =
      match k with
      | .pendingNew | .pendingOld => 0
      | .runningNew => tally target l .pendingNew + tally target l .runningNew
      | .runningOld => tally target l .pendingOld + tally target l .runningOld
      | .dead => tally target l .dead := by
  induction l with
  | nil => cases k <;> rfl
  | cons r l ih =>
      rw [List.map_cons, tally_cons, ih, kind_comeUp]
      cases k <;> cases hr : r.kind target <;> simp [tally_cons, Kind.comeUp, hr] <;> omega

/-! ## One turn -/

/-- One turn of the loop that is not over: the kill list is carried out, `placed`
are as many fresh replicas as the plan asks for, and all pending ones come up. -/
def Turn (d : Deployment) (target : String) (l m : List ReplicaState) : Prop :=
  ∃ placed : List ReplicaState,
    placed.length = (planStep d l target).toPlace ∧
      (∀ r ∈ placed, r.phase = .pending ∧ r.revision = target) ∧
      (jobIds (survivors d l target ++ placed)).Nodup ∧
      m = (survivors d l target ++ placed).map comeUp

/-- There are always fresh job ids, so a turn is always possible. -/
theorem exists_turn (d : Deployment) (target : String) (hl : (jobIds l).Nodup) :
    ∃ m, Turn d target l m := by
  have hfree : {job : String | job ∉ jobIds (survivors d l target)}.Infinite := by
    have hcompl : {job : String | job ∉ jobIds (survivors d l target)} =
        (↑(jobIds (survivors d l target)).toFinset : Set String)ᶜ := by
      ext job
      simp
    rw [hcompl]
    exact (Finset.finite_toSet _).infinite_compl
  obtain ⟨ids, hids, hcard⟩ :=
    hfree.exists_subset_card_eq (planStep d l target).toPlace
  let placed := ids.toList.map fun job ↦ (⟨job, "", target, .pending⟩ : ReplicaState)
  have hjobs : jobIds placed = ids.toList := by
    rw [jobIds, List.map_map]
    exact List.map_id _
  refine ⟨_, placed, ?_, ?_, ?_, rfl⟩
  · rw [List.length_map, Finset.length_toList, hcard]
  · intro r hr
    obtain ⟨job, _, rfl⟩ := List.mem_map.mp hr
    exact ⟨rfl, rfl⟩
  · rw [jobIds_append, hjobs]
    refine List.Nodup.append (nodup_without hl) (Finset.nodup_toList _) ?_
    intro job hsurv hnew
    exact hids (Finset.mem_toList.mp hnew) hsurv

theorem Turn.nodup (h : Turn d target l m) : (jobIds m).Nodup := by
  obtain ⟨placed, _, _, hnodup, rfl⟩ := h
  rwa [jobIds_map_comeUp]

/-- What a turn does to the counts. -/
theorem Turn.tally_eq (h : Turn d target l m) (hl : (jobIds l).Nodup) :
    tally target m k =
      let left := fun j ↦ tally target l j - tally target (victims d l target) j
      match k with
      | .pendingNew | .pendingOld => 0
      | .runningNew => left .pendingNew + left .runningNew + (planStep d l target).toPlace
      | .runningOld => left .pendingOld + left .runningOld
      | .dead => left .dead := by
  obtain ⟨placed, hlen, hnew, _, rfl⟩ := h
  have hkind : ∀ r ∈ placed, r.kind target = .pendingNew := by
    intro r hr
    simp [ReplicaState.kind, hnew r hr]
  have hplaced : ∀ j, tally target placed j = if j = .pendingNew then placed.length else 0 :=
    fun j ↦ tally_of_forall hkind
  rw [tally_map_comeUp]
  cases k <;> simp [tally_append, tally_survivors hl, hplaced, hlen]
  omega

/-! ## Settled fleets -/

/-- Nothing is pending and nothing is dead. -/
structure Settled (target : String) (l : List ReplicaState) : Prop where
  pendingNew : tally target l .pendingNew = 0
  pendingOld : tally target l .pendingOld = 0
  dead : tally target l .dead = 0

theorem Settled.runningNew (h : Settled target l) :
    tally target l .runningNew = newLive target l := by
  rw [newLive_eq, h.pendingNew, Nat.zero_add]

theorem Settled.runningOld (h : Settled target l) :
    tally target l .runningOld = oldLive target l := by
  rw [oldLive_eq, h.pendingOld, Nat.zero_add]

/-- One turn settles any fleet. -/
theorem Turn.settled (h : Turn d target l m) (hl : (jobIds l).Nodup) : Settled target m := by
  refine ⟨by rw [h.tally_eq hl], by rw [h.tally_eq hl], ?_⟩
  rw [h.tally_eq hl]
  simp only
  cases hs : d.strategy with
  | recreate => rw [tally_victims_recreate hs]; split_ifs <;> simp
  | rollingUpdate u s => rw [tally_victims_rolling hs]; simp

/-- A settled fleet is done when the desired replicas are on target and no others. -/
theorem Settled.planDone_iff (h : Settled target l) :
    (planStep d l target).done = true ↔
      oldLive target l = 0 ∧ newLive target l = d.replicas.toNat := by
  rw [planStep_done, h.runningNew]
  tauto

/-! ## Recreate -/

/-- A recreate that still drains: the old replicas go, the others stay. -/
theorem Turn.recreate_drain (h : Turn d target l m) (hl : (jobIds l).Nodup)
    (hs : d.strategy = .recreate) (hold : 0 < oldLive target l) :
    oldLive target m = 0 ∧ newLive target m = newLive target l := by
  rw [oldLive_eq target m, newLive_eq target m]
  simp only [h.tally_eq hl, tally_victims_recreate hs, planStep_toPlace_recreate hs, if_pos hold]
  rw [newLive_eq target l]
  omega

/-- A recreate with nothing left to drain ends up with what is desired. -/
theorem Turn.recreate_fill (h : Turn d target l m) (hl : (jobIds l).Nodup)
    (hs : d.strategy = .recreate) (hold : oldLive target l = 0) :
    oldLive target m = 0 ∧ newLive target m = d.replicas.toNat := by
  have hold' := oldLive_eq target l
  have hnew := newLive_eq target l
  rw [oldLive_eq target m, newLive_eq target m]
  simp only [h.tally_eq hl, tally_victims_recreate hs, planStep_toPlace_recreate hs,
    hold, gt_iff_lt, lt_irrefl, if_false]
  omega

/-! ## Rolling updates -/

section Rolling

variable {u s : UInt32}

/-- A turn of a rolling update never leaves more on target than desired, nor more
off target than there were. -/
theorem Turn.rolling_le (h : Turn d target l m) (hl : (jobIds l).Nodup)
    (hs : d.strategy = .rollingUpdate u s) :
    newLive target m ≤ d.replicas.toNat ∧ oldLive target m ≤ oldLive target l := by
  have hold := oldLive_eq target l
  have hnew := newLive_eq target l
  rw [oldLive_eq target m, newLive_eq target m]
  simp only [h.tally_eq hl, tally_victims_rolling hs, planStep_toPlace_rolling hs]
  omega

/-- A turn of a rolling update on a settled fleet. -/
theorem Turn.rolling_settled (h : Turn d target l m) (hl : (jobIds l).Nodup)
    (hs : d.strategy = .rollingUpdate u s) (hset : Settled target l)
    (hle : newLive target l ≤ d.replicas.toNat) :
    newLive target m = newLive target l +
        min (d.replicas.toNat - newLive target l)
          (saturatingAdd d.replicas.toNat s.toNat - (newLive target l + oldLive target l)) ∧
      oldLive target m = oldLive target l -
        (newLive target l + oldLive target l - (d.replicas.toNat - u.toNat)) := by
  rw [oldLive_eq target m, newLive_eq target m]
  simp only [h.tally_eq hl, tally_victims_rolling hs, planStep_toPlace_rolling hs,
    runningCount_eq target l, liveCount_eq_add target l, hset.pendingNew, hset.pendingOld,
    hset.runningNew, hset.runningOld]
  omega

end Rolling

/-- Validation keeps the surge ceiling clear of saturation, and some budget open. -/
theorem Deployment.Valid.budget {u s : UInt32} (hd : d.Valid)
    (hs : d.strategy = .rollingUpdate u s) :
    d.replicas.toNat + min s.toNat 1 ≤ saturatingAdd d.replicas.toNat s.toNat ∧
      0 < u.toNat + s.toNat := by
  constructor
  · have hle := hd.replicas_le
    simp only [maxReplicas] at hle
    simp only [saturatingAdd, u32Max]
    omega
  · by_contra hzero
    have hu : u = 0 := UInt32.toNat_inj.mp (by simp; omega)
    have hs' : s = 0 := UInt32.toNat_inj.mp (by simp; omega)
    exact hd.strategy_ne (by rw [hs, hu, hs'])

/-! ## Runs -/

/-- A run of the loop: turn after turn until the planner is done. -/
structure Roll (d : Deployment) (target : String) (run : ℕ → List ReplicaState) : Prop where
  nodup : (jobIds (run 0)).Nodup
  turn : ∀ i, (planStep d (run i) target).done = false → Turn d target (run i) (run (i + 1))

/-- Every fleet has a roll. -/
theorem exists_roll (d : Deployment) (target : String) (hl : (jobIds l).Nodup) :
    ∃ run, Roll d target run ∧ run 0 = l := by
  choose next hnext using fun x : {l // (jobIds l).Nodup} ↦ exists_turn d target x.2
  let run : ℕ → {l // (jobIds l).Nodup} :=
    Nat.rec ⟨l, hl⟩ fun _ x ↦ ⟨next x, (hnext x).nodup⟩
  exact ⟨fun i ↦ (run i).1, ⟨hl, fun i _ ↦ hnext (run i)⟩, rfl⟩

/-- The run from its second fleet on. -/
theorem Roll.tail {run : ℕ → List ReplicaState} (h : Roll d target run)
    (hgo : (planStep d (run 0) target).done = false) : Roll d target fun i ↦ run (i + 1) :=
  ⟨(h.turn 0 hgo).nodup, fun i ↦ h.turn (i + 1)⟩

/-- The counts of a settled roll on which no old replica can go: either none is left,
and the turn fills what is desired, or it places enough for the next turn to let one
go.  `D` is desired, `U` and `S` the budgets, `C` the surge ceiling. -/
theorem room_made {D U S C n o : ℕ} (hle : n ≤ D) (hceil : D + min S 1 ≤ C)
    (hbudget : 0 < U + S) (hstuck : o ≤ o - (n + o - (D - U))) :
    (o = 0 → n + min (D - n) (C - (n + o)) = D) ∧
      (0 < o → 0 < n + min (D - n) (C - (n + o)) + o - (D - U)) := by
  constructor <;> intro ho
  · subst ho
    omega
  · have hfull : n + o ≤ D - U := by omega
    rcases le_total (D - n) (C - (n + o)) with h | h
    · rw [min_eq_left h]
      omega
    · rw [min_eq_right h]
      omega

/-- A settled fleet with `o` replicas off target rolls in at most `2 * o + 1` turns:
each one off target costs at most a turn to make room and a turn to let it go. -/
theorem Settled.converge {u s : UInt32} (hd : d.Valid) (hs : d.strategy = .rollingUpdate u s)
    (o : ℕ) {run : ℕ → List ReplicaState} (hrun : Roll d target run)
    (hset : Settled target (run 0)) (hnew : newLive target (run 0) ≤ d.replicas.toNat)
    (hold : oldLive target (run 0) ≤ o) :
    ∃ i ≤ 2 * o + 1, (planStep d (run i) target).done = true := by
  induction o using Nat.strong_induction_on generalizing run with
  | _ o ih =>
      cases hgo : (planStep d (run 0) target).done with
      | true => exact ⟨0, Nat.zero_le _, hgo⟩
      | false =>
          have h₁ : Turn d target (run 0) (run 1) := hrun.turn 0 hgo
          have hset₁ := h₁.settled hrun.nodup
          have hle₁ := (h₁.rolling_le hrun.nodup hs).1
          obtain ⟨hnew₁, hold₁⟩ := h₁.rolling_settled hrun.nodup hs hset hnew
          by_cases hdrop : oldLive target (run 1) < oldLive target (run 0)
          · -- The budget lets one go.
            have hlt : oldLive target (run 1) ≤ o - 1 := by omega
            obtain ⟨i, hi, hdone⟩ := ih (o - 1) (by omega) (hrun.tail hgo) hset₁ hle₁ hlt
            exact ⟨i + 1, by omega, hdone⟩
          · -- It lets none go: either there is none left, or the next turn will.
            obtain ⟨hceil, hbudget⟩ := hd.budget hs
            rw [hold₁, not_lt] at hdrop
            obtain ⟨hfilled, hroom⟩ := room_made hnew hceil hbudget hdrop
            have hsame : oldLive target (run 1) = oldLive target (run 0) := by omega
            rcases Nat.eq_zero_or_pos (oldLive target (run 0)) with hzero | hpos
            · refine ⟨1, by omega, hset₁.planDone_iff.mpr ⟨hsame.trans hzero, ?_⟩⟩
              rw [hnew₁, hfilled hzero]
            · have hgo₁ : (planStep d (run 1) target).done = false := by
                apply Bool.eq_false_iff.mpr
                intro hdone
                have := (hset₁.planDone_iff.mp hdone).1
                omega
              have h₂ : Turn d target (run 1) (run 2) := hrun.turn 1 hgo₁
              have hset₂ := h₂.settled h₁.nodup
              have hle₂ := (h₂.rolling_le h₁.nodup hs).1
              have hold₂ := (h₂.rolling_settled h₁.nodup hs hset₁ hle₁).2
              have hlt : oldLive target (run 2) ≤ o - 1 := by
                rw [hold₂, hsame, hnew₁]
                have := hroom hpos
                omega
              obtain ⟨i, hi, hdone⟩ :=
                ih (o - 1) (by omega) ((hrun.tail hgo).tail hgo₁) hset₂ hle₂ hlt
              exact ⟨i + 2, by omega, hdone⟩

/-- Every run is done within `2 * old + 3` turns, `old` being the replicas off target
at its start. -/
theorem Roll.converge (hd : d.Valid) {run : ℕ → List ReplicaState} (hrun : Roll d target run) :
    ∃ i ≤ 2 * oldLive target (run 0) + 3, (planStep d (run i) target).done = true := by
  cases hgo : (planStep d (run 0) target).done with
  | true => exact ⟨0, Nat.zero_le _, hgo⟩
  | false =>
      have h₁ := hrun.turn 0 hgo
      have hrun₁ := hrun.tail hgo
      have hset₁ := h₁.settled hrun.nodup
      cases hs : d.strategy with
      | rollingUpdate u s =>
          obtain ⟨hle, hold⟩ := h₁.rolling_le hrun.nodup hs
          obtain ⟨i, hi, hdone⟩ := Settled.converge hd hs _ hrun₁ hset₁ hle hold
          exact ⟨i + 1, by omega, hdone⟩
      | recreate =>
          by_cases hold : oldLive target (run 0) = 0
          · exact ⟨1, by omega, hset₁.planDone_iff.mpr (h₁.recreate_fill hrun.nodup hs hold)⟩
          · cases hgo₁ : (planStep d (run 1) target).done with
            | true => exact ⟨1, by omega, hgo₁⟩
            | false =>
                have h₂ := hrun₁.turn 0 hgo₁
                have hold₁ := (h₁.recreate_drain hrun.nodup hs (Nat.pos_of_ne_zero hold)).1
                exact ⟨2, by omega, (h₂.settled hrun₁.nodup).planDone_iff.mpr
                  (h₂.recreate_fill hrun₁.nodup hs hold₁)⟩

/-! ## What a finished roll leaves -/

theorem length_eq_tally (target : String) (l : List ReplicaState) :
    l.length = tally target l .pendingNew + tally target l .runningNew +
      tally target l .pendingOld + tally target l .runningOld + tally target l .dead := by
  have hall := @countP_kind target (fun _ ↦ true) (fun _ ↦ true)
    (fun _ ↦ rfl) l
  simpa using hall

/-- Once the planner is done, what is left is what was asked for. -/
theorem survivors_of_done (hl : (jobIds l).Nodup) (hdone : (planStep d l target).done = true) :
    (survivors d l target).length = d.replicas.toNat ∧
      ∀ r ∈ survivors d l target, r.phase = .running ∧ r.revision = target := by
  obtain ⟨hold, hnew, hready⟩ := planStep_done.mp hdone
  have hold' := oldLive_eq target l
  have hnew' := newLive_eq target l
  have htally : ∀ j, tally target (survivors d l target) j =
      if j = .runningNew then d.replicas.toNat else 0 := by
    intro j
    rw [tally_survivors hl]
    cases hs : d.strategy with
    | recreate =>
        rw [tally_victims_recreate hs, if_neg (by omega)]
        cases j <;> simp <;> omega
    | rollingUpdate u s =>
        rw [tally_victims_rolling hs]
        cases j <;> simp <;> omega
  have hlen : (survivors d l target).length = d.replicas.toNat := by
    rw [length_eq_tally target]
    simp [htally]
  refine ⟨hlen, ?_⟩
  intro r hr
  have hall : tally target (survivors d l target) .runningNew =
      (survivors d l target).length := by rw [htally, if_pos rfl, hlen]
  have hkind := beq_iff_eq.mp (List.countP_eq_length.mp hall r hr)
  cases hp : r.phase <;> by_cases hrev : r.revision = target <;>
    simp [ReplicaState.kind, hp, hrev] at hkind ⊢

theorem Roll.nodup_of_le {run : ℕ → List ReplicaState} (hrun : Roll d target run) {i : ℕ}
    (hgo : ∀ j < i, (planStep d (run j) target).done = false) : (jobIds (run i)).Nodup := by
  cases i with
  | zero => exact hrun.nodup
  | succ i => exact (hrun.turn i (hgo i (Nat.lt_succ_self i))).nodup

/-- **The planner converges.**  Every run of the loop reaches a step that is done
within `2 * oldLive + 4` calls of the planner, and the kills of that step leave
exactly the desired replicas, running, on the target revision. -/
theorem planner_converges (hd : d.validate = .ok ()) {run : ℕ → List ReplicaState}
    (hrun : Roll d target run) :
    ∃ i < 2 * oldLive target (run 0) + 4,
      (∀ j < i, (planStep d (run j) target).done = false) ∧
        (planStep d (run i) target).done = true ∧
        (survivors d (run i) target).length = d.replicas.toNat ∧
        ∀ r ∈ survivors d (run i) target, r.phase = .running ∧ r.revision = target := by
  obtain ⟨i, hi, hdone⟩ := hrun.converge (Deployment.validate_eq_ok.mp hd)
  have hex : ∃ i, (planStep d (run i) target).done = true := ⟨i, hdone⟩
  have hle : Nat.find hex ≤ i := Nat.find_min' hex hdone
  have hgo : ∀ j < Nat.find hex, (planStep d (run j) target).done = false :=
    fun j hj ↦ Bool.not_eq_true _ ▸ Nat.find_min hex hj
  refine ⟨Nat.find hex, by omega, hgo, Nat.find_spec hex, ?_⟩
  exact survivors_of_done (hrun.nodup_of_le hgo) (Nat.find_spec hex)

/-- A roll of one replica: the new one comes up next to the old one, then replaces it. -/
def rollOfOne : ℕ → List ReplicaState
  | 0 => [⟨"a", "n", "v1", .running⟩]
  | 1 => [⟨"a", "n", "v1", .running⟩, ⟨"b", "n", "v2", .running⟩]
  | _ => [⟨"b", "n", "v2", .running⟩]

theorem planner_converges_rollOfOne :
    let d : Deployment :=
      { name := "web", nameSpace := "default", image := "nginx", replicas := 1
        strategy := .rollingUpdate 0 1 }
    ∃ i < 6,
      (∀ j < i, (planStep d (rollOfOne j) "v2").done = false) ∧
        (planStep d (rollOfOne i) "v2").done = true ∧
        (survivors d (rollOfOne i) "v2").length = 1 ∧
        ∀ r ∈ survivors d (rollOfOne i) "v2", r.phase = .running ∧ r.revision = "v2" := by
  intro d
  have hrun : Roll d "v2" rollOfOne := by
    refine ⟨by decide, ?_⟩
    intro i hgo
    match i with
    | 0 => exact ⟨[⟨"b", "n", "v2", .pending⟩], by decide, by decide, by decide, by decide⟩
    | 1 => exact ⟨[], by decide, by decide, by decide, by decide⟩
    | _ + 2 => exact absurd hgo (by simp only [rollOfOne]; decide)
  exact planner_converges (d := d) (by decide) hrun

end CeGke
