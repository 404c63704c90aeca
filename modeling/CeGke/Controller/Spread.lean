import CeGke.Controller.Offers
import CeGke.Lib.Greedy
import CeGke.Placement.Rank
import CeGke.Rollout.Kills
import Mathlib.Data.Int.ConditionallyCompleteOrder
import Mathlib.Order.ConditionallyCompleteLattice.Basic

/-!
# Where the replicas of a tick go

When the driver takes all it is offered, the placement loop is a greedy choice: a candidate
offers one slot after the other, each 150 points below the one before, and the loop takes the
best slots of all (`Spread`).  Replicas are spread accordingly (`tick_spread`), and no host is
over-committed exactly when the best slots are all on hosts with room left for them
(`no_overcommit_iff`): the loop itself never looks at the room again.
-/

namespace CeGke

open Lib

variable {σ : Type}

/-! ## Slots -/

/-- The slot of the `j`-th replica that a candidate takes: its score after `j` penalties. -/
def Candidate.slot (c : Candidate) (j : ℕ) : Candidate := { c with score := c.score - 150 * j }

/-- The slots of a candidate, as they are compared. -/
def slotKey (c : Candidate) (j : ℕ) : ℤ ×ₗ String := (c.slot j).key

namespace Candidate

variable {a b c : Candidate} {i j : ℕ}

@[simp] theorem slot_zero : c.slot 0 = c := by
  simp [slot]

@[simp] theorem slot_nodeId : (c.slot j).nodeId = c.nodeId := rfl

theorem slot_succ : c.slot (j + 1) = { c.slot j with score := (c.slot j).score - 150 } := by
  simp only [slot, Candidate.mk.injEq, and_true, true_and]
  omega

end Candidate

theorem slotKey_le_iff {a b : Candidate} {i j : ℕ} : slotKey a i ≤ slotKey b j ↔
    b.score - 150 * j < a.score - 150 * i ∨
      a.score - 150 * i = b.score - 150 * j ∧ a.nodeId ≤ b.nodeId :=
  Candidate.before_iff.symm

theorem slotKey_mono (c : Candidate) : Monotone (slotKey c) := by
  intro i j hij
  rw [slotKey_le_iff]
  rcases hij.lt_or_eq with hlt | rfl
  · left
    omega
  · exact Or.inr ⟨rfl, le_rfl⟩

/-- Candidates on distinct hosts have no slot in common. -/
theorem slotKey_inj {cands : List Candidate} (hnodup : (cands.map Candidate.nodeId).Nodup)
    {a b : Candidate} (ha : a ∈ cands) (hb : b ∈ cands) {i j : ℕ}
    (h : slotKey a i = slotKey b j) : a = b ∧ i = j := by
  have hnode : (a.slot i).nodeId = (b.slot j).nodeId := Candidate.nodeId_eq_of_key_eq h
  obtain rfl : a = b := List.inj_on_of_nodup_map hnodup ha hb hnode
  have hle := slotKey_le_iff.mp h.le
  have hge := slotKey_le_iff.mp h.ge
  refine ⟨rfl, ?_⟩
  omega

/-- On distinct hosts a penalty falls on one candidate. -/
theorem penalize_eq_map {l : List Candidate} (hnodup : (l.map Candidate.nodeId).Nodup)
    (nodeId : String) : penalize nodeId l =
      l.map fun c ↦ if c.nodeId = nodeId then { c with score := c.score - 150 } else c := by
  induction l with
  | nil => rfl
  | cons c l ih =>
      rw [List.map_cons, List.nodup_cons] at hnodup
      rw [penalize, List.map_cons]
      split_ifs with hc
      · have hrest : l.map (fun c ↦
            if c.nodeId = nodeId then { c with score := c.score - 150 } else c) = l.map id := by
          refine List.map_congr_left fun x hx ↦ if_neg fun hxc ↦ hnodup.1 ?_
          exact List.mem_map.mpr ⟨x, hx, hxc.trans hc.symm⟩
        rw [hrest, List.map_id]
      · rw [ih hnodup.2]

/-! ## The loop as a greedy choice -/

/-- The driver takes whatever the loop offers from `p` on. -/
def Accepting (driver : MeshDriver σ) (grant : Option String) (d : Deployment) (target : String)
    (p : PlaceState σ) : Prop :=
  ∀ offers p', Offers driver grant d target p offers p' → offers.length ≤ p.cap →
    rejectedCount offers = 0

theorem accepting_of_forall {driver : MeshDriver σ} {grant : Option String} {d : Deployment}
    {target : String} {p : PlaceState σ}
    (h : ∀ nodeId mesh, ∃ job mesh', driver.deploy nodeId d grant mesh = (.ok job, mesh')) :
    Accepting driver grant d target p := by
  intro offers p' hoffers hle
  clear hle
  induction hoffers with
  | nil p => rfl
  | accepted hplace hbest hdeploy hoffers ih =>
      rw [rejectedCount_cons, if_pos rfl]
      exact ih
  | @rejected p p' best rest e mesh offers hplace hbest hdeploy hoffers ih =>
      obtain ⟨job, mesh', hok⟩ := h best.nodeId p.tick.mesh
      exact nomatch (Prod.mk.inj (hok.symm.trans hdeploy)).1

/-- How many of `launched` run on a host. -/
def launchedOn (launched : List ReplicaState) (nodeId : String) : ℕ :=
  launched.countP fun r ↦ r.nodeId = nodeId

theorem launchedOn_snoc (launched : List ReplicaState) (r : ReplicaState) (nodeId : String) :
    launchedOn (launched ++ [r]) nodeId =
      launchedOn launched nodeId + if r.nodeId = nodeId then 1 else 0 := by
  simp [launchedOn, List.countP_append, List.countP_cons]

/-- What is launched on distinct hosts adds up to all that is launched on them. -/
theorem sum_launchedOn {cands : List Candidate} (hnodup : (cands.map Candidate.nodeId).Nodup)
    {launched : List ReplicaState}
    (hon : ∀ r ∈ launched, r.nodeId ∈ cands.map Candidate.nodeId) :
    ∑ c ∈ cands.toFinset, launchedOn launched c.nodeId = launched.length := by
  induction launched using List.reverseRecOn with
  | nil => simp [launchedOn]
  | append_singleton launched r ih =>
      obtain ⟨c, hc, hrc⟩ := List.mem_map.mp (hon r (List.mem_append_right _ List.mem_cons_self))
      have hone : ∑ x ∈ cands.toFinset, (if r.nodeId = x.nodeId then 1 else 0) = 1 := by
        rw [Finset.sum_eq_single c, if_pos hrc.symm]
        · intro x hx hxc
          refine if_neg fun hrx ↦ hxc ?_
          exact List.inj_on_of_nodup_map hnodup (List.mem_toFinset.mp hx) hc
            (hrx.symm.trans hrc.symm)
        · exact fun hnot ↦ absurd (List.mem_toFinset.mpr hc) hnot
      simp only [launchedOn_snoc, Finset.sum_add_distrib, hone, List.length_append,
        List.length_singleton]
      rw [ih fun x hx ↦ hon x (List.mem_append_left _ hx)]

/-- The loop has launched `launched` since `t`, on the best slots of the candidates `cands`. -/
structure Spread (cands : List Candidate) (target : String) (t : TickState σ)
    (launched : List ReplicaState) (p : PlaceState σ) : Prop where
  candidates : p.candidates.Perm (cands.map fun c ↦ c.slot (launchedOn launched c.nodeId))
  sorted : p.candidates.Pairwise Candidate.Before
  best : BestTaken slotKey (cands.toFinset : Set Candidate) fun c ↦
    launchedOn launched c.nodeId
  placed : Placed target launched t p.tick
  on_hosts : ∀ r ∈ launched, r.nodeId ∈ cands.map Candidate.nodeId

namespace Spread

variable {cands : List Candidate} {target : String} {t : TickState σ}
  {launched : List ReplicaState} {p : PlaceState σ}

theorem refl {p : PlaceState σ} (hsorted : p.candidates.Pairwise Candidate.Before) :
    Spread p.candidates target p.tick [] p where
  candidates := by simp [launchedOn]
  sorted := hsorted
  best := BestTaken.zero
  placed := Placed.refl target p.tick
  on_hosts := by simp

/-- The head of the sorted list is no later than the next slot of any candidate. -/
theorem head_key_le (h : Spread cands target t launched p) {best : Candidate}
    {rest : List Candidate} (hbest : p.candidates = best :: rest) {a : Candidate} (ha : a ∈ cands) :
    best.key ≤ slotKey a (launchedOn launched a.nodeId) := by
  have hmem : a.slot (launchedOn launched a.nodeId) ∈ p.candidates :=
    h.candidates.mem_iff.mpr (List.mem_map_of_mem ha)
  have hsorted := h.sorted
  rw [hbest] at hmem hsorted
  rcases List.mem_cons.mp hmem with heq | hmem
  · exact (congrArg Candidate.key heq).ge
  · exact Candidate.before_iff.mp ((List.pairwise_cons.mp hsorted).1 _ hmem)

/-- A penalty moves one candidate on to its next slot. -/
theorem penalize_perm (h : Spread cands target t launched p)
    (hnodup : (cands.map Candidate.nodeId).Nodup) {nodeId : String} {launched' : List ReplicaState}
    (hcount : ∀ a : Candidate, launchedOn launched' a.nodeId =
      launchedOn launched a.nodeId + if nodeId = a.nodeId then 1 else 0) :
    (penalize nodeId p.candidates).Perm
      (cands.map fun c ↦ c.slot (launchedOn launched' c.nodeId)) := by
  have hnode : (p.candidates.map Candidate.nodeId).Perm (cands.map Candidate.nodeId) := by
    have hperm := h.candidates.map Candidate.nodeId
    rwa [List.map_map] at hperm
  rw [penalize_eq_map (hnode.nodup_iff.mpr hnodup)]
  refine (h.candidates.map _).trans (List.Perm.of_eq ?_)
  rw [List.map_map]
  refine List.map_congr_left fun a ha ↦ ?_
  rw [Function.comp_apply, Candidate.slot_nodeId, hcount]
  by_cases ha : a.nodeId = nodeId
  · rw [if_pos ha, if_pos ha.symm]
    exact Candidate.slot_succ.symm
  · rw [if_neg ha, if_neg (Ne.symm ha), Nat.add_zero]

/-- One more replica on the best candidate. -/
theorem accept (h : Spread cands target t launched p)
    (hnodup : (cands.map Candidate.nodeId).Nodup) {best : Candidate} {rest : List Candidate}
    (hbest : p.candidates = best :: rest) (job : String) (mesh : σ) :
    Spread cands target t (launched ++ [⟨job, best.nodeId, target, .pending⟩])
      (p.accept target best job mesh) := by
  obtain ⟨b, hb, hslot⟩ : ∃ b ∈ cands, b.slot (launchedOn launched b.nodeId) = best := by
    rw [← List.mem_map, ← h.candidates.mem_iff, hbest]
    exact List.mem_cons_self
  have hnode : b.nodeId = best.nodeId := by
    rw [← hslot, Candidate.slot_nodeId]
  have hcount : ∀ a : Candidate,
      launchedOn (launched ++ [⟨job, best.nodeId, target, .pending⟩]) a.nodeId =
        launchedOn launched a.nodeId + if best.nodeId = a.nodeId then 1 else 0 :=
    fun a ↦ launchedOn_snoc _ _ _
  refine ⟨?_, List.pairwise_insertionSort _ _, ?_, ?_, ?_⟩
  · exact (List.perm_insertionSort _ _).trans (h.penalize_perm hnodup hcount)
  · refine h.best.take (fun a _ ↦ slotKey_mono a) (b := b) (fun a ha ↦ ?_) ?_ fun a ha hab ↦ ?_
    · have hle := h.head_key_le hbest (List.mem_toFinset.mp ha)
      rwa [← hslot] at hle
    · rw [hcount, if_pos hnode.symm]
    · have hother : best.nodeId ≠ a.nodeId := fun heq ↦ hab
        (List.inj_on_of_nodup_map hnodup (List.mem_toFinset.mp ha) hb (heq.symm.trans hnode.symm))
      rw [hcount, if_neg hother, Nat.add_zero]
  · exact h.placed.trans ⟨rfl, rfl, rfl, by simp⟩
  · intro r hr
    rcases List.mem_append.mp hr with hr | hr
    · exact h.on_hosts r hr
    · rw [List.mem_singleton.mp hr]
      exact List.mem_map.mpr ⟨b, hb, hnode⟩

/-- A run of offers that are all taken. -/
theorem offers {driver : MeshDriver σ} {grant : Option String} {d : Deployment}
    {p' : PlaceState σ} {offers : List Offer} (h : Spread cands target t launched p)
    (hnodup : (cands.map Candidate.nodeId).Nodup)
    (hoffers : Offers driver grant d target p offers p') (hall : rejectedCount offers = 0) :
    ∃ more, more.length = takenCount offers ∧ Spread cands target t (launched ++ more) p' := by
  induction hoffers generalizing launched with
  | nil p => exact ⟨[], rfl, (List.append_nil launched).symm ▸ h⟩
  | @accepted p p' best rest job mesh offers hplace hbest hdeploy hoffers ih =>
      rw [rejectedCount_cons, if_pos rfl, Nat.add_zero] at hall
      obtain ⟨more, hlen, hmore⟩ := ih (h.accept hnodup hbest job mesh) hall
      rw [List.append_assoc] at hmore
      refine ⟨_, ?_, hmore⟩
      rw [takenCount_cons, if_pos rfl, ← hlen, List.length_append, Nat.add_comm]
      rfl
  | rejected hplace hbest hdeploy hoffers ih =>
      rw [rejectedCount_cons, if_neg Bool.false_ne_true] at hall
      exact absurd hall (Nat.succ_ne_zero _)

end Spread

/-- The cap leaves room for everything that is to place. -/
theorem PlaceState.toPlace_le_cap {p : PlaceState σ} (h : p.toPlace ≤ u32Max) :
    p.toPlace ≤ p.cap := by
  rw [cap, maxAttempts, saturatingMul]
  omega

/-- **When every deploy is accepted the loop takes the best slots**: it launches all that is
to place if there is a candidate at all. -/
theorem placeLoop_spread {driver : MeshDriver σ} {grant : Option String} {d : Deployment}
    {target : String} {p : PlaceState σ} (hplace : p.toPlace ≤ u32Max)
    (hsorted : p.candidates.Pairwise Candidate.Before)
    (hnodup : (p.candidates.map Candidate.nodeId).Nodup)
    (haccept : Accepting driver grant d target p) :
    ∃ launched p', Spread p.candidates target p.tick launched p' ∧
      (p.candidates ≠ [] → launched.length = p.toPlace) ∧
        (placeLoop driver grant d target p.cap p).settle.replicas =
          p.tick.replicas ++ launched := by
  obtain ⟨offers, p', hoffers, hle, hstop, hsettle⟩ :=
    placeLoop_offers driver grant d target p.cap p
  have hall := haccept offers p' hoffers hle
  obtain ⟨launched, hlen, hspread⟩ := (Spread.refl hsorted).offers hnodup hoffers hall
  refine ⟨launched, p', hspread, fun hsome ↦ ?_, ?_⟩
  · have htaken := hoffers.toPlace_eq
    have hhosts := hoffers.card_hosts_eq
    have hoffered := length_eq_takenCount_add offers
    have hcap := PlaceState.toPlace_le_cap hplace
    have hsome' : p'.candidates ≠ [] := by
      rw [Ne, ← PlaceState.card_hosts_eq_zero] at hsome ⊢
      omega
    rcases hle.lt_or_eq with hlt | heq
    · have hdone := (hstop hlt).resolve_right hsome'
      omega
    · omega
  · rw [hsettle]
    exact hspread.placed.replicas

namespace Controller

/-- The atlas a tick ranks. -/
def atlas [Sha256] (driver : MeshDriver σ) (d : Deployment) (c : Controller) (s : σ) :
    List AtlasEntry := (driver.atlas (c.afterSubstitutes driver d s).mesh).1.toOption.getD []

section Tick

variable [Sha256] {driver : MeshDriver σ} {d : Deployment} {c : Controller} {s : σ}
  {now : UInt64}

/-- What a tick launches when every deploy is accepted. -/
theorem tick_launched
    (hnodup : ((c.placing driver d s now).candidates.map Candidate.nodeId).Nodup)
    (haccept : Accepting driver c.grant d d.revision (c.placing driver d s now)) :
    ∃ launched, (c.tick driver d s now).2.1.replicas =
        (c.afterSubstitutes driver d s).replicas ++ launched ∧
      BestTaken slotKey ((c.placing driver d s now).candidates.toFinset : Set Candidate)
        (fun x ↦ launchedOn launched x.nodeId) ∧
        (∀ r ∈ launched, r.nodeId ∈ (c.placing driver d s now).candidates.map Candidate.nodeId) ∧
          ((c.planned driver d s).1.isReady = false → launched = []) ∧
            ((c.planned driver d s).1.isReady = true →
              (c.placing driver d s now).candidates ≠ [] →
                launched.length = (c.plan driver d s).toPlace) := by
  rw [(c.tick_eq driver d s now).1]
  by_cases hplaces : (c.planned driver d s).1.isReady = true ∧ 0 < (c.plan driver d s).toPlace
  · have hmax : (c.placing driver d s now).toPlace ≤ u32Max :=
      planStep_toPlace_le.trans ((Nat.sub_le _ _).trans (toNat_le_u32Max _))
    obtain ⟨launched, p', hspread, hlen, hreplicas⟩ :=
      placeLoop_spread hmax rank_sorted hnodup haccept
    rw [c.afterPlacements_eq driver d s hplaces.1 hplaces.2]
    refine ⟨launched, hreplicas, hspread.best, hspread.on_hosts, fun hclosed ↦ ?_,
      fun _ hsome ↦ hlen hsome⟩
    rw [hplaces.1] at hclosed
    exact absurd hclosed.symm Bool.false_ne_true
  · have hafter : c.afterPlacements driver d s now = c.afterSubstitutes driver d s := by
      rw [afterPlacements, place_eq, if_neg fun h ↦ hplaces ⟨h.2, h.1⟩]
    refine ⟨[], by rw [hafter, List.append_nil], BestTaken.zero, by simp, fun _ ↦ rfl, ?_⟩
    intro hready _
    exact (Nat.eq_zero_of_not_pos fun hpos ↦ hplaces ⟨hready, hpos⟩).symm

end Tick

/-- **A tick spreads its replicas**: when every deploy is accepted, no candidate that got a
replica had fewer points left for it than any other has now, so that candidates of equal
score differ by one replica at most. -/
theorem tick_spread [Sha256] (driver : MeshDriver σ) (d : Deployment) (c : Controller) (s : σ)
    (now : UInt64) (hnodup : ((c.placing driver d s now).candidates.map Candidate.nodeId).Nodup)
    (haccept : Accepting driver c.grant d d.revision (c.placing driver d s now)) :
    ∃ launched, (c.tick driver d s now).2.1.replicas =
        (c.afterSubstitutes driver d s).replicas ++ launched ∧
      ∀ a ∈ (c.placing driver d s now).candidates, ∀ b ∈ (c.placing driver d s now).candidates,
        (1 ≤ launchedOn launched b.nodeId →
          a.score - 150 * (launchedOn launched a.nodeId : ℤ) ≤
            b.score - 150 * ((launchedOn launched b.nodeId : ℤ) - 1)) ∧
          (a.score = b.score →
            launchedOn launched a.nodeId ≤ launchedOn launched b.nodeId + 1) := by
  obtain ⟨launched, hreplicas, hbest, _⟩ := tick_launched hnodup haccept
  refine ⟨launched, hreplicas, ?_⟩
  have hexchange : ∀ a ∈ (c.placing driver d s now).candidates,
      ∀ b ∈ (c.placing driver d s now).candidates, 1 ≤ launchedOn launched b.nodeId →
        a.score - 150 * (launchedOn launched a.nodeId : ℤ) ≤
          b.score - 150 * ((launchedOn launched b.nodeId : ℤ) - 1) := by
    intro a ha b hb hpos
    have hle := hbest a (by simpa using ha) b (by simpa using hb)
      (launchedOn launched b.nodeId - 1) (Nat.sub_lt hpos Nat.one_pos)
      (launchedOn launched a.nodeId) le_rfl
    rw [slotKey_le_iff] at hle
    omega
  intro a ha b hb
  refine ⟨hexchange a ha b hb, fun heq ↦ ?_⟩
  by_contra hlt
  have hless := hexchange b hb a ha (by omega)
  omega

/-- Three replicas on two hosts of the same size. -/
theorem tick_spread_twins :
    let hosts : List AtlasEntry :=
      [⟨"a", 8, 8192, 0, 0, fun _ ↦ true⟩, ⟨"b", 8, 8192, 0, 0, fun _ ↦ true⟩]
    let driver := pickyDriver hosts fun _ _ ↦ true
    let d : Deployment := { replicas := 3, resources := { cpuCores := 1, memMb := 64 } }
    ∃ launched, (@Controller.tick ℕ Deployment.nginxSha256 driver d {} 0 0).2.1.replicas =
        (@Controller.afterSubstitutes ℕ Deployment.nginxSha256 driver d {} 0).replicas ++
          launched ∧
      launchedOn launched "a" ≤ launchedOn launched "b" + 1 ∧
        launchedOn launched "b" ≤ launchedOn launched "a" + 1 := by
  intro hosts driver d
  obtain ⟨launched, hreplicas, hspread⟩ := @Controller.tick_spread ℕ Deployment.nginxSha256 driver
    d {} 0 0 (by decide +kernel) (accepting_of_forall fun _ _ ↦ ⟨_, _, rfl⟩)
  have ha : candidateOf d ⟨"a", 8, 8192, 0, 0, fun _ ↦ true⟩ ∈
      (@placing ℕ Deployment.nginxSha256 driver d {} 0 0).candidates := by decide +kernel
  have hb : candidateOf d ⟨"b", 8, 8192, 0, 0, fun _ ↦ true⟩ ∈
      (@placing ℕ Deployment.nginxSha256 driver d {} 0 0).candidates := by decide +kernel
  exact ⟨launched, hreplicas, (hspread _ ha _ hb).2 rfl, (hspread _ hb _ ha).2 rfl⟩

end Controller

/-! ## Room on the hosts -/

/-- The host with `n` more running jobs. -/
def AtlasEntry.charge (h : AtlasEntry) (n : ℕ) : AtlasEntry :=
  { h with runningJobs := UInt32.ofNat (min (h.runningJobs.toNat + n) u32Max) }

namespace AtlasEntry

variable {h : AtlasEntry}

@[simp] theorem charge_nodeId {n : ℕ} : (h.charge n).nodeId = h.nodeId := rfl

theorem toNat_runningJobs_charge {n : ℕ} :
    (h.charge n).runningJobs.toNat = min (h.runningJobs.toNat + n) u32Max := by
  rw [charge, UInt32.toNat_ofNat']
  exact Nat.mod_eq_of_lt (Nat.lt_succ_of_le (min_le_right _ _))

/-- Fewer jobs leave no less room. -/
theorem charge_atLeast {m n : ℕ} (hmn : m ≤ n) : (h.charge m).AtLeast (h.charge n) where
  nodeId := rfl
  cpuCores := UInt32.le_refl _
  memMb := UInt32.le_refl _
  runningJobs := by
    rw [UInt32.le_iff_toNat_le, toNat_runningJobs_charge, toNat_runningJobs_charge]
    exact min_le_min_right _ (Nat.add_le_add_left hmn _)
  lastSeenSecs := UInt64.le_refl _
  hasTag _ h := h

end AtlasEntry

/-- How many of the slots of the candidates come before a slot, of which each candidate is
asked for `n`. -/
def slotsBefore (cands : List Candidate) (n : ℕ) (x : Candidate) : ℕ :=
  offersBefore slotKey cands.toFinset n x.key

/-- The slots that are taken are those that few enough come before. -/
theorem lt_launchedOn_iff {cands : List Candidate} (hids : (cands.map Candidate.nodeId).Nodup)
    {launched : List ReplicaState} (hon : ∀ r ∈ launched, r.nodeId ∈ cands.map Candidate.nodeId)
    (hbest : BestTaken slotKey (cands.toFinset : Set Candidate) fun c ↦
      launchedOn launched c.nodeId) {x : Candidate} (hx : x ∈ cands) {j : ℕ} :
    j < launchedOn launched x.nodeId ↔
      slotsBefore cands launched.length (x.slot j) < launched.length := by
  have hiff := hbest.lt_taken_iff (fun a ha b hb i j h ↦ slotKey_inj hids
    (List.mem_toFinset.mp ha) (List.mem_toFinset.mp hb) h) (List.mem_toFinset.mpr hx) (i := j)
  rw [sum_launchedOn hids hon] at hiff
  exact hiff

/-- **When no host is over-committed**: each host that a tick launches `k` replicas on would
still fit one with `k - 1` more jobs, exactly when of the slots of the ranked hosts the best
ones, as many as the tick places, are all on hosts that still fit a replica then. -/
theorem Controller.no_overcommit_iff [Sha256] (driver : MeshDriver σ) (d : Deployment)
    (c : Controller) (s : σ) (now : UInt64)
    (hnodup : ((c.atlas driver d s).map AtlasEntry.nodeId).Nodup)
    (haccept : Accepting driver c.grant d d.revision (c.placing driver d s now)) :
    ∃ launched, (c.tick driver d s now).2.1.replicas =
        (c.afterSubstitutes driver d s).replicas ++ launched ∧
      ((∀ h ∈ c.atlas driver d s, 0 < launchedOn launched h.nodeId →
          hostCanFit (h.charge (launchedOn launched h.nodeId - 1)) d = true) ↔
        ((c.planned driver d s).1.isReady = true → ∀ h ∈ c.atlas driver d s,
          isFresh h now.toNat c.maxStaleSecs.toNat = true → hostCanFit h d = true → ∀ j,
            slotsBefore (c.placing driver d s now).candidates (c.plan driver d s).toPlace
              ((candidateOf d h).slot j) < (c.plan driver d s).toPlace →
                hostCanFit (h.charge j) d = true)) := by
  have hids : ((c.placing driver d s now).candidates.map Candidate.nodeId).Nodup :=
    nodup_rank hnodup
  obtain ⟨launched, hreplicas, hbest, hon, hclosed, hopen⟩ := tick_launched hids haccept
  refine ⟨launched, hreplicas, ?_⟩
  have htaken : (c.planned driver d s).1.isReady = true →
      ∀ x ∈ (c.placing driver d s now).candidates, ∀ j,
        j < launchedOn launched x.nodeId ↔
          slotsBefore (c.placing driver d s now).candidates (c.plan driver d s).toPlace
            (x.slot j) < (c.plan driver d s).toPlace := by
    intro hready x hx j
    rw [← hopen hready (List.ne_nil_of_mem hx)]
    exact lt_launchedOn_iff hids hon hbest hx
  constructor
  · intro hfits hready h hh hfresh hfit j hj
    have hx : candidateOf d h ∈ (c.placing driver d s now).candidates :=
      mem_rank.mpr ⟨h, hh, hfresh, hfit, rfl⟩
    have hlt := (htaken hready _ hx j).mpr hj
    rw [candidateOf_nodeId] at hlt
    exact (AtlasEntry.charge_atLeast (Nat.le_sub_one_of_lt hlt)).hostCanFit
      (hfits h hh (Nat.zero_lt_of_lt hlt))
  · intro hslots h hh hpos
    obtain ⟨r, hr, hnode⟩ := List.countP_pos_iff.mp hpos
    have hready : (c.planned driver d s).1.isReady = true := by
      rw [← Bool.not_eq_false]
      intro hnot
      rw [hclosed hnot] at hr
      exact List.not_mem_nil hr
    obtain ⟨x, hx, hxr⟩ := List.mem_map.mp (hon r hr)
    obtain ⟨h', hh', hfresh, hfit, rfl⟩ := mem_rank.mp hx
    obtain rfl : h' = h := List.inj_on_of_nodup_map hnodup hh' hh
      (hxr.trans (of_decide_eq_true hnode))
    exact hslots hready h' hh' hfresh hfit _
      ((htaken hready _ hx _).mp (Nat.sub_lt hpos Nat.one_pos))

/-- Three replicas on a host that has room for one. -/
theorem overcommitted :
    let host : AtlasEntry := ⟨"n", 1, 64, 0, 0, fun _ ↦ true⟩
    let driver := pickyDriver [host] fun _ _ ↦ true
    let d : Deployment :=
      { name := "web", nameSpace := "default", image := "nginx", replicas := 3
        resources := { cpuCores := 1, memMb := 64 } }
    let after := (@Controller.tick ℕ Deployment.nginxSha256 driver d {} 0 0).2.1.replicas
    d.validate = .ok () ∧
      (∀ d grant n, ∃ job n', driver.deploy "n" d grant n = (.ok job, n')) ∧
        after.map ReplicaState.nodeId = ["n", "n", "n"] ∧
          hostCanFit (host.charge (3 - 1)) d = false := by
  intro host driver d after
  refine ⟨by decide +kernel, ?_, by decide +kernel, by decide +kernel⟩
  exact fun d grant n ↦ ⟨_, _, rfl⟩

/-- Two replicas on two hosts that have room for one each: one on each of them, so that the two
best slots are on hosts that have the room. -/
theorem no_overcommit_pair :
    let hosts : List AtlasEntry :=
      [⟨"a", 1, 64, 0, 0, fun _ ↦ true⟩, ⟨"b", 1, 64, 0, 0, fun _ ↦ true⟩]
    let driver := pickyDriver hosts fun _ _ ↦ true
    let d : Deployment := { replicas := 2, resources := { cpuCores := 1, memMb := 64 } }
    let cands := (@Controller.placing ℕ Deployment.nginxSha256 driver d {} 0 0).candidates
    ∃ launched, (@Controller.tick ℕ Deployment.nginxSha256 driver d {} 0 0).2.1.replicas =
        (@Controller.afterSubstitutes ℕ Deployment.nginxSha256 driver d {} 0).replicas ++
          launched ∧
      launched.map ReplicaState.nodeId = ["a", "b"] ∧
      (∀ h ∈ hosts, 0 < launchedOn launched h.nodeId →
        hostCanFit (h.charge (launchedOn launched h.nodeId - 1)) d = true) ∧
      ∀ h ∈ hosts, ∀ j, slotsBefore cands 2 ((candidateOf d h).slot j) < 2 →
        hostCanFit (h.charge j) d = true := by
  intro hosts driver d cands
  obtain ⟨launched, hreplicas, hiff⟩ := @Controller.no_overcommit_iff ℕ Deployment.nginxSha256
    driver d {} 0 0 (by decide +kernel) (accepting_of_forall fun _ _ ↦ ⟨_, _, rfl⟩)
  have hnone : (@Controller.afterSubstitutes ℕ Deployment.nginxSha256 driver d {} 0).replicas =
      [] := by
    decide +kernel
  have hlaunched : launched =
      (@Controller.tick ℕ Deployment.nginxSha256 driver d {} 0 0).2.1.replicas := by
    rw [hreplicas, hnone, List.nil_append]
  have hfits : ∀ h ∈ hosts, 0 < launchedOn launched h.nodeId →
      hostCanFit (h.charge (launchedOn launched h.nodeId - 1)) d = true := by
    rw [hlaunched]
    decide +kernel
  refine ⟨launched, hreplicas, by rw [hlaunched]; decide +kernel, hfits, fun h hh ↦ ?_⟩
  exact hiff.mp hfits (by decide +kernel) h hh
    ((by decide +kernel : ∀ h ∈ hosts, isFresh h 0 120 = true) h hh)
    ((by decide +kernel : ∀ h ∈ hosts, hostCanFit h d = true) h hh)

end CeGke
