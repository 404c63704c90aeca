import CeGke.Lib.Lists
import CeGke.Placement
import Mathlib.Data.Prod.Lex

/-!
# The ranking

What `rank` of `src/placement.rs` computes: a candidate for each host that is fresh and
fits, best score first.  In exact arithmetic that is the ranking it is meant to be
(`IsRanking`) as long as the memory request survives its truncation to 32 bits, and a host
that gets better is never ranked lower (`rank_mono`).
-/

namespace CeGke

open Lib

/-! ## The order of candidates -/

/-- What candidates are sorted by. -/
def Candidate.key (c : Candidate) : ℤ ×ₗ String := toLex (-c.score, c.nodeId)

theorem Candidate.before_iff {a b : Candidate} : a.Before b ↔ a.key ≤ b.key := by
  rw [Candidate.key, Candidate.key, Prod.Lex.toLex_le_toLex, Int.neg_lt_neg_iff, Int.neg_inj]
  rfl

theorem Candidate.key_lt_iff {a b : Candidate} :
    a.key < b.key ↔ b.score < a.score ∨ a.score = b.score ∧ a.nodeId < b.nodeId := by
  rw [Candidate.key, Candidate.key, Prod.Lex.toLex_lt_toLex, Int.neg_lt_neg_iff, Int.neg_inj]

theorem Candidate.nodeId_eq_of_key_eq {a b : Candidate} (h : a.key = b.key) :
    a.nodeId = b.nodeId := (Prod.mk.inj (toLex_inj.mp h)).2

instance : Std.Total Candidate.Before where
  total a b := by
    rw [Candidate.before_iff, Candidate.before_iff]
    exact le_total a.key b.key

instance : IsTrans Candidate Candidate.Before where
  trans a b c hab hbc := by
    rw [Candidate.before_iff] at hab hbc ⊢
    exact hab.trans hbc

/-- A sorted list of candidates on distinct hosts is strictly sorted. -/
theorem pairwise_key_lt {l : List Candidate} (hsorted : l.Pairwise Candidate.Before)
    (hnodup : (l.map Candidate.nodeId).Nodup) : l.Pairwise fun a b ↦ a.key < b.key := by
  refine List.Pairwise.imp₂ (fun a b hab hne ↦ ?_) hsorted (List.pairwise_map.mp hnodup)
  exact lt_of_le_of_ne (Candidate.before_iff.mp hab) fun h ↦ hne (Candidate.nodeId_eq_of_key_eq h)

/-! ## What is ranked -/

section Rank

variable {atlas : List AtlasEntry} {d : Deployment} {now stale : ℕ}

theorem rank_perm : (rank atlas d now stale).Perm
    (((atlas.filter fun h ↦ isFresh h now stale).filter fun h ↦ hostCanFit h d).map
      (candidateOf d)) := List.perm_insertionSort _ _

theorem rank_sorted : (rank atlas d now stale).Pairwise Candidate.Before :=
  List.pairwise_insertionSort _ _

theorem mem_rank {c : Candidate} : c ∈ rank atlas d now stale ↔
    ∃ h ∈ atlas, isFresh h now stale = true ∧ hostCanFit h d = true ∧ candidateOf d h = c := by
  rw [rank_perm.mem_iff, List.mem_map]
  simp only [List.mem_filter]
  constructor
  · rintro ⟨h, ⟨⟨hmem, hfresh⟩, hfits⟩, hc⟩
    exact ⟨h, hmem, hfresh, hfits, hc⟩
  · rintro ⟨h, hmem, hfresh, hfits, hc⟩
    exact ⟨h, ⟨⟨hmem, hfresh⟩, hfits⟩, hc⟩

/-- Counting ranked candidates is counting hosts. -/
theorem countP_rank (p : Candidate → Bool) : (rank atlas d now stale).countP p =
    atlas.countP fun h ↦ p (candidateOf d h) && (hostCanFit h d && isFresh h now stale) := by
  rw [rank_perm.countP_eq, List.countP_map, List.countP_filter, List.countP_filter]
  simp only [Function.comp_apply, Bool.and_assoc]

@[simp] theorem candidateOf_nodeId (h : AtlasEntry) : (candidateOf d h).nodeId = h.nodeId := rfl

@[simp] theorem candidateOf_score (h : AtlasEntry) : (candidateOf d h).score = scoreHost h d :=
  rfl

/-- Distinct hosts make distinct candidates. -/
theorem nodup_rank (hnodup : (atlas.map AtlasEntry.nodeId).Nodup) :
    ((rank atlas d now stale).map Candidate.nodeId).Nodup := by
  rw [(rank_perm.map _).nodup_iff, List.map_map]
  exact hnodup.sublist ((List.filter_sublist.trans List.filter_sublist).map _)

theorem rank_pairwise (hnodup : (atlas.map AtlasEntry.nodeId).Nodup) :
    (rank atlas d now stale).Pairwise fun a b ↦ a.key < b.key :=
  pairwise_key_lt rank_sorted (nodup_rank hnodup)

end Rank

/-! ## The exact ranking -/

/-- What a host has left when each of its jobs is charged one replica, in exact arithmetic. -/
def exactFree (host : AtlasEntry) (d : Deployment) : ℕ × ℕ :=
  (host.cpuCores.toNat - host.runningJobs.toNat * d.resources.cpuCores.toNat,
    host.memMb.toNat - host.runningJobs.toNat * d.resources.memMb.toNat)

/-- The candidate a host makes in exact arithmetic. -/
def exactCandidate (d : Deployment) (host : AtlasEntry) : Candidate where
  nodeId := host.nodeId
  score := (exactFree host d).1 * 100 + (exactFree host d).2 - host.runningJobs.toNat * 50
  freeCpu := (exactFree host d).1
  freeMemMb := (exactFree host d).2

/-- One more replica fits on the host. -/
def Fits (host : AtlasEntry) (d : Deployment) : Prop :=
  d.resources.cpuCores.toNat ≤ (exactFree host d).1 ∧
    d.resources.memMb.toNat ≤ (exactFree host d).2

/-- What `rank` is for: the candidates of the fresh hosts that have the tags and the room,
by decreasing score and then by node id. -/
structure IsRanking (atlas : List AtlasEntry) (d : Deployment) (now stale : ℕ)
    (l : List Candidate) : Prop where
  mem : ∀ c, c ∈ l ↔ ∃ h ∈ atlas, isFresh h now stale = true ∧
    hostMatchesTags h d.requiredTags = true ∧ Fits h d ∧ exactCandidate d h = c
  sorted : l.Pairwise fun a b ↦
    b.score < a.score ∨ a.score = b.score ∧ a.nodeId < b.nodeId

/-- Saturation does not show below the bound. -/
theorem sub_saturatingMul {n : ℕ} (hn : n ≤ u32Max) (a b : ℕ) :
    n - saturatingMul a b = n - a * b := by
  rw [saturatingMul]
  omega

theorem toNat_le_u32Max (n : UInt32) : n.toNat ≤ u32Max := Nat.le_pred_of_lt n.toNat_lt

section Exact

variable {d : Deployment} {h : AtlasEntry} {now stale : ℕ}

theorem hostCanFit_iff : hostCanFit h d = true ↔ hostMatchesTags h d.requiredTags = true ∧
    d.resources.cpuCores.toNat ≤ (freeFor h d).1 ∧
      asU32 d.resources.memMb.toNat ≤ (freeFor h d).2 := by
  unfold hostCanFit
  split_ifs with htags
  · simp [htags]
  · simp [htags]

/-- A validated request is charged as it is, once it has survived the truncation. -/
theorem freeFor_eq_exactFree (hvalid : d.Valid) (hmem : d.resources.memMb.toNat < 2 ^ 32) :
    freeFor h d = exactFree h d := by
  have hcpu : max d.resources.cpuCores.toNat 1 = d.resources.cpuCores.toNat := by
    apply max_eq_left
    exact Nat.pos_of_ne_zero fun h0 ↦ hvalid.cpuCores_ne (UInt32.toNat_inj.mp h0)
  have hmem' : max (asU32 d.resources.memMb.toNat) 1 = d.resources.memMb.toNat := by
    rw [asU32, Nat.mod_eq_of_lt hmem]
    apply max_eq_left
    exact Nat.pos_of_ne_zero fun h0 ↦ hvalid.memMb_ne (UInt64.toNat_inj.mp h0)
  rw [freeFor, freeCapacity, exactFree, hcpu, hmem', sub_saturatingMul (toNat_le_u32Max _),
    sub_saturatingMul (toNat_le_u32Max _)]

theorem candidateOf_eq_exactCandidate (hvalid : d.Valid)
    (hmem : d.resources.memMb.toNat < 2 ^ 32) : candidateOf d h = exactCandidate d h := by
  simp only [candidateOf, scoreHost, freeFor_eq_exactFree hvalid hmem]
  rfl

theorem hostCanFit_iff_fits (hvalid : d.Valid) (hmem : d.resources.memMb.toNat < 2 ^ 32) :
    hostCanFit h d = true ↔ hostMatchesTags h d.requiredTags = true ∧ Fits h d := by
  rw [hostCanFit_iff, freeFor_eq_exactFree hvalid hmem, asU32, Nat.mod_eq_of_lt hmem]
  rfl

/-- No host has room for a request of more than 32 bits. -/
theorem not_fits_of_le (hmem : 2 ^ 32 ≤ d.resources.memMb.toNat) : ¬ Fits h d := by
  rintro ⟨_, hfits⟩
  have hle : (exactFree h d).2 < 2 ^ 32 := (Nat.sub_le _ _).trans_lt h.memMb.toNat_lt
  exact absurd (hmem.trans hfits) (Nat.not_le_of_lt hle)

end Exact

/-- The order of the atlas does not matter. -/
theorem rank_congr {atlas atlas' : List AtlasEntry} {d : Deployment} {now stale : ℕ}
    (hnodup : (atlas.map AtlasEntry.nodeId).Nodup) (hperm : atlas'.Perm atlas) :
    rank atlas' d now stale = rank atlas d now stale := by
  have hnodup' : (atlas'.map AtlasEntry.nodeId).Nodup := (hperm.map _).nodup_iff.mpr hnodup
  have hrank : (rank atlas' d now stale).Perm (rank atlas d now stale) :=
    rank_perm.trans ((((hperm.filter _).filter _).map _).trans rank_perm.symm)
  refine hrank.eq_of_pairwise (fun a b _ _ hab hba ↦ ?_) (rank_pairwise hnodup')
    (rank_pairwise hnodup)
  exact absurd hba hab.asymm

/-- **`rank` is its specification in exact arithmetic**, whatever the order of the atlas,
exactly when the memory request is below 2³² MiB or what is left of it after truncation
fits on no host either. -/
theorem rank_isRanking_iff (atlas : List AtlasEntry) (d : Deployment) (now stale : ℕ)
    (hnodup : (atlas.map AtlasEntry.nodeId).Nodup) (hvalid : d.validate = .ok ()) :
    (IsRanking atlas d now stale (rank atlas d now stale) ∧
        ∀ atlas' : List AtlasEntry, atlas'.Perm atlas →
          rank atlas' d now stale = rank atlas d now stale) ↔
      d.resources.memMb.toNat < 2 ^ 32 ∨
        ∀ h ∈ atlas, isFresh h now stale = true → hostCanFit h d = false := by
  rw [Deployment.validate_eq_ok] at hvalid
  have hsorted : (rank atlas d now stale).Pairwise fun a b ↦
      b.score < a.score ∨ a.score = b.score ∧ a.nodeId < b.nodeId :=
    (rank_pairwise hnodup).imp fun {a b} hab ↦ Candidate.key_lt_iff.mp hab
  constructor
  · rintro ⟨hranking, _⟩
    rw [or_iff_not_imp_left, not_lt]
    intro hmem h hh hfresh
    rw [← Bool.not_eq_true]
    intro hfits
    obtain ⟨h', _, _, _, hfits', _⟩ :=
      (hranking.mem _).mp (mem_rank.mpr ⟨h, hh, hfresh, hfits, rfl⟩)
    exact not_fits_of_le hmem hfits'
  · intro hcond
    refine ⟨⟨fun c ↦ ?_, hsorted⟩, fun atlas' hperm ↦ rank_congr hnodup hperm⟩
    by_cases hmem : d.resources.memMb.toNat < 2 ^ 32
    · simp only [mem_rank, hostCanFit_iff_fits hvalid hmem,
        candidateOf_eq_exactCandidate hvalid hmem, and_assoc]
    · have hnone := hcond.resolve_left hmem
      rw [mem_rank]
      constructor
      · rintro ⟨h, hh, hfresh, hfits, _⟩
        rw [hnone h hh hfresh] at hfits
        exact absurd hfits Bool.false_ne_true
      · rintro ⟨h, _, _, _, hfits, _⟩
        exact absurd hfits (not_fits_of_le (not_lt.mp hmem))

/-- A request whose memory is one MiB after truncation. -/
def hugeMemory : Deployment where
  name := "web"
  nameSpace := "default"
  image := "nginx"
  resources := { cpuCores := 1, memMb := 4294967297 }

/-- A host of one core and one MiB. -/
def smallHost : AtlasEntry := ⟨"n", 1, 1, 0, 0, fun _ ↦ true⟩

/-- The small host is ranked for four pebibytes of memory. -/
theorem rank_hugeMemory_not_isRanking :
    hugeMemory.validate = .ok () ∧ (([smallHost].map AtlasEntry.nodeId).Nodup) ∧
      ¬ IsRanking [smallHost] hugeMemory 0 0 (rank [smallHost] hugeMemory 0 0) := by
  refine ⟨by decide +kernel, by decide, fun h ↦ ?_⟩
  have hranked : candidateOf hugeMemory smallHost ∈ rank [smallHost] hugeMemory 0 0 :=
    mem_rank.mpr ⟨smallHost, List.mem_singleton_self _, by decide, by decide, rfl⟩
  obtain ⟨h', _, _, _, hfits, _⟩ := (h.mem _).mp hranked
  exact not_fits_of_le (by decide) hfits

theorem rank_isRanking_small :
    (IsRanking [smallHost] { hugeMemory with resources := { cpuCores := 1, memMb := 1 } } 0 0
        (rank [smallHost] { hugeMemory with resources := { cpuCores := 1, memMb := 1 } } 0 0) ∧
      ∀ atlas' : List AtlasEntry, atlas'.Perm [smallHost] →
        rank atlas' { hugeMemory with resources := { cpuCores := 1, memMb := 1 } } 0 0 =
          rank [smallHost] { hugeMemory with resources := { cpuCores := 1, memMb := 1 } } 0 0) :=
  (rank_isRanking_iff [smallHost] { hugeMemory with resources := { cpuCores := 1, memMb := 1 } }
    0 0 (by decide) (by decide +kernel)).mpr (Or.inl (by decide))

/-! ## Better hosts -/

/-- The same host with no less of anything. -/
structure AtlasEntry.AtLeast (h' h : AtlasEntry) : Prop where
  nodeId : h'.nodeId = h.nodeId
  cpuCores : h.cpuCores ≤ h'.cpuCores
  memMb : h.memMb ≤ h'.memMb
  runningJobs : h'.runningJobs ≤ h.runningJobs
  lastSeenSecs : h.lastSeenSecs ≤ h'.lastSeenSecs
  hasTag : ∀ tag, h.hasTag tag = true → h'.hasTag tag = true

namespace AtlasEntry.AtLeast

variable {h' h : AtlasEntry} (hle : h'.AtLeast h) {d : Deployment} {now stale : ℕ}

include hle

theorem isFresh (hfresh : CeGke.isFresh h now stale = true) :
    CeGke.isFresh h' now stale = true := by
  simp only [CeGke.isFresh, decide_eq_true_eq] at hfresh ⊢
  have hseen : h.lastSeenSecs.toNat ≤ h'.lastSeenSecs.toNat := hle.lastSeenSecs
  omega

theorem freeFor : (CeGke.freeFor h d).1 ≤ (CeGke.freeFor h' d).1 ∧
    (CeGke.freeFor h d).2 ≤ (CeGke.freeFor h' d).2 := by
  have hused : ∀ n, saturatingMul h'.runningJobs.toNat n ≤ saturatingMul h.runningJobs.toNat n :=
    fun n ↦ min_le_min_right _ (Nat.mul_le_mul_right n hle.runningJobs)
  exact ⟨tsub_le_tsub hle.cpuCores (hused _), tsub_le_tsub hle.memMb (hused _)⟩

theorem hostCanFit (hfits : CeGke.hostCanFit h d = true) : CeGke.hostCanFit h' d = true := by
  rw [hostCanFit_iff] at hfits ⊢
  obtain ⟨htags, hcpu, hmem⟩ := hfits
  refine ⟨?_, hcpu.trans hle.freeFor.1, hmem.trans hle.freeFor.2⟩
  rw [hostMatchesTags, List.all_eq_true] at htags ⊢
  exact fun tag htag ↦ hle.hasTag tag (htags tag htag)

theorem scoreHost : CeGke.scoreHost h d ≤ CeGke.scoreHost h' d := by
  obtain ⟨hcpu, hmem⟩ := hle.freeFor (d := d)
  have hjobs : h'.runningJobs.toNat ≤ h.runningJobs.toNat := hle.runningJobs
  simp only [CeGke.scoreHost]
  omega

/-- A better host makes a candidate that does not come later. -/
theorem key_le : (candidateOf d h').key ≤ (candidateOf d h).key := by
  rw [← Candidate.before_iff]
  rcases hle.scoreHost.lt_or_eq with hlt | heq
  · exact Or.inl hlt
  · exact Or.inr ⟨heq.symm, hle.nodeId.le⟩

end AtlasEntry.AtLeast

/-- **The ranking is monotone in the host**: a host that gets better stays in the ranking
and does not move to a later position. -/
theorem rank_mono (d : Deployment) (now stale : ℕ) (before after : List AtlasEntry)
    (h h' : AtlasEntry) (hnodup : ((before ++ h :: after).map AtlasEntry.nodeId).Nodup)
    (hle : h'.AtLeast h) (i : ℕ) (c : Candidate)
    (hc : (rank (before ++ h :: after) d now stale)[i]? = some c) (hnode : c.nodeId = h.nodeId) :
    ∃ j ≤ i, ∃ c', (rank (before ++ h' :: after) d now stale)[j]? = some c' ∧
      c'.nodeId = h.nodeId := by
  have hnodup' : ((before ++ h' :: after).map AtlasEntry.nodeId).Nodup := by
    rwa [List.map_append, List.map_cons, hle.nodeId, ← List.map_cons, ← List.map_append]
  -- The candidate is the one of `h`, as no other host has its node id.
  obtain ⟨x, hx, hfresh, hfits, rfl⟩ := mem_rank.mp (List.mem_of_getElem? hc)
  obtain rfl := List.inj_on_of_nodup_map hnodup hx
    (List.mem_append_right _ List.mem_cons_self) hnode
  have hasymm : ∀ a b : Candidate, a.key < b.key → ¬ b.key < a.key := fun a b hab ↦ hab.asymm
  have hmem' : candidateOf d h' ∈ rank (before ++ h' :: after) d now stale :=
    mem_rank.mpr ⟨h', List.mem_append_right _ List.mem_cons_self, hle.isFresh hfresh,
      hle.hostCanFit hfits, rfl⟩
  refine ⟨_, ?_, _, getElem?_countP_rel hasymm (rank_pairwise hnodup') hmem', hle.nodeId⟩
  -- Both positions count the hosts ahead, and whoever is ahead of the better host was ahead.
  rw [← countP_rel_of_getElem? hasymm (rank_pairwise hnodup) hc, countP_rank, countP_rank,
    List.countP_append, List.countP_append, List.countP_cons_of_neg (by simp),
    List.countP_cons_of_neg (by simp)]
  have hahead : ∀ y : AtlasEntry,
      (decide ((candidateOf d y).key < (candidateOf d h').key) &&
        (hostCanFit y d && isFresh y now stale)) = true →
      (decide ((candidateOf d y).key < (candidateOf d x).key) &&
        (hostCanFit y d && isFresh y now stale)) = true := by
    intro y hy
    rw [Bool.and_eq_true, decide_eq_true_eq] at hy ⊢
    exact ⟨hy.1.trans_le hle.key_le, hy.2⟩
  exact Nat.add_le_add (List.countP_mono_left fun y _ ↦ hahead y)
    (List.countP_mono_left fun y _ ↦ hahead y)

/-- A host of two cores that is ranked second, and that gets two more. -/
theorem rank_mono_grown :
    ∃ j ≤ 1, ∃ c', (rank ([⟨"a", 3, 64, 0, 0, fun _ ↦ true⟩] ++
        (⟨"b", 4, 64, 0, 0, fun _ ↦ true⟩ : AtlasEntry) :: [])
      { resources := { cpuCores := 1, memMb := 64 } } 0 0)[j]? = some c' ∧ c'.nodeId = "b" :=
  rank_mono { resources := { cpuCores := 1, memMb := 64 } } 0 0
    [⟨"a", 3, 64, 0, 0, fun _ ↦ true⟩] [] ⟨"b", 2, 64, 0, 0, fun _ ↦ true⟩
    ⟨"b", 4, 64, 0, 0, fun _ ↦ true⟩ (by decide)
    ⟨rfl, by decide, by decide, by decide, by decide, fun _ h ↦ h⟩ 1
    ⟨"b", 264, 2, 64⟩ (by decide) rfl

end CeGke
