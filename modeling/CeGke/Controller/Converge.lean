import CeGke.Controller.Misses
import CeGke.Controller.Serving
import Std.Data.String.ToNat

/-!
# The controller converges

The planner converges if all that it asks for happens (`planner_converges`), and on a mesh that
serves it does.  So a controller that is ticked there reaches a done tick, and what is left then
is what was asked for (`Controller.converge_served`).
-/

namespace CeGke

open Lib

variable {σ : Type}

/-- The mesh knows the tracked replicas, each on its host, and runs `base` jobs more. -/
structure MeshView.Holds (v : MeshView σ) (base : ℕ) (l : List ReplicaState) (s : σ) : Prop where
  sound : v.sound s
  nodup : (jobIds l).Nodup
  known : ∀ r ∈ l, v.Knows s r
  load : v.load s ≤ base + l.length

/-- The order does not matter. -/
theorem MeshView.Holds.perm {v : MeshView σ} {base : ℕ} {l l' : List ReplicaState} {s : σ}
    (h : v.Holds base l s) (hperm : l.Perm l') : v.Holds base l' s where
  sound := h.sound
  nodup := (hperm.map _).nodup_iff.mp h.nodup
  known r hr := h.known r (hperm.mem_iff.mpr hr)
  load := hperm.length_eq ▸ h.load

/-- After a while the mesh knows them still. -/
theorem MeshView.Holds.settle {v : MeshView σ} {base : ℕ} {l : List ReplicaState} {s : σ}
    {between : σ → σ} (h : v.Holds base l s) (hbetween : v.Settles between) :
    v.Holds base l (between s) where
  sound := (hbetween.moves s h.sound).sound
  nodup := h.nodup
  known r hr := hbetween.knows h.sound (h.known r hr)
  load := (hbetween.moves s h.sound).load.trans h.load

/-- While the replicas `l` became `l'` no service was lost, and of a job that is not of theirs no
more can be seen than that it has come up. -/
structure MeshView.Keeps (v : MeshView σ) (l : List ReplicaState) (s : σ) (l' : List ReplicaState)
    (s' : σ) : Prop where
  live : ∀ service, v.live s service → v.live s' service
  others : ∀ {job e}, job ∉ jobIds l → v.jobs s job = some e →
    job ∉ jobIds l' ∧ (v.jobs s' job = some e ∨ v.jobs s' job = some (jobUp e))

theorem jobUp_jobUp (e : String × Phase) : jobUp (jobUp e) = jobUp e := by
  simp [jobUp]

namespace MeshView.Keeps

variable {v : MeshView σ} {l l' l'' : List ReplicaState} {s s' s'' : σ} {r : ReplicaState}

theorem refl (v : MeshView σ) (l : List ReplicaState) (s : σ) : v.Keeps l s l s :=
  ⟨fun _ ↦ id, fun hjob he ↦ ⟨hjob, Or.inl he⟩⟩

theorem trans (h : v.Keeps l s l' s') (h' : v.Keeps l' s' l'' s'') : v.Keeps l s l'' s'' where
  live service hlive := h'.live service (h.live service hlive)
  others hjob he := by
    obtain ⟨hjob', he | he⟩ := h.others hjob he
    · exact h'.others hjob' he
    · obtain ⟨hjob'', he' | he'⟩ := h'.others hjob' he
      · exact ⟨hjob'', Or.inr he'⟩
      · exact ⟨hjob'', Or.inr (he'.trans (congrArg some (jobUp_jobUp _)))⟩

theorem settles {between : σ → σ} (hbetween : v.Settles between) (hs : v.sound s)
    (l : List ReplicaState) : v.Keeps l s l (between s) where
  live := (hbetween.moves s hs).live
  others hjob he := by
    refine ⟨hjob, Or.inr ?_⟩
    simp only [(hbetween.moves s hs).jobs, he, Option.map_some]

/-- A replica that is not of theirs stays on its host. -/
theorem knows (h : v.Keeps l s l' s') (hjob : r.jobId ∉ jobIds l) (hr : v.Knows s r) :
    v.Knows s' r := by
  obtain ⟨p, hp⟩ := hr
  rcases (h.others hjob hp).2 with he | he
  · exact ⟨p, he⟩
  · exact ⟨p.comeUp, he⟩

/-- If it has come up, it stays as it is. -/
theorem jobs_eq (h : v.Keeps l s l' s') {job : String} {e : String × Phase}
    (hjob : job ∉ jobIds l) (he : v.jobs s job = some e) (hup : jobUp e = e) :
    v.jobs s' job = some e := by
  rcases (h.others hjob he).2 with he' | he'
  · exact he'
  · exact he'.trans (congrArg some hup)

end MeshView.Keeps

section Frame

variable {v : MeshView σ} {base : ℕ} {l l' others : List ReplicaState} {s s' : σ}

/-- A part of what the mesh knows. -/
theorem MeshView.Holds.part (h : v.Holds base (l ++ others) s) :
    v.Holds (base + others.length) l s where
  sound := h.sound
  nodup := by
    have hnodup := h.nodup
    rw [jobIds_append] at hnodup
    exact hnodup.of_append_left
  known r hr := h.known r (List.mem_append_left _ hr)
  load := by
    have hload := h.load
    rw [List.length_append] at hload
    omega

/-- No job of a part is one of the rest. -/
theorem MeshView.Holds.notMem_part (h : v.Holds base (l ++ others) s) {r : ReplicaState}
    (hr : r ∈ others) : r.jobId ∉ jobIds l := by
  have hnodup := h.nodup
  rw [jobIds_append, List.nodup_append'] at hnodup
  exact fun hmem ↦ hnodup.2.2 hmem (mem_jobIds.mpr ⟨r, hr, rfl⟩)

/-- What becomes of a part leaves the rest on its hosts. -/
theorem MeshView.Holds.frame (h : v.Holds base (l ++ others) s)
    (h' : v.Holds (base + others.length) l' s') (hkeeps : v.Keeps l s l' s') :
    v.Holds base (l' ++ others) s' := by
  have hothers : ∀ r ∈ others, r.jobId ∉ jobIds l' ∧ v.Knows s' r := by
    intro r hr
    have hknown := h.known r (List.mem_append_right _ hr)
    exact ⟨(hkeeps.others (h.notMem_part hr) hknown.jobs_eq).1,
      hkeeps.knows (h.notMem_part hr) hknown⟩
  have hnodup := h.nodup
  rw [jobIds_append, List.nodup_append'] at hnodup
  refine ⟨h'.sound, ?_,
    List.forall_mem_append.mpr ⟨h'.known, fun r hr ↦ (hothers r hr).2⟩, ?_⟩
  · rw [jobIds_append, List.nodup_append']
    refine ⟨h'.nodup, hnodup.2.1, fun job hjob hmem ↦ ?_⟩
    obtain ⟨r, hr, rfl⟩ := mem_jobIds.mp hmem
    exact (hothers r hr).1 hjob
  · have hload := h'.load
    rw [List.length_append]
    omega

end Frame

section Served

variable [Sha256] {v : MeshView σ} {between : σ → σ} {d : Deployment}
  {l placed after : List ReplicaState} {ready : Bool} {s s' : σ} {report : TickReport} {base : ℕ}

/-- A tick leaves the jobs that are not of its replicas as they are. -/
theorem Served.untouched (h : Served v d l placed ready s report after s') {job : String}
    (hjob : job ∉ jobIds l) (hsome : v.jobs s job ≠ none) :
    job ∉ jobIds after ∧ v.jobs s' job = v.jobs s job := by
  have hplaced : job ∉ jobIds placed := by
    intro hmem
    obtain ⟨r, hr, rfl⟩ := mem_jobIds.mp hmem
    exact (h.fresh r hr).elim hsome hjob
  refine ⟨?_, h.kept job hjob hplaced⟩
  rw [h.replicas, jobIds_append, List.mem_append, not_or]
  exact ⟨fun hmem ↦ hjob (jobIds_survivors_subset hmem), hplaced⟩

/-- So it launches no job that exists, and kills none that it does not track. -/
theorem Served.keeps {c : List ReplicaState}
    (h : Served v d (c.map (v.found s)) placed ready s report after s') :
    v.Keeps c s after s' where
  live := h.live
  others hjob he := by
    obtain ⟨hjob', hsame⟩ := h.untouched (by rwa [MeshView.jobIds_map_found])
      (fun hnone ↦ absurd (hnone.symm.trans he) (by simp))
    exact ⟨hjob', Or.inl (hsame.trans he)⟩

/-- What is tracked after a tick is known to the mesh. -/
theorem Served.holds (h : Served v d l placed ready s report after s')
    (hload : v.load s ≤ base + l.length) : v.Holds base after s' where
  sound := h.sound
  nodup := h.nodup
  known r hr := MeshView.knows_of_up (h.up r hr)
  load := h.load base hload

/-- A tick whose gate is open is a turn of the planner. -/
theorem Served.turn (h : Served v d l placed true s report after s') :
    Turn d d.revision l (after.map comeUp) :=
  ⟨placed, h.length, h.pending, h.replicas ▸ h.nodup, by rw [h.replicas]⟩

/-- What the next refresh finds, once what was launched has come up. -/
theorem Served.found_eq (h : Served v d l placed ready s report after s')
    (hbetween : v.Settles between) :
    after.map (v.found (between s')) = after.map comeUp := hbetween.found_eq h.sound h.up

end Served

/-- From `s` to `s'` the deployment has been reconciled: `before` was tracked of it, `replicas` is
what was asked for, the mesh runs it on its hosts, and at most `spent` job ids were handed out.
Its service can be found, if the mesh announces services. -/
structure Reconciled [Sha256] (v : MeshView σ) (base : ℕ) (d : Deployment) (spent : ℕ)
    (before : List ReplicaState) (s : σ) (replicas : List ReplicaState) (s' : σ) : Prop where
  converged : Converged d d.revision replicas
  running : ∀ r ∈ replicas, v.jobs s' r.jobId = some (r.nodeId, .running)
  holds : v.Holds base replicas s'
  keeps : v.Keeps before s replicas s'
  announced : v.announces → d.replicas ≠ 0 → ∀ service ∈ d.serviceName, v.live s' service
  issued : v.issued s' ≤ v.issued s + spent

section Done

variable [Sha256] {v : MeshView σ} {d : Deployment} {l placed after : List ReplicaState} {s s' : σ}
  {report : TickReport}

/-- A tick that carries out a plan that is done launches nothing. -/
theorem Served.placed_eq_nil (h : Served v d l placed true s report after s')
    (hdone : (planStep d l d.revision).done = true) : placed = [] :=
  List.eq_nil_of_length_eq_zero (h.length.trans (atStrength_of_done hdone).toPlace_eq)

/-- What it leaves is what was asked for. -/
theorem Served.converged (h : Served v d l placed true s report after s') (hl : (jobIds l).Nodup)
    (hdone : (planStep d l d.revision).done = true) : Converged d d.revision after := by
  have hafter := h.replicas
  rw [h.placed_eq_nil hdone, List.append_nil] at hafter
  obtain ⟨hlen, hall⟩ := survivors_of_done hl hdone
  exact hafter ▸ ⟨hlen, fun r hr ↦ (hall r hr).1, fun r hr ↦ (hall r hr).2⟩

/-- Then the service can be found. -/
theorem Served.announced_of_converged (h : Served v d l placed true s report after s')
    (hconverged : Converged d d.revision after) (hannounces : v.announces) (hne : d.replicas ≠ 0) :
    ∀ service ∈ d.serviceName, v.live s' service := by
  have hpos : 0 < after.length := by
    rw [hconverged.length]
    exact Nat.pos_of_ne_zero fun hzero ↦ hne (UInt32.toNat_inj.mp hzero)
  obtain ⟨r, hr⟩ := List.exists_mem_of_length_pos hpos
  exact h.announced hannounces ⟨r, hr, hconverged.running r hr⟩ rfl

/-- So the deployment has been reconciled. -/
theorem Served.reconciled {c : List ReplicaState} {base : ℕ}
    (h : Served v d (c.map (v.found s)) placed true s report after s') (hc : (jobIds c).Nodup)
    (hdone : (planStep d (c.map (v.found s)) d.revision).done = true)
    (hload : v.load s ≤ base + c.length) : Reconciled v base d 0 c s after s' := by
  have hconverged := h.converged (by rwa [MeshView.jobIds_map_found]) hdone
  have hafter := h.replicas
  rw [h.placed_eq_nil hdone, List.append_nil] at hafter
  refine ⟨hconverged, fun r hr ↦ ?_, h.holds (by rwa [List.length_map]), h.keeps,
    h.announced_of_converged hconverged, ?_⟩
  · rw [h.surviving r (hafter ▸ hr), hconverged.running r hr]
  · simpa [h.placed_eq_nil hdone] using h.issued

end Done

/-- Turns that are known for a while only go on somehow. -/
theorem exists_roll_of_turns {d : Deployment} {target : String} {run : ℕ → List ReplicaState}
    {n : ℕ} (hnodup : ∀ i, i = 0 ∨ i = n → (jobIds (run i)).Nodup)
    (hturn : ∀ i < n, (planStep d (run i) target).done = false →
      Turn d target (run i) (run (i + 1))) :
    ∃ run', Roll d target run' ∧ ∀ i ≤ n, run' i = run i := by
  obtain ⟨rest, hrest, hzero⟩ := exists_roll d target (hnodup n (Or.inr rfl))
  refine ⟨fun i ↦ if i ≤ n then run i else rest (i - n), ⟨?_, fun i hgo ↦ ?_⟩, fun i hi ↦ if_pos hi⟩
  · simp only [Nat.zero_le, if_true]
    exact hnodup 0 (Or.inl rfl)
  · rcases lt_trichotomy i n with hi | rfl | hi
    · simp only [if_pos hi.le, if_pos (Nat.succ_le_of_lt hi)] at hgo ⊢
      exact hturn i hi hgo
    · have hnext := hrest.turn 0
      rw [hzero] at hnext
      simp only [le_refl, if_true, Nat.not_succ_le_self, if_false, Nat.add_sub_cancel_left] at hgo ⊢
      exact hnext hgo
    · have hlater : i + 1 - n = i - n + 1 := by omega
      simp only [if_neg (Nat.not_le_of_lt hi), if_neg (Nat.not_le_of_lt (Nat.lt_succ_of_lt hi)),
        hlater] at hgo ⊢
      exact hrest.turn (i - n) hgo

/-- Of ticks that carry their plans out with the gate open, each of which finds what the one before
it left and what has come up since, one is done before long. -/
theorem exists_done_of_served [Sha256] {v : MeshView σ} {d : Deployment}
    (hd : d.validate = .ok ()) {run : ℕ → List ReplicaState} {limit : ℕ}
    (hnodup : ∀ i ≤ limit, (jobIds (run i)).Nodup)
    (hserved : ∀ i < limit, ∃ placed s report after s',
      Served v d (run i) placed true s report after s' ∧ run (i + 1) = after.map comeUp)
    (hlimit : 2 * (run 0).length + 4 ≤ limit) :
    ∃ n < 2 * (run 0).length + 4, (∀ j < n, (planStep d (run j) d.revision).done = false) ∧
      (planStep d (run n) d.revision).done = true := by
  obtain ⟨run', hroll, hagree⟩ := @exists_roll_of_turns d d.revision run limit
    (by rintro i (rfl | rfl); exacts [hnodup 0 (Nat.zero_le _), hnodup _ le_rfl])
    fun i hi _ ↦ by
      obtain ⟨_, _, _, _, _, hi', hnext⟩ := hserved i hi
      exact hnext ▸ hi'.turn
  obtain ⟨n, hn, hgo, hdone, -⟩ := planner_converges hd hroll
  have hlt : n < 2 * (run 0).length + 4 := by
    have hle : oldLive d.revision (run 0) ≤ (run 0).length := List.countP_le_length
    rw [hagree 0 (Nat.zero_le _)] at hn
    omega
  have hn' : n < limit := hlt.trans_le hlimit
  rw [hagree n hn'.le] at hdone
  refine ⟨n, hlt, fun j hj ↦ ?_, hdone⟩
  have hgo' := hgo j hj
  rwa [hagree j (hj.trans hn').le] at hgo'

/-- What the mesh needs of a tick's clock, and of the grants. -/
structure MeshDriver.Hosts (driver : MeshDriver σ) (v : MeshView σ) (clock : ℕ → UInt64)
    (d : Deployment) : Prop where
  serves : ∀ grant, driver.Serves v d grant
  hasRoom : ∀ i, driver.HasRoom v d (Controller.new none).maxStaleSecs (clock i)

namespace Controller

section Run

variable [Sha256] (driver : MeshDriver σ) (d : Deployment) (clock : ℕ → UInt64) (between : σ → σ)

/-- The controller and the mesh after so many ticks, each followed by what happens between two
ticks. -/
def settledAfter (c : Controller) (s : σ) : ℕ → Controller × σ
  | 0 => (c, s)
  | n + 1 =>
      let t := (settledAfter c s n).1.tick driver d (settledAfter c s n).2 (clock n)
      (t.2.1, between t.2.2)

variable {driver d clock between} {c : Controller} {s : σ}

/-- The run after its first tick. -/
theorem settledAfter_succ (n : ℕ) : settledAfter driver d clock between c s (n + 1) =
    settledAfter driver d (fun i ↦ clock (i + 1)) between (c.tick driver d s (clock 0)).2.1
      (between (c.tick driver d s (clock 0)).2.2) n := by
  induction n with
  | zero => rfl
  | succ n ih =>
      rw [settledAfter, ih]
      rfl

/-- The tick that comes after so many. -/
def settledTick (driver : MeshDriver σ) (d : Deployment) (clock : ℕ → UInt64) (between : σ → σ)
    (c : Controller) (s : σ) (n : ℕ) : TickReport × Controller × σ :=
  (settledAfter driver d clock between c s n).1.tick driver d
    (settledAfter driver d clock between c s n).2 (clock n)

/-- What that tick finds. -/
def foundAfter (v : MeshView σ) (driver : MeshDriver σ) (d : Deployment) (clock : ℕ → UInt64)
    (between : σ → σ) (c : Controller) (s : σ) (n : ℕ) : List ReplicaState :=
  (settledAfter driver d clock between c s n).1.replicas.map
    (v.found (settledAfter driver d clock between c s n).2)

/-- The loop ends with the first tick that is done. -/
theorem convergeLoop_eq {n left : ℕ} (hleft : n < left)
    (hgo : ∀ j < n, (settledTick driver d clock between c s j).1.done = false)
    (hdone : (settledTick driver d clock between c s n).1.done = true) {i : ℕ}
    {clock' : ℕ → UInt64} (hclock : ∀ j, clock' (i + j) = clock j) (last : TickReport) :
    convergeLoop driver d clock' between left i last c s =
      settledTick driver d clock between c s n := by
  induction n generalizing c s clock i last left with
  | zero =>
      obtain ⟨left, rfl⟩ := Nat.exists_eq_succ_of_ne_zero hleft.ne'
      have hnow : clock' i = clock 0 := hclock 0
      simp only [settledTick, settledAfter] at hdone
      simp only [convergeLoop, hnow, hdone, if_true]
      rfl
  | succ n ih =>
      obtain ⟨left, rfl⟩ := Nat.exists_eq_succ_of_ne_zero (Nat.ne_zero_of_lt hleft)
      have hnow : clock' i = clock 0 := hclock 0
      have hfirst := hgo 0 (Nat.succ_pos n)
      simp only [settledTick, settledAfter] at hfirst
      simp only [convergeLoop, hnow, hfirst, Bool.false_eq_true, if_false]
      have hshift : ∀ j, settledTick driver d clock between c s (j + 1) =
          settledTick driver d (fun k ↦ clock (k + 1)) between
            (c.tick driver d s (clock 0)).2.1 (between (c.tick driver d s (clock 0)).2.2) j := by
        intro j
        simp only [settledTick, settledAfter_succ]
      rw [hshift]
      refine ih (Nat.lt_of_succ_lt_succ hleft) (fun j hj ↦ ?_) ?_ (fun j ↦ ?_) _
      · rw [← hshift]
        exact hgo (j + 1) (Nat.succ_lt_succ hj)
      · rw [← hshift]
        exact hdone
      · rw [Nat.add_assoc, Nat.add_comm 1, hclock]

/-! ## Runs on a mesh that serves -/

variable {v : MeshView σ} {base : ℕ}

theorem settings_settledAfter (n : ℕ) :
    (settledAfter driver d clock between c s n).1.settings = c.settings := by
  induction n with
  | zero => rfl
  | succ n ih => exact (settings_refresh driver d _ _).trans ih

section Served

variable (h : driver.Serves v d c.grant) (hroom : ∀ i, driver.HasRoom v d c.maxStaleSecs (clock i))
  (hcapacity : base + (d.replicas.toNat + d.strategy.surge) ≤ v.capacity)

include h hroom hcapacity

/-- A tick of the run carries its plan out, if the mesh runs what is tracked. -/
theorem settledTick_served {n : ℕ}
    (hholds : v.Holds base (settledAfter driver d clock between c s n).1.replicas
      (settledAfter driver d clock between c s n).2)
    (hissued : v.issued (settledAfter driver d clock between c s n).2 + d.replicas.toNat ≤
      v.supply) :
    ∃ placed ready,
      (v.DepsLive d (settledAfter driver d clock between c s n).2 → ready = true) ∧
        Served v d (foundAfter v driver d clock between c s n) placed ready
          (settledAfter driver d clock between c s n).2
          (settledTick driver d clock between c s n).1
          (settledTick driver d clock between c s n).2.1.replicas
          (settledTick driver d clock between c s n).2.2 := by
  have hsettings : (settledAfter driver d clock between c s n).1.settings = c.settings :=
    settings_settledAfter n
  have hgrant : (settledAfter driver d clock between c s n).1.grant = c.grant :=
    congrArg Prod.fst hsettings
  have hstale : (settledAfter driver d clock between c s n).1.maxStaleSecs = c.maxStaleSecs :=
    congrArg (fun x ↦ x.2.1) hsettings
  exact tick_served (hgrant ▸ h) hholds.sound hholds.nodup hholds.known (hstale ▸ hroom n)
    hholds.load hcapacity hissued

variable (hbetween : v.Settles between) (hholds : v.Holds base c.replicas s) {limit : ℕ}
  (hissued : v.issued s + limit * d.replicas.toNat ≤ v.supply)

include hbetween hholds hissued

/-- As long as the supply of ids lasts, the mesh goes on running what is tracked, and what was
live goes on being so. -/
theorem holds_settledAfter {n : ℕ} (hn : n ≤ limit) :
    v.Holds base (settledAfter driver d clock between c s n).1.replicas
        (settledAfter driver d clock between c s n).2 ∧
      v.Keeps c.replicas s (settledAfter driver d clock between c s n).1.replicas
        (settledAfter driver d clock between c s n).2 ∧
      v.issued (settledAfter driver d clock between c s n).2 ≤
        v.issued s + n * d.replicas.toNat := by
  induction n with
  | zero => exact ⟨hholds, .refl v _ _, Nat.le_add_right _ _⟩
  | succ n ih =>
      obtain ⟨hholds', hkeeps, hissued'⟩ := ih (Nat.le_of_succ_le hn)
      have hmul : (n + 1) * d.replicas.toNat ≤ limit * d.replicas.toNat :=
        Nat.mul_le_mul_right _ hn
      rw [Nat.succ_mul] at hmul ⊢
      obtain ⟨placed, ready, -, hserved⟩ :=
        settledTick_served h hroom hcapacity hholds' (by omega)
      have hafter := hserved.holds
        (hholds'.load.trans_eq (congrArg _ (List.length_map _).symm))
      refine ⟨hafter.settle hbetween, ?_, ?_⟩
      · exact hkeeps.trans (hserved.keeps.trans (.settles hbetween hserved.sound _))
      · have hplaced : placed.length ≤ d.replicas.toNat := by
          rw [hserved.length]
          split_ifs
          · exact toPlace_le _ _ _
          · exact Nat.zero_le _
        have hafter := (hbetween.moves _ hserved.sound).issued
        have htick := hserved.issued
        rw [settledAfter]
        exact hafter.trans (by omega)

variable (hdeps : v.DepsLive d s)

include hdeps

/-- If all dependencies are live, so is the gate open at every tick. -/
theorem settledTick_open {n : ℕ} (hn : n < limit) :
    ∃ placed, Served v d (foundAfter v driver d clock between c s n) placed true
      (settledAfter driver d clock between c s n).2
      (settledTick driver d clock between c s n).1
      (settledTick driver d clock between c s n).2.1.replicas
      (settledTick driver d clock between c s n).2.2 := by
  obtain ⟨hholds', hkeeps, hissued'⟩ :=
    holds_settledAfter h hroom hcapacity hbetween hholds hissued hn.le
  have hmul : (n + 1) * d.replicas.toNat ≤ limit * d.replicas.toNat := Nat.mul_le_mul_right _ hn
  rw [Nat.succ_mul] at hmul
  obtain ⟨placed, ready, hready, hserved⟩ :=
    settledTick_served h hroom hcapacity hholds' (by omega)
  obtain rfl := hready fun dep hdep ↦ hkeeps.live _ (hdeps dep hdep)
  exact ⟨placed, hserved⟩

/-- Then one of the ticks is done, and leaves what was asked for. -/
theorem exists_settledTick_done (hd : d.validate = .ok ())
    (hlimit : 2 * c.replicas.length + 4 ≤ limit) :
    ∃ n < limit, (∀ j < n, (settledTick driver d clock between c s j).1.done = false) ∧
      (settledTick driver d clock between c s n).1.done = true ∧
      Reconciled v base d (limit * d.replicas.toNat) c.replicas s
        (settledTick driver d clock between c s n).2.1.replicas
        (settledTick driver d clock between c s n).2.2 := by
  have hopen : ∀ i < limit, ∃ placed, _ :=
    fun i hi ↦ settledTick_open h hroom hcapacity hbetween hholds hissued hdeps hi
  have hholds' : ∀ i ≤ limit, _ :=
    fun i hi ↦ holds_settledAfter h hroom hcapacity hbetween hholds hissued hi
  have hnodup : ∀ i ≤ limit,
      (jobIds (settledAfter driver d clock between c s i).1.replicas).Nodup :=
    fun i hi ↦ (hholds' i hi).1.nodup
  have hlen : (foundAfter v driver d clock between c s 0).length = c.replicas.length :=
    List.length_map _
  have hfound : ∀ i ≤ limit, (jobIds (foundAfter v driver d clock between c s i)).Nodup := by
    intro i hi
    rw [foundAfter, MeshView.jobIds_map_found]
    exact hnodup i hi
  obtain ⟨n, hn, hgo, hdone⟩ := exists_done_of_served hd hfound
    (fun i hi ↦ by
      obtain ⟨placed, hserved⟩ := hopen i hi
      exact ⟨placed, _, _, _, _, hserved, hserved.found_eq hbetween⟩)
    (by rwa [hlen])
  have hlt : n < limit := (hlen ▸ hn).trans_le hlimit
  obtain ⟨placed, hlast⟩ := hopen n hlt
  obtain ⟨hholds'', hkeeps, hissued'⟩ := hholds' n hlt.le
  have hlast' := hlast.reconciled (hnodup n hlt.le) hdone hholds''.load
  have hmul : n * d.replicas.toNat ≤ limit * d.replicas.toNat :=
    Nat.mul_le_mul_right _ hlt.le
  refine ⟨n, hlt, fun j hj ↦ ?_, hlast.done.trans ((Bool.and_true _).trans hdone),
    hlast'.converged, hlast'.running, hlast'.holds, hkeeps.trans hlast'.keeps, hlast'.announced,
    hlast'.issued.trans (by omega)⟩
  obtain ⟨_, hj'⟩ := hopen j (hj.trans hlt)
  exact hj'.done.trans ((Bool.and_true _).trans (hgo j hj))

/-- **The controller converges** on a mesh that serves the deployment and on which its
dependencies are live: within `2 * c.replicas.length + 4` ticks one is done, and then the
desired replicas are tracked, running on target, and the mesh runs them. -/
theorem converge_served (hd : d.validate = .ok ()) {maxTicks : UInt32}
    (hmax : maxTicks.toNat = limit) (hlimit : 2 * c.replicas.length + 4 ≤ limit) :
    (c.converge driver d s clock between maxTicks).1.done = true ∧
      Reconciled v base d (limit * d.replicas.toNat) c.replicas s
        (c.converge driver d s clock between maxTicks).2.1.replicas
        (c.converge driver d s clock between maxTicks).2.2 := by
  obtain ⟨n, hn, hgo, hdone, hafter⟩ :=
    exists_settledTick_done h hroom hcapacity hbetween hholds hissued hdeps hd hlimit
  have hconverge : c.converge driver d s clock between maxTicks =
      settledTick driver d clock between c s n :=
    convergeLoop_eq (hmax ▸ hn) hgo hdone (fun j ↦ congrArg clock (Nat.zero_add j)) _
  rw [hconverge]
  exact ⟨hdone, hafter⟩

end Served

end Run

end Controller

/-! ## A mesh on which time passes when it is asked -/

/-- A job has come up when it is next asked for. -/
abbrev MeshView.Prompt (v : MeshView σ) : Prop := v.Settles id

/-- What is found of the jobs if whatever is pending comes up before one asks. -/
def MeshView.awaited (v : MeshView σ) : MeshView σ :=
  { v with jobs := fun s job ↦ (v.jobs s job).map jobUp }

/-- The driver on which time passes whenever a phase is asked for. -/
def MeshDriver.awaiting (driver : MeshDriver σ) (between : σ → σ) : MeshDriver σ :=
  { driver with
    phase := fun nodeId job probe grant s ↦ driver.phase nodeId job probe grant (between s) }

section Awaiting

variable {v : MeshView σ} {driver : MeshDriver σ} {between : σ → σ} {d : Deployment} {s s' : σ}

theorem jobUp_comp : jobUp ∘ jobUp = jobUp := funext jobUp_jobUp

/-- On a prompt mesh everything has come up. -/
theorem MeshView.Prompt.jobUp_eq (h : v.Prompt) (hs : v.sound s) {job : String}
    {e : String × Phase} (he : v.jobs s job = some e) : jobUp e = e := by
  have hjobs := congrFun (h.moves s hs).jobs job
  rw [id, he, Option.map_some] at hjobs
  exact (Option.some.inj hjobs).symm

theorem MeshView.Moves.awaited {jobs : String → Option (String × Phase)} {load issued : ℕ}
    (h : v.Moves s s' jobs load issued) :
    v.awaited.Moves s s' (fun job ↦ (jobs job).map jobUp) load issued where
  sound := h.sound
  jobs := by rw [← h.jobs]; rfl
  live := h.live
  load := h.load
  issued := h.issued

theorem MeshView.Settles.prompt : v.awaited.Prompt where
  moves s hs := by
    refine ⟨hs, ?_, fun _ ↦ id, le_rfl, le_rfl⟩
    ext1 job
    simp only [id, awaited, Option.map_map, jobUp_comp]

theorem map_update_jobUp (jobs : String → Option (String × Phase)) (job : String)
    (e : Option (String × Phase)) :
    (fun k ↦ (Function.update jobs job e k).map jobUp) =
      Function.update (fun k ↦ (jobs k).map jobUp) job (e.map jobUp) := by
  ext1 k
  by_cases hk : k = job
  · simp only [hk, Function.update_self]
  · simp only [Function.update_of_ne hk]

/-- **A mesh that serves does so too when time passes on it**, and is prompt then. -/
theorem MeshDriver.Serves.awaiting {grant : Option String} (h : driver.Serves v d grant)
    (hsettles : v.Settles between) : (driver.awaiting between).Serves v.awaited d grant where
  phase := by
    intro s nodeId job p hs hp
    obtain ⟨⟨host, q⟩, hq, heq⟩ := Option.map_eq_some_iff.mp hp
    obtain ⟨rfl, rfl⟩ := Prod.mk.inj heq
    have hmoves := hsettles.moves s hs
    have hup : v.jobs (between s) job = some (host, q.comeUp) := by
      simp only [hmoves.jobs, hq, Option.map_some, jobUp]
    obtain ⟨s', hphase, hstill⟩ := h.phase hmoves.sound hup
    refine ⟨s', hphase, hstill.sound, ?_, fun service hlive ↦
      hstill.live service (hmoves.live service hlive), hstill.load.trans hmoves.load,
      hstill.issued.trans hmoves.issued⟩
    ext1 job'
    simp only [MeshView.awaited, hstill.jobs, hmoves.jobs, Option.map_map, jobUp_comp]
  kill := by
    intro s nodeId job p hs hp
    obtain ⟨⟨host, q⟩, hq, heq⟩ := Option.map_eq_some_iff.mp hp
    obtain rfl := congrArg Prod.fst heq
    obtain ⟨s', hkill, hmoves⟩ := h.kill hs hq
    have hmoves' := hmoves.awaited
    rw [map_update_jobUp] at hmoves'
    exact ⟨s', hkill, hmoves'⟩
  deploy := by
    intro s nodeId hs hhost hload hissued
    obtain ⟨job, p, s', hdeploy, hnone, hup, hmoves⟩ := h.deploy hs hhost hload hissued
    refine ⟨job, .running, s', hdeploy, ?_, rfl, ?_⟩
    · simp only [MeshView.awaited, hnone, Option.map_none]
    · have hmoves' := hmoves.awaited
      rw [map_update_jobUp, Option.map_some, jobUp, hup] at hmoves'
      exact hmoves'
  advertiseService := by
    intro s service hs
    obtain ⟨s', hadvertise, hstill, hlive⟩ := h.advertiseService service hs
    exact ⟨s', hadvertise, hstill.awaited, hlive⟩
  serviceReady := by
    intro s service hs
    obtain ⟨answer, s', hanswer, hstill, hhealthy⟩ := h.serviceReady service hs
    exact ⟨answer, s', hanswer, hstill.awaited, hhealthy⟩

theorem MeshView.Knows.awaited {r : ReplicaState} (h : v.Knows s r) : v.awaited.Knows s r := by
  obtain ⟨p, hp⟩ := h
  exact ⟨p.comeUp, congrArg (Option.map jobUp) hp⟩

theorem MeshDriver.HasRoom.awaiting {maxStaleSecs now : UInt64}
    (h : driver.HasRoom v d maxStaleSecs now) :
    (driver.awaiting between).HasRoom v.awaited d maxStaleSecs now := by
  intro s hs hload
  obtain ⟨atlas, s', hatlas, hstill, hhosts, hne⟩ := h hs hload
  exact ⟨atlas, s', hatlas, hstill.awaited, hhosts, hne⟩

end Awaiting

section Example

/-- Two hosts with nothing on them, whatever runs. -/
def idleHosts : List AtlasEntry :=
  [⟨"a", 64, 65536, 0, 0, fun _ ↦ true⟩, ⟨"b", 64, 65536, 0, 0, fun _ ↦ true⟩]

/-- A mesh of these hosts, on which a service can be found as soon as it is advertised. -/
structure SmallMesh where
  nextJob : ℕ := 0
  jobs : String → Option (String × Phase) := fun _ ↦ none
  services : List String := []

/-- A job is pending once it is deployed.  A host answers for its own jobs; of any other it says
that it has failed, and does not kill it. -/
def smallDriver : MeshDriver SmallMesh where
  atlas s := (.ok idleHosts, s)
  deploy nodeId _ _ s :=
    if nodeId ∈ idleHosts.map AtlasEntry.nodeId then
      (.ok (Nat.repr s.nextJob), { s with
        nextJob := s.nextJob + 1
        jobs := Function.update s.jobs (Nat.repr s.nextJob) (some (nodeId, .pending)) })
    else (.error s!"no such host {nodeId}", s)
  kill nodeId job _ s :=
    if (s.jobs job).map Prod.fst = some nodeId then
      (.ok (), { s with jobs := Function.update s.jobs job none })
    else (.error s!"no such job {job} on {nodeId}", s)
  phase nodeId job _ _ s :=
    match s.jobs job with
    | some (host, p) => (.ok (if host = nodeId then p else .failed), s)
    | none => (.ok .failed, s)
  advertiseService service s := (.ok (), { s with services := service :: s.services })
  serviceReady service s :=
    (.ok (if service ∈ s.services then .healthy else .absent), s)

namespace SmallMesh

/-- In time all jobs come up. -/
def wait (s : SmallMesh) : SmallMesh := { s with jobs := fun job ↦ (s.jobs job).map jobUp }

/-- No job has an id that is still to be given out. -/
def Sound (s : SmallMesh) : Prop := ∀ n ≥ s.nextJob, s.jobs (Nat.repr n) = none

/-- There is always room, and there are always ids. -/
def view : MeshView SmallMesh where
  sound := Sound
  jobs := jobs
  hosts nodeId := nodeId ∈ idleHosts.map AtlasEntry.nodeId
  live s service := service ∈ s.services
  announces := True
  load _ := 0
  capacity := 2 ^ 64
  issued _ := 0
  supply := 2 ^ 64

/-- Two jobs, of which the second has crashed. -/
def used : SmallMesh where
  nextJob := 2
  jobs job :=
    if job = "0" then some ("a", .running) else if job = "1" then some ("b", .failed) else none

theorem sound_used : used.Sound := by
  intro n hn
  have hne : ∀ k < 2, Nat.repr n ≠ Nat.repr k :=
    fun k hk heq ↦ absurd (Nat.repr_injective heq) (hk.trans_le hn).ne'
  exact (if_neg (hne 0 Nat.zero_lt_two)).trans (if_neg (hne 1 Nat.one_lt_two))

/-- It knows the replicas that are tracked as running there. -/
theorem knows_used : view.Knows used ⟨"0", "a", "v1", .running⟩ ∧
    view.Knows used ⟨"1", "b", "v1", .running⟩ :=
  ⟨⟨.running, rfl⟩, ⟨.failed, rfl⟩⟩

theorem wait_settles : view.Settles wait where
  moves _ hs :=
    ⟨fun n hn ↦ Option.map_eq_none_iff.mpr (hs n hn), rfl, fun _ ↦ id, le_rfl, le_rfl⟩

end SmallMesh

theorem smallDriver_serves (d : Deployment) (grant : Option String) :
    smallDriver.Serves SmallMesh.view d grant where
  phase := by
    intro s nodeId job p hs hp
    have hjob : s.jobs job = some (nodeId, p) := hp
    refine ⟨s, ?_, .refl hs⟩
    simp only [smallDriver, hjob, if_true]
  kill := by
    intro s nodeId job p hs hp
    have hjob : s.jobs job = some (nodeId, p) := hp
    refine ⟨_, if_pos (by rw [hjob]; rfl), fun n hn ↦ ?_, rfl, fun _ ↦ id, le_rfl, le_rfl⟩
    by_cases hk : Nat.repr n = job
    · simp only [hk, Function.update_self]
    · simp only [Function.update_of_ne hk]
      exact hs n hn
  deploy := by
    intro s nodeId hs hhost _ _
    refine ⟨_, .pending, _, if_pos hhost, hs _ le_rfl, rfl, fun n hn ↦ ?_, rfl, fun _ ↦ id,
      Nat.zero_le _, Nat.zero_le _⟩
    have hne : Nat.repr n ≠ Nat.repr s.nextJob :=
      fun heq ↦ (Nat.lt_of_succ_le hn).ne' (Nat.repr_injective heq)
    simp only [Function.update_of_ne hne]
    exact hs n (Nat.le_of_succ_le hn)
  advertiseService := by
    intro s service hs
    refine ⟨_, rfl, ⟨hs, rfl, fun _ ↦ List.mem_cons_of_mem _, le_rfl, le_rfl⟩, ?_⟩
    exact fun _ ↦ List.mem_cons_self
  serviceReady := by
    intro s service hs
    refine ⟨_, _, rfl, .refl hs, fun hlive ↦ ?_⟩
    have hmem : service ∈ s.services := hlive
    rw [if_pos hmem]

theorem smallDriver_hasRoom {d : Deployment} {maxStaleSecs now : UInt64}
    (hroom : ∃ host ∈ idleHosts, isFresh host now.toNat maxStaleSecs.toNat = true ∧
      hostCanFit host d = true) :
    smallDriver.HasRoom SmallMesh.view d maxStaleSecs now := by
  intro s hs _
  refine ⟨idleHosts, s, rfl, .refl hs, fun _ ↦ List.mem_map_of_mem, ?_⟩
  obtain ⟨host, hmem, hfresh, hfits⟩ := hroom
  exact List.ne_nil_of_mem (mem_rank.mpr ⟨host, hmem, hfresh, hfits, rfl⟩)

end Example

end CeGke
