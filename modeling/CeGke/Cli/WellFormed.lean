import CeGke.Cli.Edits

/-!
# Well-formed stores

A store is well formed when each entry is filed under the key of its spec and everything
it could run, now or after a rollback, has passed validation.  Every edit keeps this
(`Store.WellFormed.edit`), so no sequence of commands and passes, ended well or not, leads
out of it.  Names hold no slash, so a key of a well-formed store says which namespace and
which name it is of.
-/

namespace CeGke

open Relation Lib

/-! ## Keys -/

theorem slash_notMem_of_validateName {name : String} (h : validateName name = .ok ()) :
    '/' ∉ name.toList := by
  simp only [validateName, bind_eq_ok, bailIf_eq_ok, exists_const, not_not,
    List.all_eq_true] at h
  intro hmem
  exact absurd (h.2.2 '/' hmem) (by decide)

theorem toList_key (nameSpace name : String) :
    s!"{nameSpace}/{name}".toList = nameSpace.toList ++ '/' :: name.toList := by
  have htext : s!"{nameSpace}/{name}" = nameSpace ++ "/" ++ name := rfl
  rw [htext, String.toList_append, String.toList_append, List.append_assoc]
  rfl

namespace Deployment

variable {d : Deployment}

/-- A key splits into namespace and name in one way. -/
theorem Valid.key_eq_iff (h : d.Valid) {nameSpace name : String} :
    s!"{nameSpace}/{name}" = d.key ↔ nameSpace = d.nameSpace ∧ name = d.name := by
  constructor
  · intro hkey
    have hlist := congrArg String.toList hkey
    rw [key, toList_key, toList_key] at hlist
    obtain ⟨hns, _, hname⟩ := (List.append_cons_inj_of_notMem
      (slash_notMem_of_validateName h.nameSpace_ok)
      (slash_notMem_of_validateName h.name_ok)).mp hlist.symm
    exact ⟨String.toList_inj.mp hns.symm, String.toList_inj.mp hname.symm⟩
  · rintro ⟨rfl, rfl⟩
    rfl

/-- A key starts with one namespace. -/
theorem Valid.prefix_key_iff (h : d.Valid) {nameSpace : String} :
    s!"{nameSpace}/".toList <+: d.key.toList ↔ d.nameSpace = nameSpace := by
  have htext : s!"{nameSpace}/" = nameSpace ++ "/" := rfl
  rw [htext, String.toList_append, key, toList_key]
  constructor
  · rintro ⟨rest, hrest⟩
    rw [List.append_assoc] at hrest
    obtain ⟨hns, _⟩ := (List.append_cons_inj_of_notMem
      (slash_notMem_of_validateName h.nameSpace_ok)
      (slash_notMem_of_validateName h.name_ok)).mp hrest.symm
    exact String.toList_inj.mp hns
  · rintro rfl
    exact ⟨d.name.toList, List.append_assoc _ _ _⟩

end Deployment

/-! ## Entries -/

/-- An entry under `key` that is filed correctly and holds nothing that is not valid. -/
structure ManagedDeployment.WellFormed (key : String) (m : ManagedDeployment) : Prop where
  key_eq : m.spec.key = key
  valid : m.spec.validate = .ok ()
  history_length_le : m.history.length ≤ maxHistory
  history_valid : ∀ h ∈ m.history, h.validate = .ok ()
  history_nameSpace : ∀ h ∈ m.history, h.nameSpace = m.spec.nameSpace
  history_name : ∀ h ∈ m.history, h.name = m.spec.name

/-- Every entry is well formed. -/
def Store.WellFormed (store : Store) : Prop :=
  ∀ key managed, store.get key = some managed → managed.WellFormed key

namespace ManagedDeployment

variable {m : ManagedDeployment} {key : String}

/-- The replicas, the grant and the pause flag do not matter. -/
theorem WellFormed.congr (h : m.WellFormed key) {m' : ManagedDeployment}
    (hspec : m'.spec = m.spec) (hhistory : m'.history = m.history) : m'.WellFormed key := by
  obtain ⟨spec, _, _, history, _⟩ := m
  obtain ⟨spec', _, _, history', _⟩ := m'
  obtain rfl : spec' = spec := hspec
  obtain rfl : history' = history := hhistory
  exact ⟨h.key_eq, h.valid, h.history_length_le, h.history_valid, h.history_nameSpace,
    h.history_name⟩

/-- Recording a revision keeps the newest entries. -/
theorem pushHistory_history [Sha256] (m : ManagedDeployment) (prior : Deployment) :
    (m.pushHistory prior).history.Sublist (m.history ++ [prior]) := by
  unfold pushHistory
  split_ifs
  · exact List.sublist_append_left _ _
  · exact List.drop_sublist _ _

theorem pushHistory_length_le [Sha256] (prior : Deployment) (h : m.history.length ≤ maxHistory) :
    (m.pushHistory prior).history.length ≤ maxHistory := by
  unfold pushHistory
  split_ifs
  · exact h
  · rw [List.length_drop]
    omega

end ManagedDeployment

/-! ## Namespaces -/

namespace Store

variable {store : Store}

theorem WellFormed.mem_namesIn_iff (h : store.WellFormed) {nameSpace key : String} :
    key ∈ store.namesIn nameSpace ↔
      key ∈ store.names ∧ s!"{nameSpace}/".toList <+: key.toList := by
  rw [names, ← SortedMap.isSome_get_iff, Option.isSome_iff_exists]
  constructor
  · intro hmem
    obtain ⟨⟨key, managed⟩, he, rfl⟩ := List.mem_map.mp hmem
    obtain ⟨he, hns⟩ := List.mem_filter.mp he
    have hget := SortedMap.get_eq_some_iff.mpr he
    have hwf := h key managed hget
    refine ⟨⟨managed, hget⟩, ?_⟩
    rw [← hwf.key_eq]
    exact (Deployment.validate_eq_ok.mp hwf.valid).prefix_key_iff.mpr (of_decide_eq_true hns)
  · rintro ⟨⟨managed, hget⟩, hprefix⟩
    have hwf := h key managed hget
    rw [← hwf.key_eq] at hprefix
    have hns := (Deployment.validate_eq_ok.mp hwf.valid).prefix_key_iff.mp hprefix
    exact List.mem_map.mpr ⟨(key, managed),
      List.mem_filter.mpr ⟨SortedMap.get_eq_some_iff.mp hget, decide_eq_true hns⟩, rfl⟩

theorem namesIn_sorted (store : Store) (nameSpace : String) :
    (store.namesIn nameSpace).Pairwise (· < ·) :=
  store.deployments.sorted.sublist (List.filter_sublist.map _)

/-- A key names one pair. -/
theorem WellFormed.pair_unique (h : store.WellFormed) {nameSpace name otherSpace otherName : String}
    (hmem : s!"{nameSpace}/{name}" ∈ store.names)
    (hkey : s!"{nameSpace}/{name}" = s!"{otherSpace}/{otherName}") :
    nameSpace = otherSpace ∧ name = otherName := by
  obtain ⟨managed, hget⟩ := Option.isSome_iff_exists.mp (SortedMap.isSome_get_iff.mpr hmem)
  have hwf := h _ managed hget
  have hvalid := Deployment.validate_eq_ok.mp hwf.valid
  obtain ⟨hns, hname⟩ := hvalid.key_eq_iff.mp hwf.key_eq.symm
  obtain ⟨hns', hname'⟩ := hvalid.key_eq_iff.mp (hkey.symm.trans hwf.key_eq.symm)
  exact ⟨hns.trans hns'.symm, hname.trans hname'.symm⟩

end Store

/-! ## Edits -/

namespace Store

variable {store store' : Store}

theorem wellFormed_empty : ({} : Store).WellFormed := by
  intro key managed hget
  exact absurd hget (by simp [get])

/-- An update of one entry that keeps it well formed. -/
theorem WellFormed.modify (h : store.WellFormed) {key : String}
    {f : ManagedDeployment → ManagedDeployment}
    (hf : ∀ managed, store.get key = some managed → (f managed).WellFormed key) :
    (store.modify key f).WellFormed := by
  intro key' managed hget
  rw [get_modify] at hget
  split_ifs at hget with hkey
  · obtain ⟨m, hm, rfl⟩ := Option.map_eq_some_iff.mp hget
    exact hkey ▸ hf m (hkey ▸ hm)
  · exact h key' managed hget

/-- An update that leaves spec and history alone. -/
theorem WellFormed.modify_of_congr (h : store.WellFormed) (key : String)
    {f : ManagedDeployment → ManagedDeployment} (hspec : ∀ m, (f m).spec = m.spec)
    (hhistory : ∀ m, (f m).history = m.history) : (store.modify key f).WellFormed :=
  h.modify fun managed hget ↦ (h key managed hget).congr (hspec managed) (hhistory managed)

variable [Sha256]

/-- The history of what is upserted: that of the entry, and perhaps the spec it had. -/
theorem WellFormed.upsert (h : store.WellFormed) {spec : Deployment}
    (hvalid : spec.validate = .ok ()) (grant : Option String) :
    (store.upsert spec grant).WellFormed := by
  intro key managed hget
  by_cases hkey : key = spec.key
  · subst hkey
    rw [Store.upsert, get, SortedMap.get_insert, if_pos rfl, Option.some.injEq] at hget
    cases hold : store.get spec.key with
    | none =>
        -- There was no entry, and a new one has no image yet.
        have himage : ¬ ((none : Option ManagedDeployment).getD {}).spec.image ≠ "" := by simp
        rw [hold, if_neg fun h ↦ himage h.1] at hget
        subst hget
        exact ⟨rfl, hvalid, Nat.zero_le _, by simp, by simp, by simp⟩
    | some old =>
        have hwf := h spec.key old hold
        obtain ⟨hns, hname⟩ :=
          (Deployment.validate_eq_ok.mp hvalid).key_eq_iff.mp hwf.key_eq
        rw [hold, Option.getD_some] at hget
        split_ifs at hget with hpush
        · subst hget
          have hmem := fun d (hd : d ∈ (old.pushHistory old.spec).history) ↦
            List.mem_append.mp ((old.pushHistory_history old.spec).subset hd)
          refine ⟨rfl, hvalid, old.pushHistory_length_le old.spec hwf.history_length_le,
            fun d hd ↦ ?_, fun d hd ↦ ?_, fun d hd ↦ ?_⟩
          · rcases hmem d hd with hd | hd
            · exact hwf.history_valid d hd
            · exact List.mem_singleton.mp hd ▸ hwf.valid
          · rcases hmem d hd with hd | hd
            · exact (hwf.history_nameSpace d hd).trans hns
            · exact List.mem_singleton.mp hd ▸ hns
          · rcases hmem d hd with hd | hd
            · exact (hwf.history_name d hd).trans hname
            · exact List.mem_singleton.mp hd ▸ hname
        · subst hget
          exact ⟨rfl, hvalid, hwf.history_length_le, hwf.history_valid,
            fun d hd ↦ (hwf.history_nameSpace d hd).trans hns,
            fun d hd ↦ (hwf.history_name d hd).trans hname⟩
  · rw [get_upsert_of_ne _ _ _ hkey] at hget
    exact h key managed hget

/-- **Every edit keeps a store well formed.** -/
theorem WellFormed.edit (h : store.WellFormed) (hedit : store.Edit store') :
    store'.WellFormed := by
  cases hedit with
  | upsert grant hvalid => exact h.upsert hvalid grant
  | @scale key replicas hle =>
      refine h.modify fun managed hget ↦ ?_
      have hwf := h key managed hget
      have hvalid := Deployment.validate_eq_ok.mp hwf.valid
      exact ⟨hwf.key_eq, Deployment.validate_eq_ok.mpr { hvalid with replicas_le := hle },
        hwf.history_length_le, hwf.history_valid, hwf.history_nameSpace, hwf.history_name⟩
  | @undo key managed toRevision prior history hget htake =>
      refine h.modify fun managed' hget' ↦ ?_
      obtain rfl : managed = managed' := Option.some.inj (hget.symm.trans hget')
      have hwf := h key managed hget
      obtain ⟨before, after, hhistory, rfl, _⟩ := Cli.takeRevision_eq_ok htake
      have hprior : prior ∈ managed.history := by
        rw [hhistory]
        exact List.mem_append_right _ List.mem_cons_self
      have hrest : (before ++ after).Sublist managed.history := by
        rw [hhistory]
        exact (List.sublist_cons_self _ _).append_left _
      have hvalid := Deployment.validate_eq_ok.mp (hwf.history_valid prior hprior)
      have hspec : (managed.rolledBack prior (before ++ after)).spec =
          { prior with replicas := managed.spec.replicas } := by
        rw [ManagedDeployment.rolledBack, ← hwf.history_nameSpace prior hprior,
          ← hwf.history_name prior hprior]
      refine ⟨hwf.key_eq, ?_, hrest.length_le.trans hwf.history_length_le,
        fun d hd ↦ hwf.history_valid d (hrest.subset hd),
        fun d hd ↦ hwf.history_nameSpace d (hrest.subset hd),
        fun d hd ↦ hwf.history_name d (hrest.subset hd)⟩
      rw [hspec]
      exact Deployment.validate_eq_ok.mpr
        { hvalid with replicas_le := (Deployment.validate_eq_ok.mp hwf.valid).replicas_le }
  | pause key paused => exact h.modify_of_congr key (fun _ ↦ rfl) fun _ ↦ rfl
  | setReplicas key replicas => exact h.modify_of_congr key (fun _ ↦ rfl) fun _ ↦ rfl
  | remove key =>
      intro key' managed hget
      rw [remove, get, SortedMap.get_erase] at hget
      split_ifs at hget
      exact h key' managed hget

theorem WellFormed.edits (h : store.WellFormed) (hedits : store.Edits store') :
    store'.WellFormed := by
  induction hedits with
  | refl => exact h
  | tail _ hedit ih => exact ih.edit hedit

end Store

/-! ## Runs -/

/-- What happens to a store: a command, whether or not it ends well, a pass of the daemon, or
a save and a load. -/
inductive Store.Step [Sha256] : Store → Store → Prop
  | command {σ : Type} (cli : Cli) (driver : MeshDriver σ) (preflights : ℕ → Preflight)
      (clock : String → ℕ → UInt64) (cmd : Cmd) (mesh : σ) {store : Store} :
      Step store (cli.exec driver preflights clock cmd { store, mesh }).2.store
  | pass {σ : Type} (driver : MeshDriver σ) (clock : String → UInt64)
      (fallbackGrant nameSpace : Option String) (mesh : σ) {store : Store} :
      Step store (reconcilePass driver clock fallbackGrant nameSpace store mesh).store
  | reload {store : Store} : Step store ({ store with version := storeVersion } : Store).migrate

/-- A store becomes another by commands, passes and reloads, in any order. -/
def Store.Run [Sha256] : Store → Store → Prop := ReflTransGen Store.Step

namespace Store

variable [Sha256] {store store' : Store}

theorem WellFormed.step (h : store.WellFormed) (hstep : store.Step store') :
    store'.WellFormed := by
  cases hstep with
  | command cli driver preflights clock cmd mesh =>
      exact h.edits (cli.exec_edits driver preflights clock cmd { store, mesh })
  | pass driver clock fallbackGrant nameSpace mesh =>
      exact h.edits (reconcilePass_edits driver clock fallbackGrant nameSpace store mesh)
  | reload =>
      rw [migrate_of_current rfl]
      exact h

theorem WellFormed.run (h : store.WellFormed) (hrun : store.Run store') :
    store'.WellFormed := by
  induction hrun with
  | refl => exact h
  | tail _ hstep ih => exact ih.step hstep

/-- What `main` does to a state file of this version is a run: a load, a command, a save. -/
theorem run_main {σ : Type} (cli : Cli) (driver : MeshDriver σ) (preflights : ℕ → Preflight)
    (clock : String → ℕ → UInt64) (cmd : Cmd) {file : Store} (mesh : σ)
    (hversion : file.version = storeVersion) :
    file.Run (cli.main driver preflights clock cmd file mesh).2.store := by
  have hexec : file.Step (cli.exec driver preflights clock cmd { store := file, mesh }).2.store :=
    .command cli driver preflights clock cmd mesh
  unfold Cli.main
  rw [migrate_of_current hversion]
  split
  · exact ReflTransGen.refl
  · rename_i p hp
    rw [hp] at hexec
    have hsave : p.store.Step { p.store with version := storeVersion } := .reload
    exact ReflTransGen.head hexec (ReflTransGen.single hsave)

/-- **The store stays well formed** in every run of commands, passes and reloads from the
empty store.  So the names of a namespace are, in order, the keys that start with it, and no
two pairs of a namespace and a name share an entry. -/
theorem wellFormed_of_run (hrun : Run {} store) :
    store.WellFormed ∧
      (∀ key managed, store.get key = some managed →
        managed.spec.replicas.toNat ≤ maxReplicas) ∧
      (∀ nameSpace : String, (store.namesIn nameSpace).Pairwise (· < ·) ∧
        ∀ key, key ∈ store.namesIn nameSpace ↔
          key ∈ store.names ∧ s!"{nameSpace}/".toList <+: key.toList) ∧
      ∀ nameSpace name otherSpace otherName : String, s!"{nameSpace}/{name}" ∈ store.names →
        s!"{nameSpace}/{name}" = s!"{otherSpace}/{otherName}" →
          nameSpace = otherSpace ∧ name = otherName := by
  have hwf := wellFormed_empty.run hrun
  refine ⟨hwf, ?_, fun nameSpace ↦ ⟨store.namesIn_sorted nameSpace, ?_⟩, ?_⟩
  · intro key managed hget
    exact (Deployment.validate_eq_ok.mp (hwf key managed hget).valid).replicas_le
  · exact fun key ↦ hwf.mem_namesIn_iff
  · exact fun nameSpace name otherSpace otherName hmem hkey ↦ hwf.pair_unique hmem hkey

end Store

section Example

/-- The manifest of a deployment of one replica. -/
def applyWeb (image : String) : Cmd :=
  .apply (.ok (.single (.ok { name := "web", nameSpace := "default", image, replicas := 1 })))

/-- Commands given one after the other, on a mesh without hosts. -/
def session (cmds : List Cmd) : Store :=
  cmds.foldl
    (fun store cmd ↦ (@Cli.exec _ Deployment.nginxSha256 { maxTicks := 1 } (stuckDriver [])
      (fun _ ↦ ⟨none, fun _ _ ↦ none, fun _ ↦ ""⟩) (fun _ _ ↦ 0) cmd
      { store, mesh := () }).2.store)
    {}

theorem run_session (cmds : List Cmd) : @Store.Run Deployment.nginxSha256 {} (session cmds) := by
  induction cmds using List.reverseRecOn with
  | nil => exact ReflTransGen.refl
  | append_singleton cmds cmd ih =>
      rw [session, List.foldl_append]
      exact ih.tail (@Store.Step.command Deployment.nginxSha256 ..)

/-- Two revisions are applied, and the second is rolled back. -/
theorem wellFormed_of_run_web :
    (session [applyWeb "nginx", applyWeb "nginx:2", .rollout (.undo "web" none)]).names =
        ["default/web"] ∧
      (session [applyWeb "nginx", applyWeb "nginx:2", .rollout (.undo "web" none)]).WellFormed :=
  ⟨by decide +kernel, (@Store.wellFormed_of_run Deployment.nginxSha256 _ (run_session _)).1⟩

end Example

end CeGke
