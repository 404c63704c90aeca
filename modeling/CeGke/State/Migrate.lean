import CeGke.State

/-!
# Migrating an old store

`Store::migrate` fills in the namespace of each spec and files the entries anew: under the old key
if that has a slash, under the key of the spec otherwise.  An entry is lost when another one is
filed under its key, and an old key with a slash in it is never compared with the spec
(`migratesWhole_iff`).
-/

namespace CeGke

open Lib

/-- The spec with the default namespace, if it has none. -/
def Deployment.backfilled (d : Deployment) : Deployment :=
  if d.nameSpace = "" then { d with nameSpace := "default" } else d

namespace Store

/-- What the loop of `migrate` inserts for an entry of the old map. -/
def migrated (e : String × ManagedDeployment) : String × ManagedDeployment :=
  (if '/' ∈ e.1.toList then e.1 else e.2.spec.backfilled.key,
    { e.2 with spec := e.2.spec.backfilled })

theorem migrateEntry_eq_insert (deployments : SortedMap String ManagedDeployment)
    (e : String × ManagedDeployment) :
    migrateEntry deployments e = deployments.insert (migrated e).1 (migrated e).2 := by
  obtain ⟨key, m⟩ := e
  have hbackfill : (if m.spec.nameSpace = "" then
      { m with spec := { m.spec with nameSpace := "default" } } else m) =
        { m with spec := m.spec.backfilled } := by
    rw [Deployment.backfilled]
    split_ifs <;> rfl
  simp only [migrateEntry, hbackfill]
  rfl

/-- An old store is rebuilt from what its entries become. -/
theorem migrate_of_old {store : Store} (h : store.version = 0) :
    store.migrate =
      { version := storeVersion
        deployments := SortedMap.ofList (store.deployments.entries.map migrated) } := by
  have hentry : migrateEntry = fun deployments e ↦
      deployments.insert (migrated e).1 (migrated e).2 := funext₂ migrateEntry_eq_insert
  rw [migrate, h, if_neg (by decide), SortedMap.ofList, List.foldl_map, hentry]

/-- A store that is not old keeps its entries. -/
theorem migrate_of_not_old {store : Store} (h : store.version ≠ 0) :
    store.migrate = { store with version := storeVersion } := by
  have hpos : 0 < store.version.toNat :=
    Nat.pos_of_ne_zero fun hzero ↦ h (UInt32.toNat_inj.mp hzero)
  have hnew : store.version ≥ storeVersion := UInt32.le_iff_toNat_le.mpr hpos
  exact if_pos hnew

/-- What a migration is to do: keep every entry, with all that was known of it, and file it under
the key of its spec. -/
structure MigratesWhole (store : Store) : Prop where
  length : store.migrate.deployments.entries.length = store.deployments.entries.length
  kept : ∀ key m, store.get key = some m →
    ∃ key', store.migrate.get key' = some { m with spec := m.spec.backfilled }
  keyed : ∀ key m, store.migrate.get key = some m → m.spec.key = key
  version : store.migrate.version = storeVersion
  again : store.migrate.migrate = store.migrate

/-- A key with a slash is that of its spec, and no two specs have one key. -/
structure Rekeyable (store : Store) : Prop where
  slashed : ∀ key m, store.get key = some m → '/' ∈ key.toList → m.spec.backfilled.key = key
  apart : ∀ key m key' m', store.get key = some m → store.get key' = some m' →
    m.spec.backfilled.key = m'.spec.backfilled.key → key = key'

variable {store : Store}

/-- The new key is that of the spec where the old ones with a slash were. -/
theorem Rekeyable.migrated_fst (h : store.Rekeyable) {e : String × ManagedDeployment}
    (he : e ∈ store.deployments.entries) : (migrated e).1 = e.2.spec.backfilled.key := by
  rw [migrated]
  split_ifs with hslash
  · exact (h.slashed e.1 e.2 (SortedMap.get_eq_some_iff.mpr he) hslash).symm
  · rfl

theorem Rekeyable.nodup_migrated (h : store.Rekeyable) :
    ((store.deployments.entries.map migrated).map Prod.fst).Nodup := by
  rw [List.map_map]
  have hnodup : store.deployments.entries.Nodup := store.deployments.nodup_keys.of_map _
  refine hnodup.map_on fun e he e' he' heq ↦ ?_
  have hget := SortedMap.get_eq_some_iff.mpr he
  have hget' := SortedMap.get_eq_some_iff.mpr he'
  have hkey : e.1 = e'.1 := by
    refine h.apart e.1 e.2 e'.1 e'.2 hget hget' ?_
    rw [← h.migrated_fst he, ← h.migrated_fst he']
    exact heq
  rw [hkey] at hget
  exact Prod.ext hkey (Option.some.inj (hget.symm.trans hget'))

/-- As many entries are left as new keys differ. -/
theorem length_migrate_iff (hversion : store.version = 0) :
    store.migrate.deployments.entries.length = store.deployments.entries.length ↔
      ((store.deployments.entries.map migrated).map Prod.fst).Nodup := by
  rw [← SortedMap.length_ofList_iff, migrate_of_old hversion, List.length_map]

/-- Where no new key is taken twice an entry is found under its own. -/
theorem migrate_get (hversion : store.version = 0)
    (hnodup : ((store.deployments.entries.map migrated).map Prod.fst).Nodup) {key : String}
    {m : ManagedDeployment} (hget : store.get key = some m) :
    store.migrate.get (migrated (key, m)).1 = some (migrated (key, m)).2 := by
  rw [migrate_of_old hversion]
  exact SortedMap.get_ofList_of_mem hnodup
    (List.mem_map_of_mem (f := migrated) (SortedMap.get_eq_some_iff.mp hget))

theorem MigratesWhole.rekeyable (h : store.MigratesWhole) (hversion : store.version = 0) :
    store.Rekeyable := by
  have hnodup := (length_migrate_iff hversion).mp h.length
  have hkey : ∀ key m, store.get key = some m →
      (migrated (key, m)).1 = m.spec.backfilled.key := fun key m hget ↦
    (h.keyed _ _ (migrate_get hversion hnodup hget)).symm
  constructor
  · intro key m hget hslash
    rw [← hkey key m hget, migrated, if_pos hslash]
  · intro key m key' m' hget hget' heq
    rw [← hkey key m hget, ← hkey key' m' hget'] at heq
    rw [List.map_map] at hnodup
    exact congrArg Prod.fst (List.inj_on_of_nodup_map hnodup
      (SortedMap.get_eq_some_iff.mp hget) (SortedMap.get_eq_some_iff.mp hget') heq)

theorem Rekeyable.migratesWhole (h : store.Rekeyable) (hversion : store.version = 0) :
    store.MigratesWhole where
  length := (length_migrate_iff hversion).mpr h.nodup_migrated
  kept key m hget := ⟨_, migrate_get hversion h.nodup_migrated hget⟩
  keyed key m hget := by
    rw [migrate_of_old hversion] at hget
    obtain ⟨e, he, heq⟩ := List.mem_map.mp (SortedMap.mem_of_get_ofList hget)
    obtain ⟨rfl, rfl⟩ := Prod.mk.inj heq
    exact (h.migrated_fst he).symm
  version := by rw [migrate_of_old hversion]
  again := migrate_of_current (by rw [migrate_of_old hversion])

/-- **A migration loses nothing and restores the keys** exactly when every old key with a slash
is that of its spec and no two entries come to one key. -/
theorem migratesWhole_iff (hversion : store.version = 0) :
    store.MigratesWhole ↔ store.Rekeyable :=
  ⟨fun h ↦ h.rekeyable hversion, fun h ↦ h.migratesWhole hversion⟩

section Example

/-- A deployment `web`, of no namespace yet, with one replica. -/
def bareWeb (job : String) : ManagedDeployment where
  spec := { name := "web", image := "nginx" }
  replicas := [⟨job, "n", "9154645cdccb2449", .running⟩]

/-- An old store that knows `web` by its name and by its key. -/
def twiceWeb : Store where
  version := 0
  deployments :=
    (SortedMap.empty.insert "web" (bareWeb "a")).insert "default/web" (bareWeb "b")

/-- Of the two one is left, and with the other its replica is forgotten. -/
theorem migratesWhole_twice :
    ¬ twiceWeb.MigratesWhole ∧ twiceWeb.migrate.names = ["default/web"] ∧
      (twiceWeb.migrate.get "default/web").map (jobIds ·.replicas) = some ["a"] := by
  refine ⟨fun h ↦ ?_, by decide, by decide⟩
  exact absurd h.length (by decide)

/-- An old store that knows `web` once. -/
theorem migratesWhole_once :
    ({ version := 0, deployments := SortedMap.empty.insert "web" (bareWeb "a") } :
      Store).MigratesWhole := by
  refine (migratesWhole_iff rfl).mpr ⟨fun key m hget hslash ↦ ?_,
    fun key m key' m' hget hget' _ ↦ ?_⟩
  · obtain ⟨rfl, -⟩ := Prod.mk.inj (List.mem_singleton.mp (SortedMap.get_eq_some_iff.mp hget))
    exact absurd hslash (by decide)
  · obtain ⟨rfl, -⟩ := Prod.mk.inj (List.mem_singleton.mp (SortedMap.get_eq_some_iff.mp hget))
    obtain ⟨rfl, -⟩ := Prod.mk.inj (List.mem_singleton.mp (SortedMap.get_eq_some_iff.mp hget'))
    rfl

end Example

end Store

end CeGke
