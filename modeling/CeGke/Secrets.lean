import CeGke.Lib.Json
import CeGke.Spec

/-!
# The secret store

`SecretStore` of `src/secrets.rs`, the file of values by name that the environment of a deployment
refers to, and the `secret` command of `src/main.rs`.  The names are printed, the values never
(`SecretOp.Alike`).
-/

namespace CeGke

open Lib

/-- The values by name. -/
structure SecretStore where
  secrets : SortedMap String String := SortedMap.empty
deriving DecidableEq

namespace SecretStore

/-- `SecretStore::set`. -/
def set (store : SecretStore) (name value : String) : SecretStore :=
  { store with secrets := store.secrets.insert name value }

/-- `SecretStore::remove`: also whether the secret existed. -/
def remove (store : SecretStore) (name : String) : Bool × SecretStore :=
  ((store.secrets.get name).isSome, { store with secrets := store.secrets.erase name })

/-- `SecretStore::get`. -/
def get (store : SecretStore) (name : String) : Option String := store.secrets.get name

/-- `SecretStore::names`. -/
def names (store : SecretStore) : List String := store.secrets.keys

/-! ## The file -/

def fields : Fields SecretStore SecretStore :=
  Fields.pure mk |>.ap (.default "secrets" (.sortedMap .string) .empty secrets) rfl

def codec : JsonCodec SecretStore := fields.codec fun _ ↦ rfl

/-- `SecretStore::load` on what the file holds, if there is one. -/
def load (path : String) : Option Json → Except String SecretStore
  | some v =>
      match codec.decode v with
      | some store => .ok store
      | none => .error s!"secret file {path} is corrupt"
  | none => .ok {}

/-- What `SecretStore::save` writes is read back. -/
theorem load_encode (store : SecretStore) (path : String) :
    load path (some (codec.encode store)) = .ok store := by
  rw [load, codec.decode_encode]

/-! ## Stores that differ in the values -/

/-- The same names are known. -/
def Alike (store store' : SecretStore) : Prop := store.names = store'.names

variable {store store' : SecretStore}

theorem alike_iff : store.Alike store' ↔
    ∀ name, (store.get name).isSome = (store'.get name).isSome :=
  SortedMap.keys_eq_iff

/-- A name is set in both, to any two values. -/
theorem Alike.set (h : store.Alike store') (name value value' : String) :
    (store.set name value).Alike (store'.set name value') := by
  refine alike_iff.mpr fun k ↦ ?_
  simp only [get, SecretStore.set, SortedMap.get_insert]
  split_ifs
  · rfl
  · exact alike_iff.mp h k

/-- A name is removed from both. -/
theorem Alike.remove (h : store.Alike store') (name : String) :
    (store.remove name).1 = (store'.remove name).1 ∧
      (store.remove name).2.Alike (store'.remove name).2 := by
  refine ⟨alike_iff.mp h name, alike_iff.mpr fun k ↦ ?_⟩
  simp only [get, SecretStore.remove, SortedMap.get_erase]
  split_ifs
  · rfl
  · exact alike_iff.mp h k

end SecretStore

/-! ## The command -/

/-- `SecretOp`. -/
inductive SecretOp where
  | /-- The value `-` stands for what is on the standard input. -/
    set (name value : String)
  | rm (name : String)
  | ls
deriving DecidableEq, Repr

/-- `str::trim_end_matches('\n')`. -/
def trimNewlines (s : String) : String :=
  String.ofList (s.toList.rdropWhile (· = '\n'))

/-- `secret_cmd`, from the store in the file to what it prints and the store it leaves there;
`stdin` is what reading the standard input gives. -/
def secretCmd (stdin : Except String String) :
    SecretOp → SecretStore → Except String (List String × SecretStore)
  | .set name value, store => do
      let value ← if value = "-" then stdin.map trimNewlines else .ok value
      return ([s!"Set secret '{name}'."], store.set name value)
  | .rm name, store =>
      let (existed, rest) := store.remove name
      if existed then .ok ([s!"Removed secret '{name}'."], rest)
      else .ok ([s!"No secret '{name}'."], store)
  | .ls, store =>
      .ok (if store.names = [] then ["No secrets."] else store.names, store)

end CeGke
