import CeGke.Lib.SortedMap
import Mathlib.Data.String.Basic

/-!
# JSON values and what is written as one

A value tree, and codecs between types and trees.  The codec of a record is put together field by
field (`Fields`): a field has a key, may be absent where it has a default, and is read whatever
other fields stand around it, so the fields of one record can stand among those of another.  The
codec of a type with cases writes the case under a key of its own (`Variants`).

A codec carries the proof that it reads what it has written.
-/

namespace CeGke.Lib

/-- A JSON value; the numbers are integers. -/
inductive Json where
  | null
  | bool (b : Bool)
  | num (n : ℤ)
  | str (s : String)
  | arr (items : List Json)
  | obj (fields : List (String × Json))

/-- A writer and a reader that reads what was written. -/
structure JsonCodec (α : Type*) where
  encode : α → Json
  decode : Json → Option α
  decode_encode (a : α) : decode (encode a) = some a

variable {α β ρ κ : Type*}

namespace JsonCodec

/-! ## Values -/

/-- A truth value. -/
def bool : JsonCodec Bool where
  encode := .bool
  decode
    | .bool b => some b
    | _ => none
  decode_encode _ := rfl

/-- A text. -/
def string : JsonCodec String where
  encode := .str
  decode
    | .str s => some s
    | _ => none
  decode_encode _ := rfl

/-- The numbers below a bound. -/
def nat (bound : ℕ) : JsonCodec { n : ℕ // n < bound } where
  encode n := .num n.1
  decode
    | .num n => if h : 0 ≤ n ∧ n.toNat < bound then some ⟨n.toNat, h.2⟩ else none
    | _ => none
  decode_encode n := by
    have h : 0 ≤ (n.1 : ℤ) ∧ (n.1 : ℤ).toNat < bound := ⟨Int.natCast_nonneg _, by simp [n.2]⟩
    exact (dif_pos h).trans (congrArg some (Subtype.ext (Int.toNat_natCast _)))

/-- The values that `f` writes as values of `c`. -/
def map (c : JsonCodec α) (f : β → α) (g : α → Option β) (hg : ∀ b, g (f b) = some b) :
    JsonCodec β where
  encode b := c.encode (f b)
  decode v := (c.decode v).bind g
  decode_encode b := by rw [c.decode_encode, Option.bind_some, hg]

/-- A `u16`. -/
def uint16 : JsonCodec UInt16 :=
  (nat UInt16.size).map (fun n ↦ ⟨n.toNat, n.toNat_lt⟩) (fun n ↦ some (.ofNat n.1)) fun n ↦ by
    rw [UInt16.ofNat_toNat]

/-- A `u32`. -/
def uint32 : JsonCodec UInt32 :=
  (nat UInt32.size).map (fun n ↦ ⟨n.toNat, n.toNat_lt⟩) (fun n ↦ some (.ofNat n.1)) fun n ↦ by
    rw [UInt32.ofNat_toNat]

/-- A `u64`. -/
def uint64 : JsonCodec UInt64 :=
  (nat UInt64.size).map (fun n ↦ ⟨n.toNat, n.toNat_lt⟩) (fun n ↦ some (.ofNat n.1)) fun n ↦ by
    rw [UInt64.ofNat_toNat]

/-- Nothing is `null`. -/
def option (c : JsonCodec α) (hc : ∀ a, c.encode a ≠ .null) : JsonCodec (Option α) where
  encode
    | none => .null
    | some a => c.encode a
  decode
    | .null => some none
    | v => (c.decode v).map some
  decode_encode o := by
    cases o with
    | none => rfl
    | some a =>
        have hdecode := congrArg (Option.map some) (c.decode_encode a)
        split
        · rename_i hnull
          exact absurd hnull (hc a)
        · exact hdecode

/-- Read every entry. -/
def decodeAll (c : JsonCodec α) : List Json → Option (List α)
  | [] => some []
  | v :: items => (c.decode v).bind fun a ↦ (c.decodeAll items).map (a :: ·)

theorem decodeAll_map_encode (c : JsonCodec α) (l : List α) :
    c.decodeAll (l.map c.encode) = some l := by
  induction l with
  | nil => rfl
  | cons a l ih =>
      rw [List.map_cons, decodeAll, c.decode_encode, ih]
      rfl

/-- A list. -/
def list (c : JsonCodec α) : JsonCodec (List α) where
  encode l := .arr (l.map c.encode)
  decode
    | .arr items => c.decodeAll items
    | _ => none
  decode_encode := c.decodeAll_map_encode

/-- Read the value of every field. -/
def decodeFields (c : JsonCodec α) : List (String × Json) → Option (List (String × α))
  | [] => some []
  | f :: fields => (c.decode f.2).bind fun a ↦ (c.decodeFields fields).map ((f.1, a) :: ·)

theorem decodeFields_map_encode (c : JsonCodec α) (l : List (String × α)) :
    c.decodeFields (l.map fun e ↦ (e.1, c.encode e.2)) = some l := by
  induction l with
  | nil => rfl
  | cons e l ih =>
      rw [List.map_cons, decodeFields, c.decode_encode, ih]
      rfl

/-- A map, with its keys for the keys of an object. -/
def sortedMap (c : JsonCodec α) : JsonCodec (SortedMap String α) where
  encode m := .obj (m.entries.map fun e ↦ (e.1, c.encode e.2))
  decode
    | .obj fields => (c.decodeFields fields).map SortedMap.ofList
    | _ => none
  decode_encode m := by
    show Option.map _ (c.decodeFields _) = _
    rw [c.decodeFields_map_encode, Option.map_some, SortedMap.ofList_entries]

end JsonCodec

/-! ## Fields -/

/-- A codec of some fields of an object, which are written of a record `ρ` and read as an `α`:
that of `get`. -/
structure Fields (ρ α : Type*) where
  keys : List String
  get : ρ → α
  write : ρ → List (String × Json)
  read : List (String × Json) → Option α
  /-- It writes its own keys. -/
  write_mem {r : ρ} {f : String × Json} : f ∈ write r → f.1 ∈ keys
  /-- It looks at its own keys. -/
  read_filter (fs : List (String × Json)) : read (fs.filter fun f ↦ f.1 ∈ keys) = read fs
  read_write (r : ρ) : read (write r) = some (get r)

namespace Fields

/-- The fields of a key. -/
def under (key : String) (fs : List (String × Json)) : List Json :=
  (fs.filter fun f ↦ f.1 = key).map Prod.snd

/-- The fields of a key are found among those of several. -/
theorem under_filter {ks : List String} {key : String} (h : key ∈ ks)
    (fs : List (String × Json)) : under key (fs.filter fun f ↦ f.1 ∈ ks) = under key fs := by
  rw [under, under, List.filter_filter]
  congr 1
  apply List.filter_congr
  intro f _
  by_cases hf : f.1 = key
  · simp [hf, h]
  · simp [hf]

theorem under_cons_self (key : String) (v : Json) (fs : List (String × Json)) :
    under key ((key, v) :: fs) = v :: under key fs := by
  simp [under]

theorem under_eq_nil {key : String} {fs : List (String × Json)} (h : ∀ f ∈ fs, f.1 ≠ key) :
    under key fs = [] := by
  rw [under, List.filter_eq_nil_iff.mpr, List.map_nil]
  exact fun f hf ↦ by simpa using h f hf

/-- No field at all. -/
def pure (a : α) : Fields ρ α where
  keys := []
  get _ := a
  write _ := []
  read _ := some a
  write_mem h := absurd h List.not_mem_nil
  read_filter _ := rfl
  read_write _ := rfl

/-- A field: `missing` is its value where it is absent, if it may be absent, and `skip` says of
which values it is not written. -/
def entry (key : String) (c : JsonCodec α) (missing : Option α) (skip : α → Bool)
    (hskip : ∀ a, skip a → missing = some a) (get : ρ → α) : Fields ρ α where
  keys := [key]
  get
  write r := if skip (get r) then [] else [(key, c.encode (get r))]
  read fs :=
    match under key fs with
    | [] => missing
    | [v] => c.decode v
    | _ => none
  write_mem := by
    intro r f hf
    split_ifs at hf
    · exact absurd hf List.not_mem_nil
    · exact List.mem_singleton.mpr (congrArg Prod.fst (List.mem_singleton.mp hf))
  read_filter fs := by rw [under_filter (List.mem_singleton_self key)]
  read_write r := by
    split_ifs with h
    · exact hskip _ h
    · simp only [under_cons_self]
      exact c.decode_encode _

/-- A field that has to be there. -/
def required (key : String) (c : JsonCodec α) (get : ρ → α) : Fields ρ α :=
  entry key c none (fun _ ↦ false) (fun _ h ↦ absurd h Bool.false_ne_true) get

/-- A field with a default. -/
def default (key : String) (c : JsonCodec α) (dflt : α) (get : ρ → α) : Fields ρ α :=
  entry key c (some dflt) (fun _ ↦ false) (fun _ h ↦ absurd h Bool.false_ne_true) get

/-- A field with a default that is not written where `skip` holds, which is of the default. -/
def skipped (key : String) (c : JsonCodec α) (dflt : α) (skip : α → Bool)
    (hskip : ∀ a, skip a → a = dflt) (get : ρ → α) : Fields ρ α :=
  entry key c (some dflt) skip (fun a h ↦ congrArg some (hskip a h).symm) get

/-- A text that is not written where it is empty. -/
def unlessBlank (key : String) (get : ρ → String) : Fields ρ String :=
  skipped key .string "" String.isEmpty (fun _ ↦ String.isEmpty_iff.mp) get

/-- A list that is not written where it is empty. -/
def unlessEmpty (key : String) (c : JsonCodec α) (get : ρ → List α) : Fields ρ (List α) :=
  skipped key c.list [] List.isEmpty (fun _ ↦ List.isEmpty_iff.mp) get

/-- Something that may be absent, and is not written then. -/
def unlessNone (key : String) (c : JsonCodec α) (hc : ∀ a, c.encode a ≠ .null)
    (get : ρ → Option α) : Fields ρ (Option α) :=
  skipped key (c.option hc) none Option.isNone (fun _ ↦ Option.isNone_iff_eq_none.mp) get

/-- The fields of a part of the record, among those of the record. -/
def flatten (c : Fields κ α) (part : ρ → κ) : Fields ρ α where
  keys := c.keys
  get r := c.get (part r)
  write r := c.write (part r)
  read := c.read
  write_mem := c.write_mem
  read_filter := c.read_filter
  read_write r := c.read_write (part r)

/-- Two lists of keys have none in common. -/
def apart (ks js : List String) : Bool := ks.all fun k ↦ !js.contains k

theorem notMem_of_apart {ks js : List String} (h : apart ks js) {k : String} (hk : k ∈ ks) :
    k ∉ js := by
  have hk := List.all_eq_true.mp h k hk
  rwa [Bool.not_eq_true', List.contains_eq_mem, decide_eq_false_iff_not] at hk

theorem filter_filter_of_subset {ks js : List String} (h : ks ⊆ js)
    (fs : List (String × Json)) :
    (fs.filter fun f ↦ f.1 ∈ js).filter (fun f ↦ f.1 ∈ ks) = fs.filter fun f ↦ f.1 ∈ ks := by
  rw [List.filter_filter]
  apply List.filter_congr
  intro f _
  by_cases hf : f.1 ∈ ks
  · simp [hf, h hf]
  · simp [hf]

section Append

variable (c : Fields ρ α) (d : Fields ρ β)

/-- Other fields after its own do not matter. -/
theorem read_append_of_apart (h : apart c.keys d.keys) (r : ρ) :
    c.read (c.write r ++ d.write r) = some (c.get r) := by
  rw [← c.read_filter, List.filter_append, List.filter_eq_self.mpr, List.filter_eq_nil_iff.mpr,
    List.append_nil, c.read_write]
  · intro f hf
    rw [decide_eq_true_eq]
    exact fun hc ↦ notMem_of_apart h hc (d.write_mem hf)
  · exact fun f hf ↦ decide_eq_true (c.write_mem hf)

/-- Other fields before its own do not matter. -/
theorem append_read_of_apart (h : apart c.keys d.keys) (r : ρ) :
    d.read (c.write r ++ d.write r) = some (d.get r) := by
  rw [← d.read_filter, List.filter_append, List.filter_eq_nil_iff.mpr, List.filter_eq_self.mpr,
    List.nil_append, d.read_write]
  · exact fun f hf ↦ decide_eq_true (d.write_mem hf)
  · intro f hf
    rw [decide_eq_true_eq]
    exact notMem_of_apart h (c.write_mem hf)

/-- What is read of the keys of two is read of the keys of one. -/
theorem read_filter_of_subset {ks : List String} (h : c.keys ⊆ ks) (fs : List (String × Json)) :
    c.read (fs.filter fun f ↦ f.1 ∈ ks) = c.read fs := by
  rw [← c.read_filter, ← c.read_filter fs, filter_filter_of_subset h]

end Append

/-- The fields of a function and of its argument, which have no key in common. -/
def ap (c : Fields ρ (α → β)) (d : Fields ρ α) (h : apart c.keys d.keys) : Fields ρ β where
  keys := c.keys ++ d.keys
  get r := c.get r (d.get r)
  write r := c.write r ++ d.write r
  read fs := (c.read fs).bind fun f ↦ (d.read fs).map f
  write_mem := by
    intro r f hf
    exact (List.mem_append.mp hf).elim (fun hf ↦ List.mem_append_left _ (c.write_mem hf))
      fun hf ↦ List.mem_append_right _ (d.write_mem hf)
  read_filter fs := by
    rw [c.read_filter_of_subset (List.subset_append_left _ _),
      d.read_filter_of_subset (List.subset_append_right _ _)]
  read_write r := by
    rw [c.read_append_of_apart d h, c.append_read_of_apart d h]
    rfl

/-- The record as an object of its fields. -/
def codec (c : Fields ρ ρ) (hc : ∀ r, c.get r = r) : JsonCodec ρ where
  encode r := .obj (c.write r)
  decode
    | .obj fs => c.read fs
    | _ => none
  decode_encode r := (c.read_write r).trans (congrArg some (hc r))

end Fields

/-! ## Cases -/

/-- A codec of a type with cases: the tag of a case, and its fields. -/
structure Variants (α : Type*) where
  tags : List String
  keys : List String
  tag : α → String
  write : α → List (String × Json)
  read (tag : String) : List (String × Json) → Option α
  tag_mem (a : α) : tag a ∈ tags
  write_mem {a : α} {f : String × Json} : f ∈ write a → f.1 ∈ keys
  read_filter (t : String) (fs : List (String × Json)) :
    read t (fs.filter fun f ↦ f.1 ∈ keys) = read t fs
  read_write (a : α) : read (tag a) (write a) = some a

namespace Variants

theorem read_filter_of_subset (c : Variants α) {ks : List String} (h : c.keys ⊆ ks) (t : String)
    (fs : List (String × Json)) : c.read t (fs.filter fun f ↦ f.1 ∈ ks) = c.read t fs := by
  rw [← c.read_filter, ← c.read_filter t fs, Fields.filter_filter_of_subset h]

/-- One case. -/
def case (t : String) (c : Fields α α) (hc : ∀ a, c.get a = a) : Variants α where
  tags := [t]
  keys := c.keys
  tag _ := t
  write := c.write
  read t' fs := if t' = t then c.read fs else none
  tag_mem _ := List.mem_singleton_self t
  write_mem := c.write_mem
  read_filter t' fs := by rw [c.read_filter]
  read_write a := by rw [if_pos rfl, c.read_write, hc]

/-- The cases of two types, with no tag in common. -/
def or (c : Variants α) (d : Variants β) (h : Fields.apart d.tags c.tags) : Variants (α ⊕ β) where
  tags := c.tags ++ d.tags
  keys := c.keys ++ d.keys
  tag := Sum.elim c.tag d.tag
  write := Sum.elim c.write d.write
  read t fs := if t ∈ c.tags then (c.read t fs).map .inl else (d.read t fs).map .inr
  tag_mem
    | .inl a => List.mem_append_left _ (c.tag_mem a)
    | .inr b => List.mem_append_right _ (d.tag_mem b)
  write_mem {x _} hf := by
    cases x with
    | inl a => exact List.mem_append_left _ (c.write_mem hf)
    | inr b => exact List.mem_append_right _ (d.write_mem hf)
  read_filter t fs := by
    rw [c.read_filter_of_subset (List.subset_append_left _ _),
      d.read_filter_of_subset (List.subset_append_right _ _)]
  read_write
    | .inl a => by
        simp only [Sum.elim_inl, if_pos (c.tag_mem a), c.read_write, Option.map_some]
    | .inr b => by
        simp only [Sum.elim_inr, if_neg (Fields.notMem_of_apart h (d.tag_mem b)), d.read_write,
          Option.map_some]

/-- The cases of a type that stands for another. -/
def map (c : Variants α) (f : β → α) (g : α → β) (hg : ∀ b, g (f b) = b) : Variants β where
  tags := c.tags
  keys := c.keys
  tag b := c.tag (f b)
  write b := c.write (f b)
  read t fs := (c.read t fs).map g
  tag_mem b := c.tag_mem (f b)
  write_mem := c.write_mem
  read_filter t fs := by rw [c.read_filter]
  read_write b := by rw [c.read_write, Option.map_some, hg]

/-- The tag under a key of its own, and the fields of the case beside it. -/
def tagged (c : Variants α) (key : String) (h : Fields.apart [key] c.keys) : Fields α α where
  keys := key :: c.keys
  get a := a
  write a := (key, .str (c.tag a)) :: c.write a
  read fs :=
    match Fields.under key fs with
    | [.str t] => c.read t fs
    | _ => none
  write_mem := by
    intro a f hf
    exact (List.mem_cons.mp hf).elim (fun hf ↦ hf ▸ List.mem_cons_self)
      fun hf ↦ List.mem_cons_of_mem _ (c.write_mem hf)
  read_filter fs := by
    rw [Fields.under_filter List.mem_cons_self]
    simp only [c.read_filter_of_subset (List.subset_cons_self _ _)]
  read_write a := by
    have hkey : key ∉ c.keys := Fields.notMem_of_apart h (List.mem_singleton_self key)
    have hrest : Fields.under key (c.write a) = [] :=
      Fields.under_eq_nil fun f hf hfkey ↦ hkey (hfkey ▸ c.write_mem hf)
    have hread : c.read (c.tag a) ((key, .str (c.tag a)) :: c.write a) = some a := by
      rw [← c.read_filter, List.filter_cons_of_neg (by simpa using hkey), c.read_filter,
        c.read_write]
    simp only [Fields.under_cons_self, hrest]
    exact hread

end Variants

end CeGke.Lib
