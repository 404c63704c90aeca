import CeGke.Lib.Bytes

/-!
# Codecs

A codec writes a value as bytes, if it can, and reads one back from the front of a list of
bytes.  What it has written it reads, whatever follows (`decode_encode`), so codecs can be
put together: pairs, options, lists and texts, and types in bijection with part of a
codec's.
-/

namespace CeGke.Lib

variable {α β : Type*}

/-- The number that little-endian bytes stand for. -/
def leValue : List UInt8 → ℕ
  | [] => 0
  | b :: bytes => b.toNat + 256 * leValue bytes

theorem leValue_leBytes {k n : ℕ} (h : n < 256 ^ k) : leValue (leBytes k n) = n := by
  induction k generalizing n with
  | zero =>
      rw [pow_zero, Nat.lt_one_iff] at h
      exact h.symm
  | succ k ih =>
      have hdiv : n / 256 < 256 ^ k := Nat.div_lt_of_lt_mul (by rwa [← Nat.pow_succ'])
      have hbyte : (UInt8.ofNat (n % 256)).toNat = n % 256 := by
        rw [UInt8.toNat_ofNat']
        exact Nat.mod_mod n 256
      rw [leBytes, leValue, ih hdiv, hbyte]
      exact Nat.mod_add_div n 256

/-- The text that UTF-8 bytes stand for. -/
def ofBytes (bytes : List UInt8) : Option String :=
  if h : bytes.toByteArray.IsValidUTF8 then some (String.ofByteArray bytes.toByteArray h)
  else none

theorem ofBytes_asBytes (s : String) : ofBytes (asBytes s) = some s := by
  have hvalid : (asBytes s).toByteArray.IsValidUTF8 := by
    rw [toByteArray_asBytes]
    exact s.isValidUTF8
  rw [ofBytes, dif_pos hvalid, Option.some.injEq, ← String.toByteArray_inj]
  exact toByteArray_asBytes s

/-- A writer and a reader that reads what was written. -/
structure Codec (α : Type*) where
  encode : α → Option (List UInt8)
  decode : List UInt8 → Option (α × List UInt8)
  decode_encode {a : α} {bytes : List UInt8} (h : encode a = some bytes) (rest : List UInt8) :
    decode (bytes ++ rest) = some (a, rest)

namespace Codec

/-- Numbers of so many bytes, little-endian. -/
def number (width : ℕ) : Codec ℕ where
  encode n := if n < 256 ^ width then some (leBytes width n) else none
  decode bytes :=
    if width ≤ bytes.length then some (leValue (bytes.take width), bytes.drop width) else none
  decode_encode := by
    intro n bytes h rest
    obtain ⟨hn, hbytes⟩ := Option.ite_none_right_eq_some.mp h
    obtain rfl := Option.some.inj hbytes
    have hlen := length_leBytes width n
    rw [if_pos (by rw [List.length_append]; omega), List.take_left' hlen, List.drop_left' hlen,
      leValue_leBytes hn]

/-- The values that `f` writes as values of `c`. -/
def map (c : Codec α) (f : β → α) (g : α → Option β) (hg : ∀ b, g (f b) = some b) : Codec β where
  encode b := c.encode (f b)
  decode bytes := (c.decode bytes).bind fun p ↦ (g p.1).map (·, p.2)
  decode_encode := by
    intro b bytes h rest
    rw [c.decode_encode h rest, Option.bind_some, hg, Option.map_some]

/-- One value after the other. -/
def pair (c : Codec α) (d : Codec β) : Codec (α × β) where
  encode p := (c.encode p.1).bind fun x ↦ (d.encode p.2).map (x ++ ·)
  decode bytes := (c.decode bytes).bind fun p ↦
    (d.decode p.2).map fun q ↦ ((p.1, q.1), q.2)
  decode_encode := by
    rintro ⟨a, b⟩ bytes h rest
    obtain ⟨x, hx, h⟩ := Option.bind_eq_some_iff.mp h
    obtain ⟨y, hy, rfl⟩ := Option.map_eq_some_iff.mp h
    rw [List.append_assoc, c.decode_encode hx, Option.bind_some, d.decode_encode hy,
      Option.map_some]

/-- A byte that says whether there is a value, and the value. -/
def option (c : Codec α) : Codec (Option α) where
  encode
    | none => some [0]
    | some a => (c.encode a).map (1 :: ·)
  decode
    | 0 :: rest => some (none, rest)
    | 1 :: rest => (c.decode rest).map fun p ↦ (some p.1, p.2)
    | _ => none
  decode_encode := by
    intro o bytes h rest
    cases o with
    | none =>
        obtain rfl := Option.some.inj h
        rfl
    | some a =>
        obtain ⟨x, hx, rfl⟩ := Option.map_eq_some_iff.mp h
        exact congrArg (Option.map fun p ↦ (some p.1, p.2)) (c.decode_encode hx rest)

/-! ## Lists -/

/-- The entries, one after the other. -/
def encodeAll (c : Codec α) : List α → Option (List UInt8)
  | [] => some []
  | a :: l => (c.encode a).bind fun x ↦ (c.encodeAll l).map (x ++ ·)

/-- So many entries. -/
def decodeAll (c : Codec α) : ℕ → List UInt8 → Option (List α × List UInt8)
  | 0, bytes => some ([], bytes)
  | n + 1, bytes => (c.decode bytes).bind fun p ↦
      (c.decodeAll n p.2).map fun q ↦ (p.1 :: q.1, q.2)

theorem decodeAll_encodeAll (c : Codec α) {l : List α} {bytes : List UInt8}
    (h : c.encodeAll l = some bytes) (rest : List UInt8) :
    c.decodeAll l.length (bytes ++ rest) = some (l, rest) := by
  induction l generalizing bytes with
  | nil =>
      obtain rfl := Option.some.inj h
      rfl
  | cons a l ih =>
      obtain ⟨x, hx, h⟩ := Option.bind_eq_some_iff.mp h
      obtain ⟨y, hy, rfl⟩ := Option.map_eq_some_iff.mp h
      rw [List.append_assoc, List.length_cons, decodeAll, c.decode_encode hx, Option.bind_some,
        ih hy, Option.map_some]

/-- The length in eight bytes, and the entries. -/
def list (c : Codec α) : Codec (List α) where
  encode l := ((number 8).encode l.length).bind fun x ↦ (c.encodeAll l).map (x ++ ·)
  decode bytes := ((number 8).decode bytes).bind fun p ↦ c.decodeAll p.1 p.2
  decode_encode := by
    intro l bytes h rest
    obtain ⟨x, hx, h⟩ := Option.bind_eq_some_iff.mp h
    obtain ⟨y, hy, rfl⟩ := Option.map_eq_some_iff.mp h
    rw [List.append_assoc, (number 8).decode_encode hx, Option.bind_some,
      c.decodeAll_encodeAll hy]

/-! ## Bytes and texts -/

/-- A byte. -/
def byte : Codec UInt8 :=
  (number 1).map UInt8.toNat (fun n ↦ some (UInt8.ofNat n)) fun _ ↦ by rw [UInt8.ofNat_toNat]

/-- A text, as the list of its bytes. -/
def string : Codec String := byte.list.map asBytes ofBytes ofBytes_asBytes

/-- A truth value: 0 or 1. -/
def bool : Codec Bool :=
  (number 1).map Bool.toNat
    (fun n ↦ if n = 0 then some false else if n = 1 then some true else none)
    (by decide)

end Codec

end CeGke.Lib
