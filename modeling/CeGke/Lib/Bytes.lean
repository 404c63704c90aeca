import Mathlib.Algebra.Group.Nat.Defs
import Mathlib.Algebra.Order.Monoid.Unbundled.Pow
import Mathlib.Data.List.Basic

/-!
# Byte encodings

The pieces a hand-written binary encoding is made of, over no program in
particular: UTF-8 text, little-endian numbers of fixed width, and lists whose
entries end with a delimiter.

A delimiter separates what it delimits only where the text does not contain it.
`append_delim_inj` is the good case; `terminated_eq_iff` says what is left in the
bad one: terminated lists have the same text exactly when cutting every entry at
the delimiter gives the same pieces.
-/

namespace CeGke.Lib

/-! ## Text -/

/-- The UTF-8 bytes of a string. -/
def asBytes (s : String) : List UInt8 := s.toList.flatMap String.utf8EncodeChar

theorem toByteArray_asBytes (s : String) : (asBytes s).toByteArray = s.toByteArray :=
  String.utf8Encode_toList

theorem asBytes_inj {s t : String} : asBytes s = asBytes t ↔ s = t := by
  constructor
  · intro h
    rw [← String.toByteArray_inj, ← toByteArray_asBytes, ← toByteArray_asBytes, h]
  · rintro rfl
    rfl

/-- Only the NUL character is encoded with a zero byte. -/
theorem zero_mem_utf8EncodeChar {c : Char} (h : 0 ∈ String.utf8EncodeChar c) :
    c.toNat = 0 := by
  have hv : ∀ n : Nat, (0 : UInt8) = UInt8.ofNat n ↔ n % 256 = 0 := fun n ↦ by
    rw [← UInt8.toNat_inj]
    simp [eq_comm]
  simp only [String.utf8EncodeChar] at h
  change c.val.toNat = 0
  have := c.val.toNat_lt
  split at h
  · rw [List.mem_singleton, hv] at h
    omega
  all_goals
    exfalso
    split at h <;> try split at h
    all_goals
      simp only [List.mem_cons, List.not_mem_nil, or_false, hv] at h
      omega

theorem zero_mem_asBytes {s : String} (h : 0 ∈ asBytes s) : ∃ c ∈ s.toList, c.toNat = 0 := by
  obtain ⟨c, hc, h0⟩ := List.mem_flatMap.mp h
  exact ⟨c, hc, zero_mem_utf8EncodeChar h0⟩

/-! ## Numbers -/

/-- The `k` low bytes of `n`, least significant first. -/
def leBytes : ℕ → ℕ → List UInt8
  | 0, _ => []
  | k + 1, n => UInt8.ofNat (n % 256) :: leBytes k (n / 256)

@[simp] theorem length_leBytes (k n : ℕ) : (leBytes k n).length = k := by
  induction k generalizing n with
  | zero => rfl
  | succ k ih => simp [leBytes, ih]

/-- A number is determined by its bytes when it fits. -/
theorem leBytes_inj {k m n : ℕ} (hm : m < 256 ^ k) (hn : n < 256 ^ k)
    (h : leBytes k m = leBytes k n) : m = n := by
  induction k generalizing m n with
  | zero => simp at hm hn; omega
  | succ k ih =>
      simp only [leBytes, List.cons.injEq] at h
      have hmod : m % 256 = n % 256 := by
        have := congrArg UInt8.toNat h.1
        simpa using this
      have hdiv : m / 256 = n / 256 :=
        ih (Nat.div_lt_of_lt_mul (by rwa [← Nat.pow_succ']))
          (Nat.div_lt_of_lt_mul (by rwa [← Nat.pow_succ'])) h.2
      omega

/-! ## Delimited lists -/

section Delimiter

variable {α : Type*}

/-- The first delimiter after delimiter-free text tells where the text ends. -/
theorem append_delim_inj {z : α} {u v s t : List α} (hu : z ∉ u) (hv : z ∉ v)
    (h : u ++ z :: s = v ++ z :: t) : u = v ∧ s = t := by
  induction u generalizing v with
  | nil =>
      cases v with
      | nil => exact ⟨rfl, by simpa using h⟩
      | cons b v =>
          simp only [List.nil_append, List.cons_append, List.cons.injEq] at h
          exact absurd (List.mem_cons.mpr (Or.inl h.1)) hv
  | cons a u ih =>
      cases v with
      | nil =>
          simp only [List.nil_append, List.cons_append, List.cons.injEq] at h
          exact absurd (List.mem_cons.mpr (Or.inl h.1.symm)) hu
      | cons b v =>
          simp only [List.cons_append, List.cons.injEq] at h
          rw [List.mem_cons, not_or] at hu hv
          obtain ⟨huv, hst⟩ := ih hu.2 hv.2 h.2
          exact ⟨by rw [h.1, huv], hst⟩

/-- Every entry followed by the delimiter. -/
def terminated (z : α) (xs : List (List α)) : List α := xs.flatMap (· ++ [z])

@[simp] theorem terminated_nil (z : α) : terminated z [] = [] := rfl

theorem terminated_cons (z : α) (x : List α) (xs : List (List α)) :
    terminated z (x :: xs) = x ++ z :: terminated z xs := by
  simp [terminated]

/-- What a final delimiter leaves behind it is an empty piece. -/
theorem intercalate_append_nil (z : α) (ps : List (List α)) :
    [z].intercalate (ps ++ [[]]) = terminated z ps := by
  induction ps with
  | nil => rfl
  | cons p ps ih =>
      rw [terminated_cons, ← ih, List.cons_append]
      cases ps <;> simp [List.intercalate]

variable [BEq α] [LawfulBEq α]

/-- The pieces the delimiters leave of a list of entries. -/
def pieces (z : α) (xs : List (List α)) : List (List α) := xs.flatMap (List.splitOn z)

theorem splitOn_terminated_append (z : α) (xs : List (List α)) (w : List α) :
    (terminated z xs ++ w).splitOn z = pieces z xs ++ w.splitOn z := by
  induction xs with
  | nil => simp [pieces]
  | cons x xs ih =>
      rw [terminated_cons, List.append_assoc, List.cons_append, List.splitOn_append_cons_self, ih]
      simp [pieces]

theorem splitOn_terminated (z : α) (xs : List (List α)) :
    (terminated z xs).splitOn z = pieces z xs ++ [[]] := by
  have h := splitOn_terminated_append z xs []
  rwa [List.append_nil, List.splitOn_nil] at h

/-- Cutting the entries at the delimiter does not change the text. -/
theorem terminated_pieces (z : α) (xs : List (List α)) :
    terminated z (pieces z xs) = terminated z xs := by
  rw [← intercalate_append_nil, ← splitOn_terminated, List.intercalate_splitOn]

/-- Terminated lists have the same text exactly when their entries, cut at the
delimiter, are the same pieces. -/
theorem terminated_eq_iff {z : α} {xs ys : List (List α)} :
    terminated z xs = terminated z ys ↔ pieces z xs = pieces z ys := by
  constructor
  · intro h
    have hs := congrArg (List.splitOn z) h
    rw [splitOn_terminated, splitOn_terminated] at hs
    exact List.append_cancel_right hs
  · intro h
    rw [← terminated_pieces, h, terminated_pieces]

/-- One terminated list continues another exactly when its pieces do. -/
theorem terminated_eq_append_iff {z : α} {xs ys : List (List α)} {w : List α} :
    terminated z ys = terminated z xs ++ w ↔
      ∃ ps, pieces z ys = pieces z xs ++ ps ∧ w = terminated z ps := by
  constructor
  · intro h
    have hs := congrArg (List.splitOn z) h
    rw [splitOn_terminated, splitOn_terminated_append] at hs
    obtain hnil | ⟨ps, last, hw⟩ := List.eq_nil_or_concat (w.splitOn z)
    · exact absurd hnil (List.splitOn_ne_nil z w)
    rw [List.concat_eq_append] at hw
    rw [hw, ← List.append_assoc] at hs
    obtain ⟨hps, hlast⟩ := List.append_inj' hs rfl
    refine ⟨ps, hps, ?_⟩
    rw [← @List.intercalate_splitOn _ w _ _ z, hw, ← hlast, intercalate_append_nil]
  · rintro ⟨ps, hps, rfl⟩
    rw [← terminated_pieces, hps, ← terminated_pieces z xs]
    exact List.flatMap_append

end Delimiter

/-! ## Hexadecimal -/

/-- The lower-case hexadecimal digit of `n < 16`. -/
def hexDigit (n : ℕ) : Char := if n < 10 then Char.ofNat (48 + n) else Char.ofNat (87 + n)

/-- `hex::encode`: two digits a byte. -/
def hexEncode (bytes : List UInt8) : String :=
  String.ofList <| bytes.flatMap fun b ↦ [hexDigit (b.toNat / 16), hexDigit (b.toNat % 16)]

theorem hexDigit_inj {m n : ℕ} (hm : m < 16) (hn : n < 16) (h : hexDigit m = hexDigit n) :
    m = n := by
  have key : ∀ m < 16, ∀ n < 16, hexDigit m = hexDigit n → m = n := by decide
  exact key m hm n hn h

theorem hexEncode_inj {bs cs : List UInt8} : hexEncode bs = hexEncode cs ↔ bs = cs := by
  constructor
  · intro h
    rw [hexEncode, hexEncode, String.ofList_inj] at h
    induction bs generalizing cs with
    | nil =>
        cases cs with
        | nil => rfl
        | cons c cs => simp at h
    | cons b bs ih =>
        cases cs with
        | nil => simp at h
        | cons c cs =>
            simp only [List.flatMap_cons, List.cons_append, List.nil_append,
              List.cons.injEq] at h
            have hb := b.toNat_lt
            have hc := c.toNat_lt
            have hhi := hexDigit_inj (by omega) (by omega) h.1
            have hlo := hexDigit_inj (by omega) (by omega) h.2.1
            rw [ih h.2.2, show b = c from UInt8.toNat_inj.mp (by omega)]
  · rintro rfl
    rfl

/-- The value of a hexadecimal digit, in either case. -/
def hexValue (c : Char) : Option ℕ :=
  if 48 ≤ c.toNat ∧ c.toNat ≤ 57 then some (c.toNat - 48)
  else if 97 ≤ c.toNat ∧ c.toNat ≤ 102 then some (c.toNat - 87)
  else if 65 ≤ c.toNat ∧ c.toNat ≤ 70 then some (c.toNat - 55)
  else none

/-- `hex::decode`, on the characters. -/
def hexDecode : List Char → Option (List UInt8)
  | [] => some []
  | [_] => none
  | hi :: lo :: cs =>
      (hexValue hi).bind fun m ↦ (hexValue lo).bind fun n ↦
        (hexDecode cs).map fun bytes ↦ UInt8.ofNat (16 * m + n) :: bytes

theorem hexValue_hexDigit {n : ℕ} (hn : n < 16) : hexValue (hexDigit n) = some n := by
  have key : ∀ n < 16, hexValue (hexDigit n) = some n := by decide
  exact key n hn

theorem hexDecode_hexEncode (bytes : List UInt8) :
    hexDecode (hexEncode bytes).toList = some bytes := by
  rw [hexEncode, String.toList_ofList]
  induction bytes with
  | nil => rfl
  | cons b bytes ih =>
      have hb := b.toNat_lt
      have hbyte : UInt8.ofNat (16 * (b.toNat / 16) + b.toNat % 16) = b := by
        rw [Nat.div_add_mod, UInt8.ofNat_toNat]
      rw [List.flatMap_cons, List.cons_append, List.cons_append, List.nil_append, hexDecode,
        hexValue_hexDigit (by omega), hexValue_hexDigit (by omega), ih]
      simp only [Option.bind_some, Option.map_some, hbyte]

end CeGke.Lib
