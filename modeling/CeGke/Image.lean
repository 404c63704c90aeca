import CeGke.Lib.Lists
import CeGke.Spec

/-!
# Image references

`validate_image` of `src/spec.rs` against the grammar it is there for: some of the characters of
`a-z A-Z 0-9 . _ - / : @`, and no more bytes than `MAX_IMAGE_LEN`.  The checks are made on the
trimmed text, and what is stored, hashed and sent is the text itself, so a reference with white
space around it is accepted as well, however much of it there is (`validateImage_eq_ok_iff`).
-/

namespace CeGke

open Lib

/-! ## Trimming -/

/-- Trimming only takes white space. -/
theorem mem_trim {cs : List Char} {c : Char} (h : c ∈ cs) (hc : isWhitespace c = false) :
    c ∈ trim cs :=
  mem_strip h (ne_true_of_eq_false hc)

/-- Nothing is trimmed off a text without white space. -/
theorem trim_eq_self {cs : List Char} (h : ∀ c ∈ cs, isWhitespace c = false) : trim cs = cs :=
  strip_eq_self fun c hc ↦ ne_true_of_eq_false (h c hc)

/-! ## The grammar -/

/-- A character of image references. -/
def IsReferenceChar (c : Char) : Prop :=
  ('a' ≤ c ∧ c ≤ 'z') ∨ ('A' ≤ c ∧ c ≤ 'Z') ∨ ('0' ≤ c ∧ c ≤ '9') ∨
    c ∈ ['.', '_', '-', '/', ':', '@']

instance (c : Char) : Decidable (IsReferenceChar c) := inferInstanceAs (Decidable (_ ∨ _))

/-- An image reference as registries take it. -/
structure InRegistryGrammar (image : String) : Prop where
  chars : ∀ c ∈ image.toList, IsReferenceChar c
  pos : 1 ≤ image.utf8ByteSize
  le : image.utf8ByteSize ≤ maxImageLen

/-- A reference with white space around it. -/
def Padded (image : String) : Prop :=
  ∃ before ref after : String, image = before ++ ref ++ after ∧ InRegistryGrammar ref ∧
    (∀ c ∈ before.toList, isWhitespace c) ∧ (∀ c ∈ after.toList, isWhitespace c) ∧
      (before ≠ "" ∨ after ≠ "")

theorem isImageChar_iff {c : Char} : isImageChar c ↔ IsReferenceChar c := by
  have hletters : c.isAlphanum ↔
      ('a' ≤ c ∧ c ≤ 'z') ∨ ('A' ≤ c ∧ c ≤ 'Z') ∨ ('0' ≤ c ∧ c ≤ '9') := by
    unfold Char.isAlphanum Char.isAlpha Char.isUpper Char.isLower Char.isDigit
    simp only [Bool.or_eq_true, Bool.and_eq_true, decide_eq_true_eq, Char.le_def, ge_iff_le]
    rw [or_assoc, or_left_comm]
  simp only [isImageChar, IsReferenceChar, Bool.or_eq_true, hletters, beq_iff_eq, or_assoc,
    List.mem_cons, List.not_mem_nil, or_false]

/-- The characters of references are visible ones of ASCII. -/
theorem IsReferenceChar.toNat_mem {c : Char} (h : IsReferenceChar c) :
    33 ≤ c.toNat ∧ c.toNat < 127 := by
  have hrange : ∀ a b : Char, 33 ≤ a.toNat → b.toNat < 127 → a ≤ c ∧ c ≤ b →
      33 ≤ c.toNat ∧ c.toNat < 127 := fun a b ha hb h ↦
    ⟨ha.trans (UInt32.le_iff_toNat_le.mp h.1), (UInt32.le_iff_toNat_le.mp h.2).trans_lt hb⟩
  rcases h with h | h | h | h
  · exact hrange 'a' 'z' (by decide) (by decide) h
  · exact hrange 'A' 'Z' (by decide) (by decide) h
  · exact hrange '0' '9' (by decide) (by decide) h
  · simp only [List.mem_cons, List.not_mem_nil, or_false] at h
    rcases h with rfl | rfl | rfl | rfl | rfl | rfl
    all_goals decide

/-- White space is in no reference. -/
theorem IsReferenceChar.isWhitespace_eq {c : Char} (h : IsReferenceChar c) :
    isWhitespace c = false := by
  obtain ⟨hlow, hhigh⟩ := h.toNat_mem
  simp only [isWhitespace, Bool.or_eq_false_iff, Bool.and_eq_false_iff, decide_eq_false_iff_not,
    beq_eq_false_iff_ne]
  omega

/-- An image is accepted where what is left of it after trimming is a reference. -/
theorem validateImage_eq_ok {image : String} :
    validateImage image = .ok () ↔ InRegistryGrammar (String.ofList (trim image.toList)) := by
  simp only [validateImage, bind_eq_ok, bailIf_eq_ok, exists_const, gt_iff_lt, not_lt]
  constructor
  · rintro ⟨hne, hle, hchars⟩
    split at hchars
    · exact nomatch hchars
    · rename_i hnone
      refine ⟨fun c hc ↦ ?_, Nat.pos_of_ne_zero fun hzero ↦ ?_, hle⟩
      · have hok := List.find?_eq_none.mp hnone c hc
        rw [Bool.not_eq_true', Bool.not_eq_false] at hok
        exact isImageChar_iff.mp hok
      · exact hne (String.utf8ByteSize_eq_zero_iff.mp hzero)
  · intro h
    refine ⟨fun hempty ↦ ?_, h.le, ?_⟩
    · exact Nat.ne_of_gt h.pos (String.utf8ByteSize_eq_zero_iff.mpr hempty)
    · rw [List.find?_eq_none.mpr]
      intro c hc
      rw [isImageChar_iff.mpr (h.chars c hc)]
      exact Bool.false_ne_true

/-- The characters of an accepted image reference. -/
theorem validateImage_chars {image : String} (h : validateImage image = .ok ()) :
    ∀ c ∈ image.toList, isWhitespace c = true ∨ isImageChar c = true := by
  intro c hc
  by_cases hws : isWhitespace c = true
  · exact Or.inl hws
  · have hmem : c ∈ (String.ofList (trim image.toList)).toList := by
      rw [String.toList_ofList]
      exact mem_trim hc (Bool.not_eq_true _ ▸ hws)
    exact Or.inr (isImageChar_iff.mpr ((validateImage_eq_ok.mp h).chars c hmem))

/-- What is accepted are the references, with or without white space around them. -/
theorem validateImage_eq_ok_iff {image : String} :
    validateImage image = .ok () ↔ InRegistryGrammar image ∨ Padded image := by
  rw [validateImage_eq_ok]
  constructor
  · intro h
    obtain ⟨before, after, hsplit, hbefore, hafter⟩ :=
      exists_append_strip isWhitespace image.toList
    have himage : image = String.ofList before ++ String.ofList (trim image.toList) ++
        String.ofList after := by
      rw [← String.ofList_append, ← String.ofList_append, trim, ← strip, ← hsplit,
        String.ofList_toList]
    by_cases hpad : before = [] ∧ after = []
    · rw [hpad.1, hpad.2, String.ofList_nil, String.empty_append, String.append_empty] at himage
      rw [← himage] at h
      exact Or.inl h
    · refine Or.inr ⟨_, _, _, himage, h, ?_, ?_, ?_⟩
      · rwa [String.toList_ofList]
      · rwa [String.toList_ofList]
      · rw [not_and_or] at hpad
        exact hpad.imp (fun hne hempty ↦ hne (String.ofList_eq_empty_iff.mp hempty))
          fun hne hempty ↦ hne (String.ofList_eq_empty_iff.mp hempty)
  · rintro (h | ⟨before, ref, after, rfl, h, hbefore, hafter, -⟩)
    · rw [trim_eq_self fun c hc ↦ (h.chars c hc).isWhitespace_eq, String.ofList_toList]
      exact h
    · have htrim : trim (before ++ ref ++ after).toList = ref.toList := by
        rw [String.toList_append, String.toList_append]
        exact strip_append hbefore hafter fun c hc ↦
          ne_true_of_eq_false (h.chars c hc).isWhitespace_eq
      rw [htrim, String.ofList_toList]
      exact h

theorem Padded.not_inRegistryGrammar {image : String} (h : Padded image) :
    ¬ InRegistryGrammar image := by
  intro hgrammar
  obtain ⟨before, ref, after, rfl, -, hbefore, hafter, hne⟩ := h
  have hnil : ∀ {s : String}, (∀ c ∈ s.toList, isWhitespace c) →
      s.toList ⊆ (before ++ ref ++ after).toList → s = "" := by
    intro s hspace hsubset
    refine String.toList_eq_nil_iff.mp (List.eq_nil_iff_forall_not_mem.mpr fun c hc ↦ ?_)
    exact absurd (hspace c hc) (ne_true_of_eq_false (hgrammar.chars c (hsubset hc)).isWhitespace_eq)
  rw [String.toList_append, String.toList_append] at hnil
  rcases hne with hbefore' | hafter'
  · exact hbefore' (hnil hbefore fun c hc ↦ by simp [hc])
  · exact hafter' (hnil hafter fun c hc ↦ by simp [hc])

/-- **Accepted images are in the grammar**, and those of the grammar are accepted, exactly where
the image is no reference with white space around it. -/
theorem validateImage_grammar_iff (image : String) :
    (validateImage image = .ok () ↔ InRegistryGrammar image) ↔ ¬ Padded image := by
  rw [validateImage_eq_ok_iff]
  constructor
  · exact fun h hpadded ↦ hpadded.not_inRegistryGrammar (h.mp (Or.inr hpadded))
  · exact fun h ↦ or_iff_left h

/-- The block text of a manifest ends with a newline, which is accepted and kept. -/
theorem validateImage_newline :
    validateImage "nginx\n" = .ok () ∧ ¬ InRegistryGrammar "nginx\n" :=
  ⟨by decide, fun h ↦ absurd (h.chars '\n' (by decide)) (by decide)⟩

end CeGke
