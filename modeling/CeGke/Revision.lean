import CeGke.Image
import CeGke.Lib.Bytes

/-!
# Revisions

`Deployment::revision` of `src/spec.rs`: a hash of the pod template, which labels
every replica and decides what a rollout replaces.

The hash is a function of the bytes it is fed, so the question is which templates
are fed as the same bytes.  `Rebracketed` is the answer: the delimiters NUL and
0x01 may occur in what they delimit, and nothing separates the last command from
the numbers after it.
-/

namespace CeGke

open Lib

/-- SHA-256 (the `sha2` crate), a parameter here: bytes to a digest. -/
class Sha256 where
  digest : List UInt8 → List UInt8

namespace Deployment

/-! ## What is hashed -/

/-- The commands, each followed by NUL. -/
def commandBytes (d : Deployment) : List UInt8 := terminated 0 (d.command.map asBytes)

/-- The numbers of the template, little-endian. -/
def numberBytes (d : Deployment) : List UInt8 :=
  leBytes 4 d.resources.cpuCores.toNat ++ leBytes 8 d.resources.memMb.toNat ++
    leBytes 16 d.bid.base.toNat ++ leBytes 8 d.durationSecs.toNat

end Deployment

/-- What is hashed of a secret reference: its name, or nothing. -/
def secretBytes : Option SecretRef → List UInt8
  | some s => asBytes s.secret
  | none => []

/-- One entry of the environment: name, NUL, value, NUL, secret. -/
def EnvVar.text (e : EnvVar) : List UInt8 :=
  asBytes e.name ++ 0 :: (asBytes e.value ++ 0 :: secretBytes e.valueFrom)

namespace Deployment

/-- The environment, each entry followed by 0x01. -/
def envBytes (d : Deployment) : List UInt8 := terminated 1 (d.env.map EnvVar.text)

/-- The bytes `revision` feeds to the hash. -/
def revisionBytes (d : Deployment) : List UInt8 :=
  asBytes d.image ++ 0 :: (d.commandBytes ++ (d.numberBytes ++ d.envBytes))

/-- `Deployment::revision`: the first 8 bytes of the hash, in hexadecimal. -/
def revision [Sha256] (d : Deployment) : String :=
  hexEncode ((Sha256.digest d.revisionBytes).take 8)

/-! ## Templates -/

/-- Two deployments have the same pod template. -/
structure SameTemplate (d e : Deployment) : Prop where
  image : d.image = e.image
  command : d.command = e.command
  resources : d.resources = e.resources
  bid : d.bid = e.bid
  durationSecs : d.durationSecs = e.durationSecs
  env : d.env = e.env

theorem SameTemplate.revisionBytes_eq {d e : Deployment} (h : SameTemplate d e) :
    d.revisionBytes = e.revisionBytes := by
  simp only [revisionBytes, commandBytes, numberBytes, envBytes, h.image, h.command,
    h.resources, h.bid, h.durationSecs, h.env]

/-- The commands, cut at the NULs they hold. -/
def commandPieces (d : Deployment) : List (List UInt8) := pieces 0 (d.command.map asBytes)

/-- The entries of the environment, cut at the bytes 0x01 they hold. -/
def envPieces (d : Deployment) : List (List UInt8) := pieces 1 (d.env.map EnvVar.text)

/-- The same text with its boundaries elsewhere: commands or environment differ, but
cut at the delimiters they are the same. -/
structure Regrouped (d e : Deployment) : Prop where
  commandPieces : d.commandPieces = e.commandPieces
  resources : d.resources = e.resources
  bid : d.bid = e.bid
  durationSecs : d.durationSecs = e.durationSecs
  envPieces : d.envPieces = e.envPieces
  differ : d.command ≠ e.command ∨ d.env ≠ e.env

/-- `e` has more commands than `d`, and they spell the numbers of `d`. -/
def Spilled (d e : Deployment) : Prop :=
  ∃ ps, ps ≠ [] ∧ e.commandPieces = d.commandPieces ++ ps ∧
    d.numberBytes ++ d.envBytes = terminated 0 ps ++ (e.numberBytes ++ e.envBytes)

/-- Two different templates that read the same once their boundaries are gone. -/
def Rebracketed (d e : Deployment) : Prop :=
  d.image = e.image ∧ (Regrouped d e ∨ Spilled d e ∨ Spilled e d)

/-! ## Numbers -/

theorem numberBytes_inj {d e : Deployment} :
    d.numberBytes = e.numberBytes ↔
      d.resources = e.resources ∧ d.bid = e.bid ∧ d.durationSecs = e.durationSecs := by
  constructor
  · intro h
    simp only [numberBytes] at h
    obtain ⟨h, hdur⟩ := List.append_inj' h (by simp)
    obtain ⟨h, hbid⟩ := List.append_inj' h (by simp)
    obtain ⟨hcpu, hmem⟩ := List.append_inj' h (by simp)
    have hcpu' := leBytes_inj d.resources.cpuCores.toNat_lt e.resources.cpuCores.toNat_lt hcpu
    have hmem' := leBytes_inj d.resources.memMb.toNat_lt e.resources.memMb.toNat_lt hmem
    have hbid' := leBytes_inj d.bid.base.isLt e.bid.base.isLt hbid
    have hdur' := leBytes_inj d.durationSecs.toNat_lt e.durationSecs.toNat_lt hdur
    refine ⟨?_, ?_, UInt64.toNat_inj.mp hdur'⟩
    · exact Resources.ext (UInt32.toNat_inj.mp hcpu') (UInt64.toNat_inj.mp hmem')
    · exact Amount.ext (BitVec.eq_of_toNat_eq hbid')
  · rintro ⟨hres, hbid, hdur⟩
    simp only [numberBytes, hres, hbid, hdur]

@[simp] theorem length_numberBytes (d : Deployment) : d.numberBytes.length = 36 := by
  simp [numberBytes]

/-! ## When two templates are fed as the same bytes -/

/-- One text continues the commands of the other: either it stops where they do, or
it has commands where the other has numbers. -/
theorem body_of_append {d e : Deployment} {w : List UInt8}
    (hw : e.commandBytes = d.commandBytes ++ w)
    (h : d.numberBytes ++ d.envBytes = w ++ (e.numberBytes ++ e.envBytes)) :
    (d.commandPieces = e.commandPieces ∧ d.numberBytes = e.numberBytes ∧
      d.envPieces = e.envPieces) ∨ Spilled d e := by
  obtain ⟨ps, hps, rfl⟩ := terminated_eq_append_iff.mp hw
  by_cases hnil : ps = []
  · subst hnil
    rw [terminated_nil, List.nil_append] at h
    obtain ⟨hnum, henv⟩ := List.append_inj h (by simp)
    exact Or.inl ⟨(hps.trans (List.append_nil _)).symm, hnum, terminated_eq_iff.mp henv⟩
  · exact Or.inr ⟨ps, hnil, hps, h⟩

/-- A spilled text reads the same. -/
theorem Spilled.body_eq {d e : Deployment} (h : Spilled d e) :
    d.commandBytes ++ (d.numberBytes ++ d.envBytes) =
      e.commandBytes ++ (e.numberBytes ++ e.envBytes) := by
  obtain ⟨ps, _, hps, hrest⟩ := h
  have hcmd : e.commandBytes = d.commandBytes ++ terminated 0 ps :=
    terminated_eq_append_iff.mpr ⟨ps, hps, rfl⟩
  rw [hrest, hcmd, List.append_assoc]

/-- What follows the image reads the same exactly when it is the same part by part,
or one side has commands where the other has numbers. -/
theorem body_eq_iff {d e : Deployment} :
    d.commandBytes ++ (d.numberBytes ++ d.envBytes) =
        e.commandBytes ++ (e.numberBytes ++ e.envBytes) ↔
      (d.commandPieces = e.commandPieces ∧ d.numberBytes = e.numberBytes ∧
        d.envPieces = e.envPieces) ∨ Spilled d e ∨ Spilled e d := by
  constructor
  · intro h
    rcases List.append_eq_append_iff.mp h with ⟨w, hw, hrest⟩ | ⟨w, hw, hrest⟩
    · rcases body_of_append hw hrest with hsame | hspill
      · exact Or.inl hsame
      · exact Or.inr (Or.inl hspill)
    · rcases body_of_append hw hrest with ⟨hcmd, hnum, henv⟩ | hspill
      · exact Or.inl ⟨hcmd.symm, hnum.symm, henv.symm⟩
      · exact Or.inr (Or.inr hspill)
  · rintro (⟨hcmd, hnum, henv⟩ | hspill | hspill)
    · have hcmd' : d.commandBytes = e.commandBytes := terminated_eq_iff.mpr hcmd
      have henv' : d.envBytes = e.envBytes := terminated_eq_iff.mpr henv
      rw [hcmd', hnum, henv']
    · exact hspill.body_eq
    · exact hspill.body_eq.symm

theorem Spilled.command_ne {d e : Deployment} (h : Spilled d e) : d.command ≠ e.command := by
  obtain ⟨ps, hne, hps, _⟩ := h
  intro hcmd
  simp only [commandPieces, hcmd] at hps
  exact hne (List.self_eq_append_right.mp hps)

end Deployment

/-! ## Accepted images -/

/-- No accepted image reference holds a NUL. -/
theorem zero_notMem_image {image : String} (h : validateImage image = .ok ()) :
    (0 : UInt8) ∉ asBytes image := by
  intro hzero
  obtain ⟨c, hc, hc0⟩ := zero_mem_asBytes hzero
  have hnul : c = Char.ofNat 0 := Char.toNat_inj.mp hc0
  subst hnul
  rcases validateImage_chars h _ hc with h | h
  · exact absurd h (by decide)
  · exact absurd h (by decide)

namespace Deployment

/-- Two accepted deployments are hashed from the same bytes exactly when they have the
same template or their templates are rebracketed. -/
theorem revisionBytes_eq_iff {d e : Deployment} (hd : d.validate = .ok ())
    (he : e.validate = .ok ()) :
    d.revisionBytes = e.revisionBytes ↔ SameTemplate d e ∨ Rebracketed d e := by
  have hdi := zero_notMem_image (validate_eq_ok.mp hd).image_ok
  have hei := zero_notMem_image (validate_eq_ok.mp he).image_ok
  constructor
  · intro h
    obtain ⟨himage, hbody⟩ := append_delim_inj hdi hei h
    have himage' : d.image = e.image := asBytes_inj.mp himage
    rcases body_eq_iff.mp hbody with ⟨hcmd, hnum, henv⟩ | hspill
    · obtain ⟨hres, hbid, hdur⟩ := numberBytes_inj.mp hnum
      by_cases hsame : d.command = e.command ∧ d.env = e.env
      · exact Or.inl ⟨himage', hsame.1, hres, hbid, hdur, hsame.2⟩
      · exact Or.inr ⟨himage', Or.inl ⟨hcmd, hres, hbid, hdur, henv, not_and_or.mp hsame⟩⟩
    · exact Or.inr ⟨himage', Or.inr hspill⟩
  · rintro (hsame | ⟨himage, hsame | hspill⟩)
    · exact hsame.revisionBytes_eq
    · have hnum := numberBytes_inj.mpr ⟨hsame.resources, hsame.bid, hsame.durationSecs⟩
      have hbody := body_eq_iff.mpr (Or.inl ⟨hsame.commandPieces, hnum, hsame.envPieces⟩)
      rw [revisionBytes, revisionBytes, himage, hbody]
    · rw [revisionBytes, revisionBytes, himage, body_eq_iff.mpr (Or.inr hspill)]

/-- Rebracketed templates are different templates. -/
theorem Rebracketed.not_sameTemplate {d e : Deployment} (h : Rebracketed d e) :
    ¬ SameTemplate d e := by
  intro hsame
  rcases h.2 with hgroup | hspill | hspill
  · exact hgroup.differ.elim (· hsame.command) (· hsame.env)
  · exact hspill.command_ne hsame.command
  · exact hspill.command_ne hsame.command.symm

/-- The hash does not take the two texts to the same revision by chance. -/
def NoCollision [Sha256] (d e : Deployment) : Prop :=
  (Sha256.digest d.revisionBytes).take 8 = (Sha256.digest e.revisionBytes).take 8 →
    d.revisionBytes = e.revisionBytes

theorem NoCollision.revision_eq_iff [Sha256] {d e : Deployment} (h : NoCollision d e) :
    d.revision = e.revision ↔ d.revisionBytes = e.revisionBytes := by
  rw [revision, revision, hexEncode_inj]
  exact ⟨h, fun hbytes ↦ by rw [hbytes]⟩

/-- **A revision tells templates apart unless they are rebracketed.**  For two accepted
deployments: different templates are hashed from different bytes, and, barring a
collision of the hash, revisions agree just when templates do, exactly when the two
are not rebracketed. -/
theorem revision_faithful_iff {d e : Deployment} (hd : d.validate = .ok ())
    (he : e.validate = .ok ()) :
    ((¬ SameTemplate d e → d.revisionBytes ≠ e.revisionBytes) ↔ ¬ Rebracketed d e) ∧
      ∀ [Sha256], NoCollision d e →
        ((d.revision = e.revision ↔ SameTemplate d e) ↔ ¬ Rebracketed d e) := by
  have hbytes := revisionBytes_eq_iff hd he
  constructor
  · constructor
    · exact fun h hre ↦ h hre.not_sameTemplate (hbytes.mpr (Or.inr hre))
    · exact fun hre hne h ↦ (hbytes.mp h).elim hne hre
  · intro _ hcol
    rw [hcol.revision_eq_iff, hbytes]
    constructor
    · exact fun h hre ↦ hre.not_sameTemplate (h.mp (Or.inr hre))
    · exact fun hre ↦ ⟨fun h ↦ h.resolve_right hre, Or.inl⟩

/-- Two commands and one command with a NUL in it: different templates, one revision. -/
theorem revision_merges_commands :
    let d : Deployment :=
      { name := "web", nameSpace := "default", image := "nginx", command := ["a", "b"] }
    let e : Deployment := { d with command := ["a\x00b"] }
    d.validate = .ok () ∧ e.validate = .ok () ∧ ¬ SameTemplate d e ∧
      d.revisionBytes = e.revisionBytes ∧ ∀ [Sha256], d.revision = e.revision := by
  intro d e
  have hbytes : d.revisionBytes = e.revisionBytes := by decide
  refine ⟨by decide, by decide, fun h ↦ absurd h.command (by decide), hbytes, ?_⟩
  intro _
  rw [revision, revision, hbytes]

/-- SHA-256 on the templates of `nginx` and `nginx:2`. -/
abbrev nginxSha256 : Sha256 where
  digest bytes :=
    if bytes = revisionBytes { image := "nginx" } then
      [145, 84, 100, 92, 220, 203, 36, 73, 159, 99, 160, 223, 196, 53, 222, 25,
        216, 203, 90, 11, 128, 111, 26, 37, 225, 249, 98, 127, 65, 141, 164, 146]
    else if bytes = revisionBytes { image := "nginx:2" } then
      [167, 51, 28, 160, 147, 203, 116, 11, 60, 245, 162, 56, 185, 217, 222, 254,
        76, 101, 240, 7, 190, 111, 184, 32, 146, 140, 136, 111, 200, 95, 82, 201]
    else []

/-- The revision of the `nginx` template. -/
theorem revision_nginx {d : Deployment} (h : SameTemplate d { image := "nginx" }) :
    @revision nginxSha256 d = "9154645cdccb2449" := by
  unfold revision
  rw [h.revisionBytes_eq]
  decide

/-- A command of two words and a variable. -/
def serveWords : Deployment where
  name := "web"
  nameSpace := "default"
  image := "nginx"
  command := ["serve", "80"]
  env := [{ name := "A", value := "1" }]

/-- The same words as one, and a second variable. -/
def serveText : Deployment :=
  { serveWords with
    command := ["serve 80"]
    env := [{ name := "A", value := "1" }, { name := "B", value := "2" }] }

/-- SHA-256 on these two templates. -/
abbrev serveSha256 : Sha256 where
  digest bytes :=
    if bytes = serveWords.revisionBytes then
      [240, 27, 238, 122, 112, 127, 15, 45, 166, 175, 168, 90, 96, 75, 212, 170, 178, 92, 233,
        51, 34, 74, 194, 100, 224, 0, 170, 9, 212, 115, 102, 141]
    else if bytes = serveText.revisionBytes then
      [124, 108, 162, 148, 44, 200, 71, 248, 199, 100, 191, 194, 17, 164, 240, 26, 67, 34, 158,
        80, 239, 20, 254, 194, 72, 149, 141, 255, 247, 196, 180, 143]
    else []

/-- Neither's pieces continue the other's, and the revisions differ. -/
theorem revision_faithful_serve :
    serveWords.revisionBytes ≠ serveText.revisionBytes ∧
      @revision serveSha256 serveWords ≠ @revision serveSha256 serveText := by
  have hre : ¬ Rebracketed serveWords serveText := by
    rintro ⟨-, hgroup | ⟨ps, -, hps, -⟩ | ⟨ps, -, hps, -⟩⟩
    · exact absurd hgroup.commandPieces (by decide)
    · exact absurd ⟨ps, hps.symm⟩
        (show ¬ serveWords.commandPieces <+: serveText.commandPieces by decide)
    · exact absurd ⟨ps, hps.symm⟩
        (show ¬ serveText.commandPieces <+: serveWords.commandPieces by decide)
  have hne : ¬ SameTemplate serveWords serveText := fun h ↦ absurd h.command (by decide)
  obtain ⟨hbytes, hrev⟩ :=
    revision_faithful_iff (d := serveWords) (e := serveText) (by decide) (by decide)
  have hsame := (@hrev serveSha256 fun h ↦ absurd h (by decide)).mpr hre
  exact ⟨hbytes.mpr hre hne, fun h ↦ hne (hsame.mp h)⟩

end Deployment

end CeGke
