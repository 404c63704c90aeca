import CeGke.Revision
import CeGke.Serve

/-!
# Authorization

`src/auth.rs`, and what `src/main.rs` reads out of node ids and grants: the preflight of a grant
and the issuer that its chain starts from.
-/

namespace CeGke

open Lib

/-- `ACTION_DEPLOY`. -/
def actionDeploy : String := "deploy"

/-! ## Node ids -/

/-- `parse_node_id`: 64 hexadecimal digits, with space around them. -/
def parseNodeId (hexId : String) : Option NodeId :=
  (hexDecode (trim hexId.toList)).bind fun bytes ↦
    if h : bytes.length = 32 then some ⟨bytes.toArray, h⟩ else none

theorem isWhitespace_hexDigit {n : ℕ} (hn : n < 16) : isWhitespace (hexDigit n) = false := by
  have key : ∀ n < 16, isWhitespace (hexDigit n) = false := by decide
  exact key n hn

/-- A node id is read back as it is written. -/
theorem parseNodeId_hexEncode (id : NodeId) : parseNodeId (hexEncode id.toList) = some id := by
  have htrim : trim (hexEncode id.toList).toList = (hexEncode id.toList).toList := by
    refine trim_eq_self fun c hc ↦ ?_
    rw [hexEncode, String.toList_ofList, List.mem_flatMap] at hc
    obtain ⟨b, -, hc⟩ := hc
    have hb := b.toNat_lt
    rcases List.mem_pair.mp hc with rfl | rfl
    · exact isWhitespace_hexDigit (by omega)
    · exact isWhitespace_hexDigit (by omega)
  rw [parseNodeId, htrim, hexDecode_hexEncode, Option.bind_some, dif_pos id.length_toList]
  rfl

/-! ## Grants -/

section Preflight

variable [CeCap]

/-- `preflight`: what a host with this id, these roots and these tags would make of a grant. -/
def preflight (token : String) (selfId : NodeId) (acceptedRoots : List NodeId)
    (selfTags : List String) (now : UInt64) (requester : NodeId) (action : String)
    (isRevoked : NodeId → UInt64 → Bool) : Except String Unit := do
  let chain ← CeCap.decodeChain token
  (CeCap.authorize selfId acceptedRoots selfTags now requester action chain isRevoked).mapError
    fun e ↦ s!"capability would be rejected by the host: {e}"

/-- `grant_roots`; `issuer` is the issuer of the first capability of a chain. -/
def grantRoots (issuer : CeCap.Chain → Option NodeId) (token : String) :
    Except String (List NodeId) := do
  let chain ← CeCap.decodeChain token
  return (issuer chain).toList

/-- A preflight passes where the host would authorize. -/
theorem preflight_eq_ok {token : String} {chain : CeCap.Chain}
    (h : CeCap.decodeChain token = .ok chain) {selfId : NodeId} {acceptedRoots : List NodeId}
    {selfTags : List String} {now : UInt64} {requester : NodeId} {action : String}
    {isRevoked : NodeId → UInt64 → Bool} :
    preflight token selfId acceptedRoots selfTags now requester action isRevoked = .ok () ↔
      CeCap.authorize selfId acceptedRoots selfTags now requester action chain isRevoked =
        .ok () := by
  rw [preflight, bind_eq_ok]
  simp only [h, Except.ok.injEq, exists_eq_left', mapError_eq_ok]

end Preflight

end CeGke
