import CeGke.Auth
import CeGke.Cli

/-!
# The preflight of a grant

Before anything is placed the host is not known, so `preflight_checks` asks about two hosts of its
own making: this node with the issuer of the grant for a root, and the issuer itself, neither with
any tags.  A grant for hosts with a tag is always turned down, and so is one that neither this node
nor the issuer is a host for (`noFalseAlarm`).
-/

namespace CeGke

open Lib

section Checks

variable [CeCap]

/-- No capability has been revoked, as far as the preflight asks. -/
def neverRevoked : NodeId → UInt64 → Bool := fun _ _ ↦ false

/-- Part 1 of `preflight_checks`; `none` if the id or the token does not parse. -/
def grantAuthorizes (issuer : CeCap.Chain → Option NodeId) (now : UInt64)
    (token nodeId : String) : Option Bool :=
  (parseNodeId nodeId).bind fun selfId ↦
    (grantRoots issuer token).toOption.map fun roots ↦
      roots.any fun root ↦
        (preflight token selfId [root] [] now selfId actionDeploy neverRevoked).isOk ||
          (preflight token root [] [] now selfId actionDeploy neverRevoked).isOk

/-- What `preflight_checks` says of a grant that it turns down. -/
def grantRefused : String :=
  "grant preflight failed: the token does not authorize this node to deploy " ++
    "(check requester/expiry/action)"

section Alarm

variable (issuer : CeCap.Chain → Option NodeId) (chain : CeCap.Chain) (now : UInt64)
  (requester : NodeId)

/-- A host with this id, which accepts the issuer of the chain as a root, would let the requester
deploy, whatever else it accepts and is tagged with. -/
def AcceptedBy (hostId : NodeId) : Prop :=
  ∃ root roots tags, issuer chain = some root ∧ (root = hostId ∨ root ∈ roots) ∧
    CeCap.authorize hostId roots tags now requester actionDeploy chain neverRevoked = .ok ()

/-- Some host would. -/
def HostAccepts : Prop := ∃ hostId, AcceptedBy issuer chain now requester hostId

/-- The two hosts that the preflight asks about: the requester, if it accepts the issuer, and the
issuer, without having any tags. -/
def StandInAccepts : Prop :=
  ∃ root, issuer chain = some root ∧
    (CeCap.authorize requester [root] [] now requester actionDeploy chain neverRevoked = .ok () ∨
      CeCap.authorize root [] [] now requester actionDeploy chain neverRevoked = .ok ())

/-- `ce_cap` grants nothing to a chain unless the host has every tag that a capability of the
chain is scoped to. -/
def HonorsTags (tagScopes : CeCap.Chain → List String) : Prop :=
  ∀ selfId roots tags now requester action chain isRevoked,
    CeCap.authorize selfId roots tags now requester action chain isRevoked = .ok () →
      ∀ t ∈ tagScopes chain, t ∈ tags

/-- To a chain with no such capability the tags of the host make no difference. -/
def IgnoresTags (tagScopes : CeCap.Chain → List String) : Prop :=
  ∀ selfId roots tags tags' now requester action chain isRevoked, tagScopes chain = [] →
    CeCap.authorize selfId roots tags now requester action chain isRevoked = .ok () →
      CeCap.authorize selfId roots tags' now requester action chain isRevoked = .ok ()

/-- Of the accepted roots it matters only that the issuer of the chain is one; the host's own id
is always one. -/
def HonorsRoots (issuer : CeCap.Chain → Option NodeId) : Prop :=
  ∀ selfId roots roots' tags now requester action chain isRevoked root, issuer chain = some root →
    (root = selfId ∨ root ∈ roots) → (root = selfId ∨ root ∈ roots') →
      CeCap.authorize selfId roots tags now requester action chain isRevoked = .ok () →
        CeCap.authorize selfId roots' tags now requester action chain isRevoked = .ok ()

variable {issuer chain now requester}

/-- The stand-ins have no tags. -/
theorem StandInAccepts.tagScopes_eq {tagScopes : CeCap.Chain → List String}
    (htags : HonorsTags tagScopes) (h : StandInAccepts issuer chain now requester) :
    tagScopes chain = [] := by
  obtain ⟨root, -, h⟩ := h
  apply List.eq_nil_iff_forall_not_mem.mpr
  intro t ht
  rcases h with h | h
  · exact absurd (htags _ _ _ _ _ _ _ _ h t ht) List.not_mem_nil
  · exact absurd (htags _ _ _ _ _ _ _ _ h t ht) List.not_mem_nil

/-- The stand-ins are hosts. -/
theorem StandInAccepts.acceptedBy (h : StandInAccepts issuer chain now requester) :
    AcceptedBy issuer chain now requester requester ∨
      ∃ root, issuer chain = some root ∧ AcceptedBy issuer chain now requester root := by
  obtain ⟨root, hroot, h | h⟩ := h
  · exact Or.inl ⟨root, [root], [], hroot, Or.inr List.mem_cons_self, h⟩
  · exact Or.inr ⟨root, hroot, root, [], [], hroot, Or.inl rfl, h⟩

/-- If no tag is asked for, this node and the issuer accept a grant as stand-ins if they do as
hosts. -/
theorem standInAccepts_of_acceptedBy {tagScopes : CeCap.Chain → List String}
    (hroots : HonorsRoots issuer) (htags : IgnoresTags tagScopes) (hscopes : tagScopes chain = [])
    (h : AcceptedBy issuer chain now requester requester ∨
      ∃ root, issuer chain = some root ∧ AcceptedBy issuer chain now requester root) :
    StandInAccepts issuer chain now requester := by
  rcases h with ⟨root, roots, tags, hroot, hmem, h⟩ | ⟨root, hroot, root', roots, tags, hroot',
    hmem, h⟩
  · refine ⟨root, hroot, Or.inl ?_⟩
    exact hroots _ _ _ _ _ _ _ _ _ root hroot hmem (Or.inr List.mem_cons_self)
      (htags _ _ _ _ _ _ _ _ _ hscopes h)
  · obtain rfl : root = root' := Option.some.inj (hroot.symm.trans hroot')
    refine ⟨root, hroot, Or.inr ?_⟩
    exact hroots _ _ _ _ _ _ _ _ _ root hroot hmem (Or.inl rfl)
      (htags _ _ _ _ _ _ _ _ _ hscopes h)

theorem isOk_preflight_iff {token : String} (h : CeCap.decodeChain token = .ok chain)
    {selfId : NodeId} {roots : List NodeId} :
    (preflight token selfId roots [] now requester actionDeploy neverRevoked).isOk ↔
      CeCap.authorize selfId roots [] now requester actionDeploy chain neverRevoked = .ok () := by
  rw [← preflight_eq_ok h]
  cases preflight token selfId roots [] now requester actionDeploy neverRevoked with
  | error e => exact iff_of_false Bool.false_ne_true (by simp)
  | ok u => exact iff_of_true rfl rfl

/-- The grant is turned down unless a stand-in would accept it. -/
theorem grantAuthorizes_eq_some_false {token nodeId : String}
    (hchain : CeCap.decodeChain token = .ok chain)
    (hself : parseNodeId nodeId = some requester) :
    grantAuthorizes issuer now token nodeId = some false ↔
      ¬ StandInAccepts issuer chain now requester := by
  have hroots : (grantRoots issuer token).toOption = some (issuer chain).toList := by
    rw [grantRoots, hchain]
    rfl
  rw [grantAuthorizes, hself, Option.bind_some, hroots, Option.map_some, Option.some.injEq,
    ← Bool.not_eq_true, not_iff_not, List.any_eq_true]
  simp only [Option.mem_toList, Bool.or_eq_true, isOk_preflight_iff hchain,
    StandInAccepts]

end Alarm

/-! ## The checks -/

/-- The preflight of a command, over the answers of its node. -/
def Preflight.ofNode (issuer : CeCap.Chain → Option NodeId) (now : UInt64)
    (status : Option NodeStatus) (credits : Amount → String) : Preflight where
  status
  authorizes := grantAuthorizes issuer now
  credits

omit [CeCap] in
/-- The checks turn a grant down, rather than the balance. -/
theorem Cli.preflightChecks_eq_grantRefused {cli : Cli} {pre : Preflight} {spec : Deployment}
    {status : NodeStatus} (h : pre.status = some status) :
    cli.preflightChecks pre spec = .error grantRefused ↔
      cli.grant.bind (pre.authorizes · status.nodeId) = some false := by
  rw [preflightChecks, h]
  by_cases hgrant : cli.grant.bind (pre.authorizes · status.nodeId) = some false
  · refine iff_of_true ?_ hgrant
    simp only [bailIf, if_pos hgrant]
    rfl
  · refine iff_of_false (fun hrefused ↦ ?_) hgrant
    simp only [bailIf, if_neg hgrant] at hrefused
    change (if _ then Except.error _ else Except.ok ()) = Except.error grantRefused at hrefused
    split_ifs at hrefused
    have hhead := congrArg (fun msg ↦ msg.toList.head?) (Except.error.inj hrefused)
    have hmsg : grantRefused.toList.head? = some 'g' := by decide
    have hother : (toString "insufficient balance: ").toList.head? = some 'i' := by decide
    simp only [hmsg, String.toList_append, List.head?_append, hother, Option.some_or] at hhead
    exact absurd hhead (by decide)

/-- The checks turn a grant down unless a stand-in would accept it. -/
theorem Cli.preflightChecks_eq_grantRefused_iff {issuer : CeCap.Chain → Option NodeId} {cli : Cli}
    {token : String} {chain : CeCap.Chain} {status : NodeStatus} {selfId : NodeId}
    (hgrant : cli.grant = some token) (hchain : CeCap.decodeChain token = .ok chain)
    (hself : parseNodeId status.nodeId = some selfId) (now : UInt64)
    (credits : Amount → String) (spec : Deployment) :
    cli.preflightChecks (.ofNode issuer now (some status) credits) spec = .error grantRefused ↔
      ¬ StandInAccepts issuer chain now selfId := by
  rw [Cli.preflightChecks_eq_grantRefused rfl, hgrant, Option.bind_some]
  exact grantAuthorizes_eq_some_false hchain hself

/-- **When the preflight has no false alarm.**  A grant for hosts with a tag is turned down,
whoever accepts it.  One that this node with the issuer for its root, or the issuer, accepts
without any tags is not.  If only the issuer matters of the roots of a host, and of its tags those
that a capability is scoped to, then there is no false alarm exactly when a host accepts the grant
only if it is not for hosts with a tag and this node or the issuer is a host that accepts it. -/
theorem noFalseAlarm {issuer : CeCap.Chain → Option NodeId}
    {tagScopes : CeCap.Chain → List String} (htags : HonorsTags tagScopes) {cli : Cli}
    {token : String} {chain : CeCap.Chain} {status : NodeStatus} {selfId : NodeId}
    (hgrant : cli.grant = some token) (hchain : CeCap.decodeChain token = .ok chain)
    (hself : parseNodeId status.nodeId = some selfId) (now : UInt64)
    (credits : Amount → String) (spec : Deployment) :
    let answer := cli.preflightChecks (.ofNode issuer now (some status) credits) spec
    (tagScopes chain ≠ [] → answer = .error grantRefused) ∧
      (StandInAccepts issuer chain now selfId → answer ≠ .error grantRefused) ∧
      (HonorsRoots issuer → IgnoresTags tagScopes →
        ((HostAccepts issuer chain now selfId → answer ≠ .error grantRefused) ↔
          (HostAccepts issuer chain now selfId → tagScopes chain = [] ∧
            (AcceptedBy issuer chain now selfId selfId ∨
              ∃ root, issuer chain = some root ∧ AcceptedBy issuer chain now selfId root)))) := by
  have hrefused :
      cli.preflightChecks (.ofNode issuer now (some status) credits) spec = .error grantRefused ↔
        ¬ StandInAccepts issuer chain now selfId :=
    Cli.preflightChecks_eq_grantRefused_iff hgrant hchain hself now credits spec
  refine ⟨fun hscopes ↦ ?_, fun h ↦ ?_, fun hroots hignores ↦ imp_congr_right fun _ ↦ ?_⟩
  · exact hrefused.mpr fun h ↦ hscopes (h.tagScopes_eq htags)
  · exact fun hanswer ↦ hrefused.mp hanswer h
  · rw [ne_eq, hrefused, not_not]
    constructor
    · exact fun h ↦ ⟨h.tagScopes_eq htags, h.acceptedBy⟩
    · exact fun h ↦ standInAccepts_of_acceptedBy hroots hignores h.1 h.2

end Checks

section Example

/-- The issuer of the grants below. -/
def orgId : NodeId := Vector.replicate 32 7

/-- The node that holds the grants below. -/
def holderId : NodeId := Vector.replicate 32 9

/-- A `ce_cap` of two tokens, of one capability each: `any`, and `gpu` for the hosts with that
tag.  Both let the holder deploy on hosts that accept the issuer. -/
local instance twoTokens : CeCap where
  Chain := Option String
  decodeChain token :=
    if token = "any" then .ok none
    else if token = "gpu" then .ok (some "gpu")
    else .error "invalid chain"
  authorize selfId acceptedRoots selfTags _ requester action chain _ :=
    if orgId ∉ selfId :: acceptedRoots then .error "root not accepted"
    else if requester ≠ holderId then .error "wrong requester"
    else if action ≠ actionDeploy then .error "action not granted"
    else if ∃ t ∈ chain, t ∉ selfTags then .error "resource mismatch"
    else .ok ()

theorem honorsTags_twoTokens : HonorsTags fun chain : Option String ↦ chain.toList := by
  intro selfId roots tags now requester action chain isRevoked h t ht
  simp only [CeCap.authorize] at h
  split_ifs at h with _ _ _ hmismatch
  by_contra hnot
  exact hmismatch ⟨t, Option.mem_toList.mp ht, hnot⟩

theorem ignoresTags_twoTokens : IgnoresTags fun chain : Option String ↦ chain.toList := by
  intro selfId roots tags tags' now requester action chain isRevoked hscopes h
  obtain rfl : chain = none := Option.toList_eq_nil_iff.mp hscopes
  simp only [CeCap.authorize] at h ⊢
  split_ifs at h ⊢ <;> simp_all

theorem honorsRoots_twoTokens : HonorsRoots fun _ : Option String ↦ some orgId := by
  intro selfId roots roots' tags now requester action chain isRevoked root hroot hmem hmem' h
  obtain rfl : orgId = root := Option.some.inj hroot
  simp only [CeCap.authorize] at h ⊢
  rw [if_neg (not_not_intro (List.mem_cons.mpr hmem))] at h
  rwa [if_neg (not_not_intro (List.mem_cons.mpr hmem'))]

/-- The node of the holder. -/
def holderStatus : NodeStatus where
  nodeId := hexEncode holderId.toList
  balance := {}
  free := none

/-- What it answers. -/
def holderPreflight : Preflight :=
  .ofNode (fun _ ↦ some orgId) 1000 (some holderStatus) fun _ ↦ "0"

/-- A host of the issuer with a GPU honours the token `gpu`, and the preflight turns it down. -/
theorem noFalseAlarm_gpu :
    HostAccepts (fun _ ↦ some orgId) (some "gpu") 1000 holderId ∧
      ({ grant := some "gpu" } : Cli).preflightChecks holderPreflight {} =
        .error grantRefused := by
  constructor
  · exact ⟨orgId, orgId, [], ["gpu"], rfl, Or.inl rfl, by decide⟩
  · exact (Cli.preflightChecks_eq_grantRefused rfl).mpr (by decide)

/-- A host of the issuer with a GPU honours the token `any`, for the issuer is a host that does,
and the preflight does not turn it down. -/
theorem noFalseAlarm_any :
    AcceptedBy (fun _ ↦ some orgId) none 1000 holderId orgId ∧
      ({ grant := some "any" } : Cli).preflightChecks holderPreflight {} ≠
        .error grantRefused := by
  have hself : parseNodeId holderStatus.nodeId = some holderId := parseNodeId_hexEncode holderId
  have haccepted : AcceptedBy (fun _ ↦ some orgId) none 1000 holderId orgId :=
    ⟨orgId, [], ["gpu"], rfl, Or.inl rfl, by decide⟩
  have hanswer := @noFalseAlarm _ (fun _ ↦ some orgId) _ honorsTags_twoTokens
    { grant := some "any" } "any" none holderStatus holderId rfl rfl hself 1000 (fun _ ↦ "0") {}
  exact ⟨haccepted, (hanswer.2.2 honorsRoots_twoTokens ignoresTags_twoTokens).mpr
    (fun _ ↦ ⟨rfl, Or.inr ⟨orgId, rfl, haccepted⟩⟩) ⟨orgId, haccepted⟩⟩

end Example

end CeGke
