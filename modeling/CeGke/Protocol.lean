import CeGke.Lib.Codec
import CeGke.Reconcile

/-!
# The probe protocol

`src/protocol.rs`: what the orchestrator asks the health agent of a host about a job, what
it is answered, and the bound on the bytes of either.
-/

namespace CeGke

open Lib

/-- `PROBE_TOPIC`. -/
def probeTopic : String := "ce-gke/probe/1"

/-- `MAX_MESSAGE_BYTES`. -/
def maxMessageBytes : ℕ := 64 * 1024

/-- The `bincode` crate at one type, a parameter here.  What it has serialized it
deserializes. -/
class Bincode (α : Type) where
  serialize : α → Except String (List UInt8)
  deserialize : List UInt8 → Except String α
  deserialize_of_serialize {a : α} {bytes : List UInt8} :
    serialize a = .ok bytes → deserialize bytes = .ok a

/-- A codec makes an instance; what follows the value is not looked at. -/
abbrev Bincode.ofCodec {α : Type} (c : Codec α) : Bincode α where
  serialize a := (c.encode a).elim (.error "size limit exceeded") .ok
  deserialize bytes := (c.decode bytes).elim (.error "unexpected end of input") fun p ↦ .ok p.1
  deserialize_of_serialize := by
    intro a bytes h
    cases hencode : c.encode a with
    | none => rw [hencode] at h; exact nomatch h
    | some bytes' =>
        rw [hencode] at h
        obtain rfl := Except.ok.inj h
        have hdecode := c.decode_encode hencode []
        rw [List.append_nil] at hdecode
        rw [hdecode, Option.elim_some]

section Message

variable {α : Type} [Bincode α]

/-- Encode a bounded message. -/
def encodeMessage (what : String) (a : α) : Except String (List UInt8) := do
  let bytes ← Bincode.serialize a
  bailIf (bytes.length > maxMessageBytes) s!"{what} too large ({bytes.length} bytes)"
  return bytes

/-- Decode a bounded message; what is too long is rejected unread. -/
def decodeMessage (α : Type) [Bincode α] (what : String) (bytes : List UInt8) :
    Except String α := do
  bailIf (bytes.length > maxMessageBytes) s!"{what} exceeds {maxMessageBytes} bytes"
  Bincode.deserialize bytes

theorem decodeMessage_of_encodeMessage {what : String} {a : α} {bytes : List UInt8}
    (h : encodeMessage what a = .ok bytes) : decodeMessage α what bytes = .ok a := by
  obtain ⟨bytes', hbytes, h⟩ := bind_eq_ok.mp h
  obtain ⟨u, hlen, h⟩ := bind_eq_ok.mp h
  obtain rfl := Except.ok.inj h
  rw [bailIf_eq_ok] at hlen
  exact bind_eq_ok.mpr ⟨(), bailIf_eq_ok.mpr hlen, Bincode.deserialize_of_serialize hbytes⟩

end Message

/-- What the orchestrator asks about a job. -/
structure ProbeRequest where
  jobId : String
  checkCommand : List String := []
  grant : Option String := none
deriving DecidableEq, Repr

namespace ProbeRequest

/-- The fields in their order. -/
def codec : Codec ProbeRequest :=
  ((Codec.string.pair Codec.string.list).pair Codec.string.option).map
    (fun req ↦ ((req.jobId, req.checkCommand), req.grant))
    (fun p ↦ some ⟨p.1.1, p.1.2, p.2⟩) fun _ ↦ rfl

variable [Bincode ProbeRequest]

/-- `ProbeRequest::encode`. -/
def encode (req : ProbeRequest) : Except String (List UInt8) := encodeMessage "probe request" req

/-- `ProbeRequest::decode`. -/
def decode (bytes : List UInt8) : Except String ProbeRequest :=
  decodeMessage ProbeRequest "probe request" bytes

theorem decode_of_encode {req : ProbeRequest} {bytes : List UInt8}
    (h : req.encode = .ok bytes) : decode bytes = .ok req := decodeMessage_of_encodeMessage h

end ProbeRequest

/-- The position of a phase among the variants. -/
def Phase.index : Phase → ℕ
  | .pending => 0
  | .running => 1
  | .failed => 2
  | .succeeded => 3

/-- The variant at a position. -/
def Phase.ofIndex (n : ℕ) : Option Phase :=
  [Phase.pending, .running, .failed, .succeeded][n]?

theorem Phase.ofIndex_index (p : Phase) : ofIndex p.index = some p := by
  cases p <;> rfl

/-- What the host answers. -/
structure ProbeReply where
  phase : Phase
  probePassed : Option Bool := none
  detail : String := ""
deriving DecidableEq, Repr

namespace ProbeReply

/-- `ProbeReply::failed`. -/
def failed (reason : String) : ProbeReply :=
  { phase := .failed, probePassed := some false, detail := reason }

/-- `ProbeReply::effective_phase`: a probe that failed overrides the phase. -/
def effectivePhase (reply : ProbeReply) : Phase :=
  match reply.probePassed with
  | some false => .failed
  | some true | none => reply.phase

@[simp] theorem effectivePhase_failed (reason : String) :
    (failed reason).effectivePhase = .failed := rfl

/-- The fields in their order, the phase by its index. -/
def codec : Codec ProbeReply :=
  (((Codec.number 4).pair Codec.bool.option).pair Codec.string).map
    (fun reply ↦ ((reply.phase.index, reply.probePassed), reply.detail))
    (fun p ↦ (Phase.ofIndex p.1.1).map fun phase ↦ ⟨phase, p.1.2, p.2⟩)
    fun reply ↦ by rw [Phase.ofIndex_index, Option.map_some]

variable [Bincode ProbeReply]

/-- `ProbeReply::encode`. -/
def encode (reply : ProbeReply) : Except String (List UInt8) := encodeMessage "probe reply" reply

/-- `ProbeReply::decode`. -/
def decode (bytes : List UInt8) : Except String ProbeReply :=
  decodeMessage ProbeReply "probe reply" bytes

theorem decode_of_encode {reply : ProbeReply} {bytes : List UInt8}
    (h : reply.encode = .ok bytes) : decode bytes = .ok reply := decodeMessage_of_encodeMessage h

end ProbeReply

end CeGke
