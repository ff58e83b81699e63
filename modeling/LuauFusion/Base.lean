import LuauFusion.Lib.Receiver
import LuauFusion.Lib.Utf8
/-!
# Messages and configuration

`base/mod.rs` and `luau/embedder_api.rs`: the two message types, what a
payload is, and the limit both sides check it against. A length is a `usize`
in the source and a `Nat` here; nothing is ever added to one.
-/
open LuauFusion.Lib LuauFusion.Lib.Utf8

namespace LuauFusion

/-- A boxed error, by the text it displays. -/
abbrev Error := String

abbrev ByteBuf := Bytes

/-- From the foreign language to the host. -/
inductive ClientMessage where
  | sendText (msg : String)
  | sendBinary (msg : ByteBuf)
  deriving DecidableEq

/-- From the host to the foreign language. -/
inductive ServerMessage where
  | sendText (msg : String)
  | sendBinary (msg : ByteBuf)
  deriving DecidableEq

structure EmbedderData where
  heapLimit : Nat
  /-- Maximum number of bytes allowed for the payload. -/
  maxPayloadSize : Option Nat
  deriving DecidableEq

def ClientMessage.payload : ClientMessage → Bytes
  | .sendText msg => utf8 msg
  | .sendBinary msg => msg

def ServerMessage.payload : ServerMessage → Bytes
  | .sendText msg => utf8 msg
  | .sendBinary msg => msg

/-- The text of a host-bound text message. -/
def ServerMessage.text? : ServerMessage → Option String
  | .sendText msg => some msg
  | .sendBinary _ => none

def ServerMessage.binary? : ServerMessage → Option ByteBuf
  | .sendText _ => none
  | .sendBinary msg => some msg

namespace EmbedderData

/-- `len > max_payload_size`, where a limit is set, and the message every
check raises. -/
def checkPayload (ed : EmbedderData) (len : Nat) : Option String :=
  match ed.maxPayloadSize with
  | some max =>
    if len > max then
      some ("Payload size " ++ toString len ++ " exceeds maximum allowed size of " ++ toString max ++ " bytes")
    else none
  | none => none

theorem checkPayload_none {ed : EmbedderData} {m : Nat} (h : ed.maxPayloadSize = some m) (len : Nat) :
    ed.checkPayload len = none ↔ len ≤ m := by
  simp [checkPayload, h]

end EmbedderData

end LuauFusion
