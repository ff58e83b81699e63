import LuauFusion.Transport
/-!
# The Luau side

`luau/event.rs` and `luau/langbridge.rs`: how a Luau value becomes a message,
and the `sendtext`, `sendbinary` and `receive` methods. The Luau VM itself is
`mluau`'s; `Lua` is what the code asks of it.
-/
open LuauFusion.Lib LuauFusion.Lib.Utf8

namespace LuauFusion

/-- A handle to a userdata, which only the embedder's converters look into. -/
abbrev UserData := Nat

/-- A Luau value, as far as the conversions tell values apart. -/
inductive LuaValue where
  | string (s : Bytes)
  | buffer (b : Bytes)
  | userData (ud : UserData)
  | other (typeName : String)
  deriving DecidableEq

namespace LuaValue

def typeName : LuaValue → String
  | string _ => "string"
  | buffer _ => "buffer"
  | userData _ => "userdata"
  | other t => t

end LuaValue

inductive LuaError where
  | external (msg : String)
  | fromLuaConversionError (fromType toType : String) (message : Option String)
  | memoryError (msg : String)
  deriving DecidableEq

/-- The Luau VM: the converters in its app data (or why they cannot be read),
what an allocation fails with, and how an error displays. -/
structure Lua where
  textConverter : Except String (Option (UserData → Except LuaError String))
  binaryConverter : Except String (Option (UserData → Except LuaError ByteBuf))
  stringAlloc : Bytes → Option LuaError
  bufferAlloc : Bytes → Option LuaError
  display : LuaError → String

namespace Lua

def createString (lua : Lua) (s : Bytes) : Except LuaError LuaValue :=
  match lua.stringAlloc s with
  | some e => .error e
  | none => .ok (.string s)

def createBuffer (lua : Lua) (b : Bytes) : Except LuaError LuaValue :=
  match lua.bufferAlloc b with
  | some e => .error e
  | none => .ok (.buffer b)

/-- The VM never runs out of memory. -/
def Allocates (lua : Lua) : Prop := ∀ b, lua.stringAlloc b = none ∧ lua.bufferAlloc b = none

end Lua

/-- A Luau value as the payload of a binary message. -/
def fromLuaBinary (value : LuaValue) (lua : Lua) (ed : EmbedderData) : Except LuaError ByteBuf :=
  match value with
  | .string s =>
    match ed.checkPayload s.length with
    | some e => .error (.external e)
    | none => .ok s
  | .userData ud =>
    match lua.binaryConverter with
    | .error e => .error (.external ("failed to get LuauUserDataBinaryConverter from app data: " ++ e))
    | .ok (some converter) => converter ud
    | .ok none =>
      .error (.fromLuaConversionError "userdata" "MessageEvent::Binary"
        (some "No LuauUserDataBinaryConverter found to convert this userdata"))
  | .buffer b =>
    match ed.checkPayload b.length with
    | some e => .error (.external e)
    | none => .ok b
  | .other _ =>
    .error (.fromLuaConversionError value.typeName "MessageEvent"
      (some "Expected string, userdata or buffer containing bytes"))

/-- A Luau value as a text message: a string's bytes are measured, then decoded. -/
def fromLuaText (value : LuaValue) (lua : Lua) (ed : EmbedderData) : Except LuaError String :=
  match value with
  | .string s =>
    match ed.checkPayload s.length with
    | some e => .error (.external e)
    | none => .ok (lossy s)
  | .userData ud =>
    match lua.textConverter with
    | .error e => .error (.external ("failed to get LuauUserDataTextConverter from app data: " ++ e))
    | .ok (some converter) => converter ud
    | .ok none =>
      .error (.fromLuaConversionError "userdata" "MessageEvent::Text"
        (some "No LuauUserDataTextConverter found to convert this userdata"))
  | .buffer _ | .other _ =>
    .error (.fromLuaConversionError value.typeName "MessageEvent"
      (some "Expected String or UserData containing a string"))

/-! ## What the conversions let through -/

section Conversions
variable {lua : Lua} {ed : EmbedderData}

theorem fromLuaText_string {s : Bytes} {t : String} :
    fromLuaText (.string s) lua ed = .ok t ↔ ed.checkPayload s.length = none ∧ t = lossy s := by
  unfold fromLuaText
  cases h : ed.checkPayload s.length <;> simp [h, eq_comm]

end Conversions

/-! ## The methods -/

namespace LangBridge

/-- Both send methods: convert, then push. The message pushed is returned with
the channel. -/
def push (tx : Chan ServerMessage Error) (fault : Option Error) (kind : String) (m : ServerMessage) :
    Except LuaError (ServerMessage × Chan ServerMessage Error) :=
  match ConcurrentlyExecuteServer.sendToForeign tx fault m with
  | .error e => .error (.external ("Failed to send " ++ kind ++ " message: " ++ e))
  | .ok tx' => .ok (m, tx')

def sendtext (lua : Lua) (ed : EmbedderData) (tx : Chan ServerMessage Error) (fault : Option Error) (msg : LuaValue) :
    Except LuaError (ServerMessage × Chan ServerMessage Error) :=
  match fromLuaText msg lua ed with
  | .error e => .error (.external ("Failed to convert argument to string: " ++ lua.display e))
  | .ok v => push tx fault "text" (.sendText v)

def sendbinary (lua : Lua) (ed : EmbedderData) (tx : Chan ServerMessage Error) (fault : Option Error) (msg : LuaValue) :
    Except LuaError (ServerMessage × Chan ServerMessage Error) :=
  match fromLuaBinary msg lua ed with
  | .error e => .error (.external ("Failed to convert argument to binary: " ++ lua.display e))
  | .ok v => push tx fault "binary" (.sendBinary v)

/-- What `receive` makes of what the transport hands it. -/
def surface (lua : Lua) : Except Error ClientMessage → Except LuaError LuaValue
  | .error e => .error (.external ("Failed to receive text message: " ++ e))
  | .ok (.sendText msg) => lua.createString (utf8 msg)
  | .ok (.sendBinary msg) => lua.createBuffer msg

def receive (lua : Lua) : Async ClientMessage Error (Except LuaError LuaValue) :=
  ConcurrentlyExecuteServer.receiveFromForeign.map (surface lua)

/-- A call of `receive` checks, locks and receives, like the call it wraps. -/
theorem receive_eq (lua : Lua) :
    receive lua = guarded (surface lua (.error rxLocked)) (surface lua ∘ ConcurrentlyExecuteServer.received) :=
  map_guarded _ _ _

/-! ## What a send does -/

theorem push_open {tx : Chan ServerMessage Error} (h : tx.dropped = none) (kind : String) (m : ServerMessage) :
    push tx none kind m = .ok (m, { tx with queue := tx.queue ++ [m] }) := by
  simp [push, ConcurrentlyExecuteServer.sendToForeign, Chan.send_open h, Except.mapError]

/-- What is said where the transport refuses a message. -/
theorem push_fault (tx : Chan ServerMessage Error) (e : Error) (kind : String) (m : ServerMessage) :
    push tx (some e) kind m =
      .error (.external ("Failed to send " ++ kind ++ " message: " ++ ("Failed to send message to target language: " ++ e))) :=
  rfl

theorem push_ok {tx tx' : Chan ServerMessage Error} {fault : Option Error} {kind : String} {m m' : ServerMessage}
    (h : push tx fault kind m = .ok (m', tx')) :
    fault = none ∧ m' = m ∧ tx' = { tx with queue := tx.queue ++ [m] } := by
  unfold push ConcurrentlyExecuteServer.sendToForeign at h
  cases hs : tx.send fault m with
  | error e => simp [hs, Except.mapError] at h
  | ok q =>
    simp only [hs, Except.mapError, Except.ok.injEq, Prod.mk.injEq] at h
    obtain ⟨rfl, rfl⟩ := h
    exact ⟨(Chan.send_ok hs).1, rfl, (Chan.send_ok hs).2⟩

/-- A `sendtext` that succeeds pushes the text its argument converts to. -/
theorem sendtext_ok {lua : Lua} {ed : EmbedderData} {tx tx' : Chan ServerMessage Error} {fault : Option Error} {v : LuaValue}
    {m : ServerMessage} (h : sendtext lua ed tx fault v = .ok (m, tx')) :
    fault = none ∧ ∃ t, fromLuaText v lua ed = .ok t ∧ m = .sendText t ∧ tx' = { tx with queue := tx.queue ++ [m] } := by
  unfold sendtext at h
  split at h
  · cases h
  · next t ht =>
    obtain ⟨hf, rfl, rfl⟩ := push_ok h
    exact ⟨hf, t, ht, rfl, rfl⟩

theorem sendbinary_ok {lua : Lua} {ed : EmbedderData} {tx tx' : Chan ServerMessage Error} {fault : Option Error} {v : LuaValue}
    {m : ServerMessage} (h : sendbinary lua ed tx fault v = .ok (m, tx')) :
    fault = none ∧ ∃ b, fromLuaBinary v lua ed = .ok b ∧ m = .sendBinary b ∧ tx' = { tx with queue := tx.queue ++ [m] } := by
  unfold sendbinary at h
  split at h
  · cases h
  · next b hb =>
    obtain ⟨hf, rfl, rfl⟩ := push_ok h
    exact ⟨hf, b, hb, rfl, rfl⟩

end LangBridge

end LuauFusion
