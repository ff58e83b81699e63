import LuauFusion.Base
/-!
# The JavaScript side

`denobridge/event.rs`: the methods of the `EventBridge` object a script finds
under `globalThis.lua.eventBridge`. Strings cross into and out of V8 through
`deno_core`'s conversions, `V8`.
-/
open LuauFusion.Lib LuauFusion.Lib.Utf8

namespace LuauFusion

/-- `deno_core`'s string conversions: JavaScript's strings, and that a Rust
string survives the trip through one. -/
structure V8 where
  JsString : Type
  ofRust : String → JsString
  toRust : JsString → String
  toRust_ofRust : ∀ s, toRust (ofRust s) = s

inductive JsErrorBox where
  | generic (msg : String)
  deriving DecidableEq

namespace EventBridge

/-- Both send methods: check the payload, then push. The error text is the
source's for both. -/
def send (ed : EmbedderData) (msgTx : Chan ClientMessage Unit) (m : ClientMessage) :
    Except JsErrorBox (Chan ClientMessage Unit) :=
  match ed.checkPayload m.payload.length with
  | some e => .error (.generic e)
  | none => (msgTx.send none m).mapError fun e => .generic ("Failed to send text message: " ++ e)

def sendText (ed : EmbedderData) (msgTx : Chan ClientMessage Unit) (msg : String) :
    Except JsErrorBox (Chan ClientMessage Unit) :=
  send ed msgTx (.sendText msg)

def sendBinary (ed : EmbedderData) (msgTx : Chan ClientMessage Unit) (msg : Bytes) :
    Except JsErrorBox (Chan ClientMessage Unit) :=
  send ed msgTx (.sendBinary msg)

section Receive
variable {μ : Type}

def locked (kind : String) : Except JsErrorBox (Option μ) :=
  .error (.generic (kind ++ " message channel is already locked"))

/-- A closed channel is `None`. -/
def received : Except Unit μ → Except JsErrorBox (Option μ)
  | .ok msg => .ok (some msg)
  | .error () => .ok none

end Receive

def receiveText : Async String Unit (Except JsErrorBox (Option String)) := guarded (locked "Text") received

def receiveBinary : Async ByteBuf Unit (Except JsErrorBox (Option ByteBuf)) := guarded (locked "Binary") received

/-! ## What a send does -/

theorem send_ok {ed : EmbedderData} {q q' : Chan ClientMessage Unit} {m : ClientMessage}
    (h : send ed q m = .ok q') :
    ed.checkPayload m.payload.length = none ∧ q' = { q with queue := q.queue ++ [m] } := by
  unfold send at h
  split at h
  · cases h
  · next hc =>
    cases hs : q.send none m with
    | error e => simp [hs, Except.mapError] at h
    | ok q₁ =>
      simp only [hs, Except.mapError, Except.ok.injEq] at h
      subst h
      exact ⟨hc, (Chan.send_ok hs).2⟩

end EventBridge

end LuauFusion
