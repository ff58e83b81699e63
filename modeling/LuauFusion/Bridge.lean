import LuauFusion.LangBridge
import LuauFusion.EventBridge
/-!
# The bridge as a whole

`denobridge/bridge.rs`: `run_v8_client`'s loop, put together with everything it
talks to. The parties are the Luau host, whose calls may overlap; the script,
which runs inside the loop's polls; and the loop. Their moves are the actions,
in any order: whichever branch of `select!` is ready may win, so a run is a
schedule.

The model starts where the loop does, after `mod_evaluate`, with the script
free to have acted already. `select!` makes every branch's future anew in each
iteration and drops them all once one wins, so the only call on the client's
receiver is the current iteration's, numbered by `iteration`.
-/
open LuauFusion.Lib LuauFusion.Lib.Utf8

namespace LuauFusion

/-- The two runtimes and the configuration each side was given. -/
structure Env where
  lua : Lua
  v8 : V8
  hostEd : EmbedderData
  clientEd : EmbedderData

/-- No converters, memory without end, and JavaScript strings that are Rust's. -/
def Env.plain (ed : EmbedderData) : Env where
  lua :=
    { textConverter := .ok none
      binaryConverter := .ok none
      stringAlloc := fun _ => none
      bufferAlloc := fun _ => none
      display := fun
        | .external msg | .memoryError msg => msg
        | .fromLuaConversionError fromType toType message =>
          "error converting Lua " ++ fromType ++ " to " ++ toType ++ ((message.map fun m => " (" ++ m ++ ")").getD "") }
  v8 := ⟨String, id, id, fun _ => rfl⟩
  hostEd := ed
  clientEd := ed

theorem Env.plain_allocates (ed : EmbedderData) : (Env.plain ed).lua.Allocates := fun _ => ⟨rfl, rfl⟩

/-- Why the loop broke. -/
inductive Exit where
  | cancelled
  | evaluated (resp : Except String Unit)

/-- `hostRx` is `ConcurrentlyExecuteServer::rx` and `clientRx` is
`ConcurrentlyExecuteClient::rx`; their channels are the transport. -/
structure Sys where
  hostRx : Receiver ClientMessage Error (Except LuaError LuaValue)
  clientRx : Receiver ServerMessage Error (Except Error ServerMessage)
  msgRx : Chan ClientMessage Unit
  textRx : Receiver String Unit (Except JsErrorBox (Option String))
  binaryRx : Receiver ByteBuf Unit (Except JsErrorBox (Option ByteBuf))
  iteration : Nat
  /-- What `mod_evaluate`'s future resolves to, once it does. -/
  evaluation : Option (Except String Unit)
  /-- `cancellation_token`, cancelled when the heap runs out. -/
  cancelled : Bool
  exit : Option Exit

/-- What an observer sees, in order. -/
inductive Event where
  | luauSent (v : LuaValue) (m : ServerMessage)
  | luauSendFailed (e : LuaError)
  | luauReceived (v : LuaValue)
  | luauReceiveFailed (e : LuaError)
  | jsSent (m : ClientMessage)
  | jsSendFailed (e : JsErrorBox)
  | jsText (t : Option String)
  | jsBinary (b : Option ByteBuf)
  | jsReceiveFailed (e : JsErrorBox)
  | evaluated (r : Except String Unit)
  /-- `transport.send_to_host(m)` was called. -/
  | handed (m : ClientMessage)
  | printed (line : String)
  | exited (why : Exit)

/-- `fault` is what the transport reports, if it does. -/
inductive HostAct where
  | sendtext (v : LuaValue) (fault : Option Error)
  | sendbinary (v : LuaValue) (fault : Option Error)
  | receive (a : CallAct) (fault : Option Error)

/-- The script's moves, the end of its evaluation and the heap running out. -/
inductive JsAct (J : Type) where
  | sendText (x : J)
  | sendBinary (b : Bytes)
  | receiveText (a : CallAct)
  | receiveBinary (a : CallAct)
  | endEvaluation (r : Except String Unit)
  | exhaustHeap

/-- A poll of one of the branches of `select!`. -/
inductive LoopAct where
  | receiveFromHost (fault : Option Error)
  | forward
  | cancelled
  | runEventLoop
  | finished

inductive Action (J : Type) where
  | host (a : HostAct)
  | js (a : JsAct J)
  | loop (a : LoopAct)

namespace Sys

/-- All branch futures are dropped and made anew. -/
def nextIteration (s : Sys) : Sys :=
  let rx := s.clientRx.finish s.iteration
  { s with
    clientRx := { rx with calls := Function.update rx.calls (s.iteration + 1) (some ConcurrentlyExecuteClient.receiveFromHost) }
    iteration := s.iteration + 1 }

/-- `break`: the senders to the script and the receiver of its messages go,
whatever is queued. -/
def leave (s : Sys) (why : Exit) : Sys :=
  { s with
    clientRx := s.clientRx.finish s.iteration
    msgRx := { s.msgRx with dropped := some "channel closed" }
    textRx := { s.textRx with chan := { s.textRx.chan with closed := some () } }
    binaryRx := { s.binaryRx with chan := { s.binaryRx.chan with closed := some () } }
    exit := some why }

/-- The arm of a message from the host. -/
def dispatch (s : Sys) : ServerMessage → Sys
  | .sendText msg => { s with textRx := { s.textRx with chan := s.textRx.chan.offer msg } }
  | .sendBinary msg => { s with binaryRx := { s.binaryRx with chan := s.binaryRx.chan.offer msg } }

/-- The arm of a message from the script: `let _ = transport.send_to_host(msg)`. The
transport is taken to be reliable here; what it refused would be lost. -/
def sendToHost (s : Sys) (m : ClientMessage) : Sys :=
  match ConcurrentlyExecuteClient.sendToHost s.hostRx.chan none m with
  | .ok tx => { s with hostRx := { s.hostRx with chan := tx } }
  | .error _ => s

end Sys

def initial : Sys where
  hostRx := .new
  clientRx := { (.new : Receiver ServerMessage Error (Except Error ServerMessage)) with
    calls := Function.update (fun _ => none) 0 (some ConcurrentlyExecuteClient.receiveFromHost) }
  msgRx := .new
  textRx := .new
  binaryRx := .new
  iteration := 0
  evaluation := none
  cancelled := false
  exit := none

/-- What the outcome of a `receive` call shows. -/
def luauResult : Option (Except LuaError LuaValue) → List Event
  | none => []
  | some (.ok v) => [.luauReceived v]
  | some (.error e) => [.luauReceiveFailed e]

/-- What the outcome of a JavaScript receive call shows. -/
def jsResult {μ : Type} (f : Option μ → Event) : Option (Except JsErrorBox (Option μ)) → List Event
  | none => []
  | some (.ok t) => [f t]
  | some (.error e) => [.jsReceiveFailed e]

/-- The message a failed evaluation leaves on stderr. -/
def evaluationError : Except String Unit → List Event
  | .ok () => []
  | .error e => [.printed ("Error evaluating module in V8 isolate manager: " ++ e)]

def hostStep (E : Env) (s : Sys) : HostAct → Option (Sys × List Event)
  | .sendtext v fault =>
    match LangBridge.sendtext E.lua E.hostEd s.clientRx.chan fault v with
    | .ok (m, tx) => some ({ s with clientRx := { s.clientRx with chan := tx } }, [.luauSent v m])
    | .error e => some (s, [.luauSendFailed e])
  | .sendbinary v fault =>
    match LangBridge.sendbinary E.lua E.hostEd s.clientRx.chan fault v with
    | .ok (m, tx) => some ({ s with clientRx := { s.clientRx with chan := tx } }, [.luauSent v m])
    | .error e => some (s, [.luauSendFailed e])
  | .receive a fault =>
    (s.hostRx.act (LangBridge.receive E.lua) fault a).map fun (rx, o) => ({ s with hostRx := rx }, luauResult o)

def jsStep (E : Env) (s : Sys) : JsAct E.v8.JsString → Option (Sys × List Event)
  | .sendText x =>
    match EventBridge.sendText E.clientEd s.msgRx (E.v8.toRust x) with
    | .ok q => some ({ s with msgRx := q }, [.jsSent (.sendText (E.v8.toRust x))])
    | .error e => some (s, [.jsSendFailed e])
  | .sendBinary b =>
    match EventBridge.sendBinary E.clientEd s.msgRx b with
    | .ok q => some ({ s with msgRx := q }, [.jsSent (.sendBinary b)])
    | .error e => some (s, [.jsSendFailed e])
  | .receiveText a =>
    (s.textRx.act EventBridge.receiveText none a).map fun (rx, o) => ({ s with textRx := rx }, jsResult .jsText o)
  | .receiveBinary a =>
    (s.binaryRx.act EventBridge.receiveBinary none a).map fun (rx, o) => ({ s with binaryRx := rx }, jsResult .jsBinary o)
  | .endEvaluation r =>
    match s.evaluation with
    | none => some ({ s with evaluation := some r }, [.evaluated r])
    | some _ => none
  | .exhaustHeap => some ({ s with cancelled := true }, [])

def loopStep (s : Sys) : LoopAct → Option (Sys × List Event)
  | .receiveFromHost fault =>
    match s.clientRx.act ConcurrentlyExecuteClient.receiveFromHost fault (.poll s.iteration) with
    | none => none
    -- Not ready: the iteration goes on, its call suspended.
    | some (rx, none) => some ({ s with clientRx := rx }, [])
    | some (rx, some (.ok m)) => some (({ s with clientRx := rx }.dispatch m).nextIteration, [])
    | some (rx, some (.error e)) =>
      some ({ s with clientRx := rx }.nextIteration,
        [.printed ("Error receiving message in V8 isolate manager: " ++ e)])
  | .forward =>
    match s.msgRx.recv none with
    | some (.ok m, q) => some (({ s with msgRx := q }.sendToHost m).nextIteration, [.handed m])
    -- `Some(msg) =` does not match the `None` of a closed channel: the branch is disabled.
    | _ => none
  | .cancelled => if s.cancelled then some (s.leave .cancelled, [.exited .cancelled]) else none
  | .runEventLoop => some (s.nextIteration, [])
  | .finished =>
    match s.evaluation with
    | none => none
    | some r => some (s.leave (.evaluated r), evaluationError r ++ [.exited (.evaluated r)])

/-- The script and the loop move only while the loop runs. -/
def step (E : Env) (s : Sys) : Action E.v8.JsString → Option (Sys × List Event)
  | .host a => hostStep E s a
  | .js a => if s.exit.isNone then jsStep E s a else none
  | .loop a => if s.exit.isNone then loopStep s a else none

def runV8Client (E : Env) : Machine Sys (Action E.v8.JsString) Event := ⟨initial, step E⟩

end LuauFusion
