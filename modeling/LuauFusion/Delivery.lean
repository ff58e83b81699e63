import LuauFusion.Effects
/-!
# Every message once, in order

Each direction of the bridge is a reliable FIFO channel: the buffers a message
passes through, taken together, move as one queue (`Run.moves`), whatever the
schedule, the overlapping calls, the calls abandoned by `select!` and the calls
that fail.

- `toHost_once`: all messages for the host, texts and binaries in one order.
- `toForeign_once`: the texts and the binaries for the script, each in order.
-/
open LuauFusion.Lib LuauFusion.Lib.Utf8

namespace LuauFusion

/-! ## Histories -/

/-- The Luau value with the same bytes. -/
def ClientMessage.luau : ClientMessage → LuaValue
  | .sendText t => .string (utf8 t)
  | .sendBinary b => .buffer b

/-- The successful `sendText` and `sendBinary` calls, in call order. -/
def jsSent (es : List Event) : List ClientMessage :=
  es.filterMap fun | .jsSent m => some m | _ => none

/-- The values `receive` calls returned, in order. -/
def luauReceived (es : List Event) : List LuaValue :=
  es.filterMap fun | .luauReceived v => some v | _ => none

/-- The texts of the successful `sendtext` calls, in call order. -/
def luauTexts (es : List Event) : List String :=
  es.filterMap fun | .luauSent _ m => m.text? | _ => none

def luauBinaries (es : List Event) : List ByteBuf :=
  es.filterMap fun | .luauSent _ m => m.binary? | _ => none

/-- The texts `receiveText` calls returned, in order. -/
def jsTexts (es : List Event) : List String :=
  es.filterMap fun | .jsText t => t | _ => none

def jsBinaries (es : List Event) : List ByteBuf :=
  es.filterMap fun | .jsBinary b => b | _ => none

/-! ## To the host -/

def hostOp : Event → Option (Op LuaValue)
  | .jsSent m => some (.put m.luau)
  | .luauReceived v => some (.get v)
  | _ => none

/-- What is on its way to the host: in the transport, then in `msg_rx`. -/
def hostBound (s : Sys) : List LuaValue :=
  (s.hostRx.chan.queue ++ s.msgRx.queue).map ClientMessage.luau

theorem puts_hostOp (es : List Event) : puts (es.filterMap hostOp) = (jsSent es).map ClientMessage.luau := by
  rw [jsSent, List.map_filterMap]
  exact puts_obs (fun e => by cases e <;> rfl) es

theorem gets_hostOp (es : List Event) : gets (es.filterMap hostOp) = luauReceived es :=
  gets_obs (fun e => by cases e <;> rfl) es

theorem hostOp_jsResult {μ : Type} (f : Option μ → Event) (hf : ∀ t, hostOp (f t) = none)
    (o : Option (Except JsErrorBox (Option μ))) : (jsResult f o).filterMap hostOp = [] := by
  rcases o with _ | _ | t
  · rfl
  · rfl
  · simp only [jsResult, List.filterMap_cons, hf, List.filterMap_nil]

theorem surface_ok {lua : Lua} (hmem : lua.Allocates) (m : ClientMessage) :
    LangBridge.surface lua (ConcurrentlyExecuteServer.received (.ok m)) = .ok m.luau := by
  cases m with
  | sendText t => simp only [ConcurrentlyExecuteServer.received, Except.mapError, LangBridge.surface,
      Lua.createString, (hmem _).1, ClientMessage.luau]
  | sendBinary b => simp only [ConcurrentlyExecuteServer.received, Except.mapError, LangBridge.surface,
      Lua.createBuffer, (hmem _).2, ClientMessage.luau]

theorem host_step {E : Env} {s s' : Sys} {a : Action E.v8.JsString} {out : List Event} (hmem : E.lua.Allocates)
    (h : Effect E s a s' out) : Moves (out.filterMap hostOp) (hostBound s) (hostBound s') := by
  cases h with
  | jsSendText | jsSendBinary =>
    simp only [hostBound, List.map_append, List.map_cons, List.map_nil, ← List.append_assoc]
    exact .one_put _ _
  | @receive a fault rx o ha =>
    rcases acts_outcome ha with ⟨hc, ho⟩ | ⟨m, rfl, hq, -⟩
    · have hnone : (luauResult o).filterMap hostOp = [] := by
        rcases ho with rfl | rfl | ⟨e, rfl, -⟩ <;> rfl
      simp only [hostBound, hc, hnone]
      exact .nil _
    · simp only [hostBound, hq, Function.comp_apply, surface_ok hmem, luauResult]
      exact .one_get _ _
  | @forward m q _ hq =>
    simp only [hostBound, Sys.nextIteration, Receiver.finish, hq, List.append_assoc, List.singleton_append]
    exact .nil _
  | jsText _ ha =>
    rw [hostOp_jsResult _ fun _ => rfl]
    exact .nil _
  | jsBinary _ ha =>
    rw [hostOp_jsResult _ fun _ => rfl]
    exact .nil _
  | @dispatch _ _ m => cases m <;> exact .nil _
  | @finished r => cases r <;> exact .nil _
  | _ => exact .nil _

/-- The bridge to the host is a reliable FIFO channel. -/
theorem host_moves {E : Env} {as es s} (hmem : E.lua.Allocates) (h : Run (runV8Client E) as es s) :
    Moves (es.filterMap hostOp) [] (hostBound s) :=
  h.moves hostOp hostBound rfl fun _ _ _ _ _ _ hr ht => host_step hmem (run_effect hr ht)

/-- A send or a `receive` that fails takes nothing and adds nothing. -/
theorem failed_moves_nothing {E : Env} {s s' : Sys} {a : Action E.v8.JsString} {out : List Event}
    (hmem : E.lua.Allocates) (h : Effect E s a s' out)
    (hf : (∃ e, Event.jsSendFailed e ∈ out) ∨ ∃ e, Event.luauReceiveFailed e ∈ out) :
    s'.hostRx.chan = s.hostRx.chan ∧ s'.msgRx = s.msgRx := by
  cases h with
  | receive ha =>
    rcases acts_outcome ha with ⟨hc, -⟩ | ⟨m, rfl, -, -⟩
    · exact ⟨hc, rfl⟩
    · simp [surface_ok hmem, luauResult] at hf
  | dispatch | forward | cancelled | runEventLoop => simp at hf
  | @finished r => cases r <;> simp [evaluationError] at hf
  | _ => first | exact ⟨rfl, rfl⟩ | simp at hf

/-- Foreign to host, exactly once and in one order for both kinds: what
`receive` returned, then the transport, then `msg_rx`, is what the script sent,
each text as a string and each binary as a buffer of the same bytes. A send or a
`receive` that fails moves nothing. -/
theorem toHost_once {E : Env} {as es s} (hmem : E.lua.Allocates) (h : Run (runV8Client E) as es s) :
    luauReceived es ++ s.hostRx.chan.queue.map ClientMessage.luau ++ s.msgRx.queue.map ClientMessage.luau =
        (jsSent es).map ClientMessage.luau ∧
      ∀ a s' out, (runV8Client E).step s a = some (s', out) →
        ((∃ e, Event.jsSendFailed e ∈ out) ∨ ∃ e, Event.luauReceiveFailed e ∈ out) →
        s'.hostRx.chan = s.hostRx.chan ∧ s'.msgRx = s.msgRx := by
  constructor
  · have hb := (host_moves hmem h).balance
    rw [puts_hostOp, gets_hostOp, hostBound, List.map_append, ← List.append_assoc, List.nil_append] at hb
    exact hb
  · intro a s' out ht hf
    exact failed_moves_nothing hmem (run_effect h ht) hf

theorem toHost_once_both_kinds :
    ∃ as es s, Run (runV8Client (.plain ⟨0, none⟩)) as es s ∧
      luauReceived es = [.string (utf8 "hi")] ∧ s.msgRx.queue = [.sendBinary [1]] ∧
      luauReceived es ++ s.hostRx.chan.queue.map ClientMessage.luau ++ s.msgRx.queue.map ClientMessage.luau =
        (jsSent es).map ClientMessage.luau := by
  have h : Run (runV8Client (.plain ⟨0, none⟩))
      [.js (.sendText "hi"), .js (.sendBinary [1]), .loop .forward,
        .host (.receive (.start 0) none), .host (.receive (.poll 0) none)] _ _ := run_of_exec rfl
  exact ⟨_, _, _, h, rfl, rfl, (toHost_once (Env.plain_allocates _) h).1⟩

/-! ## To the script -/

def textOp : Event → Option (Op String)
  | .luauSent _ m => m.text?.map .put
  | .jsText t => t.map .get
  | _ => none

def binaryOp : Event → Option (Op ByteBuf)
  | .luauSent _ m => m.binary?.map .put
  | .jsBinary b => b.map .get
  | _ => none

/-- The texts on their way to the script: in the text channel, then in the
transport, among the binaries. -/
def textBound (s : Sys) : List String :=
  s.textRx.chan.queue ++ s.clientRx.chan.queue.filterMap ServerMessage.text?

def binaryBound (s : Sys) : List ByteBuf :=
  s.binaryRx.chan.queue ++ s.clientRx.chan.queue.filterMap ServerMessage.binary?

theorem puts_textOp (es : List Event) : puts (es.filterMap textOp) = luauTexts es := by
  refine puts_obs (fun e => ?_) es
  rcases e with ⟨_, _ | _⟩ | _ | _ | _ | _ | _ | ⟨_ | _⟩ | _ <;> rfl

theorem gets_textOp (es : List Event) : gets (es.filterMap textOp) = jsTexts es := by
  refine gets_obs (fun e => ?_) es
  rcases e with ⟨_, _ | _⟩ | _ | _ | _ | _ | _ | ⟨_ | _⟩ | _ <;> rfl

theorem puts_binaryOp (es : List Event) : puts (es.filterMap binaryOp) = luauBinaries es := by
  refine puts_obs (fun e => ?_) es
  rcases e with ⟨_, _ | _⟩ | _ | _ | _ | _ | _ | _ | ⟨_ | _⟩ | _ <;> rfl

theorem gets_binaryOp (es : List Event) : gets (es.filterMap binaryOp) = jsBinaries es := by
  refine gets_obs (fun e => ?_) es
  rcases e with ⟨_, _ | _⟩ | _ | _ | _ | _ | _ | _ | ⟨_ | _⟩ | _ <;> rfl

/-- What the outcome of a receive call on an open channel shows: the message it
took, if it took one. -/
theorem jsResult_open {μ : Type} {locked : Except JsErrorBox (Option μ)} {rx rx' : Receiver μ Unit _} {a : CallAct}
    {o : Option (Except JsErrorBox (Option μ))} (f : Option μ → Event) (hl : ∃ e, locked = .error e)
    (hopen : rx.chan.closed = none) (ha : Acts locked EventBridge.received none rx a rx' o) :
    (rx'.chan = rx.chan ∧ ((jsResult f o) = [] ∨ ∃ e, jsResult f o = [.jsReceiveFailed e])) ∨
      ∃ m, jsResult f o = [f (some m)] ∧ rx.chan.queue = m :: rx'.chan.queue := by
  obtain ⟨e, rfl⟩ := hl
  rcases acts_outcome ha with ⟨hc, rfl | rfl | ⟨u, rfl, hu⟩⟩ | ⟨m, rfl, hq, -⟩
  · exact .inl ⟨hc, .inl rfl⟩
  · exact .inl ⟨hc, .inr ⟨e, rfl⟩⟩
  · rw [hopen] at hu
    simp at hu
  · exact .inr ⟨m, rfl, hq⟩

/-- One step moves the two queues by the puts and gets it shows, and shows no
`None`: each kind's messages pass the other's by. -/
theorem foreign_step {E : Env} {s s' : Sys} {a : Action E.v8.JsString} {out : List Event} (hi : Inv E s)
    (h : Effect E s a s' out) :
    Moves (out.filterMap textOp) (textBound s) (textBound s') ∧
      Moves (out.filterMap binaryOp) (binaryBound s) (binaryBound s') ∧
      Event.jsText none ∉ out ∧ Event.jsBinary none ∉ out := by
  cases h with
  | @sendtext v t =>
    have hpass : [ServerMessage.sendText t].filterMap ServerMessage.binary? = [] := rfl
    refine ⟨?_, ?_, by simp, by simp⟩
    · simp only [textBound, List.filterMap_append, ← List.append_assoc]
      exact .one_put _ _
    · simp only [binaryBound, List.filterMap_append, hpass, List.append_nil]
      exact .nil _
  | @sendbinary v b =>
    have hpass : [ServerMessage.sendBinary b].filterMap ServerMessage.text? = [] := rfl
    refine ⟨?_, ?_, by simp, by simp⟩
    · simp only [textBound, List.filterMap_append, hpass, List.append_nil]
      exact .nil _
    · simp only [binaryBound, List.filterMap_append, ← List.append_assoc]
      exact .one_put _ _
  | @receive _ _ _ o ha =>
    rcases o with _ | _ | v <;> exact ⟨.nil _, .nil _, by simp [luauResult], by simp [luauResult]⟩
  | @jsText a rx o hx ha =>
    rcases jsResult_open .jsText ⟨_, rfl⟩ (hi.running hx).2.1 ha with ⟨hc, ho | ⟨e, ho⟩⟩ | ⟨m, ho, hq⟩
    · simp only [ho, textBound, hc]
      exact ⟨.nil _, .nil _, by simp, by simp⟩
    · simp only [ho, textBound, hc]
      exact ⟨.nil _, .nil _, by simp, by simp⟩
    · simp only [ho, textBound, hq]
      exact ⟨.one_get _ _, .nil _, by simp, by simp⟩
  | @jsBinary a rx o hx ha =>
    rcases jsResult_open .jsBinary ⟨_, rfl⟩ (hi.running hx).2.2 ha with ⟨hc, ho | ⟨e, ho⟩⟩ | ⟨m, ho, hq⟩
    · simp only [ho, binaryBound, hc]
      exact ⟨.nil _, .nil _, by simp, by simp⟩
    · simp only [ho, binaryBound, hc]
      exact ⟨.nil _, .nil _, by simp, by simp⟩
    · simp only [ho, binaryBound, hq]
      exact ⟨.nil _, .one_get _ _, by simp, by simp⟩
  | @pending _ rx _ _ hc =>
    refine ⟨?_, ?_, by simp, by simp⟩
    · simp only [textBound, hc]; exact .nil _
    · simp only [binaryBound, hc]; exact .nil _
  | @receiveFailed _ rx _ _ _ hc =>
    refine ⟨?_, ?_, by simp, by simp⟩
    · simp only [textBound, Sys.nextIteration, Receiver.finish, hc]; exact .nil _
    · simp only [binaryBound, Sys.nextIteration, Receiver.finish, hc]; exact .nil _
  | @dispatch _ rx m _ _ hq =>
    -- The message leaves the transport and joins its own kind's channel.
    refine ⟨?_, ?_, by simp, by simp⟩
    · cases m with
      | sendText t =>
        simp only [textBound, Sys.nextIteration, Receiver.finish, Sys.dispatch, Chan.offer_open hi.text_open, hq]
        simpa [ServerMessage.text?] using Moves.nil _
      | sendBinary b =>
        simp only [textBound, Sys.nextIteration, Receiver.finish, Sys.dispatch, hq]
        exact .nil _
    · cases m with
      | sendText t =>
        simp only [binaryBound, Sys.nextIteration, Receiver.finish, Sys.dispatch, hq]
        exact .nil _
      | sendBinary b =>
        simp only [binaryBound, Sys.nextIteration, Receiver.finish, Sys.dispatch, Chan.offer_open hi.binary_open, hq]
        simpa [ServerMessage.binary?] using Moves.nil _
  | @finished r => cases r <;> exact ⟨.nil _, .nil _, by simp [evaluationError], by simp [evaluationError]⟩
  | _ => exact ⟨.nil _, .nil _, by simp, by simp⟩

theorem text_moves {E : Env} {as es s} (h : Run (runV8Client E) as es s) :
    Moves (es.filterMap textOp) [] (textBound s) :=
  h.moves textOp textBound rfl fun _ _ _ _ _ _ hr ht => (foreign_step (run_inv hr) (run_effect hr ht)).1

theorem binary_moves {E : Env} {as es s} (h : Run (runV8Client E) as es s) :
    Moves (es.filterMap binaryOp) [] (binaryBound s) :=
  h.moves binaryOp binaryBound rfl fun _ _ _ _ _ _ hr ht => (foreign_step (run_inv hr) (run_effect hr ht)).2.1

theorem never_none {E : Env} {as es s} (h : Run (runV8Client E) as es s) :
    Event.jsText none ∉ es ∧ Event.jsBinary none ∉ es := by
  refine h.inv (fun _ es _ => Event.jsText none ∉ es ∧ Event.jsBinary none ∉ es) (by simp) ?_
  intro _ es s a s' out hr ih ht
  obtain ⟨-, -, ht', hb'⟩ := foreign_step (run_inv hr) (run_effect hr ht)
  simp only [List.mem_append, not_or]
  exact ⟨⟨ih.1, ht'⟩, ih.2, hb'⟩

/-- Host to foreign, exactly once and in order for each kind: what
`receiveText` returned, then the text channel, then the texts in the transport,
is what `sendtext` sent, and so for the binaries. While the loop runs no receive
call finds its channel closed. -/
theorem toForeign_once {E : Env} {as es s} (h : Run (runV8Client E) as es s) :
    jsTexts es ++ s.textRx.chan.queue ++ s.clientRx.chan.queue.filterMap ServerMessage.text? = luauTexts es ∧
      jsBinaries es ++ s.binaryRx.chan.queue ++ s.clientRx.chan.queue.filterMap ServerMessage.binary? =
        luauBinaries es ∧
      Event.jsText none ∉ es ∧ Event.jsBinary none ∉ es := by
  have ht := (text_moves h).balance
  have hb := (binary_moves h).balance
  rw [puts_textOp, gets_textOp, textBound, ← List.append_assoc, List.nil_append] at ht
  rw [puts_binaryOp, gets_binaryOp, binaryBound, ← List.append_assoc, List.nil_append] at hb
  exact ⟨ht, hb, never_none h⟩

theorem toForeign_once_both_kinds :
    ∃ as es s, Run (runV8Client (.plain ⟨0, none⟩)) as es s ∧ jsBinaries es = [[1]] ∧ s.textRx.chan.queue = ["a"] ∧
      (jsTexts es ++ s.textRx.chan.queue ++ s.clientRx.chan.queue.filterMap ServerMessage.text? = luauTexts es ∧
        jsBinaries es ++ s.binaryRx.chan.queue ++ s.clientRx.chan.queue.filterMap ServerMessage.binary? =
          luauBinaries es ∧
        Event.jsText none ∉ es ∧ Event.jsBinary none ∉ es) := by
  have h : Run (runV8Client (.plain ⟨0, none⟩))
      [.host (.sendtext (.string (utf8 "a")) none), .loop (.receiveFromHost (some "gone")), .loop .runEventLoop,
        .host (.sendbinary (.buffer [1]) none), .host (.sendtext (.string (utf8 "b")) none), .loop (.receiveFromHost none),
        .loop (.receiveFromHost none), .js (.receiveBinary (.start 7)), .js (.receiveBinary (.poll 7))] _ _ :=
    run_of_exec rfl
  exact ⟨_, _, _, h, rfl, rfl, toForeign_once h⟩

end LuauFusion
