import LuauFusion.Effects
/-!
# What a failure means

The methods wrap every error they meet in a text of their own. Along a run only
some of these texts ever show: while the loop runs no send of the script fails for its
channel, whatever the schedule, and `failures_explained` says of each failure which
call raised it and why.
-/
open LuauFusion.Lib LuauFusion.Lib.Utf8

namespace LuauFusion

/-- The message a send method of the script would queue. -/
def jsMessage (E : Env) : Action E.v8.JsString → Option ClientMessage
  | .js (.sendText x) => some (.sendText (E.v8.toRust x))
  | .js (.sendBinary b) => some (.sendBinary b)
  | _ => none

/-- The text of the payload check. -/
def tooLarge (len max : Nat) : String :=
  "Payload size " ++ toString len ++ " exceeds maximum allowed size of " ++ toString max ++ " bytes"

/-- The payload of the script's send is over the limit, and `e` says so. -/
def Oversized (E : Env) (a : Action E.v8.JsString) (e : JsErrorBox) : Prop :=
  ∃ m max, jsMessage E a = some m ∧ E.clientEd.maxPayloadSize = some max ∧ max < m.payload.length ∧
    e = .generic (tooLarge m.payload.length max)

/-- The argument of Luau's send does not convert, and `le` says why. -/
def Unconvertible (E : Env) (a : Action E.v8.JsString) (le : LuaError) : Prop :=
  (∃ v fault le', a = .host (.sendtext v fault) ∧ fromLuaText v E.lua E.hostEd = .error le' ∧
    le = .external ("Failed to convert argument to string: " ++ E.lua.display le')) ∨
  ∃ v fault le', a = .host (.sendbinary v fault) ∧ fromLuaBinary v E.lua E.hostEd = .error le' ∧
    le = .external ("Failed to convert argument to binary: " ++ E.lua.display le')

/-- The transport's error `e`, as both send methods wrap it. -/
def refused (kind : String) (e : Error) : LuaError :=
  .external ("Failed to send " ++ kind ++ " message: " ++ ("Failed to send message to target language: " ++ e))

/-- The argument of Luau's send converts, and the transport refuses the message. -/
def Refused (E : Env) (a : Action E.v8.JsString) (le : LuaError) : Prop :=
  (∃ v e t, a = .host (.sendtext v (some e)) ∧ fromLuaText v E.lua E.hostEd = .ok t ∧ le = refused "text" e) ∨
  ∃ v e b, a = .host (.sendbinary v (some e)) ∧ fromLuaBinary v E.lua E.hostEd = .ok b ∧ le = refused "binary" e

theorem checkPayload_some {ed : EmbedderData} {len : Nat} {e : String} :
    ed.checkPayload len = some e ↔ ∃ max, ed.maxPayloadSize = some max ∧ max < len ∧ e = tooLarge len max := by
  unfold EmbedderData.checkPayload
  cases ed.maxPayloadSize with
  | none => simp
  | some max =>
    by_cases h : max < len
    · simp [h, tooLarge, eq_comm]
    · simp [h]

/-! ## Sends -/

/-- A send on an open channel fails on the size check, and on nothing else. -/
theorem send_error {ed : EmbedderData} {q : Chan ClientMessage Unit} (hq : q.dropped = none) {m : ClientMessage}
    {e : JsErrorBox} : EventBridge.send ed q m = .error e ↔
      ∃ max, ed.maxPayloadSize = some max ∧ max < m.payload.length ∧ e = .generic (tooLarge m.payload.length max) := by
  unfold EventBridge.send
  rw [Chan.send_open hq]
  cases hc : ed.checkPayload m.payload.length with
  | none =>
    refine iff_of_false (by simp [Except.mapError]) ?_
    rintro ⟨max, hm, hlt, -⟩
    rw [EmbedderData.checkPayload_none hm] at hc
    omega
  | some t =>
    obtain ⟨max, hm, hlt, rfl⟩ := checkPayload_some.1 hc
    simp only [Except.error.injEq, hm, Option.some.injEq]
    constructor
    · rintro rfl
      exact ⟨max, rfl, hlt, rfl⟩
    · rintro ⟨_, rfl, -, rfl⟩
      rfl

theorem push_error {tx : Chan ServerMessage Error} (hq : tx.dropped = none) {fault : Option Error} {kind : String}
    {m : ServerMessage} {e : LuaError} :
    LangBridge.push tx fault kind m = .error e ↔ ∃ f, fault = some f ∧ e = refused kind f := by
  cases fault with
  | none => simp [LangBridge.push_open hq]
  | some f => simp [LangBridge.push_fault, refused, eq_comm]

theorem sendtext_error {lua : Lua} {ed : EmbedderData} {tx : Chan ServerMessage Error} (hq : tx.dropped = none)
    {fault : Option Error} {v : LuaValue} {e : LuaError} : LangBridge.sendtext lua ed tx fault v = .error e ↔
      (∃ le, fromLuaText v lua ed = .error le ∧
        e = .external ("Failed to convert argument to string: " ++ lua.display le)) ∨
      ∃ f t, fault = some f ∧ fromLuaText v lua ed = .ok t ∧ e = refused "text" f := by
  unfold LangBridge.sendtext
  cases fromLuaText v lua ed with
  | error le => simp [eq_comm]
  | ok t => simp [push_error hq]

theorem sendbinary_error {lua : Lua} {ed : EmbedderData} {tx : Chan ServerMessage Error} (hq : tx.dropped = none)
    {fault : Option Error} {v : LuaValue} {e : LuaError} : LangBridge.sendbinary lua ed tx fault v = .error e ↔
      (∃ le, fromLuaBinary v lua ed = .error le ∧
        e = .external ("Failed to convert argument to binary: " ++ lua.display le)) ∨
      ∃ f b, fault = some f ∧ fromLuaBinary v lua ed = .ok b ∧ e = refused "binary" f := by
  unfold LangBridge.sendbinary
  cases fromLuaBinary v lua ed with
  | error le => simp [eq_comm]
  | ok t => simp [push_error hq]

/-! ## Receives -/

theorem mem_jsResult {μ : Type} {f : Option μ → Event} (hf : ∀ t e, f t ≠ .jsReceiveFailed e)
    {o : Option (Except JsErrorBox (Option μ))} {e : JsErrorBox} :
    Event.jsReceiveFailed e ∈ jsResult f o ↔ o = some (.error e) := by
  rcases o with _ | e' | t
  · simp [jsResult]
  · simp [jsResult, eq_comm]
  · simpa [jsResult] using (hf t e).symm

theorem mem_luauResult {o : Option (Except LuaError LuaValue)} {e : LuaError} :
    Event.luauReceiveFailed e ∈ luauResult o ↔ o = some (.error e) := by
  rcases o with _ | e' | t
  · simp [luauResult]
  · simp [luauResult, eq_comm]
  · simp [luauResult]

/-- Another call waits for a message when call `c` is polled for the first time. -/
def Contended {μ ε ρ : Type} (p : Async μ ε ρ) (rx : Receiver μ ε ρ) (c : Nat) : Prop :=
  rx.calls c = some p ∧ ∃ c' ≠ c, rx.Suspended c'

/-- A JavaScript receive call fails on the lock, and on nothing else. -/
theorem receive_error {μ : Type} {kind : String} {f : Option μ → Event} (hf : ∀ t e, f t ≠ .jsReceiveFailed e)
    {rx rx' : Receiver μ Unit (Except JsErrorBox (Option μ))}
    (hi : Exclusive (EventBridge.locked kind) EventBridge.received rx) {a : CallAct}
    {o : Option (Except JsErrorBox (Option μ))}
    (ha : Acts (EventBridge.locked kind) EventBridge.received none rx a rx' o) {e : JsErrorBox} :
    Event.jsReceiveFailed e ∈ jsResult f o ↔ e = .generic (kind ++ " message channel is already locked") ∧
      ∃ c, a = .poll c ∧ Contended (guarded (EventBridge.locked kind) EventBridge.received) rx c := by
  have hk : ∀ x : Except Unit μ, EventBridge.received x ≠ EventBridge.locked kind := by
    rintro (_ | _) <;> simp [EventBridge.received, EventBridge.locked]
  rw [mem_jsResult hf]
  constructor
  · rintro rfl
    rcases acts_outcome ha with ⟨-, h | h | ⟨e', h, -⟩⟩ | ⟨m, h, -⟩
    · cases h
    · obtain rfl : e = .generic (kind ++ " message channel is already locked") := by
        simpa [EventBridge.locked] using h
      refine ⟨rfl, ?_⟩
      cases a with
      | poll c => exact ⟨c, rfl, (hi.locked_iff hk ha).1 rfl⟩
      | start c => cases ha
      | drop c => cases ha
    · cases h
    · cases h
  · rintro ⟨rfl, c, rfl, hc⟩
    exact (hi.locked_iff hk ha).2 hc

/-- What makes a `receive` of Luau's fail: the lock, the transport, or the VM's
memory once the message has been taken. -/
inductive ReceiveFault (E : Env) (rx rx' : Receiver ClientMessage Error (Except LuaError LuaValue)) :
    CallAct → Option Error → LuaError → Prop
  | locked {c fault} : Contended (LangBridge.receive E.lua) rx c → rx'.chan = rx.chan →
      ReceiveFault E rx rx' (.poll c) fault (.external ("Failed to receive text message: " ++ rxLocked))
  | transport {c e} : rx'.chan = rx.chan →
      ReceiveFault E rx rx' (.poll c) (some e)
        (.external ("Failed to receive text message: " ++ ("Failed to send message to target language: " ++ e)))
  | string {c t e} : rx.chan.queue = .sendText t :: rx'.chan.queue → E.lua.stringAlloc (utf8 t) = some e →
      ReceiveFault E rx rx' (.poll c) none e
  | buffer {c b e} : rx.chan.queue = .sendBinary b :: rx'.chan.queue → E.lua.bufferAlloc b = some e →
      ReceiveFault E rx rx' (.poll c) none e

/-- The transport's end at the host never reports that its senders are gone. -/
theorem run_host_closed {E : Env} {as es s} (h : Run (runV8Client E) as es s) : s.hostRx.chan.closed = none := by
  refine h.inv (fun _ _ s => s.hostRx.chan.closed = none) rfl ?_
  intro _ _ s a s' out hr ih ht
  cases run_effect hr ht with
  | receive ha => exact (acts_ends ha).1.trans ih
  | @dispatch _ _ m => cases m <;> exact ih
  | _ => exact ih

theorem luau_receive_error {E : Env} {s : Sys} (hi : Inv E s) (hclosed : s.hostRx.chan.closed = none) {a : CallAct}
    {fault : Option Error} {rx o}
    (ha : Acts (LangBridge.surface E.lua (.error rxLocked)) (LangBridge.surface E.lua ∘ ConcurrentlyExecuteServer.received)
      fault s.hostRx a rx o) {e : LuaError} (he : Event.luauReceiveFailed e ∈ luauResult o) :
    ReceiveFault E s.hostRx rx a fault e := by
  rw [mem_luauResult] at he
  cases ha with
  | start | suspend | still | drop => cases he
  | @locked c c' hc hc' =>
    obtain rfl : _ = e := Except.error.inj (Option.some.inj he)
    refine .locked ⟨by rw [LangBridge.receive_eq]; exact hc, c', ?_, (hi.host.suspended_iff c').2 hc'⟩ rfl
    rintro rfl
    exact guarded_ne_waiting _ _ (Option.some.inj (hc.symm.trans hc'))
  | @done c x q _ hr =>
    have he := Option.some.inj he
    rcases Chan.recv_cases hr with ⟨m, rfl, rfl, hq, -⟩ | ⟨e', rfl, rfl, hf⟩
    · cases m with
      | sendText t =>
        simp only [Function.comp_apply, ConcurrentlyExecuteServer.received, Except.mapError, LangBridge.surface,
          Lua.createString] at he
        split at he
        · next le hle =>
          cases he
          exact .string hq hle
        · cases he
      | sendBinary b =>
        simp only [Function.comp_apply, ConcurrentlyExecuteServer.received, Except.mapError, LangBridge.surface,
          Lua.createBuffer] at he
        split at he
        · next le hle =>
          cases he
          exact .buffer hq hle
        · cases he
    · rw [hclosed, or_iff_left (by simp)] at hf
      subst hf
      cases he
      exact .transport rfl

/-! ## Every failure of a run -/

section Step
variable {E : Env} {s s' : Sys} {a : Action E.v8.JsString} {out : List Event}

theorem js_send_failures (hi : Inv E s) (ht : step E s a = some (s', out)) (e : JsErrorBox) :
    Event.jsSendFailed e ∈ out ↔ Oversized E a e := by
  -- What either send method does with its message, while the loop runs.
  have hsend : ∀ m, jsMessage E a = some m → s.exit = none →
      (out = [.jsSent m] ∧ (∃ q, EventBridge.send E.clientEd s.msgRx m = .ok q) ∨
        ∃ e', out = [.jsSendFailed e'] ∧ EventBridge.send E.clientEd s.msgRx m = .error e') →
      (Event.jsSendFailed e ∈ out ↔ Oversized E a e) := by
    intro m hm hx hout
    have hopen := (hi.running hx).1
    have hmax : Oversized E a e ↔ EventBridge.send E.clientEd s.msgRx m = .error e := by
      rw [send_error hopen, Oversized, hm]
      simp
    rw [hmax]
    rcases hout with ⟨rfl, q, hq⟩ | ⟨e', rfl, he⟩
    · simp [hq]
    · simp [he, eq_comm]
  have hx : ∀ b, a = .js b → s.exit = none := by
    rintro b rfl
    cases hx : s.exit with
    | none => rfl
    | some why => simp [step, hx] at ht
  have hother : jsMessage E a = none → (Event.jsSendFailed e ∈ out ↔ Oversized E a e) := by
    intro ha
    refine iff_of_false ?_ (by simp [Oversized, ha])
    cases step_effect hi ht with
    | jsSendTextFailed | jsSendBinaryFailed => cases ha
    | @receive _ _ _ o => rcases o with _ | _ | _ <;> simp [luauResult]
    | @jsText _ _ o => rcases o with _ | _ | _ <;> simp [jsResult]
    | @jsBinary _ _ o => rcases o with _ | _ | _ <;> simp [jsResult]
    | @finished r => cases r <;> simp [evaluationError]
    | _ => simp
  cases a with
  | host b => exact hother rfl
  | loop b => exact hother rfl
  | js b =>
    cases b with
    | sendText x =>
      refine hsend _ rfl (hx _ rfl) ?_
      simp only [step, hx _ rfl, Option.isNone_none, if_true, jsStep] at ht
      split at ht
      · next q hq =>
        cases ht
        exact .inl ⟨rfl, q, hq⟩
      · next e' he =>
        cases ht
        exact .inr ⟨e', rfl, he⟩
    | sendBinary b =>
      refine hsend _ rfl (hx _ rfl) ?_
      simp only [step, hx _ rfl, Option.isNone_none, if_true, jsStep] at ht
      split at ht
      · next q hq =>
        cases ht
        exact .inl ⟨rfl, q, hq⟩
      · next e' he =>
        cases ht
        exact .inr ⟨e', rfl, he⟩
    | receiveText | receiveBinary | endEvaluation | exhaustHeap => exact hother rfl

theorem luau_send_failures (hi : Inv E s) (ht : step E s a = some (s', out)) (le : LuaError) :
    Event.luauSendFailed le ∈ out ↔ Unconvertible E a le ∨ Refused E a le := by
  have hother : (∀ v fault, a ≠ .host (.sendtext v fault) ∧ a ≠ .host (.sendbinary v fault)) →
      Event.luauSendFailed le ∉ out := by
    intro ha
    cases step_effect hi ht with
    | sendFailed hs =>
      obtain ⟨v, fault, rfl | rfl⟩ := hs
      · exact absurd rfl (ha v fault).1
      · exact absurd rfl (ha v fault).2
    | @receive _ _ _ o => rcases o with _ | _ | _ <;> simp [luauResult]
    | @jsText _ _ o => rcases o with _ | _ | _ <;> simp [jsResult]
    | @jsBinary _ _ o => rcases o with _ | _ | _ <;> simp [jsResult]
    | @finished r => cases r <;> simp [evaluationError]
    | _ => simp
  have hnot : (∀ v fault, a ≠ .host (.sendtext v fault) ∧ a ≠ .host (.sendbinary v fault)) →
      (Event.luauSendFailed le ∈ out ↔ Unconvertible E a le ∨ Refused E a le) := by
    intro ha
    refine iff_of_false (hother ha) ?_
    rintro ((⟨v, _, _, hv, -⟩ | ⟨v, _, _, hv, -⟩) | ⟨v, _, _, hv, -⟩ | ⟨v, _, _, hv, -⟩)
    · exact (ha v _).1 hv
    · exact (ha v _).2 hv
    · exact (ha v _).1 hv
    · exact (ha v _).2 hv
  cases a with
  | js b => exact hnot fun v fault => ⟨by simp, by simp⟩
  | loop b => exact hnot fun v fault => ⟨by simp, by simp⟩
  | host b =>
    cases b with
    | receive => exact hnot fun v fault => ⟨by simp, by simp⟩
    | sendtext v fault =>
      have hs : LangBridge.sendtext E.lua E.hostEd s.clientRx.chan fault v = .error le ↔ _ := sendtext_error hi.client_open
      simp only [step, hostStep] at ht
      split at ht
      · next m tx hok =>
        cases ht
        rw [hok] at hs
        simpa [Unconvertible, Refused] using hs
      · next e' he =>
        cases ht
        rw [he, Except.error.injEq, eq_comm] at hs
        simpa [Unconvertible, Refused] using hs
    | sendbinary v fault =>
      have hs : LangBridge.sendbinary E.lua E.hostEd s.clientRx.chan fault v = .error le ↔ _ := sendbinary_error hi.client_open
      simp only [step, hostStep] at ht
      split at ht
      · next m tx hok =>
        cases ht
        rw [hok] at hs
        simpa [Unconvertible, Refused] using hs
      · next e' he =>
        cases ht
        rw [he, Except.error.injEq, eq_comm] at hs
        simpa [Unconvertible, Refused] using hs

theorem js_receive_failures (hi : Inv E s) (h : Effect E s a s' out) (e : JsErrorBox) :
    Event.jsReceiveFailed e ∈ out ↔
      (e = .generic "Text message channel is already locked" ∧
        ∃ c, a = .js (.receiveText (.poll c)) ∧ Contended EventBridge.receiveText s.textRx c) ∨
      (e = .generic "Binary message channel is already locked" ∧
        ∃ c, a = .js (.receiveBinary (.poll c)) ∧ Contended EventBridge.receiveBinary s.binaryRx c) := by
  cases h with
  | jsText _ ha =>
    rw [receive_error (by simp) hi.text ha]
    simp [EventBridge.receiveText]
  | jsBinary _ ha =>
    rw [receive_error (by simp) hi.binary ha]
    simp [EventBridge.receiveBinary]
  | @receive _ _ _ o => rcases o with _ | _ | _ <;> simp [luauResult]
  | @finished r => cases r <;> simp [evaluationError]
  | sendFailed hs => rcases hs with ⟨v, fault, rfl | rfl⟩ <;> simp
  | _ => simp

theorem luau_receive_failures (hi : Inv E s) (hclosed : s.hostRx.chan.closed = none) (h : Effect E s a s' out)
    (le : LuaError) (he : Event.luauReceiveFailed le ∈ out) :
    ∃ c fault, a = .host (.receive c fault) ∧ ReceiveFault E s.hostRx s'.hostRx c fault le := by
  cases h with
  | receive ha => exact ⟨_, _, rfl, luau_receive_error hi hclosed ha he⟩
  | @jsText _ _ o => rcases o with _ | _ | _ <;> simp [jsResult] at he
  | @jsBinary _ _ o => rcases o with _ | _ | _ <;> simp [jsResult] at he
  | @finished r => cases r <;> simp [evaluationError] at he
  | _ => simp at he

end Step

/-- In a step of any run, while the loop runs: a send of the script fails exactly
where its payload is over the limit, and says so; a send of Luau's exactly where
its argument does not convert or the transport refuses the message; a receive of
the script exactly where another call waits; and what a `receive` of Luau's reports
is one of its four faults. The script's own channel refuses no message. -/
theorem failures_explained {E : Env} {as es s} (h : Run (runV8Client E) as es s) (_ : s.exit = none) {a s' out}
    (ht : (runV8Client E).step s a = some (s', out)) (e : JsErrorBox) (le : LuaError) :
    (Event.jsSendFailed e ∈ out ↔ Oversized E a e) ∧
    (Event.luauSendFailed le ∈ out ↔ Unconvertible E a le ∨ Refused E a le) ∧
    (Event.jsReceiveFailed e ∈ out ↔
      (e = .generic "Text message channel is already locked" ∧
        ∃ c, a = .js (.receiveText (.poll c)) ∧ Contended EventBridge.receiveText s.textRx c) ∨
      (e = .generic "Binary message channel is already locked" ∧
        ∃ c, a = .js (.receiveBinary (.poll c)) ∧ Contended EventBridge.receiveBinary s.binaryRx c)) ∧
    (Event.luauReceiveFailed le ∈ out → ∃ c fault, a = .host (.receive c fault) ∧
      ReceiveFault E s.hostRx s'.hostRx c fault le) := by
  have hi := run_inv h
  have he := run_effect h ht
  refine ⟨?_, ?_, js_receive_failures hi he e, luau_receive_failures hi (run_host_closed h) he le⟩
  · exact js_send_failures hi ht e
  · exact luau_send_failures hi ht le

theorem failures_explained_second_receive :
    ∃ es s s' out, Run (runV8Client (.plain ⟨0, none⟩)) [.js (.receiveText (.start 0)), .js (.receiveText (.poll 0)),
        .js (.receiveText (.start 1))] es s ∧
      (runV8Client (.plain ⟨0, none⟩)).step s (.js (.receiveText (.poll 1))) = some (s', out) ∧
      out = [.jsReceiveFailed (.generic "Text message channel is already locked")] ∧
      ∃ c, Contended EventBridge.receiveText s.textRx c := by
  have h : Run (runV8Client (.plain ⟨0, none⟩)) [.js (.receiveText (.start 0)), .js (.receiveText (.poll 0)),
      .js (.receiveText (.start 1))] _ _ := run_of_exec rfl
  refine ⟨_, _, _, _, h, rfl, rfl, ?_⟩
  have hwhy := (failures_explained h rfl (a := .js (.receiveText (.poll 1))) rfl
    (.generic "Text message channel is already locked") (.external "")).2.2.1.1 (List.mem_singleton.2 rfl)
  rcases hwhy with ⟨-, c, -, hc⟩ | ⟨hne, -⟩
  · exact ⟨c, hc⟩
  · simp at hne

end LuauFusion
