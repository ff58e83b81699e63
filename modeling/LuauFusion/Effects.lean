import LuauFusion.Bridge
/-!
# What a step can do

`Inv` is what every step keeps: each receiver's lock is held by the call that
waits on it, the client's only call is the loop's, and nothing is closed while
the loop runs. `step_effect` sums up the code of a step from a state that
satisfies it, one case per outcome; the theorems about runs are case analyses
over `Effect` and do not look at the code again.
-/
open LuauFusion.Lib LuauFusion.Lib.Utf8

namespace LuauFusion

/-! ## The invariant -/

structure Inv (E : Env) (s : Sys) : Prop where
  host : Exclusive (LangBridge.surface E.lua (.error rxLocked))
    (LangBridge.surface E.lua ∘ ConcurrentlyExecuteServer.received) s.hostRx
  client : Exclusive (.error rxLocked) ConcurrentlyExecuteClient.received s.clientRx
  text : Exclusive (EventBridge.locked "Text") EventBridge.received s.textRx
  binary : Exclusive (EventBridge.locked "Binary") EventBridge.received s.binaryRx
  /-- Earlier iterations' calls are gone. -/
  only : ∀ c p, s.clientRx.calls c = some p → c = s.iteration
  host_open : s.hostRx.chan.dropped = none
  client_open : s.clientRx.chan.dropped = none
  text_open : s.textRx.chan.dropped = none
  binary_open : s.binaryRx.chan.dropped = none
  running : s.exit = none →
    s.msgRx.dropped = none ∧ s.textRx.chan.closed = none ∧ s.binaryRx.chan.closed = none

/-! ## Effects -/

/-- `m` is what the payload of a send method's argument `v` becomes. -/
def Converts (E : Env) (v : LuaValue) : ServerMessage → Prop
  | .sendText t => fromLuaText v E.lua E.hostEd = .ok t
  | .sendBinary b => fromLuaBinary v E.lua E.hostEd = .ok b

/-- Everything one step can do, with the events it shows. -/
inductive Effect (E : Env) (s : Sys) : Action E.v8.JsString → Sys → List Event → Prop
  | sendtext {v t} : Converts E v (.sendText t) →
      Effect E s (.host (.sendtext v none))
        { s with clientRx := { s.clientRx with chan := { s.clientRx.chan with queue := s.clientRx.chan.queue ++ [.sendText t] } } }
        [.luauSent v (.sendText t)]
  | sendbinary {v b} : Converts E v (.sendBinary b) →
      Effect E s (.host (.sendbinary v none))
        { s with clientRx := { s.clientRx with chan := { s.clientRx.chan with queue := s.clientRx.chan.queue ++ [.sendBinary b] } } }
        [.luauSent v (.sendBinary b)]
  | sendFailed {a e} : (∃ v fault, a = .host (.sendtext v fault) ∨ a = .host (.sendbinary v fault)) →
      Effect E s a s [.luauSendFailed e]
  | receive {a fault rx o} :
      Acts (LangBridge.surface E.lua (.error rxLocked)) (LangBridge.surface E.lua ∘ ConcurrentlyExecuteServer.received)
        fault s.hostRx a rx o →
      Effect E s (.host (.receive a fault)) { s with hostRx := rx } (luauResult o)
  | jsSendText {x} : s.exit = none → E.clientEd.checkPayload (utf8 (E.v8.toRust x)).length = none →
      Effect E s (.js (.sendText x))
        { s with msgRx := { s.msgRx with queue := s.msgRx.queue ++ [.sendText (E.v8.toRust x)] } }
        [.jsSent (.sendText (E.v8.toRust x))]
  | jsSendBinary {b} : s.exit = none → E.clientEd.checkPayload b.length = none →
      Effect E s (.js (.sendBinary b)) { s with msgRx := { s.msgRx with queue := s.msgRx.queue ++ [.sendBinary b] } }
        [.jsSent (.sendBinary b)]
  | jsSendTextFailed {x e} : s.exit = none → E.clientEd.checkPayload (utf8 (E.v8.toRust x)).length ≠ none →
      Effect E s (.js (.sendText x)) s [.jsSendFailed e]
  | jsSendBinaryFailed {b e} : s.exit = none → E.clientEd.checkPayload b.length ≠ none →
      Effect E s (.js (.sendBinary b)) s [.jsSendFailed e]
  | jsText {a rx o} : s.exit = none → Acts (EventBridge.locked "Text") EventBridge.received none s.textRx a rx o →
      Effect E s (.js (.receiveText a)) { s with textRx := rx } (jsResult .jsText o)
  | jsBinary {a rx o} : s.exit = none → Acts (EventBridge.locked "Binary") EventBridge.received none s.binaryRx a rx o →
      Effect E s (.js (.receiveBinary a)) { s with binaryRx := rx } (jsResult .jsBinary o)
  | evaluated {r} : s.exit = none → s.evaluation = none →
      Effect E s (.js (.endEvaluation r)) { s with evaluation := some r } [.evaluated r]
  | exhaustHeap : s.exit = none → Effect E s (.js .exhaustHeap) { s with cancelled := true } []
  /-- The host has sent nothing: the call is suspended, or stays so. -/
  | pending {fault rx} : s.exit = none →
      Acts (.error rxLocked) ConcurrentlyExecuteClient.received fault s.clientRx (.poll s.iteration) rx none →
      rx.chan = s.clientRx.chan →
      Effect E s (.loop (.receiveFromHost fault)) { s with clientRx := rx } []
  | dispatch {fault rx m} : s.exit = none →
      Acts (.error rxLocked) ConcurrentlyExecuteClient.received fault s.clientRx (.poll s.iteration) rx (some (.ok m)) →
      s.clientRx.chan.queue = m :: rx.chan.queue →
      Effect E s (.loop (.receiveFromHost fault)) ({ s with clientRx := rx }.dispatch m).nextIteration []
  /-- The transport reported `e`; the lock was free. -/
  | receiveFailed {fault rx e} : s.exit = none →
      Acts (.error rxLocked) ConcurrentlyExecuteClient.received fault s.clientRx (.poll s.iteration) rx
        (some (ConcurrentlyExecuteClient.received (.error e))) →
      rx.chan = s.clientRx.chan →
      Effect E s (.loop (.receiveFromHost fault)) { s with clientRx := rx }.nextIteration
        [.printed ("Error receiving message in V8 isolate manager: " ++ ("Failed to receive message from host language: " ++ e))]
  | forward {m q} : s.exit = none → s.msgRx.queue = m :: q.queue → q = { s.msgRx with queue := q.queue } →
      Effect E s (.loop .forward)
        { s with
          msgRx := q
          hostRx := { s.hostRx with chan := { s.hostRx.chan with queue := s.hostRx.chan.queue ++ [m] } } }.nextIteration
        [.handed m]
  | cancelled : s.exit = none → s.cancelled = true → Effect E s (.loop .cancelled) (s.leave .cancelled) [.exited .cancelled]
  | runEventLoop : s.exit = none → Effect E s (.loop .runEventLoop) s.nextIteration []
  | finished {r} : s.exit = none → s.evaluation = some r →
      Effect E s (.loop .finished) (s.leave (.evaluated r)) (evaluationError r ++ [.exited (.evaluated r)])

/-- Being `guarded`, the loop's call cannot find the lock taken: the lock's
holder would be the call itself. -/
theorem poll_own {E : Env} {s : Sys} (hi : Inv E s) {fault rx o}
    (ha : Acts (.error rxLocked) ConcurrentlyExecuteClient.received fault s.clientRx (.poll s.iteration) rx o) :
    (o = none ∧ rx.chan = s.clientRx.chan) ∨
      ∃ x, o = some (ConcurrentlyExecuteClient.received x) ∧ s.clientRx.chan.recv fault = some (x, rx.chan) := by
  cases ha with
  | @locked _ c' hc hc' =>
    have hown := hi.only c' _ hc'
    rw [hown, hc] at hc'
    exact absurd (Option.some.inj hc') (guarded_ne_waiting _ _)
  | suspend => exact .inl ⟨rfl, rfl⟩
  | still => exact .inl ⟨rfl, rfl⟩
  | @done _ x q _ hr => exact .inr ⟨x, rfl, hr⟩

theorem hostStep_effect {E : Env} {s s' : Sys} {a : HostAct} {out : List Event} (hi : Inv E s)
    (h : hostStep E s a = some (s', out)) : Effect E s (.host a) s' out := by
  cases a with
  | sendtext v fault =>
    simp only [hostStep] at h
    split at h
    · next m tx hs =>
      obtain ⟨rfl, t, ht, rfl, rfl⟩ := LangBridge.sendtext_ok hs
      cases h
      exact .sendtext ht
    · cases h; exact .sendFailed ⟨v, fault, .inl rfl⟩
  | sendbinary v fault =>
    simp only [hostStep] at h
    split at h
    · next m tx hs =>
      obtain ⟨rfl, b, hb, rfl, rfl⟩ := LangBridge.sendbinary_ok hs
      cases h
      exact .sendbinary hb
    · cases h; exact .sendFailed ⟨v, fault, .inr rfl⟩
  | receive a fault =>
    obtain ⟨⟨rx, o⟩, hact, he⟩ := Option.map_eq_some_iff.1 h
    cases he
    rw [LangBridge.receive_eq] at hact
    exact .receive (act_acts hi.host hact)

theorem jsStep_effect {E : Env} {s s' : Sys} {a : JsAct E.v8.JsString} {out : List Event} (hi : Inv E s)
    (hx : s.exit = none) (h : jsStep E s a = some (s', out)) : Effect E s (.js a) s' out := by
  obtain ⟨hopen, -, -⟩ := hi.running hx
  -- A send fails on the size alone: the channel is open while the loop runs.
  have hfail : ∀ {m e}, EventBridge.send E.clientEd s.msgRx m = .error e →
      E.clientEd.checkPayload m.payload.length ≠ none := by
    intro m e he hn
    simp [EventBridge.send, hn, Chan.send_open hopen, Except.mapError] at he
  cases a with
  | sendText x =>
    simp only [jsStep] at h
    split at h
    · next q hs =>
      obtain ⟨hc, rfl⟩ := EventBridge.send_ok hs
      cases h
      exact .jsSendText hx hc
    · next e he => cases h; exact .jsSendTextFailed hx (hfail he)
  | sendBinary b =>
    simp only [jsStep] at h
    split at h
    · next q hs =>
      obtain ⟨hc, rfl⟩ := EventBridge.send_ok hs
      cases h
      exact .jsSendBinary hx hc
    · next e he => cases h; exact .jsSendBinaryFailed hx (hfail he)
  | receiveText a =>
    obtain ⟨⟨rx, o⟩, hact, he⟩ := Option.map_eq_some_iff.1 h
    cases he
    exact .jsText hx (act_acts hi.text hact)
  | receiveBinary a =>
    obtain ⟨⟨rx, o⟩, hact, he⟩ := Option.map_eq_some_iff.1 h
    cases he
    exact .jsBinary hx (act_acts hi.binary hact)
  | endEvaluation r =>
    simp only [jsStep] at h
    split at h
    · next hr => cases h; exact .evaluated hx hr
    · cases h
  | exhaustHeap => cases h; exact .exhaustHeap hx

theorem loopStep_effect {E : Env} {s s' : Sys} {a : LoopAct} {out : List Event} (hi : Inv E s)
    (hx : s.exit = none) (h : loopStep s a = some (s', out)) : Effect E s (.loop a) s' out := by
  cases a with
  | receiveFromHost fault =>
    simp only [loopStep] at h
    -- The call is suspended or returns; it returns a message or the transport's error.
    cases hact : s.clientRx.act ConcurrentlyExecuteClient.receiveFromHost fault (.poll s.iteration) with
    | none => rw [hact] at h; cases h
    | some y =>
      obtain ⟨rx, o⟩ := y
      have ha := act_acts hi.client hact
      rw [hact] at h
      rcases poll_own hi ha with ⟨rfl, hchan⟩ | ⟨x, rfl, hr⟩
      · cases h
        exact .pending hx ha hchan
      · rcases Chan.recv_cases hr with ⟨m, rfl, -, hq, -⟩ | ⟨e, rfl, hchan, -⟩
        · cases h
          exact .dispatch hx ha hq
        · cases h
          exact .receiveFailed hx ha hchan
  | forward =>
    simp only [loopStep] at h
    split at h
    · next m q hr =>
      rcases Chan.recv_cases hr with ⟨m', hm, -, hq, hq'⟩ | ⟨e, he, -⟩
      · cases hm
        simp only [Sys.sendToHost, ConcurrentlyExecuteClient.sendToHost, Chan.send_open hi.host_open,
          Except.mapError, Option.some.injEq, Prod.mk.injEq] at h
        obtain ⟨rfl, rfl⟩ := h
        exact .forward hx hq hq'
      · cases he
    · cases h
  | cancelled =>
    simp only [loopStep] at h
    split at h
    · next hc => cases h; exact .cancelled hx hc
    · cases h
  | runEventLoop => cases h; exact .runEventLoop hx
  | finished =>
    simp only [loopStep] at h
    split at h
    · cases h
    · next r hr => cases h; exact .finished hx hr

/-- What a step from a state satisfying `Inv` does. -/
theorem step_effect {E : Env} {s s' : Sys} {a : Action E.v8.JsString} {out : List Event} (hi : Inv E s)
    (h : step E s a = some (s', out)) : Effect E s a s' out := by
  cases a with
  | host a => exact hostStep_effect hi h
  | js a =>
    simp only [step, Option.isNone_iff_eq_none] at h
    split at h
    · next hx => exact jsStep_effect hi hx h
    · cases h
  | loop a =>
    simp only [step, Option.isNone_iff_eq_none] at h
    split at h
    · next hx => exact loopStep_effect hi hx h
    · cases h

/-! ## Every step keeps the invariant -/

theorem initial_inv (E : Env) : Inv E initial where
  host := exclusive_new
  client := exclusive_new.start rfl
  text := exclusive_new
  binary := exclusive_new
  only c p hc := by
    simp only [initial, Function.update_apply] at hc
    split at hc
    · assumption
    · cases hc
  host_open := rfl
  client_open := rfl
  text_open := rfl
  binary_open := rfl
  running _ := ⟨rfl, rfl, rfl⟩

namespace Inv
variable {E : Env} {s : Sys}

theorem finished (hi : Inv E s) (c : Nat) : (s.clientRx.finish s.iteration).calls c = none := by
  simp only [Receiver.finish, Function.update_apply]
  split
  · rfl
  · next hne =>
    cases hc : s.clientRx.calls c with
    | none => rfl
    | some p => exact absurd (hi.only c p hc) hne

theorem nextIteration (hi : Inv E s) : Inv E s.nextIteration :=
  { hi with
    client := (hi.client.finish _).start (hi.finished _)
    only := by
      intro c p hc
      simp only [Sys.nextIteration, Function.update_apply, hi.finished] at hc ⊢
      split at hc
      · assumption
      · cases hc }

theorem leave (hi : Inv E s) (why : Exit) : Inv E (s.leave why) :=
  { hi with
    client := hi.client.finish _
    text := hi.text.with_chan _
    binary := hi.binary.with_chan _
    only := by
      intro c p hc
      simp only [Sys.leave, hi.finished] at hc
      cases hc
    running := by intro h; cases h }

/-- A poll of the loop's call. -/
theorem poll (hi : Inv E s) {fault rx o}
    (ha : Acts (.error rxLocked) ConcurrentlyExecuteClient.received fault s.clientRx (.poll s.iteration) rx o) :
    Inv E { s with clientRx := rx } :=
  { hi with
    client := exclusive_step hi.client ha
    only := by
      intro c p hc
      by_contra hne
      rw [acts_frame ha hne] at hc
      exact hne (hi.only c p hc)
    client_open := (acts_ends ha).2.trans hi.client_open }

theorem dispatch (hi : Inv E s) (m : ServerMessage) : Inv E (s.dispatch m) := by
  cases m with
  | sendText t =>
    simp only [Sys.dispatch, Chan.offer_open hi.text_open]
    exact { hi with text := hi.text.with_chan _ }
  | sendBinary b =>
    simp only [Sys.dispatch, Chan.offer_open hi.binary_open]
    exact { hi with binary := hi.binary.with_chan _ }

end Inv

theorem effect_inv {E : Env} {s s' : Sys} {a : Action E.v8.JsString} {out : List Event} (hi : Inv E s)
    (h : Effect E s a s' out) : Inv E s' := by
  cases h with
  | sendtext | sendbinary => exact { hi with client := hi.client.with_chan _ }
  | sendFailed | jsSendTextFailed | jsSendBinaryFailed => exact hi
  | jsSendText hx | jsSendBinary hx => exact { hi with running := fun _ => hi.running hx }
  | evaluated | exhaustHeap => exact { hi with }
  | receive ha =>
    exact { hi with
      host := exclusive_step hi.host ha
      host_open := (acts_ends ha).2.trans hi.host_open }
  | jsText hx ha =>
    obtain ⟨hm, ht, hb⟩ := hi.running hx
    exact { hi with
      text := exclusive_step hi.text ha
      text_open := (acts_ends ha).2.trans hi.text_open
      running := fun _ => ⟨hm, (acts_ends ha).1.trans ht, hb⟩ }
  | jsBinary hx ha =>
    obtain ⟨hm, ht, hb⟩ := hi.running hx
    exact { hi with
      binary := exclusive_step hi.binary ha
      binary_open := (acts_ends ha).2.trans hi.binary_open
      running := fun _ => ⟨hm, ht, (acts_ends ha).1.trans hb⟩ }
  | pending _ ha => exact hi.poll ha
  | dispatch _ ha => exact ((hi.poll ha).dispatch _).nextIteration
  | receiveFailed _ ha => exact (hi.poll ha).nextIteration
  | @forward m q hx hq hq' =>
    refine Inv.nextIteration { hi with host := hi.host.with_chan _, running := fun _ => ?_ }
    rw [hq']
    exact hi.running hx
  | cancelled | finished => exact hi.leave _
  | runEventLoop => exact hi.nextIteration

/-- The invariant holds in every state a run reaches. -/
theorem run_inv {E : Env} {as es s} (h : Run (runV8Client E) as es s) : Inv E s := by
  refine h.inv (fun _ _ s => Inv E s) (initial_inv E) ?_
  intro _ _ s a s' out _ ih ht
  exact effect_inv ih (step_effect ih ht)

/-- A step of a run is an `Effect`. -/
theorem run_effect {E : Env} {as es s a s' out} (h : Run (runV8Client E) as es s)
    (ht : (runV8Client E).step s a = some (s', out)) : Effect E s a s' out :=
  step_effect (run_inv h) ht

end LuauFusion
