import LuauFusion.Delivery
/-!
# Nothing gets stuck

While the loop runs, every message in a buffer can move on: `select!` has the
branch for it, and some receive call, alive or new, takes it. `drains` follows:
from every reachable state the bridge can be emptied, without another send and
without dropping a call, and then everything sent has been received.
-/
open LuauFusion.Lib LuauFusion.Lib.Utf8

namespace LuauFusion

/-! ## Deliveries -/

/-- A move that only takes messages further: a branch of the loop, or a receive
call started or polled. -/
def isDelivery {J : Type} : Action J → Bool
  | .loop .forward | .loop (.receiveFromHost none) => true
  | .host (.receive (.start _) none) | .host (.receive (.poll _) none) => true
  | .js (.receiveText (.start _)) | .js (.receiveText (.poll _)) => true
  | .js (.receiveBinary (.start _)) | .js (.receiveBinary (.poll _)) => true
  | _ => false

/-- How many moves the queued messages are from their receivers. -/
def inFlight (s : Sys) : Nat :=
  2 * s.msgRx.queue.length + s.hostRx.chan.queue.length +
    (2 * s.clientRx.chan.queue.length + s.textRx.chan.queue.length + s.binaryRx.chan.queue.length)

/-- Some deliveries bring a message closer to its receiver. -/
def CanDeliver (E : Env) (s : Sys) : Prop :=
  ∃ bs es' s', (∀ b ∈ bs, isDelivery b = true) ∧ (runV8Client E).runFrom s bs = some (es', s') ∧ s'.exit = none ∧
    inFlight s' < inFlight s

/-! ## The loop's own call -/

theorem nextIteration_own (s : Sys) :
    s.nextIteration.clientRx.calls s.nextIteration.iteration = some ConcurrentlyExecuteClient.receiveFromHost := by
  simp [Sys.nextIteration]

/-- While the loop runs, its call on the host's receiver is alive. -/
def HasOwn (s : Sys) : Prop := s.exit = none → ∃ p, s.clientRx.calls s.iteration = some p

theorem effect_own {E : Env} {s s' : Sys} {a : Action E.v8.JsString} {out : List Event} (ho : HasOwn s)
    (h : Effect E s a s' out) : HasOwn s' := by
  cases h with
  | pending hx ha =>
    intro _
    cases ha with
    | suspend => exact ⟨_, Function.update_self _ _ _⟩
    | still hc => exact ⟨_, hc⟩
  | dispatch | receiveFailed | forward | runEventLoop => exact fun _ => ⟨_, nextIteration_own _⟩
  | cancelled | finished =>
    intro hx
    cases hx
  | _ => exact ho

theorem run_own {E : Env} {as es s} (h : Run (runV8Client E) as es s) : HasOwn s := by
  refine h.inv (fun _ _ s => HasOwn s) (fun _ => ⟨ConcurrentlyExecuteClient.receiveFromHost, rfl⟩) ?_
  intro _ _ s a s' out hr ih ht
  exact effect_own ih (run_effect hr ht)

/-! ## One message further -/

section Step
variable {E : Env} {s : Sys}

/-- The forwarding branch hands over the first message of `msg_rx`. -/
theorem forwards (hi : Inv E s) (hx : s.exit = none) (hq : s.msgRx.queue ≠ []) :
    ∃ out s', (runV8Client E).step s (.loop .forward) = some (s', out) ∧ s'.exit = none ∧ inFlight s' < inFlight s := by
  obtain ⟨m, ms, hm⟩ := List.exists_cons_of_ne_nil hq
  have hr : s.msgRx.recv none = some (.ok m, { s.msgRx with queue := ms }) := by simp [Chan.recv, hm]
  refine ⟨_, _, by simp only [runV8Client, step, hx, Option.isNone_none, if_true, loopStep, hr]; rfl, ?_, ?_⟩
  · simp [Sys.nextIteration, Sys.sendToHost, ConcurrentlyExecuteClient.sendToHost, Chan.send_open hi.host_open,
      Except.mapError]
  · simp only [Sys.sendToHost, ConcurrentlyExecuteClient.sendToHost, Chan.send_open hi.host_open, Except.mapError,
      Sys.nextIteration, Receiver.finish, inFlight, hm, List.length_append, List.length_cons, List.length_nil]
    omega

/-- The loop's call takes the first message from the host. -/
theorem dispatches (hi : Inv E s) (ho : HasOwn s) (hx : s.exit = none) (hq : s.clientRx.chan.queue ≠ []) :
    ∃ out s', (runV8Client E).step s (.loop (.receiveFromHost none)) = some (s', out) ∧ s'.exit = none ∧
      inFlight s' < inFlight s := by
  obtain ⟨m, ms, hm⟩ := List.exists_cons_of_ne_nil hq
  obtain ⟨p, hp⟩ := ho hx
  have hr : s.clientRx.chan.recv none = some (.ok m, { s.clientRx.chan with queue := ms }) := by simp [Chan.recv, hm]
  have hready : s.clientRx.calls s.iteration = some (waiting ConcurrentlyExecuteClient.received) ∨
      s.clientRx.calls s.iteration = some (guarded (.error rxLocked) ConcurrentlyExecuteClient.received) ∧
        ∀ c', s.clientRx.calls c' ≠ some (waiting ConcurrentlyExecuteClient.received) := by
    rcases hi.client.shape _ _ hp with rfl | rfl
    · refine .inr ⟨hp, fun c' hc' => ?_⟩
      rw [hi.only c' _ hc', hp] at hc'
      exact guarded_ne_waiting _ _ (Option.some.inj hc')
    · exact .inl hp
  have hact := acts_act hi.client (.done hready hr)
  refine ⟨[], _, by simp only [runV8Client, step, hx, Option.isNone_none, if_true, loopStep,
    ConcurrentlyExecuteClient.receiveFromHost, hact]; rfl, ?_, ?_⟩
  · cases m <;> simp [Sys.nextIteration, Sys.dispatch]
  · cases m with
    | sendText t =>
      simp only [Sys.nextIteration, Sys.dispatch, Chan.offer_open hi.text_open, Receiver.finish, inFlight, hm,
        List.length_append, List.length_cons, List.length_nil]
      omega
    | sendBinary b =>
      simp only [Sys.nextIteration, Sys.dispatch, Chan.offer_open hi.binary_open, Receiver.finish, inFlight, hm,
        List.length_append, List.length_cons, List.length_nil]
      omega

/-- A `receive` call takes the first message of the transport, whether the loop
runs or not. -/
theorem host_take (hi : Inv E s) {m : ClientMessage} {ms : List ClientMessage} (hm : s.hostRx.chan.queue = m :: ms) :
    ∃ bs es' rx, (∀ b ∈ bs, isDelivery b = true) ∧
      (runV8Client E).runFrom s bs = some (es', { s with hostRx := rx }) ∧ rx.chan.queue = ms := by
  have hact : ∀ r a r' o, r.act (guarded (LangBridge.surface E.lua (.error rxLocked))
      (LangBridge.surface E.lua ∘ ConcurrentlyExecuteServer.received)) none a = some (r', o) →
      (runV8Client E).step { s with hostRx := r } (.host (.receive a none)) =
        some ({ s with hostRx := r' }, luauResult o) := by
    intro r a r' o ha
    simp only [runV8Client, step, hostStep, LangBridge.receive_eq, ha]
    rfl
  obtain ⟨as, es', r', has, hrun, hms⟩ := hi.host.run_takes hact hm
  refine ⟨as, es', r', ?_, hrun, hms⟩
  intro b hb
  obtain ⟨c, rfl | rfl⟩ := has b hb <;> rfl

theorem host_takes (hi : Inv E s) (hx : s.exit = none) (hq : s.hostRx.chan.queue ≠ []) : CanDeliver E s := by
  obtain ⟨m, ms, hm⟩ := List.exists_cons_of_ne_nil hq
  obtain ⟨bs, es', r', hb, hrun, hms⟩ := host_take hi hm
  refine ⟨bs, es', _, hb, hrun, hx, ?_⟩
  simp only [inFlight, hms, hm, List.length_cons]
  omega

theorem text_takes (hi : Inv E s) (hx : s.exit = none) (hq : s.textRx.chan.queue ≠ []) :
    CanDeliver E s := by
  obtain ⟨m, ms, hm⟩ := List.exists_cons_of_ne_nil hq
  have hact : ∀ r a r' o, r.act (guarded (EventBridge.locked "Text") EventBridge.received) none a = some (r', o) →
      (runV8Client E).step { s with textRx := r } (.js (.receiveText a)) =
        some ({ s with textRx := r' }, jsResult .jsText o) := by
    intro r a r' o ha
    simp only [runV8Client, step, hx, Option.isNone_none, if_true, jsStep, EventBridge.receiveText, ha]
    rfl
  obtain ⟨as, es', r', has, hrun, hms⟩ := hi.text.run_takes hact hm
  refine ⟨as, es', _, ?_, hrun, hx, ?_⟩
  · intro b hb
    obtain ⟨c, rfl | rfl⟩ := has b hb <;> rfl
  · simp only [inFlight, hms, hm, List.length_cons]
    omega

theorem binary_takes (hi : Inv E s) (hx : s.exit = none) (hq : s.binaryRx.chan.queue ≠ []) :
    CanDeliver E s := by
  obtain ⟨m, ms, hm⟩ := List.exists_cons_of_ne_nil hq
  have hact : ∀ r a r' o, r.act (guarded (EventBridge.locked "Binary") EventBridge.received) none a = some (r', o) →
      (runV8Client E).step { s with binaryRx := r } (.js (.receiveBinary a)) =
        some ({ s with binaryRx := r' }, jsResult .jsBinary o) := by
    intro r a r' o ha
    simp only [runV8Client, step, hx, Option.isNone_none, if_true, jsStep, EventBridge.receiveBinary, ha]
    rfl
  obtain ⟨as, es', r', has, hrun, hms⟩ := hi.binary.run_takes hact hm
  refine ⟨as, es', _, ?_, hrun, hx, ?_⟩
  · intro b hb
    obtain ⟨c, rfl | rfl⟩ := has b hb <;> rfl
  · simp only [inFlight, hms, hm, List.length_cons]
    omega

/-- Where a message is queued, a delivery brings one closer. -/
theorem delivers (hi : Inv E s) (ho : HasOwn s) (hx : s.exit = none) (hw : inFlight s ≠ 0) :
    CanDeliver E s := by
  have hone : ∀ {a : Action E.v8.JsString}, isDelivery a = true → (∃ out s', (runV8Client E).step s a = some (s', out) ∧
      s'.exit = none ∧ inFlight s' < inFlight s) → CanDeliver E s := by
    rintro a ha ⟨out, s', ht, hx', hlt⟩
    exact ⟨[a], out, s', by simpa using ha, Machine.runFrom_one ht, hx', hlt⟩
  by_cases hm : s.msgRx.queue = []
  · by_cases hc : s.clientRx.chan.queue = []
    · by_cases hh : s.hostRx.chan.queue = []
      · by_cases ht : s.textRx.chan.queue = []
        · apply binary_takes hi hx
          intro hb
          apply hw
          simp [inFlight, hm, hc, hh, ht, hb]
        · exact text_takes hi hx ht
      · exact host_takes hi hx hh
    · exact hone rfl (dispatches hi ho hx hc)
  · exact hone rfl (forwards hi hx hm)

end Step

/-! ## Emptying the bridge -/

/-- The events of moves that send nothing. -/
def Silent (es : List Event) : Prop := jsSent es = [] ∧ luauTexts es = [] ∧ luauBinaries es = []

theorem Silent.append {es es' : List Event} (h : Silent es) (h' : Silent es') : Silent (es ++ es') := by
  obtain ⟨h1, h2, h3⟩ := h
  obtain ⟨h1', h2', h3'⟩ := h'
  refine ⟨?_, ?_, ?_⟩
  · rw [jsSent] at h1 h1' ⊢
    rw [List.filterMap_append, h1, h1', List.append_nil]
  · rw [luauTexts] at h2 h2' ⊢
    rw [List.filterMap_append, h2, h2', List.append_nil]
  · rw [luauBinaries] at h3 h3' ⊢
    rw [List.filterMap_append, h3, h3', List.append_nil]

theorem effect_silent {E : Env} {s s' : Sys} {a : Action E.v8.JsString} {out : List Event} (ha : isDelivery a = true)
    (h : Effect E s a s' out) : Silent out := by
  cases h with
  | @receive _ _ _ o => rcases o with _ | _ | _ <;> exact ⟨rfl, rfl, rfl⟩
  | @jsText _ _ o => rcases o with _ | _ | _ <;> exact ⟨rfl, rfl, rfl⟩
  | @jsBinary _ _ o => rcases o with _ | _ | _ <;> exact ⟨rfl, rfl, rfl⟩
  | sendFailed hs => rcases hs with ⟨v, fault, rfl | rfl⟩ <;> cases ha
  | finished => cases ha
  | sendtext | sendbinary | jsSendText | jsSendBinary => cases ha
  | _ => exact ⟨rfl, rfl, rfl⟩

theorem deliveries_silent {E : Env} {as es s} (h : Run (runV8Client E) as es s) {bs : List (Action E.v8.JsString)}
    (hb : ∀ b ∈ bs, isDelivery b = true) {es' s'} (hf : (runV8Client E).runFrom s bs = some (es', s')) : Silent es' := by
  induction bs generalizing as es s es' with
  | nil =>
    simp only [Machine.runFrom, Option.some.injEq, Prod.mk.injEq] at hf
    obtain ⟨rfl, -⟩ := hf
    exact ⟨rfl, rfl, rfl⟩
  | cons b bs ih =>
    rw [List.forall_mem_cons] at hb
    obtain ⟨s₁, out, es₁, ht, hrest, rfl⟩ := Machine.runFrom_cons.1 hf
    exact (effect_silent hb.1 (run_effect h ht)).append (ih (.snoc h ht) hb.2 hrest)

/-- Deliveries go on until nothing is queued: each shortens the way of some
message. -/
theorem empties {E : Env} {as es s} (h : Run (runV8Client E) as es s) (hx : s.exit = none) :
    ∃ bs es' s', (∀ b ∈ bs, isDelivery b = true) ∧ (runV8Client E).runFrom s bs = some (es', s') ∧ s'.exit = none ∧
      inFlight s' = 0 := by
  induction hn : inFlight s using Nat.strongRecOn generalizing as es s with
  | ind n ih =>
    by_cases h0 : inFlight s = 0
    · exact ⟨[], [], s, by simp, rfl, hx, h0⟩
    · obtain ⟨bs, es₁, s₁, hb, hf, hx₁, hlt⟩ := delivers (run_inv h) (run_own h) hx h0
      obtain ⟨bs', es₂, s₂, hb', hf', hx₂, h0'⟩ := ih _ (hn ▸ hlt) (h.append hf) hx₁ rfl
      exact ⟨bs ++ bs', es₁ ++ es₂, s₂, List.forall_mem_append.2 ⟨hb, hb'⟩, Machine.runFrom_append hf hf', hx₂, h0'⟩

/-- With nothing in flight, all that was sent has been received. -/
theorem received_all {E : Env} {as es s} (hmem : E.lua.Allocates) (h : Run (runV8Client E) as es s) (h0 : inFlight s = 0) :
    luauReceived es = (jsSent es).map ClientMessage.luau ∧ jsTexts es = luauTexts es ∧ jsBinaries es = luauBinaries es := by
  have hempty : s.msgRx.queue = [] ∧ s.hostRx.chan.queue = [] ∧ s.clientRx.chan.queue = [] ∧
      s.textRx.chan.queue = [] ∧ s.binaryRx.chan.queue = [] := by
    simp only [← List.length_eq_zero_iff]
    unfold inFlight at h0
    omega
  obtain ⟨h1, h2, h3, h4, h5⟩ := hempty
  refine ⟨?_, ?_, ?_⟩
  · have hbal := (host_moves hmem h).balance
    rw [puts_hostOp, gets_hostOp, hostBound, h1, h2] at hbal
    simpa using hbal
  · have hbal := (text_moves h).balance
    rw [puts_textOp, gets_textOp, textBound, h3, h4] at hbal
    simpa using hbal
  · have hbal := (binary_moves h).balance
    rw [puts_binaryOp, gets_binaryOp, binaryBound, h3, h5] at hbal
    simpa using hbal

/-- Silent events add nothing to what was sent. -/
theorem Silent.sent {es es' : List Event} (h : Silent es') :
    jsSent (es ++ es') = jsSent es ∧ luauTexts (es ++ es') = luauTexts es ∧ luauBinaries (es ++ es') = luauBinaries es := by
  obtain ⟨hj, ht, hb⟩ := h
  refine ⟨?_, ?_, ?_⟩
  · rw [jsSent] at hj ⊢
    rw [List.filterMap_append, hj, List.append_nil]
    rfl
  · rw [luauTexts] at ht ⊢
    rw [List.filterMap_append, ht, List.append_nil]
    rfl
  · rw [luauBinaries] at hb ⊢
    rw [List.filterMap_append, hb, List.append_nil]
    rfl

/-- From every state in which the loop runs, some deliveries alone take every
message sent so far to its receiver. -/
theorem drains {E : Env} {as es s} (hmem : E.lua.Allocates) (h : Run (runV8Client E) as es s) (hx : s.exit = none) :
    ∃ bs es' s', (∀ b ∈ bs, isDelivery b = true) ∧ (runV8Client E).runFrom s bs = some (es', s') ∧ s'.exit = none ∧
      luauReceived (es ++ es') = (jsSent es).map ClientMessage.luau ∧
      jsTexts (es ++ es') = luauTexts es ∧ jsBinaries (es ++ es') = luauBinaries es := by
  obtain ⟨bs, es', s', hb, hf, hx', h0⟩ := empties h hx
  obtain ⟨hj, ht, hbin⟩ := (deliveries_silent h hb hf).sent
  obtain ⟨hluau, htexts, hbinaries⟩ := received_all hmem (h.append hf) h0
  rw [hj] at hluau
  rw [ht] at htexts
  rw [hbin] at hbinaries
  exact ⟨bs, es', s', hb, hf, hx', hluau, htexts, hbinaries⟩

theorem drains_both_ways :
    ∃ es s, Run (runV8Client (.plain ⟨0, none⟩)) [.js (.sendText "a"), .host (.sendbinary (.buffer [1]) none)] es s ∧
      ∃ bs es' s', (∀ b ∈ bs, isDelivery b = true) ∧
        (runV8Client (.plain ⟨0, none⟩)).runFrom s bs = some (es', s') ∧ s'.exit = none ∧
        luauReceived (es ++ es') = (jsSent es).map ClientMessage.luau ∧
        jsTexts (es ++ es') = luauTexts es ∧ jsBinaries (es ++ es') = luauBinaries es := by
  have h : Run (runV8Client (.plain ⟨0, none⟩)) [.js (.sendText "a"), .host (.sendbinary (.buffer [1]) none)] _ _ :=
    run_of_exec rfl
  exact ⟨_, _, h, drains (Env.plain_allocates _) h rfl⟩

end LuauFusion
