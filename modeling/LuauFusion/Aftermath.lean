import LuauFusion.Completion
import LuauFusion.Progress
/-!
# After the loop

However the loop exits, what the script had queued and the loop had not handed
over is gone, what it had handed over still reaches the host, and the script
sees nothing more (`exit_final`). `nothing_left_iff` says when the first part
is empty.
-/
open LuauFusion.Lib LuauFusion.Lib.Utf8

namespace LuauFusion

/-- What Luau sees. -/
def isLuau : Event → Bool
  | .luauSent .. | .luauSendFailed _ | .luauReceived _ | .luauReceiveFailed _ => true
  | _ => false

theorem luauResult_isLuau (o : Option (Except LuaError LuaValue)) : ∀ e ∈ luauResult o, isLuau e = true := by
  rcases o with _ | _ | _ <;> simp [luauResult, isLuau]

/-- Once the loop has exited only Luau moves, and only its own end of the bridge. -/
theorem effect_exited {E : Env} {s s' : Sys} {a : Action E.v8.JsString} {out : List Event} {why : Exit}
    (hx : s.exit = some why) (h : Effect E s a s' out) :
    s'.exit = some why ∧ s'.msgRx = s.msgRx ∧ ∀ e ∈ out, isLuau e = true := by
  cases h with
  | sendtext | sendbinary | sendFailed => exact ⟨hx, rfl, by simp [isLuau]⟩
  | receive => exact ⟨hx, rfl, luauResult_isLuau _⟩
  | jsSendText hn | jsSendBinary hn | jsSendTextFailed hn | jsSendBinaryFailed hn | jsText hn | jsBinary hn
  | evaluated hn | exhaustHeap hn | pending hn | dispatch hn | receiveFailed hn | forward hn | cancelled hn
  | runEventLoop hn | finished hn =>
    rw [hx] at hn
    cases hn

theorem exited_from {E : Env} {s s' : Sys} {bs : List (Action E.v8.JsString)} {es' : List Event} {why : Exit}
    (hi : Inv E s) (hx : s.exit = some why) (hf : (runV8Client E).runFrom s bs = some (es', s')) :
    Inv E s' ∧ s'.exit = some why ∧ s'.msgRx = s.msgRx ∧ ∀ e ∈ es', isLuau e = true := by
  refine Run.from_inv (fun t es => Inv E t ∧ t.exit = some why ∧ t.msgRx = s.msgRx ∧ ∀ e ∈ es, isLuau e = true)
    ⟨hi, hx, rfl, by simp⟩ ?_ hf
  rintro t es a t' out ⟨hi, hx, hm, hl⟩ ht
  have he := step_effect hi ht
  obtain ⟨hx', hm', hl'⟩ := effect_exited hx he
  exact ⟨effect_inv hi he, hx', hm'.trans hm, List.forall_mem_append.2 ⟨hl, hl'⟩⟩

theorem handed_append (es es' : List Event) : handed (es ++ es') = handed es ++ handed es' := List.filterMap_append

theorem handed_luau {es : List Event} (h : ∀ e ∈ es, isLuau e = true) : handed es = [] := by
  rw [handed, List.filterMap_eq_nil_iff]
  intro e he
  cases e with
  | handed m => exact absurd (h _ he) (by simp [isLuau])
  | _ => rfl

/-! ## The transport on its own -/

def transitOp : Event → Option (Op LuaValue)
  | .handed m => some (.put m.luau)
  | .luauReceived v => some (.get v)
  | _ => none

theorem puts_transitOp (es : List Event) : puts (es.filterMap transitOp) = (handed es).map ClientMessage.luau := by
  rw [handed, List.map_filterMap]
  exact puts_obs (fun e => by cases e <;> rfl) es

theorem gets_transitOp (es : List Event) : gets (es.filterMap transitOp) = luauReceived es :=
  gets_obs (fun e => by cases e <;> rfl) es

/-- What the loop has handed over and `receive` has not returned. -/
def inTransit (s : Sys) : List LuaValue := s.hostRx.chan.queue.map ClientMessage.luau

theorem transitOp_jsResult {μ : Type} (f : Option μ → Event) (hf : ∀ t, transitOp (f t) = none)
    (o : Option (Except JsErrorBox (Option μ))) : (jsResult f o).filterMap transitOp = [] := by
  rcases o with _ | _ | t
  · rfl
  · rfl
  · simp only [jsResult, List.filterMap_cons, hf, List.filterMap_nil]

theorem transit_step {E : Env} {s s' : Sys} {a : Action E.v8.JsString} {out : List Event} (hmem : E.lua.Allocates)
    (h : Effect E s a s' out) : Moves (out.filterMap transitOp) (inTransit s) (inTransit s') := by
  cases h with
  | @receive a fault rx o ha =>
    rcases acts_outcome ha with ⟨hc, ho⟩ | ⟨m, rfl, hq, -⟩
    · have hnone : (luauResult o).filterMap transitOp = [] := by
        rcases ho with rfl | rfl | ⟨e, rfl, -⟩ <;> rfl
      simp only [inTransit, hc, hnone]
      exact .nil _
    · simp only [inTransit, hq, Function.comp_apply, surface_ok hmem, luauResult]
      exact .one_get _ _
  | @forward m q _ hq =>
    simp only [inTransit, Sys.nextIteration, List.map_append, List.map_cons, List.map_nil]
    exact .one_put _ _
  | jsText =>
    rw [transitOp_jsResult _ fun _ => rfl]
    exact .nil _
  | jsBinary =>
    rw [transitOp_jsResult _ fun _ => rfl]
    exact .nil _
  | @dispatch _ _ m => cases m <;> exact .nil _
  | @finished r => cases r <;> exact .nil _
  | _ => exact .nil _

theorem transit_moves {E : Env} {as es s} (hmem : E.lua.Allocates) (h : Run (runV8Client E) as es s) :
    Moves (es.filterMap transitOp) [] (inTransit s) :=
  h.moves transitOp inTransit rfl fun _ _ _ _ _ _ hr ht => transit_step hmem (run_effect hr ht)

/-- Every message the loop handed over was received or is in the transport. -/
theorem handed_accounted {E : Env} {as es s} (hmem : E.lua.Allocates) (h : Run (runV8Client E) as es s) :
    luauReceived es ++ inTransit s = (handed es).map ClientMessage.luau := by
  have hb := (transit_moves hmem h).balance
  rwa [puts_transitOp, gets_transitOp, List.nil_append] at hb

/-- Every message the script sent was handed over or is in `msg_rx`. -/
theorem sent_accounted {E : Env} {as es s} (h : Run (runV8Client E) as es s) :
    handed es ++ s.msgRx.queue = jsSent es := by
  have hb := (msg_moves h).balance
  rwa [puts_msgOp, gets_msgOp, List.nil_append] at hb

/-! ## What is lost and what is not -/

/-- The host can always receive what is in the transport. -/
theorem transit_drains {E : Env} {as es s} (h : Run (runV8Client E) as es s) :
    ∃ bs es' s', (∀ b ∈ bs, isDelivery b = true) ∧ (runV8Client E).runFrom s bs = some (es', s') ∧ inTransit s' = [] := by
  induction hq : s.hostRx.chan.queue generalizing as es s with
  | nil => exact ⟨[], [], s, by simp, rfl, by rw [inTransit, hq, List.map_nil]⟩
  | cons m ms ih =>
    obtain ⟨bs, es₁, rx, hb, hf, hms⟩ := host_take (run_inv h) hq
    obtain ⟨bs', es₂, s₂, hb', hf', h0⟩ := ih (h.append hf) hms
    exact ⟨bs ++ bs', es₁ ++ es₂, s₂, List.forall_mem_append.2 ⟨hb, hb'⟩, Machine.runFrom_append hf hf', h0⟩

/-- From the exit on, whatever the reason for it: the messages then in `msg_rx`
stay there, unreceived, the script sees nothing more, and what `receive`
returns and will return is what was handed over before, all of it if it is
called often enough. -/
theorem exit_final {E : Env} {as es s} (hmem : E.lua.Allocates) (h : Run (runV8Client E) as es s) {why : Exit}
    (hx : s.exit = some why) :
    jsSent es = handed es ++ s.msgRx.queue ∧
      (∀ bs es' s', (runV8Client E).runFrom s bs = some (es', s') →
        s'.exit = some why ∧ s'.msgRx = s.msgRx ∧ (∀ e ∈ es', isLuau e = true) ∧
        luauReceived (es ++ es') ++ inTransit s' = (handed es).map ClientMessage.luau) ∧
      ∃ bs es' s', (runV8Client E).runFrom s bs = some (es', s') ∧
        luauReceived (es ++ es') = (handed es).map ClientMessage.luau := by
  have hlater : ∀ bs es' s', (runV8Client E).runFrom s bs = some (es', s') →
      s'.exit = some why ∧ s'.msgRx = s.msgRx ∧ (∀ e ∈ es', isLuau e = true) ∧
      luauReceived (es ++ es') ++ inTransit s' = (handed es).map ClientMessage.luau := by
    intro bs es' s' hf
    obtain ⟨-, hx', hm, hl⟩ := exited_from (run_inv h) hx hf
    refine ⟨hx', hm, hl, ?_⟩
    rw [handed_accounted hmem (h.append hf), handed_append, handed_luau hl, List.append_nil]
  refine ⟨(sent_accounted h).symm, hlater, ?_⟩
  obtain ⟨bs, es', s', -, hf, h0⟩ := transit_drains h
  obtain ⟨-, -, -, hr⟩ := hlater bs es' s' hf
  exact ⟨bs, es', s', hf, by rwa [h0, List.append_nil] at hr⟩

theorem exit_final_cancelled :
    ∃ as es s, Run (runV8Client (.plain ⟨0, none⟩)) as es s ∧ s.exit = some .cancelled ∧
      handed es = [.sendText "a"] ∧ s.msgRx.queue = [.sendText "b"] ∧
      ∃ bs es' s', (runV8Client (.plain ⟨0, none⟩)).runFrom s bs = some (es', s') ∧
        luauReceived (es ++ es') = (handed es).map ClientMessage.luau := by
  have h : Run (runV8Client (.plain ⟨0, none⟩)) [.js (.sendText "a"), .js (.sendText "b"), .loop .forward,
      .js .exhaustHeap, .loop .cancelled] _ _ := run_of_exec rfl
  exact ⟨_, _, _, h, rfl, rfl, rfl, (exit_final (Env.plain_allocates _) h rfl).2.2⟩

end LuauFusion
