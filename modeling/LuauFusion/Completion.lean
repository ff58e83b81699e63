import LuauFusion.Delivery
/-!
# What is left behind when the module finishes

`sendText` and `sendBinary` only queue a message in `msg_rx`; the loop's
forwarding branch hands it to the transport. The completion branch breaks out
of the loop without draining that queue, and `select!` is free to pick it while
messages wait, so whether the script's messages reach the host depends on the
schedule alone: `nothing_left_iff` says on what.
-/
open LuauFusion.Lib LuauFusion.Lib.Utf8

namespace LuauFusion

/-! ## Histories -/

/-- The messages handed to `transport.send_to_host`, in order. -/
def handed (es : List Event) : List ClientMessage :=
  es.filterMap fun | .handed m => some m | _ => none

/-- The sends that returned success before the evaluation ended. -/
def acceptedBeforeEnd (es : List Event) : List ClientMessage :=
  jsSent (es.takeWhile fun | .evaluated _ => false | _ => true)

/-- No message of the finished module was left behind. -/
def NothingLeft (es : List Event) (s : Sys) : Prop :=
  acceptedBeforeEnd es <+: handed es ∧ s.msgRx.queue = []

/-! ## Schedules -/

/-- A send method called with a payload within the limit. -/
def isSend (E : Env) : Action E.v8.JsString → Bool
  | .js (.sendText x) => (E.clientEd.checkPayload (utf8 (E.v8.toRust x)).length).isNone
  | .js (.sendBinary b) => (E.clientEd.checkPayload b.length).isNone
  | _ => false

/-- The forwarding branch winning `select!`. -/
def isForward {J : Type} : Action J → Bool
  | .loop .forward => true
  | _ => false

/-! ## The queue the loop empties -/

def msgOp : Event → Option (Op ClientMessage)
  | .jsSent m => some (.put m)
  | .handed m => some (.get m)
  | _ => none

theorem puts_msgOp (es : List Event) : puts (es.filterMap msgOp) = jsSent es :=
  puts_obs (fun e => by cases e <;> rfl) es

theorem gets_msgOp (es : List Event) : gets (es.filterMap msgOp) = handed es :=
  gets_obs (fun e => by cases e <;> rfl) es

/-- The observations of a step that is neither a send nor a forwarding. -/
def Quiet (out : List Event) : Prop := ∀ e ∈ out, msgOp e = none

theorem Quiet.filterMap {out : List Event} (h : Quiet out) : out.filterMap msgOp = [] :=
  List.filterMap_eq_nil_iff.2 h

theorem quiet_luauResult (o : Option (Except LuaError LuaValue)) : Quiet (luauResult o) := by
  rcases o with _ | _ | v <;> simp [Quiet, luauResult, msgOp]

theorem quiet_jsResult {μ : Type} (f : Option μ → Event) (hf : ∀ t, msgOp (f t) = none)
    (o : Option (Except JsErrorBox (Option μ))) : Quiet (jsResult f o) := by
  rcases o with _ | _ | t
  · simp [Quiet, jsResult]
  · simp [Quiet, jsResult, msgOp]
  · simpa [Quiet, jsResult] using hf t

theorem quiet_finished (r : Except String Unit) (why : Exit) : Quiet (evaluationError r ++ [.exited why]) := by
  cases r <;> simp [Quiet, evaluationError, msgOp]

/-- What a step does to `msg_rx`, and that it is a send or a forwarding exactly
when the schedule says so. -/
theorem msg_step {E : Env} {s s' : Sys} {a : Action E.v8.JsString} {out : List Event} (h : Effect E s a s' out) :
    (isSend E a = true ∧ isForward a = false ∧
      ∃ m, out = [.jsSent m] ∧ s'.msgRx.queue = s.msgRx.queue ++ [m]) ∨
    (isSend E a = false ∧ isForward a = true ∧
      ∃ m, out = [.handed m] ∧ s.msgRx.queue = m :: s'.msgRx.queue) ∨
    (isSend E a = false ∧ isForward a = false ∧ Quiet out ∧ s'.msgRx.queue = s.msgRx.queue) := by
  cases h with
  | jsSendText _ hc => exact .inl ⟨by simp [isSend, hc], rfl, _, rfl, rfl⟩
  | jsSendBinary _ hc => exact .inl ⟨by simp [isSend, hc], rfl, _, rfl, rfl⟩
  | forward _ hq => exact .inr (.inl ⟨rfl, rfl, _, rfl, hq⟩)
  | jsSendTextFailed _ hc => exact .inr (.inr ⟨by simpa [isSend, Option.isSome_iff_ne_none] using hc, rfl, by simp [Quiet, msgOp], rfl⟩)
  | jsSendBinaryFailed _ hc => exact .inr (.inr ⟨by simpa [isSend, Option.isSome_iff_ne_none] using hc, rfl, by simp [Quiet, msgOp], rfl⟩)
  | sendFailed ha =>
    rcases ha with ⟨v, fault, rfl | rfl⟩ <;> exact .inr (.inr ⟨rfl, rfl, by simp [Quiet, msgOp], rfl⟩)
  | receive => exact .inr (.inr ⟨rfl, rfl, quiet_luauResult _, rfl⟩)
  | jsText => exact .inr (.inr ⟨rfl, rfl, quiet_jsResult _ (fun _ => rfl) _, rfl⟩)
  | jsBinary => exact .inr (.inr ⟨rfl, rfl, quiet_jsResult _ (fun _ => rfl) _, rfl⟩)
  | @dispatch _ _ m => cases m <;> exact .inr (.inr ⟨rfl, rfl, by simp [Quiet], rfl⟩)
  | finished => exact .inr (.inr ⟨rfl, rfl, quiet_finished _ _, rfl⟩)
  | _ => exact .inr (.inr ⟨rfl, rfl, by simp [Quiet, msgOp], rfl⟩)

theorem msg_moves {E : Env} {as es s} (h : Run (runV8Client E) as es s) :
    Moves (es.filterMap msgOp) [] s.msgRx.queue := by
  refine h.moves msgOp (fun s => s.msgRx.queue) rfl fun _ _ _ _ _ _ hr ht => ?_
  rcases msg_step (run_effect hr ht) with ⟨-, -, m, rfl, hq⟩ | ⟨-, -, m, rfl, hq⟩ | ⟨-, -, hout, hq⟩
  · rw [hq]; exact .one_put _ _
  · rw [hq]; exact .one_get _ _
  · rw [hq, hout.filterMap]; exact .nil _

/-- The schedule tells how many messages went in and out. -/
theorem msg_counts {E : Env} {as es s} (h : Run (runV8Client E) as es s) :
    (jsSent es).length = as.countP (isSend E) ∧ (handed es).length = as.countP isForward := by
  refine h.inv (fun as es _ => (jsSent es).length = as.countP (isSend E) ∧
    (handed es).length = as.countP isForward) ⟨rfl, rfl⟩ ?_
  intro as es s a s' out hr ih ht
  simp only [← puts_msgOp, ← gets_msgOp] at ih ⊢
  simp only [List.filterMap_append, puts_append, gets_append, List.length_append, List.countP_append]
  rcases msg_step (run_effect hr ht) with ⟨ha, hf, m, rfl, -⟩ | ⟨ha, hf, m, rfl, -⟩ | ⟨ha, hf, hout, -⟩
  · simp [ha, hf, ih, msgOp]
  · simp [ha, hf, ih, msgOp]
  · simp [ha, hf, ih, hout.filterMap]

/-! ## When nothing is left behind -/

theorem acceptedBeforeEnd_prefix (es : List Event) : acceptedBeforeEnd es <+: jsSent es :=
  (List.takeWhile_prefix _).filterMap _

/-- Nothing is left behind if and only if the forwarding branch won as often as
the script sent. In particular where the loop exits because the module finished:
the completion branch itself forwards nothing. -/
theorem nothing_left_iff {E : Env} {as es s} (h : Run (runV8Client E) as es s) :
    NothingLeft es s ↔ as.countP isForward = as.countP (isSend E) := by
  have hb := (msg_moves h).balance
  rw [puts_msgOp, gets_msgOp, List.nil_append] at hb
  obtain ⟨hsent, hhanded⟩ := msg_counts h
  have hlen : (handed es).length + s.msgRx.queue.length = (jsSent es).length := by rw [← hb, List.length_append]
  constructor
  · rintro ⟨-, hq⟩
    rw [hq, List.length_nil] at hlen
    omega
  · intro hc
    have hq : s.msgRx.queue = [] := List.eq_nil_of_length_eq_zero (by omega)
    refine ⟨?_, hq⟩
    rw [hq, List.append_nil] at hb
    rw [hb]
    exact acceptedBeforeEnd_prefix es

theorem nothing_left_iff_forwarded :
    ∃ as es s, Run (runV8Client (.plain ⟨0, none⟩)) as es s ∧ s.exit = some (.evaluated (.ok ())) ∧
      acceptedBeforeEnd es = [.sendText "bye"] ∧
      (NothingLeft es s ↔ as.countP isForward = as.countP (isSend (.plain ⟨0, none⟩))) := by
  have h : Run (runV8Client (.plain ⟨0, none⟩))
      [.js (.sendText "bye"), .loop .forward, .js (.endEvaluation (.ok ())), .loop .finished] _ _ := run_of_exec rfl
  exact ⟨_, _, _, h, rfl, rfl, nothing_left_iff h⟩

/-- The completion branch wins while the script's last message waits. -/
theorem last_message_left :
    ∃ as es s, Run (runV8Client (.plain ⟨0, none⟩)) as es s ∧ s.exit = some (.evaluated (.ok ())) ∧
      acceptedBeforeEnd es = [.sendText "bye"] ∧ handed es = [] ∧ ¬ NothingLeft es s := by
  have h : Run (runV8Client (.plain ⟨0, none⟩))
      [.js (.sendText "bye"), .js (.endEvaluation (.ok ())), .loop .finished] _ _ := run_of_exec rfl
  refine ⟨_, _, _, h, rfl, rfl, rfl, ?_⟩
  rintro ⟨-, hq⟩
  cases hq

end LuauFusion
