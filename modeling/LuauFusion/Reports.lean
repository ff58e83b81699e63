import LuauFusion.Dispatch
/-!
# Flags and reports

What the flags of an event say of the dispatches under way (`flags_tell`), who
can cancel an event (`canceled_iff`), and what becomes of the errors that
listeners throw (`reports_once`).
-/
open LuauFusion.Lib

namespace LuauFusion.Events

/-! ## Flags -/

/-- A passive listener is being called. -/
def Dispatch.passiveNow (d : Dispatch) : Bool :=
  d.status != .visiting && (d.handlers[d.index]?).any (·.options.passive)

structure Flags (s : Realm) : Prop where
  idle : ∀ e, (s.events e).dispatched = false → (s.events e).path = [] ∧ (s.events e).eventPhase = .none ∧
    (s.events e).currentTarget = none ∧ (s.events e).inPassiveListener = false
  busy : ∀ d ∈ dispatches s.stack, (s.events d.event).path = [d.target] ∧
    (s.events d.event).inPassiveListener = d.passiveNow

theorem Flags.like {s s' : Realm} (hf : Flags s) (hs : dispatches s'.stack = dispatches s.stack)
    (hk : ∀ e, (s.events e).Kept (s'.events e))
    (hp : ∀ e, (s'.events e).inPassiveListener = (s.events e).inPassiveListener) : Flags s' where
  idle e hd := by
    rw [(hk e).dispatched] at hd
    rw [(hk e).path, (hk e).phase, (hk e).currentTarget, hp]
    exact hf.idle e hd
  busy d hd := by
    rw [(hk _).path, hp]
    exact hf.busy d (hs ▸ hd)

/-- The dispatch on top changes, and its event with it. -/
theorem Flags.top {s s' : Realm} (hi : Inv s) (hf : Flags s) {d : Dispatch} {below : List Frame}
    (hs : s.stack = .dispatch d :: below) (d' : Dispatch) (hs' : dispatches s'.stack = d' :: dispatches below)
    (hcore : d'.core = d.core)
    (hk : (s.events d.event).Kept (s'.events d.event)) (hother : ∀ e ≠ d.event, s'.events e = s.events e)
    (hp : (s'.events d.event).inPassiveListener = d'.passiveNow) : Flags s' := by
  simp only [Dispatch.core, Prod.mk.injEq] at hcore
  obtain ⟨he, ht, -⟩ := hcore
  have hstack : dispatches s.stack = d :: dispatches below := by rw [hs]; rfl
  have hd : d ∈ dispatches s.stack := by rw [hs]; exact List.mem_cons_self
  refine ⟨fun e hidle => ?_, fun d₂ hd₂ => ?_⟩
  · have hne : e ≠ d.event := by
      rintro rfl
      have hact := (hi.active _ (List.mem_map.2 ⟨d, hd, rfl⟩)).1
      rw [hk.dispatched] at hidle
      rw [Dispatch.core, hidle] at hact
      cases hact
    rw [hother e hne] at hidle ⊢
    exact hf.idle e hidle
  · rw [hs', List.mem_cons] at hd₂
    rcases hd₂ with rfl | hd₂
    · rw [he, ht, hk.path]
      exact ⟨(hf.busy d hd).1, hp⟩
    · rw [hother _ (hi.event_ne hstack hd₂)]
      exact hf.busy d₂ (by rw [hstack]; exact List.mem_cons_of_mem _ hd₂)

theorem Flags.dispatch {s s₀ : Realm} (hf : Flags s₀) {t : Target} {e : EventId} {list : List Listener}
    (hs : dispatches s.stack = dispatches s₀.stack) (he : s.events = s₀.events) (hi : Inv s₀)
    (hfree : (s.events e).dispatched = false) : Flags (dispatch s t e list).1 := by
  rw [he] at hfree
  obtain ⟨hpath, hph, hct, hpass⟩ := hf.idle e hfree
  refine ⟨fun e' hidle => ?_, fun d hd => ?_⟩
  · by_cases hne : e' = e
    · subst hne
      simp [Events.dispatch, Realm.setEvent_events] at hidle
    · simp only [Events.dispatch, Realm.setEvent_events, hne, if_false, he] at hidle ⊢
      exact hf.idle e' hidle
  · simp only [Events.dispatch, dispatches_dispatch, List.mem_cons] at hd
    rcases hd with rfl | hd
    · simp [Events.dispatch, Realm.setEvent_events, he, hpath, hpass, Dispatch.passiveNow]
    · rw [show dispatches (s.setEvent e _).stack = dispatches s₀.stack from hs] at hd
      have hne : d.event ≠ e := by
        rintro rfl
        exact absurd (hi.active _ (List.mem_map.2 ⟨d, hd, rfl⟩)).1 (by simp [Dispatch.core, hfree])
      simp only [Events.dispatch, Realm.setEvent_events, hne, if_false, he]
      exact hf.busy d hd

theorem flags_step {s s' : Realm} {a : Act} {out : List Seen} (hi : Inv s) (hf : Flags s) (h : Effect s a s' out) :
    Flags s' := by
  cases h with
  | like _ hl => exact hf.like (by rw [hl.stack]) hl.events hl.passive
  | added _ _ _ hl => exact hf.like (by rw [hl.stack]; rfl) hl.events hl.passive
  | removed => exact hf.like rfl (fun _ => .rfl) fun _ => rfl
  | started _ _ hfree => exact hf.dispatch rfl rfl hi hfree
  | @skipped d below l hs hst =>
    have hb := (hf.busy d (by rw [hs]; exact List.mem_cons_self)).2
    refine hf.top hi hs _ rfl rfl .rfl (fun _ _ => rfl) ?_
    show (s.events d.event).inPassiveListener = _
    rw [hb]
    simp [Dispatch.passiveNow, hst]
  | @visited d below l s₁ s' x hs hst hl hin hs₁ hx =>
    have he : s₁.events = s.events := by
      rw [hs₁]
      split <;> rfl
    have hb := (hf.busy d (by rw [hs]; exact List.mem_cons_self)).2
    rcases hx with ⟨rfl, rfl⟩ | ⟨rfl, rfl⟩
    · refine hf.top hi hs _ rfl rfl ?_ ?_ ?_
      · simp only [settle, Realm.setEvent_events, if_true, he]
        exact ⟨rfl, rfl, rfl, rfl, rfl, rfl, id⟩
      · intro e hne
        simp only [settle, Realm.setEvent_events, hne, if_false, he]
      · simp [settle, Realm.setEvent_events, Dispatch.passiveNow]
    · cases hp : l.options.passive with
      | false =>
        simp only [Bool.false_eq_true, if_false]
        refine hf.top hi hs { d with status := .calling } rfl rfl ?_ ?_ ?_
        · rw [he]
          exact .rfl
        · intro e _
          rw [he]
        · rw [he, hb]
          simp [Dispatch.passiveNow, hst, hl, hp]
      | true =>
        simp only [if_true]
        refine hf.top hi hs { d with status := .calling } rfl rfl ?_ ?_ ?_
        · simp only [Realm.setEvent_events, if_true, he]
          exact ⟨rfl, rfl, rfl, rfl, rfl, rfl, id⟩
        · intro e hne
          simp only [Realm.setEvent_events, hne, if_false, he]
        · simp [Realm.setEvent_events, Dispatch.passiveNow, hl, hp]
  | @settled _ d below hs hst =>
    refine hf.top hi hs { d with index := d.index + 1, status := .visiting } rfl rfl ?_ ?_ ?_
    · simp only [settle, Realm.setEvent_events, if_true]
      exact ⟨rfl, rfl, rfl, rfl, rfl, rfl, id⟩
    · intro e hne
      simp only [settle, Realm.setEvent_events, hne, if_false]
    · simp [settle, Realm.setEvent_events, Dispatch.passiveNow]
  | @finished d below hs hst hl =>
    have hstack : dispatches s.stack = d :: dispatches below := by rw [hs]; rfl
    refine ⟨fun e hidle => ?_, fun d₂ hd₂ => ?_⟩
    · by_cases hne : e = d.event
      · subst hne
        have hb := (hf.busy d (by rw [hs]; exact List.mem_cons_self)).2
        simp only [Dispatch.passiveNow, hst] at hb
        simp [finishDispatch, Realm.setEvent_events, hb]
      · simp only [finishDispatch, Realm.setEvent_events, hne, if_false] at hidle ⊢
        exact hf.idle e hidle
    · simp only [finishDispatch, dispatches_answer] at hd₂
      simp only [finishDispatch, Realm.setEvent_events, hi.event_ne hstack hd₂, if_false]
      exact hf.busy d₂ (by rw [hstack]; exact List.mem_cons_of_mem _ hd₂)
  | @caught _ d below error hs hst =>
    have hb := (hf.busy d (by rw [hs]; exact List.mem_cons_self)).2
    refine hf.top hi hs { d with status := .caught } rfl rfl .rfl (fun _ _ => rfl) ?_
    show (s.events d.event).inPassiveListener = _
    rw [hb, Dispatch.passiveNow, hst]
    rfl
  | reported => exact hf.like rfl (fun _ => .rfl) fun _ => rfl
  | reentered hs => exact hf.like (by rw [hs]; rfl) (fun _ => .rfl) fun _ => rfl
  | begun hs _ hs₁ hd =>
    subst hs₁
    rcases dispatchEvent_cases hd with ⟨rfl, rfl⟩ | ⟨list, -, hfree, -, hd⟩
    · refine hf.like (by simp [hs]) (Realm.kept_target { s with stack := .report _ .dispatching :: _ } _ _) fun e => ?_
      simp only [Realm.setEvent_events]
      split
      · next h => rw [h]
      · rfl
    · cases hd
      exact hf.dispatch (by rw [hs]; rfl) rfl hi hfree
  | ended hs => exact hf.like (by rw [hs]; rfl) (fun _ => .rfl) fun _ => rfl
  | terminated => exact ⟨hf.idle, by simp⟩

theorem run_flags {made as es s} (h : Run (realm made) as es s) : Flags s := by
  refine h.inv (fun _ _ s => Flags s) ?_ ?_
  · refine ⟨fun e _ => ?_, by simp [realm, initial]⟩
    cases e <;> exact ⟨rfl, rfl, rfl, rfl⟩
  · intro _ _ s a s' out hr hf ht
    exact flags_step (run_inv hr) hf (run_effect hr ht)

/-- While no execution is terminated, the events marked as dispatched are those
under way. -/
theorem run_underway {made as es s} (h : Run (realm made) as es s) (hn : ∀ a ∈ as, a ≠ .terminate) {e : EventId}
    (hd : (s.events e).dispatched = true) : ∃ d ∈ dispatches s.stack, d.event = e := by
  have hmain : Inv s ∧ ∀ e, (s.events e).dispatched = true → e ∈ (cores s.stack).map (·.1) := by
    refine h.state_inv (fun a => a ≠ .terminate)
      (fun s => Inv s ∧ ∀ e, (s.events e).dispatched = true → e ∈ (cores s.stack).map (·.1)) ?_ ?_ hn
    · refine ⟨initial_inv made, fun e he => ?_⟩
      cases e <;> cases he
    · rintro s a s' out ⟨hi, hu⟩ hne ht
      have he := step_effect hi.unwrapped ht
      refine ⟨effect_inv hi he, fun e hd => ?_⟩
      cases he.nesting with
      | inside hc hk =>
        rw [hc]
        rw [(hk e).dispatched] at hd
        exact hu e hd
      | @entered e' _ _ _ hc _ _ _ _ _ _ _ _ hother =>
        rw [hc, List.map_cons, List.mem_cons]
        by_cases heq : e = e'
        · exact .inl heq
        · rw [hother e heq] at hd
          exact .inr (hu e hd)
      | @left e' _ _ _ hc _ hreset hother =>
        by_cases heq : e = e'
        · rw [heq, hreset] at hd
          cases hd
        · rw [hother e heq] at hd
          have hin := hu e hd
          rw [hc, List.map_cons, List.mem_cons] at hin
          exact hin.resolve_left heq
      | dropped hterm => exact absurd hterm hne
  obtain ⟨c, hc, rfl⟩ := List.mem_map.1 (hmain.2 e hd)
  obtain ⟨d, hin, rfl⟩ := List.mem_map.1 hc
  exact ⟨d, hin, rfl⟩

/-- The flag that `preventDefault` heeds. -/
theorem run_passive {made as es s} (h : Run (realm made) as es s) (hn : ∀ a ∈ as, a ≠ .terminate) (e : EventId) :
    (s.events e).inPassiveListener = true ↔ ∃ d ∈ dispatches s.stack, d.event = e ∧ d.passiveNow = true := by
  have hf := run_flags h
  constructor
  · intro hp
    cases hd : (s.events e).dispatched with
    | false => rw [(hf.idle e hd).2.2.2] at hp; cases hp
    | true =>
      obtain ⟨d, hin, rfl⟩ := run_underway h hn hd
      exact ⟨d, hin, rfl, by rw [← (hf.busy d hin).2]; exact hp⟩
  · rintro ⟨d, hd, rfl, hp⟩
    rw [(hf.busy d hd).2]
    exact hp

/-- No event is in two dispatches. Its flags say whether it is in one, and whether
a passive listener is being called there; an event that is in none is as it was
made, but for what scripts themselves set. So `dispatchEvent` raises exactly if
the event is under way and the target has had a listener of its type. -/
theorem flags_tell {made as es s} (h : Run (realm made) as es s) (hn : ∀ a ∈ as, a ≠ .terminate) (e : EventId) :
    ((dispatches s.stack).map (·.event)).Nodup ∧
    ((s.events e).dispatched = true ↔ ∃ d ∈ dispatches s.stack, d.event = e) ∧
    ((s.events e).inPassiveListener = true ↔ ∃ d ∈ dispatches s.stack, d.event = e ∧ d.passiveNow = true) ∧
    (∀ d ∈ dispatches s.stack, d.event = e → (s.events e).path = [d.target] ∧ (s.events e).eventPhase = .atTarget) ∧
    ((∀ d ∈ dispatches s.stack, d.event ≠ e) → (s.events e).path = [] ∧ (s.events e).eventPhase = .none ∧
      (s.events e).currentTarget = none) ∧
    ∀ t, dispatchEvent s t e = none ↔
      s.listeners t (s.events e).type ≠ none ∧ ∃ d ∈ dispatches s.stack, d.event = e := by
  have hi := run_inv h
  have hf := run_flags h
  have hunder := run_underway h hn (e := e)
  have hactive : ∀ d ∈ dispatches s.stack, d.event = e →
      (s.events e).dispatched = true ∧ (s.events e).eventPhase = .atTarget := by
    rintro d hd rfl
    exact hi.active _ (core_mem hd)
  have hiff : (s.events e).dispatched = true ↔ ∃ d ∈ dispatches s.stack, d.event = e :=
    ⟨hunder, fun ⟨d, hd, he⟩ => (hactive d hd he).1⟩
  have hidle : (∀ d ∈ dispatches s.stack, d.event ≠ e) → (s.events e).dispatched = false := by
    intro hne
    rw [← Bool.not_eq_true, hiff]
    rintro ⟨d, hd, he⟩
    exact hne d hd he
  refine ⟨?_, hiff, run_passive h hn e, ?_, ?_, fun t => ?_⟩
  · have hd := hi.distinct
    rw [cores, List.map_map] at hd
    exact hd
  · rintro d hd rfl
    exact ⟨(hf.busy d hd).1, (hactive d hd rfl).2⟩
  · intro hne
    obtain ⟨h1, h2, h3, -⟩ := hf.idle e (hidle hne)
    exact ⟨h1, h2, h3⟩
  · unfold dispatchEvent
    split
    · next hl => simp [hl]
    · next list hl =>
      rw [← hiff]
      cases hd : (s.events e).dispatched with
      | true => simp [hl]
      | false => simp [(hf.idle e hd).2.1]

/-- A canceled event, and a listener that throws. -/
def throwing : List Act :=
  [.addEventListener 1 "x" (some (.function 0)) .undefined, .dispatchEvent 1 (.made 0), .next, .preventDefault (.made 0),
    .throw "boom"]

theorem flags_tell_throwing :
    ∃ es s, Run (realm fun _ => ⟨"x", true⟩) throwing es s ∧ dispatchEvent s 1 (.made 0) = none ∧
      (s.events (.made 0)).inPassiveListener = false := by
  have h : Run (realm fun _ => ⟨"x", true⟩) throwing _ _ := run_of_exec rfl
  obtain ⟨-, -, hpassive, -, -, hraise⟩ := flags_tell h (by simp [throwing]) (.made 0)
  refine ⟨_, _, h, (hraise 1).2 ⟨nofun, _, List.mem_singleton.2 rfl, rfl⟩, ?_⟩
  rw [← Bool.not_eq_true, hpassive]
  rintro ⟨d, hd, -, hp⟩
  cases List.mem_singleton.1 hd
  cases hp

/-! ## Canceling -/

/-- The call cancels `e`: `preventDefault`, which heeds two flags, or the setter
of `returnValue`, which heeds none. -/
def cancels (s : Realm) (e : EventId) : Act → Bool
  | .preventDefault e' => e' == e && (s.events e).cancelable && !(s.events e).inPassiveListener
  | .setReturnValue e' value => e' == e && !value
  | _ => false

/-- No event's canceled flag differs. -/
def SameCanceled (s s' : Realm) : Prop := ∀ e, (s'.events e).canceledFlag = (s.events e).canceledFlag

theorem sameCanceled_update {s s' : Realm} {e : EventId} {ev : Event} (h : s'.events = Function.update s.events e ev)
    (hev : ev.canceledFlag = (s.events e).canceledFlag) : SameCanceled s s' := by
  intro e'
  rw [h, Function.update_apply]
  split
  · next he => rw [hev, he]
  · rfl

theorem SameCanceled.of_events {s s' : Realm} (h : s'.events = s.events) : SameCanceled s s' := fun e => by rw [h]

theorem dispatchEvent_canceled {s s' : Realm} {t : Target} {e : EventId} {out : List Seen}
    (h : dispatchEvent s t e = some (s', out)) : SameCanceled s s' := by
  rcases dispatchEvent_cases h with ⟨rfl, -⟩ | ⟨list, -, -, -, hd⟩
  · exact sameCanceled_update rfl rfl
  · cases hd
    exact sameCanceled_update rfl rfl

theorem SameCanceled.trans {s s' s'' : Realm} (h : SameCanceled s s') (h' : SameCanceled s' s'') : SameCanceled s s'' :=
  fun e => (h' e).trans (h e)

theorem settle_canceled (s : Realm) (d : Dispatch) (below : List Frame) : SameCanceled s (settle s d below) :=
  sameCanceled_update (e := d.event) rfl rfl

theorem visit_canceled {s s' : Realm} {d : Dispatch} {below : List Frame} {l : Listener} {out : List Seen}
    (h : visit s d below l = (s', out)) : SameCanceled s s' := by
  unfold visit at h
  simp only at h
  split at h
  · cases h
    exact .of_events rfl
  · split at h
    · cases h
      exact .of_events rfl
    · split at h
      · cases h
        exact .of_events rfl
      · -- Forgetting a listener to be called once touches no event.
        generalize hs₁ : (if l.options.once then _ else s) = s₁ at h
        have hold : SameCanceled s s₁ := by
          rw [← hs₁]
          split <;> exact .of_events rfl
        split at h
        · cases h
          exact hold.trans (settle_canceled s₁ d below)
        · cases h
          split
          · exact hold.trans (sameCanceled_update (e := d.event) rfl rfl)
          · exact hold.trans (.of_events rfl)

/-- The library itself cancels nothing. -/
theorem next_canceled {s s' : Realm} {out : List Seen} (h : next s = some (s', out)) : SameCanceled s s' := by
  unfold next at h
  split at h
  · cases h
  · next error below hs =>
    unfold beginReport at h
    split at h
    · cases h
      exact .of_events rfl
    · have hold : SameCanceled s { s with stack := .report error .dispatching :: below } := .of_events rfl
      exact hold.trans (dispatchEvent_canceled h)
  · cases h
  · cases h
    exact .of_events rfl
  · next d below hs =>
    split at h
    · cases h
      exact sameCanceled_update (e := d.event) rfl rfl
    · exact visit_canceled (Option.some.inj h)
    · cases h
      exact .of_events rfl
    · cases h
    · cases h
      exact settle_canceled s d below

theorem push_canceled (s : Realm) (t : Target) (type : String) (callback : Callee) (options : Options) :
    SameCanceled s (push s t type callback options).1 := .of_events rfl

/-- What one step does to the canceled flag of an event. -/
theorem step_canceled {s s' : Realm} {a : Act} {out : List Seen} (h : step s a = some (s', out)) (e : EventId) :
    (s'.events e).canceledFlag = ((s.events e).canceledFlag || cancels s e a) := by
  have hkeep : SameCanceled s s' → cancels s e a = false →
      (s'.events e).canceledFlag = ((s.events e).canceledFlag || cancels s e a) := by
    intro hsame hc
    rw [hsame e, hc, Bool.or_false]
  have hscript : a ≠ .next → a ≠ .terminate → scriptStep s a = some (s', out) := by
    intro h1 h2
    unfold step at h
    split at h
    · exact absurd rfl h1
    · exact absurd rfl h2
    · split at h
      · exact h
      · cases h
  cases a with
  | next => exact hkeep (next_canceled h) rfl
  | terminate =>
    cases h
    exact hkeep (.of_events rfl) rfl
  | addEventListener t type callback options =>
    have h := Option.some.inj (hscript (by simp) (by simp))
    refine hkeep ?_ rfl
    unfold addEventListener at h
    split at h
    · cases h
      exact .of_events rfl
    · split at h
      · cases h
        exact .of_events rfl
      · split at h
        · cases h
          exact .of_events rfl
        · cases h
          exact push_canceled _ _ _ _ _
  | removeEventListener t type callback options =>
    have h := Option.some.inj (hscript (by simp) (by simp))
    refine hkeep ?_ rfl
    unfold removeEventListener at h
    split at h
    · cases h
      exact .of_events rfl
    · cases h
      exact .of_events rfl
    · split at h
      · cases h
        exact .of_events rfl
      · split at h
        · cases h
          exact .of_events rfl
        · cases h
          exact .of_events rfl
  | dispatchEvent t e' =>
    have h := hscript (by simp) (by simp)
    simp only [scriptStep] at h
    refine hkeep ?_ rfl
    cases hd : dispatchEvent s t e' with
    | none =>
      rw [hd] at h
      cases h
      exact .of_events rfl
    | some r =>
      rw [hd] at h
      cases h
      exact dispatchEvent_canceled hd
  | stopPropagation e' | stopImmediatePropagation e' | setCancelBubble e' =>
    cases hscript (by simp) (by simp)
    exact hkeep (sameCanceled_update (e := e') rfl rfl) rfl
  | setHandleEvent | reportError =>
    cases hscript (by simp) (by simp)
    exact hkeep (.of_events rfl) rfl
  | setHandler t name value =>
    have h := Option.some.inj (hscript (by simp) (by simp))
    refine hkeep ?_ rfl
    unfold setHandler at h
    generalize handlerValue value = v at h
    simp only at h
    split at h
    · cases h
      exact .of_events rfl
    · cases h
      exact .of_events rfl
    · cases h
      exact .of_events rfl
  | ret | throw =>
    have h := hscript (by simp) (by simp)
    obtain ⟨⟨d, below⟩, -, he⟩ := Option.map_eq_some_iff.1 h
    cases he
    first
      | exact hkeep (settle_canceled s d below) rfl
      | exact hkeep (.of_events rfl) rfl
  | preventDefault e' =>
    cases hscript (by simp) (by simp)
    rw [Realm.setEvent_events, cancels]
    by_cases he : e = e'
    · subst he
      cases (s.events e).cancelable <;> cases (s.events e).inPassiveListener <;> simp
    · simp [he, Ne.symm he]
  | setReturnValue e' value =>
    cases hscript (by simp) (by simp)
    rw [Realm.setEvent_events, cancels]
    by_cases he : e = e'
    · subst he
      cases value <;> simp
    · simp [he, Ne.symm he]

/-- An event is canceled exactly if a script, at some point of the run, assigned
`false` to its `returnValue`, or called `preventDefault` on it where it was
cancelable and no passive listener was being called for it. -/
theorem canceled_iff {made as es s} (h : Run (realm made) as es s) (hn : ∀ a ∈ as, a ≠ .terminate) (e : EventId) :
    (s.events e).canceledFlag = true ↔ ∃ pre a post es' s', as = pre ++ a :: post ∧ Run (realm made) pre es' s' ∧
      (a = .setReturnValue e false ∨ a = .preventDefault e ∧ (s'.events e).cancelable = true ∧
        ∀ d ∈ dispatches s'.stack, d.event = e → d.passiveNow = false) := by
  have hcancels : ∀ {as es s a}, Run (realm made) as es s → (∀ a ∈ as, a ≠ .terminate) → (cancels s e a = true ↔
      (a = .setReturnValue e false ∨ a = .preventDefault e ∧ (s.events e).cancelable = true ∧
        ∀ d ∈ dispatches s.stack, d.event = e → d.passiveNow = false)) := by
    intro as es s a h hn
    have hp : (s.events e).inPassiveListener = false ↔ ∀ d ∈ dispatches s.stack, d.event = e → d.passiveNow = false := by
      rw [← Bool.not_eq_true, run_passive h hn e]
      simp
    rw [← hp]
    cases a with
    | preventDefault e' => simp [cancels, and_assoc]
    | setReturnValue e' value => simp [cancels]
    | _ => simp [cancels]
  induction h with
  | nil =>
    refine iff_of_false ?_ ?_
    · cases e <;> exact Bool.false_ne_true
    · rintro ⟨pre, a, post, _, _, has, -⟩
      simp at has
  | @snoc as es s a s' out hr ht ih =>
    obtain ⟨hn, -⟩ := List.forall_mem_append.1 hn
    have ih := ih hn
    rw [step_canceled ht e, Bool.or_eq_true]
    constructor
    · rintro (hc | hc)
      · obtain ⟨pre, b, post, es', t, rfl, hrun, hb⟩ := ih.1 hc
        exact ⟨pre, b, post ++ [a], es', t, by simp, hrun, hb⟩
      · exact ⟨as, a, [], es, s, rfl, hr, (hcancels hr hn).1 hc⟩
    · rintro ⟨pre, b, post, es', t, has, hrun, hb⟩
      rcases List.eq_nil_or_concat post with rfl | ⟨post, c, rfl⟩
      · obtain ⟨rfl, hab⟩ := List.append_inj' has rfl
        obtain rfl := List.singleton_inj.1 hab
        obtain ⟨-, rfl⟩ := hr.unique hrun
        exact .inr ((hcancels hr hn).2 hb)
      · have has' : as ++ [a] = (pre ++ b :: post) ++ [c] := by simp [has]
        obtain ⟨rfl, -⟩ := List.append_inj' has' rfl
        exact .inl (ih.2 ⟨pre, b, post, es', t, rfl, hrun, hb⟩)

theorem canceled_iff_throwing :
    ∃ es s, Run (realm fun _ => ⟨"x", true⟩) throwing es s ∧ (s.events (.made 0)).canceledFlag = true := by
  have h : Run (realm fun _ => ⟨"x", true⟩) throwing _ _ := run_of_exec rfl
  refine ⟨_, _, h, (canceled_iff h (by simp [throwing]) (.made 0)).2 ?_⟩
  refine ⟨throwing.take 3, _, _, _, _, rfl, run_of_exec rfl, .inr ⟨rfl, rfl, ?_⟩⟩
  rintro d hd -
  cases List.mem_singleton.1 hd
  rfl

/-! ## Reports -/

/-- The reports under way, the last one first. -/
def pending : List Frame → List (String × Report)
  | [] => []
  | .dispatch _ :: below => pending below
  | .report error r :: below => (error, r) :: pending below

@[simp] theorem pending_nil : pending [] = [] := rfl
@[simp] theorem pending_dispatch (d : Dispatch) (below : List Frame) : pending (.dispatch d :: below) = pending below := rfl
@[simp] theorem pending_report (error : String) (r : Report) (below : List Frame) :
    pending (.report error r :: below) = (error, r) :: pending below := rfl

def thrown (es : List Seen) : List String := es.filterMap fun
  | .thrown error => some error
  | _ => none

def reported (es : List Seen) : List String := es.filterMap fun
  | .unhandled error | .handled error => some error
  | _ => none

@[simp] theorem thrown_append (es es' : List Seen) : thrown (es ++ es') = thrown es ++ thrown es' := List.filterMap_append
@[simp] theorem reported_append (es es' : List Seen) : reported (es ++ es') = reported es ++ reported es' :=
  List.filterMap_append

/-- Nothing about errors. -/
def Seen.Calm : Seen → Prop
  | thrown _ | unhandled _ | handled _ => False
  | _ => True

theorem calm_none {out : List Seen} (h : ∀ x ∈ out, x.Calm) : thrown out = [] ∧ reported out = [] := by
  constructor
  · rw [thrown, List.filterMap_eq_nil_iff]
    intro x hx
    cases x with
    | thrown => exact (h _ hx).elim
    | _ => rfl
  · rw [reported, List.filterMap_eq_nil_iff]
    intro x hx
    cases x with
    | unhandled | handled => exact (h _ hx).elim
    | _ => rfl

structure Reporting (es : List Seen) (s : Realm) : Prop where
  stacked : s.reportExceptionStackedCalls = (pending s.stack).length
  /-- A report that is not on top of the stack waits for its event's listeners. -/
  waiting : ∀ r ∈ pending s.stack.tail, r.2 = .dispatching
  /-- Only the first report dispatches its event. -/
  first : ∀ r ∈ (pending s.stack).dropLast, r.2 ≠ .dispatching
  perm : (thrown es).Perm (reported es ++ (pending s.stack).map (·.1))

theorem Reporting.calm {es out : List Seen} {s s' : Realm} (hr : Reporting es s)
    (hn : s'.reportExceptionStackedCalls = s.reportExceptionStackedCalls) (hp : pending s'.stack = pending s.stack)
    (ht : pending s'.stack.tail = pending s.stack.tail) (ho : ∀ x ∈ out, x.Calm) : Reporting (es ++ out) s' := by
  obtain ⟨hthrown, hreported⟩ := calm_none ho
  refine ⟨by rw [hn, hp]; exact hr.stacked, by rw [ht]; exact hr.waiting, by rw [hp]; exact hr.first, ?_⟩
  rw [thrown_append, reported_append, hthrown, hreported, List.append_nil, List.append_nil, hp]
  exact hr.perm

/-- No report is on top while a script runs. -/
theorem pending_script {s : Realm} (h : scriptRuns s = true) : pending s.stack = pending s.stack.tail := by
  cases hs : s.stack with
  | nil => rfl
  | cons f below =>
    cases f with
    | dispatch => rfl
    | report => simp [scriptRuns, running, hs] at h

/-- A report begins, on top of a listener or of nothing. -/
theorem Reporting.begin {es : List Seen} {s s₁ : Realm} (hr : Reporting es s) {error : String}
    (hn : s₁.reportExceptionStackedCalls = s.reportExceptionStackedCalls) (hp : pending s₁.stack = pending s.stack)
    (ht : pending s.stack = pending s.stack.tail) :
    Reporting (es ++ (reportException s₁ error).2) (reportException s₁ error).1 := by
  have hwait : ∀ r ∈ pending s.stack, r.2 = .dispatching := by
    rw [ht]
    exact hr.waiting
  refine ⟨?_, ?_, ?_, ?_⟩
  · simp [reportException, hn, hp, hr.stacked]
  · intro r hin
    simp only [reportException, List.tail_cons, hp] at hin
    exact hwait r hin
  · intro r hin
    simp only [reportException, pending_report, hp] at hin
    cases hps : pending s.stack with
    | nil => simp [hps] at hin
    | cons r₁ rs =>
      rw [hps, List.dropLast_cons_cons, List.mem_cons] at hin
      rcases hin with rfl | hin
      · simp
      · exact hr.first r (by rw [hps]; exact hin)
  · have hperm := hr.perm
    simp only [reportException, thrown_append, reported_append, pending_report, hp, List.map_cons]
    have hone : thrown [.thrown error] = [error] := rfl
    have hnone : reported [.thrown error] = [] := rfl
    rw [hone, hnone, List.append_nil]
    exact (hperm.append_right [error]).trans (by
      rw [List.append_assoc]
      exact List.Perm.append_left _ (List.perm_append_comm.trans (by simp)))

/-- The report on top changes. -/
theorem Reporting.top {es out : List Seen} {s s' : Realm} (hr : Reporting es s) {error : String} {r : Report}
    {below : List Frame} (hs : s.stack = .report error r :: below) (r' : Report)
    (hn : s'.reportExceptionStackedCalls = s.reportExceptionStackedCalls)
    (hp : pending s'.stack = (error, r') :: pending below)
    (ht : ∀ x ∈ pending s'.stack.tail, x.2 = .dispatching)
    (hd : r' = .dispatching → pending below = []) (ho : ∀ x ∈ out, x.Calm) : Reporting (es ++ out) s' := by
  obtain ⟨hthrown, hreported⟩ := calm_none ho
  have hold : pending s.stack = (error, r) :: pending below := by rw [hs]; rfl
  refine ⟨by rw [hn, hp, hr.stacked, hold]; rfl, ht, ?_, ?_⟩
  · have hf := hr.first
    rw [hold] at hf
    rw [hp]
    cases hb : pending below with
    | nil => simp
    | cons x xs =>
      rw [hb, List.dropLast_cons_cons] at hf
      rw [List.dropLast_cons_cons, List.forall_mem_cons]
      refine ⟨fun he => ?_, fun y hy => hf y (List.mem_cons_of_mem _ hy)⟩
      rw [hd he] at hb
      cases hb
  · rw [thrown_append, reported_append, hthrown, hreported, List.append_nil, List.append_nil, hp]
    have hperm := hr.perm
    rw [hold] at hperm
    exact hperm

theorem answer_cases (b : Bool) (stack : List Frame) : answer b stack = stack ∨
    ∃ error below, stack = .report error .dispatching :: below ∧ answer b stack = .report error (.done b) :: below := by
  unfold answer
  split
  · next error below => exact .inr ⟨error, below, rfl, rfl⟩
  · exact .inl rfl

theorem pending_tail {stack : List Frame} : ∀ r ∈ pending stack.tail, r ∈ pending stack := by
  cases stack with
  | nil => simp
  | cons f below =>
    cases f with
    | dispatch => exact fun _ => id
    | report => exact fun _ => List.mem_cons_of_mem _

/-- The dispatch on top ends, and answers the report that made it, if one did. -/
theorem Reporting.answer {es out : List Seen} {s s' : Realm} (hr : Reporting es s) {d : Dispatch} {below : List Frame}
    {b : Bool} (hs : s.stack = .dispatch d :: below)
    (hn : s'.reportExceptionStackedCalls = s.reportExceptionStackedCalls) (hs' : s'.stack = answer b below)
    (ho : ∀ x ∈ out, x.Calm) : Reporting (es ++ out) s' := by
  obtain ⟨hthrown, hreported⟩ := calm_none ho
  obtain ⟨hstacked, hw, hf, hperm⟩ := hr
  rw [hs] at hstacked hw hf hperm
  rcases answer_cases b below with ha | ⟨error, below, rfl, ha⟩
  · rw [ha] at hs'
    refine ⟨by rw [hn, hs']; exact hstacked, ?_, by rw [hs']; exact hf, ?_⟩
    · rw [hs']
      exact fun r hin => hw r (pending_tail r hin)
    · rw [thrown_append, reported_append, hthrown, hreported, List.append_nil, List.append_nil, hs']
      exact hperm
  · rw [ha] at hs'
    -- A report that is answered is the first one.
    have hnil : pending below = [] := by
      cases hb : pending below with
      | nil => rfl
      | cons r rs =>
        rw [pending_dispatch, pending_report, hb, List.dropLast_cons_cons] at hf
        exact absurd rfl (hf _ List.mem_cons_self)
    refine ⟨by rw [hn, hs']; exact hstacked, by simp [hs', hnil], by simp [hs', hnil], ?_⟩
    rw [thrown_append, reported_append, hthrown, hreported, List.append_nil, List.append_nil, hs']
    exact hperm

/-- The report on top ends. -/
theorem Reporting.end {es : List Seen} {s : Realm} (hr : Reporting es s) {error : String} {unhandled : Bool}
    {below : List Frame} (hs : s.stack = .report error (.done unhandled) :: below) :
    Reporting (es ++ (endReport s error unhandled below).2) (endReport s error unhandled below).1 := by
  obtain ⟨hstacked, hw, hf, hperm⟩ := hr
  rw [hs, pending_report] at hstacked hf hperm
  rw [hs, List.tail_cons] at hw
  refine ⟨by simp [endReport, hstacked], fun r hin => hw r (pending_tail r hin), fun r hin => ?_, ?_⟩
  · refine hf r ?_
    cases hb : pending below with
    | nil => simp [endReport, hb] at hin
    | cons x xs =>
      rw [List.dropLast_cons_cons]
      simp only [endReport, hb] at hin
      exact List.mem_cons_of_mem _ hin
  · have hout : thrown (endReport s error unhandled below).2 = [] ∧
        reported (endReport s error unhandled below).2 = [error] := by
      cases unhandled <;> exact ⟨rfl, rfl⟩
    rw [thrown_append, reported_append, hout.1, hout.2, List.append_nil, List.append_assoc]
    exact hperm

theorem reporting_step {es out : List Seen} {s s' : Realm} {a : Act} (hr : Reporting es s) (h : Effect s a s' out)
    (hne : a ≠ .terminate) : Reporting (es ++ out) s' := by
  cases h with
  | like _ hl ho =>
    refine hr.calm hl.stacked (by rw [hl.stack]) (by rw [hl.stack]) fun x hx => ?_
    have := ho x hx
    cases x with
    | raised | unlistened => trivial
    | _ => cases this
  | added _ _ _ hl => exact hr.calm hl.stacked (by rw [hl.stack]; rfl) (by rw [hl.stack]; rfl) (by simp [Seen.Calm])
  | removed => exact hr.calm rfl rfl rfl (by simp [Seen.Calm])
  | started hrun =>
    exact hr.calm rfl rfl (by rw [← pending_script hrun]; rfl) (by simp [dispatch, Seen.Calm])
  | skipped hs => exact hr.calm rfl (by rw [hs]; rfl) (by rw [hs]; rfl) (by simp)
  | @visited d below l s₁ s' x hs _ _ _ hs₁ hx =>
    have hn : s₁.reportExceptionStackedCalls = s.reportExceptionStackedCalls := by
      rw [hs₁]
      split <;> rfl
    rcases hx with ⟨rfl, rfl⟩ | ⟨rfl, rfl⟩
    · exact hr.calm hn (by rw [hs]; rfl) (by rw [hs]; rfl) (by simp [Seen.Calm])
    · refine hr.calm ?_ (by rw [hs]; rfl) (by rw [hs]; rfl) (by simp [Seen.Calm])
      split <;> exact hn
  | settled hs => exact hr.calm rfl (by rw [hs]; rfl) (by rw [hs]; rfl) (by simp)
  | finished hs => exact hr.answer hs rfl rfl (by simp [finishDispatch, Seen.Calm])
  | caught hs hst =>
    have hp : pending s.stack = pending s.stack.tail := by rw [hs]; rfl
    exact hr.begin rfl (by rw [hs]; rfl) hp
  | reported hrun => exact hr.begin rfl rfl (pending_script hrun)
  | @reentered error below hs =>
    refine hr.top hs _ rfl rfl ?_ (by simp) (by simp)
    have := hr.waiting
    rw [hs] at this
    exact this
  | @begun error below s₁ s' out hs hn hs₁ hd =>
    subst hs₁
    have hnil : pending below = [] := by
      have hlen := hr.stacked
      rw [hs, pending_report, List.length_cons] at hlen
      rw [← List.length_eq_zero_iff]
      omega
    rcases dispatchEvent_cases hd with ⟨rfl, rfl⟩ | ⟨list, -, -, -, hd⟩
    · refine hr.top hs (.done true) rfl rfl ?_ (fun _ => hnil) (by simp [Seen.Calm])
      simp [answer, hnil]
    · cases hd
      refine hr.top hs .dispatching rfl rfl ?_ (fun _ => hnil) (by simp [Seen.Calm])
      simp [Realm.setEvent, hnil]
  | ended hs => exact hr.end hs
  | terminated => exact absurd rfl hne

/-- While no execution is terminated, every error that a listener throws, or that
`reportError` is given, is reported exactly once: what has been thrown is what
has been reported, unhandled or handled, and what is being reported. No more than
two reports are under way, of which only the first has its event dispatched. -/
theorem reports_once {made as es s} (h : Run (realm made) as es s) (hn : ∀ a ∈ as, a ≠ .terminate) :
    (thrown es).Perm (reported es ++ (pending s.stack).map (·.1)) ∧
      s.reportExceptionStackedCalls = (pending s.stack).length ∧ (pending s.stack).length ≤ 2 ∧
      (pending s.stack).countP (·.2 == .dispatching) ≤ 1 := by
  have hr : Reporting es s := by
    induction h with
    | nil => exact ⟨rfl, by simp [realm, initial], by simp [realm, initial], .nil⟩
    | snoc hrun ht ih =>
      obtain ⟨hn, hlast⟩ := List.forall_mem_append.1 hn
      exact reporting_step (ih hn) (run_effect hrun ht) (hlast _ (List.mem_singleton.2 rfl))
  obtain ⟨hstacked, hw, hf, hperm⟩ := hr
  have htail : (pending s.stack.tail).length ≤ 1 := by
    cases hp : pending s.stack.tail with
    | nil => simp
    | cons x xs =>
      cases xs with
      | nil => simp
      | cons y ys =>
        -- Two waiting reports: the upper one is not the first.
        rw [hp] at hw
        have hx : x ∈ (pending s.stack).dropLast := by
          cases hs : s.stack with
          | nil => simp [hs] at hp
          | cons f below =>
            rw [hs, List.tail_cons] at hp
            cases f <;> simp [hp]
        exact absurd (hw x List.mem_cons_self) (hf x hx)
  refine ⟨hperm, hstacked, ?_, ?_⟩
  · cases hs : s.stack with
    | nil => simp
    | cons f below =>
      rw [hs, List.tail_cons] at htail
      cases f with
      | dispatch => exact Nat.le_succ_of_le htail
      | report =>
        rw [pending_report, List.length_cons]
        omega
  · rcases List.eq_nil_or_concat (pending s.stack) with hp | ⟨rs, r, hp⟩
    · simp [hp]
    · rw [List.concat_eq_append] at hp
      rw [hp, List.dropLast_concat] at hf
      have hrs : rs.countP (·.2 == .dispatching) = 0 := List.countP_eq_zero.2 fun x hx => by simpa using hf x hx
      have hone : [r].countP (·.2 == .dispatching) ≤ 1 := List.countP_le_length
      rw [hp, List.countP_append, hrs]
      omega

theorem reports_once_throwing :
    ∃ es s, Run (realm fun _ => ⟨"x", true⟩) throwing es s ∧ (reported es ++ (pending s.stack).map (·.1)).Perm ["boom"] := by
  have h : Run (realm fun _ => ⟨"x", true⟩) throwing _ _ := run_of_exec rfl
  exact ⟨_, _, h, (reports_once h (by simp [throwing])).1.symm⟩

end LuauFusion.Events
