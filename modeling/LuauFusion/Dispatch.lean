import LuauFusion.Events
/-!
# What a step does to listeners and dispatches

`step_effect` sums up what a call of a script, or a move of the library, does;
`Effect.lists` and `Effect.nesting` are what that means for the lists of
listeners and for the stack of dispatches. `Inv` holds in every state a run
reaches: no list has a listener twice, and no event is in two dispatches.
-/
open LuauFusion.Lib

namespace LuauFusion.Events

/-! ## What a step does -/

/-- What nothing but a dispatch changes of an event. -/
structure Event.Kept (ev ev' : Event) : Prop where
  type : ev'.type = ev.type
  cancelable : ev'.cancelable = ev.cancelable
  dispatched : ev'.dispatched = ev.dispatched
  path : ev'.path = ev.path
  phase : ev'.eventPhase = ev.eventPhase
  currentTarget : ev'.currentTarget = ev.currentTarget
  stopped : ev.stopImmediatePropagationFlag = true → ev'.stopImmediatePropagationFlag = true

theorem Event.Kept.rfl {ev : Event} : ev.Kept ev := ⟨.refl _, .refl _, .refl _, .refl _, .refl _, .refl _, id⟩

/-- Only flags of events and handlers of scripts differ. -/
structure Realm.Like (s s' : Realm) : Prop where
  listeners : s'.listeners = s.listeners
  stack : s'.stack = s.stack
  records : s'.records = s.records
  reports : s'.reports = s.reports
  stacked : s'.reportExceptionStackedCalls = s.reportExceptionStackedCalls
  events : ∀ e, (s.events e).Kept (s'.events e)
  passive : ∀ e, (s'.events e).inPassiveListener = (s.events e).inPassiveListener
  /-- A wrapper once made stays. -/
  handlers : ∀ t name, s.eventHandlers t name ≠ none → s'.eventHandlers t name ≠ none

theorem Realm.Like.list {s s' : Realm} (h : s.Like s') (t : Target) (type : String) :
    s'.listenerList t type = s.listenerList t type := by
  rw [Realm.listenerList, h.listeners, Realm.listenerList]

theorem Realm.kept_setEvent {s : Realm} {e : EventId} {f : Event → Event} (hf : ∀ ev : Event, ev.Kept (f ev)) (e' : EventId) :
    (s.events e').Kept ((s.setEvent e f).events e') := by
  rw [Realm.setEvent_events]
  split
  · next h => rw [h]; exact hf _
  · exact .rfl

theorem Realm.kept_target (s : Realm) (e : EventId) (t : Target) :
    ∀ e', (s.events e').Kept ((s.setEvent e ({ · with target := some t })).events e') :=
  kept_setEvent fun _ => ⟨rfl, rfl, rfl, rfl, rfl, rfl, id⟩

theorem Realm.like_setEvent {s : Realm} {e : EventId} {f : Event → Event} (hf : ∀ ev : Event, ev.Kept (f ev))
    (hp : ∀ ev : Event, (f ev).inPassiveListener = ev.inPassiveListener) : s.Like (s.setEvent e f) where
  listeners := rfl
  stack := rfl
  records := rfl
  reports := rfl
  stacked := rfl
  events := kept_setEvent hf
  passive e' := by
    rw [Realm.setEvent_events]
    split
    · next h => rw [h, hp]
    · rfl
  handlers _ _ := id

theorem Realm.Like.rfl {s : Realm} : s.Like s :=
  ⟨.refl _, .refl _, .refl _, .refl _, .refl _, fun _ => Event.Kept.rfl, fun _ => .refl _, fun _ _ => id⟩

/-- Nothing about listeners. -/
def Seen.Aside : Seen → Prop
  | raised _ | unlistened _ => True
  | _ => False

/-- Everything one step can do, with what it shows. -/
inductive Effect (s : Realm) : Act → Realm → List Seen → Prop
  | like {a s' out} : scriptRuns s = true → s.Like s' → (∀ x ∈ out, x.Aside) →
      (∀ t name, s'.eventHandlers t name ≠ s.eventHandlers t name →
        s.eventHandlers t name ≠ none ∧ ∃ v, a = .setHandler t name v) → Effect s a s' out
  | added {a t type callback options s'} : scriptRuns s = true →
      (∀ l ∈ s.listenerList t type, ¬ (l.options.capture = options.capture ∧ l.callback = callback)) →
      (∀ t' name, callback = .wrapped t' name → t' = t ∧ name = type ∧ options = ⟨false, false, false, false⟩ ∧
        s'.eventHandlers t name ≠ none) →
      (push s t type callback options).1.Like s' →
      (∀ t' name, s'.eventHandlers t' name ≠ s.eventHandlers t' name →
        callback = .wrapped t' name ∧ ∃ v, a = .setHandler t' name v) →
      Effect s a s' [.added t type ⟨s.records, callback, options⟩]
  | removed {a t type l c} : scriptRuns s = true → l ∈ s.listenerList t type → l.callback = .script c →
      Effect s a (s.setListeners t type ((s.listenerList t type).erase l)) [.removed t type l]
  /-- A script's call. -/
  | started {t e list} : scriptRuns s = true → s.listeners t (s.events e).type = some list →
      (s.events e).dispatched = false → (s.events e).eventPhase = .none →
      Effect s (.dispatchEvent t e) (dispatch s t e list).1 (dispatch s t e list).2
  | skipped {d below l} : s.stack = .dispatch d :: below → d.status = .visiting → d.handlers[d.index]? = some l →
      ((s.events d.event).stopImmediatePropagationFlag = true ∧ l.options.resistStopImmediatePropagation = false ∨
        l ∉ s.listenerList d.target (s.events d.event).type ∨ (s.events d.event).eventPhase ≠ .atTarget) →
      Effect s .next { s with stack := .dispatch { d with index := d.index + 1 } :: below } []
  | visited {d below l s₁ s' x} : s.stack = .dispatch d :: below → d.status = .visiting →
      d.handlers[d.index]? = some l → l ∈ s.listenerList d.target (s.events d.event).type →
      s₁ = (if l.options.once then
        s.setListeners d.target (s.events d.event).type ((s.listenerList d.target (s.events d.event).type).erase l) else s) →
      (x = .inert d.event l ∧ s' = settle s₁ d below ∨
        x = .called d.event l ∧ s' =
          { (if l.options.passive then s₁.setEvent d.event ({ · with inPassiveListener := true }) else s₁) with
            stack := .dispatch { d with status := .calling } :: below }) →
      Effect s .next s' [x]
  /-- The call has returned, or its error has been reported. -/
  | settled {a d below} : s.stack = .dispatch d :: below → d.status ≠ .visiting → Effect s a (settle s d below) []
  | finished {d below} : s.stack = .dispatch d :: below → d.status = .visiting → d.handlers[d.index]? = none →
      Effect s .next (finishDispatch s d below).1 (finishDispatch s d below).2
  | caught {a d below error} : s.stack = .dispatch d :: below → d.status = .calling →
      Effect s a (caught s d below error).1 (caught s d below error).2
  | reported {error} : scriptRuns s = true →
      Effect s (.reportError error) (reportException s error).1 (reportException s error).2
  /-- Another report is under way. -/
  | reentered {error below} : s.stack = .report error .begun :: below → s.reportExceptionStackedCalls > 1 →
      Effect s .next { s with stack := .report error (.done true) :: below } []
  | begun {error below s₁ s' out} : s.stack = .report error .begun :: below → s.reportExceptionStackedCalls ≤ 1 →
      s₁ = { s with stack := .report error .dispatching :: below } →
      dispatchEvent s₁ globalThis (.error (s.reports - 1)) = some (s', out) → Effect s .next s' out
  | ended {error unhandled below} : s.stack = .report error (.done unhandled) :: below →
      Effect s .next (endReport s error unhandled below).1 (endReport s error unhandled below).2
  | terminated : Effect s .terminate { s with stack := [] } []

theorem running_some {s : Realm} {d : Dispatch} {below : List Frame} (h : running s = some (d, below)) :
    s.stack = .dispatch d :: below ∧ d.status = .calling := by
  unfold running at h
  split at h
  · next d' below' hs =>
    split at h
    · cases h
    · next hst _ =>
      cases h
      exact ⟨hs, hst⟩
    · cases h
  · cases h

/-- No report waits on top of the stack while a script runs. -/
theorem answer_script {s : Realm} (h : scriptRuns s = true) (b : Bool) : answer b s.stack = s.stack := by
  unfold answer
  split
  · next hs => simp [scriptRuns, running, hs] at h
  · rfl

theorem addEventListener_effect {s s' : Realm} {a : Act} {t : Target} {type : String} {callback : Option Callback}
    {options : OptionsArg} {out : List Seen} (hr : scriptRuns s = true)
    (h : addEventListener s t type callback options = (s', out)) : Effect s a s' out := by
  unfold addEventListener at h
  split at h
  · cases h
    exact .like hr .rfl (by simp [Seen.Aside]) fun _ _ h => absurd rfl h
  · next o _ =>
    split at h
    · cases h
      exact .like hr .rfl (by simp) fun _ _ h => absurd rfl h
    · next c =>
      split at h
      · cases h
        exact .like hr .rfl (by simp) fun _ _ h => absurd rfl h
      · next hany =>
        cases h
        refine .added hr (fun l hl hsame => hany ?_) (by simp) .rfl fun _ _ h => absurd rfl h
        rw [List.any_eq_true]
        exact ⟨l, hl, by simp [hsame]⟩

theorem removeEventListener_effect {s s' : Realm} {a : Act} {t : Target} {type : String} {callback : Option Callback}
    {options : OptionsArg} {out : List Seen} (hr : scriptRuns s = true)
    (h : removeEventListener s t type callback options = (s', out)) : Effect s a s' out := by
  unfold removeEventListener at h
  split at h
  · cases h
    exact .like hr .rfl (by simp) fun _ _ h => absurd rfl h
  · cases h
    exact .like hr .rfl (by simp) fun _ _ h => absurd rfl h
  · next c list hlist =>
    split at h
    · cases h
      refine .like hr .rfl ?_ fun _ _ h => absurd rfl h
      split <;> simp [Seen.Aside]
    · split at h
      · cases h
        exact .like hr .rfl (by simp) fun _ _ h => absurd rfl h
      · next l hl =>
        cases h
        have hget : s.listenerList t type = list := by simp [Realm.listenerList, hlist]
        have hp := List.find?_some hl
        simp only [Bool.and_eq_true, beq_iff_eq] at hp
        rw [← hget]
        exact .removed hr (hget ▸ List.mem_of_find?_eq_some hl) hp.2

theorem setHandler_effect {s s' : Realm} {t : Target} {name : String} {value : Option Callback}
    {out : List Seen} (hw : s.eventHandlers t name = none → ∀ l ∈ s.listenerList t name, l.callback ≠ .wrapped t name)
    (hr : scriptRuns s = true) (h : setHandler s t name value = (s', out)) :
    Effect s (.setHandler t name value) s' out := by
  unfold setHandler at h
  generalize handlerValue value = v at h
  -- Assigning the handler of a wrapper touches nothing else.
  have hset : ∀ s₁ : Realm, s₁.Like { s₁ with
      eventHandlers := Function.update s₁.eventHandlers t (Function.update (s₁.eventHandlers t) name (some v)) } := by
    intro s₁
    refine ⟨rfl, rfl, rfl, rfl, rfl, fun _ => .rfl, fun _ => rfl, fun t' name' hmade => ?_⟩
    simp only [Function.update_apply]
    split
    · next ht =>
      rw [Function.update_apply]
      split
      · simp
      · rwa [ht] at hmade
    · exact hmade
  have hother : ∀ t' name', Function.update s.eventHandlers t (Function.update (s.eventHandlers t) name (some v)) t' name' ≠
      s.eventHandlers t' name' → t' = t ∧ name' = name := by
    intro t' name' hne
    simp only [Function.update_apply] at hne
    split at hne
    · next ht =>
      rw [Function.update_apply] at hne
      split at hne
      · next hname => exact ⟨ht, hname⟩
      · rw [ht] at hne
        exact absurd rfl hne
    · exact absurd rfl hne
  simp only at h
  split at h
  · next hsome =>
    cases h
    refine .like hr (hset s) (by simp) fun t' name' hne => ?_
    obtain ⟨rfl, rfl⟩ := hother t' name' hne
    exact ⟨by simp [hsome], _, rfl⟩
  · cases h
    exact .like hr .rfl (by simp) fun _ _ h => absurd rfl h
  · next hnone =>
    cases h
    refine .added hr (fun l hl hsame => hw hnone l hl hsame.2) ?_ (hset _) fun t' name' hne => ?_
    · intro t' name' he
      cases he
      exact ⟨rfl, rfl, rfl, by simp⟩
    · obtain ⟨rfl, rfl⟩ := hother t' name' hne
      exact ⟨rfl, _, rfl⟩

theorem dispatchEvent_cases {s s' : Realm} {t : Target} {e : EventId} {out : List Seen}
    (h : dispatchEvent s t e = some (s', out)) :
    (s' = { s.setEvent e ({ · with target := some t }) with stack := answer true s.stack } ∧ out = [.unlistened e]) ∨
      ∃ list, s.listeners t (s.events e).type = some list ∧ (s.events e).dispatched = false ∧
        (s.events e).eventPhase = .none ∧ (s', out) = dispatch s t e list := by
  unfold dispatchEvent at h
  split at h
  · cases h
    exact .inl ⟨rfl, rfl⟩
  · next list hl =>
    split at h
    · cases h
    · next hfree =>
      simp only [Bool.or_eq_true, bne_iff_ne, ne_eq, not_or, Bool.not_eq_true, not_not] at hfree
      exact .inr ⟨list, hl, hfree.1, hfree.2, (Option.some.inj h).symm⟩

theorem scriptStep_effect {s s' : Realm} {a : Act} {out : List Seen}
    (hw : ∀ t name, s.eventHandlers t name = none → ∀ l ∈ s.listenerList t name, l.callback ≠ .wrapped t name)
    (hr : scriptRuns s = true) (h : scriptStep s a = some (s', out)) : Effect s a s' out := by
  cases a with
  | addEventListener => exact addEventListener_effect hr (Option.some.inj h)
  | removeEventListener => exact removeEventListener_effect hr (Option.some.inj h)
  | dispatchEvent t e =>
    simp only [scriptStep] at h
    cases hd : dispatchEvent s t e with
    | none =>
      rw [hd] at h
      cases h
      exact .like hr .rfl (by simp [Seen.Aside]) fun _ _ h => absurd rfl h
    | some r =>
      rw [hd] at h
      cases h
      rcases dispatchEvent_cases hd with ⟨rfl, rfl⟩ | ⟨list, hl, hfree, hp, hs⟩
      · have hlike : s.Like (s.setEvent e ({ · with target := some t })) :=
          Realm.like_setEvent (fun _ => ⟨rfl, rfl, rfl, rfl, rfl, rfl, id⟩) fun _ => rfl
        rw [answer_script hr]
        exact .like hr hlike (by simp [Seen.Aside]) fun _ _ h => absurd rfl h
      · cases hs
        exact .started hr hl hfree hp
  | stopPropagation | setCancelBubble =>
    cases h
    exact .like hr (Realm.like_setEvent (fun _ => ⟨rfl, rfl, rfl, rfl, rfl, rfl, id⟩) fun _ => rfl) (by simp) fun _ _ h => absurd rfl h
  | stopImmediatePropagation =>
    cases h
    exact .like hr (Realm.like_setEvent (fun _ => ⟨rfl, rfl, rfl, rfl, rfl, rfl, fun _ => rfl⟩) fun _ => rfl) (by simp)
      fun _ _ h => absurd rfl h
  | preventDefault =>
    cases h
    refine .like hr (Realm.like_setEvent (fun ev => ?_) fun ev => ?_) (by simp) fun _ _ h => absurd rfl h
    · split
      · exact ⟨rfl, rfl, rfl, rfl, rfl, rfl, id⟩
      · exact .rfl
    · split <;> rfl
  | setReturnValue =>
    cases h
    refine .like hr (Realm.like_setEvent (fun ev => ?_) fun ev => ?_) (by simp) fun _ _ h => absurd rfl h
    · split
      · exact .rfl
      · exact ⟨rfl, rfl, rfl, rfl, rfl, rfl, id⟩
    · split <;> rfl
  | setHandler t name => exact setHandler_effect (hw t name) hr (Option.some.inj h)
  | setHandleEvent =>
    cases h
    exact .like hr ⟨rfl, rfl, rfl, rfl, rfl, fun _ => .rfl, fun _ => rfl, fun _ _ => id⟩ (by simp) fun _ _ h => absurd rfl h
  | reportError error =>
    cases h
    exact .reported hr
  | ret =>
    obtain ⟨⟨d, below⟩, hd, he⟩ := Option.map_eq_some_iff.1 h
    cases he
    obtain ⟨hs, hst⟩ := running_some hd
    exact .settled hs (by simp [hst])
  | throw error =>
    obtain ⟨⟨d, below⟩, hd, he⟩ := Option.map_eq_some_iff.1 h
    cases he
    obtain ⟨hs, hst⟩ := running_some hd
    exact .caught hs hst
  | next | terminate => cases h

theorem visit_effect {s s' : Realm} {d : Dispatch} {below : List Frame} {l : Listener} {out : List Seen}
    (hs : s.stack = .dispatch d :: below) (hst : d.status = .visiting) (hl : d.handlers[d.index]? = some l)
    (h : visit s d below l = (s', out)) : Effect s .next s' out := by
  unfold visit at h
  simp only at h
  split at h
  · next hstop =>
    cases h
    simp only [Bool.and_eq_true, Bool.not_eq_eq_eq_not, Bool.not_true] at hstop
    exact .skipped hs hst hl (.inl hstop)
  · split at h
    · next hgone =>
      cases h
      exact .skipped hs hst hl (.inr (.inl hgone))
    · next hin =>
      split at h
      · next hph =>
        cases h
        refine .skipped hs hst hl (.inr (.inr fun hp => ?_))
        simp [hp] at hph
      · rw [not_not] at hin
        split at h
        · cases h
          exact .visited hs hst hl hin rfl (.inl ⟨rfl, rfl⟩)
        · cases h
          exact .visited hs hst hl hin rfl (.inr ⟨rfl, rfl⟩)

theorem next_effect {s s' : Realm} {out : List Seen} (h : next s = some (s', out)) : Effect s .next s' out := by
  unfold next at h
  split at h
  · cases h
  · next error below hs =>
    unfold beginReport at h
    split at h
    · next hn =>
      cases h
      exact .reentered hs hn
    · next hn => exact .begun hs (by omega) rfl h
  · cases h
  · next hs =>
    cases h
    exact .ended hs
  · next d below hs =>
    split at h
    · next hst hl =>
      cases h
      exact .finished hs hst hl
    · next l hst hl => exact visit_effect hs hst hl (Option.some.inj h)
    · next hst _ =>
      cases h
      exact .caught hs hst
    · cases h
    · next hst =>
      cases h
      exact .settled hs (by simp [hst])

/-- What any step does. -/
theorem step_effect {s s' : Realm} {a : Act} {out : List Seen}
    (hw : ∀ t name, s.eventHandlers t name = none → ∀ l ∈ s.listenerList t name, l.callback ≠ .wrapped t name)
    (h : step s a = some (s', out)) : Effect s a s' out := by
  have hscript : scriptRuns s = true → scriptStep s a = some (s', out) → Effect s a s' out := scriptStep_effect hw
  unfold step at h
  split at h
  · exact next_effect h
  · cases h
    exact .terminated
  · split at h
    · next hr => exact hscript hr h
    · cases h

/-! ## The lists of listeners -/

theorem push_list (s : Realm) (t t' : Target) (type type' : String) (callback : Callee) (options : Options) :
    (push s t type callback options).1.listenerList t' type' =
      if t' = t ∧ type' = type then s.listenerList t type ++ [⟨s.records, callback, options⟩]
      else s.listenerList t' type' :=
  Realm.setListeners_list _ _ _ _ _ _

/-- A step adds one new record to one list, or lists only shrink. -/
inductive Lists (s s' : Realm) (out : List Seen) : Prop
  | shrunk : s'.records = s.records → (∀ t type l, out ≠ [.added t type l]) →
      (∀ t type, (s'.listenerList t type).Sublist (s.listenerList t type)) → Lists s s' out
  | grown {t type l} : out = [.added t type l] → l.id = s.records → s'.records = s.records + 1 →
      (∀ l' ∈ s.listenerList t type, ¬ (l'.options.capture = l.options.capture ∧ l'.callback = l.callback)) →
      (∀ t' name, l.callback = .wrapped t' name → t' = t ∧ name = type ∧ l.options = ⟨false, false, false, false⟩ ∧
        s'.eventHandlers t name ≠ none) →
      (∀ t' type', s'.listenerList t' type' =
        if t' = t ∧ type' = type then s.listenerList t type ++ [l] else s.listenerList t' type') → Lists s s' out

theorem erase_sublist (s : Realm) (t t' : Target) (type type' : String) (l : Listener) :
    ((s.setListeners t type ((s.listenerList t type).erase l)).listenerList t' type').Sublist
      (s.listenerList t' type') := by
  rw [Realm.setListeners_list]
  split
  · next h => rw [h.1, h.2]; exact List.erase_sublist
  · exact .refl _

theorem Effect.lists {s s' : Realm} {a : Act} {out : List Seen} (h : Effect s a s' out) : Lists s s' out := by
  cases h with
  | like _ hl ho =>
    refine .shrunk hl.records ?_ fun t type => by rw [hl.list]
    rintro t type l rfl
    exact ho _ (List.mem_singleton.2 rfl)
  | added _ hd hw hl =>
    refine .grown rfl rfl hl.records hd hw fun t' type' => ?_
    rw [hl.list, push_list]
  | removed => exact .shrunk rfl (by simp) fun _ _ => erase_sublist _ _ _ _ _ _
  | @visited d below l s₁ s' x _ _ _ _ hs₁ hx =>
    have hsub : ∀ t type, (s₁.listenerList t type).Sublist (s.listenerList t type) := by
      intro t type
      rw [hs₁]
      split
      · exact erase_sublist _ _ _ _ _ _
      · exact .refl _
    have hrec : s₁.records = s.records := by
      rw [hs₁]
      split <;> rfl
    rcases hx with ⟨rfl, rfl⟩ | ⟨rfl, rfl⟩
    · exact .shrunk hrec (by simp) hsub
    · split
      · exact .shrunk hrec (by simp) hsub
      · exact .shrunk hrec (by simp) hsub
  | begun _ _ hs₁ hd =>
    subst hs₁
    rcases dispatchEvent_cases hd with ⟨rfl, rfl⟩ | ⟨list, -, -, -, hs⟩
    · exact .shrunk rfl (by simp) fun _ _ => .refl _
    · cases hs
      exact .shrunk rfl (by simp) fun _ _ => .refl _
  | @ended _ unhandled => exact .shrunk rfl (by cases unhandled <;> simp [endReport]) fun _ _ => .refl _
  | started | skipped | settled | finished | caught | reported | reentered | terminated =>
    exact .shrunk rfl (by simp [dispatch, finishDispatch, Events.caught, reportException]) fun _ _ => .refl _

/-! ## The dispatches under way -/

def dispatches : List Frame → List Dispatch
  | [] => []
  | .dispatch d :: below => d :: dispatches below
  | .report _ _ :: below => dispatches below

@[simp] theorem dispatches_nil : dispatches [] = [] := rfl
@[simp] theorem dispatches_dispatch (d : Dispatch) (below : List Frame) :
    dispatches (.dispatch d :: below) = d :: dispatches below := rfl
@[simp] theorem dispatches_report (error : String) (r : Report) (below : List Frame) :
    dispatches (.report error r :: below) = dispatches below := rfl

@[simp] theorem dispatches_answer (b : Bool) (stack : List Frame) : dispatches (answer b stack) = dispatches stack := by
  unfold answer
  split <;> rfl

/-- What a dispatch keeps from its start to its end. -/
def Dispatch.core (d : Dispatch) : EventId × Target × List Listener := (d.event, d.target, d.handlers)

def cores (stack : List Frame) : List (EventId × Target × List Listener) := (dispatches stack).map Dispatch.core

@[simp] theorem cores_nil : cores [] = [] := rfl
@[simp] theorem cores_dispatch (d : Dispatch) (below : List Frame) :
    cores (.dispatch d :: below) = (d.event, d.target, d.handlers) :: cores below := rfl
@[simp] theorem cores_report (error : String) (r : Report) (below : List Frame) :
    cores (.report error r :: below) = cores below := rfl

@[simp] theorem cores_answer (b : Bool) (stack : List Frame) : cores (answer b stack) = cores stack := by
  simp [cores]

/-- What a step does to the dispatches under way. -/
inductive Nesting (s s' : Realm) (a : Act) (out : List Seen) : Prop
  | inside : cores s'.stack = cores s.stack → (∀ e, (s.events e).Kept (s'.events e)) →
      (∀ x ∈ out, (∀ e t hs, x ≠ .started e t hs) ∧ ∀ e b, x ≠ .finished e b) → Nesting s s' a out
  | entered {e t hs l} : cores s'.stack = (e, t, hs) :: cores s.stack → out = [.started e t hs] →
      s.listeners t (s.events e).type = some l → hs = (if (s.events e).stopPropagationFlag then [] else l) →
      (s.events e).dispatched = false → (s.events e).eventPhase = .none →
      (s'.events e).dispatched = true → (s'.events e).eventPhase = .atTarget → (s'.events e).type = (s.events e).type →
      (∀ e' ≠ e, s'.events e' = s.events e') → Nesting s s' a out
  | left {e t l b} : cores s.stack = (e, t, l) :: cores s'.stack → out = [.finished e b] →
      s'.events e = { s.events e with
        eventPhase := .none
        currentTarget := none
        path := []
        dispatched := false
        stopPropagationFlag := false
        stopImmediatePropagationFlag := false } →
      (∀ e' ≠ e, s'.events e' = s.events e') → Nesting s s' a out
  | dropped : a = .terminate → cores s'.stack = [] → s'.events = s.events → out = [] → Nesting s s' a out

theorem nesting_dispatch {s s₀ : Realm} {a : Act} {t : Target} {e : EventId} {list : List Listener}
    (hc : cores s.stack = cores s₀.stack) (he : s.events = s₀.events) (hl : s.listeners = s₀.listeners)
    (hlist : s.listeners t (s.events e).type = some list) (hfree : (s.events e).dispatched = false)
    (hp : (s.events e).eventPhase = .none) : Nesting s₀ (dispatch s t e list).1 a (dispatch s t e list).2 := by
  refine .entered (l := list) (by rw [← hc]; rfl) rfl (by rw [← hl, ← he]; exact hlist) (by rw [← he]) (by rw [← he]; exact hfree)
    (by rw [← he]; exact hp) ?_ ?_ ?_ ?_
  · simp [dispatch, Realm.setEvent_events]
  · simp [dispatch, Realm.setEvent_events]
  · simp [dispatch, Realm.setEvent_events, he]
  · intro e' hne
    simp [dispatch, Realm.setEvent_events, hne, he]

theorem Effect.nesting {s s' : Realm} {a : Act} {out : List Seen} (h : Effect s a s' out) : Nesting s s' a out := by
  have hkept : ∀ {s : Realm} (e : EventId) (b : Bool) e',
      (s.events e').Kept ((s.setEvent e ({ · with inPassiveListener := b })).events e') := by
    intro s e b
    exact Realm.kept_setEvent fun _ => ⟨rfl, rfl, rfl, rfl, rfl, rfl, id⟩
  cases h with
  | like _ hl ho =>
    refine .inside (by rw [hl.stack]) hl.events fun x hx => ⟨?_, ?_⟩
    · rintro e t hs rfl
      exact ho _ hx
    · rintro e b rfl
      exact ho _ hx
  | added _ _ _ hl => exact .inside (by rw [hl.stack]; rfl) hl.events (by simp)
  | removed => exact .inside rfl (fun _ => .rfl) (by simp)
  | started _ hl hfree hp => exact nesting_dispatch rfl rfl rfl hl hfree hp
  | skipped hs => exact .inside (by rw [hs]; rfl) (fun _ => .rfl) (by simp)
  | @visited d below l s₁ s' x hs _ _ _ hs₁ hx =>
    have he : s₁.events = s.events := by
      rw [hs₁]
      split <;> rfl
    rcases hx with ⟨rfl, rfl⟩ | ⟨rfl, rfl⟩
    · exact .inside (by rw [hs]; rfl) (fun e => by rw [← he]; exact hkept _ _ e) (by simp)
    · refine .inside (by rw [hs]; rfl) (fun e => ?_) (by simp)
      rw [← he]
      split
      · exact hkept _ _ e
      · exact .rfl
  | settled hs => exact .inside (by rw [hs]; rfl) (fun e => hkept _ _ e) (by simp)
  | @finished d below hs =>
    refine .left (e := d.event) (t := d.target) (l := d.handlers) (by rw [hs]; simp [finishDispatch]) rfl ?_ ?_
    · simp [finishDispatch, Realm.setEvent_events]
    · intro e' hne
      simp [finishDispatch, Realm.setEvent_events, hne]
  | caught hs => exact .inside (by rw [hs]; rfl) (fun _ => .rfl) (by simp [Events.caught, reportException])
  | reported => exact .inside rfl (fun _ => .rfl) (by simp [reportException])
  | reentered hs => exact .inside (by rw [hs]; rfl) (fun _ => .rfl) (by simp)
  | begun hs _ hs₁ hd =>
    subst hs₁
    rcases dispatchEvent_cases hd with ⟨rfl, rfl⟩ | ⟨list, hl, hfree, hp, hd⟩
    · exact .inside (by simp [hs]) (Realm.kept_target { s with stack := .report _ .dispatching :: _ } _ _) (by simp)
    · cases hd
      exact nesting_dispatch (by simp [hs]) rfl rfl hl hfree hp
  | ended hs =>
    refine .inside (by rw [hs]; rfl) (fun _ => .rfl) ?_
    simp only [endReport, List.mem_singleton]
    rintro x rfl
    split <;> simp
  | terminated => exact .dropped rfl rfl rfl rfl

theorem Effect.handlers {s s' : Realm} {a : Act} {out : List Seen} (h : Effect s a s' out) (t : Target) (name : String)
    (hm : s.eventHandlers t name ≠ none) : s'.eventHandlers t name ≠ none := by
  cases h with
  | like _ hl => exact hl.handlers t name hm
  | added _ _ _ hl => exact hl.handlers t name hm
  | @visited d below l s₁ s' x _ _ _ _ hs₁ hx =>
    have he : s₁.eventHandlers = s.eventHandlers := by
      rw [hs₁]
      split <;> rfl
    rcases hx with ⟨rfl, rfl⟩ | ⟨rfl, rfl⟩
    · rw [← he] at hm
      exact hm
    · rw [← he] at hm
      split <;> exact hm
  | begun _ _ hs₁ hd =>
    subst hs₁
    rcases dispatchEvent_cases hd with ⟨rfl, rfl⟩ | ⟨list, -, -, -, hd⟩
    · exact hm
    · cases hd
      exact hm
  | _ => exact hm

/-! ## The invariant -/

structure Inv (s : Realm) : Prop where
  /-- Lists are in the order of registration. -/
  sorted : ∀ t type, (s.listenerList t type).Pairwise (·.id < ·.id)
  fresh : ∀ t type, ∀ l ∈ s.listenerList t type, l.id < s.records
  differ : ∀ t type, (s.listenerList t type).Pairwise fun l l' =>
    ¬ (l.options.capture = l'.options.capture ∧ l.callback = l'.callback)
  wrapped : ∀ t type, ∀ l ∈ s.listenerList t type, ∀ t' name, l.callback = .wrapped t' name →
    t' = t ∧ name = type ∧ l.options = ⟨false, false, false, false⟩ ∧ s.eventHandlers t name ≠ none
  distinct : ((cores s.stack).map (·.1)).Nodup
  active : ∀ c ∈ cores s.stack, (s.events c.1).dispatched = true ∧ (s.events c.1).eventPhase = .atTarget
  copied : ∀ c ∈ cores s.stack, c.2.2.Pairwise (·.id < ·.id) ∧ ∀ l ∈ c.2.2, l.id < s.records

theorem core_mem {stack : List Frame} {d : Dispatch} (h : d ∈ dispatches stack) : d.core ∈ cores stack :=
  List.mem_map.2 ⟨d, h, rfl⟩

theorem Inv.event_ne {s : Realm} (hi : Inv s) {d d' : Dispatch} {K : List Dispatch} (hs : dispatches s.stack = d :: K)
    (hd : d' ∈ K) : d'.event ≠ d.event := by
  have hn := hi.distinct
  rw [cores, hs, List.map_cons, List.map_cons, List.nodup_cons] at hn
  intro heq
  exact hn.1 (List.mem_map.2 ⟨d'.core, List.mem_map.2 ⟨d', hd, rfl⟩, heq⟩)

theorem initial_inv (made : Nat → EventInit) : Inv (initial made) where
  sorted _ _ := .nil
  fresh _ _ := by simp [initial, Realm.listenerList]
  differ _ _ := .nil
  wrapped _ _ := by simp [initial, Realm.listenerList]
  distinct := .nil
  active := by simp [initial]
  copied := by simp [initial]

theorem Inv.unwrapped {s : Realm} (hi : Inv s) (t : Target) (name : String) (hn : s.eventHandlers t name = none) :
    ∀ l ∈ s.listenerList t name, l.callback ≠ .wrapped t name :=
  fun l hl hc => (hi.wrapped t name l hl t name hc).2.2.2 hn

theorem Lists.records_le {s s' : Realm} {out : List Seen} (h : Lists s s' out) : s.records ≤ s'.records := by
  cases h with
  | shrunk hr => omega
  | grown _ _ hr => omega

/-- Who is in a list after a step was there before, or is the step's new record. -/
theorem Lists.mem {s s' : Realm} {out : List Seen} (h : Lists s s' out) {t : Target} {type : String} {l : Listener}
    (hl : l ∈ s'.listenerList t type) :
    l ∈ s.listenerList t type ∨ out = [.added t type l] ∧ l.id = s.records ∧ s'.records = s.records + 1 := by
  cases h with
  | shrunk _ _ hsub => exact .inl ((hsub t type).subset hl)
  | grown ho hid hr _ _ hlist =>
    rw [hlist] at hl
    split at hl
    · next heq =>
      obtain ⟨rfl, rfl⟩ := heq
      rcases List.mem_append.1 hl with hl | hl
      · exact .inl hl
      · obtain rfl := List.mem_singleton.1 hl
        exact .inr ⟨ho, hid, hr⟩
    · exact .inl hl

/-- A relation that the new record has to all others holds along every list again. -/
theorem Lists.pairwise {s s' : Realm} {out : List Seen} (h : Lists s s' out) {R : Listener → Listener → Prop}
    (hold : ∀ t type, (s.listenerList t type).Pairwise R)
    (hnew : ∀ t type l, out = [.added t type l] → l.id = s.records →
      (∀ l' ∈ s.listenerList t type, ¬ (l'.options.capture = l.options.capture ∧ l'.callback = l.callback)) →
      ∀ l' ∈ s.listenerList t type, R l' l) (t : Target) (type : String) : (s'.listenerList t type).Pairwise R := by
  cases h with
  | shrunk _ _ hsub => exact (hold t type).sublist (hsub t type)
  | grown ho hid _ hd _ hlist =>
    rw [hlist]
    split
    · next heq =>
      obtain ⟨rfl, rfl⟩ := heq
      rw [List.pairwise_append]
      refine ⟨hold _ _, List.pairwise_singleton _ _, fun l' hl' l'' hl'' => ?_⟩
      obtain rfl := List.mem_singleton.1 hl''
      exact hnew _ _ _ ho hid hd l' hl'
    · exact hold t type

theorem effect_inv {s s' : Realm} {a : Act} {out : List Seen} (hi : Inv s) (h : Effect s a s' out) : Inv s' := by
  have hlists := h.lists
  have hle := hlists.records_le
  have hfresh : ∀ t type, ∀ l ∈ s'.listenerList t type, l.id < s'.records := by
    intro t type l hl
    rcases hlists.mem hl with hl | ⟨-, hid, hr⟩
    · have := hi.fresh t type l hl
      omega
    · omega
  have hwrapped : ∀ t type, ∀ l ∈ s'.listenerList t type, ∀ t' name, l.callback = .wrapped t' name →
      t' = t ∧ name = type ∧ l.options = ⟨false, false, false, false⟩ ∧ s'.eventHandlers t name ≠ none := by
    intro t type l hl t' name hc
    rcases hlists.mem hl with hl | ⟨ho, -, -⟩
    · obtain ⟨h1, h2, h3, h4⟩ := hi.wrapped t type l hl t' name hc
      exact ⟨h1, h2, h3, h.handlers _ _ h4⟩
    · cases hlists with
      | shrunk _ hna => exact absurd ho (hna _ _ _)
      | grown ho' _ _ _ hw =>
        rw [ho] at ho'
        simp only [List.cons.injEq, Seen.added.injEq, and_true] at ho'
        obtain ⟨rfl, rfl, rfl⟩ := ho'
        exact hw t' name hc
  have hcopied : ∀ c ∈ cores s.stack, c.2.2.Pairwise (·.id < ·.id) ∧ ∀ l ∈ c.2.2, l.id < s'.records := by
    intro c hc
    exact ⟨(hi.copied c hc).1, fun l hl => Nat.lt_of_lt_of_le ((hi.copied c hc).2 l hl) hle⟩
  have hstack : ((cores s'.stack).map (·.1)).Nodup ∧
      (∀ c ∈ cores s'.stack, (s'.events c.1).dispatched = true ∧ (s'.events c.1).eventPhase = .atTarget) ∧
      ∀ c ∈ cores s'.stack, c.2.2.Pairwise (·.id < ·.id) ∧ ∀ l ∈ c.2.2, l.id < s'.records := by
    cases h.nesting with
    | inside hc hk =>
      rw [hc]
      refine ⟨hi.distinct, fun c hm => ?_, hcopied⟩
      rw [(hk c.1).dispatched, (hk c.1).phase]
      exact hi.active c hm
    | @entered e t hs list hc _ hl hhs hfree _ hd hp _ hother =>
      have hnot : e ∉ (cores s.stack).map (·.1) := by
        intro hm
        obtain ⟨c, hin, rfl⟩ := List.mem_map.1 hm
        rw [(hi.active c hin).1] at hfree
        cases hfree
      rw [hc]
      refine ⟨List.nodup_cons.2 ⟨hnot, hi.distinct⟩, ?_, ?_⟩
      · rw [List.forall_mem_cons]
        refine ⟨⟨hd, hp⟩, fun c hm => ?_⟩
        rw [hother c.1 fun he => hnot (List.mem_map.2 ⟨c, hm, he⟩)]
        exact hi.active c hm
      · rw [List.forall_mem_cons]
        have hget : s.listenerList t (s.events e).type = list := by simp [Realm.listenerList, hl]
        refine ⟨?_, hcopied⟩
        subst hhs
        split
        · exact ⟨.nil, by simp⟩
        · rw [← hget]
          exact ⟨hi.sorted _ _, fun l hm => Nat.lt_of_lt_of_le (hi.fresh _ _ l hm) hle⟩
    | @left e t hs b hc _ _ hother =>
      have hd := hi.distinct
      rw [hc, List.map_cons, List.nodup_cons] at hd
      have hsub : ∀ c ∈ cores s'.stack, c ∈ cores s.stack := fun c hm => by rw [hc]; exact List.mem_cons_of_mem _ hm
      refine ⟨hd.2, fun c hm => ?_, fun c hm => hcopied c (hsub c hm)⟩
      rw [hother c.1 fun he => hd.1 (List.mem_map.2 ⟨c, hm, he⟩)]
      exact hi.active c (hsub c hm)
    | dropped _ hc =>
      rw [hc]
      exact ⟨.nil, by simp, by simp⟩
  refine ⟨?_, hfresh, ?_, hwrapped, hstack.1, hstack.2.1, hstack.2.2⟩
  · exact hlists.pairwise hi.sorted fun t type l _ hid _ l' hl' => by rw [hid]; exact hi.fresh t type l' hl'
  · exact hlists.pairwise hi.differ fun t type l _ _ hd => hd

theorem run_inv {made as es s} (h : Run (realm made) as es s) : Inv s := by
  refine h.inv (fun _ _ s => Inv s) (initial_inv made) ?_
  intro _ _ s a s' out _ hi ht
  exact effect_inv hi (step_effect hi.unwrapped ht)

theorem run_effect {made as es s a s' out} (h : Run (realm made) as es s)
    (ht : (realm made).step s a = some (s', out)) : Effect s a s' out :=
  step_effect (run_inv h).unwrapped ht

end LuauFusion.Events
