import LuauFusion.Dispatch
/-!
# Whom a dispatch calls

Two sets of books are kept along a run of any nesting: what every dispatch under
way has shown (`Tracked`), and what has been shown of every listener (`Books`).
`dispatch_calls` says whom a dispatch calls and whom it may leave out, and
`calls_registered` that no call comes to a listener too late or once too often.
-/
open LuauFusion.Lib

namespace LuauFusion.Events

/-! ## Whom a dispatch calls -/

/-- What has been shown of a dispatch. -/
structure Log where
  target : Target
  handlers : List Listener
  called : List Listener
  inert : List Listener

def Log.see (e : EventId) (g : Option Log) : Seen → Option Log
  | .started e' t handlers => if e' = e then some ⟨t, handlers, [], []⟩ else g
  | .called e' l => if e' = e then g.map fun g => { g with called := g.called ++ [l] } else g
  | .inert e' l => if e' = e then g.map fun g => { g with inert := g.inert ++ [l] } else g
  | _ => g

/-- The last dispatch of `e`. -/
def log (e : EventId) (es : List Seen) : Option Log := es.foldl (Log.see e) none

theorem log_append (e : EventId) (es out : List Seen) : log e (es ++ out) = out.foldl (Log.see e) (log e es) :=
  List.foldl_append

theorem log_aside {e : EventId} {es out : List Seen} (h : ∀ x ∈ out, ∀ g, Log.see e g x = g) :
    log e (es ++ out) = log e es := by
  rw [log_append]
  induction out with
  | nil => rfl
  | cons x out ih =>
    rw [List.forall_mem_cons] at h
    rw [List.foldl_cons, h.1]
    exact ih h.2

/-- A listener that is not called any more: the event was stopped, or it was removed. -/
def Excused (s : Realm) (e : EventId) (t : Target) (l : Listener) : Prop :=
  ((s.events e).stopImmediatePropagationFlag = true ∧ l.options.resistStopImmediatePropagation = false) ∨
    l ∉ s.listenerList t (s.events e).type

/-- The listeners whose turn has come. -/
def Dispatch.visited (d : Dispatch) : List Listener :=
  d.handlers.take (if d.status = .visiting then d.index else d.index + 1)

structure Tracks (es : List Seen) (s : Realm) (d : Dispatch) (g : Log) : Prop where
  log : log d.event es = some g
  target : g.target = d.target
  handlers : g.handlers = d.handlers
  called : g.called.Sublist d.visited
  all : ∀ l ∈ d.visited, l ∈ g.called ∨ l ∈ g.inert ∨ Excused s d.event d.target l

/-- The event of a dispatch that goes on. -/
theorem Nesting.stays {s s' : Realm} {a : Act} {out : List Seen} (hi : Inv s) (h : Nesting s s' a out) {d : Dispatch}
    (hd : d ∈ dispatches s.stack) (hd' : d.core ∈ cores s'.stack) :
    (s'.events d.event).type = (s.events d.event).type ∧
      ((s.events d.event).stopImmediatePropagationFlag = true →
        (s'.events d.event).stopImmediatePropagationFlag = true) := by
  have hmem : d.core ∈ cores s.stack := List.mem_map.2 ⟨d, hd, rfl⟩
  cases h with
  | inside _ hk => exact ⟨(hk _).type, (hk _).stopped⟩
  | @entered e _ _ _ _ _ _ _ hfree _ _ _ _ hother =>
    rw [hother d.event]
    · exact ⟨rfl, id⟩
    · rintro rfl
      exact absurd (hi.active _ hmem).1 (by simp [Dispatch.core, hfree])
  | @left e _ _ _ hc _ _ hother =>
    rw [hother d.event]
    · exact ⟨rfl, id⟩
    · rintro rfl
      have hn := hi.distinct
      rw [hc, List.map_cons, List.nodup_cons] at hn
      exact hn.1 (List.mem_map.2 ⟨_, hd', rfl⟩)
  | dropped _ hc => rw [hc] at hd'; cases hd'

/-- Who has been excused stays so. -/
theorem Effect.excused {s s' : Realm} {a : Act} {out : List Seen} (hi : Inv s) (h : Effect s a s' out) {d : Dispatch}
    (hd : d ∈ dispatches s.stack) (hd' : d.core ∈ cores s'.stack) {l : Listener} (hl : l ∈ d.handlers)
    (he : Excused s d.event d.target l) : Excused s' d.event d.target l := by
  obtain ⟨htype, hstop⟩ := h.nesting.stays hi hd hd'
  rcases he with ⟨he, hr⟩ | he
  · exact .inl ⟨hstop he, hr⟩
  · refine .inr fun hin => he ?_
    rw [htype] at hin
    rcases h.lists.mem hin with hin | ⟨-, hid, -⟩
    · exact hin
    · have hlt := (hi.copied _ (List.mem_map.2 ⟨d, hd, rfl⟩)).2 l hl
      omega

theorem visited_subset (d : Dispatch) : ∀ l ∈ d.visited, l ∈ d.handlers := fun _ => List.mem_of_mem_take

/-- A dispatch that a step does not touch. -/
theorem Tracks.keep {es out : List Seen} {s s' : Realm} {a : Act} {d : Dispatch} {g : Log} (hi : Inv s)
    (h : Effect s a s' out) (hd : d ∈ dispatches s.stack) (hd' : d.core ∈ cores s'.stack)
    (hlog : Events.log d.event (es ++ out) = Events.log d.event es) (ht : Tracks es s d g) : Tracks (es ++ out) s' d g :=
  { ht with
    log := hlog.trans ht.log
    all := fun l hl => by
      rcases ht.all l hl with hc | hn | he
      · exact .inl hc
      · exact .inr (.inl hn)
      · exact .inr (.inr (h.excused hi hd hd' (visited_subset d l hl) he)) }

/-- A dispatch whose next listener a step visits, by calling it or not. -/
theorem Tracks.visit {es out : List Seen} {s s' : Realm} {a : Act} {d d' : Dispatch} {g : Log} {l : Listener}
    {c i : List Listener} (hi : Inv s) (h : Effect s a s' out) (hd : d ∈ dispatches s.stack)
    (hd' : d.core ∈ cores s'.stack) (hcore : d'.core = d.core) (hv : d'.visited = d.visited ++ [l])
    (hlog : Events.log d.event (es ++ out) = some { g with called := g.called ++ c, inert := g.inert ++ i })
    (hc : c.Sublist [l]) (hl : l ∈ c ∨ l ∈ i ∨ Excused s' d.event d.target l) (ht : Tracks es s d g) :
    Tracks (es ++ out) s' d' { g with called := g.called ++ c, inert := g.inert ++ i } := by
  simp only [Dispatch.core, Prod.mk.injEq] at hcore
  obtain ⟨he, htg, hh⟩ := hcore
  refine ⟨by rw [he]; exact hlog, by rw [htg]; exact ht.target, by rw [hh]; exact ht.handlers, ?_, ?_⟩
  · rw [hv]
    exact ht.called.append hc
  · rw [hv, he, htg]
    intro l' hl'
    rcases List.mem_append.1 hl' with hl' | hl'
    · rcases ht.all l' hl' with hc | hn | hx
      · exact .inl (List.mem_append_left _ hc)
      · exact .inr (.inl (List.mem_append_left _ hn))
      · exact .inr (.inr (h.excused hi hd hd' (visited_subset d l' hl') hx))
    · obtain rfl := List.mem_singleton.1 hl'
      rcases hl with hc | hn | hx
      · exact .inl (List.mem_append_right _ hc)
      · exact .inr (.inl (List.mem_append_right _ hn))
      · exact .inr (.inr hx)

theorem Tracks.cast {es : List Seen} {s : Realm} {d d' : Dispatch} {g : Log} (hcore : d'.core = d.core)
    (hv : d'.visited = d.visited) (ht : Tracks es s d g) : Tracks es s d' g := by
  simp only [Dispatch.core, Prod.mk.injEq] at hcore
  obtain ⟨he, htg, hh⟩ := hcore
  exact ⟨by rw [he]; exact ht.log, by rw [htg]; exact ht.target, by rw [hh]; exact ht.handlers, by rw [hv]; exact ht.called,
    by rw [hv, he, htg]; exact ht.all⟩

theorem take_next {d : Dispatch} {l : Listener} (hl : d.handlers[d.index]? = some l) :
    d.handlers.take (d.index + 1) = d.handlers.take d.index ++ [l] := by
  rw [List.take_add_one, hl]
  rfl

/-- Every dispatch under way is on the books. -/
def Tracked (es : List Seen) (s : Realm) : Prop := ∀ d ∈ dispatches s.stack, ∃ g, Tracks es s d g

section Step
variable {es out : List Seen} {s s' : Realm} {a : Act} (hi : Inv s) (h : Effect s a s' out) (ht : Tracked es s)
include hi h ht

theorem Tracked.same (hs : dispatches s'.stack = dispatches s.stack) (ho : ∀ x ∈ out, ∀ e g, Log.see e g x = g) :
    Tracked (es ++ out) s' := by
  intro d hd
  obtain ⟨g, hg⟩ := ht d (hs ▸ hd)
  exact ⟨g, hg.keep hi h (hs ▸ hd) (core_mem hd) (log_aside fun x hx => ho x hx d.event)⟩

/-- The dispatch on top goes on, from `d` to `d'`. -/
theorem Tracked.top {d : Dispatch} {below : List Frame} (hs : s.stack = .dispatch d :: below) (d' : Dispatch)
    (hs' : dispatches s'.stack = d' :: dispatches below) (ho : ∀ x ∈ out, ∀ e ≠ d.event, ∀ g, Log.see e g x = g)
    (hg : ∀ g, Tracks es s d g → ∃ g, Tracks (es ++ out) s' d' g) : Tracked (es ++ out) s' := by
  have hstack : dispatches s.stack = d :: dispatches below := by rw [hs]; rfl
  intro d₂ hd₂
  have hcore := core_mem hd₂
  rw [hs', List.mem_cons] at hd₂
  rcases hd₂ with rfl | hd₂
  · obtain ⟨g, hd⟩ := ht d (by rw [hstack]; exact List.mem_cons_self)
    exact hg g hd
  · have hin : d₂ ∈ dispatches s.stack := by rw [hstack]; exact List.mem_cons_of_mem _ hd₂
    obtain ⟨g, hg⟩ := ht d₂ hin
    exact ⟨g, hg.keep hi h hin hcore (log_aside fun x hx => ho x hx _ (hi.event_ne hstack hd₂))⟩

/-- A new dispatch, on top of the others. -/
theorem Tracked.push {s₁ : Realm} {t : Target} {e : EventId} {list : List Listener}
    (hs : dispatches s₁.stack = dispatches s.stack) (hd : (s', out) = dispatch s₁ t e list) : Tracked (es ++ out) s' := by
  have hi' := effect_inv hi h
  obtain ⟨hs', ho⟩ := Prod.mk.inj hd
  have hstack : dispatches s'.stack =
      ⟨e, t, if (s₁.events e).stopPropagationFlag then [] else list, 0, .visiting⟩ :: dispatches s.stack := by
    rw [hs', ← hs]
    rfl
  intro d hd
  have hcore := core_mem hd
  rw [hstack, List.mem_cons] at hd
  rcases hd with rfl | hd
  · refine ⟨⟨t, _, [], []⟩, ?_, rfl, rfl, .slnil, by simp [Dispatch.visited]⟩
    rw [log_append, ho]
    simp [Log.see]
  · obtain ⟨g, hg⟩ := ht d hd
    have hne := (hi'.event_ne hstack hd).symm
    refine ⟨g, hg.keep hi h hd hcore (log_aside ?_)⟩
    rw [ho]
    simp only [List.mem_singleton]
    rintro x rfl g
    simp [Log.see, hne]

end Step

/-- One step keeps the books of every dispatch under way. -/
theorem tracks_step {es out : List Seen} {s s' : Realm} {a : Act} (hi : Inv s) (h : Effect s a s' out)
    (ht : Tracked es s) : Tracked (es ++ out) s' := by
  have hshow : ∀ {x : Seen} {e : EventId}, (∀ e' ≠ e, ∀ g, Log.see e' g x = g) →
      ∀ y ∈ [x], ∀ e' ≠ e, ∀ g, Log.see e' g y = g := by
    intro x e hx y hy
    obtain rfl := List.mem_singleton.1 hy
    exact hx
  cases h with
  | like hr hl ho hh =>
    refine ht.same hi (.like (a := a) hr hl ho hh) (by rw [hl.stack]) fun x hx e g => ?_
    have := ho x hx
    cases x with
    | raised | unlistened => rfl
    | _ => cases this
  | added hr hd hw hl hh => exact ht.same hi (.added (a := a) hr hd hw hl hh) (by rw [hl.stack]; rfl) (by simp [Log.see])
  | removed hr hl hc => exact ht.same hi (.removed (a := a) hr hl hc) rfl (by simp [Log.see])
  | started hr hl hfree hp => exact ht.push hi (.started hr hl hfree hp) rfl rfl
  | @skipped d below l hs hst hl hwhy =>
    have he := Effect.skipped hs hst hl hwhy
    refine ht.top hi he hs { d with index := d.index + 1 } rfl (by simp) fun g hg => ?_
    have hd : d ∈ dispatches s.stack := by rw [hs]; exact List.mem_cons_self
    refine ⟨_, hg.visit (l := l) (c := []) (i := []) hi he hd List.mem_cons_self rfl ?_ ?_ (List.nil_sublist _)
      (.inr (.inr ?_))⟩
    · simp only [Dispatch.visited, hst, if_true]
      exact take_next hl
    · rw [List.append_nil, List.append_nil, List.append_nil]
      exact hg.log
    · rcases hwhy with hw | hw | hw
      · exact .inl hw
      · exact .inr hw
      · exact absurd (hi.active _ (core_mem hd)).2 hw
  | @visited d below l s₁ s' x hs hst hl hin hs₁ hx =>
    have he := Effect.visited hs hst hl hin hs₁ hx
    have hd : d ∈ dispatches s.stack := by rw [hs]; exact List.mem_cons_self
    rcases hx with ⟨rfl, rfl⟩ | ⟨rfl, rfl⟩
    · refine ht.top hi he hs _ rfl (hshow fun e hne g => by simp [Log.see, hne.symm]) fun g hg => ?_
      refine ⟨_, hg.visit (c := []) (i := [l]) hi he hd List.mem_cons_self rfl ?_ ?_ (List.nil_sublist _)
        (.inr (.inl List.mem_cons_self))⟩
      · simp only [Dispatch.visited, hst, if_true]
        exact take_next hl
      · rw [log_append, hg.log]
        simp [Log.see]
    · refine ht.top hi he hs _ rfl (hshow fun e hne g => by simp [Log.see, hne.symm]) fun g hg => ?_
      refine ⟨_, hg.visit (c := [l]) (i := []) hi he hd List.mem_cons_self rfl ?_ ?_ (.refl _)
        (.inl List.mem_cons_self)⟩
      · simp only [Dispatch.visited, hst, reduceCtorEq, if_true, if_false]
        exact take_next hl
      · rw [log_append, hg.log]
        simp [Log.see]
  | @settled _ d below hs hst =>
    have he : Effect s a _ _ := .settled hs hst
    refine ht.top hi he hs _ rfl (by simp) fun g hg => ⟨g, Tracks.cast (d := d) rfl ?_ ?_⟩
    · simp [Dispatch.visited, hst]
    · exact hg.keep hi he (by rw [hs]; exact List.mem_cons_self) List.mem_cons_self (log_aside (by simp))
  | @finished d below hs hst hl =>
    intro d₂ hd₂
    have hcore := core_mem hd₂
    simp only [finishDispatch, dispatches_answer] at hd₂
    have hin : d₂ ∈ dispatches s.stack := by rw [hs]; exact List.mem_cons_of_mem _ hd₂
    obtain ⟨g, hg⟩ := ht d₂ hin
    exact ⟨g, hg.keep hi (.finished hs hst hl) hin hcore (log_aside (by simp [finishDispatch, Log.see]))⟩
  | @caught _ d below error hs hst =>
    have he : Effect s a (caught s d below error).1 (caught s d below error).2 := .caught hs hst
    have ho : ∀ x ∈ (caught s d below error).2, ∀ e g, Log.see e g x = g := by
      simp [Events.caught, reportException, Log.see]
    refine ht.top hi he hs { d with status := .caught } rfl (fun x hx e _ => ho x hx e) fun g hg =>
      ⟨g, Tracks.cast (d := d) rfl ?_ ?_⟩
    · simp [Dispatch.visited, hst]
    · exact hg.keep hi he (by rw [hs]; exact List.mem_cons_self) List.mem_cons_self (log_aside fun x hx => ho x hx _)
  | reported hr => exact ht.same hi (.reported hr) rfl (by simp [reportException, Log.see])
  | reentered hs hn => exact ht.same hi (.reentered hs hn) (by rw [hs]; rfl) (by simp)
  | begun hs hn hs₁ hd =>
    have he := Effect.begun hs hn hs₁ hd
    subst hs₁
    rcases dispatchEvent_cases hd with ⟨rfl, rfl⟩ | ⟨list, -, -, -, hd⟩
    · exact ht.same hi he (by simp [hs]) (by simp [Log.see])
    · exact ht.push hi he (by rw [hs]; rfl) hd
  | @ended _ unhandled _ hs =>
    exact ht.same hi (.ended hs) (by rw [hs]; rfl) (by cases unhandled <;> simp [endReport, Log.see])
  | terminated => simp [Tracked]

theorem run_tracks {made as es s} (h : Run (realm made) as es s) : Tracked es s := by
  refine h.inv (fun _ es s => Tracked es s) (by simp [realm, initial, Tracked]) ?_
  intro _ _ s a s' out hr ih ht
  exact tracks_step (run_inv hr) (run_effect hr ht) ih

/-- A dispatch starts with the list as it is, or with nobody if its event was
stopped before. When it ends, those it called are among them, in their order and
each at most once, and whoever it did not call had nothing to call, or was passed
over because the event was stopped or the listener removed. -/
theorem dispatch_calls {made as es s} (h : Run (realm made) as es s) {a s' out}
    (ht : (realm made).step s a = some (s', out)) :
    (∀ e t hs, .started e t hs ∈ out →
      hs = if (s.events e).stopPropagationFlag then [] else s.listenerList t (s.events e).type) ∧
    ∀ e b, .finished e b ∈ out → b = !(s.events e).canceledFlag ∧
      ∃ g, log e es = some g ∧ g.called.Sublist g.handlers ∧ g.handlers.Nodup ∧
        ∀ l ∈ g.handlers, l ∈ g.called ∨ l ∈ g.inert ∨ Excused s e g.target l := by
  have hi := run_inv h
  have he := run_effect h ht
  constructor
  · intro e t hs hin
    cases he.nesting with
    | inside _ _ ho => exact absurd rfl ((ho _ hin).1 e t hs)
    | entered _ ho hl hhs =>
      rw [ho, List.mem_singleton] at hin
      cases hin
      rw [hhs, Realm.listenerList, hl]
      rfl
    | left _ ho =>
      rw [ho, List.mem_singleton] at hin
      cases hin
    | dropped _ _ _ ho =>
      rw [ho] at hin
      cases hin
  · intro e b hin
    have hfin : ∃ d below, s.stack = .dispatch d :: below ∧ d.status = .visiting ∧ d.handlers[d.index]? = none ∧
        d.event = e ∧ b = !(s.events e).canceledFlag := by
      cases he with
      | @finished d below hs hst hl =>
        simp only [finishDispatch, List.mem_singleton] at hin
        cases hin
        exact ⟨d, below, hs, hst, hl, rfl, rfl⟩
      | started | caught | reported => cases hin with | tail _ hin => cases hin
      | @ended _ unhandled => cases unhandled <;> simp [endReport] at hin
      | like _ _ ho => exact (ho _ hin).elim
      | visited _ _ _ _ _ hx => rcases hx with ⟨rfl, -⟩ | ⟨rfl, -⟩ <;> simp at hin
      | begun _ _ _ hd =>
        rcases dispatchEvent_cases hd with ⟨-, rfl⟩ | ⟨_, -, -, -, hd⟩
        · simp at hin
        · cases hd
          simp at hin
      | _ => simp at hin
    obtain ⟨d, below, hs, hst, hl, rfl, rfl⟩ := hfin
    have hd : d ∈ dispatches s.stack := by rw [hs]; exact List.mem_cons_self
    obtain ⟨g, hg⟩ := run_tracks h d hd
    have hv : d.visited = g.handlers := by
      rw [Dispatch.visited, if_pos hst, List.take_of_length_le (List.getElem?_eq_none_iff.1 hl), hg.handlers]
    refine ⟨rfl, g, hg.log, hv ▸ hg.called, ?_, ?_⟩
    · rw [hg.handlers]
      exact (hi.copied _ (List.mem_map.2 ⟨d, hd, rfl⟩)).1.imp fun hlt heq => by rw [heq] at hlt; omega
    · rw [← hv, hg.target]
      exact hg.all

/-- Two listeners of one event, the second to be called once. -/
def twoListeners : List Act :=
  [.addEventListener 1 "x" (some (.function 0)) .undefined,
    .addEventListener 1 "x" (some (.function 1)) (.object .undefined (.boolean true) .undefined .undefined false),
    .dispatchEvent 1 (.made 0), .next, .ret, .next, .ret]

theorem dispatch_calls_two :
    ∃ es s, Run (realm fun _ => ⟨"x", true⟩) twoListeners es s ∧
      ∃ g, log (.made 0) es = some g ∧ g.called.Sublist g.handlers ∧ g.handlers.Nodup ∧ g.called.length = 2 ∧
        ∀ l ∈ g.handlers, l ∈ g.called ∨ l ∈ g.inert ∨ Excused s (.made 0) g.target l := by
  have h : Run (realm fun _ => ⟨"x", true⟩) twoListeners _ _ := run_of_exec rfl
  obtain ⟨-, g, hg, hc, hn, hall⟩ := (dispatch_calls h (a := .next) rfl).2 (.made 0) true (List.mem_singleton.2 rfl)
  cases hg
  exact ⟨_, _, h, _, rfl, hc, hn, rfl, hall⟩

/-! ## Who is called -/

/-- What the observations say of the records in the lists. -/
structure Books (es : List Seen) (s : Realm) : Prop where
  registered : ∀ t type, ∀ l ∈ s.listenerList t type, .added t type l ∈ es ∧ (∀ t' type', .removed t' type' l ∉ es) ∧
    (l.options.once = true → ∀ e, .called e l ∉ es)
  made : ∀ t type l, .added t type l ∈ es → l.id < s.records
  /-- A record is added once. -/
  once : ∀ t type l t' type' l', .added t type l ∈ es → .added t' type' l' ∈ es → l.id = l'.id →
    t = t' ∧ type = type' ∧ l = l'
  known : ∀ l, ((∃ t type, .removed t type l ∈ es) ∨ ∃ e, .called e l ∈ es) → l.id < s.records

/-- Nothing is added, removed or called. -/
def Seen.Plain : Seen → Prop
  | added .. | removed .. | called .. => False
  | _ => True

theorem Books.plain {es out : List Seen} {s s' : Realm} (hb : Books es s) (hr : s'.records = s.records)
    (hl : ∀ t type, (s'.listenerList t type).Sublist (s.listenerList t type)) (ho : ∀ x ∈ out, x.Plain) :
    Books (es ++ out) s' := by
  have hin : ∀ x : Seen, ¬ x.Plain → (x ∈ es ++ out ↔ x ∈ es) := by
    intro x hx
    rw [List.mem_append, or_iff_left fun h => hx (ho x h)]
  refine ⟨fun t type l hm => ?_, ?_, ?_, ?_⟩
  · obtain ⟨h1, h2, h3⟩ := hb.registered t type l ((hl t type).subset hm)
    exact ⟨(hin _ id).2 h1, fun t' type' h => h2 t' type' ((hin _ id).1 h), fun hc e h => h3 hc e ((hin _ id).1 h)⟩
  · intro t type l h
    rw [hr]
    exact hb.made t type l ((hin _ id).1 h)
  · intro t type l t' type' l' h h'
    exact hb.once t type l t' type' l' ((hin _ id).1 h) ((hin _ id).1 h')
  · intro l h
    rw [hr]
    refine hb.known l (h.imp ?_ ?_)
    · rintro ⟨t, type, h⟩
      exact ⟨t, type, (hin _ id).1 h⟩
    · rintro ⟨e, h⟩
      exact ⟨e, (hin _ id).1 h⟩

/-- A record that leaves its list is in none. -/
theorem Books.gone {es : List Seen} {s : Realm} (hi : Inv s) (hb : Books es s) {t t' : Target} {type type' : String}
    {l : Listener} (hl : l ∈ s.listenerList t type) :
    l ∉ (s.setListeners t type ((s.listenerList t type).erase l)).listenerList t' type' := by
  rw [Realm.setListeners_list]
  split
  · have hn : (s.listenerList t type).Nodup := (hi.sorted t type).imp fun hlt heq => by rw [heq] at hlt; omega
    exact hn.not_mem_erase
  · next hne =>
    intro hl'
    obtain ⟨ht, htype, -⟩ := hb.once _ _ _ _ _ _ (hb.registered _ _ _ hl').1 (hb.registered _ _ _ hl).1 rfl
    exact hne ⟨ht, htype⟩

/-- One observation about a record that is in no list afterwards, or that is
called and may be called again. -/
theorem Books.about {es : List Seen} {s s' : Realm} (hb : Books es s) {x : Seen} {l : Listener} (hr : s'.records = s.records)
    (hl : ∀ t type, (s'.listenerList t type).Sublist (s.listenerList t type)) (hlt : l.id < s.records)
    (hx : (∃ t type, x = .removed t type l) ∨ ∃ e, x = .called e l)
    (hgone : (∀ t type, l ∉ s'.listenerList t type) ∨ l.options.once = false ∧ ∃ e, x = .called e l) :
    Books (es ++ [x]) s' := by
  have hadd : ∀ {t type l'}, .added t type l' ∈ es ++ [x] ↔ .added t type l' ∈ es := by
    intro t type l'
    rw [List.mem_append, or_iff_left]
    intro h
    obtain rfl := List.mem_singleton.1 h
    rcases hx with ⟨_, _, h⟩ | ⟨_, h⟩ <;> cases h
  refine ⟨fun t type l' hm => ?_, ?_, ?_, ?_⟩
  · obtain ⟨h1, h2, h3⟩ := hb.registered t type l' ((hl t type).subset hm)
    refine ⟨hadd.2 h1, fun t' type' h => ?_, fun hc e h => ?_⟩
    · rcases List.mem_append.1 h with h | h
      · exact h2 t' type' h
      · obtain rfl := List.mem_singleton.1 h
        rcases hx with ⟨_, _, h⟩ | ⟨_, h⟩
        · cases h
          rcases hgone with hg | ⟨-, _, hg⟩
          · exact hg _ _ hm
          · cases hg
        · cases h
    · rcases List.mem_append.1 h with h | h
      · exact h3 hc e h
      · obtain rfl := List.mem_singleton.1 h
        rcases hx with ⟨_, _, h⟩ | ⟨_, h⟩
        · cases h
        · cases h
          rcases hgone with hg | ⟨hno, -⟩
          · exact hg _ _ hm
          · rw [hno] at hc
            cases hc
  · intro t type l' h
    rw [hr]
    exact hb.made t type l' (hadd.1 h)
  · intro t type l' t' type' l'' h h'
    exact hb.once t type l' t' type' l'' (hadd.1 h) (hadd.1 h')
  · intro l' h
    rw [hr]
    have hor : ((∃ t type, .removed t type l' ∈ es) ∨ ∃ e, .called e l' ∈ es) ∨ l' = l := by
      rcases h with ⟨t, type, h⟩ | ⟨e, h⟩
      · rcases List.mem_append.1 h with h | h
        · exact .inl (.inl ⟨t, type, h⟩)
        · obtain rfl := List.mem_singleton.1 h
          rcases hx with ⟨_, _, h⟩ | ⟨_, h⟩ <;> cases h
          exact .inr rfl
      · rcases List.mem_append.1 h with h | h
        · exact .inl (.inr ⟨e, h⟩)
        · obtain rfl := List.mem_singleton.1 h
          rcases hx with ⟨_, _, h⟩ | ⟨_, h⟩ <;> cases h
          exact .inr rfl
    rcases hor with h | rfl
    · exact hb.known l' h
    · exact hlt

theorem books_step {es out : List Seen} {s s' : Realm} {a : Act} (hi : Inv s) (hb : Books es s) (h : Effect s a s' out) :
    Books (es ++ out) s' := by
  have hplain : (∀ x ∈ out, x.Plain) → Books (es ++ out) s' := by
    intro ho
    cases h.lists with
    | shrunk hr _ hl => exact hb.plain hr hl ho
    | @grown t type l hout =>
      have hx : (Seen.added t type l).Plain := ho _ (by rw [hout]; exact List.mem_singleton.2 rfl)
      cases hx
  cases h with
  | like _ _ ho =>
    refine hplain fun x hx => ?_
    have := ho x hx
    cases x with
    | raised | unlistened => trivial
    | _ => cases this
  | removed _ hl =>
    exact hb.about rfl (fun _ _ => erase_sublist _ _ _ _ _ _) (hi.fresh _ _ _ hl) (.inl ⟨_, _, rfl⟩)
      (.inl fun _ _ => hb.gone hi hl)
  | @visited d below l s₁ s' x hs hst hl hin hs₁ hx =>
    have hlists := (Effect.visited hs hst hl hin hs₁ hx).lists
    rcases hx with ⟨rfl, rfl⟩ | ⟨rfl, rfl⟩
    · refine hplain fun x hx => ?_
      obtain rfl := List.mem_singleton.1 hx
      trivial
    · cases hlists with
      | shrunk hr _ hsub =>
        refine hb.about hr hsub (hi.fresh _ _ _ hin) (.inr ⟨_, rfl⟩) ?_
        cases ho : l.options.once with
        | false => exact .inr ⟨rfl, _, rfl⟩
        | true =>
          refine .inl fun t type => ?_
          rw [ho, if_pos rfl] at hs₁
          subst hs₁
          split
          · exact hb.gone hi hin
          · exact hb.gone hi hin
      | grown hout => cases hout
  | @added _ t type callback options _ hr hd hw hl hh =>
    have hlists := (Effect.added (a := a) hr hd hw hl hh).lists
    have hnew : ∀ t' type' l', .added t' type' l' ∈ es ++ [.added t type ⟨s.records, callback, options⟩] →
        .added t' type' l' ∈ es ∨ t' = t ∧ type' = type ∧ l' = ⟨s.records, callback, options⟩ := by
      intro t' type' l' h
      rcases List.mem_append.1 h with h | h
      · exact .inl h
      · cases List.mem_singleton.1 h
        exact .inr ⟨rfl, rfl, rfl⟩
    have hold : ∀ x : Seen, (∀ t type l, x ≠ .added t type l) →
        x ∈ es ++ [.added t type ⟨s.records, callback, options⟩] → x ∈ es := by
      intro x hx h
      rcases List.mem_append.1 h with h | h
      · exact h
      · exact absurd (List.mem_singleton.1 h) (hx _ _ _)
    have hrec : s'.records = s.records + 1 := hl.records
    refine ⟨fun t' type' l hm => ?_, ?_, ?_, ?_⟩
    · rcases hlists.mem hm with hm | ⟨ho, hid, -⟩
      · obtain ⟨h1, h2, h3⟩ := hb.registered t' type' l hm
        exact ⟨List.mem_append_left _ h1, fun _ _ h => h2 _ _ (hold _ (by simp) h),
          fun hc e h => h3 hc e (hold _ (by simp) h)⟩
      · cases ho
        refine ⟨List.mem_append_right _ (List.mem_singleton.2 rfl), fun t₂ type₂ h => ?_, fun _ e h => ?_⟩
        · exact absurd (hb.known _ (.inl ⟨t₂, type₂, hold _ (by simp) h⟩)) (Nat.lt_irrefl _)
        · exact absurd (hb.known _ (.inr ⟨e, hold _ (by simp) h⟩)) (Nat.lt_irrefl _)
    · intro t' type' l h
      rw [hrec]
      rcases hnew _ _ _ h with h | ⟨-, -, rfl⟩
      · exact Nat.lt_succ_of_lt (hb.made _ _ _ h)
      · exact Nat.lt_succ_self _
    · intro t' type' l t'' type'' l' h h' hid
      rcases hnew _ _ _ h with hold | ⟨ht, htype, hl⟩
      · rcases hnew _ _ _ h' with hold' | ⟨-, -, hl'⟩
        · exact hb.once _ _ _ _ _ _ hold hold' hid
        · rw [hl'] at hid
          exact absurd (hb.made _ _ _ hold) (by rw [hid]; exact Nat.lt_irrefl _)
      · rcases hnew _ _ _ h' with hold' | ⟨ht', htype', hl'⟩
        · rw [hl] at hid
          exact absurd (hb.made _ _ _ hold') (by rw [← hid]; exact Nat.lt_irrefl _)
        · exact ⟨ht.trans ht'.symm, htype.trans htype'.symm, hl.trans hl'.symm⟩
    · intro l h
      rw [hrec]
      refine Nat.lt_succ_of_lt (hb.known l (h.imp ?_ ?_))
      · rintro ⟨t', type', h⟩
        exact ⟨t', type', hold _ (by simp) h⟩
      · rintro ⟨e, h⟩
        exact ⟨e, hold _ (by simp) h⟩
  | begun _ _ _ hd =>
    refine hplain ?_
    rcases dispatchEvent_cases hd with ⟨-, rfl⟩ | ⟨_, -, -, -, hd⟩
    · simp [Seen.Plain]
    · cases hd
      simp [Seen.Plain]
  | @ended _ unhandled => exact hplain (by cases unhandled <;> simp [endReport, Seen.Plain])
  | started | skipped | settled | finished | caught | reported | reentered | terminated =>
    exact hplain (by simp [dispatch, finishDispatch, Events.caught, reportException, Seen.Plain])

theorem run_books {made as es s} (h : Run (realm made) as es s) : Books es s := by
  refine h.inv (fun _ es s => Books es s) ?_ ?_
  · exact ⟨by simp [realm, initial, Realm.listenerList], by simp, by simp, by simp⟩
  · intro _ _ s a s' out hr ih ht
    exact books_step (run_inv hr) ih (run_effect hr ht)

/-- A step that calls a listener shows nothing else, and the listener is in its list. -/
theorem called_effect {s s' : Realm} {a : Act} {out : List Seen} {e : EventId} {l : Listener} (h : Effect s a s' out)
    (hc : .called e l ∈ out) : out = [.called e l] ∧ ∃ t type, l ∈ s.listenerList t type := by
  cases h with
  | like _ _ ho => exact (ho _ hc).elim
  | visited _ _ _ hin _ hx =>
    rcases hx with ⟨rfl, -⟩ | ⟨rfl, -⟩
    · cases List.mem_singleton.1 hc
    · cases List.mem_singleton.1 hc
      exact ⟨rfl, _, _, hin⟩
  | begun _ _ _ hd =>
    rcases dispatchEvent_cases hd with ⟨-, rfl⟩ | ⟨_, -, -, -, hd⟩
    · simp at hc
    · cases hd
      simp at hc
  | @ended _ unhandled => cases unhandled <;> simp [endReport] at hc
  | started | skipped | settled | finished | caught | reported | reentered | terminated | added | removed =>
    simp [dispatch, finishDispatch, Events.caught, reportException] at hc

/-- A listener is called only while it is registered: after it was added and not
after it was removed; and if it is to be called once, then never before. -/
theorem calls_registered {made as es s} (h : Run (realm made) as es s) {pre post : List Seen} {e : EventId} {l : Listener}
    (hes : es = pre ++ .called e l :: post) :
    (∃ t type, .added t type l ∈ pre) ∧ (∀ t type, .removed t type l ∉ pre) ∧
      (l.options.once = true → ∀ e', .called e' l ∉ pre) := by
  revert pre post e l
  refine h.inv (fun _ es _ => ∀ {pre post : List Seen} {e : EventId} {l : Listener}, es = pre ++ .called e l :: post →
    (∃ t type, .added t type l ∈ pre) ∧ (∀ t type, .removed t type l ∉ pre) ∧
      (l.options.once = true → ∀ e', .called e' l ∉ pre)) (by simp) ?_
  intro _ es s a s' out hr ih ht pre post e l hes
  have hnow : .called e l ∈ out → pre = es → (∃ t type, .added t type l ∈ pre) ∧ (∀ t type, .removed t type l ∉ pre) ∧
      (l.options.once = true → ∀ e', .called e' l ∉ pre) := by
    rintro hc rfl
    obtain ⟨-, t, type, hin⟩ := called_effect (run_effect hr ht) hc
    obtain ⟨h1, h2, h3⟩ := (run_books hr).registered t type l hin
    exact ⟨⟨t, type, h1⟩, h2, h3⟩
  rcases List.append_eq_append_iff.1 hes with ⟨pre', hpre, hout⟩ | ⟨post', hes', hout⟩
  · have hc : .called e l ∈ out := by rw [hout]; exact List.mem_append_right _ List.mem_cons_self
    obtain ⟨hone, -⟩ := called_effect (run_effect hr ht) hc
    rw [hone] at hout
    have hnil : pre' = [] := by
      cases pre' with
      | nil => rfl
      | cons x xs => simp at hout
    exact hnow hc (by rw [hpre, hnil, List.append_nil])
  · cases post' with
    | nil => exact hnow (by rw [← hout.trans (List.nil_append _)]; exact List.mem_cons_self) (by rw [hes', List.append_nil])
    | cons x xs =>
      cases hout
      exact ih hes'

theorem calls_registered_two :
    ∃ es s pre post l, Run (realm fun _ => ⟨"x", true⟩) twoListeners es s ∧ es = pre ++ .called (.made 0) l :: post ∧
      l.options.once = true ∧ (∃ t type, .added t type l ∈ pre) ∧ (∀ t type, .removed t type l ∉ pre) ∧
      (l.options.once = true → ∀ e', .called e' l ∉ pre) := by
  have h : Run (realm fun _ => ⟨"x", true⟩) twoListeners _ _ := run_of_exec rfl
  let first : Listener := ⟨0, .script (.function 0), ⟨false, false, false, false⟩⟩
  let second : Listener := ⟨1, .script (.function 1), ⟨false, true, false, false⟩⟩
  exact ⟨_, _, [.added 1 "x" first, .added 1 "x" second, .started (.made 0) 1 [first, second], .called (.made 0) first],
    [], second, h, rfl, rfl, calls_registered h rfl⟩

end LuauFusion.Events
