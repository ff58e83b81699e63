import Mathlib.Data.List.Pairwise
import LuauFusion.Dispatch
/-!
# Lists of listeners and handler properties

What `removeEventListener` leaves of a list, and what the properties that
`defineEventHandler` defines (`onerror` and the like) have to do with it.
-/
open LuauFusion.Lib

namespace LuauFusion.Events

/-! ## Removing -/

/-- Erasing one element that has a property no two elements share leaves the others. -/
theorem erase_eq_filter {α : Type} [DecidableEq α] {l : List α} {p : α → Bool} {x : α} (hx : x ∈ l) (hp : p x = true)
    (hl : l.Pairwise fun a b => ¬ (p a = true ∧ p b = true)) : l.erase x = l.filter (!p ·) := by
  induction l with
  | nil => cases hx
  | cons a l ih =>
    rw [List.pairwise_cons] at hl
    by_cases ha : a = x
    · subst ha
      have hrest : ∀ b ∈ l, p b = false := fun b hb => by
        have := hl.1 b hb
        simpa [hp] using this
      rw [List.erase_cons_head, List.filter_cons_of_neg (by simp [hp]), List.filter_eq_self.2]
      intro b hb
      simp [hrest b hb]
    · have hin : x ∈ l := (List.mem_cons.1 hx).resolve_left (Ne.symm ha)
      have hpa : p a = false := by
        have := hl.1 x hin
        simpa [hp] using this
      rw [List.erase_cons_tail (by simpa using ha), List.filter_cons_of_pos (by simp [hpa]), ih hin hl.2]

/-- In every state a run reaches: of the list it is asked about,
`removeEventListener` leaves the listeners that do not match, though it splices
at most one out; and it touches no other list. Matching is by the `capture` the
script gave, so an options object without one matches nothing. -/
theorem remove_filters {made as es s} (h : Run (realm made) as es s) (t : Target) (type : String) (callback : Callback)
    {options : OptionsArg} {capture : Value} (ho : normalizeEventHandlerOptions options = some capture) (t' : Target)
    (type' : String) :
    (removeEventListener s t type (some callback) options).1.listenerList t' type' =
      if t' = t ∧ type' = type then
        (s.listenerList t type).filter fun l => !(capture == .boolean l.options.capture && l.callback == .script callback)
      else s.listenerList t' type' := by
  have hi := run_inv h
  have hskip : (s.listenerList t type).find? (fun l => capture == .boolean l.options.capture && l.callback == .script callback) =
      none → (s.listenerList t type).filter (fun l =>
        !(capture == .boolean l.options.capture && l.callback == .script callback)) = s.listenerList t type := by
    intro hf
    rw [List.find?_eq_none] at hf
    rw [List.filter_eq_self]
    intro l hl
    have hp := hf l hl
    rw [Bool.not_eq_true] at hp
    rw [hp]
    rfl
  unfold removeEventListener
  split
  · next hc => cases hc
  · next hn _ =>
    have hnil : s.listenerList t type = [] := by rw [Realm.listenerList, hn]; rfl
    split
    · next heq => rw [heq.1, heq.2, hnil]; rfl
    · rfl
  · next c list hc hlist =>
    cases hc
    have hget : s.listenerList t type = list := by rw [Realm.listenerList, hlist]; rfl
    rw [ho]
    simp only
    rw [← hget]
    split
    · next hf =>
      split
      · next heq => rw [heq.1, heq.2, hskip hf]
      · rfl
    · next l hf =>
      rw [Realm.setListeners_list]
      split
      · refine erase_eq_filter (List.mem_of_find?_eq_some hf) (by simpa using List.find?_some hf) ?_
        refine (hi.differ t type).imp fun hd hboth => hd ?_
        simp only [Bool.and_eq_true, beq_iff_eq] at hboth
        obtain ⟨⟨h1, h2⟩, h3, h4⟩ := hboth
        rw [h1] at h3
        exact ⟨Value.boolean.inj h3, h2.trans h4.symm⟩
      · rfl

/-- A listener and a handler property of one type. -/
def mixed : List Act :=
  [.addEventListener 1 "x" (some (.function 0)) .undefined, .setHandler 1 "x" (some (.function 1)),
    .setHandler 1 "x" (some (.function 2))]

theorem remove_filters_mixed :
    ∃ es s, Run (realm fun _ => ⟨"x", true⟩) mixed es s ∧
      ((removeEventListener s 1 "x" (some (.function 0)) .undefined).1.listenerList 1 "x").map (·.callback) = [.wrapped 1 "x"] := by
  have h : Run (realm fun _ => ⟨"x", true⟩) mixed _ _ := run_of_exec rfl
  refine ⟨_, _, h, ?_⟩
  rw [remove_filters h 1 "x" (.function 0) (rfl : normalizeEventHandlerOptions .undefined = some (.boolean false))]
  rfl

/-! ## Handler properties -/

/-- What a script has assigned to a property, in order. -/
def assigned (t : Target) (name : String) (as : List Act) : List (Option Callback) := as.filterMap fun
  | .setHandler t' name' value => if t' = t ∧ name' = name then some (handlerValue value) else none
  | _ => none

/-- A wrapper stays in its list: nobody can name it, and it is not to be called once. -/
theorem Effect.wrapper {s s' : Realm} {a : Act} {out : List Seen} (hi : Inv s) (h : Effect s a s' out) {t : Target}
    {name : String} (hm : ∃ l ∈ s.listenerList t name, l.callback = .wrapped t name) :
    ∃ l ∈ s'.listenerList t name, l.callback = .wrapped t name := by
  obtain ⟨l, hl, hc⟩ := hm
  refine ⟨l, ?_, hc⟩
  have herase : ∀ {t' type' l'}, l' ≠ l →
      l ∈ (s.setListeners t' type' ((s.listenerList t' type').erase l')).listenerList t name := by
    intro t' type' l' hne
    rw [Realm.setListeners_list]
    split
    · next heq =>
      rw [← heq.1, ← heq.2]
      exact (List.mem_erase_of_ne (Ne.symm hne)).2 hl
    · exact hl
  cases h with
  | like _ hlike => rw [hlike.list]; exact hl
  | added _ _ _ hlike =>
    rw [hlike.list, push_list]
    split
    · next heq =>
      rw [← heq.1, ← heq.2]
      exact List.mem_append_left _ hl
    · exact hl
  | removed _ _ hc' =>
    refine herase ?_
    rintro rfl
    rw [hc] at hc'
    cases hc'
  | @visited d below l' s₁ s' x _ _ _ _ hs₁ hx =>
    have hin : l ∈ s₁.listenerList t name := by
      rw [hs₁]
      split
      · next honce =>
        refine herase ?_
        rintro rfl
        rw [(hi.wrapped t name _ hl t name hc).2.2.1] at honce
        cases honce
      · exact hl
    rcases hx with ⟨rfl, rfl⟩ | ⟨rfl, rfl⟩
    · exact hin
    · split <;> exact hin
  | begun _ _ hs₁ hd =>
    subst hs₁
    rcases dispatchEvent_cases hd with ⟨rfl, rfl⟩ | ⟨list, -, -, -, hd⟩
    · exact hl
    · cases hd
      exact hl
  | _ => exact hl

/-- Assigning a property is all that changes it. -/
theorem Effect.unassigned {s s' : Realm} {a : Act} {out : List Seen} (h : Effect s a s' out) {t : Target} {name : String}
    (hne : s'.eventHandlers t name ≠ s.eventHandlers t name) : ∃ v, a = .setHandler t name v := by
  cases h with
  | like _ _ _ hh => exact (hh t name hne).2
  | added _ _ _ _ hh => exact (hh t name hne).2
  | @visited d below l s₁ s' x _ _ _ _ hs₁ hx =>
    refine absurd ?_ hne
    have he : s₁.eventHandlers = s.eventHandlers := by
      rw [hs₁]
      split <;> rfl
    rcases hx with ⟨rfl, rfl⟩ | ⟨rfl, rfl⟩
    · rw [← he]
      rfl
    · rw [← he]
      split <;> rfl
  | begun _ _ hs₁ hd =>
    refine absurd ?_ hne
    subst hs₁
    rcases dispatchEvent_cases hd with ⟨rfl, rfl⟩ | ⟨list, -, -, -, hd⟩
    · rfl
    · cases hd
      rfl
  | _ => exact absurd rfl hne

theorem setHandler_value (s : Realm) (t : Target) (name : String) (value : Option Callback) :
    (setHandler s t name value).1.eventHandlers t name =
      if s.eventHandlers t name = none ∧ handlerValue value = none then none else some (handlerValue value) := by
  unfold setHandler
  cases handlerValue value <;> cases hh : s.eventHandlers t name <;> simp [push, Realm.setListeners, hh]

/-- The first handler comes with a listener. -/
theorem setHandler_wrapper {s : Realm} {t : Target} {name : String} {value : Option Callback}
    (hn : s.eventHandlers t name = none) (hv : handlerValue value ≠ none) :
    ∃ l ∈ (setHandler s t name value).1.listenerList t name, l.callback = .wrapped t name := by
  unfold setHandler
  cases h : handlerValue value with
  | none => exact absurd h hv
  | some c =>
    refine ⟨⟨s.records, .wrapped t name, ⟨false, false, false, false⟩⟩, ?_, rfl⟩
    simp only [hn]
    show _ ∈ (push s t name _ _).1.listenerList t name
    rw [push_list, if_pos ⟨rfl, rfl⟩]
    exact List.mem_append_right _ (List.mem_singleton.2 rfl)

theorem step_setHandler {s s' : Realm} {t : Target} {name : String} {value : Option Callback} {out : List Seen}
    (h : step s (.setHandler t name value) = some (s', out)) : setHandler s t name value = (s', out) := by
  simp only [step] at h
  split at h
  · exact Option.some.inj h
  · cases h

/-- The wrapper is made at the first assignment of a handler, and every later one
replaces its handler. -/
theorem run_assigned {made as es s} (h : Run (realm made) as es s) (t : Target) (name : String) :
    s.eventHandlers t name = (if (assigned t name as).any Option.isSome then (assigned t name as).getLast? else none) ∧
      (s.eventHandlers t name ≠ none → ∃ l ∈ s.listenerList t name, l.callback = .wrapped t name) := by
  induction h with
  | nil => exact ⟨rfl, fun hne => absurd rfl hne⟩
  | @snoc as es s a s' out hr ht ih =>
    obtain ⟨hval, hwrap⟩ := ih
    have he := run_effect hr ht
    have happ : assigned t name (as ++ [a]) = assigned t name as ++ assigned t name [a] := List.filterMap_append
    by_cases ha : ∃ v, a = .setHandler t name v
    · obtain ⟨v, rfl⟩ := ha
      have hset := step_setHandler ht
      obtain rfl : (setHandler s t name v).1 = s' := congrArg Prod.fst hset
      have hone : assigned t name [.setHandler t name v] = [handlerValue v] := by simp [assigned]
      have hsome : (assigned t name as).any Option.isSome = true → s.eventHandlers t name ≠ none := by
        intro hany hn
        rw [hval, if_pos hany, List.getLast?_eq_none_iff] at hn
        simp [hn] at hany
      rw [setHandler_value, happ, hone, List.any_append, List.getLast?_concat]
      by_cases hany : (assigned t name as).any Option.isSome = true
      · refine ⟨by simp [hsome hany, hany], fun _ => he.wrapper (run_inv hr) (hwrap (hsome hany))⟩
      · have hn : s.eventHandlers t name = none := by rw [hval, if_neg hany]
        cases hv : handlerValue v with
        | none => exact ⟨by simp [hn, hany], fun hne => absurd (by simp [hn]) hne⟩
        | some c => exact ⟨by simp, fun _ => setHandler_wrapper hn (by simp [hv])⟩
    · have hsame : s'.eventHandlers t name = s.eventHandlers t name := by
        by_contra hne
        exact ha (he.unassigned hne)
      have hnone : assigned t name [a] = [] := by
        cases a with
        | setHandler t' name' v =>
          have hne : ¬ (t' = t ∧ name' = name) := by
            rintro ⟨rfl, rfl⟩
            exact ha ⟨v, rfl⟩
          simp [assigned, hne]
        | _ => rfl
      rw [hsame, happ, hnone, List.append_nil]
      exact ⟨hval, fun hne => he.wrapper (run_inv hr) (hwrap hne)⟩

/-- A handler property returns what was assigned last, and however often it is
assigned, one listener stands for it, in the place of the first assignment: it
is never removed, and there is no second one. -/
theorem handlers_kept {made as es s} (h : Run (realm made) as es s) (t : Target) (name : String) :
    getHandler s t name = (assigned t name as).getLast?.join ∧
      ((∃ v ∈ assigned t name as, v ≠ none) → ∃! l, l ∈ s.listenerList t name ∧ l.callback = .wrapped t name) ∧
      ((∀ v ∈ assigned t name as, v = none) → ∀ l ∈ s.listenerList t name, l.callback ≠ .wrapped t name) := by
  have hi := run_inv h
  obtain ⟨hval, hwrap⟩ := run_assigned h t name
  have hany : (assigned t name as).any Option.isSome = true ↔ ∃ v ∈ assigned t name as, v ≠ none := by
    simp [List.any_eq_true, Option.isSome_iff_ne_none]
  refine ⟨?_, fun hex => ?_, fun hall l hl hc => ?_⟩
  · rw [getHandler, hval]
    split
    · rfl
    · next hno =>
      rw [hany] at hno
      cases hlast : (assigned t name as).getLast? with
      | none => rfl
      | some v =>
        have hv : v = none := by
          by_contra hne
          exact hno ⟨v, List.mem_of_getLast? hlast, hne⟩
        rw [hv]
        rfl
  · have hne : s.eventHandlers t name ≠ none := by
      rw [hval, if_pos (hany.2 hex), Ne, List.getLast?_eq_none_iff]
      rintro hnil
      rw [hnil] at hex
      simp at hex
    obtain ⟨l, hl, hc⟩ := hwrap hne
    refine ⟨l, ⟨hl, hc⟩, fun l' hl' => ?_⟩
    by_contra hdiff
    have hsym : Std.Symm fun l l' : Listener => ¬ (l.options.capture = l'.options.capture ∧ l.callback = l'.callback) :=
      ⟨fun _ _ hd he => hd ⟨he.1.symm, he.2.symm⟩⟩
    refine (hi.differ t name).forall hl'.1 hl hdiff ⟨?_, hl'.2.trans hc.symm⟩
    have ho := (hi.wrapped t name l hl t name hc).2.2.1
    have ho' := (hi.wrapped t name l' hl'.1 t name hl'.2).2.2.1
    rw [ho, ho']
  · refine (hi.wrapped t name l hl t name hc).2.2.2 ?_
    rw [hval, if_neg]
    rw [hany]
    rintro ⟨v, hv, hne⟩
    exact hne (hall v hv)

theorem handlers_kept_mixed :
    ∃ es s, Run (realm fun _ => ⟨"x", true⟩) mixed es s ∧ getHandler s 1 "x" = some (.function 2) ∧
      ∃! l, l ∈ s.listenerList 1 "x" ∧ l.callback = .wrapped 1 "x" := by
  have h : Run (realm fun _ => ⟨"x", true⟩) mixed _ _ := run_of_exec rfl
  obtain ⟨hlast, hone, -⟩ := handlers_kept h 1 "x"
  exact ⟨_, _, h, hlast, hone ⟨some (.function 2), by simp [assigned, mixed, handlerValue], nofun⟩⟩

end LuauFusion.Events
