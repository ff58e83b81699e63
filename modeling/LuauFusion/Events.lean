import Mathlib.Data.List.Basic
import Mathlib.Logic.Function.Basic
import LuauFusion.Lib.Runs
/-!
# Events

`web/02_events.js`: `EventTarget`, the dispatch of an event and the reporting of
what its listeners throw. A listener is script code, which may call anything
here, another dispatch included, before it returns; so the dispatches under way
are frames of a stack, and a run is what a script does, call by call, with
the library's own moves (`next`) in between.

No target is a node: a path has one element and the phase at it is `AT_TARGET`.
Scripts use the interfaces, not the internals that `export.js` puts on
`globalThis` beside them.
-/
open LuauFusion.Lib

namespace LuauFusion.Events

/-! ## Listeners -/

/-- `0` is `globalThis`. -/
abbrev Target := Nat

def globalThis : Target := 0

/-- What a script passes as a callback, by its `typeof`. -/
inductive Callback where
  | function (f : Nat)
  | object (o : Nat)
  /-- Neither: calling it is a `TypeError`. -/
  | value (v : String)
  deriving DecidableEq

/-- A listener's callback, which may be the wrapper of the property `on` ++ `name`. -/
inductive Callee where
  | script (c : Callback)
  | wrapped (t : Target) (name : String)
  deriving DecidableEq

/-- A property of an options object. -/
inductive Value where
  | undefined
  | boolean (b : Bool)
  | other (truthy : Bool)
  deriving DecidableEq

def Value.truthy : Value → Bool
  | undefined => false
  | boolean b | other b => b

/-- The third argument of `addEventListener` and `removeEventListener`. -/
inductive OptionsArg where
  | undefined
  | null
  | boolean (b : Bool)
  | primitive (truthy : Bool)
  | object (capture once passive resistStopImmediatePropagation : Value) (signal : Bool)
  deriving DecidableEq

structure Options where
  capture : Bool
  once : Bool
  passive : Bool
  resistStopImmediatePropagation : Bool
  deriving DecidableEq

/-- `none` is a `TypeError`: nothing here defines the converter of a signal. -/
def addEventListenerOptionsConverter : OptionsArg → Option Options
  | .undefined | .null => some ⟨false, false, false, false⟩
  | .boolean b | .primitive b => some ⟨b, false, false, false⟩
  | .object capture once passive resist signal =>
    if signal then none else some ⟨capture.truthy, once.truthy, passive.truthy, resist.truthy⟩

/-- The `capture` that `removeEventListener` compares; `none` is the
`TypeError` of reading it off `null`. -/
def normalizeEventHandlerOptions : OptionsArg → Option Value
  | .undefined => some (.boolean false)
  | .boolean b => some (.boolean b)
  | .null => none
  | .primitive _ => some .undefined
  -- As the script gave it: `1` is `true` to `addEventListener` alone.
  | .object capture _ _ _ _ => some capture

/-- `id` is the record's identity. -/
structure Listener where
  id : Nat
  callback : Callee
  options : Options
  deriving DecidableEq

/-! ## Events -/

inductive Phase where
  | none
  | capturing
  | atTarget
  | bubbling
  deriving DecidableEq

/-- The events that scripts make, and the `ErrorEvent` of each report. -/
inductive EventId where
  | made (n : Nat)
  | error (n : Nat)
  deriving DecidableEq

structure Event where
  type : String
  cancelable : Bool
  canceledFlag : Bool
  stopPropagationFlag : Bool
  stopImmediatePropagationFlag : Bool
  inPassiveListener : Bool
  dispatched : Bool
  path : List Target
  eventPhase : Phase
  currentTarget : Option Target
  target : Option Target
  deriving DecidableEq

def Event.new (type : String) (cancelable : Bool) : Event where
  type := type
  cancelable := cancelable
  canceledFlag := false
  stopPropagationFlag := false
  stopImmediatePropagationFlag := false
  inPassiveListener := false
  dispatched := false
  path := []
  eventPhase := .none
  currentTarget := none
  target := none

/-- What a script makes its events of. -/
structure EventInit where
  type : String
  cancelable : Bool

/-! ## The state -/

inductive Status where
  /-- The library is about to visit a listener. -/
  | visiting
  | calling
  /-- The listener threw, and its error is being reported. -/
  | caught
  deriving DecidableEq

/-- A `dispatch` under way: the copy of the listeners and how far it has come. -/
structure Dispatch where
  event : EventId
  target : Target
  handlers : List Listener
  index : Nat
  status : Status
  deriving DecidableEq

/-- How far a `reportException` has come. -/
inductive Report where
  | begun
  | dispatching
  | done (unhandled : Bool)
  deriving DecidableEq

inductive Frame where
  | dispatch (d : Dispatch)
  | report (error : String) (r : Report)
  deriving DecidableEq

structure Realm where
  /-- `target[eventTargetData].listeners[type]`. -/
  listeners : Target → String → Option (List Listener)
  events : EventId → Event
  /-- `target[_eventHandlers]`: a wrapper's handler, once there is a wrapper. -/
  eventHandlers : Target → String → Option (Option Callback)
  /-- The objects whose `handleEvent` is a function now. -/
  handleEvent : Nat → Bool
  reportExceptionStackedCalls : Nat
  /-- Listener records made so far. -/
  records : Nat
  /-- Reports begun so far. -/
  reports : Nat
  stack : List Frame

/-- What an observer sees, in order. -/
inductive Seen where
  | added (t : Target) (type : String) (l : Listener)
  | removed (t : Target) (type : String) (l : Listener)
  | started (e : EventId) (t : Target) (handlers : List Listener)
  | called (e : EventId) (l : Listener)
  /-- The listener's callback has nothing to call. -/
  | inert (e : EventId) (l : Listener)
  | finished (e : EventId) (notCanceled : Bool)
  /-- `dispatchEvent` found no list of listeners. -/
  | unlistened (e : EventId)
  | raised (name : String)
  | thrown (error : String)
  /-- `core.reportUnhandledException`. -/
  | unhandled (error : String)
  /-- An `error` event's listeners took care of it. -/
  | handled (error : String)
  deriving DecidableEq

inductive Act where
  | addEventListener (t : Target) (type : String) (callback : Option Callback) (options : OptionsArg)
  | removeEventListener (t : Target) (type : String) (callback : Option Callback) (options : OptionsArg)
  | dispatchEvent (t : Target) (e : EventId)
  | stopPropagation (e : EventId)
  | stopImmediatePropagation (e : EventId)
  | setCancelBubble (e : EventId) (value : Bool)
  | preventDefault (e : EventId)
  | setReturnValue (e : EventId) (value : Bool)
  /-- Assign the property `on` ++ `name`; `none` is what is no object and no function. -/
  | setHandler (t : Target) (name : String) (value : Option Callback)
  /-- Make an object's `handleEvent` a function, or not. -/
  | setHandleEvent (o : Nat) (value : Bool)
  | reportError (error : String)
  /-- The listener that runs returns. -/
  | ret
  | throw (error : String)
  | next
  /-- V8 terminates execution: no frame gets to its end. -/
  | terminate

namespace Realm

def setEvent (s : Realm) (e : EventId) (f : Event → Event) : Realm :=
  { s with events := Function.update s.events e (f (s.events e)) }

def setListeners (s : Realm) (t : Target) (type : String) (l : List Listener) : Realm :=
  { s with listeners := Function.update s.listeners t (Function.update (s.listeners t) type (some l)) }

/-- `listeners[type] ?? []`. -/
def listenerList (s : Realm) (t : Target) (type : String) : List Listener := (s.listeners t type).getD []

theorem setEvent_events (s : Realm) (e e' : EventId) (f : Event → Event) :
    (s.setEvent e f).events e' = if e' = e then f (s.events e) else s.events e' := by
  show Function.update s.events e (f (s.events e)) e' = _
  rw [Function.update_apply]

@[simp] theorem setEvent_list (s : Realm) (e : EventId) (f : Event → Event) (t : Target) (type : String) :
    (s.setEvent e f).listenerList t type = s.listenerList t type := rfl

theorem setListeners_list (s : Realm) (t t' : Target) (type type' : String) (l : List Listener) :
    (s.setListeners t type l).listenerList t' type' = if t' = t ∧ type' = type then l else s.listenerList t' type' := by
  show (Function.update s.listeners t (Function.update (s.listeners t) type (some l)) t' type').getD [] = _
  by_cases ht : t' = t
  · subst ht
    by_cases hty : type' = type
    · simp [hty]
    · simp [hty, Realm.listenerList]
  · simp [ht, Realm.listenerList]

end Realm

/-! ## Adding and removing -/

/-- Push a new record, with its list. -/
def push (s : Realm) (t : Target) (type : String) (callback : Callee) (options : Options) : Realm × List Seen :=
  let l : Listener := ⟨s.records, callback, options⟩
  ({ s.setListeners t type (s.listenerList t type ++ [l]) with records := s.records + 1 }, [.added t type l])

def addEventListener (s : Realm) (t : Target) (type : String) (callback : Option Callback) (options : OptionsArg) :
    Realm × List Seen :=
  match addEventListenerOptionsConverter options with
  | none => (s, [.raised "TypeError"])
  | some options =>
    match callback with
    | none => (s, [])
    | some callback =>
      if (s.listenerList t type).any fun l => l.options.capture == options.capture && l.callback == .script callback then
        (s, [])
      else push s t type (.script callback) options

def removeEventListener (s : Realm) (t : Target) (type : String) (callback : Option Callback) (options : OptionsArg) :
    Realm × List Seen :=
  match callback, s.listeners t type with
  | none, _ | _, none => (s, [])
  | some callback, some list =>
    match normalizeEventHandlerOptions options with
    -- The loop reads it at the first listener, and not at all of an empty list.
    | none => (s, if list.isEmpty then [] else [.raised "TypeError"])
    | some capture =>
      match list.find? fun l => capture == .boolean l.options.capture && l.callback == .script callback with
      | none => (s, [])
      | some l => (s.setListeners t type (list.erase l), [.removed t type l])

/-- What is neither an object nor a function is treated as null. -/
def handlerValue : Option Callback → Option Callback
  | some (.value _) => none
  | value => value

/-- The setter that `defineEventHandler` defines. -/
def setHandler (s : Realm) (t : Target) (name : String) (value : Option Callback) : Realm × List Seen :=
  let value := handlerValue value
  let set (s : Realm) : Realm :=
    { s with eventHandlers := Function.update s.eventHandlers t (Function.update (s.eventHandlers t) name (some value)) }
  match s.eventHandlers t name, value with
  | some _, _ => (set s, [])
  | none, none => (s, [])
  | none, some _ =>
    let (s, out) := push s t name (.wrapped t name) ⟨false, false, false, false⟩
    (set s, out)

/-- The getter. -/
def getHandler (s : Realm) (t : Target) (name : String) : Option Callback := (s.eventHandlers t name).join

/-! ## Dispatching -/

/-- What calling a callback comes to. -/
inductive Call where
  | script
  | nothing
  | typeError
  deriving DecidableEq

def Realm.call (s : Realm) : Callee → Call
  | .script (.function _) => .script
  | .script (.object o) => if s.handleEvent o then .script else .nothing
  | .script (.value _) => .typeError
  | .wrapped t name =>
    match s.eventHandlers t name with
    | some (some (.function _)) => .script
    | _ => .nothing

/-- What `dispatchEvent` returns, to the report that called it or to a script. -/
def answer (notCanceled : Bool) : List Frame → List Frame
  | .report error .dispatching :: below => .report error (.done notCanceled) :: below
  | below => below

/-- `dispatch` up to its first listener. -/
def dispatch (s : Realm) (t : Target) (e : EventId) (list : List Listener) : Realm × List Seen :=
  -- A stopped event is not shown to any listener.
  let handlers := if (s.events e).stopPropagationFlag then [] else list
  let s := s.setEvent e fun ev =>
    { ev with
      dispatched := true
      path := ev.path ++ [t]
      eventPhase := .atTarget
      target := some t
      currentTarget := if ev.stopPropagationFlag then ev.currentTarget else some t }
  ({ s with stack := .dispatch ⟨e, t, handlers, 0, .visiting⟩ :: s.stack }, [.started e t handlers])

/-- `none` is an `InvalidStateError`. -/
def dispatchEvent (s : Realm) (t : Target) (e : EventId) : Option (Realm × List Seen) :=
  match s.listeners t (s.events e).type with
  | none => some ({ s.setEvent e ({ · with target := some t }) with stack := answer true s.stack }, [.unlistened e])
  | some list =>
    if (s.events e).dispatched || (s.events e).eventPhase != .none then none else some (dispatch s t e list)

/-- The end of a dispatch: the event is as good as new, but for its canceled flag. -/
def finishDispatch (s : Realm) (d : Dispatch) (below : List Frame) : Realm × List Seen :=
  let notCanceled := !(s.events d.event).canceledFlag
  let s := s.setEvent d.event ({ · with
    eventPhase := .none
    currentTarget := none
    path := []
    dispatched := false
    stopPropagationFlag := false
    stopImmediatePropagationFlag := false })
  ({ s with stack := answer notCanceled below }, [.finished d.event notCanceled])

/-- The call is over: `setInPassiveListener(eventImpl, false)`. -/
def settle (s : Realm) (d : Dispatch) (below : List Frame) : Realm :=
  { s.setEvent d.event ({ · with inPassiveListener := false }) with
    stack := .dispatch { d with index := d.index + 1, status := .visiting } :: below }

/-- `reportException`, from its first statement. -/
def reportException (s : Realm) (error : String) : Realm × List Seen :=
  ({ s with
      reportExceptionStackedCalls := s.reportExceptionStackedCalls + 1
      reports := s.reports + 1
      stack := .report error .begun :: s.stack }, [.thrown error])

/-- A listener throws. -/
def caught (s : Realm) (d : Dispatch) (below : List Frame) (error : String) : Realm × List Seen :=
  reportException { s with stack := .dispatch { d with status := .caught } :: below } error

/-- The body of the loop over the copied listeners, up to the call. -/
def visit (s : Realm) (d : Dispatch) (below : List Frame) (l : Listener) : Realm × List Seen :=
  let skip : Realm × List Seen := ({ s with stack := .dispatch { d with index := d.index + 1 } :: below }, [])
  let ev := s.events d.event
  let list := s.listenerList d.target ev.type
  if ev.stopImmediatePropagationFlag && !l.options.resistStopImmediatePropagation then skip
  -- Removed since the listeners were copied.
  else if l ∉ list then skip
  else if (ev.eventPhase == .capturing && !l.options.capture) || (ev.eventPhase == .bubbling && l.options.capture) then skip
  else
    let s := if l.options.once then s.setListeners d.target ev.type (list.erase l) else s
    match s.call l.callback with
    | .nothing => (settle s d below, [.inert d.event l])
    | _ =>
      let s := if l.options.passive then s.setEvent d.event ({ · with inPassiveListener := true }) else s
      ({ s with stack := .dispatch { d with status := .calling } :: below }, [.called d.event l])

/-! ## Reporting -/

/-- What `reportException` does with its event: dispatch it on `globalThis`,
unless it is itself inside such a dispatch. -/
def beginReport (s : Realm) (error : String) (below : List Frame) : Option (Realm × List Seen) :=
  if s.reportExceptionStackedCalls > 1 then some ({ s with stack := .report error (.done true) :: below }, [])
  else dispatchEvent { s with stack := .report error .dispatching :: below } globalThis (.error (s.reports - 1))

def endReport (s : Realm) (error : String) (unhandled : Bool) (below : List Frame) : Realm × List Seen :=
  ({ s with
      reportExceptionStackedCalls := s.reportExceptionStackedCalls - 1
      stack := below }, [if unhandled then .unhandled error else .handled error])

/-- The library goes on, where control is with it. -/
def next (s : Realm) : Option (Realm × List Seen) :=
  match s.stack with
  | [] => none
  | .report error .begun :: below => beginReport s error below
  | .report _ .dispatching :: _ => none
  | .report error (.done unhandled) :: below => some (endReport s error unhandled below)
  | .dispatch d :: below =>
    match d.status, d.handlers[d.index]? with
    | .visiting, none => some (finishDispatch s d below)
    | .visiting, some l => some (visit s d below l)
    | .calling, some ⟨_, .script (.value _), _⟩ => some (caught s d below "TypeError")
    | .calling, _ => none
    | .caught, _ => some (settle s d below, [])

/-- The listener that runs, where one does. -/
def running (s : Realm) : Option (Dispatch × List Frame) :=
  match s.stack with
  | .dispatch d :: below =>
    match d.status, d.handlers[d.index]? with
    | .calling, some ⟨_, .script (.value _), _⟩ => none
    | .calling, _ => some (d, below)
    | _, _ => none
  | _ => none

/-- Control is with the script: no frame, or a listener on top. -/
def scriptRuns (s : Realm) : Bool := s.stack.isEmpty || (running s).isSome

/-- A call of a script. -/
def scriptStep (s : Realm) : Act → Option (Realm × List Seen)
  | .addEventListener t type callback options => some (addEventListener s t type callback options)
  | .removeEventListener t type callback options => some (removeEventListener s t type callback options)
  | .dispatchEvent t e => some ((dispatchEvent s t e).getD (s, [.raised "InvalidStateError"]))
  | .stopPropagation e => some (s.setEvent e ({ · with stopPropagationFlag := true }), [])
  | .stopImmediatePropagation e =>
    some (s.setEvent e ({ · with stopPropagationFlag := true, stopImmediatePropagationFlag := true }), [])
  | .setCancelBubble e value => some (s.setEvent e ({ · with stopPropagationFlag := value }), [])
  | .preventDefault e =>
    some (s.setEvent e fun ev => if ev.cancelable && !ev.inPassiveListener then { ev with canceledFlag := true } else ev, [])
  -- Neither `cancelable` nor the listener's `passive` matters to the setter.
  | .setReturnValue e value =>
    some (s.setEvent e fun ev => if value then ev else { ev with canceledFlag := true }, [])
  | .setHandler t name value => some (setHandler s t name value)
  | .setHandleEvent o value => some ({ s with handleEvent := Function.update s.handleEvent o value }, [])
  | .reportError error => some (reportException s error)
  | .ret => (running s).map fun (d, below) => (settle s d below, [])
  | .throw error => (running s).map fun (d, below) => caught s d below error
  | .next | .terminate => none

def step (s : Realm) (a : Act) : Option (Realm × List Seen) :=
  match a with
  | .next => next s
  | .terminate => some ({ s with stack := [] }, [])
  | a => if scriptRuns s then scriptStep s a else none

def initial (made : Nat → EventInit) : Realm where
  listeners _ _ := none
  events
    | .made n => .new (made n).type (made n).cancelable
    | .error _ => .new "error" true
  eventHandlers _ _ := none
  handleEvent _ := false
  reportExceptionStackedCalls := 0
  records := 0
  reports := 0
  stack := []

/-- A script's events, and all it may do with them. -/
def realm (made : Nat → EventInit) : Machine Realm Act Seen := ⟨initial made, step⟩

end LuauFusion.Events
