import LuauFusion.Progress
import LuauFusion.SideModule
/-!
# The life of a client

`transport/concurrentlyexec.rs` and the start of `denobridge/bridge.rs`: on the
host's side `ConcurrentlyExecuteServer::new`, in the client's process
`ConcurrentlyExecuteTransportClient::run` and `run_v8_client` up to its loop. The two
processes start in any order of their moves, the host may send while the module is
still being loaded, the script may import more, and the client may be killed at any
time.

Whatever happens, a life is a run of the loop (`lifetime_bridge`), so what holds of
those holds from the first message on.
-/
open LuauFusion.Lib LuauFusion.Lib.Url

namespace LuauFusion

/-- What the two processes are given; `callbackSet` if the client's called
`set_concurrently_execute_callback`. -/
structure Setup extends Modules where
  env : Env
  displayParseError : ParseError → String
  moduleName : String
  callbackSet : Bool

/-- How far `ConcurrentlyExecuteServer::new` is. -/
inductive Server where
  | creating
  | receivingMessenger
  | made
  | failed (e : Error)

/-- How far `run` is. -/
inductive Client where
  | launched
  | messengerSent
  /-- In `load_side_es_module`. -/
  | loading (l : Search Request)
  /-- In `run_v8_client`'s loop, or past it. -/
  | looping
  | cancelled
  | panicked (message : String)
  | killed

structure Life where
  server : Server
  client : Client
  /-- The oneshot channel holds the messenger. -/
  messenger : Bool
  sys : Sys

inductive LifeAct (J : Type) where
  /-- `ConcurrentExecutor::new` is ready. -/
  | created (r : Except Error Unit)
  /-- `ms_rx.recv()` is ready. -/
  | receiveMessenger (fault : Option Error)
  | sendMessenger (fault : Option Error)
  | start
  /-- The loader is asked for the `i`th module that is pending. -/
  | load (i : Nat)
  /-- Nothing is pending. -/
  | link
  | cancelled
  | kill
  /-- A dynamic import, of the script or of what it imports. -/
  | importModule (specifier referrer : String) (requested : RequestedModuleType)
  | bridge (a : Action J)

inductive LifeEvent where
  | serverMade
  | serverFailed (e : Error)
  | panicked (message : String)
  /-- The client is in its loop. -/
  | entered
  | bridge (e : Event)

namespace Sys

/-- The first iteration's futures are made. -/
def enterLoop (s : Sys) : Sys :=
  { s with
    clientRx := { s.clientRx with
      calls := Function.update s.clientRx.calls 0 (some ConcurrentlyExecuteClient.receiveFromHost) } }

end Sys

namespace Client

/-- The process is there, in `run`. -/
def isLive : Client → Bool
  | launched | messengerSent | loading _ | looping => true
  | cancelled | panicked _ | killed => false

/-- Nothing of its loop has begun. -/
def isBefore : Client → Bool
  | launched | messengerSent | loading _ => true
  | looping | cancelled | panicked _ | killed => false

end Client

namespace Life

def panic (s : Life) (message : String) : Life × List LifeEvent :=
  ({ s with client := .panicked message }, [.panicked message])

def serverFails (s : Life) (e : Error) : Life × List LifeEvent := ({ s with server := .failed e }, [.serverFailed e])

/-- `new`, after its executor. What a failed one's receiver is sent, nobody sees. -/
def receiveMessenger (s : Life) : Option Error → Option (Life × List LifeEvent)
  | some e => some (s.serverFails ("Failed to receive messenger: " ++ e))
  | none => if s.messenger then some ({ s with server := .made }, [.serverMade]) else none

/-- `run` from its callback to the loading of the module. -/
def start (C : Setup) (s : Life) : Life × List LifeEvent :=
  if !C.callbackSet then s.panic "Concurrently execute callback not set"
  else
    match Url.parse C.hosts ("file:///" ++ C.moduleName).toList with
    | .ok url => ({ s with client := .loading (.start ⟨url, .none⟩) }, [])
    | .error e => s.panic ("Failed to parse module name as URL: " ++ C.displayParseError e)

def failToLoad (C : Setup) (s : Life) (e : LoadError) : Life × List LifeEvent :=
  s.panic ("Failed to load module: " ++ C.displayLoadError e)

/-- The panic of the loader's `unwrap`. -/
def unwrapNone (s : Life) : Life × List LifeEvent := s.panic "called `Option::unwrap()` on a `None` value"

/-- One module of `load_side_es_module`. -/
def load (C : Setup) (s : Life) (l : Search Request) (i : Nat) : Option (Life × List LifeEvent) :=
  match l.pending[i]? with
  | none => none
  | some r =>
    match C.load r with
    | none => some s.unwrapNone
    | some (.error e) => some (s.failToLoad C (.loader e))
    | some (.ok src) =>
      match C.requests r src with
      | .error e => some (s.failToLoad C e)
      | .ok rs => some ({ s with client := .loading (l.answer i rs) }, [])

/-- The end of `load_side_es_module`. -/
def link (C : Setup) (s : Life) (l : Search Request) : Option (Life × List LifeEvent) :=
  match l.pending, C.link with
  | [], .ok () => some ({ s with client := .looping, sys := s.sys.enterLoop }, [.entered])
  | [], .error e => some (s.failToLoad C (.link e))
  | _ :: _, _ => none

/-- A promise that is rejected is the script's affair. -/
def importModule (C : Setup) (s : Life) (specifier referrer : String) (requested : RequestedModuleType) :
    Life × List LifeEvent :=
  match FusionModuleLoader.resolve C.hosts specifier referrer with
  | .error _ => (s, [])
  | .ok url =>
    match C.load ⟨url, requested⟩ with
    | none => s.unwrapNone
    | some _ => (s, [])

/-- The host moves once it has its server, the script and the loop once the loop runs.
While the module loads, the heap may run out. -/
def allows (s : Life) {J : Type} (a : Action J) : Bool :=
  match a, s.server, s.client with
  | .host _, .made, _ => true
  | .js .exhaustHeap, _, .loading _ => true
  | .js _, _, .looping => true
  | .loop _, _, .looping => true
  | _, _, _ => false

/-- A move of the bridge. -/
def bridge (E : Env) (s : Life) (a : Action E.v8.JsString) : Option (Life × List LifeEvent) :=
  if s.allows a then (LuauFusion.step E s.sys a).map fun (sys, out) => ({ s with sys := sys }, out.map .bridge) else none

end Life

namespace Life

def step (C : Setup) (s : Life) : LifeAct C.env.v8.JsString → Option (Life × List LifeEvent)
  | .created r =>
    match s.server, r with
    | .creating, .ok () => some ({ s with server := .receivingMessenger }, [])
    | .creating, .error e => some (s.serverFails ("Failed to create V8 isolate manager executor: " ++ e))
    | _, _ => none
  | .receiveMessenger fault =>
    match s.server with
    | .receivingMessenger => s.receiveMessenger fault
    | _ => none
  | .sendMessenger fault =>
    match s.client, fault with
    | .launched, none => some ({ s with client := .messengerSent, messenger := true }, [])
    | .launched, some e => some (s.panic ("called `Result::unwrap()` on an `Err` value: " ++ e))
    | _, _ => none
  | .start =>
    match s.client with
    | .messengerSent => some (s.start C)
    | _ => none
  | .load i =>
    match s.client with
    | .loading l => s.load C l i
    | _ => none
  | .link =>
    match s.client with
    | .loading l => s.link C l
    | _ => none
  | .cancelled =>
    match s.client with
    | .loading _ =>
      if s.sys.cancelled then
        some ({ s with client := .cancelled, sys := s.sys.leave .cancelled }, [.bridge (.exited .cancelled)])
      else none
    | _ => none
  | .kill => if s.client.isLive then some ({ s with client := .killed }, []) else none
  | .importModule specifier referrer requested =>
    match s.client with
    | .looping => if s.sys.exit.isNone then some (s.importModule C specifier referrer requested) else none
    | _ => none
  | .bridge a => s.bridge C.env a

def initial : Life := ⟨.creating, .launched, false, { LuauFusion.initial with clientRx := .new }⟩

end Life

def lifetime (C : Setup) : Machine Life (LifeAct C.env.v8.JsString) LifeEvent := ⟨.initial, Life.step C⟩

/-! ## What a step can do -/

namespace Life

/-- The search for the module and what it imports is under way as it should be. -/
def Asked (C : Setup) (s : Life) : Prop :=
  ∀ l, s.client = .loading l → C.callbackSet = true ∧
    ∃ url, mainModule C.hosts C.moduleName = some url ∧ l.Sound ⟨url, .none⟩ C.succ

/-- The acts that are panics, and what they say. -/
inductive Cause (C : Setup) (s : Life) : LifeAct C.env.v8.JsString → String → Prop
  | messenger {e} : s.client = .launched →
      Cause C s (.sendMessenger (some e)) ("called `Result::unwrap()` on an `Err` value: " ++ e)
  | callback : s.client = .messengerSent → C.callbackSet = false → Cause C s .start "Concurrently execute callback not set"
  | failed {l i r e} : s.client = .loading l → l.pending[i]? = some r → C.Fails r e →
      Cause C s (.load i) ("Failed to load module: " ++ C.displayLoadError e)
  | unlinked {l e} : s.client = .loading l → l.pending = [] → C.link = .error e →
      Cause C s .link ("Failed to load module: " ++ C.displayLoadError (.link e))
  /-- An import of the module, or of what it imports. -/
  | unwrapped {l i r specifier referrer} : s.client = .loading l → l.pending[i]? = some r →
      FusionModuleLoader.resolve C.hosts specifier referrer = .ok r.url → Unsegmented specifier referrer →
      Cause C s (.load i) "called `Option::unwrap()` on a `None` value"
  | imported {url specifier referrer requested} : s.client = .looping → s.sys.exit = none →
      FusionModuleLoader.resolve C.hosts specifier referrer = .ok url → Unsegmented specifier referrer →
      Cause C s (.importModule specifier referrer requested) "called `Option::unwrap()` on a `None` value"

inductive Effect (C : Setup) (s : Life) : LifeAct C.env.v8.JsString → Life → List LifeEvent → Prop
  | created : s.server = .creating → Effect C s (.created (.ok ())) { s with server := .receivingMessenger } []
  | made : s.server = .receivingMessenger → s.messenger = true →
      Effect C s (.receiveMessenger none) { s with server := .made } [.serverMade]
  | serverFailed {a e e'} : s.server = .creating ∧ a = .created (.error e') ∨
      s.server = .receivingMessenger ∧ a = .receiveMessenger (some e') →
      Effect C s a { s with server := .failed e } [.serverFailed e]
  | messengerSent : s.client = .launched →
      Effect C s (.sendMessenger none) { s with client := .messengerSent, messenger := true } []
  | panicked {a m} : Cause C s a m → Effect C s a { s with client := .panicked m } [.panicked m]
  | started {url} : s.client = .messengerSent → C.callbackSet = true → mainModule C.hosts C.moduleName = some url →
      Effect C s .start { s with client := .loading (.start ⟨url, .none⟩) } []
  | loaded {l i r rs} : s.client = .loading l → l.pending[i]? = some r → C.succ r = some rs →
      Effect C s (.load i) { s with client := .loading (l.answer i rs) } []
  | linked {l} : s.client = .loading l → l.pending = [] → C.link = .ok () →
      Effect C s .link { s with client := .looping, sys := s.sys.enterLoop } [.entered]
  | cancelled {l} : s.client = .loading l → s.sys.cancelled = true →
      Effect C s .cancelled { s with client := .cancelled, sys := s.sys.leave .cancelled } [.bridge (.exited .cancelled)]
  | killed : s.client.isLive = true → Effect C s .kill { s with client := .killed } []
  | imported {specifier referrer requested} : s.client = .looping →
      Effect C s (.importModule specifier referrer requested) s []
  | host {a sys out} : s.server = .made → hostStep C.env s.sys a = some (sys, out) →
      Effect C s (.bridge (.host a)) { s with sys := sys } (out.map .bridge)
  | exhaustHeap {l} : s.client = .loading l → s.sys.exit = none →
      Effect C s (.bridge (.js .exhaustHeap)) { s with sys := { s.sys with cancelled := true } } []
  | looping {a sys out} : s.client = .looping → (∀ b, a ≠ .host b) → LuauFusion.step C.env s.sys a = some (sys, out) →
      Effect C s (.bridge a) { s with sys := sys } (out.map .bridge)

theorem start_effect {C : Setup} {s s' : Life} {out : List LifeEvent} (hc : s.client = .messengerSent)
    (h : s.start C = (s', out)) : Effect C s .start s' out := by
  obtain ⟨url, -, hparse, hurl, -⟩ := mainModule_ok C.hosts C.moduleName
  unfold start at h
  cases hcb : C.callbackSet with
  | false =>
    rw [hcb] at h
    cases h
    exact .panicked (.callback hc hcb)
  | true =>
    simp only [hcb, hparse, Bool.not_true, Bool.false_eq_true, if_false] at h
    cases h
    exact .started hc hcb hurl

/-- What the loader panics for is an import: the main module's URL has segments. -/
theorem load_effect {C : Setup} {s s' : Life} {l : Search Request} {i : Nat} {out : List LifeEvent}
    (hc : s.client = .loading l) (ha : s.Asked C) (h : s.load C l i = some (s', out)) : Effect C s (.load i) s' out := by
  unfold load at h
  split at h
  · cases h
  · next r hi =>
    split at h
    · next hnone =>
      cases h
      have hsegments : r.url.pathSegments = none := ((vfsLoader C.vfs).load_none_iff _ _).1 hnone
      obtain ⟨-, url, hurl, hsound⟩ := ha l hc
      rcases Modules.reached_resolves (hsound.reached r (hsound.subset (List.mem_of_getElem? hi))) with rfl | ⟨_, _, he⟩
      · obtain ⟨url', k, -, hurl', hk⟩ := mainModule_ok C.hosts C.moduleName
        obtain rfl := Option.some.inj (hurl.symm.trans hurl')
        rw [FusionModuleLoader.key, hsegments] at hk
        cases hk
      · exact .panicked (.unwrapped hc hi he ((resolve_none_iff he).1 hsegments))
    · next e he =>
      cases h
      exact .panicked (.failed hc hi (.inl ⟨e, he, rfl⟩))
    · next src hsrc =>
      split at h
      · next e he =>
        cases h
        exact .panicked (.failed hc hi (.inr ⟨src, hsrc, he⟩))
      · next rs hrs =>
        cases h
        exact .loaded hc hi (Modules.succ_eq hsrc hrs)

theorem link_effect {C : Setup} {s s' : Life} {l : Search Request} {out : List LifeEvent} (hc : s.client = .loading l)
    (h : s.link C l = some (s', out)) : Effect C s .link s' out := by
  unfold link at h
  split at h
  · next hp hl => cases h; exact .linked hc hp hl
  · next hp hl => cases h; exact .panicked (.unlinked hc hp hl)
  · cases h

theorem importModule_effect {C : Setup} {s s' : Life} {specifier referrer : String} {requested : RequestedModuleType}
    {out : List LifeEvent} (hc : s.client = .looping) (hx : s.sys.exit = none)
    (h : s.importModule C specifier referrer requested = (s', out)) :
    Effect C s (.importModule specifier referrer requested) s' out := by
  unfold importModule at h
  split at h
  · cases h; exact .imported hc
  · next url hurl =>
    split at h
    · next hnone =>
      cases h
      exact .panicked (.imported hc hx hurl ((resolve_none_iff hurl).1 (((vfsLoader C.vfs).load_none_iff _ _).1 hnone)))
    · cases h; exact .imported hc

theorem bridge_effect {C : Setup} {s s' : Life} {a : Action C.env.v8.JsString} {out : List LifeEvent}
    (h : s.bridge C.env a = some (s', out)) : Effect C s (.bridge a) s' out := by
  unfold bridge at h
  split at h
  · next hallowed =>
    obtain ⟨⟨sys, out⟩, hstep, he⟩ := Option.map_eq_some_iff.1 h
    cases he
    unfold allows at hallowed
    split at hallowed
    · next hs => exact .host hs hstep
    · next hc =>
      simp only [LuauFusion.step] at hstep
      split at hstep
      · next hx =>
        cases hstep
        exact .exhaustHeap hc (Option.isNone_iff_eq_none.1 hx)
      · cases hstep
    · next hc => exact .looping hc (fun _ h => by cases h) hstep
    · next hc => exact .looping hc (fun _ h => by cases h) hstep
    · cases hallowed
  · cases h

theorem step_effect {C : Setup} {s s' : Life} {a : LifeAct C.env.v8.JsString} {out : List LifeEvent} (ha : s.Asked C)
    (h : step C s a = some (s', out)) : Effect C s a s' out := by
  cases a with
  | created r =>
    simp only [step] at h
    split at h
    · next hs => cases h; exact .created hs
    · next hs => cases h; exact .serverFailed (.inl ⟨hs, rfl⟩)
    · cases h
  | receiveMessenger fault =>
    simp only [step] at h
    split at h
    · next hs =>
      cases fault with
      | some e => cases h; exact .serverFailed (.inr ⟨hs, rfl⟩)
      | none =>
        simp only [receiveMessenger] at h
        split at h
        · next hm => cases h; exact .made hs hm
        · cases h
    · cases h
  | sendMessenger fault =>
    simp only [step] at h
    split at h
    · next hc => cases h; exact .messengerSent hc
    · next hc => cases h; exact .panicked (.messenger hc)
    · cases h
  | start =>
    simp only [step] at h
    split at h
    · next hc => exact start_effect hc (Option.some.inj h)
    · cases h
  | load i =>
    simp only [step] at h
    split at h
    · next hc => exact load_effect hc ha h
    · cases h
  | link =>
    simp only [step] at h
    split at h
    · next hc => exact link_effect hc h
    · cases h
  | cancelled =>
    simp only [step] at h
    split at h
    · next hc =>
      split at h
      · next hcancelled => cases h; exact .cancelled hc hcancelled
      · cases h
    · cases h
  | kill =>
    simp only [step] at h
    split at h
    · next hl => cases h; exact .killed hl
    · cases h
  | importModule specifier referrer requested =>
    simp only [step, Option.isNone_iff_eq_none] at h
    split at h
    · next hc =>
      split at h
      · next hx => exact importModule_effect hc hx (Option.some.inj h)
      · cases h
    · cases h
  | bridge a => exact bridge_effect h

theorem effect_asked {C : Setup} {s s' : Life} {a : LifeAct C.env.v8.JsString} {out : List LifeEvent} (ha : s.Asked C)
    (h : Effect C s a s' out) : s'.Asked C := by
  cases h with
  | started _ hcb hurl =>
    rintro l ⟨⟩
    exact ⟨hcb, _, hurl, Search.sound_start⟩
  | loaded hc hi hs =>
    rintro l' ⟨⟩
    obtain ⟨hcb, url, hurl, hsound⟩ := ha _ hc
    exact ⟨hcb, url, hurl, hsound.answer hi hs⟩
  | messengerSent | panicked | linked | cancelled | killed => exact fun l hc => by cases hc
  | _ => exact ha

theorem run_asked {C : Setup} {as es s} (h : Run (lifetime C) as es s) : s.Asked C := by
  refine h.inv (fun _ _ s => s.Asked C) (fun _ h => by cases h) ?_
  intro as es s a s' out _ ih ht
  exact effect_asked ih (step_effect ih ht)

theorem run_effect {C : Setup} {as es s} (h : Run (lifetime C) as es s) {a s' out}
    (ht : (lifetime C).step s a = some (s', out)) : Effect C s a s' out :=
  step_effect (run_asked h) ht

/-! ## A life is a run of the loop -/

/-- Nothing but the host's moves and the heap running out has happened. -/
structure Unentered (s : Sys) : Prop where
  calls : s.clientRx.calls = fun _ => none
  mutex : s.clientRx.mutex = .free
  iteration : s.iteration = 0
  exit : s.exit = none

/-- The state of a life beside the state of the loop that it is a run of. -/
inductive Stands (s : Life) : Sys → Prop
  | entered : s.client.isBefore = false → Stands s s.sys
  | unentered : s.client ≠ .looping → Unentered s.sys → Stands s s.sys.enterLoop

end Life

/-- The move of the bridge that an act is; the return of a client that was loading is
the loop's. -/
def LifeAct.action {J : Type} : LifeAct J → Option (Action J)
  | .cancelled => some (.loop .cancelled)
  | .bridge a => some a
  | _ => none

def LifeEvent.event : LifeEvent → Option Event
  | .bridge e => some e
  | _ => none

theorem filterMap_event (out : List Event) : (out.map LifeEvent.bridge).filterMap LifeEvent.event = out := by
  rw [List.filterMap_map]
  exact List.filterMap_some

namespace Life

theorem Unentered.hostStep {E : Env} {s s' : Sys} {a : HostAct} {out : List Event} (hu : Unentered s)
    (h : hostStep E s a = some (s', out)) :
    Unentered s' ∧ LuauFusion.hostStep E s.enterLoop a = some (s'.enterLoop, out) := by
  cases a with
  | sendtext v fault =>
    simp only [LuauFusion.hostStep] at h ⊢
    rw [show s.enterLoop.clientRx.chan = s.clientRx.chan from rfl]
    split at h <;> cases h
    · exact ⟨⟨hu.calls, hu.mutex, hu.iteration, hu.exit⟩, rfl⟩
    · exact ⟨hu, rfl⟩
  | sendbinary v fault =>
    simp only [LuauFusion.hostStep] at h ⊢
    rw [show s.enterLoop.clientRx.chan = s.clientRx.chan from rfl]
    split at h <;> cases h
    · exact ⟨⟨hu.calls, hu.mutex, hu.iteration, hu.exit⟩, rfl⟩
    · exact ⟨hu, rfl⟩
  | receive a fault =>
    simp only [LuauFusion.hostStep] at h ⊢
    rw [show s.enterLoop.hostRx = s.hostRx from rfl]
    obtain ⟨⟨rx, o⟩, hact, he⟩ := Option.map_eq_some_iff.1 h
    cases he
    exact ⟨⟨hu.calls, hu.mutex, hu.iteration, hu.exit⟩, by rw [hact]; rfl⟩

/-- A client that returns before its loop leaves what one that returns from its first
iteration leaves. -/
theorem Unentered.leave {s : Sys} (hu : Unentered s) (why : Exit) : s.leave why = s.enterLoop.leave why := by
  have hcalls : s.clientRx.calls = fun _ => none := hu.calls
  obtain ⟨hostRx, ⟨mutex, chan, calls⟩, msgRx, textRx, binaryRx, iteration, evaluation, cancelled, exit⟩ := s
  have hiteration : iteration = 0 := hu.iteration
  subst hiteration hcalls
  simp only [Sys.leave, Sys.enterLoop, Receiver.finish, Function.update_idem]

/-- A panic is no move of the bridge. -/
theorem Cause.action {C : Setup} {s : Life} {a : LifeAct C.env.v8.JsString} {m : String} (h : Cause C s a m) :
    a.action = none := by
  cases h <;> rfl

theorem Stands.before {s : Life} {t : Sys} (hs : Stands s t) (hb : s.client.isBefore = true) :
    Unentered s.sys ∧ t = s.sys.enterLoop := by
  cases hs with
  | entered h => rw [hb] at h; cases h
  | unentered _ hu => exact ⟨hu, rfl⟩

theorem Stands.looping {s : Life} {t : Sys} (hs : Stands s t) (hl : s.client = .looping) : t = s.sys := by
  cases hs with
  | entered => rfl
  | unentered h => exact absurd hl h

theorem stands_step {C : Setup} {s s' : Life} {t : Sys} {a : LifeAct C.env.v8.JsString} {out : List LifeEvent}
    (hs : Stands s t) (h : Effect C s a s' out) :
    (a.action = none ∧ out.filterMap LifeEvent.event = [] ∧ Stands s' t) ∨
      ∃ b t', a.action = some b ∧ (runV8Client C.env).step t b = some (t', out.filterMap LifeEvent.event) ∧ Stands s' t' := by
  cases h with
  | created | made =>
    refine .inl ⟨rfl, rfl, ?_⟩
    cases hs with
    | entered hb => exact .entered hb
    | unentered hl hu => exact .unentered hl hu
  | serverFailed ha =>
    refine .inl ⟨?_, rfl, ?_⟩
    · rcases ha with ⟨-, rfl⟩ | ⟨-, rfl⟩ <;> rfl
    · cases hs with
      | entered hb => exact .entered hb
      | unentered hl hu => exact .unentered hl hu
  | messengerSent hc | started hc =>
    obtain ⟨hu, rfl⟩ := hs.before (by rw [hc]; rfl)
    exact .inl ⟨rfl, rfl, .unentered (by simp) hu⟩
  | panicked hm =>
    refine .inl ⟨hm.action, rfl, ?_⟩
    cases hs with
    | entered => exact .entered rfl
    | unentered _ hu => exact .unentered (by simp) hu
  | loaded hc =>
    obtain ⟨hu, rfl⟩ := hs.before (by rw [hc]; rfl)
    exact .inl ⟨rfl, rfl, .unentered (by simp) hu⟩
  | linked hc =>
    obtain ⟨-, rfl⟩ := hs.before (by rw [hc]; rfl)
    exact .inl ⟨rfl, rfl, .entered rfl⟩
  | killed =>
    refine .inl ⟨rfl, rfl, ?_⟩
    cases hs with
    | entered => exact .entered rfl
    | unentered _ hu => exact .unentered (by simp) hu
  | imported => exact .inl ⟨rfl, rfl, hs⟩
  | cancelled hc hcancelled =>
    obtain ⟨hu, rfl⟩ := hs.before (by rw [hc]; rfl)
    refine .inr ⟨_, s.sys.enterLoop.leave .cancelled, rfl, ?_, ?_⟩
    · show (if s.sys.exit.isNone then loopStep s.sys.enterLoop .cancelled else none) = _
      rw [hu.exit, Option.isNone_none, if_pos rfl]
      show (if s.sys.cancelled then _ else none) = _
      rw [hcancelled, if_pos rfl]
      rfl
    · rw [← hu.leave]
      exact .entered rfl
  | host _ hstep =>
    rw [filterMap_event]
    cases hs with
    | entered hb => exact .inr ⟨_, _, rfl, hstep, .entered hb⟩
    | unentered hl hu =>
      obtain ⟨hu', hstep'⟩ := hu.hostStep hstep
      exact .inr ⟨_, _, rfl, hstep', .unentered hl hu'⟩
  | exhaustHeap hc hx =>
    obtain ⟨hu, rfl⟩ := hs.before (by rw [hc]; rfl)
    refine .inr ⟨_, { s.sys.enterLoop with cancelled := true }, rfl, ?_, ?_⟩
    · show (if s.sys.exit.isNone then jsStep C.env s.sys.enterLoop .exhaustHeap else none) = _
      rw [hx]
      rfl
    · exact .unentered (show s.client ≠ .looping by rw [hc]; nofun) ⟨hu.calls, hu.mutex, hu.iteration, hu.exit⟩
  | looping hc _ hstep =>
    obtain rfl := hs.looping hc
    rw [filterMap_event]
    exact .inr ⟨_, _, rfl, hstep, .entered (show s.client.isBefore = false by rw [hc]; rfl)⟩

theorem initial_stands : Stands initial LuauFusion.initial := .unentered nofun ⟨rfl, rfl, rfl, rfl⟩

theorem run_stands {C : Setup} {as es s} (h : Run (lifetime C) as es s) :
    ∃ t, Run (runV8Client C.env) (as.filterMap LifeAct.action) (es.filterMap LifeEvent.event) t ∧ Stands s t := by
  have hboth := h.project (N := runV8Client C.env) LifeAct.action LifeEvent.event (fun s t => s.Asked C ∧ Stands s t)
    ⟨nofun, initial_stands⟩ (by
      rintro s t a s' out ⟨ha, hs⟩ ht
      have heffect := step_effect ha ht
      have ha' := effect_asked ha heffect
      rcases stands_step hs heffect with ⟨hf, hg, hs'⟩ | ⟨b, t', hb, ht', hs'⟩
      · exact .inl ⟨hf, hg, ha', hs'⟩
      · exact .inr ⟨b, t', hb, ht', ha', hs'⟩)
  obtain ⟨t, hr, -, hs⟩ := hboth
  exact ⟨t, hr, hs⟩

end Life

end LuauFusion
