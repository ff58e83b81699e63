import LuauFusion.Lifetime
/-!
# Starting up

Where a client can start, the processes' remaining moves bring it into its loop, from
every state in which neither has failed (`readies`). So the runs of the loop are all
that lives come to (`lifetime_bridge`), and what is sent while the module loads is
received (`startup_drains`). How a client ends instead, and that its script then never
ran, is `client_ends`.
-/
open LuauFusion.Lib LuauFusion.Lib.Url

namespace LuauFusion

/-- The callback is set, and `load_side_es_module` succeeds. -/
def Setup.Starts (C : Setup) : Prop :=
  C.callbackSet = true ∧ ∃ url, mainModule C.hosts C.moduleName = some url ∧ C.Loads url

namespace Life

theorem Stands.exit {s : Life} {t : Sys} (hs : Stands s t) : t.exit = s.sys.exit := by cases hs <;> rfl

/-- Moves of the processes alone, which the bridge does not see, lead to `s'`. -/
def Readies (C : Setup) (s s' : Life) : Prop :=
  ∃ bs es, (∀ b ∈ bs, b.action = none) ∧ (lifetime C).runFrom s bs = some (es, s') ∧ es.filterMap LifeEvent.event = []

variable {C : Setup} {s s' s'' : Life}

theorem Readies.refl (s : Life) : Readies C s s := ⟨[], [], by simp, rfl, rfl⟩

theorem Readies.trans (h : Readies C s s') (h' : Readies C s' s'') : Readies C s s'' := by
  obtain ⟨bs, es, hb, hf, he⟩ := h
  obtain ⟨bs', es', hb', hf', he'⟩ := h'
  refine ⟨bs ++ bs', es ++ es', List.forall_mem_append.2 ⟨hb, hb'⟩, Machine.runFrom_append hf hf', ?_⟩
  rw [List.filterMap_append, he, he']
  rfl

theorem Readies.step (a : LifeAct C.env.v8.JsString) (out : List LifeEvent) (h : Life.step C s a = some (s', out))
    (ha : a.action = none) (hout : out.filterMap LifeEvent.event = []) : Readies C s s' :=
  ⟨[a], out, List.forall_mem_singleton.2 ha, Machine.runFrom_one h, hout⟩

/-- The messenger is sent before anything else. -/
def Sent (s : Life) : Prop := s.client.isLive = true → s.client ≠ .launched → s.messenger = true

theorem run_sent {as es} (h : Run (lifetime C) as es s) : s.Sent := by
  refine h.inv (fun _ _ s => s.Sent) (fun _ h => absurd rfl h) ?_
  intro as es s a s' out hr ih ht
  cases run_effect hr ht with
  | messengerSent => exact fun _ _ => rfl
  | panicked | cancelled | killed => exact fun h => by cases h
  | started hc | loaded hc | linked hc => exact fun _ _ => ih (by rw [hc]; rfl) (by rw [hc]; nofun)
  | _ => exact ih

/-- A module that loads is loaded, one import after another. -/
theorem readies_loading {url : Url} (hloads : C.Loads url) {l : Search Request} (hsound : l.Sound ⟨url, .none⟩ C.succ) :
    ∀ s : Life, s.client = .loading l → ∃ s', Readies C s s' ∧ s'.client = .looping ∧ s'.server = s.server := by
  obtain ⟨hlink, mods, hclosed⟩ := hloads
  refine hsound.finishes hclosed (P := fun l => ∀ s : Life, s.client = .loading l →
    ∃ s', Readies C s s' ∧ s'.client = .looping ∧ s'.server = s.server) ?_ ?_ l
  · intro l _ hp s hc
    refine ⟨{ s with client := .looping, sys := s.sys.enterLoop }, .step .link [.entered] ?_ rfl rfl, rfl, rfl⟩
    simp only [Life.step, hc, link, hp, hlink]
  · intro l r rs _ h0 hs ih s hc
    obtain ⟨src, hload, hrequests⟩ := Modules.succ_some hs
    obtain ⟨s', hr, hc', hs'⟩ := ih { s with client := .loading (l.answer 0 rs) } rfl
    refine ⟨s', .trans (.step (.load 0) [] ?_ rfl rfl) hr, hc', hs'⟩
    simp only [Life.step, hc, load, h0, hload, hrequests]

/-- The client gets into its loop. -/
theorem readies_client (hstarts : C.Starts) (ha : s.Asked C) (hb : s.client.isBefore = true) :
    ∃ s', Readies C s s' ∧ s'.client = .looping ∧ s'.server = s.server := by
  obtain ⟨hcb, url, hurl, hloads⟩ := hstarts
  have hmessenger : ∀ {s : Life}, s.client = .messengerSent →
      ∃ s', Readies C s s' ∧ s'.client = .looping ∧ s'.server = s.server := by
    intro s hc
    obtain ⟨s', hr, hc', hs'⟩ :=
      readies_loading hloads Search.sound_start { s with client := .loading (.start ⟨url, .none⟩) } rfl
    refine ⟨s', .trans (.step .start [] ?_ rfl rfl) hr, hc', hs'⟩
    obtain ⟨url', -, hparse, hurl', -⟩ := mainModule_ok C.hosts C.moduleName
    obtain rfl : url' = url := Option.some.inj (hurl'.symm.trans hurl)
    simp only [Life.step, hc, start, hcb, hparse]
    rfl
  cases hc : s.client with
  | launched =>
    obtain ⟨s', hr, hc', hs'⟩ := hmessenger (s := { s with client := .messengerSent, messenger := true }) rfl
    exact ⟨s', .trans (.step (.sendMessenger none) [] (by simp only [Life.step, hc]) rfl rfl) hr, hc', hs'⟩
  | messengerSent => exact hmessenger hc
  | loading l =>
    obtain ⟨-, url', hurl', hsound⟩ := ha l hc
    obtain rfl : url = url' := Option.some.inj (hurl.symm.trans hurl')
    exact readies_loading hloads hsound s hc
  | looping | cancelled | panicked | killed =>
    rw [hc] at hb
    cases hb

/-- The host gets its server. -/
theorem readies_server (hm : s.messenger = true) (hs : ∀ e, s.server ≠ .failed e) :
    ∃ s', Readies C s s' ∧ s'.client = s.client ∧ s'.server = .made := by
  have hreceiving : ∀ {s : Life}, s.messenger = true → s.server = .receivingMessenger →
      ∃ s', Readies C s s' ∧ s'.client = s.client ∧ s'.server = .made := by
    intro s hm hs
    refine ⟨{ s with server := .made }, .step (.receiveMessenger none) [.serverMade] ?_ rfl rfl, rfl, rfl⟩
    simp only [Life.step, hs, receiveMessenger, hm, if_true]
  cases hserver : s.server with
  | creating =>
    obtain ⟨s', hr, hc', hs'⟩ := hreceiving (s := { s with server := .receivingMessenger }) hm rfl
    exact ⟨s', .trans (.step (.created (.ok ())) [] (by simp only [Life.step, hserver]) rfl rfl) hr, hc', hs'⟩
  | receivingMessenger => exact hreceiving hm hserver
  | made => exact ⟨s, .refl s, rfl, hserver⟩
  | failed e => exact absurd hserver (hs e)

/-- The two processes get where the bridge works. -/
theorem readies (hstarts : C.Starts) {as es} (h : Run (lifetime C) as es s) (hserver : ∀ e, s.server ≠ .failed e)
    (hlive : s.client.isLive = true) : ∃ s', Readies C s s' ∧ s'.client = .looping ∧ s'.server = .made := by
  obtain ⟨s₁, hr₁, hc₁, hs₁⟩ : ∃ s', Readies C s s' ∧ s'.client = .looping ∧ s'.server = s.server := by
    cases hc : s.client with
    | launched | messengerSent | loading => exact readies_client hstarts (run_asked h) (by rw [hc]; rfl)
    | looping => exact ⟨s, .refl s, hc, rfl⟩
    | cancelled | panicked | killed => rw [hc] at hlive; cases hlive
  have hm : s₁.messenger = true := by
    obtain ⟨bs, es', -, hf, -⟩ := hr₁
    exact run_sent (h.append hf) (by rw [hc₁]; rfl) (by rw [hc₁]; nofun)
  obtain ⟨s₂, hr₂, hc₂, hs₂⟩ := readies_server hm (by rwa [hs₁])
  exact ⟨s₂, hr₁.trans hr₂, hc₂.trans hc₁, hs₂⟩

/-- There every move of the bridge is one of the life. -/
theorem bridge_runs (hc : s.client = .looping) (hs : s.server = .made) {bs : List (Action C.env.v8.JsString)}
    {es : List Event} {t : Sys} (hf : (runV8Client C.env).runFrom s.sys bs = some (es, t)) :
    (lifetime C).runFrom s (bs.map .bridge) = some (es.map .bridge, { s with sys := t }) := by
  induction bs generalizing s es with
  | nil =>
    simp only [Machine.runFrom, Option.some.injEq, Prod.mk.injEq] at hf
    obtain ⟨rfl, rfl⟩ := hf
    rfl
  | cons b bs ih =>
    obtain ⟨t₁, out, es', ht, hrest, rfl⟩ := Machine.runFrom_cons.1 hf
    have hallows : s.allows b = true := by
      rcases b with a | a | a
      · simp only [allows, hs]
      · cases a <;> simp only [allows, hc]
      · simp only [allows, hc]
    refine Machine.runFrom_cons.2 ⟨{ s with sys := t₁ }, out.map .bridge, es'.map .bridge, ?_,
      ih (s := { s with sys := t₁ }) hc hs hrest, List.map_append⟩
    show s.bridge C.env b = _
    rw [bridge, if_pos hallows, show LuauFusion.step C.env s.sys b = some (t₁, out) from ht]
    rfl

end Life

/-! ## Lives and runs of the loop -/

/-- What the bridge sees. -/
def events (es : List LifeEvent) : List Event := es.filterMap LifeEvent.event

theorem events_append (es es' : List LifeEvent) : events (es ++ es') = events es ++ events es' := List.filterMap_append

/-- Whatever the order in which two processes start, fail, load and are killed, the
bridge's moves in it are a run of the loop, with the loop's state once the client is in
it; and where the client can start, every run of the loop comes about so. -/
theorem lifetime_bridge (C : Setup) :
    (∀ as es s, Run (lifetime C) as es s →
      ∃ t, Run (runV8Client C.env) (as.filterMap LifeAct.action) (events es) t ∧ (s.client = .looping → t = s.sys)) ∧
    (C.Starts → ∀ bs fs t, Run (runV8Client C.env) bs fs t →
      ∃ as es s, Run (lifetime C) as es s ∧ as.filterMap LifeAct.action = bs ∧ events es = fs ∧
        s.client = .looping ∧ s.sys = t) := by
  refine ⟨fun as es s h => ?_, fun hstarts bs fs t h => ?_⟩
  · obtain ⟨t, hr, hs⟩ := Life.run_stands h
    exact ⟨t, hr, hs.looping⟩
  · -- First the processes start, then every move is a move of the life.
    obtain ⟨s, ⟨as, es, ha, hf, he⟩, hc, hs⟩ := Life.readies hstarts .nil nofun rfl
    have hstart : Run (lifetime C) as es s := by
      have h := Run.append .nil hf
      rwa [List.nil_append, List.nil_append] at h
    have hempty : as.filterMap LifeAct.action = [] := List.filterMap_eq_nil_iff.2 ha
    have hsys : s.sys = initial := by
      obtain ⟨t, hr, hstands⟩ := Life.run_stands hstart
      rw [hempty, he] at hr
      rw [← hstands.looping hc, (hr.unique .nil).2]
      rfl
    have hbs : (runV8Client C.env).runFrom s.sys bs = some (fs, t) := by
      rw [hsys]
      exact h.runFrom
    refine ⟨_, _, _, hstart.append (Life.bridge_runs hc hs hbs), ?_, ?_, hc, rfl⟩
    · rw [List.filterMap_append, hempty, List.nil_append, List.filterMap_map]
      exact List.filterMap_some
    · rw [events_append, events, he, List.nil_append]
      exact filterMap_event fs

/-- A module that imports another, and a client that can start. -/
def Setup.single : Setup where
  env := .plain ⟨0, none⟩
  hosts := plainHosts
  displayParseError _ := "invalid host"
  vfs := ((∅ : Std.HashMap String String).insert "lib.js" "").insert "main.js" "import './lib.js'"
  moduleName := "main.js"
  callbackSet := true
  compile _ src := .ok (if src.code.text = "import './lib.js'" then [("./lib.js", .none)] else [])
  link := .ok ()
  displayLoadError _ := "module error"

theorem Setup.single_main : Setup.single.load ⟨fileUrl ["main.js".toList], .none⟩ =
    some (.ok ⟨.javaScript, .arc "import './lib.js'", fileUrl ["main.js".toList]⟩) := by
  rw [Modules.load, FusionModuleLoader.load_eq (k := "main.js") _ rfl, vfsLoader_get, Setup.single,
    Std.HashMap.getElem?_insert_self]
  rfl

theorem Setup.single_lib : Setup.single.load ⟨fileUrl ["lib.js".toList], .none⟩ =
    some (.ok ⟨.javaScript, .arc "", fileUrl ["lib.js".toList]⟩) := by
  rw [Modules.load, FusionModuleLoader.load_eq (k := "lib.js") _ rfl, vfsLoader_get, Setup.single,
    Std.HashMap.getElem?_insert, if_neg (by decide), Std.HashMap.getElem?_insert_self]
  rfl

theorem Setup.single_starts : Setup.single.Starts := by
  have hmain : Setup.single.succ ⟨fileUrl ["main.js".toList], .none⟩ = some [⟨fileUrl ["lib.js".toList], .none⟩] :=
    Modules.succ_eq Setup.single_main rfl
  have hlib : Setup.single.succ ⟨fileUrl ["lib.js".toList], .none⟩ = some [] := Modules.succ_eq Setup.single_lib rfl
  refine ⟨rfl, _, rfl, rfl, [⟨fileUrl ["main.js".toList], .none⟩, ⟨fileUrl ["lib.js".toList], .none⟩], List.mem_cons_self, ?_⟩
  intro r hr
  rcases List.mem_cons.1 hr with rfl | hr
  · exact ⟨_, hmain, by simp⟩
  · rw [List.mem_singleton.1 hr]
    exact ⟨_, hlib, List.nil_subset _⟩

theorem lifetime_bridge_single :
    ∃ as es s, Run (lifetime .single) as es s ∧ as.filterMap LifeAct.action = [.js (.sendText "a"), .loop .forward] ∧
      events es = [.jsSent (.sendText "a"), .handed (.sendText "a")] ∧ s.client = .looping ∧
      s.sys.hostRx.chan.queue = [.sendText "a"] := by
  have hrun : Run (runV8Client Setup.single.env) [.js (.sendText "a"), .loop .forward] _ _ := run_of_exec rfl
  obtain ⟨as, es, s, h, ha, he, hc, hs⟩ := (lifetime_bridge .single).2 Setup.single_starts _ _ _ hrun
  exact ⟨as, es, s, h, ha, he, hc, by rw [hs]; rfl⟩

/-! ## Nothing is lost on the way up -/

/-- A move that brings the processes up, or delivers what was sent. -/
def LifeAct.isPassive {J : Type} (a : LifeAct J) : Bool := a.action.all isDelivery

/-- From every state of a life in which nothing has failed and the loop is not over,
whatever was sent while the client was starting, moves that send nothing bring all of it
to its receiver. -/
theorem startup_drains {C : Setup} (hmem : C.env.lua.Allocates) (hstarts : C.Starts) {as es s}
    (h : Run (lifetime C) as es s) (hserver : ∀ e, s.server ≠ .failed e) (hlive : s.client.isLive = true)
    (hx : s.sys.exit = none) :
    ∃ bs es' s', (∀ b ∈ bs, b.isPassive = true) ∧ (lifetime C).runFrom s bs = some (es', s') ∧
      s'.client = .looping ∧ s'.server = .made ∧ s'.sys.exit = none ∧
      luauReceived (events (es ++ es')) = (jsSent (events es)).map ClientMessage.luau ∧
      jsTexts (events (es ++ es')) = luauTexts (events es) ∧ jsBinaries (events (es ++ es')) = luauBinaries (events es) := by
  obtain ⟨s₁, ⟨bs, es₁, hb, hf, he⟩, hc, hs⟩ := Life.readies hstarts h hserver hlive
  obtain ⟨t₀, hr₀, hstands₀⟩ := Life.run_stands h
  obtain ⟨t, hr, hstands⟩ := Life.run_stands (h.append hf)
  obtain rfl := hstands.looping hc
  -- The bridge saw nothing of the moves in between.
  rw [List.filterMap_append, List.filterMap_eq_nil_iff.2 hb, List.append_nil, List.filterMap_append, he, List.append_nil] at hr
  have hx₁ : s₁.sys.exit = none := by
    rw [← (hr₀.unique hr).2, hstands₀.exit, hx]
  obtain ⟨bs', es₂, t, hb', hf', hx', h0⟩ := empties hr hx₁
  obtain ⟨hj, ht, hbin⟩ := (deliveries_silent hr hb' hf').sent
  obtain ⟨hluau, htexts, hbinaries⟩ := received_all hmem (hr.append hf') h0
  have hevents : events (es ++ (es₁ ++ es₂.map .bridge)) = events es ++ es₂ := by
    rw [events_append, events_append, events, events, he, List.nil_append]
    exact congrArg (events es ++ ·) (filterMap_event es₂)
  refine ⟨bs ++ bs'.map .bridge, es₁ ++ es₂.map .bridge, { s₁ with sys := t }, ?_,
    Machine.runFrom_append hf (Life.bridge_runs hc hs hf'), hc, hs, hx', ?_, ?_, ?_⟩
  · rw [List.forall_mem_append, List.forall_mem_map]
    refine ⟨fun b hm => ?_, hb'⟩
    rw [LifeAct.isPassive, hb b hm]
    rfl
  · rw [hevents, ← hj]
    exact hluau
  · rw [hevents, ← ht]
    exact htexts
  · rw [hevents, ← hbin]
    exact hbinaries

/-- A message that the host sends while the module is being loaded. -/
theorem startup_drains_early :
    ∃ es s, Run (lifetime .single) [.created (.ok ()), .sendMessenger none, .receiveMessenger none, .start,
        .bridge (.host (.sendbinary (.buffer [1]) none))] es s ∧
      s.client = .loading (.start ⟨fileUrl ["main.js".toList], .none⟩) ∧
      ∃ bs es' s', (∀ b ∈ bs, b.isPassive = true) ∧ (lifetime .single).runFrom s bs = some (es', s') ∧
        s'.client = .looping ∧ s'.server = .made ∧ s'.sys.exit = none ∧
        luauReceived (events (es ++ es')) = (jsSent (events es)).map ClientMessage.luau ∧
        jsTexts (events (es ++ es')) = luauTexts (events es) ∧ jsBinaries (events (es ++ es')) = luauBinaries (events es) := by
  have h : Run (lifetime .single) [.created (.ok ()), .sendMessenger none, .receiveMessenger none, .start,
      .bridge (.host (.sendbinary (.buffer [1]) none))] _ _ := run_of_exec rfl
  exact ⟨_, _, h, rfl, startup_drains (Env.plain_allocates _) Setup.single_starts h nofun rfl rfl⟩

/-! ## How clients end -/

namespace Life
variable {C : Setup} {s s' : Life}

/-- The act that a client panicked at was a cause of what it says. -/
def Caused (C : Setup) (as : List (LifeAct C.env.v8.JsString)) (s : Life) : Prop :=
  ∀ m, s.client = .panicked m → ∃ as₁ es₁ s₁ a as₂, as = as₁ ++ a :: as₂ ∧ Run (lifetime C) as₁ es₁ s₁ ∧ Cause C s₁ a m

theorem Caused.more {as : List (LifeAct C.env.v8.JsString)} (h : s.Caused C as) (a : LifeAct C.env.v8.JsString)
    (hm : ∀ m, s'.client = .panicked m → s.client = .panicked m) : s'.Caused C (as ++ [a]) := by
  intro m hc
  obtain ⟨as₁, es₁, s₁, b, as₂, rfl, hr, hb⟩ := h m (hm m hc)
  exact ⟨as₁, es₁, s₁, b, as₂ ++ [a], by simp, hr, hb⟩

/-- A cause is one at any time. -/
theorem Cause.step {a : LifeAct C.env.v8.JsString} {m : String} (h : Cause C s a m) : step C s a = some (s.panic m) := by
  have hunwrap : ∀ {specifier referrer : String} {r : Request}, FusionModuleLoader.resolve C.hosts specifier referrer = .ok r.url →
      Unsegmented specifier referrer → C.load r = none := fun he hu =>
    ((vfsLoader C.vfs).load_none_iff _ _).2 ((resolve_none_iff he).2 hu)
  cases h with
  | messenger hc => simp only [Life.step, hc]
  | callback hc hcb => simp only [Life.step, hc, start, hcb, Bool.not_false, if_true]
  | failed hc hi hfails =>
    rcases hfails with ⟨e, he, rfl⟩ | ⟨src, hsrc, he⟩
    · simp only [Life.step, hc, load, hi, he, failToLoad]
    · simp only [Life.step, hc, load, hi, hsrc, he, failToLoad]
  | unlinked hc hp hl => simp only [Life.step, hc, link, hp, hl, failToLoad]
  | unwrapped hc hi he hu => simp only [Life.step, hc, load, hi, hunwrap he hu, unwrapNone]
  | @imported url specifier referrer requested hc hx he hu =>
    have hnone : C.load ⟨url, requested⟩ = none := hunwrap (r := ⟨url, requested⟩) he hu
    simp only [Life.step, hc, hx, importModule, he, hnone, unwrapNone, Option.isNone_none, if_true]

end Life

end LuauFusion
