import LuauFusion.WebUrl
/-!
# The shared buffer and the shared slot

Each op leaves its result where the last one left its own. `getSerialization` and
`#updateComponents` read it before the next op runs, so no object ever sees what
another call left behind, a `canParse` that nobody reads after included.
-/
open LuauFusion.Lib LuauFusion.Lib.Utf16 LuauFusion.Lib.Url

namespace LuauFusion.WebUrl

/-! ## What an op comes to -/

/-- What a call of `getSerialization` after an op comes to, and what it leaves. -/
def taken (o : Ops) (href : Units) (maybeBase : Option Units) (noPort : Nat) : Option UrlParts → Ops × Except Failure Units
  | none => (o, .error (.typeError (invalidUrl href maybeBase)))
  | some p =>
    if p.href = decode href then (⟨o.serialization, internalComponents p noPort⟩, .ok href)
    else (⟨none, internalComponents p noPort⟩, .ok (encode p.href))

/-- What `opUrlParse` parses. -/
def parsed (C : Crate) (url : Units) : Option Units → Option UrlParts
  | none => C.parse none (decode url)
  | some base => (C.parse none (decode base)).bind fun b => C.parse (some b) (decode url)

/-- What `opUrlReparse` makes. -/
def reparsed (C : Crate) (url : Units) (setter : UrlSetter) (value : Units) : Option UrlParts :=
  (C.parse none (decode url)).bind (C.set setter (decode value))

theorem getSerialization_finish (o : Ops) (href : Units) (maybeBase : Option Units) (noPort : Nat) (p : UrlParts) :
    getSerialization (finish o (decode href) noPort p).1 (finish o (decode href) noPort p).2 href maybeBase =
      taken o href maybeBase noPort (some p) := by
  by_cases h : p.href = decode href
  · simp [finish, taken, h, getSerialization]
  · simp [finish, taken, h, getSerialization, opUrlGetSerialization]

theorem finish_status (o : Ops) (href : List Char) (noPort : Nat) (p : UrlParts) : (finish o href noPort p).2 ≠ .err := by
  unfold finish
  split <;> simp

theorem parseUrl_taken (C : Crate) (o : Ops) (url : Units) (maybeBase : Option Units) (base : Option UrlParts) :
    getSerialization (parseUrl C o (decode url) base).1 (parseUrl C o (decode url) base).2 url maybeBase =
      taken o url maybeBase 0 (C.parse base (decode url)) := by
  unfold parseUrl
  cases C.parse base (decode url) with
  | none => rfl
  | some p => exact getSerialization_finish o url maybeBase 0 p

/-- Parsing, and reading what was parsed. -/
theorem parse_taken (C : Crate) (o : Ops) (url : Units) (base : Option Units) :
    getSerialization (parseHref C o url base).1 (parseHref C o url base).2 url base = taken o url base 0 (parsed C url base) := by
  cases base with
  | none => exact parseUrl_taken C o url none none
  | some b =>
    simp only [parseHref, opUrlParseWithBase, parsed]
    cases C.parse none (decode b) with
    | none => rfl
    | some p => exact parseUrl_taken C o url (some b) (some p)

theorem parseUrl_status (C : Crate) (o : Ops) (url : List Char) (base : Option UrlParts) :
    (parseUrl C o url base).2 = .err ↔ C.parse base url = none := by
  unfold parseUrl
  cases C.parse base url with
  | none => simp
  | some p => simp [finish_status]

theorem parse_status (C : Crate) (o : Ops) (url : Units) (base : Option Units) :
    (parseHref C o url base).2 = .err ↔ parsed C url base = none := by
  cases base with
  | none => exact parseUrl_status C o _ none
  | some b =>
    simp only [parseHref, opUrlParseWithBase, parsed]
    cases C.parse none (decode b) with
    | none => simp
    | some p => exact parseUrl_status C o _ (some p)

theorem reparse_taken (C : Crate) (o : Ops) (url : Units) (setter : UrlSetter) (value : Units) :
    reparse C o url setter value = taken o url none noPort (reparsed C url setter value) := by
  unfold reparse opUrlReparse reparsed
  cases C.parse none (decode url) with
  | none => rfl
  | some p =>
    simp only [UrlSetter.ofCode_code, Option.bind_some]
    cases C.set setter (decode value) p with
    | none => rfl
    | some p' => exact getSerialization_finish o url none noPort p'

/-- A URL overwrites the buffer, and is read from nowhere else. -/
theorem taken_some (o : Ops) (href : Units) (maybeBase : Option Units) (noPort : Nat) (p : UrlParts) :
    ∃ slot, taken o href maybeBase noPort (some p) =
      (⟨slot, internalComponents p noPort⟩, .ok (if p.href = decode href then href else encode p.href)) := by
  unfold taken
  by_cases h : p.href = decode href
  · exact ⟨o.serialization, by simp [h]⟩
  · exact ⟨none, by simp [h]⟩

/-! ## What scripts see -/

/-- All but what the ops keep. -/
def objects (s : Realm) : List URL × List URLSearchParams := (s.urls, s.params)

/-- What a call shows, and the objects after it. -/
def visible (r : Realm × Seen) : (List URL × List URLSearchParams) × Seen := (objects r.1, r.2)

variable {C : Crate} {s s' : Realm}

theorem updateSearchParams_objects (h : objects s = objects s') (u : Nat) (spreads : Nat → Bool) :
    objects (updateSearchParams spreads s u).1 = objects (updateSearchParams spreads s' u).1 ∧
      (updateSearchParams spreads s u).2 = (updateSearchParams spreads s' u).2 := by
  obtain ⟨urls, params, o⟩ := s
  obtain ⟨urls', params', o'⟩ := s'
  obtain ⟨rfl, rfl⟩ := Prod.mk.inj h
  unfold updateSearchParams
  cases urls[u]? with
  | none => exact ⟨rfl, rfl⟩
  | some url =>
    simp only
    cases url.queryObject with
    | none => exact ⟨rfl, rfl⟩
    | some q =>
      simp only
      cases params[q]? with
      | none => exact ⟨rfl, rfl⟩
      | some params =>
        simp only
        split <;> exact ⟨rfl, rfl⟩

theorem store_objects (h : objects s = objects s') (u : Nat) (url : URL) (slot slot' : Option (List Char)) (buf : Components)
    (serialization : Units) :
    objects (store s u url ⟨slot, buf⟩ serialization) = objects (store s' u url ⟨slot', buf⟩ serialization) := by
  obtain ⟨hurls, hparams⟩ := Prod.mk.inj h
  simp only [objects, store, hurls, hparams]

/-- All that it throws. -/
theorem updateSearchParams_thrown (s : Realm) (u : Nat) (spreads : Nat → Bool) :
    (updateSearchParams spreads s u).2 = none ∨ (updateSearchParams spreads s u).2 = some .rangeError := by
  unfold updateSearchParams
  split
  · exact .inl rfl
  · split
    · exact .inl rfl
    · split
      · exact .inl rfl
      · simp only
        split
        · exact .inl rfl
        · exact .inr rfl

theorem create_visible (h : objects s = objects s') (o o' : Ops) (url : Units) (base : Option Units) :
    visible (create s (parseHref C o url base).1 (parseHref C o url base).2 url base) =
      visible (create s' (parseHref C o' url base).1 (parseHref C o' url base).2 url base) := by
  obtain ⟨hurls, hparams⟩ := Prod.mk.inj h
  unfold create
  rw [parse_taken, parse_taken]
  cases parsed C url base with
  | none =>
    apply Prod.ext
    · exact h
    · rfl
  | some p =>
    obtain ⟨slot, ho⟩ := taken_some o url base 0 p
    obtain ⟨slot', ho'⟩ := taken_some o' url base 0 p
    rw [ho, ho']
    simp only [visible, objects, hurls, hparams]

theorem parseOrNull_visible (h : objects s = objects s') (url : Units) (base : Option Units) :
    visible (parseOrNull C s url base) = visible (parseOrNull C s' url base) := by
  unfold parseOrNull
  simp only [parse_status]
  split
  · exact Prod.ext h rfl
  · exact create_visible h s.ops s'.ops url base

theorem canParse_visible (h : objects s = objects s') (url : Units) (base : Option Units) :
    visible (canParse C s url base) = visible (canParse C s' url base) := by
  have hstatus : ∀ o, ((parseHref C o url base).2 != .err) = (parsed C url base).isSome := by
    intro o
    have h := parse_status C o url base
    cases hp : parsed C url base with
    | none => simp [h.2 hp]
    | some p => simpa [hp] using h
  unfold canParse
  simp only [hstatus]
  exact Prod.ext h rfl

theorem setHref_visible (h : objects s = objects s') (u : Nat) (url : URL) (value : Units) (spreads : Nat → Bool) :
    visible (setHref C s u url value spreads) = visible (setHref C s' u url value spreads) := by
  unfold setHref
  simp only [parse_taken]
  cases parsed C value none with
  | none => exact Prod.ext h rfl
  | some p =>
    obtain ⟨slot, ho⟩ := taken_some s.ops value none 0 p
    obtain ⟨slot', ho'⟩ := taken_some s'.ops value none 0 p
    rw [ho, ho']
    obtain ⟨hobjects, hthrown⟩ := updateSearchParams_objects (store_objects h u url slot slot' _ _) u spreads
    exact Prod.ext hobjects (congrArg (·.elim Seen.undefined .threw) hthrown)

theorem setComponent_visible (h : objects s = objects s') (u : Nat) (url : URL) (setter : UrlSetter) (value : Units)
    (spreads : Nat → Bool) :
    visible (setComponent C s u url setter value spreads) = visible (setComponent C s' u url setter value spreads) := by
  unfold setComponent
  simp only [reparse_taken]
  cases reparsed C url.serialization setter value with
  | none => exact Prod.ext h rfl
  | some p =>
    obtain ⟨slot, ho⟩ := taken_some s.ops url.serialization none noPort p
    obtain ⟨slot', ho'⟩ := taken_some s'.ops url.serialization none noPort p
    rw [ho, ho']
    refine Prod.ext ?_ rfl
    by_cases hs : setter = .search
    · simp only [hs, if_true]
      exact (updateSearchParams_objects (store_objects h u url slot slot' _ _) u spreads).1
    · simp only [hs, if_false]
      exact store_objects h u url slot slot' _ _

theorem changeParams_visible (h : objects s = objects s') (q : Nat) (params : URLSearchParams) (change : Change) :
    visible (changeParams C s q params change) = visible (changeParams C s' q params change) := by
  obtain ⟨hurls, hparams⟩ := Prod.mk.inj h
  unfold changeParams updateUrlSearch
  simp only [hurls, hparams]
  cases params.urlObject with
  | none => rfl
  | some u =>
    simp only
    cases s'.urls[u]? with
    | none => rfl
    | some url =>
      simp only [reparse_taken]
      cases reparsed C url.serialization .search _ with
      | none => rfl
      | some p =>
        obtain ⟨slot, ho⟩ := taken_some s.ops url.serialization none noPort p
        obtain ⟨slot', ho'⟩ := taken_some s'.ops url.serialization none noPort p
        rw [ho, ho']
        simp only [visible, objects, store]

theorem step_visible (h : objects s = objects s') (a : Act) :
    (step C s a).map (fun r => (objects r.1, r.2)) = (step C s' a).map fun r => (objects r.1, r.2) := by
  obtain ⟨hurls, hparams⟩ := Prod.mk.inj h
  have hshown : ∀ {r r' : Realm × Seen}, visible r = visible r' → (objects r.1, [r.2]) = (objects r'.1, [r'.2]) := by
    intro r r' hv
    obtain ⟨ho, hs⟩ := Prod.mk.inj hv
    rw [ho, hs]
  have hkeep : ∀ x, visible (s, x) = visible (s', x) := fun x => Prod.ext h rfl
  cases a with
  | newUrl url base => exact congrArg some (hshown (create_visible h s.ops s'.ops url base))
  | parse url base => exact congrArg some (hshown (parseOrNull_visible h url base))
  | canParse url base => exact congrArg some (hshown (canParse_visible h url base))
  | newSearchParams init =>
    refine congrArg some (hshown ?_)
    unfold newSearchParams
    cases init.list <;> simp only [visible, objects, hurls, hparams]
  | get u getter =>
    simp only [step, hurls, Option.map_map]
    cases s'.urls[u]? with
    | none => rfl
    | some url => exact congrArg some (hshown (hkeep _))
  | setHref u value spreads =>
    simp only [step, hurls, Option.map_map]
    cases s'.urls[u]? with
    | none => rfl
    | some url => exact congrArg some (hshown (setHref_visible h u url value spreads))
  | set u setter value spreads =>
    simp only [step, hurls, Option.map_map]
    cases s'.urls[u]? with
    | none => rfl
    | some url => exact congrArg some (hshown (setComponent_visible h u url setter value spreads))
  | searchParams u =>
    simp only [step, hurls, Option.map_map]
    cases s'.urls[u]? with
    | none => rfl
    | some url =>
      refine congrArg some (hshown ?_)
      unfold searchParams
      cases url.queryObject <;> simp only [visible, objects, hurls, hparams]
  | change q change =>
    simp only [step, hparams, Option.map_map]
    cases s'.params[q]? with
    | none => rfl
    | some params => exact congrArg some (hshown (changeParams_visible h q params change))
  | read q query =>
    simp only [step, hparams, Option.map_map]
    cases s'.params[q]? with
    | none => rfl
    | some params => exact congrArg some (hshown (hkeep _))

/-! ## No panic -/

theorem create_no_panic (s : Realm) (o : Ops) (url : Units) (base : Option Units) :
    (create s (parseHref C o url base).1 (parseHref C o url base).2 url base).2 ≠ .threw .panic := by
  unfold create
  rw [parse_taken]
  cases parsed C url base with
  | none => simp [taken]
  | some p =>
    obtain ⟨slot, h⟩ := taken_some o url base 0 p
    simp [h]

theorem setHref_no_panic (s : Realm) (u : Nat) (url : URL) (value : Units) (spreads : Nat → Bool) :
    (setHref C s u url value spreads).2 ≠ .threw .panic := by
  unfold setHref
  simp only [parse_taken]
  cases parsed C value none with
  | none => simp [taken]
  | some p =>
    obtain ⟨slot, h⟩ := taken_some s.ops value none 0 p
    rw [h]
    simp only
    rcases updateSearchParams_thrown (store s u url ⟨slot, internalComponents p 0⟩
      (if p.href = decode value then value else encode p.href)) u spreads with ht | ht <;> simp [ht]

theorem setComponent_no_panic (s : Realm) (u : Nat) (url : URL) (setter : UrlSetter) (value : Units)
    (spreads : Nat → Bool) : (setComponent C s u url setter value spreads).2 ≠ .threw .panic := by
  unfold setComponent
  simp only [reparse_taken]
  cases reparsed C url.serialization setter value with
  | none => simp [taken]
  | some p =>
    obtain ⟨slot, h⟩ := taken_some s.ops url.serialization none noPort p
    simp [h]

theorem changeParams_no_panic (s : Realm) (q : Nat) (params : URLSearchParams) (change : Change) :
    (changeParams C s q params change).2 ≠ .threw .panic := by
  unfold changeParams updateUrlSearch
  cases params.urlObject with
  | none => simp
  | some u =>
    simp only
    cases s.urls[u]? with
    | none => simp
    | some url =>
      simp only [reparse_taken]
      cases reparsed C url.serialization .search _ with
      | none => simp [taken]
      | some p =>
        obtain ⟨slot, h⟩ := taken_some s.ops url.serialization none noPort p
        simp [h]

/-- Not every sequence is one of pairs, but that is a `TypeError`. -/
theorem ofSequence_no_panic (i : Nat) (pairs : List (List (List Char))) : ofSequence i pairs ≠ .error .panic := by
  induction i, pairs using ofSequence.induct with
  | case1 => simp [ofSequence]
  | case2 i name value pairs ih =>
    rw [ofSequence]
    cases h : ofSequence (i + 1) pairs with
    | ok l => simp [Except.map]
    | error f =>
      rw [h] at ih
      simpa [Except.map] using ih
  | case3 i item pairs => simp [ofSequence]

theorem step_no_panic {a : Act} {t : Realm} {out : List Seen} (h : step C s a = some (t, out)) : .threw .panic ∉ out := by
  have hone : ∀ {r : Realm × Seen}, r.2 ≠ .threw .panic → (r.1, [r.2]) = (t, out) → .threw .panic ∉ out := by
    rintro r hr he
    cases he
    rw [List.mem_singleton]
    exact hr.symm
  cases a with
  | newUrl url base => exact hone (create_no_panic s s.ops url base) (Option.some.inj h)
  | parse url base =>
    refine hone (r := parseOrNull C s url base) ?_ (Option.some.inj h)
    unfold parseOrNull
    simp only
    split
    · simp
    · exact create_no_panic s s.ops url base
  | canParse url base => exact hone (r := canParse C s url base) (by simp [canParse]) (Option.some.inj h)
  | newSearchParams init =>
    refine hone (r := newSearchParams s init) ?_ (Option.some.inj h)
    unfold newSearchParams
    cases hl : init.list with
    | ok l => simp
    | error f =>
      rintro he
      cases he
      cases init with
      | sequence pairs => exact ofSequence_no_panic 0 pairs hl
      | _ => cases hl
  | get u getter =>
    obtain ⟨url, -, he⟩ := Option.map_eq_some_iff.1 h
    exact hone (by simp) he
  | setHref u value spreads =>
    obtain ⟨url, -, he⟩ := Option.map_eq_some_iff.1 h
    exact hone (setHref_no_panic s u url value spreads) he
  | set u setter value spreads =>
    obtain ⟨url, -, he⟩ := Option.map_eq_some_iff.1 h
    exact hone (setComponent_no_panic s u url setter value spreads) he
  | searchParams u =>
    obtain ⟨url, -, he⟩ := Option.map_eq_some_iff.1 h
    refine hone ?_ he
    unfold searchParams
    cases url.queryObject <;> simp
  | change q change =>
    obtain ⟨params, -, he⟩ := Option.map_eq_some_iff.1 h
    exact hone (changeParams_no_panic s q params change) he
  | read q query =>
    obtain ⟨params, -, he⟩ := Option.map_eq_some_iff.1 h
    refine hone ?_ he
    cases query <;> simp only [answer, ne_eq, reduceCtorEq, not_false_eq_true]
    split <;> simp

/-! ## Runs -/

/-- Whatever the slot and the buffer hold when scripts set out, they see the same,
none of it a panic, and leave the same objects. -/
theorem scratch_unread {as : List Act} {es : List Seen} {t : Realm} (h : (realm C).runFrom s as = some (es, t))
    (ho : objects s = objects s') :
    .threw .panic ∉ es ∧ ∃ t', (realm C).runFrom s' as = some (es, t') ∧ objects t = objects t' := by
  induction as generalizing s s' es with
  | nil =>
    cases h
    exact ⟨by simp, s', rfl, ho⟩
  | cons a as ih =>
    obtain ⟨s₁, out, es', hs, hf, rfl⟩ := Machine.runFrom_cons.1 h
    have hstep := step_visible (C := C) ho a
    have hs : step C s a = some (s₁, out) := hs
    rw [hs, Option.map_some, eq_comm, Option.map_eq_some_iff] at hstep
    obtain ⟨⟨s₁', out'⟩, hs', he⟩ := hstep
    obtain ⟨ho₁, hout⟩ := Prod.mk.inj he
    obtain rfl : out' = out := hout
    obtain ⟨hcalm, t', hf', ht⟩ := ih hf ho₁.symm
    refine ⟨?_, t', Machine.runFrom_cons.2 ⟨s₁', out', es', hs', hf', rfl⟩, ht⟩
    rw [List.mem_append, not_or]
    exact ⟨step_no_panic hs, hcalm⟩

/-! ## A crate of few URLs -/

/-- `a:`, `b://u:w@h:1/p` and `c:/.//p`. -/
inductive Stem where
  | plain
  | hosted
  | dotted

namespace Stem

def text : Stem → List Char
  | plain => ['a', ':']
  | hosted => ['b', ':', '/', '/', 'u', ':', 'w', '@', 'h', ':', '1', '/', 'p']
  | dotted => ['c', ':', '/', '.', '/', '/', 'p']

def parts (query : Option (List Char)) : Stem → UrlParts
  | plain => ⟨['a'], none, [], query, none⟩
  | hosted => ⟨['b'], some ⟨['u'], some ['w'], ['h'], some 1⟩, ['/', 'p'], query, none⟩
  | dotted => ⟨['c'], none, ['/', '/', 'p'], query, none⟩

/-- With any query. -/
def parse (stem : Stem) : List Char → Option UrlParts
  | [] => some (stem.parts none)
  | '?' :: q => some (stem.parts (some (percentEncode (querySet false) q)))
  | _ => none

end Stem

/-- It knows the URLs of these, or nothing. -/
def Crate.tiny : Crate where
  parse _ href :=
    match href with
    | 'a' :: ':' :: rest => Stem.plain.parse rest
    | 'b' :: ':' :: '/' :: '/' :: 'u' :: ':' :: 'w' :: '@' :: 'h' :: ':' :: '1' :: '/' :: 'p' :: rest => Stem.hosted.parse rest
    | 'c' :: ':' :: '/' :: '.' :: '/' :: '/' :: 'p' :: rest => Stem.dotted.parse rest
    | _ => none
  setHash _ url := url
  setHost _ _ := none
  setHostname _ _ := none
  setPassword _ _ := none
  setPathname _ url := url
  setPort _ _ := none
  setProtocol _ _ := none
  setSearch value url := { url with query := searchQuery url.scheme value }
  setUsername _ _ := none

/-- A text is left in the slot, parameters are appended to another, and then there are too
many of them for V8. -/
def appending : List Act :=
  [.canParse (text "a:?<") none, .newUrl (text "a:?x=1") none, .searchParams 0, .change 0 (.append ['y'] ['é']),
    .get 0 .search, .newUrl (text "b://u:w@h:1/p?q") none, .parse (text "c:/.//p") none, .searchParams 1,
    .setHref 1 (text "b://u:w@h:1/p?x&y&z") (· < 3)]

theorem scratch_unread_appending :
    ∃ es t t', (realm .tiny).runFrom initial appending = some (es, t) ∧
      (realm .tiny).runFrom { initial with ops := t.ops } appending = some (es, t') ∧ objects t = objects t' := by
  have hsome : ((realm .tiny).runFrom initial appending).isSome = true := by decide
  obtain ⟨⟨es, t⟩, h⟩ := Option.isSome_iff_exists.1 hsome
  have ho : objects initial = objects { initial with ops := t.ops } := rfl
  obtain ⟨-, t', h', ho⟩ := scratch_unread h ho
  exact ⟨es, t, t', h, h', ho⟩

end LuauFusion.WebUrl
