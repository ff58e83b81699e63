import LuauFusion.PatternCache
/-!
# What `test` and `exec` come to

Neither the cache nor the result that a failed `exec` leaves shows: scripts see what
each pattern's components alone make of each input (`run_plain`). The two regular
expressions that are not run come to what running them would, but for the names of
their groups (`exec_regexp_iff`).
-/
open LuauFusion.Lib

namespace LuauFusion.UrlPattern

variable {E : Env}

/-! ## The groups of a component -/

/-- Groups that `exec` can start from as if they were new. -/
def Fits (E : Env) (c : Component E.RegExp) (groups : Groups) : Prop :=
  ∀ value, matchComponent E c value groups = matchComponent E c value (startGroups c.regexpString value)

theorem foldl_assign (l : List (String × Option String)) (groups : Groups) :
    l.foldl assign groups = groups.setAll (l.filter (·.1 != "__proto__")) := by
  induction l generalizing groups with
  | nil => rfl
  | cons e l ih =>
    rw [List.foldl_cons, ih, assign]
    by_cases h : e.1 = "__proto__"
    · rw [if_pos h, List.filter_cons_of_neg (by simpa using h)]
    · rw [if_neg h, List.filter_cons_of_pos (by simpa using h)]
      rfl

theorem named_names (names : List String) (found : List (Option String)) : (named names found).map Prod.fst = names := by
  rw [named, List.map_map]
  exact List.zipIdx_map_fst 0 names

/-- The groups of a match may be filled again. -/
theorem foldl_assign_again (names : List String) (found found' : List (Option String)) (groups : Groups) :
    (named names found').foldl assign ((named names found).foldl assign groups) = (named names found').foldl assign groups := by
  rw [foldl_assign, foldl_assign, foldl_assign]
  apply OrderedMap.setAll_again
  have hnames : ∀ l : List (String × Option String),
      (l.filter (·.1 != "__proto__")).map Prod.fst = (l.map Prod.fst).filter (· != "__proto__") := by
    intro l
    rw [List.filter_map]
    rfl
  rw [hnames, hnames, named_names, named_names]

theorem match_empty {c : Component E.RegExp} (h : c.regexpString = "^$") (value : String) (groups : Groups) :
    matchComponent E c value groups = if value == "" then some groups else none := by
  rw [matchComponent, if_pos h]

theorem match_wildcard {c : Component E.RegExp} (h : c.regexpString = "^(.*)$") (value : String) (groups : Groups) :
    matchComponent E c value groups = some (assign groups ("0", some value)) := by
  rw [matchComponent, if_neg (by rw [h]; decide), if_pos h]

theorem match_regexp {c : Component E.RegExp} (he : c.regexpString ≠ "^$") (hw : c.regexpString ≠ "^(.*)$") (value : String)
    (groups : Groups) : matchComponent E c value groups =
      (E.exec c.regexp value).map fun found => (named c.groupNameList found).foldl assign groups := by
  rw [matchComponent, if_neg he, if_neg hw]

theorem start_wildcard {regexpString : String} (h : regexpString = "^(.*)$") (value : String) :
    startGroups regexpString value = OrderedMap.empty.set "0" (some value) := if_pos h

theorem start_other {regexpString : String} (h : regexpString ≠ "^(.*)$") (value : String) :
    startGroups regexpString value = .empty := if_neg h

theorem fits_start (c : Component E.RegExp) (value : String) : Fits E c (startGroups c.regexpString value) := by
  intro value'
  by_cases hw : c.regexpString = "^(.*)$"
  · rw [start_wildcard hw, start_wildcard hw, match_wildcard hw, match_wildcard hw]
    rfl
  · rw [start_other hw, start_other hw]

/-- What `exec` makes of groups fits for the next time. -/
theorem Fits.matched {c : Component E.RegExp} {value : String} {groups groups' : Groups} (h : Fits E c groups)
    (hm : matchComponent E c value groups = some groups') : Fits E c groups' := by
  rw [h value] at hm
  by_cases he : c.regexpString = "^$"
  · rw [match_empty he] at hm
    split at hm
    · obtain rfl := Option.some.inj hm
      exact fits_start c value
    · cases hm
  · by_cases hw : c.regexpString = "^(.*)$"
    · rw [match_wildcard hw, start_wildcard hw] at hm
      obtain rfl := Option.some.inj hm
      show Fits E c (OrderedMap.empty.set "0" (some value))
      rw [← start_wildcard hw]
      exact fits_start c value
    · intro value'
      rw [match_regexp he hw, start_other hw] at hm
      rw [match_regexp he hw, match_regexp he hw, start_other hw]
      obtain ⟨found, -, rfl⟩ := Option.map_eq_some_iff.1 hm
      congr 1
      funext found'
      exact foldl_assign_again _ found found' _

/-! ## A result that is filled again -/

/-- A result that may be filled again: it has the first few components, and their groups fit. -/
structure Half (E : Env) (components : Key → Component E.RegExp) (result : OrderedMap Key ComponentResult) : Prop where
  keys : result.keys <+: componentsKeys
  groups : ∀ key res, result.get key = some res → Fits E (components key) res.groups

theorem half_empty (components : Key → Component E.RegExp) : Half E components .empty :=
  ⟨by simp, fun _ _ h => by cases h⟩

theorem componentsKeys_nodup : componentsKeys.Nodup := by decide

/-- The next component is the next one of the result, or follows the last one. -/
theorem set_extends {m : OrderedMap Key ComponentResult} {done keys : List Key} {key : Key}
    (hk : done ++ key :: keys = componentsKeys) (hd : done <+: m.keys) (hm : m.keys <+: componentsKeys) (res : ComponentResult) :
    done ++ [key] <+: (m.set key res).keys ∧ (m.set key res).keys <+: componentsKeys := by
  obtain ⟨p, hp⟩ := hd
  rw [OrderedMap.keys_set, ← hp]
  rw [← hp, ← hk, List.prefix_append_right_inj] at hm
  have hnot : key ∉ done := by
    intro hin
    have hn := hk ▸ componentsKeys_nodup
    exact (List.nodup_append.1 hn).2.2 key hin key List.mem_cons_self rfl
  cases p with
  | nil =>
    rw [List.append_nil, if_neg hnot, ← hk, List.prefix_append_right_inj]
    exact ⟨List.prefix_refl _, by simp⟩
  | cons k p =>
    obtain ⟨rfl, hp⟩ := List.cons_prefix_cons.1 hm
    rw [if_pos (by simp), ← hk]
    exact ⟨by simp, (List.prefix_append_right_inj _).2 hm⟩

theorem Half.set {components : Key → Component E.RegExp} {result : OrderedMap Key ComponentResult}
    (h : Half E components result) {done keys : List Key} {key : Key} (hk : done ++ key :: keys = componentsKeys)
    (hd : done <+: result.keys) {res : ComponentResult} (hres : Fits E (components key) res.groups) :
    Half E components (result.set key res) := by
  refine ⟨(set_extends hk hd h.keys res).2, fun key' res' hget => ?_⟩
  rw [OrderedMap.get_set] at hget
  split at hget
  · next hkey =>
    obtain rfl := Option.some.inj hget
    exact hkey ▸ hres
  · exact h.groups key' res' hget

/-- The entry that the loop fills for a component. -/
def entry (components : Key → Component E.RegExp) (values : Values) (result : OrderedMap Key ComponentResult) (key : Key) :
    ComponentResult :=
  (result.get key).getD ⟨values key, startGroups (components key).regexpString (values key)⟩

theorem execFrom_cons (components : Key → Component E.RegExp) (values : Values) (key : Key) (keys : List Key)
    (result : OrderedMap Key ComponentResult) :
    execFrom E components values (key :: keys) result =
      match matchComponent E (components key) (values key) (entry components values result key).groups with
      | none => (result.set key (entry components values result key), false)
      | some groups => execFrom E components values keys (result.set key ⟨values key, groups⟩) := rfl

theorem Half.entry_fits {components : Key → Component E.RegExp} {result : OrderedMap Key ComponentResult}
    (h : Half E components result) (values : Values) (key : Key) :
    Fits E (components key) (entry components values result key).groups := by
  unfold entry
  cases hget : result.get key with
  | none => exact fits_start _ _
  | some res => exact h.groups key res hget

theorem execFrom_half {components : Key → Component E.RegExp} {values : Values} {done keys : List Key}
    {result : OrderedMap Key ComponentResult} (hk : done ++ keys = componentsKeys) (hd : done <+: result.keys)
    (h : Half E components result) : Half E components (execFrom E components values keys result).1 := by
  induction keys generalizing done result with
  | nil => exact h
  | cons key keys ih =>
    have hfits := h.entry_fits values key
    have hdone : done ++ [key] ++ keys = componentsKeys := by
      rw [List.append_assoc]
      exact hk
    rw [execFrom_cons]
    split
    · exact h.set hk hd hfits
    · next groups hm => exact ih hdone (set_extends hk hd h.keys _).1 (h.set hk hd (hfits.matched hm))

/-- What was filled before does not show: the components done in this call are as
they would be in a new result, and the others fit. -/
theorem execFrom_again {components : Key → Component E.RegExp} {values : Values} {done keys : List Key}
    {result fresh : OrderedMap Key ComponentResult} (hk : done ++ keys = componentsKeys) (hd : done <+: result.keys)
    (h : Half E components result) (hf : fresh.keys = done) (hsame : ∀ key ∈ done, result.get key = fresh.get key) :
    (execFrom E components values keys result).2 = (execFrom E components values keys fresh).2 ∧
      ((execFrom E components values keys fresh).2 = true →
        (execFrom E components values keys result).1 = (execFrom E components values keys fresh).1) := by
  induction keys generalizing done result fresh with
  | nil =>
    refine ⟨rfl, fun _ => ?_⟩
    rw [List.append_nil] at hk
    have hkeys : result.keys = fresh.keys := by
      rw [hf]
      exact (List.IsPrefix.eq_of_length hd (Nat.le_antisymm hd.length_le (hk ▸ h.keys.length_le))).symm
    exact OrderedMap.ext hkeys fun key hkey => hsame key (by rwa [← hf, ← hkeys])
  | cons key keys ih =>
    have hnot : fresh.get key = none := by
      rw [OrderedMap.get_eq_none, hf]
      intro hin
      have hn := hk ▸ componentsKeys_nodup
      exact (List.nodup_append.1 hn).2.2 key hin key List.mem_cons_self rfl
    have hfits := h.entry_fits values key
    have hentry : entry components values fresh key = ⟨values key, startGroups (components key).regexpString (values key)⟩ := by
      rw [entry, hnot]
      rfl
    rw [execFrom_cons, execFrom_cons, hfits (values key), hentry]
    cases hm : matchComponent E (components key) (values key) (startGroups (components key).regexpString (values key)) with
    | none => exact ⟨rfl, fun hfalse => by cases hfalse⟩
    | some groups =>
      have hdone : done ++ [key] ++ keys = componentsKeys := by
        rw [List.append_assoc]
        exact hk
      refine ih hdone (set_extends hk hd h.keys _).1
        (h.set hk hd (hfits.matched ((hfits _).trans hm))) ?_ ?_
      · rw [OrderedMap.keys_set, if_neg (OrderedMap.get_eq_none.1 hnot), hf]
      · intro key' hkey'
        rw [OrderedMap.get_set, OrderedMap.get_set]
        split
        · rfl
        · next hne =>
          rw [List.mem_append, List.mem_singleton] at hkey'
          exact hsame key' (hkey'.resolve_right hne)

/-- The result of an `exec` that found nothing fits the pattern's next one. -/
def Reusable (E : Env) (u : URLPattern E.RegExp) : Prop :=
  ∀ r, u.reusedResult = some r → r.inputs = [none] ∧ Half E u.components r.components

/-- What `exec` comes to with a new result. -/
def freshExec (E : Env) (components : Key → Component E.RegExp) : Option (Values × Inputs) → Option Result
  | none => none
  | some (values, inputs) =>
    match execFrom E components values componentsKeys .empty with
    | (_, false) => none
    | (components, true) => some ⟨withInputs inputs [none], components⟩

theorem execParsed_spec {u : URLPattern E.RegExp} (h : Reusable E u) (res : Option (Values × Inputs)) :
    (execParsed E u res).1 = freshExec E u.components res ∧ (execParsed E u res).2.components = u.components ∧
      Reusable E (execParsed E u res).2 := by
  cases res with
  | none => exact ⟨rfl, rfl, h⟩
  | some res =>
    obtain ⟨values, inputs⟩ := res
    have hhalf : Half E u.components (u.reusedResult.getD newResult).components ∧
        (u.reusedResult.getD newResult).inputs = [none] := by
      cases hr : u.reusedResult with
      | none => exact ⟨half_empty _, rfl⟩
      | some r => exact ⟨(h r hr).2, (h r hr).1⟩
    have hstart : ([] : List Key) ++ componentsKeys = componentsKeys := rfl
    have hnone : ∀ key ∈ ([] : List Key), (u.reusedResult.getD newResult).components.get key =
        (OrderedMap.empty : OrderedMap Key ComponentResult).get key := by simp
    obtain ⟨hflag, hresult⟩ : (execFrom E u.components values componentsKeys (u.reusedResult.getD newResult).components).2 =
          (execFrom E u.components values componentsKeys .empty).2 ∧ _ :=
      execFrom_again hstart List.nil_prefix hhalf.1 rfl hnone
    have hleft : Half E u.components
        (execFrom E u.components values componentsKeys (u.reusedResult.getD newResult).components).1 :=
      execFrom_half hstart List.nil_prefix hhalf.1
    have hold : execParsed E u (some (values, inputs)) =
        match execFrom E u.components values componentsKeys (u.reusedResult.getD newResult).components with
        | (components, false) => (none, { u with reusedResult := some { (u.reusedResult.getD newResult) with components := components } })
        | (components, true) => (some ⟨withInputs inputs (u.reusedResult.getD newResult).inputs, components⟩, { u with reusedResult := none }) := rfl
    have hnew : freshExec E u.components (some (values, inputs)) =
        match execFrom E u.components values componentsKeys .empty with
        | (_, false) => none
        | (components, true) => some ⟨withInputs inputs [none], components⟩ := rfl
    rw [hold, hnew, hhalf.2]
    generalize execFrom E u.components values componentsKeys .empty = fresh at hflag hresult
    generalize hx : execFrom E u.components values componentsKeys (u.reusedResult.getD newResult).components = x at hflag hresult hleft
    obtain ⟨components, found⟩ := x
    obtain ⟨components', found'⟩ := fresh
    cases found' with
    | false =>
      obtain rfl : found = false := hflag
      refine ⟨rfl, rfl, ?_⟩
      rintro r ⟨⟩
      exact ⟨hhalf.2, hleft⟩
    | true =>
      obtain rfl : found = true := hflag
      obtain rfl : components = components' := hresult rfl
      exact ⟨rfl, rfl, fun r hr => by cases hr⟩

/-! ## Without the cache and without old results -/

/-- What a call shows of the patterns' components alone. -/
def plainStep (E : Env) (patterns : List (Key → Component E.RegExp)) (a : Act) :
    Option (List (Key → Component E.RegExp) × List Seen) :=
  match a with
  | .construct input baseURL ignoreCase =>
    match UrlPattern.construct E input baseURL ignoreCase with
    | .ok u => some (patterns ++ [u.components], [.pattern patterns.length])
    | .error message => some (patterns, [.threw message])
  | .test p input baseURL _ =>
    patterns[p]?.map fun components =>
      match opUrlpatternProcessMatchInput E input baseURL with
      | .ok res => (patterns, [.boolean (testParsed E components res)])
      | .error message => (patterns, [.threw message])
  | .exec p input baseURL _ =>
    patterns[p]?.map fun components =>
      match opUrlpatternProcessMatchInput E input baseURL with
      | .ok res => (patterns, [.result (freshExec E components res)])
      | .error message => (patterns, [.threw message])

def plain (E : Env) : Machine (List (Key → Component E.RegExp)) Act Seen := ⟨[], plainStep E⟩

/-- The realm's patterns, and that what it keeps beside them does not matter. -/
structure Stands (s : Realm E) (patterns : List (Key → Component E.RegExp)) : Prop where
  patterns : s.patterns.map URLPattern.components = patterns
  cache : s.matchInputCache.Sound (processed E)
  reusable : ∀ u ∈ s.patterns, Reusable E u

theorem toInput_content (n : Nat) (input : StringOrInit) : (toInput n input).content = input := by
  cases input with
  | string v => rfl
  | init i => rfl

theorem convert_patterns (s : Realm E) (input : StringOrInit) :
    (convert s input).2.patterns = s.patterns ∧ (convert s input).2.matchInputCache = s.matchInputCache := by
  cases input with
  | string v => exact ⟨rfl, rfl⟩
  | init i => exact ⟨rfl, rfl⟩

/-- Parsing an input comes to what the op makes of it, cached or not. -/
theorem processInput_spec {s : Realm E} {patterns : List (Key → Component E.RegExp)} (h : Stands s patterns)
    (input : StringOrInit) (baseURL : Option String) (sampled : Bool) :
    (processInput s input baseURL sampled).1 = opUrlpatternProcessMatchInput E input baseURL ∧
      (processInput s input baseURL sampled).2.patterns = s.patterns ∧
      Stands (processInput s input baseURL sampled).2 patterns := by
  obtain ⟨hpatterns, hcache⟩ := convert_patterns s input
  have hinput : (convert s input).1.content = input := by rw [convert_eq, toInput_content]
  have hsound : (convert s input).2.matchInputCache.Sound (processed E) := hcache ▸ h.cache
  unfold processInput
  cases baseURL with
  | some base =>
    refine ⟨?_, hpatterns, ⟨?_, hsound, ?_⟩⟩
    · show opUrlpatternProcessMatchInput E (convert s input).1.content (some base) = _
      rw [hinput]
    · show (convert s input).2.patterns.map _ = _
      rw [hpatterns, h.patterns]
    · show ∀ u ∈ (convert s input).2.patterns, _
      rw [hpatterns]
      exact h.reusable
  | none =>
    obtain ⟨hvalue, heffect⟩ := SampledLRUCache.getOrInsert_effect hsound (convert s input).1 sampled
    refine ⟨?_, hpatterns, ⟨?_, heffect.sound hsound, ?_⟩⟩
    · show (SampledLRUCache.getOrInsert _ _ (processed E) sampled).1 = _
      rw [hvalue, processed, hinput]
    · show (convert s input).2.patterns.map _ = _
      rw [hpatterns, h.patterns]
    · show ∀ u ∈ (convert s input).2.patterns, _
      rw [hpatterns]
      exact h.reusable

/-- A new pattern has no result to fill. -/
theorem construct_new {input : Option StringOrInit} {baseURL : Option String} {ignoreCase : Bool} {u : URLPattern E.RegExp}
    (h : UrlPattern.construct E input baseURL ignoreCase = .ok u) : u.reusedResult = none := by
  unfold UrlPattern.construct at h
  cases hp : opUrlpatternParse E (input.getD (defaultInput baseURL)) baseURL ignoreCase with
  | error e =>
    rw [hp] at h
    cases h
  | ok parsed =>
    cases hc : compileAll E ignoreCase parsed with
    | error e =>
      simp only [hp, hc, bind, Except.bind] at h
      cases h
    | ok components =>
      simp only [hp, hc, bind, Except.bind, Except.ok.injEq] at h
      rw [← h]

/-- Every step shows what it would show without the cache and the old results. -/
theorem step_plain {s t : Realm E} {patterns : List (Key → Component E.RegExp)} {a : Act} {out : List Seen}
    (h : Stands s patterns) (hs : step E s a = some (t, out)) :
    ∃ patterns', plainStep E patterns a = some (patterns', out) ∧ Stands t patterns' := by
  cases a with
  | construct input baseURL ignoreCase =>
    simp only [step, Option.some.injEq, Prod.mk.injEq] at hs
    obtain ⟨rfl, rfl⟩ := hs
    have hlen : patterns.length = s.patterns.length := by rw [← h.patterns, List.length_map]
    unfold construction
    cases hu : UrlPattern.construct E input baseURL ignoreCase with
    | error message => exact ⟨patterns, by rw [plainStep, hu], h⟩
    | ok u =>
      refine ⟨patterns ++ [u.components], by rw [plainStep, hu, ← hlen], ?_, h.cache, ?_⟩
      · show (s.patterns ++ [u]).map _ = _
        rw [List.map_append, h.patterns, List.map_singleton]
      · show ∀ v ∈ s.patterns ++ [u], _
        rw [List.forall_mem_append]
        refine ⟨h.reusable, ?_⟩
        rintro v hv r hr
        obtain rfl := List.mem_singleton.1 hv
        rw [construct_new hu] at hr
        cases hr
  | test p input baseURL sampled =>
    obtain ⟨u, hu, he⟩ := Option.map_eq_some_iff.1 hs
    simp only [Prod.mk.injEq] at he
    obtain ⟨rfl, rfl⟩ := he
    have hp : patterns[p]? = some u.components := by rw [← h.patterns, List.getElem?_map, hu]; rfl
    obtain ⟨hres, -, hstands⟩ := processInput_spec h input baseURL sampled
    rw [plainStep, hp, Option.map_some, ← hres]
    unfold test
    generalize processInput s input baseURL sampled = x at hstands
    obtain ⟨res, s'⟩ := x
    cases res with
    | ok res => exact ⟨patterns, rfl, hstands⟩
    | error message => exact ⟨patterns, rfl, hstands⟩
  | exec p input baseURL sampled =>
    obtain ⟨u, hu, he⟩ := Option.map_eq_some_iff.1 hs
    simp only [Prod.mk.injEq] at he
    obtain ⟨rfl, rfl⟩ := he
    have hp : patterns[p]? = some u.components := by rw [← h.patterns, List.getElem?_map, hu]; rfl
    obtain ⟨hres, hsame, hstands⟩ := processInput_spec h input baseURL sampled
    rw [plainStep, hp, Option.map_some, ← hres]
    unfold exec
    generalize processInput s input baseURL sampled = x at hsame hstands
    obtain ⟨res, s'⟩ := x
    cases res with
    | error message => exact ⟨patterns, rfl, hstands⟩
    | ok res =>
      obtain ⟨hresult, hcomponents, hreusable⟩ := execParsed_spec (h.reusable u (List.mem_of_getElem? hu)) res
      have hshown : [Seen.result (freshExec E u.components res)] = [Seen.result (execParsed E u res).1] := by rw [hresult]
      refine ⟨patterns, congrArg (fun out => some (patterns, out)) hshown, ?_, hstands.cache, ?_⟩
      · show (s'.patterns.set p _).map _ = _
        rw [List.map_set, hcomponents, hstands.patterns]
        obtain ⟨hlt, hget⟩ := List.getElem?_eq_some_iff.1 hp
        rw [← hget]
        exact List.set_getElem_self hlt
      · intro v hv
        rcases List.mem_or_eq_of_mem_set hv with hv | rfl
        · exact hstands.reusable v hv
        · exact hreusable

theorem run_stands {as : List Act} {es : List Seen} {s : Realm E} (h : Run (realm E) as es s) :
    ∃ patterns, Run (plain E) as es patterns ∧ Stands s patterns :=
  h.simulate (N := plain E) Stands ⟨rfl, SampledLRUCache.new_sound 4096, fun _ hu => by cases hu⟩ fun _ _ _ _ _ => step_plain

/-- Over every run, scripts see what each call shows by itself: neither what other
calls left in the cache nor what is left of an earlier result. -/
theorem run_plain {as : List Act} {es : List Seen} {s : Realm E} (h : Run (realm E) as es s) :
    ∃ patterns, Run (plain E) as es patterns := by
  obtain ⟨patterns, hrun, -⟩ := run_stands h
  exact ⟨patterns, hrun⟩

theorem run_plain_retried : ∃ es patterns, Run (plain .tiny) retried es patterns ∧ es.length = 5 := by
  obtain ⟨es, s, u, h, -, hlen⟩ := ran
  obtain ⟨patterns, hp⟩ := run_plain h
  exact ⟨es, patterns, hp, hlen⟩

/-! ## Running every regular expression -/

/-- What `.` does not match. -/
def lineTerminators : List Char := ['\n', '\r', '\u2028', '\u2029']

/-- How the two regular expressions match that are not run, as ECMAScript has it, and
that the op gives a name for each of their groups. -/
structure Env.Lawful (E : Env) : Prop where
  empty : ∀ ignoreCase r, E.compile "^$" ignoreCase = .ok r → ∀ v, E.exec r v = if v = "" then some [some ""] else none
  wildcard : ∀ ignoreCase r, E.compile "^(.*)$" ignoreCase = .ok r →
    ∀ v, (∀ ch ∈ v.toList, ch ∉ lineTerminators) → E.exec r v = some [some v, some v]
  unnamed : ∀ input ignoreCase parsed, E.parsePattern input ignoreCase = .ok parsed →
    ∀ key, (parsed.components key).regexpString = "^$" → (parsed.components key).groupNameList = []
  names : ∀ input ignoreCase parsed, E.parsePattern input ignoreCase = .ok parsed →
    ∀ key, (parsed.components key).regexpString = "^(.*)$" → (parsed.components key).groupNameList.length = 1

/-- A component by its regular expression. -/
def regexpGroups (E : Env) (c : Component E.RegExp) (value : String) : Option Groups :=
  (E.exec c.regexp value).map fun found => (named c.groupNameList found).foldl assign .empty

/-- `exec`, if it ran the regular expression of every component. -/
def regexpExec (E : Env) (components : Key → Component E.RegExp) (values : Values) (inputs : Inputs) : Option Result :=
  if componentsKeys.all fun key => (regexpGroups E (components key) (values key)).isSome then
    some ⟨withInputs inputs [none], OrderedMap.empty.setAll (componentsKeys.map fun key =>
      (key, ⟨values key, (regexpGroups E (components key) (values key)).getD .empty⟩))⟩
  else none

/-- What `exec` makes of a component with a new result. -/
def newGroups (E : Env) (c : Component E.RegExp) (value : String) : Option Groups :=
  matchComponent E c value (startGroups c.regexpString value)

theorem test_match (c : Component E.RegExp) (value : String) : testComponent E c value = (newGroups E c value).isSome := by
  unfold newGroups testComponent
  by_cases he : c.regexpString = "^$"
  · rw [if_pos he, match_empty he]
    split
    · next h => exact h
    · next h => exact Bool.eq_false_iff.2 h
  · by_cases hw : c.regexpString = "^(.*)$"
    · rw [if_neg he, if_pos hw, match_wildcard hw]
      rfl
    · rw [if_neg he, if_neg hw, match_regexp he hw, Option.isSome_map]

theorem execFrom_new {components : Key → Component E.RegExp} {values : Values} {keys : List Key}
    {result : OrderedMap Key ComponentResult} (hn : keys.Nodup) (hr : ∀ key ∈ keys, result.get key = none) :
    (execFrom E components values keys result).2 = keys.all (fun key => testComponent E (components key) (values key)) ∧
      (keys.all (fun key => testComponent E (components key) (values key)) = true →
        (execFrom E components values keys result).1 = result.setAll (keys.map fun key =>
          (key, ⟨values key, (newGroups E (components key) (values key)).getD .empty⟩))) := by
  induction keys generalizing result with
  | nil => exact ⟨rfl, fun _ => rfl⟩
  | cons key keys ih =>
    rw [List.nodup_cons] at hn
    rw [List.forall_mem_cons] at hr
    have hentry : entry components values result key = ⟨values key, startGroups (components key).regexpString (values key)⟩ := by
      rw [entry, hr.1]
      rfl
    have hnew : matchComponent E (components key) (values key) (entry components values result key).groups =
        newGroups E (components key) (values key) := by rw [hentry, newGroups]
    rw [execFrom_cons, hnew, List.all_cons, test_match]
    cases hm : newGroups E (components key) (values key) with
    | none => exact ⟨rfl, fun h => by cases h⟩
    | some groups =>
      have hrest : ∀ key' ∈ keys, (result.set key ⟨values key, groups⟩).get key' = none := by
        intro key' hkey'
        have hne : key' ≠ key := fun he => hn.1 (he ▸ hkey')
        rw [OrderedMap.get_set, if_neg hne]
        exact hr.2 key' hkey'
      obtain ⟨hflag, hresult⟩ := ih hn.2 hrest
      refine ⟨hflag, fun hall => ?_⟩
      rw [List.map_cons, hm]
      exact hresult hall

theorem freshExec_eq (components : Key → Component E.RegExp) (values : Values) (inputs : Inputs) :
    freshExec E components (some (values, inputs)) =
      if testAll E components values then
        some ⟨withInputs inputs [none], OrderedMap.empty.setAll (componentsKeys.map fun key =>
          (key, ⟨values key, (newGroups E (components key) (values key)).getD .empty⟩))⟩
      else none := by
  have hnone : ∀ key ∈ componentsKeys, (OrderedMap.empty : OrderedMap Key ComponentResult).get key = none := fun _ _ => rfl
  have hnew : (execFrom E components values componentsKeys .empty).2 = _ ∧ _ := execFrom_new componentsKeys_nodup hnone
  rw [freshExec, testAll]
  generalize execFrom E components values componentsKeys .empty = x at hnew
  obtain ⟨result, found⟩ := x
  obtain ⟨hflag, hresult⟩ := hnew
  cases found with
  | false => rw [← hflag]; rfl
  | true => rw [← hflag, if_pos rfl, ← hresult hflag.symm]

/-- Components that a constructor compiled, and that the op named. -/
structure Compiled (E : Env) (components : Key → Component E.RegExp) : Prop where
  compiled : ∃ ignoreCase, ∀ key, E.compile (components key).regexpString ignoreCase = .ok (components key).regexp
  unnamed : ∀ key, (components key).regexpString = "^$" → (components key).groupNameList = []
  names : ∀ key, (components key).regexpString = "^(.*)$" → (components key).groupNameList.length = 1

theorem compile_ok {ignoreCase : Bool} {parsed : Parsed} {key : Key} {c : Component E.RegExp}
    (h : compile E ignoreCase parsed key = .ok c) :
    c.regexpString = (parsed.components key).regexpString ∧ c.groupNameList = (parsed.components key).groupNameList ∧
      E.compile c.regexpString ignoreCase = .ok c.regexp := by
  unfold compile at h
  cases hc : E.compile (parsed.components key).regexpString ignoreCase with
  | error message => simp [hc] at h
  | ok regexp =>
    simp only [hc, Except.ok.injEq] at h
    subst h
    exact ⟨rfl, rfl, hc⟩

theorem bind_ok {α β : Type} {x : Except String α} {f : α → Except String β} {b : β} (h : x >>= f = .ok b) :
    ∃ a, x = .ok a ∧ f a = .ok b := by
  cases x with
  | error e => cases h
  | ok a => exact ⟨a, rfl, h⟩

theorem compileAll_ok {ignoreCase : Bool} {parsed : Parsed} {components : Key → Component E.RegExp}
    (h : compileAll E ignoreCase parsed = .ok components) (key : Key) : compile E ignoreCase parsed key = .ok (components key) := by
  obtain ⟨protocol, hprotocol, h⟩ := bind_ok h
  obtain ⟨username, husername, h⟩ := bind_ok h
  obtain ⟨password, hpassword, h⟩ := bind_ok h
  obtain ⟨hostname, hhostname, h⟩ := bind_ok h
  obtain ⟨port, hport, h⟩ := bind_ok h
  obtain ⟨pathname, hpathname, h⟩ := bind_ok h
  obtain ⟨search, hsearch, h⟩ := bind_ok h
  obtain ⟨hash, hhash, h⟩ := bind_ok h
  obtain rfl := Except.ok.inj h
  cases key <;> assumption

theorem construct_compiled (hE : E.Lawful) {input : Option StringOrInit} {baseURL : Option String} {ignoreCase : Bool}
    {u : URLPattern E.RegExp} (h : UrlPattern.construct E input baseURL ignoreCase = .ok u) : Compiled E u.components := by
  obtain ⟨parsed, hparsed, h⟩ := bind_ok h
  obtain ⟨components, hcomponents, h⟩ := bind_ok h
  obtain rfl := Except.ok.inj h
  obtain ⟨init, -, hparse⟩ := bind_ok hparsed
  refine ⟨⟨ignoreCase, fun key => (compile_ok (compileAll_ok hcomponents key)).2.2⟩, fun key he => ?_, fun key hw => ?_⟩
  · obtain ⟨hstring, hnames, -⟩ := compile_ok (compileAll_ok hcomponents key)
    exact hnames.trans (hE.unnamed init ignoreCase parsed hparse key (hstring ▸ he))
  · obtain ⟨hstring, hnames, -⟩ := compile_ok (compileAll_ok hcomponents key)
    exact (congrArg List.length hnames).trans (hE.names init ignoreCase parsed hparse key (hstring ▸ hw))

theorem run_compiled (hE : E.Lawful) {as : List Act} {es : List Seen} {s : Realm E} (h : Run (realm E) as es s) :
    ∀ u ∈ s.patterns, Compiled E u.components := by
  obtain ⟨patterns, hrun, hstands⟩ := run_stands h
  have hall : ∀ components ∈ patterns, Compiled E components := by
    refine hrun.inv (fun _ _ patterns => ∀ components ∈ patterns, Compiled E components) (fun _ hm => by cases hm) ?_
    intro _ _ patterns a patterns' out _ ih hs
    cases a with
    | construct input baseURL ignoreCase =>
      simp only [plain, plainStep] at hs
      split at hs
      · next u hu =>
        simp only [Option.some.injEq, Prod.mk.injEq] at hs
        rw [← hs.1, List.forall_mem_append, List.forall_mem_singleton]
        exact ⟨ih, construct_compiled hE hu⟩
      · simp only [Option.some.injEq, Prod.mk.injEq] at hs
        exact hs.1 ▸ ih
    | test p input baseURL sampled =>
      obtain ⟨components, -, hs⟩ := Option.map_eq_some_iff.1 hs
      split at hs
      · exact (Prod.mk.inj hs).1 ▸ ih
      · exact (Prod.mk.inj hs).1 ▸ ih
    | exec p input baseURL sampled =>
      obtain ⟨components, -, hs⟩ := Option.map_eq_some_iff.1 hs
      split at hs
      · exact (Prod.mk.inj hs).1 ▸ ih
      · exact (Prod.mk.inj hs).1 ▸ ih
  intro u hu
  exact hall _ (hstands.patterns ▸ List.mem_map_of_mem hu)

theorem assign_empty {name value : String} :
    assign .empty (name, some value) = OrderedMap.empty.set "0" (some value) ↔ name = "0" := by
  constructor
  · intro h
    have hkeys := congrArg OrderedMap.keys h
    unfold assign at hkeys
    split at hkeys
    · cases hkeys
    · simpa [OrderedMap.keys_set] using hkeys
  · rintro rfl
    rfl

/-- A shortcut matches when its regular expression does, and gives its groups if
they have their default name. -/
theorem regexp_groups (hE : E.Lawful) {components : Key → Component E.RegExp} (hc : Compiled E components) {values : Values}
    (hv : ∀ key, ∀ ch ∈ (values key).toList, ch ∉ lineTerminators) (key : Key) :
    (newGroups E (components key) (values key)).isSome = (regexpGroups E (components key) (values key)).isSome ∧
      ((regexpGroups E (components key) (values key)).isSome = true →
        ((newGroups E (components key) (values key)).getD .empty = (regexpGroups E (components key) (values key)).getD .empty ↔
          ((components key).regexpString = "^(.*)$" → (components key).groupNameList = ["0"]))) := by
  obtain ⟨ignoreCase, hcompiled⟩ := hc.compiled
  unfold newGroups regexpGroups
  by_cases he : (components key).regexpString = "^$"
  · have hexec := hE.empty ignoreCase _ (he ▸ hcompiled key) (values key)
    have hother : (components key).regexpString ≠ "^(.*)$" := by rw [he]; decide
    rw [match_empty he, start_other hother, hexec, hc.unnamed key he]
    by_cases hvalue : values key = ""
    · rw [hvalue]
      exact ⟨rfl, fun _ => ⟨fun _ hw => absurd hw hother, fun _ => rfl⟩⟩
    · rw [if_neg hvalue, if_neg (by simpa using hvalue)]
      exact ⟨rfl, fun h => by cases h⟩
  · by_cases hw : (components key).regexpString = "^(.*)$"
    · have hexec := hE.wildcard ignoreCase _ (hw ▸ hcompiled key) (values key) (hv key)
      obtain ⟨name, hname⟩ := List.length_eq_one_iff.1 (hc.names key hw)
      rw [match_wildcard hw, start_wildcard hw, hexec, hname]
      refine ⟨rfl, fun _ => ?_⟩
      have hset : assign (OrderedMap.empty.set "0" (some (values key))) ("0", some (values key)) =
          OrderedMap.empty.set "0" (some (values key)) := rfl
      show assign _ _ = assign .empty (name, some (values key)) ↔ _
      rw [hset, eq_comm, assign_empty]
      simp [hw]
    · rw [match_regexp he hw, start_other hw]
      exact ⟨rfl, fun _ => ⟨fun _ h => absurd h hw, fun _ => rfl⟩⟩

theorem mem_componentsKeys (key : Key) : key ∈ componentsKeys := by cases key <;> decide

/-- In every state a run reaches, whatever was cached or left: `test` says whether
`exec` gives a result, and both whether every regular expression matches. The result
is the one of the regular expressions exactly if a component that takes anything
keeps its group's default name. -/
theorem exec_regexp_iff (hE : E.Lawful) {as : List Act} {es : List Seen} {s : Realm E} (h : Run (realm E) as es s)
    {u : URLPattern E.RegExp} (hu : u ∈ s.patterns) {values : Values} (inputs : Inputs)
    (hv : ∀ key, ∀ ch ∈ (values key).toList, ch ∉ lineTerminators) :
    testParsed E u.components (some (values, inputs)) = (execParsed E u (some (values, inputs))).1.isSome ∧
      testParsed E u.components (some (values, inputs)) = (regexpExec E u.components values inputs).isSome ∧
      ((execParsed E u (some (values, inputs))).1 = regexpExec E u.components values inputs ↔
        regexpExec E u.components values inputs = none ∨
          ∀ key, (u.components key).regexpString = "^(.*)$" → (u.components key).groupNameList = ["0"]) := by
  obtain ⟨patterns, -, hstands⟩ := run_stands h
  have hgroups := regexp_groups hE (run_compiled hE h u hu) hv
  have hall : testAll E u.components values =
      componentsKeys.all fun key => (regexpGroups E (u.components key) (values key)).isSome := by
    unfold testAll
    congr 1
    funext key
    rw [test_match, (hgroups key).1]
  rw [(execParsed_spec (hstands.reusable u hu) _).1, freshExec_eq]
  show testAll E u.components values = _ ∧ testAll E u.components values = _ ∧ _
  unfold regexpExec
  rw [← hall]
  cases hmatch : testAll E u.components values with
  | false => exact ⟨rfl, rfl, by simp⟩
  | true =>
    refine ⟨rfl, rfl, ?_⟩
    rw [hmatch, eq_comm, List.all_eq_true] at hall
    simp only [if_true, Option.some.injEq, Result.mk.injEq, true_and, reduceCtorEq, false_or]
    constructor
    · intro heq key
      have hget := congrArg (OrderedMap.get · key) heq
      simp only [OrderedMap.get_setAll_map _ _ (mem_componentsKeys key), Option.some.injEq, ComponentResult.mk.injEq,
        true_and] at hget
      exact ((hgroups key).2 (hall key (mem_componentsKeys key))).1 hget
    · intro hnames
      congr 1
      apply List.map_congr_left
      intro key hkey
      rw [((hgroups key).2 (hall key hkey)).2 (hnames key)]

theorem tiny_lawful : Env.tiny.Lawful where
  empty ignoreCase r hr v := by
    obtain rfl := Except.ok.inj hr
    rfl
  wildcard ignoreCase r hr v _ := by
    obtain rfl := Except.ok.inj hr
    rfl
  unnamed input ignoreCase parsed hp key he := by
    obtain rfl := Except.ok.inj hp
    cases key <;> exact absurd he (by decide)
  names input ignoreCase parsed hp key _ := by
    obtain rfl := Except.ok.inj hp
    cases key <;> rfl

/-- What the pathname `a` is parsed to. -/
def aValues : Values := fun key => if key = .pathname then "a" else ""

theorem exec_regexp_iff_retried :
    ∃ es s u, Run (realm .tiny) retried es s ∧ u ∈ s.patterns ∧
      testParsed .tiny u.components (some (aValues, (.string "a", none))) = true ∧
      testParsed .tiny u.components (some (aValues, (.string "a", none))) =
        (execParsed .tiny u (some (aValues, (.string "a", none)))).1.isSome ∧
      testParsed .tiny u.components (some (aValues, (.string "a", none))) =
        (regexpExec .tiny u.components aValues (.string "a", none)).isSome ∧
      ((execParsed .tiny u (some (aValues, (.string "a", none)))).1 =
          regexpExec .tiny u.components aValues (.string "a", none) ↔
        regexpExec .tiny u.components aValues (.string "a", none) = none ∨
          ∀ key, (u.components key).regexpString = "^(.*)$" → (u.components key).groupNameList = ["0"]) := by
  have hsome : ((realm .tiny).exec retried).any (fun r =>
      r.2.patterns.map (fun u => testParsed .tiny u.components (some (aValues, (.string "a", none)))) = [true]) = true := by decide
  obtain ⟨⟨es, s⟩, h, hd⟩ := (Option.any_eq_true _ _).1 hsome
  obtain ⟨u, hu, htest⟩ := List.map_eq_singleton_iff.1 (of_decide_eq_true hd)
  have hm : u ∈ s.patterns := by rw [hu]; exact List.mem_singleton_self u
  have hv : ∀ key, ∀ ch ∈ (aValues key).toList, ch ∉ lineTerminators := by
    intro key
    have hall : ((aValues key).toList.all fun ch => !lineTerminators.contains ch) = true := by cases key <;> rfl
    simpa using hall
  exact ⟨es, s, u, run_of_exec h, hm, htest, exec_regexp_iff tiny_lawful (run_of_exec h) hm (.string "a", none) hv⟩

end LuauFusion.UrlPattern
