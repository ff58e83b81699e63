import LuauFusion.Components
/-!
# A `URL` and its parameters

`url.searchParams` is an object of its own, with a list that scripts change; `url`
has the same pairs in its text. Each change of one is followed by the other, except
that a `URL` cannot pass on more pairs than V8 can spread into one call; but for that,
in every state a run reaches the two agree (`search_in_sync`).
-/
open LuauFusion.Lib LuauFusion.Lib.Utf16 LuauFusion.Lib.Url

namespace LuauFusion.WebUrl

variable {C : Crate} {s : Realm}

/-! ## The query of a list -/

set_option maxRecDepth 8000 in
theorem written_plain {c : Char} (h : Form.Written c ∨ c = '&' ∨ c = '=') (special : Bool) :
    querySet special c = false ∧ isTabOrNewline c = false ∧ c ≠ '?' := by
  have hall : ∀ n < 128, (Char.ofNat n).isAlphanum = true → ∀ special,
      querySet special (Char.ofNat n) = false ∧ isTabOrNewline (Char.ofNat n) = false ∧ Char.ofNat n ≠ '?' := by decide
  rcases h with (h | h) | rfl | rfl
  · have := hall c.toNat (alphanum_lt h)
    rw [Char.ofNat_toNat] at this
    exact this h special
  · simp only [List.mem_cons, List.not_mem_nil, or_false] at h
    rcases h with rfl | rfl | rfl | rfl | rfl | rfl <;> cases special <;> decide
  · cases special <;> decide
  · cases special <;> decide

/-- Setting what the serializer wrote sets just that. -/
theorem searchQuery_serialize (scheme : List Char) (l : List Pair) :
    (searchQuery scheme (Form.serialize l)).getD [] = Form.serialize l := by
  have hplain := fun c hc => written_plain (Form.serialize_written l c hc) (isSpecial scheme)
  have hfilter : (Form.serialize l).filter (!isTabOrNewline ·) = Form.serialize l := by
    rw [List.filter_eq_self]
    intro c hc
    rw [(hplain c hc).2.1]
    rfl
  have hencode : percentEncode (querySet (isSpecial scheme)) (Form.serialize l) = Form.serialize l :=
    percentEncode_eq fun c hc => (hplain c hc).1
  unfold searchQuery
  split
  · next h => rw [h]; rfl
  · next q h => exact absurd rfl (hplain '?' (by rw [h]; exact List.mem_cons_self)).2.2
  · rw [hfilter, hencode]
    rfl

theorem parse_asBytes (l : List Pair) : Form.parse (asBytes (Form.serialize l)) = l := by
  rw [asBytes, Utf8.flatMap_ascii]
  · exact Form.parse_serialize l
  · intro c hc
    rcases Form.serialize_written l c hc with h | rfl | rfl
    · exact h.lt
    · decide
    · decide

/-! ## The pairs of a text -/

/-- What `#updateSearchParams` reads. -/
def paramsOf (url : URL) : List Pair := opUrlParseSearchParams (decode (url.search.drop 1))

theorem paramsOf_eq (hC : C.Lawful) {u : URL} {p : UrlParts} (h : u.Of C p) :
    paramsOf u = Form.parse (asBytes (p.query.getD [])) := by
  have hdrop : decode (u.search.drop 1) = p.query.getD [] := by
    have hascii : ∀ c ∈ (if p.queryText.length = 1 then [] else p.queryText), c.toNat < 128 := by
      intro c hc
      split at hc
      · cases hc
      · apply hC.ascii p h.stands
        rw [← UrlParts.slice_query] at hc
        exact List.mem_of_mem_take (List.mem_of_mem_drop hc)
    rw [search_eq hC h, encode_drop hascii, decode_encode, UrlParts.queryText]
    cases p.query with
    | none => rfl
    | some q => cases q <;> simp
  rw [paramsOf, opUrlParseSearchParams, hdrop]

/-- A script that makes parameters of `url.search` gets them as well. -/
theorem ofString_search (hC : C.Lawful) {u : URL} {p : UrlParts} (h : u.Of C p) : ofString (decode u.search) = paramsOf u := by
  rw [paramsOf_eq hC h, search_eq hC h, decode_encode, UrlParts.queryText]
  cases p.query with
  | none => rfl
  | some q =>
    cases q with
    | nil => rfl
    | cons c q => simp [ofString, opUrlParseSearchParams]

/-! ## Links -/

/-- An assignment to a `URL` that could not pass on `n` pairs. -/
def Act.cannotSpread (u n : Nat) : Act → Prop
  | .setHref v _ spreads | .set v .search _ spreads => v = u ∧ spreads n = false
  | _ => False

/-- An assignment to `u` could not pass on `n` pairs, and the parameters `q` have not been
changed since. -/
def Unspread (as : List Act) (u q n : Nat) : Prop :=
  ∃ as₁ a as₂, as = as₁ ++ a :: as₂ ∧ a.cannotSpread u n ∧ ∀ b ∈ as₂, b.changed ≠ some q

theorem Unspread.more {as : List Act} {u q n : Nat} (h : Unspread as u q n) {a : Act} (ha : a.changed ≠ some q) :
    Unspread (as ++ [a]) u q n := by
  obtain ⟨as₁, b, as₂, rfl, hb, hsince⟩ := h
  refine ⟨as₁, b, as₂ ++ [a], by simp, hb, ?_⟩
  exact List.forall_mem_append.2 ⟨hsince, List.forall_mem_singleton.2 ha⟩

theorem Unspread.last {as : List Act} {u q n : Nat} {a : Act} (ha : a.cannotSpread u n) : Unspread (as ++ [a]) u q n :=
  ⟨as, a, [], rfl, ha, List.forall_mem_nil _⟩

/-- The pairs of a `URL` in its parameters. -/
def InSync (as : List Act) (u q : Nat) (url : URL) (list : List Pair) : Prop :=
  list = paramsOf url ∨ Unspread as u q (paramsOf url).length

theorem InSync.more {as : List Act} {u q : Nat} {url : URL} {list : List Pair} (h : InSync as u q url list) {a : Act}
    (ha : a.changed ≠ some q) : InSync (as ++ [a]) u q url list :=
  h.imp_right (·.more ha)

/-- A `URL` and the parameters it gave out know each other and have the same pairs. -/
structure Linked (as : List Act) (s : Realm) : Prop where
  down : ∀ (u : Nat) (url : URL) q, s.urls[u]? = some url → url.queryObject = some q →
    ∃ params : URLSearchParams, s.params[q]? = some params ∧ params.urlObject = some u ∧ InSync as u q url params.list
  up : ∀ (q : Nat) (params : URLSearchParams) (u : Nat), s.params[q]? = some params → params.urlObject = some u →
    ∃ url : URL, s.urls[u]? = some url ∧ url.queryObject = some q

variable {as : List Act}

theorem Linked.congr {s' : Realm} {a : Act} (hl : Linked as s) (ha : a.changed = none) (h : objects s' = objects s) :
    Linked (as ++ [a]) s' := by
  obtain ⟨hurls, hparams⟩ := Prod.mk.inj h
  constructor
  · rw [hurls, hparams]
    intro u url q hu hq
    obtain ⟨params, hp, ho, hsync⟩ := hl.down u url q hu hq
    exact ⟨params, hp, ho, hsync.more (by rw [ha]; simp)⟩
  · rw [hurls, hparams]
    exact hl.up

/-- What becomes of the parameters when `url`, which is `u`, is replaced. -/
def Follows (as : List Act) (u : Nat) (params : List URLSearchParams) (url : URL) (params' : List URLSearchParams) : Prop :=
  match url.queryObject with
  | none => params' = params
  | some q => ∃ p list, params[q]? = some p ∧ params' = params.set q { p with list := list } ∧ InSync as u q url list

theorem getElem?_set_self' {α : Type} {l : List α} {i : Nat} {a b : α} (h : l[i]? = some b) : (l.set i a)[i]? = some a := by
  rw [List.getElem?_set_self (List.getElem?_eq_some_iff.1 h).1]

theorem set_getElem?_self {α : Type} {l : List α} {i : Nat} {a : α} (h : l[i]? = some a) : l.set i a = l := by
  obtain ⟨hi, rfl⟩ := List.getElem?_eq_some_iff.1 h
  exact List.set_getElem_self hi

/-- A `URL` is replaced, and its parameters follow. -/
theorem Linked.replace (hl : Linked as s) {u : Nat} {url url' : URL} {params' : List URLSearchParams} {o : Ops} {a : Act}
    (hu : s.urls[u]? = some url) (hq : url'.queryObject = url.queryObject)
    (ha : ∀ q, a.changed = some q → url.queryObject = some q) (hf : Follows (as ++ [a]) u s.params url' params') :
    Linked (as ++ [a]) ⟨s.urls.set u url', params', o⟩ := by
  -- The parameters of one `URL` are not those of another.
  have hother : ∀ {v q url₂ q'}, v ≠ u → s.urls[v]? = some url₂ → url₂.queryObject = some q → url.queryObject = some q' →
      q ≠ q' := by
    rintro v q url₂ q' hne hv hq₂ hq' rfl
    obtain ⟨p, hp, ho, -⟩ := hl.down v url₂ q hv hq₂
    obtain ⟨p', hp', ho', -⟩ := hl.down u url q hu hq'
    rw [hp, Option.some_inj] at hp'
    rw [← hp', ho, Option.some_inj] at ho'
    exact hne ho'
  unfold Follows at hf
  constructor
  · intro v url₂ q hv hq₂
    simp only at hv ⊢
    by_cases hvu : v = u
    · subst hvu
      rw [getElem?_set_self' hu, Option.some_inj] at hv
      subst hv
      rw [hq₂] at hf
      obtain ⟨p, list, hp, rfl, hsync⟩ := hf
      obtain ⟨p', hp', ho, -⟩ := hl.down v url q hu (hq ▸ hq₂)
      rw [hp, Option.some_inj] at hp'
      exact ⟨_, getElem?_set_self' hp, hp' ▸ ho, hsync⟩
    · rw [List.getElem?_set_ne (Ne.symm hvu)] at hv
      obtain ⟨p, hp, ho, hsync⟩ := hl.down v url₂ q hv hq₂
      refine ⟨p, ?_, ho, hsync.more fun hc => hother hvu hv hq₂ (ha q hc) rfl⟩
      cases hq' : url'.queryObject with
      | none =>
        rw [hq'] at hf
        rw [hf, hp]
      | some q' =>
        rw [hq'] at hf
        obtain ⟨p', _, -, rfl, -⟩ := hf
        rw [List.getElem?_set_ne (hother hvu hv hq₂ (hq ▸ hq')).symm, hp]
  · intro q params v hp ho
    simp only at hp ⊢
    have hold : ∃ p, s.params[q]? = some p ∧ p.urlObject = some v := by
      cases hq' : url'.queryObject with
      | none =>
        rw [hq'] at hf
        rw [hf] at hp
        exact ⟨params, hp, ho⟩
      | some q' =>
        rw [hq'] at hf
        obtain ⟨p', _, hp', rfl, -⟩ := hf
        by_cases hqq : q = q'
        · subst hqq
          rw [getElem?_set_self' hp', Option.some_inj] at hp
          subst hp
          exact ⟨p', hp', ho⟩
        · rw [List.getElem?_set_ne (Ne.symm hqq)] at hp
          exact ⟨params, hp, ho⟩
    obtain ⟨p, hp', ho'⟩ := hold
    obtain ⟨url₂, hv, hq₂⟩ := hl.up q p v hp' ho'
    by_cases hvu : v = u
    · subst hvu
      rw [hu, Option.some_inj] at hv
      subst hv
      exact ⟨url', getElem?_set_self' hu, hq.trans hq₂⟩
    · exact ⟨url₂, by rw [List.getElem?_set_ne (Ne.symm hvu), hv], hq₂⟩

/-- `store` and then `#updateSearchParams`. -/
theorem Linked.update (hl : Linked as s) {u : Nat} {url : URL} (hu : s.urls[u]? = some url) (o : Ops) (serialization : Units)
    {spreads : Nat → Bool} {a : Act} (ha : a.changed = none) (hspread : ∀ n, spreads n = false → a.cannotSpread u n) :
    Linked (as ++ [a]) (updateSearchParams spreads (store s u url o serialization) u).1 := by
  obtain ⟨queryObject, old, components⟩ := url
  have hq : URL.queryObject ⟨queryObject, serialization, o.componentsBuf⟩ = queryObject := rfl
  have hnone : ∀ q, a.changed = some q → queryObject = some q := by simp [ha]
  unfold updateSearchParams store
  simp only [getElem?_set_self' hu]
  cases queryObject with
  | none => exact hl.replace hu hq hnone rfl
  | some q =>
    obtain ⟨params, hp, -⟩ := hl.down u _ q hu rfl
    simp only [hp]
    split
    · exact hl.replace hu hq hnone ⟨params, _, hp, rfl, .inl rfl⟩
    · next hs =>
      refine hl.replace hu hq hnone ⟨params, params.list, hp, (set_getElem?_self hp).symm, .inr (.last (hspread _ ?_))⟩
      exact Bool.eq_false_iff.2 hs

/-- `store` alone, where the pairs of the text stay. -/
theorem Linked.store (hl : Linked as s) {u : Nat} {url : URL} (hu : s.urls[u]? = some url) {o : Ops} {serialization : Units}
    {a : Act} (ha : a.changed = none)
    (hsame : paramsOf { url with serialization := serialization, components := o.componentsBuf } = paramsOf url) :
    Linked (as ++ [a]) (store s u url o serialization) := by
  obtain ⟨queryObject, old, components⟩ := url
  have hq : URL.queryObject ⟨queryObject, serialization, o.componentsBuf⟩ = queryObject := rfl
  have hnone : ∀ q, a.changed = some q → queryObject = some q := by simp [ha]
  cases queryObject with
  | none => exact hl.replace hu hq hnone rfl
  | some q =>
    obtain ⟨params, hp, -, hsync⟩ := hl.down u _ q hu rfl
    refine hl.replace hu hq hnone ⟨params, params.list, hp, (set_getElem?_self hp).symm, ?_⟩
    have hmore := hsync.more (a := a) (by rw [ha]; simp)
    rwa [InSync, ← hsame] at hmore

/-- After a change of its parameters, a `URL` has the pairs they have. -/
theorem changed_paramsOf (hC : C.Lawful) {url : URL} {p₀ p : UrlParts} {o : Ops} {l : List Pair} (hof : url.Of C p₀)
    (hp : reparsed C url.serialization .search (encode (Form.serialize l)) = some p)
    (ho : o.componentsBuf = internalComponents p noPort) :
    paramsOf { url with serialization := serialized url.serialization p, components := o.componentsBuf } = l := by
  rw [reparsed_eq hof, decode_encode] at hp
  have hstands := hC.set .search _ p₀ p hof.stands hp
  rw [paramsOf_eq hC (store_of hC hstands (.inr rfl) ho url.serialization)]
  obtain rfl : C.setSearch (Form.serialize l) p₀ = p := Option.some.inj hp
  rw [hC.search _ p₀ hof.stands, searchQuery_serialize, parse_asBytes]

theorem effect_linked (hC : C.Lawful) (ht : Texts C s) (hl : Linked as s) {a : Act} {s' : Realm} {x : Seen}
    (h : Effect C s a s' x) : Linked (as ++ [a]) s' := by
  have hof : ∀ {u : Nat} {url : URL}, s.urls[u]? = some url → ∃ p, url.Of C p := fun hu => ht _ (List.mem_of_getElem? hu)
  cases h with
  | same ha ho => exact hl.congr ha ho
  | made ha _ hurls hparams =>
    constructor
    · intro v url₂ q hv hq
      rw [hurls, List.getElem?_append] at hv
      rw [hparams]
      split at hv
      · obtain ⟨params, hp, ho, hsync⟩ := hl.down v url₂ q hv hq
        exact ⟨params, hp, ho, hsync.more (by rw [ha]; simp)⟩
      · have := List.mem_of_getElem? hv
        rw [List.mem_singleton] at this
        rw [this] at hq
        cases hq
    · intro q params v hp ho
      rw [hparams] at hp
      obtain ⟨url₂, hv, hq⟩ := hl.up q params v hp ho
      refine ⟨url₂, ?_, hq⟩
      rw [hurls, List.getElem?_append_left (List.getElem?_eq_some_iff.1 hv).1, hv]
  | parsed hu _ _ => exact hl.update hu _ _ rfl fun _ hs => ⟨rfl, hs⟩
  | @set u setter value spreads url p o _ hu hp ho hs =>
    subst hs
    split
    · next hsearch =>
      subst hsearch
      exact hl.update hu _ _ rfl fun _ hs => ⟨rfl, hs⟩
    · next hne =>
      -- The other setters leave the query as it is.
      apply hl.store hu rfl
      obtain ⟨p₀, hof⟩ := hof hu
      rw [reparsed_eq hof] at hp
      have hstands := hC.set setter _ p₀ p hof.stands hp
      rw [paramsOf_eq hC (store_of hC hstands (.inr rfl) ho url.serialization), paramsOf_eq hC hof,
        hC.others setter _ p₀ p hne hof.stands hp]
  | @given u url hu hq =>
    obtain ⟨p, hof⟩ := hof hu
    constructor
    · intro v url₂ q hv hq₂
      simp only at hv ⊢
      by_cases hvu : v = u
      · subst hvu
        rw [getElem?_set_self' hu, Option.some_inj] at hv
        subst hv
        obtain rfl : s.params.length = q := Option.some.inj hq₂
        exact ⟨_, List.getElem?_concat_length, rfl, .inl (ofString_search hC hof)⟩
      · rw [List.getElem?_set_ne (Ne.symm hvu)] at hv
        obtain ⟨params, hp, ho, hsync⟩ := hl.down v url₂ q hv hq₂
        refine ⟨params, ?_, ho, hsync.more (by simp [Act.changed])⟩
        rw [List.getElem?_append_left (List.getElem?_eq_some_iff.1 hp).1, hp]
    · intro q params v hp ho
      simp only at hp ⊢
      rw [List.getElem?_append] at hp
      split at hp
      · obtain ⟨url₂, hv, hq₂⟩ := hl.up q params v hp ho
        have hvu : v ≠ u := by
          rintro rfl
          rw [hu, Option.some_inj] at hv
          rw [hv, hq₂] at hq
          cases hq
        exact ⟨url₂, by rw [List.getElem?_set_ne hvu.symm, hv], hq₂⟩
      · next hge =>
        have hm := List.mem_of_getElem? hp
        rw [List.mem_singleton] at hm
        have hlast : q = s.params.length := by
          have := (List.getElem?_eq_some_iff.1 hp).1
          simp only [List.length_singleton] at this
          omega
        rw [hm, Option.some_inj] at ho
        subst ho
        exact ⟨_, getElem?_set_self' hu, congrArg some hlast.symm⟩
  | listed =>
    constructor
    · intro v url₂ q hv hq
      obtain ⟨params, hp, ho, hsync⟩ := hl.down v url₂ q hv hq
      refine ⟨params, ?_, ho, hsync.more (by simp [Act.changed])⟩
      simp only
      rw [List.getElem?_append_left (List.getElem?_eq_some_iff.1 hp).1, hp]
    · intro q params v hp ho
      simp only at hp
      rw [List.getElem?_append] at hp
      split at hp
      · exact hl.up q params v hp ho
      · have hm := List.mem_of_getElem? hp
        rw [List.mem_singleton] at hm
        rw [hm] at ho
        cases ho
  | @alone q c params hq ho =>
    have hold : ∀ {q' : Nat} {p : URLSearchParams} {v : Nat}, p.urlObject = some v →
        ((s.params.set q { params with list := c.apply params.list })[q']? = some p ↔ s.params[q']? = some p) := by
      intro q' p v hv
      by_cases hqq : q = q'
      · subst hqq
        rw [getElem?_set_self' hq, hq, Option.some_inj, Option.some_inj]
        constructor <;>
          · rintro rfl
            rw [ho] at hv
            cases hv
      · rw [List.getElem?_set_ne hqq]
    constructor
    · intro v url₂ q' hv hq'
      obtain ⟨p, hp, hpo, hsync⟩ := hl.down v url₂ q' hv hq'
      refine ⟨p, (hold hpo).2 hp, hpo, hsync.more ?_⟩
      rintro ⟨⟩
      rw [hq, Option.some_inj] at hp
      rw [← hp, ho] at hpo
      cases hpo
    · intro q' p v hp hpo
      exact hl.up q' p v ((hold hpo).1 hp) hpo
  | @followed q c params u url p o hq ho hu hp hbuf =>
    obtain ⟨url₂, hu₂, hq₂⟩ := hl.up q params u hq ho
    rw [hu, Option.some_inj] at hu₂
    subst hu₂
    obtain ⟨p₀, hof⟩ := hof hu
    have hlist := changed_paramsOf hC hof hp hbuf
    obtain ⟨queryObject, old, components⟩ := url
    obtain rfl : queryObject = some q := hq₂
    exact hl.replace hu rfl (fun _ hc => hc) ⟨params, _, hq, rfl, .inl hlist.symm⟩
  | @unfollowed q c params u _ _ hq ho hnone _ =>
    -- There is such a `URL`, and its search can be set.
    obtain ⟨url, hu, -⟩ := hl.up q params u hq ho
    obtain ⟨p, hof⟩ := hof hu
    have hn := hnone url hu
    rw [reparsed_eq hof] at hn
    cases hn

theorem run_linked (hC : C.Lawful) {as es s} (h : Run (realm C) as es s) : Linked as s := by
  refine h.inv (fun as _ s => Linked as s) ?_ ?_
  · constructor <;> simp [realm, initial]
  · intro _ _ s a s' out hr hl hs
    obtain ⟨x, -, he⟩ := step_effect hs
    exact effect_linked hC (run_texts hC hr) hl he

/-- In every state a run reaches, whichever of the two was changed, and however, the
parameters that a `URL` has given out hold what a script would get that makes
parameters of its `search`, unless an assignment to it could not pass on so many pairs
and they have not been changed since. -/
theorem search_in_sync (hC : C.Lawful) {as es s} (h : Run (realm C) as es s) {u : Nat} {url : URL} {q : Nat}
    (hu : s.urls[u]? = some url) (hq : url.queryObject = some q) :
    ∃ params, s.params[q]? = some params ∧ params.urlObject = some u ∧
      (params.list = ofString (decode url.search) ∨ Unspread as u q (ofString (decode url.search)).length) := by
  obtain ⟨params, hp, ho, hsync⟩ := (run_linked hC h).down u url q hu hq
  obtain ⟨p, hof⟩ := run_texts hC h url (List.mem_of_getElem? hu)
  rw [InSync, ← ofString_search hC hof] at hsync
  exact ⟨params, hp, ho, hsync⟩

/-- The two `URL`s of a run that have given parameters out, one of them with one pair fewer
than its text has. -/
theorem appended : ∃ es s url url' params params', Run (realm .tiny) appending es s ∧
    (s.urls[0]? = some url ∧ url.queryObject = some 0 ∧ s.params[0]? = some params ∧
      params.list = [(['x'], ['1']), (['y'], ['é'])]) ∧
    s.urls[1]? = some url' ∧ url'.queryObject = some 1 ∧ s.params[1]? = some params' ∧ params'.list = [(['q'], [])] ∧
      (ofString (decode url'.search)).length = 3 := by
  have hsome : ((realm .tiny).exec appending).any (fun r =>
      r.2.urls.map (·.queryObject) = [some 0, some 1, none] ∧
      r.2.params.map (·.list) = [[(['x'], ['1']), (['y'], ['é'])], [(['q'], [])]] ∧
      (r.2.urls.map fun url => (ofString (decode url.search)).length) = [2, 3, 0]) = true := by decide
  obtain ⟨⟨es, s⟩, h, hd⟩ := (Option.any_eq_true _ _).1 hsome
  obtain ⟨hurls, hparams, hlength⟩ := of_decide_eq_true hd
  obtain ⟨url, l, hl, hq, hrest⟩ := List.map_eq_cons_iff.1 hurls
  obtain ⟨url', l, rfl, hq', -⟩ := List.map_eq_cons_iff.1 hrest
  obtain ⟨params, m, hm, hp, hrest⟩ := List.map_eq_cons_iff.1 hparams
  obtain ⟨params', m, rfl, hp', -⟩ := List.map_eq_cons_iff.1 hrest
  rw [hl, List.map_cons, List.map_cons, List.cons.injEq, List.cons.injEq] at hlength
  refine ⟨es, s, url, url', params, params', run_of_exec h, ⟨?_, hq, ?_, hp⟩, ?_, hq', ?_, hp', hlength.2.1⟩
  · exact congrArg (·[0]?) hl
  · exact congrArg (·[0]?) hm
  · exact congrArg (·[1]?) hl
  · exact congrArg (·[1]?) hm

/-- One `URL` in step with its parameters, and one that could not pass on three pairs. -/
theorem search_in_sync_appending :
    ∃ es s url url' params params', Run (realm .tiny) appending es s ∧
      (s.urls[0]? = some url ∧ s.params[0]? = some params ∧
        (params.list = ofString (decode url.search) ∨ Unspread appending 0 0 (ofString (decode url.search)).length)) ∧
      s.urls[1]? = some url' ∧ s.params[1]? = some params' ∧
        params'.list ≠ ofString (decode url'.search) ∧ Unspread appending 1 1 (ofString (decode url'.search)).length := by
  obtain ⟨es, s, url, url', params, params', hr, ⟨hu, hq, hp, -⟩, hu', hq', hp', hlist, hlength⟩ := appended
  obtain ⟨_, hp₁, -, hsync⟩ := search_in_sync tiny_lawful hr hu hq
  rw [hp, Option.some_inj] at hp₁
  obtain ⟨_, hp₂, -, hsync'⟩ := search_in_sync tiny_lawful hr hu' hq'
  rw [hp', Option.some_inj] at hp₂
  have hne : params'.list ≠ ofString (decode url'.search) := by
    intro he
    rw [← he, hlist] at hlength
    cases hlength
  exact ⟨es, s, url, url', params, params', hr, ⟨hu, hp, hp₁ ▸ hsync⟩, hu', hp', hne, (hp₂ ▸ hsync').resolve_left hne⟩

/-- Changing the parameters of a `URL` throws nothing and does to all `URL`s what
assigning to its `search` does that the parameters then print; and it leaves all
parameters as that would exactly if the assignment can pass their pairs on, or the
change left them as they were. -/
theorem change_assigns (hC : C.Lawful) {as es s} (h : Run (realm C) as es s) {u : Nat} {url : URL} {q : Nat}
    {params : URLSearchParams} (hu : s.urls[u]? = some url) (hq : url.queryObject = some q) (hp : s.params[q]? = some params)
    (c : Change) (spreads : Nat → Bool) :
    (changeParams C s q params c).2 = .undefined ∧
      (setComponent C s u url .search (encode (opUrlStringifySearchParams (c.apply params.list))) spreads).2 = .undefined ∧
      (changeParams C s q params c).1.urls =
        (setComponent C s u url .search (encode (opUrlStringifySearchParams (c.apply params.list))) spreads).1.urls ∧
      ((changeParams C s q params c).1.params =
          (setComponent C s u url .search (encode (opUrlStringifySearchParams (c.apply params.list))) spreads).1.params ↔
        spreads (c.apply params.list).length = true ∨ c.apply params.list = params.list) := by
  obtain ⟨params', hp', ho, -⟩ := (run_linked hC h).down u url q hu hq
  rw [hp, Option.some_inj] at hp'
  subst hp'
  obtain ⟨p, hof⟩ := run_texts hC h url (List.mem_of_getElem? hu)
  obtain ⟨p', hset⟩ : ∃ p', reparsed C url.serialization .search (encode (Form.serialize (c.apply params.list))) = some p' :=
    ⟨_, reparsed_eq hof .search _⟩
  obtain ⟨slot, ht⟩ := taken_some s.ops url.serialization none noPort p'
  have hreparse : reparse C s.ops url.serialization .search (encode (opUrlStringifySearchParams (c.apply params.list))) = _ :=
    (reparse_taken C s.ops url.serialization .search _).trans ((congrArg _ hset).trans ht)
  have hlist := changed_paramsOf hC hof hset (o := ⟨slot, internalComponents p' noPort⟩) rfl
  rw [paramsOf, serialized] at hlist
  unfold changeParams updateUrlSearch setComponent updateSearchParams store
  simp only [ho, hu, hreparse, if_true, getElem?_set_self' hu, hq, hp]
  rw [hq] at hlist
  rw [hlist]
  cases hs : spreads (c.apply params.list).length with
  | true => exact ⟨trivial, trivial, rfl, iff_of_true rfl (.inl rfl)⟩
  | false =>
    refine ⟨trivial, trivial, rfl, ?_⟩
    simp only [Bool.false_eq_true, if_false, false_or]
    constructor
    · intro he
      have hq := congrArg (·[q]?) he
      simp only [getElem?_set_self' hp, hp, Option.some_inj] at hq
      exact congrArg URLSearchParams.list hq
    · intro he
      rw [he, ← ho]
      exact set_getElem?_self hp

theorem change_assigns_appending :
    ∃ es s url params, Run (realm .tiny) appending es s ∧ s.urls[0]? = some url ∧ s.params[0]? = some params ∧
      (changeParams .tiny s 0 params (.delete ['x'] none)).2 = .undefined ∧
      (changeParams .tiny s 0 params (.append ['z'] [])).1.params ≠
        (setComponent .tiny s 0 url .search (encode (opUrlStringifySearchParams (params.list ++ [(['z'], [])]))) (· < 3)).1.params := by
  obtain ⟨es, s, url, _, params, _, hr, ⟨hu, hq, hp, hlist⟩, -⟩ := appended
  have hdelete := change_assigns tiny_lawful hr hu hq hp (.delete ['x'] none) (· < 3)
  have happend := change_assigns tiny_lawful hr hu hq hp (.append ['z'] []) (· < 3)
  refine ⟨es, s, url, params, hr, hu, hp, hdelete.1, fun he => ?_⟩
  have hfits := happend.2.2.2.1 he
  simp [Change.apply, hlist] at hfits

end LuauFusion.WebUrl
