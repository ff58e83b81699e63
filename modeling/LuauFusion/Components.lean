import LuauFusion.Scratch
/-!
# What a `URL` reads

A `URL` slices its components out of its text, at positions in bytes that it uses
as positions in UTF-16 units. In every state a run reaches, the slices are the
components that its text parses to (`getters_agree`), with one exception: where
there is no host and the path starts with two slashes, `host` and `port` show the
dot that stands in front of the path.
-/
open LuauFusion.Lib LuauFusion.Lib.Utf16 LuauFusion.Lib.Url

namespace LuauFusion.WebUrl

variable {C : Crate} {s : Realm}

/-- The object `u` is the URL `p`. -/
structure URL.Of (C : Crate) (u : URL) (p : UrlParts) : Prop where
  stands : C.Stands p
  serialization : u.serialization = encode p.href
  components : u.components = internalComponents p 0 ∨ u.components = internalComponents p noPort

/-! ## Slices of text -/

theorem slice_encode {cs : List Char} (h : ∀ c ∈ cs, c.toNat < 128) (a b : Nat) :
    slice (encode cs) a b = encode (UrlParts.slice a b cs) := by
  rw [slice, encode_take h, encode_drop fun c hc => h c (List.mem_of_mem_take hc)]
  rfl

theorem trim_encode {cs : List Char} (h : ∀ c ∈ cs, c.toNat < 128) :
    trim (encode cs) = encode (if cs.length = 1 then [] else cs) := by
  rw [trim, encode_length h]
  split <;> rfl

/-- What `quirks` has for a component. -/
def component (p : UrlParts) : Getter → List Char
  | .hash => if p.fragmentText.length = 1 then [] else p.fragmentText
  | .host => if p.authority.isSome then p.hostText ++ p.portText else []
  | .hostname => p.hostText
  | .href => p.href
  | .password => (p.authority.bind (·.password)).getD []
  | .pathname => p.path
  | .port => if p.authority.isSome then p.portText.drop 1 else []
  | .protocol => p.scheme ++ [':']
  | .search => if p.queryText.length = 1 then [] else p.queryText
  | .username => (p.authority.map (·.username)).getD []

section
variable {u : URL} {p : UrlParts}

theorem pathEnd_pos (p : UrlParts) : 0 < p.pathEnd := by
  have hu : 0 < p.userText.length := by
    unfold UrlParts.userText
    split <;> simp
  simp only [UrlParts.pathEnd, UrlParts.pathStart, UrlParts.hostEnd, UrlParts.hostStart, UrlParts.usernameEnd]
  omega

theorem queryEnd_pos (p : UrlParts) : 0 < p.queryEnd := by
  have := pathEnd_pos p
  simp only [UrlParts.queryEnd]
  omega

theorem URL.Of.ascii (hC : C.Lawful) (h : u.Of C p) : ∀ c ∈ p.href, c.toNat < 128 := hC.ascii p h.stands

/-- All positions but the port's number. -/
theorem URL.Of.positions (h : u.Of C p) :
    u.components.schemeEnd = p.schemeEnd ∧ u.components.usernameEnd = p.usernameEnd ∧ u.components.hostStart = p.hostStart ∧
      u.components.hostEnd = p.hostEnd ∧ u.components.pathStart = p.pathStart ∧
      u.components.queryStart = p.queryStart.getD 0 ∧ u.components.fragmentStart = p.fragmentStart.getD 0 := by
  rcases h.components with hc | hc <;>
    · rw [hc]
      exact ⟨rfl, rfl, rfl, rfl, rfl, rfl, rfl⟩

theorem queryStart_eq (p : UrlParts) : p.queryStart.getD 0 = if p.query.isSome then p.pathEnd else 0 := by
  unfold UrlParts.queryStart
  cases p.query <;> rfl

theorem fragmentStart_eq (p : UrlParts) : p.fragmentStart.getD 0 = if p.fragment.isSome then p.queryEnd else 0 := by
  unfold UrlParts.fragmentStart
  cases p.fragment <;> rfl

theorem queryEnd_none {p : UrlParts} (h : p.query.isSome = false) : p.queryEnd = p.pathEnd := by
  have hq : p.queryText = [] := by
    unfold UrlParts.queryText
    cases hp : p.query with
    | none => rfl
    | some q => simp [hp] at h
  rw [UrlParts.queryEnd, hq]
  rfl

theorem href_length_none {p : UrlParts} (h : p.fragment.isSome = false) : p.href.length = p.queryEnd := by
  have hf : p.fragmentText = [] := by
    unfold UrlParts.fragmentText
    cases hp : p.fragment with
    | none => rfl
    | some f => simp [hp] at h
  rw [UrlParts.href_length, hf]
  rfl

theorem protocol_eq (hC : C.Lawful) (h : u.Of C p) : u.protocol = encode (p.scheme ++ [':']) := by
  obtain ⟨hs, -⟩ := h.positions
  rw [URL.protocol, h.serialization, hs, slice_encode (h.ascii hC)]
  have hhead : ∃ rest, p.href = p.scheme ++ ([':'] ++ rest) := by
    unfold UrlParts.href UrlParts.userText
    cases p.authority <;> exact ⟨_, rfl⟩
  obtain ⟨rest, hr⟩ := hhead
  have hlen : p.schemeEnd + 1 = p.scheme.length + [':'].length := rfl
  rw [hr, hlen, UrlParts.slice_left_append]

theorem hostname_eq (hC : C.Lawful) (h : u.Of C p) : u.hostname = encode p.hostText := by
  obtain ⟨-, -, hs, he, -⟩ := h.positions
  rw [URL.hostname, h.serialization, hs, he, slice_encode (h.ascii hC), UrlParts.slice_host]

theorem host_eq (hC : C.Lawful) (h : u.Of C p) : u.host = encode (p.hostText ++ p.portText) := by
  obtain ⟨-, -, hs, -, he, -⟩ := h.positions
  rw [URL.host, h.serialization, hs, he, slice_encode (h.ascii hC), UrlParts.slice_hostPort]

/-- Without a port, the colon may be looked for or not. -/
theorem port_eq (hC : C.Lawful) (h : u.Of C p) :
    u.port = encode (if u.components.port = noPort then p.portText else p.portText.drop 1) := by
  obtain ⟨-, -, -, hs, he, -⟩ := h.positions
  rw [URL.port, h.serialization, hs, he, slice_encode (h.ascii hC), slice_encode (h.ascii hC), UrlParts.slice_port,
    UrlParts.slice_portNumber]
  split <;> rfl

theorem port_none (hC : C.Lawful) (h : u.Of C p) (ha : p.authority = none) :
    u.port = if p.dotted then text (if u.components.port = noPort then "/." else ".") else [] := by
  rw [port_eq hC h, UrlParts.portText, ha]
  simp only
  by_cases hd : p.dotted = true
  · simp only [hd, if_true]
    split <;> rfl
  · simp only [hd]
    split <;> rfl

theorem port_some (hC : C.Lawful) (h : u.Of C p) {a : UrlAuthority} (ha : p.authority = some a) :
    u.port = encode (p.portText.drop 1) := by
  rw [port_eq hC h]
  split
  · next hn =>
    cases hp : a.port with
    | none =>
      have hnone : p.portText = [] := by simp [UrlParts.portText, ha, hp]
      rw [hnone]
      rfl
    | some n =>
      -- A port's number is not the one that says there is none.
      have hlt := ((hC.valid p h.stands).port a ha n hp).2
      have hport : u.components.port = n := by
        rcases h.components with hc | hc <;> rw [hc] <;> simp [internalComponents, portOf, ha, hp]
      rw [hport, noPort] at hn
      omega
  · rfl

theorem pathname_eq (hC : C.Lawful) (h : u.Of C p) : u.pathname = encode p.path := by
  obtain ⟨-, -, -, -, hs, hq, hf⟩ := h.positions
  have hpath := pathEnd_pos p
  have hquery := queryEnd_pos p
  rw [URL.pathname, h.serialization, hs, hq, hf, queryStart_eq, fragmentStart_eq, encode_drop (h.ascii hC),
    slice_encode (h.ascii hC)]
  by_cases hqs : p.query.isSome = true
  · simp [hqs, orElse, hpath.ne', UrlParts.slice_path]
  · rw [Bool.not_eq_true] at hqs
    by_cases hfs : p.fragment.isSome = true
    · simp [hqs, hfs, orElse, queryEnd_none hqs, UrlParts.slice_path, hpath.ne']
    · rw [Bool.not_eq_true] at hfs
      have hlen : p.href.length = p.pathEnd := by rw [href_length_none hfs, queryEnd_none hqs]
      simp only [hqs, hfs, Bool.false_eq_true, if_false]
      rw [← UrlParts.slice_end, hlen, UrlParts.slice_path]
      rfl

theorem search_eq (hC : C.Lawful) (h : u.Of C p) :
    u.search = encode (if p.queryText.length = 1 then [] else p.queryText) := by
  obtain ⟨-, -, -, -, -, hq, hf⟩ := h.positions
  have hpath := pathEnd_pos p
  have hquery := queryEnd_pos p
  have hend : orElse u.components.fragmentStart u.serialization.length = p.queryEnd := by
    rw [h.serialization, encode_length (h.ascii hC), hf, fragmentStart_eq]
    by_cases hfs : p.fragment.isSome = true
    · simp [hfs, orElse, hquery.ne']
    · rw [Bool.not_eq_true] at hfs
      simp [hfs, orElse, href_length_none hfs]
  have hstart : orElse (orElse u.components.queryStart u.components.fragmentStart) u.serialization.length = p.pathEnd := by
    rw [hq, queryStart_eq]
    by_cases hqs : p.query.isSome = true
    · simp [hqs, orElse, hpath.ne']
    · rw [Bool.not_eq_true] at hqs
      rw [← queryEnd_none hqs, ← hend]
      simp [hqs, orElse]
  have hascii : ∀ c ∈ p.queryText, c.toNat < 128 := by
    intro c hc
    apply h.ascii hC
    rw [← UrlParts.slice_query] at hc
    exact List.mem_of_mem_take (List.mem_of_mem_drop hc)
  rw [URL.search, hstart, hend, h.serialization, slice_encode (h.ascii hC), UrlParts.slice_query, trim_encode hascii]

theorem hash_eq (hC : C.Lawful) (h : u.Of C p) :
    u.hash = encode (if p.fragmentText.length = 1 then [] else p.fragmentText) := by
  obtain ⟨-, -, -, -, -, -, hf⟩ := h.positions
  have hquery := queryEnd_pos p
  have hascii : ∀ c ∈ p.fragmentText, c.toNat < 128 := by
    intro c hc
    apply h.ascii hC
    rw [← UrlParts.slice_fragment] at hc
    exact List.mem_of_mem_drop hc
  rw [URL.hash, hf, fragmentStart_eq]
  by_cases hfs : p.fragment.isSome = true
  · simp only [hfs, if_true, hquery.ne', if_false]
    rw [h.serialization, encode_drop (h.ascii hC), UrlParts.slice_fragment, trim_encode hascii]
  · have hnone : p.fragmentText = [] := by
      unfold UrlParts.fragmentText
      cases hp : p.fragment with
      | none => rfl
      | some f => simp [hp] at hfs
    simp [hfs, hnone]

theorem hasAuthority_eq (hC : C.Lawful) (h : u.Of C p) : u.hasAuthority = p.authority.isSome := by
  obtain ⟨hs, -⟩ := h.positions
  have hprefix : ∀ {a b : List Char}, (∀ c ∈ a, c.toNat < 128) → (∀ c ∈ b, c.toNat < 128) →
      (encode a).isPrefixOf (encode b) = a.isPrefixOf b := by
    intro a b ha hb
    rw [Bool.eq_iff_iff, List.isPrefixOf_iff_prefix, List.isPrefixOf_iff_prefix, List.prefix_iff_eq_take, List.prefix_iff_eq_take,
      encode_length ha, encode_take hb]
    exact ⟨encode_inj, congrArg encode⟩
  rw [URL.hasAuthority, h.serialization, hs, encode_drop (h.ascii hC), text,
    hprefix (by simp) fun c hc => h.ascii hC c (List.mem_of_mem_drop hc), UrlParts.hasAuthority_iff]

theorem username_eq (hC : C.Lawful) (h : u.Of C p) : u.username = encode ((p.authority.map (·.username)).getD []) := by
  obtain ⟨hs, he, -⟩ := h.positions
  rw [URL.username, hasAuthority_eq hC h, hs, he, h.serialization, slice_encode (h.ascii hC)]
  cases ha : p.authority with
  | none => rfl
  | some a =>
    have hlen : p.usernameEnd = p.schemeEnd + 3 + a.username.length := by
      rw [UrlParts.usernameEnd, UrlParts.userText, ha]
      simp only [List.length_cons]
      omega
    rw [UrlParts.slice_username p ha]
    by_cases hu : a.username = []
    · simp [hu, hlen]
    · have hpos := List.length_pos_iff.2 hu
      have hgt : p.usernameEnd > p.schemeEnd + 3 := by omega
      simp [hgt]

theorem password_eq (hC : C.Lawful) (h : u.Of C p) :
    u.password = encode ((p.authority.bind (·.password)).getD []) := by
  obtain ⟨-, hs, he, -⟩ := h.positions
  have hunit : ∀ n : Nat, (encode p.href)[n]? = some 0x3A ↔ p.href[n]? = some ':' := by
    intro n
    rw [encode_ascii (h.ascii hC), List.getElem?_map, Option.map_eq_some_iff]
    constructor
    · rintro ⟨c, hc, he⟩
      have hlt := h.ascii hC c (List.mem_of_getElem? hc)
      have hnat : (UInt16.ofNat c.toNat).toNat = c.toNat :=
        UInt16.toNat_ofNat_of_lt (by simp only [UInt16.size]; omega)
      rw [he] at hnat
      rw [hc, Option.some_inj, ← Char.toNat_inj]
      exact hnat.symm
    · intro hc
      exact ⟨':', hc, rfl⟩
  rw [URL.password, hasAuthority_eq hC h, hs, he, h.serialization, slice_encode (h.ascii hC), encode_length (h.ascii hC)]
  cases ha : p.authority with
  | none => rfl
  | some a =>
    have hcolon := UrlParts.colon_iff p (hC.valid p h.stands) ha
    cases hw : a.password with
    | none =>
      rw [hw] at hcolon
      have hne : ((encode p.href)[p.usernameEnd]? == some 0x3A) = false := by
        rw [beq_eq_false_iff_ne, Ne, hunit, hcolon]
        simp
      simp [hne, hw]
    | some w =>
      rw [hw] at hcolon
      have hc := hcolon.2 rfl
      have heq : ((encode p.href)[p.usernameEnd]? == some 0x3A) = true := by
        rw [beq_iff_eq, hunit, hc]
      have hlt : p.usernameEnd ≠ p.href.length := by
        intro hn
        rw [hn, List.getElem?_eq_none (Nat.le_refl _)] at hc
        cases hc
      simp [heq, hlt, hw, UrlParts.slice_password p ha hw]

theorem get_iff (hC : C.Lawful) (h : u.Of C p) (g : Getter) :
    u.get g = encode (component p g) ↔ ¬ (p.dotted = true ∧ (g = .host ∨ g = .port)) := by
  have hall : ∀ {g : Getter}, u.get g = encode (component p g) → g ≠ .host ∧ g ≠ .port →
      (u.get g = encode (component p g) ↔ ¬ (p.dotted = true ∧ (g = .host ∨ g = .port))) := by
    rintro g he ⟨hh, hp⟩
    exact iff_of_true he fun hd => hd.2.elim hh hp
  cases g with
  | hash => exact hall (hash_eq hC h) (by simp)
  | hostname => exact hall (hostname_eq hC h) (by simp)
  | href => exact hall h.serialization (by simp)
  | password => exact hall (password_eq hC h) (by simp)
  | pathname => exact hall (pathname_eq hC h) (by simp)
  | protocol => exact hall (protocol_eq hC h) (by simp)
  | search => exact hall (search_eq hC h) (by simp)
  | username => exact hall (username_eq hC h) (by simp)
  | host =>
    have hu : u.get .host = encode (p.hostText ++ p.portText) := host_eq hC h
    rw [hu, component]
    cases ha : p.authority with
    | some a => simp [UrlParts.dotted, ha]
    | none =>
      have hnone : p.hostText = [] := by simp [UrlParts.hostText, ha]
      simp only [Option.isSome_none, Bool.false_eq_true, if_false, encode_nil, encode_eq_nil, hnone, List.nil_append,
        UrlParts.portText, ha]
      by_cases hd : p.dotted = true <;> simp [hd]
  | port =>
    show u.port = _ ↔ _
    rw [component]
    cases ha : p.authority with
    | some a => simp [port_some hC h ha, UrlParts.dotted, ha]
    | none =>
      rw [port_none hC h ha]
      by_cases hd : p.dotted = true
      · have hne : text (if u.components.port = noPort then "/." else ".") ≠ [] := by
          rw [text, Ne, encode_eq_nil]
          split <;> decide
        simp [hd, hne]
      · simp [hd]

end

/-! ## What a call changes -/

/-- The text `getSerialization` gives for a URL made of `href`. -/
def serialized (href : Units) (p : UrlParts) : Units := if p.href = decode href then href else encode p.href

theorem serialized_eq {p : UrlParts} (h : ∀ c ∈ p.href, c.toNat < 128) (href : Units) : serialized href p = encode p.href := by
  unfold serialized
  split
  · next he =>
    rw [he] at h ⊢
    exact (encode_decode h).symm
  · rfl

/-- The parameters that a call changes. -/
def Act.changed : Act → Option Nat
  | .change q _ => some q
  | _ => none

/-- A call and the objects after it. -/
inductive Effect (C : Crate) (s : Realm) : Act → Realm → Seen → Prop
  | same {a s' x} : a.changed = none → objects s' = objects s → Effect C s a s' x
  | made {a url base p s' x} : a.changed = none → parsed C url base = some p →
      s'.urls = s.urls ++ [⟨none, serialized url p, internalComponents p 0⟩] → s'.params = s.params → Effect C s a s' x
  | parsed {u value spreads url p o x} : s.urls[u]? = some url → parsed C value none = some p →
      o.componentsBuf = internalComponents p 0 →
      Effect C s (.setHref u value spreads) (updateSearchParams spreads (store s u url o (serialized value p)) u).1 x
  | set {u setter value spreads url p o s'} : s.urls[u]? = some url → reparsed C url.serialization setter value = some p →
      o.componentsBuf = internalComponents p noPort →
      s' = (if setter = .search then (updateSearchParams spreads (store s u url o (serialized url.serialization p)) u).1
        else store s u url o (serialized url.serialization p)) →
      Effect C s (.set u setter value spreads) s' .undefined
  | given {u url} : s.urls[u]? = some url → url.queryObject = none →
      Effect C s (.searchParams u) { s with
        urls := s.urls.set u { url with queryObject := some s.params.length }
        params := s.params ++ [⟨ofString (decode url.search), some u⟩] } (.params s.params.length)
  | listed {init list} : Effect C s (.newSearchParams init) { s with params := s.params ++ [⟨list, none⟩] }
      (.params s.params.length)
  | alone {q c params} : s.params[q]? = some params → params.urlObject = none →
      Effect C s (.change q c) { s with params := s.params.set q { params with list := c.apply params.list } } .undefined
  | followed {q c params u url p o} : s.params[q]? = some params → params.urlObject = some u → s.urls[u]? = some url →
      reparsed C url.serialization .search (encode (Form.serialize (c.apply params.list))) = some p →
      o.componentsBuf = internalComponents p noPort →
      Effect C s (.change q c) (store { s with params := s.params.set q { params with list := c.apply params.list } } u url o
        (serialized url.serialization p)) .undefined
  | unfollowed {q c params u s' x} : s.params[q]? = some params → params.urlObject = some u →
      (∀ url, s.urls[u]? = some url →
        reparsed C url.serialization .search (encode (Form.serialize (c.apply params.list))) = none) →
      objects s' = objects { s with params := s.params.set q { params with list := c.apply params.list } } →
      Effect C s (.change q c) s' x

theorem create_effect {a : Act} (ha : a.changed = none) (url : Units) (base : Option Units) :
    Effect C s a (create s (parseHref C s.ops url base).1 (parseHref C s.ops url base).2 url base).1
      (create s (parseHref C s.ops url base).1 (parseHref C s.ops url base).2 url base).2 := by
  unfold create
  rw [parse_taken]
  cases hp : parsed C url base with
  | none => exact .same ha rfl
  | some p =>
    obtain ⟨slot, h⟩ := taken_some s.ops url base 0 p
    rw [h]
    exact .made ha hp rfl rfl

theorem setHref_effect {u : Nat} {url : URL} (hu : s.urls[u]? = some url) (value : Units) (spreads : Nat → Bool) :
    Effect C s (.setHref u value spreads) (setHref C s u url value spreads).1 (setHref C s u url value spreads).2 := by
  unfold setHref
  simp only [parse_taken]
  cases hp : parsed C value none with
  | none => exact .same rfl rfl
  | some p =>
    obtain ⟨slot, h⟩ := taken_some s.ops value none 0 p
    rw [h]
    exact .parsed hu hp rfl

theorem setComponent_effect {u : Nat} {url : URL} (hu : s.urls[u]? = some url) (setter : UrlSetter) (value : Units)
    (spreads : Nat → Bool) : Effect C s (.set u setter value spreads) (setComponent C s u url setter value spreads).1
      (setComponent C s u url setter value spreads).2 := by
  unfold setComponent
  simp only [reparse_taken]
  cases hp : reparsed C url.serialization setter value with
  | none => exact .same rfl rfl
  | some p =>
    obtain ⟨slot, h⟩ := taken_some s.ops url.serialization none noPort p
    rw [h]
    exact .set hu hp rfl rfl

theorem changeParams_effect {q : Nat} {params : URLSearchParams} (hq : s.params[q]? = some params) (c : Change) :
    Effect C s (.change q c) (changeParams C s q params c).1 (changeParams C s q params c).2 := by
  obtain ⟨list, owner⟩ := params
  unfold changeParams updateUrlSearch
  cases owner with
  | none => exact .alone hq rfl
  | some u =>
    simp only
    cases hu : s.urls[u]? with
    | none =>
      refine .unfollowed hq rfl (fun url h => ?_) rfl
      rw [hu] at h
      cases h
    | some url =>
      simp only [reparse_taken]
      cases hp : reparsed C url.serialization .search (encode (opUrlStringifySearchParams (c.apply list))) with
      | none =>
        refine .unfollowed hq rfl (fun url' h => ?_) rfl
        rw [hu, Option.some_inj] at h
        rw [← h]
        exact hp
      | some p =>
        obtain ⟨slot, h⟩ := taken_some s.ops url.serialization none noPort p
        rw [h]
        exact .followed hq rfl hu hp rfl

theorem step_effect {a : Act} {s' : Realm} {out : List Seen} (h : step C s a = some (s', out)) :
    ∃ x, out = [x] ∧ Effect C s a s' x := by
  have hone : ∀ {r : Realm × Seen}, Effect C s a r.1 r.2 → (r.1, [r.2]) = (s', out) → ∃ x, out = [x] ∧ Effect C s a s' x := by
    rintro r he hr
    cases hr
    exact ⟨_, rfl, he⟩
  cases a with
  | newUrl url base => exact hone (create_effect rfl url base) (Option.some.inj h)
  | parse url base =>
    refine hone (r := parseOrNull C s url base) ?_ (Option.some.inj h)
    unfold parseOrNull
    simp only
    split
    · exact .same rfl rfl
    · exact create_effect rfl url base
  | canParse url base => exact hone (r := canParse C s url base) (.same rfl rfl) (Option.some.inj h)
  | newSearchParams init =>
    refine hone (r := newSearchParams s init) ?_ (Option.some.inj h)
    unfold newSearchParams
    cases init.list with
    | ok l => exact .listed
    | error f => exact .same rfl rfl
  | get u getter =>
    obtain ⟨url, -, he⟩ := Option.map_eq_some_iff.1 h
    exact hone (.same rfl rfl) he
  | setHref u value spreads =>
    obtain ⟨url, hu, he⟩ := Option.map_eq_some_iff.1 h
    exact hone (setHref_effect hu value spreads) he
  | set u setter value spreads =>
    obtain ⟨url, hu, he⟩ := Option.map_eq_some_iff.1 h
    exact hone (setComponent_effect hu setter value spreads) he
  | searchParams u =>
    obtain ⟨url, hu, he⟩ := Option.map_eq_some_iff.1 h
    refine hone ?_ he
    unfold searchParams
    cases hq : url.queryObject with
    | none => exact .given hu hq
    | some q => exact .same rfl rfl
  | change q c =>
    obtain ⟨params, hq, he⟩ := Option.map_eq_some_iff.1 h
    exact hone (changeParams_effect hq c) he
  | read q query =>
    obtain ⟨params, -, he⟩ := Option.map_eq_some_iff.1 h
    exact hone (.same rfl rfl) he

/-! ## Every text is a URL -/

/-- Every `URL` is one that its text parses to. -/
def Texts (C : Crate) (s : Realm) : Prop := ∀ u ∈ s.urls, ∃ p, u.Of C p

theorem updateSearchParams_urls (s : Realm) (u : Nat) (spreads : Nat → Bool) :
    (updateSearchParams spreads s u).1.urls = s.urls := by
  unfold updateSearchParams
  split
  · rfl
  · split
    · rfl
    · split
      · rfl
      · simp only
        split <;> rfl

theorem parsed_stands (hC : C.Lawful) {url : Units} {base : Option Units} {p : UrlParts} (h : parsed C url base = some p) :
    C.Stands p := by
  cases base with
  | none => exact hC.parse none _ p (by simp) h
  | some b =>
    obtain ⟨b', hb, hp⟩ := Option.bind_eq_some_iff.1 h
    refine hC.parse (some b') _ p ?_ hp
    intro c hc
    obtain rfl := Option.some_inj.1 hc
    exact hC.parse none _ b' (by simp) hb

/-- A setter acts on the URL that the object is. -/
theorem reparsed_eq {u : URL} {p : UrlParts} (h : u.Of C p) (setter : UrlSetter) (value : Units) :
    reparsed C u.serialization setter value = C.set setter (decode value) p := by
  have hp : C.parse none p.href = some p := h.stands
  rw [reparsed, h.serialization, decode_encode, hp, Option.bind_some]

/-- What a stored URL is. -/
theorem store_of (hC : C.Lawful) {url : URL} {p : UrlParts} {o : Ops} {n : Nat} (hp : C.Stands p) (hn : n = 0 ∨ n = noPort)
    (ho : o.componentsBuf = internalComponents p n) (href : Units) :
    URL.Of C { url with serialization := serialized href p, components := o.componentsBuf } p := by
  refine ⟨hp, serialized_eq (hC.ascii p hp) href, ?_⟩
  rcases hn with rfl | rfl
  · exact .inl ho
  · exact .inr ho

theorem Texts.store (hC : C.Lawful) (ht : Texts C s) {u : Nat} {url : URL} {p : UrlParts} {o : Ops} {n : Nat}
    (hp : C.Stands p) (hn : n = 0 ∨ n = noPort) (ho : o.componentsBuf = internalComponents p n) (href : Units) :
    Texts C (store s u url o (serialized href p)) := by
  intro v hv
  rcases List.mem_or_eq_of_mem_set hv with hv | rfl
  · exact ht v hv
  · exact ⟨p, store_of hC hp hn ho href⟩

theorem effect_texts (hC : C.Lawful) (ht : Texts C s) {a : Act} {s' : Realm} {x : Seen} (h : Effect C s a s' x) : Texts C s' := by
  have hset : ∀ {u : Nat} {url : URL} {p : UrlParts} {setter : UrlSetter} {value : Units}, s.urls[u]? = some url →
      reparsed C url.serialization setter value = some p → C.Stands p := by
    intro u url p setter value hu hp
    obtain ⟨p₀, hof⟩ := ht url (List.mem_of_getElem? hu)
    rw [reparsed_eq hof] at hp
    exact hC.set setter _ p₀ p hof.stands hp
  cases h with
  | same _ ho =>
    intro u hu
    rw [(Prod.mk.inj ho).1] at hu
    exact ht u hu
  | @made _ url base p _ _ _ hp hurls =>
    intro u hu
    rw [hurls, List.mem_append, List.mem_singleton] at hu
    rcases hu with hu | rfl
    · exact ht u hu
    · have hstands := parsed_stands hC hp
      exact ⟨p, hstands, serialized_eq (hC.ascii p hstands) url, .inl rfl⟩
  | parsed hu hp ho =>
    intro v hv
    rw [updateSearchParams_urls] at hv
    exact ht.store hC (parsed_stands hC hp) (.inl rfl) ho _ v hv
  | set hu hp ho hs =>
    intro v hv
    rw [hs] at hv
    split at hv
    · rw [updateSearchParams_urls] at hv
      exact ht.store hC (hset hu hp) (.inr rfl) ho _ v hv
    · exact ht.store hC (hset hu hp) (.inr rfl) ho _ v hv
  | @given u url hu =>
    intro v hv
    rcases List.mem_or_eq_of_mem_set hv with hv | rfl
    · exact ht v hv
    · obtain ⟨p, hof⟩ := ht url (List.mem_of_getElem? hu)
      exact ⟨p, hof.stands, hof.serialization, hof.components⟩
  | listed => exact ht
  | alone => exact ht
  | followed _ _ hu hp ho =>
    refine Texts.store (s := { s with params := _ }) hC ?_ (hset hu hp) (.inr rfl) ho _
    exact ht
  | unfollowed _ _ _ ho =>
    intro u hu
    rw [(Prod.mk.inj ho).1] at hu
    exact ht u hu

theorem run_texts (hC : C.Lawful) {as es s} (h : Run (realm C) as es s) : Texts C s := by
  refine h.inv (fun _ _ s => Texts C s) (by simp [realm, initial, Texts]) ?_
  intro _ _ s a s' out _ ht hs
  obtain ⟨x, -, he⟩ := step_effect hs
  exact effect_texts hC ht he

/-! ## A few URLs -/

theorem encoded_plain (q : List Char) : ∀ c ∈ percentEncode (querySet false) q, querySet false c = false := by
  intro c hc
  rcases percentEncode_mem hc with ⟨-, hs⟩ | hm
  · exact hs
  · have hall : ("%0123456789ABCDEF".toList.all fun d => !querySet false d) = true := by decide
    simpa using List.all_eq_true.1 hall c hm

theorem plain_lt {c : Char} (h : querySet false c = false) : c.toNat < 128 := by
  simp only [querySet, c0Set, Bool.or_eq_false_iff, decide_eq_false_iff_not] at h
  omega

theorem stem_href (stem : Stem) (q : Option (List Char)) : (stem.parts q).href = stem.text ++ (stem.parts q).queryText := by
  have hport : Nat.toDigits 10 1 = ['1'] := rfl
  cases stem <;>
    simp [hport, Stem.parts, Stem.text, UrlParts.href, UrlParts.userText, UrlParts.passwordText, UrlParts.hostText,
      UrlParts.portText, UrlParts.dotted, UrlParts.fragmentText]

theorem stem_parse (stem : Stem) (rest : List Char) : Crate.tiny.parse none (stem.text ++ rest) = stem.parse rest := by
  cases stem <;> rfl

theorem stem_query (stem : Stem) (q : Option (List Char)) : (stem.parts q).query = q := by cases stem <;> rfl

theorem stem_none (stem : Stem) : Crate.tiny.Stands (stem.parts none) := by
  rw [Crate.Stands, stem_href, stem_parse, UrlParts.queryText, stem_query]
  rfl

theorem stem_some (stem : Stem) (q : List Char) : Crate.tiny.Stands (stem.parts (some (percentEncode (querySet false) q))) := by
  rw [Crate.Stands, stem_href, stem_parse, UrlParts.queryText, stem_query]
  show some (stem.parts (some (percentEncode (querySet false) (percentEncode (querySet false) q)))) = _
  rw [percentEncode_eq (encoded_plain q)]

/-- The URLs that the crate knows. -/
theorem tiny_of_parse {base : Option UrlParts} {href : List Char} {p : UrlParts} (h : Crate.tiny.parse base href = some p) :
    ∃ stem : Stem, p = stem.parts none ∨ ∃ q, p = stem.parts (some (percentEncode (querySet false) q)) := by
  have hstem : ∀ {stem : Stem} {rest : List Char}, stem.parse rest = some p →
      p = stem.parts none ∨ ∃ q, p = stem.parts (some (percentEncode (querySet false) q)) := by
    intro stem rest h
    unfold Stem.parse at h
    split at h
    · exact .inl (Option.some.inj h).symm
    · exact .inr ⟨_, (Option.some.inj h).symm⟩
    · cases h
  unfold Crate.tiny at h
  simp only at h
  split at h
  · exact ⟨.plain, hstem h⟩
  · exact ⟨.hosted, hstem h⟩
  · exact ⟨.dotted, hstem h⟩
  · cases h

theorem tiny_search (stem : Stem) (value : List Char) (q : Option (List Char)) :
    Crate.tiny.Stands { stem.parts q with query := searchQuery (stem.parts q).scheme value } := by
  have hparts : ∀ q', { stem.parts q with query := q' } = stem.parts q' := by
    intro q'
    cases stem <;> rfl
  have hspecial : isSpecial (stem.parts q).scheme = false := by cases stem <;> rfl
  rw [hparts]
  unfold searchQuery
  rw [hspecial]
  split
  · exact stem_none stem
  · exact stem_some stem _
  · exact stem_some stem _

theorem tiny_lawful : Crate.tiny.Lawful where
  parse base href p _ h := by
    obtain ⟨stem, rfl | ⟨q, rfl⟩⟩ := tiny_of_parse h
    · exact stem_none stem
    · exact stem_some stem q
  set setter value p p' hp h := by
    cases setter with
    | search =>
      cases h
      obtain ⟨stem, rfl | ⟨q, rfl⟩⟩ := tiny_of_parse hp
      · exact tiny_search stem value _
      · exact tiny_search stem value _
    | hash | pathname =>
      cases h
      exact hp
    | _ => cases h
  ascii p hp := by
    have htext : ∀ stem : Stem, ∀ c ∈ stem.text, c.toNat < 128 := by
      intro stem
      have hall : stem.text.all (fun c => decide (c.toNat < 128)) = true := by cases stem <;> rfl
      simpa using hall
    intro c hc
    obtain ⟨stem, rfl | ⟨q, rfl⟩⟩ := tiny_of_parse hp
    · rw [stem_href, UrlParts.queryText, stem_query, List.append_nil] at hc
      exact htext stem c hc
    · rw [stem_href, UrlParts.queryText, stem_query, List.mem_append, List.mem_cons] at hc
      rcases hc with hc | rfl | hc
      · exact htext stem c hc
      · decide
      · exact plain_lt (encoded_plain q c hc)
  valid p hp := by
    obtain ⟨stem, rfl | ⟨q, rfl⟩⟩ := tiny_of_parse hp <;> cases stem <;> constructor <;> simp [Stem.parts]
  search _ _ _ := rfl
  others setter value p p' hne hp h := by
    cases setter with
    | search => exact absurd rfl hne
    | hash | pathname =>
      cases h
      rfl
    | _ => cases h

/-! ## The getters -/

/-- In every state a run reaches, the text of a `URL` parses to a URL whose text it
is, and each of its getters returns that URL's component, except that `host` and
`port` do not where there is no authority and the path starts with two slashes. -/
theorem getters_agree (hC : C.Lawful) {as es s} (h : Run (realm C) as es s) {u : URL} (hu : u ∈ s.urls) :
    ∃ p, C.parse none (decode u.serialization) = some p ∧ u.serialization = encode p.href ∧
      ∀ g, u.get g = encode (component p g) ↔ ¬ (p.dotted = true ∧ (g = .host ∨ g = .port)) := by
  obtain ⟨p, hof⟩ := run_texts hC h u hu
  refine ⟨p, ?_, hof.serialization, get_iff hC hof⟩
  rw [hof.serialization, decode_encode]
  exact hof.stands

theorem getters_agree_appending :
    ∃ es s, Run (realm .tiny) appending es s ∧ s.urls.length = 3 ∧ ∀ u ∈ s.urls, ∃ p,
      Crate.tiny.parse none (decode u.serialization) = some p ∧ u.serialization = encode p.href ∧
        ∀ g, u.get g = encode (component p g) ↔ ¬ (p.dotted = true ∧ (g = .host ∨ g = .port)) := by
  have hsome : ((realm .tiny).exec appending).any (·.2.urls.length = 3) = true := by decide
  obtain ⟨⟨es, s⟩, h, hlen⟩ := (Option.any_eq_true _ _).1 hsome
  have hr : Run (realm .tiny) appending es s := run_of_exec h
  exact ⟨es, s, hr, of_decide_eq_true hlen, fun u hu => getters_agree tiny_lawful hr hu⟩

end LuauFusion.WebUrl
