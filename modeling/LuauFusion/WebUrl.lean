import LuauFusion.Lib.Runs
import LuauFusion.Lib.Url
import LuauFusion.Lib.UrlParts
import LuauFusion.Lib.FormUrlencoded
import LuauFusion.Lib.Utf16
/-!
# `URL` and `URLSearchParams`

`url/00_url.js` over the ops of `url/url.rs`. A `URL` keeps its text and eight
positions in it; its `searchParams` keep a list and a way back to the `URL`. Both
are changed through ops that leave their results in one buffer and one slot, which
all objects share.

A run is what scripts do to any number of objects that these two classes themselves make:
no subclass or other `new.target`, through which script code would run between an op and
what is read of it, and no prototype, method or accessor that was changed. What
`deno_core::url` does is a parameter (`Crate`), and so is how many arguments V8 can spread
into a call.
-/
open LuauFusion.Lib LuauFusion.Lib.Utf16 LuauFusion.Lib.Url

namespace LuauFusion.WebUrl

abbrev Pair := Form.Pair

/-! ## The ops -/

/-- `deno_core::url`: the parser, with the base it is given, and the setters of
`quirks`; `none` is an error. -/
structure Crate where
  parse : Option UrlParts → List Char → Option UrlParts
  setHash : List Char → UrlParts → UrlParts
  setHost : List Char → UrlParts → Option UrlParts
  setHostname : List Char → UrlParts → Option UrlParts
  setPassword : List Char → UrlParts → Option UrlParts
  setPathname : List Char → UrlParts → UrlParts
  setPort : List Char → UrlParts → Option UrlParts
  setProtocol : List Char → UrlParts → Option UrlParts
  setSearch : List Char → UrlParts → UrlParts
  setUsername : List Char → UrlParts → Option UrlParts

/-- What the ops write to `buf`, and what a `URL` copies from it. -/
structure Components where
  schemeEnd : Nat
  usernameEnd : Nat
  hostStart : Nat
  hostEnd : Nat
  port : Nat
  pathStart : Nat
  queryStart : Nat
  fragmentStart : Nat
  deriving DecidableEq

inductive ParseStatus where
  | ok
  | okSerialization
  | err
  deriving DecidableEq

inductive UrlSetter where
  | hash
  | host
  | hostname
  | password
  | pathname
  | port
  | protocol
  | search
  | username
  deriving DecidableEq

namespace UrlSetter

/-- `SET_HASH` and its like, in the script. -/
def code : UrlSetter → Nat
  | hash => 0
  | host => 1
  | hostname => 2
  | password => 3
  | pathname => 4
  | port => 5
  | protocol => 6
  | search => 7
  | username => 8

/-- What the op takes a number for. -/
def ofCode : Nat → Option UrlSetter
  | 0 => some hash
  | 1 => some host
  | 2 => some hostname
  | 3 => some password
  | 4 => some pathname
  | 5 => some port
  | 6 => some protocol
  | 7 => some search
  | 8 => some username
  | _ => none

@[simp] theorem ofCode_code (k : UrlSetter) : ofCode k.code = some k := by cases k <;> rfl

end UrlSetter

def Crate.set (C : Crate) (setter : UrlSetter) (value : List Char) (url : UrlParts) : Option UrlParts :=
  match setter with
  | .hash => some (C.setHash value url)
  | .host => C.setHost value url
  | .hostname => C.setHostname value url
  | .password => C.setPassword value url
  | .pathname => some (C.setPathname value url)
  | .port => C.setPort value url
  | .protocol => C.setProtocol value url
  | .search => some (C.setSearch value url)
  | .username => C.setUsername value url

/-- The text of `p` parses to `p`. -/
def Crate.Stands (C : Crate) (p : UrlParts) : Prop := C.parse none p.href = some p

/-- The query that `quirks::set_search` sets. -/
def searchQuery (scheme value : List Char) : Option (List Char) :=
  match value with
  | [] => none
  | '?' :: q => some (percentEncode (querySet (isSpecial scheme)) (q.filter (!isTabOrNewline ·)))
  | q => some (percentEncode (querySet (isSpecial scheme)) (q.filter (!isTabOrNewline ·)))

/-- `deno_core::url` follows the URL standard: a URL's text is ASCII and parses to
it, and a setter sets what it says. -/
structure Crate.Lawful (C : Crate) : Prop where
  parse : ∀ base href p, (∀ b ∈ base, C.Stands b) → C.parse base href = some p → C.Stands p
  set : ∀ setter value p p', C.Stands p → C.set setter value p = some p' → C.Stands p'
  ascii : ∀ p, C.Stands p → ∀ c ∈ p.href, c.toNat < 128
  valid : ∀ p, C.Stands p → p.Valid
  search : ∀ value p, C.Stands p → (C.setSearch value p).query = searchQuery p.scheme value
  others : ∀ setter value p p', setter ≠ .search → C.Stands p → C.set setter value p = some p' → p'.query = p.query

/-- What the ops keep between calls: the `UrlSerialization` of the op state, and
`componentsBuf`. -/
structure Ops where
  serialization : Option (List Char)
  componentsBuf : Components
  deriving DecidableEq

def portOf (p : UrlParts) : Option Nat := p.authority.bind (·.port)

/-- `quirks::internal_components`, as the ops store it. -/
def internalComponents (p : UrlParts) (noPort : Nat) : Components where
  schemeEnd := p.schemeEnd
  usernameEnd := p.usernameEnd
  hostStart := p.hostStart
  hostEnd := p.hostEnd
  port := (portOf p).getD noPort
  pathStart := p.pathStart
  queryStart := p.queryStart.getD 0
  fragmentStart := p.fragmentStart.getD 0

/-- The end of every op that has made a URL out of `href`. -/
def finish (o : Ops) (href : List Char) (noPort : Nat) (p : UrlParts) : Ops × ParseStatus :=
  let o := { o with componentsBuf := internalComponents p noPort }
  if p.href = href then (o, .ok) else ({ o with serialization := some p.href }, .okSerialization)

def parseUrl (C : Crate) (o : Ops) (href : List Char) (base : Option UrlParts) : Ops × ParseStatus :=
  match C.parse base href with
  | some p => finish o href 0 p
  | none => (o, .err)

def opUrlParse (C : Crate) (o : Ops) (href : List Char) : Ops × ParseStatus := parseUrl C o href none

def opUrlParseWithBase (C : Crate) (o : Ops) (href baseHref : List Char) : Ops × ParseStatus :=
  match C.parse none baseHref with
  | some base => parseUrl C o href (some base)
  | none => (o, .err)

def noPort : Nat := 65536

def opUrlReparse (C : Crate) (o : Ops) (href : List Char) (setter : Nat) (value : List Char) : Ops × ParseStatus :=
  match C.parse none href with
  | none => (o, .err)
  | some url =>
    match UrlSetter.ofCode setter with
    | none => (o, .err)
    | some setter =>
      match C.set setter value url with
      | some p => finish o href noPort p
      | none => (o, .err)

/-- `none` is a panic: `state.take` finds nothing. -/
def opUrlGetSerialization (o : Ops) : Option (List Char × Ops) :=
  o.serialization.map fun t => (t, { o with serialization := none })

/-- The bytes of a string. -/
def asBytes (s : List Char) : Utf8.Bytes := s.flatMap String.utf8EncodeChar

def opUrlParseSearchParams (args : List Char) : List Pair := Form.parse (asBytes args)

def opUrlStringifySearchParams (args : List Pair) : List Char := Form.serialize args

/-! ## The objects -/

/-- Strings with 16-bit units are JavaScript's. The ops take `decode` of them. -/
structure URL where
  queryObject : Option Nat
  serialization : Units
  components : Components
  deriving DecidableEq

structure URLSearchParams where
  list : List Pair
  urlObject : Option Nat
  deriving DecidableEq

/-- An object is its index. -/
structure Realm where
  urls : List URL
  params : List URLSearchParams
  ops : Ops
  deriving DecidableEq

inductive Failure where
  | typeError (message : Units)
  /-- V8's, for a call of too many arguments. -/
  | rangeError
  | panic
  deriving DecidableEq

def text (s : String) : Units := encode s.toList

/-- An empty base is as good as none to the message. -/
def invalidUrl (href : Units) (maybeBase : Option Units) : Units :=
  text "Invalid URL: '" ++ href ++ text "'" ++
    match maybeBase with
    | none | some [] => []
    | some base => text " with base '" ++ base ++ text "'"

def getSerialization (o : Ops) (status : ParseStatus) (href : Units) (maybeBase : Option Units) :
    Ops × Except Failure Units :=
  match status with
  | .ok => (o, .ok href)
  | .okSerialization =>
    match opUrlGetSerialization o with
    | some (t, o) => (o, .ok (encode t))
    | none => (o, .error .panic)
  | .err => (o, .error (.typeError (invalidUrl href maybeBase)))

/-- `opUrlParse` of the script. -/
def parseHref (C : Crate) (o : Ops) (href : Units) : Option Units → Ops × ParseStatus
  | none => opUrlParse C o (decode href)
  | some base => opUrlParseWithBase C o (decode href) (decode base)

/-- `opUrlReparse` of the script. -/
def reparse (C : Crate) (o : Ops) (href : Units) (setter : UrlSetter) (value : Units) : Ops × Except Failure Units :=
  let (o, status) := opUrlReparse C o (decode href) setter.code (decode value)
  getSerialization o status href none

/-! ## Reading a `URL` -/

def slice (s : Units) (a b : Nat) : Units := (s.take b).drop a

/-- JavaScript's `a || b`. -/
def orElse (a b : Nat) : Nat := if a = 0 then b else a

def trim (s : Units) : Units := if s.length = 1 then [] else s

inductive Getter where
  | hash
  | host
  | hostname
  | href
  | password
  | pathname
  | port
  | protocol
  | search
  | username
  deriving DecidableEq

namespace URL

def hasAuthority (u : URL) : Bool := (text "://").isPrefixOf (u.serialization.drop u.components.schemeEnd)

def hash (u : URL) : Units :=
  if u.components.fragmentStart = 0 then [] else trim (u.serialization.drop u.components.fragmentStart)

def host (u : URL) : Units := slice u.serialization u.components.hostStart u.components.pathStart

def hostname (u : URL) : Units := slice u.serialization u.components.hostStart u.components.hostEnd

def password (u : URL) : Units :=
  if u.hasAuthority && u.components.usernameEnd != u.serialization.length &&
      u.serialization[u.components.usernameEnd]? == some 0x3A then
    slice u.serialization (u.components.usernameEnd + 1) (u.components.hostStart - 1)
  else []

def pathname (u : URL) : Units :=
  if u.components.queryStart = 0 && u.components.fragmentStart = 0 then u.serialization.drop u.components.pathStart
  else slice u.serialization u.components.pathStart (orElse u.components.queryStart u.components.fragmentStart)

def port (u : URL) : Units :=
  if u.components.port = noPort then slice u.serialization u.components.hostEnd u.components.pathStart
  else slice u.serialization (u.components.hostEnd + 1) u.components.pathStart

def protocol (u : URL) : Units := slice u.serialization 0 (u.components.schemeEnd + 1)

def search (u : URL) : Units :=
  let afterPath := orElse (orElse u.components.queryStart u.components.fragmentStart) u.serialization.length
  let afterQuery := orElse u.components.fragmentStart u.serialization.length
  trim (slice u.serialization afterPath afterQuery)

def username (u : URL) : Units :=
  if u.hasAuthority && u.components.usernameEnd > u.components.schemeEnd + 3 then
    slice u.serialization (u.components.schemeEnd + 3) u.components.usernameEnd
  else []

def get (u : URL) : Getter → Units
  | .hash => u.hash
  | .host => u.host
  | .hostname => u.hostname
  | .href => u.serialization
  | .password => u.password
  | .pathname => u.pathname
  | .port => u.port
  | .protocol => u.protocol
  | .search => u.search
  | .username => u.username

end URL

/-! ## Lists of parameters -/

/-- The loops of `delete`: splice out what matches at `i`, and look there again. -/
def deleteFrom (found : Pair → Bool) (list : List Pair) (i : Nat) : List Pair :=
  if h : i < list.length then
    if found list[i] then deleteFrom found (list.eraseIdx i) i else deleteFrom found list (i + 1)
  else list
termination_by list.length - i
decreasing_by
  · rw [List.length_eraseIdx_of_lt h]
    omega
  · omega

/-- The loop of `set`: the first of the name gets the value, the others are spliced out. -/
def setFrom (name value : List Char) (list : List Pair) (found : Bool) (i : Nat) : List Pair × Bool :=
  if h : i < list.length then
    if list[i].1 = name then
      if found then setFrom name value (list.eraseIdx i) found i
      else setFrom name value (list.set i (list[i].1, value)) true (i + 1)
    else setFrom name value list found (i + 1)
  else (list, found)
termination_by list.length - i
decreasing_by
  · rw [List.length_eraseIdx_of_lt h]
    omega
  · rw [List.length_set]
    omega
  · omega

/-- What a script may do to a list. -/
inductive Change where
  | append (name value : List Char)
  | delete (name : List Char) (value : Option (List Char))
  | set (name value : List Char)
  | sort

def Change.apply (list : List Pair) : Change → List Pair
  | append name value => list ++ [(name, value)]
  | delete name none => deleteFrom (fun entry => entry.1 == name) list 0
  | delete name (some value) => deleteFrom (fun entry => entry.1 == name && entry.2 == value) list 0
  | set name value =>
    match setFrom name value list false 0 with
    | (list, true) => list
    | (list, false) => list ++ [(name, value)]
  | sort => list.mergeSort fun a b => decide (encode a.1 ≤ encode b.1)

/-- What a script makes parameters of, once converted. -/
inductive Init where
  | string (s : List Char)
  | sequence (pairs : List (List (List Char)))
  | record (entries : List Pair)
  deriving DecidableEq

def lengthMessage (i : Nat) : Units :=
  text "Failed to construct 'URL': Item " ++ text (toString i) ++ text " in the parameter list does have length 2 exactly"

/-- The first item that is no pair is a `TypeError`. -/
def ofSequence : Nat → List (List (List Char)) → Except Failure (List Pair)
  | _, [] => .ok []
  | i, [name, value] :: pairs => (ofSequence (i + 1) pairs).map ((name, value) :: ·)
  | i, _ :: _ => .error (.typeError (lengthMessage i))

/-- A question mark in front goes. -/
def ofString (s : List Char) : List Pair :=
  if s = [] then [] else opUrlParseSearchParams (if s.head? = some '?' then s.drop 1 else s)

def Init.list : Init → Except Failure (List Pair)
  | string s => .ok (ofString s)
  | sequence pairs => ofSequence 0 pairs
  | record entries => .ok entries

/-! ## Reading parameters -/

/-- What a script asks of a list. -/
inductive Query where
  | getAll (name : List Char)
  | get (name : List Char)
  | has (name : List Char) (value : Option (List Char))
  | size
  | toString
  deriving DecidableEq

def getAll (list : List Pair) (name : List Char) : List (List Char) :=
  (list.filter fun entry => entry.1 == name).map (·.2)

def getFirst (list : List Pair) (name : List Char) : Option (List Char) :=
  (list.find? fun entry => entry.1 == name).map (·.2)

def has (list : List Pair) (name : List Char) : Option (List Char) → Bool
  | none => list.any fun entry => entry.1 == name
  | some value => list.any fun entry => entry.1 == name && entry.2 == value

/-! ## What scripts do -/

inductive Act where
  | newUrl (url : Units) (base : Option Units)
  /-- `URL.parse`. -/
  | parse (url : Units) (base : Option Units)
  | canParse (url : Units) (base : Option Units)
  | get (u : Nat) (getter : Getter)
  /-- `spreads n` if V8 can spread `n` arguments where this is called. -/
  | setHref (u : Nat) (value : Units) (spreads : Nat → Bool)
  | set (u : Nat) (setter : UrlSetter) (value : Units) (spreads : Nat → Bool)
  | searchParams (u : Nat)
  | newSearchParams (init : Init)
  | change (q : Nat) (change : Change)
  | read (q : Nat) (query : Query)

/-- What a call comes to. -/
inductive Seen where
  | url (u : Nat)
  | null
  | boolean (b : Bool)
  | string (s : Units)
  | strings (l : List Units)
  | number (n : Nat)
  | params (q : Nat)
  | undefined
  | threw (f : Failure)
  deriving DecidableEq

def answer (list : List Pair) : Query → Seen
  | .getAll name => .strings ((getAll list name).map encode)
  | .get name =>
    match getFirst list name with
    | some value => .string (encode value)
    | none => .null
  | .has name value => .boolean (has list name value)
  | .size => .number list.length
  | .toString => .string (encode (opUrlStringifySearchParams list))

/-- `#serialization` and the fields after it. -/
def store (s : Realm) (u : Nat) (url : URL) (o : Ops) (serialization : Units) : Realm :=
  { s with
    urls := s.urls.set u { url with serialization := serialization, components := o.componentsBuf }
    ops := o }

/-- `#updateSearchParams`, and what it throws: `splice` gets all the pairs as arguments
of one call. -/
def updateSearchParams (spreads : Nat → Bool) (s : Realm) (u : Nat) : Realm × Option Failure :=
  match s.urls[u]? with
  | none => (s, none)
  | some url =>
    match url.queryObject with
    | none => (s, none)
    | some q =>
      match s.params[q]? with
      | none => (s, none)
      | some params =>
        let newParams := opUrlParseSearchParams (decode (url.search.drop 1))
        if spreads newParams.length then ({ s with params := s.params.set q { params with list := newParams } }, none)
        else (s, some .rangeError)

/-- The rest of the constructor and of `URL.parse`, once `url` is parsed. -/
def create (s : Realm) (o : Ops) (status : ParseStatus) (url : Units) (base : Option Units) : Realm × Seen :=
  match getSerialization o status url base with
  | (o, .ok serialization) =>
    ({ s with urls := s.urls ++ [⟨none, serialization, o.componentsBuf⟩], ops := o }, .url s.urls.length)
  | (o, .error f) => ({ s with ops := o }, .threw f)

def newUrl (C : Crate) (s : Realm) (url : Units) (base : Option Units) : Realm × Seen :=
  let (o, status) := parseHref C s.ops url base
  create s o status url base

/-- `new this(skipInit)` is `URL`'s own constructor, which does nothing. -/
def parseOrNull (C : Crate) (s : Realm) (url : Units) (base : Option Units) : Realm × Seen :=
  let (o, status) := parseHref C s.ops url base
  if status = .err then ({ s with ops := o }, .null) else create s o status url base

/-- The serialization stays where the op put it. -/
def canParse (C : Crate) (s : Realm) (url : Units) (base : Option Units) : Realm × Seen :=
  let (o, status) := parseHref C s.ops url base
  ({ s with ops := o }, .boolean (status != .err))

def setHref (C : Crate) (s : Realm) (u : Nat) (url : URL) (value : Units) (spreads : Nat → Bool) : Realm × Seen :=
  let (o, status) := parseHref C s.ops value none
  match getSerialization o status value none with
  | (o, .ok serialization) =>
    let (s, thrown) := updateSearchParams spreads (store s u url o serialization) u
    (s, thrown.elim .undefined .threw)
  | (o, .error f) => ({ s with ops := o }, .threw f)

/-- Every other setter, which drops what is thrown. -/
def setComponent (C : Crate) (s : Realm) (u : Nat) (url : URL) (setter : UrlSetter) (value : Units)
    (spreads : Nat → Bool) : Realm × Seen :=
  match reparse C s.ops url.serialization setter value with
  | (o, .ok serialization) =>
    let s := store s u url o serialization
    (if setter = .search then (updateSearchParams spreads s u).1 else s, .undefined)
  | (o, .error .panic) => ({ s with ops := o }, .threw .panic)
  | (o, .error _) => ({ s with ops := o }, .undefined)

def searchParams (s : Realm) (u : Nat) (url : URL) : Realm × Seen :=
  match url.queryObject with
  | some q => (s, .params q)
  | none =>
    ({ s with
        urls := s.urls.set u { url with queryObject := some s.params.length }
        params := s.params ++ [⟨ofString (decode url.search), some u⟩] }, .params s.params.length)

def newSearchParams (s : Realm) (init : Init) : Realm × Seen :=
  match init.list with
  | .ok list => ({ s with params := s.params ++ [⟨list, none⟩] }, .params s.params.length)
  | .error f => (s, .threw f)

/-- `#updateUrlSearch`: the `URL` follows its parameters. -/
def updateUrlSearch (C : Crate) (s : Realm) (params : URLSearchParams) : Realm × Seen :=
  match params.urlObject with
  | none => (s, .undefined)
  | some u =>
    match s.urls[u]? with
    | none => (s, .undefined)
    | some url =>
      match reparse C s.ops url.serialization .search (encode (opUrlStringifySearchParams params.list)) with
      | (o, .ok serialization) => (store s u url o serialization, .undefined)
      | (o, .error f) => ({ s with ops := o }, .threw f)

def changeParams (C : Crate) (s : Realm) (q : Nat) (params : URLSearchParams) (change : Change) : Realm × Seen :=
  let params := { params with list := change.apply params.list }
  updateUrlSearch C { s with params := s.params.set q params } params

def step (C : Crate) (s : Realm) (a : Act) : Option (Realm × List Seen) :=
  let shown (r : Realm × Seen) : Realm × List Seen := (r.1, [r.2])
  match a with
  | .newUrl url base => some (shown (newUrl C s url base))
  | .parse url base => some (shown (parseOrNull C s url base))
  | .canParse url base => some (shown (canParse C s url base))
  | .get u getter => s.urls[u]?.map fun url => shown (s, .string (url.get getter))
  | .setHref u value spreads => s.urls[u]?.map fun url => shown (setHref C s u url value spreads)
  | .set u setter value spreads => s.urls[u]?.map fun url => shown (setComponent C s u url setter value spreads)
  | .searchParams u => s.urls[u]?.map fun url => shown (searchParams s u url)
  | .newSearchParams init => some (shown (newSearchParams s init))
  | .change q change => s.params[q]?.map fun params => shown (changeParams C s q params change)
  | .read q query => s.params[q]?.map fun params => shown (s, answer params.list query)

def initial : Realm where
  urls := []
  params := []
  ops := ⟨none, ⟨0, 0, 0, 0, 0, 0, 0, 0⟩⟩

def realm (C : Crate) : Machine Realm Act Seen := ⟨initial, step C⟩

end LuauFusion.WebUrl
