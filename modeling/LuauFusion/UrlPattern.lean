import LuauFusion.Lib.Runs
import LuauFusion.Lib.OrderedMap
/-!
# `URLPattern`

`url/01_urlpattern.js` over the ops of `url/urlpattern.rs`. All patterns share one
cache of parsed inputs, which keeps what it is given only now and then, at random;
each pattern keeps the result that an `exec` without a match left half filled, and
fills it again.

A run is what scripts do to any number of patterns, each draw of `Math.random`
being part of the action. What the `urlpattern` crate and the regular expressions do
is a parameter (`Env`).
-/
open LuauFusion.Lib

namespace LuauFusion.UrlPattern

/-- `COMPONENTS_KEYS`, in its order. -/
inductive Key where
  | protocol
  | username
  | password
  | hostname
  | port
  | pathname
  | search
  | hash
  deriving DecidableEq

def componentsKeys : List Key := [.protocol, .username, .password, .hostname, .port, .pathname, .search, .hash]

def Key.name : Key → String
  | protocol => "protocol"
  | username => "username"
  | password => "password"
  | hostname => "hostname"
  | port => "port"
  | pathname => "pathname"
  | search => "search"
  | hash => "hash"

structure UrlPatternInit where
  protocol : Option String
  username : Option String
  password : Option String
  hostname : Option String
  port : Option String
  pathname : Option String
  search : Option String
  hash : Option String
  baseURL : Option String
  deriving DecidableEq

inductive StringOrInit where
  | string (s : String)
  | init (i : UrlPatternInit)
  deriving DecidableEq

/-! ## The ops -/

/-- A component as the op gives it. -/
structure PatternComponent where
  patternString : String
  regexpString : String
  groupNameList : List String

structure Parsed where
  components : Key → PatternComponent
  hasRegexpGroups : Bool

/-- What the input of a match is for each component. -/
abbrev Values := Key → String

abbrev Inputs := StringOrInit × Option String

/-- `urlpattern::quirks`, whose errors are the messages of `TypeError`s, and the
regular expressions: what does not compile, and the groups of a match. -/
structure Env where
  ConstructInput : Type
  MatchInput : Type
  processConstructPatternInput : StringOrInit → Option String → Except String ConstructInput
  parsePattern : ConstructInput → (ignoreCase : Bool) → Except String Parsed
  processMatchInput : StringOrInit → Option String → Except String (Option (MatchInput × Inputs))
  parseMatchInput : MatchInput → Option Values
  RegExp : Type
  compile : String → (ignoreCase : Bool) → Except String RegExp
  exec : RegExp → String → Option (List (Option String))

def opUrlpatternParse (E : Env) (input : StringOrInit) (baseUrl : Option String) (ignoreCase : Bool) :
    Except String Parsed := do
  let init ← E.processConstructPatternInput input baseUrl
  E.parsePattern init ignoreCase

def opUrlpatternProcessMatchInput (E : Env) (input : StringOrInit) (baseUrl : Option String) :
    Except String (Option (Values × Inputs)) := do
  match ← E.processMatchInput input baseUrl with
  | none => .ok none
  | some (input, inputs) => .ok ((E.parseMatchInput input).map fun input => (input, inputs))

/-! ## The cache -/

/-- `lastUsed` is `#lastUsedKey` and `#lastUsedValue`, which are assigned together. -/
structure SampledLRUCache (κ ν : Type) where
  map : OrderedMap κ ν
  capacity : Nat
  lastUsed : Option (κ × ν)

namespace SampledLRUCache
variable {κ ν ε : Type} [DecidableEq κ]

def new (capacity : Nat) : SampledLRUCache κ ν := ⟨.empty, capacity, none⟩

/-- If the map is at capacity, its oldest (first) element goes. -/
def makeRoom (c : SampledLRUCache κ ν) : OrderedMap κ ν :=
  if c.map.size > c.capacity then
    match c.map.first with
    | some key => c.map.delete key
    | none => c.map
  else c.map

/-- `getOrInsert` of a key that was not the last one. -/
def lookup (c : SampledLRUCache κ ν) (key : κ) (factory : κ → Except ε ν) (sampled : Bool) :
    Except ε ν × SampledLRUCache κ ν :=
  match c.map.get key with
  | some value =>
    let map := if sampled then (c.map.delete key).set key value else c.map
    (.ok value, { c with map := map, lastUsed := some (key, value) })
  | none =>
    match factory key with
    | .error e => (.error e, c)
    | .ok value =>
      let map := if sampled then c.makeRoom.set key value else c.map
      (.ok value, { c with map := map, lastUsed := some (key, value) })

/-- `sampled` is `MathRandom() < this.#sampleRate`. -/
def getOrInsert (c : SampledLRUCache κ ν) (key : κ) (factory : κ → Except ε ν) (sampled : Bool) :
    Except ε ν × SampledLRUCache κ ν :=
  match c.lastUsed with
  | some (last, value) => if last = key then (.ok value, c) else c.lookup key factory sampled
  | none => c.lookup key factory sampled

end SampledLRUCache

/-! ## Patterns and results -/

/-- A converted input: a string, or an object the converter made, told apart from
every other by its number. -/
inductive Input where
  | string (s : String)
  | object (id : Nat) (i : UrlPatternInit)
  deriving DecidableEq

def Input.content : Input → StringOrInit
  | string s => .string s
  | object _ i => .init i

structure Component (R : Type) where
  patternString : String
  regexpString : String
  groupNameList : List String
  regexp : R

/-- In the order in which they were set; JavaScript lists names that are integers first. -/
abbrev Groups := OrderedMap String (Option String)

structure ComponentResult where
  input : String
  groups : Groups

/-- A result of `exec`, or what a failed one left: then `inputs` is `[undefined]`. -/
structure Result where
  inputs : List (Option StringOrInit)
  components : OrderedMap Key ComponentResult

structure URLPattern (R : Type) where
  components : Key → Component R
  hasRegExpGroups : Bool
  reusedResult : Option Result

/-! ## The constructor -/

def compile (E : Env) (ignoreCase : Bool) (parsed : Parsed) (key : Key) : Except String (Component E.RegExp) :=
  let c := parsed.components key
  match E.compile c.regexpString ignoreCase with
  | .ok regexp => .ok ⟨c.patternString, c.regexpString, c.groupNameList, regexp⟩
  | .error message => .error ("Failed to construct 'URLPattern': " ++ key.name ++ " is invalid; " ++ message)

/-- The loop over the components: the first that does not compile is a `TypeError`. -/
def compileAll (E : Env) (ignoreCase : Bool) (parsed : Parsed) : Except String (Key → Component E.RegExp) := do
  let protocol ← compile E ignoreCase parsed .protocol
  let username ← compile E ignoreCase parsed .username
  let password ← compile E ignoreCase parsed .password
  let hostname ← compile E ignoreCase parsed .hostname
  let port ← compile E ignoreCase parsed .port
  let pathname ← compile E ignoreCase parsed .pathname
  let search ← compile E ignoreCase parsed .search
  let hash ← compile E ignoreCase parsed .hash
  .ok fun
    | .protocol => protocol
    | .username => username
    | .password => password
    | .hostname => hostname
    | .port => port
    | .pathname => pathname
    | .search => search
    | .hash => hash

/-- An input that is `undefined`, as the constructor's two branches convert it. -/
def defaultInput (baseURL : Option String) : StringOrInit :=
  match baseURL with
  | some _ => .string "undefined"
  | none => .init ⟨none, none, none, none, none, none, none, none, none⟩

/-- `baseURL` is the second argument where that is a string; anything else there is
not looked at. `ignoreCase` is the third argument's. -/
def construct (E : Env) (input : Option StringOrInit) (baseURL : Option String) (ignoreCase : Bool) :
    Except String (URLPattern E.RegExp) := do
  let parsed ← opUrlpatternParse E (input.getD (defaultInput baseURL)) baseURL ignoreCase
  let components ← compileAll E ignoreCase parsed
  .ok ⟨components, parsed.hasRegexpGroups, none⟩

/-! ## `test` and `exec` -/

def testComponent (E : Env) (c : Component E.RegExp) (value : String) : Bool :=
  if c.regexpString = "^$" then value == ""
  else if c.regexpString = "^(.*)$" then true
  else (E.exec c.regexp value).isSome

def testAll (E : Env) (components : Key → Component E.RegExp) (values : Values) : Bool :=
  componentsKeys.all fun key => testComponent E (components key) (values key)

/-- `groups[name] = value`: the setter of `__proto__` passes over what is no object. -/
def assign (groups : Groups) (e : String × Option String) : Groups := if e.1 = "__proto__" then groups else groups.set e.1 e.2

/-- The names of the groups with `match[i + 1]` for the `i`th. -/
def named (names : List String) (found : List (Option String)) : List (String × Option String) :=
  names.zipIdx.map fun (name, i) => (name, (found[i + 1]?).join)

def startGroups (regexpString value : String) : Groups :=
  if regexpString = "^(.*)$" then OrderedMap.empty.set "0" (some value) else .empty

/-- The `switch` of `exec`: `none` is `return null`. -/
def matchComponent (E : Env) (c : Component E.RegExp) (value : String) (groups : Groups) : Option Groups :=
  if c.regexpString = "^$" then if value == "" then some groups else none
  else if c.regexpString = "^(.*)$" then some (assign groups ("0", some value))
  else (E.exec c.regexp value).map fun found => (named c.groupNameList found).foldl assign groups

/-- The loop of `exec`, with what it made of the result so far; `false` is `return null`. -/
def execFrom (E : Env) (components : Key → Component E.RegExp) (values : Values) :
    List Key → OrderedMap Key ComponentResult → OrderedMap Key ComponentResult × Bool
  | [], result => (result, true)
  | key :: keys, result =>
    let c := components key
    let res := (result.get key).getD ⟨values key, startGroups c.regexpString (values key)⟩
    match matchComponent E c (values key) res.groups with
    | none => (result.set key res, false)
    | some groups => execFrom E components values keys (result.set key ⟨values key, groups⟩)

def newResult : Result := ⟨[none], .empty⟩

/-- `result.inputs[0]` is assigned and a base URL is pushed. -/
def withInputs (inputs : Inputs) (l : List (Option StringOrInit)) : List (Option StringOrInit) :=
  l.set 0 (some inputs.1) ++ (inputs.2.map fun base => some (.string base)).toList

/-- `exec`, once the input is parsed. -/
def execParsed (E : Env) (u : URLPattern E.RegExp) (res : Option (Values × Inputs)) :
    Option Result × URLPattern E.RegExp :=
  match res with
  | none => (none, u)
  | some (values, inputs) =>
    let result := u.reusedResult.getD newResult
    match execFrom E u.components values componentsKeys result.components with
    | (components, false) => (none, { u with reusedResult := some { result with components := components } })
    | (components, true) => (some ⟨withInputs inputs result.inputs, components⟩, { u with reusedResult := none })

/-- `test`, once the input is parsed. -/
def testParsed (E : Env) (components : Key → Component E.RegExp) (res : Option (Values × Inputs)) : Bool :=
  match res with
  | none => false
  | some (values, _) => testAll E components values

/-! ## What scripts do -/

/-- `objects` counts the objects that converters have made of inputs to match. -/
structure Realm (E : Env) where
  matchInputCache : SampledLRUCache Input (Option (Values × Inputs))
  patterns : List (URLPattern E.RegExp)
  objects : Nat

inductive Act where
  | construct (input : Option StringOrInit) (baseURL : Option String) (ignoreCase : Bool)
  | test (p : Nat) (input : StringOrInit) (baseURL : Option String) (sampled : Bool)
  | exec (p : Nat) (input : StringOrInit) (baseURL : Option String) (sampled : Bool)

/-- What a call comes to; what it throws is a `TypeError`. -/
inductive Seen where
  | pattern (p : Nat)
  | boolean (b : Bool)
  | result (r : Option Result)
  | threw (message : String)

variable {E : Env}

/-- The converter of an input. -/
def convert (s : Realm E) : StringOrInit → Input × Realm E
  | .string v => (.string v, s)
  | .init i => (.object s.objects i, { s with objects := s.objects + 1 })

/-- Only inputs without a base are looked up. -/
def processInput (s : Realm E) (input : StringOrInit) (baseURL : Option String) (sampled : Bool) :
    Except String (Option (Values × Inputs)) × Realm E :=
  let (input, s) := convert s input
  match baseURL with
  | none =>
    let (res, cache) := s.matchInputCache.getOrInsert input
      (fun key => opUrlpatternProcessMatchInput E key.content none) sampled
    (res, { s with matchInputCache := cache })
  | some base => (opUrlpatternProcessMatchInput E input.content (some base), s)

def construction (s : Realm E) (input : Option StringOrInit) (baseURL : Option String) (ignoreCase : Bool) :
    Realm E × Seen :=
  match UrlPattern.construct E input baseURL ignoreCase with
  | .ok u => ({ s with patterns := s.patterns ++ [u] }, .pattern s.patterns.length)
  | .error message => (s, .threw message)

def test (s : Realm E) (u : URLPattern E.RegExp) (input : StringOrInit) (baseURL : Option String) (sampled : Bool) :
    Realm E × Seen :=
  match processInput s input baseURL sampled with
  | (.ok res, s) => (s, .boolean (testParsed E u.components res))
  | (.error message, s) => (s, .threw message)

def exec (s : Realm E) (p : Nat) (u : URLPattern E.RegExp) (input : StringOrInit) (baseURL : Option String)
    (sampled : Bool) : Realm E × Seen :=
  match processInput s input baseURL sampled with
  | (.ok res, s) =>
    let (r, u) := execParsed E u res
    ({ s with patterns := s.patterns.set p u }, .result r)
  | (.error message, s) => (s, .threw message)

def step (E : Env) (s : Realm E) (a : Act) : Option (Realm E × List Seen) :=
  let shown (r : Realm E × Seen) : Realm E × List Seen := (r.1, [r.2])
  match a with
  | .construct input baseURL ignoreCase => some (shown (construction s input baseURL ignoreCase))
  | .test p input baseURL sampled => s.patterns[p]?.map fun u => shown (test s u input baseURL sampled)
  | .exec p input baseURL sampled => s.patterns[p]?.map fun u => shown (exec s p u input baseURL sampled)

def initial (E : Env) : Realm E := ⟨.new 4096, [], 0⟩

def realm (E : Env) : Machine (Realm E) Act Seen := ⟨initial E, step E⟩

end LuauFusion.UrlPattern
