import Mathlib.Data.List.TakeWhile
import LuauFusion.Lib.UrlPath
/-!
# URLs

The WHATWG URL parser, with or without a base URL, over what it makes of a
scheme, a path, a query and a fragment. What an authority means, with its IDNA
and its port numbers, is left to `Hosts`.

Each function is a group of the standard's states: the input is cut where a
state machine would change state, instead of being read character by character.
-/

namespace LuauFusion.Lib

inductive Url.Path where
  /-- An opaque path: the URL cannot be a base. -/
  | bare (p : List Char)
  | segments (l : List Segment)
  deriving DecidableEq

/-- `authority` is what stands between `//` and the path once serialized. -/
structure Url where
  scheme : List Char
  authority : Option (List Char)
  path : Url.Path
  query : Option (List Char)
  fragment : Option (List Char)
  deriving DecidableEq

namespace Url

/-- How an authority of a given scheme, and the host of a `file` URL, parse. -/
structure Hosts where
  authority : List Char → List Char → Option (List Char)
  fileHost : List Char → Option (List Char)

inductive ParseError where
  | relativeUrlWithoutBase
  | relativeUrlWithCannotBeABaseBase
  | invalidHost
  deriving DecidableEq

/-! ## Cutting the input -/

def isC0OrSpace (c : Char) : Bool := c.toNat ≤ 0x20

def isTabOrNewline (c : Char) : Bool := c ∈ ['\t', '\n', '\r']

/-- Trim C0 controls and spaces, then drop every tab and newline. -/
def preprocess (input : List Char) : List Char :=
  (((input.dropWhile isC0OrSpace).reverse.dropWhile isC0OrSpace).reverse).filter (!isTabOrNewline ·)

def isSchemeChar (c : Char) : Bool := c.isAlphanum || c ∈ ['+', '-', '.']

/-- Scheme characters up to a colon, lowercased, and what follows the colon. -/
def schemeRest : List Char → Option (List Char × List Char)
  | [] => none
  | c :: cs =>
    if c = ':' then some ([], cs)
    else if isSchemeChar c then (schemeRest cs).map fun (s, r) => (c.toLower :: s, r)
    else none

def splitScheme : List Char → Option (List Char × List Char)
  | [] => none
  | c :: cs => if c.isAlpha then schemeRest (c :: cs) else none

def fileScheme : List Char := "file".toList

def isSpecial (scheme : List Char) : Bool :=
  scheme == fileScheme || scheme == "ftp".toList || scheme == "http".toList || scheme == "https".toList ||
    scheme == "ws".toList || scheme == "wss".toList

/-- The input before any query or fragment. -/
def body (cs : List Char) : List Char := cs.takeWhile fun c => c != '?' && c != '#'

def tail (cs : List Char) : List Char := cs.dropWhile fun c => c != '?' && c != '#'

def parseQuery (special : Bool) : List Char → Option (List Char)
  | '?' :: cs => some (percentEncode (querySet special) (cs.takeWhile (· != '#')))
  | _ => none

def parseFragment (cs : List Char) : Option (List Char) :=
  match cs.dropWhile (· != '#') with
  | _ :: f => some (percentEncode fragmentSet f)
  | [] => none

def afterSlash (special : Bool) : List Char → Option (List Char)
  | c :: cs => if isSlash special c then some cs else none
  | [] => none

/-! ## Parsing -/

namespace Path

def list : Path → List Segment
  | bare _ => []
  | segments l => l

end Path

/-- A URL with the query and the fragment `rest` starts with. -/
def ofParts (scheme : List Char) (authority : Option (List Char)) (path : Path) (rest : List Char) : Url :=
  ⟨scheme, authority, path, parseQuery (isSpecial scheme) rest, parseFragment rest⟩

/-- The same URL but for the query and fragment of an otherwise empty reference. -/
def withTail (u : Url) (rest : List Char) : Url :=
  { u with
    query := if rest.head? = some '?' then parseQuery (isSpecial u.scheme) rest else u.query
    fragment := parseFragment rest }

/-- The authority and path start states, past the slashes. -/
def parseAuthority (hosts : Hosts) (scheme cs rest : List Char) : Except ParseError Url :=
  let special := isSpecial scheme
  let text := cs.takeWhile (!isSlash special ·)
  let path := cs.drop text.length
  match hosts.authority scheme text with
  | none => .error .invalidHost
  | some a =>
    let l := if path.isEmpty && !special then [] else parsePath special false [] (path.drop 1)
    .ok (.ofParts scheme (some a) (.segments l) rest)

/-- The file host state, past two slashes. -/
def parseFileHost (hosts : Hosts) (cs rest : List Char) : Except ParseError Url :=
  let host := cs.takeWhile (!isSlash true ·)
  let path := (cs.drop host.length).drop 1
  -- What looks like a host may be a drive letter, and then the path starts with it.
  if isDriveLetter host then .ok (.ofParts fileScheme (some []) (.segments (parsePath true true [] cs)) rest)
  else if host.isEmpty then .ok (.ofParts fileScheme (some []) (.segments (parsePath true true [] path)) rest)
  else
    match hosts.fileHost host with
    | none => .error .invalidHost
    | some h => .ok (.ofParts fileScheme (some h) (.segments (parsePath true true [] path)) rest)

/-- The file slash state, past one slash. -/
def parseFileSlash (base : Option Url) (cs rest : List Char) : Url :=
  match base with
  | none => .ofParts fileScheme (some []) (.segments (parsePath true true [] cs)) rest
  | some b =>
    -- The path is absolute, but a base's drive letter stays in front of it.
    let drive := (b.path.list.take 1).filter fun s => isNormalizedDriveLetter s && !startsWithDriveLetter cs
    .ofParts fileScheme b.authority (.segments (parsePath true true drive cs)) rest

/-- The file state where no slash comes first. -/
def parseFilePath (base : Option Url) (cs rest : List Char) : Url :=
  match base with
  | none => .ofParts fileScheme (some []) (.segments (parsePath true true [] cs)) rest
  | some b =>
    if cs.isEmpty then { b with path := .segments b.path.list }.withTail rest
    else
      let path := if startsWithDriveLetter cs then [] else shorten true b.path.list
      .ofParts fileScheme b.authority (.segments (parsePath true true path cs)) rest

/-- The file state, against a base that is a `file` URL if there is one. -/
def parseFile (hosts : Hosts) (base : Option Url) (input : List Char) : Except ParseError Url :=
  match afterSlash true (body input) with
  | none => .ok (parseFilePath base (body input) (tail input))
  | some cs =>
    match afterSlash true cs with
    | none => .ok (parseFileSlash base cs (tail input))
    | some cs => parseFileHost hosts cs (tail input)

/-- The relative states, against a base that is no `file` URL. -/
def parseRelative (hosts : Hosts) (base : Url) (input : List Char) : Except ParseError Url :=
  let special := isSpecial base.scheme
  let mk (l : List Segment) := ofParts base.scheme base.authority (.segments l) (tail input)
  match afterSlash special (body input) with
  | some cs =>
    match afterSlash special cs with
    | some cs => parseAuthority hosts base.scheme (cs.dropWhile (special && isSlash special ·)) (tail input)
    | none => .ok (mk (parsePath special false [] cs))
  | none =>
    if (body input).isEmpty then .ok ({ base with path := .segments base.path.list }.withTail (tail input))
    else .ok (mk (parsePath special false (shorten false base.path.list) (body input)))

/-- What follows a scheme that is not `file`, against a base of the same special
scheme if there is one. -/
def parseScheme (hosts : Hosts) (base : Option Url) (scheme input : List Char) : Except ParseError Url :=
  if isSpecial scheme then
    match base with
    | some b =>
      if "//".toList.isPrefixOf input then
        parseAuthority hosts scheme ((body input).dropWhile (isSlash true)) (tail input)
      else parseRelative hosts b input
    | none => parseAuthority hosts scheme ((body input).dropWhile (isSlash true)) (tail input)
  else
    match afterSlash false (body input) with
    | none => .ok (.ofParts scheme none (.bare (percentEncode c0Set (body input))) (tail input))
    | some cs =>
      match afterSlash false cs with
      | some cs => parseAuthority hosts scheme cs (tail input)
      | none => .ok (.ofParts scheme none (.segments (parsePath false false [] cs)) (tail input))

/-- The basic URL parser. -/
def basicParse (hosts : Hosts) (base : Option Url) (input : List Char) : Except ParseError Url :=
  let cs := preprocess input
  match splitScheme cs with
  | some (scheme, rest) =>
    -- A scheme of its own makes the base matter only where the two schemes agree.
    let base := base.filter (·.scheme == scheme)
    if scheme = fileScheme then parseFile hosts base rest else parseScheme hosts base scheme rest
  | none =>
    match base with
    | none => .error .relativeUrlWithoutBase
    | some b =>
      match b.path with
      | .bare _ =>
        if cs.head? = some '#' then .ok { b with fragment := parseFragment cs }
        else .error .relativeUrlWithCannotBeABaseBase
      | .segments _ => if b.scheme = fileScheme then parseFile hosts (some b) cs else parseRelative hosts b cs

def parse (hosts : Hosts) (input : List Char) : Except ParseError Url := basicParse hosts none input

def join (hosts : Hosts) (base : Url) (input : List Char) : Except ParseError Url :=
  basicParse hosts (some base) input

/-- The segments of a path that starts with a slash, still encoded. An opaque path and
an empty one have none. -/
def pathSegments (u : Url) : Option (List Segment) :=
  match u.path with
  | .bare _ | .segments [] => none
  | .segments l => some l

def serialize (u : Url) : List Char :=
  u.scheme ++ ':' :: (match u.authority with
    | some a => '/' :: '/' :: a
    | none =>
      match u.path with
      | .segments ([] :: _ :: _) => ['/', '.']
      | _ => []) ++
    (match u.path with
      | .bare p => p
      | .segments l => l.flatMap ('/' :: ·)) ++
    (match u.query with
      | some q => '?' :: q
      | none => []) ++
    (match u.fragment with
      | some f => '#' :: f
      | none => [])

/-! ## Errors -/

theorem parseAuthority_error {hosts : Hosts} {scheme cs rest : List Char} {e : ParseError}
    (h : parseAuthority hosts scheme cs rest = .error e) : e = .invalidHost := by
  simp only [parseAuthority] at h
  split at h <;> cases h
  rfl

theorem parseFile_error {hosts : Hosts} {base : Option Url} {input : List Char} {e : ParseError}
    (h : parseFile hosts base input = .error e) : e = .invalidHost := by
  unfold parseFile at h
  split at h
  · cases h
  · split at h
    · cases h
    · simp only [parseFileHost] at h
      split at h
      · cases h
      · split at h
        · cases h
        · split at h <;> cases h
          rfl

/-- Only a reference without a scheme needs a base. -/
theorem parse_relative {hosts : Hosts} {input : List Char}
    (h : parse hosts input = .error .relativeUrlWithoutBase) : splitScheme (preprocess input) = none := by
  simp only [parse, basicParse] at h
  split at h
  · split at h
    · cases parseFile_error h
    · simp only [parseScheme, Option.filter_none] at h
      split at h
      · cases parseAuthority_error h
      · split at h
        · cases h
        · split at h
          · cases parseAuthority_error h
          · cases h
  · assumption

/-- Trimming keeps a first character that is no control and no space. -/
theorem preprocess_head {c : Char} {cs : List Char} (hc : isC0OrSpace c = false) :
    (preprocess (c :: cs)).head? = some c := by
  have htab : isTabOrNewline c = false := by
    by_contra h
    simp only [isTabOrNewline, Bool.not_eq_false, decide_eq_true_eq, List.mem_cons, List.not_mem_nil, or_false] at h
    rcases h with rfl | rfl | rfl <;> simp [isC0OrSpace] at hc
  have hrev : ∃ l, ((c :: cs).reverse.dropWhile isC0OrSpace).reverse = c :: l := by
    rw [List.reverse_cons, List.dropWhile_append]
    split
    · exact ⟨[], by simp [hc]⟩
    · exact ⟨(cs.reverse.dropWhile isC0OrSpace).reverse, by simp⟩
  obtain ⟨l, hl⟩ := hrev
  rw [preprocess, List.dropWhile_cons_of_neg (by simp [hc]), hl, List.filter_cons_of_pos (by simp [htab])]
  rfl

/-! ## Paths without queries -/

theorem body_eq {cs : List Char} (h : ∀ c ∈ cs, c ≠ '?' ∧ c ≠ '#') : body cs = cs := by
  unfold body
  rw [List.takeWhile_eq_self_iff]
  intro c hc
  simpa using h c hc

theorem tail_eq {cs : List Char} (h : ∀ c ∈ cs, c ≠ '?' ∧ c ≠ '#') : tail cs = [] := by
  unfold tail
  rw [List.dropWhile_eq_nil_iff]
  intro c hc
  simpa using h c hc

/-- Input without controls, and without spaces at its ends, is parsed as it is. -/
theorem preprocess_eq {cs : List Char} (hc : ∀ c ∈ cs, 0x20 ≤ c.toNat) (hh : cs.head? ≠ some ' ')
    (hl : cs.getLast? ≠ some ' ') : preprocess cs = cs := by
  have hspace : ∀ c ∈ cs, c ≠ ' ' → isC0OrSpace c = false := by
    intro c hm hne
    have h20 := hc c hm
    unfold isC0OrSpace
    rw [decide_eq_false_iff_not]
    intro hle
    apply hne
    apply Char.toNat_inj.1
    have : ' '.toNat = 0x20 := rfl
    omega
  have hfront : cs.dropWhile isC0OrSpace = cs := by
    cases cs with
    | nil => rfl
    | cons c cs =>
      have hne : c ≠ ' ' := by simpa using hh
      rw [List.dropWhile_cons_of_neg (by simp [hspace c List.mem_cons_self hne])]
  have hback : cs.reverse.dropWhile isC0OrSpace = cs.reverse := by
    cases hr : cs.reverse with
    | nil => rfl
    | cons c r =>
      have hlast : cs.getLast? = some c := by rw [← List.head?_reverse, hr]; rfl
      have hne : c ≠ ' ' := by
        rintro rfl
        exact hl hlast
      rw [List.dropWhile_cons_of_neg (by simp [hspace c (List.mem_of_getLast? hlast) hne])]
  rw [preprocess, hfront, hback, List.reverse_reverse, List.filter_eq_self]
  intro c hm
  have h20 := hc c hm
  simp only [isTabOrNewline, Bool.not_eq_eq_eq_not, Bool.not_true, decide_eq_false_iff_not, List.mem_cons,
    List.not_mem_nil, or_false]
  rintro (rfl | rfl | rfl) <;> exact absurd h20 (by decide)

/-- The `file` URL of a path, without a host. -/
def fileUrl (l : List Segment) : Url := ⟨fileScheme, some [], .segments l, none, none⟩

/-- `file:///` and a path. -/
theorem parse_file {hosts : Hosts} {k : List Char} (hc : ∀ c ∈ k, 0x20 ≤ c.toNat ∧ c ≠ '?' ∧ c ≠ '#')
    (hl : k.getLast? ≠ some ' ') :
    parse hosts ("file:///".toList ++ k) = .ok (fileUrl (parsePath true true [] k)) := by
  have hfixed : ∀ c ∈ "file:///".toList, 0x20 ≤ c.toNat := by
    have h : "file:///".toList.all (fun c => decide (0x20 ≤ c.toNat)) = true := by decide
    simpa only [List.all_eq_true, decide_eq_true_eq] using h
  have hslash : ∀ c ∈ "///".toList, c ≠ '?' ∧ c ≠ '#' := by
    have h : "///".toList.all (fun c => decide (c ≠ '?' ∧ c ≠ '#')) = true := by decide
    simpa only [List.all_eq_true, decide_eq_true_eq] using h
  have hpre : preprocess ("file:///".toList ++ k) = "file:///".toList ++ k := by
    apply preprocess_eq
    · intro c hm
      rcases List.mem_append.1 hm with hm | hm
      · exact hfixed c hm
      · exact (hc c hm).1
    · exact fun h => absurd (Option.some.inj h) (by decide)
    · rw [List.getLast?_append]
      cases hk : k.getLast? with
      | none => decide
      | some c => rw [← hk]; simpa [hk] using hl
  have hsplit : splitScheme ("file:///".toList ++ k) = some (fileScheme, "///".toList ++ k) := rfl
  have hq : ∀ c ∈ "///".toList ++ k, c ≠ '?' ∧ c ≠ '#' := by
    intro c hm
    rcases List.mem_append.1 hm with hm | hm
    · exact hslash c hm
    · exact (hc c hm).2
  simp only [parse, basicParse, hpre, hsplit, if_true, parseFile, body_eq hq, tail_eq hq]
  rfl

/-- `file:///` and anything at all. -/
theorem parse_file_total (hosts : Hosts) (k : List Char) :
    ∃ s l q f, parse hosts ("file:///".toList ++ k) = .ok ⟨fileScheme, some [], .segments (s :: l), q, f⟩ := by
  obtain ⟨k', hpre⟩ : ∃ k', preprocess ("file:///".toList ++ k) = "file:///".toList ++ k' := by
    have hfront : ("file:///".toList ++ k).dropWhile isC0OrSpace = "file:///".toList ++ k := rfl
    have hback : ∃ l, (("file:///".toList ++ k).reverse.dropWhile isC0OrSpace).reverse = "file:///".toList ++ l := by
      rw [List.reverse_append, List.dropWhile_append]
      split
      · exact ⟨[], rfl⟩
      · exact ⟨(k.reverse.dropWhile isC0OrSpace).reverse, by rw [List.reverse_append, List.reverse_reverse]⟩
    obtain ⟨l, hl⟩ := hback
    exact ⟨l.filter (!isTabOrNewline ·), by rw [preprocess, hfront, hl, List.filter_append]; rfl⟩
  have hsplit : splitScheme ("file:///".toList ++ k') = some (fileScheme, "///".toList ++ k') := rfl
  have hbody : body ("///".toList ++ k') = '/' :: '/' :: '/' :: body k' := rfl
  obtain ⟨s, l, hl⟩ := List.exists_cons_of_ne_nil (parsePath_ne_nil true true [] (body k'))
  simp only [parse, basicParse, hpre, hsplit, if_true, parseFile, hbody]
  exact ⟨s, l, _, _, by rw [← hl]; rfl⟩

theorem flatMap_slash {l : List Segment} (h : l ≠ []) : l.flatMap ('/' :: ·) = '/' :: ['/'].intercalate l := by
  induction l with
  | nil => exact absurd rfl h
  | cons s l ih =>
    cases l with
    | nil => simp
    | cons s' l =>
      rw [List.flatMap_cons, ih (by simp), List.intercalate_cons_cons]
      simp

theorem serialize_fileUrl {l : List Segment} (h : l ≠ []) :
    (fileUrl l).serialize = "file:///".toList ++ ['/'].intercalate l := by
  have hs : (fileUrl l).serialize = "file://".toList ++ l.flatMap ('/' :: ·) ++ [] ++ [] := rfl
  rw [hs, flatMap_slash h]
  simp

/-- Joining a path that starts with a dot: against the directory of the base's path. -/
theorem join_fileUrl {hosts : Hosts} {l : List Segment} {input : List Char} (hdot : input.head? = some '.')
    (hc : ∀ c ∈ input, 0x20 ≤ c.toNat ∧ c ≠ '?' ∧ c ≠ '#') (hl : input.getLast? ≠ some ' ') :
    (fileUrl l).join hosts input = .ok (fileUrl (parsePath true true (shorten true l) input)) := by
  have hpre : preprocess input = input := by
    apply preprocess_eq
    · intro c hm
      exact (hc c hm).1
    · rw [hdot]
      exact fun h => absurd (Option.some.inj h) (by decide)
    · exact hl
  have hq : ∀ c ∈ input, c ≠ '?' ∧ c ≠ '#' := fun c hm => (hc c hm).2
  cases input with
  | nil => cases hdot
  | cons c cs =>
    obtain rfl : c = '.' := by simpa using hdot
    have hdrive : startsWithDriveLetter ('.' :: cs) = false := by
      cases cs with
      | nil => rfl
      | cons d ds => simp [startsWithDriveLetter, isDriveLetter]
    have hslash : afterSlash true ('.' :: cs) = none := rfl
    have hscheme : splitScheme ('.' :: cs) = none := rfl
    simp only [join, basicParse, hpre, hscheme, fileUrl, if_true, parseFile, body_eq hq, tail_eq hq, hslash,
      parseFilePath, List.isEmpty_cons, Bool.false_eq_true, if_false, hdrive, Path.list]
    rfl

/-- A path that starts with a dot has no scheme. -/
theorem parse_dot {hosts : Hosts} {input : List Char} (hdot : input.head? = some '.') :
    parse hosts input = .error .relativeUrlWithoutBase := by
  cases input with
  | nil => cases hdot
  | cons c cs =>
    obtain rfl : c = '.' := by simpa using hdot
    obtain ⟨r, hr⟩ : ∃ r, preprocess ('.' :: cs) = '.' :: r := by
      have : (preprocess ('.' :: cs)).head? = some '.' := preprocess_head (by decide)
      cases hp : preprocess ('.' :: cs) with
      | nil => simp [hp] at this
      | cons d r =>
        obtain rfl : d = '.' := by simpa [hp] using this
        exact ⟨r, rfl⟩
    have hscheme : splitScheme ('.' :: r) = none := rfl
    simp only [parse, basicParse, hr, hscheme]

/-! ## Paths without segments -/

theorem pathSegments_none {u : Url} : u.pathSegments = none ↔ (∃ p, u.path = .bare p) ∨ u.path = .segments [] := by
  unfold pathSegments
  split <;> simp_all

theorem pathSegments_ofParts (scheme : List Char) (authority : Option (List Char)) (l : List Segment) (rest : List Char) :
    (ofParts scheme authority (.segments l) rest).pathSegments = none ↔ l = [] := by
  rw [pathSegments_none]
  constructor
  · rintro (⟨p, hp⟩ | hp)
    · cases hp
    · exact Path.segments.inj hp
  · rintro rfl
    exact .inr rfl

/-- The path state leaves at least one segment. -/
theorem parsePath_ofParts (scheme : List Char) (authority : Option (List Char)) (special file : Bool) (l : List Segment)
    (cs rest : List Char) : (ofParts scheme authority (.segments (parsePath special file l cs)) rest).pathSegments ≠ none :=
  fun h => parsePath_ne_nil _ _ _ _ ((pathSegments_ofParts _ _ _ _).1 h)

/-- Only where the scheme is not special may an authority stand without a path. -/
theorem parseAuthority_none {hosts : Hosts} {scheme cs rest : List Char} {u : Url}
    (h : parseAuthority hosts scheme cs rest = .ok u) : u.pathSegments = none ↔ isSpecial scheme = false ∧ '/' ∉ cs := by
  simp only [parseAuthority] at h
  split at h
  · cases h
  · cases h
    rw [pathSegments_ofParts]
    cases hsp : isSpecial scheme with
    | true => exact iff_of_false (by simp [parsePath_ne_nil]) (by simp)
    | false =>
      have hempty : (cs.drop (cs.takeWhile (!isSlash false ·)).length).isEmpty = true ↔ '/' ∉ cs := by
        have hdrop : cs.drop (cs.takeWhile (!isSlash false ·)).length = cs.dropWhile (!isSlash false ·) := by
          conv_lhs => rw [← List.takeWhile_append_dropWhile (p := (!isSlash false ·)) (l := cs), List.drop_left' (by simp)]
        rw [hdrop, List.isEmpty_iff, List.dropWhile_eq_nil_iff]
        constructor
        · intro hall hm
          exact absurd (hall _ hm) (by decide)
        · intro hm c hc
          have hne : c ≠ '/' := by
            rintro rfl
            exact hm hc
          simp [isSlash, hne]
      by_cases hm : '/' ∈ cs
      · have hnot : (cs.drop (cs.takeWhile (!isSlash false ·)).length).isEmpty = false :=
          Bool.eq_false_iff.2 fun he => hempty.1 he hm
        exact iff_of_false (by simp [hnot, parsePath_ne_nil]) fun hc => hc.2 hm
      · exact iff_of_true (by simp [hempty.2 hm]) ⟨rfl, hm⟩

/-- A `file` URL always has a path. -/
theorem parseFile_segments {hosts : Hosts} {base : Option Url} {input : List Char} {u : Url}
    (hb : base = none ∨ body input ≠ []) (h : parseFile hosts base input = .ok u) : u.pathSegments ≠ none := by
  unfold parseFile at h
  split at h
  · cases h
    unfold parseFilePath
    split
    · exact parsePath_ofParts _ _ _ _ _ _ _
    · have hne : (body input).isEmpty = false := by
        rw [List.isEmpty_eq_false_iff]
        exact hb.resolve_left nofun
      rw [hne, if_neg Bool.false_ne_true]
      exact parsePath_ofParts _ _ _ _ _ _ _
  · split at h
    · cases h
      unfold parseFileSlash
      split <;> exact parsePath_ofParts _ _ _ _ _ _ _
    · simp only [parseFileHost] at h
      split at h
      · cases h; exact parsePath_ofParts _ _ _ _ _ _ _
      · split at h
        · cases h; exact parsePath_ofParts _ _ _ _ _ _ _
        · split at h
          · cases h
          · cases h; exact parsePath_ofParts _ _ _ _ _ _ _

/-- Two slashes, and no third one before the query or the fragment. -/
def IsPathless (cs : List Char) : Prop := ∃ a, body cs = '/' :: '/' :: a ∧ '/' ∉ a

/-- A scheme that is not special, and after its colon no path that starts with a slash:
`data:x`, `foo://h`. -/
def IsBare (input : List Char) : Prop :=
  ∃ scheme rest, splitScheme (preprocess input) = some (scheme, rest) ∧ isSpecial scheme = false ∧
    (rest.head? ≠ some '/' ∨ IsPathless rest)

theorem afterSlash_none {cs : List Char} : afterSlash false cs = none ↔ cs.head? ≠ some '/' := by
  cases cs with
  | nil => simp [afterSlash]
  | cons c cs => simp [afterSlash, isSlash]

theorem afterSlash_some {cs cs' : List Char} : afterSlash false cs = some cs' ↔ cs = '/' :: cs' := by
  cases cs with
  | nil => simp [afterSlash]
  | cons c cs => simp [afterSlash, isSlash]

theorem body_head (cs : List Char) : (body cs).head? = some '/' ↔ cs.head? = some '/' := by
  cases cs with
  | nil => simp [body]
  | cons c cs =>
    by_cases hc : c != '?' && c != '#'
    · simp [body, hc]
    · have hne : c ≠ '/' := by
        rintro rfl
        exact hc rfl
      simp [body, hc, hne]

theorem isBare_iff {input scheme rest : List Char} (h : splitScheme (preprocess input) = some (scheme, rest)) :
    IsBare input ↔ isSpecial scheme = false ∧ (rest.head? ≠ some '/' ∨ IsPathless rest) := by
  simp only [IsBare, h, Option.some.injEq, Prod.mk.injEq]
  constructor
  · rintro ⟨_, _, ⟨rfl, rfl⟩, hb⟩
    exact hb
  · intro hb
    exact ⟨_, _, ⟨rfl, rfl⟩, hb⟩

/-- What parses without a base has no path that starts with a slash exactly if it is bare. -/
theorem parse_bare_iff {hosts : Hosts} {input : List Char} {u : Url} (h : parse hosts input = .ok u) :
    u.pathSegments = none ↔ IsBare input := by
  simp only [parse, basicParse] at h
  split at h
  · next scheme rest hs =>
    rw [isBare_iff hs]
    split at h
    · next hf =>
      refine iff_of_false (parseFile_segments (.inl (Option.filter_none _)) h) ?_
      rintro ⟨hsp, -⟩
      simp [isSpecial, hf] at hsp
    · simp only [parseScheme, Option.filter_none] at h
      split at h
      · next hsp =>
        rw [parseAuthority_none h, hsp]
        simp
      · next hsp =>
        have hsp : isSpecial scheme = false := by simpa using hsp
        split at h
        · next hr =>
          cases h
          rw [afterSlash_none, Ne, body_head] at hr
          exact iff_of_true rfl ⟨hsp, .inl hr⟩
        · next cs hr =>
          rw [afterSlash_some] at hr
          have hhead : rest.head? = some '/' := (body_head rest).1 (by rw [hr]; rfl)
          rw [hsp, eq_self, true_and, Ne, hhead, eq_self, not_true, false_or]
          split at h
          · next cs' hr' =>
            rw [afterSlash_some] at hr'
            rw [parseAuthority_none h, hsp, eq_self, true_and, IsPathless, hr, hr']
            simp
          · next hr' =>
            rw [afterSlash_none] at hr'
            cases h
            refine iff_of_false (parsePath_ofParts _ _ _ _ _ _ _) ?_
            rintro ⟨a, ha, -⟩
            rw [hr, List.cons.injEq] at ha
            exact hr' (by rw [ha.2]; rfl)
  · cases h

theorem parseAuthority_scheme {hosts : Hosts} {scheme cs rest : List Char} {u : Url}
    (h : parseAuthority hosts scheme cs rest = .ok u) : u.scheme = scheme := by
  simp only [parseAuthority] at h
  split at h <;> cases h
  rfl

theorem parseFile_scheme {hosts : Hosts} {input : List Char} {u : Url} (h : parseFile hosts none input = .ok u) :
    u.scheme = fileScheme := by
  unfold parseFile at h
  split at h
  · cases h; rfl
  · split at h
    · cases h; rfl
    · simp only [parseFileHost] at h
      split at h
      · cases h; rfl
      · split at h
        · cases h; rfl
        · split at h <;> cases h
          rfl

/-- A URL's scheme is the one it was written with. -/
theorem parse_scheme {hosts : Hosts} {input : List Char} {u : Url} (h : parse hosts input = .ok u) :
    ∃ rest, splitScheme (preprocess input) = some (u.scheme, rest) := by
  simp only [parse, basicParse] at h
  split at h
  · next scheme rest hs =>
    have hscheme : u.scheme = scheme := by
      split at h
      · next hf => exact (parseFile_scheme h).trans hf.symm
      · simp only [parseScheme, Option.filter_none] at h
        split at h
        · exact parseAuthority_scheme h
        · split at h
          · cases h; rfl
          · split at h
            · exact parseAuthority_scheme h
            · cases h; rfl
    exact ⟨rest, by rw [hs, hscheme]⟩
  · cases h

theorem parseRelative_none {hosts : Hosts} {base : Url} {input : List Char} {u : Url} (hb : body input ≠ [])
    (h : parseRelative hosts base input = .ok u) :
    u.pathSegments = none ↔ isSpecial base.scheme = false ∧ IsPathless input := by
  simp only [parseRelative] at h
  cases hsp : isSpecial base.scheme with
  | true =>
    -- Whatever the slashes are, a special scheme has a path.
    refine iff_of_false ?_ (by simp)
    rw [hsp] at h
    split at h
    · split at h
      · rw [parseAuthority_none h, hsp]
        simp
      · cases h; exact parsePath_ofParts _ _ _ _ _ _ _
    · rw [List.isEmpty_eq_false_iff.2 hb, if_neg Bool.false_ne_true] at h
      cases h; exact parsePath_ofParts _ _ _ _ _ _ _
  | false =>
    rw [hsp] at h
    simp only [eq_self, true_and]
    split at h
    · next cs hr =>
      rw [afterSlash_some] at hr
      split at h
      · next cs' hr' =>
        rw [afterSlash_some] at hr'
        have hcs : cs'.dropWhile (false && isSlash false ·) = cs' := by
          cases cs' <;> rfl
        rw [hcs] at h
        rw [parseAuthority_none h, hsp, eq_self, true_and, IsPathless, hr, hr']
        simp
      · next hr' =>
        rw [afterSlash_none] at hr'
        cases h
        refine iff_of_false (parsePath_ofParts _ _ _ _ _ _ _) ?_
        rintro ⟨a, ha, -⟩
        rw [hr, List.cons.injEq] at ha
        exact hr' (by rw [ha.2]; rfl)
    · next hr =>
      rw [afterSlash_none] at hr
      rw [List.isEmpty_eq_false_iff.2 hb, if_neg Bool.false_ne_true] at h
      cases h
      refine iff_of_false (parsePath_ofParts _ _ _ _ _ _ _) ?_
      rintro ⟨a, ha, -⟩
      exact hr (by rw [ha]; rfl)

/-- Against another URL, what starts with a slash or a dot has no path exactly if it is
pathless and the other's scheme is not special. -/
theorem join_none_iff {hosts : Hosts} {base u : Url} {input : List Char} (hs : splitScheme (preprocess input) = none)
    (hh : (preprocess input).head? = some '/' ∨ (preprocess input).head? = some '.') (h : base.join hosts input = .ok u) :
    u.pathSegments = none ↔ isSpecial base.scheme = false ∧ IsPathless (preprocess input) := by
  have hbody : body (preprocess input) ≠ [] := by
    cases hp : preprocess input with
    | nil => simp [hp] at hh
    | cons c cs =>
      obtain rfl | rfl : c = '/' ∨ c = '.' := by simpa [hp] using hh
      · exact List.cons_ne_nil _ _
      · exact List.cons_ne_nil _ _
  have hhash : (preprocess input).head? ≠ some '#' := by
    rcases hh with hh | hh <;> rw [hh] <;> decide
  simp only [join, basicParse, hs, hhash, if_false] at h
  split at h
  · cases h
  · split at h
    · next hf =>
      refine iff_of_false (parseFile_segments (.inr hbody) h) ?_
      rintro ⟨hsp, -⟩
      simp [isSpecial, hf] at hsp
    · exact parseRelative_none hbody h

end Url

end LuauFusion.Lib
