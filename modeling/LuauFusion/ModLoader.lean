import Std.Data.HashMap.Lemmas
import LuauFusion.EventBridge
import LuauFusion.Lib.Url
/-!
# The module loader

`denobridge/modloader.rs`, and what `run_v8_client` does with it before the
loop: the VFS is copied into a map from names to sources, a module's URL is
resolved as `deno_core::resolve_import` does, and its path, segments joined
again, is looked up in the map.
-/
open LuauFusion.Lib LuauFusion.Lib.Url

namespace LuauFusion

/-! ## Sources -/

/-- `deno_core`'s string, by what owns the text. -/
inductive FastString where
  | borrowed (s : String)
  | owned (s : String)
  | arc (s : String)
  deriving DecidableEq

namespace FastString

def text : FastString → String
  | borrowed s | owned s | arc s => s

def intoCheapCopy : FastString → FastString × FastString
  | owned s => (arc s, arc s)
  | s => (s, s)

/-- An owned string cannot be cloned for the price of a pointer. -/
def tryClone : FastString → Option FastString
  | owned _ => none
  | s => some s

theorem tryClone_intoCheapCopy (s : FastString) : s.intoCheapCopy.1.tryClone = some s.intoCheapCopy.1 := by
  cases s <;> rfl

end FastString

inductive ModuleType where
  | javaScript
  | json
  deriving DecidableEq

/-- The `type` import attribute. -/
inductive RequestedModuleType where
  | none
  | json
  | other (t : String)
  deriving DecidableEq

structure ModuleSource where
  moduleType : ModuleType
  code : FastString
  specifier : Url
  deriving DecidableEq

/-- Every source in the map can be cloned. -/
structure FusionModuleLoader where
  map : Std.HashMap String FastString
  cloneable : ∀ (k : String) (c : FastString), map[k]? = some c → c.tryClone = some c

/-! ## Resolution -/

inductive ModuleResolutionError where
  | invalidUrl (e : ParseError)
  | invalidBaseUrl (e : ParseError)
  | importPrefixMissing (specifier : String) (maybeReferrer : Option String)
  deriving DecidableEq

/-- The specifier starts with `/`, `./` or `../`. -/
def hasImportPrefix (specifier : List Char) : Bool :=
  "/".toList.isPrefixOf specifier || "./".toList.isPrefixOf specifier || "../".toList.isPrefixOf specifier

/-- `deno_core::resolve_import`. -/
def resolveImport (hosts : Hosts) (specifier base : String) : Except ModuleResolutionError Url :=
  match Url.parse hosts specifier.toList with
  | .ok url => .ok url
  | .error .relativeUrlWithoutBase =>
    -- A bare name such as `"foo"` is refused, not joined.
    if hasImportPrefix specifier.toList then
      match Url.parse hosts base.toList with
      | .error e => .error (.invalidBaseUrl e)
      | .ok b => (b.join hosts specifier.toList).mapError .invalidUrl
    else .error (.importPrefixMissing specifier (if base = "" then none else some base))
  | .error e => .error (.invalidUrl e)

/-- Authorities taken as they are, and `localhost` for no host. -/
def plainHosts : Hosts where
  authority _ text := if text.isEmpty then none else some text
  fileHost host := some (if host = "localhost".toList then [] else host)

/-! ## Loading -/

/-- The path's segments, joined again. -/
def joinSegments (l : List Segment) : String := String.ofList (['/'].intercalate l)

/-- The last dot-separated part of a path, lowercased. -/
def extension (path : String) : List Char := ((path.toList.splitOn '.').getLastD []).map Char.toLower

namespace FusionModuleLoader

def empty : FusionModuleLoader := ⟨∅, by simp⟩

def insert (l : FusionModuleLoader) (url : String) (code : FastString) : FusionModuleLoader where
  map := l.map.insert url code.intoCheapCopy.1
  cloneable := by
    intro k c hc
    rw [Std.HashMap.getElem?_insert] at hc
    split at hc
    · obtain rfl := Option.some.inj hc
      exact code.tryClone_intoCheapCopy
    · exact l.cloneable k c hc

/-- A later entry for a name replaces an earlier one. -/
def new (entries : List (String × FastString)) : FusionModuleLoader :=
  entries.foldl (fun l (url, code) => l.insert url code) empty

/-- Errors come wrapped in a `JsErrorBox`. -/
def resolve (hosts : Hosts) (specifier referrer : String) : Except ModuleResolutionError Url :=
  resolveImport hosts specifier referrer

def moduleType (path : String) (requested : RequestedModuleType) : ModuleType :=
  if requested = .json then .json
  else if extension path = "json".toList then .json
  else .javaScript

/-- `none` is a panic: one of the two `unwrap`s failed. -/
def load (l : FusionModuleLoader) (moduleSpecifier : Url) (requested : RequestedModuleType) :
    Option (Except JsErrorBox ModuleSource) :=
  match moduleSpecifier.pathSegments with
  | none => none
  | some segments =>
    let path := joinSegments segments
    -- The segments are still percent-encoded here.
    match l.map[path]? with
    | none => some (.error (.generic "Module not found"))
    | some code =>
      match code.tryClone with
      | none => none
      | some code => some (.ok ⟨moduleType path requested, code, moduleSpecifier⟩)

/-- The name a URL is looked up under. -/
def key (moduleSpecifier : Url) : Option String := moduleSpecifier.pathSegments.map joinSegments

/-- What `load` finds is what the map holds for the URL's key. -/
theorem load_eq (l : FusionModuleLoader) {url : Url} {k : String} (h : key url = some k) (requested : RequestedModuleType) :
    l.load url requested = some (match l.map[k]? with
      | none => .error (.generic "Module not found")
      | some code => .ok ⟨moduleType k requested, code, url⟩) := by
  obtain ⟨segs, hs, rfl⟩ := Option.map_eq_some_iff.1 h
  simp only [load, hs]
  cases hc : l.map[joinSegments segs]? with
  | none => rfl
  | some code => simp only [l.cloneable _ _ hc]

/-- With a key, loading cannot panic. -/
theorem load_none_iff (l : FusionModuleLoader) (url : Url) (requested : RequestedModuleType) :
    l.load url requested = none ↔ url.pathSegments = none := by
  constructor
  · intro h
    by_contra hne
    obtain ⟨segs, hs⟩ := Option.ne_none_iff_exists'.1 hne
    rw [l.load_eq (k := joinSegments segs) (by simp [key, hs])] at h
    cases h
  · intro h
    simp [load, h]

end FusionModuleLoader

/-! ## Starting up -/

/-- The loader `run_v8_client` builds from the VFS. -/
def vfsLoader (vfs : Std.HashMap String String) : FusionModuleLoader :=
  .new (vfs.toList.map fun (x, y) => (x, .owned y))

/-- The main module's URL; a failure is a panic. -/
def mainModule (hosts : Hosts) (moduleName : String) : Option Url :=
  (Url.parse hosts ("file:///" ++ moduleName).toList).toOption

theorem foldl_insert_of_not_mem {entries : List (String × FastString)} {k : String} (h : ∀ c, (k, c) ∉ entries)
    (l : FusionModuleLoader) :
    (entries.foldl (fun l (url, code) => l.insert url code) l).map[k]? = l.map[k]? := by
  induction entries generalizing l with
  | nil => rfl
  | cons e es ih =>
    have hne : e.1 ≠ k := by
      rintro rfl
      exact h e.2 List.mem_cons_self
    rw [List.foldl_cons, ih fun c hc => h c (List.mem_cons_of_mem _ hc)]
    simp [FusionModuleLoader.insert, Std.HashMap.getElem?_insert, hne]

/-- Where names occur once, each is mapped to its own source. -/
theorem foldl_insert_of_mem {entries : List (String × FastString)}
    (hd : entries.Pairwise fun a b => (a.1 == b.1) = false) {k : String} {c : FastString} (h : (k, c) ∈ entries)
    (l : FusionModuleLoader) :
    (entries.foldl (fun l (url, code) => l.insert url code) l).map[k]? = some c.intoCheapCopy.1 := by
  induction entries generalizing l with
  | nil => cases h
  | cons e es ih =>
    rw [List.pairwise_cons] at hd
    rw [List.foldl_cons]
    rcases List.mem_cons.1 h with rfl | h
    · rw [foldl_insert_of_not_mem]
      · simp [FusionModuleLoader.insert]
      · intro c' hc'
        have := hd.1 _ hc'
        simp at this
    · exact ih hd.2 h _

/-- The loader maps every name of the VFS to its source, and no other. -/
theorem vfsLoader_get (vfs : Std.HashMap String String) (k : String) :
    (vfsLoader vfs).map[k]? = vfs[k]?.map FastString.arc := by
  unfold vfsLoader FusionModuleLoader.new
  cases hk : vfs[k]? with
  | none =>
    rw [foldl_insert_of_not_mem]
    · simp [FusionModuleLoader.empty]
    · intro c hc
      obtain ⟨⟨x, y⟩, hx, he⟩ := List.mem_map.1 hc
      obtain ⟨rfl, -⟩ := Prod.mk.inj he
      rw [Std.HashMap.mem_toList_iff_getElem?_eq_some, hk] at hx
      cases hx
  | some v =>
    have hmem : (k, FastString.owned v) ∈ vfs.toList.map fun (x, y) => (x, FastString.owned y) :=
      List.mem_map.2 ⟨(k, v), Std.HashMap.mem_toList_iff_getElem?_eq_some.2 hk, rfl⟩
    rw [foldl_insert_of_mem ?_ hmem]
    · rfl
    · rw [List.pairwise_map]
      exact Std.HashMap.distinct_keys_toList

end LuauFusion
