import LuauFusion.Lib.Search
import LuauFusion.Loading
import LuauFusion.Startup
/-!
# A module and what it imports

`load_side_es_module` as far as `denobridge/modloader.rs` is concerned: it has the loader
load the module, resolve what the module imports, load that, and so on, each module once
and in any order. Compiling a source and linking what was loaded is `deno_core`'s and V8's
(`Modules`).
-/
open LuauFusion.Lib LuauFusion.Lib.Url

namespace LuauFusion

/-- A module that the loader is asked for. -/
structure Request where
  url : Url
  requested : RequestedModuleType
  deriving DecidableEq

inductive LoadError where
  | loader (e : JsErrorBox)
  | compile (e : String)
  | resolution (e : ModuleResolutionError)
  | link (e : String)

/-- What is loaded from, and what `deno_core` and V8 make of it: the imports of a source
that was asked for so, and whether what was loaded links. -/
structure Modules where
  hosts : Hosts
  vfs : Std.HashMap String String
  compile : Request → ModuleSource → Except String (List (String × RequestedModuleType))
  link : Except String Unit
  displayLoadError : LoadError → String

/-- What a module's imports resolve to, each against the module's URL. -/
def resolveAll (hosts : Hosts) (referrer : String) : List (String × RequestedModuleType) → Except LoadError (List Request)
  | [] => .ok []
  | (specifier, requested) :: imports =>
    match FusionModuleLoader.resolve hosts specifier referrer with
    | .error e => .error (.resolution e)
    | .ok url => (resolveAll hosts referrer imports).map (⟨url, requested⟩ :: ·)

namespace Modules

def load (M : Modules) (r : Request) : Option (Except JsErrorBox ModuleSource) := (vfsLoader M.vfs).load r.url r.requested

/-- The modules that a loaded one asks for. -/
def requests (M : Modules) (r : Request) (src : ModuleSource) : Except LoadError (List Request) :=
  match M.compile r src with
  | .error e => .error (.compile e)
  | .ok imports => resolveAll M.hosts (String.ofList r.url.serialize) imports

def succ (M : Modules) (r : Request) : Option (List Request) :=
  match M.load r with
  | some (.ok src) => (M.requests r src).toOption
  | _ => none

/-- Asking for `r` fails with `e`, and does not panic. -/
def Fails (M : Modules) (r : Request) (e : LoadError) : Prop :=
  (∃ e', M.load r = some (.error e') ∧ e = .loader e') ∨ ∃ src, M.load r = some (.ok src) ∧ M.requests r src = .error e

/-- The module and all that it imports, directly or not, is found, compiles, resolves and
links. -/
def Loads (M : Modules) (url : Url) : Prop := M.link = .ok () ∧ ∃ mods, Search.Closed ⟨url, .none⟩ M.succ mods

variable {M : Modules}

theorem succ_eq {r : Request} {src : ModuleSource} {rs : List Request} (hl : M.load r = some (.ok src))
    (hr : M.requests r src = .ok rs) : M.succ r = some rs := by
  simp only [succ, hl, hr, Except.toOption]

theorem succ_some {r : Request} {rs : List Request} (h : M.succ r = some rs) :
    ∃ src, M.load r = some (.ok src) ∧ M.requests r src = .ok rs := by
  unfold succ at h
  split at h
  · next src hl =>
    cases hr : M.requests r src with
    | error e => simp [hr, Except.toOption] at h
    | ok rs' =>
      simp only [hr, Except.toOption, Option.some.injEq] at h
      subst h
      exact ⟨src, hl, hr⟩
  · cases h

theorem mem_resolveAll {hosts : Hosts} {referrer : String} {imports : List (String × RequestedModuleType)}
    {rs : List Request} (h : resolveAll hosts referrer imports = .ok rs) {r : Request} (hr : r ∈ rs) :
    ∃ specifier, FusionModuleLoader.resolve hosts specifier referrer = .ok r.url := by
  induction imports generalizing rs with
  | nil => cases h; cases hr
  | cons i imports ih =>
    obtain ⟨specifier, requested⟩ := i
    simp only [resolveAll] at h
    split at h
    · cases h
    · next url hurl =>
      cases hrest : resolveAll hosts referrer imports with
      | error e => simp [hrest, Except.map] at h
      | ok rs' =>
        simp only [hrest, Except.map, Except.ok.injEq] at h
        subst h
        rcases List.mem_cons.1 hr with rfl | hr
        · exact ⟨specifier, hurl⟩
        · exact ih hrest hr

/-- What is asked for is the module itself, or some import resolved to it. -/
theorem reached_resolves {root r : Request} (h : Relation.ReflTransGen (Search.Edge M.succ) root r) :
    r = root ∨ ∃ specifier referrer, FusionModuleLoader.resolve M.hosts specifier referrer = .ok r.url := by
  cases h with
  | refl => exact .inl rfl
  | @tail b _ _ hedge =>
    obtain ⟨rs, hs, hm⟩ := hedge
    obtain ⟨src, -, hr⟩ := succ_some hs
    unfold requests at hr
    split at hr
    · cases hr
    · obtain ⟨specifier, he⟩ := mem_resolveAll hr hm
      exact .inr ⟨specifier, _, he⟩

/-- A module that loads is in the VFS under the name its URL gives. -/
theorem Loads.mem {url : Url} {k : String} (h : M.Loads url) (hk : FusionModuleLoader.key url = some k) : k ∈ M.vfs := by
  obtain ⟨-, mods, hroot, hclosed⟩ := h
  obtain ⟨rs, hs, -⟩ := hclosed _ hroot
  obtain ⟨src, hl, -⟩ := succ_some hs
  rw [load, (vfsLoader M.vfs).load_eq hk, vfsLoader_get] at hl
  rw [Std.HashMap.mem_iff_isSome_getElem?]
  cases hv : M.vfs[k]? with
  | none => simp [hv] at hl
  | some text => rfl

end Modules

/-- No name fails to parse after `file:///`, and such a URL has segments. -/
theorem mainModule_ok (hosts : Hosts) (moduleName : String) :
    ∃ url k, Url.parse hosts ("file:///" ++ moduleName).toList = .ok url ∧
      mainModule hosts moduleName = some url ∧ FusionModuleLoader.key url = some k := by
  obtain ⟨s, l, q, f, h⟩ := parse_file_total hosts moduleName.toList
  rw [← String.toList_append] at h
  exact ⟨_, _, h, by rw [mainModule, h]; rfl, rfl⟩

end LuauFusion
