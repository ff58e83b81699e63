import LuauFusion.ModLoader
/-!
# Starting a module by its name

`run_v8_client` makes a URL of the module's name and the loader makes a name of
the URL again. The URL parser percent-encodes on the way, and the loader does
not decode: `starts_own_iff` says which names come back as they were.
-/
open LuauFusion.Lib LuauFusion.Lib.Url

namespace LuauFusion

/-! ## Names -/

/-- Slash-separated segments, none of them empty or a dot segment, without the
characters that mean something else in a URL. -/
structure LegalKey (k : String) : Prop where
  segments : ∀ s ∈ k.toList.splitOn '/', s ≠ [] ∧ s ≠ ['.'] ∧ s ≠ ['.', '.']
  chars : ∀ c ∈ k.toList, 0x20 ≤ c.toNat ∧ c ∉ ['?', '#', '\\', ':', '|']
  trailing : k.toList.getLast? ≠ some ' '

instance (k : String) : Decidable (LegalKey k) :=
  decidable_of_iff
    ((k.toList.splitOn '/').all (fun s => !s.isEmpty && s != ['.'] && s != ['.', '.']) = true ∧
      k.toList.all (fun c => 0x20 ≤ c.toNat && !(['?', '#', '\\', ':', '|'].contains c)) = true ∧
      k.toList.getLast? ≠ some ' ') (by
    simp only [List.all_eq_true]
    constructor
    · rintro ⟨hs, hc, hl⟩
      exact ⟨by simpa [and_assoc] using hs, by simpa using hc, hl⟩
    · rintro ⟨hs, hc, hl⟩
      exact ⟨by simpa [and_assoc] using hs, by simpa using hc, hl⟩)

/-- The name has no character that the parser encodes (a space, one of
`"<>{}` or a backquote, a delete or anything beyond ASCII), and no segment that
it takes for a dot segment (`%2e`, `.%2e`, `%2e.` or `%2e%2e`, in either case). -/
def Unencoded (k : String) : Prop := ∀ s ∈ k.toList.splitOn '/', Plain s

/-- Starting the VFS entry `k` loads it: its own source, found under its own name. -/
def StartsOwn (hosts : Hosts) (vfs : Std.HashMap String String) (k : String) : Prop :=
  ∃ url src, mainModule hosts k = some url ∧ FusionModuleLoader.key url = some k ∧
    (vfsLoader vfs).load url .none = some (.ok src) ∧ vfs[k]? = some src.code.text

/-! ## From a name to a URL and back -/

/-- What the parser makes of the name's segments. -/
def storedSegments (k : String) : List Segment := pushSegments true [] (k.toList.splitOn '/')

theorem mainModule_eq {k : String} (hk : LegalKey k) (hosts : Hosts) :
    mainModule hosts k = some (fileUrl (storedSegments k)) := by
  have hslash : '\\' ∉ k.toList := by
    intro hm
    exact absurd (hk.chars _ hm).2 (by simp)
  have hq : ∀ c ∈ k.toList, 0x20 ≤ c.toNat ∧ c ≠ '?' ∧ c ≠ '#' := by
    intro c hm
    have hc := hk.chars c hm
    simp only [List.mem_cons, not_or] at hc
    exact ⟨hc.1, hc.2.1, hc.2.2.1⟩
  unfold mainModule
  rw [String.toList_append, parse_file hq hk.trailing, parsePath, splitOnP_slash hslash]
  rfl

/-- A name comes back from its URL exactly if it is unencoded: what the parser
stores is plain, and plain segments are stored as they are. -/
theorem key_mainModule_iff {k : String} (hk : LegalKey k) {url : Url}
    (hu : url.path = .segments (storedSegments k)) : FusionModuleLoader.key url = some k ↔ Unencoded k := by
  have hne : storedSegments k ≠ [] := pushSegments_ne_nil (List.splitOn_ne_nil _ _) _
  have hkey : FusionModuleLoader.key url = some (joinSegments (storedSegments k)) := by
    rw [FusionModuleLoader.key, pathSegments, hu]
    cases hs : storedSegments k with
    | nil => exact absurd hs hne
    | cons s l => rfl
  rw [hkey, Option.some.injEq]
  have hpieces : ∀ s ∈ k.toList.splitOn '/', '/' ∉ s := fun s hs hc => (mem_splitOn hs hc).2 rfl
  constructor
  · intro hjoin
    -- The name is its stored segments joined, and these are plain.
    have hl : ∀ s ∈ storedSegments k, Stored s := by
      unfold storedSegments
      exact pushSegments_stored (by simp) hpieces
    have hsplit : k.toList.splitOn '/' = storedSegments k := by
      generalize storedSegments k = l at hjoin hl hne ⊢
      subst hjoin
      rw [joinSegments, String.toList_ofList]
      exact List.splitOn_intercalate _ (fun s hs => (hl s hs).2) hne
    intro s hs
    rw [hsplit] at hs
    exact (hl s hs).1
  · intro hplain
    have hdrive : ∀ s ∈ k.toList.splitOn '/', isDriveLetter s = false := by
      intro s hs
      apply not_driveLetter
      intro c hc
      have hne := (hk.chars c (mem_splitOn hs hc).1).2
      simp only [List.mem_cons, not_or] at hne
      exact ⟨hne.2.2.2.1, hne.2.2.2.2.1⟩
    have hstored : storedSegments k = k.toList.splitOn '/' := by
      unfold storedSegments
      rw [pushSegments_of_plain hplain hdrive, List.nil_append]
    rw [hstored, joinSegments, List.intercalate_splitOn, String.ofList_toList]

/-- For every VFS and every legal name in it: starting the name loads its own
source if and only if the name is unencoded. -/
theorem starts_own_iff {hosts : Hosts} {vfs : Std.HashMap String String} {k : String} (hk : LegalKey k)
    (hv : k ∈ vfs) : StartsOwn hosts vfs k ↔ Unencoded k := by
  rw [← key_mainModule_iff hk (show (fileUrl (storedSegments k)).path = _ from rfl)]
  constructor
  · rintro ⟨url, src, hm, hkey, -, -⟩
    rw [mainModule_eq hk, Option.some.injEq] at hm
    rw [hm]
    exact hkey
  · intro hkey
    obtain ⟨src, hsrc⟩ : ∃ src, vfs[k]? = some src := ⟨vfs[k], Std.HashMap.getElem?_eq_some_getElem hv⟩
    refine ⟨_, ⟨FusionModuleLoader.moduleType k .none, .arc src, fileUrl (storedSegments k)⟩, mainModule_eq hk hosts, hkey, ?_, hsrc⟩
    rw [(vfsLoader vfs).load_eq hkey, vfsLoader_get, hsrc]
    rfl

/-- Two names, the second of which is what the first one's URL says. -/
def confusedVfs : Std.HashMap String String :=
  ((∅ : Std.HashMap String String).insert "a b.js" "own").insert "a%20b.js" "other"

theorem starts_own_iff_foo :
    StartsOwn plainHosts ((∅ : Std.HashMap String String).insert "dir/foo.js" "own") "dir/foo.js" ↔
      Unencoded "dir/foo.js" :=
  starts_own_iff (by decide) (by simp)

/-- Starting "a b.js" runs the source of "a%20b.js". -/
theorem space_starts_other :
    LegalKey "a b.js" ∧ confusedVfs["a b.js"]? = some "own" ∧ ¬ StartsOwn plainHosts confusedVfs "a b.js" ∧
      ∃ url src, mainModule plainHosts "a b.js" = some url ∧
        (vfsLoader confusedVfs).load url .none = some (.ok src) ∧ src.code.text = "other" := by
  have hlegal : LegalKey "a b.js" := by decide
  have hu := mainModule_eq hlegal plainHosts
  have hkey : FusionModuleLoader.key (fileUrl (storedSegments "a b.js")) = some "a%20b.js" := rfl
  have hother : (vfsLoader confusedVfs).map["a%20b.js"]? = some (.arc "other") := by
    rw [vfsLoader_get]
    simp [confusedVfs]
  refine ⟨hlegal, ?_, ?_, _, ⟨.javaScript, .arc "other", fileUrl (storedSegments "a b.js")⟩, hu, ?_, rfl⟩
  · rw [confusedVfs, Std.HashMap.getElem?_insert, if_neg (by decide), Std.HashMap.getElem?_insert_self]
  · rintro ⟨url, src, hm, hk, -, -⟩
    rw [hu, Option.some.injEq] at hm
    rw [← hm, hkey] at hk
    exact absurd hk (by decide)
  · rw [(vfsLoader confusedVfs).load_eq hkey, hother]
    rfl

end LuauFusion
