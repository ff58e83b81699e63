import LuauFusion.ModLoader
/-!
# Relative imports

Between names of clean segments, which the URL parser leaves alone, resolving a
relative specifier is path normalisation (`resolve_imported`) and loading is a
lookup of the normalised name (`load_name`). `loaded_clean` carries that along
chains of imports of any length.
-/
open LuauFusion.Lib LuauFusion.Lib.Url

namespace LuauFusion

/-! ## Clean names -/

def isCleanChar (c : Char) : Bool := c.isAlphanum || c == '-' || c == '_' || c == '.'

def isClean (s : Segment) : Bool := !s.isEmpty && s.all isCleanChar && s != ".".toList && s != "..".toList

set_option maxRecDepth 4000 in
theorem cleanChar_plain {c : Char} (h : isCleanChar c = true) :
    0x20 ≤ c.toNat ∧ pathSet c = false ∧ c ∉ ['/', '\\', '?', '#', ':', '|', ' '] ∧ c.toLower ≠ '%' ∧
      (c.toLower = '.' → c = '.') := by
  have hlt : c.toNat < 128 := by
    simp only [isCleanChar, Bool.or_eq_true, beq_iff_eq] at h
    rcases h with ((h | rfl) | rfl) | rfl
    · exact alphanum_lt h
    · decide
    · decide
    · decide
  exact ascii_cases (P := fun c => isCleanChar c = true → 0x20 ≤ c.toNat ∧ pathSet c = false ∧
    c ∉ ['/', '\\', '?', '#', ':', '|', ' '] ∧ c.toLower ≠ '%' ∧ (c.toLower = '.' → c = '.')) (by decide) hlt h

theorem isClean_iff {s : Segment} :
    isClean s = true ↔ s ≠ [] ∧ (∀ c ∈ s, isCleanChar c = true) ∧ s ≠ ".".toList ∧ s ≠ "..".toList := by
  simp [isClean, and_assoc]

/-- The parser stores a clean segment as it is. -/
theorem clean_plain {s : Segment} (h : isClean s = true) : Plain s ∧ isDriveLetter s = false := by
  obtain ⟨-, hc, h1, h2⟩ := isClean_iff.1 h
  have hpercent : '%' ∉ s.map Char.toLower := by
    rintro hm
    obtain ⟨c, hm, he⟩ := List.mem_map.1 hm
    exact (cleanChar_plain (hc c hm)).2.2.2.1 he
  -- No letter becomes a dot, so what lowercases to dots is dots.
  have hdots : ∀ t, s.map Char.toLower = t → (∀ c ∈ t, c = '.') → s = t := by
    intro t hm ht
    calc s = s.map id := (List.map_id s).symm
      _ = s.map Char.toLower := List.map_congr_left fun c hcm => by
        have hl : c.toLower = '.' := ht _ (hm ▸ List.mem_map_of_mem hcm)
        rw [hl, (cleanChar_plain (hc c hcm)).2.2.2.2 hl, id]
      _ = t := hm
  constructor
  · apply plain_of_no_percent (fun c hm => (cleanChar_plain (hc c hm)).2.1) hpercent
    · exact fun hm => h1 (hdots _ hm (by simp))
    · exact fun hm => h2 (hdots _ hm (by simp))
  · apply not_driveLetter
    intro c hm
    have hne := (cleanChar_plain (hc c hm)).2.2.1
    simp only [List.mem_cons, not_or] at hne
    exact ⟨hne.2.2.2.2.1, hne.2.2.2.2.2.1⟩

/-- A name of the VFS made of clean segments. -/
structure CleanKey where
  segments : List Segment
  nonempty : segments ≠ []
  clean : ∀ s ∈ segments, isClean s = true

/-- A specifier that starts with `./` or `../`, goes on with clean segments and
dot segments, and ends with a clean segment. -/
structure RelativeSpecifier where
  parts : List Segment
  first : parts.head? = some ".".toList ∨ parts.head? = some "..".toList
  clean : ∀ p ∈ parts, isClean p = true ∨ p = ".".toList ∨ p = "..".toList
  last : ∀ p ∈ parts.getLast?, isClean p = true

def CleanKey.name (k : CleanKey) : String := joinSegments k.segments

def RelativeSpecifier.text (s : RelativeSpecifier) : String := joinSegments s.parts

/-- The name a specifier names from a module: its path from the module's
directory, normalised. -/
def CleanKey.imported (k : CleanKey) (s : RelativeSpecifier) : CleanKey where
  segments := normalise k.segments.dropLast s.parts
  nonempty := by
    obtain ⟨p, hp⟩ : ∃ p, s.parts.getLast? = some p := by
      rw [← Option.isSome_iff_exists, List.getLast?_isSome]
      rintro hnil
      have := s.first
      simp [hnil] at this
    obtain ⟨init, hinit⟩ := List.getLast?_eq_some_iff.1 hp
    obtain ⟨-, -, h1, h2⟩ := isClean_iff.1 (s.last p hp)
    rw [hinit, normalise_append, normalise, if_neg h1, if_neg h2, normalise]
    simp
  clean := by
    intro p hp
    rcases mem_normalise hp with hp | ⟨hp, h1, h2⟩
    · exact k.clean p ((List.dropLast_sublist _).subset hp)
    · rcases s.clean p hp with h | h | h
      · exact h
      · exact absurd h h1
      · exact absurd h h2

/-- Names and specifiers are written in characters that mean nothing but
themselves to the parser. -/
theorem joined_chars {l : List Segment} (h : ∀ s ∈ l, ∀ c ∈ s, isCleanChar c = true) {c : Char}
    (hc : c ∈ (joinSegments l).toList) : 0x20 ≤ c.toNat ∧ c ≠ '?' ∧ c ≠ '#' ∧ c ≠ '\\' ∧ c ≠ ' ' := by
  rw [joinSegments, String.toList_ofList] at hc
  rcases mem_intercalate hc with rfl | ⟨s, hs, hc⟩
  · decide
  · obtain ⟨h20, -, hne, -⟩ := cleanChar_plain (h s hs c hc)
    simp only [List.mem_cons, not_or] at hne
    exact ⟨h20, hne.2.2.1, hne.2.2.2.1, hne.2.1, hne.2.2.2.2.2.2.1⟩

namespace CleanKey

theorem cleanChars (k : CleanKey) : ∀ s ∈ k.segments, ∀ c ∈ s, isCleanChar c = true :=
  fun s hs => (isClean_iff.1 (k.clean s hs)).2.1

theorem no_slash (k : CleanKey) : ∀ s ∈ k.segments, '/' ∉ s := by
  intro s hs hc
  have := (cleanChar_plain (k.cleanChars s hs _ hc)).2.2.1
  simp at this

theorem split_name (k : CleanKey) : k.name.toList.splitOn '/' = k.segments := by
  rw [name, joinSegments, String.toList_ofList]
  exact List.splitOn_intercalate _ k.no_slash k.nonempty

theorem no_space (k : CleanKey) : k.name.toList.getLast? ≠ some ' ' := by
  intro h
  exact (joined_chars k.cleanChars (List.mem_of_getLast? h)).2.2.2.2 rfl

/-- The URL of a clean name has the name's segments. -/
theorem parse_name (hosts : Hosts) (k : CleanKey) :
    Url.parse hosts ("file:///" ++ k.name).toList = .ok (fileUrl k.segments) := by
  have hchars : ∀ c ∈ k.name.toList, 0x20 ≤ c.toNat ∧ c ≠ '?' ∧ c ≠ '#' := by
    intro c hc
    obtain ⟨h20, hq, hf, -⟩ := joined_chars k.cleanChars hc
    exact ⟨h20, hq, hf⟩
  have hback : '\\' ∉ k.name.toList := fun hc => (joined_chars k.cleanChars hc).2.2.2.1 rfl
  rw [String.toList_append, parse_file hchars k.no_space, parsePath, splitOnP_slash hback, k.split_name,
    pushSegments_of_plain (fun s hs => (clean_plain (k.clean s hs)).1) (fun s hs => (clean_plain (k.clean s hs)).2),
    List.nil_append]

theorem key_fileUrl (k : CleanKey) : FusionModuleLoader.key (fileUrl k.segments) = some k.name := by
  cases hs : k.segments with
  | nil => exact absurd hs k.nonempty
  | cons s l => rw [name, hs]; rfl

theorem serialize_name (k : CleanKey) : String.ofList (fileUrl k.segments).serialize = "file:///" ++ k.name := by
  rw [serialize_fileUrl k.nonempty, String.ofList_append, String.ofList_toList]
  rfl

end CleanKey

namespace RelativeSpecifier

theorem cleanChars (s : RelativeSpecifier) : ∀ p ∈ s.parts, ∀ c ∈ p, isCleanChar c = true := by
  intro p hp c hc
  rcases s.clean p hp with h | rfl | rfl
  · exact (isClean_iff.1 h).2.1 c hc
  · simp at hc; subst hc; rfl
  · simp at hc; subst hc; rfl

/-- A dot segment, a slash and the rest. -/
theorem shape (s : RelativeSpecifier) :
    ∃ dots rest, (dots = ".".toList ∨ dots = "..".toList) ∧ rest ≠ [] ∧ s.parts = dots :: rest := by
  cases hp : s.parts with
  | nil =>
    have := s.first
    simp [hp] at this
  | cons dots rest =>
    have hd : dots = ".".toList ∨ dots = "..".toList := by simpa [hp] using s.first
    refine ⟨dots, rest, hd, ?_, rfl⟩
    rintro rfl
    have hl := (isClean_iff.1 (s.last dots (by rw [hp]; rfl))).2.2
    rcases hd with hd | hd
    · exact hl.1 hd
    · exact hl.2 hd

theorem text_eq (s : RelativeSpecifier) :
    ∃ dots rest, (dots = ".".toList ∨ dots = "..".toList) ∧ s.text.toList = dots ++ '/' :: rest := by
  obtain ⟨dots, rest, hd, hr, hp⟩ := s.shape
  refine ⟨dots, ['/'].intercalate rest, hd, ?_⟩
  rw [text, joinSegments, String.toList_ofList, hp, List.intercalate_cons_of_ne_nil hr]
  simp

theorem head_text (s : RelativeSpecifier) : s.text.toList.head? = some '.' := by
  obtain ⟨dots, rest, rfl | rfl, h⟩ := s.text_eq <;> rw [h] <;> rfl

theorem hasImportPrefix_text (s : RelativeSpecifier) : hasImportPrefix s.text.toList = true := by
  obtain ⟨dots, rest, rfl | rfl, h⟩ := s.text_eq <;> rw [h] <;> rfl

theorem split_text (s : RelativeSpecifier) : s.text.toList.splitOn '/' = s.parts := by
  obtain ⟨dots, rest, -, -, hp⟩ := s.shape
  rw [text, joinSegments, String.toList_ofList]
  refine List.splitOn_intercalate _ ?_ (by simp [hp])
  intro p hp hc
  have := (cleanChar_plain (s.cleanChars p hp _ hc)).2.2.1
  simp at this

end RelativeSpecifier

/-! ## Resolving and loading -/

/-- Resolving a specifier from a module is normalising its path. -/
theorem resolve_imported (hosts : Hosts) (k : CleanKey) (s : RelativeSpecifier) :
    FusionModuleLoader.resolve hosts s.text ("file:///" ++ k.name) = .ok (fileUrl (k.imported s).segments) := by
  have hchars : ∀ c ∈ s.text.toList, 0x20 ≤ c.toNat ∧ c ≠ '?' ∧ c ≠ '#' := by
    intro c hc
    obtain ⟨h20, hq, hf, -⟩ := joined_chars s.cleanChars hc
    exact ⟨h20, hq, hf⟩
  have hback : '\\' ∉ s.text.toList := fun hc => (joined_chars s.cleanChars hc).2.2.2.1 rfl
  have hspace : s.text.toList.getLast? ≠ some ' ' :=
    fun h => (joined_chars s.cleanChars (List.mem_of_getLast? h)).2.2.2.2 rfl
  have hdrive : ∀ p ∈ k.segments, isDriveLetter p = false := fun p hp => (clean_plain (k.clean p hp)).2
  have hpath : parsePath true true (shorten true k.segments) s.text.toList = (k.imported s).segments := by
    rw [parsePath, splitOnP_slash hback, s.split_text, shorten_eq hdrive]
    refine pushSegments_normalise (fun p hp => hdrive p ((List.dropLast_sublist _).subset hp)) ?_ ?_
    · intro p hp
      exact (s.clean p hp).imp_left clean_plain
    · intro p hp
      exact (clean_plain (s.last p hp)).1
  simp only [FusionModuleLoader.resolve, resolveImport, parse_dot s.head_text, s.hasImportPrefix_text, if_true,
    k.parse_name, join_fileUrl s.head_text hchars hspace, hpath, Except.mapError]

/-- Loading a clean name's URL finds what the VFS has under the name. -/
theorem load_name (vfs : Std.HashMap String String) (k : CleanKey) (requested : RequestedModuleType) :
    (vfsLoader vfs).load (fileUrl k.segments) requested = some (match vfs[k.name]? with
      | none => .error (.generic "Module not found")
      | some src => .ok ⟨FusionModuleLoader.moduleType k.name requested, .arc src, fileUrl k.segments⟩) := by
  rw [(vfsLoader vfs).load_eq k.key_fileUrl, vfsLoader_get]
  cases vfs[k.name]? <;> rfl

/-! ## Chains of imports -/

/-- The URLs of the modules loaded: the main module, and what a loaded module
imports. -/
inductive Loaded (hosts : Hosts) (vfs : Std.HashMap String String) : Url → Prop
  | main {k : CleanKey} {url src} : mainModule hosts k.name = some url →
      (vfsLoader vfs).load url .none = some (.ok src) → Loaded hosts vfs url
  | imported {referrer : Url} {s : RelativeSpecifier} {url requested src} : Loaded hosts vfs referrer →
      FusionModuleLoader.resolve hosts s.text (String.ofList referrer.serialize) = .ok url →
      (vfsLoader vfs).load url requested = some (.ok src) → Loaded hosts vfs url

theorem loaded_mem {vfs : Std.HashMap String String} {k : CleanKey} {requested : RequestedModuleType}
    {src : ModuleSource} (h : (vfsLoader vfs).load (fileUrl k.segments) requested = some (.ok src)) : k.name ∈ vfs := by
  rw [load_name] at h
  cases hk : vfs[k.name]? with
  | none => simp [hk] at h
  | some v => exact Std.HashMap.mem_iff_isSome_getElem?.2 (by simp [hk])

/-- Along every chain, a module's URL is that of a clean name of the VFS. -/
theorem loaded_clean {hosts : Hosts} {vfs : Std.HashMap String String} {url : Url} (h : Loaded hosts vfs url) :
    ∃ k : CleanKey, url = fileUrl k.segments ∧ k.name ∈ vfs := by
  induction h with
  | @main k url src hm hl =>
    simp only [mainModule, k.parse_name, Except.toOption, Option.some.injEq] at hm
    subst hm
    exact ⟨k, rfl, loaded_mem hl⟩
  | @imported referrer s url requested src _ hr hl ih =>
    obtain ⟨k, rfl, -⟩ := ih
    rw [k.serialize_name, resolve_imported, Except.ok.injEq] at hr
    subst hr
    exact ⟨k.imported s, rfl, loaded_mem hl⟩

/-- From every module and by every relative specifier, an import resolves to the
normalised name and loads its source, or is not found where the VFS does not
have it. Along every chain of imports a module's URL is `file:///` and its own
name, so one name is one URL. -/
theorem imports_normalise (hosts : Hosts) (vfs : Std.HashMap String String) :
    (∀ (k : CleanKey) (s : RelativeSpecifier) (requested : RequestedModuleType), ∃ url,
      FusionModuleLoader.resolve hosts s.text ("file:///" ++ k.name) = .ok url ∧
      (vfsLoader vfs).load url requested = some (match vfs[(k.imported s).name]? with
        | none => .error (.generic "Module not found")
        | some src => .ok ⟨FusionModuleLoader.moduleType (k.imported s).name requested, .arc src, url⟩)) ∧
    (∀ url, Loaded hosts vfs url → ∃ k : CleanKey, FusionModuleLoader.key url = some k.name ∧ k.name ∈ vfs ∧
      String.ofList url.serialize = "file:///" ++ k.name) ∧
    ∀ url url', Loaded hosts vfs url → Loaded hosts vfs url' →
      FusionModuleLoader.key url = FusionModuleLoader.key url' → url = url' := by
  refine ⟨?_, ?_, ?_⟩
  · intro k s requested
    exact ⟨_, resolve_imported hosts k s, load_name vfs (k.imported s) requested⟩
  · intro url h
    obtain ⟨k, rfl, hk⟩ := loaded_clean h
    exact ⟨k, k.key_fileUrl, hk, k.serialize_name⟩
  · intro url url' h h' he
    obtain ⟨k, rfl, -⟩ := loaded_clean h
    obtain ⟨k', rfl, -⟩ := loaded_clean h'
    rw [k.key_fileUrl, k'.key_fileUrl, Option.some.injEq] at he
    rw [← k.split_name, ← k'.split_name, he]

theorem imports_normalise_sibling :
    ∃ url, FusionModuleLoader.resolve plainHosts "../lib/./x.js" "file:///dir/a.js" = .ok url ∧
      (vfsLoader ∅).load url .none = some (match (∅ : Std.HashMap String String)["lib/x.js"]? with
        | none => .error (.generic "Module not found")
        | some src => .ok ⟨FusionModuleLoader.moduleType "lib/x.js" .none, .arc src, url⟩) :=
  (imports_normalise plainHosts ∅).1 ⟨["dir".toList, "a.js".toList], by decide, by decide⟩
    ⟨["..".toList, "lib".toList, ".".toList, "x.js".toList], by decide, by decide, by decide⟩ .none

end LuauFusion
