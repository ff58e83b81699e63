import LuauFusion.ModLoader
/-!
# Loading what was resolved

`load` takes the path segments of its URL for granted. `resolve` lets through
every absolute URL a script names, and one whose path does not start with a slash
has no segments, nor has one without a path: importing it panics
(`load_total_iff`). The other `unwrap` is safe, since the loader holds no source
that cannot be cloned.
-/
open LuauFusion.Lib LuauFusion.Lib.Url

namespace LuauFusion

/-- The imports whose URL has no segments: a bare URL, or two slashes and a host from a
module whose own scheme is not special. -/
def Unsegmented (specifier referrer : String) : Prop :=
  IsBare specifier.toList ∨
    splitScheme (preprocess specifier.toList) = none ∧ IsPathless (preprocess specifier.toList) ∧
      ∃ scheme rest, splitScheme (preprocess referrer.toList) = some (scheme, rest) ∧ isSpecial scheme = false

/-- What is joined to the referrer starts with a slash or a dot. -/
theorem hasImportPrefix_head {specifier : List Char} (h : hasImportPrefix specifier = true) :
    (preprocess specifier).head? = some '/' ∨ (preprocess specifier).head? = some '.' := by
  cases specifier with
  | nil => simp [hasImportPrefix] at h
  | cons c cs =>
    obtain rfl | rfl : c = '/' ∨ c = '.' := by
      simp [hasImportPrefix] at h
      tauto
    · exact .inl (preprocess_head (by decide))
    · exact .inr (preprocess_head (by decide))

/-- Parsed or joined, a resolved URL has no segments exactly for these. -/
theorem resolve_none_iff {hosts : Hosts} {specifier referrer : String} {url : Url}
    (h : FusionModuleLoader.resolve hosts specifier referrer = .ok url) :
    url.pathSegments = none ↔ Unsegmented specifier referrer := by
  unfold FusionModuleLoader.resolve resolveImport at h
  split at h
  · next u hp =>
    cases h
    have hscheme : splitScheme (preprocess specifier.toList) ≠ none := by
      obtain ⟨rest, hs⟩ := parse_scheme hp
      rw [hs]
      simp
    rw [parse_bare_iff hp, Unsegmented]
    exact (or_iff_left fun hj => hscheme hj.1).symm
  · next hp =>
    have hs := parse_relative hp
    split at h
    · next hpre =>
      split at h
      · cases h
      · next b hb =>
        cases hj : b.join hosts specifier.toList with
        | error e => simp [hj, Except.mapError] at h
        | ok u =>
          simp only [hj, Except.mapError, Except.ok.injEq] at h
          subst h
          have hbare : ¬ IsBare specifier.toList := by
            rintro ⟨_, _, hsome, -⟩
            rw [hs] at hsome
            cases hsome
          obtain ⟨rest, hrest⟩ := parse_scheme hb
          rw [join_none_iff hs (hasImportPrefix_head hpre) hj, Unsegmented, or_iff_right hbare, hs, hrest]
          constructor
          · rintro ⟨hsp, hless⟩
            exact ⟨rfl, hless, _, _, rfl, hsp⟩
          · rintro ⟨-, hless, _, _, he, hsp⟩
            cases he
            exact ⟨hsp, hless⟩
    · cases h
  · cases h

end LuauFusion
