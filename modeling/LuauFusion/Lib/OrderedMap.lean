import Mathlib.Data.List.Dedup
import Mathlib.Data.List.DropRight
import Mathlib.Data.List.Perm.Basic
/-!
# Maps that remember the order of insertion

JavaScript's `Map`, and its objects where only their own properties matter:
setting a key that is there keeps its place, deleting it and setting it again
moves it to the end. A map whose keys are deleted and set again on each use
holds them in the order of their last use, which `recent` describes.
-/

namespace LuauFusion.Lib

structure OrderedMap (κ ν : Type) where
  entries : List (κ × ν)
  nodup : (entries.map Prod.fst).Nodup

namespace OrderedMap
variable {κ ν : Type}

def keys (m : OrderedMap κ ν) : List κ := m.entries.map Prod.fst

def size (m : OrderedMap κ ν) : Nat := m.entries.length

def empty : OrderedMap κ ν := ⟨[], List.nodup_nil⟩

/-- The key of the first entry. -/
def first (m : OrderedMap κ ν) : Option κ := m.entries.head?.map Prod.fst

theorem size_keys (m : OrderedMap κ ν) : m.keys.length = m.size := List.length_map _

theorem first_eq (m : OrderedMap κ ν) : m.first = m.keys.head? := by
  rw [first, keys, List.head?_map]

@[simp] theorem keys_empty : (empty : OrderedMap κ ν).keys = [] := rfl

variable [DecidableEq κ]

def get (m : OrderedMap κ ν) (k : κ) : Option ν := (m.entries.find? fun e => e.1 == k).map Prod.snd

/-- The entries after `k`'s value became `v`. -/
def setEntries (k : κ) (v : ν) : List (κ × ν) → List (κ × ν)
  | [] => [(k, v)]
  | e :: es => if e.1 = k then (k, v) :: es else e :: setEntries k v es

theorem setEntries_keys (k : κ) (v : ν) (es : List (κ × ν)) :
    (setEntries k v es).map Prod.fst = if k ∈ es.map Prod.fst then es.map Prod.fst else es.map Prod.fst ++ [k] := by
  induction es with
  | nil => rfl
  | cons e es ih =>
    rw [setEntries]
    by_cases h : e.1 = k
    · simp [h]
    · have hne : k ≠ e.1 := Ne.symm h
      rw [if_neg h, List.map_cons, ih, List.map_cons]
      by_cases hm : k ∈ es.map Prod.fst
      · rw [if_pos hm, if_pos (List.mem_cons_of_mem _ hm)]
      · rw [if_neg hm, if_neg (by rw [List.mem_cons, not_or]; exact ⟨hne, hm⟩)]
        rfl

theorem setEntries_nodup (k : κ) (v : ν) {es : List (κ × ν)} (h : (es.map Prod.fst).Nodup) :
    ((setEntries k v es).map Prod.fst).Nodup := by
  rw [setEntries_keys]
  split
  · exact h
  · next hk =>
    rw [List.nodup_append]
    refine ⟨h, List.nodup_singleton k, ?_⟩
    rintro a ha b hb rfl
    rw [List.mem_singleton] at hb
    exact hk (hb ▸ ha)

def set (m : OrderedMap κ ν) (k : κ) (v : ν) : OrderedMap κ ν :=
  ⟨setEntries k v m.entries, setEntries_nodup k v m.nodup⟩

def delete (m : OrderedMap κ ν) (k : κ) : OrderedMap κ ν :=
  ⟨m.entries.filter (·.1 != k), m.nodup.sublist (List.filter_sublist.map _)⟩

/-- Set the keys one after the other. -/
def setAll (m : OrderedMap κ ν) (l : List (κ × ν)) : OrderedMap κ ν := l.foldl (fun m e => m.set e.1 e.2) m

/-! ## Reading -/

@[simp] theorem get_empty (k : κ) : (empty : OrderedMap κ ν).get k = none := rfl

theorem get_mem {m : OrderedMap κ ν} {k : κ} {v : ν} (h : m.get k = some v) : (k, v) ∈ m.entries := by
  obtain ⟨e, he, rfl⟩ := Option.map_eq_some_iff.1 h
  have hk : e.1 = k := by simpa using List.find?_some he
  exact hk ▸ List.mem_of_find?_eq_some he

theorem get_of_mem {m : OrderedMap κ ν} {k : κ} {v : ν} (h : (k, v) ∈ m.entries) : m.get k = some v := by
  obtain ⟨es, hn⟩ := m
  unfold get
  induction es with
  | nil => cases h
  | cons e es ih =>
    rw [List.map_cons, List.nodup_cons] at hn
    rcases List.mem_cons.1 h with rfl | h
    · simp
    · have hne : e.1 ≠ k := fun he => hn.1 (List.mem_map.2 ⟨_, h, he.symm⟩)
      rw [List.find?_cons_of_neg (by simpa using hne)]
      exact ih hn.2 h

theorem get_iff {m : OrderedMap κ ν} {k : κ} {v : ν} : m.get k = some v ↔ (k, v) ∈ m.entries := ⟨get_mem, get_of_mem⟩

theorem get_isSome {m : OrderedMap κ ν} {k : κ} : (m.get k).isSome = true ↔ k ∈ m.keys := by
  constructor
  · intro h
    obtain ⟨v, hv⟩ := Option.isSome_iff_exists.1 h
    exact List.mem_map.2 ⟨_, get_mem hv, rfl⟩
  · intro h
    obtain ⟨⟨_, v⟩, he, rfl⟩ := List.mem_map.1 h
    rw [get_of_mem he]
    rfl

theorem get_eq_none {m : OrderedMap κ ν} {k : κ} : m.get k = none ↔ k ∉ m.keys := by
  rw [← get_isSome, Bool.not_eq_true, Option.isSome_eq_false_iff, Option.isNone_iff_eq_none]

/-- Two maps are equal if their keys and what each reads are. -/
theorem ext {m n : OrderedMap κ ν} (hk : m.keys = n.keys) (hg : ∀ k ∈ m.keys, m.get k = n.get k) : m = n := by
  have hzip : ∀ o : OrderedMap κ ν, o.entries.map some = o.keys.map fun k => (o.get k).map (k, ·) := by
    intro o
    rw [keys, List.map_map]
    refine List.map_congr_left fun e he => ?_
    rw [Function.comp_apply, get_of_mem (v := e.2) he]
    rfl
  have he : m.entries.map some = n.entries.map some := by
    rw [hzip, hzip, ← hk]
    exact List.map_congr_left fun k h => by rw [hg k h]
  obtain ⟨es, hes⟩ := m
  obtain ⟨fs, hfs⟩ := n
  obtain rfl : es = fs := List.map_injective_iff.2 (fun _ _ => Option.some.inj) he
  rfl

/-! ## Writing -/

theorem keys_set (m : OrderedMap κ ν) (k : κ) (v : ν) :
    (m.set k v).keys = if k ∈ m.keys then m.keys else m.keys ++ [k] := setEntries_keys k v m.entries

theorem get_set (m : OrderedMap κ ν) (k k' : κ) (v : ν) : (m.set k v).get k' = if k' = k then some v else m.get k' := by
  obtain ⟨es, hn⟩ := m
  show ((setEntries k v es).find? _).map _ = if k' = k then _ else (es.find? _).map _
  clear hn
  induction es with
  | nil =>
    by_cases h : k' = k
    · simp [setEntries, h]
    · simp [setEntries, h, Ne.symm h]
  | cons e es ih =>
    rw [setEntries]
    by_cases he : e.1 = k
    · by_cases h : k' = k
      · simp [he, h]
      · simp [he, h, Ne.symm h]
    · by_cases hk : e.1 = k'
      · have hne : k' ≠ k := fun h => he (hk.trans h)
        simp [hk, hne]
      · simp [he, hk, ih]

theorem keys_delete (m : OrderedMap κ ν) (k : κ) : (m.delete k).keys = m.keys.filter (· != k) := by
  rw [keys, keys, delete, List.filter_map]
  rfl

theorem get_delete (m : OrderedMap κ ν) {k k' : κ} {v : ν} (h : (m.delete k).get k' = some v) : m.get k' = some v :=
  get_of_mem (List.mem_of_mem_filter (get_mem h))

/-- A key that is deleted and set goes to the end. -/
theorem keys_delete_set (m : OrderedMap κ ν) (k : κ) (v : ν) :
    ((m.delete k).set k v).keys = m.keys.filter (· != k) ++ [k] := by
  rw [keys_set, keys_delete, if_neg (by simp)]

/-! ## Setting several keys -/

theorem keys_setAll {m m' : OrderedMap κ ν} {l l' : List (κ × ν)} (hm : m.keys = m'.keys)
    (hl : l.map Prod.fst = l'.map Prod.fst) : (m.setAll l).keys = (m'.setAll l').keys := by
  induction l generalizing m m' l' with
  | nil =>
    rw [List.map_nil, eq_comm, List.map_eq_nil_iff] at hl
    rw [hl]
    exact hm
  | cons e l ih =>
    obtain ⟨e', l', rfl⟩ : ∃ e' l₁, l' = e' :: l₁ := by
      cases l' with
      | nil => cases hl
      | cons e' l₁ => exact ⟨e', l₁, rfl⟩
    rw [List.map_cons, List.map_cons, List.cons.injEq] at hl
    have hset : (m.set e.1 e.2).keys = (m'.set e'.1 e'.2).keys := by rw [keys_set, keys_set, hm, hl.1]
    show ((m.set e.1 e.2).setAll l).keys = ((m'.set e'.1 e'.2).setAll l').keys
    exact ih hset hl.2

theorem subset_keys_setAll (m : OrderedMap κ ν) (l : List (κ × ν)) : m.keys ⊆ (m.setAll l).keys := by
  induction l generalizing m with
  | nil => exact List.Subset.refl _
  | cons e l ih =>
    refine List.Subset.trans ?_ (ih (m.set e.1 e.2))
    rw [keys_set]
    split
    · exact List.Subset.refl _
    · exact List.subset_append_left _ _

/-- Keys that are all there keep their places. -/
theorem keys_setAll_of_mem (m : OrderedMap κ ν) (l : List (κ × ν)) (h : ∀ e ∈ l, e.1 ∈ m.keys) :
    (m.setAll l).keys = m.keys := by
  induction l generalizing m with
  | nil => rfl
  | cons e l ih =>
    rw [List.forall_mem_cons] at h
    have hset : (m.set e.1 e.2).keys = m.keys := by rw [keys_set, if_pos h.1]
    rw [← hset]
    exact ih _ (by rw [hset]; exact h.2)

theorem mem_keys_setAll (m : OrderedMap κ ν) (l : List (κ × ν)) : ∀ e ∈ l, e.1 ∈ (m.setAll l).keys := by
  induction l generalizing m with
  | nil => simp
  | cons e l ih =>
    rw [List.forall_mem_cons]
    refine ⟨subset_keys_setAll (m.set e.1 e.2) l ?_, ih _⟩
    rw [keys_set]
    split
    · assumption
    · simp

/-- What a key reads once several were set depends on the map only if none was that key. -/
theorem get_setAll (m m' : OrderedMap κ ν) (l : List (κ × ν)) (k : κ) (h : k ∈ l.map Prod.fst ∨ m.get k = m'.get k) :
    (m.setAll l).get k = (m'.setAll l).get k := by
  induction l generalizing m m' with
  | nil => exact h.resolve_left (by simp)
  | cons e l ih =>
    refine ih _ _ ?_
    rw [get_set, get_set]
    by_cases he : k = e.1
    · rw [if_pos he, if_pos he]
      exact .inr rfl
    · rw [if_neg he, if_neg he]
      simpa [he] using h

theorem get_setAll_of_not_mem (m : OrderedMap κ ν) {l : List (κ × ν)} {k : κ} (h : k ∉ l.map Prod.fst) :
    (m.setAll l).get k = m.get k := by
  induction l generalizing m with
  | nil => rfl
  | cons e l ih =>
    rw [List.map_cons, List.mem_cons, not_or] at h
    have hset := ih (m.set e.1 e.2) h.2
    rwa [get_set, if_neg h.1] at hset

theorem get_setAll_map (m : OrderedMap κ ν) (f : κ → ν) {ks : List κ} {k : κ} (h : k ∈ ks) :
    (m.setAll (ks.map fun k => (k, f k))).get k = some (f k) := by
  induction ks generalizing m with
  | nil => cases h
  | cons k' ks ih =>
    by_cases hk : k ∈ ks
    · exact ih (m.set k' (f k')) hk
    · obtain rfl := (List.mem_cons.1 h).resolve_right hk
      have hnot : k ∉ (ks.map fun k => (k, f k)).map Prod.fst := by simpa using hk
      exact (get_setAll_of_not_mem (m.set k (f k)) hnot).trans (by rw [get_set, if_pos rfl])

/-- Keys that were set before, all of them or none, may be set again as if for the first time. -/
theorem setAll_again (m : OrderedMap κ ν) (l l' : List (κ × ν)) (hl : l.map Prod.fst = l'.map Prod.fst) :
    (m.setAll l).setAll l' = m.setAll l' := by
  have hmem : ∀ e ∈ l', e.1 ∈ (m.setAll l).keys := by
    intro e he
    obtain ⟨e', he', hk⟩ := List.mem_map.1 (hl ▸ List.mem_map_of_mem (f := Prod.fst) he)
    exact hk ▸ mem_keys_setAll m l e' he'
  refine ext ?_ fun k _ => ?_
  · rw [keys_setAll_of_mem _ _ hmem]
    exact keys_setAll rfl hl
  · apply get_setAll
    by_cases hk : k ∈ l'.map Prod.fst
    · exact .inl hk
    · exact .inr (get_setAll_of_not_mem m (hl ▸ hk))

end OrderedMap

/-! ## The last keys used -/

section Recent
variable {κ : Type} [DecidableEq κ]

/-- The last `n` keys of `used`, each where it was used last. -/
def recent (n : Nat) (used : List κ) : List κ := used.dedup.rtake n

theorem dedup_concat (used : List κ) (k : κ) : (used ++ [k]).dedup = used.dedup.filter (· != k) ++ [k] := by
  induction used with
  | nil => simp
  | cons a used ih =>
    by_cases ha : a ∈ used
    · rw [List.cons_append, List.dedup_cons_of_mem (by simp [ha]), ih, List.dedup_cons_of_mem ha]
    · by_cases hk : a = k
      · subst hk
        rw [List.cons_append, List.dedup_cons_of_mem (by simp), ih, List.dedup_cons_of_notMem ha,
          List.filter_cons_of_neg (by simp)]
      · rw [List.cons_append, List.dedup_cons_of_notMem (by simp [ha, hk]), ih, List.dedup_cons_of_notMem ha,
          List.filter_cons_of_pos (by simpa using hk)]
        rfl

theorem recent_length (n : Nat) (used : List κ) : (recent n used).length ≤ n := by
  rw [recent, List.rtake, List.length_drop]
  omega

/-- Using a key that is among the last ones moves it to the end. -/
theorem recent_again {n : Nat} {used : List κ} {k : κ} (h : k ∈ recent (n + 1) used) :
    recent (n + 1) (used ++ [k]) = (recent (n + 1) used).filter (· != k) ++ [k] := by
  have hn := used.nodup_dedup
  rw [recent, dedup_concat, List.rtake_concat_succ]
  congr 1
  -- The key's place is in the part that is kept.
  unfold recent List.rtake at h ⊢
  generalize hd : used.dedup = d at h hn ⊢
  have hsplit : d = d.take (d.length - (n + 1)) ++ d.drop (d.length - (n + 1)) := (List.take_append_drop _ _).symm
  have hnot : ∀ a ∈ d.take (d.length - (n + 1)), (a != k) = true := by
    intro a ha
    rw [bne_iff_ne]
    rintro rfl
    rw [hsplit] at hn
    exact (List.nodup_append.1 hn).2.2 a ha a h rfl
  have hfilter : d.filter (· != k) = d.take (d.length - (n + 1)) ++ (d.drop (d.length - (n + 1))).filter (· != k) := by
    conv_lhs => rw [hsplit]
    rw [List.filter_append, List.filter_eq_self.2 hnot]
  have hlen : ((d.drop (d.length - (n + 1))).filter (· != k)).length + 1 = (d.drop (d.length - (n + 1))).length := by
    have herase := List.length_erase_of_mem h
    have hpos := List.length_pos_of_mem h
    rw [List.Nodup.erase_eq_filter (hn.sublist (List.drop_sublist _ _))] at herase
    omega
  rw [List.length_drop] at hlen
  rw [hfilter, List.drop_left']
  rw [List.length_append, List.length_take]
  omega

/-- Using another key drops the first one if there are `n + 1`. -/
theorem recent_new {n : Nat} {used : List κ} {k : κ} (h : k ∉ recent (n + 1) used) :
    recent (n + 1) (used ++ [k]) =
      (if (recent (n + 1) used).length = n + 1 then (recent (n + 1) used).tail else recent (n + 1) used) ++ [k] := by
  rw [recent, dedup_concat, List.rtake_concat_succ]
  congr 1
  unfold recent List.rtake at h ⊢
  generalize used.dedup = d at h ⊢
  have hfilter : d.filter (· != k) = (d.take (d.length - (n + 1))).filter (· != k) ++ d.drop (d.length - (n + 1)) := by
    conv_lhs => rw [← List.take_append_drop (d.length - (n + 1)) d]
    have hself : (d.drop (d.length - (n + 1))).filter (· != k) = d.drop (d.length - (n + 1)) := by
      rw [List.filter_eq_self]
      intro a ha
      rw [bne_iff_ne]
      rintro rfl
      exact h ha
    rw [List.filter_append, hself]
  have hle := List.length_filter_le (· != k) (d.take (d.length - (n + 1)))
  rw [List.length_take] at hle
  rw [hfilter, List.length_append, List.length_drop]
  by_cases hfull : d.length - (d.length - (n + 1)) = n + 1
  · rw [if_pos hfull, ← List.drop_one]
    have hone : ((d.take (d.length - (n + 1))).filter (· != k)).length + (d.length - (d.length - (n + 1))) - n =
        ((d.take (d.length - (n + 1))).filter (· != k)).length + 1 := by omega
    rw [hone, List.drop_append, List.drop_of_length_le (by omega), List.nil_append, Nat.add_sub_cancel_left]
  · have hzero : d.length - (n + 1) = 0 := by omega
    rw [if_neg hfull, hzero]
    simp only [List.take_zero, List.filter_nil, List.nil_append, List.drop_zero, List.length_nil]
    have hshort : 0 + (d.length - 0) - n = 0 := by omega
    rw [hshort, List.drop_zero]

end Recent

end LuauFusion.Lib
