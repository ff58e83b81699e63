import LuauFusion.UrlPattern
/-!
# What the cache holds

A call of `getOrInsert` comes to what the factory makes of the key, whatever is
cached (`Effect`). The keys of the map are those last used among the calls that were
drawn, one more than the capacity (`cache_recent`).
-/
open LuauFusion.Lib

namespace LuauFusion.UrlPattern

namespace SampledLRUCache
variable {κ ν ε : Type} [DecidableEq κ] {c d : SampledLRUCache κ ν} {factory : κ → Except ε ν} {key : κ} {sampled : Bool}

/-! ## One call -/

/-- What is cached is what the factory makes. -/
structure Sound (factory : κ → Except ε ν) (c : SampledLRUCache κ ν) : Prop where
  map : ∀ k v, c.map.get k = some v → factory k = .ok v
  lastUsed : ∀ k v, c.lastUsed = some (k, v) → factory k = .ok v

theorem new_sound (capacity : Nat) : (new capacity : SampledLRUCache κ ν).Sound factory :=
  ⟨by simp [new], by simp [new]⟩

/-- The keys once `key` was put last. -/
def put (capacity : Nat) (keys : List κ) (key : κ) : List κ :=
  if key ∈ keys then keys.filter (· != key) ++ [key]
  else (if keys.length > capacity then keys.tail else keys) ++ [key]

/-- What a call with a key leaves. -/
inductive Effect (factory : κ → Except ε ν) (c : SampledLRUCache κ ν) (key : κ) (sampled : Bool) : SampledLRUCache κ ν → Prop
  | again {v} : c.lastUsed = some (key, v) → Effect factory c key sampled c
  | failed {e} : factory key = .error e → Effect factory c key sampled c
  | used {v m} : (∀ w, c.lastUsed ≠ some (key, w)) → factory key = .ok v →
      m.keys = (if sampled then put c.capacity c.map.keys key else c.map.keys) →
      (∀ k w, m.get k = some w → k = key ∧ w = v ∨ c.map.get k = some w) →
      Effect factory c key sampled { c with map := m, lastUsed := some (key, v) }

theorem makeRoom_keys (c : SampledLRUCache κ ν) :
    c.makeRoom.keys = if c.map.keys.length > c.capacity then c.map.keys.tail else c.map.keys := by
  rw [makeRoom, OrderedMap.size_keys]
  split
  · rw [OrderedMap.first_eq]
    have hnodup := c.map.nodup
    rw [← OrderedMap.keys] at hnodup
    cases hk : c.map.keys with
    | nil => exact hk
    | cons k ks =>
      rw [hk, List.nodup_cons] at hnodup
      show (c.map.delete k).keys = ks
      rw [OrderedMap.keys_delete, hk, List.filter_cons_of_neg (by simp), List.filter_eq_self]
      intro a ha
      rw [bne_iff_ne]
      rintro rfl
      exact hnodup.1 ha
  · rfl

theorem makeRoom_get {k : κ} {v : ν} (h : c.makeRoom.get k = some v) : c.map.get k = some v := by
  unfold makeRoom at h
  split at h
  · split at h
    · exact OrderedMap.get_delete _ h
    · exact h
  · exact h

theorem lookup_effect (hc : c.Sound factory) (hnew : ∀ v, c.lastUsed ≠ some (key, v)) :
    (c.lookup key factory sampled).1 = factory key ∧ Effect factory c key sampled (c.lookup key factory sampled).2 := by
  unfold lookup
  cases hget : c.map.get key with
  | some value =>
    have hf := hc.map key value hget
    have hmem : key ∈ c.map.keys := by
      rw [← OrderedMap.get_isSome, hget]
      rfl
    refine ⟨hf.symm, .used hnew hf ?_ ?_⟩
    · cases sampled with
      | false => rfl
      | true =>
        rw [if_pos rfl, if_pos rfl, OrderedMap.keys_delete_set, put, if_pos hmem]
    · intro k w hw
      cases sampled with
      | false => exact .inr hw
      | true =>
        rw [if_pos rfl, OrderedMap.get_set] at hw
        split at hw
        · next hk => exact .inl ⟨hk, (Option.some.inj hw).symm⟩
        · exact .inr (OrderedMap.get_delete _ hw)
  | none =>
    have hmem : key ∉ c.map.keys := OrderedMap.get_eq_none.1 hget
    cases hf : factory key with
    | error e => exact ⟨rfl, .failed hf⟩
    | ok value =>
      have hroom : key ∉ c.makeRoom.keys := by
        rw [makeRoom_keys]
        split
        · exact fun h => hmem (List.mem_of_mem_tail h)
        · exact hmem
      refine ⟨rfl, .used hnew hf ?_ ?_⟩
      · cases sampled with
        | false => rfl
        | true =>
          rw [if_pos rfl, if_pos rfl, OrderedMap.keys_set, if_neg hroom, makeRoom_keys, put, if_neg hmem]
      · intro k w hw
        cases sampled with
        | false => exact .inr hw
        | true =>
          rw [if_pos rfl, OrderedMap.get_set] at hw
          split at hw
          · next hk => exact .inl ⟨hk, (Option.some.inj hw).symm⟩
          · exact .inr (makeRoom_get hw)

/-- A call comes to what the factory makes of its key. -/
theorem getOrInsert_effect (hc : c.Sound factory) (key : κ) (sampled : Bool) :
    (c.getOrInsert key factory sampled).1 = factory key ∧
      Effect factory c key sampled (c.getOrInsert key factory sampled).2 := by
  unfold getOrInsert
  cases hl : c.lastUsed with
  | none => exact lookup_effect hc (by simp [hl])
  | some l =>
    obtain ⟨last, value⟩ := l
    by_cases hk : last = key
    · subst hk
      simp only [if_true]
      exact ⟨(hc.lastUsed _ _ hl).symm, .again hl⟩
    · simp only [hk, if_false]
      exact lookup_effect hc (by simp [hl, hk])

theorem Effect.sound (h : Effect factory c key sampled d) (hc : c.Sound factory) : d.Sound factory := by
  cases h with
  | again _ => exact hc
  | failed _ => exact hc
  | used hnew hf hkeys hget =>
    refine ⟨fun k w hw => ?_, fun k w hw => ?_⟩
    · rcases hget k w hw with ⟨rfl, rfl⟩ | hw
      · exact hf
      · exact hc.map k w hw
    · cases hw
      exact hf

/-! ## Many calls -/

/-- The cache after the calls, each with its key and whether it was drawn. -/
def callAll (factory : κ → Except ε ν) (c : SampledLRUCache κ ν) : List (κ × Bool) → SampledLRUCache κ ν
  | [] => c
  | (key, sampled) :: calls => callAll factory (c.getOrInsert key factory sampled).2 calls

/-- The keys of the calls that were drawn. A call does not draw if it fails, or if
its key was that of the last one that did not; `last` is that key. -/
def drawn (factory : κ → Except ε ν) (last : Option κ) : List (κ × Bool) → List κ
  | [] => []
  | (key, sampled) :: calls =>
    if last = some key ∨ (factory key).isOk = false then drawn factory last calls
    else if sampled then key :: drawn factory (some key) calls else drawn factory (some key) calls

theorem callAll_append (c : SampledLRUCache κ ν) (calls calls' : List (κ × Bool)) :
    callAll factory c (calls ++ calls') = callAll factory (callAll factory c calls) calls' := by
  induction calls generalizing c with
  | nil => rfl
  | cons call calls ih => exact ih _

theorem put_recent (capacity : Nat) (used : List κ) (key : κ) :
    put capacity (recent (capacity + 1) used) key = recent (capacity + 1) (used ++ [key]) := by
  have hlen := recent_length (capacity + 1) used
  unfold put
  by_cases hk : key ∈ recent (capacity + 1) used
  · rw [if_pos hk, recent_again hk]
  · rw [if_neg hk, recent_new hk]
    congr 1
    by_cases hfull : (recent (capacity + 1) used).length = capacity + 1
    · rw [if_pos (by omega), if_pos hfull]
    · rw [if_neg (by omega), if_neg hfull]

theorem callAll_sound (hc : c.Sound factory) (calls : List (κ × Bool)) : (callAll factory c calls).Sound factory := by
  induction calls generalizing c with
  | nil => exact hc
  | cons call calls ih => exact ih ((getOrInsert_effect hc call.1 call.2).2.sound hc)

theorem callAll_keys (hc : c.Sound factory) {used : List κ} (hu : c.map.keys = recent (c.capacity + 1) used)
    (calls : List (κ × Bool)) :
    (callAll factory c calls).map.keys =
      recent (c.capacity + 1) (used ++ drawn factory (c.lastUsed.map Prod.fst) calls) := by
  induction calls generalizing c used with
  | nil => rw [drawn, List.append_nil, ← hu, callAll]
  | cons call calls ih =>
    obtain ⟨key, sampled⟩ := call
    have heffect := (getOrInsert_effect hc key sampled).2
    rw [callAll, drawn]
    generalize (c.getOrInsert key factory sampled).2 = d at heffect ⊢
    cases heffect with
    | again hl => rw [if_pos (.inl (by rw [hl]; rfl)), ih hc hu]
    | failed hf => rw [if_pos (.inr (by rw [hf]; rfl)), ih hc hu]
    | @used v m hnew hf hkeys hget =>
      have hd := (Effect.used hnew hf hkeys hget).sound hc
      have hne : ¬ (c.lastUsed.map Prod.fst = some key ∨ (factory key).isOk = false) := by
        rintro (h | h)
        · obtain ⟨⟨k, w⟩, hl, rfl⟩ := Option.map_eq_some_iff.1 h
          exact hnew w hl
        · rw [hf] at h
          cases h
      rw [if_neg hne]
      cases sampled with
      | false => exact ih hd (hkeys.trans hu)
      | true =>
        rw [if_pos rfl, hu, put_recent] at hkeys
        have hcalls := ih hd hkeys
        rw [List.append_assoc] at hcalls
        exact hcalls

theorem new_keys (capacity : Nat) (calls : List (κ × Bool)) :
    (callAll factory (new capacity) calls).map.keys = recent (capacity + 1) (drawn factory none calls) := by
  have hnil : (new capacity : SampledLRUCache κ ν).map.keys = recent (capacity + 1) [] := by
    rw [recent, List.dedup_nil, List.rtake_nil]
    rfl
  exact callAll_keys (new_sound capacity) hnil calls

theorem mem_drawn {last : Option κ} {calls : List (κ × Bool)} {k : κ} (h : k ∈ drawn factory last calls) :
    ∃ sampled, (k, sampled) ∈ calls := by
  induction calls generalizing last with
  | nil => cases h
  | cons call calls ih =>
    obtain ⟨key, sampled⟩ := call
    have hrest : ∀ last, k ∈ drawn factory last calls → ∃ b, (k, b) ∈ (key, sampled) :: calls := by
      intro last hk
      obtain ⟨b, hb⟩ := ih hk
      exact ⟨b, List.mem_cons_of_mem _ hb⟩
    rw [drawn] at h
    split at h
    · exact hrest _ h
    · split at h
      · rcases List.mem_cons.1 h with rfl | h
        · exact ⟨sampled, List.mem_cons_self⟩
        · exact hrest _ h
      · exact hrest _ h

end SampledLRUCache

/-! ## The cache of a run -/

variable {E : Env}

/-- What `op_urlpattern_process_match_input` makes of an input without a base. -/
def processed (E : Env) (input : Input) : Except String (Option (Values × Inputs)) :=
  opUrlpatternProcessMatchInput E input.content none

/-- The input, where the converter's object would be the `n`th. -/
def toInput (n : Nat) : StringOrInit → Input
  | .string s => .string s
  | .init i => .object n i

/-- The objects that an action's input adds. -/
def Act.objects : Act → Nat
  | .test _ (.init _) _ _ | .exec _ (.init _) _ _ => 1
  | _ => 0

def objectsOf : List Act → Nat
  | [] => 0
  | a :: as => a.objects + objectsOf as

theorem objectsOf_concat (as : List Act) (a : Act) : objectsOf (as ++ [a]) = objectsOf as + a.objects := by
  induction as with
  | nil => simp [objectsOf]
  | cons b as ih => rw [List.cons_append, objectsOf, ih, objectsOf, Nat.add_assoc]

/-- The call of `getOrInsert` that an action makes. -/
def Act.lookup (n : Nat) : Act → List (Input × Bool)
  | .test _ input none sampled | .exec _ input none sampled => [(toInput n input, sampled)]
  | _ => []

/-- The calls that the actions make. -/
def lookups : Nat → List Act → List (Input × Bool)
  | _, [] => []
  | n, a :: as => a.lookup n ++ lookups (n + a.objects) as

theorem lookups_concat (n : Nat) (as : List Act) (a : Act) :
    lookups n (as ++ [a]) = lookups n as ++ a.lookup (n + objectsOf as) := by
  induction as generalizing n with
  | nil => simp [lookups, objectsOf]
  | cons b as ih => rw [List.cons_append, lookups, ih, lookups, List.append_assoc, objectsOf, Nat.add_assoc]

theorem convert_eq (s : Realm E) (input : StringOrInit) : (convert s input).1 = toInput s.objects input := by
  cases input with
  | string v => rfl
  | init i => rfl

/-- Parsing an input makes the call of an action with that input, and its object. -/
theorem processInput_cache (s : Realm E) {a : Act} {p : Nat} {input : StringOrInit} {baseURL : Option String} {sampled : Bool}
    (ha : a = .test p input baseURL sampled ∨ a = .exec p input baseURL sampled) :
    (processInput s input baseURL sampled).2.matchInputCache =
        SampledLRUCache.callAll (processed E) s.matchInputCache (a.lookup s.objects) ∧
      (processInput s input baseURL sampled).2.objects = s.objects + a.objects := by
  rcases ha with rfl | rfl
  · cases input <;> cases baseURL <;> exact ⟨rfl, rfl⟩
  · cases input <;> cases baseURL <;> exact ⟨rfl, rfl⟩

/-- An action changes the cache by its call, if it makes one. -/
theorem step_cache {s t : Realm E} {a : Act} {out : List Seen} (h : step E s a = some (t, out)) :
    t.matchInputCache = SampledLRUCache.callAll (processed E) s.matchInputCache (a.lookup s.objects) ∧
      t.objects = s.objects + a.objects := by
  cases a with
  | construct input baseURL ignoreCase =>
    simp only [step, Option.some.injEq, Prod.mk.injEq] at h
    obtain ⟨rfl, -⟩ := h
    unfold construction
    split
    · exact ⟨rfl, rfl⟩
    · exact ⟨rfl, rfl⟩
  | test p input baseURL sampled =>
    obtain ⟨u, -, hu⟩ := Option.map_eq_some_iff.1 h
    simp only [Prod.mk.injEq] at hu
    obtain ⟨rfl, -⟩ := hu
    have hcache := processInput_cache s (.inl (rfl : Act.test p input baseURL sampled = _))
    unfold test
    split
    · next hp => rwa [hp] at hcache
    · next hp => rwa [hp] at hcache
  | exec p input baseURL sampled =>
    obtain ⟨u, -, hu⟩ := Option.map_eq_some_iff.1 h
    simp only [Prod.mk.injEq] at hu
    obtain ⟨rfl, -⟩ := hu
    have hcache := processInput_cache s (.inr (rfl : Act.exec p input baseURL sampled = _))
    unfold exec
    split
    · next hp => rwa [hp] at hcache
    · next hp => rwa [hp] at hcache

theorem run_cache {as : List Act} {es : List Seen} {s : Realm E} (h : Run (realm E) as es s) :
    s.matchInputCache = SampledLRUCache.callAll (processed E) (.new 4096) (lookups 0 as) ∧
      s.objects = objectsOf as := by
  induction h with
  | nil => exact ⟨rfl, rfl⟩
  | snoc _ hs ih =>
    obtain ⟨hcache, hobjects⟩ := step_cache hs
    obtain ⟨ihc, iho⟩ := ih
    refine ⟨?_, ?_⟩
    · rw [hcache, ihc, iho, lookups_concat, SampledLRUCache.callAll_append, Nat.zero_add]
    · rw [hobjects, iho, objectsOf_concat]

theorem run_sound {as : List Act} {es : List Seen} {s : Realm E} (h : Run (realm E) as es s) :
    s.matchInputCache.Sound (processed E) := by
  rw [(run_cache h).1]
  exact SampledLRUCache.callAll_sound (SampledLRUCache.new_sound 4096) _

theorem lookup_object {n : Nat} {a : Act} {id : Nat} {i : UrlPatternInit} {sampled : Bool}
    (h : (Input.object id i, sampled) ∈ a.lookup n) : id < n + a.objects := by
  have main : ∀ input b, (Input.object id i, sampled) ∈ [(toInput n input, b)] → ∃ i', input = .init i' ∧ id = n := by
    intro input b hm
    rw [List.mem_singleton, Prod.mk.injEq] at hm
    cases input with
    | string v => cases hm.1
    | init i' =>
      cases hm.1
      exact ⟨i, rfl, rfl⟩
  cases a with
  | construct input baseURL ignoreCase => cases h
  | test p input baseURL b =>
    cases baseURL with
    | some base => cases h
    | none =>
      obtain ⟨i', rfl, rfl⟩ := main input b h
      exact Nat.lt_succ_self _
  | exec p input baseURL b =>
    cases baseURL with
    | some base => cases h
    | none =>
      obtain ⟨i', rfl, rfl⟩ := main input b h
      exact Nat.lt_succ_self _

theorem lookups_object {n : Nat} {as : List Act} {id : Nat} {i : UrlPatternInit} {sampled : Bool}
    (h : (Input.object id i, sampled) ∈ lookups n as) : id < n + objectsOf as := by
  induction as generalizing n with
  | nil => cases h
  | cons a as ih =>
    rw [lookups, List.mem_append] at h
    rw [objectsOf]
    rcases h with h | h
    · have hlt := lookup_object h
      omega
    · have hlt := ih h
      omega

/-- In every state a run reaches, the map holds the inputs last used among the calls
that were drawn, in the order of their use: one more than the capacity of them, each
with what the op makes of it. An object made for a call is not among them. -/
theorem cache_recent {as : List Act} {es : List Seen} {s : Realm E} (h : Run (realm E) as es s) :
    s.matchInputCache.map.keys = recent (4096 + 1) (SampledLRUCache.drawn (processed E) none (lookups 0 as)) ∧
      (∀ k v, s.matchInputCache.map.get k = some v → processed E k = .ok v) ∧
      ∀ i, (convert s (.init i)).1 ∉ s.matchInputCache.map.keys := by
  obtain ⟨hcache, hobjects⟩ := run_cache h
  have hkeys : s.matchInputCache.map.keys =
      recent (4096 + 1) (SampledLRUCache.drawn (processed E) none (lookups 0 as)) := by
    rw [hcache]
    exact SampledLRUCache.new_keys 4096 _
  refine ⟨hkeys, (run_sound h).map, fun i hm => ?_⟩
  rw [convert_eq, toInput, hkeys] at hm
  obtain ⟨sampled, hcall⟩ := SampledLRUCache.mem_drawn (List.dedup_subset _ (List.mem_of_mem_drop hm))
  have hlt := lookups_object hcall
  omega

/-! ## A few patterns -/

/-- Patterns whose path must be `a`, with inputs that are paths. -/
def Env.tiny : Env where
  ConstructInput := Unit
  MatchInput := String
  processConstructPatternInput _ _ := .ok ()
  parsePattern _ _ := .ok
    { components := fun key => if key = .pathname then ⟨"(a)", "^(a)$", ["0"]⟩ else ⟨"*", "^(.*)$", ["0"]⟩
      hasRegexpGroups := true }
  processMatchInput
    | .string path, base => .ok (some (path, .string path, base))
    | .init i, base => .ok (i.pathname.map fun path => (path, .init i, base))
  parseMatchInput path := some fun key => if key = .pathname then path else ""
  RegExp := String
  compile source _ := .ok source
  exec source value :=
    if source = "^$" then if value = "" then some [some ""] else none
    else if source = "^(.*)$" then some [some value, some value]
    else if value = "a" then some [some "a", some "a"] else none

/-- An `exec` that fails halfway, then one that finds something, twice. -/
def retried : List Act :=
  [.construct none none false, .exec 0 (.string "b") none true, .exec 0 (.string "a") none true,
    .test 0 (.string "b") none true, .exec 0 (.string "a") none false]

theorem ran : ∃ es s u, Run (realm .tiny) retried es s ∧ s.patterns = [u] ∧ es.length = 5 := by
  have hsome : ((realm .tiny).exec retried).any (fun r => r.1.length = 5 ∧ r.2.patterns.length = 1) = true := by decide
  obtain ⟨⟨es, s⟩, h, hd⟩ := (Option.any_eq_true _ _).1 hsome
  obtain ⟨hlen, hone⟩ := of_decide_eq_true hd
  obtain ⟨u, hu⟩ := List.length_eq_one_iff.1 hone
  exact ⟨es, s, u, run_of_exec h, hu, hlen⟩

theorem cache_recent_retried :
    ∃ es s, Run (realm .tiny) retried es s ∧
      s.matchInputCache.map.keys = recent (4096 + 1) (SampledLRUCache.drawn (processed .tiny) none (lookups 0 retried)) ∧
      SampledLRUCache.drawn (processed .tiny) none (lookups 0 retried) = [.string "b", .string "a", .string "b"] := by
  obtain ⟨es, s, u, h, -, -⟩ := ran
  exact ⟨es, s, h, (cache_recent h).1, by decide⟩

end LuauFusion.UrlPattern
