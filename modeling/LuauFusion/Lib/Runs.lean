import Mathlib.Data.List.Induction
/-!
# Runs of a machine

A `Machine` answers each action it accepts with a new state and the events an
observer sees. A `Run` is any sequence of accepted actions from the initial
state, so a theorem about every `Run` holds for every interleaving of the
parties whose moves the actions are.
-/

namespace LuauFusion.Lib

/-- `step s a` is `none` where `s` does not accept `a`. -/
structure Machine (σ α ε : Type) where
  init : σ
  step : σ → α → Option (σ × List ε)

variable {σ α ε : Type} {M : Machine σ α ε}

/-- The actions taken, the events seen and the state reached. -/
inductive Run (M : Machine σ α ε) : List α → List ε → σ → Prop
  | nil : Run M [] [] M.init
  | snoc {as es s a s' out} : Run M as es s → M.step s a = some (s', out) → Run M (as ++ [a]) (es ++ out) s'

namespace Machine

/-- Take `as` from `s`. -/
def runFrom (M : Machine σ α ε) (s : σ) : List α → Option (List ε × σ)
  | [] => some ([], s)
  | a :: as =>
    match M.step s a with
    | none => none
    | some (s', out) => (M.runFrom s' as).map fun (es, t) => (out ++ es, t)

def exec (M : Machine σ α ε) (as : List α) : Option (List ε × σ) := M.runFrom M.init as

end Machine

namespace Machine

theorem runFrom_cons {s t : σ} {a : α} {as : List α} {es : List ε} :
    M.runFrom s (a :: as) = some (es, t) ↔
      ∃ s' out es', M.step s a = some (s', out) ∧ M.runFrom s' as = some (es', t) ∧ es = out ++ es' := by
  constructor
  · intro h
    simp only [runFrom] at h
    split at h
    · cases h
    · next s' out hs =>
      obtain ⟨⟨es', t'⟩, hf, he⟩ := Option.map_eq_some_iff.1 h
      simp only [Prod.mk.injEq] at he
      obtain ⟨rfl, rfl⟩ := he
      exact ⟨s', out, es', hs, hf, rfl⟩
  · rintro ⟨s', out, es', hs, hf, rfl⟩
    simp [runFrom, hs, hf]

theorem runFrom_one {s t : σ} {a : α} {out : List ε} (h : M.step s a = some (t, out)) :
    M.runFrom s [a] = some (out, t) :=
  runFrom_cons.2 ⟨t, out, [], h, rfl, (List.append_nil _).symm⟩

theorem runFrom_append {s t u : σ} {as bs : List α} {es fs : List ε} (h : M.runFrom s as = some (es, t))
    (h' : M.runFrom t bs = some (fs, u)) : M.runFrom s (as ++ bs) = some (es ++ fs, u) := by
  induction as generalizing s es with
  | nil =>
    simp only [runFrom, Option.some.injEq, Prod.mk.injEq] at h
    obtain ⟨rfl, rfl⟩ := h
    exact h'
  | cons a as ih =>
    obtain ⟨s', out, es', hs, hf, rfl⟩ := runFrom_cons.1 h
    rw [List.append_assoc]
    exact runFrom_cons.2 ⟨s', out, es' ++ fs, hs, ih hf, rfl⟩

end Machine

/-- A run goes on from the state it reached. -/
theorem Run.append {as bs : List α} {es fs : List ε} {s t : σ} (h : Run M as es s)
    (hf : M.runFrom s bs = some (fs, t)) : Run M (as ++ bs) (es ++ fs) t := by
  induction bs generalizing as es s fs with
  | nil =>
    simp only [Machine.runFrom, Option.some.injEq, Prod.mk.injEq] at hf
    obtain ⟨rfl, rfl⟩ := hf
    simpa using h
  | cons b bs ih =>
    obtain ⟨s', out, fs', hs, hf', rfl⟩ := Machine.runFrom_cons.1 hf
    have := ih (.snoc h hs) hf'
    simpa [List.append_assoc] using this

/-- What `exec` computes is a run. -/
theorem run_of_exec {as : List α} {es : List ε} {s : σ} (h : M.exec as = some (es, s)) : Run M as es s := by
  have hr : Run M ([] ++ as) ([] ++ es) s := Run.append .nil h
  simpa using hr

/-- And a run is what `runFrom` computes. -/
theorem Run.runFrom {as : List α} {es : List ε} {s : σ} (h : Run M as es s) : M.runFrom M.init as = some (es, s) := by
  induction h with
  | nil => rfl
  | snoc _ ht ih => exact Machine.runFrom_append ih (Machine.runFrom_one ht)

namespace Run

/-- A property of histories that holds at the start and that every step from
a reachable state keeps holds after every run. -/
theorem inv (I : List α → List ε → σ → Prop) (h0 : I [] [] M.init)
    (hs : ∀ as es s a s' out, Run M as es s → I as es s → M.step s a = some (s', out) →
      I (as ++ [a]) (es ++ out) s')
    {as es s} (h : Run M as es s) : I as es s := by
  induction h with
  | nil => exact h0
  | snoc hr ht ih => exact hs _ _ _ _ _ _ hr ih ht

/-- A run of one machine is a run of another that answers every step with the same
events, from states that `R` relates. -/
theorem simulate {τ : Type} {N : Machine τ α ε} (R : σ → τ → Prop) (h0 : R M.init N.init)
    (hs : ∀ s t a s' out, R s t → M.step s a = some (s', out) → ∃ t', N.step t a = some (t', out) ∧ R s' t')
    {as es s} (h : Run M as es s) : ∃ t, Run N as es t ∧ R s t := by
  induction h with
  | nil => exact ⟨N.init, .nil, h0⟩
  | snoc _ ht ih =>
    obtain ⟨t, hr, hR⟩ := ih
    obtain ⟨t', hn, hR'⟩ := hs _ _ _ _ _ hR ht
    exact ⟨t', .snoc hr hn, hR'⟩

/-- The same where a machine also makes moves and shows events that the other knows
nothing of: what the other knows of a run is a run of it. -/
theorem project {τ β δ : Type} {N : Machine τ β δ} (f : α → Option β) (g : ε → Option δ) (R : σ → τ → Prop)
    (h0 : R M.init N.init)
    (hs : ∀ s t a s' out, R s t → M.step s a = some (s', out) →
      (f a = none ∧ out.filterMap g = [] ∧ R s' t) ∨
        ∃ b t', f a = some b ∧ N.step t b = some (t', out.filterMap g) ∧ R s' t')
    {as es s} (h : Run M as es s) : ∃ t, Run N (as.filterMap f) (es.filterMap g) t ∧ R s t := by
  induction h with
  | nil => exact ⟨N.init, .nil, h0⟩
  | @snoc as es s a s' out _ ht ih =>
    obtain ⟨t, hr, hR⟩ := ih
    rw [List.filterMap_append, List.filterMap_append]
    rcases hs _ _ _ _ _ hR ht with ⟨hf, hg, hR'⟩ | ⟨b, t', hf, hn, hR'⟩
    · rw [List.filterMap_cons_none hf, List.filterMap_nil, List.append_nil, hg, List.append_nil]
      exact ⟨t, hr, hR'⟩
    · rw [List.filterMap_cons_some hf, List.filterMap_nil]
      exact ⟨t', .snoc hr hn, hR'⟩

/-- The same for a property of states, along runs whose actions are all good. -/
theorem state_inv (Good : α → Prop) (I : σ → Prop) (h0 : I M.init)
    (hs : ∀ s a s' out, I s → Good a → M.step s a = some (s', out) → I s')
    {as es s} (h : Run M as es s) (hg : ∀ a ∈ as, Good a) : I s := by
  induction h with
  | nil => exact h0
  | snoc _ ht ih =>
    have hl := List.forall_mem_append.1 hg
    exact hs _ _ _ _ (ih hl.1) (hl.2 _ (List.mem_singleton.2 rfl)) ht

/-- The same for what follows a state: a property of the state reached and of
the events seen since. -/
theorem from_inv (I : σ → List ε → Prop) {s t : σ} {as : List α} {es : List ε} (h0 : I s [])
    (hs : ∀ s' es' a s'' out, I s' es' → M.step s' a = some (s'', out) → I s'' (es' ++ out))
    (h : M.runFrom s as = some (es, t)) : I t es := by
  have main : ∀ (as : List α) s fs es, I s fs → M.runFrom s as = some (es, t) → I t (fs ++ es) := by
    intro as
    induction as with
    | nil =>
      intro s fs es hi h
      simp only [Machine.runFrom, Option.some.injEq, Prod.mk.injEq] at h
      obtain ⟨rfl, rfl⟩ := h
      simpa using hi
    | cons a as ih =>
      intro s fs es hi h
      obtain ⟨s', out, es', ht, hf, rfl⟩ := Machine.runFrom_cons.1 h
      rw [← List.append_assoc]
      exact ih s' _ es' (hs _ _ _ _ _ hi ht) hf
  simpa using main as s [] es h0 h

/-- The last step of a run. -/
theorem last {as : List α} {a : α} {es s} (h : Run M (as ++ [a]) es s) :
    ∃ es' s' out, Run M as es' s' ∧ M.step s' a = some (s, out) ∧ es = es' ++ out := by
  generalize he : as ++ [a] = bs at h
  cases h with
  | nil => simp at he
  | @snoc as' es' s' a' _ out hr ht =>
    obtain ⟨rfl, he'⟩ := List.append_inj' he rfl
    obtain rfl := List.singleton_inj.1 he'
    exact ⟨es', s', out, hr, ht, rfl⟩

/-- A machine's actions determine what it shows and where it gets. -/
theorem unique {as : List α} {es es' : List ε} {s s' : σ} (h : Run M as es s) (h' : Run M as es' s') :
    es = es' ∧ s = s' := by
  induction h generalizing es' s' with
  | nil =>
    generalize has : ([] : List α) = as at h'
    cases h' with
    | nil => exact ⟨rfl, rfl⟩
    | snoc => simp at has
  | snoc hr ht ih =>
    obtain ⟨es₁, s₁, out₁, hr', ht', rfl⟩ := h'.last
    obtain ⟨rfl, rfl⟩ := ih hr'
    rw [ht] at ht'
    cases ht'
    exact ⟨rfl, rfl⟩

/-- A run through `as ++ bs` passes through the end of a run through `as`. -/
theorem split {as bs : List α} {es s} (h : Run M (as ++ bs) es s) : ∃ es' s', Run M as es' s' ∧ es' <+: es := by
  induction bs using List.reverseRecOn generalizing es s with
  | nil => exact ⟨es, s, by simpa using h, List.prefix_rfl⟩
  | append_singleton bs b ih =>
    rw [← List.append_assoc] at h
    obtain ⟨es₁, s₁, out, hr, -, rfl⟩ := h.last
    obtain ⟨es', s', hr', hp⟩ := ih hr
    exact ⟨es', s', hr', hp.trans (List.prefix_append _ _)⟩

end Run

end LuauFusion.Lib
