import Mathlib.Data.List.Dedup
import Mathlib.Data.List.Perm.Subperm
import Mathlib.Logic.Relation
/-!
# Searching a graph

A search that keeps what it has seen and what it has still to look into, and may look
into that in any order. What each node leads to is `succ`, which may fail.

Once nothing is pending, what was seen is closed under `succ` (`Sound.closed`); and
where some finite closed set has the root, every search comes to its end
(`Sound.finishes`).
-/

namespace LuauFusion.Lib

structure Search (α : Type) where
  pending : List α
  seen : List α

namespace Search

variable {α : Type} [DecidableEq α]

def start (root : α) : Search α := ⟨[root], [root]⟩

/-- The `i`th node that is pending leads to `next`. -/
def answer (s : Search α) (i : Nat) (next : List α) : Search α :=
  let fresh := (next.filter (· ∉ s.seen)).dedup
  ⟨s.pending.eraseIdx i ++ fresh, s.seen ++ fresh⟩

variable {root : α} {succ : α → Option (List α)}

omit [DecidableEq α] in
/-- The edges of the graph. -/
def Edge (succ : α → Option (List α)) (a b : α) : Prop := ∃ next, succ a = some next ∧ b ∈ next

omit [DecidableEq α] in
/-- A finite set that has the root and where no node fails or leads out. -/
def Closed (root : α) (succ : α → Option (List α)) (nodes : List α) : Prop :=
  root ∈ nodes ∧ ∀ a ∈ nodes, ∃ next, succ a = some next ∧ next ⊆ nodes

omit [DecidableEq α] in
structure Sound (root : α) (succ : α → Option (List α)) (s : Search α) : Prop where
  base : root ∈ s.seen
  seen : s.seen.Nodup
  pending : s.pending.Nodup
  subset : s.pending ⊆ s.seen
  reached : ∀ a ∈ s.seen, Relation.ReflTransGen (Edge succ) root a
  answered : ∀ a ∈ s.seen, a ∉ s.pending → ∃ next, succ a = some next ∧ next ⊆ s.seen

omit [DecidableEq α] in
theorem sound_start : Sound root succ (start root) where
  base := List.mem_singleton_self _
  seen := List.nodup_singleton _
  pending := List.nodup_singleton _
  subset := List.Subset.refl _
  reached a ha := by
    rw [start, List.mem_singleton] at ha
    rw [ha]
  answered a ha hn := absurd ha hn

theorem mem_fresh {s : Search α} {next : List α} {a : α} :
    a ∈ (next.filter (· ∉ s.seen)).dedup ↔ a ∈ next ∧ a ∉ s.seen := by
  rw [List.mem_dedup, List.mem_filter, decide_eq_true_eq]

namespace Sound
variable {s : Search α}

theorem answer (h : Sound root succ s) {i : Nat} {a : α} {next : List α} (hi : s.pending[i]? = some a)
    (ha : succ a = some next) : Sound root succ (s.answer i next) := by
  have ham : a ∈ s.seen := h.subset (List.mem_of_getElem? hi)
  have hnext : next ⊆ (s.answer i next).seen := by
    intro b hb
    by_cases hs : b ∈ s.seen
    · exact List.mem_append_left _ hs
    · exact List.mem_append_right _ (mem_fresh.2 ⟨hb, hs⟩)
  constructor
  · exact List.mem_append_left _ h.base
  · refine h.seen.append (List.nodup_dedup _) ?_
    intro b hb hf
    exact (mem_fresh.1 hf).2 hb
  · refine (h.pending.sublist (List.eraseIdx_sublist _ _)).append (List.nodup_dedup _) ?_
    intro b hb hf
    exact (mem_fresh.1 hf).2 (h.subset ((List.eraseIdx_sublist _ _).subset hb))
  · intro b hb
    rcases List.mem_append.1 hb with hb | hb
    · exact List.mem_append_left _ (h.subset ((List.eraseIdx_sublist _ _).subset hb))
    · exact List.mem_append_right _ hb
  · intro b hb
    rcases List.mem_append.1 hb with hb | hb
    · exact h.reached b hb
    · exact (h.reached a ham).tail ⟨next, ha, (mem_fresh.1 hb).1⟩
  · intro b hb hn
    rw [Search.answer, List.mem_append, not_or] at hn
    rcases List.mem_append.1 hb with hb | hb
    · by_cases hab : b = a
      · exact ⟨next, hab ▸ ha, hnext⟩
      · -- Its turn came before.
        have hold : b ∉ s.pending := by
          intro hp
          apply hn.1
          obtain ⟨hlt, he⟩ := List.getElem?_eq_some_iff.1 hi
          rw [List.mem_eraseIdx_iff_getElem]
          obtain ⟨j, hj, hje⟩ := List.getElem_of_mem hp
          refine ⟨j, hj, ?_, hje⟩
          rintro rfl
          exact hab (hje.symm.trans he)
        obtain ⟨next', hs, hsub⟩ := h.answered b hb hold
        exact ⟨next', hs, fun c hc => List.mem_append_left _ (hsub hc)⟩
    · exact absurd hb hn.2

omit [DecidableEq α] in
/-- Once nothing is pending, what was seen is closed. -/
theorem closed (h : Sound root succ s) (hp : s.pending = []) : Closed root succ s.seen :=
  ⟨h.base, fun a ha => h.answered a ha (by rw [hp]; exact List.not_mem_nil)⟩

omit [DecidableEq α] in
/-- A search stays within every closed set. -/
theorem within (h : Sound root succ s) {nodes : List α} (hc : Closed root succ nodes) : s.seen ⊆ nodes := by
  have hreached : ∀ a, Relation.ReflTransGen (Edge succ) root a → a ∈ nodes := by
    intro a hr
    induction hr with
    | refl => exact hc.1
    | tail _ hedge ih =>
      obtain ⟨next, hs, hb⟩ := hedge
      obtain ⟨next', hs', hsub⟩ := hc.2 _ ih
      obtain rfl := Option.some.inj (hs.symm.trans hs')
      exact hsub hb
  exact fun a ha => hreached a (h.reached a ha)

/-- Where a finite closed set has the root, a search that looks into the first pending
node each time ends: what holds at an end, and before an answer if after it, holds. -/
theorem finishes {nodes : List α} (hc : Closed root succ nodes) {P : Search α → Prop}
    (hdone : ∀ s, Sound root succ s → s.pending = [] → P s)
    (hstep : ∀ s a next, Sound root succ s → s.pending[0]? = some a → succ a = some next → P (s.answer 0 next) → P s)
    (s : Search α) (h : Sound root succ s) : P s := by
  -- Every answer takes one node from what is pending, or moves fresh ones to both lists.
  induction hn : nodes.length - s.seen.length + s.pending.length generalizing s with
  | zero => exact hdone s h (List.length_eq_zero_iff.1 (by omega))
  | succ n ih =>
    cases hp : s.pending with
    | nil => exact hdone s h hp
    | cons a rest =>
      have h0 : s.pending[0]? = some a := by rw [hp]; rfl
      obtain ⟨next, hs, -⟩ := hc.2 a (h.within hc (h.subset (List.mem_of_getElem? h0)))
      have hanswer := h.answer h0 hs
      refine hstep s a next h h0 hs (ih _ hanswer ?_)
      have hle : (s.answer 0 next).seen.length ≤ nodes.length :=
        (hanswer.seen.subperm (hanswer.within hc)).length_le
      simp only [Search.answer, hp, List.eraseIdx_zero, List.tail_cons, List.length_append, List.length_cons] at hle hn ⊢
      omega

end Sound

end Search

end LuauFusion.Lib
