import LuauFusion.Lib.Runs
/-!
# Queues as seen from outside

The specification of a reliable FIFO channel, over what an observer sees:
items put in and items got out. `Moves ops q q'` is the queue itself; a machine
whose steps move an abstract queue (`Run.moves`) is a reliable channel, whatever
buffers, loops and calls it is made of.
-/

namespace LuauFusion.Lib

/-- What an observer sees of a queue. -/
inductive Op (α : Type) where
  | put (x : α)
  | get (x : α)
  deriving DecidableEq

variable {α σ ε : Type}

namespace Op

def put? : Op α → Option α
  | .put x => some x
  | .get _ => none

def get? : Op α → Option α
  | .put _ => none
  | .get x => some x

end Op

def puts (ops : List (Op α)) : List α := ops.filterMap Op.put?

def gets (ops : List (Op α)) : List α := ops.filterMap Op.get?

@[simp] theorem puts_nil : puts ([] : List (Op α)) = [] := rfl
@[simp] theorem gets_nil : gets ([] : List (Op α)) = [] := rfl
@[simp] theorem puts_append (a b : List (Op α)) : puts (a ++ b) = puts a ++ puts b := List.filterMap_append
@[simp] theorem gets_append (a b : List (Op α)) : gets (a ++ b) = gets a ++ gets b := List.filterMap_append
@[simp] theorem puts_one_put (x : α) : puts [.put x] = [x] := rfl
@[simp] theorem puts_one_get (x : α) : puts [.get x] = [] := rfl
@[simp] theorem gets_one_put (x : α) : gets [.put x] = [] := rfl
@[simp] theorem gets_one_get (x : α) : gets [.get x] = [x] := rfl

/-- What goes in, by the events that show it. -/
theorem puts_obs {f : ε → Option (Op α)} {g : ε → Option α} (h : ∀ e, (f e).bind Op.put? = g e) (es : List ε) :
    puts (es.filterMap f) = es.filterMap g := by
  rw [puts, List.filterMap_filterMap]
  congr 1
  funext e
  exact h e

theorem gets_obs {f : ε → Option (Op α)} {g : ε → Option α} (h : ∀ e, (f e).bind Op.get? = g e) (es : List ε) :
    gets (es.filterMap f) = es.filterMap g := by
  rw [gets, List.filterMap_filterMap]
  congr 1
  funext e
  exact h e

/-- `ops` take the queue from `q` to `q'`: a put goes in at the back, a get
comes off the front. -/
inductive Moves : List (Op α) → List α → List α → Prop
  | nil (q) : Moves [] q q
  | put {ops q q' x} : Moves ops q q' → Moves (ops ++ [.put x]) q (q' ++ [x])
  | get {ops q q' x} : Moves ops q (x :: q') → Moves (ops ++ [.get x]) q q'

namespace Moves

theorem one_put (q : List α) (x : α) : Moves [.put x] q (q ++ [x]) := .put (.nil q)

theorem one_get (q : List α) (x : α) : Moves [.get x] (x :: q) q := .get (.nil (x :: q))

theorem trans {ops ops' : List (Op α)} {q q' q'' : List α} (h : Moves ops q q') (h' : Moves ops' q' q'') :
    Moves (ops ++ ops') q q'' := by
  induction h' with
  | nil => simpa using h
  | put _ ih => rw [← List.append_assoc]; exact .put (ih h)
  | get _ ih => rw [← List.append_assoc]; exact .get (ih h)

/-- Exactly once and in order: what came out, then what is still queued, is
what was there and what went in. -/
theorem balance {ops : List (Op α)} {q q' : List α} (h : Moves ops q q') :
    gets ops ++ q' = q ++ puts ops := by
  induction h with
  | nil => simp [gets, puts]
  | put _ ih => rw [gets_append, puts_append, gets_one_put, List.append_nil, ← List.append_assoc, ih]; simp
  | get _ ih => rw [gets_append, puts_append, gets_one_get, List.append_assoc, List.singleton_append, ih]; simp

/-- From an empty queue, the `i`th item out is the `i`th item in. -/
theorem nth {ops : List (Op α)} {q : List α} (h : Moves ops [] q) {i : Nat} {x : α}
    (hx : (gets ops)[i]? = some x) : (puts ops)[i]? = some x := by
  have hb := h.balance
  rw [List.nil_append] at hb
  obtain ⟨hi, -⟩ := List.getElem?_eq_some_iff.1 hx
  rw [← hb, List.getElem?_append_left hi]
  exact hx

end Moves

/-- A machine is a reliable channel if every step moves the queue `abs` by
exactly the puts and gets among the events it shows. -/
theorem Run.moves {α' : Type} {M : Machine σ α' ε} (obs : ε → Option (Op α)) (abs : σ → List α)
    (h0 : abs M.init = [])
    (hs : ∀ as es s a s' out, Run M as es s → M.step s a = some (s', out) →
      Moves (out.filterMap obs) (abs s) (abs s'))
    {as es s} (h : Run M as es s) : Moves (es.filterMap obs) [] (abs s) := by
  refine h.inv (fun _ es s => Moves (es.filterMap obs) [] (abs s)) ?_ ?_
  · rw [h0]; exact .nil []
  · intro as es s a s' out hr ih ht
    rw [List.filterMap_append]
    exact ih.trans (hs as es s a s' out hr ht)

end LuauFusion.Lib
