import LuauFusion.WebUrl
/-!
# What a list of parameters is

A script sees a list of parameters as the values that each name has, in order.
The loops that splice the list do to these what the interface says (`change_spec`).
-/
open LuauFusion.Lib LuauFusion.Lib.Utf16

namespace LuauFusion.WebUrl

/-! ## The loops -/

theorem deleteFrom_eq (found : Pair → Bool) (list : List Pair) (i : Nat) :
    deleteFrom found list i = list.take i ++ (list.drop i).filter (!found ·) := by
  induction list, i using deleteFrom.induct found with
  | case1 list i h hf ih =>
    rw [deleteFrom, dif_pos h, if_pos hf, ih, List.drop_eq_getElem_cons h, List.filter_cons_of_neg (by simp [hf]),
      List.eraseIdx_eq_take_drop_succ, List.take_append_of_le_length (by rw [List.length_take]; omega), List.take_take,
      Nat.min_self, List.drop_append_of_le_length (by rw [List.length_take]; omega), List.drop_take_self, List.nil_append]
  | case2 list i h hf ih =>
    rw [deleteFrom, dif_pos h, if_neg hf, ih, List.drop_eq_getElem_cons h, List.filter_cons_of_pos (by simp [hf]),
      List.take_add_one, List.getElem?_eq_getElem h, List.append_assoc]
    rfl
  | case3 list i h =>
    rw [deleteFrom, dif_neg h, List.take_of_length_le (by omega), List.drop_of_length_le (by omega), List.filter_nil,
      List.append_nil]

/-- The loop of `set`, entry by entry. -/
def setEntries (name value : List Char) : Bool → List Pair → List Pair × Bool
  | found, [] => ([], found)
  | found, e :: es =>
    if e.1 = name then
      if found then setEntries name value found es
      else ((e.1, value) :: (setEntries name value true es).1, (setEntries name value true es).2)
    else (e :: (setEntries name value found es).1, (setEntries name value found es).2)

theorem setFrom_eq (name value : List Char) (list : List Pair) (found : Bool) (i : Nat) :
    setFrom name value list found i =
      (list.take i ++ (setEntries name value found (list.drop i)).1, (setEntries name value found (list.drop i)).2) := by
  induction list, found, i using setFrom.induct name value with
  | case1 list i h hn ih =>
    rw [setFrom, dif_pos h, if_pos hn, if_pos rfl, ih, List.drop_eq_getElem_cons h, setEntries, if_pos hn, if_pos rfl,
      List.eraseIdx_eq_take_drop_succ, List.take_append_of_le_length (by rw [List.length_take]; omega), List.take_take,
      Nat.min_self, List.drop_append_of_le_length (by rw [List.length_take]; omega), List.drop_take_self, List.nil_append]
  | case2 list found i h hn hf ih =>
    rw [Bool.not_eq_true] at hf
    subst hf
    have hdrop : (list.set i (list[i].1, value)).drop (i + 1) = list.drop (i + 1) := List.drop_set_of_lt (by omega)
    rw [setFrom, dif_pos h, if_pos hn, if_neg (by simp), ih, List.drop_eq_getElem_cons h, setEntries, if_pos hn,
      if_neg (by simp), hdrop, List.take_add_one, List.take_set_of_le (by omega), List.getElem?_set_self h, List.append_assoc]
    rfl
  | case3 list found i h hn ih =>
    rw [setFrom, dif_pos h, if_neg hn, ih, List.drop_eq_getElem_cons h, setEntries, if_neg hn, List.take_add_one,
      List.getElem?_eq_getElem h, List.append_assoc]
    rfl
  | case4 list found i h =>
    rw [setFrom, dif_neg h, List.take_of_length_le (by omega), List.drop_of_length_le (by omega), setEntries,
      List.append_nil]

/-! ## Names and their values -/

@[simp] theorem getAll_nil (n : List Char) : getAll [] n = [] := rfl

theorem getAll_append (a b : List Pair) (n : List Char) : getAll (a ++ b) n = getAll a n ++ getAll b n := by
  rw [getAll, getAll, getAll, List.filter_append, List.map_append]

theorem getAll_cons (e : Pair) (es : List Pair) (n : List Char) :
    getAll (e :: es) n = if e.1 = n then e.2 :: getAll es n else getAll es n := by
  rw [getAll, List.filter_cons]
  by_cases h : e.1 = n
  · simp [h, getAll]
  · simp [h, getAll]

/-- What a change does to the values of each name. -/
def Change.spec (values : List Char → List (List Char)) : Change → List Char → List (List Char)
  | append name value => Function.update values name (values name ++ [value])
  | delete name none => Function.update values name []
  | delete name (some value) => Function.update values name ((values name).filter (· != value))
  | set name value => Function.update values name [value]
  | sort => values

theorem setEntries_found (name value : List Char) (es : List Pair) :
    (setEntries name value true es).2 = true ∧ getAll (setEntries name value true es).1 name = [] := by
  induction es with
  | nil => exact ⟨rfl, rfl⟩
  | cons e es ih =>
    rw [setEntries]
    by_cases hn : e.1 = name
    · rw [if_pos hn, if_pos rfl]
      exact ih
    · rw [if_neg hn, getAll_cons, if_neg hn]
      exact ih

theorem setEntries_first (name value : List Char) (es : List Pair) :
    getAll (setEntries name value false es).1 name = if (setEntries name value false es).2 then [value] else [] := by
  induction es with
  | nil => rfl
  | cons e es ih =>
    rw [setEntries]
    by_cases hn : e.1 = name
    · obtain ⟨hfound, hnone⟩ := setEntries_found name value es
      rw [if_pos hn, if_neg (by simp), getAll_cons, if_pos hn, hnone, hfound]
      rfl
    · rw [if_neg hn, getAll_cons, if_neg hn]
      exact ih

theorem setEntries_other {name n : List Char} (h : n ≠ name) (value : List Char) (found : Bool) (es : List Pair) :
    getAll (setEntries name value found es).1 n = getAll es n := by
  induction es generalizing found with
  | nil => rfl
  | cons e es ih =>
    rw [setEntries, getAll_cons]
    by_cases hn : e.1 = name
    · have hne : ¬ e.1 = n := fun he => h (he.symm.trans hn)
      rw [if_pos hn, if_neg hne]
      split
      · exact ih _
      · rw [getAll_cons, if_neg hne, ih]
    · rw [if_neg hn, getAll_cons, ih]

theorem filter_getAll (list : List Pair) (name n : List Char) (value : Option (List Char)) :
    getAll (list.filter fun e => !(e.1 == name && value.all (e.2 == ·))) n =
      if n = name then (getAll list n).filter fun v => !value.all (v == ·) else getAll list n := by
  induction list with
  | nil => simp
  | cons e es ih =>
    rw [List.filter_cons, getAll_cons]
    by_cases hn : e.1 = name
    · by_cases hv : value.all (e.2 == ·) = true
      · rw [if_neg (by simp [hn, hv]), ih]
        by_cases hnn : n = name
        · simp [hnn, hn, hv]
        · simp [hnn, hn, Ne.symm hnn]
      · rw [if_pos (by simp [hn, hv]), getAll_cons, ih]
        by_cases hnn : n = name
        · simp [hnn, hn, hv]
        · simp [hnn, hn, Ne.symm hnn]
    · rw [if_pos (by simp [hn]), getAll_cons, ih]
      by_cases hnn : n = name
      · simp [hnn, hn]
      · simp [hnn]

/-! ## Sorting -/

/-- The order of `sort`, by code units. -/
def nameLe (a b : Pair) : Bool := decide (encode a.1 ≤ encode b.1)

theorem nameLe_trans (a b c : Pair) (hab : nameLe a b = true) (hbc : nameLe b c = true) : nameLe a c = true := by
  rw [nameLe, decide_eq_true_eq] at *
  exact List.le_trans hab hbc

theorem nameLe_total (a b : Pair) : (nameLe a b || nameLe b a) = true := by
  simp only [nameLe, Bool.or_eq_true, decide_eq_true_eq]
  exact List.le_total _ _

/-- The sort is stable, so the values of a name keep their order. -/
theorem sort_getAll (list : List Pair) (n : List Char) : getAll (list.mergeSort nameLe) n = getAll list n := by
  have hequal : (list.filter (·.1 == n)).Pairwise (fun a b => nameLe a b = true) := by
    rw [List.pairwise_filter]
    apply List.pairwise_of_forall
    intro a b ha hb
    rw [beq_iff_eq] at ha hb
    rw [nameLe, decide_eq_true_eq, ha, hb]
    exact List.le_refl _
  have hsub := (List.sublist_mergeSort nameLe_trans nameLe_total hequal List.filter_sublist).filter (·.1 == n)
  rw [List.filter_filter] at hsub
  simp only [Bool.and_self] at hsub
  have hlen := ((List.mergeSort_perm list nameLe).filter (·.1 == n)).length_eq
  rw [getAll, getAll, hsub.eq_of_length hlen.symm]

/-- Each change of a list, loops and all, does to the values of every name what the
interface says; and `sort` leaves the names in the order of their code units. -/
theorem change_spec (list : List Pair) (c : Change) :
    getAll (c.apply list) = c.spec (getAll list) ∧
      (c = .sort → (c.apply list).Pairwise (fun a b => encode a.1 ≤ encode b.1) ∧ (c.apply list).Perm list) := by
  refine ⟨?_, ?_⟩
  · funext n
    cases c with
    | append name value =>
      rw [Change.apply, getAll_append, getAll_cons, getAll_nil, Change.spec, Function.update_apply]
      by_cases hn : n = name
      · simp [hn]
      · simp [hn, Ne.symm hn]
    | delete name value =>
      have hfilter := filter_getAll list name n value
      cases value with
      | none =>
        rw [Change.apply, deleteFrom_eq, Change.spec, Function.update_apply]
        simpa using hfilter
      | some value =>
        rw [Change.apply, deleteFrom_eq, Change.spec, Function.update_apply]
        by_cases hn : n = name
        · simpa [hn, bne] using hfilter
        · simpa [hn, bne] using hfilter
    | set name value =>
      rw [Change.apply, setFrom_eq, Change.spec, Function.update_apply]
      simp only [List.take_zero, List.drop_zero, List.nil_append]
      have hfirst := setEntries_first name value list
      by_cases hn : n = name
      · subst hn
        rw [if_pos rfl]
        cases hset : setEntries n value false list with
        | mk l found =>
          rw [hset] at hfirst
          cases found with
          | true => exact hfirst
          | false =>
            simp only [getAll_append, getAll_cons, getAll_nil, if_true]
            rw [hfirst]
            rfl
      · have hother := setEntries_other hn value false list
        rw [if_neg hn]
        cases hset : setEntries name value false list with
        | mk l found =>
          rw [hset] at hother
          cases found with
          | true => exact hother
          | false =>
            simp only [getAll_append, getAll_cons, getAll_nil, if_neg (Ne.symm hn), List.append_nil]
            exact hother
    | sort => exact sort_getAll list n
  · rintro rfl
    refine ⟨?_, List.mergeSort_perm _ _⟩
    refine (List.pairwise_mergeSort nameLe_trans nameLe_total list).imp ?_
    intro a b hab
    exact of_decide_eq_true hab

end LuauFusion.WebUrl
