import Mathlib.Algebra.Group.Nat.Defs
import LuauFusion.Lib.Utf8
/-!
# Cutting encoded text between characters

How much of a text's encoding fits in a number of bytes (`fitting`), and where an
encoding may be cut: a character's first byte is told from its others by itself
(`boundary_start`, `boundary_inside`).
-/

namespace LuauFusion.Lib.Utf8

def encodeChars (cs : List Char) : Bytes := cs.flatMap String.utf8EncodeChar

@[simp] theorem encodeChars_nil : encodeChars [] = [] := rfl

@[simp] theorem encodeChars_append (a b : List Char) : encodeChars (a ++ b) = encodeChars a ++ encodeChars b :=
  List.flatMap_append

@[simp] theorem encodeChars_cons (c : Char) (cs : List Char) :
    encodeChars (c :: cs) = String.utf8EncodeChar c ++ encodeChars cs := List.flatMap_cons

theorem utf8_ascii {c : Char} (h : c.toNat < 128) : String.utf8EncodeChar c = [UInt8.ofNat c.toNat] := by
  have hsize : c.utf8Size = 1 := by
    rw [Char.utf8Size_eq_one_iff, UInt32.le_iff_toNat_le]
    have hv : c.toNat = c.val.toNat := rfl
    simp only [UInt32.reduceToNat]
    omega
  rw [String.utf8EncodeChar_eq_singleton hsize]
  rfl

/-- The bytes of a string of ASCII characters. -/
theorem flatMap_ascii {cs : List Char} (h : ∀ c ∈ cs, c.toNat < 128) :
    cs.flatMap String.utf8EncodeChar = cs.map fun c => UInt8.ofNat c.toNat := by
  induction cs with
  | nil => rfl
  | cons c cs ih =>
    rw [List.forall_mem_cons] at h
    rw [List.flatMap_cons, utf8_ascii h.1, ih h.2]
    rfl

/-! ## What fits -/

/-- The longest list of characters from the start whose encoding has at most `cap` bytes. -/
def fitting : Nat → List Char → List Char
  | _, [] => []
  | cap, c :: cs => if c.utf8Size ≤ cap then c :: fitting (cap - c.utf8Size) cs else []

theorem fitting_spec (cap : Nat) (cs : List Char) :
    ∃ rest, cs = fitting cap cs ++ rest ∧ (encodeChars (fitting cap cs)).length ≤ cap ∧
      ∀ c ∈ rest.head?, cap < (encodeChars (fitting cap cs)).length + c.utf8Size := by
  induction cs generalizing cap with
  | nil => exact ⟨[], rfl, Nat.zero_le _, by simp⟩
  | cons c cs ih =>
    rw [fitting]
    by_cases hc : c.utf8Size ≤ cap
    · obtain ⟨rest, hcs, hle, hfull⟩ := ih (cap - c.utf8Size)
      rw [if_pos hc, encodeChars_cons, List.length_append, String.length_utf8EncodeChar]
      refine ⟨rest, by rw [List.cons_append, ← hcs], by omega, fun d hd => ?_⟩
      have hd := hfull d hd
      omega
    · rw [if_neg hc]
      refine ⟨c :: cs, rfl, Nat.zero_le _, ?_⟩
      rintro d ⟨⟩
      simpa using hc

/-- Characters that fit, where the next one does not, are those that fit. -/
theorem fitting_eq {cap : Nat} {a b : List Char} (hle : (encodeChars a).length ≤ cap)
    (hfull : ∀ c ∈ b.head?, cap < (encodeChars a).length + c.utf8Size) : fitting cap (a ++ b) = a := by
  induction a generalizing cap with
  | nil =>
    cases b with
    | nil => rfl
    | cons c b =>
      have hc := hfull c rfl
      rw [List.nil_append, fitting, if_neg]
      simpa using hc
  | cons c a ih =>
    rw [encodeChars_cons, List.length_append, String.length_utf8EncodeChar] at hle hfull
    rw [List.cons_append, fitting, if_pos (by omega)]
    have hrest : fitting (cap - c.utf8Size) (a ++ b) = a := by
      refine ih (by omega) fun d hd => ?_
      have hd := hfull d hd
      omega
    rw [hrest]

/-- All of it fits where there is room. -/
theorem fitting_all {cap : Nat} {cs : List Char} (h : (encodeChars cs).length ≤ cap) : fitting cap cs = cs := by
  have hall := fitting_eq (b := []) h (by simp)
  rwa [List.append_nil] at hall

/-! ## Where to cut -/

theorem mask_toNat {m l : UInt8} {i a : Nat} (hm : m.toNat = 2 ^ i - 1) (hl : l.toNat = 2 ^ i * a) (x : UInt8) :
    (x &&& m ||| l).toNat = 2 ^ i * a + x.toNat % 2 ^ i := by
  rw [UInt8.toNat_or, UInt8.toNat_and, hm, hl, Nat.and_two_pow_sub_one_eq_mod, Nat.or_comm,
    Nat.two_pow_add_eq_or_of_lt (Nat.mod_lt _ (Nat.two_pow_pos i))]

theorem isCont_iff (b : UInt8) : isCont b = true ↔ 0x80 ≤ b.toNat ∧ b.toNat ≤ 0xBF := by
  rw [isCont, Bool.and_eq_true, decide_eq_true_eq, decide_eq_true_eq, UInt8.le_iff_toNat_le, UInt8.le_iff_toNat_le]
  rfl

theorem isCont_low (x : UInt8) : isCont (x &&& 0x3f ||| 0x80) = true := by
  rw [isCont_iff, mask_toNat (i := 6) (a := 2) rfl rfl]
  omega

theorem isCont_lead (x : UInt8) :
    isCont (x &&& 0x1f ||| 0xc0) = false ∧ isCont (x &&& 0x0f ||| 0xe0) = false ∧ isCont (x &&& 0x07 ||| 0xf0) = false := by
  refine ⟨?_, ?_, ?_⟩
  · rw [Bool.eq_false_iff, Ne, isCont_iff, mask_toNat (i := 5) (a := 6) rfl rfl]
    omega
  · rw [Bool.eq_false_iff, Ne, isCont_iff, mask_toNat (i := 4) (a := 14) rfl rfl]
    omega
  · rw [Bool.eq_false_iff, Ne, isCont_iff, mask_toNat (i := 3) (a := 30) rfl rfl]
    omega

/-- The first byte of a character continues none; all the others do. -/
theorem encodeChar_bytes (c : Char) :
    ∃ b bs, String.utf8EncodeChar c = b :: bs ∧ isCont b = false ∧ ∀ b' ∈ bs, isCont b' = true := by
  rcases c.utf8Size_eq with h | h | h | h
  · refine ⟨c.val.toUInt8, [], String.utf8EncodeChar_eq_singleton h, ?_, by simp⟩
    rw [Char.utf8Size_eq_one_iff, UInt32.le_iff_toNat_le] at h
    simp only [UInt32.reduceToNat] at h
    have hlt : c.val.toUInt8.toNat < 128 := by
      rw [UInt32.toNat_toUInt8]
      omega
    rw [Bool.eq_false_iff, Ne, isCont_iff]
    omega
  · refine ⟨_, _, String.utf8EncodeChar_eq_cons_cons h, (isCont_lead _).1, ?_⟩
    simp only [List.forall_mem_cons]
    exact ⟨isCont_low _, by simp⟩
  · refine ⟨_, _, String.utf8EncodeChar_eq_cons_cons_cons h, (isCont_lead _).2.1, ?_⟩
    simp only [List.forall_mem_cons]
    exact ⟨isCont_low _, isCont_low _, by simp⟩
  · refine ⟨_, _, String.utf8EncodeChar_eq_cons_cons_cons_cons h, (isCont_lead _).2.2, ?_⟩
    simp only [List.forall_mem_cons]
    exact ⟨isCont_low _, isCont_low _, isCont_low _, by simp⟩

/-- Rust's `str::is_char_boundary`. -/
def isCharBoundary (bs : Bytes) (i : Nat) : Bool :=
  if i = 0 then true
  else
    match bs[i]? with
    | none => i == bs.length
    | some b => !isCont b

theorem boundary_start (a b : List Char) : isCharBoundary (encodeChars (a ++ b)) (encodeChars a).length = true := by
  unfold isCharBoundary
  split
  · rfl
  · rw [encodeChars_append, List.getElem?_append_right (Nat.le_refl _), Nat.sub_self]
    cases b with
    | nil => simp
    | cons c b =>
      obtain ⟨x, bs, hc, hx, -⟩ := encodeChar_bytes c
      rw [encodeChars_cons, hc, List.cons_append, List.getElem?_cons_zero]
      simp only [hx, Bool.not_false]

theorem boundary_inside (a b : List Char) {c : Char} {j : Nat} (hj : 0 < j) (hc : j < c.utf8Size) :
    isCharBoundary (encodeChars (a ++ c :: b)) ((encodeChars a).length + j) = false := by
  obtain ⟨x, bs, hbytes, -, hbs⟩ := encodeChar_bytes c
  have hlen : bs.length + 1 = c.utf8Size := by rw [← String.length_utf8EncodeChar, hbytes, List.length_cons]
  obtain ⟨i, rfl⟩ : ∃ i, j = i + 1 := ⟨j - 1, by omega⟩
  have hi : i < bs.length := by omega
  have hget : (encodeChars (a ++ c :: b))[(encodeChars a).length + (i + 1)]? = some bs[i] := by
    rw [encodeChars_append, List.getElem?_append_right (Nat.le_add_right _ _), Nat.add_sub_cancel_left, encodeChars_cons,
      hbytes, List.cons_append, List.getElem?_cons_succ, List.getElem?_append_left hi, List.getElem?_eq_getElem hi]
  rw [isCharBoundary, if_neg (by omega), hget]
  simp only [hbs _ (List.getElem_mem hi), Bool.not_true]

/-- Rust's `&s[..n]`, as characters; `none` is its panic. -/
def charsTo : List Char → Nat → Option (List Char)
  | _, 0 => some []
  | [], _ + 1 => none
  | c :: cs, n + 1 => if c.utf8Size ≤ n + 1 then (charsTo cs (n + 1 - c.utf8Size)).map (c :: ·) else none

theorem charsTo_append (a b : List Char) : charsTo (a ++ b) (encodeChars a).length = some a := by
  induction a with
  | nil => cases b <;> rfl
  | cons c a ih =>
    rw [encodeChars_cons, List.length_append, String.length_utf8EncodeChar]
    obtain ⟨n, hn⟩ : ∃ n, c.utf8Size = n + 1 := ⟨c.utf8Size - 1, by have := c.utf8Size_pos; omega⟩
    have hsum : c.utf8Size + (encodeChars a).length = n + (encodeChars a).length + 1 := by omega
    have hsub : n + (encodeChars a).length + 1 - c.utf8Size = (encodeChars a).length := by omega
    rw [hsum, List.cons_append, charsTo, if_pos (by omega), hsub, ih]
    rfl

end LuauFusion.Lib.Utf8
