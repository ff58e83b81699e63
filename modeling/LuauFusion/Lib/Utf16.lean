import Mathlib.Data.List.Basic
/-!
# UTF-16

Strings of 16-bit code units, as JavaScript has them, and the characters they
stand for. A surrogate that is not half of a pair stands for U+FFFD.
-/

namespace LuauFusion.Lib.Utf16

abbrev Units := List UInt16

def isHigh (u : UInt16) : Bool := decide (0xD800 ≤ u.toNat ∧ u.toNat ≤ 0xDBFF)

def isLow (u : UInt16) : Bool := decide (0xDC00 ≤ u.toNat ∧ u.toNat ≤ 0xDFFF)

/-- What a unit stands for that is not half of a pair. -/
def single (u : UInt16) : Char := if isHigh u || isLow u then '\uFFFD' else Char.ofNat u.toNat

def pair (u v : UInt16) : Char := Char.ofNat (0x10000 + (u.toNat - 0xD800) * 0x400 + (v.toNat - 0xDC00))

def decode : Units → List Char
  | [] => []
  | [u] => [single u]
  | u :: v :: us => if isHigh u && isLow v then pair u v :: decode us else single u :: decode (v :: us)

def encodeChar (c : Char) : Units :=
  if c.toNat < 0x10000 then [.ofNat c.toNat]
  else [.ofNat (0xD800 + (c.toNat - 0x10000) / 0x400), .ofNat (0xDC00 + (c.toNat - 0x10000) % 0x400)]

def encode (cs : List Char) : Units := cs.flatMap encodeChar

@[simp] theorem encode_nil : encode [] = [] := rfl
@[simp] theorem encode_append (a b : List Char) : encode (a ++ b) = encode a ++ encode b := List.flatMap_append
@[simp] theorem decode_nil : decode [] = [] := rfl

theorem toNat_lt (c : Char) : c.toNat < 0x110000 ∧ ¬ (0xD800 ≤ c.toNat ∧ c.toNat ≤ 0xDFFF) := by
  have hv : c.toNat = c.val.toNat := rfl
  rcases c.valid with h | ⟨h, h'⟩ <;> rw [hv] <;> omega

/-! ## One character -/

theorem decode_pair {u v : UInt16} (hu : isHigh u = true) (hv : isLow v = true) (us : Units) :
    decode (u :: v :: us) = pair u v :: decode us := by
  rw [decode, if_pos (by rw [hu, hv]; rfl)]

/-- A unit is decoded by itself unless it is high and a low one follows. -/
theorem decode_single {u : UInt16} {us : Units} (h : isHigh u = true → ∀ v ∈ us.head?, isLow v = false) :
    decode (u :: us) = single u :: decode us := by
  cases us with
  | nil => rfl
  | cons v us =>
    rw [decode, if_neg]
    intro hp
    rw [Bool.and_eq_true] at hp
    rw [h hp.1 v rfl] at hp
    exact absurd hp.2 (by simp)

theorem decode_encodeChar (c : Char) (us : Units) : decode (encodeChar c ++ us) = c :: decode us := by
  obtain ⟨hlt, hs⟩ := toNat_lt c
  unfold encodeChar
  split
  · next h16 =>
    have hu : (UInt16.ofNat c.toNat).toNat = c.toNat := UInt16.toNat_ofNat_of_lt h16
    have hh : isHigh (.ofNat c.toNat) = false := by rw [isHigh, hu, decide_eq_false_iff_not]; omega
    have hl : isLow (.ofNat c.toNat) = false := by rw [isLow, hu, decide_eq_false_iff_not]; omega
    rw [List.singleton_append, decode_single (by simp [hh]), single, hh, hl, hu]
    simp
  · next h16 =>
    have hu : (UInt16.ofNat (0xD800 + (c.toNat - 0x10000) / 0x400)).toNat = 0xD800 + (c.toNat - 0x10000) / 0x400 :=
      UInt16.toNat_ofNat_of_lt (by simp only [UInt16.size]; omega)
    have hv : (UInt16.ofNat (0xDC00 + (c.toNat - 0x10000) % 0x400)).toNat = 0xDC00 + (c.toNat - 0x10000) % 0x400 :=
      UInt16.toNat_ofNat_of_lt (by simp only [UInt16.size]; omega)
    have hh : isHigh (.ofNat (0xD800 + (c.toNat - 0x10000) / 0x400)) = true := by rw [isHigh, hu, decide_eq_true_eq]; omega
    have hl : isLow (.ofNat (0xDC00 + (c.toNat - 0x10000) % 0x400)) = true := by rw [isLow, hv, decide_eq_true_eq]; omega
    show decode (_ :: _ :: us) = _
    rw [decode_pair hh hl, pair, hu, hv]
    have hsum : 0x10000 + (0xD800 + (c.toNat - 0x10000) / 0x400 - 0xD800) * 0x400 +
        (0xDC00 + (c.toNat - 0x10000) % 0x400 - 0xDC00) = c.toNat := by omega
    rw [hsum, Char.ofNat_toNat]

/-- A unit below the surrogates is its character's encoding. -/
theorem encodeChar_single {u : UInt16} (h : (single u).toNat < 128) : encodeChar (single u) = [u] := by
  have hu := u.toNat_lt
  unfold single at h ⊢
  split at h
  · exact absurd h (by decide)
  · next hs =>
    rw [if_neg hs]
    have hs : ¬ (0xD800 ≤ u.toNat ∧ u.toNat ≤ 0xDFFF) := by
      simp only [isHigh, isLow, Bool.or_eq_true, decide_eq_true_eq] at hs
      omega
    have hv : u.toNat.isValidChar := by
      unfold Nat.isValidChar
      omega
    have hn : (Char.ofNat u.toNat).toNat = u.toNat := by
      rw [Char.ofNat, dif_pos hv]
      rfl
    rw [encodeChar, hn, if_pos (by omega), UInt16.ofNat_toNat]

theorem pair_ge (u v : UInt16) (hu : isHigh u = true) (hv : isLow v = true) : 0x10000 ≤ (pair u v).toNat := by
  rw [isHigh, decide_eq_true_eq] at hu
  rw [isLow, decide_eq_true_eq] at hv
  have hvalid : (0x10000 + (u.toNat - 0xD800) * 0x400 + (v.toNat - 0xDC00)).isValidChar := by
    unfold Nat.isValidChar
    omega
  rw [pair, Char.ofNat, dif_pos hvalid]
  show _ ≤ 0x10000 + (u.toNat - 0xD800) * 0x400 + (v.toNat - 0xDC00)
  omega

theorem decode_encode (cs : List Char) : decode (encode cs) = cs := by
  induction cs with
  | nil => rfl
  | cons c cs ih => rw [encode, List.flatMap_cons, decode_encodeChar, ← encode, ih]

theorem encode_inj {a b : List Char} (h : encode a = encode b) : a = b := by
  rw [← decode_encode a, h, decode_encode]

/-! ## ASCII -/

theorem encode_ascii {cs : List Char} (h : ∀ c ∈ cs, c.toNat < 128) : encode cs = cs.map fun c => UInt16.ofNat c.toNat := by
  induction cs with
  | nil => rfl
  | cons c cs ih =>
    rw [List.forall_mem_cons] at h
    have hc : encodeChar c = [UInt16.ofNat c.toNat] := by
      rw [encodeChar, if_pos (by omega)]
    rw [encode, List.flatMap_cons, hc, ← encode, ih h.2]
    rfl

/-- In an ASCII string an index in units is an index in characters. -/
theorem encode_take {cs : List Char} (h : ∀ c ∈ cs, c.toNat < 128) (n : Nat) : (encode cs).take n = encode (cs.take n) := by
  rw [encode_ascii h, encode_ascii fun c hc => h c (List.mem_of_mem_take hc), List.map_take]

theorem encode_drop {cs : List Char} (h : ∀ c ∈ cs, c.toNat < 128) (n : Nat) : (encode cs).drop n = encode (cs.drop n) := by
  rw [encode_ascii h, encode_ascii fun c hc => h c (List.mem_of_mem_drop hc), List.map_drop]

theorem encode_length {cs : List Char} (h : ∀ c ∈ cs, c.toNat < 128) : (encode cs).length = cs.length := by
  rw [encode_ascii h, List.length_map]

/-- What decodes to ASCII has no surrogate. -/
theorem encode_decode {us : Units} (h : ∀ c ∈ decode us, c.toNat < 128) : encode (decode us) = us := by
  induction us using decode.induct with
  | case1 => rfl
  | case2 u =>
    rw [decode, List.forall_mem_cons] at h
    rw [decode, encode, List.flatMap_cons, encodeChar_single h.1]
    rfl
  | case3 u v us hp ih =>
    rw [Bool.and_eq_true] at hp
    rw [decode_pair hp.1 hp.2, List.forall_mem_cons] at h
    exact absurd h.1 (by have := pair_ge u v hp.1 hp.2; omega)
  | case4 u v us hp ih =>
    rw [decode, if_neg hp, List.forall_mem_cons] at h
    rw [decode, if_neg hp, encode, List.flatMap_cons, encodeChar_single h.1, ← encode, ih h.2]
    rfl

/-! ## Cutting -/

/-- Units may be cut except between the halves of a pair. -/
theorem decode_append {a b : Units} (h : ∀ u ∈ a.getLast?, isHigh u = true → ∀ v ∈ b.head?, isLow v = false) :
    decode (a ++ b) = decode a ++ decode b := by
  induction a using decode.induct with
  | case1 => rfl
  | case2 u =>
    rw [List.singleton_append, decode_single fun hu => h u (by simp) hu]
    rfl
  | case3 u v us hp ih =>
    have hp := hp
    rw [Bool.and_eq_true] at hp
    have hlast : ∀ w ∈ us.getLast?, isHigh w = true → ∀ x ∈ b.head?, isLow x = false := by
      intro w hw
      cases us with
      | nil => cases hw
      | cons x xs => exact h w (by simpa [List.getLast?_cons_cons] using hw)
    rw [List.cons_append, List.cons_append, decode_pair hp.1 hp.2, decode_pair hp.1 hp.2, ih hlast]
    rfl
  | case4 u v us hp ih =>
    have hlast : ∀ w ∈ (v :: us).getLast?, isHigh w = true → ∀ x ∈ b.head?, isLow x = false := by
      intro w hw
      exact h w (by rwa [List.getLast?_cons_cons])
    have hcut : decode (u :: (v :: (us ++ b))) = single u :: decode (v :: (us ++ b)) := by rw [decode, if_neg hp]
    rw [decode, if_neg hp]
    exact hcut.trans (congrArg (single u :: ·) (ih hlast))

/-- Between any two characters that were decoded, the units may be cut. -/
theorem decode_split {us : Units} {p q : List Char} (h : decode us = p ++ q) :
    ∃ a b, us = a ++ b ∧ decode a = p ∧ decode b = q := by
  induction us using decode.induct generalizing p with
  | case1 =>
    obtain ⟨rfl, rfl⟩ := List.append_eq_nil_iff.1 h.symm
    exact ⟨[], [], rfl, rfl, rfl⟩
  | case2 u =>
    cases p with
    | nil => exact ⟨[], [u], rfl, rfl, h⟩
    | cons c p =>
      obtain ⟨rfl, hp⟩ := List.cons.inj h
      obtain ⟨rfl, rfl⟩ := List.append_eq_nil_iff.1 hp.symm
      exact ⟨[u], [], rfl, rfl, rfl⟩
  | case3 u v us hpair ih =>
    cases p with
    | nil => exact ⟨[], u :: v :: us, rfl, rfl, h⟩
    | cons c p =>
      have hp := hpair
      rw [Bool.and_eq_true] at hp
      rw [decode_pair hp.1 hp.2] at h
      obtain ⟨rfl, hrest⟩ := List.cons.inj h
      obtain ⟨a, b, rfl, rfl, rfl⟩ := ih hrest
      exact ⟨u :: v :: a, b, rfl, decode_pair hp.1 hp.2 a, rfl⟩
  | case4 u v us hpair ih =>
    cases p with
    | nil => exact ⟨[], u :: v :: us, rfl, rfl, h⟩
    | cons c p =>
      rw [decode, if_neg hpair] at h
      obtain ⟨rfl, hrest⟩ := List.cons.inj h
      obtain ⟨a, b, hab, rfl, rfl⟩ := ih hrest
      refine ⟨u :: a, b, by rw [hab, List.cons_append], decode_single fun hu w hw => ?_, rfl⟩
      cases a with
      | nil => cases hw
      | cons x a =>
        obtain rfl : v = x := (List.cons.inj hab).1
        obtain rfl : v = w := by simpa using hw
        simpa [hu] using hpair

theorem single_lt (u : UInt16) : (single u).toNat < 0x10000 := by
  have hu := u.toNat_lt
  unfold single
  split
  · decide
  · next hs =>
    simp only [isHigh, isLow, Bool.or_eq_true, decide_eq_true_eq] at hs
    have hv : u.toNat.isValidChar := by
      unfold Nat.isValidChar
      omega
    rw [Char.ofNat, dif_pos hv]
    exact hu

/-- A character is as long in units as what it was decoded from. -/
theorem encode_decode_length (us : Units) : (encode (decode us)).length = us.length := by
  induction us using decode.induct with
  | case1 => rfl
  | case2 u =>
    rw [decode, encode, List.flatMap_singleton, encodeChar, if_pos (single_lt u)]
    rfl
  | case3 u v us hp ih =>
    have hp := hp
    rw [Bool.and_eq_true] at hp
    have hge := pair_ge u v hp.1 hp.2
    rw [decode_pair hp.1 hp.2, encode, List.flatMap_cons, encodeChar, if_neg (by omega), List.length_append, ← encode, ih,
      List.length_cons, List.length_cons]
    simp only [List.length_cons, List.length_nil]
    omega
  | case4 u v us hp ih =>
    rw [decode, if_neg hp, encode, List.flatMap_cons, encodeChar, if_pos (single_lt u), List.length_append, ← encode, ih]
    simp only [List.length_cons, List.length_nil]
    omega

theorem encode_eq_nil {cs : List Char} : encode cs = [] ↔ cs = [] :=
  ⟨fun h => encode_inj h, fun h => by rw [h]; rfl⟩

end LuauFusion.Lib.Utf16
