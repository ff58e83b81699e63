import Mathlib.Data.List.Basic
/-!
# Lossy UTF-8 decoding

A byte string splits, from the left, into encoded characters and maximal
ill-formed subsequences (`chunks`). Decoding keeps the characters and puts
U+FFFD for each of the others (`lossy`). `lossy_length` says what that adds to
the length, and `utf8_lossy_iff` that it loses nothing exactly on well-formed
input.
-/

namespace LuauFusion.Lib.Utf8

abbrev Bytes := List UInt8

/-- The bytes of a string. -/
def utf8 (s : String) : Bytes := s.toList.flatMap String.utf8EncodeChar

/-- The bytes are the encoding of some characters. -/
def WellFormed (bs : Bytes) : Prop := ∃ l : List Char, bs = l.flatMap String.utf8EncodeChar

/-- U+FFFD. -/
def replacement : Char := '\uFFFD'

/-! ## Splitting -/

/-- The character whose encoding the bytes start with. -/
def headChar (bs : Bytes) : Option Char := bs.toByteArray.utf8DecodeChar? 0

def isCont (b : UInt8) : Bool := 0x80 ≤ b && b ≤ 0xBF

/-- `b` can follow `a` in a character of three or four bytes. -/
def secondOk (a b : UInt8) : Bool :=
  if a = 0xE0 then 0xA0 ≤ b && b ≤ 0xBF
  else if 0xE1 ≤ a && a ≤ 0xEC then isCont b
  else if a = 0xED then 0x80 ≤ b && b ≤ 0x9F
  else if 0xEE ≤ a && a ≤ 0xEF then isCont b
  else if a = 0xF0 then 0x90 ≤ b && b ≤ 0xBF
  else if 0xF1 ≤ a && a ≤ 0xF3 then isCont b
  else if a = 0xF4 then 0x80 ≤ b && b ≤ 0x8F
  else false

/-- How long the ill-formed subsequence is that the bytes start with, where no
character's encoding does: as many bytes as could begin one, and at least one. -/
def badLength : Bytes → Nat
  | a :: b :: c :: _ => if secondOk a b then (if 0xF0 ≤ a && isCont c then 3 else 2) else 1
  | [a, b] => if secondOk a b then 2 else 1
  | [_] => 1
  | [] => 0

inductive Chunk where
  | char (c : Char)
  | bad (bs : Bytes)
  deriving DecidableEq

namespace Chunk

def bytes : Chunk → Bytes
  | char c => String.utf8EncodeChar c
  | bad bs => bs

def toChar : Chunk → Char
  | char c => c
  | bad _ => replacement

/-- What decoding adds to the length. -/
def growth : Chunk → Nat
  | char _ => 0
  | bad bs => 3 - bs.length

def isChar : Chunk → Bool
  | char _ => true
  | bad _ => false

end Chunk

/-- The chunks of the bytes past the first `n`. -/
def chunksFrom : Nat → Bytes → List Chunk
  | _, [] => []
  | n + 1, _ :: bs => chunksFrom n bs
  | 0, b :: bs =>
    match headChar (b :: bs) with
    | some c => .char c :: chunksFrom (c.utf8Size - 1) bs
    | none => .bad ((b :: bs).take (badLength (b :: bs))) :: chunksFrom (badLength (b :: bs) - 1) bs

def chunks (bs : Bytes) : List Chunk := chunksFrom 0 bs

/-- Rust's `String::from_utf8_lossy`. -/
def lossy (bs : Bytes) : String := String.ofList ((chunks bs).map Chunk.toChar)

/-- What `lossy` adds to the length: `3 - n` for each maximal ill-formed
subsequence of `n` bytes. -/
def growth (bs : Bytes) : Nat := (chunks bs).foldr (fun c n => c.growth + n) 0

/-! ## One chunk -/

theorem toByteArray_inj {a b : Bytes} (h : a.toByteArray = b.toByteArray) : a = b := by
  have := congrArg (fun x : ByteArray => x.data.toList) h
  simpa using this

theorem headChar_encode (c : Char) (bs : Bytes) : headChar (String.utf8EncodeChar c ++ bs) = some c := by
  have := List.utf8DecodeChar?_utf8Encode_singleton_append (b := bs.toByteArray) (c := c)
  simpa [headChar, List.utf8Encode, List.toByteArray_append] using this

theorem headChar_some {bs : Bytes} {c : Char} (h : headChar bs = some c) :
    bs = String.utf8EncodeChar c ++ bs.drop c.utf8Size := by
  obtain ⟨l, hl⟩ := ByteArray.exists_of_utf8DecodeChar?_eq_some h
  have e : bs = String.utf8EncodeChar c ++ l.data.toList := by
    apply toByteArray_inj
    rw [hl, List.toByteArray_append]
    congr 1
    ext1
    simp
  conv_lhs => rw [e]
  rw [e, List.drop_left' (String.length_utf8EncodeChar c)]

theorem badLength_le_length (bs : Bytes) : badLength bs ≤ bs.length := by
  unfold badLength
  split <;> (repeat' split) <;> simp

theorem badLength_pos (b : UInt8) (bs : Bytes) : 1 ≤ badLength (b :: bs) := by
  rcases bs with _ | ⟨c, _ | ⟨d, bs⟩⟩ <;> simp only [badLength] <;> (repeat' split) <;> simp

theorem badLength_le (bs : Bytes) : badLength bs ≤ 3 := by
  unfold badLength
  split <;> (repeat' split) <;> simp

/-! ## All chunks -/

theorem chunksFrom_drop (n : Nat) (bs : Bytes) : chunksFrom n bs = chunks (bs.drop n) := by
  induction n generalizing bs with
  | zero => rfl
  | succ n ih =>
    cases bs with
    | nil => simp [chunks, chunksFrom]
    | cons b bs => simpa [chunksFrom] using ih bs

@[simp] theorem chunks_nil : chunks [] = [] := rfl

theorem chunks_char {bs : Bytes} {c : Char} (h : headChar bs = some c) :
    chunks bs = .char c :: chunks (bs.drop c.utf8Size) := by
  cases bs with
  | nil => cases h
  | cons b bs =>
    have hp := c.utf8Size_pos
    obtain ⟨n, hn⟩ : ∃ n, c.utf8Size = n + 1 := ⟨c.utf8Size - 1, by omega⟩
    simp only [chunks, chunksFrom, h]
    rw [chunksFrom_drop, hn]
    simp [chunks]

theorem chunks_bad {b : UInt8} {bs : Bytes} (h : headChar (b :: bs) = none) :
    chunks (b :: bs) = .bad ((b :: bs).take (badLength (b :: bs))) :: chunks ((b :: bs).drop (badLength (b :: bs))) := by
  have hp := badLength_pos b bs
  obtain ⟨n, hn⟩ : ∃ n, badLength (b :: bs) = n + 1 := ⟨badLength (b :: bs) - 1, by omega⟩
  simp only [chunks, chunksFrom, h]
  rw [chunksFrom_drop, hn]
  simp [chunks]

/-- Bytes are read chunk by chunk. -/
theorem chunk_induction {P : Bytes → Prop} (nil : P [])
    (char : ∀ bs c, headChar bs = some c → P (bs.drop c.utf8Size) → P bs)
    (bad : ∀ b bs, headChar (b :: bs) = none → P ((b :: bs).drop (badLength (b :: bs))) → P (b :: bs))
    (bs : Bytes) : P bs := by
  induction h : bs.length using Nat.strongRecOn generalizing bs with
  | ind n ih =>
    cases bs with
    | nil => exact nil
    | cons b bs =>
      subst h
      cases hc : headChar (b :: bs) with
      | some c =>
        have := c.utf8Size_pos
        exact char _ c hc (ih _ (by simp only [List.length_drop, List.length_cons]; omega) _ rfl)
      | none =>
        have := badLength_pos b bs
        exact bad b bs hc (ih _ (by simp only [List.length_drop, List.length_cons]; omega) _ rfl)

/-- Splitting loses nothing. -/
theorem chunks_bytes (bs : Bytes) : (chunks bs).flatMap Chunk.bytes = bs := by
  induction bs using chunk_induction with
  | nil => rfl
  | char bs c h ih =>
    rw [chunks_char h, List.flatMap_cons, ih]
    exact (headChar_some h).symm
  | bad b bs h ih =>
    rw [chunks_bad h, List.flatMap_cons, ih]
    exact List.take_append_drop _ _

/-- A bad chunk has one to three bytes. -/
theorem bad_length {bs p : Bytes} (h : .bad p ∈ chunks bs) : 1 ≤ p.length ∧ p.length ≤ 3 := by
  induction bs using chunk_induction with
  | nil => simp at h
  | char bs c hc ih =>
    rw [chunks_char hc] at h
    exact ih (by simpa using h)
  | bad b bs hc ih =>
    rw [chunks_bad hc, List.mem_cons] at h
    rcases h with h | h
    · have := badLength_pos b bs
      have := badLength_le (b :: bs)
      have := badLength_le_length (b :: bs)
      simp only [Chunk.bad.injEq] at h
      rw [h, List.length_take]
      omega
    · exact ih h

/-! ## Well-formed bytes -/

theorem utf8_ofList (l : List Char) : utf8 (String.ofList l) = l.flatMap String.utf8EncodeChar := by
  simp [utf8]

theorem wellFormed_utf8 (s : String) : WellFormed (utf8 s) := ⟨s.toList, rfl⟩

theorem chunks_encode (l : List Char) : chunks (l.flatMap String.utf8EncodeChar) = l.map .char := by
  induction l with
  | nil => rfl
  | cons c l ih =>
    rw [List.flatMap_cons, chunks_char (headChar_encode c _), List.drop_left' (String.length_utf8EncodeChar c), ih]
    rfl

/-- Decoding an encoded string gives it back. -/
theorem lossy_utf8 (s : String) : lossy (utf8 s) = s := by
  rw [lossy, utf8, chunks_encode, List.map_map]
  conv_rhs => rw [← String.ofList_toList (s := s)]
  congr 1
  exact List.map_id _

/-- Decoding loses nothing exactly on well-formed bytes. -/
theorem utf8_lossy_iff (bs : Bytes) : utf8 (lossy bs) = bs ↔ WellFormed bs := by
  constructor
  · intro h
    rw [← h]
    exact wellFormed_utf8 _
  · rintro ⟨l, rfl⟩
    rw [← utf8_ofList, lossy_utf8]

/-- The bytes are well formed exactly if they split into characters. -/
theorem wellFormed_iff_chunks (bs : Bytes) : WellFormed bs ↔ ∀ x ∈ chunks bs, x.isChar = true := by
  constructor
  · rintro ⟨l, rfl⟩ x hx
    rw [chunks_encode] at hx
    obtain ⟨c, -, rfl⟩ := List.mem_map.1 hx
    rfl
  · intro h
    refine ⟨(chunks bs).map Chunk.toChar, ?_⟩
    rw [List.flatMap_map]
    conv_lhs => rw [← chunks_bytes bs]
    refine List.flatMap_congr fun x hx => ?_
    cases x with
    | char c => rfl
    | bad p => exact absurd (h _ hx) (by simp [Chunk.isChar])

instance (bs : Bytes) : Decidable (WellFormed bs) := decidable_of_iff _ (wellFormed_iff_chunks bs).symm

/-! ## Lengths -/

/-- Decoding adds `growth` bytes. -/
theorem lossy_length (bs : Bytes) : (utf8 (lossy bs)).length = bs.length + growth bs := by
  -- The characters' bytes cancel chunk by chunk; U+FFFD has three.
  have key : ∀ l : List Chunk, (∀ p, .bad p ∈ l → p.length ≤ 3) →
      ((l.map Chunk.toChar).flatMap String.utf8EncodeChar).length =
        (l.flatMap Chunk.bytes).length + l.foldr (fun c n => c.growth + n) 0 := by
    intro l
    induction l with
    | nil => intro _; rfl
    | cons x l ih =>
      intro hl
      have ih := ih fun p hp => hl p (List.mem_cons_of_mem _ hp)
      simp only [List.map_cons, List.flatMap_cons, List.length_append, List.foldr_cons, ih]
      cases x with
      | char c => simp only [Chunk.toChar, Chunk.bytes, Chunk.growth]; omega
      | bad p =>
        have h3 : (String.utf8EncodeChar replacement).length = 3 := by decide
        have := hl p List.mem_cons_self
        simp only [Chunk.toChar, Chunk.bytes, Chunk.growth, h3]
        omega
  rw [lossy, utf8_ofList, key _ fun p hp => (bad_length hp).2, chunks_bytes]
  rfl

theorem growth_wellFormed {bs : Bytes} (h : WellFormed bs) : growth bs = 0 := by
  have := lossy_length bs
  rw [(utf8_lossy_iff bs).2 h] at this
  omega

example : lossy [0x66, 0xFF, 0xF0, 0x9F, 0x98, 0x67] = "f\uFFFD\uFFFDg" := by decide

end LuauFusion.Lib.Utf8
