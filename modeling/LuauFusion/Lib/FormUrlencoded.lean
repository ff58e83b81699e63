import Mathlib.Data.List.Basic
import LuauFusion.Lib.UrlPath
import LuauFusion.Lib.Utf8Fit
/-!
# `application/x-www-form-urlencoded`

The serializer and the parser of the URL standard: pairs of strings as a query.
The parser takes whatever bytes it is given; what the serializer writes, it reads
back (`parse_serialize`).
-/
open LuauFusion.Lib.Url LuauFusion.Lib.Utf8

namespace LuauFusion.Lib.Form

abbrev Pair := List Char × List Char

/-! ## Serializing -/

/-- The bytes that stand for themselves. -/
def unchanged (b : UInt8) : Bool :=
  (Char.ofNat b.toNat).isAlphanum || b ∈ [0x2A, 0x2D, 0x2E, 0x5F]

def serializeByte (b : UInt8) : List Char :=
  if b = 0x20 then ['+'] else if unchanged b then [Char.ofNat b.toNat] else percentByte b

def serializeString (s : List Char) : List Char := (s.flatMap String.utf8EncodeChar).flatMap serializeByte

def serializePair (p : Pair) : List Char := serializeString p.1 ++ '=' :: serializeString p.2

def serialize (ps : List Pair) : List Char := ['&'].intercalate (ps.map serializePair)

/-! ## Parsing -/

def hexValue (b : UInt8) : Option Nat :=
  if 0x30 ≤ b.toNat ∧ b.toNat ≤ 0x39 then some (b.toNat - 0x30)
  else if 0x41 ≤ b.toNat ∧ b.toNat ≤ 0x46 then some (b.toNat - 0x41 + 10)
  else if 0x61 ≤ b.toNat ∧ b.toNat ≤ 0x66 then some (b.toNat - 0x61 + 10)
  else none

/-- A percent sign that two hexadecimal digits do not follow is left as it is. -/
def percentDecode : Bytes → Bytes
  | b :: x :: y :: bs =>
    match b == 0x25, hexValue x, hexValue y with
    | true, some h, some l => UInt8.ofNat (h * 16 + l) :: percentDecode bs
    | _, _, _ => b :: percentDecode (x :: y :: bs)
  | bs => bs

def plusToSpace (bs : Bytes) : Bytes := bs.map fun b => if b = 0x2B then 0x20 else b

def parseString (bs : Bytes) : List Char := (lossy (percentDecode (plusToSpace bs))).toList

/-- Up to the first `=`, and past it. -/
def parsePair (bs : Bytes) : Pair :=
  (parseString (bs.takeWhile (· != 0x3D)), parseString ((bs.dropWhile (· != 0x3D)).drop 1))

def parse (bs : Bytes) : List Pair := ((bs.splitOn 0x26).filter (· ≠ [])).map parsePair

/-! ## One byte -/

/-- Letters, digits and the few signs that the serializer writes. -/
def Written (c : Char) : Prop := c.isAlphanum = true ∨ c ∈ ['*', '-', '.', '_', '+', '%']

set_option maxRecDepth 8000 in
theorem written_byte (b : UInt8) : ∀ c ∈ serializeByte b, Written c := by
  intro c hc
  unfold serializeByte at hc
  split at hc
  · rw [List.mem_singleton] at hc
    exact .inr (by simp [hc])
  · split at hc
    · next hu =>
      rw [List.mem_singleton] at hc
      subst hc
      unfold unchanged at hu
      rw [Bool.or_eq_true, decide_eq_true_eq] at hu
      rcases hu with hu | hu
      · exact .inl hu
      · simp only [List.mem_cons, List.not_mem_nil, or_false] at hu
        rcases hu with rfl | rfl | rfl | rfl <;> exact .inr (by decide)
    · have hm := percentByte_mem hc
      have hall : ("%0123456789ABCDEF".toList.all fun d => d.isAlphanum || d == '%') = true := by decide
      have hc := List.all_eq_true.1 hall c hm
      rw [Bool.or_eq_true, beq_iff_eq] at hc
      rcases hc with h | rfl
      · exact .inl h
      · exact .inr (by simp)

theorem Written.lt {c : Char} (h : Written c) : c.toNat < 128 := by
  rcases h with h | h
  · exact alphanum_lt h
  · simp only [List.mem_cons, List.not_mem_nil, or_false] at h
    rcases h with rfl | rfl | rfl | rfl | rfl | rfl <;> decide

theorem Written.ne {c : Char} (h : Written c) : c ≠ '&' ∧ c ≠ '=' := by
  refine ⟨?_, ?_⟩ <;>
    · rintro rfl
      rcases h with h | h
      · exact absurd h (by decide)
      · exact absurd h (by decide)

theorem written_string (s : List Char) : ∀ c ∈ serializeString s, Written c := by
  intro c hc
  obtain ⟨b, -, hb⟩ := List.mem_flatMap.1 hc
  exact written_byte b c hb

/-! ## Reading back -/

/-- The byte of an ASCII character. -/
def byteOf (c : Char) : UInt8 := .ofNat c.toNat

theorem percentDecode_cons {b : UInt8} (h : b ≠ 0x25) (bs : Bytes) : percentDecode (b :: bs) = b :: percentDecode bs := by
  have hb : (b == 0x25) = false := by simpa using h
  rcases bs with _ | ⟨x, _ | ⟨y, bs⟩⟩
  · rfl
  · rfl
  · rw [percentDecode, hb]

theorem toNat_ofByte (b : UInt8) : (Char.ofNat b.toNat).toNat = b.toNat := by
  have hb := b.toNat_lt
  have hv : b.toNat.isValidChar := .inl (by omega)
  rw [Char.ofNat, dif_pos hv]
  rfl

theorem byteOf_ofNat (b : UInt8) : byteOf (Char.ofNat b.toNat) = b := by
  rw [byteOf, toNat_ofByte]
  exact UInt8.ofNat_toNat

theorem unchanged_ne {b : UInt8} (h : unchanged b = true) : b ≠ 0x25 ∧ b ≠ 0x2B := by
  refine ⟨?_, ?_⟩ <;>
    · rintro rfl
      revert h
      decide

/-- A digit is no plus and stands for its value. -/
theorem hexDigit_byte {n : Nat} (h : n < 16) : byteOf (hexDigit n) ≠ 0x2B ∧ hexValue (byteOf (hexDigit n)) = some n := by
  have hall : ∀ n < 16, byteOf (hexDigit n) ≠ 0x2B ∧ hexValue (byteOf (hexDigit n)) = some n := by decide
  exact hall n h

theorem plusToSpace_cons {b : UInt8} (h : b ≠ 0x2B) (bs : Bytes) : plusToSpace (b :: bs) = b :: plusToSpace bs := by
  rw [plusToSpace, List.map_cons, if_neg h]
  rfl

theorem decode_byte (b : UInt8) (bs : Bytes) :
    percentDecode (plusToSpace ((serializeByte b).map byteOf ++ bs)) = b :: percentDecode (plusToSpace bs) := by
  unfold serializeByte
  split
  · next hspace =>
    subst hspace
    exact percentDecode_cons (by decide) _
  · split
    · next hu =>
      obtain ⟨hpercent, hplus⟩ := unchanged_ne hu
      rw [List.map_singleton, byteOf_ofNat, List.singleton_append, plusToSpace_cons hplus, percentDecode_cons hpercent]
    · have hb := b.toNat_lt
      obtain ⟨hh, hhv⟩ := hexDigit_byte (n := b.toNat / 16) (by omega)
      obtain ⟨hl, hlv⟩ := hexDigit_byte (n := b.toNat % 16) (by omega)
      show percentDecode (plusToSpace (0x25 :: byteOf _ :: byteOf _ :: bs)) = _
      rw [plusToSpace_cons (by decide), plusToSpace_cons hh, plusToSpace_cons hl, percentDecode, hhv, hlv]
      have hsum : b.toNat / 16 * 16 + b.toNat % 16 = b.toNat := by omega
      simp only [beq_self_eq_true, hsum]
      rw [UInt8.ofNat_toNat]

theorem decode_bytes (bs : Bytes) : percentDecode (plusToSpace ((bs.flatMap serializeByte).map byteOf)) = bs := by
  induction bs with
  | nil => rfl
  | cons b bs ih => rw [List.flatMap_cons, List.map_append, decode_byte, ih]

theorem parse_string (s : List Char) : parseString ((serializeString s).map byteOf) = s := by
  have hl := lossy_utf8 (String.ofList s)
  rw [utf8_ofList] at hl
  rw [parseString, serializeString, decode_bytes, hl, String.toList_ofList]

/-- What is written is neither of the two separators. -/
theorem byteOf_ne {s : List Char} {b : UInt8} (h : b ∈ (serializeString s).map byteOf) : b ≠ 0x26 ∧ b ≠ 0x3D := by
  obtain ⟨c, hc, rfl⟩ := List.mem_map.1 h
  have hw := written_string s c hc
  have hlt := hw.lt
  obtain ⟨hamp, heq⟩ := hw.ne
  have hback : ∀ n < 128, (n = 38 → Char.ofNat n = '&') ∧ (n = 61 → Char.ofNat n = '=') := by
    intro n _
    constructor <;> rintro rfl <;> rfl
  have hnat : ∀ n : Nat, n < 128 → byteOf c = UInt8.ofNat n → c.toNat = n := by
    intro n hn he
    have := congrArg UInt8.toNat he
    simp only [byteOf, UInt8.toNat_ofNat'] at this
    omega
  constructor
  · intro he
    apply hamp
    rw [← Char.ofNat_toNat c]
    exact (hback _ hlt).1 (hnat 38 (by omega) he)
  · intro he
    apply heq
    rw [← Char.ofNat_toNat c]
    exact (hback _ hlt).2 (hnat 61 (by omega) he)

theorem map_pair (p : Pair) : (serializePair p).map byteOf =
    (serializeString p.1).map byteOf ++ 0x3D :: (serializeString p.2).map byteOf := by
  rw [serializePair, List.map_append]
  rfl

theorem parse_pair (p : Pair) : parsePair ((serializePair p).map byteOf) = p := by
  have hname : ∀ b ∈ (serializeString p.1).map byteOf, (b != 0x3D) = true := by
    intro b hb
    simpa using (byteOf_ne hb).2
  rw [map_pair, parsePair, List.takeWhile_append_of_pos hname, List.dropWhile_append_of_pos hname,
    List.takeWhile_cons_of_neg (by simp), List.dropWhile_cons_of_neg (by simp), List.append_nil, parse_string,
    List.drop_one, List.tail_cons, parse_string]

theorem map_intercalate {α β : Type} (f : α → β) (sep : List α) (l : List (List α)) :
    (sep.intercalate l).map f = (sep.map f).intercalate (l.map (List.map f)) := by
  induction l with
  | nil => rfl
  | cons x l ih =>
    cases l with
    | nil => simp
    | cons y l =>
      rw [List.intercalate_cons_cons, List.map_append, List.map_append, ih]
      exact List.intercalate_cons_cons.symm

/-- Reading what was written gives the pairs back. -/
theorem parse_serialize (ps : List Pair) : parse ((serialize ps).map byteOf) = ps := by
  rw [serialize, map_intercalate, List.map_map]
  by_cases hps : ps = []
  · rw [hps]
    rfl
  have hfree : ∀ l ∈ ps.map (List.map byteOf ∘ serializePair), (0x26 : UInt8) ∉ l := by
    intro l hl hin
    obtain ⟨p, -, rfl⟩ := List.mem_map.1 hl
    rw [Function.comp, map_pair, List.mem_append, List.mem_cons] at hin
    rcases hin with hin | hin | hin
    · exact (byteOf_ne hin).1 rfl
    · exact absurd hin (by decide)
    · exact (byteOf_ne hin).1 rfl
  have hfull : ∀ l ∈ ps.map (List.map byteOf ∘ serializePair), decide (l ≠ []) = true := by
    intro l hl
    obtain ⟨p, -, rfl⟩ := List.mem_map.1 hl
    rw [Function.comp, map_pair]
    simp
  have hsep : ['&'].map byteOf = [0x26] := rfl
  rw [parse, hsep, List.splitOn_intercalate _ hfree (by simpa using hps), List.filter_eq_self.2 hfull, List.map_map]
  conv_rhs => rw [← List.map_id ps]
  apply List.map_congr_left
  intro p _
  exact parse_pair p

/-! ## What is written -/

theorem serialize_written (ps : List Pair) : ∀ c ∈ serialize ps, Written c ∨ c = '&' ∨ c = '=' := by
  intro c hc
  rcases mem_intercalate hc with rfl | ⟨s, hs, hc⟩
  · exact .inr (.inl rfl)
  · obtain ⟨p, -, rfl⟩ := List.mem_map.1 hs
    rw [serializePair, List.mem_append, List.mem_cons] at hc
    rcases hc with hc | rfl | hc
    · exact .inl (written_string _ c hc)
    · exact .inr (.inr rfl)
    · exact .inl (written_string _ c hc)

end LuauFusion.Lib.Form
