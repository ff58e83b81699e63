import LuauFusion.TextEncoding
/-!
# Encoding into a buffer

Both ops write as many whole code points as fit. The slow one says how many units they
were, and so does the fast one, except that for a borrowed string it counts their bytes:
`encodeInto` comes to the same exactly if these are ASCII (`encodeInto_agrees`), and a
script that encodes piece by piece loses nothing exactly if they are in each call or the
string is at its end (`pieces_encode`).
-/
open LuauFusion.Lib LuauFusion.Lib.Utf8 LuauFusion.Lib.Utf16

namespace LuauFusion.TextEncoding

/-! ## The fast op -/

theorem findBoundary_from (a b : List Char) {c : Char} {k turns : Nat} (hk : k < c.utf8Size) (ht : k < turns) :
    findBoundary (encodeChars (a ++ c :: b)) turns ((encodeChars a).length + k) = some (encodeChars a).length := by
  induction k generalizing turns with
  | zero =>
    obtain ⟨turns, rfl⟩ : ∃ n, turns = n + 1 := ⟨turns - 1, by omega⟩
    show (if isCharBoundary _ (encodeChars a).length = true then some (encodeChars a).length else _) = _
    rw [if_pos (boundary_start a (c :: b))]
  | succ k ih =>
    obtain ⟨turns, rfl⟩ : ∃ n, turns = n + 1 := ⟨turns - 1, by omega⟩
    have hinside := boundary_inside a b (Nat.succ_pos k) hk
    rw [findBoundary, hinside, if_neg (by simp), if_neg (by omega)]
    exact ih (by omega) (by omega)

/-- Four turns are enough, and no assertion fails. -/
theorem findBoundary_fitting {cs : List Char} {n : Nat} (h : n < (encodeChars cs).length) :
    findBoundary (encodeChars cs) 4 n = some (encodeChars (fitting n cs)).length := by
  obtain ⟨rest, hcs, hle, hfull⟩ := fitting_spec n cs
  cases rest with
  | nil =>
    rw [List.append_nil] at hcs
    rw [← hcs] at hle
    omega
  | cons c rest =>
    have hsize := hfull c rfl
    have hfour := c.utf8Size_le_four
    obtain ⟨k, hk⟩ : ∃ k, n = (encodeChars (fitting n cs)).length + k := ⟨n - (encodeChars (fitting n cs)).length, by omega⟩
    have hturns : k < 4 := by omega
    have hfound := findBoundary_from (fitting n cs) rest (show k < c.utf8Size by omega) hturns
    rwa [← hcs, ← hk] at hfound

theorem boundaryIn_fitting (cs : List Char) (room : Nat) :
    boundaryIn (encodeChars cs) room = some (encodeChars (fitting room cs)).length := by
  unfold boundaryIn
  split
  · next hall => rw [fitting_all hall]
  · next hall =>
    obtain ⟨rest, hcs, -⟩ := fitting_spec room cs
    have hstart := boundary_start (fitting room cs) rest
    rw [← hcs] at hstart
    rw [findBoundary_fitting (Nat.lt_of_not_le hall)]
    exact if_pos hstart

theorem charsTo_fitting (cs : List Char) (room : Nat) :
    charsTo cs (encodeChars (fitting room cs)).length = some (fitting room cs) := by
  obtain ⟨rest, hcs, -⟩ := fitting_spec room cs
  have hslice := charsTo_append (fitting room cs) rest
  rwa [← hcs] at hslice

/-- What the op calls the units of `v`. -/
def CowStr.unitsOf (input : CowStr) (v : List Char) : Nat :=
  match input with
  | borrowed _ => (encodeChars v).length
  | owned _ => (Utf16.encode v).length

/-- The op leaves the characters that fit, and never panics. -/
theorem fast_fitting (input : CowStr) (buffer : Bytes) :
    opEncodingEncodeIntoFast input buffer =
      some ⟨encodeChars (fitting buffer.length input.chars) ++
          buffer.drop (encodeChars (fitting buffer.length input.chars)).length,
        input.unitsOf (fitting buffer.length input.chars) % 2 ^ 32,
        (encodeChars (fitting buffer.length input.chars)).length % 2 ^ 32⟩ := by
  obtain ⟨rest, -, hle, -⟩ := fitting_spec buffer.length input.chars
  unfold opEncodingEncodeIntoFast
  simp only [boundaryIn_fitting, charsTo_fitting, if_pos hle]
  cases input <;> rfl

/-! ## Bytes and units -/

/-- Of a character's bytes, no more are units, and as many are exactly in ASCII. -/
theorem char_units (c : Char) :
    (encodeChar c).length ≤ c.utf8Size ∧ (c.utf8Size = (encodeChar c).length ↔ c.toNat < 128) := by
  have hv : c.toNat = c.val.toNat := rfl
  have hone := Char.utf8Size_eq_one_iff (c := c)
  have hfour := Char.utf8Size_eq_four_iff (c := c)
  rw [UInt32.le_iff_toNat_le] at hone
  rw [UInt32.lt_iff_toNat_lt] at hfour
  simp only [UInt32.reduceToNat] at hone hfour
  have hpos := c.utf8Size_pos
  unfold encodeChar
  split
  · rw [List.length_singleton]
    omega
  · simp only [List.length_cons, List.length_nil]
    omega

theorem chars_units (cs : List Char) :
    (Utf16.encode cs).length ≤ (encodeChars cs).length ∧
      ((encodeChars cs).length = (Utf16.encode cs).length ↔ ∀ c ∈ cs, c.toNat < 128) := by
  induction cs with
  | nil => exact ⟨Nat.le_refl _, by simp⟩
  | cons c cs ih =>
    obtain ⟨hle, hiff⟩ := char_units c
    rw [encodeChars_cons, Utf16.encode, List.flatMap_cons, ← Utf16.encode, List.length_append, List.length_append,
      String.length_utf8EncodeChar, List.forall_mem_cons, ← hiff, ← ih.2]
    omega

/-! ## Both ops -/

/-- What V8 documents: it writes whole code points, as many as fit, and counts their units. -/
structure Lawful (write : WriteUtf8) : Prop where
  writes : ∀ us room, ∃ a b, us = a ++ b ∧ Utf16.decode us = Utf16.decode a ++ Utf16.decode b ∧
    write us room = (coreEncode a, a.length) ∧ (coreEncode a).length ≤ room ∧
    ∀ c ∈ (Utf16.decode b).head?, room < (coreEncode a).length + c.utf8Size

/-- What V8 documents, and no more. -/
def writeFitting : WriteUtf8 := fun us room =>
  (encodeChars (fitting room (Utf16.decode us)), (Utf16.encode (fitting room (Utf16.decode us))).length)

theorem writeFitting_lawful : Lawful writeFitting where
  writes us room := by
    obtain ⟨rest, hcs, hle, hfull⟩ := fitting_spec room (Utf16.decode us)
    obtain ⟨a, b, rfl, ha, rfl⟩ := decode_split hcs
    refine ⟨a, b, rfl, by rw [ha]; exact hcs, ?_, ?_, ?_⟩
    · rw [writeFitting, ← ha, encode_decode_length]
      rfl
    · rwa [coreEncode, ha]
    · rwa [coreEncode, ha]

/-- `éabc`, which is one byte a character to V8 and five bytes of UTF-8. -/
def latinUnits : Units := [0xE9, 0x61, 0x62, 0x63]

theorem coreEncode_length (us : Units) : (coreEncode us).length ≤ 3 * us.length := by
  have hsingle : ∀ u, (single u).utf8Size ≤ 3 := by
    intro u
    have hlt := single_lt u
    by_contra hsize
    have hfour : (single u).utf8Size = 4 := by
      have hle := (single u).utf8Size_le_four
      omega
    rw [Char.utf8Size_eq_four_iff, UInt32.lt_iff_toNat_lt] at hfour
    have hv : (single u).toNat = (single u).val.toNat := rfl
    simp only [UInt32.reduceToNat] at hfour
    omega
  unfold coreEncode
  induction us using decode.induct with
  | case1 => exact Nat.zero_le _
  | case2 u =>
    have hu := hsingle u
    simpa [Utf16.decode] using hu
  | case3 u v us hp ih =>
    have hp := hp
    rw [Bool.and_eq_true] at hp
    have hle := (pair u v).utf8Size_le_four
    rw [decode_pair hp.1 hp.2, encodeChars_cons, List.length_append, String.length_utf8EncodeChar, List.length_cons,
      List.length_cons]
    omega
  | case4 u v us hp ih =>
    have hu := hsingle u
    rw [Utf16.decode, if_neg hp, encodeChars_cons, List.length_append, String.length_utf8EncodeChar, List.length_cons]
    omega

/-- The units of the code points that fit are those that V8 wrote. -/
theorem Lawful.fitting {write : WriteUtf8} (hw : Lawful write) (us : Units) (room : Nat) :
    ∃ a b, us = a ++ b ∧ Utf16.decode us = Utf16.decode a ++ Utf16.decode b ∧ write us room = (coreEncode a, a.length) ∧
      Utf8.fitting room (Utf16.decode us) = Utf16.decode a ∧ (Utf16.decode b = [] ∨ room < (coreEncode a).length + 4) := by
  obtain ⟨a, b, hus, hdecode, hwrite, hle, hfull⟩ := hw.writes us room
  refine ⟨a, b, hus, hdecode, hwrite, hdecode ▸ fitting_eq hle hfull, ?_⟩
  cases hb : Utf16.decode b with
  | nil => exact .inl rfl
  | cons c cs =>
    have hc := hfull c (by rw [hb]; rfl)
    have hfour := c.utf8Size_le_four
    exact .inr (by omega)

/-- What the op calls its units: as many as there are, or more. -/
theorem unitsOf_spec (input : CowStr) (a : Units) :
    a.length ≤ input.unitsOf (Utf16.decode a) ∧ input.unitsOf (Utf16.decode a) ≤ 3 * a.length ∧
      (input.unitsOf (Utf16.decode a) = a.length ↔ ∀ v, input = .borrowed v → ∀ c ∈ Utf16.decode a, c.toNat < 128) := by
  have hlength := encode_decode_length a
  cases input with
  | owned v =>
    rw [CowStr.unitsOf, hlength]
    exact ⟨Nat.le_refl _, by omega, iff_of_true rfl fun _ h => by cases h⟩
  | borrowed v =>
    obtain ⟨hle, hiff⟩ := chars_units (Utf16.decode a)
    rw [hlength] at hle hiff
    refine ⟨hle, coreEncode_length a, hiff.trans ⟨fun h _ _ => h, fun h => h v rfl⟩⟩

/-- Both ops take the units of the code points that fit. -/
theorem ops_spec {write : WriteUtf8} (hw : Lawful write) {us : Units} (hlen : us.length < 2 ^ 29) (buffer : Bytes) :
    ∃ a b, us = a ++ b ∧ coreEncode us = coreEncode a ++ coreEncode b ∧ (coreEncode a).length ≤ buffer.length ∧
      (b = [] ∨ buffer.length < (coreEncode a).length + 4) ∧
      fitting buffer.length (Utf16.decode us) = Utf16.decode a ∧
      opEncodingEncodeInto write us buffer =
        ⟨coreEncode a ++ buffer.drop (coreEncode a).length, a.length, (coreEncode a).length⟩ ∧
      ∀ input : CowStr, input.chars = Utf16.decode us → opEncodingEncodeIntoFast input buffer =
        some ⟨coreEncode a ++ buffer.drop (coreEncode a).length, input.unitsOf (Utf16.decode a), (coreEncode a).length⟩ := by
  obtain ⟨a, b, hus, hdecode, hwrite, hfit, hfull⟩ := hw.fitting us buffer.length
  have hbytes := coreEncode_length a
  have ha : a.length ≤ us.length := by
    rw [hus, List.length_append]
    omega
  refine ⟨a, b, hus, ?_, ?_, ?_, hfit, ?_, fun input hin => ?_⟩
  · rw [coreEncode, hdecode, encodeChars_append]
    rfl
  · obtain ⟨rest, -, hle, -⟩ := fitting_spec buffer.length (Utf16.decode us)
    rwa [hfit] at hle
  · refine hfull.imp_left fun hb => ?_
    have hzero := encode_decode_length b
    rw [hb] at hzero
    exact List.length_eq_zero_iff.1 hzero.symm
  · rw [opEncodingEncodeInto, hwrite]
    simp only [Nat.mod_eq_of_lt (show a.length < 2 ^ 32 by omega), Nat.mod_eq_of_lt (show (coreEncode a).length < 2 ^ 32 by omega)]
  · have hread : input.unitsOf (Utf16.decode a) < 2 ^ 32 := by
      have hmost := (unitsOf_spec input a).2.1
      omega
    have hwritten : (encodeChars (Utf16.decode a)).length < 2 ^ 32 := Nat.lt_of_le_of_lt hbytes (by omega)
    rw [fast_fitting, hin, hfit, Nat.mod_eq_of_lt hread, Nat.mod_eq_of_lt hwritten]
    rfl

/-- For every string and every buffer: both ops, and the fast one's assertions hold and
its slices are in bounds, leave the encoding of the first units, up to the last code
point that fits, and the rest of the buffer as it was. They say that they read the same
exactly if no string was borrowed or what they took is ASCII. -/
theorem encodeInto_agrees {write : WriteUtf8} (hw : Lawful write) {us : Units} (hlen : us.length < 2 ^ 29) {input : CowStr}
    (hin : input.chars = Utf16.decode us) (buffer : Bytes) :
    ∃ a b read, us = a ++ b ∧ coreEncode us = coreEncode a ++ coreEncode b ∧ (coreEncode a).length ≤ buffer.length ∧
      (b = [] ∨ buffer.length < (coreEncode a).length + 4) ∧
      opEncodingEncodeInto write us buffer =
        ⟨coreEncode a ++ buffer.drop (coreEncode a).length, a.length, (coreEncode a).length⟩ ∧
      opEncodingEncodeIntoFast input buffer =
        some ⟨coreEncode a ++ buffer.drop (coreEncode a).length, read, (coreEncode a).length⟩ ∧
      (read = a.length ↔ ∀ v, input = .borrowed v → ∀ c ∈ Utf16.decode a, c.toNat < 128) := by
  obtain ⟨a, b, hus, hencode, hle, hfull, -, hslow, hfast⟩ := ops_spec hw hlen buffer
  exact ⟨a, b, _, hus, hencode, hle, hfull, hslow, hfast input hin, (unitsOf_spec input a).2.2⟩

/-- Borrowed, its first three characters are read as four. -/
theorem encodeInto_agrees_latin :
    ∃ read, opEncodingEncodeIntoFast (.borrowed (Utf16.decode latinUnits)) [0, 0, 0, 0] =
        some { opEncodingEncodeInto writeFitting latinUnits [0, 0, 0, 0] with read := read } ∧
      read ≠ (opEncodingEncodeInto writeFitting latinUnits [0, 0, 0, 0]).read := by
  have hthree : (opEncodingEncodeInto writeFitting latinUnits [0, 0, 0, 0]).read = 3 := by decide
  obtain ⟨a, b, read, hus, -, -, -, hslow, hfast, hiff⟩ := encodeInto_agrees writeFitting_lawful
    (show latinUnits.length < 2 ^ 29 by decide) (show (CowStr.borrowed (Utf16.decode latinUnits)).chars = _ from rfl) [0, 0, 0, 0]
  rw [hslow] at hthree ⊢
  refine ⟨read, hfast, fun hread => ?_⟩
  have ha : a = [0xE9, 0x61, 0x62] := by
    have htake := congrArg (List.take 3) hus
    rw [← show a.length = 3 from hthree, List.take_left, show a.length = 3 from hthree] at htake
    exact htake.symm
  have hascii := hiff.1 hread _ rfl 'é'
  rw [ha] at hascii
  exact absurd (hascii (by decide)) (by decide)

/-! ## Piece by piece -/

/-- The op that V8 takes for a call, and the string it makes for the fast one. -/
inductive Pick where
  | slow
  | borrowed
  | owned
  deriving DecidableEq

def callOp (write : WriteUtf8) (pick : Pick) (us : Units) (buffer : Bytes) : Option EncodeInto :=
  match pick with
  | .slow => some (opEncodingEncodeInto write us buffer)
  | .borrowed => opEncodingEncodeIntoFast (.borrowed (Utf16.decode us)) buffer
  | .owned => opEncodingEncodeIntoFast (.owned (Utf16.decode us)) buffer

/-- What a script gathers that encodes what is left of a string into one buffer after
the other, and what is left then. -/
def pieces (write : WriteUtf8) (us : Units) : List (Pick × Bytes) → Option (Bytes × Units)
  | [] => some ([], us)
  | (pick, buffer) :: calls =>
    match callOp write pick us buffer with
    | none => none
    | some r => (pieces write (us.drop r.read) calls).map fun (bytes, rest) => (r.buffer.take r.written ++ bytes, rest)

/-- A borrowed string is ASCII as far as it fits, or fits as a whole. -/
def Keeps (us : Units) : List (Pick × Bytes) → Prop
  | [] => True
  | (pick, buffer) :: calls =>
    let v := fitting buffer.length (Utf16.decode us)
    (pick = .borrowed → (∀ c ∈ v, c.toNat < 128) ∨ v = Utf16.decode us) ∧ Keeps (us.drop (Utf16.encode v).length) calls

/-- What a call comes to. -/
theorem call_spec {write : WriteUtf8} (hw : Lawful write) {us : Units} (hlen : us.length < 2 ^ 29) (pick : Pick) (buffer : Bytes) :
    ∃ a b r, us = a ++ b ∧ coreEncode us = coreEncode a ++ coreEncode b ∧ (b = [] ∨ buffer.length < (coreEncode a).length + 4) ∧
      fitting buffer.length (Utf16.decode us) = Utf16.decode a ∧ callOp write pick us buffer = some r ∧
      r.buffer.take r.written = coreEncode a ∧ a.length ≤ r.read ∧
      (r.read = a.length ↔ (pick = .borrowed → ∀ c ∈ Utf16.decode a, c.toNat < 128)) := by
  obtain ⟨a, b, hus, hencode, -, hfull, hfit, hslow, hfast⟩ := ops_spec hw hlen buffer
  cases pick with
  | slow =>
    refine ⟨a, b, _, hus, hencode, hfull, hfit, congrArg some hslow, List.take_left, Nat.le_refl _, ?_⟩
    exact iff_of_true rfl fun h => by cases h
  | borrowed =>
    obtain ⟨hle, -, hiff⟩ := unitsOf_spec (.borrowed (Utf16.decode us)) a
    refine ⟨a, b, _, hus, hencode, hfull, hfit, hfast (.borrowed _) rfl, List.take_left, hle, hiff.trans ?_⟩
    exact ⟨fun h _ => h _ rfl, fun h _ _ => h rfl⟩
  | owned =>
    obtain ⟨hle, -, hiff⟩ := unitsOf_spec (.owned (Utf16.decode us)) a
    refine ⟨a, b, _, hus, hencode, hfull, hfit, hfast (.owned _) rfl, List.take_left, hle, hiff.trans ?_⟩
    exact iff_of_true (fun _ h => by cases h) fun h => by cases h

/-- Fewer units have fewer bytes. -/
theorem coreEncode_cons_lt (u : UInt16) (us : Units) : (coreEncode us).length < (coreEncode (u :: us)).length := by
  unfold coreEncode
  cases us with
  | nil =>
    have hpos := (single u).utf8Size_pos
    simpa [Utf16.decode] using hpos
  | cons v us =>
    by_cases hp : isHigh u = true ∧ isLow v = true
    · -- Half of a pair is three bytes of its four.
      obtain ⟨hu, hv⟩ := hp
      have hhigh : isHigh v = true → ∀ w ∈ us.head?, isLow w = false := by
        intro h
        rw [isLow, decide_eq_true_eq] at hv
        rw [isHigh, decide_eq_true_eq] at h
        omega
      have hthree : (single v).utf8Size < 4 := by
        rw [single, hv, Bool.or_true, if_pos rfl]
        decide
      have hfour : (pair u v).utf8Size = 4 := by
        rw [Char.utf8Size_eq_four_iff, UInt32.lt_iff_toNat_lt]
        exact pair_ge u v hu hv
      rw [decode_pair hu hv, decode_single hhigh, encodeChars_cons, encodeChars_cons, List.length_append, List.length_append,
        String.length_utf8EncodeChar, String.length_utf8EncodeChar]
      omega
    · have hpos := (single u).utf8Size_pos
      have hsingle : isHigh u = true → ∀ w ∈ (v :: us).head?, isLow w = false := by
        rintro hu w ⟨⟩
        exact Bool.eq_false_iff.2 fun hv => hp ⟨hu, hv⟩
      rw [decode_single hsingle, encodeChars_cons, List.length_append, String.length_utf8EncodeChar]
      omega

theorem coreEncode_drop_le (us : Units) (n : Nat) : (coreEncode (us.drop n)).length ≤ (coreEncode us).length := by
  induction us generalizing n with
  | nil => simp
  | cons u us ih =>
    cases n with
    | zero => exact Nat.le_refl _
    | succ n => exact Nat.le_trans (ih n) (Nat.le_of_lt (coreEncode_cons_lt u us))

theorem coreEncode_drop_lt {us : Units} (hne : us ≠ []) {n : Nat} (hn : 0 < n) :
    (coreEncode (us.drop n)).length < (coreEncode us).length := by
  obtain ⟨u, us, rfl⟩ := List.exists_cons_of_ne_nil hne
  obtain ⟨n, rfl⟩ : ∃ k, n = k + 1 := ⟨n - 1, by omega⟩
  exact Nat.lt_of_le_of_lt (coreEncode_drop_le us n) (coreEncode_cons_lt u us)

/-- Encoding a string piece by piece, whichever op each call takes and however long the
buffers are, loses nothing, repeats nothing and cuts no pair exactly if each borrowed
string is ASCII as far as it fits, or fits as a whole; and if only a code point always
fits, as many buffers as there are units are enough. -/
theorem pieces_encode {write : WriteUtf8} (hw : Lawful write) {us : Units} (hlen : us.length < 2 ^ 29)
    (calls : List (Pick × Bytes)) :
    ∃ bytes rest, pieces write us calls = some (bytes, rest) ∧
      (bytes ++ coreEncode rest = coreEncode us ↔ Keeps us calls) ∧
      (bytes ++ coreEncode rest).length ≤ (coreEncode us).length ∧
      ((∀ call ∈ calls, 4 ≤ call.2.length) → us.length ≤ calls.length → rest = []) := by
  induction calls generalizing us with
  | nil => exact ⟨[], us, rfl, iff_of_true rfl trivial, Nat.le_refl _, fun _ hle => List.length_eq_zero_iff.1 (Nat.le_zero.1 hle)⟩
  | cons call calls ih =>
    obtain ⟨pick, buffer⟩ := call
    obtain ⟨a, b, r, rfl, hencode, hfull, hfit, hcall, htake, hle, hread⟩ := call_spec hw hlen pick buffer
    obtain ⟨k, hk⟩ : ∃ k, r.read = a.length + k := ⟨r.read - a.length, by omega⟩
    have hdrop : (a ++ b).drop r.read = b.drop k := by rw [hk, ← List.drop_drop, List.drop_left]
    have hb : (b.drop k).length < 2 ^ 29 := by
      rw [List.length_append] at hlen
      rw [List.length_drop]
      omega
    obtain ⟨bytes, rest, hpieces, hkeeps, hshort, hdone⟩ := ih hb
    refine ⟨coreEncode a ++ bytes, rest, ?_, ?_, ?_, fun hroom hlen => hdone (List.forall_mem_cons.1 hroom).2 ?_⟩
    · rw [pieces, hcall]
      simp only [hdrop, hpieces, htake, Option.map_some]
    · rw [Keeps, hfit, encode_decode_length, List.drop_left, hencode, List.append_assoc, List.append_cancel_left_eq]
      by_cases hlast : k = 0 ∨ b = []
      · -- What is left is what was not written.
        have hrest : b.drop k = b := by rcases hlast with rfl | rfl <;> simp
        rw [hrest] at hkeeps
        rw [hkeeps, iff_and_self]
        intro _ hpick
        rcases hlast with rfl | rfl
        · exact .inl (hread.1 hk hpick)
        · exact .inr (by rw [List.append_nil])
      · rw [not_or] at hlast
        have hshorter := coreEncode_drop_lt hlast.2 (Nat.pos_of_ne_zero hlast.1)
        refine iff_of_false (fun he => ?_) ?_
        · rw [he] at hshort
          omega
        · rintro ⟨hpick, -⟩
          have hmore : ¬ r.read = a.length := by omega
          rw [hread, Classical.not_imp] at hmore
          rcases hpick hmore.1 with hascii | hwhole
          · exact hmore.2 hascii
          · have hlengths := congrArg (fun cs => (Utf16.encode cs).length) hwhole
            simp only [encode_decode_length, List.length_append] at hlengths
            exact hlast.2 (List.length_eq_zero_iff.1 (by omega))
    · have hall := coreEncode_drop_le b k
      rw [List.length_append] at hshort ⊢
      rw [hencode, List.length_append, List.length_append]
      omega
    · -- A buffer of four bytes takes a unit, if one is left.
      rcases hfull with rfl | hfull
      · simp
      · have ha : a ≠ [] := by
          rintro rfl
          exact absurd hfull (Nat.not_lt.2 (List.forall_mem_cons.1 hroom).1)
        have hpos := List.length_pos_iff.2 ha
        rw [List.length_append, List.length_cons] at hlen
        rw [List.length_drop]
        omega

/-- Borrowed in the first call, its last character is lost. -/
theorem pieces_encode_latin :
    (∃ bytes rest, pieces writeFitting latinUnits [(.owned, [0, 0, 0, 0]), (.slow, [0, 0, 0, 0])] = some (bytes, rest) ∧
      bytes ++ coreEncode rest = coreEncode latinUnits) ∧
    ∃ bytes rest, pieces writeFitting latinUnits [(.borrowed, [0, 0, 0, 0]), (.slow, [0, 0, 0, 0])] = some (bytes, rest) ∧
      bytes ++ coreEncode rest ≠ coreEncode latinUnits := by
  have hlen : latinUnits.length < 2 ^ 29 := by decide
  constructor
  · obtain ⟨bytes, rest, h, hkeeps, -⟩ := pieces_encode writeFitting_lawful hlen [(.owned, [0, 0, 0, 0]), (.slow, [0, 0, 0, 0])]
    refine ⟨bytes, rest, h, hkeeps.2 ⟨?_, ?_, trivial⟩⟩
    · rintro ⟨⟩
    · rintro ⟨⟩
  · obtain ⟨bytes, rest, h, hkeeps, -⟩ := pieces_encode writeFitting_lawful hlen [(.borrowed, [0, 0, 0, 0]), (.slow, [0, 0, 0, 0])]
    refine ⟨bytes, rest, h, fun he => ?_⟩
    rcases (hkeeps.1 he).1 rfl with hascii | hwhole
    · exact absurd (hascii 'é' (by decide)) (by decide)
    · exact absurd hwhole (by decide)

end LuauFusion.TextEncoding
