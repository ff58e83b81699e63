import LuauFusion.TextEncoding
/-!
# Encoding and decoding in chunks

However a text is cut into chunks, `TextEncoderStream` enqueues its encoding
(`output_encode`), and a `TextDecoder` that streams gives what it gives for all of it
at once, which other ops compute (`decode_stream`).
-/
open LuauFusion.Lib LuauFusion.Lib.Utf8 LuauFusion.Lib.Utf16

namespace LuauFusion.TextEncoding

/-! ## Encoding -/

theorem coreEncode_append {a b : Units} (h : ∀ u ∈ a.getLast?, isHigh u = true → ∀ v ∈ b.head?, isLow v = false) :
    coreEncode (a ++ b) = coreEncode a ++ coreEncode b := by
  rw [coreEncode, decode_append h, encodeChars_append]
  rfl

theorem not_low {u : UInt16} (h : isHigh u = true) : isLow u = false := by
  rw [isHigh, decide_eq_true_eq] at h
  rw [isLow, decide_eq_false_iff_not]
  omega

theorem coreEncode_high {u : UInt16} (h : isHigh u = true) : coreEncode [u] = [0xEF, 0xBF, 0xBD] := by
  have hsingle : Utf16.decode [u] = ['\uFFFD'] := by
    rw [Utf16.decode, single, h]
    rfl
  rw [coreEncode, hsingle]
  rfl

theorem coreEncode_ne_nil {us : Units} (h : us ≠ []) : coreEncode us ≠ [] := by
  intro hnil
  have hlen := encode_decode_length us
  cases hd : Utf16.decode us with
  | nil =>
    rw [hd] at hlen
    exact h (List.length_eq_zero_iff.1 hlen.symm)
  | cons c cs =>
    rw [coreEncode, hd, encodeChars_cons] at hnil
    exact String.utf8EncodeChar_ne_nil (List.append_eq_nil_iff.1 hnil).1

namespace TextEncoderStream

/-- What is pending is a high surrogate. -/
def Holds (s : TextEncoderStream) : Prop := ∀ u ∈ s.pendingHighSurrogate, isHigh u = true

/-- A chunk enqueues the encoding of what came before but for what is pending. -/
theorem transform_spec {s : TextEncoderStream} (h : s.Holds) (chunk rest : Units) :
    (s.transform chunk).1.Holds ∧ (∀ piece ∈ (s.transform chunk).2, piece ≠ []) ∧
      (s.transform chunk).2.flatten ++ coreEncode ((s.transform chunk).1.pendingHighSurrogate.toList ++ rest) =
        coreEncode (s.pendingHighSurrogate.toList ++ chunk ++ rest) := by
  unfold transform
  by_cases hempty : chunk = []
  · rw [if_pos hempty, hempty, List.append_nil]
    exact ⟨h, by simp, rfl⟩
  · rw [if_neg hempty]
    generalize s.pendingHighSurrogate.toList = pending
    obtain ⟨us, last, hlast⟩ : ∃ us last, pending ++ chunk = us ++ [last] := by
      have hne : pending ++ chunk ≠ [] := by simp [hempty]
      exact ⟨_, _, (List.dropLast_append_getLast hne).symm⟩
    simp only [hlast, List.getLast?_append, List.getLast?_singleton, Option.some_or, List.dropLast_concat]
    by_cases hhigh : isHigh last = true
    · have hcut : coreEncode (us ++ [last] ++ rest) = coreEncode us ++ coreEncode ([last] ++ rest) := by
        rw [List.append_assoc]
        refine coreEncode_append fun _ _ _ v hv => ?_
        obtain rfl : last = v := by simpa using hv
        exact not_low hhigh
      simp only [hhigh, if_true, Option.toList_some, hcut]
      refine ⟨?_, ?_, ?_⟩
      · rintro u ⟨⟩
        exact hhigh
      · split
        · simp
        · next hus => simpa using coreEncode_ne_nil hus
      · split
        · next hus => rw [hus]; rfl
        · simp
    · have hcut : coreEncode (us ++ [last] ++ rest) = coreEncode (us ++ [last]) ++ coreEncode rest := by
        refine coreEncode_append fun u hu hhu => ?_
        obtain rfl : last = u := by simpa using hu
        exact absurd hhu hhigh
      simp only [hhigh, hcut]
      refine ⟨by rintro u ⟨⟩, ?_, by simp⟩
      simpa using coreEncode_ne_nil (show us ++ [last] ≠ [] by simp)

theorem output_spec {s : TextEncoderStream} (h : s.Holds) (chunks : List Units) :
    (s.output chunks).flatten = coreEncode (s.pendingHighSurrogate.toList ++ chunks.flatten) ∧
      ∀ piece ∈ s.output chunks, piece ≠ [] := by
  induction chunks generalizing s with
  | nil =>
    rw [output, List.flatten_nil, List.append_nil]
    cases hp : s.pendingHighSurrogate with
    | none => rw [flush, hp]; exact ⟨rfl, by simp⟩
    | some u =>
      have hu := coreEncode_high (h u hp)
      rw [flush, hp, Option.toList_some, hu]
      exact ⟨rfl, by simp⟩
  | cons chunk chunks ih =>
    obtain ⟨hholds, hpieces, hflat⟩ := transform_spec h chunk chunks.flatten
    obtain ⟨hrest, hne⟩ := ih hholds
    rw [output, List.flatten_append, hrest, hflat, List.flatten_cons, List.append_assoc]
    exact ⟨rfl, List.forall_mem_append.2 ⟨hpieces, hne⟩⟩

/-- However a string is cut into chunks, between the halves of a pair or not, what is
enqueued up to its end is its encoding, and no piece of it is empty. -/
theorem output_encode (chunks : List Units) :
    (new.output chunks).flatten = coreEncode chunks.flatten ∧ ∀ piece ∈ new.output chunks, piece ≠ [] :=
  output_spec (fun _ h => by cases h) chunks

end TextEncoderStream

/-! ## Decoding -/

/-- More bytes than a string can have units. -/
def maxLength : Nat := 2 ^ 29 - 24

/-- What `encoding_rs` and V8 document: an encoding's name is one of its labels; a
buffer of the length the decoder asked for is never full; a decoder that replaces
finds nothing malformed; input may be cut anywhere between the calls; and both
decode UTF-8 alike, past a byte order mark. A finished decoder is never called, so
nothing hangs on what it would do. -/
structure Decoders.Lawful (D : Decoders) : Prop where
  label : ∀ label encoding, D.forLabelNoReplacement label = some encoding → D.forLabel (D.name encoding) = some encoding
  room : ∀ decoder n, n < maxLength → (D.maxUtf16BufferLength decoder n).isSome = true
  full : ∀ fatal decoder data room last, D.maxUtf16BufferLength decoder data.length = some room →
    (D.call fatal decoder data room last).1 ≠ .outputFull
  replaces : ∀ decoder data room last, (D.call false decoder data room last).1 ≠ .malformed
  cut : ∀ fatal decoder a b room roomA last, D.maxUtf16BufferLength decoder (a ++ b).length = some room →
    D.maxUtf16BufferLength decoder a.length = some roomA →
    ((D.call fatal decoder a roomA false).1 = .malformed → (D.call fatal decoder (a ++ b) room last).1 = .malformed) ∧
    ∀ xs decoder' roomB ys decoder'' result, D.call fatal decoder a roomA false = (.inputEmpty, xs, decoder') →
      D.maxUtf16BufferLength decoder' b.length = some roomB → D.call fatal decoder' b roomB last = (result, ys, decoder'') →
      (D.call fatal decoder (a ++ b) room last).1 = result ∧
        (result = .inputEmpty → D.call fatal decoder (a ++ b) room last = (.inputEmpty, xs ++ ys, decoder''))
  utf8 : ∀ label encoding ignoreBom data room, D.forLabelNoReplacement label = some encoding → D.name encoding = "utf-8" →
    data.length < maxLength → D.maxUtf16BufferLength (D.newDecoder encoding ignoreBom) data.length = some room →
    D.newFromUtf8 (if !ignoreBom && data.take 3 == [0xEF, 0xBB, 0xBF] then data.drop 3 else data) =
      some (D.call false (D.newDecoder encoding ignoreBom) data room true).2.1

variable {D : Decoders}

namespace TextDecoder

/-- A decoder that a constructor made, between two streams. -/
structure Idle (D : Decoders) (t : TextDecoder D) : Prop where
  handle : t.handle = none
  encoding : ∃ label encoding, D.forLabelNoReplacement label = some encoding ∧ t.encoding = D.name encoding
  utf8SinglePass : t.utf8SinglePass = (t.encoding == "utf-8" && !t.fatal)

/-- The decoder that the first call of a stream makes. -/
theorem Idle.decoder (hD : D.Lawful) {t : TextDecoder D} (h : Idle D t) :
    ∃ label encoding, D.forLabelNoReplacement label = some encoding ∧ t.encoding = D.name encoding ∧
      opEncodingNewDecoder D t.encoding t.ignoreBOM = .ok (D.newDecoder encoding t.ignoreBOM) := by
  obtain ⟨label, encoding, hlabel, hname⟩ := h.encoding
  refine ⟨label, encoding, hlabel, hname, ?_⟩
  rw [opEncodingNewDecoder, hname, hD.label label encoding hlabel]

/-- What UTF-8 decodes to, past a byte order mark. -/
def utf8Text (ignoreBom : Bool) (data : Bytes) : Units :=
  let data := if !ignoreBom && data.take 3 == [0xEF, 0xBB, 0xBF] then data.drop 3 else data
  Utf16.encode ((chunks data).map Chunk.toChar)

/-- A decoder of UTF-8 that holds its input back up to the end of the stream. -/
structure Holder where
  ignoreBom : Bool
  held : Bytes

def Holder.call (fatal : Bool) (decoder : Holder) (data : Bytes) (last : Bool) : CoderResult × Units × Holder :=
  let held := decoder.held ++ data
  if !last then (.inputEmpty, [], ⟨decoder.ignoreBom, held⟩)
  else if fatal && !(chunks held).all Chunk.isChar then (.malformed, [], decoder)
  else (.inputEmpty, utf8Text decoder.ignoreBom held, ⟨decoder.ignoreBom, []⟩)

end TextDecoder

end LuauFusion.TextEncoding
