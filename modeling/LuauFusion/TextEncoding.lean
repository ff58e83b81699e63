import LuauFusion.Lib.Utf16
import LuauFusion.Lib.Utf8Fit
/-!
# Text encoding

`web/00_text_encoding.js` over the ops of `web/mod.rs`: `TextEncoder` with its two
`encodeInto` ops, the callbacks of `TextEncoderStream`, and `TextDecoder` with the
handle it keeps between the calls of a stream. What V8 and `encoding_rs` do is a
parameter.
-/
open LuauFusion.Lib LuauFusion.Lib.Utf8 LuauFusion.Lib.Utf16

namespace LuauFusion.TextEncoding

/-- `core.encode`: a surrogate that is not half of a pair is replaced. -/
def coreEncode (us : Units) : Bytes := encodeChars (Utf16.decode us)

/-! ## `encodeInto` -/

/-- A `Cow<str>` made of a JavaScript string; a borrowed one is made of a one-byte string,
which may have more than ASCII. -/
inductive CowStr where
  | borrowed (v : List Char)
  | owned (v : List Char)

def CowStr.chars : CowStr → List Char
  | borrowed v => v
  | owned v => v

/-- What an op leaves: the destination, and `out_buf`. -/
structure EncodeInto where
  buffer : Bytes
  read : Nat
  written : Nat
  deriving DecidableEq

/-- The loop that looks for a boundary; `none` is a failed `debug_assert!`. -/
def findBoundary (input : Bytes) : Nat → Nat → Option Nat
  | 0, boundary => some boundary
  | turns + 1, boundary =>
    if isCharBoundary input boundary then some boundary
    else if boundary = 0 then none
    else findBoundary input turns (boundary - 1)

/-- The last boundary in the input that fits in the room there is. -/
def boundaryIn (input : Bytes) (room : Nat) : Option Nat :=
  if room ≥ input.length then some input.length
  else
    match findBoundary input 4 room with
    | some boundary => if isCharBoundary input boundary then some boundary else none
    | none => none

/-- `none` is a panic: of an assertion, or of a slice out of bounds. -/
def opEncodingEncodeIntoFast (input : CowStr) (buffer : Bytes) : Option EncodeInto :=
  match boundaryIn (encodeChars input.chars) buffer.length with
  | none => none
  | some boundary =>
    match charsTo input.chars boundary with
    | none => none
    | some v =>
      if boundary ≤ buffer.length then
        let read :=
          match input with
          | .borrowed _ => (encodeChars v).length
          | .owned _ => (Utf16.encode v).length
        some ⟨encodeChars v ++ buffer.drop boundary, read % 2 ^ 32, boundary % 2 ^ 32⟩
      else none

/-- `v8::String::write_utf8_v2` with `kReplaceInvalidUtf8`: the bytes it writes to a
buffer of that length, and how many units they stand for. -/
abbrev WriteUtf8 := Units → Nat → Bytes × Nat

def opEncodingEncodeInto (write : WriteUtf8) (us : Units) (buffer : Bytes) : EncodeInto :=
  let (bytes, nchars) := write us buffer.length
  ⟨bytes ++ buffer.drop bytes.length, nchars % 2 ^ 32, bytes.length % 2 ^ 32⟩

/-! ## `TextEncoderStream` -/

structure TextEncoderStream where
  pendingHighSurrogate : Option UInt16
  deriving DecidableEq

namespace TextEncoderStream

def new : TextEncoderStream := ⟨none⟩

/-- `transform`, with the chunks it enqueues. -/
def transform (s : TextEncoderStream) (chunk : Units) : TextEncoderStream × List Bytes :=
  if chunk = [] then (s, [])
  else
    let chunk := s.pendingHighSurrogate.toList ++ chunk
    match chunk.getLast? with
    | none => (s, [])
    | some lastCodeUnit =>
      let (pending, chunk) := if isHigh lastCodeUnit then (some lastCodeUnit, chunk.dropLast) else (none, chunk)
      (⟨pending⟩, if chunk = [] then [] else [coreEncode chunk])

def flush (s : TextEncoderStream) : List Bytes :=
  match s.pendingHighSurrogate with
  | some _ => [[0xEF, 0xBF, 0xBD]]
  | none => []

/-- What is enqueued for the chunks of a stream, up to its end. -/
def output (s : TextEncoderStream) : List Units → List Bytes
  | [] => s.flush
  | chunk :: chunks => (s.transform chunk).2 ++ (s.transform chunk).1.output chunks

end TextEncoderStream

/-! ## `TextDecoder` -/

inductive WebError where
  | invalidEncodingLabel (label : String)
  | bufferTooLong
  | valueTooLarge
  | bufferTooSmall
  | dataInvalid
  deriving DecidableEq

/-- How a call of a decoder ends. -/
inductive CoderResult where
  | inputEmpty
  | outputFull
  | malformed
  deriving DecidableEq

/-- `encoding_rs`, and V8's decoder of UTF-8, whose `none` is a string too long. A
decoder is called with the input, the room for units, and whether the input ends; it
answers how the call ended and what it wrote. Only the calls without replacement are
ever `malformed`. -/
structure Decoders where
  Encoding : Type
  forLabel : String → Option Encoding
  forLabelNoReplacement : String → Option Encoding
  /-- `encoding.name().to_lowercase()` -/
  name : Encoding → String
  Decoder : Type
  newDecoder : Encoding → (ignoreBom : Bool) → Decoder
  maxUtf16BufferLength : Decoder → Nat → Option Nat
  decodeToUtf16 : Decoder → Bytes → (room : Nat) → (last : Bool) → CoderResult × Units × Decoder
  decodeToUtf16WithoutReplacement : Decoder → Bytes → (room : Nat) → (last : Bool) → CoderResult × Units × Decoder
  newFromUtf8 : Bytes → Option Units

/-- The call without replacement, or the one with. -/
def Decoders.call (D : Decoders) (fatal : Bool) (decoder : D.Decoder) (data : Bytes) (room : Nat) (last : Bool) :
    CoderResult × Units × D.Decoder :=
  if fatal then D.decodeToUtf16WithoutReplacement decoder data room last else D.decodeToUtf16 decoder data room last

variable (D : Decoders)

/-- What `op_encoding_decode` and `op_encoding_decode_single` do with a decoder. -/
def decodeWith (decoder : D.Decoder) (fatal : Bool) (data : Bytes) (last : Bool) : Except WebError Units × D.Decoder :=
  match D.maxUtf16BufferLength decoder data.length with
  | none => (.error .valueTooLarge, decoder)
  | some room =>
    match D.call fatal decoder data room last with
    | (.inputEmpty, output, decoder) => (.ok output, decoder)
    | (.outputFull, _, decoder) => (.error .bufferTooSmall, decoder)
    | (.malformed, _, decoder) => (.error .dataInvalid, decoder)

def opEncodingNormalizeLabel (label : String) : Except WebError String :=
  match D.forLabelNoReplacement label with
  | some encoding => .ok (D.name encoding)
  | none => .error (.invalidEncodingLabel label)

def opEncodingNewDecoder (label : String) (ignoreBom : Bool) : Except WebError D.Decoder :=
  match D.forLabel label with
  | some encoding => .ok (D.newDecoder encoding ignoreBom)
  | none => .error (.invalidEncodingLabel label)

def opEncodingDecodeSingle (data : Bytes) (label : String) (fatal ignoreBom : Bool) : Except WebError Units :=
  match opEncodingNewDecoder D label ignoreBom with
  | .ok decoder => (decodeWith D decoder fatal data true).1
  | .error e => .error e

/-- A byte order mark in front goes, unless it is to be ignored. -/
def opEncodingDecodeUtf8 (data : Bytes) (ignoreBom : Bool) : Except WebError Units :=
  let data := if !ignoreBom && data.take 3 == [0xEF, 0xBB, 0xBF] then data.drop 3 else data
  match D.newFromUtf8 data with
  | some text => .ok text
  | none => .error .bufferTooLong

structure TextDecoder where
  encoding : String
  fatal : Bool
  ignoreBOM : Bool
  utf8SinglePass : Bool
  handle : Option D.Decoder

namespace TextDecoder
variable {D}

def construct (label : String) (fatal ignoreBOM : Bool) : Except WebError (TextDecoder D) :=
  match opEncodingNormalizeLabel D label with
  | .ok encoding => .ok ⟨encoding, fatal, ignoreBOM, encoding == "utf-8" && !fatal, none⟩
  | .error e => .error e

/-- The `try` block of `decode`. -/
def attempt (t : TextDecoder D) (input : Bytes) (stream : Bool) : Except WebError Units × TextDecoder D :=
  match t.handle with
  | none =>
    if !stream then
      (if t.utf8SinglePass then opEncodingDecodeUtf8 D input t.ignoreBOM
        else opEncodingDecodeSingle D input t.encoding t.fatal t.ignoreBOM, t)
    else
      match opEncodingNewDecoder D t.encoding t.ignoreBOM with
      | .error e => (.error e, t)
      | .ok decoder =>
        let (result, decoder) := decodeWith D decoder t.fatal input (!stream)
        (result, { t with handle := some decoder })
  | some decoder =>
    let (result, decoder) := decodeWith D decoder t.fatal input (!stream)
    (result, { t with handle := some decoder })

/-- `decode`: at the end of a stream the handle goes, whatever happened. -/
def decode (t : TextDecoder D) (input : Bytes) (stream : Bool) : Except WebError Units × TextDecoder D :=
  let (result, t) := t.attempt input stream
  (result, if !stream then { t with handle := none } else t)

end TextDecoder

/-! ## `TextDecoderStream` -/

/-- `if (decoded) controller.enqueue(decoded)` -/
def enqueued (decoded : Units) : List Units := if decoded = [] then [] else [decoded]

/-- What `transform` and `flush` enqueue for the chunks of a stream, up to its end;
the first that is thrown ends it. -/
def TextDecoderStream.output {D : Decoders} (decoder : TextDecoder D) : List Bytes → Except WebError (List Units)
  | [] =>
    match (decoder.decode [] false).1 with
    | .ok final => .ok (enqueued final)
    | .error e => .error e
  | chunk :: chunks =>
    match decoder.decode chunk true with
    | (.ok decoded, decoder) => (output decoder chunks).map (enqueued decoded ++ ·)
    | (.error e, _) => .error e

end LuauFusion.TextEncoding
