import Mathlib.Data.List.Basic
/-!
# Paths in URLs

The path state of the WHATWG URL parser, over the characters between two
delimiters: percent-encoding, dot segments, plain and encoded, Windows drive
letters, and the stack of segments they leave (`pushSegments`).

A segment is `Plain` if parsing stores it as it stands. What is stored is
always plain (`pushSegments_stored`), and plain pieces are stored unchanged
(`pushSegments_of_plain`).
-/

namespace LuauFusion.Lib.Url

abbrev Segment := List Char

/-! ## Percent-encoding -/

/-- The C0 control percent-encode set: controls and everything beyond ASCII. -/
def c0Set (c : Char) : Bool := c.toNat < 0x20 || 0x7E < c.toNat

def fragmentSet (c : Char) : Bool := c0Set c || c ∈ [' ', '"', '<', '>', Char.ofNat 0x60]

def querySet (special : Bool) (c : Char) : Bool :=
  c0Set c || c ∈ [' ', '"', '#', '<', '>'] || (special && c == Char.ofNat 0x27)

def pathSet (c : Char) : Bool := c0Set c || c ∈ [' ', '"', '#', '<', '>', '?', Char.ofNat 0x60, '{', '}']

def hexDigit (n : Nat) : Char := (Nat.digitChar n).toUpper

def percentByte (b : UInt8) : List Char := ['%', hexDigit (b.toNat / 16), hexDigit (b.toNat % 16)]

/-- Percent signs already there are left as they are. -/
def percentEncode (set : Char → Bool) (cs : List Char) : List Char :=
  cs.flatMap fun c => if set c then (String.utf8EncodeChar c).flatMap percentByte else [c]

theorem percentEncode_eq {set : Char → Bool} {cs : List Char} (h : ∀ c ∈ cs, set c = false) :
    percentEncode set cs = cs := by
  induction cs with
  | nil => rfl
  | cons c cs ih =>
    rw [List.forall_mem_cons] at h
    have ih := ih h.2
    simp only [percentEncode] at ih
    simp only [percentEncode, List.flatMap_cons, h.1, ih]
    rfl

set_option maxRecDepth 2000 in
theorem hexDigit_mem {n : Nat} (h : n < 16) : hexDigit n ∈ "0123456789ABCDEF".toList := by
  have : ∀ n < 16, hexDigit n ∈ "0123456789ABCDEF".toList := by decide
  exact this n h

theorem percentByte_mem {b : UInt8} {c : Char} (h : c ∈ percentByte b) : c ∈ "%0123456789ABCDEF".toList := by
  have hb : b.toNat < 256 := b.toNat_lt
  have h1 := hexDigit_mem (n := b.toNat / 16) (by omega)
  have h2 := hexDigit_mem (n := b.toNat % 16) (by omega)
  simp only [percentByte, List.mem_cons, List.not_mem_nil, or_false] at h
  rcases h with rfl | rfl | rfl
  · decide
  · exact List.mem_cons_of_mem _ h1
  · exact List.mem_cons_of_mem _ h2

/-- A character of an encoded string was there before or belongs to an encoded byte. -/
theorem percentEncode_mem {set : Char → Bool} {cs : List Char} {c : Char} (h : c ∈ percentEncode set cs) :
    (c ∈ cs ∧ set c = false) ∨ c ∈ "%0123456789ABCDEF".toList := by
  obtain ⟨d, hd, hc⟩ := List.mem_flatMap.1 h
  split at hc
  · obtain ⟨b, -, hb⟩ := List.mem_flatMap.1 hc
    exact .inr (percentByte_mem hb)
  · next hs =>
    rw [List.mem_singleton] at hc
    subst hc
    exact .inl ⟨hd, by simpa using hs⟩

/-! ## ASCII -/

theorem ascii_cases {P : Char → Prop} (h : ∀ n < 128, P (Char.ofNat n)) {c : Char} (hc : c.toNat < 128) : P c := by
  have := h c.toNat hc
  rwa [Char.ofNat_toNat] at this

theorem alphanum_lt {c : Char} (h : c.isAlphanum = true) : c.toNat < 128 := by
  have hv : c.toNat = c.val.toNat := rfl
  have hr : ((decide (65 ≤ c.val ∧ c.val ≤ 90) || (decide (97 ≤ c.val) && decide (c.val ≤ 122))) ||
    (decide (48 ≤ c.val) && decide (c.val ≤ 57))) = true := h
  simp only [Bool.or_eq_true, Bool.and_eq_true, decide_eq_true_eq, UInt32.le_iff_toNat_le, UInt32.reduceToNat] at hr
  omega

set_option maxRecDepth 4000 in
/-- Letters and digits mean nothing to the parser. -/
theorem alphanum_plain {c : Char} (h : c.isAlphanum = true) :
    pathSet c = false ∧ c ∉ ['/', '\\', '?', '#', ':', '|', '.', '%'] :=
  ascii_cases (P := fun c => c.isAlphanum = true →
    pathSet c = false ∧ c ∉ ['/', '\\', '?', '#', ':', '|', '.', '%']) (by decide) (alphanum_lt h) h

/-! ## Segments -/

def isSlash (special : Bool) (c : Char) : Bool := c == '/' || (special && c == '\\')

def isSingleDot (s : Segment) : Bool := s.map Char.toLower ∈ [".".toList, "%2e".toList]

def isDoubleDot (s : Segment) : Bool :=
  s.map Char.toLower ∈ ["..".toList, ".%2e".toList, "%2e.".toList, "%2e%2e".toList]

def isDriveLetter : Segment → Bool
  | [a, b] => a.isAlpha && (b == ':' || b == '|')
  | _ => false

def isNormalizedDriveLetter : Segment → Bool
  | [a, b] => a.isAlpha && b == ':'
  | _ => false

/-- The rest of the input starts with a Windows drive letter. -/
def startsWithDriveLetter : List Char → Bool
  | a :: b :: rest => isDriveLetter [a, b] && (rest.isEmpty || rest.head?.any fun c => c ∈ ['/', '\\', '?', '#'])
  | _ => false

/-- Shorten a path, unless what is left of it is a drive letter. -/
def shorten (file : Bool) (path : List Segment) : List Segment :=
  if file && path.length == 1 && path.head?.any isNormalizedDriveLetter then path else path.dropLast

/-- One piece of the input, and whether a slash ends it. -/
def pushSegment (file slash : Bool) (path : List Segment) (piece : List Char) : List Segment :=
  let buffer := percentEncode pathSet piece
  if isDoubleDot buffer then
    if slash then shorten file path else shorten file path ++ [[]]
  else if isSingleDot buffer then
    if slash then path else path ++ [[]]
  else if file && path.isEmpty && isDriveLetter buffer then path ++ [buffer.set 1 ':']
  else path ++ [buffer]

/-- The pieces between slashes, the last of which no slash ends. -/
def pushSegments (file : Bool) (path : List Segment) : List (List Char) → List Segment
  | [] => path
  | [p] => pushSegment file false path p
  | p :: q :: ps => pushSegments file (pushSegment file true path p) (q :: ps)

/-- The path state from `path`, on input without `?` and `#`. -/
def parsePath (special file : Bool) (path : List Segment) (input : List Char) : List Segment :=
  pushSegments file path (input.splitOnP (isSlash special))

/-- No slash ends the last piece, so it leaves a segment. -/
theorem pushSegments_ne_nil {file : Bool} {pieces : List (List Char)} (h : pieces ≠ []) (path : List Segment) :
    pushSegments file path pieces ≠ [] := by
  induction pieces generalizing path with
  | nil => exact absurd rfl h
  | cons p ps ih =>
    cases ps with
    | nil =>
      simp only [pushSegments, pushSegment, Bool.false_eq_true, if_false]
      split_ifs <;> simp
    | cons q qs => exact ih (by simp) _

theorem parsePath_ne_nil (special file : Bool) (path : List Segment) (input : List Char) :
    parsePath special file path input ≠ [] :=
  pushSegments_ne_nil (List.splitOnP_ne_nil _ _) path

/-! ## Splitting -/

/-- The pieces have the characters of the whole, less the separator. -/
theorem mem_splitOn {a c : Char} {cs p : List Char} (hp : p ∈ cs.splitOn a) (hc : c ∈ p) : c ∈ cs ∧ c ≠ a := by
  induction cs generalizing p with
  | nil =>
    rw [List.splitOn_nil, List.mem_singleton] at hp
    subst hp
    cases hc
  | cons d cs ih =>
    rw [List.splitOn_cons_eq_if_modifyHead] at hp
    split at hp
    · rcases List.mem_cons.1 hp with rfl | hp
      · cases hc
      · exact ⟨List.mem_cons_of_mem _ (ih hp hc).1, (ih hp hc).2⟩
    · next hd =>
      obtain ⟨q, qs, hq⟩ := List.exists_cons_of_ne_nil (List.splitOn_ne_nil a cs)
      rw [hq, List.modifyHead_cons] at hp
      rcases List.mem_cons.1 hp with rfl | hp
      · rcases List.mem_cons.1 hc with rfl | hc
        · exact ⟨List.mem_cons_self, by simpa using hd⟩
        · have hq' : q ∈ cs.splitOn a := hq ▸ List.mem_cons_self
          exact ⟨List.mem_cons_of_mem _ (ih hq' hc).1, (ih hq' hc).2⟩
      · have hp' : p ∈ cs.splitOn a := hq ▸ List.mem_cons_of_mem _ hp
        exact ⟨List.mem_cons_of_mem _ (ih hp' hc).1, (ih hp' hc).2⟩

theorem mem_intercalate {a c : Char} {l : List Segment} (h : c ∈ [a].intercalate l) : c = a ∨ ∃ s ∈ l, c ∈ s := by
  induction l with
  | nil => cases h
  | cons s l ih =>
    cases l with
    | nil => exact .inr ⟨s, List.mem_cons_self, by simpa using h⟩
    | cons s' l =>
      rw [List.intercalate_cons_cons] at h
      rcases List.mem_append.1 h with h | h
      · rcases List.mem_append.1 h with h | h
        · exact .inr ⟨s, List.mem_cons_self, h⟩
        · exact .inl (List.mem_singleton.1 h)
      · rcases ih h with h | ⟨t, ht, h⟩
        · exact .inl h
        · exact .inr ⟨t, List.mem_cons_of_mem _ ht, h⟩

theorem splitOnP_slash {special : Bool} {cs : List Char} (h : '\\' ∉ cs) :
    cs.splitOnP (isSlash special) = cs.splitOn '/' := by
  induction cs with
  | nil => rfl
  | cons c cs ih =>
    rw [List.mem_cons, not_or] at h
    have hc : isSlash special c = (c == '/') := by simp [isSlash, Ne.symm h.1]
    rw [List.splitOnP_cons_eq_if_modifyHead, List.splitOn_cons_eq_if_modifyHead, ih h.2, hc]

/-! ## Plain segments -/

/-- The segment is neither encoded nor taken for a dot segment. -/
def Plain (s : Segment) : Prop := (∀ c ∈ s, pathSet c = false) ∧ isSingleDot s = false ∧ isDoubleDot s = false

theorem plain_nil : Plain [] := ⟨by simp, rfl, rfl⟩

/-- Without a percent sign, only dots make a dot segment. -/
theorem plain_of_no_percent {s : Segment} (hc : ∀ c ∈ s, pathSet c = false) (hp : '%' ∉ s.map Char.toLower)
    (h1 : s.map Char.toLower ≠ ".".toList) (h2 : s.map Char.toLower ≠ "..".toList) : Plain s := by
  have hne : ∀ t : Segment, '%' ∈ t → s.map Char.toLower ≠ t := by
    rintro t ht rfl
    exact hp ht
  refine ⟨hc, ?_, ?_⟩
  · simp only [isSingleDot, List.mem_cons, List.not_mem_nil, or_false, decide_eq_false_iff_not, not_or]
    exact ⟨h1, hne _ (by decide)⟩
  · simp only [isDoubleDot, List.mem_cons, List.not_mem_nil, or_false, decide_eq_false_iff_not, not_or]
    exact ⟨h2, hne _ (by decide), hne _ (by decide), hne _ (by decide)⟩

theorem not_driveLetter {s : Segment} (h : ∀ c ∈ s, c ≠ ':' ∧ c ≠ '|') : isDriveLetter s = false := by
  unfold isDriveLetter
  split
  · next a b =>
    have hb := h b (by simp)
    simp [hb.1, hb.2]
  · rfl

theorem pushSegment_of_plain {file slash : Bool} {path : List Segment} {p : Segment} (hp : Plain p)
    (hd : isDriveLetter p = false) : pushSegment file slash path p = path ++ [p] := by
  obtain ⟨hc, h1, h2⟩ := hp
  simp [pushSegment, percentEncode_eq hc, h1, h2, hd]

/-- Plain pieces go onto the path as they are. -/
theorem pushSegments_of_plain {file : Bool} {path ps : List Segment} (hp : ∀ p ∈ ps, Plain p)
    (hd : ∀ p ∈ ps, isDriveLetter p = false) : pushSegments file path ps = path ++ ps := by
  induction ps generalizing path with
  | nil => simp [pushSegments]
  | cons p ps ih =>
    rw [List.forall_mem_cons] at hp hd
    cases ps with
    | nil => exact pushSegment_of_plain hp.1 hd.1
    | cons q qs =>
      rw [pushSegments, pushSegment_of_plain hp.1 hd.1, ih hp.2 hd.2, List.append_assoc]
      rfl

/-- A stored segment: plain, and without a slash. -/
def Stored (s : Segment) : Prop := Plain s ∧ '/' ∉ s

theorem stored_nil : Stored [] := ⟨plain_nil, by simp⟩

theorem stored_shorten {file : Bool} {path : List Segment} (h : ∀ s ∈ path, Stored s) :
    ∀ s ∈ shorten file path, Stored s := by
  intro s hs
  unfold shorten at hs
  split at hs
  · exact h s hs
  · exact h s ((List.dropLast_sublist _).subset hs)

theorem stored_driveLetter {s : Segment} (h : isDriveLetter s = true) : Stored (s.set 1 ':') := by
  match s, h with
  | [a, b], h =>
    simp only [isDriveLetter, Bool.and_eq_true] at h
    obtain ⟨ha, hs⟩ := alphanum_plain (c := a) (by simp [Char.isAlphanum, h.1])
    have hne : a ≠ '/' := by
      rintro rfl
      simp at hs
    refine ⟨⟨?_, ?_, ?_⟩, ?_⟩
    · simp only [List.set_cons_succ, List.set_cons_zero, List.forall_mem_cons]
      exact ⟨ha, by decide, by simp⟩
    · simp [isSingleDot]
    · simp [isDoubleDot]
    · simp [hne.symm]

theorem stored_buffer {piece : List Char} (hs : '/' ∉ piece) (h1 : isSingleDot (percentEncode pathSet piece) = false)
    (h2 : isDoubleDot (percentEncode pathSet piece) = false) : Stored (percentEncode pathSet piece) := by
  have hex : ∀ c ∈ "%0123456789ABCDEF".toList, pathSet c = false ∧ c ≠ '/' := by
    have : "%0123456789ABCDEF".toList.all (fun c => !pathSet c && c != '/') = true := by decide
    simpa using this
  refine ⟨⟨fun c hc => ?_, h1, h2⟩, fun hc => ?_⟩
  · rcases percentEncode_mem hc with ⟨-, h⟩ | h
    · exact h
    · exact (hex c h).1
  · rcases percentEncode_mem hc with ⟨h, -⟩ | h
    · exact hs h
    · exact (hex _ h).2 rfl

theorem stored_pushSegment {file slash : Bool} {path : List Segment} {piece : List Char}
    (h : ∀ s ∈ path, Stored s) (hs : '/' ∉ piece) : ∀ s ∈ pushSegment file slash path piece, Stored s := by
  have hsh : ∀ s ∈ shorten file path, Stored s := stored_shorten h
  simp only [pushSegment]
  split
  · split
    · exact hsh
    · exact List.forall_mem_append.2 ⟨hsh, List.forall_mem_singleton.2 stored_nil⟩
  · next h2 =>
    split
    · split
      · exact h
      · exact List.forall_mem_append.2 ⟨h, List.forall_mem_singleton.2 stored_nil⟩
    · next h1 =>
      split
      · next hd =>
        rw [Bool.and_eq_true] at hd
        exact List.forall_mem_append.2 ⟨h, List.forall_mem_singleton.2 (stored_driveLetter hd.2)⟩
      · have hb := stored_buffer hs (by simpa using h1) (by simpa using h2)
        exact List.forall_mem_append.2 ⟨h, List.forall_mem_singleton.2 hb⟩

/-- Whatever is pushed, the path holds plain segments only. -/
theorem pushSegments_stored {file : Bool} {path : List Segment} {ps : List (List Char)}
    (h : ∀ s ∈ path, Stored s) (hs : ∀ p ∈ ps, '/' ∉ p) : ∀ s ∈ pushSegments file path ps, Stored s := by
  induction ps generalizing path with
  | nil => exact h
  | cons p ps ih =>
    rw [List.forall_mem_cons] at hs
    cases ps with
    | nil => exact stored_pushSegment h hs.1
    | cons q qs => exact ih (stored_pushSegment h hs.1) hs.2

/-! ## Normalisation -/

/-- `path`, then `parts`: a dot stays, two dots go back one segment, and stay at
the root. -/
def normalise : List Segment → List Segment → List Segment
  | path, [] => path
  | path, p :: ps =>
    if p = ".".toList then normalise path ps
    else if p = "..".toList then normalise path.dropLast ps
    else normalise (path ++ [p]) ps

theorem normalise_append (path a b : List Segment) : normalise path (a ++ b) = normalise (normalise path a) b := by
  induction a generalizing path with
  | nil => rfl
  | cons p a ih =>
    rw [List.cons_append, normalise, normalise]
    split
    · exact ih _
    · split
      · exact ih _
      · exact ih _

/-- A normalised path has the segments of both, and no dot segment of the second. -/
theorem mem_normalise {path parts : List Segment} {s : Segment} (h : s ∈ normalise path parts) :
    s ∈ path ∨ (s ∈ parts ∧ s ≠ ".".toList ∧ s ≠ "..".toList) := by
  induction parts generalizing path with
  | nil => exact .inl h
  | cons p ps ih =>
    have hcons : ∀ {q : Prop}, (s ∈ ps ∧ q) → s ∈ p :: ps ∧ q := fun h => ⟨List.mem_cons_of_mem _ h.1, h.2⟩
    rw [normalise] at h
    split at h
    · exact (ih h).imp_right hcons
    · split at h
      · rcases ih h with h | h
        · exact .inl ((List.dropLast_sublist _).subset h)
        · exact .inr (hcons h)
      · next h1 h2 =>
        rcases ih h with h | h
        · rcases List.mem_append.1 h with h | h
          · exact .inl h
          · obtain rfl := List.mem_singleton.1 h
            exact .inr ⟨List.mem_cons_self, h1, h2⟩
        · exact .inr (hcons h)

theorem not_normalized {s : Segment} (h : isDriveLetter s = false) : isNormalizedDriveLetter s = false := by
  by_contra hn
  rw [Bool.not_eq_false] at hn
  match s, hn with
  | [a, b], hn =>
    simp only [isNormalizedDriveLetter, Bool.and_eq_true] at hn
    simp [isDriveLetter, hn.1, hn.2] at h

theorem shorten_eq {file : Bool} {path : List Segment} (h : ∀ s ∈ path, isDriveLetter s = false) :
    shorten file path = path.dropLast := by
  unfold shorten
  cases path with
  | nil => simp
  | cons s l => simp [not_normalized (h s List.mem_cons_self)]

theorem pushSegment_dot (file : Bool) (path : List Segment) : pushSegment file true path ".".toList = path := rfl

theorem pushSegment_dots (file : Bool) (path : List Segment) :
    pushSegment file true path "..".toList = shorten file path := rfl

/-- The path state normalises: what it makes of plain pieces and plain dot
segments, the last of them no dot segment, is their normalised path. -/
theorem pushSegments_normalise {file : Bool} {path ps : List Segment} (hpath : ∀ s ∈ path, isDriveLetter s = false)
    (hps : ∀ p ∈ ps, (Plain p ∧ isDriveLetter p = false) ∨ p = ".".toList ∨ p = "..".toList)
    (hlast : ∀ p ∈ ps.getLast?, Plain p) : pushSegments file path ps = normalise path ps := by
  have hplain : ∀ {p}, Plain p → p ≠ ".".toList ∧ p ≠ "..".toList := by
    rintro p ⟨-, h1, h2⟩
    constructor
    · rintro rfl; exact absurd h1 (by decide)
    · rintro rfl; exact absurd h2 (by decide)
  induction ps generalizing path with
  | nil => rfl
  | cons p ps ih =>
    rw [List.forall_mem_cons] at hps
    cases ps with
    | nil =>
      have hp := hlast p rfl
      rcases hps.1 with ⟨-, hd⟩ | rfl | rfl
      · rw [pushSegments, pushSegment_of_plain hp hd, normalise, if_neg (hplain hp).1, if_neg (hplain hp).2, normalise]
      · exact absurd rfl (hplain hp).1
      · exact absurd rfl (hplain hp).2
    | cons q qs =>
      have ih : ∀ path, (∀ s ∈ path, isDriveLetter s = false) →
          pushSegments file path (q :: qs) = normalise path (q :: qs) :=
        fun _ hpath => ih hpath hps.2 (by simpa using hlast)
      rw [pushSegments, normalise]
      rcases hps.1 with ⟨hp, hd⟩ | rfl | rfl
      · rw [pushSegment_of_plain hp hd, if_neg (hplain hp).1, if_neg (hplain hp).2]
        exact ih _ (List.forall_mem_append.2 ⟨hpath, List.forall_mem_singleton.2 hd⟩)
      · rw [pushSegment_dot, if_pos rfl]
        exact ih _ hpath
      · rw [pushSegment_dots, shorten_eq hpath, if_neg (by decide), if_pos rfl]
        exact ih _ fun s hs => hpath s ((List.dropLast_sublist _).subset hs)

end LuauFusion.Lib.Url
