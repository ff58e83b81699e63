import LuauFusion.Delivery
/-!
# What an echo brings back

A Luau string is decoded once, when `sendtext` turns it into a Rust string;
everything after that keeps it. A script that echoes the text it received sends
the same bytes back if and only if they were well-formed UTF-8 to begin with.
`sendtext` does not reject the others: it repairs them, and two of them may
become one text.
-/
open LuauFusion.Lib LuauFusion.Lib.Utf8

namespace LuauFusion

/-! ## Arguments -/

/-- The arguments of the successful `sendtext` calls, in call order, with the
text each became. -/
def luauTextSends (es : List Event) : List (LuaValue × String) :=
  es.filterMap fun | .luauSent v m => m.text?.map fun t => (v, t) | _ => none

theorem luauTextSends_snd (es : List Event) : (luauTextSends es).map Prod.snd = luauTexts es := by
  rw [luauTextSends, luauTexts, List.map_filterMap]
  congr 1
  funext e
  rcases e with ⟨_, _ | _⟩ | _ <;> rfl

/-- A successful send's message is what its argument converts to. -/
theorem luauSent_converts {E : Env} {as es s} (h : Run (runV8Client E) as es s) {v : LuaValue} {m : ServerMessage}
    (hm : Event.luauSent v m ∈ es) : Converts E v m := by
  revert hm
  refine h.inv (fun _ es _ => Event.luauSent v m ∈ es → Converts E v m) (by simp) ?_
  intro _ es s a s' out hr ih ht hm
  rcases List.mem_append.1 hm with hm | hm
  · exact ih hm
  · cases run_effect hr ht with
    | sendtext hv | sendbinary hv =>
      simp only [List.mem_singleton, Event.luauSent.injEq] at hm
      obtain ⟨rfl, rfl⟩ := hm
      exact hv
    | @receive _ _ _ o => rcases o with _ | _ | _ <;> simp [luauResult] at hm
    | @jsText _ _ o => rcases o with _ | _ | _ <;> simp [jsResult] at hm
    | @jsBinary _ _ o => rcases o with _ | _ | _ <;> simp [jsResult] at hm
    | @finished r => cases r <;> simp [evaluationError] at hm
    | _ => simp at hm

/-- The `j`th text the script received is the `j`th argument, decoded. -/
theorem received_text {E : Env} {as es s} (h : Run (runV8Client E) as es s) {j : Nat} {bs : Bytes} {t : String}
    (hs : ((luauTextSends es).map Prod.fst)[j]? = some (.string bs)) (ht : (jsTexts es)[j]? = some t) :
    t = lossy bs := by
  have hput : (luauTexts es)[j]? = some t := by
    rw [← puts_textOp]
    apply (text_moves h).nth
    rwa [gets_textOp]
  rw [← luauTextSends_snd, List.getElem?_map] at hput
  rw [List.getElem?_map] at hs
  obtain ⟨⟨v, t'⟩, hp, rfl⟩ := Option.map_eq_some_iff.1 hput
  rw [hp] at hs
  obtain rfl : v = .string bs := by simpa using hs
  obtain ⟨e, he, hv⟩ := List.mem_filterMap.1 (List.mem_of_getElem? hp)
  -- The pair comes from a `sendtext` that succeeded.
  rcases e with ⟨w, t₁ | b⟩ | _ <;> try cases hv
  exact (fromLuaText_string.1 (luauSent_converts h he)).2

/-- The `i`th value `receive` returns is the `i`th message sent. -/
theorem received_echo {E : Env} {as es s} (hmem : E.lua.Allocates) (h : Run (runV8Client E) as es s) {i : Nat}
    {m : ClientMessage} {v : LuaValue} (hm : (jsSent es)[i]? = some m) (hv : (luauReceived es)[i]? = some v) :
    v = m.luau := by
  rw [← gets_hostOp] at hv
  have hput := (host_moves hmem h).nth hv
  rw [puts_hostOp, List.getElem?_map, hm] at hput
  exact (Option.some.inj hput).symm

/-! ## Echoes -/

/-- In every run, whichever string `bs` a `sendtext` carried and whenever its
echo came back: the echo has the bytes of `bs` if and only if `bs` is
well-formed. No two well-formed strings reach the script as one text. -/
theorem echo_iff {E : Env} {as es s} (hmem : E.lua.Allocates) (h : Run (runV8Client E) as es s) :
    (∀ (i j : Nat) bs t v, ((luauTextSends es).map Prod.fst)[j]? = some (.string bs) → (jsTexts es)[j]? = some t →
      (jsSent es)[i]? = some (.sendText (E.v8.toRust (E.v8.ofRust t))) → (luauReceived es)[i]? = some v →
      (v = .string bs ↔ WellFormed bs)) ∧
    ∀ (j j' : Nat) bs bs' t, ((luauTextSends es).map Prod.fst)[j]? = some (.string bs) →
      ((luauTextSends es).map Prod.fst)[j']? = some (.string bs') →
      (jsTexts es)[j]? = some t → (jsTexts es)[j']? = some t → WellFormed bs → WellFormed bs' → bs = bs' := by
  constructor
  · intro i j bs t v hs ht he hv
    rw [E.v8.toRust_ofRust] at he
    rw [received_echo hmem h he hv, received_text h hs ht, ClientMessage.luau, LuaValue.string.injEq]
    exact utf8_lossy_iff bs
  · intro j j' bs bs' t hs hs' ht ht' hw hw'
    have hl : lossy bs = lossy bs' := (received_text h hs ht).symm.trans (received_text h hs' ht')
    calc bs = utf8 (lossy bs) := ((utf8_lossy_iff bs).2 hw).symm
      _ = utf8 (lossy bs') := by rw [hl]
      _ = bs' := (utf8_lossy_iff bs').2 hw'

/-- Two strings out, two texts in, the first one's echo back. -/
def echoRun (a b : Bytes) : List (Action String) :=
  [.host (.sendtext (.string a) none), .host (.sendtext (.string b) none), .loop (.receiveFromHost none),
    .loop (.receiveFromHost none), .js (.receiveText (.start 0)), .js (.receiveText (.poll 0)),
    .js (.receiveText (.start 1)), .js (.receiveText (.poll 1)), .js (.sendText (lossy a)), .loop .forward,
    .host (.receive (.start 0) none), .host (.receive (.poll 0) none)]

theorem echo_iff_ascii :
    ∃ es s, Run (runV8Client (.plain ⟨0, none⟩)) (echoRun [0x61] [0x62]) es s ∧
      ∃ v, (luauReceived es)[0]? = some v ∧ (v = .string [0x61] ↔ WellFormed [0x61]) := by
  have h : Run (runV8Client (.plain ⟨0, none⟩)) (echoRun [0x61] [0x62]) _ _ := run_of_exec rfl
  exact ⟨_, _, h, _, rfl, (echo_iff (Env.plain_allocates _) h).1 0 0 _ _ _ rfl rfl rfl rfl⟩

/-- Two ill-formed strings reach the script as one text, and its echo is neither. -/
theorem stray_bytes_merge :
    ∃ es s, Run (runV8Client (.plain ⟨0, none⟩)) (echoRun [0xFF] [0xFE]) es s ∧
      (luauTextSends es).map Prod.fst = [.string [0xFF], .string [0xFE]] ∧
      jsTexts es = [String.ofList [replacement], String.ofList [replacement]] ∧
      luauReceived es = [.string [0xEF, 0xBF, 0xBD]] := by
  have h : Run (runV8Client (.plain ⟨0, none⟩)) (echoRun [0xFF] [0xFE]) _ _ := run_of_exec rfl
  exact ⟨_, _, h, rfl, rfl, rfl⟩

end LuauFusion
