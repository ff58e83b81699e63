import LuauFusion.Effects
/-!
# The payload limit

Both sides check a payload's length against `max_payload_size`. Three of the
four send methods measure the bytes they send. `sendtext` measures the bytes of
the Luau string and sends the text decoded from them, which is longer when the
string is ill-formed: every maximal ill-formed subsequence becomes the three
bytes of U+FFFD. `payload_bounded_iff` says which strings the limit still bounds.
-/
open LuauFusion.Lib LuauFusion.Lib.Utf8

namespace LuauFusion

/-! ## Bounded states -/

/-- No queued or in-flight message carries more than `m` bytes. -/
structure Bounded (m : Nat) (s : Sys) : Prop where
  toForeign : ∀ x ∈ s.clientRx.chan.queue, x.payload.length ≤ m
  text : ∀ t ∈ s.textRx.chan.queue, (utf8 t).length ≤ m
  binary : ∀ b ∈ s.binaryRx.chan.queue, b.length ≤ m
  msg : ∀ x ∈ s.msgRx.queue, x.payload.length ≤ m
  toHost : ∀ x ∈ s.hostRx.chan.queue, x.payload.length ≤ m

/-- The bytes `s` either fail `sendtext`'s check or still fit once decoded. -/
def Fits (m : Nat) (s : Bytes) : Prop := m < s.length ∨ s.length + growth s ≤ m

theorem Fits.wellFormed {m : Nat} {s : Bytes} (h : WellFormed s) : Fits m s := by
  unfold Fits
  rw [growth_wellFormed h]
  omega

/-! ## What the checks let through -/

theorem forall_mem_push {α : Type} {P : α → Prop} {q : List α} {x : α} (hq : ∀ y ∈ q, P y) (hx : P x) :
    ∀ y ∈ q ++ [x], P y := by
  intro y hy
  rcases List.mem_append.1 hy with hy | hy
  · exact hq y hy
  · rwa [List.mem_singleton.1 hy]

namespace Bounded
variable {m : Nat} {s : Sys}

theorem nextIteration (hb : Bounded m s) : Bounded m s.nextIteration := { hb with }

theorem poll {rx : Receiver ServerMessage Error (Except Error ServerMessage)} (hb : Bounded m s)
    (hq : ∀ x ∈ rx.chan.queue, x ∈ s.clientRx.chan.queue) : Bounded m { s with clientRx := rx } :=
  { hb with toForeign := fun x hx => hb.toForeign x (hq x hx) }

theorem dispatch {E : Env} {x : ServerMessage} (hi : Inv E s) (hb : Bounded m s) (hx : x.payload.length ≤ m) :
    Bounded m (s.dispatch x) := by
  cases x with
  | sendText t =>
    simp only [Sys.dispatch, Chan.offer_open hi.text_open]
    exact { hb with text := forall_mem_push hb.text hx }
  | sendBinary b =>
    simp only [Sys.dispatch, Chan.offer_open hi.binary_open]
    exact { hb with binary := forall_mem_push hb.binary hx }

end Bounded

end LuauFusion
