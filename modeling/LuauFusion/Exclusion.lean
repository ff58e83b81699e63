import LuauFusion.Effects
/-!
# Receive calls exclude each other

`receiveText`, `receiveBinary`, `receive_from_foreign` and `receive_from_host`
all try their receiver's lock, let go and lock it. `receivers_exclude`: the two
operations act as one, for each of the four and any number of calls. The loop
drops its call on the host's receiver in every iteration, and the next one never
finds the lock taken.
-/
open LuauFusion.Lib LuauFusion.Lib.Utf8

namespace LuauFusion

/-! ## The "already locked" errors are nobody else's -/

theorem prefix_ne {a b : String} (h : a.toList.head? ≠ b.toList.head?) (ha : a ≠ "") (e : String) : a ++ e ≠ b := by
  intro hab
  apply h
  rw [← hab, String.toList_append]
  cases hl : a.toList with
  | nil => exact absurd (String.toList_injective hl) ha
  | cons => rfl

theorem received_foreign_ne (x : Except Error ClientMessage) :
    ConcurrentlyExecuteServer.received x ≠ .error rxLocked := by
  cases x with
  | ok m => simp [ConcurrentlyExecuteServer.received, Except.mapError]
  | error e =>
    simp only [ConcurrentlyExecuteServer.received, Except.mapError, ne_eq, Except.error.injEq]
    exact prefix_ne (by decide) (by decide) e

theorem received_host_ne (x : Except Error ServerMessage) :
    ConcurrentlyExecuteClient.received x ≠ .error rxLocked := by
  cases x with
  | ok m => simp [ConcurrentlyExecuteClient.received, Except.mapError]
  | error e =>
    simp only [ConcurrentlyExecuteClient.received, Except.mapError, ne_eq, Except.error.injEq]
    exact prefix_ne (by decide) (by decide) e

theorem received_js_ne {μ : Type} (kind : String) (x : Except Unit μ) :
    EventBridge.received x ≠ EventBridge.locked kind := by
  rcases x with _ | _ <;> simp [EventBridge.received, EventBridge.locked]

/-! ## The four receivers -/

/-- The loop's own call, in any iteration, never fails with "already locked". -/
theorem own_call_not_locked {E : Env} {s : Sys} (hi : Inv E s) {fault rx o}
    (h : s.clientRx.act ConcurrentlyExecuteClient.receiveFromHost fault (.poll s.iteration) = some (rx, o)) :
    o ≠ some (.error rxLocked) := by
  rcases poll_own hi (act_acts hi.client h) with ⟨rfl, -⟩ | ⟨x, rfl, -⟩
  · simp
  · simpa using received_host_ne x

/-- Each receiver's calls exclude each other and never queue, and in no run does
the loop's call on the host's receiver report that it is already locked. -/
theorem receivers_exclude :
    Excludes EventBridge.receiveText (EventBridge.locked "Text") ∧
      Excludes EventBridge.receiveBinary (EventBridge.locked "Binary") ∧
      Excludes ConcurrentlyExecuteServer.receiveFromForeign (.error rxLocked) ∧
      Excludes ConcurrentlyExecuteClient.receiveFromHost (.error rxLocked) ∧
      ∀ E as es s, Run (runV8Client E) as es s → ∀ fault rx o,
        s.clientRx.act ConcurrentlyExecuteClient.receiveFromHost fault (.poll s.iteration) = some (rx, o) →
          o ≠ some (.error rxLocked) := by
  refine ⟨guarded_excludes (received_js_ne _), guarded_excludes (received_js_ne _),
    guarded_excludes received_foreign_ne, guarded_excludes received_host_ne, ?_⟩
  intro E as es s h fault rx o ha
  exact own_call_not_locked (run_inv h) ha

/-- A second `receiveText` while the first one waits. -/
theorem receivers_exclude_second :
    ∃ as es r, Run (rxMachine EventBridge.receiveText) as es r ∧ r.mutex.holder = some 0 ∧
      ∀ r' out, (rxMachine EventBridge.receiveText).step r (.call (.poll 1) none) = some (r', out) →
        ((1, EventBridge.locked "Text") ∈ out ↔
          r.calls 1 = some EventBridge.receiveText ∧ ∃ c' ≠ 1, r.Suspended c') := by
  have h : Run (rxMachine EventBridge.receiveText)
      [.call (.start 0) none, .call (.poll 0) none, .call (.start 1) none] _ _ := run_of_exec rfl
  exact ⟨_, _, _, h, rfl, fun _ _ ht => receivers_exclude.1.locked h ht⟩

end LuauFusion
