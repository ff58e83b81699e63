import Mathlib.Logic.Function.Basic
import LuauFusion.Lib.Fifo
/-!
# Async calls on one mutex-guarded receiver

A channel's receiving half behind an async mutex, and any number of calls on
it. A call is a program of `Async`: between two polls it is suspended at an
await, and a poll runs it to the next await that is not ready. One thread
polls, so what a poll does is atomic.

`guarded` is the program that tries the lock, lets go, locks and receives.
`act_acts` says everything a call on a receiver whose calls are all `guarded`
can do; `Exclusive` is the invariant, and `exclusive_step` that it is one.
-/

namespace LuauFusion.Lib

/-! ## Mutex -/

/-- An async mutex: the call whose guard is alive, and the calls in line. -/
structure Mutex where
  holder : Option Nat
  waiters : List Nat
  deriving DecidableEq

namespace Mutex

def free : Mutex := ⟨none, []⟩

def tryLock (m : Mutex) (c : Nat) : Option Mutex :=
  if m.holder = none then some { m with holder := some c } else none

/-- One poll of call `c`'s `lock()`: whether it holds the lock now. -/
def lock (m : Mutex) (c : Nat) : Bool × Mutex :=
  if m.holder = some c then (true, m)
  else if m.holder = none then (true, { m with holder := some c })
  else (false, { m with waiters := if c ∈ m.waiters then m.waiters else m.waiters ++ [c] })

/-- Call `c` drops its guard, which goes to the first call in line, or else
its place in line. -/
def release (m : Mutex) (c : Nat) : Mutex :=
  if m.holder = some c then
    match m.waiters with
    | [] => free
    | w :: ws => ⟨some w, ws⟩
  else { m with waiters := m.waiters.filter (· ≠ c) }

end Mutex

/-! ## Channel -/

/-- A channel: what is queued, what `recv` reports once every sender is gone
and the queue is empty, and what `send` reports once the receiver is gone. -/
structure Chan (μ ε : Type) where
  queue : List μ
  closed : Option ε
  dropped : Option String
  deriving DecidableEq

variable {μ ε ρ ρ' : Type}

namespace Chan

def new : Chan μ ε := ⟨[], none, none⟩

/-- A send, with the error the channel may report at any time. Otherwise it fails only
if nobody can receive. -/
def send (q : Chan μ ε) (fault : Option String) (m : μ) : Except String (Chan μ ε) :=
  match fault.or q.dropped with
  | some e => .error e
  | none => .ok { q with queue := q.queue ++ [m] }

/-- `let _ = q.send(m)`: a message nobody can receive is lost. -/
def offer (q : Chan μ ε) (m : μ) : Chan μ ε :=
  match q.send none m with
  | .ok q' => q'
  | .error _ => q

/-- One poll of `recv()`, with the error the channel may report at any time
without consuming a message. `none` is pending. -/
def recv (q : Chan μ ε) (fault : Option ε) : Option (Except ε μ × Chan μ ε) :=
  match fault with
  | some e => some (.error e, q)
  | none =>
    match q.queue with
    | m :: ms => some (.ok m, { q with queue := ms })
    | [] => q.closed.map fun e => (.error e, q)

theorem send_ok {q q' : Chan μ ε} {fault : Option String} {m : μ} (h : q.send fault m = .ok q') :
    fault = none ∧ q' = { q with queue := q.queue ++ [m] } := by
  unfold send at h
  split at h
  · cases h
  · next hn => exact ⟨(Option.or_eq_none_iff.1 hn).1, (Except.ok.inj h).symm⟩

theorem send_open {q : Chan μ ε} (h : q.dropped = none) (m : μ) :
    q.send none m = .ok { q with queue := q.queue ++ [m] } := by
  simp [send, h]

theorem send_fault (q : Chan μ ε) (e : String) (m : μ) : q.send (some e) m = .error e := rfl

theorem offer_open {q : Chan μ ε} (h : q.dropped = none) (m : μ) :
    q.offer m = { q with queue := q.queue ++ [m] } := by
  simp [offer, send_open h]

/-- What a poll of `recv` that is ready does: it takes the first message, or
reports an error and takes nothing. -/
theorem recv_cases {q q' : Chan μ ε} {fault : Option ε} {x : Except ε μ} (h : q.recv fault = some (x, q')) :
    (∃ m, x = .ok m ∧ fault = none ∧ q.queue = m :: q'.queue ∧ q' = { q with queue := q'.queue }) ∨
    (∃ e, x = .error e ∧ q' = q ∧ (fault = some e ∨ q.closed = some e)) := by
  unfold recv at h
  split at h
  · next e =>
    simp only [Option.some.injEq, Prod.mk.injEq] at h
    exact .inr ⟨e, h.1.symm, h.2.symm, .inl rfl⟩
  · split at h
    · next m ms hq =>
      simp only [Option.some.injEq, Prod.mk.injEq] at h
      obtain ⟨rfl, rfl⟩ := h
      exact .inl ⟨m, rfl, rfl, hq, rfl⟩
    · obtain ⟨e, he, hx⟩ := Option.map_eq_some_iff.1 h
      simp only [Prod.mk.injEq] at hx
      exact .inr ⟨e, hx.1.symm, hx.2.symm, .inr he⟩

end Chan

/-! ## Calls -/

/-- An async function over one mutex and the channel it guards. -/
inductive Async (μ ε ρ : Type) where
  | ret (r : ρ)
  /-- `try_lock()`, its guard dropped on the spot. -/
  | tryLock (k : Bool → Async μ ε ρ)
  /-- `lock().await`, the guard kept to the end of the call. -/
  | lock (k : Async μ ε ρ)
  /-- `recv().await`. -/
  | recv (k : Except ε μ → Async μ ε ρ)

/-- What a poll leaves: a result or the rest of the call, and the two objects
it works on. -/
structure Poll (μ ε ρ : Type) where
  outcome : ρ ⊕ Async μ ε ρ
  mutex : Mutex
  chan : Chan μ ε

namespace Async

def map (f : ρ → ρ') : Async μ ε ρ → Async μ ε ρ'
  | ret r => ret (f r)
  | tryLock k => tryLock fun b => (k b).map f
  | lock k => lock (k.map f)
  | recv k => recv fun x => (k x).map f

/-- Run call `c` to the next await that is not ready, or to its result, where
its guard is dropped. -/
def poll (c : Nat) (fault : Option ε) : Async μ ε ρ → Mutex → Chan μ ε → Poll μ ε ρ
  | ret r, m, q => ⟨.inl r, m.release c, q⟩
  | tryLock k, m, q =>
    match m.tryLock c with
    | some m' => poll c fault (k true) (m'.release c) q
    | none => poll c fault (k false) m q
  | lock k, m, q =>
    match m.lock c with
    | (true, m') => poll c fault k m' q
    | (false, m') => ⟨.inr (lock k), m', q⟩
  | recv k, m, q =>
    match q.recv fault with
    | some (x, q') => poll c fault (k x) m q'
    | none => ⟨.inr (recv k), m, q⟩

/-- The call is suspended on the lock. -/
def OnLock : Async μ ε ρ → Prop
  | lock _ => True
  | _ => False

/-- The call is suspended waiting for a message. -/
def OnRecv : Async μ ε ρ → Prop
  | recv _ => True
  | _ => False

end Async

/-- A receiver and the calls alive on it. -/
structure Receiver (μ ε ρ : Type) where
  mutex : Mutex
  chan : Chan μ ε
  calls : Nat → Option (Async μ ε ρ)

/-- A new call, a poll of a call, or a call's future dropped. -/
inductive CallAct where
  | start (c : Nat)
  | poll (c : Nat)
  | drop (c : Nat)
  deriving DecidableEq

/-- The call an act is about. -/
def CallAct.call : CallAct → Nat
  | start c | poll c | drop c => c

namespace Receiver

def new : Receiver μ ε ρ := ⟨.free, .new, fun _ => none⟩

/-- Call `c` is over, its guard or its place in line given up. -/
def finish (r : Receiver μ ε ρ) (c : Nat) : Receiver μ ε ρ :=
  { r with mutex := r.mutex.release c, calls := Function.update r.calls c none }

/-- One act on a call of `p`, with the call's result if it gets one. -/
def act (p : Async μ ε ρ) (fault : Option ε) (r : Receiver μ ε ρ) : CallAct → Option (Receiver μ ε ρ × Option ρ)
  | .start c =>
    match r.calls c with
    | none => some ({ r with calls := Function.update r.calls c (some p) }, none)
    | some _ => none
  | .poll c =>
    match r.calls c with
    | none => none
    | some p' =>
      let l := p'.poll c fault r.mutex r.chan
      match l.outcome with
      | .inl x => some (⟨l.mutex, l.chan, Function.update r.calls c none⟩, some x)
      | .inr p'' => some (⟨l.mutex, l.chan, Function.update r.calls c (some p'')⟩, none)
  | .drop c =>
    match r.calls c with
    | none => none
    | some _ => some (r.finish c, none)

end Receiver

/-! ## Calls that check, lock and receive -/

section Guarded
variable (locked : ρ) (k : Except ε μ → ρ)

/-- Suspended on `recv`, the lock held. -/
def waiting : Async μ ε ρ := .recv fun x => .ret (k x)

/-- Fail with `locked` if the lock is taken; otherwise lock it and receive. -/
def guarded : Async μ ε ρ := .tryLock fun free => if free then .lock (waiting k) else .ret locked

theorem guarded_ne_waiting : guarded locked k ≠ waiting k := by simp [guarded, waiting]

theorem map_guarded (f : ρ → ρ') : (guarded locked k).map f = guarded (f locked) (f ∘ k) := by
  simp only [guarded, Async.map, Async.tryLock.injEq]
  funext free
  cases free <;> simp [Async.map, waiting]

/-- No call waits for the lock, and it is held by the call that waits for a
message, if there is one. -/
structure Exclusive (r : Receiver μ ε ρ) : Prop where
  shape : ∀ c p, r.calls c = some p → p = guarded locked k ∨ p = waiting k
  line : r.mutex.waiters = []
  holder : ∀ c, r.mutex.holder = some c ↔ r.calls c = some (waiting k)

/-- Everything a call can do to an `Exclusive` receiver. -/
inductive Acts (fault : Option ε) (r : Receiver μ ε ρ) : CallAct → Receiver μ ε ρ → Option ρ → Prop
  | start {c} : r.calls c = none →
      Acts fault r (.start c) { r with calls := Function.update r.calls c (some (guarded locked k)) } none
  /-- The first poll, with another call waiting for a message. -/
  | locked {c c'} : r.calls c = some (guarded locked k) → r.calls c' = some (waiting k) →
      Acts fault r (.poll c) { r with calls := Function.update r.calls c none } (some locked)
  /-- The first poll, with no message. -/
  | suspend {c} : r.calls c = some (guarded locked k) → (∀ c', r.calls c' ≠ some (waiting k)) →
      r.chan.recv fault = none →
      Acts fault r (.poll c) ⟨⟨some c, []⟩, r.chan, Function.update r.calls c (some (waiting k))⟩ none
  | still {c} : r.calls c = some (waiting k) → r.chan.recv fault = none → Acts fault r (.poll c) r none
  | done {c x q} :
      r.calls c = some (waiting k) ∨ r.calls c = some (guarded locked k) ∧ (∀ c', r.calls c' ≠ some (waiting k)) →
      r.chan.recv fault = some (x, q) →
      Acts fault r (.poll c) ⟨.free, q, Function.update r.calls c none⟩ (some (k x))
  | drop {c p} : r.calls c = some p → Acts fault r (.drop c) (r.finish c) none

variable {locked k}

theorem exclusive_new : Exclusive locked k (Receiver.new : Receiver μ ε ρ) := by
  constructor <;> simp [Receiver.new, Mutex.free]

namespace Exclusive

/-- The lock is free exactly when no call waits for a message. -/
theorem holder_none {r : Receiver μ ε ρ} (h : Exclusive locked k r) :
    r.mutex = .free ↔ ∀ c, r.calls c ≠ some (waiting k) := by
  constructor
  · intro hf c hc
    have := (h.holder c).2 hc
    rw [hf] at this
    cases this
  · intro hn
    have hh : r.mutex.holder = none := by
      cases hm : r.mutex.holder with
      | none => rfl
      | some c => exact absurd ((h.holder c).1 hm) (hn c)
    calc r.mutex = ⟨r.mutex.holder, r.mutex.waiters⟩ := rfl
      _ = .free := by rw [hh, h.line]; rfl

theorem mutex_of_waiting {r : Receiver μ ε ρ} (h : Exclusive locked k r) {c : Nat}
    (hc : r.calls c = some (waiting k)) : r.mutex = ⟨some c, []⟩ := by
  calc r.mutex = ⟨r.mutex.holder, r.mutex.waiters⟩ := rfl
    _ = ⟨some c, []⟩ := by rw [(h.holder c).2 hc, h.line]

/-- At most one call waits for a message. -/
theorem unique {r : Receiver μ ε ρ} (h : Exclusive locked k r) {c c' : Nat}
    (hc : r.calls c = some (waiting k)) (hc' : r.calls c' = some (waiting k)) : c = c' := by
  have := (h.mutex_of_waiting hc).symm.trans (h.mutex_of_waiting hc')
  simpa using this

end Exclusive

/-! ### Polls -/

theorem poll_waiting (c : Nat) (fault : Option ε) (q : Chan μ ε) :
    (waiting k).poll c fault ⟨some c, []⟩ q =
      match q.recv fault with
      | some (x, q') => ⟨.inl (k x), .free, q'⟩
      | none => ⟨.inr (waiting k), ⟨some c, []⟩, q⟩ := by
  simp only [waiting, Async.poll]
  cases q.recv fault with
  | none => rfl
  | some y => simp [Mutex.release]

theorem poll_guarded_free (c : Nat) (fault : Option ε) (q : Chan μ ε) :
    (guarded locked k).poll c fault .free q = (waiting k).poll c fault ⟨some c, []⟩ q := by
  simp [guarded, Async.poll, Mutex.tryLock, Mutex.free, Mutex.release, Mutex.lock]

theorem poll_guarded_held {c c' : Nat} (hne : c' ≠ c) (fault : Option ε) (q : Chan μ ε) :
    (guarded locked k).poll c fault ⟨some c', []⟩ q = ⟨.inl locked, ⟨some c', []⟩, q⟩ := by
  simp [guarded, Async.poll, Mutex.tryLock, Mutex.release, hne]

/-- `Acts` is complete. -/
theorem act_acts {r r' : Receiver μ ε ρ} {fault : Option ε} {a : CallAct} {o : Option ρ}
    (h : Exclusive locked k r) (ha : r.act (guarded locked k) fault a = some (r', o)) :
    Acts locked k fault r a r' o := by
  cases a with
  | start c =>
    simp only [Receiver.act] at ha
    split at ha
    · next hc => cases ha; exact .start hc
    · cases ha
  | drop c =>
    simp only [Receiver.act] at ha
    split at ha
    · cases ha
    · next hc => cases ha; exact .drop hc
  | poll c =>
    simp only [Receiver.act] at ha
    split at ha
    · cases ha
    · next p hc =>
      rcases h.shape c p hc with rfl | rfl
      · -- The first poll: the lock is free, or another call holds it.
        by_cases hw : ∀ c', r.calls c' ≠ some (waiting k)
        · rw [h.holder_none.2 hw, poll_guarded_free, poll_waiting] at ha
          cases hr : r.chan.recv fault with
          | none => simp only [hr] at ha; cases ha; exact .suspend hc hw hr
          | some y => simp only [hr] at ha; cases ha; exact .done (.inr ⟨hc, hw⟩) hr
        · push Not at hw
          obtain ⟨c', hc'⟩ := hw
          have hne : c' ≠ c := by
            rintro rfl
            rw [hc] at hc'
            exact guarded_ne_waiting locked k (Option.some.inj hc')
          rw [h.mutex_of_waiting hc', poll_guarded_held hne] at ha
          simp only [Option.some.injEq, Prod.mk.injEq] at ha
          obtain ⟨rfl, rfl⟩ := ha
          rw [← h.mutex_of_waiting hc']
          exact .locked hc hc'
      · rw [h.mutex_of_waiting hc, poll_waiting] at ha
        cases hr : r.chan.recv fault with
        | none =>
          simp only [hr] at ha
          simp only [Option.some.injEq, Prod.mk.injEq] at ha
          obtain ⟨rfl, rfl⟩ := ha
          rw [← h.mutex_of_waiting hc, Function.update_eq_self_iff.2 hc.symm]
          exact .still hc hr
        | some y => simp only [hr] at ha; cases ha; exact .done (.inl hc) hr

/-- `Acts` is sound too. -/
theorem acts_act {r r' : Receiver μ ε ρ} {fault : Option ε} {a : CallAct} {o : Option ρ}
    (h : Exclusive locked k r) (ha : Acts locked k fault r a r' o) :
    r.act (guarded locked k) fault a = some (r', o) := by
  cases ha with
  | start hc => simp only [Receiver.act, hc]
  | drop hc => simp only [Receiver.act, hc]
  | @locked c c' hc hc' =>
    have hne : c' ≠ c := by
      rintro rfl
      rw [hc] at hc'
      exact guarded_ne_waiting locked k (Option.some.inj hc')
    simp only [Receiver.act, hc, h.mutex_of_waiting hc', poll_guarded_held hne]
  | suspend hc hw hr =>
    simp only [Receiver.act, hc, h.holder_none.2 hw, poll_guarded_free, poll_waiting, hr]
  | still hc hr =>
    simp only [Receiver.act, hc, h.mutex_of_waiting hc, poll_waiting, hr]
    rw [← h.mutex_of_waiting hc, Function.update_eq_self_iff.2 hc.symm]
  | done hc hr =>
    rcases hc with hc | ⟨hc, hw⟩
    · simp only [Receiver.act, hc, h.mutex_of_waiting hc, poll_waiting, hr]
    · simp only [Receiver.act, hc, h.holder_none.2 hw, poll_guarded_free, poll_waiting, hr]

/-- Where a message is queued, some call takes it: the one that waits, or else
call `0`, started if need be. -/
theorem Exclusive.takes {r : Receiver μ ε ρ} (h : Exclusive locked k r) {m : μ} {ms : List μ}
    (hq : r.chan.queue = m :: ms) :
    ∃ r₁, (r₁ = r ∨ ∃ c, Acts locked k none r (.start c) r₁ none) ∧
      ∃ c r', Acts locked k none r₁ (.poll c) r' (some (k (.ok m))) ∧ r'.chan.queue = ms := by
  have hr : r.chan.recv none = some (.ok m, { r.chan with queue := ms }) := by simp [Chan.recv, hq]
  by_cases hw : ∃ c, r.calls c = some (waiting k)
  · obtain ⟨c, hc⟩ := hw
    exact ⟨r, .inl rfl, c, _, .done (.inl hc) hr, rfl⟩
  · push Not at hw
    cases h0 : r.calls 0 with
    | some p =>
      rcases h.shape 0 p h0 with rfl | rfl
      · exact ⟨r, .inl rfl, 0, _, .done (.inr ⟨h0, hw⟩) hr, rfl⟩
      · exact absurd h0 (hw 0)
    | none =>
      refine ⟨_, .inr ⟨0, .start h0⟩, 0, _, .done (.inr ⟨by simp, fun c' => ?_⟩) hr, rfl⟩
      by_cases hc : c' = 0
      · subst hc
        simpa using guarded_ne_waiting locked k
      · simpa [hc] using hw c'

/-! ### The invariant -/

/-- Whatever becomes of one call, the others keep their shape. -/
theorem Exclusive.shape_update {r : Receiver μ ε ρ} (h : Exclusive locked k r) {c : Nat} {o : Option (Async μ ε ρ)}
    (ho : ∀ p ∈ o, p = guarded locked k ∨ p = waiting k) (c' : Nat) (p : Async μ ε ρ)
    (hp : Function.update r.calls c o c' = some p) : p = guarded locked k ∨ p = waiting k := by
  rw [Function.update_apply] at hp
  split at hp
  · exact ho p hp
  · exact h.shape c' p hp

/-- Freeing call `c` of an `Exclusive` receiver. -/
theorem Exclusive.finish {r : Receiver μ ε ρ} (h : Exclusive locked k r) (c : Nat) :
    Exclusive locked k (r.finish c) := by
  refine ⟨h.shape_update (by simp), ?_, fun c' => ?_⟩
  · simp only [Receiver.finish, Mutex.release, h.line]
    split <;> simp [Mutex.free]
  · simp only [Receiver.finish, Mutex.release, h.line, Function.update_apply]
    have hh := h.holder c'
    by_cases hc : r.mutex.holder = some c
    · by_cases hcc : c' = c
      · simp [hc, hcc, Mutex.free]
      · rw [hc] at hh
        simp only [hc, hcc, if_true, if_false, Mutex.free, reduceCtorEq, false_iff]
        exact fun hw => hcc (Option.some.inj (hh.2 hw)).symm
    · by_cases hcc : c' = c
      · subst hcc; simp [hc]
      · simpa [hc, hcc] using hh

/-- A call that waits for nothing, starting or ending, leaves the lock alone. -/
theorem Exclusive.update_idle {r : Receiver μ ε ρ} (h : Exclusive locked k r) {c : Nat} {o : Option (Async μ ε ρ)}
    (hc : r.calls c ≠ some (waiting k)) (ho : ∀ p ∈ o, p = guarded locked k) :
    Exclusive locked k { r with calls := Function.update r.calls c o } := by
  have hidle : o ≠ some (waiting k) := by
    rintro rfl
    exact guarded_ne_waiting locked k (ho _ rfl).symm
  refine ⟨h.shape_update fun p hp => .inl (ho p hp), h.line, fun c' => ?_⟩
  have hh := h.holder c'
  simp only [Function.update_apply]
  by_cases hcc : c' = c
  · subst hcc
    simpa [hc, hidle] using hh
  · simpa [hcc] using hh

theorem exclusive_step {r r' : Receiver μ ε ρ} {fault : Option ε} {a : CallAct} {o : Option ρ}
    (h : Exclusive locked k r) (ha : Acts locked k fault r a r' o) : Exclusive locked k r' := by
  have hgw := guarded_ne_waiting locked k
  cases ha with
  | start hc => exact h.update_idle (by simp [hc]) (by simp)
  | locked hc => exact h.update_idle (by simpa [hc] using hgw) (by simp)
  | @suspend c hc hw _ =>
    -- The lock was free, and the call that was polled takes it.
    refine ⟨h.shape_update (by simp), rfl, fun c' => ?_⟩
    simp only [Function.update_apply]
    by_cases hcc : c' = c
    · simp [hcc]
    · simp only [hcc, if_false, Option.some.injEq, Ne.symm hcc, false_iff]
      exact hw c'
  | still => exact h
  | @done c x q hc _ =>
    -- No call but `c` can have held the lock, and `c` is over.
    refine ⟨h.shape_update (by simp), rfl, fun c' => ?_⟩
    simp only [Function.update_apply, Mutex.free, reduceCtorEq, false_iff]
    by_cases hcc : c' = c
    · simp [hcc]
    · rw [if_neg hcc]
      rcases hc with hc | ⟨-, hw⟩
      · exact fun hw => hcc (h.unique hw hc)
      · exact hw c'
  | drop => exact h.finish _

theorem Exclusive.start {r : Receiver μ ε ρ} (h : Exclusive locked k r) {c : Nat} (hc : r.calls c = none) :
    Exclusive locked k { r with calls := Function.update r.calls c (some (guarded locked k)) } := by
  have ha : Acts locked k none r (.start c) _ none := .start hc
  exact exclusive_step h ha

/-- An act changes no other call. -/
theorem acts_frame {r r' : Receiver μ ε ρ} {fault : Option ε} {a : CallAct} {o : Option ρ}
    (ha : Acts locked k fault r a r' o) {c : Nat} (hne : c ≠ a.call) : r'.calls c = r.calls c := by
  cases ha <;> simp only [CallAct.call] at hne <;> simp [Receiver.finish, hne]

/-- What an act does to the channel: nothing, or take the message it returns. -/
theorem acts_outcome {r r' : Receiver μ ε ρ} {fault : Option ε} {a : CallAct} {o : Option ρ}
    (ha : Acts locked k fault r a r' o) :
    (r'.chan = r.chan ∧ (o = none ∨ o = some locked ∨
      ∃ e, o = some (k (.error e)) ∧ (fault = some e ∨ r.chan.closed = some e))) ∨
    (∃ m, o = some (k (.ok m)) ∧ r.chan.queue = m :: r'.chan.queue ∧
      r'.chan = { r.chan with queue := r'.chan.queue }) := by
  cases ha with
  | start => exact .inl ⟨rfl, .inl rfl⟩
  | locked => exact .inl ⟨rfl, .inr (.inl rfl)⟩
  | suspend => exact .inl ⟨rfl, .inl rfl⟩
  | still => exact .inl ⟨rfl, .inl rfl⟩
  | drop => exact .inl ⟨rfl, .inl rfl⟩
  | done _ hr =>
    rcases Chan.recv_cases hr with ⟨m, rfl, -, hq, hq'⟩ | ⟨e, rfl, hq, he⟩
    · exact .inr ⟨m, rfl, hq, hq'⟩
    · exact .inl ⟨hq, .inr (.inr ⟨e, rfl, he⟩)⟩

/-- No act touches either end of the channel. -/
theorem acts_ends {r r' : Receiver μ ε ρ} {fault : Option ε} {a : CallAct} {o : Option ρ}
    (ha : Acts locked k fault r a r' o) : r'.chan.closed = r.chan.closed ∧ r'.chan.dropped = r.chan.dropped := by
  rcases acts_outcome ha with ⟨h, -⟩ | ⟨m, -, -, h⟩ <;> rw [h] <;> exact ⟨rfl, rfl⟩

/-- A message arriving, or the channel closing, is nothing to the calls. -/
theorem Exclusive.with_chan {r : Receiver μ ε ρ} (h : Exclusive locked k r) (q : Chan μ ε) :
    Exclusive locked k { r with chan := q } :=
  ⟨h.shape, h.line, h.holder⟩

/-- The receiver inside a machine: `put r` is a state with the receiver `r`, and
`act` makes a move of the machine of an act on a call. A queued message can be
taken in one or two moves. -/
theorem Exclusive.run_takes {σ α η : Type} {M : Machine σ α η} {put : Receiver μ ε ρ → σ} {act : CallAct → α}
    {shown : Option ρ → List η}
    (hact : ∀ r a r' o, r.act (guarded locked k) none a = some (r', o) →
      M.step (put r) (act a) = some (put r', shown o))
    {r : Receiver μ ε ρ} (h : Exclusive locked k r) {m : μ} {ms : List μ} (hq : r.chan.queue = m :: ms) :
    ∃ as es r', (∀ a ∈ as, ∃ c, a = act (.start c) ∨ a = act (.poll c)) ∧
      M.runFrom (put r) as = some (es, put r') ∧ r'.chan.queue = ms := by
  obtain ⟨r₁, hr₁, c, r', ha, hms⟩ := h.takes hq
  have hpoll : ∀ {r₁}, Exclusive locked k r₁ → Acts locked k none r₁ (.poll c) r' (some (k (.ok m))) →
      M.step (put r₁) (act (.poll c)) = some (put r', shown (some (k (.ok m)))) :=
    fun h₁ ha => hact _ _ _ _ (acts_act h₁ ha)
  rcases hr₁ with rfl | ⟨c₀, hs⟩
  · refine ⟨[act (.poll c)], _, r', ?_, Machine.runFrom_one (hpoll h ha), hms⟩
    intro a hm
    exact ⟨c, .inr (List.mem_singleton.1 hm)⟩
  · have hstart := hact _ _ _ _ (acts_act h hs)
    have h₁ := exclusive_step h hs
    refine ⟨[act (.start c₀)] ++ [act (.poll c)], _, r', ?_,
      Machine.runFrom_append (Machine.runFrom_one hstart) (Machine.runFrom_one (hpoll h₁ ha)), hms⟩
    intro a hm
    rcases List.mem_append.1 hm with hm | hm
    · exact ⟨c₀, .inl (List.mem_singleton.1 hm)⟩
    · exact ⟨c, .inr (List.mem_singleton.1 hm)⟩

end Guarded

/-! ## A receiver on its own -/

/-- What can happen to a receiver: an act on a call, with the error a poll of
the channel may report, a message arriving, or the senders going away. -/
inductive RxAct (μ ε : Type) where
  | call (a : CallAct) (fault : Option ε)
  | arrive (m : μ)
  | close (e : ε)

/-- The call an act polls. -/
def CallAct.polled : CallAct → Option Nat
  | .poll c => some c
  | _ => none

/-- A receiver all of whose calls run `p`; the events are the calls' results. -/
def rxMachine (p : Async μ ε ρ) : Machine (Receiver μ ε ρ) (RxAct μ ε) (Nat × ρ) where
  init := .new
  step r
    | .call a fault =>
      match r.act p fault a with
      | none => none
      | some (r', o) => some (r', (o.bind fun x => a.polled.map fun c => (c, x)).toList)
    | .arrive m =>
      match r.chan.send none m with
      | .ok q => some ({ r with chan := q }, [])
      | .error _ => none
    | .close e => some ({ r with chan := { r.chan with closed := some e } }, [])

/-- The invariant holds in every state a receiver of guarded calls reaches. -/
theorem rx_exclusive {locked : ρ} {k : Except ε μ → ρ} {as es r}
    (h : Run (rxMachine (guarded locked k)) as es r) : Exclusive locked k r := by
  refine h.inv (fun _ _ r => Exclusive locked k r) exclusive_new ?_
  intro _ _ r a r' out _ ih ht
  cases a with
  | call a fault =>
    simp only [rxMachine] at ht
    split at ht
    · cases ht
    · next hact => cases ht; exact exclusive_step ih (act_acts ih hact)
  | arrive m =>
    simp only [rxMachine] at ht
    split at ht
    · cases ht; exact ih.with_chan _
    · cases ht
  | close e => simp only [rxMachine, Option.some.injEq] at ht; cases ht; exact ih.with_chan _

/-- Call `c` is suspended waiting for a message. -/
def Receiver.Suspended (r : Receiver μ ε ρ) (c : Nat) : Prop := ∃ q, r.calls c = some q ∧ q.OnRecv

/-- Calls of `p` exclude each other and never queue, whatever happens to their
receiver: the lock is held exactly while one call waits for a message, no call
waits for the lock, and a call fails with `locked` exactly if it is polled for
the first time, being `p` still, while another one waits. -/
structure Excludes (p : Async μ ε ρ) (locked : ρ) : Prop where
  held : ∀ {as es r}, Run (rxMachine p) as es r → ((∃ c, r.mutex.holder = some c) ↔ ∃! c, r.Suspended c)
  unqueued : ∀ {as es r}, Run (rxMachine p) as es r → r.mutex.waiters = [] ∧ ∀ c q, r.calls c = some q → ¬ q.OnLock
  polled : ∀ {as es r}, Run (rxMachine p) as es r → ∀ {c fault r' out},
    (rxMachine p).step r (.call (.poll c) fault) = some (r', out) → r'.calls c ≠ some p
  locked : ∀ {as es r}, Run (rxMachine p) as es r → ∀ {c fault r' out},
    (rxMachine p).step r (.call (.poll c) fault) = some (r', out) →
      ((c, locked) ∈ out ↔ r.calls c = some p ∧ ∃ c' ≠ c, r.Suspended c')

section Guarded
variable {locked : ρ} {k : Except ε μ → ρ}

theorem Exclusive.suspended_iff {r : Receiver μ ε ρ} (h : Exclusive locked k r) (c : Nat) :
    r.Suspended c ↔ r.calls c = some (waiting k) := by
  constructor
  · rintro ⟨q, hq, hr⟩
    rcases h.shape c q hq with rfl | rfl
    · cases hr
    · exact hq
  · intro hc
    exact ⟨_, hc, trivial⟩

theorem Exclusive.held {r : Receiver μ ε ρ} (h : Exclusive locked k r) :
    (∃ c, r.mutex.holder = some c) ↔ ∃! c, r.Suspended c := by
  simp only [h.suspended_iff, h.holder]
  constructor
  · rintro ⟨c, hc⟩
    exact ⟨c, hc, fun c' hc' => h.unique hc' hc⟩
  · rintro ⟨c, hc, -⟩
    exact ⟨c, hc⟩

theorem Exclusive.unqueued {r : Receiver μ ε ρ} (h : Exclusive locked k r) (c : Nat) (q : Async μ ε ρ)
    (hq : r.calls c = some q) : ¬ q.OnLock := by
  rcases h.shape c q hq with rfl | rfl <;> exact id

/-- A poll yields `locked` on the first poll with another call waiting, and
only then, if receiving never yields it. -/
theorem Exclusive.locked_iff {r r' : Receiver μ ε ρ} {fault : Option ε} {c : Nat} {o : Option ρ}
    (h : Exclusive locked k r) (hk : ∀ x, k x ≠ locked) (ha : Acts locked k fault r (.poll c) r' o) :
    o = some locked ↔ r.calls c = some (guarded locked k) ∧ ∃ c' ≠ c, r.Suspended c' := by
  have hgw := guarded_ne_waiting locked k
  simp only [h.suspended_iff]
  cases ha with
  | @locked _ c' hc hc' =>
    refine iff_of_true rfl ⟨hc, c', ?_, hc'⟩
    rintro rfl
    exact hgw (Option.some.inj (hc.symm.trans hc'))
  | suspend hc hw =>
    refine iff_of_false (by simp) ?_
    rintro ⟨-, c', -, hc'⟩
    exact hw c' hc'
  | still hc =>
    refine iff_of_false (by simp) ?_
    rintro ⟨hc', -⟩
    exact hgw (Option.some.inj (hc'.symm.trans hc))
  | @done _ x q hc hr =>
    refine iff_of_false (by simp [hk x]) ?_
    rintro ⟨hcg, c', -, hc'⟩
    rcases hc with hc | ⟨-, hw⟩
    · exact hgw (Option.some.inj (hcg.symm.trans hc))
    · exact hw c' hc'

/-- A polled call is over or waits for a message. -/
theorem acts_polled {r r' : Receiver μ ε ρ} {fault : Option ε} {c : Nat} {o : Option ρ}
    (ha : Acts locked k fault r (.poll c) r' o) : r'.calls c ≠ some (guarded locked k) := by
  have hwg : some (waiting k) ≠ some (guarded locked k) :=
    fun h => guarded_ne_waiting locked k (Option.some.inj h).symm
  cases ha with
  | locked => simp
  | suspend => simpa using hwg
  | still hc => rw [hc]; exact hwg
  | done => simp

/-- What a poll of an exclusive receiver's call does, as the machine shows it. -/
theorem rx_poll {as es r} (h : Run (rxMachine (guarded locked k)) as es r) {c : Nat} {fault : Option ε}
    {r' : Receiver μ ε ρ} {out : List (Nat × ρ)}
    (ht : (rxMachine (guarded locked k)).step r (.call (.poll c) fault) = some (r', out)) :
    ∃ o, Acts locked k fault r (.poll c) r' o ∧ ((c, locked) ∈ out ↔ o = some locked) := by
  simp only [rxMachine] at ht
  split at ht
  · cases ht
  · next rx o hact =>
    simp only [Option.some.injEq, Prod.mk.injEq] at ht
    obtain ⟨rfl, rfl⟩ := ht
    refine ⟨o, act_acts (rx_exclusive h) hact, ?_⟩
    cases o <;> simp [CallAct.polled, eq_comm]

/-- Checking, then locking, excludes: nothing can come between the two. -/
theorem guarded_excludes (hk : ∀ x, k x ≠ locked) : Excludes (guarded locked k) locked where
  held h := (rx_exclusive h).held
  unqueued h := ⟨(rx_exclusive h).line, (rx_exclusive h).unqueued⟩
  polled := by
    intro as es r h c fault r' out ht
    obtain ⟨o, ha, -⟩ := rx_poll h ht
    exact acts_polled ha
  locked := by
    intro as es r h c fault r' out ht
    obtain ⟨o, ha, hout⟩ := rx_poll h ht
    rw [hout]
    exact (rx_exclusive h).locked_iff hk ha

end Guarded

end LuauFusion.Lib
