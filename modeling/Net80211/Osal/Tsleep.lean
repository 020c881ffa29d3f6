import Mathlib.Data.List.Basic

/-!
# `tsleep` and `wakeup` on FreeRTOS

`port/osal/freertos/osal_freertos.c`. A sleeper links a slot with the identifier
it waits for, and `wakeup` marks the slots of an identifier. A wakeup that finds
no slot is stored, and the next sleeper on that identifier uses it up. Nothing
takes a stored wakeup out but such a sleeper. The port to embox has the same two functions and
another clock.

Both functions hold `wlan_tsleep_mtx` where they touch the two lists, so
`tsleep` is two steps, `tsleepEnter` up to the wait and `tsleepLeave` behind it.
Time is left open: a slot that is not marked may be at its deadline. A thread
sleeps in one place at most, and its slot is known by the thread.
-/

namespace Net80211.Osal

open List

/-- `struct wlan_tsleep_slot`. -/
structure TsleepSlot (ι : Type) where
  thread : Nat
  ident : ι
  fired : Bool
  deriving DecidableEq, Repr

structure Tsleep (ι : Type) where
  slots : List (TsleepSlot ι)
  pending : List ι

/-- `WLAN_TSLEEP_PENDING_MAX`. -/
def tsleepPendingMax : Nat := 16

section Tsleep

variable {ι : Type} [DecidableEq ι]

/-- `wlan_tsleep_consume_pending`: the last entry takes the place of the one that
is used up. -/
def tsleepConsumePending (pending : List ι) (ident : ι) : Option (List ι) :=
  if ident ∈ pending then
    some ((pending.set (pending.idxOf ident) (pending.getLastD ident)).dropLast)
  else none

/-- `tsleep` up to the wait. -/
def tsleepEnter (t : Tsleep ι) (thread : Nat) (ident : ι) : Tsleep ι :=
  match tsleepConsumePending t.pending ident with
  | some pending => { slots := ⟨thread, ident, true⟩ :: t.slots, pending := pending }
  | none => { t with slots := ⟨thread, ident, false⟩ :: t.slots }

/-- The end of `tsleep`, and whether it returns 0. -/
def tsleepLeave (t : Tsleep ι) (thread : Nat) : Option (Tsleep ι × Bool) :=
  match t.slots.find? (fun s => s.thread = thread) with
  | none => none
  | some s => some ({ t with slots := t.slots.filter (fun s => s.thread ≠ thread) }, s.fired)

def wakeup (t : Tsleep ι) (ident : ι) : Tsleep ι :=
  if t.slots.any (fun s => s.ident = ident) then
    { t with slots := t.slots.map fun s => if s.ident = ident then { s with fired := true } else s }
  else if t.pending.length < tsleepPendingMax then { t with pending := t.pending ++ [ident] }
  else t

/-- The steps of the threads. -/
inductive TsleepOp (ι : Type) where
  | wakeup (ident : ι)
  | enter (thread : Nat) (ident : ι)
  | leave (thread : Nat)

def tsleepStep (t : Tsleep ι) : TsleepOp ι → Option (Tsleep ι)
  | .wakeup ident => some (wakeup t ident)
  | .enter thread ident => some (tsleepEnter t thread ident)
  | .leave thread => (tsleepLeave t thread).map Prod.fst

/-! ## What the steps do to the slots -/

/-- A new slot is marked only where a wakeup for it is stored. -/
theorem tsleepEnter_slots (t : Tsleep ι) (thread : Nat) (ident : ι) :
    ∃ fired, (tsleepEnter t thread ident).slots = ⟨thread, ident, fired⟩ :: t.slots ∧
      (ident ∉ t.pending → fired = false) := by
  rw [tsleepEnter, tsleepConsumePending]
  by_cases h : ident ∈ t.pending
  · rw [if_pos h]
    exact ⟨true, rfl, fun hn => absurd h hn⟩
  · rw [if_neg h]
    exact ⟨false, rfl, fun _ => rfl⟩

omit [DecidableEq ι] in
theorem tsleepLeave_some {t t' : Tsleep ι} {thread : Nat} {fired : Bool}
    (h : tsleepLeave t thread = some (t', fired)) :
    (∃ s ∈ t.slots, s.thread = thread ∧ s.fired = fired) ∧
      (∀ s ∈ t'.slots, s ∈ t.slots ∧ s.thread ≠ thread) ∧ t'.pending = t.pending := by
  rw [tsleepLeave] at h
  split at h
  · cases h
  next s hs =>
  cases h
  refine ⟨⟨s, mem_of_find?_eq_some hs, ?_, rfl⟩, ?_, rfl⟩
  · simpa using find?_some hs
  · intro s' hs'
    simpa using mem_filter.mp hs'

/-- A slot after a wakeup is a slot from before, marked if it was or has the
identifier. -/
theorem wakeup_slots {t : Tsleep ι} {ident : ι} {s' : TsleepSlot ι}
    (h : s' ∈ (wakeup t ident).slots) : ∃ s ∈ t.slots, s'.thread = s.thread ∧ s'.ident = s.ident ∧
      (s'.fired = true ↔ s.fired = true ∨ s.ident = ident) := by
  rw [wakeup] at h
  split at h
  · obtain ⟨s, hs, rfl⟩ := mem_map.mp h
    refine ⟨s, hs, ?_⟩
    by_cases hid : s.ident = ident
    · rw [if_pos hid]
      exact ⟨rfl, rfl, fun _ => .inr hid, fun _ => rfl⟩
    · rw [if_neg hid]
      exact ⟨rfl, rfl, fun hf => .inl hf, fun hf => hf.resolve_right hid⟩
  · next hnone =>
    have hs : s' ∈ t.slots := by
      split at h <;> exact h
    refine ⟨s', hs, rfl, rfl, fun hf => .inl hf, fun hf => hf.resolve_right fun hid => hnone ?_⟩
    exact any_eq_true.mpr ⟨s', hs, by simpa using hid⟩

end Tsleep

/-! ## The wait

A look at `w.fired` and the clock is a poll: the time, and whether the slot is marked. -/

/-- What `tsleep` returns. -/
inductive SleepRc where
  | zero
  | ewouldblock
  deriving DecidableEq, Repr

/-- The first poll at which the wait ends, and the value that is returned. -/
def firstReturn {τ : Type} (poll : τ × Bool → Option SleepRc) :
    List (τ × Bool) → Option (Nat × SleepRc)
  | [] => none
  | p :: ps =>
    match poll p with
    | some rc => some (0, rc)
    | none => (firstReturn poll ps).map fun r => (r.1 + 1, r.2)

/-- `pdMS_TO_TICKS` with a `configTICK_RATE_HZ` of 1000; `TickType_t` has 64 bits. -/
def pdMsToTicks (ms : UInt64) : UInt64 := ms * 1000 / 1000

/-- `pdTICKS_TO_MS`. -/
def pdTicksToMs (ticks : UInt64) : UInt64 := ticks * 1000 / 1000

/-- The ticks of a timeout, with a `WLAN_HZ` of 100. -/
def timoTicks (timo : Nat) : UInt64 := pdMsToTicks (UInt32.ofNat timo * 1000 / 100).toUInt64

/-- A poll of `tsleep` on FreeRTOS, for a call at the tick `start`: the counter has 64 bits, and
the deadline 0 stands for none. A timeout that is not positive is 0 here. -/
def tsleepPoll (start timo : Nat) (p : Nat × Bool) : Option SleepRc :=
  let deadline := if timo = 0 then 0 else UInt64.ofNat start + timoTicks timo
  if p.2 then some .zero
  else if deadline ≠ 0 then
    let leftMs := pdTicksToMs (deadline - UInt64.ofNat p.1)
    if leftMs.toInt64 ≤ 0 then some .ewouldblock else none
  else none

/-- A poll of `tsleep` on embox, in nanoseconds of the monotonic clock, where `hz` is 100 and the
realtime clock is `offset` ahead. -/
def tsleepPollEmbox (offset start : Int) (timo : Nat) (p : Int × Bool) : Option SleepRc :=
  let deadlineMs := if timo = 0 then -1 else start / 1000000 + timo * 1000 / 100
  let tvSec := (p.1 + offset) / 1000000000
  let tvNsec := (p.1 + offset) % 1000000000
  if p.2 then some .zero
  else if 0 ≤ deadlineMs ∧ deadlineMs - tvSec * 1000 - tvNsec / 1000000 ≤ 0 then some .ewouldblock
  else none

end Net80211.Osal
