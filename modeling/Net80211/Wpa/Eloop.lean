import Mathlib.Algebra.Ring.Int.Defs
import Mathlib.Algebra.Ring.Nat
import Mathlib.Data.List.Sort

/-!
# The event loop

The timeouts of `port/wpa/eloop_port.c` and the clock of `port/wpa/os_port.c`. The helpers for
times are those of hostap's `os.h` (`OsTimeHelpers`), of which only the order is known.

All of this is on the supplicant thread. Between two steps of the loop the code may call
any of the functions: from a handler, from `wpa_process_events` and `wpa_process_jobs`,
and before the loop starts. The clock goes on by itself; `now` is what it reads.

An `os_time_t` has 64 bits. The clock counts less than `2 ^ 64` microseconds and an
interval is two `unsigned int`s, so no sum leaves the range (`Fits` in the invariant).
The list of registrations, the cancelled entries and the runs of the handlers are
history, as is the number in an entry: no code reads them.
-/

namespace Net80211.Wpa

/-! ## Time -/

/-- `struct os_time` and `struct os_reltime`. -/
structure OsTime where
  sec : Int
  usec : Int
  deriving DecidableEq, Repr

/-- The microseconds of a time. -/
def OsTime.us (t : OsTime) : Int := t.sec * 1000000 + t.usec

def OsTime.Normal (t : OsTime) : Prop := 0 ≤ t.usec ∧ t.usec < 1000000

instance decidableNormal (t : OsTime) : Decidable t.Normal := inferInstanceAs (Decidable (_ ∧ _))

/-- `os_time_before` and `os_time_sub`, and `os_reltime_before` and `os_reltime_sub`. -/
class OsTimeHelpers where
  before : OsTime → OsTime → Bool
  sub : OsTime → OsTime → OsTime
  before_iff : ∀ {a b : OsTime}, a.Normal → b.Normal → (before a b = true ↔ a.us < b.us)

export OsTimeHelpers (before_iff)

abbrev OsTime.before [OsTimeHelpers] (a b : OsTime) : Bool := OsTimeHelpers.before a b

abbrev OsTime.sub [OsTimeHelpers] (a b : OsTime) : OsTime := OsTimeHelpers.sub a b

/-- `counter_now`, which `os_get_time` and `os_get_reltime` return: the product is taken
in 64 bits. -/
def counterNow (freq ticks : UInt64) : OsTime :=
  let us := ticks * 1000000 / freq
  ⟨(us / 1000000).toNat, (us % 1000000).toNat⟩

/-- The `while` loop that carries the microseconds over, at most `n` times. -/
def carry : Nat → OsTime → OsTime
  | 0, t => t
  | n + 1, t => if t.usec ≥ 1000000 then carry n ⟨t.sec + 1, t.usec - 1000000⟩ else t

/-- When a timeout that is registered now expires. -/
def expiry (now : OsTime) (secs usecs : UInt32) : OsTime :=
  let usec := now.usec + usecs.toNat
  carry usec.toNat ⟨now.sec + secs.toNat, usec⟩

/-! ## Timeouts -/

/-- `struct eloop_timeout`, with the number of its registration. -/
structure Timeout (η : Type) where
  time : OsTime
  eloopData : UInt64
  userData : UInt64
  handler : η
  id : Nat
  deriving DecidableEq, Repr

/-- `ELOOP_ALL_CTX`, which is `(void *) -1`. -/
def eloopAllCtx : UInt64 := 0xffffffffffffffff

/-- A registration: the entry, what the clock read, and the interval. -/
structure Registration (η : Type) where
  entry : Timeout η
  clock : OsTime
  secs : UInt32
  usecs : UInt32
  deriving DecidableEq, Repr

/-- A call of a handler: the entry, what the clock read, and the list without it. -/
structure HandlerRun (η : Type) where
  entry : Timeout η
  clock : OsTime
  rest : List (Timeout η)
  deriving DecidableEq, Repr

/-- Where `eloop_run` is: at the condition of its loop, in `ksleep`, at the head of the
inner loop, in a handler, or behind the inner loop. -/
inductive EloopAt where
  | top
  | sleep (ms : UInt32)
  | drain (budget : Nat)
  | handler (budget : Nat)
  | events
  | stopped
  deriving DecidableEq, Repr

/-- `struct eloop_data`, the clock and the history. -/
structure Eloop (η : Type) where
  timeout : List (Timeout η)
  terminate : Bool
  loopAt : EloopAt
  now : OsTime
  registered : List (Registration η)
  cancelled : List (Timeout η)
  ran : List (HandlerRun η)

variable {η : Type} [DecidableEq η]

/-- The condition of `eloop_cancel_timeout`. -/
def Timeout.isFor (handler : η) (eloopData userData : UInt64) (t : Timeout η) : Bool :=
  t.handler = handler && (t.eloopData == eloopData || eloopData == eloopAllCtx) &&
    (t.userData == userData || userData == eloopAllCtx)

/-- The condition of the other functions. -/
def Timeout.isExactly (handler : η) (eloopData userData : UInt64) (t : Timeout η) : Bool :=
  t.handler = handler && t.eloopData == eloopData && t.userData == userData

/-- `eloop_register_timeout`. A new entry goes in front of the first one that it is
before. -/
def registerTimeout [OsTimeHelpers] (s : Eloop η) (secs usecs : UInt32) (handler : η)
    (eloopData userData : UInt64) (mem : Bool) : Eloop η × Int :=
  if mem then
    let t : Timeout η :=
      { time := expiry s.now secs usecs, eloopData, userData, handler, id := s.registered.length }
    ({ s with
        timeout := s.timeout.orderedInsert (fun t t' => t.time.before t'.time = true) t
        registered := s.registered ++ [⟨t, s.now, secs, usecs⟩] }, 0)
  else (s, -1)

/-- The loop of `eloop_cancel_timeout`: what stays and what is freed. -/
def unlinkAll (p : Timeout η → Bool) : List (Timeout η) → List (Timeout η) × List (Timeout η)
  | [] => ([], [])
  | t :: ts =>
    let (kept, freed) := unlinkAll p ts
    if p t then (kept, t :: freed) else (t :: kept, freed)

/-- `eloop_cancel_timeout`. -/
def cancelTimeout (s : Eloop η) (handler : η) (eloopData userData : UInt64) : Eloop η × Nat :=
  let (kept, freed) := unlinkAll (Timeout.isFor handler eloopData userData) s.timeout
  ({ s with timeout := kept, cancelled := s.cancelled ++ freed }, freed.length)

/-- `eloop_cancel_timeout_one`, with `*remaining`. -/
def cancelTimeoutOne [OsTimeHelpers] (s : Eloop η) (handler : η) (eloopData userData : UInt64) :
    Eloop η × Nat × OsTime :=
  match s.timeout.find? (Timeout.isExactly handler eloopData userData) with
  | none => (s, 0, ⟨0, 0⟩)
  | some t =>
    ({ s with
        timeout := s.timeout.eraseP (Timeout.isExactly handler eloopData userData)
        cancelled := s.cancelled ++ [t] },
      1, if s.now.before t.time then t.time.sub s.now else ⟨0, 0⟩)

/-- `eloop_is_timeout_registered`. -/
def isTimeoutRegistered (s : Eloop η) (handler : η) (eloopData userData : UInt64) : Bool :=
  s.timeout.any (Timeout.isExactly handler eloopData userData)

/-- `eloop_reschedule_timeout`. The request is compared as it came, before any carry. -/
def rescheduleTimeout [OsTimeHelpers] (s : Eloop η) (secs usecs : UInt32) (handler : η)
    (eloopData userData : UInt64) (onlyShorten mem : Bool) : Eloop η × Int :=
  match s.timeout.find? (Timeout.isExactly handler eloopData userData) with
  | none => (s, -1)
  | some t =>
    let requested : OsTime := ⟨secs.toNat, usecs.toNat⟩
    let remaining := t.time.sub s.now
    if (if onlyShorten then requested.before remaining else remaining.before requested) then
      let s := (cancelTimeout s handler eloopData userData).1
      ((registerTimeout s secs usecs handler eloopData userData mem).1, 1)
    else (s, 0)

def depleteTimeout [OsTimeHelpers] (s : Eloop η) (secs usecs : UInt32) (handler : η)
    (eloopData userData : UInt64) (mem : Bool) : Eloop η × Int :=
  rescheduleTimeout s secs usecs handler eloopData userData true mem

def replenishTimeout [OsTimeHelpers] (s : Eloop η) (secs usecs : UInt32) (handler : η)
    (eloopData userData : UInt64) (mem : Bool) : Eloop η × Int :=
  rescheduleTimeout s secs usecs handler eloopData userData false mem

/-- How long the loop sleeps, in milliseconds. -/
def waitSlice [OsTimeHelpers] (s : Eloop η) : UInt32 :=
  let timeoutMs : UInt32 :=
    match s.timeout with
    | [] => 0
    | t :: _ =>
      let tv := if s.now.before t.time then t.time.sub s.now else ⟨0, 0⟩
      UInt32.ofInt tv.sec * 1000 + UInt32.ofInt (tv.usec / 1000)
  if timeoutMs == 0 || timeoutMs > 20 then 20 else timeoutMs

/-- How many handlers run between two sleeps. -/
def drainBudget : Nat := 16

/-- The next step of `eloop_run`. An entry is off the list before its handler runs. -/
def eloopRun [OsTimeHelpers] (s : Eloop η) : Option (Eloop η) :=
  match s.loopAt with
  | .top => some { s with loopAt := if s.terminate then .stopped else .sleep (waitSlice s) }
  | .sleep _ => some { s with loopAt := .drain 0 }
  | .drain budget =>
    match s.timeout with
    | [] => some { s with loopAt := .events }
    | t :: ts =>
      if budget < drainBudget && !s.now.before t.time then
        some { s with
          timeout := ts, loopAt := .handler budget, ran := s.ran ++ [⟨t, s.now, ts⟩] }
      else some { s with loopAt := .events }
  | .handler budget => some { s with loopAt := .drain (budget + 1) }
  | .events => some { s with loopAt := .top }
  | .stopped => none

/-! ## Runs -/

/-- What the clock can read. -/
def OsTime.IsClock (t : OsTime) : Prop := t.Normal ∧ 0 ≤ t.us ∧ t.us < 2 ^ 64

instance decidableIsClock (t : OsTime) : Decidable t.IsClock := inferInstanceAs (Decidable (_ ∧ _))

inductive EloopOp (η : Type) where
  | tick (now : OsTime)
  | register (secs usecs : UInt32) (handler : η) (eloopData userData : UInt64) (mem : Bool)
  | cancel (handler : η) (eloopData userData : UInt64)
  | cancelOne (handler : η) (eloopData userData : UInt64)
  | deplete (secs usecs : UInt32) (handler : η) (eloopData userData : UInt64) (mem : Bool)
  | replenish (secs usecs : UInt32) (handler : η) (eloopData userData : UInt64) (mem : Bool)
  | terminate
  | run

/-- Is it a step of the loop itself? -/
def EloopOp.isRun : EloopOp η → Bool
  | .run => true
  | _ => false

/-- A step. The clock does not go back. -/
def eloopStep [OsTimeHelpers] (s : Eloop η) : EloopOp η → Option (Eloop η)
  | .tick now => if now.IsClock ∧ s.now.us ≤ now.us then some { s with now := now } else none
  | .register secs usecs handler eloopData userData mem =>
    some (registerTimeout s secs usecs handler eloopData userData mem).1
  | .cancel handler eloopData userData => some (cancelTimeout s handler eloopData userData).1
  | .cancelOne handler eloopData userData => some (cancelTimeoutOne s handler eloopData userData).1
  | .deplete secs usecs handler eloopData userData mem =>
    some (depleteTimeout s secs usecs handler eloopData userData mem).1
  | .replenish secs usecs handler eloopData userData mem =>
    some (replenishTimeout s secs usecs handler eloopData userData mem).1
  | .terminate => some { s with terminate := true }
  | .run => eloopRun s

/-- `eloop_init`. -/
def eloopInit (s : Eloop η) : Prop :=
  s.timeout = [] ∧ s.terminate = false ∧ s.loopAt = .top ∧ s.now.IsClock ∧ s.registered = [] ∧
    s.cancelled = [] ∧ s.ran = []

end Net80211.Wpa
