import Mathlib.Algebra.Ring.Nat
import Net80211.Wpa.Scan

/-!
# Driver events

`wpa_send_event`, `wpa_event_copy_free` and `wpa_process_events` of
`port/wpa/supp_main_freertos.c`, with the memory of the messages. (`Wpa.Scan` has the
same queue with less of it, for the events of a scan.)

Any number of threads send at a time, and the event loop takes the messages off. What a
call allocates and fills in before it has the lock is its own, so that part is one step;
the section under `wpa_queue_mtx` is another, and then the call returns. The event loop
takes a message off in one step and handles and frees it in the next.

A block of memory is named by the call that allocated it and by what it is for, or
belongs to the producer. Contents and lengths are left out: the code follows no pointer
itself except to copy. The records of a call behind `event`, the lists of calls that were
queued, handled and delivered, and the returned values are history: no code reads them.
-/

namespace Net80211.Wpa

open Function

/-! ## Memory -/

/-- The allocations of `wpa_send_event`. -/
inductive Part where
  | msg
  | copy
  | src
  | data
  | addr
  deriving DecidableEq, Repr

inductive MemBlock where
  | own (k : Nat) (part : Part)
  | producer (addr : Nat)
  deriving DecidableEq, Repr

/-- A pointer; `none` is `NULL`. -/
abbrev MemPtr := Option MemBlock

/-- An event and its `union wpa_event_data`, if there is one: the source address and the
frame of an EAPOL frame, the address and the element of a deauthentication, the address
and all other pointers of an association, and what other unions hold. -/
inductive Event where
  | eapolRx (data : Option (MemPtr × MemPtr))
  | deauth (data : Option (MemPtr × MemPtr))
  | assoc (data : Option (MemPtr × List MemPtr))
  | scanResults (data : Option (List MemPtr))
  | other (event : Int) (data : Option (List MemPtr))
  deriving DecidableEq, Repr

/-- `event >= 0`. -/
def Event.isEvent : Event → Bool
  | .other event _ => event ≥ 0
  | _ => true

def Event.hasData : Event → Bool
  | .eapolRx data => data.isSome
  | .deauth data => data.isSome
  | .assoc data => data.isSome
  | .scanResults data => data.isSome
  | .other _ data => data.isSome

/-- The pointers a handler finds in the union. -/
def Event.pointers : Event → List MemBlock
  | .eapolRx (some (src, data)) => src.toList ++ data.toList
  | .deauth (some (addr, ie)) => addr.toList ++ ie.toList
  | .assoc (some (addr, ptrs)) => addr.toList ++ ptrs.filterMap id
  | .scanResults (some ptrs) => ptrs.filterMap id
  | .other _ (some ptrs) => ptrs.filterMap id
  | _ => []

/-- What a call allocates if nothing fails. -/
def Event.parts : Event → List Part
  | .eapolRx (some _) => [.msg, .copy, .src, .data]
  | .deauth (some _) => [.msg, .copy, .addr]
  | .assoc (some (some _, _)) => [.msg, .copy, .addr]
  | .assoc (some (none, _)) => [.msg, .copy]
  | .scanResults (some _) => [.msg, .copy]
  | .other _ (some _) => [.msg, .copy]
  | _ => [.msg]

/-- `wpa_event_copy_free`: what it frees. -/
def eventCopyFree : Event → List MemBlock
  | .eapolRx (some (src, data)) => src.toList ++ data.toList
  | .deauth (some (addr, ie)) => addr.toList ++ ie.toList
  | .assoc (some (addr, _)) => addr.toList
  | _ => []

/-! ## A message -/

/-- `struct wpa_supplicant_event_msg`, with whether `ctx` is set and the call it is from. -/
structure Msg where
  k : Nat
  ctx : Bool
  event : Event
  deriving DecidableEq, Repr

/-- What is freed for a message: behind the handler, and where the queue is full. -/
def Msg.release (m : Msg) : List MemBlock :=
  eventCopyFree m.event ++ (if m.event.hasData then [.own m.k .copy] else []) ++ [.own m.k .msg]

/-- What the first part of `wpa_send_event` allocates and frees, and the event with the
copied union; `none` where it returns -1. -/
structure Built where
  allocated : List MemBlock
  freed : List MemBlock
  event : Option Event
  deriving DecidableEq, Repr

/-- `wpa_send_event` up to the lock. `mem` says which allocations succeed. -/
def sendBuild (k : Nat) (mem : Part → Bool) (event : Event) : Built :=
  let msg := MemBlock.own k .msg
  let copy := MemBlock.own k .copy
  let addr := MemBlock.own k .addr
  if !mem .msg then ⟨[], [], none⟩
  else if !event.hasData then ⟨[msg], [], some event⟩
  else if !mem .copy then ⟨[msg], [msg], none⟩
  else
    match event with
    | .eapolRx _ =>
      let src := if mem .src then some (MemBlock.own k .src) else none
      let buf := if mem .data then some (MemBlock.own k .data) else none
      let allocated := [msg, copy] ++ src.toList ++ buf.toList
      if src.isNone || buf.isNone then ⟨allocated, src.toList ++ buf.toList ++ [copy, msg], none⟩
      else ⟨allocated, [], some (.eapolRx (some (src, buf)))⟩
    | .deauth data =>
      if !mem .addr then ⟨[msg, copy], [copy, msg], none⟩
      else ⟨[msg, copy, addr], [], some (.deauth (data.map fun d => (some addr, d.2)))⟩
    | .assoc (some (some _, ptrs)) =>
      if !mem .addr then ⟨[msg, copy], [copy, msg], none⟩
      else ⟨[msg, copy, addr], [], some (.assoc (some (some addr, ptrs)))⟩
    | .assoc data => ⟨[msg, copy], [], some (.assoc data)⟩
    | .scanResults data => ⟨[msg, copy], [], some (.scanResults data)⟩
    | .other event _ => ⟨[msg, copy], [copy], some (.other event none)⟩

/-- `os_memdup` has memory and copies from `NULL`: the call comes to no end. -/
def Event.faults (mem : Part → Bool) (event : Event) : Bool :=
  mem .msg && mem .copy && match event with
    | .eapolRx (some (src, data)) => mem .src && src.isNone || mem .data && data.isNone
    | .deauth (some (addr, _)) => mem .addr && addr.isNone
    | _ => false

/-! ## Calls and the queue -/

/-- Where a call of `wpa_send_event` is: at its start, out of memory, before the lock with
the message, behind it with the queue full or the message queued, or back. -/
inductive SendAt where
  | entered
  | refused
  | ready (m : Msg)
  | full (m : Msg)
  | queued
  | returned (ret : Int)
  deriving DecidableEq, Repr

/-- A call, which allocations succeeded, how many messages it found when it had the lock,
which calls had returned 0 before it began, and the memory of its message. -/
structure SendCall where
  ctx : Bool
  event : Event
  sendAt : SendAt
  mem : Option (Part → Bool)
  found : Option Nat
  earlier : List Nat
  allocated : List MemBlock
  freed : List MemBlock

/-- Where the event loop is: outside of `wpa_process_events`, at the head of its loop, or
with a message. -/
inductive ProcessAt where
  | idle
  | loop (budget : Nat)
  | handling (budget : Nat) (m : Msg)
  deriving DecidableEq, Repr

structure EventQ where
  wpaQueue : Nat → Msg
  wpaQueueHead : Nat
  wpaQueueTail : Nat
  calls : Nat → Option SendCall
  next : Nat
  processAt : ProcessAt
  enqueued : List Nat
  handled : List Nat
  delivered : List Nat
  returned : List (Nat × Int)

def EventQ.setCall (s : EventQ) (k : Nat) (c : SendCall) : EventQ :=
  { s with calls := update s.calls k (some c) }

/-- The call `k` returns. -/
def sendReturn (s : EventQ) (k : Nat) (c : SendCall) (ret : Int) : EventQ :=
  { s.setCall k { c with sendAt := .returned ret } with returned := s.returned ++ [(k, ret)] }

/-- The part of `wpa_send_event` under the lock. -/
def sendLocked (s : EventQ) (k : Nat) (c : SendCall) (m : Msg) : EventQ :=
  let c := { c with found := some ((s.wpaQueueTail + wpaQueueLen - s.wpaQueueHead) % wpaQueueLen) }
  if (s.wpaQueueTail + 1) % wpaQueueLen = s.wpaQueueHead
    then s.setCall k { c with sendAt := .full m }
  else
    { s.setCall k { c with sendAt := .queued } with
      wpaQueue := update s.wpaQueue s.wpaQueueTail m
      wpaQueueTail := (s.wpaQueueTail + 1) % wpaQueueLen
      enqueued := s.enqueued ++ [k] }

/-- The next step of the call `k`. -/
def sendStep (s : EventQ) (k : Nat) (c : SendCall) (mem : Part → Bool) : Option EventQ :=
  match c.sendAt with
  | .entered =>
    let b := sendBuild k mem c.event
    let sendAt := match b.event with
      | none => .refused
      | some event => .ready ⟨k, c.ctx, event⟩
    if c.event.faults mem then none
    else some (s.setCall k
      { c with mem := some mem, allocated := b.allocated, freed := b.freed, sendAt := sendAt })
  | .refused => some (sendReturn s k c (-1))
  | .ready m => some (sendLocked s k c m)
  | .full m => some (sendReturn s k { c with freed := c.freed ++ m.release } (-1))
  | .queued => some (sendReturn s k c 0)
  | .returned _ => none

/-- The message of the event loop is freed. -/
def freeMsg (calls : Nat → Option SendCall) (m : Msg) : Nat → Option SendCall :=
  update calls m.k ((calls m.k).map fun c => { c with freed := c.freed ++ m.release })

/-- The next step of `wpa_process_events`. -/
def processStep (s : EventQ) : EventQ :=
  match s.processAt with
  | .idle => { s with processAt := .loop wpaQueueLen }
  | .loop 0 => { s with processAt := .idle }
  | .loop (budget + 1) =>
    if s.wpaQueueHead = s.wpaQueueTail then { s with processAt := .idle }
    else
      { s with
        wpaQueueHead := (s.wpaQueueHead + 1) % wpaQueueLen
        processAt := .handling budget (s.wpaQueue s.wpaQueueHead) }
  | .handling budget m =>
    { s with
      calls := freeMsg s.calls m
      handled := s.handled ++ [m.k]
      delivered := if m.event.isEvent && m.ctx then s.delivered ++ [m.k] else s.delivered
      processAt := .loop budget }

inductive EventOp where
  | call (ctx : Bool) (event : Event)
  | send (k : Nat) (mem : Part → Bool)
  | process

def EventOp.isProcess : EventOp → Bool
  | .process => true
  | _ => false

def eventStep (s : EventQ) : EventOp → Option EventQ
  | .call ctx event =>
    let earlier := (s.returned.filter fun r => r.2 = 0).map fun r => r.1
    some { s.setCall s.next ⟨ctx, event, .entered, none, none, earlier, [], []⟩
      with next := s.next + 1 }
  | .send k mem =>
    match s.calls k with
    | none => none
    | some c => sendStep s k c mem
  | .process => some (processStep s)

/-- `wpa_send_dummy_event`. -/
def sendDummy : EventOp := .call false (.other (-1) none)

def eventInit (s : EventQ) : Prop :=
  s.wpaQueueHead = 0 ∧ s.wpaQueueTail = 0 ∧ s.calls = (fun _ => none) ∧ s.next = 0 ∧
    s.processAt = .idle ∧ s.enqueued = [] ∧ s.handled = [] ∧ s.delivered = [] ∧ s.returned = []

end Net80211.Wpa
