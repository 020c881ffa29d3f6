import Mathlib.Logic.Function.Basic

/-!
# Scans for the supplicant

`freertos_scan2`, `freertos_scan_poll`, `freertos_wireless_event` for
`WLAN_PORT_SCAN_DONE`, `freertos_deauthenticate`, `freertos_init2` and
`freertos_deinit` of `port/wpa/driver_net80211.c` as far as they are about scans,
with `wpa_send_event` and `wpa_process_events` of `port/wpa/supp_main_freertos.c`.

The supplicant is one thread, the event loop: it calls the operations of the driver,
runs the timeouts and takes events off the queue. It has one interface, so `init2` and
`deinit` take turns and the other operations come between them. Notifications come
from the workers of the device drivers, any number of them at a time. An access to
`scan_pending` is one step, and so are reading `ctx` and the section under
`wpa_queue_mtx`; the timeouts belong to the event loop. What the code cannot know is a
parameter: whether memory is there, whether the driver starts the scan, when a
notification comes and when the thirty seconds are over.

`scanPending` is `none` for 0 and `some k` for 1, set by the call `k`; the calls of
`scan2` that set it are numbered, and an event `EVENT_SCAN_RESULTS` carries the number
of the flag it was sent for. `accepted`, `refused`, `cancelled` and `delivered` say
what became of the calls. No code reads the numbers or these lists.
-/

namespace Net80211.Wpa

/-- `WPA_QUEUE_LEN`. -/
def wpaQueueLen : Nat := 32

/-- The events of the queue: the results of a scan and whether it was aborted, any
other event, and the one that only wakes the loop. -/
inductive WpaEvent where
  | scanResults (k : Nat) (aborted : Bool)
  | other
  | dummy
  deriving DecidableEq, Repr

/-- `struct wpa_supplicant_event_msg`, with whether `ctx` is set. -/
structure EventMsg where
  ctx : Bool
  event : WpaEvent
  deriving DecidableEq, Repr

/-- Where the event loop is: outside the operations below, in `scan2` with the flag
set, with the timeout registered, or on the way out; in `freertos_scan_poll`, or there
with the flag taken. -/
inductive LoopAt where
  | loop
  | scan2 (k : Nat)
  | armed (k : Nat)
  | failed (k : Nat)
  | poll
  | timedOut (k : Nat)
  deriving DecidableEq, Repr

/-- Where a call of `freertos_wireless_event` is: behind the test of `ctx`, with the
flag taken, in `wpa_send_event` with the `ctx` it was called with, or back. -/
inductive HandlerAt where
  | entered
  | took (k : Nat)
  | sending (k : Nat) (ctx : Bool)
  | returned
  deriving DecidableEq, Repr

structure Scan where
  ctx : Bool
  scanPending : Option Nat
  timeouts : Nat
  wpaQueue : Nat → EventMsg
  wpaQueueHead : Nat
  wpaQueueTail : Nat
  loop : LoopAt
  handlers : List HandlerAt
  asked : Nat
  accepted : List Nat
  refused : List Nat
  cancelled : List Nat
  delivered : List Nat

inductive ScanOp where
  | init2
  | deinit
  | scan2 (ssids : List (List UInt8))
  | register (mem : Bool)
  | portScan (ok : Bool)
  | fail
  | deauthenticate
  | timeout
  | poll
  | report (mem : Bool)
  | notify
  | exchange (i : Nat)
  | call (i : Nat)
  | send (i : Nat) (mem : Bool)
  | post (mem : Bool) (ctx : Bool) (event : WpaEvent)
  | process
  deriving DecidableEq, Repr

/-- No room in the queue. -/
def Scan.full (s : Scan) : Bool := (s.wpaQueueTail + 1) % wpaQueueLen == s.wpaQueueHead

/-- `wpa_send_event`: the event is dropped where there is no memory or no room. -/
def wpaSendEvent (s : Scan) (mem ctx : Bool) (event : WpaEvent) : Scan :=
  if !mem || s.full then s
  else
    { s with
      wpaQueue := Function.update s.wpaQueue s.wpaQueueTail ⟨ctx, event⟩
      wpaQueueTail := (s.wpaQueueTail + 1) % wpaQueueLen }

/-- `wpa_supplicant_event`, noting the results of a scan. -/
def supplicantEvent (s : Scan) : WpaEvent → Scan
  | .scanResults k _ => { s with delivered := s.delivered ++ [k] }
  | _ => s

/-- One round of `wpa_process_events`. -/
def wpaProcessEvent (s : Scan) : Option Scan :=
  if s.wpaQueueHead = s.wpaQueueTail then none
  else
    let msg := s.wpaQueue s.wpaQueueHead
    let s := { s with wpaQueueHead := (s.wpaQueueHead + 1) % wpaQueueLen }
    some (if msg.event ≠ .dummy ∧ msg.ctx = true then supplicantEvent s msg.event else s)

/-- The arguments that `freertos_scan2` takes. -/
def scanParamsOk (ssids : List (List UInt8)) : Bool :=
  ssids.length ≤ 1 && (ssids.headD []).length ≤ 32

/-- `freertos_scan2` up to the exchange. -/
def scan2 (s : Scan) (ssids : List (List UInt8)) : Scan :=
  if !scanParamsOk ssids then s
  else
    match s.scanPending with
    | some _ => s
    | none => { s with scanPending := some s.asked, asked := s.asked + 1, loop := .scan2 s.asked }

/-- The flag is cleared and the timeouts with it. -/
def Scan.stop (s : Scan) : Scan := { s with scanPending := none, timeouts := 0 }

/-- `freertos_deauthenticate` and the beginning of `freertos_deinit`. -/
def cancelScan (s : Scan) : Scan := { s.stop with cancelled := s.cancelled ++ s.scanPending.toList }

/-- One step. -/
def scanStep (s : Scan) : ScanOp → Option Scan
  | .init2 =>
    if s.loop ≠ .loop ∨ s.ctx then none
    else some { s with ctx := true, scanPending := none }
  | .deinit => if s.loop ≠ .loop ∨ !s.ctx then none else some { cancelScan s with ctx := false }
  | .scan2 ssids => if s.loop ≠ .loop ∨ !s.ctx then none else some (scan2 s ssids)
  | .register mem =>
    match s.loop with
    | .scan2 k =>
      some (if mem then { s with timeouts := 1, loop := .armed k }
        else { s with timeouts := 0, loop := .failed k })
    | _ => none
  | .portScan ok =>
    match s.loop with
    | .armed k =>
      some (if ok then { s with loop := .loop, accepted := s.accepted ++ [k] }
        else { s with loop := .failed k })
    | _ => none
  | .fail =>
    match s.loop with
    | .failed k => some { s.stop with loop := .loop, refused := s.refused ++ [k] }
    | _ => none
  | .deauthenticate => if s.loop ≠ .loop ∨ !s.ctx then none else some (cancelScan s)
  | .timeout =>
    if s.loop ≠ .loop ∨ s.timeouts = 0 then none
    else some { s with timeouts := s.timeouts - 1, loop := .poll }
  | .poll =>
    match s.loop with
    | .poll =>
      match s.scanPending with
      | some k => some { s with scanPending := none, loop := .timedOut k }
      | none => some { s with loop := .loop }
    | _ => none
  | .report mem =>
    match s.loop with
    | .timedOut k => some { wpaSendEvent s mem s.ctx (.scanResults k true) with loop := .loop }
    | _ => none
  | .notify => if s.ctx then some { s with handlers := s.handlers ++ [.entered] } else none
  | .exchange i =>
    match s.handlers[i]? with
    | some .entered =>
      match s.scanPending with
      | some k => some { s with scanPending := none, handlers := s.handlers.set i (.took k) }
      | none => some { s with handlers := s.handlers.set i .returned }
    | _ => none
  | .call i =>
    match s.handlers[i]? with
    | some (.took k) => some { s with handlers := s.handlers.set i (.sending k s.ctx) }
    | _ => none
  | .send i mem =>
    match s.handlers[i]? with
    | some (.sending k ctx) =>
      some { wpaSendEvent s mem ctx (.scanResults k false) with
        handlers := s.handlers.set i .returned }
    | _ => none
  | .post mem ctx event =>
    match event with
    | .scanResults _ _ => none
    | event => some (wpaSendEvent s mem ctx event)
  | .process => if s.loop ≠ .loop then none else wpaProcessEvent s

/-- No scan was asked for, and the queue is empty. -/
def scanInit (s : Scan) : Prop :=
  s.ctx = false ∧ s.scanPending = none ∧ s.timeouts = 0 ∧ s.wpaQueueHead = 0 ∧ s.wpaQueueTail = 0 ∧
    s.loop = .loop ∧ s.handlers = [] ∧ s.asked = 0 ∧ s.accepted = [] ∧ s.refused = [] ∧
    s.cancelled = [] ∧ s.delivered = []

end Net80211.Wpa
