import Mathlib.Algebra.Ring.Nat
import Net80211.Usb.Taskq

/-!
# Removal from the USB task queue

`usb_rem_task` and `usb_rem_task_wait` of
`port/bus/usb/cherryusb/usbdi_compat.c`, next to `usb_add_task` and the worker.
Removal leaves the slot where it is and writes NULL over the task, so an entry of
the ring is an `Option`: the queue is a `Taskq` over such entries, and a worker
that runs `none` is one that reads `task->fun` through NULL.

`usb_rem_task_wait` is cut where it can be interrupted: the removal, the test
under `wq_mtx` with the sleep on `wq_cv`, and the return. `added`, `ran` and
`removed` count what became of each task, `lost` the gives that found a token on
FreeRTOS, and `again` of a call says that its task was queued after the last test
of the call; no code reads them.
-/

namespace Net80211.Usb

open Lib Function

/-- Where a call of `usb_rem_task_wait` is: before the test of its loop, on
`wq_cv`, out of the loop, or back at its caller. -/
inductive WaitAt where
  | test
  | asleep
  | left
  | returned
  deriving DecidableEq, Repr

structure RemWait (τ : Type) where
  task : τ
  pos : WaitAt
  again : Bool
  deriving DecidableEq, Repr

structure UsbTasks (τ : Type) where
  q : Taskq (Option τ)
  waits : List (RemWait τ)
  added : τ → Nat
  ran : τ → Nat
  removed : τ → Nat
  lost : Nat

inductive UsbTaskOp (τ : Type) where
  | addTask (t : τ)
  | remTask (t : τ)
  | remTaskWait (t : τ)
  | test (i : Nat)
  | leave (i : Nat)
  | give
  | take
  | pop
  | ret
  | reset
  deriving DecidableEq, Repr

/-- `wlan_workers_start`. -/
def usbTasksCreate {τ : Type} (os : Os) : UsbTasks τ :=
  { q := taskqCreate os, waits := []
    added := fun _ => 0, ran := fun _ => 0, removed := fun _ => 0, lost := 0 }

def usbTasksInit {τ : Type} (os : Os) (s : UsbTasks τ) : Prop := s = usbTasksCreate os

variable {τ : Type} [DecidableEq τ]

/-- The loop of `usb_rem_task` over the slots. -/
def blank (t : τ) (ring : List (Option τ)) : List (Option τ) :=
  ring.map fun e => if e = some t then none else e

/-- `usb_rem_task`. The number of slots and the tokens stay. -/
def usbRemTask (s : UsbTasks τ) (t : τ) : UsbTasks τ :=
  if some t ∈ s.q.tasks.ring then
    { s with
      q := { s.q with
        queue := update s.q.queue (some t) false
        tasks := { s.q.tasks with ring := blank t s.q.tasks.ring } }
      removed := update s.removed t (s.removed t + 1) }
  else s

/-- `usb_add_task` up to its give, where it queues the task. -/
def queueTask (s : UsbTasks τ) (t : τ) : UsbTasks τ :=
  { s with
    q := usbAddTask s.q (some t)
    added := update s.added t (s.added t + 1)
    waits := s.waits.map fun w => if w.task = t then { w with again := true } else w }

/-- `cv_broadcast`. -/
def broadcast (waits : List (RemWait τ)) : List (RemWait τ) :=
  waits.map fun w => if w.pos = .asleep then { w with pos := .test } else w

/-- The worker enters the function of a task. -/
def started (ran : τ → Nat) : Option τ → τ → Nat
  | none => ran
  | some t => update ran t (ran t + 1)

def usbTaskStep (s : UsbTasks τ) : UsbTaskOp τ → Option (UsbTasks τ)
  | .addTask t =>
    if s.q.queue (some t) ∨ usbdShimRing ≤ s.q.tasks.ring.length then some s
    else some (queueTask s t)
  | .remTask t => some (usbRemTask s t)
  | .remTaskWait t =>
    some { usbRemTask s t with waits := s.waits ++ [{ task := t, pos := .test, again := false }] }
  | .test i =>
    match s.waits[i]? with
    | some ⟨t, .test, _⟩ =>
      let pos := if s.q.queue (some t) then .asleep else .left
      some { s with waits := s.waits.set i { task := t, pos := pos, again := false } }
    | _ => none
  | .leave i =>
    match s.waits[i]? with
    | some ⟨t, .left, again⟩ =>
      some { s with waits := s.waits.set i { task := t, pos := .returned, again := again } }
    | _ => none
  | .give =>
    match taskqStep s.q .give with
    | none => none
    | some q =>
      -- On FreeRTOS a give that finds the token there is lost.
      let full := s.q.tasks.sem.os = .freertos ∧ s.q.tasks.sem.count ≠ 0
      some { s with q := q, lost := if full then s.lost + 1 else s.lost }
  | .take =>
    match taskqStep s.q .take with
    | none => none
    | some q => some { s with q := q }
  | .pop =>
    match s.q.worker, s.q.tasks.pop with
    | .loop, some (r, none) => some { s with q := { s.q with tasks := r } }
    | .loop, some (r, some e) =>
      some { s with q := { s.q with tasks := r, worker := .running e }, ran := started s.ran e }
    | _, _ => none
  | .ret =>
    match s.q.worker with
    -- `task->fun` through NULL: the worker does not come back.
    | .running none => none
    | _ =>
      match taskqStep s.q .ret with
      | none => none
      | some q => some { s with q := q }
  | .reset =>
    match taskqStep s.q .reset with
    | none => none
    | some q => some { s with q := q, waits := broadcast s.waits }

end Net80211.Usb
