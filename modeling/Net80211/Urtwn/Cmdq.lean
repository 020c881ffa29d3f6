import Net80211.Usb.Taskq

/-!
# The command queue of urtwn

`urtwn_do_async` and `urtwn_task` of `driver/urtwn/if_urtwn.c`, over the task
queue they use, for any type `C` of commands (a callback with its argument).

A section under `sc_task_mtx` is one step. `urtwn_do_async` leaves the mutex
before it calls `usb_add_task`, so its two parts are two steps, and there may be
any number of callers between them (`scheduling`). `urtwn_task` leaves the mutex
around each callback. The beacon that it sends in other modes than station comes
before the mutex and touches nothing here, and the `KASSERT`s are compiled out.

`accepted` and `executed` list the commands that were counted in `queued` and the
callbacks that ran; no code reads them.
-/

namespace Net80211.Urtwn

open Lib Usb

/-- `URTWN_HOST_CMD_RING_COUNT`. -/
def hostCmdRingCount : Nat := 32

/-- `struct urtwn_host_cmd_ring`. -/
structure HostCmdRing (C : Type) where
  cmd : Nat → C
  cur : Nat
  next : Nat
  queued : Int

/-- Where `urtwn_task` is: before the mutex, before the callback of a slot, or
behind it. -/
inductive TaskAt where
  | start
  | exec (i : Nat)
  | ran
  deriving DecidableEq, Repr

/-- The part of `struct urtwn_softc` that the queue uses, with the threads in it.
`taskAt` is where the function is while the worker runs the task. -/
structure Softc (C : Type) where
  cmdq : HostCmdRing C
  dying : Bool
  scheduling : Nat
  taskq : Taskq Unit
  taskAt : TaskAt
  accepted : List C
  executed : List C

/-- The operations on the command ring alone. -/
inductive CmdRingOp (C : Type) where
  | doAsync (c : C)
  | die
  | task
  | test
  | call
  | relock
  deriving DecidableEq, Repr

inductive CmdOp (C : Type) where
  | doAsync (c : C)
  | die
  | addTask
  | give
  | take
  | pop
  | test
  | call
  | relock
  | reset
  deriving DecidableEq, Repr

variable {C : Type}

/-- After `urtwn_init`: whatever the slots hold, no command is queued. -/
def cmdqCreate (cmd : Nat → C) (os : Os) : Softc C :=
  { cmdq := { cmd := cmd, cur := 0, next := 0, queued := 0 }
    dying := false, scheduling := 0, taskq := taskqCreate os, taskAt := .start
    accepted := [], executed := [] }

/-- The locked part of `urtwn_do_async`. The slot is written and `cur` moves on in
any case, also when the device is dying or the queue overflows. -/
def urtwnDoAsync (sc : Softc C) (c : C) : Softc C :=
  let ring := { sc.cmdq with
    cmd := Function.update sc.cmdq.cmd sc.cmdq.cur c
    cur := (sc.cmdq.cur + 1) % hostCmdRingCount }
  if sc.dying then { sc with cmdq := ring }
  else if ring.queued = hostCmdRingCount then { sc with cmdq := ring }
  else
    { sc with
      cmdq := { ring with queued := ring.queued + 1 }
      scheduling := if ring.queued = 0 then sc.scheduling + 1 else sc.scheduling
      accepted := sc.accepted ++ [c] }

/-- The head of the loop of `urtwn_task`: the next command, or out of the function. -/
def urtwnTaskTest (sc : Softc C) : Softc C :=
  if sc.cmdq.next ≠ sc.cmdq.cur then { sc with taskAt := .exec sc.cmdq.next }
  else { sc with taskq := { sc.taskq with worker := .returned () } }

/-- A step of the queue under the driver. -/
def taskqUnder (sc : Softc C) (op : TaskOp Unit) : Option (Softc C) :=
  match taskqStep sc.taskq op with
  | none => none
  | some q => some { sc with taskq := q }

def cmdqStep (sc : Softc C) : CmdOp C → Option (Softc C)
  | .doAsync c => some (urtwnDoAsync sc c)
  | .die => some { sc with dying := true }
  | .addTask =>
    if sc.scheduling = 0 then none
    else some { sc with scheduling := sc.scheduling - 1, taskq := usbAddTask sc.taskq () }
  | .give => taskqUnder sc .give
  | .take => taskqUnder sc .take
  | .pop => taskqUnder { sc with taskAt := .start } .pop
  | .test =>
    match sc.taskq.worker, sc.taskAt with
    | .running (), .start => some (urtwnTaskTest sc)
    | _, _ => none
  | .call =>
    match sc.taskq.worker, sc.taskAt with
    | .running (), .exec i =>
      some { sc with taskAt := .ran, executed := sc.executed ++ [sc.cmdq.cmd i] }
    | _, _ => none
  | .relock =>
    match sc.taskq.worker, sc.taskAt with
    | .running (), .ran =>
      some (urtwnTaskTest { sc with
        cmdq := { sc.cmdq with
          queued := sc.cmdq.queued - 1
          next := (sc.cmdq.next + 1) % hostCmdRingCount } })
    | _, _ => none
  | .reset => taskqUnder sc .reset

/-- The worker is in `urtwn_task` and has not made its last test. -/
def Softc.InTask (sc : Softc C) : Prop := sc.taskq.worker = .running ()

/-- The ring without the task queue: `urtwn_task` is called (`task`) at any time at which it is not
running. -/
def cmdRingStep (sc : Softc C) : CmdRingOp C → Option (Softc C)
  | .doAsync c => cmdqStep sc (.doAsync c)
  | .die => cmdqStep sc .die
  | .task =>
    match sc.taskq.worker with
    | .running () => none
    | _ => some { sc with taskq := { sc.taskq with worker := .running () }, taskAt := .start }
  | .test => cmdqStep sc .test
  | .call => cmdqStep sc .call
  | .relock => cmdqStep sc .relock

end Net80211.Urtwn
