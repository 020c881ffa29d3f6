import Net80211.Osal.Tsleep

/-!
# Firmware commands of iwm

`iwm_send_cmd`, `iwm_cmd_done`, `iwm_free_resp` and what `iwm_stop` and `iwm_init`
do to the command queue, of `driver/iwm/if_iwm.c`, over `tsleep` and `wakeup` of
FreeRTOS.

The calls of the driver and its interrupt handler run under the serializer of the
port, which only `tsleep` lets go of. So a step goes from one sleep to the next:
`send` starts a call, `resume` goes on with one that slept. What a call cannot
know is a parameter: whether there is an mbuf for a long command, whether the NIC
wakes up.

`sent` lists the commands the firmware got, by number, `dones` the completions
that `iwm_cmd_done` was run for and `returned` the ends of the calls; no code
reads them. The firmware may complete any command at any time and any number of
times, and may send completions that belong to no command.
-/

namespace Net80211.Iwm

open Osal Function

/-- `IWM_CMD_QUEUE`. -/
def cmdQueue : Nat := 9

/-- `IWM_TX_RING_COUNT`. -/
def txRingCount : Nat := 256

/-- `IWM_CMD_RESP_IDLE`. -/
def cmdRespIdle : Int := -1

/-- `sizeof(cmd->data)`, `IWM_DEF_CMD_PAYLOAD_SIZE`. -/
def defCmdPayloadSize : Nat := 320

/-- `sizeof(cmd->data_wide)`: the wide header is four octets longer. -/
def defCmdPayloadSizeWide : Nat := defCmdPayloadSize - 8 + 4

/-- `IWM_MAX_CMD_PAYLOAD_SIZE`. -/
def maxCmdPayloadSize : Nat := 4096 - 4 - 4

inductive Errno where
  | ewouldblock
  | enxio
  | einval
  | enomem
  | eio
  deriving DecidableEq, Repr

/-- What the driver sleeps on: a descriptor of the command queue, `sc_wantresp`, or
something else (`sc_fw`, `sc_uc`, `sc_init_complete`). -/
inductive Ident where
  | desc (idx : Nat)
  | wantresp
  | other (n : Nat)
  deriving DecidableEq, Repr

/-- `struct iwm_host_cmd`; `paylen` is the sum of its lengths. -/
structure HostCmd where
  id : UInt32
  async : Bool
  wantSkb : Bool
  paylen : Nat
  deriving DecidableEq, Repr

def cmdGroupid (cmdid : UInt32) : UInt32 := (cmdid &&& 0xff00) >>> 8

/-- The mbuf and its cluster, and the NIC's answer to the access request. -/
structure SendEnv where
  mbuf : Bool
  nicAwake : Bool
  deriving DecidableEq, Repr

/-- Where a thread sleeps: for the response buffer, for the completion of command
number `cmd` on a descriptor, or elsewhere in the driver. -/
inductive Sleep where
  | wantresp (hcmd : HostCmd)
  | done (hcmd : HostCmd) (idx : Nat) (generation : Nat) (cmd : Nat)
  | other (n : Nat)
  deriving DecidableEq, Repr

/-- A command as the firmware got it. -/
structure Sent where
  idx : Nat
  generation : Nat
  deriving DecidableEq, Repr

/-- A run of `iwm_cmd_done` for the command queue, and the command whose
completion it was. -/
structure Done where
  cmd : Option Nat
  idx : Nat
  generation : Nat
  deriving DecidableEq, Repr

/-- The end of a call, with the number of its command if it got that far. -/
structure Returned where
  async : Bool
  cmd : Option Nat
  err : Option Errno
  deriving DecidableEq, Repr

structure Softc where
  wantresp : Int
  stopped : Bool
  generation : Nat
  cur : Nat
  queued : Nat
  apmgWakeUpWa : Bool
  cmdHoldNicAwake : Bool
  tsleep : Tsleep Ident
  sleeps : Nat → Option Sleep
  sent : List Sent
  dones : List Done
  returned : List Returned

inductive CmdOp where
  | send (thread : Nat) (hcmd : HostCmd) (env : SendEnv)
  | resume (thread : Nat) (env : SendEnv)
  | freeResp
  | cmdDone (qid idx : Nat) (cmd : Option Nat)
  | stopDevice
  | stop
  | init
  | sleep (thread : Nat) (n : Nat)
  | wakeup (n : Nat)
  deriving DecidableEq, Repr

def iwmSetCmdInFlight (sc : Softc) (env : SendEnv) : Except Errno Softc :=
  if sc.apmgWakeUpWa && !sc.cmdHoldNicAwake then
    if env.nicAwake then .ok { sc with cmdHoldNicAwake := true } else .error .eio
  else .ok sc

def iwmClearCmdInFlight (sc : Softc) : Softc :=
  if sc.apmgWakeUpWa then { sc with cmdHoldNicAwake := false } else sc

def iwmFreeResp (sc : Softc) : Softc :=
  { sc with wantresp := cmdRespIdle, tsleep := wakeup sc.tsleep .wantresp }

/-- The end of `iwm_send_cmd`, from the label `out` on. -/
def sendOut (sc : Softc) (hcmd : HostCmd) (cmd : Option Nat) (err : Option Errno) : Softc :=
  let sc := if hcmd.wantSkb && err.isSome then iwmFreeResp sc else sc
  { sc with returned := sc.returned ++ [⟨hcmd.async, cmd, err⟩] }

/-- Sleep in `tsleep`. -/
def sleepOn (sc : Softc) (thread : Nat) (ident : Ident) (s : Sleep) : Softc :=
  { sc with
    tsleep := tsleepEnter sc.tsleep thread ident
    sleeps := update sc.sleeps thread (some s) }

/-- The checks on the length, and the mbuf of a long command. -/
def checkLength (hcmd : HostCmd) (env : SendEnv) : Option Errno :=
  let datasz := if cmdGroupid hcmd.id ≠ 0 then defCmdPayloadSizeWide else defCmdPayloadSize
  if datasz < hcmd.paylen then
    if maxCmdPayloadSize < hcmd.paylen then some .einval
    else if env.mbuf then none
    else some .enomem
  else none

/-- `iwm_send_cmd` behind the wait for the response buffer. -/
def sendKick (sc : Softc) (thread : Nat) (hcmd : HostCmd) (env : SendEnv) : Softc :=
  if sc.stopped then sendOut sc hcmd none (some .enxio)
  else
    match checkLength hcmd env with
    | some err => sendOut sc hcmd none (some err)
    | none =>
      match iwmSetCmdInFlight sc env with
      | .error err => sendOut sc hcmd none (some err)
      | .ok sc =>
        let idx := sc.cur
        let cmd := sc.sent.length
        let sc := { sc with
          queued := sc.queued + 1
          cur := (sc.cur + 1) % txRingCount
          sent := sc.sent ++ [⟨idx, sc.generation⟩] }
        if hcmd.async then sendOut sc hcmd (some cmd) none
        else sleepOn sc thread (.desc idx) (.done hcmd idx sc.generation cmd)

/-- `iwm_send_cmd` from the test of the response buffer on. -/
def iwmSendCmd (sc : Softc) (thread : Nat) (hcmd : HostCmd) (env : SendEnv) : Softc :=
  if hcmd.wantSkb then
    if sc.wantresp ≠ cmdRespIdle then sleepOn sc thread .wantresp (.wantresp hcmd)
    else sendKick { sc with wantresp := cmdQueue * 65536 + sc.cur } thread hcmd env
  else sendKick sc thread hcmd env

def iwmCmdDone (sc : Softc) (qid idx : Nat) (cmd : Option Nat) : Softc :=
  if qid ≠ cmdQueue then sc
  else
    let sc := { sc with
      tsleep := wakeup sc.tsleep (.desc idx)
      dones := sc.dones ++ [⟨cmd, idx, sc.generation⟩] }
    if sc.queued = 0 then sc
    else
      let sc := { sc with queued := sc.queued - 1 }
      if sc.queued = 0 then iwmClearCmdInFlight sc else sc

/-- `iwm_stop_device`: the ring is reset. -/
def iwmStopDevice (sc : Softc) : Softc :=
  let sc := { sc with queued := 0, cur := 0 }
  if sc.cmdHoldNicAwake then iwmClearCmdInFlight sc else sc

def iwmStop (sc : Softc) : Softc :=
  iwmStopDevice { sc with stopped := true, generation := sc.generation + 1 }

def iwmInit (sc : Softc) : Softc :=
  { sc with stopped := false, generation := sc.generation + 1 }

/-- Behind a `tsleep` that returned 0 (`fired`) or timed out. -/
def iwmResume (sc : Softc) (thread : Nat) (env : SendEnv) (fired : Bool) : Sleep → Softc
  | .wantresp hcmd =>
    if fired then iwmSendCmd sc thread hcmd env
    else { sc with returned := sc.returned ++ [⟨hcmd.async, none, some .ewouldblock⟩] }
  | .done hcmd _ generation cmd =>
    let err :=
      if fired then if generation ≠ sc.generation then some .enxio else none
      else some .ewouldblock
    sendOut sc hcmd (some cmd) err
  | .other _ => sc

/-- The firmware puts the index of a command into its completion. -/
def Softc.answers (sc : Softc) (idx : Nat) : Option Nat → Bool
  | none => true
  | some cmd => sc.sent[cmd]?.map Sent.idx = some idx

def cmdStep (sc : Softc) : CmdOp → Option Softc
  | .send thread hcmd env =>
    match sc.sleeps thread with
    | none => some (iwmSendCmd sc thread hcmd env)
    | some _ => none
  | .resume thread env =>
    match sc.sleeps thread, tsleepLeave sc.tsleep thread with
    | some s, some (t, fired) =>
      some (iwmResume { sc with
        tsleep := t
        sleeps := update sc.sleeps thread none } thread env fired s)
    | _, _ => none
  | .freeResp => some (iwmFreeResp sc)
  | .cmdDone qid idx cmd =>
    if sc.answers idx cmd then some (iwmCmdDone sc qid idx cmd) else none
  | .stopDevice => some (iwmStopDevice sc)
  | .stop => some (iwmStop sc)
  | .init => some (iwmInit sc)
  | .sleep thread n =>
    match sc.sleeps thread with
    | none => some (sleepOn sc thread (.other n) (.other n))
    | some _ => none
  | .wakeup n => some { sc with tsleep := wakeup sc.tsleep (.other n) }

/-- After `iwm_attach`, before `iwm_init`. -/
def softcInit (apmgWakeUpWa : Bool) : Softc :=
  { wantresp := cmdRespIdle, stopped := false, generation := 0, cur := 0, queued := 0
    apmgWakeUpWa := apmgWakeUpWa, cmdHoldNicAwake := false
    tsleep := { slots := [], pending := [] }, sleeps := fun _ => none
    sent := [], dones := [], returned := [] }

end Net80211.Iwm
