import Mathlib.Algebra.Ring.Nat
import Net80211.Usb.Urbq

/-!
# The transfers of urtwn and their end

`usbd_create_xfer`, `usbd_destroy_xfer`, `usbd_abort_pipe` and `usbd_close_pipe`
of `port/bus/usb/cherryusb/usbdi_compat.c` in the order in which `urtwn_init`,
`urtwn_stop` and `urtwn_detach` of `driver/urtwn/if_urtwn.c` call them, next to
the transfers, the interrupts and the worker of `Urbq`.

A transfer `χ` is one allocation: `urtwn_init` after a stop makes new ones. The
teardown is a list of actions, one for each point at which the worker or an
interrupt can come in between; the initialisation does not overlap with it.
`usbd_transfer` is called on transfers the driver still has in `tx_data` or
`rx_data`. What is freed is only noted: the steps of the shim go on as if the
memory were there, so the first use of freed memory in a run is one of the code.
-/

namespace Net80211.Usb

open Lib Function

/-- A block of the heap. -/
inductive Life where
  | unborn
  | live
  | freed
  deriving DecidableEq, Repr

/-- What the teardown does between two points at which it can be interrupted.
`kill` and the two frees behind it are `usbd_destroy_xfer`, `close` and
`freePipe` are `usbd_close_pipe`. -/
inductive Teardown (π χ : Type) where
  | abort (p : π)
  | kill (x : χ)
  | freeBuf (x : χ)
  | freeXfer (x : χ)
  | close (p : π)
  | freePipe (p : π)
  deriving DecidableEq, Repr

/-- `txData` and `rxData` are the transfers in `tx_data[][].xfer` and
`rx_data[][].xfer`, `txPipe` and `rxPipe` the pipes in `tx_pipe` and `rx_pipe`;
NULL entries are left out. -/
structure UrtwnXfers (π χ : Type) where
  q : Urbq π χ
  txPipe : List π
  rxPipe : List π
  txData : List χ
  rxData : List χ
  pipe : π → Life
  xfer : χ → Life
  -- `dma_buf`, whose size is never 0 here.
  buf : χ → Life
  todo : List (Teardown π χ)

inductive XferOp (π χ : Type) where
  | urb (op : UrbOp π χ)
  | create (tx : Bool) (x : χ)
  | stop
  | detach
  | next
  deriving DecidableEq, Repr

variable {π χ : Type} [DecidableEq π] [DecidableEq χ]

/-- `urtwn_attach` with `urtwn_open_pipes`. -/
def urtwnAttach (os : Os) (pipeOf : χ → π) (tx rx : List π) : UrtwnXfers π χ :=
  { q := urbqCreate pipeOf os, txPipe := tx, rxPipe := rx, txData := [], rxData := []
    pipe := fun p => if p ∈ tx ++ rx then .live else .unborn
    xfer := fun _ => .unborn, buf := fun _ => .unborn, todo := [] }

def urtwnXfersInit (os : Os) (s : UrtwnXfers π χ) : Prop :=
  ∃ pipeOf tx rx, s = urtwnAttach os pipeOf tx rx

/-- The transfers the driver has. -/
def UrtwnXfers.data (s : UrtwnXfers π χ) : List χ := s.txData ++ s.rxData

/-- `urtwn_free_tx_list` and `urtwn_free_rx_list`. -/
def urtwnFreeList (xs : List χ) : List (Teardown π χ) :=
  xs.flatMap fun x => [.kill x, .freeBuf x, .freeXfer x]

/-- `urtwn_stop`. -/
def urtwnStop (s : UrtwnXfers π χ) : List (Teardown π χ) :=
  s.txPipe.map .abort ++ s.rxPipe.map .abort ++ urtwnFreeList s.txData ++ urtwnFreeList s.rxData

/-- `urtwn_close_pipes`. -/
def urtwnClosePipes (ps : List π) : List (Teardown π χ) :=
  ps.flatMap fun p => [.close p, .freePipe p]

/-- `urtwn_detach`. -/
def urtwnDetach (s : UrtwnXfers π χ) : List (Teardown π χ) :=
  urtwnStop s ++ urtwnClosePipes (s.rxPipe ++ s.txPipe)

def teardown (s : UrtwnXfers π χ) : Teardown π χ → UrtwnXfers π χ
  | .abort p => { s with q := usbdAbortPipe s.q p }
  | .kill x =>
    { s with
      q := if s.q.inFlight x then usbhKillUrb s.q x else s.q
      txData := s.txData.filter (· ≠ x)
      rxData := s.rxData.filter (· ≠ x) }
  | .freeBuf x => { s with buf := update s.buf x .freed }
  | .freeXfer x => { s with xfer := update s.xfer x .freed }
  | .close p =>
    -- The loop is the one of `usbd_abort_pipe`.
    { s with
      q := usbdAbortPipe s.q p
      txPipe := s.txPipe.filter (· ≠ p)
      rxPipe := s.rxPipe.filter (· ≠ p) }
  | .freePipe p => { s with pipe := update s.pipe p .freed }

/-- The calls of the shim that are not made by the teardown. -/
def UrtwnXfers.calls (s : UrtwnXfers π χ) : UrbOp π χ → Bool
  | .transfer x => decide (x ∈ s.data)
  | .abort _ => false
  | _ => true

/-- `usbd_create_xfer` for an entry of `tx_data` or `rx_data`. -/
def createXfer (s : UrtwnXfers π χ) (tx : Bool) (x : χ) : UrtwnXfers π χ :=
  { s with
    txData := if tx then s.txData ++ [x] else s.txData
    rxData := if tx then s.rxData else s.rxData ++ [x]
    xfer := update s.xfer x .live
    buf := update s.buf x .live }

def xferStep (s : UrtwnXfers π χ) : XferOp π χ → Option (UrtwnXfers π χ)
  | .urb op =>
    if s.calls op then
      match urbqStep s.q op with
      | none => none
      | some q => some { s with q := q }
    else none
  | .create tx x =>
    if s.todo = [] ∧ s.xfer x = .unborn ∧ s.q.pipe x ∈ (if tx then s.txPipe else s.rxPipe) then
      some (createXfer s tx x)
    else none
  | .stop => if s.todo = [] then some { s with todo := urtwnStop s } else none
  | .detach => if s.todo = [] then some { s with todo := urtwnDetach s } else none
  | .next =>
    match s.todo with
    | [] => none
    | act :: rest => some { teardown s act with todo := rest }

end Net80211.Usb
