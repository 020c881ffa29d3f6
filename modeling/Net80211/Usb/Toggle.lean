import Net80211.Lib.Run

/-!
# The data toggle of a bulk pipe

`usbd_transfer` gives a URB the toggle that the pipe has, and `usbd_shim_urb_complete` stores the
toggle of the URB in the pipe (`port/bus/usb/cherryusb/usbdi_compat.c`). Between the two, other
transfers of the pipe may be submitted and complete.

The host controller takes the toggle of a URB for its first packet, changes it with every packet,
and leaves the one after the last packet in the URB. The transfers of a pipe complete in the order
in which they were submitted.
-/

namespace Net80211.Usb

/-- A URB: the toggle it was given, and how many transfers were before it that had not completed
then. -/
structure ToggleUrb where
  start : Bool
  ahead : Nat
  deriving DecidableEq, Repr

/-- A pipe with the URBs that were submitted and the numbers of packets of those that have
completed, both in order. -/
structure TogglePipe where
  dataToggle : Bool
  urbs : List ToggleUrb
  packets : List Nat
  deriving DecidableEq, Repr

inductive ToggleOp where
  /-- `usbd_transfer`, and whether `usbh_submit_urb` takes the URB. -/
  | transfer (taken : Bool)
  /-- The oldest transfer completes. -/
  | complete (packets : Nat)
  deriving DecidableEq, Repr

/-- The toggle after so many packets. -/
def toggled (start : Bool) (packets : Nat) : Bool := if packets % 2 = 1 then !start else start

def toggleStep (p : TogglePipe) : ToggleOp → Option TogglePipe
  | .transfer taken =>
    if taken then
      some { p with urbs :=
        p.urbs ++ [{ start := p.dataToggle, ahead := p.urbs.length - p.packets.length }] }
    else some p
  | .complete packets =>
    match p.urbs[p.packets.length]? with
    | none => none
    | some urb =>
      some { p with dataToggle := toggled urb.start packets, packets := p.packets ++ [packets] }

/-- The pipe is opened. -/
def toggleInit (p : TogglePipe) : Prop := p = { dataToggle := false, urbs := [], packets := [] }

end Net80211.Usb
