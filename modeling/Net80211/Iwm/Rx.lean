import Net80211.Lib.Bytes
import Net80211.Lib.Run

/-!
# The receive ring of iwm

The device writes a packet to the address in the descriptor of a slot; the driver reads it where
the data pointer of the slot's mbuf is. From `driver/iwm/if_iwm.c` these are `iwm_rx_addbuf`,
`iwm_rx_rx_mpdu`, a round of the loop of `iwm_notif_intr`, `iwm_alloc_rx_ring` and
`iwm_reset_rx_ring`, with the addresses that `m_get_impl` of `port/net/embox/bsd_mbuf.c` gives and
with `bus_dmamap_load_mbuf` of `port/bus/pcie/embox/pcie_embox.c`, which maps an mbuf where its data
pointer is and does not fail.

Memory is a function from addresses to octets; the device, and everybody else, may write to it at
any time. Of a notification only the two that matter for the ring are told apart, a PHY record and
an MPDU, and what the 802.11 layer does with a frame is left out. `raw` is what `sysmalloc`
returns.
-/

namespace Net80211.Iwm

open Lib Function

/-- `IWM_RX_RING_COUNT`. -/
def rxRingCount : Nat := 256

/-- `IWM_RBUF_SIZE`. -/
def rbufSize : Nat := 4096

/-- `m_data` of a new mbuf with a packet header, for an object at `raw`: the cluster is aligned
and the data begin `MH_ALIGN` behind it. -/
def mbufData (sizeofMbuf raw : Nat) : Nat := (raw + sizeofMbuf + 255) / 256 * 256 + 256

/-- `struct iwm_rx_data` with its mbuf: data pointer and length, and where the map leads. -/
structure RxData where
  mData : Nat
  mLen : Nat
  dsAddr : Nat
  deriving DecidableEq, Repr

/-- An MPDU that was looked at: the slot, the frame, and what decides whether it is handed up: the
count in the last PHY record, the status behind the frame, and what `sysmalloc` had to offer. -/
structure RxMpdu where
  slot : Nat
  frame : List UInt8
  cfgPhyCnt : UInt8
  rxPktStatus : Nat
  raw : Option Nat
  deriving DecidableEq, Repr

/-- Memory, the ring, `cfg_phy_cnt` of `sc_last_phy_info`, and the MPDUs so far, the last one
first. -/
structure RxSoftc where
  mem : Nat → UInt8
  data : Nat → Option RxData
  desc : Nat → Nat
  cur : Nat
  cfgPhyCnt : UInt8
  mpdus : List RxMpdu

/-- The number in `n` octets, least significant first. -/
def rdLe (mem : Nat → UInt8) (i n : Nat) : Nat :=
  (window mem i n).foldr (fun b v => b.toNat + 256 * v) 0

/-- `iwm_rx_addbuf`; the second component says whether there was an error. A descriptor has 32
bits. -/
def rxAddbuf (sizeofMbuf : Nat) (raw : Option Nat) (sc : RxSoftc) (idx : Nat) : RxSoftc × Bool :=
  match raw with
  | none => (sc, true)
  | some raw =>
    let mData := mbufData sizeofMbuf raw
    ({ sc with
        data := update sc.data idx (some { mData, mLen := rbufSize, dsAddr := mData })
        desc := update sc.desc idx (mData / 256 % 2 ^ 32) }, false)

/-- `iwm_alloc_rx_ring`, where it succeeds. -/
def allocRxRing (sizeofMbuf : Nat) (raws : Nat → Option Nat) (sc : RxSoftc) : Option RxSoftc :=
  (List.range rxRingCount).foldlM (fun sc i =>
    match rxAddbuf sizeofMbuf (raws i) sc i with
    | (_, true) => none
    | (sc, false) => some sc) { sc with cur := 0, data := fun _ => none }

/-- `IWM_RX_MPDU_RES_STATUS_CRC_OK` and `IWM_RX_MPDU_RES_STATUS_OVERRUN_OK`, the two lowest bits. -/
def rxStatusOk (rxPktStatus : Nat) : Bool := rxPktStatus % 2 = 1 ∧ rxPktStatus / 2 % 2 = 1

/-- `iwm_rx_rx_mpdu` for the mbuf `d` of the slot. The data pointer moves before anything is
checked. -/
def rxRxMpdu (sizeofMbuf : Nat) (raw : Option Nat) (sc : RxSoftc) (d : RxData) : RxSoftc :=
  let pktData := d.mData + 8
  let len := rdLe sc.mem pktData 2
  let rxPktStatus := rdLe sc.mem (pktData + 4 + len) 4
  let frame := window sc.mem (pktData + 4) len
  let sc :=
    { sc with
      data := update sc.data sc.cur (some { d with mData := pktData + 4, mLen := len })
      mpdus := ⟨sc.cur, frame, sc.cfgPhyCnt, rxPktStatus, raw⟩ :: sc.mpdus }
  if sc.cfgPhyCnt > 20 then sc
  else if !rxStatusOk rxPktStatus then sc
  else (rxAddbuf sizeofMbuf raw sc sc.cur).1

/-- A round of the loop of `iwm_notif_intr`; without an mbuf it would follow a null pointer. -/
def notifRound (sizeofMbuf : Nat) (raw : Option Nat) (sc : RxSoftc) : Option RxSoftc :=
  match sc.data sc.cur with
  | none => none
  | some d =>
    let pkt := d.mData
    let code := sc.mem (pkt + 4)
    let flags := sc.mem (pkt + 5)
    let idx := sc.mem (pkt + 6)
    let qid := sc.mem (pkt + 7) &&& 0x7f
    let sc' :=
      if code = 0 ∧ qid = 0 ∧ idx = 0 ∨ rdLe sc.mem pkt 4 = 0x55550000 then sc
      else if flags = 0 ∧ code = 0xc0 then { sc with cfgPhyCnt := sc.mem (pkt + 8 + 1) }
      else if flags = 0 ∧ code = 0xc1 then rxRxMpdu sizeofMbuf raw sc d
      else sc
    some { sc' with cur := (sc.cur + 1) % rxRingCount }

/-! ## Runs -/

inductive RxOp where
  /-- Memory changes; the device has written a packet, say. -/
  | memory (mem : Nat → UInt8)
  | notif (raw : Option Nat)
  | reset

def rxStep (sizeofMbuf : Nat) (sc : RxSoftc) : RxOp → Option RxSoftc
  | .memory mem => some { sc with mem }
  | .notif raw => notifRound sizeofMbuf raw sc
  | .reset => some { sc with cur := 0 }

/-- The ring has been allocated. -/
def RxInit (sizeofMbuf : Nat) (sc : RxSoftc) : Prop :=
  ∃ raws sc₀, allocRxRing sizeofMbuf raws sc₀ = some sc ∧ sc₀.mpdus = []

end Net80211.Iwm
