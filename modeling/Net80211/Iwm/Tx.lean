import Net80211.Classify
import Net80211.Input
import Net80211.Iwm.Cmd

/-!
# Sending frames with iwm

The way of a frame from the port to a ring of the device: `wlan_port_xmit_iwm` of
`driver/iwm/iwm_reg.c`, and from `driver/iwm/if_iwm.c` the functions `iwm_start`,
`iwm_tx` and `iwm_rx_tx_cmd`, which the device completes a frame with.

As with the other driver the state is the interface as reception has it and what
sending needs besides, and `iwm_start` works on the packet that `ieee80211_encap`
returns as on one chain. Of the command only where it goes, to which station and what
it sends is kept: rates, protection and timeouts are left out, and so are the
listeners, the watchdog and the reference counts of nodes. The port's
`bus_dmamap_load_mbuf` is the parameter `dma`: both ports have `busDmamapLoadMbuf`, which never
fails, and what is shown of the rings does not depend on it. `adhoc` is the name that a new
node of an IBSS gets.
-/

namespace Net80211

open Lib Crypto Function

section Port

variable {ν : Type} [DecidableEq ν]

/-- `ieee80211_find_txnode` of `net80211/ieee80211_node.c`. -/
def rxFindTxnode (rx : Rx ν) (adhoc : Option ν) (macaddr : List UInt8) : Rx ν × Option ν :=
  if rx.ic.icOpmode = .sta ∨ isMulticast (macaddr.headD 0) then (rx, some rx.ic.icBss)
  else
    match rx.icSta.find? fun n => (rx.ic.icNode n).niMacaddr = macaddr with
    | some n => (rx, some n)
    | none =>
      if rx.ic.icOpmode = .ibss ∨ rx.ic.icOpmode = .ahdemo then
        match adhoc with
        | none => (rx, none)
        | some n => (fakeupAdhocNode rx n macaddr, some n)
      else (rx, none)

/-- The body of `wlan_port_xmit_iwm` up to `if_start_lock`: a packet of one mbuf goes to
the end of `if_snd`. The result is -1 or the length. -/
def portXmitEnqueue (rx : Rx ν) (frame : List UInt8) : Rx ν × Option Nat :=
  if frame.length < 14 ∨ frame.length > mclbytes then (rx, none)
  else
    match mGetImpl rx.heap true with
    | (h, none) => ({ rx with heap := h }, none)
    | (h, some m) =>
      let m := { m.put 0 frame with mLen := frame.length, pkthdrLen := frame.length }
      ({ rx with heap := h, ifSnd := rx.ifSnd ++ [[m]] }, some frame.length)

end Port

namespace Iwm

-- IWM_TX_RING_LOMARK, IWM_TX_RING_HIMARK
def txRingLomark : Nat := 192
def txRingHimark : Nat := 224

/-- A segment of a map, in the cluster of an mbuf. -/
structure DmaSeg where
  mbuf : Nat
  off : Nat
  len : Nat
  deriving DecidableEq, Repr

/-- What `bus_dmamap_load_mbuf` says, with `dm_segs` where it maps the packet. -/
inductive DmaLoad where
  | ok (segs : List DmaSeg)
  | efbig
  | error
  deriving DecidableEq, Repr

/-- `bus_dmamap_load_mbuf` of `port/bus/pcie/freertos/pcie_freertos.c`, the same in the other
port. -/
def busDmamapLoadMbuf (m : Mbuf) : DmaLoad :=
  .ok [⟨m.addr, m.mData, if m.hasPkthdr then m.pkthdrLen else m.mLen⟩]

/-- The entries of the descriptor for the payload: the length has twelve bits there. -/
def payloadTbs (segs : List DmaSeg) : List DmaSeg :=
  segs.map fun seg => { seg with len := seg.len % 2 ^ 12 }

/-- A transmit command: its ring and place there, whether it is for the station of the
access point or for the auxiliary one, the length of the frame, the header, and the
segments that the rest is mapped to. -/
structure TxCmd where
  qid : Nat
  idx : Nat
  auxSta : Bool
  len : Nat
  hdr : List UInt8
  segs : List DmaSeg
  deriving DecidableEq, Repr

/-- `struct iwm_tx_ring`; `data` holds the node and the packet of an entry that the
device has, `done` being 0. -/
structure TxRing (ν : Type) where
  qid : Nat
  cur : Nat
  queued : Nat
  data : Nat → Option (ν × List Mbuf)

/-- The interface and the part of `struct iwm_softc` that sends. `sent` lists what the
device was told to send. -/
structure TxSoftc (ν : Type) extends Rx ν where
  running : Bool
  oactive : Bool
  mgtq : List (ν × Mbuf × List Mbuf)
  qfullmsk : UInt32
  txq : Nat → TxRing ν
  niVlan : ν → UInt16
  wmeAcm : Nat → Bool
  csumData : Nat → UInt16
  oerrors : Nat
  sent : List TxCmd

/-- `ieee80211_anyhdrsize`. -/
def anyhdrsize (wh : Wh) : Nat :=
  if wh 0 &&& fc0TypeMask == fc0TypeCtl then
    if wh 0 &&& 0xf0 == 0xc0 || wh 0 &&& 0xf0 == 0xd0 then 10 else 16
  else hdrsize wh

variable {ν : Type} [DecidableEq ν]

/-- `if_statinc(ifp, if_oerrors)`. -/
def TxSoftc.countError (sc : TxSoftc ν) : TxSoftc ν := { sc with oerrors := sc.oerrors + 1 }

def TxSoftc.setHeap (sc : TxSoftc ν) (h : Heap) : TxSoftc ν := { sc with heap := h }

/-- The end of `iwm_tx`: the frame is in the ring, and the ring may be full now. -/
def txKick (sc : TxSoftc ν) (n : ν) (ac : Nat) (wh : Wh) (hdrlen totlen : Nat) (c : List Mbuf)
    (segs : List DmaSeg) : TxSoftc ν :=
  let ring := sc.txq ac
  let cmd : TxCmd :=
    { qid := ring.qid, idx := ring.cur
      auxSta := isMulticast (wh 4) || wh 0 &&& fc0TypeMask != fc0TypeData
      len := totlen, hdr := window wh 0 hdrlen, segs := segs }
  let ring' : TxRing ν :=
    { ring with
      cur := (ring.cur + 1) % txRingCount
      queued := ring.queued + 1
      data := update ring.data ring.cur (some (n, c)) }
  { sc with
    txq := update sc.txq ac ring'
    sent := sc.sent ++ [cmd]
    qfullmsk := if ring.queued + 1 > txRingHimark then
      sc.qfullmsk ||| 1 <<< UInt32.ofNat ring.qid else sc.qfullmsk }

/-- Load the packet for the DMA, copied into one mbuf where it has too many; `none`
where that fails, and then the packet is freed. -/
def txLoad (dma : Mbuf → DmaLoad) (h : Heap) (c : List Mbuf) :
    Heap × Option (List Mbuf × List DmaSeg) :=
  match c with
  | [] => (h, none)
  | m :: _ =>
    match dma m with
    | .ok segs => (h, some (c, segs))
    | .error => (mFreem h c, none)
    | .efbig =>
      match mGetImpl h true with
      | (h, none) => (mFreem h c, none)
      | (h, some m1) =>
        let m1 := { m1.put 0 (mCopydata c 0 m.pkthdrLen) with
          mLen := m.pkthdrLen, pkthdrLen := m.pkthdrLen }
        let h := mFreem h c
        match dma m1 with
        | .ok segs => (h, some ([m1], segs))
        | _ => (mFreem h [m1], none)

/-- `iwm_tx` behind the cipher. -/
def txMap (dma : Mbuf → DmaLoad) (sc : TxSoftc ν) (n : ν) (ac hdrlen : Nat) (m : Mbuf)
    (ms : List Mbuf) : TxSoftc ν × Bool :=
  match txLoad dma sc.heap (mAdj (m :: ms) hdrlen) with
  | (h, none) => (sc.setHeap h, true)
  | (h, some (c, segs)) => (txKick (sc.setHeap h) n ac m.get hdrlen m.pkthdrLen c segs, false)

/-- `iwm_tx`, and whether there was an error. Where `ieee80211_crypto_encap` puts another
mbuf in front, the code goes on with a pointer that is not the packet any more; that is
`none`. -/
def iwmTx (E : BlockCipher) (dma : Mbuf → DmaLoad) (sc : TxSoftc ν)
    (n : ν) (m : Mbuf) (ms : List Mbuf) (ac : Nat) : Option (TxSoftc ν × Bool) :=
  let hdrlen := anyhdrsize m.get
  if m.get 1 &&& fc1Wep == 0 then some (txMap dma sc n ac hdrlen m ms)
  else
    match cryptoEncap E sc.heap sc.ic.icKeys n m ms with
    | none => none
    | some r =>
      let sc := { sc with heap := r.heap, ic := { sc.ic with icKeys := r.keys } }
      match r.key, r.frame with
      | some _, some (m' :: ms') =>
        if m'.addr = m.addr then some (txMap dma sc n ac hdrlen m' ms') else none
      | _, frame => some (sc.setHeap (mFreem sc.heap (frame.getD (m :: ms))), true)

/-- From the label `sendit` on. -/
def sendit (E : BlockCipher) (dma : Mbuf → DmaLoad) (sc : TxSoftc ν)
    (n : ν) (m : Mbuf) (ms : List Mbuf) (ac : Nat) : Option (TxSoftc ν) :=
  (iwmTx E dma sc n m ms ac).map fun r => if r.2 then r.1.countError else r.1

/-- The ring for a packet. EAPOL frames have no QoS field. -/
def startAc (m : Mbuf) : Nat :=
  if (etherHeader m).etherType ≠ ethertypePae then wmeGetac m else wmeAcBe

/-- `iwm_start` for the packet it has taken from `if_snd`, up to `sendit`: the node, the
frame to send and the ring. -/
def startEncap (inet : Bool) (sc : TxSoftc ν) (adhoc : Option ν) (m : Mbuf) (ms : List Mbuf) :
    Option (TxSoftc ν × Option (ν × Mbuf × List Mbuf × Nat)) :=
  match pullupTo sc.heap m ms 14 with
  | (h, none) => some ((sc.setHeap h).countError, none)
  | (h, some (m, ms)) =>
    match rxFindTxnode (sc.setHeap h).toRx adhoc (etherHeader m).etherDhost with
    | (rx, none) =>
      some ((TxSoftc.setHeap { sc with toRx := rx } (mFreem rx.heap (m :: ms))).countError, none)
    | (rx, some n) =>
      match classify inet sc.wmeAcm rx.ic.icOpmode (rx.ic.icNode n).niQos (sc.niVlan n)
          (sc.csumData m.addr) m with
      | none =>
        some ((TxSoftc.setHeap { sc with toRx := rx } (mFreem rx.heap (m :: ms))).countError, none)
      | some m =>
        match encap rx.heap rx.ic n m ms with
        | none => none
        | some (h, ic, some ((m' :: ms') :: _)) =>
          some ({ sc with toRx := { rx with heap := h, ic } }, some (n, m', ms', startAc m))
        | some (h, ic, _) =>
          some (TxSoftc.countError { sc with toRx := { rx with heap := h, ic } }, none)

/-- One round of the loop of `iwm_start`: the state, and whether it goes on. -/
def iwmStartRound (E : BlockCipher) (inet : Bool)
    (dma : Mbuf → DmaLoad) (adhoc : Option ν) (sc : TxSoftc ν) : Option (TxSoftc ν × Bool) :=
  if sc.qfullmsk ≠ 0 then some ({ sc with oactive := true }, false)
  else
    match sc.mgtq with
    | (n, m, ms) :: mgtq => (sendit E dma { sc with mgtq } n m ms wmeAcBe).map (·, true)
    | [] =>
      if sc.ic.icState ≠ .run then some (sc, false)
      else
        match sc.ifSnd with
        | [] | [] :: _ => some (sc, false)
        | (m :: ms) :: ifSnd =>
          match startEncap inet { sc with ifSnd } adhoc m ms with
          | none => none
          | some (sc, none) => some (sc, true)
          | some (sc, some (n, m, ms, ac)) => (sendit E dma sc n m ms ac).map (·, true)

/-- The loop of `iwm_start`. Each round that does not leave it takes a packet. -/
def iwmStartLoop (E : BlockCipher) (inet : Bool)
    (dma : Mbuf → DmaLoad) (adhoc : Nat → Option ν) : Nat → TxSoftc ν → Option (TxSoftc ν)
  | 0, _ => none
  | fuel + 1, sc =>
    match iwmStartRound E inet dma (adhoc fuel) sc with
    | none => none
    | some (sc, false) => some sc
    | some (sc, true) => iwmStartLoop E inet dma adhoc fuel sc

/-- `iwm_start`. -/
def iwmStart (E : BlockCipher) (inet : Bool) (dma : Mbuf → DmaLoad)
    (adhoc : Nat → Option ν) (sc : TxSoftc ν) : Option (TxSoftc ν) :=
  if sc.running && !sc.oactive then
    iwmStartLoop E inet dma adhoc (sc.mgtq.length + sc.ifSnd.length + 1) sc
  else some sc

/-- What `iwm_rx_tx_cmd` does to the ring and the packet of an entry that was not done. -/
def txDone (sc : TxSoftc ν) (qid idx : Nat) (c : List Mbuf) : TxSoftc ν :=
  let ring := sc.txq qid
  let queued := ring.queued - 1
  { sc with
    heap := mFreem sc.heap c
    txq := update sc.txq qid
      { ring with queued, data := update ring.data idx none }
    qfullmsk := if queued < txRingLomark then sc.qfullmsk &&& ~~~(1 <<< UInt32.ofNat qid)
      else sc.qfullmsk }

/-- Does `iwm_rx_tx_cmd` start the interface again? -/
def restarts (sc : TxSoftc ν) (qid : Nat) : Bool :=
  (sc.txq qid).queued < txRingLomark && sc.qfullmsk == 0 && sc.oactive

/-- `iwm_rx_tx_cmd` up to `iwm_start`. -/
def txDoneEntry (sc : TxSoftc ν) (qid idx : Nat) : TxSoftc ν :=
  match (sc.txq qid).data idx with
  | none => sc
  | some (_, c) =>
    let sc := txDone sc qid idx c
    if restarts sc qid then { sc with oactive := false } else sc

/-- `wlan_port_xmit_iwm`. -/
def wlanPortXmitIwm (E : BlockCipher) (inet : Bool)
    (dma : Mbuf → DmaLoad) (adhoc : Nat → Option ν) (sc : TxSoftc ν) (frame : List UInt8) :
    Option (TxSoftc ν × Option Nat) :=
  match portXmitEnqueue sc.toRx frame with
  | (rx, none) => some ({ sc with toRx := rx }, none)
  | (rx, some len) => (iwmStart E inet dma adhoc { sc with toRx := rx }).map (·, some len)

end Iwm

end Net80211
