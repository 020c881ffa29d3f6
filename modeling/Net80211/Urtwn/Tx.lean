import Net80211.Input

/-!
# Sending frames with urtwn

The way of a frame from the port to a USB transfer: `wlan_port_xmit_urtwn` of
`driver/urtwn/urtwn_reg.c`, and from `driver/urtwn/if_urtwn.c` the functions
`urtwn_start`, `urtwn_tx`, `urtwn_txeof`, `urtwn_get_tx_data` and `urtwn_put_tx_data`,
with `ieee80211_find_txnode` of `net80211/ieee80211_node.c`.

The state is the interface as reception has it, which holds the queue `if_snd`, and
what sending needs besides. A packet in the queue is a chain. `urtwn_start` works on
the packet that `ieee80211_encap` returns as on one chain; what `m_nextpkt` links to
it is the rest of the list of frames, and nothing here looks at it.

Of the descriptor only what says where the frame is, to whom and in which order is
kept: data rates, protection, MAC and rate identifiers and the checksum are left out,
and so are the listeners, the watchdog and the reference counts of nodes. `usb` says
which transfers `usbd_transfer` takes, by their number, and `adhoc` the name that a
new node of an IBSS gets.
-/

namespace Net80211.Urtwn

open Lib Crypto Function

/-- `sizeof(struct r92c_tx_desc_usb)`. -/
def txDescSize : Nat := 40

/-- `IEEE80211_MAX_LEN`. -/
def ieee80211MaxLen : Nat := 2300 + 4 + (3 + 1 + 4)

/-- `URTWN_TXBUFSZ`. -/
def urtwnTxbufsz : Nat := txDescSize + ieee80211MaxLen + 8

/-- The fields of `struct r92c_tx_desc_usb` that are kept. -/
structure TxDesc where
  pktlen : Nat
  offset : Nat
  pktoff : Nat
  bmcast : Bool
  qsel : Nat
  qos : Bool
  seq : UInt16
  hwseq : Bool
  deriving DecidableEq, Repr

/-- What a transfer buffer holds: the descriptor and padding, then the frame. -/
structure Xfer where
  desc : TxDesc
  txdLen : Nat
  padsize : Nat
  frame : List UInt8
  deriving DecidableEq, Repr

/-- The octets that `urtwn_tx` writes to the buffer. -/
def Xfer.written (x : Xfer) : Nat := x.txdLen + x.padsize + x.frame.length

/-- `struct urtwn_tx_data`: the pipe it belongs to and its number there. -/
structure TxData where
  pidx : Nat
  index : Nat
  deriving DecidableEq, Repr

/-- The interface and the part of `struct urtwn_softc` that sends. `xfers` lists what
was handed to `usbd_transfer`. -/
structure TxSoftc (ν : Type) extends Rx ν where
  chip92eu : Bool
  running : Bool
  oactive : Bool
  mgtq : List (ν × Mbuf × List Mbuf)
  ac2idx : Nat → Nat
  txFreeList : Nat → List TxData
  oerrors : Nat
  xfers : List Xfer

variable {ν : Type} [DecidableEq ν]

/-- `urtwn_put_tx_data`. -/
def TxSoftc.putTxData (sc : TxSoftc ν) (data : TxData) : TxSoftc ν :=
  { sc with
    txFreeList := update sc.txFreeList data.pidx (sc.txFreeList data.pidx ++ [data]) }

/-- `urtwn_get_tx_data`. -/
def TxSoftc.getTxData (sc : TxSoftc ν) (pidx : Nat) : Option (TxData × TxSoftc ν) :=
  match sc.txFreeList pidx with
  | [] => none
  | data :: rest => some (data, { sc with txFreeList := update sc.txFreeList pidx rest })

/-- `if_statinc(ifp, if_oerrors)`. -/
def TxSoftc.countError (sc : TxSoftc ν) : TxSoftc ν := { sc with oerrors := sc.oerrors + 1 }

def TxSoftc.setHeap (sc : TxSoftc ν) (h : Heap) : TxSoftc ν := { sc with heap := h }

/-- `txd_len`. -/
def TxSoftc.txdLen (sc : TxSoftc ν) : Nat := if sc.chip92eu then txDescSize else 32

/-- The descriptor of a frame. Only data frames to one station name their queue and
whether they have a QoS field. -/
def txDesc (txdLen padsize : Nat) (m : Mbuf) : TxDesc :=
  let type := m.get 0 &&& fc0TypeMask
  let bmcast := isMulticast (m.get 4)
  let unicastData := !bmcast && type == fc0TypeData
  { pktlen := m.pkthdrLen % 2 ^ 16, offset := txdLen % 2 ^ 8, pktoff := padsize / 8, bmcast
    qsel := if unicastData then (if hasQos m.get then (m.get 24 &&& 0x0f).toNat else 0)
      else if type == fc0TypeMgt then 0x12 else 0
    qos := unicastData && hasQos m.get
    seq := seqSeq (whSeq m.get), hwseq := !hasQos m.get }

/-- `urtwn_tx` behind the cipher: fill the buffer and start the transfer. The last
component says whether that failed. -/
def txCopy (usb : Nat → Bool) (sc : TxSoftc ν) (m : Mbuf) (ms : List Mbuf) :
    TxSoftc ν × List Mbuf × Bool :=
  let txdLen := sc.txdLen
  let padsize := if sc.chip92eu then 0 else if (txdLen + m.pkthdrLen) % 64 = 0 then 8 else 0
  let x : Xfer :=
    { desc := txDesc txdLen padsize m, txdLen, padsize
      frame := mCopydata (m :: ms) 0 m.pkthdrLen }
  ({ sc with xfers := sc.xfers ++ [x] }, m :: ms, !usb sc.xfers.length)

/-- `urtwn_tx`: the state, the chain that the caller's pointer leads to, and whether
there was an error. Where `ieee80211_crypto_encap` puts another mbuf in front, the code
goes on with a pointer that is not the packet any more; that is `none`. -/
def urtwnTx (E : BlockCipher) (usb : Nat → Bool) (sc : TxSoftc ν) (n : ν)
    (m : Mbuf) (ms : List Mbuf) (data : TxData) : Option (TxSoftc ν × List Mbuf × Bool) :=
  if m.get 1 &&& fc1Wep == 0 then some (txCopy usb sc m ms)
  else
    match cryptoEncap E sc.heap sc.ic.icKeys n m ms with
    | none => none
    | some r =>
      let sc := { sc with heap := r.heap, ic := { sc.ic with icKeys := r.keys } }
      match r.key, r.frame with
      | some _, some (m' :: ms') => if m'.addr = m.addr then some (txCopy usb sc m' ms') else none
      | _, frame =>
        -- m_free(m), and the caller frees it once more.
        some ((sc.setHeap (mFreem sc.heap [m])).putTxData data, frame.getD (m :: ms), true)

/-- From the label `sendit` on: send a frame and free it. -/
def sendit (E : BlockCipher) (usb : Nat → Bool) (sc : TxSoftc ν) (n : ν)
    (m : Mbuf) (ms : List Mbuf) (data : TxData) : Option (TxSoftc ν) :=
  match urtwnTx E usb sc n m ms data with
  | none => none
  | some (sc, c, error) =>
    let sc := sc.setHeap (mFreem sc.heap c)
    some (if error then sc.countError.putTxData data else sc)

/-- `ieee80211_find_txnode`. -/
def findTxnode (sc : TxSoftc ν) (adhoc : Option ν) (macaddr : List UInt8) : TxSoftc ν × Option ν :=
  if sc.ic.icOpmode = .sta ∨ isMulticast (macaddr.headD 0) then (sc, some sc.ic.icBss)
  else
    match sc.icSta.find? fun n => (sc.ic.icNode n).niMacaddr = macaddr with
    | some n => (sc, some n)
    | none =>
      if sc.ic.icOpmode = .ibss ∨ sc.ic.icOpmode = .ahdemo then
        match adhoc with
        | none => (sc, none)
        | some n => ({ sc with toRx := fakeupAdhocNode sc.toRx n macaddr }, some n)
      else (sc, none)

/-- `TID_TO_WME_AC`. -/
def tidToWmeAc (tid : Nat) : Nat :=
  if tid < 1 then 0 else if tid < 3 then 1 else if tid < 6 then 2 else 3

/-- The end of `urtwn_open_pipes`: the pipe of an access category, where `ntx` bulk-out pipes were
found. -/
def openPipesAc2idx (ntx ac : Nat) : Nat :=
  if ac = 3 then 0
  else if ac = 2 then (if ntx = 3 then 1 else 0)
  else if ntx = 3 then 2 else if ntx = 2 then 1 else 0

/-- The queue that `urtwn_start` chooses for a data frame. It reads the Ethernet frame
as an 802.11 header. -/
def startQid (wh : Wh) : Nat :=
  if hasQos wh then tidToWmeAc (wh 24 &&& 0x0f).toNat
  else if wh 0 &&& fc0TypeMask != fc0TypeData then 3
  else 0

/-- `urtwn_start` for the packet it has taken from `if_snd`, up to `sendit`: the node
and the frame to send. -/
def startEncap (sc : TxSoftc ν) (adhoc : Option ν) (m : Mbuf) (ms : List Mbuf) (data : TxData) :
    Option (TxSoftc ν × Option (ν × Mbuf × List Mbuf)) :=
  match pullupTo sc.heap m ms 14 with
  | (h, none) => some ((sc.setHeap h).countError.putTxData data, none)
  | (h, some (m, ms)) =>
    match findTxnode (sc.setHeap h) adhoc (etherHeader m).etherDhost with
    | (sc, none) => some ((sc.setHeap (mFreem sc.heap (m :: ms))).countError.putTxData data, none)
    | (sc, some n) =>
      match encap sc.heap sc.ic n m ms with
      | none => none
      | some (h, ic, some ((m :: ms) :: _)) =>
        some ({ sc with heap := h, ic }, some (n, m, ms))
      | some (h, ic, _) =>
        some (TxSoftc.putTxData (TxSoftc.countError { sc with heap := h, ic }) data, none)

/-- One round of the loop of `urtwn_start`: the state, and whether it goes on. -/
def urtwnStartRound (E : BlockCipher) (usb : Nat → Bool) (adhoc : Option ν)
    (sc : TxSoftc ν) : Option (TxSoftc ν × Bool) :=
  match sc.mgtq with
  | (n, m, ms) :: mgtq =>
    match sc.getTxData (sc.ac2idx 3) with
    | none => some ({ sc with oactive := true }, false)
    | some (data, sc) => (sendit E usb { sc with mgtq } n m ms data).map (·, true)
  | [] =>
    if sc.ic.icState ≠ .run then some (sc, false)
    else
      match sc.ifSnd with
      | [] | [] :: _ => some (sc, false)
      | (m :: ms) :: ifSnd =>
        match sc.getTxData (sc.ac2idx (startQid m.get)) with
        | none => some ({ sc with oactive := true }, false)
        | some (data, sc) =>
          match startEncap { sc with ifSnd } adhoc m ms data with
          | none => none
          | some (sc, none) => some (sc, true)
          | some (sc, some (n, m, ms)) => (sendit E usb sc n m ms data).map (·, true)

/-- The loop of `urtwn_start`. Each round that does not leave it takes a packet. -/
def urtwnStartLoop (E : BlockCipher) (usb : Nat → Bool)
    (adhoc : Nat → Option ν) : Nat → TxSoftc ν → Option (TxSoftc ν)
  | 0, _ => none
  | fuel + 1, sc =>
    match urtwnStartRound E usb (adhoc fuel) sc with
    | none => none
    | some (sc, false) => some sc
    | some (sc, true) => urtwnStartLoop E usb adhoc fuel sc

/-- `urtwn_start`. -/
def urtwnStart (E : BlockCipher) (usb : Nat → Bool) (adhoc : Nat → Option ν)
    (sc : TxSoftc ν) : Option (TxSoftc ν) :=
  if sc.running && !sc.oactive then
    urtwnStartLoop E usb adhoc (sc.mgtq.length + sc.ifSnd.length + 1) sc
  else some sc

/-- The `usbd_status` that a callback gets; `other` stands for the errors that are not
told apart. -/
inductive XferStatus where
  | normalCompletion
  | notStarted
  | cancelled
  | stalled
  | other
  deriving DecidableEq, Repr

/-- `urtwn_txeof` up to `urtwn_start`: the buffer is free again, and an error is counted
unless the transfer was taken back. -/
def txeofPut (sc : TxSoftc ν) (data : TxData) (status : XferStatus) : TxSoftc ν :=
  let sc := { sc.putTxData data with oactive := false }
  match status with
  | .normalCompletion | .notStarted | .cancelled => sc
  | .stalled | .other => sc.countError

/-- `wlan_port_xmit_urtwn` up to the queue; the packet is one mbuf. The result is -1 or
the length. -/
def xmitEnqueue (sc : TxSoftc ν) (frame : List UInt8) : TxSoftc ν × Option Nat :=
  if frame.length < 14 ∨ frame.length > mclbytes then (sc, none)
  else
    match mGetImpl sc.heap true with
    | (h, none) => (sc.setHeap h, none)
    | (h, some m) =>
      let m := { m.put 0 frame with mLen := frame.length, pkthdrLen := frame.length }
      ({ sc with heap := h, ifSnd := sc.ifSnd ++ [[m]] }, some frame.length)

/-- `wlan_port_xmit_urtwn`. -/
def wlanPortXmitUrtwn (E : BlockCipher) (usb : Nat → Bool)
    (adhoc : Nat → Option ν) (sc : TxSoftc ν) (frame : List UInt8) :
    Option (TxSoftc ν × Option Nat) :=
  match xmitEnqueue sc frame with
  | (sc, none) => some (sc, none)
  | (sc, some len) => (urtwnStart E usb adhoc sc).map (·, some len)

end Net80211.Urtwn
