import Net80211.Lib.Run
import Net80211.Urtwn.Tx

/-!
# What urtwn takes to send a frame

A frame that `urtwn_start` takes from a queue needs a buffer (`struct urtwn_tx_data`), and a
reference to its node, which `ieee80211_find_txnode` takes or, for a management frame, whoever put
it into `ic_mgtq`. The state of the driver shows the free lists and what was freed; the rest is
written into a log, function by function as in `Urtwn/Tx`: references, what is dequeued, what
`urtwn_tx` is called with, and buffers that a transfer owns. `urtwn_tx_beacon` is the other caller
of `urtwn_tx`.

A run takes rounds of the loop of `urtwn_start` and completions (`urtwn_txeof` up to its call of
`urtwn_start`, which is more rounds) in any order. In between packets and management frames come
in, made of new mbufs, and the interface may change in any way (`station`): keys, nodes, state. A
transfer that `usbh_submit_urb` refuses is one that completes with an error, as `usbd_transfer`
makes it.
-/

namespace Net80211.Urtwn

open Lib Crypto

/-- What `urtwn_tx` is called with, what `usbd_transfer` would answer, and whether the caller is
`urtwn_tx_beacon`. -/
structure TxCall (ν : Type) where
  heap : Heap
  keys : Keys ν
  n : ν
  m : Mbuf
  ms : List Mbuf
  data : TxData
  usb : Bool
  beacon : Bool

inductive TxEvent (ν : Type) where
  | dequeue (c : List Mbuf)
  | refNode (n : ν)
  | freeNode (n : ν)
  | urtwnTx (call : TxCall ν)
  | submit (data : TxData)

variable {ν : Type} [DecidableEq ν]

/-- The frame needs no encryption, or `ieee80211_crypto_encap` finds a key and succeeds. -/
def TxCall.encrypts (E : BlockCipher) (call : TxCall ν) : Bool :=
  call.m.get 1 &&& fc1Wep == 0 ||
    (cryptoEncap E call.heap call.keys call.n call.m call.ms).any fun r =>
      r.key.isSome && !(r.frame.getD []).isEmpty

def urtwnTxLog (E : BlockCipher) (usb : Nat → Bool) (sc : TxSoftc ν)
    (n : ν) (m : Mbuf) (ms : List Mbuf) (data : TxData) (beacon : Bool) : List (TxEvent ν) :=
  let call : TxCall ν :=
    { heap := sc.heap, keys := sc.ic.icKeys, n, m, ms, data, usb := usb sc.xfers.length, beacon }
  .urtwnTx call :: if call.encrypts E && call.usb then [.submit data] else []

/-- From the label `sendit` on. The reference is released whether there was an error or not. -/
def senditLog (E : BlockCipher) (usb : Nat → Bool) (sc : TxSoftc ν)
    (n : ν) (m : Mbuf) (ms : List Mbuf) (data : TxData) : List (TxEvent ν) :=
  urtwnTxLog E usb sc n m ms data false ++ [.freeNode n]

/-- `urtwn_start` for the packet it has taken from `if_snd`. -/
def startLog (E : BlockCipher) (usb : Nat → Bool) (sc : TxSoftc ν)
    (adhoc : Option ν) (m : Mbuf) (ms : List Mbuf) (data : TxData) : List (TxEvent ν) :=
  match pullupTo sc.heap m ms 14 with
  | (_, none) => []
  | (h, some (m, ms)) =>
    match findTxnode (sc.setHeap h) adhoc (etherHeader m).etherDhost with
    | (_, none) => []
    | (sc, some n) =>
      match encap sc.heap sc.ic n m ms with
      | some (h, ic, some ((m :: ms) :: _)) =>
        .refNode n :: senditLog E usb { sc with heap := h, ic } n m ms data
      | _ => [.refNode n, .freeNode n]

/-- One round of the loop of `urtwn_start`. -/
def roundLog (E : BlockCipher) (usb : Nat → Bool) (adhoc : Option ν)
    (sc : TxSoftc ν) : List (TxEvent ν) :=
  match sc.mgtq with
  | (n, m, ms) :: mgtq =>
    match sc.getTxData (sc.ac2idx 3) with
    | none => []
    | some (data, sc) => .dequeue (m :: ms) :: senditLog E usb { sc with mgtq } n m ms data
  | [] =>
    if sc.ic.icState ≠ .run then []
    else
      match sc.ifSnd with
      | [] | [] :: _ => []
      | (m :: ms) :: ifSnd =>
        match sc.getTxData (sc.ac2idx (startQid m.get)) with
        | none => []
        | some (data, sc) => .dequeue (m :: ms) :: startLog E usb { sc with ifSnd } adhoc m ms data

/-- `urtwn_tx_beacon`, and what `urtwn_task` does with the beacon then. An error is only reported,
and nobody puts the buffer back. -/
def urtwnTxBeacon (E : BlockCipher) (usb : Nat → Bool) (sc : TxSoftc ν)
    (m : Mbuf) (ms : List Mbuf) : Option (TxSoftc ν) :=
  match sc.getTxData (sc.ac2idx 3) with
  | none => some (sc.setHeap (mFreem sc.heap (m :: ms)))
  | some (data, sc) =>
    match urtwnTx E usb sc sc.ic.icBss m ms data with
    | none => none
    | some (sc, c, _) => some (sc.setHeap (mFreem sc.heap c))

def beaconLog (E : BlockCipher) (usb : Nat → Bool) (sc : TxSoftc ν)
    (m : Mbuf) (ms : List Mbuf) : List (TxEvent ν) :=
  match sc.getTxData (sc.ac2idx 3) with
  | none => []
  | some (data, sc) => urtwnTxLog E usb sc sc.ic.icBss m ms data true

/-! ## Runs -/

/-- The driver, and what the logs say so far: transfers under way, references taken and
released, mbufs dequeued, and the calls of `urtwn_tx`. -/
structure TxUse (ν : Type) where
  sc : TxSoftc ν
  inflight : List TxData
  taken : List ν
  released : List ν
  dequeued : List Nat
  calls : List (TxCall ν)

inductive TxUseOp (ν : Type) where
  | packet (m : Mbuf) (ms : List Mbuf)
  | mgmt (n : ν) (m : Mbuf) (ms : List Mbuf)
  | station (rx : Rx ν)
  | round (usb : Nat → Bool) (adhoc : Option ν)
  | beacon (usb : Nat → Bool) (m : Mbuf) (ms : List Mbuf)
  | complete (data : TxData) (status : XferStatus)

def TxUse.note (s : TxUse ν) : TxEvent ν → TxUse ν
  | .dequeue c => { s with dequeued := s.dequeued ++ c.map Mbuf.addr }
  | .refNode n => { s with taken := s.taken ++ [n] }
  | .freeNode n => { s with released := s.released ++ [n] }
  | .submit data => { s with inflight := s.inflight ++ [data] }
  | .urtwnTx call => { s with calls := s.calls ++ [call] }

/-- A chain of new mbufs, and the heap behind them. -/
def newChain (h : Heap) (c : List Mbuf) : Option Heap :=
  if c.map Mbuf.addr = List.range' h.next c.length then
    some { h with next := h.next + c.length }
  else none

def txUseStep (E : BlockCipher) (s : TxUse ν) :
    TxUseOp ν → Option (TxUse ν)
  | .packet m ms =>
    (newChain s.sc.heap (m :: ms)).map fun h =>
      { s with sc := { s.sc with heap := h, ifSnd := s.sc.ifSnd ++ [m :: ms] } }
  | .mgmt n m ms =>
    (newChain s.sc.heap (m :: ms)).map fun h =>
      { s with
        sc := { s.sc with heap := h, mgtq := s.sc.mgtq ++ [(n, m, ms)] }
        taken := s.taken ++ [n] }
  | .station rx =>
    some { s with sc := { s.sc with toRx := { rx with heap := s.sc.heap, ifSnd := s.sc.ifSnd } } }
  | .round usb adhoc =>
    (urtwnStartRound E usb adhoc s.sc).map fun r =>
      (roundLog E usb adhoc s.sc).foldl TxUse.note { s with sc := r.1 }
  | .beacon usb m ms =>
    (newChain s.sc.heap (m :: ms)).bind fun h =>
      (urtwnTxBeacon E usb (s.sc.setHeap h) m ms).map fun sc =>
        (beaconLog E usb (s.sc.setHeap h) m ms).foldl TxUse.note { s with sc }
  | .complete data status =>
    if data ∈ s.inflight then
      some { s with sc := txeofPut s.sc data status, inflight := s.inflight.erase data }
    else none

/-- The buffers are on the list of their pipe, once each, and nothing is queued or freed. -/
structure TxUseInit (buffers : List TxData) (s : TxUse ν) : Prop where
  nodup : buffers.Nodup
  free : ∀ p, s.sc.txFreeList p = buffers.filter (·.pidx = p)
  mgtq : s.sc.mgtq = []
  ifSnd : s.sc.ifSnd = []
  freed : s.sc.heap.freed = []
  inflight : s.inflight = []
  taken : s.taken = []
  released : s.released = []
  dequeued : s.dequeued = []
  calls : s.calls = []

end Net80211.Urtwn
