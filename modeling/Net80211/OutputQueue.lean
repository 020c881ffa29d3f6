import Net80211.Iwm.Tx
import Net80211.Urtwn.Tx

/-!
# The queue of frames to send

Who puts packets into `if_snd` and who takes them: `wlan_port_xmit` of the two drivers,
`ieee80211_deliver_data`, `ieee80211_node_pwrsave` and `ieee80211_recv_pspoll` of
`net80211/ieee80211_input.c` on one side, the rounds of `urtwn_start` and `iwm_start` on
the other. `IFQ_ENQUEUE` and `IF_ENQUEUE` of `compat/netbsd/net/if.h` append, whatever
`ifq_len` is, and the error of the first is always 0.

The steps are those of the queue. A call of `wlan_port_xmit` is a step `xmit` and then
rounds, as many as the driver makes, and so is a completion. Whatever else the driver
and the stack do is one step (`host`), which may change everything but the queues: the
state of the 802.11 state machine, the flags of the interface, the nodes, the memory.
-/

namespace Net80211

open Lib Crypto Function

/-! ## The power-save queue -/

/-- `IEEE80211_PS_MAX_QUEUE`. -/
def psMaxQueue : Nat := 50

/-- `m->m_flags |= flag`. -/
def markPacket (flag : UInt32) : List Mbuf → List Mbuf
  | [] => []
  | m :: ms => { m with mFlags := m.mFlags ||| flag } :: ms

/-- `ieee80211_pwrsave`: a packet for a sleeping station waits in the queue of its node. -/
def pwrsave (h : Heap) (savedq : List (List Mbuf)) (c : List Mbuf) : Heap × List (List Mbuf) :=
  if savedq.length ≥ psMaxQueue then (mFreem h c, savedq) else (h, savedq ++ [c])

/-- The loop of `ieee80211_node_pwrsave` for a station that is awake again: all but the last
packet say that more data follows. -/
def pwrsaveFlush : List (List Mbuf) → List (List Mbuf)
  | [] => []
  | [c] => [c]
  | c :: savedq => markPacket mMoreData c :: pwrsaveFlush savedq

/-- `ieee80211_recv_pspoll` where the association id is right: the first packet for `if_snd`, and
the queue without it. -/
def pspollTake : List (List Mbuf) → List (List Mbuf) × List (List Mbuf)
  | [] => ([], [])
  | c :: savedq =>
    let c := if savedq.length ≠ 0 then markPacket mMoreData c else c
    ([markPacket mPwrSav c], savedq)

/-! ## The steps -/

/-- A driver. -/
inductive Nic (ν : Type) where
  | urtwn (sc : Urtwn.TxSoftc ν)
  | iwm (sc : Iwm.TxSoftc ν)

def Nic.rx {ν : Type} : Nic ν → Rx ν
  | .urtwn sc => sc.toRx
  | .iwm sc => sc.toRx

def Nic.setRx {ν : Type} (rx : Rx ν) : Nic ν → Nic ν
  | .urtwn sc => .urtwn { sc with toRx := rx }
  | .iwm sc => .iwm { sc with toRx := rx }

/-- A driver and the power-save queues of the nodes. -/
structure OutQueue (ν : Type) where
  nic : Nic ν
  savedq : ν → List (List Mbuf)

/-- What the drivers cannot know. -/
structure TxEnv (ν : Type) where
  usb : Nat → Bool
  dma : Mbuf → Iwm.DmaLoad
  adhoc : Option ν

inductive QueueOp (ν : Type) where
  | xmit (frame : List UInt8)
  | deliver (m : Mbuf) (ms : List Mbuf)
  | save (n : ν) (c : List Mbuf)
  | awake (n : ν)
  | pspoll (n : ν)
  | round (env : TxEnv ν)
  | txeof (data : Urtwn.TxData) (status : Urtwn.XferStatus)
  | txDone (qid idx : Nat)
  | host (nic : Nic ν)

variable {ν : Type} [DecidableEq ν]

/-- `wlan_port_xmit` of either driver, up to `if_start_lock`. -/
def Nic.xmit (nic : Nic ν) (frame : List UInt8) : Nic ν × Option Nat :=
  match nic with
  | .urtwn sc => ((.urtwn (Urtwn.xmitEnqueue sc frame).1), (Urtwn.xmitEnqueue sc frame).2)
  | .iwm sc =>
    (.iwm { sc with toRx := (portXmitEnqueue sc.toRx frame).1 }, (portXmitEnqueue sc.toRx frame).2)

/-- A round of the loop of `if_start`, which does nothing unless the interface is running and
not held up. -/
def Nic.round (E : BlockCipher) (inet : Bool) (env : TxEnv ν) :
    Nic ν → Option (Nic ν)
  | .urtwn sc =>
    if sc.running && !sc.oactive then
      (Urtwn.urtwnStartRound E env.usb env.adhoc sc).map fun r => .urtwn r.1
    else some (.urtwn sc)
  | .iwm sc =>
    if sc.running && !sc.oactive then
      (Iwm.iwmStartRound E inet env.dma env.adhoc sc).map fun r => .iwm r.1
    else some (.iwm sc)

def queueStep (E : BlockCipher) (inet : Bool) (s : OutQueue ν) :
    QueueOp ν → Option (OutQueue ν)
  | .xmit frame => some { s with nic := (s.nic.xmit frame).1 }
  | .deliver m ms => some { s with nic := s.nic.setRx (deliverData s.nic.rx m ms) }
  | .save n c =>
    let r := pwrsave s.nic.rx.heap (s.savedq n) c
    some { nic := s.nic.setRx { s.nic.rx with heap := r.1 }
           savedq := update s.savedq n r.2 }
  | .awake n =>
    some { nic := s.nic.setRx { s.nic.rx with ifSnd := s.nic.rx.ifSnd ++ pwrsaveFlush (s.savedq n) }
           savedq := update s.savedq n [] }
  | .pspoll n =>
    let r := pspollTake (s.savedq n)
    some { nic := s.nic.setRx { s.nic.rx with ifSnd := s.nic.rx.ifSnd ++ r.1 }
           savedq := update s.savedq n r.2 }
  | .round env => (s.nic.round E inet env).map fun nic => { s with nic }
  | .txeof data status =>
    match s.nic with
    | .urtwn sc => some { s with nic := .urtwn (Urtwn.txeofPut sc data status) }
    | .iwm _ => none
  | .txDone qid idx =>
    match s.nic with
    | .urtwn _ => none
    | .iwm sc => some { s with nic := .iwm (Iwm.txDoneEntry sc qid idx) }
  | .host nic => some { s with nic := nic.setRx { nic.rx with ifSnd := s.nic.rx.ifSnd } }

/-- The number of packets in `if_snd`. -/
def OutQueue.held (s : OutQueue ν) : Nat := s.nic.rx.ifSnd.length

end Net80211
