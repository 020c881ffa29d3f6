import Net80211.Iwm.Tx
import Net80211.Lib.Run

/-!
# The transmit rings of iwm over a run

Frames enter a ring by rounds of `iwm_start` and leave it when the firmware reports them
(`iwm_rx_tx_cmd`, up to its call of `iwm_start`, which is more rounds) or when the ring is reset
(`iwm_reset_tx_ring` of `driver/iwm/if_iwm.c`). The firmware reports the frames of a ring once each
and in the order in which it got them; after a reset it knows of none.

An entry of a ring has a packet, a node and the flag `done`. `Iwm/Tx` keeps the first two together
while the device has the frame; the flag is kept here, because `iwm_reset_tx_ring` leaves it as it
is: an entry it has cleared may look as if it were still to be reported.
-/

namespace Net80211.Iwm

open Lib Crypto Function

/-- `IWM_MAX_QUEUES`, the rings there are. -/
def maxQueues : Nat := 31

/-- The driver, `done` of every entry of every ring, and the frames that the firmware has still to
report. -/
structure RingRun (ν : Type) where
  sc : TxSoftc ν
  done : Nat → Nat → Bool
  reports : Nat → List Nat

inductive RingOp (ν : Type) where
  /-- The interface, its queues and what belongs to its packets change. -/
  | env (rx : Rx ν) (mgtq : List (ν × Mbuf × List Mbuf)) (running : Bool) (csumData : Nat → UInt16)
  | round (inet : Bool) (dma : Mbuf → DmaLoad) (adhoc : Option ν)
  | report (qid : Nat)
  | reset (qid : Nat)

variable {ν : Type} [DecidableEq ν]

/-- `iwm_reset_tx_ring`. -/
def resetTxRing (sc : TxSoftc ν) (qid : Nat) : TxSoftc ν :=
  let ring := sc.txq qid
  { sc with
    heap := mFreem sc.heap ((List.range txRingCount).flatMap fun i =>
      ((ring.data i).map Prod.snd).getD [])
    txq := update sc.txq qid { ring with cur := 0, queued := 0, data := fun _ => none }
    qfullmsk := sc.qfullmsk &&& ~~~(1 <<< UInt32.ofNat ring.qid) }

/-- The device is given a frame: its entry is not done. -/
def RingRun.submit (s : RingRun ν) (cmd : TxCmd) : RingRun ν :=
  { s with
    done := update s.done cmd.qid (update (s.done cmd.qid) cmd.idx false)
    reports := update s.reports cmd.qid (s.reports cmd.qid ++ [cmd.idx]) }

/-- The report of the oldest frame of a ring. For an entry that is neither done nor has a packet
`iwm_rx_tx_cmd` goes wrong; that is `none`. -/
def ringReport (s : RingRun ν) (qid : Nat) : Option (RingRun ν) :=
  match s.reports qid with
  | [] => none
  | idx :: rest =>
    let s := { s with reports := update s.reports qid rest }
    if s.done qid idx then some s
    else
      match (s.sc.txq qid).data idx with
      | none => none
      | some _ =>
        some { s with
          sc := txDoneEntry s.sc qid idx
          done := update s.done qid (update (s.done qid) idx true) }

def ringStep (E : BlockCipher) (s : RingRun ν) : RingOp ν → Option (RingRun ν)
  | .env rx mgtq running csumData =>
    some { s with sc := { s.sc with toRx := rx, mgtq, running, csumData } }
  | .round inet dma adhoc =>
    (iwmStartRound E inet dma adhoc s.sc).map fun r =>
      (r.1.sent.drop s.sc.sent.length).foldl RingRun.submit { s with sc := r.1 }
  | .report qid => if qid < maxQueues then ringReport s qid else none
  | .reset qid =>
    if qid < maxQueues then
      some { s with sc := resetTxRing s.sc qid, reports := update s.reports qid [] }
    else none

/-- The rings are allocated. -/
structure RingRunInit (s : RingRun ν) : Prop where
  txq : ∀ q, s.sc.txq q = { qid := q, cur := 0, queued := 0, data := fun _ => none }
  qfullmsk : s.sc.qfullmsk = 0
  reports : ∀ q, s.reports q = []

end Net80211.Iwm
