import Net80211.Lib.Run
import Net80211.Node
import Net80211.Rates

/-!
# Rate control in iwm

`ieee80211_amrr_choose` of `net80211/ieee80211_amrr.c` moves the rate of a node up and down in its
rate set, by the frames that were sent and retried. The firmware of iwm sends data frames with the
rates of a table that the driver gives it with a command (`iwm_setrates` of `driver/iwm/if_iwm.c`).

The driver is built with `IEEE80211_NO_HT`. This takes the HT rates out of `iwm_setrates`, and out
of `iwm_calib_timeout` the lines that schedule `iwm_setrates_task` when the rate has changed. So
`iwm_setrates` is called from one place, `iwm_do_newstate` on the way to `IEEE80211_S_RUN`.
-/

namespace Net80211

/-! ## AMRR -/

/-- `struct ieee80211_amrr`. -/
structure Amrr where
  minSuccessThreshold : UInt32
  maxSuccessThreshold : UInt32
  deriving DecidableEq, Repr

/-- `struct ieee80211_amrr_node`. -/
structure AmrrNode where
  success : UInt32
  recovery : Bool
  successThreshold : UInt32
  txcnt : UInt32
  retrycnt : UInt32
  deriving DecidableEq, Repr

def AmrrNode.isSuccess (amn : AmrrNode) : Bool := amn.retrycnt < amn.txcnt / 10

def AmrrNode.isFailure (amn : AmrrNode) : Bool := amn.retrycnt > amn.txcnt / 3

def AmrrNode.isEnough (amn : AmrrNode) : Bool := amn.txcnt > 10

def AmrrNode.resetCnt (amn : AmrrNode) : AmrrNode := { amn with txcnt := 0, retrycnt := 0 }

/-- `ieee80211_amrr_node_init`. -/
def amrrNodeInit (amrr : Amrr) : AmrrNode :=
  { success := 0, recovery := false, successThreshold := amrr.minSuccessThreshold, txcnt := 0,
    retrycnt := 0 }

/-- The rise of `ieee80211_amrr_choose`: the rate, the state and whether the rate has changed. -/
def amrrSuccess (nrates : UInt8) (txrate : Nat) (amn : AmrrNode) : Nat × AmrrNode × Bool :=
  let amn := { amn with success := amn.success + 1 }
  if amn.success ≥ amn.successThreshold ∧ txrate + 1 ≠ nrates.toNat then
    (txrate + 1, { amn with recovery := true, success := 0 }, true)
  else (txrate, { amn with recovery := false }, false)

/-- The fall of `ieee80211_amrr_choose`. -/
def amrrFailure (amrr : Amrr) (txrate : Nat) (amn : AmrrNode) : Nat × AmrrNode × Bool :=
  let amn := { amn with success := 0 }
  if txrate ≠ 0 then
    let threshold :=
      if amn.recovery then
        if amn.successThreshold * 2 > amrr.maxSuccessThreshold then amrr.maxSuccessThreshold
        else amn.successThreshold * 2
      else amrr.minSuccessThreshold
    (txrate - 1, { amn with successThreshold := threshold, recovery := false }, true)
  else (txrate, { amn with recovery := false }, false)

/-- `ieee80211_amrr_choose`: `ni_txrate` and the state of the node. -/
def amrrChoose (amrr : Amrr) (nrates : UInt8) (txrate : Nat) (amn : AmrrNode) : Nat × AmrrNode :=
  let (txrate, amn, needChange) :=
    if amn.isSuccess && amn.isEnough then amrrSuccess nrates txrate amn
    else if amn.isFailure then amrrFailure amrr txrate amn
    else (txrate, amn, false)
  (txrate, if amn.isEnough || needChange then amn.resetCnt else amn)

namespace Iwm

/-! ## The table -/

/-- `struct iwm_rate` without the HT part. -/
structure HwRate where
  rate : UInt8
  plcp : UInt32
  deriving DecidableEq, Repr

/-- `IWM_RATE_INVM_PLCP`. -/
def rateInvmPlcp : UInt32 := 0xff

def iwmRates : List HwRate :=
  [⟨2, 10⟩, ⟨4, 20⟩, ⟨11, 55⟩, ⟨22, 110⟩, ⟨12, 13⟩, ⟨18, 15⟩, ⟨24, 5⟩, ⟨36, 7⟩, ⟨48, 9⟩, ⟨72, 11⟩,
    ⟨96, 1⟩, ⟨108, 3⟩, ⟨128, rateInvmPlcp⟩]

def hwRate (ridx : Nat) : HwRate := iwmRates.getD ridx ⟨0, rateInvmPlcp⟩

-- IWM_RIDX_CCK, IWM_RIDX_OFDM
def ridxCck : Nat := 0
def ridxOfdm : Nat := 4

-- IWM_RATE_MCS_ANT_A_MSK, IWM_RATE_MCS_CCK_MSK
def rateMcsAntAMsk : UInt32 := 0x4000
def rateMcsCckMsk : UInt32 := 0x200

/-- `IWM_LQ_MAX_RETRY_NUM`, the size of `rs_table`. -/
def lqMaxRetryNum : Nat := 16

/-- `struct iwm_lq_cmd`: the fields that are not always 0. -/
structure LqCmd where
  staId : UInt8
  flags : UInt8
  singleStreamAntMsk : UInt8
  dualStreamAntMsk : UInt8
  aggTimeLimit : UInt16
  aggDisableStartTh : UInt8
  aggFrameCntLimit : UInt8
  rsTable : List UInt32
  deriving DecidableEq, Repr

/-- A rate of a rate set without its basic bit. -/
def rateAt (rs : Rateset) (i : Nat) : UInt8 := rv (rs.rsRates.toList.getD i 0)

/-- The inner loop of `iwm_setrates`, from `i` down: is the rate among the node's? -/
def searchRate (rs : Rateset) (rate : UInt8) : Nat → Bool
  | 0 => rate == rateAt rs 0
  | i + 1 => rate == rateAt rs (i + 1) || searchRate rs rate i

/-- `tab` for a rate of the hardware; 0 where the node does not have it. -/
def lqTab (rs : Rateset) (txrate ridx : Nat) : UInt32 :=
  if (hwRate ridx).plcp ≠ rateInvmPlcp ∧ searchRate rs (hwRate ridx).rate txrate
    then (hwRate ridx).plcp else 0

/-- The loop of `iwm_setrates`, from the rate before `ridx` down. -/
def lqLoop (rs : Rateset) (txrate ridxMin : Nat) : Nat → List UInt32 → List UInt32
  | 0, table => table
  | ridx + 1, table =>
    if ridx < ridxMin ∨ table.length ≥ lqMaxRetryNum then table
    else
      let tab := lqTab rs txrate ridx
      if tab = 0 then lqLoop rs txrate ridxMin ridx table
      else
        let tab := tab ||| rateMcsAntAMsk
        let tab := if ridx < ridxOfdm then tab ||| rateMcsCckMsk else tab
        lqLoop rs txrate ridxMin ridx (table ++ [tab])

/-- The rest of the table is its last entry. -/
def lqFill (table : List UInt32) : List UInt32 :=
  table ++ List.replicate (lqMaxRetryNum - table.length) (table.getLastD 0)

/-- `rs_table` of `iwm_setrates`. -/
def lqTable (chan5 : Bool) (rs : Rateset) (txrate : Nat) : List UInt32 :=
  lqFill (lqLoop rs txrate (if chan5 then ridxOfdm else ridxCck) iwmRates.length [])

/-- The command of `iwm_setrates`. -/
def setratesCmd (useprot chan5 : Bool) (rs : Rateset) (txrate : Nat) : LqCmd :=
  { staId := 0, flags := if useprot then 1 else 0, singleStreamAntMsk := 1, dualStreamAntMsk := 3,
    aggTimeLimit := 4000
    aggDisableStartTh := 3, aggFrameCntLimit := 1, rsTable := lqTable chan5 rs txrate }

/-! ## The driver -/

/-- What happened to the rate while the interface was in `IEEE80211_S_RUN`. -/
inductive RateEvent where
  /-- `ieee80211_amrr_choose`, with `ni_txrate` before and after it. -/
  | chose (old new : Nat)
  | sent (lq : LqCmd)
  deriving DecidableEq, Repr

/-- The part of the driver and of the node `ic_bss` that is about rates. `calib` says whether the
timer for `iwm_calib_timeout` runs. `events` lists what happened since the interface came to
`IEEE80211_S_RUN`, the last first. -/
structure RateSoftc where
  state : State
  opmode : Opmode
  fixedRate : Option Nat
  useprot : Bool
  chan5 : Bool
  rates : Rateset
  txrate : Nat
  amrr : Amrr
  amn : AmrrNode
  calib : Bool
  events : List RateEvent
  deriving DecidableEq

inductive RateOp where
  | config (opmode : Opmode) (fixedRate : Option Nat) (useprot : Bool)
  /-- Another node becomes `ic_bss`, or its rates are negotiated. -/
  | join (chan5 : Bool) (rates : Rateset) (txrate : Nat)
  /-- `iwm_newstate`, `iwm_stop`: the timer is stopped. -/
  | stopCalib
  /-- `iwm_do_newstate` to a state other than `IEEE80211_S_RUN`. -/
  | leave (nstate : State)
  /-- `iwm_do_newstate` to `IEEE80211_S_RUN`, from `ieee80211_amrr_node_init` on, and whether the
  command was sent. -/
  | run (sent : Bool)
  /-- `iwm_rx_tx_cmd_single`. -/
  | txDone (failack : Bool)
  | calibTimeout

/-- The end of `iwm_do_newstate` for `IEEE80211_S_RUN`. -/
def enterRun (sc : RateSoftc) (sent : Bool) : RateSoftc :=
  let sc := { sc with amn := amrrNodeInit sc.amrr, txrate := 0 }
  if sent then
    { sc with
      events :=
        .sent (setratesCmd sc.useprot sc.chan5 sc.rates sc.txrate) ::
          (if sc.state = .run then sc.events else [])
      calib := true, state := .run }
  else sc

/-- `iwm_calib_timeout`. -/
def calibTimeout (sc : RateSoftc) : RateSoftc :=
  if sc.fixedRate = none ∧ sc.opmode = .sta then
    let (txrate, amn) := amrrChoose sc.amrr sc.rates.rsNrates sc.txrate sc.amn
    { sc with txrate, amn, events := .chose sc.txrate txrate :: sc.events }
  else sc

def rateStep (sc : RateSoftc) : RateOp → Option RateSoftc
  | .config opmode fixedRate useprot => some { sc with opmode, fixedRate, useprot }
  | .join chan5 rates txrate => if sc.state = .run then none
      else some { sc with chan5, rates, txrate }
  | .stopCalib => some { sc with calib := false }
  | .leave nstate => if nstate = .run then none else some { sc with state := nstate }
  | .run sent => some (enterRun sc sent)
  | .txDone failack =>
    some { sc with
      amn := { sc.amn with
        txcnt := sc.amn.txcnt + 1
        retrycnt := if failack then sc.amn.retrycnt + 1 else sc.amn.retrycnt } }
  | .calibTimeout => if sc.calib then some (calibTimeout sc) else none

/-- The driver is attached. -/
structure RateInit (sc : RateSoftc) : Prop where
  state : sc.state = .init
  amrr : sc.amrr = ⟨1, 15⟩

end Iwm

end Net80211
