import Net80211.Lib.Traced
import Net80211.Urtwn.Tx

/-!
# Receiving frames with urtwn

A bulk-in transfer holds several frames, each behind a descriptor and an info block: `urtwn_rxeof`,
`urtwn_rx_frame` and what they call of `driver/urtwn/if_urtwn.c`, with `ieee80211_find_rxnode` of
`net80211/ieee80211_node.c`. The transfer buffer is a function from offsets to octets; only the
first `len` of them are of this transfer, and every access is written down. What `ieee80211_input`
does with the interface is a parameter.

Left out are the list that the buffer is put to the end of, the listeners, the statistics and
the reference that the node is looked up with and released again.
-/

namespace Net80211.Urtwn

open Lib

/-- `sizeof(struct r92c_rx_desc_usb)`. -/
def rxDescSize : Nat := 24

/-- What tells the chips apart, and `URTWN_FLAG_CCK_HIPWR`. -/
structure RxChip where
  chip92c : Bool
  chip88e : Bool
  chip92eu : Bool
  cckHipwr : Bool
  deriving DecidableEq, Repr

/-- `le32toh` of the word at `i`. -/
def ldw (buf : Nat → UInt8) (i : Nat) : Traced UInt32 := do
  let bs ← look buf i 4
  pure (bs.foldr (fun b v => b.toUInt32 ||| v <<< 8) 0)

-- MS(rxdw0, R92C_RXDW0_*)
def rxPktlen (rxdw0 : UInt32) : Nat := (rxdw0 &&& 0x00003fff).toNat
def rxInfosz (rxdw0 : UInt32) : Nat := ((rxdw0 &&& 0x000f0000) >>> 16).toNat * 8

/-! ## Signal strength -/

/-- `urtwn_get_rssi`. -/
def getRssi (sc : RxChip) (buf : Nat → UInt8) (rate physt : Nat) : Traced Int :=
  if rate ≤ 3 then do
    let agcRpt ← lookAt buf (physt + 5)
    let rpt := if sc.cckHipwr then agcRpt >>> 5 &&& 0x3 else agcRpt >>> 6 &&& 0x3
    let rssi := if sc.cckHipwr then (agcRpt &&& 0x1f) <<< 1 else agcRpt &&& 0x3e
    pure (([16, -12, -26, -46] : List Int).getD rpt.toNat 0 - rssi.toNat)
  else do
    let phydw1 ← ldw buf (physt + 4)
    pure (((phydw1 >>> 1 &&& 0x7f).toNat : Int) - 110)

/-- `urtwn_r88e_get_rssi`. -/
def r88eGetRssi (buf : Nat → UInt8) (rate physt : Nat) : Traced Int :=
  if rate ≤ 3 then do
    let agcRpt ← lookAt buf (physt + 3)
    let lnaIdx := (agcRpt &&& 0xe0) >>> 5
    let vgaIdx : Int := (agcRpt &&& 0x1f).toNat
    let rssi := match lnaIdx.toNat with
      | 7 => if vgaIdx ≤ 27 then -100 + 2 * (27 - vgaIdx) else -100
      | 6 => -48 + 2 * (2 - vgaIdx)
      | 5 => -42 + 2 * (7 - vgaIdx)
      | 4 => -36 + 2 * (7 - vgaIdx)
      | 3 => -24 + 2 * (7 - vgaIdx)
      | 2 => -12 + 2 * (5 - vgaIdx)
      | 1 => 8 - 2 * vgaIdx
      | _ => 14 - 2 * vgaIdx
    pure (rssi + 6)
  else do
    let phydw1 ← ldw buf (physt + 4)
    pure (((phydw1 >>> 1 &&& 0x7f).toNat : Int) - 110)

/-- `urtwn_update_avgrssi`: the new average. -/
def updateAvgrssi (sc : RxChip) (avgPwdb : Int) (rate : Nat) (rssi : Int) : Int :=
  let pwdb := if rssi ≤ -100 ∨ rssi ≥ 20 then 0 else if rssi ≥ 0 then 100 else 100 + rssi
  let pwdb :=
    if !sc.chip88e && rate ≤ 3 then
      let pwdb := if pwdb + 6 > 100 then 100 else pwdb + 6
      if pwdb ≤ 14 then pwdb - 4
      else if pwdb ≤ 26 then pwdb - 8
      else if pwdb ≤ 34 then pwdb - 6
      else if pwdb ≤ 42 then pwdb - 2
      else pwdb
    else pwdb
  if avgPwdb = -1 then pwdb
  else if avgPwdb < pwdb then Int.tdiv (avgPwdb * 19 + pwdb) 20 + 1
  else Int.tdiv (avgPwdb * 19 + pwdb) 20

/-! ## Frames -/

/-- What becomes of the frame behind a descriptor. -/
inductive RxOutcome (ν : Type) where
  | crcError
  | tooShort
  | tooBig
  | noMbuf
  | up (n : ν) (frame : List UInt8) (rssi : Int)

/-- The interface, `avg_pwdb`, and the frames seen so far. -/
structure RxDev (ν : Type) where
  rx : Rx ν
  avgPwdb : Int
  outcomes : List (RxOutcome ν)

/-- `ieee80211_input` with the node, the frame and its signal. -/
abbrev InputFn (ν : Type) := Rx ν → ν → Mbuf → Int → Rx ν

variable {ν : Type}

def RxDev.note (s : RxDev ν) (o : RxOutcome ν) : RxDev ν := { s with outcomes := s.outcomes ++ [o] }

/-- `IEEE80211_NODE_HASH`. -/
def nodeHash (last : UInt8) : Nat := last.toNat % 32

/-- `_ieee80211_find_node` with the address at `macaddr`: the last octet says which bucket, and
the whole address is compared if there is a node in it. -/
def findNodeAt (rx : Rx ν) (table : List ν) (buf : Nat → UInt8) (macaddr : Nat) :
    Traced (Option ν) := do
  let last ← lookAt buf (macaddr + 5)
  match table.filter fun n => nodeHash ((rx.ic.icNode n).niMacaddr.getD 5 0) = nodeHash last with
  | [] => pure none
  | n :: rest => do
      let addr ← look buf macaddr 6
      pure ((n :: rest).find? fun n => (rx.ic.icNode n).niMacaddr = addr)

/-- Does `ieee80211_find_rxnode` take the first address? A control frame that is no PS-Poll. -/
def looksUpAddr1 (fc0 : UInt8) : Bool := fc0 &&& fc0TypeMask == fc0TypeCtl && fc0 &&& 0xf0 != 0xa0

/-- The address that `ieee80211_find_rxnode` looks up. -/
def lookupAddr (wh : Nat) (fc0 : UInt8) : Nat := if looksUpAddr1 fc0 then wh + 4 else wh + 10

/-- `ieee80211_find_rxnode`. -/
def findRxnode (rx : Rx ν) (buf : Nat → UInt8) (wh : Nat) : Traced ν := do
  let table := if rx.ic.icOpmode = .sta ∨ rx.ic.icOpmode = .monitor ∨
    rx.scan then rx.ic.icScan else rx.icSta
  let fc0 ← lookAt buf wh
  let n ← findNodeAt rx table buf (lookupAddr wh fc0)
  pure (n.getD rx.ic.icBss)

/-- The RSSI in the PHY status at `physt`. -/
def rxRssi (sc : RxChip) (buf : Nat → UInt8) (rate physt : Nat) : Traced Int :=
  if sc.chip92c then getRssi sc buf rate physt else r88eGetRssi buf rate physt

/-- `urtwn_rx_frame` from the allocation of the mbuf on. -/
def rxMbuf (inputFn : InputFn ν) (buf : Nat → UInt8) (wh pktlen : Nat) (rssi : Int)
    (s : RxDev ν) : Traced (RxDev ν) :=
  match mGetImpl s.rx.heap true with
  | (h, none) => pure ({ s with rx := { s.rx with heap := h } }.note .noMbuf)
  | (h, some m) => do
      let rx := { s.rx with heap := h }
      let frame ← look buf wh pktlen
      let m := { m.put 0 frame with mLen := pktlen, pkthdrLen := pktlen }
      let n ← findRxnode rx buf wh
      pure ({ s with rx := inputFn rx n m rssi }.note (.up n frame rssi))

/-- `urtwn_rx_frame` behind the two words of the descriptor at `desc`. -/
def rxChecked (sc : RxChip) (inputFn : InputFn ν) (buf : Nat → UInt8) (desc pktlen : Nat)
    (s : RxDev ν) (rxdw0 rxdw3 : UInt32) : Traced (RxDev ν) :=
  if rxdw0 &&& 0x0000c000 ≠ 0 then pure (s.note .crcError)
  else if pktlen < 10 then pure (s.note .tooShort)
  else if pktlen > mclbytes then pure (s.note .tooBig)
  else
    let rate := (rxdw3 &&& 0x0000003f).toNat
    let infosz := rxInfosz rxdw0
    let physt := desc + rxDescSize
    if infosz ≠ 0 ∧ rxdw0 &&& 0x04000000 ≠ 0 then do
      let rssi ← rxRssi sc buf rate physt
      let s := { s with avgPwdb := updateAvgrssi sc s.avgPwdb rate rssi }
      rxMbuf inputFn buf (physt + infosz) pktlen rssi s
    else rxMbuf inputFn buf (physt + infosz) pktlen 0 s

/-- `urtwn_rx_frame`. -/
def rxFrame (sc : RxChip) (inputFn : InputFn ν) (buf : Nat → UInt8) (desc pktlen : Nat)
    (s : RxDev ν) : Traced (RxDev ν) := do
  let rxdw0 ← ldw buf desc
  let rxdw3 ← ldw buf (desc + 12)
  rxChecked sc inputFn buf desc pktlen s rxdw0 rxdw3

/-- `roundup2`, for a power of two. -/
def roundup2 (x y : Nat) : Nat := (x + (y - 1)) / y * y

/-- `pktspacing`. -/
def RxChip.pktspacing (sc : RxChip) : Nat := if sc.chip92eu then 8 else 128

/-- The loop of `urtwn_rxeof`. What is left of the transfer can become negative. -/
def rxLoop (sc : RxChip) (inputFn : InputFn ν) (buf : Nat → UInt8) :
    Nat → Nat → Int → RxDev ν → Traced (RxDev ν)
  | 0, _, _, s => pure s
  | npkts + 1, desc, len, s =>
    if len ≤ 0 then pure s
    else if len < rxDescSize then pure s
    else do
      let rxdw0 ← ldw buf desc
      let pktlen := rxPktlen rxdw0
      if pktlen = 0 then pure s
      else
        let totlen := rxDescSize + rxInfosz rxdw0 + pktlen
        if (totlen : Int) > len then pure s
        else do
          let s ← rxFrame sc inputFn buf desc pktlen s
          let totlen := roundup2 totlen sc.pktspacing
          rxLoop sc inputFn buf npkts (desc + totlen) (len - totlen) s

/-- `npkts`. -/
def RxChip.npkts (sc : RxChip) (rxdw2 : UInt32) : Nat :=
  if sc.chip92eu then ((rxdw2 &&& 0x3fc00000) >>> 22).toNat
    else ((rxdw2 &&& 0x00ff0000) >>> 16).toNat

/-- `urtwn_rxeof`; the second component says whether the transfer is set up again. -/
def urtwnRxeof (sc : RxChip) (inputFn : InputFn ν) (buf : Nat → UInt8) (status : XferStatus)
    (len : Nat) (s : RxDev ν) : Traced (RxDev ν × Bool) :=
  match status with
  | .stalled | .cancelled => pure (s, false)
  | .notStarted | .other => pure (s, true)
  | .normalCompletion =>
    if len < rxDescSize then pure (s, true)
    else do
      let rxdw2 ← ldw buf 8
      let s ← rxLoop sc inputFn buf (sc.npkts rxdw2) 0 len s
      pure (s, true)

end Net80211.Urtwn
