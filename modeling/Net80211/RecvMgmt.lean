import Net80211.Elements
import Net80211.Node
import Net80211.Rates

/-!
# Management frames on their way in

`ieee80211_input_management`, `ieee80211_recv_mgmt` and its handlers for beacons,
probe requests and responses, and association requests and responses, of
`net80211/ieee80211_input.c`, with what they call of `net80211/ieee80211_node.c`
on the elements of the frame. The handlers for authentication, deauthentication
and disassociation have no element loop and are not here.

`MgmtIc` is what a handler reads: the interface, the node it is called with, and
what the lookups in the node tables and the allocations give. What is sent, the
state changes and the statistics are left out; a handler returns the nodes it has
written, the rate sets it has installed and the WME parameters.

Of `ieee80211_input` there is only the first check of the length. What it reads of
a frame before it hands it on, to filter by address and by sequence number, is not
part of the parsing and not here.
-/

namespace Net80211

open Lib

/-- `IEEE80211_NWID_LEN`. -/
abbrev nwidLen : Nat := 32

/-- `struct ieee80211_node`, what a management frame is checked against or writes.
The channel is its index in `ic_channels`. -/
structure MgmtNode where
  niMacaddr : List UInt8
  niBssid : List UInt8
  niAssocid : UInt16
  niQos : Bool
  niTstamp : List UInt8
  niIntval : UInt16
  niCapinfo : UInt16
  niEsslen : UInt8
  niEssid : Vector UInt8 nwidLen
  niRates : Rateset
  niTxrate : Nat
  niChan : UInt8
  niFhdwell : UInt16
  niFhindex : UInt8
  niErp : UInt8
  niTimoff : UInt16
  niDtimCount : UInt8
  niDtimPeriod : UInt8
  niWpaIe : Option (List UInt8)
  niWmeIe : Option (List UInt8)
  niRsn : RsnParms

/-- The bits of `ic_flags` that the handlers test. -/
structure MgmtFlags where
  scan : Bool
  wpa1 : Bool
  wpa2 : Bool
  pureg : Bool
  hidessid : Bool
  deriving DecidableEq, Repr

structure MgmtIc where
  icOpmode : Opmode
  icState : State
  icFlags : MgmtFlags
  -- `ic_phytype == IEEE80211_T_FH`
  icFh : Bool
  icCurchan : UInt8
  icChanActive : UInt8 → Bool
  -- `ic_sup_rates` of the mode of a channel
  icSupRates : UInt8 → List UInt8
  icFixedRate : Option Nat
  icBss : MgmtNode
  icWme : ChanAccParams
  -- `ieee80211_msg_scan`
  msgScan : Bool
  ni : MgmtNode
  -- `ni == ic->ic_bss`
  niIsBss : Bool
  -- `ni_table != NULL`, and the nodes behind `ni` in its hash chain
  niTable : Bool
  niChain : List MgmtNode
  -- `ieee80211_find_node` in `ic_scan`, and a new node, if there is one
  scanNode : Option MgmtNode
  newNode : Option MgmtNode
  malloc : Bool
  -- what `1 << 32` gives
  shl32 : UInt32

/-- What a handler leaves behind. -/
structure MgmtOut where
  nodes : List MgmtNode
  installed : List Rateset
  icWme : ChanAccParams

/-- `struct ieee80211_scanparams`. -/
structure ScanParams where
  spCapinfo : UInt16
  spFhdwell : UInt16
  spChan : UInt8
  spBchan : UInt8
  spFhindex : UInt8
  spErp : UInt8
  spBintval : UInt16
  spTimoff : UInt16
  spTim : Option Nat
  spTstamp : Nat
  spCountry : Option Nat
  spSsid : Option Nat
  spRates : Option Nat
  spXrates : Option Nat
  spWpa : Option Nat
  spWme : Option Nat

-- IEEE80211_CAPINFO_*
def capinfoEss : UInt16 := 0x0001
def capinfoIbss : UInt16 := 0x0002
def capinfoShortSlottime : UInt16 := 0x0400

/-- `IEEE80211_FH_CHAN`, as a channel number. -/
def fhChan (set pat : UInt8) : UInt8 := (set - 1) * 80 + pat

/-- `sizeof(struct ieee80211_frame)`, and the offset of `wh + 1`. -/
def whSize : Nat := 24

variable (ic : MgmtIc) (frame : List UInt8)

/-- What `ieee80211_fix_rate` reads for a node on this channel. -/
def MgmtIc.rateCtx (chan : UInt8) : RateCtx :=
  { srs := ic.icSupRates chan, fixedRate := ic.icFixedRate
    hostap := decide (ic.icOpmode = .hostap) }

/-- `ieee80211_setup_rates` on a node. -/
def nodeSetupRates (flags : RateFlags) (ni : MgmtNode) (rates : Nat) (xrates : Option Nat) :
    Guarded MgmtDrop (UInt8 × MgmtNode) := do
  let out ← setupRates (ic.rateCtx ni.niChan) flags frame rates xrates ni.niTxrate
  pure (out.1, { ni with niRates := out.2.1, niTxrate := out.2.2 })

/-- `memcpy(ni->ni_essid, ssid + 2, ssid[1])`. -/
def copyEssid (ni : MgmtNode) (ssid : Nat) (essid : Vector UInt8 nwidLen) :
    Guarded MgmtDrop MgmtNode := do
  let n ← readAt frame (ssid + 1)
  let bs ← readN frame (ssid + 2) n.toNat
  let essid ← vecCopy essid 0 bs
  pure { ni with niEsslen := n, niEssid := essid }

/-- `saveie` of `ieee80211_node.c`, where NULL clears. -/
def saveieOrNull (ie : Option (List UInt8)) : Option Nat → Guarded MgmtDrop (Option (List UInt8))
  | none => pure none
  | some p => saveie frame ic.malloc ie p

/-- `ieee80211_saveie` where there is an element. -/
def saveieIf (ie : Option (List UInt8)) : Option Nat → Guarded MgmtDrop (Option (List UInt8))
  | none => pure ie
  | some p => saveie frame ic.malloc ie p

/-- The counts of a TIM element. -/
def readTim (ni : MgmtNode) : Option Nat → Guarded MgmtDrop MgmtNode
  | none => pure ni
  | some p => do
      let count ← readAt frame (p + 2)
      let period ← readAt frame (p + 3)
      pure { ni with niDtimCount := count, niDtimPeriod := period }

/-- The condition of `IEEE80211_VERIFY_SSID` and of the searches for an SSID: same
length and the same octets. -/
def ssidEq (ni : MgmtNode) (ssid : Nat) : Guarded MgmtDrop Bool := do
  let n ← readAt frame (ssid + 1)
  if n = ni.niEsslen then
    let bs ← readN frame (ssid + 2) n.toNat
    pure (bs == ni.niEssid.toList.take n.toNat)
  else pure false

/-- `IEEE80211_VERIFY_SSID`. The message that goes with a mismatch prints the SSID. -/
def verifySsid (ssid : Nat) : Guarded MgmtDrop Unit := do
  let n ← readAt frame (ssid + 1)
  if n = 0 then pure ()
  else
    let eq ← ssidEq frame ic.icBss ssid
    if eq then pure ()
    else
      let _ ← readN frame (ssid + 2) n.toNat
      .drop .ssidmismatch

/-! ## Beacons and probe responses -/

/-- The case for `IEEE80211_ELEMID_FHPARMS`. -/
def fhparms (p : Nat) (sp : ScanParams) : Guarded MgmtDrop ScanParams := do
  let n ← readAt frame (p + 1)
  verifyLength n.toNat 5
  if ic.icFh then
    let dwell ← leRead2 frame (p + 2)
    let set ← readAt frame (p + 4)
    let pat ← readAt frame (p + 5)
    let index ← readAt frame (p + 6)
    pure { sp with spFhdwell := dwell, spChan := fhChan set pat, spFhindex := index }
  else pure sp

/-- The case for `IEEE80211_ELEMID_DSPARMS`. -/
def dsparms (p : Nat) (sp : ScanParams) : Guarded MgmtDrop ScanParams := do
  let n ← readAt frame (p + 1)
  verifyLength n.toNat 1
  if ic.icFh then pure sp
  else
    let chan ← readAt frame (p + 2)
    pure { sp with spChan := chan }

/-- The case for `IEEE80211_ELEMID_TIM`. -/
def timElement (p : Nat) (sp : ScanParams) : Guarded MgmtDrop ScanParams := do
  let n ← readAt frame (p + 1)
  verifyLength n.toNat 4
  pure { sp with spTim := some p, spTimoff := UInt16.ofNat p }

/-- The case for `IEEE80211_ELEMID_ERP`. -/
def erpElement (p : Nat) (sp : ScanParams) : Guarded MgmtDrop ScanParams := do
  let n ← readAt frame (p + 1)
  if n ≠ 1 then pure sp
  else
    let erp ← readAt frame (p + 2)
    pure { sp with spErp := erp }

/-- `iswmeparam(frm) || iswmeinfo(frm)`. -/
def iswmeparamOrInfo (p : Nat) : Guarded MgmtDrop Bool := do
  let param ← iswmeparam frame p
  if param then pure true else iswmeinfo frame p

/-- The case for `IEEE80211_ELEMID_VENDOR`. -/
def beaconVendor (p : Nat) (sp : ScanParams) : Guarded MgmtDrop ScanParams := do
  let wpa ← iswpaoui frame p
  if wpa then pure { sp with spWpa := some p }
  else
    let wme ← iswmeparamOrInfo frame p
    if wme then pure { sp with spWme := some p } else pure sp

/-- The `switch` of `ieee80211_recv_mgmt_beacon`. -/
def beaconElement (p : Nat) (sp : ScanParams) : Guarded MgmtDrop ScanParams := do
  let id ← readAt frame p
  match elemid id with
  | .ssid => pure { sp with spSsid := some p }
  | .rates => pure { sp with spRates := some p }
  | .country => pure { sp with spCountry := some p }
  | .fhparms => fhparms ic frame p sp
  | .dsparms => dsparms ic frame p sp
  | .tim => timElement frame p sp
  | .xrates => pure { sp with spXrates := some p }
  | .erp => erpElement frame p sp
  | .rsn => pure { sp with spWpa := some p }
  | .vendor => beaconVendor frame p sp
  | .ibssparms | .unknown => pure sp

/-- The parameters of a beacon, with its SSID and its rates. -/
structure Beacon where
  sp : ScanParams
  ssid : Nat
  rates : Nat

/-- `ieee80211_recv_mgmt_beacon` up to the search for the node. -/
def parseBeacon : Guarded MgmtDrop Beacon := do
  verifyLength ((frame.length : Int) - whSize) 12
  let bintval ← leRead2 frame (whSize + 8)
  let capinfo ← leRead2 frame (whSize + 10)
  let sp ← elements frame (beaconElement ic frame) (whSize + 12)
    { spCapinfo := capinfo, spFhdwell := 0, spChan := ic.icCurchan, spBchan := ic.icCurchan
      spFhindex := 0, spErp := 0, spBintval := bintval, spTimoff := 0, spTim := none
      spTstamp := whSize, spCountry := none, spSsid := none, spRates := none, spXrates := none
      spWpa := none, spWme := none }
  let rates ← verifyElement frame 15 sp.spRates
  let ssid ← verifyElement frame 32 sp.spSsid
  if !ic.icChanActive sp.spChan then .drop .badchan
  else if sp.spChan ≠ sp.spBchan ∧ !ic.icFh then .drop .chanmismatch
  else if sp.spBintval < 25 ∨ 1000 < sp.spBintval then .drop .badbintval
  else pure { sp := sp, ssid := ssid, rates := rates }

/-- How well a node matches an SSID: `best_score` and `score`. -/
def ssidScore (ni : MgmtNode) (ssid : Nat) : Guarded MgmtDrop Nat := do
  let n ← readAt frame (ssid + 1)
  if n = 0 ∨ ni.niEsslen = 0 then pure 1
  else
    let eq ← ssidEq frame ni ssid
    pure (if eq then 2 else 0)

/-- One node of the chain. -/
def refineRound (chan : UInt8) (ssid : Nat) (best : Nat × MgmtNode) (ni : MgmtNode) :
    Guarded MgmtDrop (Nat × MgmtNode) :=
  if ni.niMacaddr ≠ best.2.niMacaddr ∨ ni.niChan ≠ chan then pure best
  else do
    let score ← ssidScore frame ni ssid
    if score > best.1 then pure (score, ni) else pure best

/-- `ieee80211_refine_node_for_beacon`, unless the node is `ic_bss`. -/
def refineNode (b : Beacon) : Guarded MgmtDrop MgmtNode :=
  if ic.niIsBss || !ic.niTable then pure ic.ni
  else do
    let score ← ssidScore frame ic.ni b.ssid
    let best ← ic.niChain.foldlM (refineRound frame b.sp.spChan b.ssid) (score, ic.ni)
    pure best.2

/-- `dump_probe_beacon`: it prints the SSID, and the country of a new node. -/
def dumpProbeBeacon (isnew : Bool) (b : Beacon) : Guarded MgmtDrop Unit :=
  if ic.msgScan && ic.icFlags.scan then do
    let n ← readAt frame (b.ssid + 1)
    let _ ← readN frame (b.ssid + 2) n.toNat
    match b.sp.spCountry with
    | some p =>
      if isnew then
        let n ← readAt frame (p + 1)
        let _ ← readN frame (p + 2) n.toNat
        pure ()
      else pure ()
    | none => pure ()
  else pure ()

/-- The SSID of `ieee80211_add_scan`: a hidden one does not replace one that is known. -/
def scanEssid (probeResp : Bool) (b : Beacon) (ni : MgmtNode) : Guarded MgmtDrop MgmtNode := do
  let n ← readAt frame (b.ssid + 1)
  if n ≠ 0 ∧ (probeResp ∨ ni.niEsslen = 0) then
    copyEssid frame ni b.ssid (Vector.replicate nwidLen 0)
  else pure ni

/-- `ieee80211_add_scan` on the node of the sender. -/
def addScanNode (probeResp isnew : Bool) (b : Beacon) (ni : MgmtNode) :
    Guarded MgmtDrop MgmtNode := do
  let sp := b.sp
  dumpProbeBeacon ic frame isnew b
  let ni ← scanEssid frame probeResp b ni
  let bssid ← readN frame 16 6
  let tstamp ← readN frame sp.spTstamp 8
  let ni := { ni with
    niBssid := bssid, niTstamp := tstamp, niIntval := sp.spBintval, niCapinfo := sp.spCapinfo
    niChan := sp.spChan, niFhdwell := sp.spFhdwell, niFhindex := sp.spFhindex, niErp := sp.spErp }
  let ni ← readTim frame ni sp.spTim
  let wme ← saveieOrNull ic frame ni.niWmeIe sp.spWme
  let wpa ← saveieOrNull ic frame ni.niWpaIe sp.spWpa
  let ni := { ni with niTimoff := sp.spTimoff, niWmeIe := wme, niWpaIe := wpa }
  let out ← nodeSetupRates ic frame
    { dosort := true, dofrate := false, donego := false, dodel := false }
    ni b.rates sp.spXrates
  pure out.2

/-- `ieee80211_add_scan`. -/
def addScan (probeResp : Bool) (b : Beacon) (out : MgmtOut) : Guarded MgmtDrop MgmtOut := do
  -- the sender, for the lookup
  let _ ← readN frame 10 6
  let isnew := ic.scanNode.isNone
  match ic.scanNode <|> ic.newNode with
  | some ni =>
    let ni ← addScanNode ic frame probeResp isnew b ni
    pure { out with nodes := ni :: out.nodes, installed := ni.niRates :: out.installed }
  | none => pure out

/-- `ieee80211_init_neighbor`. -/
def initNeighbor (b : Beacon) (ni : MgmtNode) : Guarded MgmtDrop MgmtNode := do
  let sp := b.sp
  let ni ← copyEssid frame ni b.ssid ni.niEssid
  let bssid ← readN frame 16 6
  let tstamp ← readN frame sp.spTstamp 8
  let wme ← saveieIf ic frame ni.niWmeIe sp.spWme
  let wpa ← saveieIf ic frame ni.niWpaIe sp.spWpa
  let ni := { ni with
    niBssid := bssid, niTstamp := tstamp, niIntval := sp.spBintval, niCapinfo := sp.spCapinfo
    niChan := ic.icBss.niChan, niFhdwell := sp.spFhdwell
    niFhindex := sp.spFhindex, niErp := sp.spErp
    niTimoff := sp.spTimoff, niWmeIe := wme, niWpaIe := wpa }
  let out ← nodeSetupRates ic frame
    { dosort := true, dofrate := false, donego := true, dodel := true }
    ni b.rates sp.spXrates
  pure out.2

/-- The node of `ieee80211_update_adhoc_node`: a new neighbor, one that was faked up
before, or one that is known. -/
def adhocNode (b : Beacon) (ni : MgmtNode) (out : MgmtOut) :
    Guarded MgmtDrop (Option (MgmtNode × MgmtOut)) := do
  let addr2 ← readN frame 10 6
  if addr2 ≠ ni.niMacaddr then
    match ic.newNode with
    | none => pure none
    | some ni =>
      let ni ← initNeighbor ic frame b ni
      pure (some (ni, { out with installed := ni.niRates :: out.installed }))
  else if ni.niCapinfo = 0 then
    let ni ← initNeighbor ic frame b ni
    pure (some (ni, { out with installed := ni.niRates :: out.installed }))
  else
    let tstamp ← readN frame b.sp.spTstamp 8
    pure (some ({ ni with niTstamp := tstamp }, out))

/-- `ieee80211_update_adhoc_node`. -/
def updateAdhocNode (b : Beacon) (ni : MgmtNode) (out : MgmtOut) : Guarded MgmtDrop MgmtOut := do
  match ← adhocNode ic frame b ni out with
  | none => pure out
  | some (ni, out) =>
    let bssid ← readN frame 16 6
    pure { out with nodes := { ni with niBssid := bssid } :: out.nodes }

/-- The WME parameters of a beacon of our access point. -/
def beaconWme (ni : MgmtNode) : Option Nat → Guarded MgmtDrop ChanAccParams
  | none => pure ic.icWme
  | some p =>
    if ni.niQos then do
      let out ← parseWmeparams frame ic.icWme p
      pure out.2
    else pure ic.icWme

/-- A beacon of the access point we are associated with. -/
def updateStation (probeResp : Bool) (b : Beacon) (ni : MgmtNode) : Guarded MgmtDrop MgmtOut := do
  let sp := b.sp
  let tstamp ← readN frame sp.spTstamp 8
  let slot := (ni.niCapinfo ^^^ sp.spCapinfo) &&& capinfoShortSlottime != 0
  let ni := { ni with
    niTstamp := tstamp, niErp := sp.spErp
    niCapinfo := if slot then sp.spCapinfo else ni.niCapinfo }
  let wme ← beaconWme ic frame ni sp.spWme
  let ni ← readTim frame ni sp.spTim
  let out : MgmtOut := { nodes := [ni], installed := [], icWme := wme }
  if ic.icFlags.scan then addScan ic frame probeResp b out else pure out

/-- `ieee80211_recv_mgmt_beacon`. -/
def recvMgmtBeacon (probeResp : Bool) : Guarded MgmtDrop MgmtOut :=
  if !(ic.icFlags.scan || (ic.icOpmode = .sta && ic.ni.niAssocid ≠ 0) || ic.icOpmode = .ibss) then
    .drop .mgtdiscard
  else do
    let b ← parseBeacon ic frame
    let ni ← refineNode ic frame b
    let addr2 ← readN frame 10 6
    let out : MgmtOut := { nodes := [], installed := [], icWme := ic.icWme }
    if ic.icOpmode = .sta ∧ ni.niAssocid ≠ 0 ∧ (!ic.icFlags.scan ∨ addr2 = ni.niBssid) then
      updateStation ic frame probeResp b ni
    else if ic.icFlags.scan then addScan ic frame probeResp b out
    else if b.sp.spCapinfo &&& capinfoIbss != 0 then updateAdhocNode ic frame b ni out
    else pure out

/-! ## Probe requests -/

/-- The elements that requests and association responses look for. -/
structure Found where
  ssid : Option Nat
  rates : Option Nat
  xrates : Option Nat
  wpa : Option Nat
  wme : Option Nat

def foundNone : Found := { ssid := none, rates := none, xrates := none, wpa := none, wme := none }

/-- `IEEE80211_R_DOSORT | IEEE80211_R_DOFRATE | IEEE80211_R_DONEGO | IEEE80211_R_DODEL`. -/
def rateFlagsAll : RateFlags := { dosort := true, dofrate := true, donego := true, dodel := true }

/-- The `switch` of `ieee80211_recv_mgmt_probe_req`. -/
def probeReqElement (p : Nat) (e : Found) : Guarded MgmtDrop Found := do
  let id ← readAt frame p
  match elemid id with
  | .ssid => pure { e with ssid := some p }
  | .rates => pure { e with rates := some p }
  | .xrates => pure { e with xrates := some p }
  | _ => pure e

/-- `IEEE80211_F_HIDESSID` wants the SSID to be named. -/
def verifyNamed (ssid : Nat) : Guarded MgmtDrop Unit :=
  if ic.icFlags.hidessid then do
    let n ← readAt frame (ssid + 1)
    if n = 0 then .drop .ssidmismatch else pure ()
  else pure ()

/-- The node that a probe request is answered from. -/
def probeReqNode : Guarded MgmtDrop MgmtNode := do
  let addr2 ← readN frame 10 6
  if !ic.niIsBss then pure ic.ni
  else if ic.icOpmode = .ibss ∧ addr2 = ic.ni.niMacaddr then pure ic.ni
  else
    match ic.newNode with
    | some ni => pure ni
    | none => .drop .noNode

/-- `ieee80211_recv_mgmt_probe_req`. -/
def recvMgmtProbeReq : Guarded MgmtDrop MgmtOut :=
  if ic.icOpmode = .sta ∨ ic.icState ≠ .run then .drop .mgtdiscard
  else do
    let a ← readAt frame 10
    if a &&& 1 != 0 then .drop .mgtdiscard
    else
      let e ← elements frame (probeReqElement frame) whSize foundNone
      let rates ← verifyElement frame 15 e.rates
      let ssid ← verifyElement frame 32 e.ssid
      verifySsid ic frame ssid
      verifyNamed ic frame ssid
      let ni ← probeReqNode ic frame
      let out ← nodeSetupRates ic frame rateFlagsAll ni rates e.xrates
      pure { nodes := [out.2], installed := [out.2.niRates], icWme := ic.icWme }

/-! ## Association requests -/

/-- The case for `IEEE80211_ELEMID_VENDOR`. -/
def assocReqVendor (p : Nat) (e : Found) : Guarded MgmtDrop Found := do
  let wpa ← iswpaoui frame p
  if wpa then pure { e with wpa := some p }
  else
    let wme ← iswmeinfo frame p
    if wme then pure { e with wme := some p } else pure e

/-- The `switch` of `ieee80211_recv_mgmt_assoc_req`. -/
def assocReqElement (p : Nat) (e : Found) : Guarded MgmtDrop Found := do
  let id ← readAt frame p
  match elemid id with
  | .ssid => pure { e with ssid := some p }
  | .rates => pure { e with rates := some p }
  | .xrates => pure { e with xrates := some p }
  | .rsn => pure { e with wpa := some p }
  | .vendor => assocReqVendor frame p e
  | _ => pure e

/-- `ieee80211_parse_rsn` for an RSN element, `ieee80211_parse_wpa` for any other. -/
def parseWpaOrRsn (p : Nat) (rsn : RsnParms) : Guarded MgmtDrop (Option RsnParms) := do
  let id ← readAt frame p
  if id ≠ 48 then parseWpa frame ic.shl32 ic.icFlags.wpa1 p rsn
  else parseRsn frame ic.shl32 ic.icFlags.wpa2 p rsn

/-- The security credentials of an association request, from those of the node;
without an element they stay. -/
def assocReqRsn (rsn : RsnParms) : Option Nat → Guarded MgmtDrop RsnParms
  | none =>
    if ic.icFlags.wpa1 || ic.icFlags.wpa2 then .drop .assocBadwpaie else pure rsn
  | some p => do
      match ← parseWpaOrRsn ic frame p rsn with
      | some rsn => pure rsn
      | none => .drop .assocBadwpaie

/-- What an association records of the WPA and WME elements. -/
def assocReqRecord (e : Found) (rsn : RsnParms) (ni : MgmtNode) : Guarded MgmtDrop MgmtNode := do
  let wpa ← saveieOrNull ic frame ni.niWpaIe e.wpa
  let wme ← saveieOrNull ic frame ni.niWmeIe e.wme
  pure { ni with
    niRsn := if e.wpa.isSome then rsn else ni.niRsn
    niWpaIe := wpa, niWmeIe := wme
    -- without an element the flag goes with the saved one
    niQos := e.wme.isSome || (ni.niQos && ni.niWmeIe.isNone) }

/-- `ieee80211_recv_mgmt_assoc_req` behind the checks. A rate set that does not do
is installed all the same. -/
def assocReqAccept (e : Found) (rates : Nat) (capinfo lintval : UInt16) (rsn : RsnParms) :
    Guarded MgmtDrop MgmtOut := do
  let out ← nodeSetupRates ic frame rateFlagsAll ic.ni rates e.xrates
  let ni := out.2
  if out.1 &&& rateBasic != 0 ∨ (ic.icFlags.pureg ∧ out.1 < 48) then
    pure { nodes := [ni], installed := [ni.niRates], icWme := ic.icWme }
  else
    let joined ← assocReqRecord ic frame e rsn { ni with
      niIntval := lintval, niCapinfo := capinfo, niChan := ic.icBss.niChan
      niFhdwell := ic.icBss.niFhdwell, niFhindex := ic.icBss.niFhindex }
    pure { nodes := [joined], installed := [ni.niRates], icWme := ic.icWme }

/-- `ieee80211_recv_mgmt_assoc_req`. -/
def recvMgmtAssocReq (reassoc : Bool) : Guarded MgmtDrop MgmtOut :=
  if ic.icOpmode ≠ .hostap ∨ ic.icState ≠ .run then .drop .mgtdiscard
  else do
    verifyLength ((frame.length : Int) - whSize) (if reassoc then 10 else 4)
    let addr3 ← readN frame 16 6
    if addr3 ≠ ic.icBss.niBssid then .drop .assocBss
    else
      let capinfo ← leRead2 frame whSize
      let lintval ← leRead2 frame (whSize + 2)
      let e ← elements frame (assocReqElement frame) (whSize + if reassoc then 10 else 4) foundNone
      let rates ← verifyElement frame 15 e.rates
      let ssid ← verifyElement frame 32 e.ssid
      verifySsid ic frame ssid
      if ic.niIsBss then .drop .assocNotauth
      else
        let rsn ← assocReqRsn ic frame ic.ni.niRsn e.wpa
        if capinfo &&& capinfoEss = 0 then .drop .assocCapmismatch
        else assocReqAccept ic frame e rates capinfo lintval rsn

/-! ## Association responses -/

/-- The case for `IEEE80211_ELEMID_VENDOR`. -/
def assocRespVendor (p : Nat) (e : Found) : Guarded MgmtDrop Found := do
  let wme ← iswmeoui frame p
  if wme then pure { e with wme := some p } else pure e

/-- The `switch` of `ieee80211_recv_mgmt_assoc_resp`. -/
def assocRespElement (p : Nat) (e : Found) : Guarded MgmtDrop Found := do
  let id ← readAt frame p
  match elemid id with
  | .rates => pure { e with rates := some p }
  | .xrates => pure { e with xrates := some p }
  | .vendor => assocRespVendor frame p e
  | _ => pure e

/-- `wme != NULL && ieee80211_parse_wmeparams(ic, wme, wh) >= 0`. -/
def assocRespWme : Option Nat → Guarded MgmtDrop (Bool × ChanAccParams)
  | none => pure (false, ic.icWme)
  | some p => do
      let out ← parseWmeparams frame ic.icWme p
      pure (decide (0 ≤ out.1), out.2)

/-- `ieee80211_recv_mgmt_assoc_resp`. The node is `ic_bss`, whoever sent the frame. -/
def recvMgmtAssocResp : Guarded MgmtDrop MgmtOut :=
  if ic.icOpmode ≠ .sta ∨ ic.icState ≠ .assoc then .drop .mgtdiscard
  else do
    verifyLength ((frame.length : Int) - whSize) 6
    let capinfo ← leRead2 frame whSize
    let status ← leRead2 frame (whSize + 2)
    if status ≠ 0 then .drop .authFail
    else
      let associd ← leRead2 frame (whSize + 4)
      let e ← elements frame (assocRespElement frame) (whSize + 6) foundNone
      let rates ← verifyElement frame 15 e.rates
      let out ← nodeSetupRates ic frame rateFlagsAll ic.icBss rates e.xrates
      let ni := out.2
      if out.1 &&& rateBasic != 0 then
        pure { nodes := [ni], installed := [ni.niRates], icWme := ic.icWme }
      else
        let wme ← assocRespWme ic frame e.wme
        pure { nodes := [{ ni with niCapinfo := capinfo, niAssocid := associd, niQos := wme.1 }]
               installed := [ni.niRates], icWme := wme.2 }

/-! ## Dispatch -/

/-- `ieee80211_recv_mgmt`. -/
def recvMgmt (subtype : UInt8) : Guarded MgmtDrop MgmtOut :=
  if subtype = 0x50 then recvMgmtBeacon ic frame true
  else if subtype = 0x80 then recvMgmtBeacon ic frame false
  else if subtype = 0x40 then recvMgmtProbeReq ic frame
  else if subtype = 0x00 then recvMgmtAssocReq ic frame false
  else if subtype = 0x20 then recvMgmtAssocReq ic frame true
  else if subtype = 0x10 ∨ subtype = 0x30 then recvMgmtAssocResp ic frame
  else .drop .other

/-- `ieee80211_input_management`, behind the first check of `ieee80211_input`. -/
def inputManagement : Guarded MgmtDrop MgmtOut :=
  -- `sizeof(struct ieee80211_frame_min)`
  if frame.length < 16 then .drop .tooshort
  else do
    let fc0 ← readAt frame 0
    let fc1 ← readAt frame 1
    let subtype := fc0 &&& 0xf0
    if fc1 &&& fc1DirMask ≠ fc1DirNods then .drop .wrongdir
    else if frame.length < whSize then .drop .tooshort
    -- only authentication frames may be encrypted
    else if fc1 &&& fc1Wep != 0 then
      if subtype ≠ 0xb0 then .drop .mgtdiscard else .drop .other
    else recvMgmt ic frame subtype

end Net80211
