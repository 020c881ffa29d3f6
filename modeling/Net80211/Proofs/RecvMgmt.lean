import Net80211.Proofs.Elements
import Net80211.RecvMgmt

/-!
# Management frames are parsed inside their octets

`ieee80211_input_management` lets no frame through that is shorter than its header,
and from there on a handler is safe for every content: its fixed fields are checked
against the end of the frame, each pointer that its loop saves is one to an element
inside (`ScanParams.Inside`, `Found.Inside`), and whatever reads through it later
gets no more than that (`Proofs.Elements`). The rates and the SSID have a length
that fits what they are copied to (`Verified`).

The handlers need the check in front of them: the difference that
`IEEE80211_VERIFY_LENGTH` looks at wraps for a frame without a whole header.
-/

namespace Net80211

open Lib Lib.Guarded

variable {frame : List UInt8}

/-- Every rate set that was installed has its rates inside the array. -/
def MgmtOut.Fits (out : MgmtOut) : Prop := ∀ rs ∈ out.installed, rs.Fits

theorem Inside.some {p : Nat} (h : Inside frame p) : ∀ q ∈ some p, Inside frame q := by
  intro q hq
  cases hq
  exact h

theorem no_pointer {P : Nat → Prop} : ∀ p ∈ (none : Option Nat), P p := by
  intro p hp
  cases hp

variable (ic : MgmtIc) {ssid rates : Nat} {elem : Option Nat}

theorem sat_addr2 (hlen : whSize ≤ frame.length) :
    Sat (fun bs => bs.length = 6) (readN frame 10 6 : Guarded MgmtDrop _) :=
  sat_readN (Nat.le_trans (by decide) hlen)

theorem sat_addr3 (hlen : whSize ≤ frame.length) :
    Sat (fun bs => bs.length = 6) (readN frame 16 6 : Guarded MgmtDrop _) :=
  sat_readN (Nat.le_trans (by decide) hlen)

theorem sat_nodeSetupRates (flags : RateFlags) (ni : MgmtNode) {xrates : Option Nat}
    (hr : Verified frame rateMaxsize rates) (hx : ∀ p ∈ xrates, Inside frame p) :
    Sat (fun out => out.2.niRates.Fits) (nodeSetupRates ic frame flags ni rates xrates) := by
  rw [nodeSetupRates]
  exact (sat_setupRates _ flags _ hr.inside hr.le hx).bind fun out hout => hout

theorem sat_copyEssid (ni : MgmtNode) (essid : Vector UInt8 nwidLen)
    (h : Verified frame nwidLen ssid) : Sat (fun _ => True) (copyEssid frame ni ssid essid) := by
  rw [copyEssid]
  refine (sat_readAt h.inside.lt).bind fun n hn => ?_
  refine (sat_readN (h.inside.le_of_read hn)).bind fun bs hbs => ?_
  exact (sat_vecCopy bs (by rw [hbs, Nat.zero_add]; exact h.le n hn)).bind fun essid _ => trivial

theorem sat_saveieOrNull (ie : Option (List UInt8))
    (h : ∀ p ∈ elem, Inside frame p) : Sat (fun _ => True) (saveieOrNull ic frame ie elem) := by
  cases elem with
  | none => exact trivial
  | some p => exact sat_saveie ic.malloc ie (h p rfl)

theorem sat_saveieIf (ie : Option (List UInt8))
    (h : ∀ p ∈ elem, Inside frame p) : Sat (fun _ => True) (saveieIf ic frame ie elem) := by
  cases elem with
  | none => exact trivial
  | some p => exact sat_saveie ic.malloc ie (h p rfl)

theorem sat_readTim (ni : MgmtNode) {tim : Option Nat} (h : ∀ p ∈ tim, p + 4 ≤ frame.length) :
    Sat (fun _ => True) (readTim frame ni tim) := by
  cases tim with
  | none => exact trivial
  | some p =>
    have hp := h p rfl
    rw [readTim]
    refine (sat_readAt (by omega)).bind fun count _ => ?_
    exact (sat_readAt (by omega)).bind fun period _ => trivial

theorem sat_ssidEq (ni : MgmtNode) (h : Inside frame ssid) :
    Sat (fun _ => True) (ssidEq frame ni ssid) := by
  rw [ssidEq]
  refine (sat_readAt h.lt).bind fun n hn => ?_
  refine sat_ite (fun _ => ?_) (fun _ => trivial)
  exact (sat_readN (h.le_of_read hn)).bind fun bs _ => trivial

theorem sat_verifySsid (h : Inside frame ssid) :
    Sat (fun _ => True) (verifySsid ic frame ssid) := by
  rw [verifySsid]
  refine (sat_readAt h.lt).bind fun n hn => ?_
  refine sat_ite (fun _ => trivial) (fun _ => ?_)
  refine (sat_ssidEq ic.icBss h).bind fun eq _ => ?_
  refine sat_ite (fun _ => trivial) (fun _ => ?_)
  exact (sat_readN (h.le_of_read hn)).bind fun bs _ => trivial

/-! ## Beacons and probe responses -/

/-- Every saved pointer is one to an element inside the frame. -/
structure ScanParams.Inside (frame : List UInt8) (sp : ScanParams) : Prop where
  tstamp : sp.spTstamp + 8 ≤ frame.length
  tim : ∀ p ∈ sp.spTim, p + 4 ≤ frame.length
  country : ∀ p ∈ sp.spCountry, Net80211.Inside frame p
  ssid : ∀ p ∈ sp.spSsid, Net80211.Inside frame p
  rates : ∀ p ∈ sp.spRates, Net80211.Inside frame p
  xrates : ∀ p ∈ sp.spXrates, Net80211.Inside frame p
  wpa : ∀ p ∈ sp.spWpa, Net80211.Inside frame p
  wme : ∀ p ∈ sp.spWme, Net80211.Inside frame p

variable {sp : ScanParams} {p : Nat}

theorem sat_elementLength {minlen : Nat} (n : UInt8) :
    Sat (fun _ => minlen ≤ n.toNat) (verifyLength n.toNat minlen) :=
  (sat_verifyLength (Int.natCast_nonneg _)).mono fun _ h => Int.ofNat_le.mp h

theorem sat_fhparms (hin : Inside frame p) (h : sp.Inside frame) :
    Sat (ScanParams.Inside frame) (fhparms ic frame p sp) := by
  rw [fhparms]
  refine (sat_readAt hin.lt).bind fun n hn => ?_
  have hle := hin.le_of_read hn
  refine (sat_elementLength n).bind fun _ hmin => ?_
  refine sat_ite (fun _ => ?_) (fun _ => h)
  refine (sat_leRead2 (by omega)).bind fun dwell _ => ?_
  refine (sat_readAt (by omega)).bind fun set _ => ?_
  refine (sat_readAt (by omega)).bind fun pat _ => ?_
  exact (sat_readAt (by omega)).bind fun index _ => { h with }

theorem sat_dsparms (hin : Inside frame p) (h : sp.Inside frame) :
    Sat (ScanParams.Inside frame) (dsparms ic frame p sp) := by
  rw [dsparms]
  refine (sat_readAt hin.lt).bind fun n hn => ?_
  have hle := hin.le_of_read hn
  refine (sat_elementLength n).bind fun _ hmin => ?_
  refine sat_ite (fun _ => h) (fun _ => ?_)
  exact (sat_readAt (by omega)).bind fun chan _ => { h with }

theorem sat_timElement (hin : Inside frame p) (h : sp.Inside frame) :
    Sat (ScanParams.Inside frame) (timElement frame p sp) := by
  rw [timElement]
  refine (sat_readAt hin.lt).bind fun n hn => ?_
  have hle := hin.le_of_read hn
  refine (sat_elementLength n).bind fun _ hmin => ?_
  refine { h with tim := fun q hq => ?_ }
  cases hq
  omega

theorem sat_erpElement (hin : Inside frame p) (h : sp.Inside frame) :
    Sat (ScanParams.Inside frame) (erpElement frame p sp) := by
  rw [erpElement]
  refine (sat_readAt hin.lt).bind fun n hn => ?_
  have hle := hin.le_of_read hn
  refine sat_ite (fun _ => h) (fun hone => ?_)
  have hn1 : n.toNat = 1 := by
    rw [Decidable.not_not.mp hone]
    rfl
  exact (sat_readAt (by omega)).bind fun erp _ => { h with }

theorem sat_beaconVendor (hin : Inside frame p) (h : sp.Inside frame) :
    Sat (ScanParams.Inside frame) (beaconVendor frame p sp) := by
  have hwme : Sat (fun _ => True) (iswmeparamOrInfo frame p) := by
    rw [iswmeparamOrInfo]
    refine (sat_isWme 1 hin).bind fun param _ => ?_
    exact sat_ite (fun _ => trivial) (fun _ => sat_isWme 0 hin)
  rw [beaconVendor]
  refine (sat_iswpaoui hin).bind fun wpa _ => ?_
  refine sat_ite (fun _ => { h with wpa := hin.some }) (fun _ => ?_)
  refine hwme.bind fun wme _ => ?_
  exact sat_ite (fun _ => { h with wme := hin.some }) (fun _ => h)

theorem sat_beaconElement (p : Nat) (sp : ScanParams) (hin : Inside frame p) (h : sp.Inside frame) :
    Sat (ScanParams.Inside frame) (beaconElement ic frame p sp) := by
  rw [beaconElement]
  refine (sat_readAt (Nat.lt_of_succ_lt hin.lt)).bind fun id _ => ?_
  cases elemid id with
  | ssid => exact { h with ssid := hin.some }
  | rates => exact { h with rates := hin.some }
  | country => exact { h with country := hin.some }
  | fhparms => exact sat_fhparms ic hin h
  | dsparms => exact sat_dsparms ic hin h
  | tim => exact sat_timElement hin h
  | xrates => exact { h with xrates := hin.some }
  | erp => exact sat_erpElement hin h
  | rsn => exact { h with wpa := hin.some }
  | vendor => exact sat_beaconVendor hin h
  | ibssparms | unknown => exact h

/-- What is known of a beacon behind its checks. -/
structure Beacon.Ok (frame : List UInt8) (b : Beacon) : Prop where
  sp : b.sp.Inside frame
  ssid : Verified frame nwidLen b.ssid
  rates : Verified frame rateMaxsize b.rates

theorem sat_parseBeacon (hlen : whSize ≤ frame.length) :
    Sat (Beacon.Ok frame) (parseBeacon ic frame) := by
  have h24 : whSize = 24 := rfl
  rw [parseBeacon]
  refine (sat_verifyLength (by omega)).bind fun _ hmin => ?_
  refine (sat_leRead2 (by omega)).bind fun bintval _ => ?_
  refine (sat_leRead2 (by omega)).bind fun capinfo _ => ?_
  refine (sat_elements (ScanParams.Inside frame) (sat_beaconElement ic) (by omega) ?_).bind
    fun sp hsp => ?_
  · have htstamp : whSize + 8 ≤ frame.length := by omega
    exact { tstamp := htstamp, tim := no_pointer, country := no_pointer, ssid := no_pointer
            rates := no_pointer, xrates := no_pointer, wpa := no_pointer, wme := no_pointer }
  refine (sat_verifyElement 15 hsp.rates).bind fun rates hrates => ?_
  refine (sat_verifyElement 32 hsp.ssid).bind fun ssid hssid => ?_
  refine sat_ite (fun _ => trivial) (fun _ => sat_ite (fun _ => trivial) (fun _ => ?_))
  exact sat_ite (fun _ => trivial) (fun _ => { sp := hsp, ssid := hssid, rates := hrates })

theorem sat_ssidScore (ni : MgmtNode) (h : Inside frame ssid) :
    Sat (fun _ => True) (ssidScore frame ni ssid) := by
  rw [ssidScore]
  refine (sat_readAt h.lt).bind fun n _ => ?_
  refine sat_ite (fun _ => trivial) (fun _ => ?_)
  exact (sat_ssidEq ni h).bind fun eq _ => trivial

variable {b : Beacon}

theorem sat_refineNode (hb : b.Ok frame) : Sat (fun _ => True) (refineNode ic frame b) := by
  have hround : ∀ (best : Nat × MgmtNode) (ni : MgmtNode), True →
      Sat (fun _ => True) (refineRound frame b.sp.spChan b.ssid best ni) := by
    intro best ni _
    rw [refineRound]
    refine sat_ite (fun _ => trivial) (fun _ => ?_)
    refine (sat_ssidScore ni hb.ssid.inside).bind fun score _ => ?_
    exact sat_ite (fun _ => trivial) (fun _ => trivial)
  rw [refineNode]
  refine sat_ite (fun _ => trivial) (fun _ => ?_)
  refine (sat_ssidScore ic.ni hb.ssid.inside).bind fun score _ => ?_
  exact (sat_foldlM (fun _ => True) hround ic.niChain (score, ic.ni) trivial).bind
    fun best _ => trivial

theorem sat_dumpProbeBeacon (isnew : Bool) (hb : b.Ok frame) :
    Sat (fun _ => True) (dumpProbeBeacon ic frame isnew b) := by
  rw [dumpProbeBeacon]
  refine sat_ite (fun _ => ?_) (fun _ => trivial)
  refine (sat_readAt hb.ssid.inside.lt).bind fun n hn => ?_
  refine (sat_readN (hb.ssid.inside.le_of_read hn)).bind fun bs _ => ?_
  cases hc : b.sp.spCountry with
  | none => exact trivial
  | some p =>
    have hin := hb.sp.country p hc
    refine sat_ite (fun _ => ?_) (fun _ => trivial)
    refine (sat_readAt hin.lt).bind fun n hn => ?_
    exact (sat_readN (hin.le_of_read hn)).bind fun bs _ => trivial

theorem sat_scanEssid (probeResp : Bool) (ni : MgmtNode) (hb : b.Ok frame) :
    Sat (fun _ => True) (scanEssid frame probeResp b ni) := by
  rw [scanEssid]
  refine (sat_readAt hb.ssid.inside.lt).bind fun n _ => ?_
  exact sat_ite (fun _ => sat_copyEssid ni _ hb.ssid) (fun _ => trivial)

theorem sat_addScanNode (hlen : whSize ≤ frame.length) (probeResp isnew : Bool) (ni : MgmtNode)
    (hb : b.Ok frame) :
    Sat (fun ni => ni.niRates.Fits) (addScanNode ic frame probeResp isnew b ni) := by
  rw [addScanNode]
  refine (sat_dumpProbeBeacon ic isnew hb).bind fun _ _ => ?_
  refine (sat_scanEssid probeResp ni hb).bind fun ni _ => ?_
  refine (sat_addr3 hlen).bind fun bssid _ => ?_
  refine (sat_readN hb.sp.tstamp).bind fun tstamp _ => ?_
  refine (sat_readTim _ hb.sp.tim).bind fun ni _ => ?_
  refine (sat_saveieOrNull ic _ hb.sp.wme).bind fun wme _ => ?_
  refine (sat_saveieOrNull ic _ hb.sp.wpa).bind fun wpa _ => ?_
  exact (sat_nodeSetupRates ic _ _ hb.rates hb.sp.xrates).bind fun out hout => hout

variable {out : MgmtOut} {wme : Option Nat}

theorem sat_addScan (hlen : whSize ≤ frame.length) (probeResp : Bool) (hb : b.Ok frame)
    (hout : out.Fits) : Sat MgmtOut.Fits (addScan ic frame probeResp b out) := by
  rw [addScan]
  refine (sat_addr2 hlen).bind fun _ _ => ?_
  cases ic.scanNode <|> ic.newNode with
  | none => exact hout
  | some ni =>
    exact (sat_addScanNode ic hlen probeResp _ ni hb).bind fun ni hni =>
      List.forall_mem_cons.mpr ⟨hni, hout⟩

theorem sat_initNeighbor (hlen : whSize ≤ frame.length) (ni : MgmtNode) (hb : b.Ok frame) :
    Sat (fun ni => ni.niRates.Fits) (initNeighbor ic frame b ni) := by
  rw [initNeighbor]
  refine (sat_copyEssid ni _ hb.ssid).bind fun ni _ => ?_
  refine (sat_addr3 hlen).bind fun bssid _ => ?_
  refine (sat_readN hb.sp.tstamp).bind fun tstamp _ => ?_
  refine (sat_saveieIf ic _ hb.sp.wme).bind fun wme _ => ?_
  refine (sat_saveieIf ic _ hb.sp.wpa).bind fun wpa _ => ?_
  exact (sat_nodeSetupRates ic _ _ hb.rates hb.sp.xrates).bind fun out hout => hout

theorem sat_adhocNode (hlen : whSize ≤ frame.length) (ni : MgmtNode) (hb : b.Ok frame)
    (hout : out.Fits) : Sat (fun r => ∀ x ∈ r, x.2.Fits) (adhocNode ic frame b ni out) := by
  -- A neighbor that is set up adds its rate set.
  have hinit : ∀ ni, Sat (fun r => ∀ x ∈ r, x.2.Fits) (do
      let ni ← initNeighbor ic frame b ni
      pure (some (ni, { out with installed := ni.niRates :: out.installed }))) := by
    intro ni
    refine (sat_initNeighbor ic hlen ni hb).bind fun ni hni => ?_
    intro x hx
    cases hx
    exact List.forall_mem_cons.mpr ⟨hni, hout⟩
  rw [adhocNode]
  refine (sat_addr2 hlen).bind fun addr2 _ => ?_
  refine sat_ite (fun _ => ?_) (fun _ => sat_ite (fun _ => hinit ni) (fun _ => ?_))
  · cases ic.newNode with
    | none => exact (fun x hx => by cases hx)
    | some ni => exact hinit ni
  · refine (sat_readN hb.sp.tstamp).bind fun tstamp _ => ?_
    intro x hx
    cases hx
    exact hout

theorem sat_updateAdhocNode (hlen : whSize ≤ frame.length) (ni : MgmtNode) (hb : b.Ok frame)
    (hout : out.Fits) : Sat MgmtOut.Fits (updateAdhocNode ic frame b ni out) := by
  rw [updateAdhocNode]
  refine (sat_adhocNode ic hlen ni hb hout).bind fun r hr => ?_
  cases r with
  | none => exact hout
  | some x => exact (sat_addr3 hlen).bind fun bssid _ => hr x rfl

theorem sat_beaconWme (ni : MgmtNode) (h : ∀ p ∈ wme, Inside frame p) :
    Sat (fun _ => True) (beaconWme ic frame ni wme) := by
  cases wme with
  | none => exact trivial
  | some p =>
    rw [beaconWme]
    refine sat_ite (fun _ => ?_) (fun _ => trivial)
    exact (sat_parseWmeparams ic.icWme (h p rfl)).bind fun out _ => trivial

theorem sat_updateStation (hlen : whSize ≤ frame.length) (probeResp : Bool) (ni : MgmtNode)
    (hb : b.Ok frame) : Sat MgmtOut.Fits (updateStation ic frame probeResp b ni) := by
  have hnil : ∀ nodes wme, MgmtOut.Fits { nodes := nodes, installed := [], icWme := wme } :=
    fun _ _ => (fun rs hrs => by cases hrs)
  rw [updateStation]
  refine (sat_readN hb.sp.tstamp).bind fun tstamp _ => ?_
  refine (sat_beaconWme ic _ hb.sp.wme).bind fun wme _ => ?_
  refine (sat_readTim _ hb.sp.tim).bind fun ni _ => ?_
  exact sat_ite (fun _ => sat_addScan ic hlen probeResp hb (hnil _ _)) (fun _ => hnil _ _)

theorem sat_recvMgmtBeacon (hlen : whSize ≤ frame.length) (probeResp : Bool) :
    Sat MgmtOut.Fits (recvMgmtBeacon ic frame probeResp) := by
  have hnil : MgmtOut.Fits { nodes := [], installed := [], icWme := ic.icWme } :=
    (fun rs hrs => by cases hrs)
  rw [recvMgmtBeacon]
  refine sat_ite (fun _ => trivial) (fun _ => ?_)
  refine (sat_parseBeacon ic hlen).bind fun b hb => ?_
  refine (sat_refineNode ic hb).bind fun ni _ => ?_
  refine (sat_addr2 hlen).bind fun addr2 _ => ?_
  refine sat_ite (fun _ => sat_updateStation ic hlen probeResp ni hb) (fun _ => ?_)
  refine sat_ite (fun _ => sat_addScan ic hlen probeResp hb hnil) (fun _ => ?_)
  exact sat_ite (fun _ => sat_updateAdhocNode ic hlen ni hb hnil) (fun _ => hnil)

/-! ## Requests and association responses -/

/-- Every saved pointer is one to an element inside the frame. -/
structure Found.Inside (frame : List UInt8) (e : Found) : Prop where
  ssid : ∀ p ∈ e.ssid, Net80211.Inside frame p
  rates : ∀ p ∈ e.rates, Net80211.Inside frame p
  xrates : ∀ p ∈ e.xrates, Net80211.Inside frame p
  wpa : ∀ p ∈ e.wpa, Net80211.Inside frame p
  wme : ∀ p ∈ e.wme, Net80211.Inside frame p

theorem foundNone_inside : foundNone.Inside frame :=
  { ssid := no_pointer, rates := no_pointer, xrates := no_pointer, wpa := no_pointer
    wme := no_pointer }

variable {e : Found}

theorem sat_probeReqElement (p : Nat) (e : Found) (hin : Inside frame p) (h : e.Inside frame) :
    Sat (Found.Inside frame) (probeReqElement frame p e) := by
  rw [probeReqElement]
  refine (sat_readAt (Nat.lt_of_succ_lt hin.lt)).bind fun id _ => ?_
  cases elemid id with
  | ssid => exact { h with ssid := hin.some }
  | rates => exact { h with rates := hin.some }
  | xrates => exact { h with xrates := hin.some }
  | _ => exact h

theorem sat_verifyNamed (h : Inside frame ssid) :
    Sat (fun _ => True) (verifyNamed ic frame ssid) := by
  rw [verifyNamed]
  refine sat_ite (fun _ => ?_) (fun _ => trivial)
  refine (sat_readAt h.lt).bind fun n _ => ?_
  exact sat_ite (fun _ => trivial) (fun _ => trivial)

theorem sat_probeReqNode (hlen : whSize ≤ frame.length) :
    Sat (fun _ => True) (probeReqNode ic frame) := by
  rw [probeReqNode]
  refine (sat_addr2 hlen).bind fun addr2 _ => ?_
  refine sat_ite (fun _ => trivial) (fun _ => sat_ite (fun _ => trivial) (fun _ => ?_))
  cases ic.newNode with
  | none | some ni => exact trivial

theorem fits_singleton {nodes : List MgmtNode} {rs : Rateset} {wme : ChanAccParams} (h : rs.Fits) :
    MgmtOut.Fits { nodes := nodes, installed := [rs], icWme := wme } :=
  List.forall_mem_cons.mpr ⟨h, fun r hr => by cases hr⟩

theorem sat_recvMgmtProbeReq (hlen : whSize ≤ frame.length) :
    Sat MgmtOut.Fits (recvMgmtProbeReq ic frame) := by
  rw [recvMgmtProbeReq]
  refine sat_ite (fun _ => trivial) (fun _ => ?_)
  refine (sat_readAt (Nat.lt_of_lt_of_le (by decide) hlen)).bind fun a _ => ?_
  refine sat_ite (fun _ => trivial) (fun _ => ?_)
  refine (sat_elements _ sat_probeReqElement hlen foundNone_inside).bind fun e he => ?_
  refine (sat_verifyElement 15 he.rates).bind fun rates hrates => ?_
  refine (sat_verifyElement 32 he.ssid).bind fun ssid hssid => ?_
  refine (sat_verifySsid ic hssid.inside).bind fun _ _ => ?_
  refine (sat_verifyNamed ic hssid.inside).bind fun _ _ => ?_
  refine (sat_probeReqNode ic hlen).bind fun ni _ => ?_
  exact (sat_nodeSetupRates ic _ ni hrates he.xrates).bind fun out hout => fits_singleton hout

theorem sat_assocReqVendor (hin : Inside frame p) (h : e.Inside frame) :
    Sat (Found.Inside frame) (assocReqVendor frame p e) := by
  rw [assocReqVendor]
  refine (sat_iswpaoui hin).bind fun wpa _ => ?_
  refine sat_ite (fun _ => { h with wpa := hin.some }) (fun _ => ?_)
  refine (sat_isWme 0 hin).bind fun wme _ => ?_
  exact sat_ite (fun _ => { h with wme := hin.some }) (fun _ => h)

theorem sat_assocReqElement (p : Nat) (e : Found) (hin : Inside frame p) (h : e.Inside frame) :
    Sat (Found.Inside frame) (assocReqElement frame p e) := by
  rw [assocReqElement]
  refine (sat_readAt (Nat.lt_of_succ_lt hin.lt)).bind fun id _ => ?_
  cases elemid id with
  | ssid => exact { h with ssid := hin.some }
  | rates => exact { h with rates := hin.some }
  | xrates => exact { h with xrates := hin.some }
  | rsn => exact { h with wpa := hin.some }
  | vendor => exact sat_assocReqVendor hin h
  | _ => exact h

theorem sat_assocReqRsn (rsn : RsnParms) {wpa : Option Nat} (h : ∀ p ∈ wpa, Inside frame p) :
    Sat (fun _ => True) (assocReqRsn ic frame rsn wpa) := by
  cases wpa with
  | none =>
    rw [assocReqRsn]
    exact sat_ite (fun _ => trivial) (fun _ => trivial)
  | some p =>
    have hin := h p rfl
    have hparse : Sat (fun _ => True) (parseWpaOrRsn ic frame p rsn) := by
      rw [parseWpaOrRsn]
      refine (sat_readAt (Nat.lt_of_succ_lt hin.lt)).bind fun id _ => ?_
      exact sat_ite (fun _ => sat_parseWpa _ _ rsn hin) (fun _ => sat_parseRsn _ _ rsn hin)
    rw [assocReqRsn]
    refine hparse.bind fun parsed _ => ?_
    cases parsed with
    | none | some rsn => exact trivial

theorem sat_assocReqRecord (rsn : RsnParms) (ni : MgmtNode) (he : e.Inside frame) :
    Sat (fun _ => True) (assocReqRecord ic frame e rsn ni) := by
  rw [assocReqRecord]
  refine (sat_saveieOrNull ic _ he.wpa).bind fun wpa _ => ?_
  exact (sat_saveieOrNull ic _ he.wme).bind fun wme _ => trivial

theorem sat_assocReqAccept (capinfo lintval : UInt16) (rsn : RsnParms) (he : e.Inside frame)
    (hrates : Verified frame rateMaxsize rates) :
    Sat MgmtOut.Fits (assocReqAccept ic frame e rates capinfo lintval rsn) := by
  rw [assocReqAccept]
  refine (sat_nodeSetupRates ic _ ic.ni hrates he.xrates).bind fun out hout => ?_
  refine sat_ite (fun _ => fits_singleton hout) (fun _ => ?_)
  exact (sat_assocReqRecord ic rsn _ he).bind fun joined _ => fits_singleton hout

theorem sat_recvMgmtAssocReq (hlen : whSize ≤ frame.length) (reassoc : Bool) :
    Sat MgmtOut.Fits (recvMgmtAssocReq ic frame reassoc) := by
  have h4 : 4 ≤ if reassoc then 10 else 4 := by
    cases reassoc
    · exact Nat.le_refl 4
    · exact Nat.le_of_ble_eq_true rfl
  rw [recvMgmtAssocReq]
  refine sat_ite (fun _ => trivial) (fun _ => ?_)
  refine (sat_verifyLength (by omega)).bind fun _ hmin => ?_
  refine (sat_addr3 hlen).bind fun addr3 _ => ?_
  refine sat_ite (fun _ => trivial) (fun _ => ?_)
  refine (sat_leRead2 (by omega)).bind fun capinfo _ => ?_
  refine (sat_leRead2 (by omega)).bind fun lintval _ => ?_
  refine (sat_elements _ sat_assocReqElement (by omega) foundNone_inside).bind fun e he => ?_
  refine (sat_verifyElement 15 he.rates).bind fun rates hrates => ?_
  refine (sat_verifyElement 32 he.ssid).bind fun ssid hssid => ?_
  refine (sat_verifySsid ic hssid.inside).bind fun _ _ => ?_
  refine sat_ite (fun _ => trivial) (fun _ => ?_)
  refine (sat_assocReqRsn ic _ he.wpa).bind fun rsn _ => ?_
  exact sat_ite (fun _ => trivial) (fun _ => sat_assocReqAccept ic capinfo lintval rsn he hrates)

theorem sat_assocRespElement (p : Nat) (e : Found) (hin : Inside frame p) (h : e.Inside frame) :
    Sat (Found.Inside frame) (assocRespElement frame p e) := by
  have hvendor : Sat (Found.Inside frame) (assocRespVendor frame p e) := by
    rw [assocRespVendor]
    refine (sat_iswmeoui hin).bind fun wme _ => ?_
    exact sat_ite (fun _ => { h with wme := hin.some }) (fun _ => h)
  rw [assocRespElement]
  refine (sat_readAt (Nat.lt_of_succ_lt hin.lt)).bind fun id _ => ?_
  cases elemid id with
  | rates => exact { h with rates := hin.some }
  | xrates => exact { h with xrates := hin.some }
  | vendor => exact hvendor
  | _ => exact h

theorem sat_assocRespWme (h : ∀ p ∈ wme, Inside frame p) :
    Sat (fun _ => True) (assocRespWme ic frame wme) := by
  cases wme with
  | none => exact trivial
  | some p => exact (sat_parseWmeparams ic.icWme (h p rfl)).bind fun out _ => trivial

theorem sat_recvMgmtAssocResp (hlen : whSize ≤ frame.length) :
    Sat MgmtOut.Fits (recvMgmtAssocResp ic frame) := by
  rw [recvMgmtAssocResp]
  refine sat_ite (fun _ => trivial) (fun _ => ?_)
  refine (sat_verifyLength (by omega)).bind fun _ hmin => ?_
  refine (sat_leRead2 (by omega)).bind fun capinfo _ => ?_
  refine (sat_leRead2 (by omega)).bind fun status _ => ?_
  refine sat_ite (fun _ => trivial) (fun _ => ?_)
  refine (sat_leRead2 (by omega)).bind fun associd _ => ?_
  refine (sat_elements _ sat_assocRespElement (by omega) foundNone_inside).bind fun e he => ?_
  refine (sat_verifyElement 15 he.rates).bind fun rates hrates => ?_
  refine (sat_nodeSetupRates ic _ ic.icBss hrates he.xrates).bind fun out hout => ?_
  refine sat_ite (fun _ => fits_singleton hout) (fun _ => ?_)
  exact (sat_assocRespWme ic he.wme).bind fun wme _ => fits_singleton hout

/-! ## Every frame -/

theorem sat_recvMgmt (hlen : whSize ≤ frame.length) (subtype : UInt8) :
    Sat MgmtOut.Fits (recvMgmt ic frame subtype) := by
  rw [recvMgmt]
  refine sat_ite (fun _ => sat_recvMgmtBeacon ic hlen true) (fun _ => ?_)
  refine sat_ite (fun _ => sat_recvMgmtBeacon ic hlen false) (fun _ => ?_)
  refine sat_ite (fun _ => sat_recvMgmtProbeReq ic hlen) (fun _ => ?_)
  refine sat_ite (fun _ => sat_recvMgmtAssocReq ic hlen false) (fun _ => ?_)
  refine sat_ite (fun _ => sat_recvMgmtAssocReq ic hlen true) (fun _ => ?_)
  exact sat_ite (fun _ => sat_recvMgmtAssocResp ic hlen) (fun _ => trivial)

theorem sat_inputManagement (frame : List UInt8) : Sat MgmtOut.Fits (inputManagement ic frame) := by
  rw [inputManagement]
  refine sat_ite (fun _ => trivial) (fun hmin => ?_)
  refine (sat_readAt (by omega)).bind fun fc0 _ => ?_
  refine (sat_readAt (by omega)).bind fun fc1 _ => ?_
  refine sat_ite (fun _ => trivial) (fun _ => sat_ite (fun _ => trivial) (fun hlen => ?_))
  refine sat_ite (fun _ => sat_ite (fun _ => trivial) (fun _ => trivial)) (fun _ => ?_)
  exact sat_recvMgmt ic (Nat.not_lt.mp hlen) _

/-- For every frame, whatever it holds and however long it is, no access of the
management input leaves its object and every loop comes to its end; and a rate set
that it installs has no more rates than the array. -/
theorem mgmt_parsing_memory_safe (frame : List UInt8) : (∀ e, inputManagement ic frame ≠ .fault e) ∧
      ∀ out, inputManagement ic frame = .done out →
        ∀ rs ∈ out.installed, rs.rsNrates.toNat ≤ rateMaxsize := by
  have hsat := sat_inputManagement ic frame
  refine ⟨hsat.not_fault, fun out hout => ?_⟩
  rw [hout] at hsat
  exact hsat

end Net80211
