import Net80211.Hostap
import Net80211.RecvMgmt

/-!
# The stations of an 802.11g access point

`ieee80211_node_join_11g`, `ieee80211_node_leave_11g` and their callers in
`net80211/ieee80211_node.c`, and `ieee80211_reset_erp` and `ieee80211_set_shortslottime` of
`ieee80211_proto.c`, for an access point in 802.11g mode. It counts the associated stations
that need the long slot time and those that are not ERP stations, and asserts that the
counters are not 0 when such a station leaves.

An association request is handled from its octets on. What `ieee80211_recv_mgmt_assoc_req`
does to the node is in `recvMgmtAssocReq`; here is whether the station joins as well. The
power-save queues are left out, as nothing that is done to them changes who is associated.

The other side is a station, which sets its flags by the beacons of its access point.
-/

namespace Net80211

open Lib Function

/-- `IEEE80211_CAPINFO_SHORT_PREAMBLE`. -/
def capinfoShortPreamble : UInt16 := 0x0020

/-! ## Association requests -/

/-- What an association request has in it, behind the checks. -/
structure AssocReq where
  found : Found
  rates : Nat
  capinfo : UInt16
  lintval : UInt16
  rsn : RsnParms

variable (ic : MgmtIc) (frame : List UInt8)

/-- The checks of `ieee80211_recv_mgmt_assoc_req`. -/
def assocReqCheck (reassoc : Bool) : Guarded MgmtDrop AssocReq :=
  if ic.icOpmode ≠ .hostap ∨ ic.icState ≠ .run then .drop .mgtdiscard
  else do
    verifyLength ((frame.length : Int) - whSize) (if reassoc then 10 else 4)
    let addr3 ← readN frame 16 6
    if addr3 ≠ ic.icBss.niBssid then .drop .assocBss
    else
      let capinfo ← leRead2 frame whSize
      let lintval ← leRead2 frame (whSize + 2)
      let e ← elements frame (assocReqElement frame) (whSize + if reassoc then 10 else 4) foundNone
      let rates ← verifyElement frame 15 e.rates
      let ssid ← verifyElement frame 32 e.ssid
      verifySsid ic frame ssid
      if ic.niIsBss then .drop .assocNotauth
      else
        let rsn ← assocReqRsn ic frame ic.ni.niRsn e.wpa
        if capinfo &&& capinfoEss = 0 then .drop .assocCapmismatch
        else pure ⟨e, rates, capinfo, lintval, rsn⟩

/-- Does the station join, and the node then. -/
def assocReqJoin (q : AssocReq) : Guarded MgmtDrop (Bool × MgmtNode) := do
  let out ← nodeSetupRates ic frame rateFlagsAll ic.ni q.rates q.found.xrates
  let ni := out.2
  if out.1 &&& rateBasic != 0 ∨ (ic.icFlags.pureg ∧ out.1 < 48) then pure (false, ni)
  else
    let joined ← assocReqRecord ic frame q.found q.rsn { ni with
      niIntval := q.lintval, niCapinfo := q.capinfo, niChan := ic.icBss.niChan
      niFhdwell := ic.icBss.niFhdwell, niFhindex := ic.icBss.niFhindex }
    pure (true, joined)

inductive AssocVerdict where
  /-- Nothing is done. -/
  | discard
  /-- `ieee80211_node_leave` is called. -/
  | leave
  /-- `ieee80211_node_join` is called. -/
  | join (ni : MgmtNode)

/-- What `ieee80211_recv_mgmt_assoc_req` decides. -/
def assocReqVerdict (reassoc : Bool) : AssocVerdict :=
  match assocReqCheck ic frame reassoc >>= assocReqJoin ic frame with
  | .done (true, ni) => .join ni
  | .done (false, _) => .leave
  | .drop .assocBadwpaie => .leave
  | .drop .assocCapmismatch => .leave
  | _ => .discard

/-! ## The state -/

/-- `IEEE80211_F_*` of `ic_flags`. -/
structure ErpFlags where
  useprot : Bool
  shslot : Bool
  shpreamble : Bool
  usebarker : Bool
  deriving DecidableEq, Repr

/-- `IEEE80211_C_SHSLOT` and `IEEE80211_C_SHPREAMBLE` of `ic_caps`, and `ic_protmode` that is not
`IEEE80211_PROT_NONE`. -/
structure ErpCaps where
  shslot : Bool
  shpreamble : Bool
  protmode : Bool

/-- The access point, and of its nodes `ni_capinfo` and `IEEE80211_NODE_ERP`. -/
structure ErpAp (ν : Type) extends Ap ν where
  niCapinfo : ν → UInt16
  niErp : ν → Bool
  icLongslotsta : BitVec 16
  icNonerpsta : BitVec 16
  icFlags : ErpFlags

/-- The station is capable of the short slot time. -/
def shortSlot (capinfo : UInt16) : Bool := capinfo &&& capinfoShortSlottime != 0

variable {ν : Type} [DecidableEq ν] (caps : ErpCaps) (s : ErpAp ν) (n : ν)

/-- `ieee80211_set_shortslottime`. -/
def ErpAp.setShortslottime (onoff : Bool) : ErpAp ν :=
  { s with icFlags := { s.icFlags with shslot := onoff } }

/-- `ieee80211_reset_erp` in 802.11g mode. -/
def ErpAp.resetErp : ErpAp ν :=
  { s with
    icNonerpsta := 0
    icLongslotsta := 0
    icFlags :=
      { useprot := false
        shslot := caps.shslot
        shpreamble := caps.shpreamble
        usebarker := !caps.shpreamble } }

/-- A station that needs the long slot time joins. -/
def ErpAp.joinSlot : ErpAp ν :=
  if !shortSlot (s.niCapinfo n)
    then { s.setShortslottime false with icLongslotsta := s.icLongslotsta + 1 } else s

/-- A station joins that may not be an ERP station. -/
def ErpAp.joinErp (rates : Rateset) : ErpAp ν :=
  if !iserpRateset rates then
    let s := { s with icNonerpsta := s.icNonerpsta + 1 }
    let s := if caps.protmode then { s with icFlags := { s.icFlags with useprot := true } } else s
    if s.niCapinfo n &&& capinfoShortPreamble = 0 then
      { s with icFlags := { s.icFlags with usebarker := true, shpreamble := false } }
    else s
  else { s with niErp := update s.niErp n true }

/-- `ieee80211_node_join_11g`. -/
def ErpAp.nodeJoin11g (rates : Rateset) : ErpAp ν := (s.joinSlot n).joinErp caps n rates

/-- A station that needs the long slot time leaves. -/
def ErpAp.leaveSlot : Option (ErpAp ν) :=
  if !shortSlot (s.niCapinfo n) then
    if s.icLongslotsta = 0 then none
    else
      let s := { s with icLongslotsta := s.icLongslotsta - 1 }
      some (if s.icLongslotsta = 0 ∧ caps.shslot then s.setShortslottime true else s)
  else some s

/-- A station leaves that may not be an ERP station. -/
def ErpAp.leaveErp : Option (ErpAp ν) :=
  if !s.niErp n then
    if s.icNonerpsta = 0 then none
    else
      let s := { s with icNonerpsta := s.icNonerpsta - 1 }
      if s.icNonerpsta = 0 then
        let s := { s with icFlags := { s.icFlags with useprot := false } }
        some (if caps.shpreamble
          then { s with icFlags := { s.icFlags with shpreamble := true, usebarker := false } }
          else s)
      else some s
  else some s

/-- `ieee80211_node_leave_11g`; an assertion that fails is `none`. -/
def ErpAp.nodeLeave11g : Option (ErpAp ν) := do (← s.leaveSlot caps n).leaveErp caps n

/-- `ieee80211_node_leave`. -/
def ErpAp.nodeLeave : Option (ErpAp ν) := do
  let s ← if s.associd n ≠ 0 then s.nodeLeave11g caps n else some s
  some { s with toAp := s.toAp.nodeLeave n }

/-- `ieee80211_node_join`. -/
def ErpAp.nodeJoin (rates : Rateset) : ErpAp ν :=
  let s' := { s with toAp := s.toAp.nodeJoin n }
  if s.associd n = 0 ∧ s.freeAid.isSome then s'.nodeJoin11g caps n rates else s'

/-- `ieee80211_recv_mgmt_assoc_req`. -/
def ErpAp.recvMgmtAssocReq (ic : MgmtIc) (frame : List UInt8) (reassoc : Bool) : Option (ErpAp ν) :=
  match assocReqVerdict ic frame reassoc with
  | .discard => some s
  | .leave => s.nodeLeave caps n
  | .join ni =>
    some (({ s with niCapinfo := update s.niCapinfo n ni.niCapinfo }).nodeJoin caps n ni.niRates)

/-! ## The steps -/

inductive ErpOp (ν : Type) where
  | allocNode (n : ν)
  | refNode (n : ν)
  | freeNode (n : ν)
  | assocReq (n : ν) (ic : MgmtIc) (frame : List UInt8) (reassoc : Bool)
  | nodeLeave (n : ν)
  | tableReset

/-- A step of the access point, unless an assertion fails. The reference of the table is given up by
`node_reclaim` only. -/
def erpStep (caps : ErpCaps) (s : ErpAp ν) : ErpOp ν → Option (ErpAp ν)
  | .allocNode n =>
    (apStep s.toAp (.allocNode n)).map fun ap =>
      { s with
        toAp := ap
        niCapinfo := update s.niCapinfo n 0
        niErp := update s.niErp n false }
  | .refNode n => (apStep s.toAp (.refNode n)).map fun ap => { s with toAp := ap }
  | .freeNode n =>
    if n ∈ s.ntNode ∧ s.refcnt n = 1 then none
    else (apStep s.toAp (.freeNode n)).map fun ap => { s with toAp := ap }
  | .assocReq n ic frame reassoc =>
    if n ∈ s.ntNode then s.recvMgmtAssocReq caps n ic frame reassoc else none
  | .nodeLeave n => if n ∈ s.ntNode then s.nodeLeave caps n else none
  | .tableReset => some (({ s with toAp := Ap.freeAllnodes s.ntNode s.toAp }).resetErp caps)

/-- After `ieee80211_node_lateattach` and `ieee80211_reset_erp`. -/
structure ErpInit (s : ErpAp ν) : Prop extends ApInit s.toAp where
  longslotsta : s.icLongslotsta = 0
  nonerpsta : s.icNonerpsta = 0

/-! ## A station -/

/-- `IEEE80211_ERP_USE_PROTECTION` of an ERP element. -/
def useProtection (erp : UInt8) : Bool := erp &&& 0x02 != 0

/-- A station in 802.11g mode, with the node of its access point. -/
structure ErpSta where
  icBss : MgmtNode
  icFlags : ErpFlags

/-- `ieee80211_recv_mgmt_assoc_resp` sets the flags. -/
def assocRespErp (ni : MgmtNode) : ErpSta :=
  let short := ni.niCapinfo &&& capinfoShortPreamble != 0
  { icBss := ni
    icFlags :=
      { useprot := useProtection ni.niErp
        shslot := shortSlot ni.niCapinfo
        shpreamble := short
        usebarker := !short } }

/-- `ieee80211_recv_mgmt_beacon` sets them again, by what the node holds so far. -/
def beaconErp (ni : MgmtNode) (sp : ScanParams) (flags : ErpFlags) : ErpFlags :=
  let flags := if ni.niErp ≠ sp.spErp then { flags with useprot := useProtection ni.niErp }
    else flags
  if (ni.niCapinfo ^^^ sp.spCapinfo) &&& capinfoShortSlottime != 0 then
    { flags with shslot := shortSlot ni.niCapinfo }
  else flags

/-- What the handler of a beacon from the access point reads. -/
def ErpSta.hears (s : ErpSta) (ic : MgmtIc) : MgmtIc :=
  { ic with icOpmode := .sta, icState := .run, icBss := s.icBss, ni := s.icBss, niIsBss := true }

/-- A beacon that is processed. The node is the last one that the handler writes. -/
def erpStaStep (s : ErpSta) (a : MgmtIc × List UInt8) : Option ErpSta :=
  if s.icBss.niAssocid ≠ 0 ∧ (a.2.drop 10).take 6 = s.icBss.niBssid then
    match parseBeacon (s.hears a.1) a.2, recvMgmtBeacon (s.hears a.1) a.2 false with
    | .done b, .done out => some ⟨out.nodes.getLastD s.icBss, beaconErp s.icBss b.sp s.icFlags⟩
    | _, _ => none
  else none

end Net80211
