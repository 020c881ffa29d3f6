import Net80211.Hostap
import Net80211.RecvMgmt

/-!
# Association ids as indices

`ic_aid_bitmap` and `ic_tim_bitmap` have room for `ic_max_aid` bits, in every operating mode.
Here is with which association ids the functions of the access point and those that release
nodes access them: `IEEE80211_AID_SET`, `IEEE80211_AID_CLR` and `IEEE80211_AID_ISSET`, and
the accesses of `ieee80211_set_tim`. In station mode the association id of the node of the
access point is what an association response says.

The nodes of the station table and of the scan table are in one list, and a table is reset a
node at a time. In station mode a node is released when a scan begins or another access
point is joined, by the steps below.
-/

namespace Net80211

open Lib List

variable {ν : Type} [DecidableEq ν] (s : Ap ν) (n : ν)

/-- `node_cleanup`. -/
def Ap.cleanupAids : List Nat := if (s.savedq n).length ≠ 0 then [s.aid n] else []

/-- `ieee80211_free_node` and `node_reclaim`: `_ieee80211_free_node` with the last reference. -/
def Ap.freeAids : List Nat := if s.refcnt n = 1 then s.aid n :: (s.aidClr n).cleanupAids n else []

/-- A round of `ieee80211_free_allnodes_locked`. -/
def Ap.resetAids : List Nat :=
  if s.associd n ≠ 0 then s.aid n :: (s.aidClr n).freeAids n else s.freeAids n

/-- `ieee80211_node_leave`. -/
def Ap.leaveAids : List Nat :=
  if s.associd n ≠ 0 then
    let s₁ := (s.aidClr n).setNode n { s.icNode n with niAssocid := 0 }
    s.aid n :: s₁.cleanupAids n ++ (s₁.nodeCleanup n).freeAids n
  else s.freeAids n

/-- `ieee80211_node_join`: the association ids it looks at, and the one it takes. -/
def Ap.joinAids : List Nat :=
  if s.associd n = 0 then
    match s.freeAid with
    | none => range' 1 (s.icMaxAid - 1) ++ s.leaveAids n
    | some aid => range' 1 aid ++ [aidOf (BitVec.ofNat 16 aid ||| 0xc000)]
  else []

/-- `ieee80211_pwrsave`. -/
def Ap.pwrsaveAids : List Nat :=
  if (s.savedq n).length ≥ psMaxQueue then []
  else if (s.savedq n).length + 1 = 1 then [s.aid n] else []

/-- `ieee80211_node_pwrsave`. -/
def Ap.nodePwrsaveAids (enable : Bool) : List Nat := if enable then [] else [s.aid n]

/-- `ieee80211_recv_pspoll`. -/
def Ap.recvPspollAids (aid : BitVec 16) : List Nat :=
  if s.associd n = 0 then []
  else if aid ≠ s.associd n then []
  else if (s.savedq n).length ≤ 1 then [s.aid n] else []

/-- The ageing of `ieee80211_timeout_stations`. -/
def Ap.ageAids : List Nat :=
  if (s.savedq n).length ≠ 0 ∧ (ageQueue (s.savedq n)).length = 0 then [s.aid n] else []

/-! ## The steps in any mode -/

/-- The nodes and the operating mode. -/
structure ModeAp (ν : Type) extends Ap ν where
  icOpmode : Opmode

inductive ModeOp (ν : Type) where
  /-- A step of an access point. -/
  | ap (op : ApOp ν)
  /-- A round of `ieee80211_free_allnodes_locked`, of either table. -/
  | resetNode (n : ν)
  /-- `node_reclaim` of `ieee80211_timeout_scan_candidates`. -/
  | nodeReclaim (n : ν)
  /-- `ieee80211_recv_mgmt_assoc_resp` for the node of the access point, which is `n`. -/
  | assocResp (n : ν) (ic : MgmtIc) (frame : List UInt8)
  | setOpmode (opmode : Opmode)

/-- In which modes there is such a step; `ieee80211_node_leave` asserts its own. -/
def ApOp.inMode {ν : Type} (opmode : Opmode) : ApOp ν → Bool
  | .allocNode _ => true
  | .refNode _ => true
  | .freeNode _ => true
  | .nodeLeave _ => opmode = .hostap ∨ opmode = .ibss ∨ opmode = .ahdemo
  | .tableReset => false
  | _ => opmode = .hostap

/-- `ni_associd` after an association response. -/
def respAssocid (associd : BitVec 16) (ic : MgmtIc) (frame : List UInt8) : BitVec 16 :=
  match recvMgmtAssocResp ic frame with
  | .done out => (out.nodes.map fun ni => ni.niAssocid.toBitVec).headD associd
  | _ => associd

def modeStep (s : ModeAp ν) : ModeOp ν → Option (ModeAp ν)
  | .ap op =>
    if op.inMode s.icOpmode then (apStep s.toAp op).map fun ap => { s with toAp := ap } else none
  | .resetNode n =>
    if n ∈ s.ntNode then
      some { s with toAp := (if s.associd n ≠ 0 then s.toAp.aidClr n else s.toAp).nodeReclaim n }
    else none
  | .nodeReclaim n => if n ∈ s.ntNode then some { s with toAp := s.toAp.nodeReclaim n } else none
  | .assocResp n ic frame =>
    -- the handler sees the mode and the node as they are
    if s.refcnt n ≠ 0 ∧ ic.icOpmode = s.icOpmode ∧ ic.icBss.niAssocid.toBitVec = s.associd n then
      some { s with toAp :=
        s.toAp.setNode n { s.icNode n with niAssocid := respAssocid (s.associd n) ic frame } }
    else none
  | .setOpmode opmode => some { s with icOpmode := opmode }

/-- The association ids with which a step accesses the bitmaps. -/
def modeAids (s : ModeAp ν) : ModeOp ν → List Nat
  | .ap (.freeNode n) => s.toAp.freeAids n
  | .ap (.nodeJoin n) => s.toAp.joinAids n
  | .ap (.nodeLeave n) => s.toAp.leaveAids n
  | .ap (.pwrsave n _ _) => s.toAp.pwrsaveAids n
  | .ap (.nodePwrsave n enable) => s.toAp.nodePwrsaveAids n enable
  | .ap (.recvPspoll n aid) => s.toAp.recvPspollAids n aid
  | .ap (.age n) => s.toAp.ageAids n
  | .resetNode n => s.toAp.resetAids n
  | .nodeReclaim n => s.toAp.freeAids n
  | _ => []

/-- After `ieee80211_node_lateattach`, in any mode. There is room for an access point itself. -/
structure ModeInit (s : ModeAp ν) : Prop extends ApInit s.toAp where
  room : 0 < s.icMaxAid

end Net80211
