import Net80211.OutputQueue
import Net80211.Tim

/-!
# The stations of an access point

How the nodes of an access point come and go: `ieee80211_node_join`, `ieee80211_node_leave`,
`_ieee80211_free_node`, `ieee80211_free_node`, `node_reclaim`, `ieee80211_free_allnodes_locked`
and `node_cleanup` of `net80211/ieee80211_node.c`, with the association ids. And what is kept
for the stations that sleep: `ieee80211_pwrsave` of `ieee80211_output.c`,
`ieee80211_node_pwrsave` and `ieee80211_recv_pspoll` of `ieee80211_input.c`, and the ageing of
`ieee80211_timeout_stations`.

A node is a name; `ni_table` is set if and only if the name is in the station table, and a
name with no references is that of no object. Whoever sends a frame to a node takes a
reference, which goes when the frame has been sent: these are steps of their own. The table
of key indices, which has no entries as no driver sets `cs_max_keyix`, is left out, and so are
the counters `ic_sta_assoc` and `ic_ps_sta`, the authenticator and the events.
-/

namespace Net80211

open Lib

/-! ## The state -/

/-- `struct ieee80211_node`; a frame in `ni_savedq` is a packet and its age. -/
structure ApNode where
  niRefcnt : Nat
  niAssocid : BitVec 16
  niPwrMgt : Bool
  niSavedq : List (List Mbuf × Int)

/-- The node that is no object. -/
def ApNode.none : ApNode := ⟨0, 0, false, []⟩

/-- `struct ieee80211com`, the station table and the beacon. -/
structure Ap (ν : Type) extends Tim where
  icAidBitmap : Nat → BitVec 32
  ntNode : List ν
  icNode : ν → ApNode
  ifSnd : List (List Mbuf)
  beacon : Option ApBeacon

/-- `IEEE80211_AID(b)`. -/
def aidOf (b : BitVec 16) : Nat := (b &&& ~~~0xc000).toNat

/-- `IEEE80211_INACT_WAIT`, in seconds. -/
def inactWait : Int := 15

variable {ν : Type} [DecidableEq ν]

def Ap.associd (s : Ap ν) (n : ν) : BitVec 16 := (s.icNode n).niAssocid

/-- `IEEE80211_NODE_AID(ni)`. -/
def Ap.aid (s : Ap ν) (n : ν) : Nat := aidOf (s.associd n)

def Ap.savedq (s : Ap ν) (n : ν) : List (List Mbuf × Int) := (s.icNode n).niSavedq

def Ap.refcnt (s : Ap ν) (n : ν) : Nat := (s.icNode n).niRefcnt

def Ap.setNode (s : Ap ν) (n : ν) (ni : ApNode) : Ap ν :=
  { s with icNode := Function.update s.icNode n ni }

/-- `ic->ic_set_tim(ni, set)`. -/
def Ap.setTim (s : Ap ν) (n : ν) (set : Bool) : Ap ν :=
  { s with toTim := s.toTim.setTim (s.aid n) set }

/-- `IEEE80211_AID_CLR(ni->ni_associd, ic->ic_aid_bitmap)`. -/
def Ap.aidClr (s : Ap ν) (n : ν) : Ap ν :=
  { s with icAidBitmap := Bitmap.clrbit s.icAidBitmap (s.aid n) }

/-! ## Joining and leaving -/

/-- `node_cleanup`. -/
def Ap.nodeCleanup (s : Ap ν) (n : ν) : Ap ν :=
  let qlen := (s.savedq n).length
  let s := s.setNode n { s.icNode n with niPwrMgt := false, niSavedq := [] }
  let s := if qlen ≠ 0 then s.setTim n false else s
  s.setNode n { s.icNode n with niAssocid := 0 }

/-- `node_free`. -/
def Ap.nodeFree (s : Ap ν) (n : ν) : Ap ν := (s.nodeCleanup n).setNode n ApNode.none

/-- `_ieee80211_free_node`. -/
def Ap.freeNodeLast (s : Ap ν) (n : ν) : Ap ν :=
  let s := s.aidClr n
  let s := if n ∈ s.ntNode then { s with ntNode := s.ntNode.erase n } else s
  s.nodeFree n

/-- `ieee80211_free_node`. -/
def Ap.freeNode (s : Ap ν) (n : ν) : Ap ν :=
  if s.refcnt n = 1 then s.freeNodeLast n
  else s.setNode n { s.icNode n with niRefcnt := s.refcnt n - 1 }

/-- `node_reclaim`. -/
def Ap.nodeReclaim (s : Ap ν) (n : ν) : Ap ν :=
  if s.refcnt n = 1 then s.freeNodeLast n
  else
    let s := s.setNode n { s.icNode n with niRefcnt := s.refcnt n - 1 }
    { s with ntNode := s.ntNode.erase n }

/-- The loop of `ieee80211_free_allnodes_locked`. -/
def Ap.freeAllnodes : List ν → Ap ν → Ap ν
  | [], s => s
  | n :: ns, s =>
    let s := if s.associd n ≠ 0 then s.aidClr n else s
    freeAllnodes ns (s.nodeReclaim n)

/-- `ieee80211_node_leave`. -/
def Ap.nodeLeave (s : Ap ν) (n : ν) : Ap ν :=
  let s' :=
    if s.associd n ≠ 0 then
      let s := s.aidClr n
      let s := s.setNode n { s.icNode n with niAssocid := 0 }
      -- ieee80211_sta_leave
      s.nodeCleanup n
    else s
  if n ∈ s.ntNode then s'.nodeReclaim n else s'.freeNode n

/-- The loop of `ieee80211_node_join`: the first association id that is not in use. -/
def Ap.freeAid (s : Ap ν) : Option Nat :=
  (List.range' 1 (s.icMaxAid - 1)).find? fun aid => !Bitmap.isset s.icAidBitmap aid

/-- `ieee80211_node_join`. -/
def Ap.nodeJoin (s : Ap ν) (n : ν) : Ap ν :=
  if s.associd n = 0 then
    match s.freeAid with
    | none => s.nodeLeave n
    | some aid =>
      let s := s.setNode n { s.icNode n with niAssocid := BitVec.ofNat 16 aid ||| 0xc000 }
      { s with icAidBitmap := Bitmap.setbit s.icAidBitmap (s.aid n) }
  else s

/-! ## Stations that sleep -/

/-- `ieee80211_pwrsave`. The age in the queue is the difference to that of the frame before. -/
def Ap.pwrsave (s : Ap ν) (n : ν) (c : List Mbuf) (age : Int) : Ap ν :=
  if (s.savedq n).length ≥ psMaxQueue then s
  else
    let tail := (s.savedq n).getLast?.elim 0 Prod.snd
    let q := s.savedq n ++ [(c, age - tail)]
    let s := s.setNode n { s.icNode n with niSavedq := q }
    if q.length = 1 then s.setTim n true else s

/-- `ieee80211_node_pwrsave`. -/
def Ap.nodePwrsave (s : Ap ν) (n : ν) (enable : Bool) : Ap ν :=
  if enable then s.setNode n { s.icNode n with niPwrMgt := true }
  else
    let s := s.setNode n { s.icNode n with niPwrMgt := false }
    if (s.savedq n).length = 0 then s.setTim n false
    else
      let q := pwrsaveFlush ((s.savedq n).map Prod.fst)
      let s := { s.setNode n { s.icNode n with niSavedq := [] } with ifSnd := s.ifSnd ++ q }
      s.setTim n false

/-- `ieee80211_recv_pspoll` for a frame with association id `aid`. -/
def Ap.recvPspoll (s : Ap ν) (n : ν) (aid : BitVec 16) : Ap ν :=
  if s.associd n = 0 then s
  else if aid ≠ s.associd n then s
  else
    match s.savedq n with
    | [] => s.setTim n false
    | c :: q =>
      let out := (pspollTake ((c :: q).map Prod.fst)).1
      let s := { s.setNode n { s.icNode n with niSavedq := q } with ifSnd := s.ifSnd ++ out }
      if q.length ≠ 0 then s else s.setTim n false

/-- Frames that are too old go, and the age of the next is from now on. -/
def ageQueue (q : List (List Mbuf × Int)) : List (List Mbuf × Int) :=
  match q.dropWhile fun m => m.2 < inactWait with
  | [] => []
  | m :: q => (m.1, m.2 - inactWait) :: q

/-- The ageing of `ieee80211_timeout_stations` for one station. -/
def Ap.age (s : Ap ν) (n : ν) : Ap ν :=
  if (s.savedq n).length ≠ 0 then
    let q := ageQueue (s.savedq n)
    let discard := (s.savedq n).length - q.length
    let s := s.setNode n { s.icNode n with niSavedq := q }
    if discard ≠ 0 ∧ q.length = 0 then s.setTim n false else s
  else s

/-! ## The steps -/

inductive ApOp (ν : Type) where
  | allocNode (n : ν)
  | refNode (n : ν)
  | freeNode (n : ν)
  | nodeJoin (n : ν)
  | nodeLeave (n : ν)
  | tableReset
  | pwrsave (n : ν) (c : List Mbuf) (age : Int)
  | nodePwrsave (n : ν) (enable : Bool)
  | recvPspoll (n : ν) (aid : BitVec 16)
  | age (n : ν)
  | beaconAlloc (buf : Nat → Octet) (boCaps boTim : Nat) (trailer : List Octet) (wme : Bool)
    (icDtimPeriod : Octet)
  | beaconUpdate (capinfo : Octet × Octet) (wme : Option (List Octet)) (mcast : Bool)

/-- A step of an access point. Frames come from nodes that are in the station table, a frame
waits if its node is one that sleeps, and `ieee80211_input_data` compares the power-save bit
of a frame from an associated station with that of the node. -/
def apStep (s : Ap ν) : ApOp ν → Option (Ap ν)
  | .allocNode n =>
    if s.refcnt n = 0 then some { s.setNode n ⟨1, 0, false, []⟩ with ntNode := s.ntNode ++ [n] }
      else none
  | .refNode n =>
    if s.refcnt n ≠ 0 then some (s.setNode n { s.icNode n with niRefcnt := s.refcnt n + 1 })
      else none
  | .freeNode n => if s.refcnt n ≠ 0 then some (s.freeNode n) else none
  | .nodeJoin n => if n ∈ s.ntNode then some (s.nodeJoin n) else none
  | .nodeLeave n => if s.refcnt n ≠ 0 then some (s.nodeLeave n) else none
  | .tableReset => some (Ap.freeAllnodes s.ntNode s)
  | .pwrsave n c age => if n ∈ s.ntNode ∧ (s.icNode n).niPwrMgt = true then some (s.pwrsave n c age)
      else none
  | .nodePwrsave n enable =>
    if n ∈ s.ntNode ∧ s.associd n ≠ 0 ∧ enable ≠ (s.icNode n).niPwrMgt
      then some (s.nodePwrsave n enable)
    else none
  | .recvPspoll n aid => if n ∈ s.ntNode then some (s.recvPspoll n aid) else none
  | .age n => if n ∈ s.ntNode ∧ s.associd n ≠ 0 then some (s.age n) else none
  | .beaconAlloc buf boCaps boTim trailer wme icDtimPeriod =>
    if boCaps + 2 ≤ boTim
      then some { s with beacon := some (beaconAlloc buf boCaps boTim trailer wme icDtimPeriod) }
    else none
  | .beaconUpdate capinfo wme mcast =>
    match s.beacon with
    | none => none
    | some b => (beaconUpdate s.toTim b capinfo wme mcast).map fun r =>
      { s with toTim := r.1, beacon := some r.2.1 }

/-- After `ieee80211_node_lateattach`, which allows no more than `IEEE80211_AID_MAX` stations. -/
structure ApInit (s : Ap ν) : Prop where
  maxAid : s.icMaxAid ≤ 2007
  timBitmap : s.icTimBitmap = fun _ => 0
  psPending : s.icPsPending = 0
  timUpdate : s.timUpdate = false
  aidBitmap : s.icAidBitmap = fun _ => 0
  ntNode : s.ntNode = []
  icNode : s.icNode = fun _ => ApNode.none
  beacon : s.beacon = none

end Net80211
