import Net80211.Crypto.Ccmp

/-!
# The interface and its nodes

`struct ieee80211com` and `struct ieee80211_node` with the fields the modelled
code reads. A node is a name; `icNode` says what the object holds, and its
unicast key is in the key table under the same name. Reference counts are left
out: an object lives as long as a table or `ic_bss` refers to it, and a name
that nothing refers to may be allocated again.
-/

namespace Net80211

open Crypto

/-- `enum ieee80211_opmode`. -/
inductive Opmode where
  | sta
  | ibss
  | ahdemo
  | hostap
  | monitor
  deriving DecidableEq, Repr

/-- `enum ieee80211_state`. -/
inductive State where
  | init
  | scan
  | auth
  | assoc
  | run
  deriving DecidableEq, Repr

/-- `enum ieee80211_authmode`. -/
inductive Authmode where
  | none
  | open
  | shared
  | ieee8021x
  | auto
  | wpa
  deriving DecidableEq, Repr

/-- `struct ieee80211_node`; of `ni_flags` the authorization and the QoS bit. -/
structure Node where
  niMacaddr : List UInt8
  niBssid : List UInt8
  niAuth : Bool
  niQos : Bool
  niAuthmode : Authmode
  niTxseqs : Nat → UInt16

/-- The bits of `ic_flags`. -/
structure IcFlags where
  privacy : Bool
  wpa1 : Bool
  wpa2 : Bool
  dropunenc : Bool
  desbssid : Bool
  deriving DecidableEq, Repr

/-- `struct ieee80211com`. `icScan` is the scan table, in the order in which a
lookup sees it. -/
structure Ic (ν : Type) where
  icOpmode : Opmode
  icState : State
  icFlags : IcFlags
  icBss : ν
  icNode : ν → Node
  icScan : List ν
  icKeys : Keys ν
  icMyaddr : List UInt8
  icRoamingAuto : Bool
  icFragthreshold : UInt16
  icNoack : Nat → Bool

variable {ν : Type} [DecidableEq ν]

def Ic.setNode (ic : Ic ν) (n : ν) (ni : Node) : Ic ν :=
  { ic with icNode := Function.update ic.icNode n ni }

def Ic.setKey (ic : Ic ν) (s : KeySlot ν) (k : Key) : Ic ν :=
  { ic with icKeys := ic.icKeys.set s k }

/-- `ieee80211_node_authorize`. -/
def nodeAuthorize (ic : Ic ν) (n : ν) : Ic ν :=
  ic.setNode n { ic.icNode n with niAuth := true }

/-- `ieee80211_node_unauthorize`. -/
def nodeUnauthorize (ic : Ic ν) (n : ν) : Ic ν :=
  ic.setNode n { ic.icNode n with niAuth := false }

/-- `ieee80211_find_node` in the scan table. -/
def findNode (ic : Ic ν) (macaddr : List UInt8) : Option ν :=
  ic.icScan.find? fun n => (ic.icNode n).niMacaddr = macaddr

/-- `ieee80211_alloc_node` in the scan table: a cleared object, set up. -/
def allocNode (ic : Ic ν) (n : ν) (macaddr : List UInt8) : Ic ν :=
  let ni : Node :=
    { niMacaddr := macaddr, niBssid := List.replicate 6 0, niAuth := false, niQos := false
      niAuthmode := .open, niTxseqs := fun _ => 0 }
  { (ic.setNode n ni).setKey (.ucast n) resetkey with icScan := n :: ic.icScan }

/-- `copy_bss`: of the propagated fields, the authentication mode. -/
def copyBss (ic : Ic ν) (nbss obss : ν) : Ic ν :=
  ic.setNode nbss { ic.icNode nbss with niAuthmode := (ic.icNode obss).niAuthmode }

/-- `node_cleanup` deletes the unicast key. It keeps the authorization. -/
def nodeCleanup (ic : Ic ν) (n : ν) : Ic ν := ic.setKey (.ucast n) resetkey

end Net80211
