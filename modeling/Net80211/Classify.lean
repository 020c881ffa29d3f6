import Net80211.Output

/-!
# The access category of a packet

`ieee80211_classify` of `net80211/ieee80211_output.c`, and the macros of
`net80211/ieee80211_netbsd.h` that keep a category in `m_flags`. `inet` is the kernel
option `INET`, which `compat/netbsd/opt_inet.h` leaves off; without it the type of
service of an IP packet is not looked at.

Of the packet header `m_pkthdr.csum_data` is read, where a VLAN tag is, and of the
interface the admission control of the categories; both are parameters. The statistics
are left out.
-/

namespace Net80211

open Lib

-- M_PROTO1, M_LINK1, M_LINK2
def mProto1 : UInt32 := 0x000008
def mLink1 : UInt32 := 0x000020
def mLink2 : UInt32 := 0x000040

/-- `M_PWR_SAV`. -/
def mPwrSav : UInt32 := mProto1

-- WME_AC_BE, WME_AC_BK, WME_AC_VI, WME_AC_VO
def wmeAcBe : Nat := 0
def wmeAcBk : Nat := 1
def wmeAcVi : Nat := 2
def wmeAcVo : Nat := 3

/-- `M_WME_AC_MASK`. -/
def mWmeAcMask : UInt32 := mLink1 ||| mLink2

/-- `M_WME_SETAC`, on the flags. The shift is that of another layout of `M_LINK1` and
`M_LINK2`. -/
def setacFlags (flags : UInt32) (ac : Nat) : UInt32 :=
  (flags &&& ~~~mWmeAcMask) ||| UInt32.ofNat ac <<< 13

/-- `M_WME_SETAC`. -/
def wmeSetac (m : Mbuf) (ac : Nat) : Mbuf := { m with mFlags := setacFlags m.mFlags ac }

/-- The category for the priority in a VLAN tag. -/
def vlanWmeAc (tag : UInt16) : Nat :=
  match (tag >>> 13 &&& 0x7).toNat with
  | 1 | 2 => wmeAcBk
  | 4 | 5 => wmeAcVi
  | 6 | 7 => wmeAcVo
  | _ => wmeAcBe

/-- The category for a type of service. -/
def tosWmeAc (tos : UInt8) : Nat :=
  if tos = 0x08 ∨ tos = 0x20 then wmeAcBk
  else if tos = 0x28 ∨ tos = 0xa0 then wmeAcVi
  else if tos = 0x30 ∨ tos = 0xe0 ∨ tos = 0x88 ∨ tos = 0xb8 then wmeAcVo
  else wmeAcBe

/-- `ETHERTYPE_IP` in network order. -/
def ethertypeIp : List UInt8 := [0x08, 0x00]

def acmap (ac : Nat) : Nat :=
  if ac = wmeAcVo then wmeAcVi else if ac = wmeAcVi then wmeAcBe else wmeAcBk

/-- The loop that applies the admission control. The categories come down to the
background one in three rounds. -/
def acmLoop (acm : Nat → Bool) : Nat → Nat → Nat
  | 0, ac => ac
  | fuel + 1, ac => if ac ≠ wmeAcBk ∧ acm ac then acmLoop acm fuel (acmap ac) else ac

/-- `vlan_has_tag`. -/
def vlanHasTag (m : Mbuf) : Bool := m.mFlags &&& mProto1 != 0

/-- The category that `ieee80211_classify` chooses. A node with a VLAN takes only packets
that are tagged for it; otherwise the result is `none`. -/
def classifyAc (inet : Bool) (acm : Nat → Bool) (opmode : Opmode) (niQos : Bool)
    (niVlan csumData : UInt16) (m : Mbuf) : Option Nat :=
  if !niQos then some wmeAcBe
  else if niVlan ≠ 0 ∧ (!vlanHasTag m ∨ csumData &&& 0xfff ≠ niVlan &&& 0xfff) then none
  else
    let v := if niVlan ≠ 0 then vlanWmeAc niVlan else 0
    let d := if inet ∧ (etherHeader m).etherType = ethertypeIp then tosWmeAc (m.get 15) else wmeAcBe
    let ac := if v > d then v else d
    some (if opmode = .sta then acmLoop acm 3 ac else ac)

/-- `ieee80211_classify`. -/
def classify (inet : Bool) (acm : Nat → Bool) (opmode : Opmode) (niQos : Bool)
    (niVlan csumData : UInt16) (m : Mbuf) : Option Mbuf :=
  (classifyAc inet acm opmode niQos niVlan csumData m).map (wmeSetac m)

end Net80211
