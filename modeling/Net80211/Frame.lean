import Mathlib.Data.Nat.Notation

/-!
# 802.11 headers

The octets of a frame header and what `net80211/ieee80211.h`,
`ieee80211_proto.h` and `ieee80211_var.h` read off them. A header is given as
the function from offsets to octets that `mtod` points at: frame control at 0
and 1, duration at 2, the three addresses at 4, 10 and 16, the sequence control
at 22, then the fourth address and the QoS field where the frame has them.
-/

namespace Net80211

/-- The octets at `mtod(m, struct ieee80211_frame *)`. -/
abbrev Wh := Nat → UInt8

-- IEEE80211_FC1_*
def fc1DirMask : UInt8 := 0x03
def fc1DirNods : UInt8 := 0x00
def fc1DirTods : UInt8 := 0x01
def fc1DirFromds : UInt8 := 0x02
def fc1DirDstods : UInt8 := 0x03
def fc1MoreFrag : UInt8 := 0x04
def fc1Retry : UInt8 := 0x08
def fc1PwrMgt : UInt8 := 0x10
def fc1MoreData : UInt8 := 0x20
def fc1Wep : UInt8 := 0x40

/-- `IEEE80211_IS_MULTICAST`, on the first octet of an address. -/
def isMulticast (a : UInt8) : Bool := a &&& 0x01 != 0

def is4Address (wh : Wh) : Bool := wh 1 &&& fc1DirMask == fc1DirDstods

/-- `ieee80211_has_qos`: a data frame with the QoS bit in its subtype. -/
def hasQos (wh : Wh) : Bool := wh 0 &&& 0x8c == 0x88

/-- `ieee80211_hdrsize`. -/
def hdrsize (wh : Wh) : Nat :=
  24 + (if is4Address wh then 6 else 0) + (if hasQos wh then 2 else 0)

/-- `ieee80211_hdrspace`; `datapad` is `IEEE80211_F_DATAPAD`. -/
def hdrspace (datapad : Bool) (wh : Wh) : Nat :=
  if datapad then (hdrsize wh + 3) / 4 * 4 else hdrsize wh

/-- The sequence control field: the sequence number and, in the low four bits, the
fragment number. -/
def whSeq (wh : Wh) : UInt16 := (wh 22).toUInt16 ||| (wh 23).toUInt16 <<< 8

/-- `IEEE80211_SEQ_FRAG_MASK`. -/
def seqFrag (seq : UInt16) : UInt16 := seq &&& 0x000f

/-- The sequence number of a sequence control field, `>> IEEE80211_SEQ_SEQ_SHIFT`. -/
def seqSeq (seq : UInt16) : UInt16 := seq >>> 4

end Net80211
