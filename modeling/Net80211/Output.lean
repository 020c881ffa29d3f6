import Net80211.Node

/-!
# Data frames on their way out

`ieee80211_encap` of `net80211/ieee80211_output.c` with the functions it calls:
an Ethernet frame becomes an 802.11 data frame, or several where it has to be
fragmented. A frame is a chain; the frames of a packet, which the code links
through `m_nextpkt`, are a list of chains.

The caller has the Ethernet header contiguous in the first mbuf. Statistics are
left out. `ieee80211_crypto_enmic` adds nothing for the ciphers there are.
-/

namespace Net80211

open Lib Crypto

-- M_MORE_DATA, M_FRAG, M_FIRSTFRAG, M_FF
def mMoreData : UInt32 := 0x000080
def mFrag : UInt32 := 0x000100
def mFirstfrag : UInt32 := 0x000200
def mFf : UInt32 := 0x000400

/-- `struct ether_header`. -/
structure EtherHeader where
  etherDhost : List UInt8
  etherShost : List UInt8
  etherType : List UInt8
  deriving DecidableEq, Repr

def etherHeader (m : Mbuf) : EtherHeader :=
  { etherDhost := window m.get 0 6, etherShost := window m.get 6 6, etherType := window m.get 12 2 }

/-- `ETHERTYPE_PAE` in network order. -/
def ethertypePae : List UInt8 := [0x88, 0x8e]

variable {ν : Type} [DecidableEq ν]

/-- `ieee80211_crypto_getmcastkey`: the default transmit key, if it is set. -/
def cryptoGetmcastkey (ks : Keys ν) : Option (KeySlot ν) :=
  match ks.defTxkey with
  | none => none
  | some i => if (ks.key (.nw i)).wkCipher = .none then none else some (.nw i)

/-- `ieee80211_crypto_getucastkey`. -/
def cryptoGetucastkey (ks : Keys ν) (n : ν) : Option (KeySlot ν) :=
  if (ks.key (.ucast n)).wkCipher = .none then cryptoGetmcastkey ks else some (.ucast n)

/-- The key of an outgoing frame. Where there is none the frame goes on without. -/
def encapKey (ic : Ic ν) (n : ν) (eh : EtherHeader) : Option (KeySlot ν) :=
  if ic.icFlags.privacy then
    if ic.icOpmode = .sta ∨ !isMulticast (eh.etherDhost.headD 0) then
      cryptoGetucastkey ic.icKeys n
    else cryptoGetmcastkey ic.icKeys
  else none

/-- Does the frame get `IEEE80211_FC1_WEP`? EAPOL frames do under WPA only. -/
def encapProtects (ic : Ic ν) (n : ν) (eh : EtherHeader) : Bool :=
  match encapKey ic n eh with
  | none => false
  | some s =>
    eh.etherType != ethertypePae ||
      ((ic.icFlags.wpa1 || ic.icFlags.wpa2) &&
        (if ic.icOpmode = .sta then (ic.icKeys.key s).wkCipher != .none
          else (ic.icKeys.key (.ucast n)).wkCipher != .none))

/-! ## Room for the headers -/

/-- `ieee80211_mbuf_adjust`. A new first mbuf takes over the Ethernet header in
length only, its octets are not needed any more. -/
def mbufAdjust (h : Heap) (hdrsize : Nat) (cip : Cipher) (m : Mbuf) (ms : List Mbuf) :
    Heap × Option (List Mbuf) :=
  let neededSpace := hdrsize + cip.icHeader
  if m.mData < neededSpace - 6 then
    match mGetImpl h true with
    | (h, none) => (mFreem h (m :: ms), none)
    | (h, some n) =>
      let (n, m) := mMovePkthdr n m
      (h, some ({ n with mLen := 14, mData := n.mData + neededSpace } ::
        { m with mLen := m.mLen - 14, mData := m.mData + 14 } :: ms))
  else (h, some (m :: ms))

/-- The LLC header in place of the end of the Ethernet header. -/
def putLlc (ms : List Mbuf) (etherType : List UInt8) : List Mbuf :=
  match mAdj ms 6 with
  | [] => []
  | m :: ms => m.put 0 ([0xaa, 0xaa, 0x03, 0, 0, 0] ++ etherType) :: ms

/-! ## Fragments -/

/-- The fragment from `off` on: the header with its number, and `payload` octets. -/
def fragmentAt (m0 : Mbuf) (ms0 : List Mbuf) (hdrsize ciphdrsize fragsize fragno off payload : Nat)
    (m : Mbuf) : Mbuf :=
  let m := mAlign m (fragsize - ciphdrsize)
  let m := m.put 0 (window m0.mCluster m0.mData hdrsize)
  let m := m.put 22 [m.get 22 ||| UInt8.ofNat (fragno % 16)]
  let m := m.put hdrsize (mCopydata (m0 :: ms0) off payload)
  { m with
    mLen := hdrsize + payload
    pkthdrLen := hdrsize + payload
    mFlags := m.mFlags ||| mFrag }

/-- The loop of `ieee80211_fragment`; `acc` is the fragments so far. Each round
sends at least one octet unless the headers fill the whole `mtu`; then the loop
does not come to its end, and the result is `none`. -/
def fragmentLoop (m0 : Mbuf) (ms0 : List Mbuf) (hdrsize ciphdrsize mtu : Nat) :
    Nat → Heap → Nat → Nat → Nat → List Mbuf → Option (Heap × Option (List Mbuf))
  | 0, _, _, _, _, _ => none
  | fuel + 1, h, fragno, off, remainder, acc =>
    let totalhdrsize := hdrsize + ciphdrsize
    let fragsize := min (totalhdrsize + remainder) mtu
    match mGetImpl h true with
    | (h, none) => some (mFreem h acc, none)
    | (h, some m) =>
      let payload := fragsize - totalhdrsize
      let m := fragmentAt m0 ms0 hdrsize ciphdrsize fragsize fragno off payload m
      if remainder - payload ≠ 0 then
        fragmentLoop m0 ms0 hdrsize ciphdrsize mtu fuel h (fragno + 1) (off + payload)
          (remainder - payload) (acc ++ [m])
      else some (h, some (acc ++ [m.put 1 [m.get 1 &&& ~~~fc1MoreFrag]]))

/-- `ieee80211_fragment`: the frame and its fragments, or nothing where an
allocation failed. -/
def fragment (h : Heap) (m0 : Mbuf) (ms0 : List Mbuf) (hdrsize ciphdrsize mtu : Nat) :
    Option (Heap × Option (List (List Mbuf))) :=
  let m0 := m0.put 1 [m0.get 1 ||| fc1MoreFrag]
  let off := mtu - ciphdrsize
  let remainder := m0.pkthdrLen - off
  match fragmentLoop m0 ms0 hdrsize ciphdrsize mtu (remainder + 1) h 1 off remainder [] with
  | none => none
  | some (h, none) => some (h, none)
  | some (h, some frags) =>
    let first := match mAdj (m0 :: ms0) (-(m0.pkthdrLen - off)) with
      | [] => []
      | m :: ms => { m with mFlags := m.mFlags ||| mFirstfrag ||| mFrag } :: ms
    some (h, some (first :: frags.map fun m => [m]))

/-! ## The frame -/

/-- The direction bits and the three addresses; no frame leaves a monitor. -/
def encapAddrs (ic : Ic ν) (n : ν) (eh : EtherHeader) : Option (UInt8 × List UInt8) :=
  match ic.icOpmode with
  | .sta => some (fc1DirTods, (ic.icNode n).niBssid ++ eh.etherShost ++ eh.etherDhost)
  | .ibss | .ahdemo =>
    some (0, eh.etherDhost ++ eh.etherShost ++ (ic.icNode ic.icBss).niBssid)
  | .hostap => some (0x02, eh.etherDhost ++ (ic.icNode n).niBssid ++ eh.etherShost)
  | .monitor => none

/-- `M_WME_GETAC`. -/
def wmeGetac (m : Mbuf) : Nat := (m.mFlags >>> 13 &&& 0x3).toNat

/-- `WME_AC_TO_TID`. -/
def wmeAcToTid (ac : Nat) : Nat :=
  if ac = 3 then 6 else if ac = 2 then 5 else if ac = 1 then 1 else 0

/-- The sequence field for a counter, least significant octet first. -/
def seqOctets (seq : UInt16) : List UInt8 := [(seq <<< 4).toUInt8, (seq <<< 4 >>> 8).toUInt8]

/-- Write the 802.11 header, and count the frame on its node. -/
def fillHeader (ic : Ic ν) (n : ν) (addqos : Bool) (dir : UInt8) (addrs : List UInt8) (m : Mbuf) :
    Mbuf × Ic ν :=
  let fc1 := if m.mFlags &&& mMoreData != 0 then dir ||| fc1MoreData else dir
  let m := m.put 0 ([0x08, fc1, 0, 0] ++ addrs)
  let ni := ic.icNode n
  let ac := wmeGetac m
  let tid := if addqos then wmeAcToTid ac else 0
  let m := if addqos then
      (m.put 24 [UInt8.ofNat tid &&& 0x0f ||| (if ic.icNoack ac then 0x20 else 0), 0]).put 0 [0x88]
    else m
  (m.put 22 (seqOctets (ni.niTxseqs tid)),
    ic.setNode n { ni with niTxseqs := Function.update ni.niTxseqs tid (ni.niTxseqs tid + 1) })

/-- `ieee80211_encap`: the heap and the interface afterwards, and the frames to
send. -/
def encap (h : Heap) (ic : Ic ν) (n : ν) (m : Mbuf) (ms : List Mbuf) :
    Option (Heap × Ic ν × Option (List (List Mbuf))) :=
  let eh := etherHeader m
  let cip := match encapKey ic n eh with
    | none => .none
    | some s => (ic.icKeys.key s).wkCipher
  let addqos := (ic.icNode n).niQos && eh.etherType != ethertypePae
  let hdrsize := if addqos then 26 else 24
  let hdrsize := if ic.icKeys.datapad then (hdrsize + 3) / 4 * 4 else hdrsize
  match mbufAdjust h hdrsize cip m ms with
  | (h, none) => some (h, ic, none)
  | (h, some ms) =>
    match mPrepend h (putLlc ms eh.etherType) hdrsize with
    | (h, some (m :: ms)) =>
      match encapAddrs ic n eh with
      | none => some (mFreem h (m :: ms), ic, none)
      | some (dir, addrs) =>
        let (m, ic') := fillHeader ic n addqos dir addrs m
        let txfrag := m.pkthdrLen > ic.icFragthreshold.toNat && !isMulticast (m.get 4) &&
          m.mFlags &&& mFf == 0
        let m := if encapProtects ic n eh then m.put 1 [m.get 1 ||| fc1Wep] else m
        if txfrag then
          match fragment h m ms hdrsize cip.icHeader ic.icFragthreshold.toNat with
          | none => none
          | some (h, none) => some (mFreem h (m :: ms), ic', none)
          | some (h, some frames) => some (h, ic', some frames)
        else some (h, ic', some [m :: ms])
    | (h, _) => some (h, ic, none)

end Net80211
