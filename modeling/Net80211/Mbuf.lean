import Net80211.Lib.Bytes

/-!
# The mbuf shell of the port

`port/net/embox/bsd_mbuf.c` with the macros of `compat/netbsd/sys/mbuf.h`, and
`m_append` of `net80211/ieee80211_netbsd.c`. One allocation holds the header
and a cluster of fixed size, so an mbuf owns its data and `m_data` is an offset
into it. A chain is the list of its mbufs, the empty list for `NULL`.

Nothing keeps `m_data` and `m_len` inside the cluster but the code; the cluster
is a function on all offsets, and `Mbuf.Wf` says that the window is inside.

Memory comes from `sysmalloc`, which may fail and does not clear what it
returns. `Heap.alloc` decides both for each allocation to come; the number of
the allocation is the address of the mbuf, and `freed` is what was given back.
-/

namespace Net80211

open Lib

/-- `MCLBYTES`. -/
def mclbytes : Nat := 4096

/-- `MH_ALIGN`, the offset of the data of a packet header mbuf. -/
def mhAlign : Nat := 256

/-- `m_cluster_size`, the same for every mbuf. -/
def mClusterSize : Nat := mclbytes + mhAlign

/-- `MLEN`. -/
def mbufMlen : Nat := 224

/-- `M_EXT`. -/
def mExt : UInt32 := 0x000001

/-- `M_PKTHDR`. -/
def mPkthdr : UInt32 := 0x000002

/-- `M_MCAST`. -/
def mMcast : UInt32 := 0x000004

/-- `M_BCAST`. -/
def mBcast : UInt32 := 0x000800

/-- `struct mbuf`: `m_data` as an offset into the cluster, and of the packet
header the length. -/
structure Mbuf where
  addr : Nat
  mFlags : UInt32
  mCluster : Nat → UInt8
  mData : Nat
  mLen : Nat
  pkthdrLen : Nat

structure Heap where
  alloc : Nat → Option (Nat → UInt8)
  next : Nat
  freed : List Nat

def Mbuf.hasPkthdr (m : Mbuf) : Bool := m.mFlags &&& mPkthdr != 0

/-- The octets of one mbuf. -/
def Mbuf.bytes (m : Mbuf) : List UInt8 := window m.mCluster m.mData m.mLen

/-- The octets of a chain. -/
def bytes (ms : List Mbuf) : List UInt8 := ms.flatMap Mbuf.bytes

/-- The sum of the `m_len` of a chain. -/
def mLength (ms : List Mbuf) : Nat := (ms.map Mbuf.mLen).sum

/-- `mtod(m, uint8_t *)[i]`. -/
def Mbuf.get (m : Mbuf) (i : Nat) : UInt8 := m.mCluster (m.mData + i)

/-- Write at `mtod(m, uint8_t *) + i`. -/
def Mbuf.put (m : Mbuf) (i : Nat) (p : List UInt8) : Mbuf :=
  { m with mCluster := store m.mCluster (m.mData + i) p }

/-- The data lies inside the cluster. -/
def Mbuf.Wf (m : Mbuf) : Prop := m.mData + m.mLen ≤ mClusterSize

/-! ## Allocation -/

def mGetImpl (h : Heap) (pkthdr : Bool) : Heap × Option Mbuf :=
  let h' := { h with next := h.next + 1 }
  match h.alloc h.next with
  | none => (h', none)
  | some cl => (h', some
      { addr := h.next
        mFlags := (if pkthdr then mPkthdr else 0) ||| mExt
        mCluster := cl
        mData := if pkthdr then mhAlign else 0
        mLen := 0
        pkthdrLen := 0 })

def mFreem (h : Heap) (ms : List Mbuf) : Heap :=
  { h with freed := h.freed ++ ms.map Mbuf.addr }

/-- `m_move_pkthdr`. Of the flags only `M_PKTHDR` moves. -/
def mMovePkthdr (dst src : Mbuf) : Mbuf × Mbuf :=
  ({ dst with
      mFlags := (dst.mFlags &&& ~~~mPkthdr) ||| (src.mFlags &&& mPkthdr)
      pkthdrLen := src.pkthdrLen },
    { src with mFlags := src.mFlags &&& ~~~mPkthdr })

/-! ## Trimming -/

/-- Trim from the head. -/
def mAdjHead : List Mbuf → Nat → List Mbuf
  | [], _ => []
  | m :: ms, len =>
    if len = 0 then m :: ms
    else if m.mLen ≤ len then
      { m with mData := m.mData + m.mLen, mLen := 0 } :: mAdjHead ms (len - m.mLen)
    else { m with mLen := m.mLen - len, mData := m.mData + len } :: ms

/-- Keep the first `count` octets. -/
def mAdjTail : List Mbuf → Nat → List Mbuf
  | [], _ => []
  | m :: ms, count =>
    if m.mLen > count then { m with mLen := count } :: mAdjTail ms (count - count)
    else m :: mAdjTail ms (count - m.mLen)

/-- Keep the packet header length in sync. -/
def mSyncLen : List Mbuf → List Mbuf
  | [] => []
  | m :: ms =>
    if m.hasPkthdr then { m with pkthdrLen := mLength (m :: ms) } :: ms else m :: ms

def mAdj (ms : List Mbuf) (reqLen : Int) : List Mbuf :=
  mSyncLen <|
    if 0 ≤ reqLen then mAdjHead ms reqLen.toNat
    else
      let len := (-reqLen).toNat
      mAdjTail ms (if mLength ms > len then mLength ms - len else 0)

/-! ## Copying -/

/-- The mbuf that holds offset `off`, and the offset in it. -/
def mCopydataSeek : List Mbuf → Nat → List Mbuf × Nat
  | [], off => ([], off)
  | m :: ms, off =>
    if off = 0 ∨ off < m.mLen then (m :: ms, off) else mCopydataSeek ms (off - m.mLen)

def mCopydataLoop : List Mbuf → Nat → Nat → List UInt8
  | [], _, _ => []
  | m :: ms, off, len =>
    if len = 0 then []
    else
      let taken := if m.mLen - off < len then m.mLen - off else len
      window m.mCluster (m.mData + off) taken ++ mCopydataLoop ms 0 (len - taken)

/-- `m_copydata`: the octets written to `cp`. Past the end of the chain there
are fewer than asked for, and the rest of `cp` keeps what it held. -/
def mCopydata (ms : List Mbuf) (off len : Nat) : List UInt8 :=
  let r := mCopydataSeek ms off
  mCopydataLoop r.1 r.2 len

/-- Free the empty mbufs at the front. -/
def mDropEmpty (h : Heap) : List Mbuf → Heap × List Mbuf
  | [] => (h, [])
  | m :: ms => if m.mLen = 0 then mDropEmpty (mFreem h [m]) ms else (h, m :: ms)

def mPullup (h : Heap) (ms : List Mbuf) (len : Int) : Heap × Option (List Mbuf) :=
  match ms with
  | [] => (h, none)
  | m :: rest =>
    if len < 0 ∨ len > mclbytes - mhAlign then (mFreem h ms, none)
    else if (m.mLen : Int) ≥ len then (h, some ms)
    else if (mLength ms : Int) < len then (mFreem h ms, none)
    else
      match mGetImpl h m.hasPkthdr with
      | (h, none) => (mFreem h ms, none)
      | (h, some head) =>
        let (head, m) := if m.hasPkthdr then mMovePkthdr head m else (head, m)
        let head := head.put 0 (mCopydata (m :: rest) 0 len.toNat)
        let head := { head with mLen := len.toNat }
        let (h, tl) := mDropEmpty h (mAdj (m :: rest) len)
        (h, some (head :: tl))

def mPrepend (h : Heap) (ms : List Mbuf) (len : Int) : Heap × Option (List Mbuf) :=
  match ms with
  | [] => (h, none)
  | m :: rest =>
    if len < 0 ∨ len > mclbytes - mhAlign then (mFreem h ms, none)
    else if (m.mData : Int) ≥ len then
      (h, some ({ m with
          mData := m.mData - len.toNat
          mLen := m.mLen + len.toNat
          pkthdrLen := if m.hasPkthdr then m.pkthdrLen + len.toNat else m.pkthdrLen } :: rest))
    else
      match mGetImpl h m.hasPkthdr with
      | (h, none) => (mFreem h ms, none)
      | (h, some n) =>
        let n := { n with mLen := len.toNat }
        if m.hasPkthdr then
          let (n, m) := mMovePkthdr n m
          (h, some ({ n with pkthdrLen := n.pkthdrLen + len.toNat } :: m :: rest))
        else (h, some (n :: m :: rest))

/-- `m_cat`. The header length is adjusted on the last mbuf of `m`. -/
def mCat : List Mbuf → List Mbuf → List Mbuf
  | [], _ => []
  | [m], n =>
    (if m.hasPkthdr then { m with pkthdrLen := m.pkthdrLen + mLength n } else m) :: n
  | m :: ms, n => m :: mCat ms n

def mAlign (m : Mbuf) (len : Int) : Mbuf :=
  if len < 0 then m
  else { m with mData := if m.hasPkthdr then mhAlign else 0, mLen := len.toNat }

/-- `m_copypacket` copies the first mbuf. -/
def mCopypacket (h : Heap) (m : Mbuf) : Heap × Option Mbuf :=
  match mGetImpl h m.hasPkthdr with
  | (h, none) => (h, none)
  | (h, some n) => (h, some
      { n with
        mFlags := n.mFlags ||| (m.mFlags &&& (mBcast ||| mMcast))
        mCluster := store n.mCluster 0 (window m.mCluster 0 mClusterSize)
        mData := m.mData
        mLen := m.mLen
        pkthdrLen := if m.hasPkthdr then m.pkthdrLen else n.pkthdrLen })

/-! ## Appending -/

/-- The loop of `m_append`: one new mbuf for each `MLEN` octets, until the
octets or the memory run out. Returns what did not fit. -/
def mAppendNew : Nat → Heap → List UInt8 → Heap × List Mbuf × List UInt8
  | 0, h, cp => (h, [], cp)
  | fuel + 1, h, cp =>
    if cp.length = 0 then (h, [], cp)
    else
      match mGetImpl h false with
      | (h, none) => (h, [], cp)
      | (h, some n) =>
        let n := { n with mLen := min mbufMlen cp.length }
        let n := n.put 0 (cp.take n.mLen)
        let (h, ns, cp) := mAppendNew fuel h (cp.drop n.mLen)
        (h, n :: ns, cp)

/-- Fill the trailing space of the last mbuf, then add new ones. -/
def mAppendLast (h : Heap) : List Mbuf → List UInt8 → Heap × List Mbuf × List UInt8
  | [], cp => (h, [], cp)
  | [m], cp =>
    let space := min (mClusterSize - (m.mData + m.mLen)) cp.length
    let m := { m.put m.mLen (cp.take space) with mLen := m.mLen + space }
    let (h, ns, cp) := mAppendNew cp.length h (cp.drop space)
    (h, m :: ns, cp)
  | m :: ms, cp =>
    let (h, ms, cp) := mAppendLast h ms cp
    (h, m :: ms, cp)

/-- `m_append`: was everything appended? -/
def mAppend (h : Heap) (ms : List Mbuf) (cp : List UInt8) : Heap × List Mbuf × Bool :=
  let (h, ms, rest) := mAppendLast h ms cp
  let ms := match ms with
    | [] => []
    | m :: tl =>
      (if m.hasPkthdr then { m with pkthdrLen := m.pkthdrLen + (cp.length - rest.length) }
        else m) :: tl
  (h, ms, rest.length == 0)

end Net80211
