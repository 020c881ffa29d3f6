import Net80211.Proofs.Fragment
import Mathlib.Data.Nat.Bitwise

/-!
# A packet of any shape behind `ieee80211_encap`

The chain may have any shape with the Ethernet header in its first mbuf, and any space in front of
it. `ieee80211_mbuf_adjust` leaves the first mbuf or puts a new one in front of it, with room for
the 802.11 header and the cipher header in both cases, so nothing behind it allocates. `Encapped` is
the frame: where the header and the payload are, what the header says, and whose flags it was read
from.
-/

namespace Net80211

open Lib Crypto List

theorem Mbuf.bytes_eq_window (m : Mbuf) : m.bytes = window m.get 0 m.mLen :=
  (window_shift m.mCluster m.mData m.mLen 0).symm

/-! ## The header -/

variable {ν : Type} [DecidableEq ν] {ic : Ic ν} {n : ν} {addrs : List UInt8} {dir : UInt8}

/-- The length of the header that `ieee80211_encap` puts in front of an Ethernet frame. -/
def encapHdrsize (ic : Ic ν) (n : ν) (frame : List UInt8) : Nat :=
  let addqos := (ic.icNode n).niQos && (etherHeaderOf frame).etherType != ethertypePae
  let hdrsize := if addqos then 26 else 24
  if ic.icKeys.datapad then (hdrsize + 3) / 4 * 4 else hdrsize

omit [DecidableEq ν] in
theorem encapHdrsize_bounds (ic : Ic ν) (n : ν) (frame : List UInt8) :
    24 ≤ encapHdrsize ic n frame ∧ encapHdrsize ic n frame ≤ 28 ∧
      (((ic.icNode n).niQos && (etherHeaderOf frame).etherType != ethertypePae) = true →
        26 ≤ encapHdrsize ic n frame) := by
  rw [encapHdrsize]
  generalize ((ic.icNode n).niQos && (etherHeaderOf frame).etherType != ethertypePae) = addqos
  cases addqos with
  | true | false => cases ic.icKeys.datapad <;> decide

omit [DecidableEq ν] in
theorem encapAddrs_some {eh : EtherHeader} (hb : ∀ n, (ic.icNode n).niBssid.length = 6)
    (hs : eh.etherShost.length = 6) (hd : eh.etherDhost.length = 6)
    (h : encapAddrs ic n eh = some (dir, addrs)) :
    addrs.length = 18 := by
  rw [encapAddrs] at h
  cases hop : ic.icOpmode with
  | monitor => rw [hop] at h; cases h
  | sta | ibss | ahdemo | hostap =>
    rw [hop] at h
    obtain ⟨rfl, rfl⟩ := Prod.mk.inj (Option.some.inj h)
    simp only [length_append, hb, hs, hd]

/-- The category a frame is sent in, by its flags. -/
def encapTid (addqos : Bool) (m : Mbuf) : Nat := if addqos then wmeAcToTid (wmeGetac m) else 0

/-- What `ieee80211_encap` writes into the first 24 or 26 octets. -/
structure Filled8021 (ic : Ic ν) (n : ν) (addqos : Bool) (dir : UInt8) (addrs : List UInt8)
    (m f : Mbuf) : Prop where
  shape : SameShape m f
  fc0 : f.get 0 = if addqos then 0x88 else 0x08
  fc1 : f.get 1 = if m.mFlags &&& mMoreData != 0 then dir ||| fc1MoreData else dir
  addrs : window f.get 4 18 = addrs
  seq : window f.get 22 2 = seqOctets ((ic.icNode n).niTxseqs (encapTid addqos m))
  qos : addqos = true → f.get 24 =
    UInt8.ofNat (encapTid addqos m) &&& 0x0f ||| (if ic.icNoack (wmeGetac m) then 0x20 else 0)
  far : ∀ j, (if addqos then 26 else 24) ≤ j → f.get j = m.get j

theorem fillHeader_filled {addqos : Bool} {dir : UInt8} {addrs : List UInt8} (m : Mbuf)
    (hl : addrs.length = 18) :
    Filled8021 ic n addqos dir addrs m (fillHeader ic n addqos dir addrs m).1 := by
  generalize hfc1 : (if m.mFlags &&& mMoreData != 0 then dir ||| fc1MoreData else dir) = fc1
  have hA : ([0x08, fc1, 0, 0] ++ addrs).length = 22 := by
    rw [length_append, hl]
    rfl
  have hall : window (store m.get 0 ([0x08, fc1, 0, 0] ++ addrs)) 0 22 =
      [0x08, fc1, 0, 0] ++ addrs := by
    rw [← hA]
    exact window_store_same _ _ _
  have hstart : store m.get 0 ([0x08, fc1, 0, 0] ++ addrs) 0 = 0x08 ∧
      store m.get 0 ([0x08, fc1, 0, 0] ++ addrs) 1 = fc1 := ⟨rfl, rfl⟩
  have haddrs : window (store m.get 0 ([0x08, fc1, 0, 0] ++ addrs)) 4 18 = addrs := by
    have := congrArg (drop 4) hall
    rw [drop_window] at this
    exact this
  rw [fillHeader, hfc1]
  cases addqos with
  | true =>
    simp only [if_true]
    generalize hQ :
      [UInt8.ofNat (wmeAcToTid (wmeGetac (m.put 0 ([0x08, fc1, 0, 0] ++ addrs)))) &&& 0x0f |||
      (if ic.icNoack (wmeGetac (m.put 0 ([0x08, fc1, 0, 0] ++ addrs))) then 0x20 else 0), 0] = q
    have hq : q.length = 2 := by rw [← hQ]; rfl
    generalize hS : seqOctets ((ic.icNode n).niTxseqs (wmeAcToTid (wmeGetac
      (m.put 0 ([0x08, fc1, 0, 0] ++ addrs))))) = sq
    have hsq : sq.length = 2 := by rw [← hS]; rfl
    have hget : ((((m.put 0 ([0x08, fc1, 0, 0] ++ addrs)).put 24 q).put 0 [0x88]).put 22 sq).get =
        store (store (store (store m.get 0 ([0x08, fc1, 0, 0] ++ addrs)) 24 q) 0 [0x88]) 22 sq := by
      rw [Mbuf.get_put, Mbuf.get_put, Mbuf.get_put, Mbuf.get_put]
    refine ⟨((SameShape.put _ _ _).trans (.put _ _ _)).trans
      ((SameShape.put _ _ _).trans (.put _ _ _)), ?_, ?_, ?_, ?_, fun _ => ?_, fun j hj => ?_⟩
    · rw [hget, store_of_lt _ _ (by decide)]
      rfl
    · rw [hfc1, hget, store_of_lt _ _ (by decide), store_of_ge _ (by decide),
        store_of_lt _ _ (by decide)]
      rfl
    · rw [hget, window_store_of_disjoint _ (.inl (by decide)),
        window_store_of_disjoint _ (.inr (by decide)),
        window_store_of_disjoint _ (.inl (by decide)), haddrs]
    · rw [hget, ← hsq, window_store_same]
      exact hS.symm
    · rw [hget, store_of_ge _ (by omega), store_of_ge _ (by decide),
        show (24 : Nat) = 24 + 0 from rfl, store_add, ← hQ]
      rfl
    · have hj : 26 ≤ j := hj
      rw [hget, store_of_ge _ (by omega), store_of_ge _ (show 0 + 1 ≤ j by omega),
        store_of_ge _ (by omega), store_of_ge _ (by omega)]
  | false =>
    simp only [Bool.false_eq_true, if_false]
    generalize hS : seqOctets ((ic.icNode n).niTxseqs 0) = sq
    have hsq : sq.length = 2 := by rw [← hS]; rfl
    have hget : ((m.put 0 ([0x08, fc1, 0, 0] ++ addrs)).put 22 sq).get =
        store (store m.get 0 ([0x08, fc1, 0, 0] ++ addrs)) 22 sq := by
      rw [Mbuf.get_put, Mbuf.get_put]
    refine ⟨(SameShape.put _ _ _).trans (.put _ _ _), ?_, ?_, ?_, ?_, (fun h => by cases h),
      fun j hj => ?_⟩
    · rw [hget, store_of_lt _ _ (by decide)]
      rfl
    · rw [hfc1, hget, store_of_lt _ _ (by decide)]
      rfl
    · rw [hget, window_store_of_disjoint _ (.inl (by decide)), haddrs]
    · rw [hget, ← hsq, window_store_same]
      exact hS.symm
    · have hj : 24 ≤ j := hj
      rw [hget, store_of_ge _ (by omega), store_of_ge _ (by omega)]

/-! ## Room for the headers -/

variable {m : Mbuf} {frame : List UInt8}

/-- The payload of an Ethernet frame behind an LLC header. -/
def llcPayload (frame : List UInt8) : List UInt8 := llcSnap ++ frame.drop 12

theorem length_llcPayload (h : 14 ≤ frame.length) :
    (llcPayload frame).length = frame.length - 6 := by
  rw [llcPayload, length_append, length_drop]
  change 6 + _ = _
  omega

theorem llcPayload_eq (frame : List UInt8) :
    llcPayload frame = llcSnap ++ (etherHeaderOf frame).etherType ++ frame.drop 14 := by
  have hdrop : frame.drop 14 = (frame.drop 12).drop 2 := by rw [drop_drop]
  rw [llcPayload, etherHeaderOf, append_assoc, hdrop, take_append_drop]

/-- The packet with `k` octets in front, taken from the space there. -/
def Mbuf.grow (m : Mbuf) (k : Nat) : Mbuf :=
  { m with mData := m.mData - k, mLen := m.mLen + k, pkthdrLen := m.pkthdrLen + k }

theorem mPrepend_within {h : Heap} {ms : List Mbuf} {k : Nat} (hk : k ≤ m.mData)
    (hmax : k ≤ mclbytes - mhAlign) (hf : m.hasPkthdr = true) :
    mPrepend h (m :: ms) k = (h, some (m.grow k :: ms)) := by
  have hle : ¬ ((k : Int) < 0 ∨ (k : Int) > mclbytes - mhAlign) := by
    have : mclbytes - mhAlign = 3840 := rfl
    have : (mclbytes : Int) - mhAlign = 3840 := rfl
    omega
  rw [mPrepend, if_neg hle, if_pos (by omega), hf]
  rfl

theorem Mbuf.get_grow {k : Nat} (hk : k ≤ m.mData) (j : Nat) :
    (m.grow k).get (k + j) = m.get j := by
  change m.mCluster (m.mData - k + (k + j)) = m.mCluster (m.mData + j)
  congr 1
  omega

theorem and_single_bit (x : UInt32) {b : UInt32} {k : Nat} (hb : b.toNat = 2 ^ k) :
    x &&& b = 0 ∨ x &&& b = b := by
  have hand : (x &&& b).toNat = x.toNat &&& 2 ^ k := by rw [UInt32.toNat_and, hb]
  rw [Nat.and_two_pow] at hand
  cases hbit : x.toNat.testBit k with
  | false =>
    rw [hbit, Bool.toNat_false, Nat.zero_mul] at hand
    exact .inl (UInt32.toNat_inj.mp hand)
  | true =>
    rw [hbit, Bool.toNat_true, Nat.one_mul, ← hb] at hand
    exact .inr (UInt32.toNat_inj.mp hand)

variable {h h' : Heap} {hdrsize : Nat} {cip : Cipher} {ms c : List Mbuf}

theorem moved_flags (hf : m.hasPkthdr = true) :
    ((mPkthdr ||| mExt) &&& ~~~mPkthdr) ||| (m.mFlags &&& mPkthdr) = mPkthdr ||| mExt := by
  rcases and_single_bit m.mFlags (show mPkthdr.toNat = 2 ^ 1 from rfl) with h0 | h1
  · rw [Mbuf.hasPkthdr, h0] at hf
    cases hf
  · rw [h1]
    rfl

/-- What `ieee80211_mbuf_adjust` returns: 14 octets to write over and the rest of the packet, and
room for the headers once the end of the Ethernet header is reclaimed. The first mbuf is the one of
the packet, or a new one where that has not the room. -/
theorem mbufAdjust_some (hpkt : Pkt (m :: ms)) (h14 : 14 ≤ m.mLen)
    (hs : mbufAdjust h hdrsize cip m ms = (h', some c)) :
    ∃ c₀ cs x, c = c₀ :: cs ∧ x.length = 14 ∧ bytes c = x ++ (bytes (m :: ms)).drop 14 ∧ Pkt c ∧
      14 ≤ c₀.mLen ∧ hdrsize + cip.icHeader ≤ c₀.mData + 6 ∧
      (h' = h ∧ c₀ = m ∧ cs = ms ∧ hdrsize + cip.icHeader ≤ m.mData + 6 ∨
        c₀.mFlags = mPkthdr ||| mExt ∧ c₀.mData = mhAlign + (hdrsize + cip.icHeader) ∧
        c₀.addr = h.next ∧
          m.mData + 6 < hdrsize + cip.icHeader) := by
  have hlen : 14 ≤ (bytes (m :: ms)).length := by
    rw [length_bytes, mLength_cons]
    omega
  rw [mbufAdjust] at hs
  dsimp only at hs
  split at hs
  · next hlt =>
    rcases mGetImpl_cases h with ⟨_, hget⟩ | ⟨n, _, hget, haddr, hflags, hdata⟩
    · rw [hget] at hs
      cases hs
    · rw [hget] at hs
      cases hs
      have hnew : (mMovePkthdr n m).1.mFlags = mPkthdr ||| mExt := by
        show (n.mFlags &&& ~~~mPkthdr) ||| (m.mFlags &&& mPkthdr) = _
        rw [hflags]
        exact moved_flags hpkt.1
      refine ⟨_, _, window (mMovePkthdr n m).1.mCluster (n.mData + (hdrsize + cip.icHeader)) 14,
        rfl, length_window _ _ _, ?_, ⟨?_, ?_⟩, Nat.le_refl _, ?_, .inr ⟨hnew, ?_, haddr, by omega⟩⟩
      · rw [bytes_cons, bytes_cons, bytes_cons, drop_append_of_le_length
          (by rw [Mbuf.length_bytes]; exact h14), Mbuf.bytes, Mbuf.bytes, Mbuf.bytes, drop_window]
        rfl
      · show ((mMovePkthdr n m).1.mFlags &&& mPkthdr != 0) = true
        rw [hnew]
        decide
      · show m.pkthdrLen = _
        rw [hpkt.2, mLength_cons, mLength_cons, mLength_cons]
        show m.mLen + mLength ms = 14 + (m.mLen - 14 + mLength ms)
        omega
      · show hdrsize + cip.icHeader ≤ n.mData + (hdrsize + cip.icHeader) + 6
        omega
      · show n.mData + (hdrsize + cip.icHeader) = _
        rw [hdata]
  · next hge =>
    cases hs
    refine ⟨m, ms, (bytes (m :: ms)).take 14, rfl, ?_, (take_append_drop _ _).symm, hpkt, h14,
      by omega, .inl ⟨rfl, rfl, rfl, by omega⟩⟩
    rw [length_take]
    omega

theorem putLlc_chain {c₀ : Mbuf} {cs : List Mbuf} {x rest etherType : List UInt8}
    (hpkt : Pkt (c₀ :: cs)) (h14 : 14 ≤ c₀.mLen) (hx : x.length = 14)
    (hb : bytes (c₀ :: cs) = x ++ rest) (ht : etherType.length = 2) :
    ∃ m₂, putLlc (c₀ :: cs) etherType = m₂ :: cs ∧ bytes (m₂ :: cs) = llcSnap ++ etherType ++ rest ∧
      Pkt (m₂ :: cs) ∧ m₂.mLen = c₀.mLen - 6 ∧ m₂.mData = c₀.mData + 6 ∧ m₂.addr = c₀.addr ∧
      m₂.mFlags = c₀.mFlags := by
  have hcut : mAdj (c₀ :: cs) 6 = _ := mAdj_within (k := 6) hpkt.1 (by omega)
  have hdrop : bytes (mAdj (c₀ :: cs) 6) = (bytes (c₀ :: cs)).drop 6 := bytes_mAdj_head _ 6
  rw [hcut] at hdrop
  have hllc : ([0xaa, 0xaa, 0x03, 0, 0, 0] ++ etherType : List UInt8).length = 8 := by
    rw [length_append, ht]
    rfl
  rw [putLlc, hcut]
  refine ⟨_, rfl, ?_, ⟨hpkt.1, ?_⟩, rfl, rfl, rfl, rfl⟩
  · rw [bytes_put_head cs (by rw [hllc]; show 0 + 8 ≤ c₀.mLen - 6; omega), hdrop, hb, patch,
      take_zero, nil_append, hllc, drop_drop, drop_left' (by rw [hx])]
    rfl
  · show mLength (c₀ :: cs) - 6 = _
    rw [mLength_cons, mLength_cons]
    show c₀.mLen + mLength cs - 6 = c₀.mLen - 6 + mLength cs
    omega

/-! ## The frame -/

variable {ic' : Ic ν}

/-- The cipher of the key that `ieee80211_encap` finds for a frame. -/
def encapCipher (ic : Ic ν) (n : ν) (frame : List UInt8) : Cipher :=
  match encapKey ic n (etherHeaderOf frame) with
  | none => .none
  | some s => (ic.icKeys.key s).wkCipher

theorem mark_get (protect : Bool) (m : Mbuf) :
    let m' := if protect then m.put 1 [m.get 1 ||| fc1Wep] else m
    SameShape m m' ∧ m'.get 1 = (if protect then m.get 1 ||| fc1Wep else m.get 1) ∧
      ∀ j ≠ 1, m'.get j = m.get j := by
  cases protect with
  | false => exact ⟨.rfl, rfl, fun _ _ => rfl⟩
  | true =>
    refine ⟨.put _ _ _, m.get_put_one _, fun j hj => ?_⟩
    rw [if_pos rfl, Mbuf.get_put]
    rcases Nat.lt_or_gt_of_ne hj with h | h
    · exact store_of_lt _ _ h
    · exact store_of_ge _ h

/-- Does the frame have a QoS field? -/
def encapQos (ic : Ic ν) (n : ν) (frame : List UInt8) : Bool :=
  (ic.icNode n).niQos && (etherHeaderOf frame).etherType != ethertypePae

/-- The frame that `ieee80211_encap` makes of the Ethernet frame `eth`, before it is fragmented. -/
structure Encapped (ic : Ic ν) (n : ν) (eth : List UInt8) (dir : UInt8) (addrs : List UInt8)
    (f : Mbuf) (fs : List Mbuf) : Prop where
  octets : (bytes (f :: fs)).drop (encapHdrsize ic n eth) = llcPayload eth
  contiguous : encapHdrsize ic n eth + 8 ≤ f.mLen
  pkt : Pkt (f :: fs)
  lead : (encapCipher ic n eth).icHeader ≤ f.mData
  fc0 : f.get 0 = if encapQos ic n eth then 0x88 else 0x08
  fc1 : f.get 1 = (if f.mFlags &&& mMoreData != 0 then dir ||| fc1MoreData else dir) |||
    (if encapProtects ic n (etherHeaderOf eth) then fc1Wep else 0)
  addrs : window f.get 4 18 = addrs
  seq : window f.get 22 2 = seqOctets ((ic.icNode n).niTxseqs (encapTid (encapQos ic n eth) f))
  qos : encapQos ic n eth = true → f.get 24 =
    UInt8.ofNat (encapTid true f) &&& 0x0f ||| (if ic.icNoack (wmeGetac f) then 0x20 else 0)

omit [DecidableEq ν] in
theorem Encapped.number {eth : List UInt8} {f : Mbuf} {fs : List Mbuf}
    (he : Encapped ic n eth dir addrs f fs) : (f.get 22).toNat % 16 = 0 := by
  have hlow : ∀ s : UInt16, ((seqOctets s).headD 0).toNat % 16 = 0 := by
    intro s
    show (s <<< 4).toUInt8.toNat % 16 = 0
    rw [UInt16.toNat_toUInt8, UInt16.toNat_shiftLeft, show (4 : UInt16).toNat % 16 = 4 from rfl,
      Nat.shiftLeft_eq]
    omega
  have h22 : f.get 22 = _ := congrArg (·.headD 0) he.seq
  rw [h22]
  exact hlow _

theorem encapped_of_payload {eth : List UInt8} {dir : UInt8} {addrs : List UInt8} {m₂ m₄ m₅ : Mbuf}
    {cs : List Mbuf} (hpkt : Pkt (m₂ :: cs)) (hb : bytes (m₂ :: cs) = llcPayload eth)
    (h8 : 8 ≤ m₂.mLen) (hroom : encapHdrsize ic n eth + (encapCipher ic n eth).icHeader ≤ m₂.mData)
    (hl : addrs.length = 18)
    (hm₄ : m₄ = (fillHeader ic n (encapQos ic n eth) dir addrs (m₂.grow (encapHdrsize ic n eth))).1)
    (hm₅ : m₅ = if encapProtects ic n (etherHeaderOf eth) then m₄.put 1 [m₄.get 1 ||| fc1Wep]
      else m₄) : SameShape (m₂.grow (encapHdrsize ic n eth)) m₄ ∧ SameShape m₄ m₅ ∧
      m₄.get 4 = addrs.headD 0 ∧ Encapped ic n eth dir addrs m₅ cs := by
  have hbounds : (if encapQos ic n eth then 26 else 24) ≤ encapHdrsize ic n eth := by
    have h26 : ∀ q d : Bool, (if q then 26 else 24) ≤
        if d then ((if q then 26 else 24) + 3) / 4 * 4 else if q then 26 else 24 := by decide
    exact h26 _ _
  have h24 := encapHdrsize_bounds ic n eth
  have hfill :=
    @fillHeader_filled ν _ ic n (encapQos ic n eth) dir addrs (m₂.grow (encapHdrsize ic n eth)) hl
  rw [← hm₄] at hfill
  obtain ⟨hmark, hmark1, hmark0⟩ := mark_get (encapProtects ic n (etherHeaderOf eth)) m₄
  rw [← hm₅] at hmark hmark1 hmark0
  have hall := hfill.shape.trans hmark
  have hflags : m₅.mFlags = (m₂.grow (encapHdrsize ic n eth)).mFlags := hall.flags
  have hac : wmeGetac m₅ = wmeGetac (m₂.grow (encapHdrsize ic n eth)) := by
    rw [wmeGetac, wmeGetac, hflags]
  have htid : ∀ q, encapTid q m₅ = encapTid q (m₂.grow (encapHdrsize ic n eth)) := by
    intro q
    rw [encapTid, encapTid, hac]
  have hwin : ∀ i k, 2 ≤ i → window m₅.get i k = window m₄.get i k := fun i k hi =>
    window_congr _ _ fun j _ => hmark0 _ (by omega)
  refine ⟨hfill.shape, hmark, ?_, ?_, ?_, ⟨?_, ?_⟩, ?_, ?_, ?_, ?_, ?_, fun hq => ?_⟩
  · have := congrArg (·.headD 0) hfill.addrs
    exact this
  · rw [bytes_cons,
      drop_append_of_le_length (by rw [Mbuf.length_bytes, hall.len]; exact Nat.le_add_left _ _),
      m₅.bytes_eq_window, drop_window, hall.len]
    show window m₅.get _ (m₂.mLen + encapHdrsize ic n eth - encapHdrsize ic n eth) ++ _ = _
    rw [Nat.add_sub_cancel, ← hb, bytes_cons, m₂.bytes_eq_window, Nat.zero_add,
      ← Nat.add_zero (encapHdrsize ic n eth), ← window_shift]
    congr 1
    refine window_congr _ _ fun k _ => ?_
    rw [Nat.zero_add, hmark0 _ (by omega), hfill.far _ (by omega), Mbuf.get_grow (by omega)]
  · rw [hall.len]
    show encapHdrsize ic n eth + 8 ≤ m₂.mLen + encapHdrsize ic n eth
    omega
  · rw [Mbuf.hasPkthdr, hflags]
    exact hpkt.1
  · rw [hall.pkthdr, mLength_cons, hall.len]
    show m₂.pkthdrLen + encapHdrsize ic n eth = m₂.mLen + encapHdrsize ic n eth + mLength cs
    rw [hpkt.2, mLength_cons]
    omega
  · rw [hall.data]
    show _ ≤ m₂.mData - encapHdrsize ic n eth
    omega
  · rw [hmark0 0 (by decide), hfill.fc0]
  · rw [hmark1, hfill.fc1, hflags]
    cases encapProtects ic n (etherHeaderOf eth) with
    | true => rfl
    | false => exact (UInt8.or_zero).symm
  · rw [hwin _ _ (by decide), hfill.addrs]
  · rw [hwin _ _ (by decide), hfill.seq, htid]
  · rw [hmark0 24 (by decide), hfill.qos hq, hq, htid, hac]

/-- Where `ieee80211_mbuf_adjust` takes a new first mbuf: too little room in front. -/
def LacksRoom (ic : Ic ν) (n : ν) (eth : List UInt8) (m : Mbuf) : Prop :=
  m.mData + 6 < encapHdrsize ic n eth + (encapCipher ic n eth).icHeader

/-- `ieee80211_encap` of a packet of any shape: one frame, and what fragmentation makes of it.
The frame begins in the mbuf of the packet, or in a new one where that lacks room. -/
theorem encap_chain {frames : List (List Mbuf)} (hb : ∀ n, (ic.icNode n).niBssid.length = 6)
    (hpkt : Pkt (m :: ms)) (h14 : 14 ≤ m.mLen)
    (he : encap h ic n m ms = some (h', ic', some frames)) :
    ic'.icKeys = ic.icKeys ∧ ∃ h₁ f fs dir addrs,
      encapAddrs ic n (etherHeaderOf (bytes (m :: ms))) = some (dir, addrs) ∧
      Encapped ic n (bytes (m :: ms)) dir addrs f fs ∧
      (h₁ = h ∧ f.addr = m.addr ∧ f.mFlags = m.mFlags ∧ fs = ms ∧
        ¬ LacksRoom ic n (bytes (m :: ms)) m ∧
          f.mData + encapHdrsize ic n (bytes (m :: ms)) = m.mData + 6 ∨
        f.addr = h.next ∧ f.mFlags = mPkthdr ||| mExt ∧ LacksRoom ic n (bytes (m :: ms)) m) ∧
      if f.pkthdrLen > ic.icFragthreshold.toNat && !isMulticast (addrs.headD 0) &&
          f.mFlags &&& mFf == 0 then
        fragment h₁ f fs (encapHdrsize ic n (bytes (m :: ms)))
        (encapCipher ic n (bytes (m :: ms))).icHeader
          ic.icFragthreshold.toNat = some (h', some frames) else h' = h₁ ∧ frames = [f :: fs] := by
  generalize heth : bytes (m :: ms) = eth
  have hlen : 14 ≤ eth.length := by
    rw [← heth, length_bytes, mLength_cons]
    omega
  have hbounds := encapHdrsize_bounds ic n eth
  rw [encap, etherHeader_eq ms h14, heth] at he
  simp only [← encapHdrsize.eq_1 ic n eth] at he
  split at he
  · cases he
  next h₁ c hadj =>
  change mbufAdjust h (encapHdrsize ic n eth) (encapCipher ic n eth) m ms = (h₁, some c) at hadj
  obtain ⟨c0, cs, x, rfl, hx, hcb, hcp, hc14, hroom, hwhich⟩ := mbufAdjust_some hpkt h14 hadj
  rw [heth] at hcb
  have htype : (etherHeaderOf eth).etherType.length = 2 := by
    rw [etherHeaderOf, length_take, length_drop]
    omega
  obtain ⟨m2, hllc, hb2, hp2, hl2, hd2, ha2, hf2⟩ := putLlc_chain hcp hc14 hx hcb htype
  have hpre := @mPrepend_within m2 h₁ cs (encapHdrsize ic n eth) (by omega)
    (by rw [mclbytes, mhAlign]; omega) hp2.1
  rw [hllc, hpre] at he
  dsimp only at he
  split at he
  · cases he
  next dir addrs haddrs =>
  have hl := encapAddrs_some hb (by rw [etherHeaderOf, length_take, length_drop]; omega)
    (by rw [etherHeaderOf, length_take]; omega) haddrs
  have hkeys :
      (fillHeader ic n ((ic.icNode n).niQos && (etherHeaderOf eth).etherType != ethertypePae) dir
    addrs (m2.grow (encapHdrsize ic n eth))).2.icKeys = ic.icKeys := rfl
  generalize hm4 :
    (fillHeader ic n ((ic.icNode n).niQos && (etherHeaderOf eth).etherType != ethertypePae) dir
    addrs (m2.grow (encapHdrsize ic n eth))) = filled at he hkeys
  generalize hm5 : (if encapProtects ic n (etherHeaderOf eth) then
    filled.1.put 1 [filled.1.get 1 ||| fc1Wep] else filled.1) = f at he
  obtain ⟨hsh, hsh', h4, henc⟩ :=
    encapped_of_payload hp2 (hb2.trans (llcPayload_eq eth).symm) (by omega) (by omega) hl
    (congrArg Prod.fst hm4).symm hm5.symm
  have hall := hsh.trans hsh'
  have hic : ic'.icKeys = ic.icKeys := by
    split at he
    · split at he
      · cases he
      · cases he
      · cases he
        exact hkeys
    · cases he
      exact hkeys
  refine ⟨hic, h₁, f, cs, dir, addrs, haddrs, henc, ?_, ?_⟩
  · rcases hwhich with ⟨rfl, rfl, rfl, hr⟩ | ⟨hf, -, ha, hr⟩
    · refine .inl ⟨rfl, hall.addr.trans ha2, hall.flags.trans hf2, rfl, Nat.not_lt.mpr hr, ?_⟩
      rw [hall.data]
      show m2.mData - encapHdrsize ic n eth + _ = _
      omega
    · exact .inr ⟨hall.addr.trans (ha2.trans ha), hall.flags.trans (hf2.trans hf), hr⟩
  · rw [← hsh'.pkthdr, ← hsh'.flags] at he
    rw [h4] at he
    split at he
    · next hfrag =>
      rw [if_pos hfrag]
      split at he
      · cases he
      · cases he
      next hf =>
      simp only [Option.some.injEq, Prod.mk.injEq] at he
      obtain ⟨rfl, rfl, rfl⟩ := he
      exact hf
    · next hfrag =>
      rw [if_neg hfrag]
      simp only [Option.some.injEq, Prod.mk.injEq] at he
      obtain ⟨rfl, rfl, rfl⟩ := he
      exact ⟨rfl, rfl⟩

end Net80211
