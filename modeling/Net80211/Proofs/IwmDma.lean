import Net80211.Proofs.IwmTx
import Net80211.Proofs.CryptoHead

/-!
# What the device fetches

`bus_dmamap_load_mbuf` describes a packet by one segment: from the data of the first mbuf, as
long as the packet. A packet of the port is one mbuf all the way to the cipher, so this is right
but for the MIC, which `m_append` puts into an mbuf of its own where the cluster is full. And the
entry of the descriptor has twelve bits for the length. Both are settled by the length of the
frame that is sent (`txLength`), which follows from the frame of the port, the threshold and the
key.

A place in memory is an mbuf and an offset in its cluster: what the map and the descriptor cover
is compared with the places of the octets of the chain.
-/

namespace Net80211

open Lib Crypto List Option

/-! ## The MIC -/

variable {h h' : Heap} {m : Mbuf} {c : List Mbuf} {cp : List UInt8}

/-- The second mbuf of a packet whose end of `len` octets found no room in the first. -/
def Spilled (h : Heap) (m : Mbuf) (len : Nat) (tl : List Mbuf) : Prop :=
  if m.mData + m.mLen + len ≤ mClusterSize then tl = []
  else ∃ n, tl = [n] ∧ n.addr = h.next ∧ 0 < n.mLen ∧ n.mLen ≤ len

theorem mAppendNew_nil (fuel : Nat) (h : Heap) : mAppendNew fuel h [] = (h, [], []) := by
  cases fuel <;> rfl

theorem mAppendNew_short {fuel : Nat} {ns : List Mbuf} (hfuel : cp.length ≤ fuel)
    (hcp : cp.length ≤ mbufMlen) (hr : mAppendNew fuel h cp = (h', ns, [])) :
    if cp.length = 0 then ns = []
    else ∃ n, ns = [n] ∧ n.addr = h.next ∧ 0 < n.mLen ∧ n.mLen ≤ cp.length := by
  by_cases h0 : cp.length = 0
  · rw [eq_nil_of_length_eq_zero h0, mAppendNew_nil] at hr
    cases hr
    rw [if_pos h0]
  · obtain ⟨fuel, rfl⟩ : ∃ k, fuel = k + 1 := ⟨fuel - 1, by omega⟩
    rw [if_neg h0]
    rw [mAppendNew, if_neg h0, mGetImpl] at hr
    cases halloc : h.alloc h.next with
    | none =>
      rw [halloc] at hr
      cases hr
      exact absurd rfl h0
    | some cl =>
      rw [halloc] at hr
      dsimp only [Mbuf.put] at hr
      rw [Nat.min_eq_right hcp, drop_length, mAppendNew_nil] at hr
      cases hr
      exact ⟨_, rfl, rfl, Nat.pos_of_ne_zero h0, Nat.le_refl _⟩

/-- `m_append` fills the cluster, and puts the rest into one new mbuf. -/
theorem mAppend_spills (h0 : 0 < cp.length) (hcp : cp.length ≤ mbufMlen)
    (ha : mAppend h [m] cp = (h', c, true)) : ∃ m' tl, c = m' :: tl ∧ Spilled h m cp.length tl := by
  rw [mAppend, mAppendLast] at ha
  generalize hspace : min (mClusterSize - (m.mData + m.mLen)) cp.length = space at ha
  obtain ⟨⟨h₁, ns, rest⟩, hnew⟩ : ∃ x, mAppendNew cp.length h (cp.drop space) = x := ⟨_, rfl⟩
  rw [hnew] at ha
  obtain ⟨-, hc, hrest⟩ : _ ∧ _ ∧ (rest.length == 0) = true := by
    simpa only [Prod.mk.injEq] using ha
  obtain rfl := eq_nil_of_length_eq_zero (beq_iff_eq.mp hrest)
  have hlen : (cp.drop space).length = cp.length - space := length_drop
  have hshort := mAppendNew_short (by omega) (by omega) hnew
  refine ⟨_, ns, hc.symm, ?_⟩
  rw [Spilled]
  by_cases hfits : m.mData + m.mLen + cp.length ≤ mClusterSize
  · rw [if_pos hfits]
    rwa [if_pos (by omega)] at hshort
  · rw [if_neg hfits]
    rw [if_neg (by omega)] at hshort
    obtain ⟨n, hns, haddr, hpos, hle⟩ := hshort
    exact ⟨n, hns, haddr, hpos, by omega⟩

variable {E : BlockCipher} {datapad : Bool} {k k' : Key} {keyid : UInt8}

theorem ccmpEncap_spills (hlen : mLength c = m.mLen + 8) (hsw : k.wkFlags.swcrypt = true)
    (he : ccmpEncap E datapad h k m [] keyid = some (h', k', c, true)) :
    ∃ m' tl, c = m' :: tl ∧ Spilled h m 8 tl := by
  rw [ccmpEncap] at he
  dsimp only at he
  rw [if_pos hsw] at he
  split at he
  · cases he
  next h1 frame1 ok1 henc =>
  cases he
  rw [ccmpEncrypt] at henc
  split at henc
  · cases henc
  dsimp only at henc
  split at henc
  · cases henc
  next C' ms1 mic hmbuf =>
  obtain ⟨m1, tl1, rfl, hshapes, -⟩ := aesCcmEncMbuf_head hmbuf
  cases hshapes with
  | cons hs hnil =>
    cases hnil
    have happ := Option.some.inj henc
    have hmic : mic.length = 8 := by
      obtain ⟨m', tl, rfl, hb, -⟩ := mAppend_true happ
      have := congrArg List.length hb
      rw [length_bytes, hlen, length_append, bytes_singleton, Mbuf.length_bytes, hs.len] at this
      exact (Nat.add_left_cancel this).symm
    obtain ⟨m', tl, hc, hsp⟩ := mAppend_spills (hmic ▸ by decide) (hmic ▸ by decide) happ
    refine ⟨m', tl, hc, ?_⟩
    rw [Spilled, hs.data, hs.len, hmic] at hsp
    exact hsp

/-- Protection of a frame in one mbuf: only a MIC without room for it is in another one. -/
theorem cryptoEncap_spills {ν : Type} [DecidableEq ν] {ks : Keys ν} {n : ν} {r : EncapResult ν}
    {s : KeySlot ν} {hdr payload : List UInt8} {m' : Mbuf} {ms' : List Mbuf}
    (hf : TxFrame ks.datapad hdr payload m) (hp : 0 < payload.length)
    (hmax : payload.length ≤ ccmMax) (hr : cryptoEncap E h ks n m [] = some r)
    (hkey : r.key = some s) (hframe : r.frame = some (m' :: ms')) :
    if (ks.key s).wkFlags.swcrypt then Spilled h m 8 ms' else ms' = [] := by
  obtain ⟨m2, ms2, keyid, hframe2, -, -, hpkt, hbytes, -⟩ := cryptoEncap_frame hf hp hmax hr hkey
  cases hframe.symm.trans hframe2
  obtain ⟨keyid', h1, m1, ms1, k, frame, -, hspc, henc, hframe3⟩ := cryptoEncap_key hr hkey
  cases hframe.symm.trans hframe3
  have hb : bytes [m] = hdr ++ payload := (bytes_singleton m).trans hf.octets
  have hspace : hdrspace ks.datapad m.get = hdr.length := by
    have h24 := (hdrspace_bounds ks.datapad (hdrOf hdr)).1
    have hmlen := hf.mLen
    have hhdr := hf.hdrspace_eq
    rw [hhdr]
    exact hdrspace_congr (get_eq_hdrOf hb (by omega) (by omega))
      (get_eq_hdrOf hb (by omega) (by omega)) _
  obtain ⟨m3, hspc', -, hdata, hlen⟩ := @encapSpace_within m h _ _ _ hf
  rw [hspace, hspc'] at hspc
  cases hspc
  cases hsw : (ks.key s).wkFlags.swcrypt with
  | true =>
    have htot := congrArg List.length hbytes
    rw [length_protectedFrame, keyOverhead, hsw, length_bytes] at htot
    have hmlen := hf.mLen
    have hlead := hf.lead
    obtain ⟨m4, tl, hc, hsp⟩ := ccmpEncap_spills (by rw [htot, if_pos rfl]; omega) hsw henc
    cases hc
    rw [Spilled, hdata, hlen, show m.mData - 8 + (m.mLen + 8) = m.mData + m.mLen by omega] at hsp
    exact hsp
  | false =>
    rw [ccmpEncap] at henc
    dsimp only at henc
    rw [hsw] at henc
    cases henc
    rfl

namespace Iwm

/-! ## Places in memory -/

/-- The places in memory of a segment. -/
def DmaSeg.cells (seg : DmaSeg) : List (Nat × Nat) :=
  (range seg.len).map fun i => (seg.mbuf, seg.off + i)

/-- The places of the octets of a chain. -/
def chainCells (c : List Mbuf) : List (Nat × Nat) :=
  c.flatMap fun m => DmaSeg.cells ⟨m.addr, m.mData, m.mLen⟩

variable {m : Mbuf} {ms : List Mbuf}

theorem length_chainCells (c : List Mbuf) : (chainCells c).length = mLength c := by
  simp [chainCells, DmaSeg.cells, mLength, length_flatMap]

theorem cells_octets {mem : Nat → Nat → UInt8} {c : List Mbuf}
    (hmem : ∀ n ∈ c, mem n.addr = n.mCluster) :
    (chainCells c).map (fun p => mem p.1 p.2) = bytes c := by
  rw [chainCells, bytes, List.map_flatMap]
  refine List.flatMap_congr fun n hn => ?_
  refine ext_getElem (by simp [DmaSeg.cells]) fun i _ hi => ?_
  have hget := getElem?_window n.mCluster n.mLen n.mData i (by simpa using hi)
  simp [DmaSeg.cells, Mbuf.bytes, hmem n hn, (List.getElem?_eq_some_iff.mp hget).2]

/-- One segment at the data of the first mbuf is the chain if the others are empty. -/
theorem cells_eq_chainCells_iff (haddr : ∀ n ∈ ms, n.addr ≠ m.addr) (len : Nat) :
    DmaSeg.cells ⟨m.addr, m.mData, len⟩ = chainCells (m :: ms) ↔
      len = mLength (m :: ms) ∧ ∀ n ∈ ms, n.mLen = 0 := by
  constructor
  · intro h
    refine ⟨by simpa [DmaSeg.cells, length_chainCells] using congrArg length h, fun n hn => ?_⟩
    by_contra hpos
    have hcell : (n.addr, n.mData) ∈ chainCells (m :: ms) := by
      refine mem_flatMap.mpr ⟨n, mem_cons_of_mem _ hn, mem_map.mpr ⟨0, ?_, rfl⟩⟩
      exact mem_range.mpr (Nat.pos_of_ne_zero hpos)
    rw [← h] at hcell
    obtain ⟨i, -, hi⟩ := mem_map.mp hcell
    exact haddr n hn (congrArg Prod.fst hi).symm
  · rintro ⟨rfl, hempty⟩
    have hrest : chainCells ms = [] := by
      rw [← List.length_eq_zero_iff, length_chainCells, mLength, List.sum_eq_zero_iff_forall_eq_nat]
      simpa using hempty
    have hlen : mLength ms = 0 := by rw [← length_chainCells, hrest]; rfl
    rw [mLength_cons, hlen, chainCells, flatMap_cons]
    exact (append_nil _).symm.trans (congrArg _ hrest.symm)

/-- What the map of a packet and the entries of its descriptor cover. -/
structure Mapped (segs : List DmaSeg) (m : Mbuf) (ms : List Mbuf) : Prop where
  covers : segs.flatMap DmaSeg.cells = chainCells (m :: ms) ↔ ∀ n ∈ ms, n.mLen = 0
  fetches : (payloadTbs segs).flatMap DmaSeg.cells = chainCells (m :: ms) ↔
    mLength (m :: ms) < 2 ^ 12 ∧ ∀ n ∈ ms, n.mLen = 0
  length : ((payloadTbs segs).flatMap DmaSeg.cells).length = mLength (m :: ms) % 2 ^ 12

theorem busDmamapLoadMbuf_mapped (hpkt : Pkt (m :: ms)) (haddr : ∀ n ∈ ms, n.addr ≠ m.addr) :
    ∃ segs, busDmamapLoadMbuf m = .ok segs ∧ Mapped segs m ms := by
  rw [busDmamapLoadMbuf, if_pos hpkt.1, hpkt.2]
  refine ⟨_, rfl, ?_, ?_, ?_⟩
  · rw [flatMap_singleton, cells_eq_chainCells_iff haddr, and_iff_right rfl]
  · rw [payloadTbs, map_singleton, flatMap_singleton, cells_eq_chainCells_iff haddr]
    exact and_congr_left fun _ => ⟨fun h => by omega, Nat.mod_eq_of_lt⟩
  · simp [payloadTbs, DmaSeg.cells]

variable {ν : Type} [DecidableEq ν] {sc sc' : TxSoftc ν} {n : ν} {ac hdrlen : Nat}

/-- What `iwm_tx` tells the device of a packet, and what it keeps in the ring. -/
structure Posted (sc sc' : TxSoftc ν) (n : ν) (ac : Nat) (octets : List UInt8) (cmd : TxCmd)
    (m : Mbuf) (ms : List Mbuf) : Prop where
  sent : sc'.sent = sc.sent ++ [cmd]
  ring : (sc'.txq ac).data cmd.idx = some (n, m :: ms)
  octets : cmd.hdr ++ bytes (m :: ms) = octets
  mapped : Mapped cmd.segs m ms

omit [DecidableEq ν] in
theorem txMap_posted (sc : TxSoftc ν) (n : ν) (ac : Nat) (hpkt : Pkt (m :: ms))
    (hl : hdrlen < m.mLen) (haddr : ∀ n ∈ ms, n.addr ≠ m.addr) :
    ∃ cmd m₁, cmd.hdr.length = hdrlen ∧ Posted sc
      (txMap busDmamapLoadMbuf sc n ac hdrlen m ms).1 n ac (bytes (m :: ms)) cmd m₁ ms := by
  have hadj : mAdj (m :: ms) hdrlen = _ := mAdj_within hpkt.1 hl
  have hbytes := bytes_mAdj_head (m :: ms) hdrlen
  have hpkt' : Pkt (mAdj (m :: ms) hdrlen) := mAdj_pkt hpkt.1 hdrlen
  rw [hadj] at hbytes hpkt'
  obtain ⟨segs, hload, hmapped⟩ := busDmamapLoadMbuf_mapped hpkt' haddr
  rw [txMap, hadj, txLoad, hload]
  refine ⟨_, _, length_window _ _ _, rfl, ?_, ?_, hmapped⟩
  · simp only [txKick, Function.update_self]
  · rw [hbytes, window_get_eq_bytes ms (by omega), drop_zero, take_append_drop]

variable {E : BlockCipher} {ic : Ic ν} {frame hdr : List UInt8}

/-- The MIC of a frame, if software makes one, is in the cluster. -/
def MicFits (ic : Ic ν) (n : ν) (frame : List UInt8) : Prop :=
  txOverhead ic n frame = 16 → (txPayload ic n frame).length ≤ 4082

/-- `iwm_tx` for the frame of a packet. -/
theorem iwmTx_port {error : Bool} (hf : PortFrame ic n frame hdr m)
    (hpos : 0 < (txPayload ic n frame).length) (hmax : (txPayload ic n frame).length ≤ ccmMax)
    (hkeys : sc.ic.icKeys = ic.icKeys) (hpad : ic.icKeys.datapad = false)
    (haddr : m.addr < sc.heap.next)
    (ht : iwmTx E busDmamapLoadMbuf sc n m [] ac = some (sc', error)) :
    sc'.sent = sc.sent ∨ ∃ cmd m₁ ms₁ octets, cmd.hdr.length = encapHdrsize ic n frame ∧
      TxHolds E ic n frame octets ∧ Posted sc sc' n ac octets cmd m₁ ms₁ ∧
      ((∀ n ∈ ms₁, n.mLen = 0) ↔ MicFits ic n frame) := by
  have hbounds := hdrspace_bounds ic.icKeys.datapad (hdrOf hdr)
  rw [← hf.hdrspace_eq] at hbounds
  have hmlen := hf.mLen
  have hplace := hf.place
  have hb : bytes [m] = hdr ++ txPayload ic n frame := (bytes_singleton m).trans hf.octets
  have hget : ∀ i < 24, m.get i = hdrOf hdr i := fun i hi => get_eq_hdrOf hb (by omega) (by omega)
  have hdrlen : anyhdrsize m.get = hdr.length := by
    rw [anyhdrsize, hget 0 (by decide), hf.data, if_neg (by decide), hf.hdrspace_eq, hpad]
    exact hdrspace_congr (hget 0 (by decide)) (hget 1 (by decide)) false
  have hwep := hf.wep
  rw [iwmTx, hdrlen, hget 1 (by decide)] at ht
  split at ht
  · next hclear =>
    rw [beq_iff_eq] at hclear
    rw [hclear] at hwep
    have hshort : hdr.length < m.mLen := by omega
    obtain ⟨cmd, m₁, hlen, hposted⟩ := txMap_posted sc n ac hf.pkt hshort (by simp)
    rw [Option.some.inj ht, hb] at hposted
    refine .inr ⟨cmd, m₁, [], _, hlen.trans hf.len, .clear hf.len hf.hdrspace_eq hclear hwep.symm,
      hposted, ?_⟩
    have hover : txOverhead ic n frame = 0 := by rw [txOverhead, ← hwep]; rfl
    simp [MicFits, hover]
  next hset =>
  rw [beq_iff_eq] at hset
  rw [bne_iff_ne.mpr hset] at hwep
  split at ht
  · cases ht
  next r hr =>
  rw [hkeys] at hr
  dsimp only at ht
  split at ht
  · next s m' ms' hkey hframe =>
    obtain ⟨haddr', ht⟩ := ite_none_right_eq_some.mp ht
    obtain ⟨m1, ms1, keyid, hframe', -, hslot, hpkt, hbytes, -⟩ :=
      cryptoEncap_frame hf.toTxFrame hpos hmax hr hkey
    cases hframe.symm.trans hframe'
    have hspill := cryptoEncap_spills hf.toTxFrame hpos hmax hr hkey hframe
    have hlen := congrArg List.length hbytes
    rw [length_protectedFrame, length_bytes, mLength_cons] at hlen
    have hover : txOverhead ic n frame = keyOverhead (ic.icKeys.key s) := by
      rw [txOverhead, ← hwep, ← hf.addr1, hslot]
      rfl
    have htail : ((∀ n ∈ ms', n.mLen = 0) ↔ MicFits ic n frame) ∧ mLength ms' ≤ 8 ∧
        ∀ n ∈ ms', n.addr ≠ m'.addr := by
      rw [MicFits, hover, keyOverhead]
      rw [Spilled, mClusterSize, mclbytes, mhAlign] at hspill
      rw [mhAlign] at hplace
      split at hspill
      · next hsw =>
        rw [if_pos hsw, imp_iff_right rfl]
        split at hspill
        · subst hspill
          exact ⟨by simp; omega, Nat.zero_le _, by simp⟩
        · obtain ⟨k, rfl, hk, hk0, hk8⟩ := hspill
          have hne : k.addr ≠ m'.addr := by omega
          simp only [mem_singleton, forall_eq, mLength_cons]
          refine ⟨⟨fun h => by omega, fun h => by omega⟩, hk8, hne⟩
      · next hsw =>
        subst hspill
        rw [if_neg hsw]
        exact ⟨by simp, Nat.zero_le _, by simp⟩
    have hshort : hdr.length < m'.mLen := by
      rw [keyOverhead] at hlen
      split at hlen <;> omega
    obtain ⟨cmd, m₁, hcmd, hposted⟩ := txMap_posted
      { sc with heap := r.heap, ic := { sc.ic with icKeys := r.keys } } n ac hpkt hshort htail.2.2
    rw [Option.some.inj ht, hbytes] at hposted
    exact .inr ⟨cmd, m₁, ms', _, hcmd.trans hf.len,
      .sealed hf.len hf.hdrspace_eq hset hwep.symm hf.addr1 hslot,
      ⟨hposted.sent, hposted.ring, hposted.octets, hposted.mapped⟩, htail.1⟩
  · cases ht
    exact .inl rfl

end Iwm

/-! ## From the port to the ring -/

/-- A category changes neither `M_PKTHDR` nor `M_FF`. -/
theorem setacFlags_and (flags : UInt32) (ac : Nat) {x : UInt32} (hx : x = mPkthdr ∨ x = mFf) :
    setacFlags flags ac &&& x = flags &&& x := by
  apply UInt32.eq_of_toBitVec_eq
  ext i hi
  rcases hx with rfl | rfl <;> interval_cases i <;>
    simp [setacFlags, mWmeAcMask, mLink1, mLink2, mPkthdr, mFf]

variable {frame : List UInt8}

theorem PortPacket.setac (hp : PortPacket frame m) (ac : Nat) :
    PortPacket frame (wmeSetac m ac) := by
  refine ⟨hp.min, hp.max, hp.octets, hp.data, ?_, ?_, hp.pkthdrLen⟩
  · rw [← hp.hasPkthdr, Mbuf.hasPkthdr, Mbuf.hasPkthdr, wmeSetac,
      setacFlags_and _ _ (.inl rfl)]
  · rw [← hp.whole, wmeSetac, setacFlags_and _ _ (.inr rfl)]

/-- What the port puts at the end of the queue. -/
theorem portXmitEnqueue_packet {ν : Type} {rx rx' : Rx ν} {len : Nat}
    (hx : portXmitEnqueue rx frame = (rx', some len)) :
    rx'.ic = rx.ic ∧
      ∃ m, rx'.ifSnd = rx.ifSnd ++ [[m]] ∧ PortPacket frame m ∧ m.addr < rx'.heap.next := by
  rw [portXmitEnqueue] at hx
  split at hx
  · cases hx
  next hlen =>
  rw [not_or, Nat.not_lt, Nat.not_lt] at hlen
  rw [mGetImpl] at hx
  cases halloc : rx.heap.alloc rx.heap.next with
  | none =>
    rw [halloc] at hx
    cases hx
  | some cl =>
    rw [halloc] at hx
    cases hx
    exact ⟨rfl, _, rfl, .of_flags hlen.1 hlen.2 (window_store_same _ _ _) rfl rfl rfl,
      Nat.lt_succ_self _⟩

variable {ν : Type} [DecidableEq ν] {n : ν} {adhoc : Option ν}

theorem rxFindTxnode_sized (rx : Rx ν) (macaddr : List UInt8)
    (hs : ∀ n, (rx.ic.icNode n).niBssid.length = 6) :
    (rxFindTxnode rx adhoc macaddr).1.heap = rx.heap ∧
      (rxFindTxnode rx adhoc macaddr).1.ic.icKeys.datapad = rx.ic.icKeys.datapad ∧
      ∀ n, ((rxFindTxnode rx adhoc macaddr).1.ic.icNode n).niBssid.length = 6 := by
  rw [rxFindTxnode.eq_def]
  split
  · exact ⟨rfl, rfl, hs⟩
  split
  · exact ⟨rfl, rfl, hs⟩
  split
  · split
    · exact ⟨rfl, rfl, hs⟩
    next n' =>
    refine ⟨rfl, rfl, fun n => ?_⟩
    show (Function.update rx.ic.icNode n' _ n).niBssid.length = 6
    by_cases hn : n = n'
    · rw [hn, Function.update_self]
      exact hs _
    · rw [Function.update_of_ne hn]
      exact hs n
  · exact ⟨rfl, rfl, hs⟩

namespace Iwm

variable {sc sc' : TxSoftc ν} {E : BlockCipher} {inet : Bool}

/-- A packet of the port that was taken from the queue and sent. -/
theorem startSend_port (hp : PortPacket frame m) (haddr : m.addr < sc.heap.next)
    (hs : ∀ n, (sc.ic.icNode n).niBssid.length = 6) (hpad : sc.ic.icKeys.datapad = false)
    (hr : startSend E inet busDmamapLoadMbuf adhoc sc m [] = some sc') :
    sc'.sent = sc.sent ∨ ∃ rx n ac cmd m₁ ms₁ octets,
      rxFindTxnode sc.toRx adhoc (etherHeaderOf frame).etherDhost = (rx, some n) ∧
      (txFragments rx.ic n frame = true → encapHdrsize rx.ic n frame +
        (encapCipher rx.ic n frame).icHeader < rx.ic.icFragthreshold.toNat) ∧
      cmd.hdr.length = encapHdrsize rx.ic n frame ∧ TxHolds E rx.ic n frame octets ∧
      Posted sc sc' n ac octets cmd m₁ ms₁ ∧
      ((∀ n ∈ ms₁, n.mLen = 0) ↔ MicFits rx.ic n frame) := by
  rw [startSend, startEncap, pullupTo, if_neg (by rw [hp.mLen]; exact Nat.not_lt.mpr hp.min)] at hr
  simp only [hp.etherHeader, show sc.setHeap sc.heap = sc from rfl] at hr
  obtain ⟨hheap, hpad', hs'⟩ :=
    @rxFindTxnode_sized _ _ adhoc sc.toRx (etherHeaderOf frame).etherDhost hs
  generalize hfind : rxFindTxnode sc.toRx adhoc (etherHeaderOf frame).etherDhost = r
    at hr hheap hpad' hs'
  obtain ⟨rx, n⟩ := r
  cases n with
  | none => cases hr; exact .inl rfl
  | some n =>
    dsimp only at hr hheap hpad' hs'
    rw [classify] at hr
    generalize classifyAc inet sc.wmeAcm rx.ic.icOpmode (rx.ic.icNode n).niQos (sc.niVlan n)
      (sc.csumData m.addr) m = ac at hr
    cases ac with
    | none => cases hr; exact .inl rfl
    | some ac =>
      simp only [Option.map_some] at hr
      cases he : encap rx.heap rx.ic n (wmeSetac m ac) [] with
      | none => rw [he] at hr; cases hr
      | some out =>
        obtain ⟨h', ic', frames⟩ := out
        rw [he] at hr
        rcases frames with _ | _ | ⟨_ | ⟨m1, ms1⟩, rest⟩
        · cases hr; exact .inl rfl
        · cases hr; exact .inl rfl
        · cases hr; exact .inl rfl
        · obtain ⟨hkeys, hnext, -, hfrag, m2, hdr, hc, haddr', hframe⟩ :=
            encap_first (hp.setac ac) hs' he
          cases hc
          obtain ⟨hpos, hmax⟩ := txPayload_bounds hp hfrag
          dsimp only [sendit] at hr
          obtain ⟨⟨sc1, error⟩, ht, rfl⟩ := Option.map_eq_some_iff.mp hr
          have hcase := iwmTx_port hframe hpos hmax hkeys (hpad'.trans hpad)
            (haddr'.trans_lt (haddr.trans_le (hheap ▸ hnext))) ht
          have hsent : (if error then sc1.countError else sc1).sent = sc1.sent ∧
              (if error then sc1.countError else sc1).txq = sc1.txq := by
            cases error <;> exact ⟨rfl, rfl⟩
          rcases hcase with heq | ⟨cmd, m₁, ms₁, octets, hlen, hholds, hposted, hfits⟩
          · exact .inl (hsent.1.trans heq)
          · exact .inr ⟨rx, n, _, cmd, m₁, ms₁, octets, rfl, hfrag, hlen, hholds,
              ⟨hsent.1.trans hposted.sent, hsent.2 ▸ hposted.ring, hposted.octets, hposted.mapped⟩,
              hfits⟩

/-- What the device reads for a command from a memory. -/
def TxCmd.fetched (mem : Nat → Nat → UInt8) (cmd : TxCmd) : List UInt8 :=
  ((payloadTbs cmd.segs).flatMap DmaSeg.cells).map fun p => mem p.1 p.2

/-- A frame that `wlan_port_xmit_iwm` has accepted and a later round of `iwm_start` sends. The map
covers exactly the octets behind the header unless these are more than 4098 and a MIC is among
them; the device fetches exactly these octets if they are less than 4096. -/
theorem dmamap_fetches_iff {rx₀ rx₁ : Rx ν} {len : Nat} {rest : List (List Mbuf)} {go : Bool}
    (hport : portXmitEnqueue rx₀ frame = (rx₁, some len)) (hm : rx₁.ifSnd = rx₀.ifSnd ++ [[m]])
    (hlater : rx₁.heap.next ≤ sc.heap.next) (hs : ∀ n, (sc.ic.icNode n).niBssid.length = 6)
    (hpad : sc.ic.icKeys.datapad = false) (hmgtq : sc.mgtq = []) (hsnd : sc.ifSnd = [m] :: rest)
    (hround : iwmStartRound E inet busDmamapLoadMbuf adhoc sc = some (sc', go))
    (hsent : sc'.sent ≠ sc.sent) : ∃ rx n ac cmd c,
      rxFindTxnode { sc.toRx with ifSnd := rest } adhoc (etherHeaderOf frame).etherDhost =
        (rx, some n) ∧
      sc'.sent = sc.sent ++ [cmd] ∧ (sc'.txq ac).data cmd.idx = some (n, c) ∧
      TxHolds E rx.ic n frame (cmd.hdr ++ bytes c) ∧
      (cmd.segs.flatMap DmaSeg.cells = chainCells c ↔ (txOverhead rx.ic n frame = 16 →
        txLength rx.ic n frame ≤ encapHdrsize rx.ic n frame + 4098)) ∧
      ((payloadTbs cmd.segs).flatMap DmaSeg.cells = chainCells c ↔
        txLength rx.ic n frame < encapHdrsize rx.ic n frame + 4096) ∧
      ∀ mem : Nat → Nat → UInt8, (∀ k ∈ c, mem k.addr = k.mCluster) → (cmd.fetched mem = bytes c ↔
        txLength rx.ic n frame < encapHdrsize rx.ic n frame + 4096) := by
  obtain ⟨-, m', hm', hp, haddr⟩ := portXmitEnqueue_packet hport
  obtain rfl : m = m' := by simpa [hm] using hm'
  cases iwmStartRound_move hround with
  | full => exact absurd rfl hsent
  | idle => exact absurd rfl hsent
  | mgmt hq => cases hmgtq.symm.trans hq
  | packet _ _ hq hsend =>
    cases hsnd.symm.trans hq
    rcases startSend_port hp (by exact haddr.trans_le hlater) (by exact hs)
      (by exact hpad) hsend with
      heq | ⟨rx, n, ac, cmd, m₁, ms₁, octets, hfind, hfrag, hlen, hholds, hposted, hfits⟩
    · exact absurd heq hsent
    have htotal := hholds.length
    have htx := hholds.txLength_eq hp.min hfrag
    have hbody : encapHdrsize rx.ic n frame + mLength (m₁ :: ms₁) = txLength rx.ic n frame := by
      rw [← htx, ← hposted.octets, length_append, hlen, length_bytes]
    have hshort : mLength (m₁ :: ms₁) < 2 ^ 12 ↔
        txLength rx.ic n frame < encapHdrsize rx.ic n frame + 4096 := by omega
    have hcover : (∀ k ∈ ms₁, k.mLen = 0) ↔ (txOverhead rx.ic n frame = 16 →
        txLength rx.ic n frame ≤ encapHdrsize rx.ic n frame + 4098) :=
      hfits.trans (forall_congr' fun h16 => by omega)
    have hfetch : (payloadTbs cmd.segs).flatMap DmaSeg.cells = chainCells (m₁ :: ms₁) ↔
        txLength rx.ic n frame < encapHdrsize rx.ic n frame + 4096 := by
      rw [hposted.mapped.fetches, hcover, hshort]
      exact and_iff_left_of_imp fun h _ => by omega
    refine ⟨rx, n, ac, cmd, m₁ :: ms₁, hfind, hposted.sent, hposted.ring,
      hposted.octets.symm ▸ hholds, hposted.mapped.covers.trans hcover, hfetch, fun mem hmem => ?_⟩
    constructor
    · intro heq
      have := congrArg List.length heq
      rw [TxCmd.fetched, length_map, hposted.mapped.length, length_bytes] at this
      omega
    · intro h
      rw [TxCmd.fetched, hfetch.mpr h, cells_octets hmem]

/-- A station with a CCMP key in software. -/
def softStation (thr : UInt16) : TxSoftc Unit :=
  { toRx := { openStation with
      heap := softHeap
      ic := { stationWith .ccmp with icFragthreshold := thr, icKeys := softKeys } }
    running := true, oactive := false, mgtq := [], qfullmsk := 0
    txq := fun qid => { qid, cur := 0, queued := 0, data := fun _ => none }
    niVlan := fun _ => 0, wmeAcm := fun _ => false, csumData := fun _ => 0
    oerrors := 0, sent := [] }

/-- The longest frame for which all is well has 4095 octets behind the header. -/
theorem dmamap_fetches_sample : ∃ rx₁ sc' go ac cmd c,
    portXmitEnqueue (softStation 5000).toRx (numberedEther 4071) = (rx₁, some 4085) ∧
      iwmStartRound (fun _ b => b) false busDmamapLoadMbuf none
        { softStation 5000 with toRx := rx₁ } = some (sc', go) ∧
      sc'.sent = [cmd] ∧ (sc'.txq ac).data cmd.idx = some ((), c) ∧
      (payloadTbs cmd.segs).flatMap DmaSeg.cells = chainCells c := by
  have hlen : (portXmitEnqueue (softStation 5000).toRx (numberedEther 4071)).2 = some 4085 := by
    decide +kernel
  have hrun : (iwmStartRound (fun _ b => b) false busDmamapLoadMbuf none { softStation 5000 with
      toRx := (portXmitEnqueue (softStation 5000).toRx (numberedEther 4071)).1 }).map
        (fun r => r.1.sent.length) = some 1 := by
    decide +kernel
  have hfits : txLength (softStation 5000).ic () (numberedEther 4071) <
      encapHdrsize (softStation 5000).ic () (numberedEther 4071) + 4096 := by
    decide +kernel
  obtain ⟨⟨rx₁, len⟩, hport⟩ :
    ∃ x, portXmitEnqueue (softStation 5000).toRx (numberedEther 4071) = x :=
    ⟨_, rfl⟩
  rw [hport] at hlen hrun
  cases hlen
  obtain ⟨hic, m, hm, -⟩ := portXmitEnqueue_packet hport
  obtain ⟨⟨sc', go⟩, hround, hsent⟩ := Option.map_eq_some_iff.mp hrun
  have hne : sc'.sent ≠ [] := fun h => by rw [h] at hsent; cases hsent
  obtain ⟨rx, n, ac, cmd, c, hfind, hcmd, hring, -, -, hfetch, -⟩ := dmamap_fetches_iff hport hm
    (Nat.le_refl _) (by rw [hic]; exact fun _ => rfl) (by rw [hic]; rfl) rfl hm hround hne
  rw [rxFindTxnode, if_pos (.inl (congrArg Ic.icOpmode hic))] at hfind
  cases hfind
  rw [hic] at hfetch
  exact ⟨rx₁, sc', go, ac, cmd, c, hport, hround, hcmd, hring, hfetch.mpr hfits⟩

/-- A frame of 4096 octets fills its cluster: the MIC is in another mbuf, which the map does not
have, and of 4106 octets the descriptor asks for ten. -/
theorem dmamap_without_mic : ∃ sc' cmd m n,
    wlanPortXmitIwm (fun _ b => b) false busDmamapLoadMbuf (fun _ => none) (softStation 5000)
        (numberedEther 4082) = some (sc', some 4096) ∧
      sc'.sent = [cmd] ∧ (sc'.txq 0).data cmd.idx = some ((), [m, n]) ∧ n.mLen = 8 ∧
      cmd.segs.flatMap DmaSeg.cells ≠ chainCells [m, n] ∧
      ((payloadTbs cmd.segs).flatMap DmaSeg.cells).length = 10 := by
  have hrun : (wlanPortXmitIwm (fun _ b => b) false busDmamapLoadMbuf (fun _ => none)
      (softStation 5000) (numberedEther 4082)).map (fun r => decide (r.2 = some 4096 ∧
        r.1.sent.map (fun cmd => (cmd.idx, cmd.segs)) = [(0, [⟨10, 254, 4106⟩])] ∧
        ((r.1.txq 0).data 0).map (fun x => x.2.map fun m => (m.addr, m.mData, m.mLen)) =
          some [(10, 254, 4098), (11, 0, 8)])) = some true := by
    decide +kernel
  obtain ⟨⟨sc', len⟩, hr, hshape⟩ := Option.map_eq_some_iff.mp hrun
  obtain ⟨rfl, hsent, hring⟩ := of_decide_eq_true hshape
  obtain ⟨cmd, hcmd, hsegs⟩ := map_eq_singleton_iff.mp hsent
  obtain ⟨hidx, hsegs⟩ := Prod.mk.inj hsegs
  obtain ⟨⟨u, c⟩, hdata, hc⟩ := Option.map_eq_some_iff.mp hring
  obtain ⟨m, tl, rfl, hm, htl⟩ := map_eq_cons_iff.mp hc
  obtain ⟨n, rfl, hn⟩ := map_eq_singleton_iff.mp htl
  simp only [Prod.mk.injEq] at hm hn
  have hne : ∀ k ∈ [n], k.addr ≠ m.addr := by simp [hm.1, hn.1]
  refine ⟨sc', cmd, m, n, hr, hcmd, hidx ▸ hdata, hn.2.2, ?_, ?_⟩
  · rw [hsegs, ← hm.1, ← hm.2.1, flatMap_singleton, Ne, cells_eq_chainCells_iff hne]
    simp [hn.2.2]
  · rw [hsegs]
    decide

end Iwm

end Net80211
