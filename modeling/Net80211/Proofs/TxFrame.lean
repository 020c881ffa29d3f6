import Net80211.Proofs.EncapDecap

/-!
# Frames in one mbuf

What `ieee80211_encap`, fragmentation and `ieee80211_crypto_encap` make of a packet
that lies in one mbuf with room in front of it, as the port hands packets over. The
frame stays in that mbuf: it is a header of known length and a payload (`TxFrame`),
and protection adds the cipher header, the MIC and at most the mbufs for it.
-/

namespace Net80211

open Lib Crypto List Option

/-- One mbuf that holds a frame: the header, and `payload` behind it, with room for a
cipher header in front. -/
structure TxFrame (datapad : Bool) (hdr payload : List UInt8) (m : Mbuf) : Prop where
  octets : m.bytes = hdr ++ payload
  hdrspace_eq : hdr.length = hdrspace datapad (hdrOf hdr)
  lead : 8 ≤ m.mData
  pkthdr : m.hasPkthdr = true
  pkthdrLen : m.pkthdrLen = m.mLen

variable {m : Mbuf}

theorem TxFrame.mLen {datapad : Bool} {hdr payload : List UInt8}
    (h : TxFrame datapad hdr payload m) : m.mLen = hdr.length + payload.length := by
  rw [← Mbuf.length_bytes, h.octets, length_append]

theorem TxFrame.pkt {datapad : Bool} {hdr payload : List UInt8}
    (h : TxFrame datapad hdr payload m) : Pkt [m] :=
  ⟨h.pkthdr, by rw [h.pkthdrLen, mLength_cons]; rfl⟩

/-! ## Encapsulation -/

/-- A packet as the port queues it: an Ethernet frame in one new mbuf, whatever category it was
given since. -/
structure PortPacket (frame : List UInt8) (m : Mbuf) : Prop where
  min : 14 ≤ frame.length
  max : frame.length ≤ mclbytes
  octets : m.bytes = frame
  data : m.mData = mhAlign
  hasPkthdr : m.hasPkthdr = true
  whole : m.mFlags &&& mFf = 0
  pkthdrLen : m.pkthdrLen = m.mLen

variable {frame : List UInt8}

theorem PortPacket.mLen (hp : PortPacket frame m) : m.mLen = frame.length := by
  rw [← hp.octets, Mbuf.length_bytes]

theorem PortPacket.of_flags (hmin : 14 ≤ frame.length) (hmax : frame.length ≤ mclbytes)
    (hb : m.bytes = frame) (hd : m.mData = mhAlign) (hf : m.mFlags = mPkthdr ||| mExt)
    (hl : m.pkthdrLen = m.mLen) : PortPacket frame m := by
  refine ⟨hmin, hmax, hb, hd, ?_, ?_, hl⟩
  · rw [Mbuf.hasPkthdr, hf]
    decide
  · rw [hf]
    decide

theorem PortPacket.etherHeader (hp : PortPacket frame m) : etherHeader m = etherHeaderOf frame := by
  rw [etherHeader_eq [] (by rw [hp.mLen]; exact hp.min), bytes_singleton, hp.octets]

theorem PortPacket.dhost (hp : PortPacket frame m) :
    (etherHeaderOf frame).etherDhost.length = 6 := by
  have := hp.min
  rw [etherHeaderOf, length_take]
  omega

variable {ν : Type} [DecidableEq ν] {ic ic' : Ic ν} {n : ν} {frames : List (List Mbuf)}

/-- Is the frame fragmented? -/
def txFragments (ic : Ic ν) (n : ν) (frame : List UInt8) : Bool :=
  encapHdrsize ic n frame + (llcPayload frame).length > ic.icFragthreshold.toNat &&
    !isMulticast (encapAddr1 ic n frame)

/-- A packet of the port behind `ieee80211_encap`: one mbuf that holds the frame, and
what fragmentation makes of it. -/
theorem encap_port {h h' : Heap} (hp : PortPacket frame m)
    (hb : ∀ n, (ic.icNode n).niBssid.length = 6)
    (he : encap h ic n m [] = some (h', ic', some frames)) :
    ic'.icKeys = ic.icKeys ∧ ∃ m₁ hdr, hdr.length = encapHdrsize ic n frame ∧
      TxFrame ic.icKeys.datapad hdr (llcPayload frame) m₁ ∧ m₁.addr = m.addr ∧
      m₁.mData + hdr.length = mhAlign + 6 ∧ hdrOf hdr 0 &&& fc0TypeMask = fc0TypeData ∧
      hdrOf hdr 4 = encapAddr1 ic n frame ∧ if txFragments ic n frame then
        fragment h m₁ [] (encapHdrsize ic n frame) (encapCipher ic n frame).icHeader
          ic.icFragthreshold.toNat = some (h', some frames) else h' = h ∧ frames = [[m₁]] := by
  have hbounds := encapHdrsize_bounds ic n frame
  have hcip : (encapCipher ic n frame).icHeader ≤ 8 := by cases encapCipher ic n frame <;> decide
  have hbytes : bytes [m] = frame := (bytes_singleton m).trans hp.octets
  have hpkt : Pkt [m] := ⟨hp.hasPkthdr, by rw [hp.pkthdrLen, mLength_cons]; rfl⟩
  obtain ⟨hkeys, h1, f, fs, dir, addrs, ha, henc, hhead, hfrag⟩ :=
    encap_chain hb hpkt (by rw [hp.mLen]; exact hp.min) he
  rw [hbytes] at ha henc hhead hfrag
  rcases hhead with ⟨rfl, haddr, hflags, rfl, -, hdata⟩ | ⟨-, -, hroom⟩
  swap
  · rw [LacksRoom, hp.data, mhAlign] at hroom
    omega
  have hcont := henc.contiguous
  have hlen : ((bytes [f]).take (encapHdrsize ic n frame)).length = encapHdrsize ic n frame := by
    rw [length_take, length_bytes, mLength_cons]
    omega
  have hoct : bytes [f] = (bytes [f]).take (encapHdrsize ic n frame) ++ llcPayload frame := by
    rw [← henc.octets, take_append_drop]
  have hget : ∀ i < 24, f.get i = hdrOf ((bytes [f]).take (encapHdrsize ic n frame)) i :=
    fun i hi => get_eq_hdrOf hoct (by omega) (by omega)
  have hspace := (henc.addressed ha).hdrspace ha
  rw [hdrspace_congr (get_eq_bytes [] (by omega)).symm (get_eq_bytes [] (by omega)).symm,
    hdrspace_congr (hget 0 (by decide)) (hget 1 (by decide))] at hspace
  have hA : encapAddr1 ic n frame = addrs.headD 0 := by rw [encapAddr1, ha]
  have h4 : f.get 4 = addrs.headD 0 := congrArg (·.headD 0) henc.addrs
  have htx : (decide (f.pkthdrLen > ic.icFragthreshold.toNat) && !isMulticast (addrs.headD 0) &&
      f.mFlags &&& mFf == 0) = txFragments ic n frame := by
    have hff : (f.mFlags &&& mFf == 0) = true := by
      rw [hflags, hp.whole]
      decide
    rw [hff, Bool.and_true, txFragments, hA, henc.pkt.2, ← length_bytes, hoct, length_append, hlen]
  rw [htx] at hfrag
  refine ⟨hkeys, f, _, hlen, ⟨(bytes_singleton f).symm.trans hoct, hlen.trans hspace.symm, ?_,
    henc.pkt.1, ?_⟩, haddr, ?_, ?_, ?_, hfrag⟩
  · rw [hp.data, mhAlign] at hdata
    omega
  · rw [henc.pkt.2, mLength_cons]
    rfl
  · rw [hlen, hdata, hp.data]
  · rw [← hget 0 (by decide), henc.fc0]
    cases encapQos ic n frame <;> decide
  · rw [← hget 4 (by decide), h4, hA]

/-! ## The first fragment -/

section Fragment

variable {hdr : List UInt8} {mtu : Nat}

theorem hdrspace_fragHdr (hl : 2 ≤ hdr.length) (datapad : Bool) :
    hdrspace datapad (hdrOf (fragHdr hdr)) = hdrspace datapad (hdrOf hdr) := by
  have hq : hasQos (hdrOf (fragHdr hdr)) = hasQos (hdrOf hdr) := by
    rw [hasQos, hasQos, hdrOf_fragHdr hl]
    rfl
  have h4 : is4Address (hdrOf (fragHdr hdr)) = is4Address (hdrOf hdr) := by
    rw [is4Address, is4Address, hdrOf_fragHdr hl, if_pos rfl, or_and_eq]
    rw [show fc1MoreFrag &&& fc1DirMask = 0 from rfl, UInt8.or_zero]
  rw [hdrspace, hdrspace, hdrsize, hdrsize, hq, h4]

/-- The frame that `ieee80211_fragment` returns: what fits of the packet, in the same
mbuf. The other fragments follow it. -/
theorem fragment_first {datapad : Bool} {h h' : Heap} {payload : List UInt8} {cip : Nat}
    (hf : TxFrame datapad hdr payload m) (hlen : mtu < hdr.length + payload.length)
    (he : fragment h m [] hdr.length cip mtu = some (h', some frames)) :
    hdr.length + cip < mtu ∧ h.next ≤ h'.next ∧ ∃ m₁ rest, frames = [m₁] :: rest ∧
      m₁.addr = m.addr ∧ m₁.mData = m.mData ∧
      TxFrame datapad (fragHdr hdr) (payload.take (mtu - cip - hdr.length)) m₁ := by
  have h24 := (hdrspace_bounds datapad (hdrOf hdr)).1
  rw [← hf.hdrspace_eq] at h24
  have hmlen := hf.mLen
  have hb : bytes [m] = hdr ++ payload := (bytes_singleton m).trans hf.octets
  have hlong : mtu < mLength [m] := by rwa [← length_bytes, hb, length_append]
  have hmtu := fragment_mtu hf.pkt hlong he
  have hwin : window m.get 0 hdr.length = hdr := by
    rw [window_get_eq_bytes [] (by omega), drop_zero, hb, take_left]
  have hfit : mtu - (hdr.length + cip) = mtu - cip - hdr.length := by omega
  rcases fragment_spec hf.pkt h24 (by omega) hmtu hlong with
    ⟨k, -, hfail⟩ | ⟨m1, ms1, frags, hrun, hfirst, -, -, hms⟩
  · rw [hfail] at he
    cases he
  rw [hrun] at he
  cases he
  obtain rfl := eq_nil_of_length_eq_zero hms
  have hoct := hfirst.octets
  rw [hwin, hb, drop_left, hfit, bytes_singleton] at hoct
  refine ⟨hmtu, Nat.le_add_right _ _, m1, _, rfl, hfirst.addr, hfirst.data, hoct, ?_,
    hfirst.data ▸ hf.lead, hfirst.pkt.1, ?_⟩
  · rw [hdrspace_fragHdr (by omega), ← hf.hdrspace_eq, length_fragHdr (by omega)]
  · rw [hfirst.pkt.2, mLength_cons]
    rfl

end Fragment

/-- The payload of the frame that `ieee80211_encap` returns for an Ethernet frame. -/
def txPayload (ic : Ic ν) (n : ν) (frame : List UInt8) : List UInt8 :=
  if txFragments ic n frame then
    (llcPayload frame).take (ic.icFragthreshold.toNat - (encapCipher ic n frame).icHeader -
      encapHdrsize ic n frame)
  else llcPayload frame

/-- One mbuf that holds the frame of an Ethernet frame to node `n`, or its first fragment. -/
structure PortFrame (ic : Ic ν) (n : ν) (frame hdr : List UInt8) (m : Mbuf) : Prop
    extends TxFrame ic.icKeys.datapad hdr (txPayload ic n frame) m where
  len : hdr.length = encapHdrsize ic n frame
  place : m.mData + hdr.length = mhAlign + 6
  data : hdrOf hdr 0 &&& fc0TypeMask = fc0TypeData
  addr1 : hdrOf hdr 4 = encapAddr1 ic n frame
  wep : (hdrOf hdr 1 &&& fc1Wep != 0) = encapProtects ic n (etherHeaderOf frame)

theorem encap_first {h h' : Heap} {c : List Mbuf} {rest : List (List Mbuf)}
    (hp : PortPacket frame m) (hb : ∀ n, (ic.icNode n).niBssid.length = 6)
    (he : encap h ic n m [] = some (h', ic', some (c :: rest))) :
    ic'.icKeys = ic.icKeys ∧ h.next ≤ h'.next ∧ (txFragments ic n frame = false → h' = h) ∧
      (txFragments ic n frame = true →
        encapHdrsize ic n frame + (encapCipher ic n frame).icHeader < ic.icFragthreshold.toNat) ∧
      ∃ m₁ hdr, c = [m₁] ∧ m₁.addr = m.addr ∧ PortFrame ic n frame hdr m₁ := by
  have hwep := (encap_carriesWep he).2 c mem_cons_self
  rw [hp.etherHeader] at hwep
  obtain ⟨hkeys, m₁, hdr, hlen, hframe, haddr, hplace, h0, h4, hfrag⟩ := encap_port hp hb he
  have hbounds := hdrspace_bounds ic.icKeys.datapad (hdrOf hdr)
  rw [← hframe.hdrspace_eq] at hbounds
  refine ⟨hkeys, ?_⟩
  cases hfr : txFragments ic n frame with
  | false =>
    rw [hfr, if_neg Bool.false_ne_true] at hfrag
    obtain ⟨rfl, hframes⟩ := hfrag
    cases hframes
    have hpay : txPayload ic n frame = llcPayload frame := by
      rw [txPayload, hfr, if_neg Bool.false_ne_true]
    refine ⟨Nat.le_refl _, fun _ => rfl, (fun h => by cases h), m₁, hdr, rfl, haddr,
      ⟨hpay ▸ hframe, hlen, hplace, h0, h4, ?_⟩⟩
    rw [← hwep, carriesWep, get_eq_hdrOf ((bytes_singleton m₁).trans hframe.octets) _ (by omega)]
    rw [hframe.mLen]
    omega
  | true =>
    rw [hfr, if_pos rfl] at hfrag
    have hpay : txPayload ic n frame = _ := if_pos hfr
    rw [txFragments, Bool.and_eq_true, decide_eq_true_iff] at hfr
    rw [← hlen] at hfrag
    obtain ⟨hmtu, hnext, m2, rest', hframes, haddr2, hdata2, hframe2⟩ :=
      fragment_first hframe (by rw [hlen]; exact hfr.1) hfrag
    cases hframes
    rw [hlen, ← hpay] at hframe2
    refine ⟨hnext, (fun h => by cases h), fun _ => hlen ▸ hmtu, m2, fragHdr hdr, rfl,
      haddr2.trans haddr, ⟨hframe2, (length_fragHdr (by omega)).trans hlen, ?_, ?_, ?_, ?_⟩⟩
    · rw [hdata2, length_fragHdr (by omega), hplace]
    · rw [hdrOf_fragHdr (by omega), if_neg (by decide), h0]
    · rw [hdrOf_fragHdr (by omega), if_neg (by decide), h4]
    · rw [← hwep, carriesWep, get_eq_hdrOf ((bytes_singleton m2).trans hframe2.octets) _
        (by rw [length_fragHdr (by omega)]; omega)]
      rw [hframe2.mLen, length_fragHdr (by omega)]
      omega

/-! ## Who owns what was allocated -/

/-- From `h` to `h'` memory was only allocated, and `new` lists all of it. -/
structure Grown (h h' : Heap) (new : List Nat) : Prop where
  alloc : h'.alloc = h.alloc
  freed : h'.freed = h.freed
  le : h.next ≤ h'.next
  mem : ∀ a, h.next ≤ a → a < h'.next → h.alloc a ≠ none → a ∈ new

theorem Grown.refl (h : Heap) (new : List Nat) : Grown h h new :=
  ⟨rfl, rfl, Nat.le_refl _, fun _ h₁ h₂ => absurd h₂ (Nat.not_lt.mpr h₁)⟩

theorem Grown.cons {h h' : Heap} {new : List Nat}
    (hg : Grown { h with next := h.next + 1 } h' new) : Grown h h' (h.next :: new) := by
  refine ⟨hg.alloc, hg.freed, Nat.le_of_succ_le hg.le, fun a h1 h2 ha => ?_⟩
  rcases Nat.eq_or_lt_of_le h1 with rfl | hlt
  · exact mem_cons_self
  · exact mem_cons_of_mem _ (hg.mem a hlt h2 ha)

theorem mAppendNew_grown : ∀ (fuel : Nat) (h : Heap) (cp : List UInt8),
    Grown h (mAppendNew fuel h cp).1 ((mAppendNew fuel h cp).2.1.map Mbuf.addr) := by
  intro fuel
  induction fuel with
  | zero => intro h cp; exact .refl _ _
  | succ fuel ih =>
    intro h cp
    rw [mAppendNew]
    split
    · exact .refl _ _
    rw [mGetImpl]
    cases halloc : h.alloc h.next with
    | none =>
      refine ⟨rfl, rfl, Nat.le_succ _, fun a h1 h2 ha => ?_⟩
      exact absurd (Nat.le_antisymm (Nat.lt_succ_iff.mp h2) h1 ▸ halloc) ha
    | some cl => exact .cons (ih _ _)

/-- `m_append` leaves the mbufs of the chain where they are and adds what it allocates. -/
theorem mAppendLast_grown : ∀ (ms : List Mbuf) (h : Heap) (cp : List UInt8),
    ∃ new, (mAppendLast h ms cp).2.1.map Mbuf.addr = ms.map Mbuf.addr ++ new ∧
      Grown h (mAppendLast h ms cp).1 new := by
  intro ms
  induction ms with
  | nil => intro h cp; exact ⟨[], rfl, .refl _ _⟩
  | cons m ms ih =>
    intro h cp
    cases ms with
    | nil => exact ⟨_, rfl, mAppendNew_grown _ _ _⟩
    | cons m' ms =>
      obtain ⟨new, haddr, hg⟩ := ih h cp
      rw [mAppendLast]
      · exact ⟨new, congrArg (m.addr :: ·) haddr, hg⟩
      · exact cons_ne_nil _ _

theorem mAppendLast_head (h : Heap) (m : Mbuf) (ms : List Mbuf) (cp : List UInt8) :
    ∃ m' tl, (mAppendLast h (m :: ms) cp).2.1 = m' :: tl ∧ ∀ i < m.mLen, m'.get i = m.get i := by
  cases ms with
  | nil =>
    refine ⟨_, _, rfl, fun i hi => ?_⟩
    show (m.put m.mLen _).get i = m.get i
    rw [Mbuf.get_put, store_of_lt _ _ hi]
  | cons m' ms =>
    rw [mAppendLast]
    · exact ⟨m, _, rfl, fun _ _ => rfl⟩
    · exact cons_ne_nil _ _

theorem mAppend_grown (h : Heap) (m : Mbuf) (ms : List Mbuf) (cp : List UInt8) :
    ∃ m' tl new, (mAppend h (m :: ms) cp).2.1 = m' :: tl ∧ (∀ i < m.mLen, m'.get i = m.get i) ∧
      (m' :: tl).map Mbuf.addr = (m :: ms).map Mbuf.addr ++ new ∧
      Grown h (mAppend h (m :: ms) cp).1 new := by
  obtain ⟨new, haddr, hg⟩ := mAppendLast_grown (m :: ms) h cp
  obtain ⟨m', tl, hhead, hget⟩ := mAppendLast_head h m ms cp
  rw [mAppend]
  generalize mAppendLast h (m :: ms) cp = r at haddr hg hhead
  obtain ⟨h', ms', rest⟩ := r
  obtain rfl : ms' = m' :: tl := hhead
  dsimp only
  split <;> exact ⟨_, tl, new, rfl, hget, haddr, hg⟩

/-! ## Protection -/

/-- A frame as CCMP sends it: sealed, or with the CCMP header only where the device
does the rest. -/
def protectedFrame (E : BlockCipher) (k : Key) (hdr : List UInt8)
    (keyid : UInt8) (payload : List UInt8) : List UInt8 :=
  let tsc := (k.wkKeytsc + 1) % 2 ^ 64
  if k.wkFlags.swcrypt then sealed (E k.wkPrivate) hdr tsc keyid payload
  else hdr ++ ccmpHeader tsc keyid ++ payload

/-- How much longer protection makes a frame. -/
def keyOverhead (k : Key) : Nat := if k.wkFlags.swcrypt then 16 else 8

theorem length_protectedFrame (E : BlockCipher) (k : Key) (hdr : List UInt8)
    (keyid : UInt8) (payload : List UInt8) :
    (protectedFrame E k hdr keyid payload).length = hdr.length + payload.length +
    keyOverhead k := by
  rw [protectedFrame, keyOverhead]
  cases k.wkFlags.swcrypt with
  | true =>
    simp only [if_true, sealed, length_append, length_ccmpHeader, length_ccmCrypt, length_ccmTag]
    change _ + 8 + _ + 8 = _
    omega
  | false =>
    simp only [Bool.false_eq_true, if_false, length_append, length_ccmpHeader]
    omega

theorem SameShapes.addrs {ms ms' : List Mbuf} (h : SameShapes ms ms') :
    ms'.map Mbuf.addr = ms.map Mbuf.addr := by
  induction h with
  | nil => rfl
  | cons h _ ih => rw [map_cons, map_cons, ih, h.addr]

/-- Encryption in place keeps the shape of the chain, and what is before the offset in the first
mbuf. -/
theorem aesCcmEncMbuf_head {E : Block → Block} {C C' : AesCcm} {ms c : List Mbuf} {off len : Nat}
    {tag : List UInt8} (he : aesCcmEncMbuf E C (m :: ms) off len = some (C', c, tag)) :
    ∃ m' tl, c = m' :: tl ∧ SameShapes (m :: ms) (m' :: tl) ∧ ∀ i < off, m'.get i = m.get i := by
  rw [aesCcmEncMbuf] at he
  split at he
  · cases he
  next pre r off' hskip =>
  split at he
  · cases he
  next C1 r' hseg =>
  simp only [Option.some.injEq, Prod.mk.injEq] at he
  obtain ⟨_, rfl, _⟩ := he
  exact walk_head hskip hseg

variable {ms : List Mbuf} {h h' : Heap} {hdr payload : List UInt8}

/-- With room in front of it the frame stays in its mbuf. -/
theorem encapSpace_within {datapad : Bool} (hf : TxFrame datapad hdr payload m) :
    ∃ m₁, encapSpace h [m] hdr.length 8 = (h, some (m₁, [])) ∧ m₁.addr = m.addr ∧
      m₁.mData = m.mData - 8 ∧ m₁.mLen = m.mLen + 8 := by
  have hmlen := hf.mLen
  rw [encapSpace, mPrepend_within (k := 8) hf.lead (by decide) hf.pkthdr]
  dsimp only
  rw [pullupTo, if_neg]
  · exact ⟨_, rfl, rfl, rfl, rfl⟩
  · change ¬ m.mLen + 8 < hdr.length + 8
    omega

variable {E : BlockCipher} {keyid : UInt8}

/-- `ccmp_encap` leaves the mbufs and the header where they are and adds what it allocates. -/
theorem ccmpEncap_grown {datapad : Bool} {k k' : Key} {frame : List Mbuf} {ok : Bool}
    (hlen : hdrspace datapad m.get ≤ m.mLen)
    (he : ccmpEncap E datapad h k m ms keyid = some (h', k', frame, ok)) :
    ∃ m' tl new, frame = m' :: tl ∧ (∀ i < hdrspace datapad m.get, m'.get i = m.get i) ∧
      (m' :: tl).map Mbuf.addr = (m :: ms).map Mbuf.addr ++ new ∧ Grown h h' new := by
  have hput : ∀ i < hdrspace datapad m.get, ∀ p,
      (m.put (hdrspace datapad m.get) p).get i = m.get i :=
    fun i hi p => by rw [Mbuf.get_put, store_of_lt _ _ hi]
  rw [ccmpEncap] at he
  dsimp only at he
  split at he
  · split at he
    · cases he
    next h1 frame1 ok1 henc =>
    simp only [Option.some.injEq, Prod.mk.injEq] at he
    obtain ⟨rfl, _, rfl, rfl⟩ := he
    rw [ccmpEncrypt] at henc
    split at henc
    · cases henc
    dsimp only at henc
    split at henc
    · cases henc
    next C' ms1 mic hmbuf =>
    obtain ⟨m1, tl1, rfl, hshapes, hget1⟩ := aesCcmEncMbuf_head hmbuf
    obtain ⟨m', tl, new, hnew, hget, haddr, hg⟩ := mAppend_grown h m1 tl1 mic
    rw [Option.some.inj henc] at hnew hg
    have hall : SameShapes (m :: ms) (m1 :: tl1) :=
      .trans (.cons (.put m _ _) (SameShapes.refl ms)) hshapes
    refine ⟨m', tl, new, hnew, fun i hi => ?_, hall.addrs ▸ haddr, hg⟩
    cases hall with
    | cons hm _ => rw [hget i (by rw [hm.len]; omega), hget1 i (by omega), hput i hi]
  · simp only [Option.some.injEq, Prod.mk.injEq] at he
    obtain ⟨rfl, _, rfl, _⟩ := he
    exact ⟨_, ms, [], rfl, fun i hi => hput i hi _, by rw [append_nil]; rfl, .refl _ _⟩

theorem ccmpEncap_protected {datapad : Bool} {k k' : Key} {x : List UInt8} {frame : List Mbuf}
    (hpkt : Pkt (m :: ms)) (hb : bytes (m :: ms) = hdr ++ x ++ payload) (hx : x.length = 8)
    (hhdr : hdr.length = hdrspace datapad (hdrOf hdr)) (hlen : hdr.length + 8 ≤ m.mLen)
    (hp : 0 < payload.length) (hmax : payload.length ≤ ccmMax)
    (he : ccmpEncap E datapad h k m ms keyid = some (h', k', frame, true)) :
    Pkt frame ∧ bytes frame = protectedFrame E k hdr keyid payload := by
  rw [protectedFrame]
  cases hsw : k.wkFlags.swcrypt with
  | true =>
    obtain ⟨_, _, _, hb', _, hpkt'⟩ := ccmpEncap_sealed hpkt hb hx hhdr hlen hp hmax hsw he
    exact ⟨hpkt', hb'⟩
  | false =>
    have hspace : hdrspace datapad m.get = hdr.length := by
      have hbounds := hdrspace_bounds datapad (hdrOf hdr)
      rw [(head_sameProtected (append_assoc _ _ _ ▸ hb) (by omega) (by omega)).hdrspace, ← hhdr]
    rw [ccmpEncap] at he
    simp only [hsw, Bool.false_eq_true, if_false, Option.some.injEq, Prod.mk.injEq] at he
    obtain ⟨_, _, rfl, _⟩ := he
    refine ⟨SameShapes.pkt (.cons (.put _ _ _) (SameShapes.refl _)) hpkt, ?_⟩
    rw [hspace, bytes_put_head ms (by rw [length_ccmpHeader]; exact hlen), hb,
      patch_middle payload (by rw [length_ccmpHeader, hx])]
    rfl

/-- Protection of a frame in one mbuf: it begins in the same mbuf, and what was
allocated for the MIC is behind it. -/
theorem cryptoEncap_frame {ks : Keys ν} {r : EncapResult ν} {s : KeySlot ν}
    (hf : TxFrame ks.datapad hdr payload m) (hp : 0 < payload.length)
    (hmax : payload.length ≤ ccmMax) (hr : cryptoEncap E h ks n m [] = some r)
    (hkey : r.key = some s) : ∃ m' ms' keyid, r.frame = some (m' :: ms') ∧ m'.addr = m.addr ∧
      txSlot ks n (hdrOf hdr 4) = some (s, keyid) ∧ Pkt (m' :: ms') ∧
      bytes (m' :: ms') = protectedFrame E (ks.key s) hdr (keyid <<< 6) payload ∧
      Grown h r.heap (ms'.map Mbuf.addr) := by
  have hbounds := hdrspace_bounds ks.datapad (hdrOf hdr)
  rw [← hf.hdrspace_eq] at hbounds
  have hmlen := hf.mLen
  have hb : bytes [m] = hdr ++ payload := (bytes_singleton m).trans hf.octets
  have hget : ∀ i < 24, m.get i = hdrOf hdr i := fun i hi => get_eq_hdrOf hb (by omega) (by omega)
  obtain ⟨keyid, h1, m1, ms1, k, frame, hslot, hspc, henc, hframe⟩ := cryptoEncap_key hr hkey
  rw [hget 4 (by decide)] at hslot
  rw [hdrspace_congr (hget 0 (by decide)) (hget 1 (by decide)), ← hf.hdrspace_eq] at hspc
  obtain ⟨x, hx, hb1, hlen1, hpkt1⟩ := encapSpace_some hf.pkt hb hspc
  obtain ⟨m2, hspc', haddr, -⟩ := @encapSpace_within m h _ _ _ hf
  rw [hspc'] at hspc
  simp only [Prod.mk.injEq, Option.some.injEq] at hspc
  obtain ⟨rfl, rfl, rfl⟩ := hspc
  obtain ⟨hpkt, hbytes⟩ := ccmpEncap_protected hpkt1 hb1 hx hf.hdrspace_eq hlen1 hp hmax henc
  have hspace : hdrspace ks.datapad m2.get = hdr.length := by
    rw [(head_sameProtected (append_assoc _ _ _ ▸ hb1) (by omega) (by omega)).hdrspace,
      ← hf.hdrspace_eq]
  obtain ⟨m', ms', new, rfl, -, hnew, hg⟩ := ccmpEncap_grown (by rw [hspace]; omega) henc
  obtain ⟨hm', hms'⟩ := cons.inj hnew
  exact ⟨m', ms', keyid, hframe, hm'.trans haddr, hslot, hpkt, hbytes, hms' ▸ hg⟩

/-! ## What is sent -/

section Sent

variable {ν : Type}

/-- What is sent for an Ethernet frame to node `n`. -/
inductive TxHolds (E : BlockCipher) (ic : Ic ν) (n : ν) (frame : List UInt8) :
    List UInt8 → Prop where
  | clear {hdr : List UInt8} : hdr.length = encapHdrsize ic n frame →
      hdr.length = hdrspace ic.icKeys.datapad (hdrOf hdr) → hdrOf hdr 1 &&& fc1Wep = 0 →
      encapProtects ic n (etherHeaderOf frame) = false →
      TxHolds E ic n frame (hdr ++ txPayload ic n frame)
  | sealed {hdr : List UInt8} {s : KeySlot ν} {keyid : UInt8} :
      hdr.length = encapHdrsize ic n frame → hdr.length = hdrspace ic.icKeys.datapad (hdrOf hdr) →
      hdrOf hdr 1 &&& fc1Wep ≠ 0 → encapProtects ic n (etherHeaderOf frame) = true →
      hdrOf hdr 4 = encapAddr1 ic n frame →
      txSlot ic.icKeys n (hdrOf hdr 4) = some (s, keyid) →
      TxHolds E ic n frame
        (protectedFrame E (ic.icKeys.key s) hdr (keyid <<< 6) (txPayload ic n frame))

/-- The overhead of the key that protects a frame to node `n`. -/
def txOverhead (ic : Ic ν) (n : ν) (frame : List UInt8) : Nat :=
  if encapProtects ic n (etherHeaderOf frame) then
    match txSlot ic.icKeys n (encapAddr1 ic n frame) with
    | none => 0
    | some (s, _) => keyOverhead (ic.icKeys.key s)
  else 0

variable {ic : Ic ν} {octets : List UInt8} {n : ν}

theorem TxHolds.length (h : TxHolds E ic n frame octets) : octets.length =
      encapHdrsize ic n frame + (txPayload ic n frame).length + txOverhead ic n frame := by
  cases h with
  | clear hlen _ _ hprot => rw [length_append, hlen, txOverhead, hprot]; rfl
  | sealed hlen _ _ hprot h4 hslot =>
    rw [length_protectedFrame, hlen, txOverhead, hprot, ← h4, hslot]
    rfl

theorem txPayload_bounds (hp : PortPacket frame m)
    (hfrag : txFragments ic n frame = true → encapHdrsize ic n frame +
      (encapCipher ic n frame).icHeader < ic.icFragthreshold.toNat) :
    0 < (txPayload ic n frame).length ∧ (txPayload ic n frame).length ≤ ccmMax := by
  have hmin := hp.min
  have hmax := hp.max
  have hlen := length_llcPayload hmin
  rw [mclbytes] at hmax
  rw [txPayload, ccmMax]
  cases hfr : txFragments ic n frame with
  | false => rw [if_neg Bool.false_ne_true]; omega
  | true =>
    have := hfrag hfr
    rw [if_pos rfl, length_take]
    omega

/-- The length of the frame that is sent for an Ethernet frame to node `n`: the whole
frame, or a fragment of the size of the threshold less the cipher header, and what
protection adds. -/
def txLength (ic : Ic ν) (n : ν) (frame : List UInt8) : Nat :=
  (if txFragments ic n frame then ic.icFragthreshold.toNat - (encapCipher ic n frame).icHeader
    else encapHdrsize ic n frame + (frame.length - 6)) + txOverhead ic n frame

theorem TxHolds.txLength_eq (h : TxHolds E ic n frame octets) (hmin : 14 ≤ frame.length)
    (hfrag : txFragments ic n frame = true → encapHdrsize ic n frame +
      (encapCipher ic n frame).icHeader < ic.icFragthreshold.toNat) :
    octets.length = txLength ic n frame := by
  rw [h.length, txLength, txPayload]
  have hlen := length_llcPayload hmin
  cases hfr : txFragments ic n frame with
  | false => rw [if_neg Bool.false_ne_true, if_neg Bool.false_ne_true, hlen]
  | true =>
    have hfits := hfrag hfr
    rw [txFragments, Bool.and_eq_true, decide_eq_true_iff] at hfr
    rw [if_pos rfl, if_pos rfl, length_take]
    omega

end Sent

end Net80211
