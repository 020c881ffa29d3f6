import Net80211.Input
import Net80211.Proofs.MbufShell
import Net80211.Lib.Run

/-!
# Reassembly

What `ieee80211_defrag` makes of the frames it is given, one call after another.
The buffer of a node holds the fragments of one frame so far: their octets behind
the header of the first one, which carries the number of the last one. So what is
stored is known from the list of frames that went into it (`Joined`), and every
call either starts such a list, adds to it, or gives it up (`DefragMove`).
-/

namespace Net80211

open Lib List Option

/-! ## Joining chains -/

/-- The first mbuf of `m_cat`: the header is adjusted where it is also the last one. -/
theorem mCat_cons (m : Mbuf) (ms ns : List Mbuf) :
    ∃ tl, mCat (m :: ms) ns =
      { m with pkthdrLen :=
          if ms.isEmpty && m.hasPkthdr then m.pkthdrLen + mLength ns else m.pkthdrLen } :: tl := by
  cases ms with
  | nil =>
    rw [mCat]
    split
    · next hf => exact ⟨ns, by simp [hf]⟩
    · next hf => exact ⟨ns, by simp [hf]⟩
  | cons m2 ms => exact ⟨mCat (m2 :: ms) ns, rfl⟩

theorem bytes_mCat : ∀ (ms : List Mbuf) (m : Mbuf) (ns : List Mbuf),
    bytes (mCat (m :: ms) ns) = bytes (m :: ms) ++ bytes ns := by
  intro ms
  induction ms with
  | nil =>
    intro m ns
    rw [mCat, bytes_cons, bytes_singleton]
    split
    · rfl
    · rfl
  | cons m2 ms ih =>
    intro m ns
    rw [mCat, bytes_cons, ih, bytes_cons m, append_assoc]
    exact fun h => nomatch h

theorem addr_mCat : ∀ (ms : List Mbuf) (m : Mbuf) (ns : List Mbuf),
    (mCat (m :: ms) ns).map Mbuf.addr = (m :: ms).map Mbuf.addr ++ ns.map Mbuf.addr := by
  intro ms
  induction ms with
  | nil =>
    intro m ns
    rw [mCat]
    split
    · rfl
    · rfl
  | cons m2 ms ih => intro m ns; exact congrArg (m.addr :: ·) (ih m2 ns)

theorem defragCat_cons (m : Mbuf) (ms : List Mbuf) (n : Mbuf) (ns : List Mbuf) :
    ∃ tl, defragCat (m :: ms) (n :: ns) =
      { m with pkthdrLen := n.pkthdrLen +
          if ms.isEmpty && m.hasPkthdr then m.pkthdrLen + mLength (n :: ns)
            else m.pkthdrLen } :: tl ∧
      bytes (defragCat (m :: ms) (n :: ns)) = bytes (m :: ms) ++ bytes (n :: ns) ∧
      (defragCat (m :: ms) (n :: ns)).map Mbuf.addr =
        (m :: ms).map Mbuf.addr ++ (n :: ns).map Mbuf.addr := by
  obtain ⟨tl, heq⟩ := mCat_cons m ms (n :: ns)
  have hb := bytes_mCat ms m (n :: ns)
  have ha := addr_mCat ms m (n :: ns)
  rw [heq] at hb ha
  rw [defragCat]
  simp only [heq]
  refine ⟨tl, ?_, hb, ha⟩
  rw [Nat.add_comm]

/-- `m_cat` counts the second chain where the first one is a single mbuf, and then
`ieee80211_defrag` counts it once more. -/
theorem defragCat_pkt_iff {m n : Mbuf} {ms ns : List Mbuf} (hm : Pkt (m :: ms))
    (hn : Pkt (n :: ns)) : Pkt (defragCat (m :: ms) (n :: ns)) ↔ ms ≠ [] ∨
    mLength (n :: ns) = 0 := by
  obtain ⟨tl, heq, hb, _⟩ := defragCat_cons m ms n ns
  have hlen : mLength (defragCat (m :: ms) (n :: ns)) = mLength (m :: ms) + mLength (n :: ns) := by
    rw [← length_bytes, hb, length_append, length_bytes, length_bytes]
  rw [heq] at hlen ⊢
  change (m.hasPkthdr = true ∧ _ = mLength _) ↔ _
  rw [hlen, hm.1, hm.2, hn.2, Bool.and_true]
  cases ms with
  | nil =>
    simp only [isEmpty_nil, if_true, ne_eq, not_true_eq_false, false_or, true_and]
    omega
  | cons m2 ms =>
    simp only [isEmpty_cons, Bool.false_eq_true, if_false, ne_eq, reduceCtorEq,
      not_false_eq_true, true_or, iff_true, true_and]
    omega

/-! ## Copying a packet -/

theorem mCopypacket_some {h h' : Heap} {m p : Mbuf} (hwf : m.Wf)
    (hc : mCopypacket h m = (h', some p)) :
    p.bytes = m.bytes ∧ p.hasPkthdr = m.hasPkthdr ∧
      (m.hasPkthdr = true → p.pkthdrLen = m.pkthdrLen) := by
  have hflags := or_masked_flag (show (mBcast ||| mMcast) &&& mPkthdr = 0 by decide)
  rw [mCopypacket] at hc
  split at hc
  · cases hc
  next n hget =>
  cases hc
  refine ⟨?_, ?_, fun hf => ?_⟩
  · refine window_congr _ _ fun k (hk : k < m.mLen) => ?_
    have hin : m.mData + k < mClusterSize := by rw [Mbuf.Wf] at hwf; omega
    have := store_add n.mCluster 0 (m.mData + k) (window m.mCluster 0 mClusterSize)
    rw [Nat.zero_add, getElem?_window _ _ _ _ hin, Nat.zero_add] at this
    exact this
  · rw [← mGetImpl_hasPkthdr hget, Mbuf.hasPkthdr, Mbuf.hasPkthdr, hflags]
  · simp only [hf, if_true]

theorem mCopypacket_iff {h h' : Heap} {m p : Mbuf} {ms : List Mbuf} (hp : Pkt (m :: ms))
    (hwf : m.Wf) (hc : mCopypacket h m = (h', some p)) :
    (bytes [p] = bytes (m :: ms) ∧ p.pkthdrLen = m.pkthdrLen ∧ Pkt [p]) ↔ mLength ms = 0 := by
  obtain ⟨hb, hf, hlen⟩ := mCopypacket_some hwf hc
  have hb' : bytes [p] = m.bytes := by rw [bytes_singleton, hb]
  have htot : mLength [p] = m.mLen := by rw [← length_bytes, hb', Mbuf.length_bytes]
  constructor
  · rintro ⟨hsame, _, _⟩
    have := congrArg length hsame
    rw [hb', Mbuf.length_bytes, length_bytes, mLength_cons] at this
    omega
  · intro h0
    have hnil : bytes ms = [] := eq_nil_of_length_eq_zero (by rw [length_bytes]; exact h0)
    refine ⟨by rw [hb', bytes_cons, hnil, append_nil], hlen hp.1, ?_, ?_⟩
    · rw [hf]; exact hp.1
    · rw [hlen hp.1, hp.2, mLength_cons, htot, h0, Nat.add_zero]

/-- Where the header of a joined packet and of a copied one says the truth. -/
theorem packet_header_lengths {m : Mbuf} {ms : List Mbuf} (hm : Pkt (m :: ms)) :
    (∀ {n : Mbuf} {ns : List Mbuf}, Pkt (n :: ns) →
      (Pkt (defragCat (m :: ms) (n :: ns)) ↔ ms ≠ [] ∨ mLength (n :: ns) = 0)) ∧
    (∀ {h h' : Heap} {p : Mbuf}, m.Wf → mCopypacket h m = (h', some p) →
      ((bytes [p] = bytes (m :: ms) ∧ p.pkthdrLen = m.pkthdrLen ∧ Pkt [p]) ↔ mLength ms = 0)) :=
  ⟨defragCat_pkt_iff hm, mCopypacket_iff hm⟩

/-- An mbuf with `len` octets, and a packet header where `pkthdrLen` is given. -/
def segment (len : Nat) (pkthdrLen : Option Nat) : Mbuf :=
  { addr := 0, mFlags := if pkthdrLen.isSome then mPkthdr ||| mExt else mExt
    mCluster := fun i => UInt8.ofNat i, mData := mhAlign, mLen := len
    pkthdrLen := pkthdrLen.getD 0 }

/-- Memory that is never short. -/
def plenty : Heap := { alloc := fun _ => some fun _ => 0, next := 0, freed := [] }

/-- A packet of two mbufs may be joined; a packet of one, and an empty one, may be
copied. -/
theorem packet_header_lengths_kept :
    Pkt (defragCat [segment 1 (some 3), segment 2 none] [segment 4 (some 4)]) ∧
      ∃ p, (mCopypacket plenty (segment 3 (some 3))).2 = some p ∧
        bytes [p] = bytes [segment 3 (some 3), segment 0 none] ∧ Pkt [p] := by
  refine ⟨?_, ?_⟩
  · have hpkt : Pkt [segment 1 (some 3), segment 2 none] := ⟨rfl, rfl⟩
    exact ((packet_header_lengths hpkt).1 ⟨rfl, rfl⟩).mpr (.inl (by simp))
  · have hpkt : Pkt [segment 3 (some 3), segment 0 none] := ⟨rfl, rfl⟩
    have hwf : (segment 3 (some 3)).Wf := show mhAlign + 3 ≤ mClusterSize by decide
    have hcopy := ((packet_header_lengths hpkt).2 hwf
      (show mCopypacket plenty (segment 3 (some 3)) = _ from rfl)).mpr rfl
    exact ⟨_, rfl, hcopy.1, hcopy.2.2⟩

/-- Two packets of one mbuf each, as two fragments without any tail are: the header
counts the second one twice. The copy of a packet of two mbufs lacks the second. -/
theorem packet_header_lengths_fail :
    (Pkt [segment 3 (some 3)] ∧ Pkt [segment 4 (some 4)] ∧
      (defragCat [segment 3 (some 3)] [segment 4 (some 4)]).head?.map Mbuf.pkthdrLen = some 11 ∧
      mLength (defragCat [segment 3 (some 3)] [segment 4 (some 4)]) = 7) ∧
    (Pkt [segment 3 (some 5), segment 2 none] ∧
      ((mCopypacket plenty (segment 3 (some 5))).2.map fun p => (p.bytes.length, p.pkthdrLen)) =
        some (3, 5)) :=
  ⟨⟨⟨rfl, rfl⟩, ⟨rfl, rfl⟩, rfl, rfl⟩, ⟨rfl, rfl⟩, by decide⟩

/-! ## Frames and what they are joined to -/

theorem hdrsize_ge (wh : Wh) : 24 ≤ hdrsize wh := by
  rw [hdrsize]
  omega

/-- A frame as `ieee80211_input_data` hands it over: a packet with its header
contiguous in the first mbuf. -/
structure RxFrame where
  m : Mbuf
  ms : List Mbuf
  hdrspace : Nat
  hdrsize_le : hdrsize m.get ≤ hdrspace
  hdrspace_le : hdrspace ≤ 32
  contiguous : hdrspace ≤ m.mLen
  pkthdr : m.hasPkthdr = true

namespace RxFrame

def chain (fr : RxFrame) : List Mbuf := fr.m :: fr.ms
def num (fr : RxFrame) : UInt16 := whSeq fr.m.get
def seq (fr : RxFrame) : UInt16 := seqSeq fr.num
def frag (fr : RxFrame) : UInt16 := seqFrag fr.num
def more (fr : RxFrame) : Bool := fr.m.get 1 &&& fc1MoreFrag != 0
def addr1 (fr : RxFrame) : List UInt8 := window fr.m.get 4 6
def addr2 (fr : RxFrame) : List UInt8 := window fr.m.get 10 6
def addrs (fr : RxFrame) : List Nat := fr.chain.map Mbuf.addr
def seqOctets (fr : RxFrame) : List UInt8 := [fr.m.get 22, fr.m.get 23]

/-- What is behind the header. -/
def payload (fr : RxFrame) : List UInt8 := (bytes fr.chain).drop fr.hdrspace

theorem le_hdrspace (fr : RxFrame) : 24 ≤ fr.hdrspace :=
  Nat.le_trans (hdrsize_ge _) fr.hdrsize_le

theorem put_seqOctets (fr : RxFrame) : fr.m.put 22 fr.seqOctets = fr.m := by
  have hstore : store fr.m.mCluster (fr.m.mData + 22) fr.seqOctets = fr.m.mCluster := by
    funext j
    rw [store]
    split
    · next hj =>
      obtain ⟨k, rfl⟩ : ∃ k, j = fr.m.mData + 22 + k := ⟨j - (fr.m.mData + 22), by omega⟩
      rw [show fr.m.mData + 22 + k - (fr.m.mData + 22) = k by omega, seqOctets]
      rcases k with _ | _ | k <;> rfl
    · rfl
  rw [Mbuf.put, hstore]

end RxFrame

/-- The chain `c` is what the frames `first :: rest` are joined to: the octets and
the mbufs of all of them, and the header of the first, with the last number. -/
structure Joined (first : RxFrame) (rest : List RxFrame) (c : List Mbuf) : Prop where
  octets : bytes c =
    patch (bytes first.chain) 22 (rest.getLastD first).seqOctets ++ rest.flatMap RxFrame.payload
  addrs : c.map Mbuf.addr = (first :: rest).flatMap RxFrame.addrs
  head : ∃ f fs, c = f :: fs ∧ f.mLen = first.m.mLen ∧ f.mFlags = first.m.mFlags ∧
    f.get = store first.m.get 22 (rest.getLastD first).seqOctets

theorem Joined.single (fr : RxFrame) : Joined fr [] fr.chain := by
  have hlen : 22 + fr.seqOctets.length ≤ fr.m.mLen :=
    Nat.le_trans fr.le_hdrspace fr.contiguous
  refine ⟨?_, ?_, fr.m, fr.ms, rfl, rfl, rfl, ?_⟩
  · rw [getLastD_nil, flatMap_nil, append_nil, RxFrame.chain,
      ← bytes_put_head fr.ms hlen, fr.put_seqOctets]
  · rw [flatMap_cons, flatMap_nil, append_nil, RxFrame.addrs]
  · rw [getLastD_nil, ← Mbuf.get_put, fr.put_seqOctets]

/-- The rest of a fragment behind its header. -/
theorem RxFrame.stripped (fr : RxFrame) :
    ∃ n ns, mAdj fr.chain fr.hdrspace = n :: ns ∧ bytes (n :: ns) = fr.payload ∧
      (n :: ns).map Mbuf.addr = fr.addrs := by
  obtain ⟨n, ns, heq, _⟩ := mAdj_flags fr.m fr.ms fr.hdrspace
  have heq' : mAdj fr.chain fr.hdrspace = n :: ns := heq
  refine ⟨n, ns, heq', ?_, ?_⟩
  · rw [← heq', bytes_mAdj_head, RxFrame.payload]
  · rw [← heq', addr_mAdj, RxFrame.addrs]

variable {first : RxFrame} {rest : List RxFrame} {c : List Mbuf}

theorem Joined.join (hj : Joined first rest c) (fr : RxFrame) :
    Joined first (rest ++ [fr]) (defragJoin c fr.m fr.ms fr.hdrspace) := by
  obtain ⟨f, fs, rfl, hlen, hflags, hget⟩ := hj.head
  obtain ⟨n, ns, hstrip, hpay, haddr⟩ := fr.stripped
  obtain ⟨tl, hcat, hb, ha⟩ := defragCat_cons f fs n ns
  have hfirst : 24 ≤ f.mLen := by
    have := first.le_hdrspace
    have := first.contiguous
    omega
  have hoct : (rest.getLastD first).seqOctets.length = [fr.m.get 22, fr.m.get 23].length := rfl
  rw [RxFrame.chain] at hstrip
  rw [defragJoin, hstrip, hcat]
  rw [hcat] at hb ha
  refine ⟨?_, ?_, _, _, rfl, hlen, hflags, ?_⟩
  · have hpatch := bytes_put_head tl (show 22 + [fr.m.get 22, fr.m.get 23].length ≤
      Mbuf.mLen { f with pkthdrLen := n.pkthdrLen + if fs.isEmpty && f.hasPkthdr then
        f.pkthdrLen + mLength (n :: ns) else f.pkthdrLen } from hfirst)
    have hbytes : 24 ≤ (bytes first.chain).length := by
      rw [length_bytes, RxFrame.chain, mLength_cons]
      omega
    have hold : 22 + (rest.getLastD first).seqOctets.length ≤ (bytes first.chain).length := hbytes
    rw [hpatch, hb, hj.octets, hpay, append_assoc, patch_append_left _ (by
        rw [length_patch hold]; exact hbytes), patch_patch hoct (by omega),
      getLastD_concat, flatMap_append, flatMap_singleton, RxFrame.seqOctets]
  · have hmap : ∀ (g : Mbuf) (gs : List Mbuf), (g.put 22 [fr.m.get 22, fr.m.get 23] :: gs).map
        Mbuf.addr = (g :: gs).map Mbuf.addr := fun _ _ => rfl
    rw [hmap, ha, hj.addrs, haddr, ← cons_append, flatMap_append, flatMap_singleton]
  · rw [Mbuf.get_put, getLastD_concat]
    change store f.get 22 _ = _
    rw [hget, store_store hoct, RxFrame.seqOctets]

/-! ## One call -/

theorem seqSeq_toNat (x : UInt16) : (seqSeq x).toNat = x.toNat / 16 := by
  rw [seqSeq, UInt16.toNat_shiftRight, Nat.shiftRight_eq_div_pow]
  rfl

theorem seqFrag_toNat (x : UInt16) : (seqFrag x).toNat = x.toNat % 16 := by
  rw [seqFrag, UInt16.toNat_and]
  exact Nat.and_two_pow_sub_one_eq_mod x.toNat 4

theorem Joined.header (hj : Joined first rest c) :
    ∃ f fs, c = f :: fs ∧ whSeq f.get = (rest.getLastD first).num ∧
      window f.get 4 6 = first.addr1 ∧ window f.get 10 6 = first.addr2 := by
  obtain ⟨f, fs, rfl, _, _, hget⟩ := hj.head
  have haddr : ∀ a, a + 6 ≤ 22 → window f.get a 6 = window first.m.get a 6 := fun a ha => by
    rw [hget, window_store_of_disjoint _ (.inl ha)]
  exact ⟨f, fs, rfl, by rw [hget]; rfl, haddr 4 (by decide), haddr 10 (by decide)⟩

/-- The test of `ieee80211_defrag` on stored fragments: the numbers of the last one
and of the new one, and the addresses of the first one. -/
theorem Joined.follows_iff (hj : Joined first rest c) (fr : RxFrame) :
    defragFollows c fr.m.get = true ↔
      fr.num.toNat = (rest.getLastD first).num.toNat + 1 ∧ fr.addr1 = first.addr1 ∧
        fr.addr2 = first.addr2 := by
  obtain ⟨f, fs, rfl, hseq, ha1, ha2⟩ := hj.header
  simp only [defragFollows, Bool.and_eq_true, beq_iff_eq, hseq, ha1, ha2, and_assoc]
  rfl

/-- The chain that `ieee80211_defrag` has in hand after it has looked at the stored
fragments. -/
inductive Assembled (stored : Option (List Mbuf)) (fr : RxFrame) : List Mbuf → Prop where
  | start : (∀ c, stored = some c → defragFollows c fr.m.get = false) → fr.frag = 0 →
      Assembled stored fr fr.chain
  | join {c : List Mbuf} : stored = some c → defragFollows c fr.m.get = true →
      Assembled stored fr (defragJoin c fr.m fr.ms fr.hdrspace)

/-- What a call of `ieee80211_defrag` stores and returns. -/
inductive DefragMove (ni : NodeRx) (fr : RxFrame) :
    Option (List Mbuf) → Option (List Mbuf) → Prop where
  | orphan : ni.niTable = false → DefragMove ni fr ni.niRxfrag none
  | discard : (∀ c, ni.niRxfrag = some c → defragFollows c fr.m.get = false) → fr.frag ≠ 0 →
      DefragMove ni fr none none
  | store {c : List Mbuf} : ni.niTable = true → Assembled ni.niRxfrag fr c → fr.more = true →
      DefragMove ni fr (some c) none
  | complete {c : List Mbuf} : Assembled ni.niRxfrag fr c → fr.more = false →
      DefragMove ni fr none (some c)

variable {fr : RxFrame} {sn : UInt16} {ni : NodeRx}

theorem defragEnd_move (ticks : UInt32) (ni : NodeRx) {ni₀ : NodeRx} (htab : ni₀.niTable = true)
    (ha : Assembled ni₀.niRxfrag fr c) :
    DefragMove ni₀ fr (defragEnd ticks { ni with niRxfrag := none } fr.more c).1.niRxfrag
        (defragEnd ticks { ni with niRxfrag := none } fr.more c).2 ∧
      (defragEnd ticks { ni with niRxfrag := none } fr.more c).1.niTable = ni.niTable := by
  rw [defragEnd]
  split
  · next hmore => exact ⟨.store htab ha hmore, rfl⟩
  · next hmore => exact ⟨.complete ha (by simpa using hmore), rfl⟩

theorem defrag_move {h h' : Heap} {ticks : UInt32} {ni' : NodeRx} {r : Option (List Mbuf)}
    (hd : defrag h ticks ni fr.m fr.ms fr.hdrspace = (h', ni', r)) :
    DefragMove ni fr ni'.niRxfrag r ∧ ni'.niTable = ni.niTable ∧ h'.alloc = h.alloc := by
  rw [defrag] at hd
  split at hd
  · next hquick =>
    cases hd
    simp only [Bool.and_eq_true, Bool.not_eq_true', beq_iff_eq, isNone_iff_eq_none] at hquick
    obtain ⟨⟨hmore, hfrag⟩, hnone⟩ := hquick
    refine ⟨?_, rfl, rfl⟩
    rw [hnone]
    refine .complete (.start ?_ hfrag) hmore
    rw [hnone]
    exact nofun
  next hslow =>
  split at hd
  · next htable =>
    cases hd
    exact ⟨.orphan (by simpa using htable), rfl, rfl⟩
  next htable =>
  have htab : ni.niTable = true := by simpa using htable
  -- Which fragments are left depends on the stored ones only.
  have hstart : ∀ h1 : Heap, h1.alloc = h.alloc →
      (∀ c, ni.niRxfrag = some c → defragFollows c fr.m.get = false) →
      (if fr.frag != 0 then (mFreem h1 (fr.m :: fr.ms), { ni with niRxfrag := none }, none)
        else (h1, defragEnd ticks { ni with niRxfrag := none } fr.more (fr.m :: fr.ms))) =
        (h', ni', r) →
      DefragMove ni fr ni'.niRxfrag r ∧ ni'.niTable = ni.niTable ∧ h'.alloc = h.alloc := by
    intro h1 halloc hnot hif
    split at hif
    · next hfrag =>
      cases hif
      exact ⟨.discard hnot (by simpa using hfrag), rfl, halloc⟩
    · next hfrag =>
      have hend := defragEnd_move ticks ni htab
        (Assembled.start hnot (by simpa using hfrag))
      injection hif with hh hif
      rw [RxFrame.chain, hif] at hend
      exact ⟨hend.1, hend.2, hh ▸ halloc⟩
  cases hst : ni.niRxfrag with
  | none =>
    rw [hst] at hd
    exact hstart h rfl (by rw [hst]; exact nofun) hd
  | some c =>
    simp only [hst] at hd
    cases hf : defragFollows c fr.m.get with
    | true =>
      simp only [hf, if_true] at hd
      have hend := defragEnd_move ticks ni htab (Assembled.join hst hf)
      injection hd with hh hd
      change defragEnd ticks _ fr.more _ = _ at hd
      rw [hd] at hend
      exact ⟨hend.1, hend.2, congrArg Heap.alloc hh.symm⟩
    | false =>
      simp only [hf, Bool.false_eq_true, if_false] at hd
      refine hstart (mFreem h c) rfl ?_ hd
      intro c' hc'
      rw [hst] at hc'
      cases hc'
      exact hf

/-! ## Whole runs -/

/-- The frames are fragments `0, 1, …` of what `ta` sent to `ra` under the number
`sn`. -/
def Fragments (sn : UInt16) (ra ta : List UInt8) (parts : List RxFrame) : Prop :=
  ∀ (i : Nat) (p : RxFrame), parts[i]? = some p →
    p.seq = sn ∧ p.addr1 = ra ∧ p.addr2 = ta ∧ p.frag.toNat = i

/-- The frames are the fragments of one MSDU, all of them: only the last one says
that no more come. -/
def OneMsdu (parts : List RxFrame) : Prop :=
  ∃ sn ra ta, Fragments sn ra ta parts ∧
    ∀ (i : Nat) (p : RxFrame), parts[i]? = some p → (p.more = true ↔ i + 1 < parts.length)

theorem getElem?_getLastD (first : RxFrame) (rest : List RxFrame) :
    (first :: rest)[rest.length]? = some (rest.getLastD first) := by
  rw [getLastD_eq_getLast?, getLast?_eq_getElem?]
  cases rest with
  | nil => rfl
  | cons p ps => simp

theorem Fragments.left {ra ta : List UInt8} {parts parts' : List RxFrame}
    (hf : Fragments sn ra ta (parts ++ parts')) : Fragments sn ra ta parts := fun i p hp =>
  hf i p (by rw [List.getElem?_append_left (List.getElem?_eq_some_iff.mp hp).1, hp])

theorem Joined.follows {ra ta : List UInt8} (hj : Joined first rest c)
    (hfr : Fragments sn ra ta (first :: rest ++ [fr])) : defragFollows c fr.m.get = true := by
  have hfirst := hfr 0 first rfl
  have hlast := hfr.left rest.length _ (getElem?_getLastD first rest)
  have hnew := hfr (rest.length + 1) fr (by
    rw [getElem?_append_right (by simp), length_cons, Nat.sub_self]
    rfl)
  refine (hj.follows_iff fr).mpr ⟨?_, hnew.2.1.trans hfirst.2.1.symm,
    hnew.2.2.1.trans hfirst.2.2.1.symm⟩
  -- The same number, and a fragment number that is one more.
  have hseq : fr.num.toNat / 16 = (rest.getLastD first).num.toNat / 16 := by
    rw [← seqSeq_toNat, ← seqSeq_toNat]
    exact congrArg UInt16.toNat (hnew.1.trans hlast.1.symm)
  have hfrag := hnew.2.2.2
  have hfrag' := hlast.2.2.2
  rw [RxFrame.frag, seqFrag_toNat] at hfrag hfrag'
  omega

theorem Fragments.concat {ra ta : List UInt8} {parts : List RxFrame} (hf : Fragments sn ra ta parts)
    (hfr : fr.seq = sn ∧ fr.addr1 = ra ∧ fr.addr2 = ta ∧ fr.frag.toNat = parts.length) :
    Fragments sn ra ta (parts ++ [fr]) := by
  intro i p hp
  rcases Nat.lt_or_ge i parts.length with hi | hi
  · rw [getElem?_append_left hi] at hp
    exact hf i p hp
  · rw [getElem?_append_right hi] at hp
    have h0 : i - parts.length = 0 := by
      have := (List.getElem?_eq_some_iff.mp hp).1
      rw [length_singleton] at this
      omega
    rw [h0] at hp
    cases hp
    rw [show i = parts.length by omega]
    exact hfr

/-- The calls for one node: what the buffer holds, what was given to it, and what
the last call returned. -/
structure Reassembly where
  heap : Heap
  ni : NodeRx
  received : List RxFrame
  returned : Option (List Mbuf)

/-- A frame comes in; the timer goes off; the node is cleaned up; it is put into a
table or taken out of it. -/
inductive ReassemblyOp where
  | recv (ticks : UInt32) (fr : RxFrame)
  | timeout (hz ticks : UInt32)
  | cleanup
  | table (inTable : Bool)

def reassemblyStep (s : Reassembly) : ReassemblyOp → Option Reassembly
  | .recv ticks fr =>
    let (heap, ni, r) := defrag s.heap ticks s.ni fr.m fr.ms fr.hdrspace
    some { heap, ni, received := s.received ++ [fr], returned := r }
  | .timeout hz ticks =>
    let (heap, ni) := rxfragTimeout hz ticks s.heap s.ni
    some { s with heap, ni, returned := none }
  | .cleanup =>
    let (heap, ni) := rxfragCleanup s.heap s.ni
    some { s with heap, ni, returned := none }
  | .table inTable =>
    some { s with ni := { s.ni with niTable := inTable }, returned := none }

/-- A node with nothing stored. -/
def reassemblyInit (s : Reassembly) : Prop :=
  s.ni.niRxfrag = none ∧ s.received = [] ∧ s.returned = none

/-- The frame is numbered as the first fragment of the next MSDU, while fragment 15
of the one before is the last that is stored. -/
def CarriesOver : Option (List Mbuf) → RxFrame → Prop
  | some (lm :: _), fr =>
    seqFrag (whSeq lm.get) = 15 ∧ fr.num.toNat = (whSeq lm.get).toNat + 1 ∧
      fr.addr1 = window lm.get 4 6 ∧ fr.addr2 = window lm.get 10 6
  | _, _ => False

def NoCarry (s : Reassembly) : ReassemblyOp → Prop
  | .recv _ fr => ¬ CarriesOver s.ni.niRxfrag fr
  | _ => True

instance : ∀ (stored : Option (List Mbuf)) (fr : RxFrame), Decidable (CarriesOver stored fr)
  | some (_ :: _), _ => inferInstanceAs (Decidable (_ ∧ _))
  | some [], _ => .isFalse id
  | none, _ => .isFalse id

instance decidableNoCarry (s : Reassembly) (a : ReassemblyOp) : Decidable (NoCarry s a) := by
  cases a <;> unfold NoCarry <;> infer_instance

/-- Fragments are stored: some of those received, in order, and more are to come. -/
def Begun (received : List RxFrame) (c : List Mbuf) : Prop :=
  ∃ first rest, (first :: rest).Sublist received ∧ Joined first rest c ∧
    (∃ sn ra ta, Fragments sn ra ta (first :: rest)) ∧ ∀ p ∈ first :: rest, p.more = true

/-- A frame is complete: it consists of fragments received, in order. -/
def Reassembled (received : List RxFrame) (c : List Mbuf) : Prop :=
  ∃ first rest, (first :: rest).Sublist received ∧ Joined first rest c ∧ OneMsdu (first :: rest)

variable {received : List RxFrame}

theorem Begun.mono {received' : List RxFrame} (hb : Begun received c)
    (h : received.Sublist received') : Begun received' c := by
  obtain ⟨first, rest, hsub, hrest⟩ := hb
  exact ⟨first, rest, hsub.trans h, hrest⟩

/-- What is in hand are fragments of one frame, of which all but the new one say
that more are to come. -/
theorem Assembled.fragments {stored : Option (List Mbuf)} (ha : Assembled stored fr c)
    (hst : ∀ c, stored = some c → Begun received c) (hcarry : ¬ CarriesOver stored fr) :
    ∃ init, ∃ first rest, init ++ [fr] = first :: rest ∧
      (first :: rest).Sublist (received ++ [fr]) ∧ Joined first rest c ∧
      (∃ sn ra ta, Fragments sn ra ta (first :: rest)) ∧ ∀ p ∈ init, p.more = true := by
  cases ha with
  | start _ hfrag =>
    refine ⟨[], fr, [], rfl, sublist_append_right _ _, .single fr,
      ⟨fr.seq, fr.addr1, fr.addr2, ?_⟩, nofun⟩
    have hone : Fragments fr.seq fr.addr1 fr.addr2 ([] ++ [fr]) :=
      Fragments.concat nofun ⟨rfl, rfl, rfl, by rw [hfrag]; rfl⟩
    exact hone
  | join hc hfol =>
    obtain ⟨first, rest, hsub, hj, ⟨sn, ra, ta, hfr⟩, hmore⟩ := hst _ hc
    obtain ⟨hnum, ha1, ha2⟩ := (hj.follows_iff fr).mp hfol
    -- The last fragment stored is the one before the new one, and not number 15.
    have hlast := hfr rest.length (rest.getLastD first) (getElem?_getLastD first rest)
    have hfirst := hfr 0 first rfl
    have h15 : (rest.getLastD first).num.toNat % 16 ≠ 15 := by
      intro h15
      obtain ⟨f, fs, rfl, hseq, hw1, hw2⟩ := hj.header
      rw [hc] at hcarry
      refine hcarry ⟨?_, by rw [hseq]; exact hnum, by rw [ha1, hw1], by rw [ha2, hw2]⟩
      rw [← UInt16.toNat_inj, seqFrag_toNat, hseq, h15]
      rfl
    refine ⟨first :: rest, first, rest ++ [fr], rfl, ?_, hj.join fr, ⟨sn, ra, ta, ?_⟩, hmore⟩
    · exact hsub.append (List.Sublist.refl [fr])
    · refine hfr.concat ⟨?_, ?_, ?_, ?_⟩
      · rw [← hlast.1, RxFrame.seq, RxFrame.seq, ← UInt16.toNat_inj, seqSeq_toNat, seqSeq_toNat]
        omega
      · rw [ha1, hfirst.2.1]
      · rw [ha2, hfirst.2.2.1]
      · have := hlast.2.2.2
        rw [RxFrame.frag, seqFrag_toNat] at this ⊢
        rw [length_cons]
        omega

theorem more_iff_of_concat {init : List RxFrame} (hinit : ∀ p ∈ init, p.more = true)
    (hfr : fr.more = false) (i : Nat) (p : RxFrame) (hp : (init ++ [fr])[i]? = some p) :
    p.more = true ↔ i + 1 < (init ++ [fr]).length := by
  rw [length_append, length_singleton]
  rcases Nat.lt_or_ge i init.length with hi | hi
  · rw [getElem?_append_left hi] at hp
    exact iff_of_true (hinit p (mem_of_getElem? hp)) (by omega)
  · rw [getElem?_append_right hi] at hp
    have hp : p = fr := mem_singleton.mp (mem_of_getElem? hp)
    rw [hp, hfr]
    exact iff_of_false nofun (by omega)

theorem rxfragTimeout_stored {hz ticks : UInt32} {h : Heap}
    (hc : (rxfragTimeout hz ticks h ni).2.niRxfrag = some c) : ni.niRxfrag = some c := by
  rw [rxfragTimeout] at hc
  split at hc
  · exact hc
  split at hc
  · cases hc
  · exact hc

theorem rxfragCleanup_stored (h : Heap) (ni : NodeRx) : (rxfragCleanup h ni).2.niRxfrag = none := by
  rw [rxfragCleanup]
  split
  · next hnone => exact hnone
  · rfl

/-- What holds in every state of a run. -/
structure ReassemblyInv (s : Reassembly) : Prop where
  stored : ∀ c, s.ni.niRxfrag = some c → Begun s.received c
  returned : ∀ c, s.returned = some c → Reassembled s.received c

/-- A call keeps it, whatever it does with the frame. -/
theorem DefragMove.inv {stored r : Option (List Mbuf)} (hm : DefragMove ni fr stored r)
    (hst : ∀ c, ni.niRxfrag = some c → Begun received c) (hcarry : ¬ CarriesOver ni.niRxfrag fr) :
    (∀ c, stored = some c → Begun (received ++ [fr]) c) ∧
      ∀ c, r = some c → Reassembled (received ++ [fr]) c := by
  cases hm with
  | orphan _ => exact ⟨fun c hc => (hst c hc).mono (sublist_append_left _ _), nofun⟩
  | discard _ _ => exact ⟨nofun, nofun⟩
  | store _ ha hmore =>
    obtain ⟨init, first, rest, heq, hsub, hj, hfr, hinit⟩ := ha.fragments hst hcarry
    refine ⟨fun c hc => ?_, nofun⟩
    cases hc
    refine ⟨first, rest, hsub, hj, hfr, ?_⟩
    rw [← heq]
    intro p hp
    rcases mem_append.mp hp with hp | hp
    · exact hinit p hp
    · rw [mem_singleton.mp hp]; exact hmore
  | complete ha hmore =>
    obtain ⟨init, first, rest, heq, hsub, hj, ⟨sn, ra, ta, hfr⟩, hinit⟩ := ha.fragments hst hcarry
    refine ⟨nofun, fun c hc => ?_⟩
    cases hc
    refine ⟨first, rest, hsub, hj, sn, ra, ta, hfr, ?_⟩
    rw [← heq]
    exact more_iff_of_concat hinit hmore

theorem reassemblyStep_inv {s s' : Reassembly} {a : ReassemblyOp} (hi : ReassemblyInv s)
    (hok : NoCarry s a) (hs : reassemblyStep s a = some s') : ReassemblyInv s' := by
  cases a with
  | recv ticks fr =>
    obtain ⟨⟨h', ni', r⟩, hd⟩ : ∃ x, defrag s.heap ticks s.ni fr.m fr.ms fr.hdrspace = x := ⟨_, rfl⟩
    rw [reassemblyStep, hd] at hs
    cases hs
    obtain ⟨hstored, hreturned⟩ := (defrag_move hd).1.inv hi.stored hok
    exact ⟨hstored, hreturned⟩
  | timeout hz ticks =>
    cases hs
    exact ⟨fun c hc => hi.stored c (rxfragTimeout_stored hc), nofun⟩
  | cleanup =>
    cases hs
    exact ⟨fun c hc => (nomatch (rxfragCleanup_stored s.heap s.ni).symm.trans hc), nofun⟩
  | table inTable =>
    cases hs
    exact ⟨hi.stored, nofun⟩

/-- Where no fragment 15 is carried over into the next number, a frame that
`ieee80211_defrag` returns consists of the fragments of one MSDU. -/
theorem defrag_returns_one_msdu {s : Reassembly} {c : List Mbuf}
    (hr : Reach reassemblyInit reassemblyStep NoCarry s) (hc : s.returned = some c) :
    Reassembled s.received c := by
  have hinv : ReassemblyInv s := by
    refine Reach.invariant ?_ (fun _ _ _ => reassemblyStep_inv) hr
    rintro s ⟨hnone, _, hret⟩
    exact ⟨fun c hc => (nomatch hnone.symm.trans hc), fun c hc => (nomatch hret.symm.trans hc)⟩
  exact hinv.returned c hc

/-- A data frame from the distribution system has a header of 24 octets. -/
theorem hdrsize_fromds {wh : Wh} (h0 : wh 0 = 0x08)
    (h1 : wh 1 = fc1DirFromds ∨ wh 1 = fc1DirFromds ||| fc1MoreFrag) : hdrsize wh = 24 := by
  rw [hdrsize, is4Address, hasQos, h0]
  rcases h1 with h1 | h1
  · rw [h1]; rfl
  · rw [h1]; rfl

/-- The octets of a frame from an access point to one of its stations. -/
def apOctets (more : Bool) (seqLo seqHi : UInt8) (payload : List UInt8) : List UInt8 :=
  [0x08, if more then fc1DirFromds ||| fc1MoreFrag else fc1DirFromds, 0, 0] ++
    [2, 0, 0, 0, 0, 1] ++ [2, 0, 0, 0, 0, 2] ++ [2, 0, 0, 0, 0, 3] ++ [seqLo, seqHi] ++ payload

/-- A packet of one mbuf. -/
def packet (addr : Nat) (octets : List UInt8) : Mbuf :=
  { addr := addr, mFlags := mPkthdr ||| mExt, mCluster := store (fun _ => 0) mhAlign octets
    mData := mhAlign, mLen := octets.length, pkthdrLen := octets.length }

theorem packet_get (addr : Nat) (octets : List UInt8) (i : Nat) :
    (packet addr octets).get i = octets[i]?.getD 0 :=
  store_add (fun _ => 0) mhAlign i octets

theorem hdrsize_apOctets (addr : Nat) (more : Bool) (seqLo seqHi : UInt8) (payload : List UInt8) :
    hdrsize (packet addr (apOctets more seqLo seqHi payload)).get = 24 := by
  refine hdrsize_fromds (packet_get ..) ?_
  rw [packet_get]
  cases more with
  | false => exact .inl rfl
  | true => exact .inr rfl

def apFrame (addr : Nat) (more : Bool) (seqLo seqHi : UInt8) (payload : List UInt8) : RxFrame :=
  { m := packet addr (apOctets more seqLo seqHi payload), ms := [], hdrspace := 24
    hdrsize_le := Nat.le_of_eq (hdrsize_apOctets ..), hdrspace_le := by decide
    contiguous := by
      rw [packet, apOctets, length_append]
      exact Nat.le_add_right _ _
    pkthdr := show ((mPkthdr ||| mExt) &&& mPkthdr != 0) = true by decide }

/-- A node in its table, with nothing stored. -/
def reassemblyEmpty : Reassembly :=
  { heap := plenty, ni := nodeRxInit, received := [], returned := none }

/-- Two fragments of one MSDU. -/
theorem defrag_returns_one_msdu_sample :
    ∃ (s : Reassembly) (c : List Mbuf), s.returned = some c ∧ c.map Mbuf.addr = [1, 2] ∧
      Reassembled s.received c := by
  obtain ⟨s, hs, haddr⟩ : ∃ s, Reach reassemblyInit reassemblyStep NoCarry s ∧
      s.returned.map (map Mbuf.addr) = some [1, 2] :=
    Reach.of_run [.recv 0 (apFrame 1 true 0x30 0 [7]), .recv 1 (apFrame 2 false 0x31 0 [8])]
      (show reassemblyInit reassemblyEmpty from ⟨rfl, rfl, rfl⟩) (by decide) (by decide)
  obtain ⟨c, hc, haddr⟩ := map_eq_some_iff.mp haddr
  exact ⟨s, c, hc, haddr, defrag_returns_one_msdu hs hc⟩

/-- Sixteen fragments of MSDU 0, all with More Fragments, and then the only fragment
of MSDU 1. -/
def carryRun : List ReassemblyOp :=
  (range 16).map (fun i => .recv 0 (apFrame i true (UInt8.ofNat i) 0 [UInt8.ofNat i])) ++
    [.recv 0 (apFrame 16 false 0x10 0 [16])]

/-- Fragment 0 of MSDU 1 is taken for fragment 16 of MSDU 0. -/
theorem defrag_joins_two_msdus :
    ∃ (s : Reassembly) (c : List Mbuf), Reach reassemblyInit reassemblyStep Any s ∧
      s.returned = some c ∧ ¬ Reassembled s.received c := by
  obtain ⟨s, hs, haddr, hzero, hone⟩ : ∃ s, Reach reassemblyInit reassemblyStep Any s ∧
      s.returned.map (map Mbuf.addr) = some (range 17) ∧
      (∀ p ∈ s.received, 0 ∈ p.addrs → p.seq = 0) ∧ ∀ p ∈ s.received, 16 ∈ p.addrs → p.seq = 1 :=
    Reach.of_run carryRun (show reassemblyInit reassemblyEmpty from ⟨rfl, rfl, rfl⟩)
      (runOk_any _ _) (by decide)
  obtain ⟨c, hc, haddr⟩ := map_eq_some_iff.mp haddr
  refine ⟨s, c, hs, hc, ?_⟩
  rintro ⟨first, rest, hsub, hj, sn, ra, ta, hfr, _⟩
  -- The mbufs of both frames are in the chain, so both are among the parts.
  have hpart : ∀ a < 17, ∃ p ∈ first :: rest, a ∈ p.addrs := by
    intro a ha
    have hmem : a ∈ c.map Mbuf.addr := by rw [haddr]; exact mem_range.mpr ha
    rw [hj.addrs] at hmem
    exact mem_flatMap.mp hmem
  have hseq : ∀ p ∈ first :: rest, p.seq = sn := by
    intro p hp
    obtain ⟨i, hi⟩ := mem_iff_getElem?.mp hp
    exact (hfr i p hi).1
  obtain ⟨p, hp, hpa⟩ := hpart 0 (by decide)
  obtain ⟨q, hq, hqa⟩ := hpart 16 (by decide)
  have hp0 := hzero p (hsub.subset hp) hpa
  have hq1 := hone q (hsub.subset hq) hqa
  rw [hseq p hp] at hp0
  rw [hseq q hq, hp0] at hq1
  exact absurd hq1 (by decide)

end Net80211
