import Net80211.Iwm.Tx
import Net80211.Proofs.EncapDecap

/-!
# The flags of a packet on its way out

`m_flags` of the first mbuf says things about the packet: that more frames follow for a sleeping
station, that it is a fragment, to which access category it belongs. `m_pullup`, `m_prepend` and
`ieee80211_mbuf_adjust` can give a packet a new first mbuf, and `m_move_pkthdr`, which they share,
moves `M_PKTHDR` alone. So what `ieee80211_encap` writes for these flags depends on the room in
front of the packet (`encap_marks`).

The category itself is written at a place that is not cleared before, and shares a bit with
`M_HASFCS`: it is the union of all categories the packet ever had.
-/

namespace Net80211

open Lib Crypto List Option

theorem uint32_or_and (a b c : UInt32) : (a ||| b) &&& c = (a &&& c) ||| (b &&& c) := by
  apply UInt32.eq_of_toBitVec_eq
  ext i hi
  simp only [UInt32.toBitVec_and, UInt32.toBitVec_or, BitVec.getElem_and, BitVec.getElem_or]
  exact Bool.and_or_distrib_right ..

/-! ## A new first mbuf -/

/-- The flags that are about the packet: more data, power save, to a group, the category where it is
cleared and where it is written, fragments. -/
def packetFlags : UInt32 :=
  mMoreData ||| mPwrSav ||| mMcast ||| mBcast ||| mWmeAcMask ||| 0x6000 ||| mFrag ||| mFirstfrag

/-- The calls that may replace the first mbuf of a chain. -/
inductive HeadMove : Heap → List Mbuf → Heap → List Mbuf → Prop
  | pullup {h h' : Heap} {c c' : List Mbuf} (len : Int) (hrun : mPullup h c len = (h', some c')) :
      HeadMove h c h' c'
  | prepend {h h' : Heap} {c c' : List Mbuf} (len : Int) (hrun : mPrepend h c len = (h', some c')) :
      HeadMove h c h' c'
  | adjust {h h' : Heap} {m : Mbuf} {ms c' : List Mbuf} (hdrsize : Nat) (cip : Cipher)
      (hrun : mbufAdjust h hdrsize cip m ms = (h', some c')) : HeadMove h (m :: ms) h' c'

variable {h h' : Heap} {m m' : Mbuf} {ms c' : List Mbuf}

/-- The first mbuf stays with its flags, or there is a new one, which has the flags of a new
packet. -/
theorem HeadMove.flags (hp : m.hasPkthdr = true) (hm : HeadMove h (m :: ms) h' c') :
    ∃ m' ms', c' = m' :: ms' ∧ (m'.addr = m.addr ∧ m'.mFlags = m.mFlags ∨
      m'.addr = h.next ∧ m'.mFlags = mPkthdr ||| mExt) := by
  have hget := mGetImpl_cases h
  cases hm with
  | pullup len hrun =>
    rw [mPullup] at hrun
    split at hrun
    · cases hrun
    split at hrun
    · cases hrun
      exact ⟨m, ms, rfl, .inl ⟨rfl, rfl⟩⟩
    split at hrun
    · cases hrun
    rw [hp] at hrun
    rcases hget with ⟨-, hget⟩ | ⟨n, -, hget, haddr, hflags, -⟩
    · rw [hget] at hrun
      cases hrun
    · rw [hget] at hrun
      cases hrun
      refine ⟨_, _, rfl, .inr ⟨haddr, ?_⟩⟩
      show (n.mFlags &&& ~~~mPkthdr) ||| (m.mFlags &&& mPkthdr) = _
      rw [hflags, moved_flags hp]
  | prepend len hrun =>
    rw [mPrepend] at hrun
    split at hrun
    · cases hrun
    split at hrun
    · cases hrun
      exact ⟨_, ms, rfl, .inl ⟨rfl, rfl⟩⟩
    rw [hp] at hrun
    rcases hget with ⟨-, hget⟩ | ⟨n, -, hget, haddr, hflags, -⟩
    · rw [hget] at hrun
      cases hrun
    · rw [hget] at hrun
      cases hrun
      refine ⟨_, _, rfl, .inr ⟨haddr, ?_⟩⟩
      rw [hflags, moved_flags hp]
  | adjust hdrsize cip hrun =>
    rw [mbufAdjust] at hrun
    dsimp only at hrun
    split at hrun
    · rcases hget with ⟨-, hget⟩ | ⟨n, -, hget, haddr, hflags, -⟩
      · rw [hget] at hrun
        cases hrun
      · rw [hget] at hrun
        cases hrun
        refine ⟨_, _, rfl, .inr ⟨haddr, ?_⟩⟩
        show (n.mFlags &&& ~~~mPkthdr) ||| (m.mFlags &&& mPkthdr) = _
        rw [hflags, moved_flags hp]
    · cases hrun
      exact ⟨m, ms, rfl, .inl ⟨rfl, rfl⟩⟩

/-- The flags of the packet are present in the new first mbuf. -/
def CarriesFlags (m m' : Mbuf) : Prop := m.mFlags &&& packetFlags &&& ~~~m'.mFlags = 0

theorem carriesFlags_new (hf : m'.mFlags = mPkthdr ||| mExt) :
    CarriesFlags m m' ↔ m.mFlags &&& packetFlags = 0 := by
  rw [CarriesFlags, hf, UInt32.and_assoc,
    show packetFlags &&& ~~~(mPkthdr ||| mExt) = packetFlags from rfl]

/-! ## What is sent -/

/-- What is on the air of the flags: more data, and the TID of a frame with a QoS field. -/
def airMarks (qos : Bool) (c : List Mbuf) : Bool × Nat :=
  (hdrOf (bytes c) 1 &&& fc1MoreData != 0, if qos then (hdrOf (bytes c) 24 &&& 0x0f).toNat else 0)

/-- `M_WME_GETAC`, on the flags. -/
def getacFlags (flags : UInt32) : Nat := (flags >>> 13 &&& 0x3).toNat

/-- And what the flags ask for. -/
def flagMarks (qos : Bool) (flags : UInt32) : Bool × Nat :=
  (flags &&& mMoreData != 0, if qos then wmeAcToTid (getacFlags flags) else 0)

variable {ν : Type} [DecidableEq ν] {ic ic' : Ic ν} {n : ν} {frames : List (List Mbuf)}
  {cs : List Classification} {inet : Bool} {fs : List Mbuf} {acs : List Nat} {f : Mbuf}

instance LacksRoom.decidable (ic : Ic ν) (n : ν) (eth : List UInt8) (m : Mbuf) :
    Decidable (LacksRoom ic n eth m) :=
  inferInstanceAs (Decidable (_ < _))

theorem getacFlags_lt (flags : UInt32) : getacFlags flags < 4 := by
  rw [getacFlags, UInt32.toNat_and]
  exact Nat.and_lt_two_pow _ (by decide : (3 : UInt32).toNat < 2 ^ 2)

theorem tid_of_qos {ac : Nat} (hac : ac < 4) (noack : Bool) :
    ((UInt8.ofNat (wmeAcToTid ac) &&& 0x0f ||| (if noack then 0x20 else 0)) &&& 0x0f).toNat =
    wmeAcToTid ac := by
  interval_cases ac <;> cases noack <;> decide

omit [DecidableEq ν] in
/-- The frame before it is fragmented, by its own flags. -/
theorem Encapped.marks {eth addrs : List UInt8} {dir : UInt8}
    (he : Encapped ic n eth dir addrs f fs)
    (ha : encapAddrs ic n (etherHeaderOf eth) = some (dir, addrs)) :
    airMarks (encapQos ic n eth) (f :: fs) = flagMarks (encapQos ic n eth) f.mFlags := by
  have h24 := (encapHdrsize_bounds ic n eth).1
  have hcont := he.contiguous
  have hget : ∀ i < 32, hdrOf (bytes (f :: fs)) i = f.get i :=
    fun i hi => (get_eq_bytes fs (by omega)).symm
  refine Prod.ext ?_ ?_
  · show (hdrOf _ 1 &&& fc1MoreData != 0) = (f.mFlags &&& mMoreData != 0)
    rw [hget 1 (by decide), he.fc1]
    generalize (f.mFlags &&& mMoreData != 0) = more
    generalize encapProtects ic n (etherHeaderOf eth) = wep
    rcases encapAddrs_dir ha with rfl | rfl | rfl <;> cases more <;> cases wep <;> rfl
  · show (if encapQos ic n eth then _ else 0) = if encapQos ic n eth then _ else 0
    split
    · next hq =>
      rw [hget 24 (by decide), he.qos hq]
      exact tid_of_qos (getacFlags_lt _) _
    · rfl

/-- What `ieee80211_encap` writes into every frame of a packet is what the flags ask for, as long as
there is room in front of the packet; without it is what no flags ask for. -/
theorem encap_marks (hb : ∀ n, (ic.icNode n).niBssid.length = 6) (hpkt : Pkt (m :: ms))
    (h14 : 14 ≤ m.mLen) (he : encap h ic n m ms = some (h', ic', some frames)) {c : List Mbuf}
    (hc : c ∈ frames) :
    airMarks (encapQos ic n (bytes (m :: ms))) c = flagMarks (encapQos ic n (bytes (m :: ms)))
      (if LacksRoom ic n (bytes (m :: ms)) m then mPkthdr ||| mExt else m.mFlags) := by
  obtain ⟨-, h1, f, fs, dir, addrs, ha, henc, hhead, hfrag⟩ := encap_chain hb hpkt h14 he
  generalize bytes (m :: ms) = eth at ha henc hhead hfrag ⊢
  obtain ⟨hp, -⟩ := henc.cut ha hfrag
  have hflags : f.mFlags = if LacksRoom ic n eth m then mPkthdr ||| mExt else m.mFlags := by
    rcases hhead with ⟨-, -, hf, -, hroom, -⟩ | ⟨-, hf, hroom⟩
    · rw [if_neg hroom, hf]
    · rw [if_pos hroom, hf]
  rw [← hflags, ← henc.marks ha]
  refine Prod.ext ?_ ?_
  · show (_ != (0 : UInt8)) = (_ != 0)
    have hmask : fc1MoreData = ~~~fc1MoreFrag &&& fc1MoreData := by decide
    rw [hmask, ← UInt8.and_assoc, hp.fc1 c hc, UInt8.and_assoc]
  · show (if encapQos ic n eth then _ else 0) = if encapQos ic n eth then _ else 0
    split
    · next hq =>
      have h26 := (encapHdrsize_bounds ic n eth).2.2 hq
      rw [hp.header c hc 24 (by omega) (by decide) (by decide)]
    · rfl

/-- A new first mbuf loses the flags of the packet, if it had any. Two packets with the same octets
and flags are sent with the same marks exactly if both have room in front or neither, or the flags
ask for none. -/
theorem packet_flags_iff (ic : Ic ν) (hb : ∀ n, (ic.icNode n).niBssid.length = 6) (m : Mbuf)
    (ms : List Mbuf) (hpkt : Pkt (m :: ms)) :
    (∀ h h' m' ms', HeadMove h (m :: ms) h' (m' :: ms') → m'.addr ≠ m.addr →
      (CarriesFlags m m' ↔ m.mFlags &&& packetFlags = 0)) ∧
    ∀ n h h' ic₁ frames g gs k k' ic₂ frames', 14 ≤ m.mLen → 14 ≤ g.mLen → Pkt (g :: gs) →
    g.mFlags = m.mFlags →
      bytes (g :: gs) = bytes (m :: ms) → encap h ic n m ms = some (h', ic₁, some frames) →
      encap k ic n g gs = some (k', ic₂, some frames') → ∀ c ∈ frames, ∀ d ∈ frames',
        (airMarks (encapQos ic n (bytes (m :: ms))) c =
          airMarks (encapQos ic n (bytes (m :: ms))) d ↔
          ((LacksRoom ic n (bytes (m :: ms)) m ↔ LacksRoom ic n (bytes (m :: ms)) g) ∨
            flagMarks (encapQos ic n (bytes (m :: ms))) m.mFlags = (false, 0))) := by
  constructor
  · intro h h' m' ms' hm hne
    obtain ⟨m'', ms'', heq, ⟨haddr, -⟩ | ⟨-, hf⟩⟩ := hm.flags hpkt.1
    · obtain ⟨rfl, -⟩ := cons.inj heq
      exact absurd haddr hne
    · obtain ⟨rfl, -⟩ := cons.inj heq
      exact carriesFlags_new hf
  · intro n h h' ic₁ frames g gs k k' ic₂ frames' h14 h14' hpkt' hflags hbytes he he' c hc d hd
    have hc := encap_marks hb hpkt h14 he hc
    have hd := encap_marks hb hpkt' h14' he' hd
    rw [hbytes, hflags] at hd
    have hnone : ∀ q, flagMarks q (mPkthdr ||| mExt) = (false, 0) := by decide
    rw [hc, hd]
    by_cases hm : LacksRoom ic n (bytes (m :: ms)) m <;>
      by_cases hg : LacksRoom ic n (bytes (m :: ms)) g
    · simp only [hm, hg, true_or]
    · simp only [hm, hg, if_true, if_false, hnone, iff_false, not_true, false_or]
      exact eq_comm
    · simp only [hm, hg, if_true, if_false, hnone, iff_true, false_or]
    · simp only [hm, hg, true_or]

/-- An access point with a QoS station. -/
def qosAp : Ic Unit :=
  { thresholdAp 2346 with icNode := fun n => { (thresholdAp 2346).icNode n with niQos := true } }

/-- A voice packet for a sleeping station with more to come, with `lead` octets in front. -/
def psPacket (lead : Nat) : Mbuf :=
  { addr := 7, mFlags := mPkthdr ||| mExt ||| mMoreData ||| 0x6000
    mCluster := store (fun _ => 0) lead (numberedEther 8), mData := lead
    mLen := 22, pkthdrLen := 22 }

/-- With 256 and with 64 octets in front it is sent the same way. -/
theorem packet_flags_iff_sample :
    ∃ h' ic₁ frames k' ic₂ frames', encap plenty qosAp () (psPacket 256)
    [] = some (h', ic₁, some frames) ∧
      encap plenty qosAp () (psPacket 64) [] = some (k', ic₂, some frames') ∧
      ∀ c ∈ frames, ∀ d ∈ frames', airMarks true c = airMarks true d := by
  refine ⟨_, _, _, _, _, _, rfl, rfl, ?_⟩
  intro c hc d hd
  refine ((packet_flags_iff qosAp (fun _ => rfl) (psPacket 256) [] ⟨by decide, rfl⟩).2 () plenty _ _
    _ (psPacket 64)
    [] plenty _ _ _ (by decide) (by decide) ⟨by decide, rfl⟩ rfl (by decide +kernel) rfl rfl c hc d
    hd).mpr (.inl ?_)
  decide +kernel

/-- With none in front it is sent as the last packet, and with best effort; and `m_pullup` of a
packet whose Ethernet header is in two mbufs returns one without these flags. -/
theorem packet_flags_lost :
    ((encap plenty qosAp () (psPacket 256) []).bind fun r => r.2.2).map (map (airMarks true)) =
        some [(true, 6)] ∧
      ((encap plenty qosAp () (psPacket 0) []).bind fun r => r.2.2).map (map (airMarks true)) =
        some [(false, 0)] ∧
      (psPacket 256).mFlags = (psPacket 0).mFlags ∧ bytes [psPacket 256] = bytes [psPacket 0] ∧
      ((mPullup plenty [{ psPacket 256 with mLen := 10 }, { packet 8 (numberedEther 8) with
        mFlags := mExt, mData := mhAlign + 10, mLen := 12 }] 14).2.map (map Mbuf.mFlags)) =
          some [mPkthdr ||| mExt, mExt] := by
  decide +kernel

/-! ## The access category -/

/-- The category that is read is the union of the one that was there and the one that was set. -/
theorem getac_setac {ac : Nat} (hac : ac < 4) (flags : UInt32) :
    getacFlags (setacFlags flags ac) = getacFlags flags ||| ac := by
  have hs :
      setacFlags flags ac >>> 13 &&& (0x3 : UInt32) = (flags >>> 13 &&& (0x3 : UInt32)) |||
      UInt32.ofNat ac := by
    apply UInt32.eq_of_toBitVec_eq
    ext i hi
    interval_cases ac <;> interval_cases i <;> simp [setacFlags, mWmeAcMask, mLink1, mLink2]
  rw [getacFlags, hs, UInt32.toNat_or, UInt32.toNat_ofNat', Nat.mod_eq_of_lt (by omega)]
  rfl

/-- Flags that are used for something else. -/
def otherFlags : UInt32 :=
  mHasfcs ||| mExt ||| mPkthdr ||| mMoreData ||| mPwrSav ||| mMcast ||| mBcast

/-- Of these an odd category sets `M_HASFCS`. -/
theorem setac_and_otherFlags {ac : Nat} (hac : ac < 4) (flags : UInt32) :
    setacFlags flags ac &&& otherFlags = (flags &&& otherFlags) |||
    (if ac % 2 = 1 then mHasfcs else 0) := by
  have hmask : ~~~mWmeAcMask &&& otherFlags = otherFlags := by decide
  have hbit : ∀ ac < 4, UInt32.ofNat ac <<< 13 &&& otherFlags = if ac % 2 = 1 then mHasfcs
      else 0 := by decide
  rw [setacFlags, uint32_or_and, UInt32.and_assoc, hmask, hbit ac hac]

theorem setac_keeps_iff {ac : Nat} (hac : ac < 4) (flags : UInt32) :
    setacFlags flags ac &&& otherFlags = flags &&& otherFlags ↔
    (ac % 2 = 1 → flags &&& mHasfcs ≠ 0) := by
  have hsub : otherFlags &&& mHasfcs = mHasfcs := by decide
  rw [setac_and_otherFlags hac]
  split
  · next hodd =>
    constructor
    · intro heq _ h0
      have := congrArg (· &&& mHasfcs) heq
      simp only [uint32_or_and, UInt32.and_assoc, hsub, h0] at this
      exact absurd this (by decide)
    · intro hset
      rcases and_single_bit flags (show mHasfcs.toNat = 2 ^ 13 from rfl) with h0 | h1
      · exact absurd h0 (hset hodd)
      · rw [← h1, UInt32.and_comm flags, UInt32.and_comm flags, ← uint32_or_and,
          show otherFlags ||| mHasfcs = otherFlags by decide]
  · next heven => exact ⟨fun _ hodd => absurd hodd heven, fun _ => UInt32.or_zero⟩

/-- What a call of `ieee80211_classify` reads besides the packet. -/
structure Classification where
  inet : Bool
  acm : Nat → Bool
  opmode : Opmode
  niQos : Bool
  niVlan : UInt16
  csumData : UInt16

/-- The category that a call chooses. -/
def Classification.ac (c : Classification) (m : Mbuf) : Option Nat :=
  classifyAc c.inet c.acm c.opmode c.niQos c.niVlan c.csumData m

/-- A packet that is classified again and again, and the categories chosen for it. -/
def classifyAll : List Classification → Mbuf → Option (Mbuf × List Nat)
  | [], m => some (m, [])
  | c :: cs, m =>
    match classify c.inet c.acm c.opmode c.niQos c.niVlan c.csumData m, c.ac m with
    | some m, some ac => (classifyAll cs m).map fun r => (r.1, ac :: r.2)
    | _, _ => none

theorem acmLoop_lt (acm : Nat → Bool) (fuel : Nat) {ac : Nat} (hac : ac < 4) :
    acmLoop acm fuel ac < 4 := by
  induction fuel generalizing ac with
  | zero => exact hac
  | succ fuel ih =>
    rw [acmLoop]
    split
    · refine ih ?_
      rw [acmap]
      split
      · decide
      · split <;> decide
    · exact hac

theorem classifyAc_lt {acm : Nat → Bool} {opmode : Opmode} {niQos : Bool} {niVlan csumData : UInt16}
    {ac : Nat} (h : classifyAc inet acm opmode niQos niVlan csumData m = some ac) : ac < 4 := by
  have hvlan : ∀ tag, vlanWmeAc tag < 4 := by
    intro tag
    rw [vlanWmeAc]
    split <;> decide
  have htos : ∀ tos, tosWmeAc tos < 4 := by
    intro tos
    rw [tosWmeAc]
    split
    · decide
    split
    · decide
    split <;> decide
  rw [classifyAc] at h
  split at h
  · cases h
    decide
  split at h
  · cases h
  cases h
  generalize hv : (if niVlan ≠ 0 then vlanWmeAc niVlan else 0) = v
  generalize hd :
    (if inet = true ∧ (etherHeader m).etherType = ethertypeIp then tosWmeAc (m.get 15)
    else wmeAcBe) = d
  have hv4 : v < 4 := by
    rw [← hv]
    split
    · exact hvlan _
    · decide
  have hd4 : d < 4 := by
    rw [← hd]
    split
    · exact htos _
    · decide
  have hmax : (if v > d then v else d) < 4 := by
    split
    · exact hv4
    · exact hd4
  split
  · exact acmLoop_lt _ _ hmax
  · exact hmax

/-- The category that is read in the end is the union of all. Nothing else is touched but the
flags. -/
theorem classifyAll_getac (h : classifyAll cs m = some (m', acs)) :
    getacFlags m'.mFlags = acs.foldl (· ||| ·) (getacFlags m.mFlags) ∧ ∀ ac ∈ acs, ac < 4 := by
  induction cs generalizing m acs with
  | nil =>
    cases h
    exact ⟨rfl, fun _ hac => by cases hac⟩
  | cons c cs ih =>
    rw [classifyAll, classify, Classification.ac] at h
    cases hac : classifyAc c.inet c.acm c.opmode c.niQos c.niVlan c.csumData m with
    | none =>
      rw [hac] at h
      cases h
    | some ac =>
      rw [hac] at h
      obtain ⟨⟨m1, acs1⟩, hrest, heq⟩ := map_eq_some_iff.mp h
      cases heq
      have hlt := classifyAc_lt hac
      obtain ⟨hget, hall⟩ := ih hrest
      refine ⟨?_, fun a ha => ?_⟩
      · rw [hget, foldl_cons]
        exact congrArg (acs1.foldl _) (getac_setac hlt _)
      · rcases mem_cons.mp ha with rfl | ha
        · exact hlt
        · exact hall a ha

/-- Every part of a union is below what the union is below. -/
theorem or_or_eq_iff (a x b : Nat) : a ||| x ||| b = b ↔ a ||| b = b ∧ x ||| b = b := by
  have hpart : ∀ a x, a ||| x ||| b = b → a ||| b = b := by
    intro a x h
    rw [← h, Nat.or_assoc, ← Nat.or_assoc, Nat.or_self]
  constructor
  · intro h
    exact ⟨hpart a x h, hpart x a (by rwa [Nat.or_comm x a])⟩
  · rintro ⟨ha, hx⟩
    rw [Nat.or_assoc, hx, ha]

theorem foldl_or_eq_iff (l : List Nat) (a b : Nat) :
    l.foldl (· ||| ·) a ||| b = b ↔ ∀ x ∈ a :: l, x ||| b = b := by
  induction l generalizing a with
  | nil => simp
  | cons x l ih =>
    rw [foldl_cons, ih]
    simp only [mem_cons, forall_eq_or_imp, or_or_eq_iff, and_assoc]

theorem wmeAcToTid_inj {a b : Nat} (ha : a < 4) (hb : b < 4) :
    wmeAcToTid a = wmeAcToTid b ↔ a = b := by
  interval_cases a <;> interval_cases b <;> decide

theorem classifyAll_snoc {c : Classification} {m₁ : Mbuf} {ac : Nat}
    (h : classifyAll cs m = some (m₁, acs)) (hac : c.ac m₁ = some ac) :
    classifyAll (cs ++ [c]) m = some (wmeSetac m₁ ac, acs ++ [ac]) := by
  induction cs generalizing m acs with
  | nil =>
    cases h
    rw [Classification.ac] at hac
    rw [nil_append, classifyAll, classify, Classification.ac, hac]
    rfl
  | cons d cs ih =>
    rw [classifyAll] at h
    split at h
    · next m2 a hm ha =>
      obtain ⟨⟨m3, as⟩, hrest, heq⟩ := map_eq_some_iff.mp h
      cases heq
      rw [cons_append, classifyAll, hm, ha]
      simp only [ih hrest]
      rfl
    · cases h

/-- `iwm_start` classifies the packet, takes the ring from it, and has it encapsulated. -/
theorem startEncap_classified {sc sc' : Iwm.TxSoftc ν} {adhoc : Option ν} {ac : Nat}
    (h14 : 14 ≤ m.mLen) (h : Iwm.startEncap inet sc adhoc m ms = some (sc', some (n, f, fs, ac))) :
    ∃ (c : Classification) (last : Nat) (h₁ h' : Heap) (ic ic' : Ic ν) (rest : List (List Mbuf)),
      c.ac m = some last ∧ ac = Iwm.startAc (wmeSetac m last) ∧
      encap h₁ ic n (wmeSetac m last) ms = some (h', ic', some ((f :: fs) :: rest)) := by
  rw [Iwm.startEncap, pullupTo, if_neg (by omega)] at h
  dsimp only at h
  split at h
  · cases h
  next rx n1 _ =>
  rw [classify] at h
  cases hac : classifyAc inet sc.wmeAcm rx.ic.icOpmode (rx.ic.icNode n1).niQos (sc.niVlan n1)
      (sc.csumData m.addr) m with
  | none =>
    rw [hac] at h
    cases h
  | some last =>
    have hcall :
        Classification.ac ⟨inet, sc.wmeAcm, rx.ic.icOpmode, (rx.ic.icNode n1).niQos, sc.niVlan n1,
      sc.csumData m.addr⟩ m = some last := hac
    rw [hac] at h
    simp only [map_some] at h
    split at h
    · cases h
    · next he =>
      cases h
      exact ⟨_, last, _, _, _, _, _, hcall, rfl, he⟩
    · cases h

/-- The category set is read back exactly if it has the bits of the one that was there, and an odd
one sets `M_HASFCS`. After any sequence of classifications the ring of `iwm_start` and the TID are
those of the last category exactly if it has the bits of all before, and, for the TID, if the first
mbuf stays or best effort was chosen. `iwm_start` makes the last classification itself. -/
theorem wme_tag_iff (ic : Ic ν) (hb : ∀ n, (ic.icNode n).niBssid.length = 6) :
    (∀ flags ac, ac < 4 → (getacFlags (setacFlags flags ac) = ac ↔ getacFlags flags ||| ac = ac)) ∧
    (∀ flags ac, ac < 4 →
      (setacFlags flags ac &&& otherFlags = flags &&& otherFlags ↔
        (ac % 2 = 1 → flags &&& mHasfcs ≠ 0))) ∧
    (∀ cs m m' acs last, classifyAll cs m = some (m', acs ++ [last]) →
      (Iwm.startAc m' = (if (etherHeader m').etherType ≠ ethertypePae then last else wmeAcBe) ↔
        ((etherHeader m').etherType ≠ ethertypePae → ∀ a ∈ getacFlags m.mFlags :: acs,
          a ||| last = last)) ∧
      ∀ n h ms h' ic' frames, Pkt (m' :: ms) → 14 ≤ m'.mLen →
      encapQos ic n (bytes (m' :: ms)) = true →
        encap h ic n m' ms = some (h', ic', some frames) → ∀ c ∈ frames,
          ((hdrOf (bytes c) 24 &&& 0x0f).toNat = wmeAcToTid last ↔
            if LacksRoom ic n (bytes (m' :: ms)) m' then last = 0
            else ∀ a ∈ getacFlags m.mFlags :: acs, a ||| last = last)) ∧
    ∀ inet (sc : Iwm.TxSoftc ν) adhoc cs m₀ m acs ms sc' n f fs ac,
    classifyAll cs m₀ = some (m, acs) →
      14 ≤ m.mLen → Iwm.startEncap inet sc adhoc m ms = some (sc', some (n, f, fs, ac)) →
      ∃ (c : Classification) (last : Nat) (m' : Mbuf) (h₁ h' : Heap) (ic₁ ic' : Ic ν)
        (rest : List (List Mbuf)),
        classifyAll (cs ++ [c]) m₀ = some (m', acs ++ [last]) ∧ ac = Iwm.startAc m' ∧
        encap h₁ ic₁ n m' ms = some (h', ic', some ((f :: fs) :: rest)) := by
  refine ⟨fun flags ac hac => by rw [getac_setac hac], fun flags ac hac =>
    setac_keeps_iff hac flags, ?_, ?_⟩
  · intro cs m m' acs last hcs
    obtain ⟨hget, hall⟩ := classifyAll_getac hcs
    have hlast : last < 4 := hall last (mem_append_right _ mem_cons_self)
    rw [foldl_append] at hget
    have hiff : getacFlags m'.mFlags = last ↔ ∀ a ∈ getacFlags m.mFlags :: acs,
        a ||| last = last := by
      rw [hget, ← foldl_or_eq_iff]
      rfl
    constructor
    · rw [Iwm.startAc, ← hiff]
      split
      · next hp => exact ⟨fun h _ => h, fun h => h hp⟩
      · next hp => exact ⟨fun _ h => absurd h hp, fun _ => rfl⟩
    · intro n h ms h' ic' frames hpkt h14 hqos he c hc
      have hm := congrArg Prod.snd (encap_marks hb hpkt h14 he hc)
      simp only [airMarks, flagMarks, hqos, if_true] at hm
      rw [hm, wmeAcToTid_inj (getacFlags_lt _) hlast]
      split
      · exact eq_comm
      · exact hiff
  · intro inet sc adhoc cs m₀ m acs ms sc' n f fs ac hcs h14 hs
    obtain ⟨c, last, h₁, h', ic₁, ic', rest, hac, hring, he⟩ := startEncap_classified h14 hs
    exact ⟨c, last, _, h₁, h', ic₁, ic', rest, classifyAll_snoc hcs hac, hring, he⟩

/-- A call for a QoS node of an access point that is in a VLAN. -/
def vlanCall (niVlan : UInt16) : Classification :=
  { inet := false, acm := fun _ => false, opmode := .hostap, niQos := true, niVlan, csumData := 0 }

/-- A packet with a VLAN tag. -/
def taggedPacket : Mbuf := { psPacket 256 with mFlags := mPkthdr ||| mExt ||| mProto1 }

/-- Best effort, then voice: ring and TID are those of voice. -/
theorem wme_tag_iff_sample :
    ∃ m', classifyAll [vlanCall 0, vlanCall 0xc000] taggedPacket = some (m', [0, 3]) ∧
    Iwm.startAc m' = 3 ∧
      ∃ h' ic' frames, encap plenty qosAp () m' [] = some (h', ic', some frames) ∧
        ∀ c ∈ frames, (hdrOf (bytes c) 24 &&& 0x0f).toNat = 6 := by
  refine ⟨_, rfl, ?_, _, _, _, rfl, fun c hc => ?_⟩
  · exact (((wme_tag_iff qosAp fun _ => rfl).2.2.1 [vlanCall 0, vlanCall 0xc000] taggedPacket _ [0]
      3 rfl).1).mpr
      fun _ => by decide +kernel
  · refine (((wme_tag_iff qosAp fun _ => rfl).2.2.1 [vlanCall 0, vlanCall 0xc000] taggedPacket _ [0]
      3 rfl).2 ()
      plenty [] _ _ _ ⟨by decide, rfl⟩ (by decide) (by decide +kernel) rfl c hc).mpr ?_
    decide +kernel

/-- Voice, then best effort: ring and TID are still those of voice. One classification as voice
sets `M_HASFCS`, and with that flag best effort is read as background. -/
theorem wme_tag_sticks :
    (classifyAll [vlanCall 0xc000, vlanCall 0] taggedPacket).map (fun r => (r.2, Iwm.startAc r.1)) =
    some ([3, 0], 3) ∧
      ((classifyAll [vlanCall 0xc000, vlanCall 0] taggedPacket).bind fun r =>
        ((encap plenty qosAp () r.1 []).bind fun e => e.2.2).map (map (airMarks true))) =
        some [(false, 6)] ∧
      setacFlags 0 3 &&& mHasfcs ≠ 0 ∧ getacFlags (setacFlags mHasfcs 0) = 1 := by
  decide +kernel

end Net80211
