import Net80211.Output
import Net80211.Proofs.Mbuf

/-!
# Which frames leave protected

Every frame that `ieee80211_encap` returns, the fragments included, shows the
same `IEEE80211_FC1_WEP`, and it is the one `encapProtects` decides before any
buffer is touched. For a station with privacy on and a frame that is not EAPOL
the decision comes down to whether a transmit key is found: where none is, the
frame is counted and sent on in the clear.
-/

namespace Net80211

open Lib Crypto List Option

/-- Does a frame carry `IEEE80211_FC1_WEP`? -/
def carriesWep : List Mbuf → Bool
  | [] => false
  | m :: _ => m.get 1 &&& fc1Wep != 0

/-! ## Octets of the header -/

theorem Mbuf.get_put_add (m : Mbuf) (i k : Nat) (p : List UInt8) :
    (m.put i p).get (i + k) = (p[k]?).getD (m.get (i + k)) := by
  rw [Mbuf.get, Mbuf.put]
  dsimp only
  rw [show m.mData + (i + k) = m.mData + i + k by omega, store_add, Mbuf.get,
    show m.mData + (i + k) = m.mData + i + k by omega]

theorem Mbuf.get_put_of_lt (m : Mbuf) {i j : Nat} (p : List UInt8) (h : j < i) :
    (m.put i p).get j = m.get j :=
  store_of_lt m.mCluster p (show m.mData + j < m.mData + i by omega)

theorem Mbuf.get_put_one (m : Mbuf) (b : UInt8) : (m.put 1 [b]).get 1 = b :=
  Mbuf.get_put_add m 1 0 [b]

theorem and_moreFrag_wep (x : UInt8) : (x &&& ~~~fc1MoreFrag) &&& fc1Wep = x &&& fc1Wep := by
  rw [UInt8.and_assoc]
  rfl

theorem or_and_eq (x b c : UInt8) : (x ||| b) &&& c = (x &&& c) ||| (b &&& c) := by
  apply UInt8.eq_of_toBitVec_eq
  ext i hi
  simp only [UInt8.toBitVec_and, UInt8.toBitVec_or, BitVec.getElem_and, BitVec.getElem_or]
  exact Bool.and_or_distrib_right ..

theorem or_and_wep {b : UInt8} (hb : b &&& fc1Wep = 0) (x : UInt8) :
    (x ||| b) &&& fc1Wep = x &&& fc1Wep := by
  rw [or_and_eq, hb, UInt8.or_zero]

theorem or_wep (x : UInt8) : (x ||| fc1Wep) &&& fc1Wep ≠ 0 := by
  intro h
  have : ((x ||| fc1Wep) &&& fc1Wep) &&& fc1Wep = fc1Wep := by
    apply UInt8.eq_of_toBitVec_eq
    ext i hi
    simp only [UInt8.toBitVec_and, UInt8.toBitVec_or, BitVec.getElem_and, BitVec.getElem_or]
    cases fc1Wep.toBitVec[i] <;> simp
  rw [h] at this
  exact absurd this (by decide)

/-! ## Fragments -/

variable {m0 : Mbuf} {ms0 : List Mbuf} {hdrsize ciphdrsize mtu : Nat} {frames : List (List Mbuf)}

theorem fragmentAt_fc1 (hh : 2 ≤ hdrsize) (fragsize fragno off payload : Nat) (m : Mbuf) :
    (fragmentAt m0 ms0 hdrsize ciphdrsize fragsize fragno off payload m).get 1 = m0.get 1 := by
  have hcopy : ∀ m : Mbuf, (m.put 0 (window m0.mCluster m0.mData hdrsize)).get 1 = m0.get 1 := by
    intro m
    have := Mbuf.get_put_add m 0 1 (window m0.mCluster m0.mData hdrsize)
    rw [getElem?_window _ _ _ _ (by omega)] at this
    exact this
  rw [fragmentAt]
  refine (Mbuf.get_put_of_lt _ _ (by omega)).trans ?_
  rw [Mbuf.get_put_of_lt _ _ (by omega), hcopy]

theorem fragmentLoop_wep (hh : 2 ≤ hdrsize) : ∀ (fuel : Nat) (h h' : Heap)
    (fragno off remainder : Nat) (acc frags : List Mbuf),
    (∀ m ∈ acc, m.get 1 &&& fc1Wep = m0.get 1 &&& fc1Wep) →
    fragmentLoop m0 ms0 hdrsize ciphdrsize mtu fuel h fragno off remainder acc =
      some (h', some frags) → ∀ m ∈ frags, m.get 1 &&& fc1Wep = m0.get 1 &&& fc1Wep := by
  intro fuel
  induction fuel with
  | zero =>
    intro h h' fragno off remainder acc frags _ hl
    exact absurd hl (by simp [fragmentLoop])
  | succ fuel ih =>
    intro h h' fragno off remainder acc frags hacc hl
    rw [fragmentLoop] at hl
    dsimp only at hl
    split at hl
    · cases hl
    next h1 m _ =>
    have hfc : ∀ fragsize payload, (fragmentAt m0 ms0 hdrsize ciphdrsize fragsize fragno off
        payload m).get 1 = m0.get 1 := fun _ _ => fragmentAt_fc1 hh _ _ _ _ m
    split at hl
    · refine ih _ _ _ _ _ _ _ ?_ hl
      intro f hf
      rcases mem_append.mp hf with hf | hf
      · exact hacc f hf
      · rw [mem_singleton.mp hf, hfc]
    · injection hl with hl
      obtain rfl := Option.some.inj (Prod.mk.inj hl).2
      intro f hf
      rcases mem_append.mp hf with hf | hf
      · exact hacc f hf
      · rw [mem_singleton.mp hf, Mbuf.get_put_one, hfc, and_moreFrag_wep]

theorem fragment_wep {h h' : Heap} (hh : 2 ≤ hdrsize) (hlen : mtu < m0.pkthdrLen)
    (hf : fragment h m0 ms0 hdrsize ciphdrsize mtu = some (h', some frames)) :
    frames ≠ [] ∧ ∀ f ∈ frames, carriesWep f = carriesWep (m0 :: ms0) := by
  have hmark : (m0.put 1 [m0.get 1 ||| fc1MoreFrag]).get 1 &&& fc1Wep = m0.get 1 &&& fc1Wep := by
    rw [Mbuf.get_put_one, or_and_wep rfl]
  rw [fragment] at hf
  dsimp only at hf
  split at hf
  · cases hf
  · cases hf
  next h1 frags hloop =>
  injection hf with hf
  obtain rfl := Option.some.inj (Prod.mk.inj hf).2
  refine ⟨cons_ne_nil _ _, ?_⟩
  intro f hmem
  rcases mem_cons.mp hmem with rfl | hmem
  · obtain ⟨m', ms', heq, hget, _⟩ := mAdj_tail_head (m0.put 1 [m0.get 1 ||| fc1MoreFrag]) ms0
      (show -((m0.pkthdrLen : Int) - (mtu - ciphdrsize : Nat)) < 0 by omega)
    have heq' : mAdj (m0.put 1 [m0.get 1 ||| fc1MoreFrag] :: ms0)
        (-(((m0.put 1 [m0.get 1 ||| fc1MoreFrag]).pkthdrLen : Int) - (mtu - ciphdrsize : Nat))) =
        m' :: ms' := heq
    simp only [heq']
    rw [carriesWep, carriesWep, ← hmark, ← hget]
    rfl
  · obtain ⟨m, hm, rfl⟩ := mem_map.mp hmem
    have := fragmentLoop_wep hh _ _ _ _ _ _ _ _ (fun m hm => absurd hm not_mem_nil) hloop m hm
    rw [carriesWep, carriesWep, this, hmark]

/-! ## The frame -/

variable {ν : Type} [DecidableEq ν] {n : ν} {m : Mbuf} {addrs : List UInt8} {ic : Ic ν}
  {ms : List Mbuf} {dir : UInt8}

omit [DecidableEq ν] in
theorem encapAddrs_wep {eh : EtherHeader}
    (h : encapAddrs ic n eh = some (dir, addrs)) : dir &&& fc1Wep = 0 := by
  rw [encapAddrs] at h
  cases hop : ic.icOpmode with
  | monitor => rw [hop] at h; cases h
  | sta | ibss | ahdemo | hostap =>
    rw [hop] at h
    obtain ⟨rfl, _⟩ := Prod.mk.inj (Option.some.inj h)
    rfl

theorem fillHeader_wep {addqos : Bool} (hdir : dir &&& fc1Wep = 0) (m : Mbuf) :
    (fillHeader ic n addqos dir addrs m).1.get 1 &&& fc1Wep = 0 := by
  have hfc1 : ∀ fc1 : UInt8, (m.put 0 ([0x08, fc1, 0, 0] ++ addrs)).get 1 = fc1 := fun fc1 =>
    Mbuf.get_put_add m 0 1 _
  have hqos : ∀ (m : Mbuf) (b : UInt8) (q : List UInt8),
      ((m.put 24 q).put 0 [b]).get 1 = m.get 1 := by
    intro m b q
    refine (Mbuf.get_put_add (m.put 24 q) 0 1 [b]).trans ?_
    exact Mbuf.get_put_of_lt m q (by omega)
  have hmore :
      (if m.mFlags &&& mMoreData != 0 then dir ||| fc1MoreData else dir) &&& fc1Wep = 0 := by
    split
    · rw [or_and_wep rfl, hdir]
    · exact hdir
  rw [fillHeader]
  rw [Mbuf.get_put_of_lt _ _ (by omega)]
  cases addqos with
  | true => rw [if_pos rfl, hqos, hfc1, hmore]
  | false => rw [if_neg (by simp), hfc1, hmore]

/-- The bit is set where the frame is to be protected. -/
theorem carriesWep_mark (ms : List Mbuf) (hm : m.get 1 &&& fc1Wep = 0) (p : Bool) :
    carriesWep ((if p then m.put 1 [m.get 1 ||| fc1Wep] else m) :: ms) = p := by
  cases p with
  | true =>
    rw [if_pos rfl, carriesWep, Mbuf.get_put_one]
    exact bne_iff_ne.mpr (or_wep _)
  | false =>
    rw [if_neg (by simp), carriesWep, hm]
    rfl

/-- Of the interface only the counter of the node changes. -/
theorem encap_ic {h h' : Heap} {ic' : Ic ν} {out : Option (List (List Mbuf))}
    (he : encap h ic n m ms = some (h', ic', out)) :
    ic' = ic ∨ ∃ seqs, ic' = ic.setNode n { ic.icNode n with niTxseqs := seqs } := by
  have hfill : ∀ addqos dir addrs m, (fillHeader ic n addqos dir addrs m).2 = ic ∨
      ∃ seqs, (fillHeader ic n addqos dir addrs m).2 =
        ic.setNode n { ic.icNode n with niTxseqs := seqs } := fun _ _ _ _ => .inr ⟨_, rfl⟩
  rw [encap] at he
  dsimp only at he
  split at he
  · cases he; exact .inl rfl
  split at he
  · split at he
    · cases he; exact .inl rfl
    split at he
    · split at he
      · cases he
      · cases he; exact hfill _ _ _ _
      · cases he; exact hfill _ _ _ _
    · cases he; exact hfill _ _ _ _
  · cases he; exact .inl rfl

theorem encap_carriesWep {h h' : Heap} {ic' : Ic ν}
    (he : encap h ic n m ms = some (h', ic', some frames)) :
    frames ≠ [] ∧ ∀ f ∈ frames, carriesWep f = encapProtects ic n (etherHeader m) := by
  rw [encap] at he
  dsimp only at he
  generalize hqos :
    ((ic.icNode n).niQos && (etherHeader m).etherType != ethertypePae) = addqos at he
  have hh : 2 ≤ (if ic.icKeys.datapad then ((if addqos then 26 else 24) + 3) / 4 * 4
      else (if addqos then 26 else 24)) := by
    split <;> split <;> omega
  generalize (if ic.icKeys.datapad then ((if addqos then 26 else 24) + 3) / 4 * 4
      else (if addqos then 26 else 24)) = hdrsize at he hh
  split at he
  · cases he
  split at he
  · next h2 m2 ms2 _ =>
    split at he
    · cases he
    next dir addrs haddrs =>
    have hwep : (fillHeader ic n addqos dir addrs m2).1.get 1 &&& fc1Wep = 0 :=
      fillHeader_wep (encapAddrs_wep haddrs) m2
    generalize fillHeader ic n addqos dir addrs m2 = filled at he hwep
    have hcarry := carriesWep_mark ms2 hwep (encapProtects ic n (etherHeader m))
    have hpk : (if encapProtects ic n (etherHeader m) then
        filled.1.put 1 [filled.1.get 1 ||| fc1Wep] else filled.1).pkthdrLen =
        filled.1.pkthdrLen := by
      split <;> rfl
    split at he
    · next hfrag =>
      -- A packet is fragmented only where it is longer than the threshold.
      rw [Bool.and_eq_true, Bool.and_eq_true, decide_eq_true_iff] at hfrag
      split at he
      · cases he
      · cases he
      next hf =>
      injection he with he
      obtain rfl := Option.some.inj (Prod.mk.inj (Prod.mk.inj he).2).2
      obtain ⟨hne, hall⟩ := fragment_wep hh (by rw [hpk]; exact hfrag.1.1) hf
      exact ⟨hne, fun f hmem => (hall f hmem).trans hcarry⟩
    · injection he with he
      obtain rfl := Option.some.inj (Prod.mk.inj (Prod.mk.inj he).2).2
      refine ⟨cons_ne_nil _ _, fun f hmem => ?_⟩
      rw [mem_singleton.mp hmem]
      exact hcarry
  · cases he

/-- The packets of a station with privacy on that are not EAPOL leave protected
exactly where a transmit key is found: the unicast key of the node or the
default key. -/
theorem encap_protected_iff_key {h h' : Heap} {ic ic' : Ic ν} {n : ν} {m : Mbuf} {ms : List Mbuf}
    {frames : List (List Mbuf)} (hsta : ic.icOpmode = .sta) (hpriv : ic.icFlags.privacy = true)
    (htype : (etherHeader m).etherType ≠ ethertypePae)
    (he : encap h ic n m ms = some (h', ic', some frames)) :
    (∀ f ∈ frames, carriesWep f = true) ↔ (cryptoGetucastkey ic.icKeys n).isSome = true := by
  have hkey : encapProtects ic n (etherHeader m) = (cryptoGetucastkey ic.icKeys n).isSome := by
    rw [encapProtects, encapKey, if_pos hpriv, if_pos (.inl hsta)]
    cases cryptoGetucastkey ic.icKeys n with
    | none => rfl
    | some s =>
      rw [bne_iff_ne.mpr htype]
      rfl
  obtain ⟨hne, hall⟩ := encap_carriesWep he
  rw [hkey] at hall
  constructor
  · intro hwep
    obtain ⟨f, hf⟩ := exists_mem_of_ne_nil frames hne
    rw [← hall f hf]
    exact hwep f hf
  · intro hsome f hf
    rw [hall f hf]
    exact hsome

/-! ### Two packets -/

/-- A station in a protected network, with one unicast key. -/
def stationWith (cip : Cipher) : Ic Unit :=
  { icOpmode := .sta, icState := .run, icFlags := ⟨true, false, true, true, true⟩, icBss := ()
    icNode := fun _ =>
      { niMacaddr := replicate 6 2, niBssid := replicate 6 2, niAuth := true
        niQos := false, niAuthmode := .ieee8021x, niTxseqs := fun _ => 0 }
    icScan := [()]
    icKeys :=
      { key := fun _ => { resetkey with wkCipher := cip }, defTxkey := none, hwCcm := false
        datapad := false }
    icMyaddr := replicate 6 4, icRoamingAuto := false, icFragthreshold := 48
    icNoack := fun _ => false }

/-- An IPv4 packet of `len` octets behind its Ethernet header. -/
def ipv4Packet (len : Nat) : Mbuf :=
  { addr := 0, mFlags := mExt ||| mPkthdr, mCluster := fun i => if i = 256 + 12 then 8 else 0
    mData := 256, mLen := 14 + len, pkthdrLen := 14 + len }

/-- With privacy on and no key set, the packet leaves in the clear. -/
theorem encap_without_key_clear :
    (stationWith .none).icOpmode = .sta ∧ (stationWith .none).icFlags.privacy = true ∧
      (etherHeader (ipv4Packet 8)).etherType ≠ ethertypePae ∧
      ∃ h' ic' frames, encap ⟨fun _ => none, 0, []⟩ (stationWith .none) () (ipv4Packet 8) [] =
        some (h', ic', some frames) ∧ ∀ f ∈ frames, carriesWep f = false :=
  ⟨rfl, rfl, by decide, _, _, _, rfl, by decide⟩

theorem encap_protected_iff_key_sample :
    ∃ h' ic' frames, encap ⟨fun _ => some fun _ => 0, 0, []⟩ (stationWith .ccmp) ()
    (ipv4Packet 40) [] =
      some (h', ic', some frames) ∧ frames.length = 3 ∧ ∀ f ∈ frames, carriesWep f = true := by
  have hlen :
      (encap ⟨fun _ => some fun _ => 0, 0, []⟩ (stationWith .ccmp) () (ipv4Packet 40) []).map
      (fun r => r.2.2.map length) = some (some 3) := by decide +kernel
  obtain ⟨⟨h', ic', out⟩, he, hout⟩ := map_eq_some_iff.mp hlen
  obtain ⟨frames, rfl, hl⟩ := map_eq_some_iff.mp hout
  exact ⟨h', ic', frames, he, hl, (encap_protected_iff_key rfl rfl
    (show (etherHeader (ipv4Packet 40)).etherType ≠ _ by decide) he).mpr (by decide)⟩

end Net80211
