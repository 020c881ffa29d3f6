import Net80211.Mgmt
import Net80211.Proofs.TxFrame

/-!
# The first mbuf of a frame that is encrypted

`ieee80211_crypto_encap` takes the frame by value: where `M_PREPEND` or `m_pullup` gives the chain a
new first mbuf, the driver goes on with the old one. Neither does where there is room for the cipher
header in front and the 802.11 header is contiguous (`Roomy`), and the cipher only writes behind the
header and appends. With a payload that AES-CCM takes, these are the frames that make the round
trip. The frames of `ieee80211_encap`, its fragments and the management frames are all of this kind:
the room was made by `ieee80211_mbuf_adjust` for the key found then, by `m_align`, or by
`ieee80211_getmgtframe`.
-/

namespace Net80211

open Lib Crypto List Option

/-! ## Room -/

/-- Room for any cipher header, and a contiguous header. -/
structure Roomy (datapad : Bool) (m : Mbuf) (ms : List Mbuf) : Prop where
  pkt : Pkt (m :: ms)
  lead : 8 ≤ m.mData
  contiguous : hdrspace datapad m.get ≤ m.mLen

theorem icHeader_le (c : Cipher) : c.icHeader ≤ 8 := by
  cases c <;> decide

variable {h : Heap} {m : Mbuf} {ms : List Mbuf} {datapad : Bool}

/-- With room, `M_PREPEND` and `m_pullup` leave the first mbuf, and the header is at its start
again. -/
theorem Roomy.encapSpace (hr : Roomy datapad m ms) (h : Heap) (c : Cipher) :
    ∃ m₁, encapSpace h (m :: ms) (hdrspace datapad m.get) c.icHeader = (h, some (m₁, ms)) ∧
      m₁.addr = m.addr ∧ (∀ i < hdrspace datapad m.get, m₁.get i = m.get i) ∧
      m₁.mLen = m.mLen + c.icHeader ∧ Pkt (m₁ :: ms) := by
  have hle := icHeader_le c
  have hlead := hr.lead
  have hpre : mPrepend h (m :: ms) c.icHeader = (h, some (m.grow c.icHeader :: ms)) :=
    mPrepend_within (by omega) (by rw [mclbytes, mhAlign]; omega) hr.pkt.1
  have hpull : pullupTo h (m.grow c.icHeader) ms (hdrspace datapad m.get + c.icHeader) =
      (h, some (m.grow c.icHeader, ms)) := by
    rw [pullupTo, if_neg]
    show ¬ m.mLen + c.icHeader < _
    have := hr.contiguous
    omega
  rw [Net80211.Crypto.encapSpace, hpre]
  simp only [hpull]
  refine ⟨_, rfl, rfl, fun i hi => ?_, rfl, hr.pkt.1, ?_⟩
  · have hwin : window (m.grow c.icHeader).mCluster ((m.grow c.icHeader).mData + c.icHeader)
        (hdrspace datapad m.get) = window m.get 0 (hdrspace datapad m.get) := by
      show window m.mCluster (m.mData - c.icHeader + c.icHeader) _ = _
      rw [Nat.sub_add_cancel (by omega)]
      exact (window_shift m.mCluster m.mData _ 0).symm
    have hstore := store_add (m.grow c.icHeader).get 0 i (window m.get 0 (hdrspace datapad m.get))
    rw [Nat.zero_add, getElem?_window _ _ _ _ hi, Nat.zero_add] at hstore
    rw [hwin, Mbuf.get_put, hstore]
    rfl
  · show m.pkthdrLen + c.icHeader = m.mLen + c.icHeader + mLength ms
    rw [hr.pkt.2, mLength_cons]
    omega

/-! ## Encryption -/

section Crypto

variable {ν : Type} [DecidableEq ν] {E : BlockCipher} {ks : Keys ν} {n : ν}
  {r : EncapResult ν}

/-- The frame still begins in the mbuf of the caller, and that shows the header. Nothing was freed,
and what was allocated is behind the mbufs that were there. -/
def HeadKept (datapad : Bool) (h : Heap) (m : Mbuf) (ms : List Mbuf) (r : EncapResult ν) : Prop :=
  ∃ m' tl new, r.frame = some (m' :: tl) ∧ m'.addr = m.addr ∧
    (∀ i < hdrspace datapad m.get, m'.get i = m.get i) ∧
    tl.map Mbuf.addr = ms.map Mbuf.addr ++ new ∧ Grown h r.heap new

theorem Roomy.headKept (hr : Roomy ks.datapad m ms) (hc : cryptoEncap E h ks n m ms = some r) :
    HeadKept ks.datapad h m ms r := by
  have hmine : HeadKept ks.datapad h m ms
      ({ heap := h, keys := ks, frame := some (m :: ms), key := none } : EncapResult ν) :=
    ⟨m, ms, [], rfl, rfl, fun _ _ => rfl, (append_nil _).symm, .refl _ _⟩
  rw [cryptoEncap] at hc
  split at hc
  · cases hc
    exact hmine
  next s keyid _ =>
  dsimp only at hc
  obtain ⟨m1, hspc, haddr, hget, hlen, -⟩ := hr.encapSpace h (ks.key s).wkCipher
  rw [hspc] at hc
  dsimp only at hc
  have hspace : hdrspace ks.datapad m1.get = hdrspace ks.datapad m.get := by
    have h24 := (hdrspace_bounds ks.datapad m.get).1
    exact hdrspace_congr (hget 0 (by omega)) (hget 1 (by omega)) _
  split at hc
  · cases hc
    exact ⟨m1, ms, [], rfl, haddr, hget, (append_nil _).symm, .refl _ _⟩
  · split at hc
    · cases hc
    next henc =>
    cases hc
    have hcont := hr.contiguous
    obtain ⟨m', tl, new, rfl, hget', hnew, hg⟩ := ccmpEncap_grown (by omega) henc
    obtain ⟨hm', htl⟩ := cons.inj hnew
    refine ⟨m', tl, new, rfl, hm'.trans haddr, fun i hi => ?_, htl, hg⟩
    rw [hget' i (by omega), hget i hi]

/-! ## The round trip -/

/-- A pullup that has to move octets gives the chain a new first mbuf. -/
theorem pullupTo_addr {len : Nat} {h' : Heap} {m' : Mbuf} {ms' : List Mbuf}
    (hp : pullupTo h m ms len = (h', some (m', ms'))) :
    m'.addr = if m.mLen < len then h.next else m.addr := by
  rw [pullupTo] at hp
  split at hp
  · next hlt =>
    rw [if_pos hlt]
    split at hp
    · next hpull =>
      cases hp
      rw [mPullup] at hpull
      split at hpull
      · cases hpull
      split at hpull
      · omega
      split at hpull
      · cases hpull
      split at hpull
      · cases hpull
      next head hget =>
      cases hpull
      have haddr : head.addr = h.next := by
        rw [mGetImpl] at hget
        split at hget <;> cases hget
        rfl
      show (if m.hasPkthdr then mMovePkthdr head m else (head, m)).1.addr = h.next
      split <;> exact haddr
    · cases hp
  · next hlt =>
    cases hp
    rw [if_neg hlt]

theorem encapSpace_mLen {c : List Mbuf} {h₁ : Heap} {m₁ : Mbuf} {ms₁ : List Mbuf} {hdrlen : Nat}
    (hs : encapSpace h c hdrlen 8 = (h₁, some (m₁, ms₁))) : hdrlen + 8 ≤ m₁.mLen := by
  rw [Net80211.Crypto.encapSpace] at hs
  split at hs
  · split at hs
    · cases hs
    next hpull =>
    cases hs
    exact (pullupTo_some hpull).2.1 ▸ Nat.le_max_right _ _
  · cases hs

/-- Without room in front, or with a header that goes on in the next mbuf, the chain gets a new
first mbuf, which the caller does not know of. -/
theorem encapSpace_addr {h₁ : Heap} {m₁ : Mbuf} {ms₁ : List Mbuf} {hdrlen : Nat}
    (hf : m.hasPkthdr = true) (hs : encapSpace h (m :: ms) hdrlen 8 = (h₁, some (m₁, ms₁)))
    (hm : m.mData < 8 ∨ m.mLen < hdrlen) : h.next ≤ m₁.addr := by
  rw [Net80211.Crypto.encapSpace] at hs
  by_cases hlead : 8 ≤ m.mData
  · rw [mPrepend_within hlead (by decide) hf] at hs
    dsimp only at hs
    split at hs
    · cases hs
    next hpull =>
    cases hs
    have hlt : (m.grow 8).mLen < hdrlen + 8 := by
      show m.mLen + 8 < hdrlen + 8
      omega
    have haddr := pullupTo_addr hpull
    rw [if_pos hlt] at haddr
    exact Nat.le_of_eq haddr.symm
  · rw [mPrepend, if_neg (by decide), if_neg (by omega)] at hs
    rcases mGetImpl_cases h with ⟨-, hget⟩ | ⟨n, -, hget, haddr, -⟩
    · rw [hf, hget] at hs
      cases hs
    rw [hf, hget] at hs
    dsimp only at hs
    rw [if_pos rfl] at hs
    dsimp only at hs
    split at hs
    · cases hs
    next hpull =>
    cases hs
    refine Nat.le_trans ?_ (Nat.le_of_eq (pullupTo_addr hpull).symm)
    split
    · exact Nat.le_succ _
    · exact Nat.le_of_eq haddr.symm

/-- The caller of `ieee80211_crypto_encap` goes on with its mbuf `m`. It has the frame where that is
still the first one, with the header as it was; and every receiver then gets the header and the
payload back. -/
def RoundTrips (E : BlockCipher) (ks : Keys ν) (m : Mbuf)
    (hdr payload : List UInt8) (r : EncapResult ν) (s : KeySlot ν) : Prop :=
  ∃ m₁ ms₁ body, r.frame = some (m₁ :: ms₁) ∧ m₁.addr = m.addr ∧
    bytes (m₁ :: ms₁) = hdr ++ body ∧ body.length = payload.length + 16 ∧
    ∀ (stack : Nat → UInt8) (h' : Heap) (ks' : Keys ν) n' m' ms' hdr' s',
      Received ks.datapad (ks.key s) hdr body h' ks' n' m' ms' hdr' s' →
      Opens E stack h' ks' n' m' ms' hdr.length s' (hdr' ++ payload)

variable {hdr payload : List UInt8} {s : KeySlot ν}

omit [DecidableEq ν] in
theorem hdrspace_head (hb : bytes (m :: ms) = hdr ++ payload)
    (hhdr : hdr.length = hdrspace datapad (hdrOf hdr)) (h2 : 2 ≤ m.mLen) :
    hdrspace datapad m.get = hdr.length := by
  have h24 := (hdrspace_bounds datapad (hdrOf hdr)).1
  rw [hhdr]
  exact hdrspace_congr (get_eq_hdrOf hb (by omega) (by omega))
    (get_eq_hdrOf hb (by omega) (by omega)) _

/-- The first mbuf is the caller's only where nothing made `ieee80211_crypto_encap` replace it. -/
theorem cryptoEncap_addr (hpkt : Pkt (m :: ms)) (hb : bytes (m :: ms) = hdr ++ payload)
    (hhdr : hdr.length = hdrspace ks.datapad (hdrOf hdr)) (hm : m.addr < h.next)
    (hr : cryptoEncap E h ks n m ms = some r) (hkey : r.key = some s) {m₁ : Mbuf} {ms₁ : List Mbuf}
    (hframe : r.frame = some (m₁ :: ms₁)) (haddr : m₁.addr = m.addr) :
    8 ≤ m.mData ∧ hdr.length ≤ m.mLen := by
  obtain ⟨keyid, h₁, m0, ms0, k, frame, -, hspc, henc, hframe'⟩ := cryptoEncap_key hr hkey
  cases hframe.symm.trans hframe'
  have hlong : hdrspace ks.datapad m0.get ≤ m0.mLen := by
    have := encapSpace_mLen hspc
    have := hdrspace_bounds ks.datapad m.get
    have := hdrspace_bounds ks.datapad m0.get
    omega
  obtain ⟨m', tl, new, heq, -, hnew, -⟩ := ccmpEncap_grown hlong henc
  obtain ⟨rfl, rfl⟩ := cons.inj heq
  have hm0 : m0.addr = m.addr := ((cons.inj hnew).1.symm.trans haddr)
  by_contra hnot
  have h24 := (hdrspace_bounds ks.datapad m.get).1
  have hmoved : m.mData < 8 ∨ m.mLen < hdrspace ks.datapad m.get := by
    by_cases h2 : 2 ≤ m.mLen
    · rw [hdrspace_head hb hhdr h2]
      omega
    · omega
  have := encapSpace_addr hpkt.1 hspc hmoved
  omega

omit [DecidableEq ν] in
/-- The octets of a packet in two mbufs. -/
theorem bytes_cut (octets : List UInt8) {k : Nat} (hk : k ≤ octets.length) :
    bytes [{ packet 0 octets with mLen := k }, packet 1 (octets.drop k)] = octets := by
  have hhead : ({ packet 0 octets with mLen := k } : Mbuf).bytes = octets.take k := by
    show window (store (fun _ => 0) mhAlign octets) mhAlign k = octets.take k
    rw [← take_window _ _ hk, window_store_same]
  have htail : (packet 1 (octets.drop k)).bytes = octets.drop k := window_store_same _ _ _
  rw [bytes_cons, bytes_singleton, hhead, htail, take_append_drop]

omit [DecidableEq ν] in
/-- A receiver with the first mbuf of length `k`. -/
theorem received_cut {body : List UInt8} {k : Nat} {key : Key} (n : ν) (h : Heap)
    (h24 : 24 ≤ hdr.length) (hk : hdr.length + 8 ≤ k) (hlen : k ≤ (hdr ++ body).length)
    (hsw : key.wkFlags.swcrypt = true) (hpn : (key.wkKeytsc + 1) % 2 ^ 48 ≠ 0) :
    ∃ (ks : Keys ν) (s : KeySlot ν), (ks.key s).wkFlags.swcrypt = true ∧
      Received datapad key hdr body h ks n { packet 0 (hdr ++ body) with mLen := k }
        [packet 1 ((hdr ++ body).drop k)] hdr s := by
  have hb := bytes_cut (hdr ++ body) hlen
  refine ⟨⟨fun _ => { key with wkCipher := .ccmp, wkKeyrsc := 0 }, none, false, datapad⟩, _, hsw,
    ⟨?_, ?_⟩, hb, rfl, .of_eq h24 fun _ _ => rfl, ?_, .inl hk, rfl, rfl, rfl, hsw, rfl,
    Nat.pos_of_ne_zero hpn⟩
  · show ((mPkthdr ||| mExt) &&& mPkthdr != 0) = true
    decide
  · rw [← length_bytes, hb]
    rfl
  · show 5 ≤ k
    omega

/-- What the caller holds is the frame, and receivers get it back, exactly where the first mbuf has
room in front and holds the header, and the payload is not more than AES-CCM takes. Otherwise the
frame begins in an mbuf that the caller never hears of, or there is a segmentation at which the
decryption panics. The packet number 0 is left out: no receiver accepts it. -/
theorem ccmp_round_trip_iff {ν : Type} [DecidableEq ν] {E : BlockCipher}
    {h : Heap} {ks : Keys ν} {n : ν} {m : Mbuf} {ms : List Mbuf} {hdr payload : List UInt8}
    {r : EncapResult ν} {s : KeySlot ν} (hpkt : Pkt (m :: ms))
    (hb : bytes (m :: ms) = hdr ++ payload) (hhdr : hdr.length = hdrspace ks.datapad (hdrOf hdr))
    (hp : 0 < payload.length) (hm : m.addr < h.next) (hr : cryptoEncap E h ks n m ms = some r)
    (hkey : r.key = some s) (hsw : (ks.key s).wkFlags.swcrypt = true)
    (hpn : ((ks.key s).wkKeytsc + 1) % 2 ^ 48 ≠ 0) :
    RoundTrips E ks m hdr payload r s ↔
      8 ≤ m.mData ∧ hdr.length ≤ m.mLen ∧ payload.length ≤ ccmMax := by
  have h24 := (hdrspace_bounds ks.datapad (hdrOf hdr)).1
  constructor
  · rintro ⟨m₁, ms₁, body, hframe, haddr, -, hlen, hopens⟩
    obtain ⟨hlead, hcont⟩ := cryptoEncap_addr hpkt hb hhdr hm hr hkey hframe haddr
    refine ⟨hlead, hcont, ?_⟩
    by_contra hlong
    -- the first mbuf of this receiver ends one octet behind the last block that has a counter
    have hall : (hdr ++ body).length = hdr.length + payload.length + 16 := by
      rw [length_append, hlen, Nat.add_assoc]
    obtain ⟨ks', s', hsw', hrec⟩ := received_cut (k := hdr.length + 8 + (ccmMax + 1)) n h
      (by omega) (by omega) (show _ ≤ (hdr ++ body).length by omega) hsw hpn
    refine absurd (hopens (fun _ => 0) _ _ _ _ _ _ _ hrec) (not_opens_of_long hsw' rfl ?_)
    show _ ≤ (hdr ++ body).length
    omega
  · rintro ⟨hlead, hcont, hmax⟩
    have hspace := hdrspace_head hb hhdr (show 2 ≤ m.mLen by omega)
    have hroomy : Roomy ks.datapad m ms := ⟨hpkt, hlead, hspace ▸ hcont⟩
    obtain ⟨m', tl, new, hframe, haddr, -⟩ := hroomy.headKept hr
    obtain ⟨frame, body, hframe', hb', hlen, hopens⟩ :=
      cryptoEncap_opens hpkt hb hhdr (by omega) hp hmax hr hkey hsw
    cases hframe.symm.trans hframe'
    exact ⟨m', tl, body, hframe, haddr, hb', hlen, hopens⟩

def softHeap : Heap := { alloc := fun _ => some fun _ => 0, next := 10, freed := [] }

def softKeys : Keys Unit :=
  { key := fun _ =>
      { resetkey with
        wkCipher := .ccmp
        wkFlags := { xmit := true, recv := true, group := false, swcrypt := true }
        wkKeyix := some 0
        wkPrivate := some [] }
    defTxkey := none, hwCcm := false, datapad := false }

/-- A data frame with a header of three addresses and a payload of three octets, whose first mbuf
ends after `len` octets. -/
def splitFrame (len : Nat) : Mbuf × Mbuf :=
  ({ addr := 0, mFlags := mExt ||| mPkthdr, mCluster := fun i => if i = 256 then 8 else 0
     mData := 256, mLen := len, pkthdrLen := 27 },
   { addr := 1, mFlags := mExt, mCluster := fun i => UInt8.ofNat (i + 1)
     mData := 0, mLen := 27 - len, pkthdrLen := 0 })

/-- With the header in the first mbuf the frame makes the round trip. -/
theorem ccmp_round_trip_sample : ∃ r,
    cryptoEncap (fun _ b => b) softHeap softKeys () (splitFrame 24).1 [(splitFrame 24).2] = some r ∧
      r.key = some (.ucast ()) ∧
      RoundTrips (fun _ b => b) softKeys (splitFrame 24).1 (8 :: replicate 23 0) [1, 2, 3] r
        (.ucast ()) := by
  have hkey : (cryptoEncap (fun _ b => b) softHeap softKeys () (splitFrame 24).1
      [(splitFrame 24).2]).map (·.key) = some (some (.ucast ())) := by decide +kernel
  obtain ⟨r, hr, hk⟩ := map_eq_some_iff.mp hkey
  refine ⟨r, hr, hk, (ccmp_round_trip_iff ⟨rfl, rfl⟩ (by decide) (by decide) (by decide)
    (by decide) hr hk rfl (by decide)).mpr (by decide)⟩

/-- With ten octets in the first mbuf `ieee80211_crypto_encap` returns the key as well, but the
frame now begins in a new mbuf, and that of the caller is freed. -/
theorem ccmp_round_trip_moves_head :
    Pkt [(splitFrame 10).1, (splitFrame 10).2] ∧
    hdrspace false (hdrOf (bytes [(splitFrame 10).1, (splitFrame 10).2])) = 24 ∧
    (cryptoEncap (fun _ b => b) softHeap softKeys () (splitFrame 10).1 [(splitFrame 10).2]).map
      (fun r => (r.key, r.frame.map (·.map Mbuf.addr), r.heap.freed)) =
        some (some (.ucast ()), some [10, 1], [0]) := by
  exact ⟨⟨rfl, rfl⟩, by decide, by decide +kernel⟩

theorem ccmpEncap_isSome {k : Key} {keyid : UInt8} (hpkt : Pkt (m :: ms))
    (hpos : hdrspace datapad m.get + 8 < mLength (m :: ms))
    (hmax : mLength (m :: ms) ≤ hdrspace datapad m.get + 8 + ccmMax) :
    (ccmpEncap E datapad h k m ms keyid).isSome = true := by
  rw [ccmpEncap]
  split
  · generalize (k.wkKeytsc + 1) % 2 ^ 64 = tsc
    generalize hm : m.put (hdrspace datapad m.get) (ccmpHeader tsc keyid) = m1
    have hlen : mLength (m1 :: ms) = mLength (m :: ms) := by rw [← hm]; rfl
    have hpk : m1.pkthdrLen = mLength (m :: ms) := by rw [← hm]; exact hpkt.2
    have hslice : ((bytes (m1 :: ms)).drop (hdrspace datapad m.get + 8)).length =
        mLength (m :: ms) - (hdrspace datapad m.get + 8) := by
      rw [length_drop, length_bytes, hlen]
    have htake := @take_length _ ((bytes (m1 :: ms)).drop (hdrspace datapad m.get + 8))
    obtain ⟨C', ms1, henc, -, -⟩ :=
      aesCcmEncMbuf_rfc3610 (ccmpParams_valid (E k.wkPrivate) m1.get tsc)
      (length_ccmpAd m1.get) (by omega) (by omega) htake aesCcmLocal
    rw [hslice] at henc
    rw [ccmpEncrypt, hpk, if_neg (by omega)]
    dsimp only
    rw [show aesCcmEncMbuf (E k.wkPrivate) (ccmpInitBlocks (E k.wkPrivate) m1.get tsc _)
      (m1 :: ms) _ _ = _ from henc]
    rfl
  · rfl

/-- And it comes to its end: the octets behind the header are some, and not more than AES-CCM
takes. -/
theorem Roomy.isSome (hr : Roomy ks.datapad m ms)
    (hpos : hdrspace ks.datapad m.get < mLength (m :: ms))
    (hmax : mLength (m :: ms) ≤ hdrspace ks.datapad m.get + ccmMax) :
    (cryptoEncap E h ks n m ms).isSome = true := by
  rw [cryptoEncap]
  split
  · rfl
  next s keyid _ =>
  dsimp only
  obtain ⟨m1, hspc, -, hget, hlen, hpkt1⟩ := hr.encapSpace h (ks.key s).wkCipher
  have hspace : hdrspace ks.datapad m1.get = hdrspace ks.datapad m.get := by
    have h24 := (hdrspace_bounds ks.datapad m.get).1
    exact hdrspace_congr (hget 0 (by omega)) (hget 1 (by omega)) _
  rw [mLength_cons] at hpos hmax
  rw [hspc]
  cases hcip : (ks.key s).wkCipher with
  | none => rfl
  | ccmp =>
    rw [hcip] at hlen
    have hsome : (ccmpEncap E ks.datapad h (ks.key s) m1 ms (keyid <<< 6)).isSome = true := by
      refine ccmpEncap_isSome hpkt1 ?_ ?_
      · rw [hspace, mLength_cons, hlen, Cipher.icHeader]
        omega
      · rw [hspace, mLength_cons, hlen, Cipher.icHeader]
        omega
    obtain ⟨⟨h2, k, c, ok⟩, henc⟩ := isSome_iff_exists.mp hsome
    simp only [henc]
    rfl

/-- Whatever the keys are when the driver encrypts the frame, the first mbuf stays. -/
def KeepsHead (ν : Type) [DecidableEq ν] (datapad : Bool) (m : Mbuf) (ms : List Mbuf) : Prop :=
  ∀ (E : BlockCipher) (h : Heap) (ks : Keys ν) (n : ν), ks.datapad = datapad →
    (hdrspace datapad m.get < mLength (m :: ms) → mLength (m :: ms) ≤ ccmMax →
      (cryptoEncap E h ks n m ms).isSome = true) ∧
    ∀ r, cryptoEncap E h ks n m ms = some r → HeadKept datapad h m ms r

theorem Roomy.keepsHead (hr : Roomy datapad m ms) : KeepsHead ν datapad m ms := by
  rintro E h ks n rfl
  exact ⟨fun hpos hmax => hr.isSome hpos (by omega), fun r => hr.headKept⟩

end Crypto

/-! ## The frames of `ieee80211_encap` -/

section Encap

variable {ν : Type} [DecidableEq ν] {ic ic' : Ic ν} {n : ν} {h' : Heap} {frames : List (List Mbuf)}

omit [DecidableEq ν] in
theorem encapKey_set {eh : EtherHeader} {s : KeySlot ν} (hk : encapKey ic n eh = some s) :
    (ic.icKeys.key s).wkCipher ≠ .none := by
  have hmcast : ∀ {s : KeySlot ν}, cryptoGetmcastkey ic.icKeys = some s →
      (ic.icKeys.key s).wkCipher ≠ .none := by
    intro s hm
    rw [cryptoGetmcastkey] at hm
    split at hm
    · cases hm
    split at hm
    · cases hm
    next hset =>
    cases hm
    exact hset
  rw [encapKey] at hk
  split at hk
  · split at hk
    · rw [cryptoGetucastkey] at hk
      split at hk
      · exact hmcast hk
      next hset =>
      cases hk
      exact hset
    · exact hmcast hk
  · cases hk

omit [DecidableEq ν] in
/-- For a protected frame `ieee80211_mbuf_adjust` makes room for a CCMP header. -/
theorem encapCipher_protects {eth : List UInt8}
    (hp : encapProtects ic n (etherHeaderOf eth) = true) : (encapCipher ic n eth).icHeader = 8 := by
  rw [encapProtects] at hp
  rw [encapCipher]
  cases hk : encapKey ic n (etherHeaderOf eth) with
  | none =>
    rw [hk] at hp
    cases hp
  | some s =>
    show (ic.icKeys.key s).wkCipher.icHeader = 8
    cases hc : (ic.icKeys.key s).wkCipher with
    | none => exact absurd hc (encapKey_set hk)
    | ccmp => rfl

omit [DecidableEq ν] in
/-- The header of a frame that starts with what `ieee80211_encap` wrote. -/
theorem roomy_of_addressed {eth addrs : List UInt8} {dir : UInt8} {f : Mbuf} {fs : List Mbuf}
    (ha : encapAddrs ic n (etherHeaderOf eth) = some (dir, addrs))
    (hA : Addressed ic n eth dir addrs (hdrOf (bytes (f :: fs)))) (hpkt : Pkt (f :: fs))
    (hlead : 8 ≤ f.mData) (hlen : encapHdrsize ic n eth ≤ f.mLen) :
    Roomy ic.icKeys.datapad f fs ∧ hdrspace ic.icKeys.datapad f.get = encapHdrsize ic n eth := by
  have h24 := (encapHdrsize_bounds ic n eth).1
  have hget : ∀ i < 24, f.get i = hdrOf (bytes (f :: fs)) i :=
    fun i hi => get_eq_bytes fs (by omega)
  have hspace : hdrspace ic.icKeys.datapad f.get = encapHdrsize ic n eth := by
    rw [hdrspace_congr (hget 0 (by decide)) (hget 1 (by decide)), hA.hdrspace ha]
  exact ⟨⟨hpkt, hlead, by omega⟩, hspace⟩

/-- The frames of a protected packet, fragmented or not, have room for the cipher header. -/
theorem encap_roomy (hb : ∀ n, (ic.icNode n).niBssid.length = 6) (hpkt : Pkt (m :: ms))
    (h14 : 14 ≤ m.mLen) (he : encap h ic n m ms = some (h', ic', some frames)) {c : List Mbuf}
    (hc : c ∈ frames) (hwep : carriesWep c = true) :
    ∃ f fs, c = f :: fs ∧ Roomy ic.icKeys.datapad f fs ∧
    hdrspace ic.icKeys.datapad f.get < mLength (f :: fs) := by
  have hprot := (encap_carriesWep he).2 c hc
  rw [hwep, etherHeader_eq ms h14] at hprot
  obtain ⟨-, h1, f, fs, dir, addrs, ha, henc, -, hfrag⟩ := encap_chain hb hpkt h14 he
  generalize bytes (m :: ms) = eth at hprot ha henc hfrag
  have hcip := encapCipher_protects hprot.symm
  have hcont := henc.contiguous
  have hlead := henc.lead
  have h24 := (encapHdrsize_bounds ic n eth).1
  have hA := henc.addressed ha
  split at hfrag
  · next htx =>
    simp only [Bool.and_eq_true, decide_eq_true_eq] at htx
    have hlong : ic.icFragthreshold.toNat < mLength (f :: fs) := by
      rw [← henc.pkt.2]
      exact htx.1.1
    have hmtu := fragment_mtu henc.pkt hlong hfrag
    rcases fragment_spec henc.pkt h24 (by omega) hmtu hlong
      with ⟨k, -, hfail⟩ | ⟨m1, ms1, frags, hrun, hfirst, hcut, -⟩
    · rw [hfail] at hfrag
      cases hfrag
    have hp := fragment_is_partition h24 (by omega) henc.number hmtu hfirst hcut
    rw [hrun] at hfrag
    cases hfrag
    have hhdr : (fragHdr (window f.get 0 (encapHdrsize ic n eth))).length = encapHdrsize ic n eth :=
      (length_fragHdr (by rw [length_window]; omega)).trans (length_window _ _ _)
    have hlenf : (bytes (f :: fs)).length = mLength (f :: fs) := length_bytes _
    have hAc := hp.addressed h24 hA hc
    rcases mem_cons.mp hc with rfl | hc
    · -- the first fragment is what is left of the frame
      have hblen := congrArg length hfirst.octets
      have hmlen := hfirst.len
      rw [length_append, hhdr, length_take, length_drop] at hblen hmlen
      rw [length_bytes] at hblen
      obtain ⟨hroomy, hspace⟩ :=
        roomy_of_addressed ha hAc hfirst.pkt (by rw [hfirst.data]; omega) (by omega)
      exact ⟨m1, ms1, rfl, hroomy, by omega⟩
    · -- the others have an mbuf of their own
      obtain ⟨g, hg, rfl⟩ := mem_map.mp hc
      obtain ⟨i, hi⟩ := mem_iff_getElem?.mp hg
      obtain ⟨b, hpos, -, hown⟩ := hcut.getElem? (by omega) hi
      have hmlen : g.mLen = encapHdrsize ic n eth + b.length := by
        rw [← Mbuf.length_bytes, hown.octets, length_append, length_hdrAt (by omega), hhdr]
      have hpk : Pkt [g] := ⟨hown.pkthdr, by rw [hown.pkthdrLen, mLength_cons]; rfl⟩
      obtain ⟨hroomy, hspace⟩ :=
        roomy_of_addressed ha hAc hpk (by rw [hown.data, mhAlign]; omega) (by omega)
      refine ⟨g, [], rfl, hroomy, ?_⟩
      rw [hspace, mLength_cons, hmlen]
      omega
  · obtain ⟨-, rfl⟩ := hfrag
    obtain rfl := mem_singleton.mp hc
    obtain ⟨hroomy, hspace⟩ := roomy_of_addressed ha hA henc.pkt (by omega) (by omega)
    refine ⟨f, fs, rfl, hroomy, ?_⟩
    rw [hspace, mLength_cons]
    omega

end Encap

/-! ## Management frames -/

variable {ν : Type} {ic : Ic ν} {n : ν} {h' : Heap} {challenge : Option (List UInt8)}
  {subtype : UInt8} {pktlen : Nat} {body : List UInt8} {link0 : Bool} {c : List Mbuf}

/-- A management frame has a header of 24 octets. -/
theorem hdrspace_mgmt {wh : Wh} (h0 : wh 0 &&& fc0TypeMask = 0) (h1 : wh 1 = 0 ∨ wh 1 = fc1Wep)
    (datapad : Bool) : hdrspace datapad wh = 24 := by
  have hqos : hasQos wh = false := by
    rw [hasQos, beq_eq_false_iff_ne]
    intro hq
    have := congrArg (· &&& fc0TypeMask) hq
    simp only [UInt8.and_assoc] at this
    rw [show (0x8c : UInt8) &&& fc0TypeMask = fc0TypeMask from rfl, h0] at this
    cases this
  have h4 : is4Address wh = false := by
    rw [is4Address]
    rcases h1 with h1 | h1 <;> rw [h1] <;> decide
  rw [hdrspace, hdrsize, hqos, h4]
  cases datapad <;> rfl

/-- `ieee80211_getmgtframe` leaves `MH_ALIGN` octets and the header in front. -/
theorem getmgtframe_some (hg : getmgtframe h pktlen = (h', some m)) :
    m.mData = mhAlign + 24 ∧ m.mFlags = mPkthdr ||| mExt := by
  rw [getmgtframe] at hg
  dsimp only at hg
  rcases mGetImpl_cases h with ⟨-, hget⟩ | ⟨n, -, hget, -, hflags, hdata⟩
  · rw [hget] at hg
    cases hg
  · rw [hget] at hg
    cases hg
    have hf : n.hasPkthdr = true := by rw [Mbuf.hasPkthdr, hflags]; decide
    split
    · rw [mAlign, if_neg (by omega), hf]
      exact ⟨rfl, hflags⟩
    · exact ⟨by rw [hdata], hflags⟩

theorem mgmtMbuf_roomy (hmgt : subtype &&& fc0TypeMask = 0)
    (hs : mgmtMbuf h ic n challenge subtype pktlen body link0 = (h', some c)) (datapad : Bool) :
    ∃ f, c = [f] ∧ Roomy datapad f [] := by
  rw [mgmtMbuf] at hs
  dsimp only at hs
  split at hs
  · cases hs
  next h₁ m hget =>
  obtain ⟨hdata, hflags⟩ := getmgtframe_some hget
  generalize hm1 : (if link0 then _ else _ : Mbuf) = m1 at hs
  obtain ⟨hd1, hl1, hp1, hf1⟩ : m1.mData = mhAlign + 24 ∧ m1.mLen = body.length ∧
    m1.pkthdrLen = body.length ∧
      m1.mFlags = if link0 then mPkthdr ||| mExt ||| mLink0 else mPkthdr ||| mExt := by
    rw [← hm1]
    cases link0 with
    | true => exact ⟨hdata, rfl, rfl, congrArg (· ||| mLink0) hflags⟩
    | false => exact ⟨hdata, rfl, rfl, hflags⟩
  have hk1 : m1.hasPkthdr = true := by
    rw [Mbuf.hasPkthdr, hf1]
    cases link0 <;> decide
  have hpre : mPrepend h₁ [m1] 24 = (h₁, some [m1.grow 24]) :=
    mPrepend_within (k := 24) (by omega) (by decide) hk1
  simp only [hpre] at hs
  have h0 : ((m1.grow 24).put 0 (mgmtOutput ic n subtype body).header).get 0 = subtype := by
    rw [Mbuf.get_put]
    rfl
  have h1 : ((m1.grow 24).put 0 (mgmtOutput ic n subtype body).header).get 1 = 0 := by
    rw [Mbuf.get_put]
    rfl
  have hpkt : ∀ f : Mbuf, f.hasPkthdr = true → f.pkthdrLen = body.length + 24 →
      f.mLen = body.length + 24 →
      Pkt [f] := fun f hf hpl hl => ⟨hf, by rw [hpl, mLength_cons, hl]; rfl⟩
  split at hs
  · cases hs
    refine ⟨_, rfl, hpkt _ ?_ ?_ ?_, ?_, ?_⟩
    · show (m1.mFlags &&& ~~~mLink0 &&& mPkthdr != 0) = true
      rw [hf1]
      cases link0 <;> decide
    · exact congrArg (· + 24) hp1
    · exact congrArg (· + 24) hl1
    · show 8 ≤ m1.mData - 24
      rw [hd1, mhAlign]
      omega
    · rw [hdrspace_mgmt]
      · show 24 ≤ m1.mLen + 24
        omega
      · show (((m1.grow 24).put 0 _).put 1 _).get 0 &&& _ = 0
        rw [Mbuf.get_put_of_lt _ _ (by decide), h0]
        exact hmgt
      · right
        show (((m1.grow 24).put 0 _).put 1 _).get 1 = _
        rw [Mbuf.get_put, h1]
        rfl
  · cases hs
    refine ⟨_, rfl, hpkt _ hk1 (congrArg (· + 24) hp1) (congrArg (· + 24) hl1), ?_, ?_⟩
    · show 8 ≤ m1.mData - 24
      rw [hd1, mhAlign]
      omega
    · rw [hdrspace_mgmt (by rw [h0]; exact hmgt) (.inl h1)]
      show 24 ≤ m1.mLen + 24
      omega

/-! ## Both paths -/

/-- The driver's mbuf stays the first one of a frame that it has encrypted, and shows the header:
for every protected frame of `ieee80211_encap`, fragments included, and for every management frame,
with any keys. -/
theorem cryptoEncap_keeps_head {ν : Type} [DecidableEq ν] (ic : Ic ν)
    (hb : ∀ n, (ic.icNode n).niBssid.length = 6) :
    (∀ h n m ms h' ic' frames, Pkt (m :: ms) → 14 ≤ m.mLen →
      encap h ic n m ms = some (h', ic', some frames) → ∀ c ∈ frames, carriesWep c = true →
      ∃ f fs, c = f :: fs ∧
        hdrspace ic.icKeys.datapad f.get < mLength (f :: fs) ∧ KeepsHead ν ic.icKeys.datapad f fs) ∧
    ∀ h n challenge subtype pktlen body link0 h' c, subtype &&& fc0TypeMask = 0 →
      mgmtMbuf h ic n challenge subtype pktlen body link0 = (h', some c) →
      ∃ f, c = [f] ∧ KeepsHead ν ic.icKeys.datapad f [] := by
  constructor
  · intro h n m ms h' ic' frames hpkt h14 he c hc hwep
    obtain ⟨f, fs, rfl, hroomy, hpos⟩ := encap_roomy hb hpkt h14 he hc hwep
    exact ⟨f, fs, rfl, hpos, hroomy.keepsHead⟩
  · intro h n challenge subtype pktlen body link0 h' c hmgt hs
    obtain ⟨f, rfl, hroomy⟩ := mgmtMbuf_roomy hmgt hs ic.icKeys.datapad
    exact ⟨f, rfl, hroomy.keepsHead⟩

/-- Three fragments, and the answer to a challenge. -/
theorem cryptoEncap_keeps_head_sample :
    (∃ h' ic' frames, encap ⟨fun _ => some fun _ => 0, 0, []⟩ (stationWith .ccmp) ()
      (ipv4Packet 40) [] =
        some (h', ic', some frames) ∧ frames.length = 3 ∧
      ∀ c ∈ frames, ∃ f fs, c = f :: fs ∧ hdrspace false f.get < mLength (f :: fs) ∧
      KeepsHead Unit false f fs) ∧
    ∃ h' f, mgmtMbuf ⟨fun _ => some fun _ => 0, 0, []⟩ (stationWith .ccmp) ()
    (some [1]) 0xb0 7 [1, 0, 3, 0, 0, 0, 1]
        true = (h', some [f]) ∧ carriesWep [f] = true ∧ KeepsHead Unit false f [] := by
  have hkeeps := cryptoEncap_keeps_head (stationWith .ccmp) fun _ => rfl
  constructor
  · have hlen :
        (encap ⟨fun _ => some fun _ => 0, 0, []⟩ (stationWith .ccmp) () (ipv4Packet 40) []).map
        (fun r => r.2.2.map length) = some (some 3) := by decide +kernel
    obtain ⟨⟨h', ic', out⟩, he, hout⟩ := map_eq_some_iff.mp hlen
    obtain ⟨frames, rfl, hl⟩ := map_eq_some_iff.mp hout
    refine ⟨h', ic', frames, he, hl, fun c hc => ?_⟩
    have hwep : carriesWep c = true := ((encap_carriesWep he).2 c hc).trans (by decide)
    exact hkeeps.1 _ _ _ _ _ _ _ ⟨by decide, rfl⟩ (by decide) he c hc hwep
  · obtain ⟨f, hf, hk⟩ :=
      hkeeps.2 ⟨fun _ => some fun _ => 0, 0, []⟩ () (some [1]) 0xb0 7 [1, 0, 3, 0, 0, 0, 1] true _ _
      (by decide) rfl
    obtain ⟨rfl, -⟩ := cons.inj hf
    exact ⟨_, _, rfl, by decide +kernel, hk⟩

end Net80211
