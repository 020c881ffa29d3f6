import Net80211.Proofs.AesCcmMbuf
import Net80211.Proofs.Replay

/-!
# The CCMP round trip

The two halves meet at `sealed`, the octets of a protected frame: the header,
the CCMP header, the ciphertext and the MIC, with RFC 3610 for the last two.
Encapsulation turns a frame into its sealed octets, whatever its segmentation;
decapsulation turns a chain that holds sealed octets back, whatever the
segmentation of that chain is.

Between the two the header may change where the additional data does not look.
`SameProtected` is that relation: everything equal but the retry, power
management and more-data bits, the duration and the sequence number.

The frame is here what the local pointer of `ieee80211_crypto_encap` shows. Whether that is
what its caller holds is another matter, and settled where the first mbuf is followed.
-/

namespace Net80211.Crypto

open Lib List Option

/-- A header given by its octets. -/
def hdrOf (p : List UInt8) : Wh := fun i => p.getD i 0

/-- Two headers that differ in mutable bits only. -/
structure SameProtected (n : Nat) (wh wh' : Wh) : Prop where
  fc0 : wh' 0 = wh 0
  fc1 : wh' 1 &&& 0xc7 = wh 1 &&& 0xc7
  addr : ∀ i, 4 ≤ i → i < 22 → wh' i = wh i
  frag : wh' 22 &&& 0x0f = wh 22 &&& 0x0f
  rest : ∀ i, 24 ≤ i → i < n → wh' i = wh i

variable {n : Nat} {wh wh' : Wh}

theorem SameProtected.of_eq (hn : 24 ≤ n) (h : ∀ i < n, wh' i = wh i) : SameProtected n wh wh' :=
  ⟨h 0 (by omega), by rw [h 1 (by omega)], fun i _ hi => h i (by omega),
    by rw [h 22 (by omega)], fun i _ hi => h i hi⟩

theorem SameProtected.trans {wh₁ wh₂ wh₃ : Wh} (h : SameProtected n wh₁ wh₂)
    (h' : SameProtected n wh₂ wh₃) : SameProtected n wh₁ wh₃ :=
  ⟨h'.fc0.trans h.fc0, h'.fc1.trans h.fc1, fun i h₁ h₂ => (h'.addr i h₁ h₂).trans (h.addr i h₁ h₂),
    h'.frag.trans h.frag, fun i h₁ h₂ => (h'.rest i h₁ h₂).trans (h.rest i h₁ h₂)⟩

theorem SameProtected.hasQos (h : SameProtected n wh wh') : hasQos wh' = hasQos wh := by
  rw [Net80211.hasQos, Net80211.hasQos, h.fc0]

theorem SameProtected.is4Address (h : SameProtected n wh wh') : is4Address wh' = is4Address wh := by
  have hmask : ∀ x : UInt8, x &&& fc1DirMask = x &&& 0xc7 &&& 0x03 := by
    intro x
    rw [UInt8.and_assoc]
    rfl
  rw [Net80211.is4Address, Net80211.is4Address, hmask, hmask, h.fc1]

theorem SameProtected.hdrsize (h : SameProtected n wh wh') : hdrsize wh' = hdrsize wh := by
  rw [Net80211.hdrsize, Net80211.hdrsize, h.hasQos, h.is4Address]

theorem SameProtected.hdrspace (h : SameProtected n wh wh') (datapad : Bool) :
    hdrspace datapad wh' = hdrspace datapad wh := by
  rw [Net80211.hdrspace, Net80211.hdrspace, h.hdrsize]

/-- The length of a header is in its frame control. -/
theorem hdrspace_congr (h0 : wh' 0 = wh 0) (h1 : wh' 1 = wh 1) (datapad : Bool) :
    hdrspace datapad wh' = hdrspace datapad wh := by
  have hq : hasQos wh' = hasQos wh := by rw [hasQos, hasQos, h0]
  have h4 : is4Address wh' = is4Address wh := by rw [is4Address, is4Address, h1]
  rw [hdrspace, hdrspace, hdrsize, hdrsize, hq, h4]

theorem hdrsize_le_hdrspace (datapad : Bool) (wh : Wh) : hdrsize wh ≤ hdrspace datapad wh := by
  rw [hdrspace]
  split <;> omega

theorem hdrspace_bounds (datapad : Bool) (wh : Wh) :
    24 ≤ hdrspace datapad wh ∧ hdrspace datapad wh ≤ 32 := by
  rw [hdrspace, hdrsize]
  split <;> split <;> split <;> omega

theorem SameProtected.ccmpQos (h : SameProtected n wh wh') (hn : Net80211.hdrsize wh ≤ n) :
    ccmpQos wh' = ccmpQos wh := by
  rw [Net80211.Crypto.ccmpQos, Net80211.Crypto.ccmpQos, h.hasQos, h.is4Address]
  rw [Net80211.hdrsize] at hn
  split
  · next hq =>
    rw [if_pos hq] at hn
    split
    · next h4 =>
      rw [if_pos h4] at hn
      rw [h.rest 30 (by omega) (by omega)]
    · rw [h.rest 24 (by omega) (by omega)]
  · rfl

theorem SameProtected.ccmpNonce (h : SameProtected n wh wh') (hn : Net80211.hdrsize wh ≤ n)
    (pn : Nat) : ccmpNonce wh' pn = ccmpNonce wh pn := by
  rw [Net80211.Crypto.ccmpNonce, Net80211.Crypto.ccmpNonce, h.ccmpQos hn,
    window_congr 6 10 fun k hk => h.addr (10 + k) (by omega) (by omega)]

theorem SameProtected.ccmpAd (h : SameProtected n wh wh') (hn : Net80211.hdrsize wh ≤ n) :
    ccmpAd wh' = ccmpAd wh := by
  rw [Net80211.Crypto.ccmpAd, Net80211.Crypto.ccmpAd, h.ccmpQos hn, h.hasQos, h.is4Address, h.fc0,
    h.fc1, h.frag, window_congr 18 4 fun k hk => h.addr (4 + k) (by omega) (by omega)]
  congr 2
  rw [Net80211.hdrsize] at hn
  split
  · next h4 =>
    rw [if_pos h4] at hn
    rw [window_congr 6 24 fun k hk => h.rest (24 + k) (by omega) (by omega)]
  · rfl

/-! ## Sealed frames -/

/-- The CCM parameters of a frame under a block function. -/
def ccmpParams (E : Block → Block) (wh : Wh) (pn : Nat) : CcmParams :=
  { E := E, L := 2, M := 8, nonce := ccmpNonce wh pn }

theorem ccmpParams_valid (E : Block → Block) (wh : Wh) (pn : Nat) : (ccmpParams E wh pn).Valid :=
  ⟨by simp [ccmpParams], by simp [ccmpParams], by simp [ccmpParams], by simp [ccmpParams],
    by simp [ccmpParams], by simp [ccmpParams, ccmpNonce]⟩

theorem length_ccmpAd (wh : Wh) : (ccmpAd wh).length ≠ 2 ^ 32 - 1 := by
  rw [ccmpAd]
  simp only [length_append, length_window, length_cons, length_nil]
  split <;> split <;> simp

/-- The octets of the protected frame with header `hdr`. -/
def sealed (E : Block → Block) (hdr : List UInt8) (tsc : Nat) (keyid : UInt8)
    (payload : List UInt8) : List UInt8 :=
  let c := ccmpParams E (hdrOf hdr) tsc
  hdr ++ ccmpHeader tsc keyid ++ ccmCrypt c payload ++ ccmTag c (ccmpAd (hdrOf hdr)) payload

theorem length_ccmpHeader (tsc : Nat) (keyid : UInt8) : (ccmpHeader tsc keyid).length = 8 := rfl

theorem length_ccmCrypt (c : CcmParams) (m : List UInt8) : (ccmCrypt c m).length = m.length :=
  length_xorStream _ _ _

/-- The packet number of a CCMP header is the counter modulo `2 ^ 48`. -/
theorem read6_ofNat (t : Nat) :
    read6 (UInt8.ofNat t) (UInt8.ofNat (t / 2 ^ 8)) (UInt8.ofNat (t / 2 ^ 16))
      (UInt8.ofNat (t / 2 ^ 24)) (UInt8.ofNat (t / 2 ^ 32)) (UInt8.ofNat (t / 2 ^ 40)) =
    t % 2 ^ 48 := by
  simp only [read6, UInt8.toNat_ofNat']
  omega

theorem ccmpNonce_mod (wh : Wh) (t : Nat) : ccmpNonce wh (t % 2 ^ 48) = ccmpNonce wh t := by
  have h : ∀ k ≤ 40, UInt8.ofNat (t % 2 ^ 48 / 2 ^ k) = UInt8.ofNat (t / 2 ^ k) := by
    intro k hk
    rw [← UInt8.toNat_inj, UInt8.toNat_ofNat', UInt8.toNat_ofNat',
      show (2 : Nat) ^ 48 = 2 ^ k * 2 ^ (48 - k) by rw [← Nat.pow_add]; congr 1; omega,
      Nat.mod_mul_right_div_self, Nat.mod_mod_of_dvd _ (Nat.pow_dvd_pow 2 (by omega))]
  have h0 : UInt8.ofNat (t % 2 ^ 48) = UInt8.ofNat t := by
    have := h 0 (by omega)
    rw [Nat.pow_zero, Nat.div_one, Nat.div_one] at this
    exact this
  rw [ccmpNonce, ccmpNonce, h 40 (by omega), h 32 (by omega), h 24 (by omega), h 16 (by omega),
    h 8 (by omega), h0]

/-! ## Encapsulation -/

variable {m m' : Mbuf} {ms ms' frame : List Mbuf} {h h' : Heap} {hdr payload rest : List UInt8}
  {E : BlockCipher} {i : Nat}

/-- Room for the cipher header: eight octets between header and payload. -/
theorem encapSpace_some (hpkt : Pkt (m :: ms)) (hb : bytes (m :: ms) = hdr ++ payload)
    (hs : encapSpace h (m :: ms) hdr.length 8 = (h', some (m', ms'))) :
    ∃ x, x.length = 8 ∧ bytes (m' :: ms') = hdr ++ x ++ payload ∧ hdr.length + 8 ≤ m'.mLen ∧
      Pkt (m' :: ms') := by
  rw [encapSpace] at hs
  split at hs
  · next h1 m1 ms1 hpre =>
    obtain ⟨_, _, p, heq, hp, hb1, hf1, hpk1⟩ := mPrepend_some hpre
    injection heq with hm hms
    subst hm hms
    split at hs
    · exact absurd (congrArg Prod.snd hs) (by simp)
    next h2 m2 ms2 hpull =>
    obtain ⟨hb2, hmax2, hpk2⟩ := pullupTo_some hpull
    have hlen2 : hdr.length + 8 ≤ m2.mLen := hmax2 ▸ Nat.le_max_right _ _
    injection hs with _ hs
    injection hs with hs
    injection hs with hm hms
    subst hm hms
    rw [hb] at hb1
    rw [hb1] at hb2
    have hw : window m2.mCluster (m2.mData + 8) hdr.length = hdr := by
      rw [window_eq_bytes ms2 (by omega), hb2, drop_left' hp, take_left' rfl]
    have hdrop : (p ++ (hdr ++ payload)).drop hdr.length =
        (p ++ hdr).drop hdr.length ++ payload := by
      rw [← append_assoc, drop_append_of_le_length (by
        rw [length_append]; omega)]
    rw [hw]
    refine ⟨(p ++ hdr).drop hdr.length, ?_, ?_, hlen2, ?_⟩
    · rw [length_drop, length_append]; omega
    · rw [bytes_put_head ms2 (by omega), hb2, patch, take_zero, nil_append,
        Nat.zero_add, hdrop, append_assoc]
    · have hl1 := hpk1 hpkt.1
      obtain ⟨hf2, hl2⟩ := hpk2 (hf1.trans hpkt.1)
      refine SameShapes.pkt (.cons (SameShape.put m2 0 hdr) (SameShapes.refl ms2)) ⟨hf2, ?_⟩
      rw [hl2, hl1, hpkt.2, ← length_bytes, ← length_bytes, hb2, hb, @length_append _ p, hp]
      omega
  · exact absurd (congrArg Prod.snd hs) (by simp)

theorem get_eq_hdrOf (hb : bytes (m :: ms) = hdr ++ rest) (hi : i < m.mLen)
    (hi' : i < hdr.length) : m.get i = hdrOf hdr i := by
  rw [get_eq_bytes ms hi, hb, getD_append _ _ _ _ hi', hdrOf]

theorem head_sameProtected (hb : bytes (m :: ms) = hdr ++ rest) (hlen : hdr.length ≤ m.mLen)
    (h24 : 24 ≤ hdr.length) :
    SameProtected hdr.length (hdrOf hdr) m.get :=
  SameProtected.of_eq h24 fun i hi => get_eq_hdrOf hb (by omega) hi

theorem ccmpEncrypt_sealed {E : Block → Block} {tsc : Nat} {keyid : UInt8} (hpkt : Pkt (m :: ms))
    (hb : bytes (m :: ms) = hdr ++ ccmpHeader tsc keyid ++ payload)
    (h24 : hdrsize (hdrOf hdr) ≤ hdr.length) (hlen : hdr.length + 8 ≤ m.mLen)
    (hp : 0 < payload.length) (hmax : payload.length ≤ ccmMax)
    (he : ccmpEncrypt E h tsc m ms hdr.length = some (h', frame, true)) :
    ∃ m' ms', frame = m' :: ms' ∧ bytes frame = sealed E hdr tsc keyid payload ∧
      hdr.length + 8 ≤ m'.mLen ∧ Pkt frame := by
  have h24' : 24 ≤ hdr.length := by
    refine Nat.le_trans ?_ h24
    rw [hdrsize]; omega
  have htot : m.pkthdrLen = hdr.length + 8 + payload.length := by
    rw [hpkt.2, ← length_bytes, hb, length_append, length_append, length_ccmpHeader]
  have hsame := head_sameProtected (append_assoc _ _ _ ▸ hb) (by omega) h24'
  have hoff : (hdr ++ ccmpHeader tsc keyid).length = hdr.length + 8 := by
    rw [length_append, length_ccmpHeader]
  have hslice : ((bytes (m :: ms)).drop (hdr.length + 8)).take payload.length = payload := by
    rw [hb, drop_left' hoff, take_length]
  -- The head shows the header, so nonce and additional data are those of `hdr`.
  have hinit : ccmpInitBlocks E m.get tsc payload.length =
      aesCcmInit (ccmpParams E (hdrOf hdr) tsc).E aesCcmLocal (ccmpParams E (hdrOf hdr) tsc).L
        (ccmpParams E (hdrOf hdr) tsc).M (ccmpParams E (hdrOf hdr) tsc).nonce (ccmpAd (hdrOf hdr))
        payload.length := by
    rw [ccmpInitBlocks, hsame.ccmpNonce h24, hsame.ccmpAd h24]
    rfl
  obtain ⟨C', ms1, henc, hb1, hsh⟩ := aesCcmEncMbuf_rfc3610
    (ccmpParams_valid E (hdrOf hdr) tsc) (length_ccmpAd (hdrOf hdr)) hmax hp hslice aesCcmLocal
  rw [ccmpEncrypt, if_neg (by omega)] at he
  simp only [htot, show hdr.length + 8 + payload.length - (hdr.length + 8) =
    payload.length by omega, hinit] at he
  rw [show aesCcmEncMbuf E _ (m :: ms) (hdr.length + 8) payload.length = _ from henc] at he
  injection he with he
  have hcrypt : bytes ms1 = hdr ++ ccmpHeader tsc keyid ++
      ccmCrypt (ccmpParams E (hdrOf hdr) tsc) payload := by
    have := patch_middle (a := hdr ++ ccmpHeader tsc keyid) (b := payload) []
      (length_ccmCrypt (ccmpParams E (hdrOf hdr) tsc) payload)
    rw [append_nil, append_nil, hoff] at this
    rw [hb1, hb, this]
  have hpkt1 := hsh.pkt hpkt
  cases hsh with
  | @cons _ m1 _ tl hs _ =>
    obtain ⟨m', ms', hframe, hb', hfl, hlen', hpl⟩ := mAppend_true he
    refine ⟨m', ms', hframe, ?_, ?_, ?_⟩
    · rw [hb', hcrypt, sealed]
    · rw [hs.len] at hlen'
      omega
    · rw [hframe] at hb' ⊢
      refine ⟨?_, ?_⟩
      · rw [Mbuf.hasPkthdr, hfl]
        exact hpkt1.1
      · rw [hpl hpkt1.1, hpkt1.2, ← length_bytes, ← length_bytes, hb', length_append]

theorem ccmpEncap_sealed {datapad : Bool} {k k' : Key} {keyid : UInt8} {x : List UInt8}
    (hpkt : Pkt (m :: ms)) (hb : bytes (m :: ms) = hdr ++ x ++ payload) (hx : x.length = 8)
    (hhdr : hdr.length = hdrspace datapad (hdrOf hdr)) (hlen : hdr.length + 8 ≤ m.mLen)
    (hp : 0 < payload.length) (hmax : payload.length ≤ ccmMax) (hsw : k.wkFlags.swcrypt = true)
    (he : ccmpEncap E datapad h k m ms keyid = some (h', k', frame, true)) :
    ∃ m' ms', frame = m' :: ms' ∧
      bytes frame = sealed (E k.wkPrivate) hdr ((k.wkKeytsc + 1) % 2 ^ 64) keyid payload ∧
      hdr.length + 8 ≤ m'.mLen ∧ Pkt frame := by
  have hbounds := hdrspace_bounds datapad (hdrOf hdr)
  have hsame := head_sameProtected (append_assoc _ _ _ ▸ hb) (by omega) (by omega)
  have hspace : hdrspace datapad m.get = hdr.length := by rw [hsame.hdrspace, ← hhdr]
  rw [ccmpEncap] at he
  simp only [hspace, hsw, if_true] at he
  generalize (k.wkKeytsc + 1) % 2 ^ 64 = tsc at he ⊢
  split at he
  · cases he
  next h1 frame1 ok henc =>
  injection he with he
  injection he with _ he
  injection he with _ he
  injection he with hframe hok
  subst hframe hok
  refine ccmpEncrypt_sealed (m := m.put hdr.length (ccmpHeader tsc keyid)) ?_ ?_ ?_ hlen hp hmax
    henc
  · exact SameShapes.pkt (.cons (SameShape.put _ _ _) (SameShapes.refl _)) hpkt
  · rw [bytes_put_head ms (by rw [length_ccmpHeader]; exact hlen), hb,
      patch_middle payload (by rw [length_ccmpHeader, hx])]
  · rw [hhdr]
    exact hdrsize_le_hdrspace _ _

variable {ν : Type} [DecidableEq ν] {ks : Keys ν} {r : EncapResult ν} {s : KeySlot ν}

/-- An encapsulation that returns a key: the space for the CCMP header, and
`ccmp_encap` with the key of the frame. -/
theorem cryptoEncap_key {n : ν} (hr : cryptoEncap E h ks n m ms = some r)
    (hkey : r.key = some s) : ∃ keyid h₁ m₁ ms₁ k frame, txSlot ks n (m.get 4) = some (s, keyid) ∧
      encapSpace h (m :: ms) (hdrspace ks.datapad m.get) 8 = (h₁, some (m₁, ms₁)) ∧
      ccmpEncap E ks.datapad h₁ (ks.key s) m₁ ms₁ (keyid <<< 6) = some (r.heap, k, frame, true) ∧
      r.frame = some frame := by
  rcases cryptoEncap_cases hr
    with ⟨hnone, _⟩ | ⟨s', keyid, h₁, m₁, ms₁, h2, k, frame, ok, hslot, _, hspc, henc, rfl⟩
  · cases hnone.symm.trans hkey
  · cases ok with
    | false => cases hkey
    | true =>
      obtain rfl := Option.some.inj hkey
      exact ⟨keyid, h₁, m₁, ms₁, k, frame, hslot, hspc, henc, rfl⟩

/-- Encapsulation of a frame with a header the first mbuf shows enough of: the
result is the sealed frame. -/
theorem cryptoEncap_sealed {n : ν} (hpkt : Pkt (m :: ms)) (hb : bytes (m :: ms) = hdr ++ payload)
    (hhdr : hdr.length = hdrspace ks.datapad (hdrOf hdr)) (h5 : 5 ≤ m.mLen)
    (hp : 0 < payload.length) (hmax : payload.length ≤ ccmMax)
    (hr : cryptoEncap E h ks n m ms = some r) (hkey : r.key = some s)
    (hsw : (ks.key s).wkFlags.swcrypt = true) : ∃ m' ms' keyid, r.frame = some (m' :: ms') ∧
      txSlot ks n (hdrOf hdr 4) = some (s, keyid) ∧
      bytes (m' :: ms') = sealed (E (ks.key s).wkPrivate) hdr
        (((ks.key s).wkKeytsc + 1) % 2 ^ 64) (keyid <<< 6) payload ∧
      hdr.length + 8 ≤ m'.mLen ∧ Pkt (m' :: ms') := by
  have hbounds := hdrspace_bounds ks.datapad (hdrOf hdr)
  have h4 : m.get 4 = hdrOf hdr 4 := get_eq_hdrOf hb (by omega) (by omega)
  have hspace : hdrspace ks.datapad m.get = hdr.length := by
    have h0 : m.get 0 = hdrOf hdr 0 := get_eq_hdrOf hb (by omega) (by omega)
    have h1 : m.get 1 = hdrOf hdr 1 := get_eq_hdrOf hb (by omega) (by omega)
    rw [hhdr, hdrspace_congr h0 h1]
  obtain ⟨keyid, h₁, m1, ms1, k, frame, hslot, hspc, henc, hframe⟩ := cryptoEncap_key hr hkey
  rw [hspace] at hspc
  rw [h4] at hslot
  obtain ⟨x, hx, hb1, hlen1, hpkt1⟩ := encapSpace_some hpkt hb hspc
  obtain ⟨m', ms', rfl, hb', hlen', hpkt'⟩ :=
    ccmpEncap_sealed hpkt1 hb1 hx hhdr hlen1 hp hmax hsw henc
  exact ⟨m', ms', keyid, hframe, hslot, hb', hlen', hpkt'⟩

/-! ## Decapsulation -/

variable {hdr' : List UInt8} {tsc : Nat} {keyid : UInt8} {stack : Nat → UInt8}

/-- A sealed frame whose header changed on the way. -/
def sealedAs (hdr' : List UInt8) (E : Block → Block) (hdr : List UInt8) (tsc : Nat)
    (keyid : UInt8) (payload : List UInt8) : List UInt8 :=
  hdr' ++ (sealed E hdr tsc keyid payload).drop hdr.length

theorem sealedAs_eq (E : Block → Block) : sealedAs hdr' E hdr tsc keyid payload =
      hdr' ++ ccmpHeader tsc keyid ++ ccmCrypt (ccmpParams E (hdrOf hdr) tsc) payload ++
        ccmTag (ccmpParams E (hdrOf hdr) tsc) (ccmpAd (hdrOf hdr)) payload := by
  rw [sealedAs, sealed]
  simp only [append_assoc]
  rw [drop_left' rfl]

theorem length_sealedAs (E : Block → Block) :
    (sealedAs hdr' E hdr tsc keyid payload).length = hdr'.length + 8 + payload.length + 8 := by
  rw [sealedAs_eq, length_append, length_append, length_append, length_ccmpHeader,
    length_ccmCrypt, length_ccmTag]
  rfl

/-- A local variable is filled from the chain where the chain is long enough. -/
theorem copyLocal_eq {off len : Nat} (hlen : off + len ≤ mLength ms) :
    copyLocal stack ms off len = ((bytes ms).drop off).take len := by
  have : (((bytes ms).drop off).take len).length = len := by
    rw [length_take, length_drop, length_bytes]; omega
  rw [copyLocal, mCopydata_eq, this, Nat.sub_self, window, append_nil]

theorem ccmpDecrypt_sealed {E : Block → Block} (stack : Nat → UInt8) (hpkt : Pkt (m :: ms))
    (hb : bytes (m :: ms) = sealedAs hdr' E hdr tsc keyid payload)
    (hsame : SameProtected hdr.length (hdrOf hdr) (hdrOf hdr')) (hhl : hdr'.length = hdr.length)
    (h24 : 24 ≤ hdr.length) (hsz : hdrsize (hdrOf hdr) ≤ hdr.length)
    (hlen : hdr.length + 8 ≤ m.mLen) (hp : 0 < payload.length) (hmax : payload.length ≤ ccmMax) :
    ∃ ms', ccmpDecrypt E stack (tsc % 2 ^ 48) m ms hdr.length = some (ms', true) ∧
      bytes ms' = hdr' ++ ccmpHeader tsc keyid ++ payload ++
        ccmTag (ccmpParams E (hdrOf hdr) tsc) (ccmpAd (hdrOf hdr)) payload ∧
      SameShapes (m :: ms) ms' := by
  have htot : m.pkthdrLen = hdr.length + 8 + payload.length + 8 := by
    rw [hpkt.2, ← length_bytes, hb, length_sealedAs, hhl]
  have hml : mLength (m :: ms) = hdr.length + 8 + payload.length + 8 := by rw [← hpkt.2, htot]
  have hhead : SameProtected hdr.length (hdrOf hdr) m.get := by
    have := head_sameProtected (show bytes (m :: ms) = hdr' ++ _ from hb) (by omega) (by omega)
    rw [hhl] at this
    exact hsame.trans this
  rw [sealedAs_eq] at hb
  have hoff : (hdr' ++ ccmpHeader tsc keyid).length = hdr.length + 8 := by
    rw [length_append, length_ccmpHeader, hhl]
  have hcl := length_ccmCrypt (ccmpParams E (hdrOf hdr) tsc) payload
  have hinit : ccmpInitBlocks E m.get (tsc % 2 ^ 48) payload.length =
      aesCcmInit (ccmpParams E (hdrOf hdr) tsc).E aesCcmLocal (ccmpParams E (hdrOf hdr) tsc).L
        (ccmpParams E (hdrOf hdr) tsc).M (ccmpParams E (hdrOf hdr) tsc).nonce (ccmpAd (hdrOf hdr))
        payload.length := by
    rw [ccmpInitBlocks, hhead.ccmpNonce hsz, hhead.ccmpAd hsz, ccmpNonce_mod]
    rfl
  have hslice : ((bytes (m :: ms)).drop (hdr.length + 8)).take payload.length =
      ccmCrypt (ccmpParams E (hdrOf hdr) tsc) payload := by
    rw [hb, append_assoc, drop_left' hoff, take_left' hcl]
  have hmic : copyLocal stack (m :: ms) (m.pkthdrLen - 8) 8 =
      ccmTag (ccmpParams E (hdrOf hdr) tsc) (ccmpAd (hdrOf hdr)) payload := by
    rw [copyLocal_eq (by omega), hb, drop_left' (by
      rw [length_append, hoff, hcl, htot]; omega), take_of_length_le (by
      rw [length_ccmTag]; exact Nat.le_refl 8)]
  obtain ⟨ms', hdec, hb', hsh⟩ := aesCcmDecMbuf_rfc3610 (ccmpParams_valid E (hdrOf hdr) tsc)
    (length_ccmpAd (hdrOf hdr)) hmax hp hslice aesCcmLocal
    (ccmTag (ccmpParams E (hdrOf hdr) tsc) (ccmpAd (hdrOf hdr)) payload)
  rw [take_ccmTag, beq_self_eq_true] at hdec hb'
  refine ⟨ms', ?_, ?_, hsh⟩
  · rw [ccmpDecrypt, if_neg (by omega), hmic]
    simp only [htot, show hdr.length + 8 + payload.length + 8 - (hdr.length + 16) =
      payload.length by
      omega, hinit]
    exact hdec
  · have hpm := patch_middle (a := hdr' ++ ccmpHeader tsc keyid)
      (b := ccmCrypt (ccmpParams E (hdrOf hdr) tsc) payload)
      (ccmTag (ccmpParams E (hdrOf hdr) tsc) (ccmpAd (hdrOf hdr)) payload) hcl.symm
    rw [hoff] at hpm
    rw [hb', if_pos rfl, hb, hpm]

theorem ccmpStrip_bytes {x tag : List UInt8} (hf : m.hasPkthdr = true)
    (hb : bytes (m :: ms) = hdr' ++ x ++ payload ++ tag) (hx : x.length = 8)
    (ht : tag.length = 8) (hlen : hdr'.length + 8 ≤ m.mLen) :
    bytes (ccmpStrip (m :: ms) hdr'.length) = hdr' ++ payload ∧
      Pkt (ccmpStrip (m :: ms) hdr'.length) := by
  have hw : window m.mCluster m.mData hdr'.length = hdr' := by
    have := window_eq_bytes ms (i := 0) (n := hdr'.length) (m := m) (by omega)
    rw [Nat.add_zero, hb, drop_zero, append_assoc, append_assoc, take_left' rfl] at this
    exact this
  have hput := bytes_put_head ms (m := m) (i := 8) (p := hdr') (by omega)
  have hbody : (hdr' ++ x ++ payload ++ tag).drop (8 + hdr'.length) = payload ++ tag := by
    rw [append_assoc, drop_left' (by rw [length_append, hx]; omega)]
  have hdrop : (bytes (m.put 8 hdr' :: ms)).drop 8 = hdr' ++ payload ++ tag := by
    rw [hput, hb, patch, hbody, append_assoc, drop_left' (by
      rw [length_take]
      simp only [length_append]
      omega), append_assoc]
  have hadj : bytes (mAdj (m.put 8 hdr' :: ms) 8) = hdr' ++ payload ++ tag := by
    rw [← hdrop]
    exact bytes_mAdj_head (m.put 8 hdr' :: ms) 8
  have hpkt : Pkt (mAdj (m.put 8 hdr' :: ms) 8) :=
    mAdj_pkt (m := m.put 8 hdr') hf 8
  rw [ccmpStrip, hw]
  cases hms : mAdj (m.put 8 hdr' :: ms) 8 with
  | nil => rw [hms] at hpkt; exact absurd hpkt id
  | cons m1 ms1 =>
    rw [hms] at hadj hpkt
    refine ⟨?_, mAdj_pkt hpkt.1 _⟩
    have := bytes_mAdj_tail (m1 :: ms1) (n := 8) (by omega)
    rw [← length_bytes, hadj, take_left' (by
      simp only [length_append]; omega)] at this
    exact this

theorem pullupTo_ok {len : Nat} (hlen : len ≤ mLength (m :: ms)) (hmax : len ≤ 3840)
    (hal : len ≤ m.mLen ∨ (h.alloc h.next).isSome) :
    ∃ h' m' ms', pullupTo h m ms len = (h', some (m', ms')) := by
  obtain ⟨⟨h', r⟩, hp⟩ : ∃ x, pullupTo h m ms len = x := ⟨_, rfl⟩
  cases r with
  | some c => exact ⟨h', c.1, c.2, hp⟩
  | none =>
    obtain ⟨hlt, hbig | hshort | hmem⟩ := pullupTo_none hp
    · rw [mclbytes, mhAlign] at hbig
      omega
    · omega
    · rw [hmem] at hal
      exact absurd (hal.resolve_left (by omega)) (by simp)

theorem or_extiv (a : UInt8) : (a ||| 0x20) &&& 0x20 ≠ 0 := by
  have : (a ||| 0x20) &&& 0x20 = 0x20 := by
    apply UInt8.eq_of_toBitVec_eq
    ext i hi
    simp only [UInt8.toBitVec_and, UInt8.toBitVec_or, BitVec.getElem_and, BitVec.getElem_or]
    cases (UInt8.toBitVec 0x20)[i] <;> simp
  rw [this]
  decide

theorem headD_slice (l : List UInt8) (n : Nat) : ((l.drop n).take 1).headD 0 = l.getD n 0 := by
  simp [headD_eq_head?_getD, List.head?_take, List.head?_drop, List.getD]

theorem getD_sealedAs {E : Block → Block}
    (hb : bytes (m :: ms) = sealedAs hdr' E hdr tsc keyid payload) (hhl : hdr'.length = hdr.length)
    (hi : i < 8) :
    (bytes (m :: ms)).getD (hdr.length + i) 0 = (ccmpHeader tsc keyid).getD i 0 := by
  rw [hb, sealedAs_eq]
  simp only [append_assoc]
  rw [getD_append_right _ _ _ _ (by omega), getD_append _ _ _ _ (by
    rw [length_ccmpHeader]; omega), hhl, Nat.add_sub_cancel_left]

theorem ccmpDecap_sealed {k : Key} (stack : Nat → UInt8) (hpkt : Pkt (m :: ms))
    (hb : bytes (m :: ms) = sealedAs hdr' (E k.wkPrivate) hdr tsc keyid payload)
    (hsame : SameProtected hdr.length (hdrOf hdr) (hdrOf hdr')) (hhl : hdr'.length = hdr.length)
    (h24 : 24 ≤ hdr.length) (hsz : hdrsize (hdrOf hdr) ≤ hdr.length)
    (hlen : hdr.length + 8 ≤ m.mLen) (hp : 0 < payload.length) (hmax : payload.length ≤ ccmMax)
    (hsw : k.wkFlags.swcrypt = true)
    (hrsc : k.wkKeyrsc < tsc % 2 ^ 48) : ∃ frame, ccmpDecap E stack k m ms hdr.length =
        some ({ k with wkKeyrsc := tsc % 2 ^ 48 }, frame, true) ∧
      bytes frame = hdr' ++ payload ∧ Pkt frame := by
  have hget : ∀ i < 8, m.get (hdr.length + i) = (ccmpHeader tsc keyid).getD i 0 := by
    intro i hi
    rw [get_eq_bytes ms (by omega), getD_sealedAs hb hhl hi]
  have hpn : ccmpPn m hdr.length = tsc % 2 ^ 48 := by
    rw [← read6_ofNat, ccmpPn]
    dsimp only
    rw [hget 0 (by omega), hget 1 (by omega), hget 4 (by omega), hget 5 (by omega),
      hget 6 (by omega), hget 7 (by omega)]
    rfl
  obtain ⟨ms', hdec, hb', hsh⟩ := ccmpDecrypt_sealed stack hpkt hb hsame hhl h24 hsz hlen
    hp hmax
  have hpkt' := hsh.pkt hpkt
  cases hsh with
  | @cons _ m1 _ tl hs _ =>
    obtain ⟨hbs, hps⟩ := ccmpStrip_bytes hpkt'.1 hb' (length_ccmpHeader _ _)
      (length_ccmTag _ _ _) (by rw [hs.len, hhl]; exact hlen)
    rw [hhl] at hbs hps
    have hext : m.get (hdr.length + 3) = keyid ||| 0x20 := hget 3 (by omega)
    refine ⟨_, ?_, hbs, hps⟩
    rw [ccmpDecap, hpn, ccmpOpen, if_pos hsw, hdec, hext, if_neg (or_extiv keyid),
      if_neg (by omega)]

/-- Decapsulation of a sealed frame, on any chain that holds its octets and
under any key with the same schedule that has not seen the packet number. -/
theorem cryptoDecap_sealed {n : ν} {sched : Option (List UInt8)} (stack : Nat → UInt8)
    (hpkt : Pkt (m :: ms)) (hb : bytes (m :: ms) = sealedAs hdr' (E sched) hdr tsc keyid payload)
    (hsame : SameProtected hdr.length (hdrOf hdr) (hdrOf hdr')) (hhl : hdr'.length = hdr.length)
    (hhdr : hdr.length = hdrspace ks.datapad (hdrOf hdr)) (h5 : 5 ≤ m.mLen)
    (hal : hdr.length + 8 ≤ m.mLen ∨ (h.alloc h.next).isSome) (hp : 0 < payload.length)
    (hmax : payload.length ≤ ccmMax)
    (hk : (ks.key (rxSlot ks n (hdrOf hdr 4) (keyid ||| 0x20))).wkCipher = .ccmp)
    (hsw : (ks.key (rxSlot ks n (hdrOf hdr 4) (keyid ||| 0x20))).wkFlags.swcrypt = true)
    (hsched : (ks.key (rxSlot ks n (hdrOf hdr 4) (keyid ||| 0x20))).wkPrivate = sched)
    (hrsc : (ks.key (rxSlot ks n (hdrOf hdr 4) (keyid ||| 0x20))).wkKeyrsc < tsc % 2 ^ 48) :
    ∃ r frame, cryptoDecap E stack h ks n m ms hdr.length = some r ∧
      r.key = some (rxSlot ks n (hdrOf hdr 4) (keyid ||| 0x20)) ∧ r.frame = some frame ∧
      bytes frame = hdr' ++ payload ∧ Pkt frame := by
  have hbounds := hdrspace_bounds ks.datapad (hdrOf hdr)
  have hsz : hdrsize (hdrOf hdr) ≤ hdr.length := by rw [hhdr]; exact hdrsize_le_hdrspace _ _
  have hml : mLength (m :: ms) = hdr.length + 8 + payload.length + 8 := by
    rw [← length_bytes, hb, length_sealedAs, hhl]
  have htot : m.pkthdrLen = hdr.length + 8 + payload.length + 8 := by rw [hpkt.2, hml]
  have h4 : m.get 4 = hdrOf hdr 4 := by
    rw [get_eq_hdrOf (show bytes (m :: ms) = hdr' ++ _ from hb) (by omega) (by omega)]
    exact hsame.addr 4 (by omega) (by omega)
  have hkeyid : (copyLocal stack (m :: ms) (hdr.length + 3) 1).headD 0 = keyid ||| 0x20 := by
    rw [copyLocal_eq (by omega), headD_slice, getD_sealedAs hb hhl (by omega)]
    rfl
  obtain ⟨h1, m1, ms1, hpull⟩ := pullupTo_ok
    (show hdr.length + 8 ≤ mLength (m :: ms) by omega) (by omega) hal
  obtain ⟨hb1, hmax1, hpk1⟩ := pullupTo_some hpull
  have hlen1 : hdr.length + 8 ≤ m1.mLen := hmax1 ▸ Nat.le_max_right _ _
  obtain ⟨hf1, hl1⟩ := hpk1 hpkt.1
  have hpkt1 : Pkt (m1 :: ms1) := by
    refine ⟨hf1, ?_⟩
    rw [hl1, hpkt.2, ← length_bytes, ← length_bytes, hb1]
  rw [cryptoDecap, if_neg (by omega)]
  simp only [hkeyid, h4]
  generalize rxSlot ks n (hdrOf hdr 4) (keyid ||| 0x20) = s at *
  subst hsched
  obtain ⟨frame, hdec, hbf, hpf⟩ := ccmpDecap_sealed stack hpkt1 (hb1.trans hb) hsame hhl
    (by omega) hsz hlen1 hp hmax hsw hrsc
  refine ⟨⟨h1, ks.set s { ks.key s with wkKeyrsc := tsc % 2 ^ 48 }, some frame, some s⟩, frame, ?_,
    rfl, rfl, hbf, hpf⟩
  conv => lhs; rw [hk, show Cipher.ccmp.icHeader = 8 from rfl,
    show Cipher.ccmp.icTrailer = 8 from rfl, hpull]
  dsimp only
  rw [if_neg (by omega), hdec]
  rfl

/-! ## The round trip -/

/-- A receiver of the frame `hdr ++ body` that key `k` protects. The octets behind the header
arrive as they were sent, on any chain. The receiver finds its key by the first octet of the
receiver address and by the key index, has the schedule of the sender there, and has not seen
the packet number. -/
structure Received (datapad : Bool) (k : Key) (hdr body : List UInt8) (h : Heap) (ks : Keys ν)
    (n : ν) (m : Mbuf) (ms : List Mbuf) (hdr' : List UInt8) (s : KeySlot ν) : Prop where
  pkt : Pkt (m :: ms)
  octets : bytes (m :: ms) = hdr' ++ body
  length : hdr'.length = hdr.length
  same : SameProtected hdr.length (hdrOf hdr) (hdrOf hdr')
  head : 5 ≤ m.mLen
  room : hdr.length + 8 ≤ m.mLen ∨ (h.alloc h.next).isSome
  padded : ks.datapad = datapad
  slot : s = rxSlot ks n (hdrOf hdr 4) (body.getD 3 0)
  cipher : (ks.key s).wkCipher = .ccmp
  swcrypt : (ks.key s).wkFlags.swcrypt = true
  sched : (ks.key s).wkPrivate = k.wkPrivate
  fresh : (ks.key s).wkKeyrsc < (k.wkKeytsc + 1) % 2 ^ 48

/-- `ieee80211_crypto_decap` accepts the frame under key `s` and leaves these octets. -/
def Opens (E : BlockCipher) (stack : Nat → UInt8) (h : Heap) (ks : Keys ν)
    (n : ν) (m : Mbuf) (ms : List Mbuf) (hdrlen : Nat) (s : KeySlot ν) (octets : List UInt8) :
    Prop :=
  ∃ r frame, cryptoDecap E stack h ks n m ms hdrlen = some r ∧ r.key = some s ∧
    r.frame = some frame ∧ bytes frame = octets

/-- A frame the software encapsulates, with a header that may have changed in its mutable bits
since: every receiver accepts it and finds that header and the payload. -/
theorem cryptoEncap_opens {E : BlockCipher} {h : Heap} {ks : Keys ν} {n : ν}
    {m : Mbuf} {ms : List Mbuf} {hdr payload : List UInt8} {r : EncapResult ν} {s : KeySlot ν}
    (hpkt : Pkt (m :: ms)) (hb : bytes (m :: ms) = hdr ++ payload)
    (hhdr : hdr.length = hdrspace ks.datapad (hdrOf hdr)) (h5 : 5 ≤ m.mLen)
    (hp : 0 < payload.length) (hmax : payload.length ≤ ccmMax)
    (hr : cryptoEncap E h ks n m ms = some r) (hkey : r.key = some s)
    (hsw : (ks.key s).wkFlags.swcrypt = true) :
    ∃ frame body, r.frame = some frame ∧ bytes frame = hdr ++ body ∧
      body.length = payload.length + 16 ∧
      ∀ (stack : Nat → UInt8) (h' : Heap) (ks' : Keys ν) n' m' ms' hdr' s',
        Received ks.datapad (ks.key s) hdr body h' ks' n' m' ms' hdr' s' →
        Opens E stack h' ks' n' m' ms' hdr.length s' (hdr' ++ payload) := by
  obtain ⟨m₁, ms₁, keyid, hframe, hslot, hb1, -, -⟩ :=
    cryptoEncap_sealed hpkt hb hhdr h5 hp hmax hr hkey hsw
  have hself : ∀ tsc k, sealed (E (ks.key s).wkPrivate) hdr tsc k payload =
      sealedAs hdr (E (ks.key s).wkPrivate) hdr tsc k payload := by
    intro tsc k
    rw [sealedAs_eq, sealed]
  refine ⟨m₁ :: ms₁, _, hframe, hb1.trans (hself _ _), ?_, ?_⟩
  · rw [length_drop, hself, length_sealedAs]
    omega
  intro stack h' ks' n' m' ms' hdr' s' hrec
  have hid : ((sealed (E (ks.key s).wkPrivate) hdr (((ks.key s).wkKeytsc + 1) % 2 ^ 64)
      (keyid <<< 6) payload).drop hdr.length).getD 3 0 = (keyid <<< 6) ||| 0x20 := by
    have := getD_sealedAs (hb1.trans (hself _ _)) rfl (i := 3) (by omega)
    rw [getD_eq_getElem?_getD, getElem?_drop, ← hb1, ← getD_eq_getElem?_getD, this]
    rfl
  obtain ⟨hpkt', hb', hhl, hsame, h5', hal, hpad, hs', hcip, hsw', hpriv, hrsc⟩ := hrec
  rw [hid] at hs'
  subst hs'
  rw [← hpad] at hhdr
  obtain ⟨r', frame, hdec, hkey', hframe', hb'', _⟩ := cryptoDecap_sealed stack (h := h')
    hpkt' hb' hsame hhl hhdr h5' hal hp hmax hcip hsw' hpriv (by omega)
  exact ⟨r', frame, hdec, hkey', hframe', hb''⟩

/-- Where the first mbuf holds one octet more than AES-CCM takes, the decryption panics. -/
theorem ccmpDecrypt_panics (E : Block → Block) (stack : Nat → UInt8) (pn : Nat) {hdrlen : Nat}
    (hlen : m.mLen = hdrlen + 8 + (ccmMax + 1)) (hpk : hdrlen + 16 + (ccmMax + 1) ≤ m.pkthdrLen) :
    ccmpDecrypt E stack pn m ms hdrlen = none := by
  have hpanic : ∀ p : List UInt8, p.length = ccmMax + 1 → ∀ mlen,
      aesCcmDec E (ccmpInitBlocks E m.get pn mlen) p = none := by
    intro p hp mlen
    have inv := aesCcmInit_inv (ccmpParams_valid E m.get pn) (length_ccmpAd m.get) mlen aesCcmLocal
    have hnone := aesCcmDec_panic (ccmpParams_valid E m.get pn) inv inv.i_eq
      (p := p) (by rw [length_nil, Nat.zero_add]; exact hp)
    exact hnone
  have hmax : ccmMax = 1048560 := rfl
  rw [ccmpDecrypt, if_neg (by omega), aesCcmDecMbuf, skipSegments, if_neg (by omega)]
  dsimp only
  rw [forSegments, if_neg (by omega)]
  dsimp only
  rw [hpanic _ (by rw [length_window]; omega)]

theorem not_opens_of_long {E : BlockCipher} {n : ν} {hdrlen : Nat}
    {octets : List UInt8} (hsw : (ks.key s).wkFlags.swcrypt = true)
    (hlen : m.mLen = hdrlen + 8 + (ccmMax + 1)) (hpk : hdrlen + 16 + (ccmMax + 1) ≤ m.pkthdrLen) :
    ¬ Opens E stack h ks n m ms hdrlen s octets := by
  rintro ⟨r, frame, hr, hkey, -, -⟩
  rw [cryptoDecap] at hr
  split at hr
  · cases hr
    cases hkey
  dsimp only at hr
  generalize rxSlot ks n (m.get 4) _ = s' at hr
  have hpull : pullupTo h m ms (hdrlen + (ks.key s').wkCipher.icHeader) = (h, some (m, ms)) := by
    have : (ks.key s').wkCipher.icHeader ≤ 8 := by cases (ks.key s').wkCipher <;> decide
    rw [pullupTo, if_neg (by omega)]
  rw [hpull] at hr
  dsimp only at hr
  split at hr
  · cases hr
    cases hkey
  split at hr
  · cases hr
    cases hkey
  split at hr
  · cases hr
  next k frame ok hdec =>
  cases hr
  cases ok with
  | false => cases hkey
  | true =>
    -- the key that is returned is the one that decrypted
    obtain rfl : s' = s := Option.some.inj hkey
    rw [ccmpDecap, ccmpOpen, if_pos hsw, ccmpDecrypt_panics _ _ _ hlen hpk] at hdec
    split at hdec
    · cases hdec
    · split at hdec <;> cases hdec

end Net80211.Crypto
