import Net80211.Crypto.AesCcmMbuf
import Net80211.Proofs.AesCcm
import Net80211.Proofs.Mbuf

/-!
# AES-CCM over a chain is AES-CCM over its octets

A walk over the segments of a chain is a run over pieces: `segments` are the
pieces, together they are the octets `off .. off + len` of the chain, and
`forSegments` patches the chain with what comes out. The streaming theorem then
applies as it stands, whatever the segmentation is.
-/

namespace Net80211.Crypto

open Lib List

/-- The pieces in which a walk hands out the octets `off .. off + len`. -/
def segments : List Mbuf → Nat → Nat → List (List UInt8)
  | [], _, _ => []
  | m :: ms, off, len =>
    if len = 0 then []
    else
      let seglen := min (m.mLen - off) len
      window m.mCluster (m.mData + off) seglen :: segments ms 0 (len - seglen)

theorem segments_flatten : ∀ (ms : List Mbuf) (off len : Nat),
    (∀ m ∈ ms.head?, off ≤ m.mLen) → off + len ≤ mLength ms →
    (segments ms off len).flatten = ((bytes ms).drop off).take len := by
  intro ms
  induction ms with
  | nil =>
    intro off len _ h
    have : len = 0 := by simp only [mLength, map_nil, sum_nil] at h; omega
    subst this
    rfl
  | cons m ms ih =>
    intro off len hoff h
    have hoff : off ≤ m.mLen := hoff m rfl
    rw [mLength_cons] at h
    rw [segments]
    by_cases h0 : len = 0
    · rw [if_pos h0, h0, take_zero, flatten_nil]
    · have hdrop : (bytes (m :: ms)).drop off =
          window m.mCluster (m.mData + off) (m.mLen - off) ++ bytes ms := by
        rw [bytes_cons, drop_append, Mbuf.length_bytes, show off - m.mLen = 0 by omega,
          drop_zero, Mbuf.bytes, drop_window]
      rw [if_neg h0]
      simp only [flatten_cons]
      rw [ih 0 _ (fun _ _ => Nat.zero_le _) (by omega), hdrop, take_append, length_window,
        drop_zero]
      by_cases hs : m.mLen - off ≤ len
      · rw [Nat.min_eq_left hs, take_of_length_le (l := window _ _ _)
          (by rw [length_window]; exact hs)]
      · rw [Nat.min_eq_right (by omega), take_window _ _ (by omega), Nat.sub_self,
          show len - (m.mLen - off) = 0 by omega]

variable {σ : Type} {f : σ → List UInt8 → Option (σ × List UInt8)} {P : σ → Prop}

/-- A walk over a chain does what a run over its pieces does, and writes what
comes out over the octets that went in. -/
theorem forSegments_run (hf : ∀ s p s' q, P s → f s p = some (s', q) → q.length = p.length ∧ P s') :
    ∀ (ms : List Mbuf) (s : σ) (off len : Nat), P s →
      (∀ m ∈ ms.head?, off ≤ m.mLen) → off + len ≤ mLength ms →
      match runChunks f s (segments ms off len) with
      | none => forSegments f s ms off len = none
      | some (s', out) => ∃ ms', forSegments f s ms off len = some (s', ms') ∧
          bytes ms' = patch (bytes ms) off out ∧ out.length = len ∧ SameShapes ms ms' := by
  intro ms
  induction ms with
  | nil =>
    intro s off len _ _ h
    have : len = 0 := by simp only [mLength, map_nil, sum_nil] at h; omega
    subst this
    exact ⟨[], rfl, by rw [patch_nil], rfl, .nil⟩
  | cons m ms ih =>
    intro s off len hP hoff h
    have hoff : off ≤ m.mLen := hoff m rfl
    rw [mLength_cons] at h
    rw [segments, forSegments]
    by_cases h0 : len = 0
    · rw [if_pos h0, if_pos h0]
      exact ⟨_, rfl, by rw [patch_nil], by rw [h0]; rfl,
        SameShapes.refl _⟩
    rw [if_neg h0, if_neg h0]
    dsimp only
    generalize hseg : min (m.mLen - off) len = seglen
    rw [runChunks]
    cases hfs : f s (window m.mCluster (m.mData + off) seglen) with
    | none => rfl
    | some r =>
      obtain ⟨s1, q⟩ := r
      obtain ⟨hq, hP1⟩ := hf _ _ _ _ hP hfs
      rw [length_window] at hq
      dsimp only
      have hrest := ih s1 0 (len - seglen) hP1 (fun _ _ => Nat.zero_le _) (by omega)
      cases hrun : runChunks f s1 (segments ms 0 (len - seglen)) with
      | none =>
        rw [hrun] at hrest
        dsimp only at hrest ⊢
        rw [hrest]
      | some r' =>
        obtain ⟨s2, out⟩ := r'
        rw [hrun] at hrest
        dsimp only at hrest ⊢
        obtain ⟨ms', hms', hb, hout, hsh⟩ := hrest
        rw [hms']
        refine ⟨_, rfl, ?_, by rw [length_append]; omega,
          .cons (SameShape.put m off q) hsh⟩
        rw [bytes_cons, bytes_cons, hb, Mbuf.bytes_put (by omega)]
        -- Either the walk goes on behind this mbuf, or it ends in it.
        by_cases hs : m.mLen - off ≤ len
        · rw [patch_append _ _ (by rw [Mbuf.length_bytes]; omega)]
        · obtain rfl := eq_nil_of_length_eq_zero (show out.length = 0 by omega)
          rw [patch_nil, append_nil, patch_append_left _ (by rw [Mbuf.length_bytes]; omega)]

theorem skipSegments_eq : ∀ (ms : List Mbuf) (off : Nat), off < mLength ms →
    ∃ pre r off', skipSegments ms off = some (pre, r, off') ∧ ms = pre ++ r ∧
      off = mLength pre + off' ∧ ∀ m ∈ r.head?, off' ≤ m.mLen := by
  intro ms
  induction ms with
  | nil => intro off h; exact absurd h (Nat.not_lt_zero _)
  | cons m ms ih =>
    intro off h
    rw [mLength_cons] at h
    rw [skipSegments]
    split
    · next hge =>
      obtain ⟨pre, r, off', heq, hms, hoff, hr⟩ := ih (off - m.mLen) (by omega)
      rw [heq]
      exact ⟨m :: pre, r, off', rfl, by rw [hms, cons_append],
        by rw [mLength_cons]; omega, hr⟩
    · next hlt =>
      refine ⟨[], m :: ms, off, rfl, rfl, by rw [mLength]; simp, ?_⟩
      intro m' hm'
      obtain rfl : m = m' := by simpa using hm'
      omega

/-! ## Lengths -/

theorem length_aesbearCcmEnc1Loop (E : Block → Block) (ctr : Block) :
    ∀ (n : Nat) (p : List UInt8) (a : Block) (c3 : UInt32), 16 * n ≤ p.length →
      (aesbearCcmEnc1Loop E ctr n p a c3).2.2.length = 16 * n := by
  intro n
  induction n with
  | zero => intro p a c3 _; rfl
  | succ n ih =>
    intro p a c3 h
    rw [aesbearCcmEnc1Loop]
    simp only [length_append, length_xorStream, length_take]
    rw [ih _ _ _ (by rw [length_drop]; omega)]
    omega

theorem aesCcmEncBlocks_keeps {E : Block → Block} {C C' : AesCcm} {p q : List UInt8}
    (hi : C.i = 0) (h : aesCcmEncBlocks E C p = some (C', q)) :
    q.length = p.length ∧ C'.i < 16 := by
  have hblk : (if p.length - p.length % 16 ≠ 0 then
      aesbearCcmEnc1 E (p.take (p.length - p.length % 16)) C.auth C.ctr
      else (C.auth, C.ctr, [])).2.2.length = p.length - p.length % 16 := by
    split
    · have hlen : (p.take (p.length - p.length % 16)).length = p.length - p.length % 16 := by
        rw [length_take]; omega
      rw [aesbearCcmEnc1]
      rw [length_aesbearCcmEnc1Loop _ _ _ _ _ _ (by omega)]
      omega
    · next h0 => rw [not_not.mp h0]; rfl
  rw [aesCcmEncBlocks] at h
  dsimp only at h
  split at h
  · split at h
    · cases h
    · injection h with h
      injection h with hC hq
      subst hC hq
      simp only [length_append, length_xorStream, hblk, length_drop]
      omega
  · next h0 =>
    injection h with h
    injection h with hC hq
    subst hC hq
    rw [length_drop] at h0
    rw [hblk]
    exact ⟨by omega, by rw [hi]; omega⟩

/-- Between two calls the cursor is inside a block, and then a call keeps the
length. -/
theorem aesCcmEnc_keeps {E : Block → Block} (C : AesCcm) (p : List UInt8) (C' : AesCcm)
    (q : List UInt8) (hi : C.i < 16) (h : aesCcmEnc E C p = some (C', q)) :
    q.length = p.length ∧ C'.i < 16 := by
  rw [aesCcmEnc] at h
  dsimp only at h
  split at h
  · split at h
    · split at h
      · cases h
      · next heq =>
        injection h with h
        injection h with hC hq
        subst hC hq
        have := aesCcmEncBlocks_keeps rfl heq
        rw [length_append, length_xorStream, this.1, length_take, length_drop]
        exact ⟨by omega, this.2⟩
    · injection h with h
      injection h with hC hq
      subst hC hq
      rw [length_xorStream, length_take]
      dsimp only
      omega
  · next h0 =>
    refine aesCcmEncBlocks_keeps ?_ h
    exact not_not.mp h0

theorem aesCcmDec_keeps {E : Block → Block} (C : AesCcm) (p : List UInt8) (C' : AesCcm)
    (q : List UInt8) (hi : C.i < 16) (h : aesCcmDec E C p = some (C', q)) :
    q.length = p.length ∧ C'.i < 16 := by
  obtain ⟨q', hlen, ⟨-, hnone⟩ | ⟨C'', henc, hdec⟩⟩ := aesCcmEnc_dec E hi p
  · rw [h] at hnone
    cases hnone
  · cases h.symm.trans hdec
    exact ⟨hlen, (aesCcmEnc_keeps _ _ _ _ hi henc).2⟩

/-! ## The two functions -/

variable {E : Block → Block} {C : AesCcm} {ms : List Mbuf} {off len : Nat}

theorem walk_eq (hf : ∀ s p s' q, P s → f s p = some (s', q) → q.length = p.length ∧ P s')
    (hlen : 0 < len) (h : off + len ≤ mLength ms) :
    ∃ pre r off' ps, skipSegments ms off = some (pre, r, off') ∧ ms = pre ++ r ∧
      off = mLength pre + off' ∧ (∀ m ∈ r.head?, off' ≤ m.mLen) ∧
      ps.flatten = ((bytes ms).drop off).take len ∧ ∀ s, P s → match runChunks f s ps with
        | none => forSegments f s r off' len = none
        | some (s', out) => ∃ r', forSegments f s r off' len = some (s', r') ∧
            bytes (pre ++ r') = patch (bytes ms) off out ∧ out.length = len ∧ SameShapes r r' := by
  obtain ⟨pre, r, off', hskip, hms, hoff, hr⟩ := skipSegments_eq ms off (by omega)
  have hlenr : mLength ms = mLength pre + mLength r := by
    rw [hms, mLength, map_append, sum_append]; rfl
  have hpre : (bytes pre).length ≤ off := by rw [length_bytes]; omega
  refine ⟨pre, r, off', segments r off' len, hskip, hms, hoff, hr, ?_, ?_⟩
  · rw [segments_flatten r off' len hr (by omega), hms, bytes_append, drop_append,
      drop_eq_nil_of_le hpre, nil_append, length_bytes,
      show off - mLength pre = off' by omega]
  · intro s hP
    have := forSegments_run hf r s off' len hP hr (by omega)
    cases hrun : runChunks f s (segments r off' len) with
    | none => rw [hrun] at this; exact this
    | some x =>
      rw [hrun] at this
      obtain ⟨r', hr', hb, hout, hsh⟩ := this
      refine ⟨r', hr', ?_, hout, hsh⟩
      rw [bytes_append, hb, hms, bytes_append, patch_append_right _ _ hpre, length_bytes,
        show off - mLength pre = off' by omega]

theorem aesCcmEncMbuf_eq (hi : C.i < 16) (hlen : 0 < len) (h : off + len ≤ mLength ms) :
    ∃ ps, ps.flatten = ((bytes ms).drop off).take len ∧
      ∀ C' out, aesCcmEncs E C ps = some (C', out) → ∃ ms',
        aesCcmEncMbuf E C ms off len = some ((aesCcmTag E C').1, ms', (aesCcmTag E C').2) ∧
        bytes ms' = patch (bytes ms) off out ∧ SameShapes ms ms' := by
  obtain ⟨pre, r, off', ps, hskip, hms, _, _, hps, hrun⟩ :=
    walk_eq (P := fun C : AesCcm => C.i < 16) (aesCcmEnc_keeps (E := E)) hlen h
  refine ⟨ps, hps, fun C' out hC' => ?_⟩
  have := hrun C hi
  rw [aesCcmEncs] at hC'
  rw [hC'] at this
  obtain ⟨r', hr', hb, _, hsh⟩ := this
  refine ⟨pre ++ r', ?_, hb, ?_⟩
  · rw [aesCcmEncMbuf, hskip]
    dsimp only
    rw [hr']
  · rw [hms]
    exact rel_append (SameShapes.refl _) hsh

theorem memset0_keeps (s : Unit) (p : List UInt8) (s' : Unit) (q : List UInt8) (_ : True)
    (h : memset0 s p = some (s', q)) : q.length = p.length ∧ True := by
  rw [memset0] at h
  injection h with h
  injection h with _ hq
  rw [← hq, length_replicate]
  exact ⟨rfl, trivial⟩

theorem runChunks_memset0 : ∀ ps : List (List UInt8),
    runChunks memset0 () ps = some ((), replicate ps.flatten.length 0) := by
  intro ps
  induction ps with
  | nil => rfl
  | cons p ps ih =>
    rw [runChunks, memset0]
    dsimp only
    rw [ih, flatten_cons, length_append, replicate_add]

/-- `aes_ccm_dec_mbuf` is `aes_ccm_dec` on some pieces of the octets, and a tag
that does not fit clears them. -/
theorem aesCcmDecMbuf_eq (hi : C.i < 16) (hlen : 0 < len) (h : off + len ≤ mLength ms) :
    ∃ ps, ps.flatten = ((bytes ms).drop off).take len ∧ ∀ tag, match aesCcmDecs E C ps with
      | none => aesCcmDecMbuf E C ms off len tag = none
      | some (C', out) => ∃ ms',
        aesCcmDecMbuf E C ms off len tag = some (ms', aesCcmVerify E C' tag) ∧
        bytes ms' = patch (bytes ms) off (if aesCcmVerify E C' tag then out else replicate len 0) ∧
        SameShapes ms ms' := by
  obtain ⟨pre, r, off', ps, hskip, hms, hoff, hr, hps, hrun⟩ :=
    walk_eq (P := fun C : AesCcm => C.i < 16) (aesCcmDec_keeps (E := E)) hlen h
  refine ⟨ps, hps, fun tag => ?_⟩
  have := hrun C hi
  rw [aesCcmDecMbuf, hskip, aesCcmDecs]
  dsimp only
  cases hdec : runChunks (aesCcmDec E) C ps with
  | none =>
    rw [hdec] at this
    rw [this]
  | some x =>
    obtain ⟨C', out⟩ := x
    rw [hdec] at this
    obtain ⟨r', hr', hb, hout, hsh⟩ := this
    rw [hr']
    dsimp only
    have hrel : ∀ r'', SameShapes r r'' →
        SameShapes ms (pre ++ r'') := by
      intro r'' h''
      rw [hms]
      exact rel_append (SameShapes.refl _) h''
    cases hv : aesCcmVerify E C' tag with
    | true => exact ⟨_, rfl, hb, hrel _ hsh⟩
    | false =>
      -- The second walk is over the chain the first one left.
      have hlenr : mLength ms = mLength pre + mLength r := by
        rw [hms, mLength, map_append, sum_append]; rfl
      have hlen' : off' + len ≤ mLength r' := by rw [hsh.mLength]; omega
      have hhead : ∀ m ∈ r'.head?, off' ≤ m.mLen := by
        cases hsh with
        | nil => intro m hm; cases hm
        | cons hs _ =>
          intro m hm
          obtain rfl : _ = m := Option.some.inj hm
          rw [hs.len]
          exact hr _ rfl
      have hflat : (segments r' off' len).flatten.length = len := by
        rw [segments_flatten r' off' len hhead hlen', length_take, length_drop, length_bytes]
        omega
      have hz := forSegments_run memset0_keeps r' () off' len trivial hhead hlen'
      rw [runChunks_memset0, hflat] at hz
      obtain ⟨r'', hr'', hb'', _, hsh''⟩ := hz
      rw [hr'']
      refine ⟨_, rfl, ?_, hrel _ (hsh.trans hsh'')⟩
      have hpre : (bytes pre).length ≤ off := by rw [length_bytes]; omega
      rw [if_neg (by simp), ← patch_patch (p := out) (by rw [length_replicate]; exact hout)
        (by rw [length_bytes]; omega), ← hb, bytes_append, bytes_append, hb'',
        patch_append_right _ _ hpre, length_bytes, show off - mLength pre = off' by omega]

/-! ## Against RFC 3610 -/

variable {c : CcmParams} {ad m : List UInt8}

theorem length_of_slice (hm : ((bytes ms).drop off).take m.length = m) (h0 : 0 < m.length) :
    off + m.length ≤ mLength ms := by
  have := congrArg length hm
  rw [length_take, length_drop, length_bytes] at this
  omega

theorem aesCcmEncMbuf_rfc3610 (hc : c.Valid) (had : ad.length ≠ 2 ^ 32 - 1)
    (hmax : m.length ≤ ccmMax) (h0 : 0 < m.length)
    (hm : ((bytes ms).drop off).take m.length = m) (C : AesCcm) :
    ∃ C' ms', aesCcmEncMbuf c.E (aesCcmInit c.E C c.L c.M c.nonce ad m.length) ms off m.length =
        some (C', ms', ccmTag c ad m) ∧
      bytes ms' = patch (bytes ms) off (ccmCrypt c m) ∧ SameShapes ms ms' := by
  obtain ⟨ps, hps, henc⟩ := aesCcmEncMbuf_eq (E := c.E)
    (C := aesCcmInit c.E C c.L c.M c.nonce ad m.length) (show (0 : Nat) < 16 by omega) h0
    (length_of_slice hm h0)
  rw [hm] at hps
  obtain ⟨C', hC', htag⟩ :=
    aesCcmEncs_init hc had (show ps.flatten.length ≤ ccmMax by rw [hps]; exact hmax) C
  rw [hps] at hC' htag
  obtain ⟨ms', hms', hb, hsh⟩ := henc C' _ hC'
  rw [htag] at hms'
  exact ⟨_, ms', hms', hb, hsh⟩

theorem aesCcmDecMbuf_rfc3610 (hc : c.Valid) (had : ad.length ≠ 2 ^ 32 - 1)
    (hmax : m.length ≤ ccmMax) (h0 : 0 < m.length)
    (hm : ((bytes ms).drop off).take m.length = ccmCrypt c m) (C : AesCcm) (tag : List UInt8) :
    ∃ ms', aesCcmDecMbuf c.E (aesCcmInit c.E C c.L c.M c.nonce ad m.length) ms off m.length tag =
        some (ms', tag.take c.M == ccmTag c ad m) ∧ bytes ms' = patch (bytes ms) off
        (if tag.take c.M == ccmTag c ad m then m else replicate m.length 0) ∧
      SameShapes ms ms' := by
  have hlen : (ccmCrypt c m).length = m.length := by rw [ccmCrypt, length_xorStream]
  have hoff : off + m.length ≤ mLength ms := by
    rw [← hlen] at hm h0 ⊢
    exact length_of_slice hm h0
  obtain ⟨ps, hps, hdec⟩ := aesCcmDecMbuf_eq (E := c.E)
    (C := aesCcmInit c.E C c.L c.M c.nonce ad m.length) (show (0 : Nat) < 16 by omega) h0 hoff
  rw [hm] at hps
  obtain ⟨C', hC', hver⟩ := aesCcmDecs_init hc had hps hmax C
  have := hdec tag
  rw [hC'] at this
  simp only [hver] at this
  exact this

/-- A failed verification leaves zeros where the message was, whatever the
parameters were. -/
theorem aesCcmDecMbuf_failed {L M mlen : Nat} {nonce tag : List UInt8} {ms' : List Mbuf}
    (h0 : 0 < len) (hoff : off + len ≤ mLength ms)
    (h : aesCcmDecMbuf E (aesCcmInit E C L M nonce ad mlen) ms off len tag = some (ms', false)) :
    bytes ms' = patch (bytes ms) off (replicate len 0) := by
  obtain ⟨ps, _, hdec⟩ := aesCcmDecMbuf_eq (E := E)
    (C := aesCcmInit E C L M nonce ad mlen) (show (0 : Nat) < 16 by omega) h0 hoff
  have := hdec tag
  cases hrun : aesCcmDecs E (aesCcmInit E C L M nonce ad mlen) ps with
  | none =>
    rw [hrun] at this
    dsimp only at this
    rw [this] at h
    cases h
  | some x =>
    rw [hrun] at this
    obtain ⟨ms1, h1, hb, _⟩ := this
    rw [h1] at h
    injection h with h
    injection h with hms hv
    rw [hv, if_neg (by simp)] at hb
    rw [← hms, hb]

/-- The streaming code computes RFC 3610: over every split of the message into
pieces, and in place over every chain, encryption gives the ciphertext and the
tag, decryption with the right tag gives the message back, and a decryption
that fails has cleared the message and nothing else. The length field may have
any size RFC 3610 allows, as long as the two counter octets suffice; with two
octets of length field they always do. -/
theorem aesCcm_eq_rfc3610 (c : CcmParams) (hc : c.Valid) (ad m : List UInt8)
    (had : ad.length ≠ 2 ^ 32 - 1) (hmax : m.length ≤ ccmMax) (C : AesCcm) :
    (∀ ps : List (List UInt8), ps.flatten = m →
      ∃ C', aesCcmEncs c.E (aesCcmInit c.E C c.L c.M c.nonce ad m.length) ps =
          some (C', ccmCrypt c m) ∧ (aesCcmTag c.E C').2 = ccmTag c ad m) ∧
    (∀ ps : List (List UInt8), ps.flatten = ccmCrypt c m →
      ∃ C', aesCcmDecs c.E (aesCcmInit c.E C c.L c.M c.nonce ad m.length) ps = some (C', m) ∧
        aesCcmVerify c.E C' (ccmTag c ad m) = true) ∧
    (∀ (ms : List Mbuf) (off : Nat), 0 < m.length → ((bytes ms).drop off).take m.length = m →
      ∃ C' ms', aesCcmEncMbuf c.E (aesCcmInit c.E C c.L c.M c.nonce ad m.length) ms off m.length =
          some (C', ms', ccmTag c ad m) ∧ bytes ms' = patch (bytes ms) off (ccmCrypt c m)) ∧
    (∀ (ms : List Mbuf) (off : Nat), 0 < m.length →
      ((bytes ms).drop off).take m.length = ccmCrypt c m →
      ∃ ms', aesCcmDecMbuf c.E (aesCcmInit c.E C c.L c.M c.nonce ad m.length) ms off m.length
          (ccmTag c ad m) = some (ms', true) ∧ bytes ms' = patch (bytes ms) off m) ∧
    (∀ (ms ms' : List Mbuf) (off len : Nat) (tag : List UInt8), 0 < len → off + len ≤ mLength ms →
      aesCcmDecMbuf c.E (aesCcmInit c.E C c.L c.M c.nonce ad len) ms off len tag =
        some (ms', false) → bytes ms' = patch (bytes ms) off (replicate len 0)) := by
  refine ⟨?_, ?_, ?_, ?_, ?_⟩
  · intro ps hps
    subst hps
    exact aesCcmEncs_init hc had hmax C
  · intro ps hps
    obtain ⟨C', hC', hver⟩ := aesCcmDecs_init hc had hps hmax C
    exact ⟨C', hC', by rw [hver, take_ccmTag, beq_self_eq_true]⟩
  · intro ms off h0 hslice
    obtain ⟨C', ms', h, hb, _⟩ := aesCcmEncMbuf_rfc3610 hc had hmax h0 hslice C
    exact ⟨C', ms', h, hb⟩
  · intro ms off h0 hslice
    obtain ⟨ms', h, hb, _⟩ := aesCcmDecMbuf_rfc3610 hc had hmax h0 hslice C (ccmTag c ad m)
    rw [take_ccmTag, beq_self_eq_true] at h hb
    exact ⟨ms', h, hb⟩
  · intro ms ms' off len tag h0 hoff h
    exact aesCcmDecMbuf_failed h0 hoff h

/-- Parameters for the two runs below. -/
def ccmSample (L : Nat) : CcmParams :=
  { E := fun b => b, L := L, M := 8, nonce := replicate (15 - L) 0 }

/-- A structure nothing was stored in yet. -/
def ccmBlank : AesCcm :=
  { auth := .zero, ctr := .zero, out := .zero, mlen := 0, mleft := 0, i := 0, L := 0, M := 0 }

theorem ccmSample_valid {L : Nat} (h₁ : 2 ≤ L) (h₂ : L ≤ 8) : (ccmSample L).Valid :=
  ⟨h₁, h₂, by simp [ccmSample], by simp [ccmSample], by simp [ccmSample],
    length_replicate⟩

theorem aesCcm_eq_rfc3610_sample : ∃ C', aesCcmEncs (ccmSample 2).E
          (aesCcmInit (ccmSample 2).E ccmBlank 2 8 (ccmSample 2).nonce [1, 2] 5)
          [[7], [], [8, 9, 1, 2]] = some (C', ccmCrypt (ccmSample 2) [7, 8, 9, 1, 2]) ∧
      (aesCcmTag (ccmSample 2).E C').2 = ccmTag (ccmSample 2) [1, 2] [7, 8, 9, 1, 2] :=
  (aesCcm_eq_rfc3610 (ccmSample 2) (ccmSample_valid (by omega) (by omega)) [1, 2] [7, 8, 9, 1, 2]
    (by decide) (by decide) ccmBlank).1 _ rfl

/-- With three octets of length field RFC 3610 allows longer messages than the
code can number blocks for. -/
theorem aesCcmEncs_three_octets_panics :
    (ccmSample 3).Valid ∧ ccmMax + 1 < 2 ^ (8 * (ccmSample 3).L) ∧ aesCcmEncs (ccmSample 3).E
        (aesCcmInit (ccmSample 3).E ccmBlank (ccmSample 3).L (ccmSample 3).M (ccmSample 3).nonce
          [] (ccmMax + 1)) [replicate (ccmMax + 1) 0] = none := by
  have hc : (ccmSample 3).Valid := ccmSample_valid (by omega) (by omega)
  exact ⟨hc, by decide, aesCcmEncs_panic hc (by decide) length_replicate _ _⟩

end Net80211.Crypto
