import Net80211.Proofs.CcmpRoundTrip
import Net80211.Proofs.Deliver

/-!
# Clear and protected fragments

`ieee80211_input_data` as a whole: frames come in for the nodes of a station that
drops what is not encrypted, and go through the cipher, reassembly and the port.
The port looks at the key of the last fragment only. So what is delivered is known
to be decrypted, under one key, where no fragment is joined to fragments that were
protected in another way.
-/

namespace Net80211

open Lib Crypto List Function Option

/-! ## The cipher step keeps the header -/

variable {σ : Type} {f : σ → List UInt8 → Option (σ × List UInt8)}

/-- A walk over a chain rewrites the first mbuf from the offset on. -/
theorem forSegments_shapes :
    ∀ {ms ms' : List Mbuf} {s s' : σ} {off len : Nat}, forSegments f s ms off len = some (s', ms') →
      SameShapes ms ms' ∧ ∀ m ∈ ms.head?, ∀ m' ∈ ms'.head?, ∀ i < off, m'.get i = m.get i := by
  intro ms
  induction ms with
  | nil =>
    intro ms' s s' off len h
    obtain ⟨-, h⟩ := of_guard h
    cases h
    exact ⟨.nil, fun _ h => by cases h⟩
  | cons m ms ih =>
    intro ms' s s' off len h
    rw [forSegments] at h
    split at h
    · cases h
      refine ⟨SameShapes.refl _, fun m1 hm m2 hm' i _ => ?_⟩
      cases hm
      cases hm'
      rfl
    dsimp only at h
    split at h
    · cases h
    next q _ =>
    split at h
    · cases h
    next tl hrest =>
    cases h
    refine ⟨.cons (.put m off q) (ih hrest).1, fun m1 hm m2 hm' i hi => ?_⟩
    cases hm
    cases hm'
    rw [Mbuf.get_put, store_of_lt _ _ hi]

theorem skipSegments_append : ∀ {ms pre r : List Mbuf} {off off' : Nat},
    skipSegments ms off = some (pre, r, off') → ms = pre ++ r ∧ (pre = [] → off' = off) := by
  intro ms
  induction ms with
  | nil => intro pre r off off' h; cases h
  | cons m ms ih =>
    intro pre r off off' h
    rw [skipSegments] at h
    split at h
    · split at h
      · cases h
      next hskip =>
      cases h
      exact ⟨by rw [(ih hskip).1, cons_append], fun h => by cases h⟩
    · cases h
      exact ⟨rfl, fun _ => rfl⟩

variable {m : Mbuf} {ms ms' : List Mbuf}

/-- A walk from an offset on leaves what is before it in the first mbuf alone. -/
theorem walk_head {pre r r' : List Mbuf} {s s' : σ} {off off' len : Nat}
    (hskip : skipSegments (m :: ms) off = some (pre, r, off'))
    (hwalk : forSegments f s r off' len = some (s', r')) :
    ∃ m' tl, pre ++ r' = m' :: tl ∧ SameShapes (m :: ms) (m' :: tl) ∧
    ∀ i < off, m'.get i = m.get i := by
  obtain ⟨happ, hoff⟩ := skipSegments_append hskip
  obtain ⟨hshapes, hget⟩ := forSegments_shapes hwalk
  cases pre with
  | nil =>
    rw [nil_append] at happ
    subst happ
    cases hshapes with
    | cons hm hms =>
      refine ⟨_, _, rfl, .cons hm hms, fun i hi => hget _ rfl _ rfl i ?_⟩
      rw [hoff rfl]
      exact hi
  | cons m0 pre =>
    cases happ
    refine ⟨m, pre ++ r', rfl, .cons .rfl ?_, fun _ _ => rfl⟩
    exact rel_append (SameShapes.refl pre) hshapes

theorem aesCcmDecMbuf_head {E : Block → Block} {C : AesCcm} {off len : Nat} {tag : List UInt8}
    (h : aesCcmDecMbuf E C (m :: ms) off len tag = some (ms', true)) :
    ∃ m' tl, ms' = m' :: tl ∧ SameShapes (m :: ms) (m' :: tl) ∧ ∀ i < off, m'.get i = m.get i := by
  rw [aesCcmDecMbuf] at h
  split at h
  · cases h
  next pre r off' hskip =>
  split at h
  · cases h
  next C' r' hdec =>
  split at h
  · cases h
    exact walk_head hskip hdec
  · split at h
    · cases h
    · cases h

variable {E : BlockCipher} {stack : Nat → UInt8} {hdrlen : Nat}

theorem ccmpOpen_head {k : Key} {pn : Nat}
    (h : ccmpOpen E stack k pn m ms hdrlen = some (ms', true)) :
    ∃ m' tl, ms' = m' :: tl ∧ SameShapes (m :: ms) (m' :: tl) ∧
      ∀ i < hdrlen + 8, m'.get i = m.get i := by
  rw [ccmpOpen] at h
  split at h
  · rw [ccmpDecrypt] at h
    obtain ⟨-, h⟩ := ite_none_left_eq_some.mp h
    exact aesCcmDecMbuf_head h
  · cases h
    exact ⟨m, ms, rfl, SameShapes.refl _, fun _ _ => rfl⟩

theorem ccmpStrip_head (hf : m.hasPkthdr = true) (hge : 24 ≤ hdrlen) (hlen : hdrlen + 8 ≤ m.mLen)
    (htot : hdrlen + 16 ≤ mLength (m :: ms)) :
    ∃ m' tl, ccmpStrip (m :: ms) hdrlen = m' :: tl ∧ hdrlen ≤ m'.mLen ∧ m'.mFlags = m.mFlags ∧
      ∀ i < hdrlen, m'.get i = m.get i := by
  generalize hm1 : m.put 8 (window m.mCluster m.mData hdrlen) = m1
  have hput : ∀ i < hdrlen, m1.get (8 + i) = m.get i := by
    intro i hi
    rw [← hm1, Mbuf.get_put, store_add, getElem?_window _ _ _ _ hi]
    rfl
  have hshape : SameShape m m1 := hm1 ▸ SameShape.put m 8 _
  have hf1 : m1.hasPkthdr = true := by rw [Mbuf.hasPkthdr, hshape.flags]; exact hf
  obtain ⟨c, hcut, hlenc, hflc, hgetc⟩ : ∃ c, mAdj (m1 :: ms) 8 = c :: ms ∧
      c.mLen = m.mLen - 8 ∧ c.mFlags = m.mFlags ∧ ∀ i, c.get i = m1.get (8 + i) := by
    refine ⟨_, mAdj_within (k := 8) hf1 (by rw [hshape.len]; omega), ?_, hshape.flags, fun i => ?_⟩
    · exact congrArg (· - 8) hshape.len
    · rw [Mbuf.get, Mbuf.get, Nat.add_assoc]
  obtain ⟨m', tl, heq, hget, hfl, hmin⟩ := mAdj_tail_head c ms (show (-8 : Int) < 0 by decide)
  rw [ccmpStrip]
  simp only [hm1, hcut, heq]
  refine ⟨m', tl, rfl, ?_, hfl.trans hflc, fun i hi => by rw [hget, hgetc, hput i hi]⟩
  have : (-(-8 : Int)).toNat = 8 := rfl
  rw [mLength_cons, this] at hmin
  rw [mLength_cons] at htot
  omega

theorem ccmpDecap_head {k k' : Key} (hf : m.hasPkthdr = true) (hge : 24 ≤ hdrlen)
    (hlen : hdrlen + 8 ≤ m.mLen) (htot : hdrlen + 16 ≤ mLength (m :: ms))
    (hdec : ccmpDecap E stack k m ms hdrlen = some (k', ms', true)) :
    ∃ m' tl, ms' = m' :: tl ∧ hdrlen ≤ m'.mLen ∧ m'.hasPkthdr = true ∧
      ∀ i < hdrlen, m'.get i = m.get i := by
  rw [ccmpDecap] at hdec
  split at hdec
  · cases hdec
  split at hdec
  · cases hdec
  split at hdec
  · cases hdec
  · cases hdec
  next ms2 hopen =>
  cases hdec
  obtain ⟨m2, tl, rfl, hshape, hget⟩ := ccmpOpen_head hopen
  cases hshape with
  | cons hm2 htl =>
    have hf2 : m2.hasPkthdr = true := by rw [Mbuf.hasPkthdr, hm2.flags]; exact hf
    obtain ⟨m', tl', hstrip, hle, hfl, hsame⟩ :=
      ccmpStrip_head hf2 hge (by rw [hm2.len]; omega) (SameShapes.mLength (.cons hm2 htl) ▸ htot)
    refine ⟨m', tl', hstrip, hle, ?_, fun i hi => ?_⟩
    · rw [Mbuf.hasPkthdr, hfl]
      exact hf2
    · rw [hsame i hi, hget i (by omega)]

variable {ν : Type} [DecidableEq ν] {h : Heap}

/-- A frame that `ieee80211_crypto_decap` accepts keeps its header, contiguous, and
the key is the one that the frame names. -/
theorem cryptoDecap_header {ks : Keys ν} {n : ν} {r : EncapResult ν} {s : KeySlot ν}
    (hpkt : Pkt (m :: ms)) (hge : 24 ≤ hdrlen) (hcont : hdrlen ≤ m.mLen)
    (hr : cryptoDecap E stack h ks n m ms hdrlen = some r) (hkey : r.key = some s) :
    s = rxSlot ks n (m.get 4) ((bytes (m :: ms)).getD (hdrlen + 3) 0) ∧
      ∃ m' ms', r.frame = some (m' :: ms') ∧ hdrlen ≤ m'.mLen ∧ m'.hasPkthdr = true ∧
        ∀ i < hdrlen, m'.get i = m.get i := by
  rw [cryptoDecap] at hr
  split at hr
  · cases hr; cases hkey
  dsimp only at hr
  generalize hs : rxSlot ks n (m.get 4) _ = s' at hr
  split at hr
  · cases hr; cases hkey
  next h1 m1 ms1 hpull =>
  obtain ⟨hb, hmax, hpk⟩ := pullupTo_some hpull
  obtain ⟨hf1, hlen1⟩ := hpk hpkt.1
  split at hr
  · cases hr; cases hkey
  next hlong =>
  split at hr
  · cases hr; cases hkey
  next hcip =>
  rw [hcip] at hmax hlong
  split at hr
  · cases hr
  next k' ms' ok hdec =>
  cases hr
  cases ok with
  | false => cases hkey
  | true =>
    cases hkey
    have htot : hdrlen + 16 ≤ mLength (m :: ms) := by
      rw [hlen1, hpkt.2] at hlong
      have : Cipher.ccmp.icHeader = 8 := rfl
      have : Cipher.ccmp.icTrailer = 8 := rfl
      omega
    have hcip8 : Cipher.ccmp.icHeader = 8 := rfl
    have htot1 : mLength (m1 :: ms1) = mLength (m :: ms) := by
      rw [← length_bytes, hb, length_bytes]
    obtain ⟨m', tl, rfl, hle, hf', hsame⟩ := ccmpDecap_head hf1 hge (by omega) (htot1 ▸ htot) hdec
    refine ⟨?_, m', tl, rfl, hle, hf', fun i hi => ?_⟩
    · rw [← hs, copyLocal_eq (by omega), headD_slice]
    · rw [hsame i hi, get_eq_bytes ms1 (by omega), get_eq_bytes ms (show i < m.mLen by omega), hb]

/-! ## Up to reassembly -/

variable {rx rx' : Rx ν} {n : ν} {rest : List RxFrame} {first : RxFrame} {hs : Nat} {o : RxOpened ν}
  {fs : List Mbuf} {m' : Mbuf}

/-- What the cipher step does not touch. -/
structure SameStation (rx rx' : Rx ν) : Prop where
  node : rx'.node = rx.node
  up : rx'.up = rx.up
  opmode : rx'.ic.icOpmode = rx.ic.icOpmode
  flags : rx'.ic.icFlags = rx.ic.icFlags

omit [DecidableEq ν] in
theorem SameStation.heap (rx : Rx ν) (h : Heap) : SameStation rx { rx with heap := h } :=
  ⟨rfl, rfl, rfl, rfl⟩

theorem inputDecrypt_same
    (h : inputDecrypt E stack rx n m ms hs = some (rx', o)) : SameStation rx rx' := by
  rw [inputDecrypt] at h
  split at h
  · cases h; exact ⟨rfl, rfl, rfl, rfl⟩
  split at h
  · cases h; exact ⟨rfl, rfl, rfl, rfl⟩
  split at h
  · cases h
  split at h
  · cases h; exact ⟨rfl, rfl, rfl, rfl⟩
  · cases h; exact ⟨rfl, rfl, rfl, rfl⟩

/-- The protected bit is none of those that say how long a header is. -/
theorem dir_clear_wep (x : UInt8) : x &&& ~~~fc1Wep &&& fc1DirMask = x &&& fc1DirMask := by
  rw [UInt8.and_assoc]
  rfl

/-- A frame that passes keeps its header, but for the protected bit, and the key is
the one it names. -/
theorem inputDecrypt_pass {key : Option (KeySlot ν)} (hpkt : Pkt (m :: ms)) (hge : 24 ≤ hs)
    (hcont : hs ≤ m.mLen) (h : inputDecrypt E stack rx n m ms hs = some (rx', .pass key m' ms')) :
    key = (if m.get 1 &&& fc1Wep == 0 then none
      else some (rxSlot rx.ic.icKeys n (m.get 4) ((bytes (m :: ms)).getD (hs + 3) 0))) ∧
    hs ≤ m'.mLen ∧ m'.hasPkthdr = true ∧ (∀ i < hs, i ≠ 1 → m'.get i = m.get i) ∧
      m'.get 1 &&& fc1DirMask = m.get 1 &&& fc1DirMask := by
  rw [inputDecrypt] at h
  split at h
  · next hclear =>
    cases h
    exact ⟨by rw [if_pos hclear], hcont, hpkt.1, fun _ _ _ => rfl, rfl⟩
  next hwep =>
  split at h
  · cases h
  split at h
  · cases h
  next r hdec =>
  split at h
  · next s m1 ms1 hkey hframe =>
    cases h
    obtain ⟨hs', m2, ms2, hframe2, hlen, hf, hget⟩ := cryptoDecap_header hpkt hge hcont hdec hkey
    cases hframe.symm.trans hframe2
    refine ⟨by rw [if_neg hwep, hs'], hlen, hf, fun i hi h1 => ?_, ?_⟩
    · rw [Mbuf.get_put, ← hget i hi]
      rcases Nat.lt_or_gt_of_ne h1 with hlt | hgt
      · exact store_of_lt _ _ hlt
      · exact store_of_ge _ hgt
    · rw [Mbuf.get_put, ← hget 1 (by omega)]
      exact dir_clear_wep (m1.get 1)
  · cases h

/-- A frame as it comes in: a packet, of which the first mbuf has the octets that
every frame has. -/
structure Packet where
  m : Mbuf
  ms : List Mbuf
  pkt : Pkt (m :: ms)
  min : 16 ≤ m.mLen

/-- The octets of a frame. -/
def Packet.wh (pk : Packet) : Wh := hdrOf (bytes (pk.m :: pk.ms))

theorem Packet.wh_eq (pk : Packet) {i : Nat} (hi : i < pk.m.mLen) : pk.wh i = pk.m.get i :=
  (get_eq_bytes pk.ms hi).symm

theorem Packet.hdrspace_wh (pk : Packet) (datapad : Bool) :
    hdrspace datapad pk.wh = hdrspace datapad pk.m.get :=
  have hmin := pk.min
  hdrspace_congr (pk.wh_eq (by omega)) (pk.wh_eq (by omega)) datapad

/-- A key as it was when a frame was decrypted. -/
structure KeyUse (ν : Type) where
  slot : KeySlot ν
  wkKey : List UInt8
  wkPrivate : Option (List UInt8)
  deriving DecidableEq

def keyUse (ks : Keys ν) (s : KeySlot ν) : KeyUse ν :=
  { slot := s, wkKey := (ks.key s).wkKey, wkPrivate := (ks.key s).wkPrivate }

/-- The key that a frame names, `none` for a clear one. -/
def frameKey (ks : Keys ν) (n : ν) (pk : Packet) : Option (KeyUse ν) :=
  if pk.wh 1 &&& fc1Wep == 0 then none
  else some (keyUse ks (rxSlot ks n (pk.wh 4) (pk.wh (hdrspace ks.datapad pk.wh + 3))))

/-- In a station the operation mode decides whether a frame goes on, and no more. -/
theorem inputDataOpmode_sta (rx : Rx ν) (n : ν) (wh : Wh) (hsta : rx.ic.icOpmode = .sta) :
    (inputDataOpmode rx n wh).1 = rx := by
  rw [inputDataOpmode, hsta]

theorem inputOpen_same (hsta : rx.ic.icOpmode = .sta)
    (h : inputOpen E stack rx n m ms = some (rx', o)) :
    SameStation rx rx' := by
  rw [inputOpen] at h
  split at h
  · cases h; exact .heap rx _
  next h1 m1 ms1 hpull =>
  have hop := inputDataOpmode_sta { rx with heap := h1 } n m1.get hsta
  split at h
  · next heq =>
    rw [heq] at hop
    cases h
    subst hop
    exact .heap rx _
  · next heq =>
    rw [heq] at hop
    subst hop
    have := inputDecrypt_same h
    exact ⟨this.node, this.up, this.opmode, this.flags⟩

/-- What reassembly gets in a station: a frame with the header of the one that came
in, but for the protected bit, and the key that it named. -/
theorem inputOpen_pass {pk : Packet} {key : Option (KeySlot ν)} (hsta : rx.ic.icOpmode = .sta)
    (h : inputOpen E stack rx n pk.m pk.ms = some (rx', .pass key m' ms')) :
    key.map (keyUse rx.ic.icKeys) = frameKey rx.ic.icKeys n pk ∧
      ∃ fr : RxFrame, fr.m = m' ∧ fr.ms = ms' ∧
        fr.hdrspace = hdrspace rx.ic.icKeys.datapad pk.m.get ∧
        ∀ i, 2 ≤ i → i < 24 → fr.m.get i = pk.wh i := by
  rw [inputOpen] at h
  generalize hhs : hdrspace rx.ic.icKeys.datapad pk.m.get = hs at h
  split at h
  · cases h
  next h1 m1 ms1 hpull =>
  have hop := inputDataOpmode_sta { rx with heap := h1 } n m1.get hsta
  split at h
  · cases h
  next heq =>
  rw [heq] at hop
  subst hop
  obtain ⟨hb, hmax, hpk⟩ := pullupTo_some hpull
  obtain ⟨hf1, hlen1⟩ := hpk pk.pkt.1
  have hbounds := hdrspace_bounds rx.ic.icKeys.datapad pk.m.get
  rw [hhs] at hbounds
  have hpkt1 : Pkt (m1 :: ms1) := ⟨hf1, by rw [hlen1, pk.pkt.2, ← length_bytes, ← length_bytes, hb]⟩
  have hwh : ∀ i < hs, m1.get i = pk.wh i := fun i hi => by
    rw [get_eq_bytes ms1 (by omega), hb]
    rfl
  obtain ⟨hkey, hlen, hf, hget, hdir⟩ := inputDecrypt_pass hpkt1 hbounds.1 (by omega) h
  refine ⟨?_, ?_⟩
  · rw [hkey, frameKey, pk.hdrspace_wh, hhs, hwh 1 (by omega), hwh 4 (by omega), hb]
    split
    · rfl
    · rfl
  · refine ⟨⟨m', ms', hs, ?_, hbounds.2, hlen, hf⟩, rfl, rfl, rfl, fun i h2 h24 => ?_⟩
    · have hsz : hdrsize m'.get = hdrsize pk.m.get := by
        have hmin := pk.min
        rw [hdrsize, hdrsize, is4Address, is4Address, hasQos, hasQos, hdir,
          hget 0 (by omega) (by omega),
          hwh 0 (by omega), hwh 1 (by omega), pk.wh_eq (by omega), pk.wh_eq (by omega)]
      rw [hsz, ← hhs]
      exact hdrsize_le_hdrspace _ _
    · exact (hget i (by omega) (by omega)).trans (hwh i (by omega))

/-! ## Delivery in a station -/

theorem deliverData_sta (rx : Rx ν) (hsta : rx.ic.icOpmode = .sta) (ms : List Mbuf)
    (h14 : 14 ≤ m.mLen) : (deliverData rx m ms).ic = rx.ic ∧ (deliverData rx m ms).node = rx.node ∧
      (deliverData rx m ms).up = rx.up ++ rxUp rx m.bytes := by
  have hno : ¬ (rx.ic.icOpmode = .hostap && !rx.nobridge) = true := by rw [hsta]; exact nofun
  have hd : deliverData rx m ms = ifPercpuqEnqueue rx m ms := by rw [deliverData, if_neg hno]
  rw [hd]
  exact ⟨rfl, rfl, ifPercpuqEnqueue_up rx ms h14⟩

/-- Joined fragments go to the hooks if the port lets them pass, as far as the first
mbuf goes. -/
theorem inputDeliver_sta (hsta : rx.ic.icOpmode = .sta) (protect : Bool) {f : Mbuf}
    (hj : Joined first rest (f :: fs))
    (hge : 24 ≤ hs) : (inputDeliver rx n protect f fs hs).1.ic = rx.ic ∧
    (inputDeliver rx n protect f fs hs).1.node = rx.node ∧
      ((inputDeliver rx n protect f fs hs).1.up = rx.up ∨
        ∃ b, portPasses rx.ic n protect (etherHeaderOf b) = true ∧
          b <+: etherFrame (decapAddrs first.m.get) ((bytes (f :: fs)).drop hs) ∧
          (inputDeliver rx n protect f fs hs).1.up = rx.up ++ rxUp rx b) := by
  rw [inputDeliver]
  rcases hj.decap_cases rx.heap hge with ⟨h', hd, _⟩ | ⟨h', m', ms', hd, h14, hb, _⟩
  · rw [hd]
    exact ⟨rfl, rfl, .inl rfl⟩
  · rw [hd]
    have heh : etherHeader m' = etherHeaderOf m'.bytes := by
      rw [etherHeader_eq [] h14, bytes_singleton]
    dsimp only
    split
    · next hport =>
      obtain ⟨hic, hnode, hup⟩ := deliverData_sta { rx with heap := h' } hsta ms' h14
      refine ⟨hic, hnode, .inr ⟨m'.bytes, heh ▸ hport, ?_, hup⟩⟩
      rw [← hb, bytes_cons]
      exact prefix_append _ _
    · exact ⟨rfl, rfl, .inl rfl⟩

omit [DecidableEq ν] in
theorem data_mem_rxUp {b b' : List UInt8} (h : .data b' ∈ rxUp rx b) : b' = b := by
  rw [rxUp] at h
  split at h
  · cases mem_singleton.mp h
  split at h
  · exact RxUp.data.inj (mem_singleton.mp h)
  · cases h

/-! ## Whole runs -/

/-- A frame that passed the cipher step: its node, the frame as it goes to reassembly,
and the key it was decrypted with, `none` for a clear one. -/
structure RxEntry (ν : Type) where
  node : ν
  m : Mbuf
  ms : List Mbuf
  hdrspace : Nat
  key : Option (KeyUse ν)

/-- Reception in a station, with the frames that passed the cipher step so far, and
for each node the key of the last one that went to its buffer. -/
structure RxRun (ν : Type) where
  rx : Rx ν
  opened : List (RxEntry ν)
  last : ν → Option (KeyUse ν)

/-- A data frame comes in. Between frames: the timer of a node goes off, or it is
cleaned up; the rest of its receive state changes; the interface changes, but stays
a station that drops what is not encrypted; and so do memory, clock and hooks. -/
inductive RxRunOp (ν : Type) where
  | frame (stack : Nat → UInt8) (n : ν) (pk : Packet)
  | timeout (n : ν) (hz : UInt32)
  | cleanup (n : ν)
  | node (n : ν) (niTable : Bool) (niAssocid : Nat) (niPwrMgt : Bool) (niRxseqs : Nat → UInt16)
  | ic (ic : Ic ν)
  | host (heap : Heap) (ticks : UInt32) (scan simplex eapolRx dataRx : Bool)

/-- Note the key of a frame that goes to the buffer of its node. -/
def noteKey (rx : Rx ν) (last : ν → Option (KeyUse ν)) (n : ν) (m : Mbuf)
    (key : Option (KeyUse ν)) : ν → Option (KeyUse ν) :=
  if isMulticast (m.get 4) || !(rx.node n).niTable then last else update last n key

def rxRunStep (E : BlockCipher) (s : RxRun ν) : RxRunOp ν → Option (RxRun ν)
  | .frame stack n pk =>
    match inputOpen E stack s.rx n pk.m pk.ms, inputData E stack s.rx n pk.m pk.ms with
    | some (_, .pass key m ms), some (rx, _) =>
      let key := key.map (keyUse s.rx.ic.icKeys)
      let hdrspace := hdrspace s.rx.ic.icKeys.datapad pk.m.get
      some { rx, opened := s.opened ++ [{ node := n, m, ms, hdrspace, key }]
             last := noteKey s.rx s.last n m key }
    | some (_, .discard _), some (rx, _) => some { s with rx }
    | _, _ => none
  | .timeout n hz =>
    let (heap, ni) := rxfragTimeout hz s.rx.ticks s.rx.heap (s.rx.node n)
    some { s with rx := { s.rx.setNode n ni with heap } }
  | .cleanup n =>
    let (heap, ni) := rxfragCleanup s.rx.heap (s.rx.node n)
    some { s with rx := { s.rx.setNode n ni with heap } }
  | .node n niTable niAssocid niPwrMgt niRxseqs =>
    let ni := { s.rx.node n with niTable, niAssocid, niPwrMgt, niRxseqs }
    some { s with rx := s.rx.setNode n ni }
  | .ic ic =>
    if ic.icOpmode = .sta ∧ ic.icFlags.dropunenc = true then some { s with rx := { s.rx with ic } }
    else none
  | .host heap ticks scan simplex eapolRx dataRx =>
    some { s with rx := { s.rx with heap, ticks, scan, simplex, eapolRx, dataRx } }

/-- A station that drops what is not encrypted, before the first frame. -/
def rxRunInit (s : RxRun ν) : Prop :=
  s.rx.ic.icOpmode = .sta ∧ s.rx.ic.icFlags.dropunenc = true ∧ s.rx.up = [] ∧ s.opened = [] ∧
    ∀ n, (s.rx.node n).niRxfrag = none

/-- Does a frame continue the stored fragments? -/
def continues : Option (List Mbuf) → Wh → Bool
  | none, _ => false
  | some c, wh => defragFollows c wh

/-- A frame that continues stored fragments names the key of the last one of them. -/
def NoMix (s : RxRun ν) : RxRunOp ν → Prop
  | .frame _ n pk =>
    continues (s.rx.node n).niRxfrag pk.wh = true → frameKey s.rx.ic.icKeys n pk = s.last n
  | _ => True

instance decidableNoMix (s : RxRun ν) (a : RxRunOp ν) : Decidable (NoMix s a) := by
  cases a <;> unfold NoMix <;> infer_instance

/-- The record of a frame of node `n` that passed with `key`. -/
def RxFrame.entry (n : ν) (key : Option (KeyUse ν)) (fr : RxFrame) : RxEntry ν :=
  { node := n, m := fr.m, ms := fr.ms, hdrspace := fr.hdrspace, key }

/-- The chain is what frames of node `n` were joined to that all passed with `key`. -/
def Uniform (opened : List (RxEntry ν)) (n : ν) (key : Option (KeyUse ν)) (first : RxFrame)
    (rest : List RxFrame) (c : List Mbuf) : Prop :=
  ((first :: rest).map (RxFrame.entry n key)).Sublist opened ∧ Joined first rest c

/-- The octets come from frames of one node that were all decrypted with one key. -/
def Decrypted (opened : List (RxEntry ν)) (b : List UInt8) : Prop :=
  ∃ n k first rest c, Uniform opened n (some k) first rest c ∧
    b <+: etherFrame (decapAddrs first.m.get) ((bytes c).drop (rest.getLastD first).hdrspace)

/-- What holds in every state of a run. -/
structure RxRunInv (s : RxRun ν) : Prop where
  opmode : s.rx.ic.icOpmode = .sta
  dropunenc : s.rx.ic.icFlags.dropunenc = true
  stored : ∀ n c, (s.rx.node n).niRxfrag = some c →
    ∃ first rest, Uniform s.opened n (s.last n) first rest c
  up : ∀ b, .data b ∈ s.rx.up → (etherHeaderOf b).etherType ≠ ethertypePae →
    Decrypted s.opened b

variable {opened opened' : List (RxEntry ν)} {key : Option (KeyUse ν)} {c : List Mbuf}
  {stored : Option (List Mbuf)}

omit [DecidableEq ν] in
theorem Uniform.mono (hu : Uniform opened n key first rest c) (h : opened.Sublist opened') :
    Uniform opened' n key first rest c :=
  ⟨hu.1.trans h, hu.2⟩

omit [DecidableEq ν] in
theorem Decrypted.mono {b : List UInt8} (hd : Decrypted opened b)
    (h : opened.Sublist opened') : Decrypted opened' b := by
  obtain ⟨n, k, first, rest, c, hu, hb⟩ := hd
  exact ⟨n, k, first, rest, c, hu.mono h, hb⟩

omit [DecidableEq ν] in
/-- What is in hand after a frame with the key of the stored fragments. -/
theorem Assembled.uniform {fr : RxFrame} {last : Option (KeyUse ν)} (ha : Assembled stored fr c)
    (hst : ∀ c, stored = some c → ∃ first rest, Uniform opened n last first rest c)
    (hmix : continues stored fr.m.get = true → key = last) :
    ∃ first rest, Uniform (opened ++ [fr.entry n key]) n key first rest c ∧
      rest.getLastD first = fr := by
  cases ha with
  | start _ _ => exact ⟨fr, [], ⟨sublist_append_right _ _, .single fr⟩, rfl⟩
  | join hc hfol =>
    obtain ⟨first, rest, hsub, hj⟩ := hst _ hc
    obtain rfl : key = last := hmix (by rw [hc]; exact hfol)
    refine ⟨first, rest ++ [fr], ⟨?_, hj.join fr⟩, getLastD_concat ..⟩
    rw [← cons_append, map_append]
    exact hsub.append (List.Sublist.refl _)

variable {s : RxRun ν} {x : UInt8}

omit [DecidableEq ν] in
theorem RxRunInv.record (hi : RxRunInv s) (hsub : s.opened.Sublist opened) :
    RxRunInv { s with opened } := by
  refine ⟨hi.opmode, hi.dropunenc, fun n c hc => ?_, fun b hb hpae => (hi.up b hb hpae).mono hsub⟩
  obtain ⟨first, rest, hu⟩ := hi.stored n c hc
  exact ⟨first, rest, hu.mono hsub⟩

/-- The receive state of one node changes, and frames are added to the record. -/
theorem RxRunInv.setNode (hi : RxRunInv s) {ni : NodeRx} {last : ν → Option (KeyUse ν)}
    (hsub : s.opened.Sublist opened) (hlast : ∀ n', n' ≠ n → last n' = s.last n')
    (hst : ∀ c, ni.niRxfrag = some c → ∃ first rest, Uniform opened n (last n) first rest c) :
    RxRunInv { rx := { s.rx.setNode n ni with heap := h }, opened, last } := by
  refine ⟨hi.opmode, hi.dropunenc, fun n' c hc => ?_, fun b hb hpae => (hi.up b hb hpae).mono hsub⟩
  change (update s.rx.node n ni n').niRxfrag = some c at hc
  by_cases hn : n' = n
  · subst hn
    rw [update_self] at hc
    exact hst c hc
  · rw [update_of_ne hn] at hc
    obtain ⟨first, rest, hu⟩ := hi.stored n' c hc
    rw [← hlast n' hn] at hu
    exact ⟨first, rest, hu.mono hsub⟩

/-- A chain is delivered whose frames all passed with one key, or all in the clear. -/
theorem RxRunInv.deliver (hi : RxRunInv s) {f : Mbuf}
    (hu : Uniform s.opened n key first rest (f :: fs)) :
    RxRunInv { s with rx :=
      (inputDeliver s.rx n key.isSome f fs (rest.getLastD first).hdrspace).1 } := by
  obtain ⟨hic, hnode, hup⟩ := inputDeliver_sta (n := n) hi.opmode key.isSome hu.2
    (rest.getLastD first).le_hdrspace
  refine ⟨by rw [hic]; exact hi.opmode, by rw [hic]; exact hi.dropunenc, ?_, fun b hb hpae => ?_⟩
  · simp only [hnode]
    exact hi.stored
  rcases hup with hup | ⟨b', hport, hpre, hup⟩
  · rw [hup] at hb
    exact hi.up b hb hpae
  · rw [hup] at hb
    rcases mem_append.mp hb with hb | hb
    · exact hi.up b hb hpae
    -- The port looks at the key of the last frame, and that is the key of all.
    obtain rfl := data_mem_rxUp hb
    have hkey : key.isSome = true := by
      rw [portPasses, beq_eq_false_iff_ne.mpr hpae, Bool.false_or, Bool.and_eq_true,
        hi.dropunenc] at hport
      exact hport.2
    obtain ⟨k, rfl⟩ := isSome_iff_exists.mp hkey
    exact ⟨n, k, first, rest, _, hu, hpre⟩

/-- A frame goes through reassembly, the port and delivery. -/
theorem RxRunInv.recv (hi : RxRunInv s) (fr : RxFrame) (n : ν) (key : Option (KeyUse ν))
    (hmix : continues (s.rx.node n).niRxfrag fr.m.get = true → key = s.last n) :
    RxRunInv { rx := (inputMsdu s.rx n key.isSome fr.m fr.ms fr.hdrspace).1
               opened := s.opened ++ [fr.entry n key]
               last := noteKey s.rx s.last n fr.m key } := by
  have hsub : s.opened.Sublist (s.opened ++ [fr.entry n key]) := sublist_append_left _ _
  cases hmc : isMulticast (fr.m.get 4) with
  | true =>
    -- What is sent to a group does not touch the buffer.
    have hone : Uniform (s.opened ++ [fr.entry n key]) n key fr [] (fr.m :: fr.ms) :=
      ⟨sublist_append_right _ _, .single fr⟩
    rw [noteKey, hmc, Bool.true_or, if_pos rfl, inputMsdu, inputDefrag, if_pos hmc]
    exact (hi.record hsub).deliver hone
  | false =>
    obtain ⟨⟨h', ni', r⟩, hd⟩ :
        ∃ x, defrag s.rx.heap s.rx.ticks (s.rx.node n) fr.m fr.ms fr.hdrspace = x := ⟨_, rfl⟩
    have hlast : ∀ n', n' ≠ n → noteKey s.rx s.last n fr.m key n' = s.last n' := by
      intro n' hn
      rw [noteKey]
      split
      · rfl
      · exact update_of_ne hn _ _
    have hnote : (s.rx.node n).niTable = true → noteKey s.rx s.last n fr.m key n = key := by
      intro htab
      rw [noteKey, hmc, htab, Bool.not_true, Bool.or_false, if_neg Bool.false_ne_true, update_self]
    have hmove := (defrag_move hd).1
    generalize hst' : ni'.niRxfrag = stored at hmove
    cases hmove with
    | orphan htab =>
      rw [inputMsdu_stored _ hmc hd]
      refine hi.setNode hsub hlast fun c hc => ?_
      obtain ⟨first, rest, hu⟩ := hi.stored n c (hst'.symm.trans hc)
      refine ⟨first, rest, ?_⟩
      rw [noteKey, htab, Bool.not_false, Bool.or_true, if_pos rfl]
      exact hu.mono hsub
    | discard _ _ =>
      rw [inputMsdu_stored _ hmc hd]
      exact hi.setNode hsub hlast fun c hc => by cases hst'.symm.trans hc
    | store htab ha _ =>
      rw [inputMsdu_stored _ hmc hd]
      refine hi.setNode hsub hlast fun c hc => ?_
      cases hst'.symm.trans hc
      obtain ⟨first, rest, hu, _⟩ := ha.uniform (hi.stored n) hmix
      exact ⟨first, rest, (hnote htab).symm ▸ hu⟩
    | complete ha _ =>
      obtain ⟨first, rest, hu, hfr⟩ := ha.uniform (hi.stored n) hmix
      obtain ⟨f, fs, rfl, _⟩ := hu.2.head
      rw [inputMsdu_complete _ hmc hd, ← hfr]
      refine RxRunInv.deliver (s := ⟨_, _, _⟩) ?_ (hfr ▸ hu)
      rw [hfr]
      exact hi.setNode hsub hlast fun c hc => by cases hst'.symm.trans hc

theorem continues_congr {wh wh' : Wh}
    (h : ∀ i, 2 ≤ i → i < 24 → wh i = wh' i) : continues stored wh = continues stored wh' := by
  match stored with
  | none => rfl
  | some [] => rfl
  | some (lm :: _) =>
    have haddr : ∀ a, 2 ≤ a → a + 6 ≤ 24 → window wh a 6 = window wh' a 6 := fun a h2 ha =>
      window_congr 6 a fun k hk => h (a + k) (by omega) (by omega)
    simp only [continues, defragFollows, whSeq, haddr 4 (by decide) (by decide),
      haddr 10 (by decide) (by decide), h 22 (by decide) (by decide), h 23 (by decide) (by decide)]

omit [DecidableEq ν] in
theorem RxRunInv.same (hi : RxRunInv s) (h : SameStation s.rx rx) :
    RxRunInv { s with rx } :=
  ⟨h.opmode.trans hi.opmode, by rw [h.flags]; exact hi.dropunenc, by
    simp only [h.node]; exact hi.stored, by simp only [h.up]; exact hi.up⟩

theorem rxRunStep_inv {s' : RxRun ν} {a : RxRunOp ν} (hi : RxRunInv s) (hok : NoMix s a)
    (hs : rxRunStep E s a = some s') : RxRunInv s' := by
  cases a with
  | frame stack n pk =>
    rw [rxRunStep] at hs
    split at hs
    · next rx1 key m ms rx2 left hopen hdata =>
      cases hs
      rw [inputData, hopen] at hdata
      have hsame := inputOpen_same hi.opmode hopen
      obtain ⟨hkey, fr, rfl, rfl, hhs, hwh⟩ := inputOpen_pass hi.opmode hopen
      have hmix : continues (rx1.node n).niRxfrag fr.m.get = true →
          key.map (keyUse s.rx.ic.icKeys) = s.last n := by
        rw [hsame.node, continues_congr hwh, hkey]
        exact hok
      have hrecv := (hi.same hsame).recv fr n (key.map (keyUse s.rx.ic.icKeys)) hmix
      have hnote : noteKey rx1 = noteKey s.rx := by
        funext last n m key
        rw [noteKey, noteKey, hsame.node]
      have hrx : (inputMsdu rx1 n (key.map (keyUse s.rx.ic.icKeys)).isSome fr.m fr.ms
          fr.hdrspace).1 = rx2 := by
        rw [isSome_map, hhs]
        exact congrArg Prod.fst (Option.some.inj hdata)
      simp only [hnote, RxFrame.entry] at hrecv
      rw [hrx, hhs] at hrecv
      exact hrecv
    · next rx1 frame rx2 left hopen hdata =>
      cases hs
      rw [inputData, hopen] at hdata
      cases hdata
      exact hi.same (inputOpen_same hi.opmode hopen)
    · cases hs
  | timeout n hz =>
    cases hs
    exact hi.setNode (.refl _) (fun _ _ => rfl) fun c hc => hi.stored n c (rxfragTimeout_stored hc)
  | cleanup n =>
    cases hs
    exact hi.setNode (.refl _) (fun _ _ => rfl) fun c hc =>
      nomatch (rxfragCleanup_stored s.rx.heap (s.rx.node n)).symm.trans hc
  | node n niTable niAssocid niPwrMgt niRxseqs =>
    cases hs
    exact hi.setNode (.refl _) (fun _ _ => rfl) fun c hc => hi.stored n c hc
  | ic ic =>
    obtain ⟨hsta, rfl⟩ := of_guard hs
    exact ⟨hsta.1, hsta.2, hi.stored, hi.up⟩
  | host heap ticks scan simplex eapolRx dataRx =>
    cases hs
    exact ⟨hi.opmode, hi.dropunenc, hi.stored, hi.up⟩

/-- Where no frame continues fragments that were protected in another way, what is
delivered besides EAPOL comes from frames that were decrypted with one key. -/
theorem delivered_decrypted {E : BlockCipher} {s : RxRun ν} {b : List UInt8}
    (hr : Reach rxRunInit (rxRunStep E) NoMix s) (hb : .data b ∈ s.rx.up)
    (hpae : (etherHeaderOf b).etherType ≠ ethertypePae) : Decrypted s.opened b := by
  have hinv : RxRunInv s := by
    refine Reach.invariant ?_ (fun _ _ _ => rxRunStep_inv) hr
    rintro s ⟨hsta, hdrop, hup, _, hfrag⟩
    refine ⟨hsta, hdrop, fun n c hc => ?_, fun b hb => ?_⟩
    · rw [hfrag n] at hc; cases hc
    · rw [hup] at hb; cases hb
  exact hinv.up b hb hpae

/-- A key for CCMP in software. -/
def ccmpKey : Key :=
  { resetkey with
    wkCipher := .ccmp, wkFlags := { xmit := true, recv := true, group := false, swcrypt := true }
    wkKeyix := some 0, wkPrivate := some [] }

/-- A station with a CCMP key that drops what is not encrypted. -/
def privateStation : RxRun Unit :=
  { rx := stationRx
      { privacy := true, wpa1 := false, wpa2 := true, dropunenc := true, desbssid := true } ccmpKey
    opened := [], last := fun _ => none }

/-- A frame in one mbuf. -/
def rxPacket (octets : List UInt8) (h : 16 ≤ octets.length) : Packet :=
  { m := packet 0 octets, ms := []
    pkt := ⟨show ((mPkthdr ||| mExt) &&& mPkthdr != 0) = true by decide, rfl⟩, min := h }

/-- The header of a protected frame from an access point, and the CCMP header. -/
def apProtected (more : Bool) (seqLo tsc : UInt8) : List UInt8 :=
  let fc1 := if more then fc1DirFromds ||| fc1MoreFrag else fc1DirFromds
  (apOctets more seqLo 0 []).set 1 (fc1 ||| fc1Wep) ++ [tsc, 0, 0, 0x20, 0, 0, 0, 0]

/-- The first fragment of an MSDU of twelve octets, sealed with the identity for a
block cipher: nine octets and the MIC. -/
def protectedFirst : Packet :=
  rxPacket (apProtected true 0x30 1 ++ [171, 170, 1, 0, 0, 0, 8, 2, 1] ++
    [240, 188, 11, 70, 2, 3, 8, 0]) (by decide)

/-- The second and last fragment, of one octet, with packet number `tsc`. -/
def protectedLast (tsc : UInt8) : Packet :=
  rxPacket (apProtected false 0x31 tsc ++ [3] ++ [88, 22, 8, 66, 2, 3, 1, 0])
    (Nat.le_of_ble_eq_true rfl)

/-- Both fragments protected. -/
theorem delivered_decrypted_sample :
    ∃ s : RxRun Unit, s.rx.up = [.data [2, 0, 0, 0, 0, 1, 2, 0, 0, 0, 0, 3, 8, 0, 1]] ∧
      Decrypted s.opened [2, 0, 0, 0, 0, 1, 2, 0, 0, 0, 0, 3, 8, 0, 1] := by
  obtain ⟨s, hr, hup⟩ : ∃ s : RxRun Unit, Reach rxRunInit (rxRunStep fun _ b => b) NoMix s ∧
      s.rx.up = [.data [2, 0, 0, 0, 0, 1, 2, 0, 0, 0, 0, 3, 8, 0, 1]] :=
    Reach.of_run [.frame (fun _ => 0) () protectedFirst, .frame (fun _ => 0) () (protectedLast 2)]
      (show rxRunInit privateStation from ⟨rfl, rfl, rfl, rfl, fun _ => rfl⟩) (by decide +kernel)
      (by decide +kernel)
  exact ⟨s, hup, delivered_decrypted hr (by rw [hup]; exact mem_singleton_self _) (by decide)⟩

theorem Joined.mem_octets (hj : Joined first rest c) (hx : x ∈ bytes c) :
    ∃ p ∈ first :: rest, x ∈ bytes p.chain := by
  rw [hj.octets] at hx
  rcases mem_append.mp hx with hx | hx
  · rw [patch] at hx
    rcases mem_append.mp hx with hx | hx
    · rcases mem_append.mp hx with hx | hx
      · exact ⟨first, mem_cons_self, mem_of_mem_take hx⟩
      · -- The number is that of the last fragment.
        have hlast := mem_of_getElem? (getElem?_getLastD first rest)
        generalize rest.getLastD first = p at hx hlast
        have h24 := Nat.le_trans p.le_hdrspace p.contiguous
        have hget : ∀ i < 24, p.m.get i ∈ bytes p.chain := fun i hi => by
          rw [get_eq_bytes p.ms (by omega), getD_eq_getElem?_getD,
            getElem?_eq_getElem (by rw [length_bytes, mLength_cons]; omega)]
          exact getElem_mem _
        refine ⟨p, hlast, ?_⟩
        rcases mem_cons.mp hx with rfl | hx
        · exact hget 22 (by decide)
        · rw [mem_singleton.mp hx]
          exact hget 23 (by decide)
    · exact ⟨first, mem_cons_self, mem_of_mem_drop hx⟩
  · obtain ⟨p, hp, hx⟩ := mem_flatMap.mp hx
    exact ⟨p, mem_cons_of_mem _ hp, mem_of_mem_drop hx⟩

theorem mem_drop_etherFrame {addrs body : List UInt8} (ha : addrs.length = 12)
    (hx : x ∈ (etherFrame addrs body).drop 14) : x ∈ body := by
  rw [etherFrame] at hx
  split at hx
  · rw [drop_append, drop_eq_nil_of_le (by omega), nil_append] at hx
    exact mem_of_mem_drop (mem_of_mem_drop hx)
  · rw [drop_left' (by rw [length_append, ha]; rfl)] at hx
    exact hx

/-- The first fragment comes in the clear, and the last one protected: the port looks
at the last one, and the octets of the first one are delivered. -/
theorem clear_fragment_delivered :
    ∃ (s : RxRun Unit) (b : List UInt8), Reach rxRunInit (rxRunStep fun _ b => b) Any s ∧
      .data b ∈ s.rx.up ∧ (etherHeaderOf b).etherType ≠ ethertypePae ∧ ¬ Decrypted s.opened b := by
  obtain ⟨s, hr, hup, hno⟩ : ∃ s : RxRun Unit, Reach rxRunInit (rxRunStep fun _ b => b) Any s ∧
      s.rx.up = [.data [2, 0, 0, 0, 0, 1, 2, 0, 0, 0, 0, 3, 8, 0, 0x77]] ∧
      ∀ e ∈ s.opened, e.key.isSome = true → 0x77 ∉ bytes (e.m :: e.ms) :=
    Reach.of_run
      [.frame (fun _ => 0) ()
          (rxPacket (apOctets true 0x30 0 (llcSnap ++ [8, 0, 0x77])) (by decide)),
        .frame (fun _ => 0) () (protectedLast 1)]
      (show rxRunInit privateStation from ⟨rfl, rfl, rfl, rfl, fun _ => rfl⟩) (runOk_any _ _)
      (by decide +kernel)
  refine ⟨s, _, hr, by rw [hup]; exact mem_singleton_self _, by decide, ?_⟩
  rintro ⟨n, k, first, rest, c, ⟨hsub, hj⟩, t, ht⟩
  have hbody := mem_drop_etherFrame (x := 0x77) (length_decapAddrs first.m.get)
    (by rw [← ht]; exact mem_cons_self)
  obtain ⟨p, hp, hx⟩ := hj.mem_octets (mem_of_mem_drop hbody)
  exact hno _ (hsub.subset (mem_map_of_mem hp)) rfl hx

end Net80211
