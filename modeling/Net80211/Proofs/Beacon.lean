import Net80211.Proofs.TimBooks

/-!
# The TIM element says which stations have frames

An update copies the octets of the bitmap that are not zero into the element, but it writes
their offset only if their number has changed. A station reads the bitmap off the element if
and only if the offset there is that of the octets. The multicast bit goes with a DTIM count
of 1, one beacon too early, unless the DTIM period is 1.
-/

namespace Net80211

open Lib List Option

/-! ## The octets to send -/

variable {t : Tim} {timoff timlen : Nat}

theorem TimInv.word_lt (h : TimInv t) {i : Nat} (hi : t.icTimBitmap i ≠ 0#8) : i < t.icTimLen := by
  obtain ⟨a, ha, hset⟩ := Bitmap.exists_isset (by decide) hi
  have hlt := (h.bound a hset).2
  rw [Tim.icTimLen, howmany]
  split <;> omega

theorem TimInv.icTimLen_le (h : TimInv t) : t.icTimLen ≤ 251 := by
  have hle := h.maxAid
  rw [Tim.icTimLen, howmany]
  split <;> omega

theorem TimInv.psPending_eq_zero (h : TimInv t) : t.icPsPending = 0 ↔
    ∀ a, Bitmap.isset t.icTimBitmap a = false := by
  have hp := h.pending
  constructor
  · intro h0 a
    refine Bool.eq_false_iff.mpr fun hset => ?_
    rw [h0] at hp
    have hempty := Finset.card_eq_zero.mp hp.symm
    have hmem : a ∈ Bitmap.bits t.icTimBitmap t.icMaxAid :=
      Finset.mem_filter.mpr ⟨Finset.mem_range.mpr (h.bound a hset).2, hset⟩
    rw [hempty] at hmem
    cases hmem
  · intro hall
    have hempty : Bitmap.bits t.icTimBitmap t.icMaxAid = ∅ :=
      Finset.filter_eq_empty_iff.mpr fun a _ ha => by rw [hall a] at ha; cases ha
    rw [hempty, Finset.card_empty] at hp
    exact BitVec.eq_of_toNat_eq hp

/-- `timoff` and `timlen`. -/
structure Tim.Windowed (t : Tim) (timoff timlen : Nat) : Prop where
  even : timoff % 2 = 0
  small : timoff < 256
  length : 3 + timlen < 256
  spans : Bitmap.Spans t.icTimBitmap timoff timlen
  ends : (∀ a, Bitmap.isset t.icTimBitmap a = false) ∨
    ∃ i j, t.icTimBitmap i ≠ 0#8 ∧ (∀ k, k < i → t.icTimBitmap k = 0#8) ∧
      t.icTimBitmap j ≠ 0#8 ∧ ∀ k, j < k → t.icTimBitmap k = 0#8

theorem TimInv.windowed (h : TimInv t) (hw : t.timWindow = some (timoff, timlen)) :
    t.Windowed timoff timlen := by
  have hlen := h.icTimLen_le
  rw [Tim.timWindow] at hw
  by_cases hp : t.icPsPending = 0
  · rw [if_neg (not_not_intro hp)] at hw
    cases hw
    have hall := h.psPending_eq_zero.mp hp
    refine ⟨rfl, by decide, by decide, fun i hi => ?_, .inl hall⟩
    obtain ⟨a, -, hset⟩ := Bitmap.exists_isset (by decide) hi
    rw [hall a] at hset
    cases hset
  · rw [if_pos hp] at hw
    cases hfirst : Bitmap.first t.icTimBitmap t.icTimLen with
    | none => rw [hfirst] at hw; cases hw
    | some i =>
      rw [hfirst] at hw
      obtain ⟨-, hw⟩ := ite_none_left_eq_some.mp hw
      obtain ⟨j, hlast, heq⟩ := map_eq_some_iff.mp hw
      cases heq
      obtain ⟨hilen, hi, hbelow⟩ := Bitmap.first_eq_some hfirst
      obtain ⟨hoff, hjlen, hj, habove⟩ := Bitmap.last_eq_some hlast
      refine ⟨by omega, by omega, by omega, ?_, .inr ⟨i, j, hi, hbelow, hj, fun k hk => ?_⟩⟩
      · exact Bitmap.spans_of_first_last (fun _ => h.word_lt) hfirst (by omega) hlast
      · by_contra hne
        exact hne (habove k hk (h.word_lt hne))

/-! ## The element -/

variable {b b' : ApBeacon}

/-- What holds of a beacon at all times. -/
structure ApBeacon.Ok (b : ApBeacon) : Prop where
  caps : b.boCaps + 2 ≤ b.boTim
  trailer : b.boTrailer = b.boTim + 5 + b.boTimLen
  length : 3 + b.boTimLen < 256
  timLen : b.timLen = BitVec.ofNat 8 (3 + b.boTimLen)
  count : b.timPeriod = 1 → b.timCount = 0

/-- The bitmap offset. -/
def ApBeacon.offset (b : ApBeacon) : Nat := (b.timBitctl &&& ~~~1).toNat

/-- The DTIM count of the next beacon. -/
def ApBeacon.nextCount (b : ApBeacon) : Octet :=
  if b.timCount = 0 then b.timPeriod - 1 else b.timCount - 1

theorem ApBeacon.Ok.timLen_toNat (h : b.Ok) : b.timLen.toNat - 3 = b.boTimLen := by
  have hlt := h.length
  rw [h.timLen, BitVec.toNat_ofNat, Nat.mod_eq_of_lt (by omega)]
  omega

theorem ApBeacon.Ok.traffic (h : b.Ok) (aid : Nat) :
    b.traffic aid = Bitmap.received (fun i => b.buf (b.boTim + 5 + i)) b.offset b.boTimLen aid := by
  rw [ApBeacon.traffic, h.timLen_toNat]
  rfl

section Alloc

variable (buf : Nat → Octet) {boCaps boTim : Nat} (trailer : List Octet) (wme : Bool)
    (icDtimPeriod : Octet)

theorem beaconAlloc_buf {k : Nat} (hk : k < 6) :
    (beaconAlloc buf boCaps boTim trailer wme icDtimPeriod).buf (boTim + k) =
      ([5, 4, 0, icDtimPeriod, 0, 0][k]?).getD (buf (boTim + k)) := by
  change store (store buf boTim [5, 4, 0, icDtimPeriod, 0, 0]) (boTim + 6) trailer (boTim + k) = _
  rw [store_of_lt _ _ (by omega), store_add]

theorem beaconAlloc_ok (h : boCaps + 2 ≤ boTim) :
    (beaconAlloc buf boCaps boTim trailer wme icDtimPeriod).Ok where
  caps := h
  trailer := rfl
  length := by
    change 3 + 1 < 256
    decide
  timLen := beaconAlloc_buf buf trailer wme icDtimPeriod (by decide)
  count _ := beaconAlloc_buf buf trailer wme icDtimPeriod (by decide)

theorem beaconAlloc_traffic (h : boCaps + 2 ≤ boTim) (aid : Nat) :
    (beaconAlloc buf boCaps boTim trailer wme icDtimPeriod).traffic aid = false := by
  have hzero : ∀ i, i < 1 →
      (beaconAlloc buf boCaps boTim trailer wme icDtimPeriod).buf (boTim + 5 + i) = 0#8 := by
    intro i hi
    rw [show i = 0 by omega]
    exact beaconAlloc_buf buf trailer wme icDtimPeriod (by decide)
  have hsame :=
    Bitmap.received_congr (beaconAlloc buf boCaps boTim trailer wme icDtimPeriod).offset hzero aid
  rw [(beaconAlloc_ok buf trailer wme icDtimPeriod h).traffic]
  refine hsame.trans ?_
  rw [Bitmap.received, BitVec.getLsbD_zero, Bool.and_false]

end Alloc

/-! ## The parts of an update -/

/-- The same element at the same place. -/
structure ApBeacon.Same (b b' : ApBeacon) : Prop where
  boCaps : b'.boCaps = b.boCaps
  boTim : b'.boTim = b.boTim
  boTimLen : b'.boTimLen = b.boTimLen
  boTrailer : b'.boTrailer = b.boTrailer
  buf : ∀ k, k < 5 + b.boTimLen → b'.buf (b.boTim + k) = b.buf (b.boTim + k)

/-- The capabilities come before the element and the WME parameters after it. -/
theorem ApBeacon.Ok.putFixed (h : b.Ok) (capinfo : Octet × Octet) (wme : Option (List Octet)) :
    b.Same (b.putFixed capinfo wme) := by
  have hcaps := h.caps
  have htrailer := h.trailer
  refine ⟨rfl, rfl, rfl, rfl, fun k hk => ?_⟩
  have hbelow : store b.buf b.boCaps [capinfo.1, capinfo.2] (b.boTim + k) = b.buf (b.boTim + k) :=
    store_of_ge _ (by simp only [length_cons, length_nil]; omega)
  change (if b.wme then store _ b.boTrailer _ else _) (b.boTim + k) = _
  split
  · rw [store_of_lt _ _ (by omega), hbelow]
  · exact hbelow

theorem ApBeacon.Same.field (h : b.Same b') {k : Nat} (hk : k < 5) :
    b'.buf (b'.boTim + k) = b.buf (b.boTim + k) := by
  rw [h.boTim]
  exact h.buf k (by omega)

theorem ApBeacon.Same.ok (h : b.Same b') (hb : b.Ok) : b'.Ok where
  caps := by rw [h.boCaps, h.boTim]; exact hb.caps
  trailer := by rw [h.boTrailer, h.boTim, h.boTimLen]; exact hb.trailer
  length := by rw [h.boTimLen]; exact hb.length
  timLen := by rw [ApBeacon.timLen, h.field (by decide), h.boTimLen]; exact hb.timLen
  count := by
    rw [ApBeacon.timPeriod, ApBeacon.timCount, h.field (by decide), h.field (by decide)]
    exact hb.count

theorem ApBeacon.Same.traffic (h : b.Same b') (hb : b.Ok) (aid : Nat) :
    b'.traffic aid = b.traffic aid := by
  rw [(h.ok hb).traffic, hb.traffic, ApBeacon.offset, ApBeacon.offset, ApBeacon.timBitctl,
    ApBeacon.timBitctl, h.field (by decide), h.boTimLen, h.boTim]
  refine Bitmap.received_congr _ (fun i hi => ?_) aid
  rw [Nat.add_assoc]
  exact h.buf (5 + i) (by omega)

/-- The control octet of the next beacon. -/
def ApBeacon.nextBitctl (b : ApBeacon) (mcast : Bool) : Octet :=
  if mcast && (b.nextCount == 1 || b.timPeriod == 1) then b.timBitctl ||| 1
    else b.timBitctl &&& ~~~1

theorem countDown_buf (b : ApBeacon) (mcast : Bool) (j : Nat) : (b.countDown mcast).buf j =
      if j = b.boTim + 4 then b.nextBitctl mcast else if j = b.boTim + 2 then b.nextCount
      else b.buf j := by
  simp only [ApBeacon.countDown, ApBeacon.timCount, ApBeacon.timPeriod, ApBeacon.timBitctl,
    ApBeacon.nextBitctl, ApBeacon.nextCount, store_singleton]
  simp

theorem countDown_timCount (b : ApBeacon) (mcast : Bool) :
    (b.countDown mcast).timCount = b.nextCount := by
  change (b.countDown mcast).buf (b.boTim + 2) = _
  rw [countDown_buf, if_neg (by omega), if_pos rfl]

theorem countDown_timBitctl (b : ApBeacon) (mcast : Bool) :
    (b.countDown mcast).timBitctl = b.nextBitctl mcast := by
  change (b.countDown mcast).buf (b.boTim + 4) = _
  rw [countDown_buf, if_pos rfl]

theorem countDown_other (b : ApBeacon) (mcast : Bool) {k : Nat} (h2 : k ≠ 2) (h4 : k ≠ 4) :
    (b.countDown mcast).buf (b.boTim + k) = b.buf (b.boTim + k) := by
  rw [countDown_buf, if_neg (by omega), if_neg (by omega)]

theorem ApBeacon.Ok.countDown (h : b.Ok) (mcast : Bool) : (b.countDown mcast).Ok where
  caps := h.caps
  trailer := h.trailer
  length := h.length
  timLen := (countDown_other b mcast (by decide) (by decide)).trans h.timLen
  count := by
    have hperiod : (b.countDown mcast).timPeriod = b.timPeriod :=
      countDown_other b mcast (by decide) (by decide)
    intro h1
    rw [hperiod] at h1
    rw [countDown_timCount, ApBeacon.nextCount, if_pos (h.count h1), h1]
    rfl

theorem countDown_offset (b : ApBeacon) (mcast : Bool) : (b.countDown mcast).offset = b.offset := by
  have hor : ∀ x : Octet, (x ||| 1) &&& ~~~1 = x &&& ~~~1 := by decide
  have hand : ∀ x : Octet, (x &&& ~~~1) &&& ~~~1 = x &&& ~~~1 := by decide
  rw [ApBeacon.offset, ApBeacon.offset, countDown_timBitctl, ApBeacon.nextBitctl]
  split
  · rw [hor]
  · rw [hand]

theorem countDown_traffic (h : b.Ok) (mcast : Bool) (aid : Nat) :
    (b.countDown mcast).traffic aid = b.traffic aid := by
  rw [(h.countDown mcast).traffic, h.traffic, countDown_offset]
  refine Bitmap.received_congr _ (fun i _ => ?_) aid
  change (b.countDown mcast).buf (b.boTim + 5 + i) = b.buf (b.boTim + 5 + i)
  rw [Nat.add_assoc]
  exact countDown_other b mcast (by omega) (by omega)

theorem countDown_multicast (b : ApBeacon) (mcast : Bool) :
    (b.countDown mcast).multicast = (mcast && (b.nextCount == 1 || b.timPeriod == 1)) := by
  have hor : ∀ x : Octet, (x ||| 1).getLsbD 0 = true := by decide
  have hand : ∀ x : Octet, (x &&& ~~~1).getLsbD 0 = false := by decide
  rw [ApBeacon.multicast, countDown_timBitctl, ApBeacon.nextBitctl]
  split
  · next h => rw [hor, h]
  · next h => rw [hand, Bool.eq_false_iff.mpr h]

theorem countDown_multicast_iff (h : b.Ok) (mcast : Bool) :
    ((b.countDown mcast).multicast = true ↔ (b.countDown mcast).timCount = 0 ∧ mcast = true) ↔
      mcast = false ∨ b.timPeriod = 1 ∨ b.nextCount ≠ 0 ∧ b.nextCount ≠ 1 := by
  rw [countDown_multicast, countDown_timCount]
  cases mcast with
  | false => simp
  | true =>
    rw [Bool.true_and, Bool.or_eq_true, beq_iff_eq, beq_iff_eq]
    by_cases hp : b.timPeriod = 1
    · have hc : b.nextCount = 0 := by
        rw [ApBeacon.nextCount, if_pos (h.count hp), hp]
        rfl
      exact iff_of_true (iff_of_true (.inr hp) ⟨hc, rfl⟩) (.inr (.inl hp))
    · by_cases h1 : b.nextCount = 1
      · have h0 : b.nextCount ≠ 0 := by
          rw [h1]
          decide
        refine iff_of_false (fun hiff => h0 (hiff.mp (.inl h1)).1) ?_
        rintro (hf | hf | ⟨-, hf⟩)
        · cases hf
        · exact hp hf
        · exact hf h1
      · have hno : ¬ (b.nextCount = 1 ∨ b.timPeriod = 1) := not_or.mpr ⟨h1, hp⟩
        constructor
        · exact fun hiff => .inr (.inr ⟨fun h0 => hno (hiff.mpr ⟨h0, rfl⟩), h1⟩)
        · rintro (hf | hf | ⟨h0, -⟩)
          · cases hf
          · exact absurd hf hp
          · exact iff_of_false hno fun hc => h0 hc.1

/-! ## A new bitmap -/

theorem resize_buf (b : ApBeacon) (timoff timlen : Nat) {k : Nat} (hk : k < 5) :
    (b.resize timoff timlen).buf (b.boTim + k) =
      if k = 4 then BitVec.ofNat 8 timoff else if k = 1 then BitVec.ofNat 8 (3 + timlen)
      else b.buf (b.boTim + k) := by
  simp only [ApBeacon.resize, store_singleton, Nat.add_left_cancel_iff]
  rw [store_of_lt _ _ (by omega)]

/-- The element has another bitmap, of `timlen` octets from `timoff` on. -/
structure ApBeacon.Shows (b b' : ApBeacon) (t : Tim) (timoff timlen : Nat) : Prop where
  ok : b'.Ok
  boTimLen : b'.boTimLen = timlen
  offset : b'.offset = if timlen = b.boTimLen then b.offset else timoff
  count : b'.timCount = b.timCount
  period : b'.timPeriod = b.timPeriod
  bitmap : ∀ i, i < timlen → b'.buf (b'.boTim + 5 + i) = t.icTimBitmap (timoff + i)

/-- The element gets its length and its offset before the octets are copied. -/
theorem shows_of_fields (hw : t.Windowed timoff timlen) (hok : b'.boCaps + 2 ≤ b'.boTim)
    (htrailer : b'.boTrailer = b'.boTim + 5 + timlen) (hlen : b'.boTimLen = timlen)
    (htimLen : b'.timLen = BitVec.ofNat 8 (3 + timlen))
    (hoff : b'.offset = if timlen = b.boTimLen then b.offset else timoff)
    (hcount : b'.timCount = b.timCount) (hperiod : b'.timPeriod = b.timPeriod)
    (h1 : b.timPeriod = 1 → b.timCount = 0) :
    b.Shows { b' with buf := store b'.buf (b'.boTim + 5) (window t.icTimBitmap timoff b'.boTimLen) }
    t timoff timlen := by
  have hfield : ∀ k, k < 5 →
      store b'.buf (b'.boTim + 5) (window t.icTimBitmap timoff b'.boTimLen)
      (b'.boTim + k) = b'.buf (b'.boTim + k) :=
    fun k hk => store_of_lt _ _ (by omega)
  refine ⟨⟨hok, by rw [hlen]; exact htrailer, by rw [hlen]; exact hw.length, ?_, ?_⟩, hlen, ?_, ?_,
    ?_, ?_⟩
  · exact (hfield 1 (by decide)).trans (by rw [hlen]; exact htimLen)
  · intro hp
    refine (hfield 2 (by decide)).trans (hcount.trans (h1 (hperiod.symm.trans ?_)))
    exact (hfield 3 (by decide)).symm.trans hp
  · refine Eq.trans ?_ hoff
    exact congrArg (fun x : Octet => (x &&& ~~~1).toNat) (hfield 4 (by decide))
  · exact (hfield 2 (by decide)).trans hcount
  · exact (hfield 3 (by decide)).trans hperiod
  · intro i hi
    change store b'.buf (b'.boTim + 5) (window t.icTimBitmap timoff b'.boTimLen)
      (b'.boTim + 5 + i) = _
    rw [store_add, getElem?_window _ _ _ _ (by omega), getD_some]

theorem ApBeacon.Ok.putTim (h : b.Ok) (hw : t.Windowed timoff timlen)
    (hwin : t.timWindow = some (timoff, timlen)) :
    ∃ b' lenChanged, b.putTim t = some ({ t with timUpdate := false }, b', lenChanged) ∧
    b.Shows b' t timoff timlen := by
  rw [ApBeacon.putTim, hwin]
  by_cases hlen : timlen = b.boTimLen
  · simp only [hlen, bne_self_eq_false, Bool.false_eq_true, if_false]
    refine ⟨_, _, rfl, ?_⟩
    have hshows :
        b.Shows { b with buf := store b.buf (b.boTim + 5) (window t.icTimBitmap timoff b.boTimLen) }
          t timoff timlen :=
      shows_of_fields hw h.caps (by rw [hlen]; exact h.trailer) hlen.symm
        (by rw [hlen]; exact h.timLen) (by rw [if_pos hlen]) rfl rfl h.count
    rwa [hlen] at hshows
  · simp only [bne_iff_ne.mpr hlen, if_true]
    refine ⟨_, _, rfl, shows_of_fields hw h.caps rfl rfl ?_ ?_ ?_ ?_ h.count⟩
    · exact resize_buf b timoff timlen (by decide)
    · have heven : ∀ off < 256, off % 2 = 0 → (BitVec.ofNat 8 off &&& ~~~1).toNat = off := by
        decide +kernel
      rw [if_neg hlen, ApBeacon.offset, ApBeacon.timBitctl]
      change ((b.resize timoff timlen).buf (b.boTim + 4) &&& ~~~1).toNat = timoff
      rw [resize_buf b timoff timlen (by decide), if_pos rfl]
      exact heven timoff hw.small hw.even
    · exact resize_buf b timoff timlen (by decide)
    · exact resize_buf b timoff timlen (by decide)

/-- A station reads the bitmap off the new element if and only if the offset is right. -/
theorem ApBeacon.Shows.traffic_iff (h : b.Shows b' t timoff timlen)
    (hw : t.Windowed timoff timlen) : (∀ a, b'.traffic a = Bitmap.isset t.icTimBitmap a) ↔
      (∀ a, Bitmap.isset t.icTimBitmap a = false) ∨ timlen ≠ b.boTimLen ∨ b.offset = timoff := by
  have htraffic :
      ∀ a, b'.traffic a = Bitmap.received (fun i => b'.buf (b'.boTim + 5 + i)) b'.offset
      timlen a := by
    intro a
    rw [h.ok.traffic, h.boTimLen]
  have hoff : b'.offset = timoff ↔ timlen ≠ b.boTimLen ∨ b.offset = timoff := by
    rw [h.offset]
    by_cases hlen : timlen = b.boTimLen
    · rw [if_pos hlen]
      exact (or_iff_right (not_not_intro hlen)).symm
    · rw [if_neg hlen]
      exact iff_of_true rfl (.inl hlen)
  simp only [htraffic]
  rw [← hoff]
  rcases hw.ends with hzero | ⟨i, j, hi, hbelow, hj, habove⟩
  · -- all octets are zero, wherever they are taken to be
    refine iff_of_true (fun a => ?_) (.inl hzero)
    have hword : ∀ k, t.icTimBitmap k = 0#8 := by
      intro k
      by_contra hne
      obtain ⟨a, -, hset⟩ := Bitmap.exists_isset (by decide) hne
      rw [hzero a] at hset
      cases hset
    refine Bitmap.received_eq (by decide) (fun k hk => absurd (hword k) hk) (fun k hk => ?_) a
    rw [h.bitmap k hk, hword, hword]
  · rw [Bitmap.received_iff (by decide) hw.spans h.bitmap hi hbelow hj habove]
    refine (or_iff_right fun hzero => ?_).symm
    obtain ⟨a, -, hset⟩ := Bitmap.exists_isset (by decide) hi
    rw [hzero a] at hset
    cases hset

/-! ## An update -/

/-- The offset in the element is that of the octets, or it is written because their number has
changed. -/
def Tim.Placed (t : Tim) (b : ApBeacon) : Prop :=
  t.timUpdate = true → ∃ timoff timlen, t.timWindow = some (timoff, timlen) ∧
    ((∀ a, Bitmap.isset t.icTimBitmap a = false) ∨ timlen ≠ b.boTimLen ∨ b.offset = timoff)

/-- The multicast bit comes with the DTIM, or not at all. -/
def ApBeacon.InTime (b : ApBeacon) (mcast : Bool) : Prop :=
  mcast = false ∨ b.timPeriod = 1 ∨ b.nextCount ≠ 0 ∧ b.nextCount ≠ 1

theorem ApBeacon.Same.inTime_iff (h : b.Same b') (mcast : Bool) :
    b'.InTime mcast ↔ b.InTime mcast := by
  have hperiod : b'.timPeriod = b.timPeriod := h.field (by decide)
  have hcount : b'.timCount = b.timCount := h.field (by decide)
  rw [ApBeacon.InTime, ApBeacon.InTime, ApBeacon.nextCount, ApBeacon.nextCount, hperiod, hcount]

theorem ApBeacon.Same.offset (h : b.Same b') : b'.offset = b.offset :=
  congrArg (fun x : Octet => (x &&& ~~~1).toNat) (h.field (by decide : 4 < 5))

/-- What an update makes of the element. -/
structure ApBeacon.Updated (b b' : ApBeacon) (t : Tim) (mcast : Bool) : Prop where
  ok : b'.Ok
  traffic_iff : (∀ a, b'.traffic a = Bitmap.isset t.icTimBitmap a) ↔ t.Placed b
  multicast_iff : (b'.multicast = true ↔ b'.timCount = 0 ∧ mcast = true) ↔ b.InTime mcast

variable (capinfo : Octet × Octet) (wme : Option (List Octet)) (mcast : Bool)

theorem ApBeacon.Ok.updated_same (h : b.Ok) (hu : t.timUpdate = false)
    (hsync : ∀ a, b.traffic a = Bitmap.isset t.icTimBitmap a) :
    b.Updated ((b.putFixed capinfo wme).countDown mcast) t mcast := by
  have hsame := h.putFixed capinfo wme
  have hok := hsame.ok h
  refine ⟨hok.countDown mcast, iff_of_true (fun a => ?_) fun ht => ?_, ?_⟩
  · rw [countDown_traffic hok, hsame.traffic h, hsync]
  · rw [hu] at ht
    cases ht
  · rw [countDown_multicast_iff hok, ← hsame.inTime_iff]
    rfl

theorem ApBeacon.Ok.updated_shows (h : b.Ok) (hu : t.timUpdate = true)
    (hw : t.Windowed timoff timlen) (hwin : t.timWindow = some (timoff, timlen))
    (hshows : (b.putFixed capinfo wme).Shows b' t timoff timlen) :
    b.Updated (b'.countDown mcast) t mcast := by
  have hsame := h.putFixed capinfo wme
  refine ⟨hshows.ok.countDown mcast, ?_, ?_⟩
  · simp only [countDown_traffic hshows.ok]
    rw [hshows.traffic_iff hw, hsame.boTimLen, hsame.offset, Tim.Placed]
    constructor
    · exact fun hplaced _ => ⟨timoff, timlen, hwin, hplaced⟩
    · intro hplaced
      obtain ⟨timoff', timlen', hwin', hplaced⟩ := hplaced hu
      rw [hwin] at hwin'
      cases hwin'
      exact hplaced
  · rw [countDown_multicast_iff hshows.ok, ← hsame.inTime_iff, ApBeacon.InTime, ApBeacon.nextCount,
      ApBeacon.nextCount, hshows.count, hshows.period]

/-- An update succeeds, unless the octets start where an assertion takes them for none. -/
theorem beaconUpdate_spec (hi : TimInv t) (h : b.Ok)
    (hsync : t.timUpdate = false → ∀ a, b.traffic a = Bitmap.isset t.icTimBitmap a) :
    (∃ b' lenChanged, beaconUpdate t b capinfo wme mcast =
      some ({ t with timUpdate := false }, b', lenChanged) ∧
      b.Updated b' t mcast) ∨ beaconUpdate t b capinfo wme mcast = none ∧ ¬ t.Placed b := by
  rw [beaconUpdate]
  cases hu : t.timUpdate with
  | false =>
    refine .inl ⟨_, false, ?_, h.updated_same capinfo wme mcast hu (hsync hu)⟩
    rw [if_neg Bool.false_ne_true, ← hu]
  | true =>
    rw [if_pos rfl]
    cases hwin : t.timWindow with
    | none =>
      refine .inr ⟨?_, fun hplaced => ?_⟩
      · rw [ApBeacon.putTim, hwin]
        rfl
      · obtain ⟨timoff, timlen, hwin', -⟩ := hplaced hu
        rw [hwin] at hwin'
        cases hwin'
    | some w =>
      have hw := hi.windowed hwin
      obtain ⟨b', lenChanged, hput, hshows⟩ := ((h.putFixed capinfo wme).ok h).putTim hw hwin
      rw [hput]
      exact .inl ⟨_, _, rfl, h.updated_shows capinfo wme mcast hu hw hwin hshows⟩

/-! ## Runs -/

variable {ν : Type} {s s' : Ap ν}

/-- The element of the beacon has the bits of `ic_tim_bitmap`, and its multicast bit is set if and
only if the DTIM count is 0 and multicast frames wait. -/
def TimExact (s : Ap ν) (mcast : Bool) : Prop :=
  ∀ b, s.beacon = some b → (∀ a, b.traffic a = Bitmap.isset s.icTimBitmap a) ∧
    (b.multicast = true ↔ b.timCount = 0 ∧ mcast = true)

/-- A beacon is allocated when no station has frames or an update is due, and an update finds the
right offset or writes it. -/
def BeaconKept (s : Ap ν) : ApOp ν → Prop
  | .beaconAlloc .. => s.timUpdate = true ∨ ∀ a, Bitmap.isset s.icTimBitmap a = false
  | .beaconUpdate .. => ∀ b, s.beacon = some b → s.toTim.Placed b
  | _ => True

/-- The element has the bits of `ic_tim_bitmap` unless an update is due. -/
def BeaconInv (s : Ap ν) : Prop :=
  ∀ b, s.beacon = some b → b.Ok ∧
    (s.timUpdate = false → ∀ a, b.traffic a = Bitmap.isset s.icTimBitmap a)

/-- Other steps do not write the beacon, and where they change the bitmap an update is due. -/
theorem BeaconInv.later (h : BeaconInv s) (hb : s'.beacon = s.beacon)
    (ht : s'.toTim = s.toTim ∨ s'.timUpdate = true) : BeaconInv s' := by
  intro b hb'
  obtain ⟨hok, hsync⟩ := h b (hb ▸ hb')
  refine ⟨hok, fun hu => ?_⟩
  rcases ht with ht | ht
  · rw [ht] at hu ⊢
    exact hsync hu
  · rw [ht] at hu
    cases hu

theorem Ap.Touch.beaconInv {n : ν} (h : s.Touch s' n) (hb : BeaconInv s) : BeaconInv s' :=
  hb.later h.beacon h.tim.timUpdate

variable [DecidableEq ν]

theorem freeAllnodes_beaconInv (h : BeaconInv s) : BeaconInv (Ap.freeAllnodes s.ntNode s) :=
  (freeAllnodes_keeps (P := BeaconInv) (fun s n _ h => (resetNode_touch s n).beaconInv h) s.ntNode s
    rfl h).1

theorem beaconUpdate_step (hi : ApInv s) (h : BeaconInv s) (hb : s.beacon = some b)
    (capinfo : Octet × Octet) (wme : Option (List Octet)) (mcast : Bool) :
    (∃ s' b', apStep s (.beaconUpdate capinfo wme mcast) = some s' ∧ s'.beacon = some b' ∧
      s'.toTim = { s.toTim with timUpdate := false } ∧ b.Updated b' s.toTim mcast) ∨
    apStep s (.beaconUpdate capinfo wme mcast) = none ∧ ¬ s.toTim.Placed b := by
  obtain ⟨hok, hsync⟩ := h b hb
  have hstep : apStep s (.beaconUpdate capinfo wme mcast) =
      (beaconUpdate s.toTim b capinfo wme mcast).map fun r =>
      { s with toTim := r.1, beacon := some r.2.1 } := by
    rw [apStep, hb]
  rw [hstep]
  rcases beaconUpdate_spec capinfo wme mcast hi.tim hok hsync
    with ⟨b', lenChanged, hup, hupdated⟩ | ⟨hup, hplaced⟩
  · refine .inl ⟨{ s with toTim := { s.toTim with timUpdate := false }, beacon := some b' }, b', ?_,
      rfl, rfl, hupdated⟩
    rw [hup, map_some]
  · exact .inr ⟨by rw [hup, map_none], hplaced⟩

theorem apStep_beaconInv {op : ApOp ν} (hi : ApInv s) (h : BeaconInv s) (hok : BeaconKept s op)
    (hstep : apStep s op = some s') : BeaconInv s' := by
  cases op with
  | allocNode n | refNode n =>
    obtain ⟨-, rfl⟩ := of_guard hstep
    exact h.later rfl (.inl rfl)
  | freeNode n =>
    obtain ⟨-, rfl⟩ := of_guard hstep
    rw [Ap.freeNode]
    split
    · exact (freeNodeLast_touch s n).beaconInv h
    · exact h.later rfl (.inl rfl)
  | nodeJoin n =>
    obtain ⟨-, rfl⟩ := of_guard hstep
    rcases nodeJoin_cases hi n with heq | ⟨heq, -⟩ | ⟨aid, hjoin⟩
    · rwa [heq]
    · rw [heq]
      exact (nodeLeave_left hi n).touch.beaconInv h
    · exact hjoin.touch.beaconInv h
  | nodeLeave n =>
    obtain ⟨-, rfl⟩ := of_guard hstep
    exact (nodeLeave_left hi n).touch.beaconInv h
  | tableReset =>
    cases hstep
    exact freeAllnodes_beaconInv h
  | pwrsave n c age =>
    obtain ⟨⟨hn, hp⟩, rfl⟩ := of_guard hstep
    exact (((pwrsave_put s n c age).serve (hi.node n) ((hi.node n).asleep hn hp)).touch
      (hi.node n)).beaconInv h
  | nodePwrsave n enable =>
    obtain ⟨⟨-, ha, -⟩, rfl⟩ := of_guard hstep
    exact (((nodePwrsave_put s n enable).serve (hi.node n) ha).touch (hi.node n)).beaconInv h
  | recvPspoll n aid =>
    obtain ⟨-, rfl⟩ := of_guard hstep
    exact ((recvPspoll_serve (hi.node n) aid).touch (hi.node n)).beaconInv h
  | age n =>
    obtain ⟨⟨-, ha⟩, rfl⟩ := of_guard hstep
    exact (((age_put s n).serve (hi.node n) ha).touch (hi.node n)).beaconInv h
  | beaconAlloc buf boCaps boTim trailer wme icDtimPeriod =>
    obtain ⟨hcaps, rfl⟩ := of_guard hstep
    intro b hb
    cases hb
    refine ⟨beaconAlloc_ok buf trailer wme icDtimPeriod hcaps, fun hu a => ?_⟩
    rw [beaconAlloc_traffic buf trailer wme icDtimPeriod hcaps]
    rcases hok with hdue | hzero
    · change s.timUpdate = false at hu
      rw [hdue] at hu
      cases hu
    · exact (hzero a).symm
  | beaconUpdate capinfo wme mcast =>
    cases hb : s.beacon with
    | none =>
      rw [apStep, hb] at hstep
      cases hstep
    | some b =>
      rcases beaconUpdate_step hi h hb capinfo wme mcast
        with ⟨s1, b', hs1, hb', ht, hup⟩ | ⟨hnone, -⟩
      · rw [hs1] at hstep
        cases hstep
        intro b1 hb1
        rw [hb'] at hb1
        cases hb1
        refine ⟨hup.ok, fun _ => ?_⟩
        rw [ht]
        exact hup.traffic_iff.mpr (hok b hb)
      · rw [hnone] at hstep
        cases hstep

theorem reach_beaconInv (h : Reach ApInit apStep BeaconKept s) : ApInv s ∧ BeaconInv s := by
  induction h with
  | init h0 => exact ⟨h0.inv, fun b hb => by rw [h0.beacon] at hb; cases hb⟩
  | step _ hok hstep ih => exact ⟨apStep_inv ih.1 hstep, apStep_beaconInv ih.1 ih.2 hok hstep⟩

/-- An update leaves the beacon with an exact TIM element if and only if the offset in the element
is that of the octets of the bitmap, or is written, and the multicast bit does not come with a DTIM
count of 1 or miss one of 0. This is so in every run in which the updates before did so, and in
which no beacon was allocated with frames waiting and no update due. -/
theorem beacon_tim_iff {b : ApBeacon} (h : Reach ApInit apStep BeaconKept s)
    (hb : s.beacon = some b) (capinfo : Octet × Octet) (wme : Option (List Octet)) (mcast : Bool) :
    (∃ s', apStep s (.beaconUpdate capinfo wme mcast) = some s' ∧ TimExact s' mcast) ↔
      BeaconKept s (.beaconUpdate capinfo wme mcast) ∧ b.InTime mcast := by
  obtain ⟨hi, hinv⟩ := reach_beaconInv h
  have hkept : BeaconKept s (.beaconUpdate capinfo wme mcast) ↔ s.toTim.Placed b := by
    refine ⟨fun hk => hk b hb, fun hplaced b' hb' => ?_⟩
    rw [hb] at hb'
    cases hb'
    exact hplaced
  rw [hkept]
  rcases beaconUpdate_step hi hinv hb capinfo wme mcast
    with ⟨s1, b', hs1, hb', ht, hup⟩ | ⟨hnone, hplaced⟩
  · have hexact : TimExact s1 mcast ↔ s.toTim.Placed b ∧ b.InTime mcast := by
      rw [← hup.traffic_iff, ← hup.multicast_iff, TimExact, hb', ht]
      refine ⟨fun hall => hall b' rfl, fun hall b1 hb1 => ?_⟩
      cases hb1
      exact hall
    rw [← hexact]
    refine ⟨?_, fun hex => ⟨s1, hs1, hex⟩⟩
    rintro ⟨s', hs', hex⟩
    rw [hs1] at hs'
    cases hs'
    exact hex
  · refine iff_of_false ?_ fun hall => hplaced hall.1
    rintro ⟨s', hs', -⟩
    rw [hnone] at hs'
    cases hs'

/-- A beacon with the TIM element at offset 2 and nothing behind it. -/
def plainBeacon (icDtimPeriod : Octet) : ApOp Nat :=
  .beaconAlloc (fun _ => 0) 0 2 [] false icDtimPeriod

/-- A frame waits for the station with association id 1. -/
theorem beacon_tim_iff_sample :
    ∃ s s' : Ap Nat, apStep s (.beaconUpdate (1, 0) none false) = some s' ∧ TimExact s' false ∧
    Bitmap.isset s.icTimBitmap 1 = true := by
  have hrun : ∃ s : Ap Nat, Reach ApInit apStep BeaconKept s ∧ s.toTim.timWindow = some (0, 1) ∧
      s.beacon.map ApBeacon.offset = some 0 ∧ Bitmap.isset s.icTimBitmap 1 = true :=
    Reach.of_run [plainBeacon 1, .allocNode 0, .nodeJoin 0, .nodePwrsave 0 true,
      .pwrsave 0 apPacket 10] apStart_init
      ⟨.inr fun a => Bitmap.isset_zero a,
      fun _ _ => ⟨trivial, fun _ _ => ⟨trivial, fun _ _ => ⟨trivial, fun _ _ =>
        ⟨trivial, fun _ _ => trivial⟩⟩⟩⟩⟩ (by decide +kernel)
  obtain ⟨s, hs, hwin, hoff, hset⟩ := hrun
  obtain ⟨b, hb, hoff⟩ := map_eq_some_iff.mp hoff
  have hkept : BeaconKept s (.beaconUpdate (1, 0) none false) := by
    intro b' hb' _
    rw [hb] at hb'
    cases hb'
    exact ⟨0, 1, hwin, .inr (.inr hoff)⟩
  obtain ⟨s', hs', hexact⟩ := (beacon_tim_iff hs hb (1, 0) none false).mpr ⟨hkept, .inl rfl⟩
  exact ⟨s, s', hs', hexact, hset⟩

/-- Stations `0` to `k - 1` join. -/
def joins (k : Nat) : List (ApOp Nat) := (range k).flatMap fun n => [.allocNode n, .nodeJoin n]

/-- Seventeen stations have joined, and a frame waits for the last: its bit is in octet 2, which is
sent as octet 0, so the beacon says that the frame is for station 1. And with a DTIM period of 2 the
first beacon with multicast frames waiting has the multicast bit and a DTIM count of 1. -/
theorem beacon_tim_wrong :
    (∃ s s' : Ap Nat, Reach ApInit apStep Any s ∧
      apStep s (.beaconUpdate (1, 0) none false) = some s' ∧ ∃ b, s'.beacon = some b ∧
      b.traffic 1 = true ∧ Bitmap.isset s'.icTimBitmap 1 = false ∧
        b.traffic 17 = false ∧ Bitmap.isset s'.icTimBitmap 17 = true) ∧
    (∃ s s' : Ap Nat, Reach ApInit apStep Any s ∧
      apStep s (.beaconUpdate (1, 0) none true) = some s' ∧ ∃ b, s'.beacon = some b ∧
      b.multicast = true ∧ b.timCount = 1) := by
  constructor
  · have hrun : ∃ s : Ap Nat, Reach ApInit apStep Any s ∧
        ((apStep s (.beaconUpdate (1, 0) none false)).bind fun s' => s'.beacon.map fun b =>
          (b.traffic 1, Bitmap.isset s'.icTimBitmap 1, b.traffic 17,
            Bitmap.isset s'.icTimBitmap 17)) =
        some (true, false, false, true) :=
      Reach.of_run (joins 17 ++ [.nodePwrsave 16 true, .pwrsave 16 apPacket 10, plainBeacon 1])
        apStart_init
        (runOk_any _ _) (by decide +kernel)
    obtain ⟨s, hs, h⟩ := hrun
    obtain ⟨s', hs', h⟩ := bind_eq_some_iff.mp h
    obtain ⟨b, hb, h⟩ := map_eq_some_iff.mp h
    simp only [Prod.mk.injEq] at h
    exact ⟨s, s', hs, hs', b, hb, h⟩
  · have hrun : ∃ s : Ap Nat, Reach ApInit apStep Any s ∧
        ((apStep s (.beaconUpdate (1, 0) none true)).bind fun s' => s'.beacon.map fun b =>
          (b.multicast, b.timCount)) = some (true, 1) :=
      Reach.of_run [plainBeacon 2] apStart_init (runOk_any _ _) (by decide +kernel)
    obtain ⟨s, hs, h⟩ := hrun
    obtain ⟨s', hs', h⟩ := bind_eq_some_iff.mp h
    obtain ⟨b, hb, h⟩ := map_eq_some_iff.mp h
    simp only [Prod.mk.injEq] at h
    exact ⟨s, s', hs, hs', b, hb, h⟩

/-- The conditions on a step together. -/
def ApKept (s : Ap ν) (op : ApOp ν) : Prop := AidKept s op ∧ TimKept s op ∧ BeaconKept s op

/-- In such a run, unless an update is due, the beacon announces frames for the associated stations
whose power-save queue holds some, and for no other association id. -/
theorem beacon_announces_savedq (h : Reach ApInit apStep ApKept s) (hb : s.beacon = some b)
    (hdue : s.timUpdate = false) (a : Nat) :
    b.traffic a = true ↔ ∃ n ∈ s.ntNode, s.associd n ≠ 0 ∧ s.aid n = a ∧ s.savedq n ≠ [] := by
  have hall : (ApInv s ∧ AidUnique s ∧ BeaconInv s) ∧ Bitmap.Names s.waiting s.icTimBitmap ∧
      QueueOk s := by
    clear hb hdue
    induction h with
    | init h0 =>
      have hnil : ∀ n, Ap.savedq _ n = [] := fun n => by rw [Ap.savedq, h0.icNode]; rfl
      refine ⟨⟨h0.inv, h0.aidUnique, fun b hb => ?_⟩, ?_, fun n hne => absurd (hnil n) hne⟩
      · rw [h0.beacon] at hb
        cases hb
      · rw [h0.timBitmap]
        exact Bitmap.Names.of_none fun n => waiting_of_nil (hnil n)
    | step _ hok hstep ih =>
      obtain ⟨⟨hi, hu, hbeacon⟩, hbits, hq⟩ := ih
      have hbooks := apStep_books hi hu hbits hq hstep
      exact ⟨⟨apStep_inv hi hstep, (apStep_aidUnique_iff hi hu hstep).mpr hok.1,
        apStep_beaconInv hi hbeacon hok.2.2 hstep⟩, hbooks.1.mpr hok.2.1, hbooks.2 hok.2.1⟩
  obtain ⟨⟨hi, hu, hbeacon⟩, hbits, -⟩ := hall
  rw [(hbeacon b hb).2 hdue a]
  exact ((timBooks_iff hi hu).mpr hbits).isset_iff a

/-- Station 0 has joined and is asleep, and a frame has come for it: after the update the beacon
says so, and says nothing of station 2. -/
theorem beacon_announces_savedq_sample : ∃ (s : Ap Nat) (b : ApBeacon), s.beacon = some b ∧
    s.aid 0 = 1 ∧ (s.icNode 0).niPwrMgt = true ∧ b.traffic 1 = true ∧ b.traffic 2 = false := by
  obtain ⟨s, hs, hwin, hoff, hup, hn, haid, hq, hps⟩ : ∃ s : Ap Nat, Reach ApInit apStep ApKept s ∧
      s.toTim.timWindow = some (0, 1) ∧ s.beacon.map ApBeacon.offset = some 0 ∧
      ((apStep s (.beaconUpdate (1, 0) none false)).bind Ap.beacon).isSome = true ∧
      s.ntNode = [0] ∧ s.aid 0 = 1 ∧ (s.associd 0 ≠ 0 ∧ s.savedq 0 ≠ []) ∧
      (s.icNode 0).niPwrMgt = true :=
    Reach.of_run [plainBeacon 1, .allocNode 0, .nodeJoin 0, .nodePwrsave 0 true,
        .pwrsave 0 apPacket 10] apStart_init
      ⟨⟨trivial, trivial, .inr Bitmap.isset_zero⟩,
      fun _ _ => ⟨⟨trivial, trivial, trivial⟩, fun _ _ =>
        ⟨⟨trivial, trivial, trivial⟩, fun _ _ => ⟨⟨trivial, trivial, trivial⟩, fun _ _ =>
          ⟨⟨trivial, trivial, trivial⟩, fun _ _ => trivial⟩⟩⟩⟩⟩ (by decide +kernel)
  obtain ⟨b, hb⟩ := isSome_iff_exists.mp hup
  obtain ⟨s', hs', hb⟩ := bind_eq_some_iff.mp hb
  have hkept : ApKept s (.beaconUpdate (1, 0) none false) := by
    refine ⟨trivial, trivial, fun b hb _ => ⟨0, 1, hwin, .inr (.inr ?_)⟩⟩
    rw [hb] at hoff
    exact some.inj hoff
  have hreach := hs.step hkept hs'
  obtain ⟨b', rfl⟩ := beaconUpdate_keeps hs'
  refine ⟨_, b, hb, haid, hps,
    (beacon_announces_savedq hreach hb rfl 1).mpr ⟨0, ?_, hq.1, haid, hq.2⟩,
    Bool.eq_false_iff.mpr fun ht => ?_⟩
  · exact hn ▸ mem_singleton_self 0
  · obtain ⟨n, hmem, -, ha, -⟩ := (beacon_announces_savedq hreach hb rfl 2).mp ht
    rw [hn, mem_singleton] at hmem
    rw [hmem] at ha
    exact absurd (haid.symm.trans ha) (by decide)

end Net80211
