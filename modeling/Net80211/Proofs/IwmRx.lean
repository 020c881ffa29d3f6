import Net80211.Iwm.Rx

/-!
# Where iwm looks for a packet

`iwm_rx_addbuf` programs a descriptor with the address of a new mbuf; that is a multiple of 256, so
nothing is lost in the descriptor but what is above 40 bits. Then `iwm_rx_rx_mpdu` moves the data
pointer over the header, and only after its checks it puts a new mbuf into the slot: where a check
fails, or there is no new mbuf, the old one stays, with the pointer behind the place where the
device writes the next packet. So a slot is right exactly if its last MPDU passed all checks.
-/

namespace Net80211.Iwm

open Lib List Function Option

/-- The mbuf of slot `i` is where the device writes. -/
def SlotOk (sc : RxSoftc) (i : Nat) : Prop := ∃ d, sc.data i = some d ∧ d.mData = sc.desc i * 256

/-- An MPDU that is handed up: a PHY record that makes sense, a good status, and a new mbuf for the
slot. -/
def RxMpdu.good (e : RxMpdu) : Bool := e.cfgPhyCnt ≤ 20 && rxStatusOk e.rxPktStatus && e.raw.isSome

/-- Was the last MPDU of slot `i` a good one, if there was one? -/
def lastGood (mpdus : List RxMpdu) (i : Nat) : Bool :=
  ((mpdus.find? fun e => e.slot = i).map RxMpdu.good).getD true

/-- The address fits into a descriptor. -/
def Addressable (sc : RxSoftc) (i : Nat) : Prop := ∃ d, sc.data i = some d ∧ d.dsAddr < 2 ^ 40

/-- Slot `i`: the descriptor is that of the map, and the data pointer has moved over `k` headers. -/
def SlotInv (sc : RxSoftc) (i : Nat) : Prop :=
  ∃ d k, sc.data i = some d ∧ sc.desc i = d.dsAddr / 256 % 2 ^ 32 ∧ d.dsAddr % 256 = 0 ∧
    d.mData = d.dsAddr + 12 * k ∧ (k = 0 ↔ lastGood sc.mpdus i = true)

structure RxInv (sc : RxSoftc) : Prop where
  cur : sc.cur < rxRingCount
  slot : ∀ i < rxRingCount, SlotInv sc i

theorem mbufData_aligned (sizeofMbuf raw : Nat) : mbufData sizeofMbuf raw % 256 = 0 := by
  rw [mbufData]
  omega

theorem descriptor_eq_iff {addr k : Nat} (h : addr % 256 = 0) :
    addr + 12 * k = addr / 256 % 2 ^ 32 * 256 ↔ k = 0 ∧ addr < 2 ^ 40 := by
  have hpow : (2 : Nat) ^ 40 = 2 ^ 32 * 256 := by rw [show 40 = 32 + 8 from rfl, Nat.pow_add]
  have hmod : addr / 256 % 2 ^ 32 < 2 ^ 32 := Nat.mod_lt _ (Nat.two_pow_pos 32)
  rw [hpow]
  by_cases hlt : addr / 256 < 2 ^ 32
  · rw [Nat.mod_eq_of_lt hlt]
    generalize 2 ^ 32 = w at hlt
    omega
  · generalize addr / 256 % 2 ^ 32 = r at hmod
    generalize 2 ^ 32 = w at hlt hmod
    omega

theorem lastGood_self (e : RxMpdu) (mpdus : List RxMpdu) :
    lastGood (e :: mpdus) e.slot = e.good := by
  have hfind : (e :: mpdus).find? (fun e' => e'.slot = e.slot) = some e :=
    find?_cons_of_pos (decide_eq_true rfl)
  rw [lastGood, hfind]
  rfl

variable {i : Nat}

theorem lastGood_of_ne {e : RxMpdu} (mpdus : List RxMpdu) (h : e.slot ≠ i) :
    lastGood (e :: mpdus) i = lastGood mpdus i := by
  rw [lastGood, find?_cons_of_neg (by simpa using h), lastGood]

variable {sc sc' : RxSoftc}

theorem SlotInv.same (h : SlotInv sc i) (hdata : sc'.data i = sc.data i)
    (hdesc : sc'.desc i = sc.desc i) (hlog : lastGood sc'.mpdus i = lastGood sc.mpdus i) :
    SlotInv sc' i := by
  obtain ⟨d, k, hd, hdesc', halign, hmove, hk⟩ := h
  exact ⟨d, k, hdata ▸ hd, hdesc ▸ hdesc', halign, hmove, hlog ▸ hk⟩

theorem rxAddbuf_slot (sizeofMbuf raw : Nat) (sc : RxSoftc) {idx : Nat}
    (hlast : lastGood sc.mpdus idx = true) :
    SlotInv (rxAddbuf sizeofMbuf (some raw) sc idx).1 idx := by
  refine ⟨_, 0, update_self .., update_self .., mbufData_aligned .., rfl, ?_⟩
  exact ⟨fun _ => hlast, fun _ => rfl⟩

theorem rxAddbuf_of_ne (sizeofMbuf raw : Nat) (sc : RxSoftc) {idx : Nat} (h : i ≠ idx) :
    (rxAddbuf sizeofMbuf (some raw) sc idx).1.data i = sc.data i ∧
      (rxAddbuf sizeofMbuf (some raw) sc idx).1.desc i = sc.desc i :=
  ⟨update_of_ne h .., update_of_ne h ..⟩

/-- What an MPDU does to the ring: its slot keeps the old mbuf, with the pointer moved, or, if it is
a good one, gets a new one. -/
theorem rxRxMpdu_cases (sizeofMbuf : Nat) (raw : Option Nat) (sc : RxSoftc) (d : RxData) :
    ∃ len e sc₁, e.slot = sc.cur ∧ sc₁ = { sc with
        data := update sc.data sc.cur (some ⟨d.mData + 8 + 4, len, d.dsAddr⟩)
        mpdus := e :: sc.mpdus } ∧
      (e.good = false ∧ rxRxMpdu sizeofMbuf raw sc d = sc₁ ∨
        e.good = true ∧ ∃ raw', rxRxMpdu sizeofMbuf raw sc d =
          (rxAddbuf sizeofMbuf (some raw') sc₁ sc.cur).1) := by
  rw [rxRxMpdu]
  generalize hlen : rdLe sc.mem (d.mData + 8) 2 = len
  refine ⟨len, ⟨sc.cur, window sc.mem (d.mData + 8 + 4) len, sc.cfgPhyCnt,
    rdLe sc.mem (d.mData + 8 + 4 + len) 4, raw⟩, _, rfl, rfl, ?_⟩
  rw [RxMpdu.good]
  split
  · next hcnt => exact .inl ⟨by simp [hcnt], rfl⟩
  split
  · next hstatus => exact .inl ⟨by simp_all, rfl⟩
  next hcnt hstatus =>
  cases raw with
  | none => exact .inl ⟨Bool.and_false _, rfl⟩
  | some raw => exact .inr ⟨by simp_all, raw, rfl⟩

variable {sizeofMbuf : Nat} {raws : Nat → Option Nat}

theorem rxRxMpdu_slots {raw : Option Nat} {d : RxData} (h : RxInv sc)
    (hd : sc.data sc.cur = some d) :
    ∀ i < rxRingCount, SlotInv (rxRxMpdu sizeofMbuf raw sc d) i := by
  intro i hi
  obtain ⟨len, e, sc1, he, hsc1, hcases⟩ := rxRxMpdu_cases sizeofMbuf raw sc d
  by_cases hcur : i = sc.cur
  · subst hcur
    have hlast : lastGood sc1.mpdus sc.cur = e.good := by
      rw [hsc1, ← he]
      exact lastGood_self e sc.mpdus
    rcases hcases with ⟨hgood, heq⟩ | ⟨hgood, raw', heq⟩
    · obtain ⟨d', k, hd', hdesc, halign, hmove, -⟩ := h.slot sc.cur hi
      cases hd.symm.trans hd'
      rw [heq]
      refine ⟨⟨d.mData + 8 + 4, len, d.dsAddr⟩, k + 1, ?_, ?_, halign, ?_, ?_⟩
      · rw [hsc1]
        exact update_self ..
      · rw [hsc1]
        exact hdesc
      · show d.mData + 8 + 4 = d.dsAddr + 12 * (k + 1)
        omega
      · rw [hlast, hgood]
        exact ⟨fun h => absurd h (Nat.succ_ne_zero k), fun h => by cases h⟩
    · rw [heq]
      exact rxAddbuf_slot sizeofMbuf raw' sc1 (hlast.trans hgood)
  · have hlog : lastGood sc1.mpdus i = lastGood sc.mpdus i := by
      rw [hsc1]
      exact lastGood_of_ne sc.mpdus (he ▸ Ne.symm hcur)
    have hdata : sc1.data i = sc.data i ∧ sc1.desc i = sc.desc i := by
      rw [hsc1]
      exact ⟨update_of_ne hcur .., rfl⟩
    rcases hcases with ⟨-, heq⟩ | ⟨-, raw', heq⟩
    · rw [heq]
      exact (h.slot i hi).same hdata.1 hdata.2 hlog
    · obtain ⟨hdata', hdesc'⟩ := rxAddbuf_of_ne sizeofMbuf raw' sc1 hcur
      rw [heq]
      exact (h.slot i hi).same (hdata'.trans hdata.1) (hdesc'.trans hdata.2) hlog

theorem RxInv.step {op : RxOp} (h : RxInv sc)
    (hs : rxStep sizeofMbuf sc op = some sc') : RxInv sc' := by
  cases op with
  | memory mem =>
    cases hs
    exact ⟨h.cur, fun i hi => (h.slot i hi).same rfl rfl rfl⟩
  | reset =>
    cases hs
    exact ⟨Nat.zero_lt_of_lt h.cur, fun i hi => (h.slot i hi).same rfl rfl rfl⟩
  | notif raw =>
    obtain ⟨d, -, hd, -⟩ := h.slot sc.cur h.cur
    rw [rxStep, notifRound, hd] at hs
    cases hs
    refine ⟨Nat.mod_lt _ (by decide), fun i hi => ?_⟩
    split
    · exact (h.slot i hi).same rfl rfl rfl
    split
    · exact (h.slot i hi).same rfl rfl rfl
    split
    · exact (rxRxMpdu_slots h hd i hi).same rfl rfl rfl
    · exact (h.slot i hi).same rfl rfl rfl

theorem allocRxRing_slots {sc₀ : RxSoftc} (hlog : sc₀.mpdus = [])
    (hcur : sc₀.cur = 0) : ∀ (n : Nat) {sc : RxSoftc}, (range n).foldlM (fun sc i =>
      match rxAddbuf sizeofMbuf (raws i) sc i with
      | (_, true) => none
      | (sc, false) => some sc) sc₀ = some sc →
    sc.mpdus = [] ∧ sc.cur = 0 ∧ ∀ i < n, SlotInv sc i := by
  intro n
  induction n with
  | zero =>
    intro sc ha
    cases ha
    exact ⟨hlog, hcur, fun i hi => absurd hi (Nat.not_lt_zero i)⟩
  | succ n ih =>
    intro sc ha
    rw [range_succ, foldlM_append] at ha
    obtain ⟨sc1, ha1, ha⟩ := bind_eq_some_iff.mp ha
    obtain ⟨hlog1, hcur1, hslots⟩ := ih ha1
    simp only [foldlM_cons, foldlM_nil] at ha
    cases hraw : raws n with
    | none =>
      rw [hraw] at ha
      cases ha
    | some raw =>
      rw [hraw] at ha
      cases ha
      refine ⟨hlog1, hcur1, fun i hi => ?_⟩
      by_cases hn : i = n
      · subst hn
        exact rxAddbuf_slot sizeofMbuf raw sc1 (by rw [hlog1]; rfl)
      · obtain ⟨hdata, hdesc⟩ := rxAddbuf_of_ne sizeofMbuf raw sc1 hn
        exact (hslots i (by omega)).same hdata hdesc rfl

theorem RxInit.inv (h : RxInit sizeofMbuf sc) : RxInv sc := by
  obtain ⟨raws, sc0, ha, hlog⟩ := h
  obtain ⟨-, hcur, hslots⟩ :=
    @allocRxRing_slots _ _ { sc0 with cur := 0, data := fun _ => none } hlog rfl _ _ ha
  exact ⟨hcur ▸ by decide, hslots⟩

/-- In every run, a slot holds an mbuf at the address of its descriptor exactly if its last MPDU was
a good one and the address fits into the descriptor. Then what the device writes there is what the
driver reads. -/
theorem iwm_rx_slot_iff {sizeofMbuf : Nat} {sc : RxSoftc}
    (h : Reach (RxInit sizeofMbuf) (rxStep sizeofMbuf) Any sc) {i : Nat} (hi : i < rxRingCount) :
    (SlotOk sc i ↔ lastGood sc.mpdus i = true ∧ Addressable sc i) ∧
      ∀ d, sc.data i = some d → d.dsAddr % 256 = 0 ∧
        (SlotOk sc i → ∀ pkt,
          window (store sc.mem (sc.desc i * 256) pkt) d.mData pkt.length = pkt) := by
  have hinv : RxInv sc := h.invariant (fun _ => RxInit.inv) fun _ _ _ hi _ hs => hi.step hs
  obtain ⟨d, k, hd, hdesc, halign, hmove, hk⟩ := hinv.slot i hi
  have hok : SlotOk sc i ↔ d.mData = sc.desc i * 256 := by
    refine ⟨fun ⟨d', hd', heq⟩ => ?_, fun heq => ⟨d, hd, heq⟩⟩
    cases hd.symm.trans hd'
    exact heq
  have haddr : Addressable sc i ↔ d.dsAddr < 2 ^ 40 := by
    refine ⟨fun ⟨d', hd', hlt⟩ => ?_, fun hlt => ⟨d, hd, hlt⟩⟩
    cases hd.symm.trans hd'
    exact hlt
  refine ⟨?_, fun d' hd' => ?_⟩
  · rw [hok, haddr, ← hk, hmove, hdesc]
    exact descriptor_eq_iff halign
  · cases hd.symm.trans hd'
    refine ⟨halign, fun hslot pkt => ?_⟩
    rw [hok.mp hslot]
    exact window_store_same ..

theorem allocRxRing_some (sizeofMbuf : Nat) (h : ∀ i, raws i ≠ none) (sc : RxSoftc) :
    ∃ sc', allocRxRing sizeofMbuf raws sc = some sc' := by
  rw [allocRxRing]
  generalize { sc with cur := 0, data := fun _ => none } = sc1
  induction range rxRingCount generalizing sc1 with
  | nil => exact ⟨sc1, rfl⟩
  | cons i l ih =>
    obtain ⟨raw, hraw⟩ := ne_none_iff_exists'.mp (h i)
    rw [foldlM_cons, hraw]
    exact ih _

/-- A ring in memory of zeros; the buffer of slot 0 is at 512. -/
def freshRing : RxSoftc :=
  let sc : RxSoftc :=
    { mem := fun _ => 0, data := fun _ => none, desc := fun _ => 0, cur := 0, cfgPhyCnt := 0
      mpdus := [] }
  (allocRxRing 128 (fun i => some (8192 * i)) sc).getD sc

theorem freshRing_init : RxInit 128 freshRing := by
  obtain ⟨sc, hsc⟩ := allocRxRing_some 128 (fun i => some_ne_none (8192 * i))
    { mem := fun _ => 0, data := fun _ => none, desc := fun _ => 0, cur := 0, cfgPhyCnt := 0,
      mpdus := [] }
  refine ⟨fun i => some (8192 * i), _, hsc.trans ?_, rfl⟩
  rw [freshRing, hsc]
  rfl

/-- A packet of type MPDU with no octets and the status `status`. -/
def emptyMpdu (status : UInt8) : List UInt8 :=
  [0, 0, 0, 0, 0xc1, 0, 0, 0x80, 0, 0, 0, 0, status, 0, 0, 0]

/-- The device writes a packet to slot 0. -/
def writeSlot0 (pkt : List UInt8) : RxOp := .memory (store (fun _ => 0) 512 pkt)

/-- An MPDU with a bad CRC, or one for which there is no new mbuf, leaves the pointer of its slot 12
octets too far. When the slot comes round again, a good MPDU in it is not recognized. -/
theorem iwm_rx_pointer_astray :
    (∃ sc, Reach (RxInit 128) (rxStep 128) Any sc ∧ sc.desc 0 * 256 = 512 ∧
      (sc.data 0).map RxData.mData = some 524 ∧ sc.mpdus = [⟨0, [], 0, 2, none⟩]) ∧
    ∃ sc, Reach (RxInit 128) (rxStep 128) Any sc ∧ sc.cur = 1 ∧
      window sc.mem 512 16 = emptyMpdu 3 ∧ sc.mpdus = [⟨0, [], 0, 3, none⟩] :=
  ⟨Reach.of_run [writeSlot0 (emptyMpdu 2), .notif none] freshRing_init (runOk_any _ _)
      (by decide +kernel),
    Reach.of_run
      [writeSlot0 (emptyMpdu 3), .notif none, .reset, writeSlot0 (emptyMpdu 3), .notif (some 0)]
      freshRing_init (runOk_any _ _) (by decide +kernel)⟩

theorem iwm_rx_slot_iff_sample :
    ∃ sc, Reach (RxInit 128) (rxStep 128) Any sc ∧ sc.mpdus = [⟨0, [], 0, 3, some 4096⟩] ∧
      SlotOk sc 0 := by
  obtain ⟨sc, hr, hlog, hd⟩ : ∃ sc, Reach (RxInit 128) (rxStep 128) Any sc ∧
      sc.mpdus = [⟨0, [], 0, 3, some 4096⟩] ∧ sc.data 0 = some ⟨4608, 4096, 4608⟩ :=
    Reach.of_run [writeSlot0 (emptyMpdu 3), .notif (some 4096)] freshRing_init (runOk_any _ _)
      (by decide +kernel)
  refine ⟨sc, hr, hlog, (iwm_rx_slot_iff hr (by decide)).1.mpr ⟨?_, _, hd, by decide⟩⟩
  rw [hlog]
  rfl

end Net80211.Iwm
