import Net80211.Iwm.TxRing
import Net80211.Lib.RingBuffer
import Net80211.Proofs.IwmTx
import Net80211.Proofs.PacketFlags

/-!
# The transmit rings of iwm in every run

Each ring keeps `TxRingInv`: the slots in use are the last `queued` ones before `cur`, in the order
in which the firmware reports them, and the mask of full rings keeps `queued` below the size of the
ring. A frame is only put into a ring while no ring is marked, and the mark is set at the first
frame above `IWM_TX_RING_HIMARK`, so a ring never has more than one frame above it.

The mask is all that `iwm_rx_tx_cmd` looks at before it lets the interface send again. A ring with a
number of frames between the two marks is in it or not, depending on where it comes from.
-/

namespace Net80211.Iwm

open Lib Crypto List Function Option

/-! ## The mask of full rings -/

/-- Is a ring marked in `qfullmsk`? -/
def marked (qfullmsk : UInt32) (q : Nat) : Bool := qfullmsk.toBitVec.getLsbD q

theorem marked_zero (q : Nat) : marked 0 q = false := BitVec.getLsbD_zero

theorem toBitVec_ringBit {q : Nat} (hq : q < maxQueues) :
    (1 <<< UInt32.ofNat q : UInt32).toBitVec = BitVec.twoPow 32 q := by
  have h : ∀ q < maxQueues, (1 <<< UInt32.ofNat q : UInt32).toBitVec = BitVec.twoPow 32 q := by
    decide +kernel
  exact h q hq

theorem marked_set (qfullmsk : UInt32) {q : Nat} (k : Nat) (hq : q < maxQueues) :
    marked (qfullmsk ||| 1 <<< UInt32.ofNat q) k = (marked qfullmsk k || decide (q = k)) := by
  have hq' : q < 32 := Nat.lt_trans hq (by decide)
  rw [marked, UInt32.toBitVec_or, toBitVec_ringBit hq, BitVec.getLsbD_or,
    BitVec.getLsbD_twoPow, marked, decide_eq_true hq', Bool.true_and]

theorem marked_clear (qfullmsk : UInt32) {q k : Nat} (hq : q < maxQueues) (hk : k < maxQueues) :
    marked (qfullmsk &&& ~~~(1 <<< UInt32.ofNat q)) k = (marked qfullmsk k && !decide (q = k)) := by
  have hq' : q < 32 := Nat.lt_trans hq (by decide)
  have hk' : k < 32 := Nat.lt_trans hk (by decide)
  rw [marked, UInt32.toBitVec_and, UInt32.toBitVec_not, toBitVec_ringBit hq, BitVec.getLsbD_and,
    BitVec.getLsbD_not,
    BitVec.getLsbD_twoPow, marked, decide_eq_true hq', decide_eq_true hk', Bool.true_and,
    Bool.true_and]

/-! ## What a round does to the rings -/

section Rings

variable {ν : Type}

/-- The part of the driver that a round changes when it gives the device a frame, and the parameters
of the classification, which it never changes. -/
structure Rings (ν : Type) where
  txq : Nat → TxRing ν
  qfullmsk : UInt32
  sent : List TxCmd
  niVlan : ν → UInt16
  wmeAcm : Nat → Bool

def TxSoftc.rings (sc : TxSoftc ν) : Rings ν := ⟨sc.txq, sc.qfullmsk, sc.sent, sc.niVlan, sc.wmeAcm⟩

/-- The ring with another frame. -/
def TxRing.push (ring : TxRing ν) (frame : ν × List Mbuf) : TxRing ν :=
  { ring with
    cur := (ring.cur + 1) % txRingCount
    queued := ring.queued + 1
    data := update ring.data ring.cur (some frame) }

/-- Either nothing happens to the rings, or ring `ac` gets a frame. -/
inductive RingMove (ac : Nat) (r : Rings ν) : Rings ν → Prop where
  | same : RingMove ac r r
  | push {frame : ν × List Mbuf} {cmd : TxCmd} : cmd.qid = (r.txq ac).qid →
    cmd.idx = (r.txq ac).cur →
      RingMove ac r
        { r with
          txq := update r.txq ac ((r.txq ac).push frame)
          qfullmsk :=
            if (r.txq ac).queued + 1 > txRingHimark
              then r.qfullmsk ||| 1 <<< UInt32.ofNat (r.txq ac).qid
            else r.qfullmsk
          sent := r.sent ++ [cmd] }

theorem txMap_rings (dma : Mbuf → DmaLoad) (sc : TxSoftc ν) (n : ν) (ac hdrlen : Nat) (m : Mbuf)
    (ms : List Mbuf) : RingMove ac sc.rings (txMap dma sc n ac hdrlen m ms).1.rings := by
  rw [txMap]
  split
  · exact .same
  · exact .push rfl rfl

variable [DecidableEq ν] {E : BlockCipher} {inet : Bool} {dma : Mbuf → DmaLoad}
  {adhoc : Option ν} {sc sc' : TxSoftc ν}

theorem iwmTx_rings {n : ν} {m : Mbuf} {ms : List Mbuf} {ac : Nat} {r : TxSoftc ν × Bool}
    (ht : iwmTx E dma sc n m ms ac = some r) : RingMove ac sc.rings r.1.rings := by
  rw [iwmTx] at ht
  dsimp only at ht
  split at ht
  · cases ht; exact txMap_rings ..
  split at ht
  · cases ht
  next e _ =>
  split at ht
  · split at ht
    · cases ht
      exact txMap_rings dma { sc with heap := e.heap, ic := { sc.ic with icKeys := e.keys } } ..
    · cases ht
  · cases ht; exact .same

theorem sendit_rings {n : ν} {m : Mbuf} {ms : List Mbuf} {ac : Nat}
    (hs : sendit E dma sc n m ms ac = some sc') : RingMove ac sc.rings sc'.rings := by
  obtain ⟨r, hr, rfl⟩ := map_eq_some_iff.mp hs
  have hmove := iwmTx_rings hr
  cases r.2 with
  | true | false => exact hmove

theorem startAc_lt (m : Mbuf) : startAc m < 4 := by
  rw [startAc]
  split
  · exact getacFlags_lt m.mFlags
  · decide

theorem startEncap_rings {m : Mbuf} {ms : List Mbuf} {out : Option (ν × Mbuf × List Mbuf × Nat)}
    (he : startEncap inet sc adhoc m ms = some (sc', out)) :
    sc'.rings = sc.rings ∧ ∀ n m ms ac, out = some (n, m, ms, ac) → ac < 4 := by
  rw [startEncap.eq_def] at he
  split at he
  · cases he; exact ⟨rfl, fun _ _ _ _ h => by cases h⟩
  split at he
  · cases he; exact ⟨rfl, fun _ _ _ _ h => by cases h⟩
  split at he
  · cases he; exact ⟨rfl, fun _ _ _ _ h => by cases h⟩
  split at he
  · cases he
  · cases he; exact ⟨rfl, fun _ _ _ _ h => by cases h; exact startAc_lt _⟩
  · cases he; exact ⟨rfl, fun _ _ _ _ h => by cases h⟩

/-- A round either finds a ring full, or no ring is marked and one of the four rings for data may
get a frame. -/
theorem iwmStartRound_rings {go : Bool} (hr : iwmStartRound E inet dma adhoc sc = some (sc', go)) :
    (sc.qfullmsk ≠ 0 ∧ sc' = { sc with oactive := true }) ∨
      (sc.qfullmsk = 0 ∧ sc'.oactive = sc.oactive ∧ ∃ ac < 4, RingMove ac sc.rings sc'.rings) := by
  by_cases hmask : sc.qfullmsk = 0
  · refine .inr ⟨hmask, ?_⟩
    cases iwmStartRound_move hr with
    | full hfull => exact absurd hmask hfull
    | idle _ _ => exact ⟨rfl, 0, by decide, .same⟩
    | mgmt _ hs =>
      have hmove := sendit_rings hs
      exact ⟨(sendit_keeps hs).oactive, wmeAcBe, by decide, hmove⟩
    | packet _ _ _ hs =>
      refine ⟨(startSend_keeps hs).oactive, ?_⟩
      rw [startSend.eq_def] at hs
      split at hs
      · cases hs
      · next he =>
        cases hs
        refine ⟨0, by decide, ?_⟩
        rw [(startEncap_rings he).1]
        exact .same
      · next he =>
        obtain ⟨hrings, hac⟩ := startEncap_rings he
        refine ⟨_, hac _ _ _ _ rfl, ?_⟩
        have hmove := sendit_rings hs
        rw [hrings] at hmove
        exact hmove
  · rw [iwmStartRound, if_pos hmask] at hr
    cases hr
    exact .inl ⟨hmask, rfl⟩

end Rings

/-! ## The invariant of a ring -/

variable {ν : Type}

/-- The slot has a packet. -/
def TxRing.outstanding (ring : TxRing ν) (i : Nat) : Bool := (ring.data i).isSome

/-- A ring, `done` of its entries, what the firmware has still to report of it, and whether it is
marked as full. -/
structure TxRingInv (q : Nat) (ring : TxRing ν) (done : Nat → Bool) (reports : List Nat)
    (full : Bool) : Prop where
  qid : ring.qid = q
  slots : ∃ first, Occupies txRingCount (fun i => ring.outstanding i = true) first ring.queued ∧
    ring.cur = (first + ring.queued) % txRingCount ∧
    reports = slotsFrom txRingCount first ring.queued
  done : ∀ i, ring.outstanding i = true → done i = false
  low : full = true → txRingLomark ≤ ring.queued
  high : ring.queued ≤ txRingHimark + 1
  clear : full = false → ring.queued ≤ txRingHimark

variable {q : Nat} {ring : TxRing ν} {done : Nat → Bool} {reports : List Nat} {full : Bool}

theorem TxRingInv.empty (q : Nat) (done : Nat → Bool) :
    TxRingInv q ({ qid := q, cur := 0, queued := 0, data := fun _ => none } : TxRing ν) done []
    false where
  qid := rfl
  slots := ⟨0,
    ⟨by decide, Nat.zero_lt_succ _,
    fun _ _ => ⟨fun h => (Bool.false_ne_true h).elim, fun h => by cases h⟩⟩, rfl, rfl⟩
  done _ h := (Bool.false_ne_true h).elim
  low h := by cases h
  high := Nat.zero_le _
  clear _ := Nat.zero_le _

theorem TxRingInv.cur_free (h : TxRingInv q ring done reports full) :
    ring.outstanding ring.cur = false := by
  obtain ⟨first, hocc, hcur, -⟩ := h.slots
  rw [hcur]
  exact Bool.eq_false_iff.mpr hocc.free

theorem TxRingInv.push (h : TxRingInv q ring done reports false) (frame : ν × List Mbuf) :
    TxRingInv q (ring.push frame) (update done ring.cur false) (reports ++ [ring.cur])
      (decide (ring.queued + 1 > txRingHimark)) := by
  obtain ⟨first, hocc, hcur, hreports⟩ := h.slots
  have hroom : ring.queued ≤ 224 := h.clear rfl
  have hout : ∀ i, (ring.push frame).outstanding i = true ↔ ring.outstanding i = true ∨
      i = ring.cur := by
    intro i
    by_cases hi : i = ring.cur <;> simp [TxRing.push, TxRing.outstanding, hi]
  refine ⟨h.qid, ⟨first, hocc.push ?_ fun i => ?_, ?_, ?_⟩, fun i hi => ?_, fun hfull => ?_, ?_,
    fun hfull => ?_⟩
  · show ring.queued + 1 < 256
    omega
  · rw [hout, hcur]
  · show (ring.cur + 1) % txRingCount = (first + (ring.queued + 1)) % txRingCount
    rw [hcur, Nat.mod_add_mod, Nat.add_assoc]
  · show reports ++ [ring.cur] = slotsFrom txRingCount first (ring.queued + 1)
    rw [slotsFrom_succ, hreports, hcur]
  · by_cases hcur' : i = ring.cur
    · rw [hcur', update_self]
    · rw [update_of_ne hcur']
      exact h.done i (((hout i).mp hi).resolve_right hcur')
  · have hgt : ring.queued + 1 > 224 := of_decide_eq_true hfull
    show 192 ≤ ring.queued + 1
    omega
  · show ring.queued + 1 ≤ 225
    omega
  · exact Nat.not_lt.mp (of_decide_eq_false hfull)

/-- The first report is of the oldest frame, and that is still there. -/
theorem TxRingInv.pop {idx : Nat} {rest : List Nat} (h : TxRingInv q ring done (idx :: rest) full) :
    ring.outstanding idx = true ∧ done idx = false ∧
      TxRingInv q { ring with queued := ring.queued - 1, data := update ring.data idx none }
        (update done idx true) rest (if ring.queued - 1 < txRingLomark then false else full) := by
  obtain ⟨first, hocc, hcur, hreports⟩ := h.slots
  cases hk : ring.queued with
  | zero =>
    rw [hk] at hreports
    cases hreports
  | succ k =>
    rw [hk] at hocc hreports hcur
    rw [slotsFrom_cons hocc.first_lt] at hreports
    cases hreports
    have hidx : ring.outstanding idx = true := hocc.front
    refine ⟨hidx, h.done _ hidx, ?_⟩
    have hout :
        ∀ i, ({ ring with queued := k, data := update ring.data idx none } :
        TxRing ν).outstanding i = true ↔ ring.outstanding i = true ∧ i ≠ idx := by
      intro i
      by_cases hi : i = idx <;> simp [TxRing.outstanding, hi]
    have hhigh : k + 1 ≤ 225 := hk ▸ h.high
    refine ⟨h.qid, ⟨(idx + 1) % txRingCount, hocc.pop hout, ?_, rfl⟩, fun i hi => ?_,
      fun hfull => ?_, ?_, fun hfull => ?_⟩
    · show ring.cur = ((idx + 1) % txRingCount + k) % txRingCount
      rw [hcur, Nat.mod_add_mod, Nat.add_right_comm, Nat.add_assoc]
    · obtain ⟨hi, hne⟩ := (hout i).mp hi
      rw [update_of_ne hne]
      exact h.done i hi
    · by_cases hlow : k < txRingLomark
      · rw [Nat.add_sub_cancel, if_pos hlow] at hfull
        cases hfull
      · exact Nat.not_lt.mp hlow
    · show k ≤ 225
      omega
    · show k ≤ 224
      omega

theorem TxRingInv.before (h : TxRingInv q ring done reports full) {i : Nat} (hi : i < txRingCount) :
    ring.outstanding i = true ↔
      ∃ k, 1 ≤ k ∧ k ≤ ring.queued ∧ i = (ring.cur + txRingCount - k) % txRingCount := by
  obtain ⟨first, hocc, hcur, -⟩ := h.slots
  have hlen : ring.queued < 256 := hocc.len_lt
  rw [hocc.used_iff i hi, slotsFrom, List.mem_map, hcur, show txRingCount = 256 from rfl]
  constructor
  · rintro ⟨j, hj, rfl⟩
    rw [mem_range] at hj
    exact ⟨ring.queued - j, by omega, by omega, by omega⟩
  · rintro ⟨k, hpos, hk, rfl⟩
    exact ⟨ring.queued - k, mem_range.mpr (by omega), by omega⟩

/-! ## Runs -/

variable {s s' : RingRun ν}

def RingRun.Inv (s : RingRun ν) : Prop :=
  ∀ q < maxQueues, TxRingInv q (s.sc.txq q) (s.done q) (s.reports q) (marked s.sc.qfullmsk q)

theorem RingRunInit.inv (h : RingRunInit s) : s.Inv := by
  intro q _
  rw [h.txq, h.qfullmsk, h.reports, marked_zero]
  exact TxRingInv.empty q _

/-- What a round does: nothing to the rings, or it gives the device a frame, in a slot that is
free. -/
inductive RoundEffect (s : RingRun ν) : RingRun ν → Prop where
  | full : s.sc.qfullmsk ≠ 0 → RoundEffect s { s with sc := { s.sc with oactive := true } }
  | same {sc' : TxSoftc ν} : sc'.oactive = s.sc.oactive → sc'.rings = s.sc.rings →
    RoundEffect s { s with sc := sc' }
  | push {ac : Nat} {frame : ν × List Mbuf} {cmd : TxCmd} {sc' : TxSoftc ν} :
    ac < 4 → s.sc.qfullmsk = 0 →
      sc'.oactive = s.sc.oactive → cmd.qid = (s.sc.txq ac).qid → cmd.idx = (s.sc.txq ac).cur →
      sc'.txq = update s.sc.txq ac ((s.sc.txq ac).push frame) →
      sc'.qfullmsk = (if (s.sc.txq ac).queued + 1 > txRingHimark
      then 1 <<< UInt32.ofNat (s.sc.txq ac).qid else 0) →
      RoundEffect s (RingRun.submit { s with sc := sc' } cmd)

theorem RingRun.Inv.round (h : s.Inv) (heff : RoundEffect s s') : s'.Inv := by
  cases heff with
  | full _ => exact h
  | @same sc' _ hrings =>
    have htxq : sc'.txq = s.sc.txq := congrArg Rings.txq hrings
    have hmask : sc'.qfullmsk = s.sc.qfullmsk := congrArg Rings.qfullmsk hrings
    intro q hq
    rw [htxq, hmask]
    exact h q hq
  | @push ac frame cmd sc' hac hmask _ hqid hidx htxq hmask' =>
    have hac' : ac < maxQueues := Nat.lt_trans hac (by decide)
    have hring := h ac hac'
    rw [hmask, marked_zero] at hring
    rw [hring.qid] at hqid hmask'
    have hmarked : ∀ q, marked sc'.qfullmsk q =
        (decide ((s.sc.txq ac).queued + 1 > txRingHimark) && decide (ac = q)) := by
      intro q
      rw [hmask']
      split
      · next hgt =>
        have hset := marked_set 0 q hac'
        rw [UInt32.zero_or, marked_zero, Bool.false_or] at hset
        rw [hset, decide_eq_true hgt, Bool.true_and]
      · next hle => rw [marked_zero, decide_eq_false hle, Bool.false_and]
    intro q hq
    show TxRingInv q (sc'.txq q) (update s.done cmd.qid _ q) (update s.reports cmd.qid _ q)
      (marked sc'.qfullmsk q)
    rw [htxq, hmarked, hqid, hidx]
    by_cases hne : q = ac
    · subst hne
      simp only [update_self, decide_true, Bool.and_true]
      exact hring.push frame
    · have hother := h q hq
      rw [hmask, marked_zero] at hother
      rw [update_of_ne hne, update_of_ne hne, update_of_ne hne,
        decide_eq_false (Ne.symm hne), Bool.and_false]
      exact hother

theorem RingRun.Inv.report (h : s.Inv) {qid idx : Nat} {rest : List Nat} (hq : qid < maxQueues)
    (hreports : s.reports qid = idx :: rest) :
    ∃ frame, (s.sc.txq qid).data idx = some frame ∧
      ringReport s qid = some
        { sc := txDoneEntry s.sc qid idx
          done := update s.done qid (update (s.done qid) idx true)
          reports := update s.reports qid rest } := by
  have hring := h qid hq
  rw [hreports] at hring
  obtain ⟨hout, hdone, -⟩ := hring.pop
  obtain ⟨frame, hframe⟩ := isSome_iff_exists.mp hout
  refine ⟨frame, hframe, ?_⟩
  rw [ringReport, hreports]
  simp only [hdone, hframe]
  rfl

theorem RingRun.Inv.pop (h : s.Inv) {qid idx : Nat} {rest : List Nat} (hq : qid < maxQueues)
    (hreports : s.reports qid = idx :: rest) :
    RingRun.Inv
      { sc := txDoneEntry s.sc qid idx
        done := update s.done qid (update (s.done qid) idx true)
        reports := update s.reports qid rest } := by
  obtain ⟨⟨n, c⟩, hframe, -⟩ := h.report hq hreports
  have hring := h qid hq
  rw [hreports] at hring
  have htxq : (txDoneEntry s.sc qid idx).txq = (txDone s.sc qid idx c).txq := by
    rw [txDoneEntry, hframe]
    dsimp only
    split
    · rfl
    · rfl
  have hmask : (txDoneEntry s.sc qid idx).qfullmsk = (txDone s.sc qid idx c).qfullmsk := by
    rw [txDoneEntry, hframe]
    dsimp only
    split
    · rfl
    · rfl
  have hmarked : ∀ q < maxQueues, marked (txDone s.sc qid idx c).qfullmsk q =
      if (s.sc.txq qid).queued - 1 < txRingLomark then marked s.sc.qfullmsk q && !decide (qid = q)
      else marked s.sc.qfullmsk q := by
    intro q hq'
    show marked (if _ then _ else _) q = _
    split
    · exact marked_clear _ hq hq'
    · rfl
  intro q hq'
  show TxRingInv q ((txDoneEntry s.sc qid idx).txq q) (update s.done qid _ q)
    (update s.reports qid rest q)
    (marked (txDoneEntry s.sc qid idx).qfullmsk q)
  rw [htxq, hmask, hmarked q hq']
  show TxRingInv q (update s.sc.txq qid _ q) _ _ _
  by_cases hne : q = qid
  · subst hne
    simp only [update_self, decide_true, Bool.not_true, Bool.and_false]
    exact hring.pop.2.2
  · rw [update_of_ne hne, update_of_ne hne, update_of_ne hne,
      decide_eq_false (Ne.symm hne), Bool.not_false, Bool.and_true, ite_self]
    exact h q hq'

theorem RingRun.Inv.reset (h : s.Inv) {qid : Nat} (hq : qid < maxQueues) :
    RingRun.Inv { s with sc := resetTxRing s.sc qid, reports := update s.reports qid [] } := by
  intro q hq'
  have hqid := (h qid hq).qid
  show TxRingInv q (update s.sc.txq qid _ q) (s.done q) (update s.reports qid [] q)
    (marked (s.sc.qfullmsk &&& ~~~(1 <<< UInt32.ofNat (s.sc.txq qid).qid)) q)
  rw [hqid, marked_clear _ hq hq']
  by_cases hne : q = qid
  · subst hne
    simp only [update_self, decide_true, Bool.not_true, Bool.and_false]
    exact TxRingInv.empty _ _
  · rw [update_of_ne hne, update_of_ne hne, decide_eq_false (Ne.symm hne), Bool.not_false,
      Bool.and_true]
    exact h q hq'

theorem RoundEffect.keeps (heff : RoundEffect s s') (h : s.Inv) {i : Nat} (hq : q < maxQueues)
    (hout : (s.sc.txq q).outstanding i = true) : (s'.sc.txq q).data i = (s.sc.txq q).data i := by
  cases heff with
  | full _ => rfl
  | @same sc' _ hrings =>
    have htxq : sc'.txq = s.sc.txq := congrArg Rings.txq hrings
    rw [htxq]
  | @push ac frame cmd sc' hac _ _ _ _ htxq _ =>
    show (sc'.txq q).data i = _
    rw [htxq]
    by_cases hne : q = ac
    · subst hne
      have hcur : i ≠ (s.sc.txq q).cur := by
        intro heq
        rw [heq, (h q hq).cur_free] at hout
        cases hout
      rw [update_self]
      exact update_of_ne hcur _ _
    · rw [update_of_ne hne]

variable [DecidableEq ν] {E : BlockCipher} {inet : Bool} {dma : Mbuf → DmaLoad}
  {adhoc : Option ν}

theorem ringStep_round (hs : ringStep E s (.round inet dma adhoc) = some s') :
    RoundEffect s s' := by
  obtain ⟨⟨sc', go⟩, hround, rfl⟩ := map_eq_some_iff.mp hs
  rcases iwmStartRound_rings hround with ⟨hmask, rfl⟩ | ⟨hmask, hoactive, ac, hac, hmove⟩
  · simp only [drop_length, foldl_nil]
    exact .full hmask
  generalize hrings : sc'.rings = r at hmove
  cases hmove with
  | same =>
    have hsent : sc'.sent = s.sc.sent := congrArg Rings.sent hrings
    simp only [hsent, drop_length, foldl_nil]
    exact .same hoactive hrings
  | @push frame cmd hqid hidx =>
    have hsent : sc'.sent = s.sc.sent ++ [cmd] := congrArg Rings.sent hrings
    simp only [hsent, drop_left, foldl_cons, foldl_nil]
    refine .push hac hmask hoactive hqid hidx (congrArg Rings.txq hrings) ?_
    refine (congrArg Rings.qfullmsk hrings).trans ?_
    show (if _ then s.sc.qfullmsk ||| _ else s.sc.qfullmsk) = _
    rw [hmask, UInt32.zero_or]
    rfl

theorem RingRun.Inv.step (h : s.Inv) {op : RingOp ν} (hs : ringStep E s op = some s') : s'.Inv := by
  cases op with
  | env rx mgtq running csumData => cases hs; exact h
  | round inet dma adhoc => exact h.round (ringStep_round hs)
  | report qid =>
    obtain ⟨hq, hs⟩ := ite_none_right_eq_some.mp hs
    cases hreports : s.reports qid with
    | nil => rw [ringReport, hreports] at hs; cases hs
    | cons idx rest =>
      obtain ⟨-, -, heq⟩ := h.report hq hreports
      cases heq.symm.trans hs
      exact h.pop hq hreports
  | reset qid =>
    obtain ⟨hq, rfl⟩ := of_guard hs
    exact h.reset hq

/-- The interface is made to send again in one place: a report, of a ring that it takes below the
low mark, when no ring is marked. -/
theorem ringStep_oactive {op : RingOp ν} (hs : ringStep E s op = some s')
    (hbefore : s.sc.oactive = true) (hafter : s'.sc.oactive = false) :
    s'.sc.qfullmsk = 0 ∧ ∃ qid, op = .report qid ∧ (s'.sc.txq qid).queued < txRingLomark := by
  have hsame : s'.sc.oactive ≠ s.sc.oactive := by
    rw [hbefore, hafter]
    decide
  cases op with
  | env rx mgtq running csumData => cases hs; exact absurd rfl hsame
  | round inet dma adhoc =>
    cases ringStep_round hs with
    | full _ => cases hafter
    | same hoactive _ | push _ _ hoactive => exact absurd hoactive hsame
  | reset qid =>
    obtain ⟨-, rfl⟩ := of_guard hs
    exact absurd rfl hsame
  | report qid =>
    obtain ⟨-, hs⟩ := ite_none_right_eq_some.mp hs
    cases hreports : s.reports qid with
    | nil => rw [ringReport, hreports] at hs; cases hs
    | cons idx rest =>
      rw [ringReport, hreports] at hs
      dsimp only at hs
      split at hs
      · cases hs; exact absurd rfl hsame
      split at hs
      · cases hs
      next frame hframe =>
      cases hs
      have hdone : txDoneEntry s.sc qid idx = if restarts (txDone s.sc qid idx frame.2) qid then
          { txDone s.sc qid idx frame.2 with oactive := false }
            else txDone s.sc qid idx frame.2 := by
        rw [txDoneEntry, hframe]
      by_cases hre : restarts (txDone s.sc qid idx frame.2) qid = true
      · simp only [hdone, if_pos hre]
        rw [restarts, Bool.and_eq_true, Bool.and_eq_true, decide_eq_true_iff, beq_iff_eq] at hre
        exact ⟨hre.1.2, qid, rfl, hre.1.1⟩
      · refine absurd ?_ hsame
        simp only [hdone, if_neg hre]
        rfl

/-- Along every run of rounds, reports and resets: a ring has as many packets as it counts, in the
slots before `cur`; while no ring is marked, `iwm_tx` finds its slot free, and no round touches a
slot with a packet; a report finds its packet; and the interface is only made to send again when no
ring is marked, hence none above its high mark, by the report of a ring below its low mark. -/
theorem iwm_tx_ring_safe (E : BlockCipher) {s : RingRun ν}
    (h : Reach RingRunInit (ringStep E) Any s) :
    (∀ q < maxQueues,
      ((Finset.range txRingCount).filter fun i => (s.sc.txq q).outstanding i = true).card =
      (s.sc.txq q).queued ∧ (∀ i < txRingCount, (s.sc.txq q).outstanding i = true ↔
        ∃ k, 1 ≤ k ∧ k ≤ (s.sc.txq q).queued ∧
        i = ((s.sc.txq q).cur + txRingCount - k) % txRingCount) ∧
      (s.sc.txq q).outstanding (s.sc.txq q).cur = false ∧
      (s.reports q ≠ [] → ∃ s', ringStep E s (.report q) = some s')) ∧
    (∀ inet dma adhoc s', ringStep E s (.round inet dma adhoc) = some s' → ∀ q i, q < maxQueues →
      (s.sc.txq q).outstanding i = true → (s'.sc.txq q).data i = (s.sc.txq q).data i) ∧
    ∀ op s', ringStep E s op = some s' → s.sc.oactive = true → s'.sc.oactive = false →
      s'.sc.qfullmsk = 0 ∧ (∀ q < maxQueues, (s'.sc.txq q).queued ≤ txRingHimark) ∧
        ∃ q, op = .report q ∧ (s'.sc.txq q).queued < txRingLomark := by
  have hinv : s.Inv := h.invariant (fun _ => RingRunInit.inv) fun _ _ _ hi _ hs => hi.step hs
  refine ⟨fun q hq => ⟨?_, fun i hi => (hinv q hq).before hi, (hinv q hq).cur_free, fun hne => ?_⟩,
    fun inet dma adhoc s' hs q i hq hout => ?_, fun op s' hs hbefore hafter => ?_⟩
  · obtain ⟨first, hocc, -⟩ := (hinv q hq).slots
    exact hocc.card
  · obtain ⟨idx, rest, hreports⟩ := exists_cons_of_ne_nil hne
    obtain ⟨-, -, heq⟩ := hinv.report hq hreports
    exact ⟨_, (if_pos hq).trans heq⟩
  · exact (ringStep_round hs).keeps hinv hq hout
  · obtain ⟨hmask, hreport⟩ := ringStep_oactive hs hbefore hafter
    refine ⟨hmask, fun q hq => (hinv.step hs q hq).clear ?_, hreport⟩
    rw [hmask, marked_zero]

/-! ## A ring above its low mark -/

section Samples

/-- A station of a network with QoS. -/
def qosStation : Rx Unit :=
  { openStation with
    ic := { openStation.ic with icNode := fun n =>
      { openStation.ic.icNode n with niQos := true } } }

/-- The network asks for admission to the best effort category, so that packets are sent as
background. -/
def admission : Nat → Bool := (· == 0)

/-- The driver of the station, with empty rings. -/
def emptyRings : RingRun Unit :=
  { sc :=
      { toRx := qosStation, running := true, oactive := false, mgtq := [], qfullmsk := 0
        txq := fun qid => { qid, cur := 0, queued := 0, data := fun _ => none }
        niVlan := fun _ => 0, wmeAcm := admission, csumData := fun _ => 0
        oerrors := 0, sent := [] }
    done := fun _ _ => false, reports := fun _ => [] }

theorem emptyRings_init : RingRunInit emptyRings := ⟨fun _ => rfl, rfl, fun _ => rfl⟩

def ipPacket : Mbuf :=
  { addr := 0, mFlags := mPkthdr
    mCluster :=
      fun i => (replicate 12 (2 : UInt8) ++ [0x08, 0x00, 0x45, 0x20] ++ replicate 18 7).getD i 0
    mData := 0, mLen := 34, pkthdrLen := 34 }

def probe : Mbuf :=
  { addr := 0, mFlags := mPkthdr, mCluster := fun i => [0x40].getD i 0, mData := 0, mLen := 30,
    pkthdrLen := 30 }

/-- Probe requests go to ring 0. -/
def sendProbes (k : Nat) : List (RingOp Unit) :=
  .env qosStation (replicate k ((), probe, [])) true (fun _ => 0) ::
    replicate k (.round false busDmamapLoadMbuf none)

/-- Two frames are dropped by a reset; of the next three one is reported. -/
theorem iwm_tx_ring_safe_sample :
    ∃ s : RingRun Unit, Reach RingRunInit (ringStep fun _ b => b) Any s ∧
      (s.sc.txq 0).queued = 2 ∧ (s.sc.txq 0).cur = 3 ∧ s.reports 0 = [1, 2] ∧
      ((Finset.range txRingCount).filter fun i => (s.sc.txq 0).outstanding i = true).card = 2 := by
  obtain ⟨s, hr, hqueued, h⟩ : ∃ s : RingRun Unit, Reach RingRunInit (ringStep fun _ b => b) Any s ∧
      (s.sc.txq 0).queued = 2 ∧ (s.sc.txq 0).cur = 3 ∧ s.reports 0 = [1, 2] :=
    Reach.of_run (sendProbes 2 ++ [.reset 0] ++ sendProbes 3 ++ [.report 0]) emptyRings_init
      (runOk_any _ _) (by decide +kernel)
  exact ⟨s, hr, hqueued, h.1, h.2, hqueued ▸ ((iwm_tx_ring_safe _ hr).1 0 (by decide)).1⟩

/-- A run that has put `a` and `b` frames into the first two rings. -/
structure RingsFilled (s : RingRun Unit) (a b : Nat) : Prop where
  reach : Reach RingRunInit (ringStep fun _ b => b) Any s
  ring0 : (s.sc.txq 0).queued = a
  ring1 : (s.sc.txq 1).queued = b
  niVlan : s.sc.niVlan = fun _ => 0
  wmeAcm : s.sc.wmeAcm = admission

variable {s : RingRun Unit} {a b : Nat}

theorem RingsFilled.inv (h : RingsFilled s a b) : s.Inv :=
  h.reach.invariant (fun _ => RingRunInit.inv) fun _ _ _ hi _ hs => hi.step hs

/-- A frame that needs no cipher. -/
theorem sendit_plain (sc : TxSoftc Unit) {n : Unit} {m : Mbuf} {ms : List Mbuf} {ac : Nat}
    (hwep : (m.get 1 &&& fc1Wep == 0) = true) :
    ∃ frame cmd, sendit E busDmamapLoadMbuf sc n m ms ac = some
      { sc with
        txq := update sc.txq ac ((sc.txq ac).push frame)
        qfullmsk :=
          if (sc.txq ac).queued + 1 > txRingHimark
            then sc.qfullmsk ||| 1 <<< UInt32.ofNat (sc.txq ac).qid
          else sc.qfullmsk
        sent := sc.sent ++ [cmd] } := by
  obtain ⟨m₁, tl, hadj⟩ : ∃ m₁ tl, mAdj (m :: ms) (anyhdrsize m.get) = m₁ :: tl := by
    refine exists_cons_of_ne_nil fun hnil => ?_
    have haddr := addr_mAdj (m :: ms) (anyhdrsize m.get)
    rw [hnil] at haddr
    cases haddr
  rw [sendit, iwmTx]
  simp only [hwep, if_true, txMap, hadj]
  exact ⟨_, _, rfl⟩

variable {sc : TxSoftc Unit}

theorem startEncap_snd {inet : Bool} {adhoc : Option Unit} {sc' : TxSoftc Unit} (m : Mbuf)
    (ms : List Mbuf) (hrx : sc'.toRx = sc.toRx) (hvlan : sc'.niVlan = sc.niVlan)
    (hacm : sc'.wmeAcm = sc.wmeAcm) (hcsum : sc'.csumData = sc.csumData) :
    (startEncap inet sc' adhoc m ms).map Prod.snd =
      (startEncap inet sc adhoc m ms).map Prod.snd := by
  obtain ⟨rx, _, _, _, _, _, vlan, acm, csum, _, _⟩ := sc
  obtain ⟨rx', _, _, _, _, _, vlan', acm', csum', _, _⟩ := sc'
  cases hrx
  cases hvlan
  cases hacm
  cases hcsum
  simp only [startEncap, TxSoftc.setHeap]
  split
  · rfl
  split
  · rfl
  split
  · rfl
  split
  · rfl
  · rfl
  · rfl

theorem iwmStartRound_packet {E : BlockCipher} {inet : Bool}
    {dma : Mbuf → DmaLoad} {adhoc : Option Unit} {sc' : TxSoftc Unit} {m m' : Mbuf}
    {ms ms' : List Mbuf} {rest : List (List Mbuf)} {n : Unit} {ac : Nat} (hmask : sc.qfullmsk = 0)
    (hmgtq : sc.mgtq = []) (hrun : sc.ic.icState = .run) (hsnd : sc.ifSnd = (m :: ms) :: rest)
    (he : startEncap inet { sc with ifSnd := rest } adhoc m ms =
      some (sc', some (n, m', ms', ac))) :
    iwmStartRound E inet dma adhoc sc = (sendit E dma sc' n m' ms' ac).map (·, true) := by
  rw [hmgtq] at he
  rw [iwmStartRound, if_neg (not_not.mpr hmask), hmgtq]
  rw [if_neg (not_not.mpr hrun), hsnd]
  dsimp only
  rw [he]

theorem submits_sc (l : List TxCmd) (s : RingRun Unit) : (l.foldl RingRun.submit s).sc = s.sc := by
  induction l generalizing s with
  | nil => rfl
  | cons cmd l ih => exact ih _

theorem RingsFilled.env (h : RingsFilled s a b) (rx : Rx Unit)
    (mgtq : List (Unit × Mbuf × List Mbuf)) :
    RingsFilled
    { s with sc := { s.sc with toRx := rx, mgtq, running := true, csumData := fun _ => 0 } } a b :=
  ⟨.step (a := .env rx mgtq true fun _ => 0) h.reach trivial rfl, h.ring0, h.ring1, h.niVlan,
    h.wmeAcm⟩

theorem RingsFilled.send (h : RingsFilled s a b) (hmask : s.sc.qfullmsk = 0) {n : Unit} {m : Mbuf}
    {ms : List Mbuf} {ac : Nat} (hrings : sc.rings = s.sc.rings)
    (hoactive : sc.oactive = s.sc.oactive)
    (hround : iwmStartRound (fun _ b => b) false busDmamapLoadMbuf none s.sc =
      (sendit (fun _ b => b) busDmamapLoadMbuf sc n m ms ac).map (·, true))
    (hwep : (m.get 1 &&& fc1Wep == 0) = true) (hac : ac < 2) :
    ∃ s', RingsFilled s' (if 0 = ac then a + 1 else a) (if 1 = ac then b + 1 else b) ∧
    s'.sc.oactive = s.sc.oactive ∧
      s'.sc.qfullmsk = if (s.sc.txq ac).queued + 1 > txRingHimark then 1 <<< UInt32.ofNat ac
      else 0 := by
  obtain ⟨frame, cmd, hsend⟩ := sendit_plain (E := fun _ b => b) sc hwep
  have htxq : sc.txq = s.sc.txq := congrArg Rings.txq hrings
  have hmask' : sc.qfullmsk = 0 := (congrArg Rings.qfullmsk hrings).trans hmask
  have hqid := (h.inv ac (Nat.lt_trans hac (by decide))).qid
  have hqueued : ∀ q, (update sc.txq ac ((sc.txq ac).push frame) q).queued =
      if q = ac then (s.sc.txq q).queued + 1 else (s.sc.txq q).queued := by
    intro q
    rw [htxq]
    by_cases hq : q = ac
    · rw [if_pos hq, hq, update_self]
      rfl
    · rw [if_neg hq, update_of_ne hq]
  rw [hsend, map_some] at hround
  have hstep : ∃ s', ringStep (fun _ b => b) s (.round false busDmamapLoadMbuf none) = some s' ∧
      s'.sc = _ :=
    ⟨_, congrArg (Option.map _) hround, submits_sc _ _⟩
  obtain ⟨s', hs', hsc⟩ := hstep
  refine ⟨s', ⟨.step h.reach trivial hs', ?_, ?_, ?_, ?_⟩, ?_, ?_⟩
  · rw [hsc, ← h.ring0]
    exact hqueued 0
  · rw [hsc, ← h.ring1]
    exact hqueued 1
  · rw [hsc]
    exact (congrArg Rings.niVlan hrings).trans h.niVlan
  · rw [hsc]
    exact (congrArg Rings.wmeAcm hrings).trans h.wmeAcm
  · rw [hsc]
    exact hoactive
  · rw [hsc]
    simp only [htxq, hqid, hmask', UInt32.zero_or]

theorem RingsFilled.background (h : RingsFilled s a b) (hmask : s.sc.qfullmsk = 0)
    (hb : b < txRingHimark) :
    ∃ s', RingsFilled s' a (b + 1) ∧ s'.sc.oactive = s.sc.oactive ∧ s'.sc.qfullmsk = 0 := by
  have henv := h.env { qosStation with ifSnd := [[ipPacket]] } []
  have hclosed : (startEncap false emptyRings.sc none ipPacket []).map
      (fun r => r.2.map fun o => (o.2.2.2, o.2.1.get 1 &&& fc1Wep == 0)) =
      some (some (1, true)) := by decide +kernel
  have hencap := @startEncap_snd emptyRings.sc false none
    { s.sc with toRx := qosStation, mgtq := [], running := true, csumData := fun _ => 0 }
      ipPacket [] rfl
    h.niVlan h.wmeAcm rfl
  obtain ⟨r, hr, hout⟩ := map_eq_some_iff.mp hclosed
  obtain ⟨⟨n, m, ms, ac⟩, hm, heq⟩ := map_eq_some_iff.mp hout
  obtain ⟨hac, hwep⟩ := Prod.mk.inj heq
  cases hac
  rw [hr, map_some, hm] at hencap
  obtain ⟨⟨sc2, out⟩, hsc2, hsnd⟩ := map_eq_some_iff.mp hencap
  cases hsnd
  obtain ⟨s', hfilled, hoactive, hmask'⟩ :=
    henv.send hmask (startEncap_rings hsc2).1 (startEncap_keeps hsc2).oactive
    (iwmStartRound_packet hmask rfl rfl rfl hsc2) hwep (by decide)
  refine ⟨s', hfilled, hoactive, hmask'.trans (if_neg ?_)⟩
  rw [henv.ring1]
  omega

theorem RingsFilled.mgmt (h : RingsFilled s a b) (hmask : s.sc.qfullmsk = 0) :
    ∃ s', RingsFilled s' (a + 1) b ∧ s'.sc.oactive = s.sc.oactive ∧
      s'.sc.qfullmsk = if a + 1 > txRingHimark then 1 else 0 := by
  have henv := h.env qosStation [((), probe, [])]
  obtain ⟨s', hfilled, hoactive, hmask'⟩ := @RingsFilled.send _ a b
    { s.sc with toRx := qosStation, mgtq := [], running := true, csumData := fun _ => 0 } henv hmask
      () probe [] 0 rfl rfl
    (by rw [iwmStartRound, if_neg (not_not.mpr hmask)]; rfl) (by decide) (by decide)
  refine ⟨s', hfilled, hoactive, ?_⟩
  rw [hmask', ← h.ring0]
  rfl

theorem RingsFilled.report (h : RingsFilled s (a + 1) b) (hmask : s.sc.qfullmsk = 1)
    (hoactive : s.sc.oactive = true) :
    ∃ s', ringStep (fun _ b => b) s (.report 0) = some s' ∧ RingsFilled s' a b ∧
      if a < txRingLomark then s'.sc.oactive = false else s'.sc.oactive = true ∧
      s'.sc.qfullmsk = 1 := by
  obtain ⟨first, -, -, hreports⟩ := (h.inv 0 (by decide)).slots
  rw [h.ring0, slotsFrom, range_succ_eq_map, map_cons] at hreports
  generalize (first + 0) % txRingCount = idx at hreports
  obtain ⟨⟨n, c⟩, hframe, hs⟩ := h.inv.report (by decide) hreports
  have hs' : ringStep (fun _ b => b) s (.report 0) = some _ := hs
  have hdone : (txDone s.sc 0 idx c).qfullmsk = if a < txRingLomark then 0 else 1 := by
    rw [txDone, h.ring0, hmask]
    rfl
  have hqueued : ((txDone s.sc 0 idx c).txq 0).queued = a := by
    show (s.sc.txq 0).queued - 1 = a
    rw [h.ring0, Nat.add_sub_cancel]
  have hring1 : ((txDone s.sc 0 idx c).txq 1).queued = b := h.ring1
  have hentry : txDoneEntry s.sc 0 idx = if a < txRingLomark then
      { txDone s.sc 0 idx c with oactive := false } else txDone s.sc 0 idx c := by
    have hrestarts : restarts (txDone s.sc 0 idx c) 0 = decide (a < txRingLomark) := by
      rw [restarts, hqueued, hdone]
      show (_ && _ && s.sc.oactive) = _
      rw [hoactive]
      by_cases ha : a < txRingLomark
      · rw [if_pos ha, decide_eq_true ha]; rfl
      · rw [if_neg ha, decide_eq_false ha]; rfl
    rw [txDoneEntry, hframe]
    simp only [hrestarts, decide_eq_true_eq]
  rw [hentry] at hs'
  refine ⟨_, hs', ⟨.step h.reach trivial hs', ?_, ?_, ?_, ?_⟩, ?_⟩
  all_goals by_cases ha : a < txRingLomark
  all_goals simp only [if_pos, if_neg, ha, not_false_eq_true]
  · exact hqueued
  · exact hqueued
  · exact hring1
  · exact hring1
  · exact h.niVlan
  · exact h.niVlan
  · exact h.wmeAcm
  · exact h.wmeAcm
  · exact ⟨hoactive, hdone.trans (if_neg ha)⟩

/-- A report makes the interface send again while ring 1 is above its low mark. -/
theorem iwm_oactive_above_lomark :
    ∃ s s' : RingRun Unit, Reach RingRunInit (ringStep fun _ b => b) Any s ∧
      ringStep (fun _ b => b) s (.report 0) = some s' ∧ s.sc.oactive = true ∧
      s'.sc.oactive = false ∧ txRingLomark < (s'.sc.txq 1).queued := by
  have hstart : RingsFilled emptyRings 0 0 := ⟨.init emptyRings_init, rfl, rfl, rfl, rfl⟩
  have hring1 : ∀ b ≤ txRingHimark, ∃ s, RingsFilled s 0 b ∧ s.sc.qfullmsk = 0 := by
    intro b
    induction b with
    | zero => exact fun _ => ⟨_, hstart, rfl⟩
    | succ b ih =>
      intro hb
      obtain ⟨s, hs, hmask⟩ := ih (Nat.le_of_succ_le hb)
      obtain ⟨s', hs', -, hmask'⟩ := hs.background hmask hb
      exact ⟨s', hs', hmask'⟩
  have hring0 : ∀ a ≤ txRingHimark, ∃ s, RingsFilled s a 193 ∧ s.sc.qfullmsk = 0 := by
    intro a
    induction a with
    | zero => exact fun _ => hring1 193 (by decide)
    | succ a ih =>
      intro ha
      obtain ⟨s, hs, hmask⟩ := ih (Nat.le_of_succ_le ha)
      obtain ⟨s', hs', -, hmask'⟩ := hs.mgmt hmask
      exact ⟨s', hs', hmask'.trans (if_neg (Nat.not_lt.mpr ha))⟩
  have hreports : ∀ k ≤ 33, ∃ s, RingsFilled s (225 - k) 193 ∧ s.sc.qfullmsk = 1 ∧
      s.sc.oactive = true := by
    intro k
    induction k with
    | zero =>
      intro _
      obtain ⟨s1, hs1, hmask1⟩ := hring0 txRingHimark (Nat.le_refl _)
      obtain ⟨s2, hs2, -, hmask2⟩ := hs1.mgmt hmask1
      rw [if_pos (Nat.lt_succ_self _)] at hmask2
      have hround : ringStep (fun _ b => b) s2 (.round false busDmamapLoadMbuf none) =
          some { s2 with sc := { s2.sc with oactive := true } } := by
        rw [ringStep, iwmStartRound, if_pos (by rw [hmask2]; decide), map_some, drop_length,
          foldl_nil]
      exact ⟨_, ⟨.step hs2.reach trivial hround, hs2.ring0, hs2.ring1, hs2.niVlan, hs2.wmeAcm⟩,
        hmask2, rfl⟩
    | succ k ih =>
      intro hk
      obtain ⟨s, hs, hmask, hoactive⟩ := ih (Nat.le_of_succ_le hk)
      rw [show 225 - k = 225 - (k + 1) + 1 by omega] at hs
      obtain ⟨s', -, hs', hstate⟩ := hs.report hmask hoactive
      rw [if_neg (by rw [txRingLomark]; omega)] at hstate
      exact ⟨s', hs', hstate.2, hstate.1⟩
  obtain ⟨s, hs, hmask, hoactive⟩ := hreports 33 (Nat.le_refl _)
  obtain ⟨s', hstep, hs', hstate⟩ := RingsFilled.report (a := 191) hs hmask hoactive
  exact ⟨s, s', hs.reach, hstep, hoactive, hstate, by rw [hs'.ring1]; decide⟩

end Samples

end Net80211.Iwm
