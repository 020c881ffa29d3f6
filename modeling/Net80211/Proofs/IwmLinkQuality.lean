import Net80211.Iwm.LinkQuality

/-!
# The rate table of the firmware

`Orderly` are the rate sets for which the table of `iwm_setrates` is the list of rates it is
meant to be. The hardware lists the CCK rates before the OFDM rates, so that 11 Mbit/s comes
behind 9 and 6 Mbit/s in the table, which goes through them from the end.

The second part is about the driver: a table is sent when the interface comes to
`IEEE80211_S_RUN`, for rate 0 of the node, and never again. So it is right as long as AMRR has no
reason to leave that rate when the timer fires (`RateOk`), and wrong after the first time it has.
-/

namespace Net80211.Iwm

open Lib List Option

/-! ## The table for a rate -/

/-- The entry of the table for a rate of the hardware. -/
def lqEntry (ridx : Nat) : UInt32 :=
  if ridx < ridxOfdm then (hwRate ridx).plcp ||| rateMcsAntAMsk ||| rateMcsCckMsk
    else (hwRate ridx).plcp ||| rateMcsAntAMsk

/-- A legacy rate of the hardware which is among the first rates of the node, up to `txrate`. -/
def Known (rs : Rateset) (txrate ridx : Nat) : Prop :=
  (hwRate ridx).plcp ≠ rateInvmPlcp ∧ ∃ i ≤ txrate, (hwRate ridx).rate = rateAt rs i

/-- The table lists the known rates, the fastest first, without repetition before the filler, and
begins with the rate of the node. -/
def TableOk (rs : Rateset) (txrate : Nat) (table : List UInt32) : Prop :=
  ∃ l : List Nat, table = lqFill (l.map lqEntry) ∧
    l.Pairwise (fun r r' => (hwRate r').rate < (hwRate r).rate) ∧
    (∀ ridx, ridx ∈ l ↔ Known rs txrate ridx) ∧
    l.head?.map (fun r => (hwRate r).rate) = some (rateAt rs txrate)

theorem searchRate_iff (rs : Rateset) (rate : UInt8) (n : Nat) :
    searchRate rs rate n = true ↔ ∃ i ≤ n, rate = rateAt rs i := by
  induction n with
  | zero =>
    rw [searchRate, beq_iff_eq]
    refine ⟨fun h => ⟨0, Nat.le_refl _, h⟩, fun ⟨i, hi, h⟩ => ?_⟩
    rw [Nat.le_zero.mp hi] at h
    exact h
  | succ n ih =>
    rw [searchRate, Bool.or_eq_true, beq_iff_eq, ih]
    constructor
    · rintro (h | ⟨i, hi, h⟩)
      · exact ⟨n + 1, Nat.le_refl _, h⟩
      · exact ⟨i, Nat.le_succ_of_le hi, h⟩
    · rintro ⟨i, hi, h⟩
      rcases Nat.lt_or_eq_of_le hi with hlt | rfl
      · exact .inr ⟨i, Nat.le_of_lt_succ hlt, h⟩
      · exact .inl h

theorem plcp_ne_zero (ridx : Nat) : (hwRate ridx).plcp ≠ 0 := by
  by_cases h : ridx < 13
  · have hall : ∀ ridx < 13, (hwRate ridx).plcp ≠ 0 := by decide
    exact hall ridx h
  · rw [hwRate, getD_eq_default _ _ (Nat.le_of_not_lt h)]
    decide

variable {ridx : Nat}

theorem lt_of_legacy (h : (hwRate ridx).plcp ≠ rateInvmPlcp) : ridx < 12 := by
  by_contra hge
  rcases Nat.eq_or_lt_of_not_lt hge with rfl | hlt
  · exact h rfl
  · exact h (congrArg HwRate.plcp (getD_eq_default _ _ hlt))

theorem lqTab_ne_zero_iff (rs : Rateset) (txrate ridx : Nat) :
    lqTab rs txrate ridx ≠ 0 ↔ Known rs txrate ridx := by
  rw [Known, ← searchRate_iff, lqTab]
  split
  · next h => exact iff_of_true (plcp_ne_zero ridx) h
  · next h => exact iff_of_false (fun hne => hne rfl) h

variable {rs : Rateset} {txrate : Nat} {l : List Nat} {chan5 : Bool}

theorem lqTab_of_ne_zero (h : lqTab rs txrate ridx ≠ 0) :
    lqTab rs txrate ridx = (hwRate ridx).plcp := by
  rw [lqTab] at h ⊢
  split
  · rfl
  · next hne => rw [if_neg hne] at h; exact absurd rfl h

/-- The rates that `iwm_setrates` finds below `n`, from the top. -/
def foundRates (rs : Rateset) (txrate ridxMin n : Nat) : List Nat :=
  (range n).reverse.filter fun ridx => decide (ridxMin ≤ ridx) && lqTab rs txrate ridx != 0

theorem mem_foundRates {ridxMin n : Nat} :
    ridx ∈ foundRates rs txrate ridxMin n ↔ ridx < n ∧ ridxMin ≤ ridx ∧ Known rs txrate ridx := by
  rw [foundRates, mem_filter, mem_reverse, mem_range, Bool.and_eq_true, decide_eq_true_iff,
    bne_iff_ne, lqTab_ne_zero_iff]

/-- They come in the order of the hardware. -/
theorem pairwise_foundRates (rs : Rateset) (txrate ridxMin n : Nat) :
    (foundRates rs txrate ridxMin n).Pairwise (· > ·) :=
  (pairwise_reverse.mpr pairwise_lt_range).filter _

theorem foundRates_succ (rs : Rateset) (txrate ridxMin n : Nat) :
    foundRates rs txrate ridxMin (n + 1) =
      if ridxMin ≤ n ∧ lqTab rs txrate n ≠ 0 then n :: foundRates rs txrate ridxMin n
      else foundRates rs txrate ridxMin n := by
  rw [foundRates, range_succ, reverse_append, reverse_singleton, singleton_append, filter_cons,
    foundRates]
  simp only [Bool.and_eq_true, decide_eq_true_eq, bne_iff_ne]

/-- The loop appends the entries of the rates that are left. The table has more room than there are
rates. -/
theorem lqLoop_eq (rs : Rateset) (txrate ridxMin : Nat) : ∀ (n : Nat) (table : List UInt32),
    table.length + n ≤ lqMaxRetryNum →
      lqLoop rs txrate ridxMin n table = table ++ (foundRates rs txrate ridxMin n).map lqEntry := by
  intro n
  induction n with
  | zero => exact fun table _ => (append_nil table).symm
  | succ n ih =>
    intro table hlen
    have hroom : ¬ table.length ≥ lqMaxRetryNum := by omega
    rw [lqLoop, foundRates_succ]
    by_cases hmin : n < ridxMin
    · -- all rates that are left are below the first one for the band
      have hnil : foundRates rs txrate ridxMin n = [] := by
        refine eq_nil_iff_forall_not_mem.mpr fun r hr => ?_
        obtain ⟨hlt, hge, -⟩ := mem_foundRates.mp hr
        omega
      rw [if_pos (.inl hmin), if_neg (fun h => Nat.not_le_of_lt hmin h.1), hnil, map_nil,
        append_nil]
    rw [if_neg (not_or.mpr ⟨hmin, hroom⟩)]
    by_cases htab : lqTab rs txrate n = 0
    · simp only [htab, if_true, ne_eq, not_true_eq_false, and_false, if_false]
      exact ih table (by omega)
    · simp only [htab, if_false, ne_eq, not_false_eq_true, and_true, if_pos (Nat.le_of_not_lt hmin)]
      rw [ih _ (by rw [length_append, length_singleton]; omega), lqTab_of_ne_zero htab,
        append_assoc]
      rfl

theorem lqTable_eq (chan5 : Bool) (rs : Rateset) (txrate : Nat) : lqTable chan5 rs txrate =
      lqFill ((foundRates rs txrate (if chan5 then ridxOfdm else ridxCck) iwmRates.length).map
        lqEntry) := by
  rw [lqTable, lqLoop_eq _ _ _ _ _ (by decide), nil_append]

/-- Without repetitions, what stands before the filler can be read off a table. -/
theorem lqFill_inj {a b : List UInt32} (ha : a.Nodup) (hb : b.Nodup)
    (hla : a.length ≤ lqMaxRetryNum) (hlb : b.length ≤ lqMaxRetryNum) (hane : a ≠ [])
    (hbne : b ≠ []) (h : lqFill a = lqFill b) : a = b := by
  -- a shorter list would repeat its last entry where the longer one goes on
  have hshorter : ∀ {a b : List UInt32}, b.Nodup → b.length ≤ lqMaxRetryNum → a ≠ [] →
      lqFill a = lqFill b → ¬ a.length < b.length := by
    intro a b hb hlb hane h hlt
    have hpos := length_pos_iff.mpr hane
    have hlast : (lqFill a)[a.length]? = (lqFill a)[a.length - 1]? := by
      rw [lqFill, getElem?_append_right (Nat.le_refl _), Nat.sub_self, getElem?_replicate,
        if_pos (by omega), getElem?_append_left (by omega), getLastD_eq_getLast?,
        getLast?_eq_getElem?, getElem?_eq_getElem (by omega)]
      rfl
    have hfront : ∀ i < b.length, (lqFill b)[i]? = b[i]? := fun i hi => getElem?_append_left hi
    rw [h, hfront _ hlt, hfront _ (by omega), getElem?_eq_getElem hlt,
      getElem?_eq_getElem (by omega)] at hlast
    have heq := hb.getElem_inj_iff.mp (Option.some.inj hlast)
    omega
  have hlen : a.length = b.length :=
    Nat.le_antisymm (Nat.not_lt.mp (hshorter ha hla hbne h.symm))
      (Nat.not_lt.mp (hshorter hb hlb hane h))
  exact append_inj_left h hlen

/-- The rate of an entry. -/
def lqDecode (tab : UInt32) : Nat := ((range 12).find? fun ridx => lqEntry ridx == tab).getD 12

theorem lqDecode_lqEntry : ∀ ridx < 12, lqDecode (lqEntry ridx) = ridx := by decide +kernel

theorem map_lqDecode (hlegacy : ∀ r ∈ l, r < 12) : (l.map lqEntry).map lqDecode = l := by
  rw [List.map_map]
  exact (List.map_congr_left fun r hr => lqDecode_lqEntry r (hlegacy r hr)).trans (List.map_id l)

/-- The entries for known rates, without repetition, are distinct and fit into the table. -/
theorem entries_nodup (hl : l.Nodup) (hlegacy : ∀ r ∈ l, r < 12) :
    (l.map lqEntry).Nodup ∧ (l.map lqEntry).length ≤ lqMaxRetryNum := by
  constructor
  · refine hl.map_on fun a ha b hb heq => ?_
    rw [← lqDecode_lqEntry a (hlegacy a ha), heq, lqDecode_lqEntry b (hlegacy b hb)]
  · have hsub := (List.Nodup.subperm hl fun r hr => mem_range.mpr (hlegacy r hr)).length_le
    rw [length_range] at hsub
    rw [length_map]
    exact Nat.le_trans hsub (by decide)

/-- The rate sets for which the table is as it should be: no CCK rates on a channel at 5 GHz; 11
Mbit/s not together with 6 or 9 Mbit/s; and the rate of the node is known and the fastest of the
known ones. -/
def Orderly (chan5 : Bool) (rs : Rateset) (txrate : Nat) : Prop :=
  (chan5 = true → ∀ ridx, Known rs txrate ridx → ridxOfdm ≤ ridx) ∧
  (Known rs txrate 3 → ¬ Known rs txrate 4 ∧ ¬ Known rs txrate 5) ∧
  ∃ ridx, Known rs txrate ridx ∧ (hwRate ridx).rate = rateAt rs txrate ∧
    ∀ ridx', Known rs txrate ridx' → (hwRate ridx').rate ≤ (hwRate ridx).rate

theorem rel_of_descending {R : Nat → Nat → Prop} (hl : l.Pairwise R) (hdesc : l.Pairwise (· > ·))
    {a b : Nat} (ha : a ∈ l) (hb : b ∈ l) (hlt : b < a) : R a b := by
  induction hl with
  | nil => cases ha
  | @cons c l hc _ ih =>
    obtain ⟨hgt, hdesc⟩ := pairwise_cons.mp hdesc
    rcases mem_cons.mp ha with rfl | ha'
    · rcases mem_cons.mp hb with rfl | hb'
      · exact absurd hlt (Nat.lt_irrefl _)
      · exact hc b hb'
    · rcases mem_cons.mp hb with rfl | hb'
      · exact absurd hlt (Nat.not_lt_of_gt (hgt a ha'))
      · exact ih hdesc ha' hb'

/-- The order of the hardware is the order of the rates, but for two pairs. -/
theorem rate_lt_of_lt : ∀ a < 12, ∀ b < a, (hwRate b).rate < (hwRate a).rate ∨ b = 3 ∧
    (a = 4 ∨ a = 5) := by decide +kernel

theorem Orderly.of_tableOk (h : TableOk rs txrate (lqTable chan5 rs txrate)) :
    Orderly chan5 rs txrate := by
  obtain ⟨l, htable, hdesc, hmem, hhead⟩ := h
  rw [lqTable_eq] at htable
  generalize hk :
    foundRates rs txrate (if chan5 then ridxOfdm else ridxCck) iwmRates.length = k at htable
  have hkmem : ∀ r, r ∈ k ↔ r < 13 ∧ (if chan5 then ridxOfdm else ridxCck) ≤ r ∧
      Known rs txrate r := by
    intro r
    rw [← hk]
    exact mem_foundRates
  have hkdesc : k.Pairwise (· > ·) := hk ▸ pairwise_foundRates ..
  have hlnodup : l.Nodup := by
    refine hdesc.imp fun {r r'} hlt heq => ?_
    rw [heq] at hlt
    exact UInt8.lt_irrefl _ hlt
  have hknodup : k.Nodup := hkdesc.imp fun hgt => Nat.ne_of_gt hgt
  have hllegacy : ∀ r ∈ l, r < 12 := fun r hr => lt_of_legacy ((hmem r).mp hr).1
  have hklegacy : ∀ r ∈ k, r < 12 := fun r hr => lt_of_legacy ((hkmem r).mp hr).2.2.1
  obtain ⟨hlmap, hllen⟩ := entries_nodup hlnodup hllegacy
  obtain ⟨hkmap, hklen⟩ := entries_nodup hknodup hklegacy
  obtain ⟨r0, rest, hl⟩ : ∃ r0 rest, l = r0 :: rest := by
    cases l with
    | nil => cases hhead
    | cons r0 rest => exact ⟨r0, rest, rfl⟩
  have hr0 : r0 ∈ l := hl ▸ mem_cons_self
  have hkne : k ≠ [] := by
    -- an empty table is all zeros
    rintro rfl
    rw [hl] at htable
    have hfirst := congrArg head? htable
    have hzero : lqEntry r0 = 0 := (Option.some.inj hfirst).symm
    have hne : ∀ r < 12, lqEntry r ≠ 0 := by decide +kernel
    exact hne r0 (hllegacy r0 hr0) hzero
  have hlne : l.map lqEntry ≠ [] := fun h => ne_nil_of_mem hr0 (map_eq_nil_iff.mp h)
  have hmap := lqFill_inj hkmap hlmap hklen hllen (fun h => hkne (map_eq_nil_iff.mp h)) hlne htable
  have heq : k = l := by rw [← map_lqDecode hklegacy, hmap, map_lqDecode hllegacy]
  subst heq
  -- both orders at once: the faster rate has the higher index
  have hboth := fun {a b} => rel_of_descending hdesc hkdesc (a := a) (b := b)
  refine ⟨fun hchan r hr => ?_, fun h3 => ⟨fun h4 => ?_, fun h5 => ?_⟩, r0, (hmem r0).mp hr0, ?_,
    fun r hr => ?_⟩
  · have hge := ((hkmem r).mp ((hmem r).mpr hr)).2.1
    rw [hchan] at hge
    exact hge
  · exact absurd (hboth ((hmem 4).mpr h4) ((hmem 3).mpr h3) (by decide)) (by decide)
  · exact absurd (hboth ((hmem 5).mpr h5) ((hmem 3).mpr h3) (by decide)) (by decide)
  · rw [hl] at hhead
    exact Option.some.inj hhead
  · have hin : r ∈ r0 :: rest := hl ▸ (hmem r).mpr hr
    rcases mem_cons.mp hin with rfl | hrest
    · exact UInt8.le_refl _
    · rw [hl] at hdesc
      exact UInt8.le_of_lt ((pairwise_cons.mp hdesc).1 r hrest)

theorem Orderly.tableOk (h : Orderly chan5 rs txrate) :
    TableOk rs txrate (lqTable chan5 rs txrate) := by
  obtain ⟨hcck, h11, r0, hr0, hrate, hmax⟩ := h
  have hmem : ∀ r, r ∈ foundRates rs txrate (if chan5 then ridxOfdm else ridxCck) iwmRates.length ↔
      Known rs txrate r := by
    intro r
    rw [mem_foundRates]
    refine ⟨fun hr => hr.2.2, fun hr => ⟨Nat.lt_succ_of_lt (lt_of_legacy hr.1), ?_, hr⟩⟩
    cases chan5 with
    | true => exact hcck rfl r hr
    | false => exact Nat.zero_le r
  have hdesc : (foundRates rs txrate (if chan5 then ridxOfdm else ridxCck) iwmRates.length).Pairwise
      fun r r' => (hwRate r').rate < (hwRate r).rate := by
    refine (pairwise_foundRates rs txrate _ _).imp_of_mem fun {a b} ha hb hgt => ?_
    rcases rate_lt_of_lt a (lt_of_legacy ((hmem a).mp ha).1) b hgt with hlt | ⟨rfl, rfl | rfl⟩
    · exact hlt
    · exact absurd ((hmem 4).mp ha) (h11 ((hmem 3).mp hb)).1
    · exact absurd ((hmem 5).mp ha) (h11 ((hmem 3).mp hb)).2
  refine ⟨_, lqTable_eq chan5 rs txrate, hdesc, hmem, ?_⟩
  generalize foundRates rs txrate (if chan5 then ridxOfdm else ridxCck) iwmRates.length =
    k at hmem hdesc
  cases k with
  | nil => exact absurd ((hmem r0).mpr hr0) not_mem_nil
  | cons r rest =>
    refine congrArg some
      (Eq.trans (UInt8.le_antisymm (hmax r ((hmem r).mp mem_cons_self)) ?_) hrate)
    rcases mem_cons.mp ((hmem r0).mpr hr0) with rfl | hrest
    · exact UInt8.le_refl _
    · exact UInt8.le_of_lt ((pairwise_cons.mp hdesc).1 r0 hrest)

/-- The first rate of the node is one that the hardware can send on the channel. -/
def FirstRate (chan5 : Bool) (rs : Rateset) : Prop :=
  ∃ ridx, ridx < 12 ∧ (if chan5 then ridxOfdm else ridxCck) ≤ ridx ∧
    (hwRate ridx).rate = rateAt rs 0

instance decidableFirstRate (chan5 : Bool) (rs : Rateset) : Decidable (FirstRate chan5 rs) :=
  inferInstanceAs (Decidable (∃ ridx, ridx < 12 ∧ _))

/-- The table for the first rate of the node. -/
theorem orderly_zero_iff : Orderly chan5 rs 0 ↔ FirstRate chan5 rs := by
  have hinj : ∀ a < 12, ∀ b < 12, (hwRate a).rate = (hwRate b).rate → a = b := by decide +kernel
  have hlegacy : ∀ a < 12, (hwRate a).plcp ≠ rateInvmPlcp := by decide +kernel
  have hrate : ∀ {r}, Known rs 0 r → (hwRate r).rate = rateAt rs 0 := by
    rintro r ⟨-, i, hi, h⟩
    rw [h, Nat.le_zero.mp hi]
  have huniq : ∀ {r r'}, Known rs 0 r → Known rs 0 r' → r = r' := fun hr hr' =>
    hinj _ (lt_of_legacy hr.1) _ (lt_of_legacy hr'.1) ((hrate hr).trans (hrate hr').symm)
  constructor
  · rintro ⟨hcck, -, r, hr, -⟩
    refine ⟨r, lt_of_legacy hr.1, ?_, hrate hr⟩
    cases chan5 with
    | true => exact hcck rfl r hr
    | false => exact Nat.zero_le r
  · rintro ⟨r, hlt, hge, heq⟩
    have hr : Known rs 0 r := ⟨hlegacy r hlt, 0, Nat.le_refl _, heq⟩
    refine ⟨fun hchan r' hr' => ?_, fun h3 => ⟨fun h4 => ?_, fun h5 => ?_⟩, r, hr, heq,
      fun r' hr' => ?_⟩
    · rw [huniq hr' hr]
      rw [hchan] at hge
      exact hge
    · exact absurd (huniq h3 h4) (by decide)
    · exact absurd (huniq h3 h5) (by decide)
    · rw [huniq hr' hr]
      exact UInt8.le_refl _

/-! ## Runs -/

/-- The last table, if there is one. -/
def lastSent : List RateEvent → Option LqCmd
  | [] => none
  | .sent lq :: _ => some lq
  | .chose _ _ :: events => lastSent events

/-- The last table is right for the rate of the node, and whenever the rate changed, a table was
sent after that. -/
def RateSoftc.Follows (sc : RateSoftc) : Prop :=
  (∃ lq, lastSent sc.events = some lq ∧ TableOk sc.rates sc.txrate lq.rsTable) ∧
  ∀ later old new earlier, sc.events = later ++ .chose old new :: earlier → old ≠ new →
  ∃ lq, .sent lq ∈ later

/-- AMRR goes up from the first rate: more than ten frames, less than a tenth of them retried, as
many good periods as it takes, and a second rate. -/
def AmrrRises (amn : AmrrNode) (nrates : UInt8) : Prop :=
  amn.txcnt > 10 ∧ amn.retrycnt < amn.txcnt / 10 ∧ amn.success + 1 ≥ amn.successThreshold ∧
    1 ≠ nrates.toNat

instance decidableAmrrRises (amn : AmrrNode) (nrates : UInt8) : Decidable (AmrrRises amn nrates) :=
  inferInstanceAs (Decidable (_ ∧ _))

theorem amrrChoose_zero (amrr : Amrr) (nrates : UInt8) (amn : AmrrNode) :
    (amrrChoose amrr nrates 0 amn).1 = if AmrrRises amn nrates then 1 else 0 := by
  rw [amrrChoose]
  by_cases hgood : (amn.isSuccess && amn.isEnough) = true
  · have hcnt : amn.txcnt > 10 ∧ amn.retrycnt < amn.txcnt / 10 := by
      simpa [AmrrNode.isSuccess, AmrrNode.isEnough, and_comm] using hgood
    rw [if_pos hgood, amrrSuccess]
    by_cases hup : amn.success + 1 ≥ amn.successThreshold ∧ 0 + 1 ≠ nrates.toNat
    · rw [if_pos hup, if_pos ⟨hcnt.1, hcnt.2, hup⟩]
    · rw [if_neg hup, if_neg fun h => hup h.2.2]
  · have hno : ¬ AmrrRises amn nrates := fun h =>
      hgood (by simpa [AmrrNode.isSuccess, AmrrNode.isEnough] using ⟨h.2.1, h.1⟩)
    rw [if_neg hgood, if_neg hno]
    -- there is none below the first rate
    cases hbad : amn.isFailure with
    | true | false => rfl

/-- A table is only sent for a first rate that can be sent on the channel, and AMRR finds no
reason to leave that rate in `IEEE80211_S_RUN`, or is not asked. -/
def RateOk (sc : RateSoftc) : RateOp → Prop
  | .run true => FirstRate sc.chan5 sc.rates
  | .calibTimeout => sc.state = .run → sc.fixedRate = none → sc.opmode = .sta →
      ¬ AmrrRises sc.amn sc.rates.rsNrates
  | _ => True

instance decidableRateOk (sc : RateSoftc) : ∀ op, Decidable (RateOk sc op)
  | .run true => inferInstanceAs (Decidable (FirstRate _ _))
  | .calibTimeout => inferInstanceAs (Decidable (_ → _ → _ → _))
  | .run false | .config _ _ _ | .join _ _ _ | .stopCalib | .leave _ | .txDone _ => .isTrue trivial

/-- In `IEEE80211_S_RUN`: the last table is that for the first rate, which is still the rate. -/
structure RateInv (sc : RateSoftc) : Prop where
  table : ∃ useprot, lastSent sc.events = some (setratesCmd useprot sc.chan5 sc.rates 0)
  quiet : ∀ old new, .chose old new ∈ sc.events → old = new
  txrate : sc.txrate = 0
  first : FirstRate sc.chan5 sc.rates

variable {sc sc' : RateSoftc} {op : RateOp}

theorem RateInv.follows (h : RateInv sc) : sc.Follows := by
  obtain ⟨useprot, hlast⟩ := h.table
  refine ⟨⟨_, hlast, ?_⟩, fun later old new earlier hev hne => ?_⟩
  · rw [h.txrate]
    exact (orderly_zero_iff.mpr h.first).tableOk
  · refine absurd (h.quiet old new ?_) hne
    rw [hev]
    exact mem_append_right _ mem_cons_self

/-- The timer in `IEEE80211_S_RUN`: AMRR is not asked, or what it says is noted. -/
theorem calibTimeout_cases (h : RateInv sc) :
    calibTimeout sc = sc ∧ ¬ (sc.fixedRate = none ∧ sc.opmode = .sta) ∨
      (sc.fixedRate = none ∧ sc.opmode = .sta) ∧ ∃ amn txrate,
        txrate = (if AmrrRises sc.amn sc.rates.rsNrates then 1 else 0) ∧
        calibTimeout sc = { sc with txrate, amn, events := .chose 0 txrate :: sc.events } := by
  rw [calibTimeout]
  split
  · next hauto =>
    refine .inr ⟨hauto, (amrrChoose sc.amrr sc.rates.rsNrates 0 sc.amn).2, _,
      amrrChoose_zero sc.amrr sc.rates.rsNrates sc.amn, ?_⟩
    rw [h.txrate]
  · next hauto => exact .inl ⟨rfl, hauto⟩

/-- A step that meets the condition keeps the table right, and one that does not leaves a wrong
one. -/
theorem RateInv.step (h : sc.state = .run → RateInv sc) (hs : rateStep sc op = some sc')
    (hrun : sc'.state = .run) : (RateOk sc op → RateInv sc') ∧ (sc'.Follows → RateOk sc op) := by
  cases op with
  | config opmode fixedRate useprot | stopCalib | txDone failack =>
    cases hs
    obtain ⟨htable, hquiet, htx, hfirst⟩ := h hrun
    exact ⟨fun _ => ⟨htable, hquiet, htx, hfirst⟩, fun _ => trivial⟩
  | join chan5 rates txrate | leave nstate =>
    obtain ⟨hne, hs⟩ := ite_none_left_eq_some.mp hs
    cases hs
    exact absurd hrun hne
  | run sent =>
    cases hs
    cases sent with
    | true =>
      refine ⟨fun hok => ⟨⟨sc.useprot, rfl⟩, fun old new hmem => ?_, rfl, hok⟩, ?_⟩
      · obtain hmem := (mem_cons.mp hmem).resolve_left (by simp)
        split at hmem
        · next hstate => exact (h hstate).quiet old new hmem
        · cases hmem
      · rintro ⟨⟨lq, hlq, hok⟩, -⟩
        cases hlq
        exact orderly_zero_iff.mp (Orderly.of_tableOk hok)
    | false =>
      obtain ⟨htable, hquiet, -, hfirst⟩ := h hrun
      exact ⟨fun _ => ⟨htable, hquiet, rfl, hfirst⟩, fun _ => trivial⟩
  | calibTimeout =>
    obtain ⟨-, rfl⟩ := of_guard hs
    have hstate : sc.state = .run := by
      rw [calibTimeout] at hrun
      split at hrun
      · exact hrun
      · exact hrun
    have hinv := h hstate
    rcases calibTimeout_cases hinv with ⟨heq, hauto⟩ | ⟨hauto, amn, txrate, htx, heq⟩
    · rw [heq]
      exact ⟨fun _ => hinv, fun _ _ hfixed hsta => absurd ⟨hfixed, hsta⟩ hauto⟩
    · rw [heq]
      by_cases hup : AmrrRises sc.amn sc.rates.rsNrates
      · rw [if_pos hup] at htx
        refine ⟨fun hok => absurd hup (hok hstate hauto.1 hauto.2), fun hfol => ?_⟩
        obtain ⟨lq, hlq⟩ := hfol.2 [] 0 txrate sc.events rfl (by omega)
        cases hlq
      · rw [if_neg hup] at htx
        refine ⟨fun _ => ⟨hinv.table, fun old new hmem => ?_, htx, hinv.first⟩, fun _ _ _ _ => hup⟩
        rcases mem_cons.mp hmem with heq | hmem
        · cases heq
          exact htx.symm
        · exact hinv.quiet old new hmem

theorem rate_inv (h : Reach RateInit rateStep RateOk sc) : sc.state = .run → RateInv sc := by
  refine Reach.invariant (fun sc hi hrun => ?_)
    (fun _ _ _ hinv hok hs hrun => (RateInv.step hinv hs hrun).1 hok) h
  rw [hi.state] at hrun
  cases hrun

/-- In `IEEE80211_S_RUN` the table follows the rate in every run whose steps meet the condition, and
the first step that does not meet it leaves a table that does not. The table for a rate is what
it should be exactly if the rates up to it are `Orderly`. -/
theorem rate_table_follows_iff (h : Reach RateInit rateStep RateOk sc) :
    (sc.state = .run → sc.Follows) ∧
    (∀ op sc', rateStep sc op = some sc' → sc'.state = .run → (sc'.Follows ↔ RateOk sc op)) ∧
    ∀ chan5 rs txrate, TableOk rs txrate (lqTable chan5 rs txrate) ↔ Orderly chan5 rs txrate := by
  refine ⟨fun hrun => (rate_inv h hrun).follows, fun op sc' hs hrun => ?_,
    fun chan5 rs txrate => ⟨Orderly.of_tableOk, Orderly.tableOk⟩⟩
  obtain ⟨hkeeps, hbreaks⟩ := RateInv.step (rate_inv h) hs hrun
  exact ⟨hbreaks, fun hok => (hkeeps hok).follows⟩

/-- The rates of an access point for 802.11g, in the order of `ieee80211_fix_rate`. -/
def rates11g : Rateset := ⟨12, #v[0x82, 0x84, 0x8b, 12, 18, 0x96, 24, 36, 48, 72, 96, 108, 0, 0, 0]⟩

def attached : RateSoftc :=
  { state := .init, opmode := .sta, fixedRate := none, useprot := false, chan5 := false,
    rates := rates11g, txrate := 0
    amrr := ⟨1, 15⟩, amn := amrrNodeInit ⟨1, 15⟩, calib := false, events := [] }

theorem attached_init : RateInit attached := ⟨rfl, rfl⟩

/-- Eleven frames that are all retried leave the first rate; with a fixed rate AMRR is not asked. -/
theorem rate_table_follows_iff_sample :
    ∃ sc, Reach RateInit rateStep RateOk sc ∧
      sc.events = [.chose 0 0, .sent (setratesCmd false false rates11g 0)] ∧ sc.amn.txcnt = 11 ∧
      sc.Follows := by
  obtain ⟨sc, hr, hrun, hev, htx⟩ : ∃ sc, Reach RateInit rateStep RateOk sc ∧ sc.state = .run ∧
      sc.events = [.chose 0 0, .sent (setratesCmd false false rates11g 0)] ∧ sc.amn.txcnt = 11 :=
    Reach.of_run
      (.run true :: replicate 11 (.txDone true) ++ [.calibTimeout, .config .sta (some 3) false] ++
      replicate 11 (.txDone false) ++ [.calibTimeout]) attached_init (by decide +kernel)
      (by decide +kernel)
  exact ⟨sc, hr, hev, htx, (rate_table_follows_iff hr).1 hrun⟩

/-- After eleven frames AMRR goes to the second rate, and the firmware keeps the table of the first.
And a table for 11 Mbit/s, which is the sixth rate, would begin with 9 Mbit/s. -/
theorem rate_table_stale : (∃ sc, Reach RateInit rateStep Any sc ∧ sc.state = .run ∧ sc.txrate = 1 ∧
      sc.events = [.chose 0 1, .sent (setratesCmd false false rates11g 0)] ∧ ¬ sc.Follows) ∧
    (rateAt rates11g 5 = 22 ∧ (lqTable false rates11g 5).head? = some (lqEntry 5) ∧
      (hwRate 5).rate = 18) ∧
    ¬ TableOk rates11g 5 (lqTable false rates11g 5) := by
  refine ⟨?_, by decide +kernel, fun hok => ?_⟩
  · obtain ⟨sc, hr, hrun, htx, hev⟩ : ∃ sc, Reach RateInit rateStep Any sc ∧ sc.state = .run ∧
      sc.txrate = 1 ∧
        sc.events = [.chose 0 1, .sent (setratesCmd false false rates11g 0)] :=
      Reach.of_run (.run true :: replicate 11 (.txDone false) ++ [.calibTimeout]) attached_init
        (runOk_any _ _)
        (by decide +kernel)
    refine ⟨sc, hr, hrun, htx, hev, fun hfol => ?_⟩
    obtain ⟨lq, hlq⟩ := hfol.2 [] 0 1 _ hev (by decide)
    cases hlq
  · obtain ⟨-, h11, -⟩ := Orderly.of_tableOk hok
    exact (h11 ⟨by decide, 5, by decide, by decide⟩).1 ⟨by decide, 3, by decide, by decide⟩

end Net80211.Iwm
