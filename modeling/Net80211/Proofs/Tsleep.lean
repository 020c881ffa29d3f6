import Mathlib.Data.List.TakeWhile
import Net80211.Lib.Run
import Net80211.Osal.Tsleep

/-!
# How a sleep ends

Both ports compare the deadline with a clock at every poll. On FreeRTOS the difference is a number
without sign, so a deadline that was passed between two polls is one far ahead, and the milliseconds
of a long timeout wrap in 32 bits (`tsleep_on_time_iff`). On embox the deadline is counted on one
clock in whole milliseconds and looked for on another one, so it is off by what the two differ in
(`tsleepEmbox_on_time_iff`).

A wakeup before the sleep is stored, if no other thread has a slot with the identifier and one
of sixteen places is free. Old wakeups keep their places, as nobody waits for them.
-/

namespace Net80211.Osal

open Lib List Option

/-! ## Deadlines -/

variable {τ : Type} {poll due : τ × Bool → Option SleepRc}

/-- When the wait should end, for a deadline. -/
def duePoll [LE τ] [DecidableLE τ] (deadline : τ) (p : τ × Bool) : Option SleepRc :=
  if p.2 then some .zero else if deadline ≤ p.1 then some .ewouldblock else none

/-- Two waits end alike if they do at the first poll that ends the second one, and the first one
has not ended before. -/
theorem firstReturn_eq_iff (ps : List (τ × Bool)) : firstReturn poll ps = firstReturn due ps ↔
    (∀ p ∈ ps.takeWhile (fun p => !(due p).isSome), poll p = none) ∧
      ∀ p ∈ ps.find? (fun p => (due p).isSome), poll p = due p := by
  induction ps with
  | nil => exact iff_of_true rfl ⟨forall_mem_nil _, (fun p hp => by cases hp)⟩
  | cons p ps ih =>
    rw [firstReturn, firstReturn]
    cases hd : due p with
    | none =>
      rw [takeWhile_cons_of_pos (by simp [hd]), find?_cons_of_neg (by simp [hd]), forall_mem_cons]
      cases hp : poll p with
      | none =>
        have hinj : Function.Injective fun r : Nat × SleepRc => (r.1 + 1, r.2) := by
          rintro ⟨a, b⟩ ⟨c, d⟩ he
          simpa using he
        rw [(map_injective hinj).eq_iff, ih]
        simp
      | some rc => cases hr : firstReturn due ps <;> simp
    | some rc =>
      rw [takeWhile_cons_of_neg (by simp [hd]), find?_cons_of_pos (by simp [hd])]
      cases hp : poll p with
      | none => cases hr : firstReturn poll ps <;> simp [hd, hp]
      | some rc' => simp [hd, hp]

theorem isSome_duePoll [LE τ] [DecidableLE τ] (deadline : τ) (p : τ × Bool) :
    (duePoll deadline p).isSome = (p.2 || decide (deadline ≤ p.1)) := by
  rw [duePoll]
  cases p.2 with
  | true => rfl
  | false => by_cases h : deadline ≤ p.1 <;> simp [h]

/-! ## FreeRTOS -/

theorem toNat_pdTicksToMs (ticks : UInt64) :
    (pdTicksToMs ticks).toNat = ticks.toNat * 1000 % 2 ^ 64 / 1000 := by
  rw [pdTicksToMs, UInt64.toNat_div, UInt64.toNat_mul]
  rfl

/-- The cast to `int64_t` does nothing to a quotient. -/
theorem pdTicksToMs_le_zero (ticks : UInt64) : (pdTicksToMs ticks).toInt64 ≤ 0 ↔
    pdTicksToMs ticks = 0 := by
  have hlt : (pdTicksToMs ticks).toNat < 2 ^ 63 := by
    rw [toNat_pdTicksToMs]
    omega
  have hint : (pdTicksToMs ticks).toInt64.toInt = (pdTicksToMs ticks).toNat := by
    refine BitVec.toInt_eq_toNat_of_lt (x := (pdTicksToMs ticks).toBitVec) ?_
    show 2 * (pdTicksToMs ticks).toNat < 2 ^ 64
    omega
  rw [Int64.le_iff_toInt_le, hint, ← UInt64.toNat_inj]
  exact ⟨fun h => Int.le_antisymm h (Int.natCast_nonneg _) |> Int.ofNat.inj,
    fun h => by rw [h]; rfl⟩

/-- The ticks that `tsleep` waits for: the product has 32 bits. -/
theorem toNat_timoTicks (timo : Nat) : (timoTicks timo).toNat = timo * 1000 % 2 ^ 32 / 100 := by
  rw [timoTicks, pdMsToTicks, UInt64.toNat_div, UInt64.toNat_mul, UInt32.toNat_toUInt64,
    UInt32.toNat_div, UInt32.toNat_mul, UInt32.toNat_ofNat']
  show timo % 2 ^ 32 * 1000 % 2 ^ 32 / 100 * 1000 % 2 ^ 64 / 1000 = _
  rw [Nat.mod_mul_mod, Nat.mod_eq_of_lt (by omega), Nat.mul_div_cancel _ (by decide)]

/-- The ticks at which a wait for `deadline` ends: there is a deadline, and the clock is at it.
(After more than 10^16 ticks, 300000 years, the milliseconds of the difference are 0 again now and
then.) -/
def EndsAt (deadline t : Nat) : Prop :=
  deadline % 2 ^ 64 ≠ 0 ∧
    (t = deadline ∨ deadline + 10 ^ 16 < t ∧ (1000 * (t - deadline) + 999) % 2 ^ 64 < 1000)

/-- Nothing is left at the deadline, and before it there is. Behind it the difference has
wrapped. -/
theorem leftMs_eq_zero_iff {deadline t : Nat} (hsoon : deadline < t + 2 ^ 32) :
    (2 ^ 64 - t % 2 ^ 64 + deadline % 2 ^ 64) % 2 ^ 64 * 1000 % 2 ^ 64 / 1000 = 0 ↔
      t = deadline ∨ deadline + 10 ^ 16 < t ∧ (1000 * (t - deadline) + 999) % 2 ^ 64 < 1000 := by
  by_cases hlt : t < deadline
  · have hdiff : (2 ^ 64 - t % 2 ^ 64 + deadline % 2 ^ 64) % 2 ^ 64 = deadline - t := by omega
    rw [hdiff, Nat.mod_eq_of_lt (by omega), Nat.mul_div_cancel _ (by decide)]
    omega
  · obtain ⟨late, rfl⟩ := Nat.exists_eq_add_of_le (Nat.not_lt.mp hlt)
    obtain ⟨q, hq⟩ : ∃ q,
        (2 ^ 64 - (deadline + late) % 2 ^ 64 + deadline % 2 ^ 64) % 2 ^ 64 + late = 2 ^ 64 * q :=
      ⟨_, (Nat.mul_div_cancel' (Nat.dvd_of_mod_eq_zero (by omega))).symm⟩
    generalize (2 ^ 64 - (deadline + late) % 2 ^ 64 + deadline % 2 ^ 64) % 2 ^ 64 = left at hq
    rw [Nat.add_sub_cancel_left]
    have hwrap : left * 1000 % 2 ^ 64 / 1000 = 0 ↔ (1000 * late + 999) % 2 ^ 64 < 1000 := by
      have hsum : left * 1000 + 1000 * late = 2 ^ 64 * (1000 * q) := by omega
      generalize left * 1000 = u at hsum ⊢
      generalize 1000 * late = v at hsum ⊢
      generalize 1000 * q = k at hsum
      omega
    rw [hwrap]
    clear hwrap hq
    by_cases hlate : late ≤ 10 ^ 16
    · rw [Nat.mod_eq_of_lt (by omega)]
      omega
    · omega

theorem tsleepPoll_fired (start timo t : Nat) : tsleepPoll start timo (t, true) = some .zero := rfl

/-- A poll of `tsleep` in numbers without a bound. -/
theorem tsleepPoll_iff {start timo t : Nat} (htimo : 0 < timo) (hstart : start ≤ t) :
    tsleepPoll start timo (t, false) = some .ewouldblock ↔
      EndsAt (start + timo * 1000 % 2 ^ 32 / 100) t := by
  have hticks := toNat_timoTicks timo
  have hshort : timo * 1000 % 2 ^ 32 / 100 < 2 ^ 32 := by omega
  generalize timo * 1000 % 2 ^ 32 / 100 = ticks at hticks hshort ⊢
  have hsum : (UInt64.ofNat start + timoTicks timo).toNat = (start + ticks) % 2 ^ 64 := by
    rw [UInt64.toNat_add, UInt64.toNat_ofNat', hticks]
    omega
  have hzero : UInt64.ofNat start + timoTicks timo = 0 ↔ (start + ticks) % 2 ^ 64 = 0 := by
    rw [← UInt64.toNat_inj, hsum]
    rfl
  have hleft : pdTicksToMs (UInt64.ofNat start + timoTicks timo - UInt64.ofNat t) = 0 ↔
      t = start + ticks ∨
        start + ticks + 10 ^ 16 < t ∧ (1000 * (t - (start + ticks)) + 999) % 2 ^ 64 < 1000 := by
    rw [← UInt64.toNat_inj, toNat_pdTicksToMs, UInt64.toNat_sub, hsum, UInt64.toNat_ofNat']
    exact leftMs_eq_zero_iff (by omega)
  rw [EndsAt, ← hleft, ne_eq, ← hzero, tsleepPoll]
  simp only [if_neg (Nat.pos_iff_ne_zero.mp htimo), Bool.false_eq_true, if_false,
    pdTicksToMs_le_zero]
  by_cases h0 : UInt64.ofNat start + timoTicks timo = 0
  · simp [h0]
  · by_cases hl : pdTicksToMs (UInt64.ofNat start + timoTicks timo - UInt64.ofNat t) = 0 <;>
      simp [h0, hl]

theorem tsleepPoll_none_iff {start timo t : Nat} (htimo : 0 < timo) (hstart : start ≤ t) :
    tsleepPoll start timo (t, false) = none ↔ ¬ EndsAt (start + timo * 1000 % 2 ^ 32 / 100) t := by
  rw [← tsleepPoll_iff htimo hstart, tsleepPoll]
  simp only [Bool.false_eq_true, if_false]
  split
  · split <;> simp
  · simp

/-- Was a poll woken, or is it at or behind the deadline? -/
def isDue (deadline : Nat) (p : Nat × Bool) : Bool := p.2 || decide (deadline ≤ p.1)

/-- `tsleep` on FreeRTOS is on time, with a deadline `10 * timo` ticks behind the call, exactly if
no poll before it is at the deadline that the code has, and the first poll that is due was woken or
is at that deadline. Up to a timeout of 4294967 the two deadlines are one. -/
theorem tsleep_on_time_iff (start timo : Nat) (htimo : 0 < timo) (polls : List (Nat × Bool))
    (hpolls : ∀ p ∈ polls, start ≤ p.1) :
    (firstReturn (tsleepPoll start timo) polls =
        firstReturn (duePoll (start + 10 * timo)) polls ↔
      (∀ p ∈ polls.takeWhile (fun p => !isDue (start + 10 * timo) p),
        ¬ EndsAt (start + timo * 1000 % 2 ^ 32 / 100) p.1) ∧
      ∀ p ∈ polls.find? (isDue (start + 10 * timo)), p.2 = false →
        EndsAt (start + timo * 1000 % 2 ^ 32 / 100) p.1) ∧
    (timo ≤ 4294967 → (firstReturn (tsleepPoll start timo) polls =
        firstReturn (duePoll (start + 10 * timo)) polls ↔
      ∀ p ∈ polls.find? (isDue (start + 10 * timo)), p.2 = false →
      EndsAt (start + 10 * timo) p.1)) := by
  have hdue : (fun p => (duePoll (start + 10 * timo) p).isSome) = isDue (start + 10 * timo) :=
    funext fun p => isSome_duePoll _ p
  have hiff : firstReturn (tsleepPoll start timo) polls =
        firstReturn (duePoll (start + 10 * timo)) polls ↔
      (∀ p ∈ polls.takeWhile (fun p => !isDue (start + 10 * timo) p),
        ¬ EndsAt (start + timo * 1000 % 2 ^ 32 / 100) p.1) ∧
      ∀ p ∈ polls.find? (isDue (start + 10 * timo)), p.2 = false →
        EndsAt (start + timo * 1000 % 2 ^ 32 / 100) p.1 := by
    rw [firstReturn_eq_iff, hdue]
    simp only [isSome_duePoll]
    refine and_congr (forall₂_congr fun p hp => ?_) (forall₂_congr fun p hp => ?_)
    · obtain ⟨t, fired⟩ := p
      have hnot := mem_takeWhile_imp hp
      have hstart := hpolls _ ((takeWhile_sublist _).subset hp)
      simp only [Bool.not_eq_true', Bool.or_eq_false_iff] at hnot
      obtain rfl : fired = false := hnot.1
      exact tsleepPoll_none_iff htimo hstart
    · obtain ⟨t, fired⟩ := p
      have hstart := hpolls _ (mem_of_find?_eq_some hp)
      have hd := find?_some hp
      cases fired with
      | true => simp [tsleepPoll_fired, duePoll]
      | false =>
        have hle : start + 10 * timo ≤ t := by simpa [isDue] using hd
        rw [duePoll, if_neg Bool.false_ne_true, if_pos hle, tsleepPoll_iff htimo hstart]
        exact ⟨fun h _ => h, fun h => h rfl⟩
  refine ⟨hiff, fun hshort => hiff.trans ?_⟩
  rw [show timo * 1000 % 2 ^ 32 / 100 = 10 * timo by omega]
  refine and_iff_right fun p hp hends => ?_
  -- before the deadline nothing has run out
  have hnot := mem_takeWhile_imp hp
  simp only [isDue, Bool.not_eq_true', Bool.or_eq_false_iff, decide_eq_false_iff_not] at hnot
  rcases hends.2 with heq | hgt
  · omega
  · omega

/-- A call with a timeout of one, at the tick 5: polls at 5, 10 and at the deadline. -/
theorem tsleep_on_time_sample :
    firstReturn (tsleepPoll 5 1) [(5, false), (10, false), (15, false)] =
    some (2, .ewouldblock) := by
  have hat : EndsAt 15 15 := ⟨by decide, .inl rfl⟩
  rw [((tsleep_on_time_iff 5 1 (by decide) [(5, false), (10, false), (15, false)] (by decide)).2
    (by decide)).mpr (fun p hp _ => by cases hp; exact hat)]
  decide +kernel

/-- The tick counter jumps over the deadline, and `tsleep` does not end. A timeout of twelve hours
is over after seven ticks. -/
theorem tsleep_oversleeps :
    firstReturn (tsleepPoll 5 1) [(5, false), (14, false), (16, false), (10 ^ 15, false)] = none ∧
      firstReturn (duePoll (5 + 10 * 1)) [(5, false), (14, false), (16, false), (10 ^ 15, false)] =
        some (2, .ewouldblock) ∧
      firstReturn (tsleepPoll 5 4294968) [(5, false), (12, false)] = some (1, .ewouldblock) ∧
      firstReturn (duePoll (5 + 10 * 4294968)) [(5, false), (12, false)] = none := by
  decide +kernel

/-! ## embox -/

/-- `tsleep` on embox ends on time for every sequence of polls exactly if the realtime clock is
behind by what the call was into its millisecond. -/
theorem tsleepEmbox_on_time_iff (offset start : Int) (hstart : 0 ≤ start) (timo : Nat)
    (htimo : 0 < timo) : (∀ polls : List (Int × Bool), (∀ p ∈ polls, start ≤ p.1) →
        firstReturn (tsleepPollEmbox offset start timo) polls =
          firstReturn (duePoll (start + timo * 10000000)) polls) ↔
      offset + start % 1000000 = 0 := by
  have hpoll : ∀ t : Int, tsleepPollEmbox offset start timo (t, false) =
      if start + timo * 10000000 ≤ t + (offset + start % 1000000) then some .ewouldblock
        else none := by
    intro t
    rw [tsleepPollEmbox, if_neg (Nat.pos_iff_ne_zero.mp htimo)]
    simp only [Bool.false_eq_true, if_false]
    congr 1
    refine propext ?_
    omega
  constructor
  · intro h
    have hone : ∀ t, start ≤ t →
        (start + timo * 10000000 ≤ t + (offset + start % 1000000) ↔
        start + timo * 10000000 ≤ t) := by
      intro t ht
      have hrun := h [(t, false)] (by simpa using ht)
      simp only [firstReturn, hpoll, duePoll, Bool.false_eq_true, if_false] at hrun
      by_cases h1 : start + timo * 10000000 ≤ t + (offset + start % 1000000) <;>
        by_cases h2 : start + timo * 10000000 ≤ t <;> simp [h1, h2] at hrun ⊢
    -- A poll at the deadline, and one just before it.
    have hat := hone (start + timo * 10000000) (by omega)
    have hbefore := hone (start + timo * 10000000 - 1) (by omega)
    omega
  · intro hoff polls _
    have hfun : tsleepPollEmbox offset start timo = duePoll (start + timo * 10000000) := by
      funext ⟨t, fired⟩
      cases fired with
      | true => rfl
      | false =>
        rw [hpoll, hoff, Int.add_zero]
        rfl
    rw [hfun]

theorem tsleepEmbox_on_time_sample :
    firstReturn (tsleepPollEmbox 0 3000000 1) [(12000000, false), (13000000, false)] =
    some (1, .ewouldblock) := by
  rw [(tsleepEmbox_on_time_iff 0 3000000 (by decide) 1 (by decide)).mpr (by decide) _ (by decide)]
  decide +kernel

/-- The realtime clock is a year ahead: a timeout of ten seconds ends at the first poll. It is a
year behind: the timeout does not end for a minute. -/
theorem tsleepEmbox_off_time :
    firstReturn (tsleepPollEmbox 31536000000000000 0 1000) [(1000, false)] =
    some (0, .ewouldblock) ∧
      firstReturn (tsleepPollEmbox (-31536000000000000) 0 1000)
      [(10000000000, false), (60000000000, false)] = none := by
  decide +kernel

/-! ## Wakeups before the sleep -/

variable {ι : Type} [DecidableEq ι] {t t' : Tsleep ι} {ident : ι}

theorem tsleepEnter_leave (t : Tsleep ι) (thread : Nat) (ident : ι) :
    (tsleepLeave (tsleepEnter t thread ident) thread).map Prod.snd =
    some (decide (ident ∈ t.pending)) := by
  rw [tsleepEnter, tsleepConsumePending]
  by_cases h : ident ∈ t.pending <;> simp [h, tsleepLeave]

theorem mem_pending_wakeup (t : Tsleep ι) (ident other : ι) :
    other ∈ (wakeup t ident).pending ↔ other ∈ t.pending ∨
      other = ident ∧ (∀ s ∈ t.slots, s.ident ≠ ident) ∧ t.pending.length < tsleepPendingMax := by
  rw [wakeup]
  by_cases hany : t.slots.any (fun s => s.ident = ident) = true
  · rw [if_pos hany]
    obtain ⟨s, hs, hid⟩ := any_eq_true.mp hany
    exact ⟨.inl, fun h => h.resolve_right fun hn => hn.2.1 s hs (by simpa using hid)⟩
  · rw [if_neg hany]
    have hslots : ∀ s ∈ t.slots, s.ident ≠ ident := by simpa using hany
    by_cases hroom : t.pending.length < tsleepPendingMax
    · rw [if_pos hroom, mem_append, mem_singleton]
      exact or_congr_right (and_iff_left ⟨hslots, hroom⟩).symm
    · simp [hroom]

/-- A sleeper on another identifier leaves the stored wakeups for this one. -/
theorem mem_pending_enter (t : Tsleep ι) (thread : Nat) {other : ι} (hne : ident ≠ other) :
    ident ∈ (tsleepEnter t thread other).pending ↔ ident ∈ t.pending := by
  rw [tsleepEnter, tsleepConsumePending]
  by_cases h : other ∈ t.pending
  · obtain ⟨as, bs, hl, hnot⟩ := eq_append_cons_of_mem h
    have hidx : t.pending.idxOf other = as.length := by
      rw [hl, idxOf_append_of_notMem hnot, idxOf_cons_self]; rfl
    rw [if_pos h, hidx, hl]
    rcases eq_nil_or_concat bs with rfl | ⟨bs, last, rfl⟩
    · simp [hne]
    · have hlast : (as ++ other :: (bs ++ [last])).getLastD other = last := by
        rw [show as ++ other :: (bs ++ [last]) = (as ++ other :: bs) ++ [last] by simp,
          getLastD_concat]
      have hdrop : (as ++ last :: (bs ++ [last])).dropLast = as ++ last :: bs := by
        rw [show as ++ last :: (bs ++ [last]) = (as ++ last :: bs) ++ [last] by simp,
          dropLast_concat]
      simp only [concat_eq_append, hlast, set_append_right _ _ (Nat.le_refl _), Nat.sub_self,
        set_cons_zero, hdrop, mem_append, mem_cons, hne, false_or, not_mem_nil, or_false]
      exact or_congr_right or_comm
  · rw [if_neg h]

/-- What other threads do with other identifiers does not touch a stored wakeup. -/
theorem mem_pending_run (ops : List (TsleepOp ι))
    (hops : ∀ op ∈ ops, op ≠ .wakeup ident ∧ ∀ thread, op ≠ .enter thread ident) :
    ∀ {t t' : Tsleep ι}, runSteps tsleepStep t ops = some t' →
    (ident ∈ t'.pending ↔ ident ∈ t.pending) := by
  induction ops with
  | nil =>
    intro t t' hrun
    cases hrun
    rfl
  | cons op ops ih =>
    intro t t' hrun
    obtain ⟨t1, hstep, hrun⟩ := runSteps_cons hrun
    rw [ih (fun o ho => hops o (mem_cons_of_mem _ ho)) hrun]
    obtain ⟨hw, he⟩ := hops op mem_cons_self
    cases op with
    | wakeup other =>
      cases hstep
      rw [mem_pending_wakeup]
      exact or_iff_left fun h => hw (by rw [h.1])
    | enter thread other =>
      cases hstep
      exact mem_pending_enter t thread fun h => he thread (by rw [h])
    | leave thread =>
      obtain ⟨⟨t2, fired⟩, hleave, rfl⟩ := map_eq_some_iff.mp hstep
      rw [(tsleepLeave_some hleave).2.2]

/-- A wakeup between the test of a caller and its sleep makes that sleep return 0 exactly if one
was stored already, or nobody slept on the identifier and there was room. -/
theorem wakeup_not_lost_iff (t : Tsleep ι) (ident : ι) (thread : Nat) (ops : List (TsleepOp ι))
    (hops : ∀ op ∈ ops, op ≠ .wakeup ident ∧ ∀ thread, op ≠ .enter thread ident)
    (hrun : runSteps tsleepStep (wakeup t ident) ops = some t') :
    (tsleepLeave (tsleepEnter t' thread ident) thread).map Prod.snd = some true ↔
      ident ∈ t.pending ∨ (∀ s ∈ t.slots, s.ident ≠ ident) ∧
      t.pending.length < tsleepPendingMax := by
  rw [tsleepEnter_leave, Option.some.injEq, decide_eq_true_eq, mem_pending_run ops hops hrun,
    mem_pending_wakeup]
  simp

theorem wakeup_not_lost_sample :
    (tsleepLeave (tsleepEnter (wakeup ⟨[], [7]⟩ 3) 0 3) 0).map Prod.snd = some true :=
  (wakeup_not_lost_iff ⟨[], [7]⟩ 3 0 [] (by simp) rfl).mpr (by decide)

/-- Sixteen wakeups without a sleeper, and the next one is lost. -/
theorem wakeup_lost :
    ∃ t', runSteps tsleepStep ⟨[], []⟩ ((range 17).map TsleepOp.wakeup) = some t' ∧
      (tsleepLeave (tsleepEnter t' 0 16) 0).map Prod.snd = some false :=
  ⟨_, rfl, by decide +kernel⟩

end Net80211.Osal
