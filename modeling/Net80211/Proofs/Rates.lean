import Net80211.Rates

/-!
# Rate sets stay inside their array

`ieee80211_setup_rates` copies as many octets as the length of the rates element
says, so the element has to be no longer than the array; the extended rates are
cut to what is left. After that the number of rates only falls, and every index of
`ieee80211_fix_rate` is below it.
-/

namespace Net80211

open Lib Lib.Guarded

variable {δ : Type}

/-! ## `ieee80211_fix_rate` -/

/-- No more rates than the array has. -/
def Rateset.Fits (rs : Rateset) : Prop := rs.rsNrates.toNat ≤ rateMaxsize

variable {rs : Rateset} {i : Nat} {n : UInt8}

theorem sat_sortRates (hrs : rs.Fits) (hi : i < rs.rsNrates.toNat) :
    Sat (fun rs' => rs'.rsNrates = rs.rsNrates) (sortRates i rs : Guarded δ Rateset) := by
  have hround : ∀ n (s : Nat × Vector UInt8 rateMaxsize), s.1 + (n + 1) = rs.rsNrates.toNat →
      Sat (fun s' => s'.1 + n = rs.rsNrates.toNat) (sortRound i s : Guarded δ _) := by
    intro n s hs
    rw [Rateset.Fits] at hrs
    rw [sortRound]
    refine (sat_vecRead (by omega)).bind fun ri _ => ?_
    refine (sat_vecRead (by omega)).bind fun rj _ => ?_
    refine sat_ite (fun _ => ?_) (fun _ => ?_)
    · refine (sat_vecWrite rj (by omega)).bind fun rates _ => ?_
      exact (sat_vecWrite ri (by omega)).bind fun rates _ => by
        show s.1 + 1 + n = _
        omega
    · show s.1 + 1 + n = _
      omega
  rw [sortRates]
  refine (sat_repeatN (fun n s => s.1 + n = rs.rsNrates.toNat) hround _ _ ?_).bind fun s _ => ?_
  · show i + 1 + (rs.rsNrates.toNat - (i + 1)) = _
    omega
  exact sat_pure rfl

theorem toNat_sub_of_toNat_le {k : UInt8} (h : k.toNat ≤ n.toNat) :
    (n - k).toNat = n.toNat - k.toNat :=
  UInt8.toNat_sub_of_le _ _ (UInt8.le_iff_toNat_le.mpr h)

theorem toNat_pred (h : 0 < n.toNat) : (n - 1).toNat = n.toNat - 1 :=
  toNat_sub_of_toNat_le h

theorem sat_deleteRate (hrs : rs.Fits) (hi : i < rs.rsNrates.toNat) :
    Sat (fun rs' => rs'.rsNrates.toNat + 1 = rs.rsNrates.toNat)
      (deleteRate i rs : Guarded δ Rateset) := by
  have hpred := toNat_pred (show 0 < rs.rsNrates.toNat by omega)
  rw [Rateset.Fits] at hrs
  have hround : ∀ n (s : Nat × Vector UInt8 rateMaxsize), s.1 + (n + 1) = (rs.rsNrates - 1).toNat →
      Sat (fun s' => s'.1 + n = (rs.rsNrates - 1).toNat) (deleteRound s : Guarded δ _) := by
    intro n s hs
    rw [deleteRound]
    refine (sat_vecRead (by omega)).bind fun r _ => ?_
    refine (sat_vecWrite r (by omega)).bind fun rates _ => ?_
    show s.1 + 1 + n = _
    omega
  rw [deleteRate]
  refine (sat_repeatN (fun n s => s.1 + n = (rs.rsNrates - 1).toNat) hround _ _ ?_).bind fun s hs =>
    ?_
  · show i + ((rs.rsNrates - 1).toNat - i) = _
    omega
  refine (sat_vecWrite 0 (by omega)).bind fun rates _ => ?_
  show (rs.rsNrates - 1).toNat + 1 = _
  omega

theorem sat_negotiate (rates : Vector UInt8 rateMaxsize) (o : Option UInt8) (hi : i < rateMaxsize) :
    Sat (fun _ => True) (negotiate i rates o : Guarded δ _) := by
  cases o with
  | none => exact trivial
  | some r => exact sat_vecWrite r hi

/-- The rates that `ieee80211_fix_rate` has not seen. -/
def FixRate.left (s : FixRate) : Nat := s.nrs.rsNrates.toNat - s.i

theorem sat_fixRateRound (ctx : RateCtx) (flags : RateFlags) (fixed : Option Nat) (s : FixRate)
    (hs : s.nrs.Fits) : Sat (Round (fun s => s.nrs.Fits) FixRate.left (fun s => s.nrs.Fits) s)
      (fixRateRound ctx flags fixed s : Guarded δ _) := by
  rw [fixRateRound]
  refine sat_ite (fun hi => ?_) (fun _ => hs)
  have hi15 : s.i < rateMaxsize := Nat.lt_of_lt_of_le hi hs
  have hsort : Sat (fun nrs => nrs.rsNrates = s.nrs.rsNrates)
      (sortIf flags.dosort s.i s.nrs : Guarded δ Rateset) :=
    sat_ite (fun _ => sat_sortRates hs hi) (fun _ => sat_pure rfl)
  refine hsort.bind fun nrs hnrs => ?_
  refine (sat_vecRead hi15).bind fun cur _ => ?_
  refine (sat_negotiate nrs.rsRates _ hi15).bind fun rates _ => ?_
  refine (sat_vecRead hi15).bind fun cur' _ => ?_
  have hfits : ({ nrs with rsRates := rates } : Rateset).Fits := by
    rw [Rateset.Fits, hnrs]
    exact hs
  refine sat_ite (fun _ => ?_) (fun _ => sat_ite (fun _ => ?_) (fun _ => ?_))
  · -- The rate is deleted: the index stays and the set gets smaller.
    refine (sat_deleteRate hfits (by rw [hnrs]; exact hi)).bind fun nrs' hnrs' => ?_
    have hnrs' : nrs'.rsNrates.toNat + 1 = s.nrs.rsNrates.toNat := by rw [← hnrs]; exact hnrs'
    rw [Rateset.Fits] at hs
    refine ⟨show nrs'.rsNrates.toNat ≤ rateMaxsize by omega, ?_⟩
    show nrs'.rsNrates.toNat - s.i < s.nrs.rsNrates.toNat - s.i
    omega
  · refine ⟨hfits, ?_⟩
    show nrs.rsNrates.toNat - (s.i + 1) < s.nrs.rsNrates.toNat - s.i
    rw [hnrs]
    omega
  · refine ⟨hfits, ?_⟩
    show nrs.rsNrates.toNat - (s.i + 1) < s.nrs.rsNrates.toNat - s.i
    rw [hnrs]
    omega

theorem sat_fixRate (ctx : RateCtx) (flags : RateFlags) (txrate : Nat) (hrs : rs.Fits) :
    Sat (fun out => out.2.1.Fits) (fixRate ctx flags rs txrate : Guarded δ _) := by
  rw [fixRate]
  refine (sat_loop FixRate.left (sat_fixRateRound ctx flags _) _ _ hrs (Nat.lt_succ_of_le
    (Nat.sub_le _ _))).bind fun s hs => ?_
  exact sat_ite (fun _ => hs) (fun _ => hs)

/-! ## `ieee80211_setup_rates` -/

/-- An element lies in the frame: its length octet, and as much as it says. -/
def Inside (frame : List UInt8) (p : Nat) : Prop :=
  ∃ n : UInt8, frame[p + 1]? = some n ∧ p + 2 + n.toNat ≤ frame.length

variable {frame : List UInt8} {p : Nat}

theorem Inside.lt (h : Inside frame p) : p + 1 < frame.length := by
  obtain ⟨n, _, hle⟩ := h
  omega

theorem Inside.le_of_read (h : Inside frame p) (hn : frame[p + 1]? = some n) :
    p + 2 + n.toNat ≤ frame.length := by
  obtain ⟨n', hn', hle⟩ := h
  rw [hn] at hn'
  cases hn'
  exact hle

theorem sat_addXrates (xrates : Option Nat) (hx : ∀ p ∈ xrates, Inside frame p) (hrs : rs.Fits) :
    Sat Rateset.Fits (addXrates frame rs xrates : Guarded δ _) := by
  cases xrates with
  | none => exact hrs
  | some p =>
    have hin := hx p rfl
    have hmax : rateMaxsize = 15 := rfl
    rw [Rateset.Fits] at hrs
    rw [addXrates]
    refine (sat_readAt hin.lt).bind fun nx hnx => ?_
    have hle := hin.le_of_read hnx
    -- The number that is copied is at most what the element has and what there is room for.
    have hcut :
        (if rs.rsNrates.toNat + nx.toNat > rateMaxsize then 15 - rs.rsNrates else nx).toNat ≤
          nx.toNat ∧
        rs.rsNrates.toNat +
          (if rs.rsNrates.toNat + nx.toNat > rateMaxsize then 15 - rs.rsNrates else nx).toNat ≤
            rateMaxsize := by
      split
      · have hsub : (15 - rs.rsNrates).toNat = 15 - rs.rsNrates.toNat := toNat_sub_of_toNat_le hrs
        rw [hsub]
        omega
      · omega
    revert hcut
    generalize (if rs.rsNrates.toNat + nx.toNat > rateMaxsize then 15 - rs.rsNrates else nx) = cut
    rintro ⟨hcutle, hfit⟩
    refine (sat_readN (by omega)).bind fun bs hbs => ?_
    refine (sat_vecCopy bs (by rw [hbs]; exact hfit)).bind fun rates _ => ?_
    show (rs.rsNrates + cut).toNat ≤ rateMaxsize
    rw [UInt8.toNat_add]
    exact Nat.le_trans (Nat.mod_le _ _) hfit

theorem sat_setupRates (ctx : RateCtx) (flags : RateFlags) (txrate : Nat) {rates : Nat}
    {xrates : Option Nat} (hr : Inside frame rates)
    (hlen : ∀ n, frame[rates + 1]? = some n → n.toNat ≤ rateMaxsize)
    (hx : ∀ p ∈ xrates, Inside frame p) : Sat (fun out => out.2.1.Fits)
      (setupRates ctx flags frame rates xrates txrate : Guarded δ _) := by
  rw [setupRates]
  refine (sat_readAt hr.lt).bind fun n hn => ?_
  refine (sat_readN (hr.le_of_read hn)).bind fun bs hbs => ?_
  refine (sat_vecCopy bs (by rw [hbs, Nat.zero_add]; exact hlen n hn)).bind fun rsRates _ => ?_
  have hfits : ({ rsNrates := n, rsRates := rsRates } : Rateset).Fits := hlen n hn
  refine (sat_addXrates xrates hx hfits).bind fun rs hrs => ?_
  exact sat_fixRate ctx flags txrate hrs

end Net80211
