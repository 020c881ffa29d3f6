import Mathlib.Data.List.Rotate
import Net80211.Proofs.Rates
import Net80211.Scan

/-!
# What a scan visits and what it chooses

The loop of `ieee80211_next_scan` looks at the channels around the table, so the channels that are
left after a call are the rest of those that were left before (`left_switch`).

`ieee80211_end_scan` keeps the better one of two nodes. That gives one that none beats if the
comparison is transitive; it is not, since it looks at the rates only where the signals are near.
-/

namespace Net80211

open Lib Lib.Guarded List Function

/-! ## Around a table -/

section Around

variable {n c d j : Nat}

/-- The places of a table, from the one behind `c` around to `c`. -/
def around (n c : Nat) : List Nat := (range n).rotate (c + 1)

theorem getElem?_around (h : j < n) : (around n c)[j]? = some ((c + 1 + j) % n) := by
  rw [around, getElem?_rotate (by rwa [length_range]), length_range,
    getElem?_range (Nat.mod_lt _ (by omega)), Nat.add_comm j]

theorem drop_around (h : j < n) :
    (around n c).drop j = (c + 1 + j) % n :: (around n c).drop (j + 1) := by
  obtain ⟨hlt, hget⟩ := List.getElem?_eq_some_iff.mp (getElem?_around (c := c) h)
  rw [drop_eq_getElem_cons hlt, hget]

theorem around_of_eq {as bs : List Nat} (h : around n c = as ++ d :: bs) :
    around n d = bs ++ (as ++ [d]) := by
  have hsplit : around n c = (as ++ [d]) ++ bs := by rw [h, append_assoc]; rfl
  have hlen : as.length < n := by
    have := congrArg length h
    rw [around, length_rotate, length_range, length_append, length_cons] at this
    omega
  have hd : (c + 1 + as.length) % n = d := by
    have hget := getElem?_around (c := c) hlen
    rw [h, getElem?_append_right (Nat.le_refl _), Nat.sub_self] at hget
    exact (Option.some.inj hget).symm
  calc around n d
    _ = (range n).rotate (c + 1 + (as.length + 1)) := by
      rw [around, ← rotate_mod, ← hd, length_range, Nat.mod_add_mod, ← rotate_mod _ (c + 1 + _),
        length_range]
      rfl
    _ = (around n c).rotate (as ++ [d]).length := by rw [← rotate_rotate, length_append]; rfl
    _ = bs ++ (as ++ [d]) := by rw [hsplit, rotate_append_length_eq]

end Around

/-! ## The channels of a scan -/

variable {ic : ScanIc}

/-- The channels that the scan still has, behind the current one first. -/
def ScanIc.left (ic : ScanIc) : List Nat := (around (chanMax + 1) ic.curchan).filter ic.chanScan

/-- The loop looks at the channels in that order, and at the current one last. -/
theorem nextChan_eq (hcur : ic.curchan ≤ chanMax) (k : Nat) : ∀ j, j + k = chanMax →
    nextChan ic (k + 1) ((ic.curchan + j) % (chanMax + 1)) =
      some (((around (chanMax + 1) ic.curchan).drop j).find? ic.chanScan) := by
  have hmax : chanMax = 255 := rfl
  have hnext : ∀ j, (if (ic.curchan + j) % (chanMax + 1) + 1 > chanMax then 0
      else (ic.curchan + j) % (chanMax + 1) + 1) = (ic.curchan + 1 + j) % (chanMax + 1) := by
    intro j
    rw [hmax]
    split <;> omega
  induction k with
  | zero =>
    intro j hj
    have hlast : (ic.curchan + 1 + j) % (chanMax + 1) = ic.curchan := by
      rw [hmax] at hj hcur ⊢
      omega
    have hnil : (around (chanMax + 1) ic.curchan).drop (j + 1) = [] :=
      drop_eq_nil_of_le (by rw [around, length_rotate, length_range]; omega)
    rw [nextChan, hnext, drop_around (by omega), hnil, hlast, find?_cons, find?_nil]
    cases hset : ic.chanScan ic.curchan with
    | true => rfl
    | false => simp
  | succ k ih =>
    intro j hj
    have hne : (ic.curchan + 1 + j) % (chanMax + 1) ≠ ic.curchan := by
      rw [hmax] at hj hcur ⊢
      omega
    rw [nextChan, hnext, drop_around (by omega), find?_cons]
    cases hset : ic.chanScan ((ic.curchan + 1 + j) % (chanMax + 1)) with
    | true => rfl
    | false =>
      rw [if_neg (by decide), if_pos hne, ← ih (j + 1) (by omega), Nat.add_assoc _ 1,
        Nat.add_comm 1]

theorem nextScan_eq (hcur : ic.curchan ≤ chanMax) :
    nextScan ic = some (ic.switch ic.left.head?) := by
  have hloop :
      nextChan ic (chanMax + 1) ic.curchan =
      some ((around (chanMax + 1) ic.curchan).find? ic.chanScan) := by
    simpa [Nat.mod_eq_of_lt (Nat.lt_succ_of_le hcur)] using nextChan_eq hcur chanMax 0
      (Nat.zero_add _)
  rw [nextScan, hloop, Option.map_some, ScanIc.left, head?_filter]

/-- After a step the rest of the channels is left. -/
theorem left_switch {c : Nat} {cs : List Nat} (h : ic.left = c :: cs) :
    (ic.switch (some c)).1.left = cs := by
  obtain ⟨as, bs, hsplit, hno, hset, rfl⟩ := filter_eq_cons_iff.mp h
  have hnodup : (as ++ c :: bs).Nodup := hsplit ▸ nodup_rotate.mpr nodup_range
  have hnot : ∀ i, i ∈ as ∨ i ∈ bs → update ic.chanScan c false i = ic.chanScan i := by
    intro i hi
    refine update_of_ne ?_ _ _
    rintro rfl
    grind
  rw [ScanIc.switch, ScanIc.left, around_of_eq hsplit, filter_append, filter_append,
    filter_congr fun i hi => hnot i (.inr hi),
    filter_congr fun i hi => hnot i (.inl hi), filter_eq_nil_iff.mpr hno]
  simp

theorem scanCalls_eq (n : Nat) : ∀ ic : ScanIc, ic.curchan ≤ chanMax → ic.left.length = n →
    scanCalls (n + 1) ic = some (ic.left.map some ++ [none]) := by
  induction n with
  | zero =>
    intro ic hcur hlen
    rw [scanCalls, nextScan_eq hcur, length_eq_zero_iff.mp hlen]
    rfl
  | succ n ih =>
    intro ic hcur hlen
    obtain ⟨c, cs, hleft⟩ := exists_cons_of_length_eq_add_one hlen
    have hc : c ≤ chanMax := by
      have hmem : c ∈ ic.left := hleft ▸ mem_cons_self
      rw [ScanIc.left, mem_filter, around, mem_rotate, mem_range] at hmem
      exact Nat.le_of_lt_succ hmem.1
    have hnext := ih (ic.switch (some c)).1 hc
    rw [left_switch hleft] at hnext
    rw [scanCalls, nextScan_eq hcur, hleft]
    show (scanCalls (n + 1) (ic.switch (some c)).1 >>= fun cs => pure (some c :: cs)) = _
    rw [hnext (by simpa [hleft] using hlen)]
    rfl

/-- A scan switches to every channel of its set once, in cyclic order behind the one it starts at,
and calls `ieee80211_end_scan` then. -/
theorem beginScan_visits (ic : ScanIc) (hcur : ic.curchan ≤ chanMax) :
    ic.beginScan ((resetScan ic).left.length + 1) = some ((resetScan ic).left.map some ++ [none]) ∧
      (resetScan ic).left.Nodup ∧
      (∀ c, c ∈ (resetScan ic).left ↔ c ≤ chanMax ∧ (resetScan ic).chanScan c = true) := by
  refine ⟨scanCalls_eq _ _ hcur rfl, (nodup_rotate.mpr nodup_range).filter _, fun c => ?_⟩
  rw [ScanIc.left, mem_filter, around, mem_rotate, mem_range, Nat.lt_succ_iff]

/-- Channels 1, 6 and 11. -/
def scan2g (curchan : Nat) : ScanIc :=
  ⟨none, fun c => c = 1 || c = 6 || c = 11, fun _ => false, curchan⟩

theorem beginScan_visits_sample :
    (scan2g 6).beginScan 4 = some [some 11, some 1, some 6, none] := by
  have hleft : (resetScan (scan2g 6)).left = [11, 1, 6] := by decide +kernel
  have h := (beginScan_visits (scan2g 6) (by decide)).1
  rw [hleft] at h
  exact h

/-! ## The choice of a BSS -/

section Select

variable (conf : ScanConf)

/-- A node that matches, with its rates after the match. -/
def matched (ni : ScanBss) : Option ScanBss :=
  match matchBss conf ni with
  | .done (fail, rates) => if fail = 0 then some { ni with niRates := rates } else none
  | _ => none

variable {conf}

theorem nodeCompare_neg (conf : ScanConf) (a b : ScanBss) :
    nodeCompare conf b a = -nodeCompare conf a b := by
  simp only [nodeCompare]
  cases a.hasPrivacy <;> cases b.hasPrivacy <;> cases conf.chan5ghz a.niChan <;>
    cases conf.chan5ghz b.niChan <;> grind

/-- The choice is a node that matches and that none beats. -/
structure BestBss (conf : ScanConf) (ms : List ScanBss) (sel : Option ScanBss) : Prop where
  none : sel = none → ms = []
  mem : ∀ r ∈ sel, r ∈ ms
  best : ∀ r ∈ sel, ∀ x ∈ ms, ¬ 0 < nodeCompare conf x r

theorem selectBss_eq {nt : List ScanBss} (hfits : ∀ ni ∈ nt, ni.niRates.Fits)
    (sel : Option ScanBss) :
    selectBss conf nt sel = .done ((nt.filterMap (matched conf)).foldl (betterBss conf) sel) := by
  induction nt generalizing sel with
  | nil => rfl
  | cons ni nt ih =>
    obtain ⟨⟨rate, rates, txrate⟩, hfix, -⟩ := Guarded.exists_done (sat_fixRate
      ⟨conf.supRates ni.niChan, conf.fixedRate, false⟩ ⟨false, true, true, false⟩ 0
      (hfits ni mem_cons_self))
    obtain ⟨fail, hmatch⟩ : ∃ fail, matchBss conf ni = .done (fail, rates) := by
      rw [matchBss, hfix, done_bind]
      exact ⟨_, rfl⟩
    rw [selectBss, hmatch, done_bind, filterMap_cons, matched, hmatch]
    simp only [ih fun x hx => hfits x (mem_cons_of_mem _ hx)]
    by_cases h0 : fail = 0 <;> simp [h0]

/-- Who is beaten by a beaten one is beaten. -/
def BeatsTrans (conf : ScanConf) (ms : List ScanBss) : Prop :=
  ∀ a ∈ ms, ∀ b ∈ ms, ∀ c ∈ ms, 0 < nodeCompare conf b a → 0 < nodeCompare conf c b →
    0 < nodeCompare conf c a

instance decidableBeatsTrans (conf : ScanConf) (ms : List ScanBss) :
    Decidable (BeatsTrans conf ms) :=
  inferInstanceAs (Decidable (∀ a ∈ ms, ∀ b ∈ ms, ∀ c ∈ ms, _ → _ → _))

theorem foldl_betterBss {ms : List ScanBss} (ht : BeatsTrans conf ms) (l : List ScanBss) :
    ∀ {s : ScanBss}, s :: l ⊆ ms → ∃ r ∈ s :: l, l.foldl (betterBss conf) (some s) = some r ∧
    (r = s ∨ 0 < nodeCompare conf r s) ∧
      ∀ x ∈ s :: l, ¬ 0 < nodeCompare conf x r := by
  induction l with
  | nil =>
    intro s _
    have hself := nodeCompare_neg conf s s
    exact ⟨s, mem_cons_self, rfl, .inl rfl, fun x hx => by rw [mem_singleton.mp hx]; omega⟩
  | cons x l ih =>
    intro s hsub
    obtain ⟨hs, hx, hl⟩ : s ∈ ms ∧ x ∈ ms ∧ l ⊆ ms := by simpa using hsub
    rw [foldl_cons, betterBss]
    by_cases hbeats : nodeCompare conf x s > 0
    · obtain ⟨r, hmem, hr, hge, hbest⟩ := ih (cons_subset.mpr ⟨hx, hl⟩)
      have hrs : 0 < nodeCompare conf r s := by
        rcases hge with rfl | hge
        · exact hbeats
        · exact ht s hs x hx r (hsub (mem_cons_of_mem _ hmem)) hbeats hge
      have hsr := nodeCompare_neg conf r s
      rw [if_pos hbeats]
      refine ⟨r, mem_cons_of_mem _ hmem, hr, .inr hrs, forall_mem_cons.mpr ⟨by omega, hbest⟩⟩
    · obtain ⟨r, hmem, hr, hge, hbest⟩ := ih (cons_subset.mpr ⟨hs, hl⟩)
      obtain ⟨hbests, hbestl⟩ := forall_mem_cons.mp hbest
      have hsub' : s :: l ⊆ s :: x :: l := cons_subset_cons s (subset_cons_self x l)
      rw [if_neg hbeats]
      refine ⟨r, hsub' hmem, hr, hge,
        forall_mem_cons.mpr ⟨hbests, forall_mem_cons.mpr ⟨fun hxr => ?_, hbestl⟩⟩⟩
      rcases hge with rfl | hge
      · exact hbeats hxr
      · exact hbeats (ht s hs r (hsub (hsub' hmem)) x hx hge hxr)

theorem selectBss_best {nt ms : List ScanBss} (ht : BeatsTrans conf ms)
    (hfits : ∀ ni ∈ nt, ni.niRates.Fits) (hsub : nt.filterMap (matched conf) ⊆ ms) :
    ∃ sel, selectBss conf nt none = .done sel ∧ BestBss conf (nt.filterMap (matched conf)) sel := by
  refine ⟨_, selectBss_eq hfits none, ?_⟩
  cases hm : nt.filterMap (matched conf) with
  | nil => exact ⟨fun _ => rfl, by simp, by simp⟩
  | cons s l =>
    obtain ⟨r, hmem, hr, -, hbest⟩ := foldl_betterBss ht l (hm ▸ hsub)
    rw [foldl_cons, betterBss, hr]
    exact ⟨by simp, by simpa using hmem, by simpa using hbest⟩

/-- For tables of these nodes the choice is one that none beats, and the same in every order up to
nodes that compare equal, exactly if the comparison of those that match is transitive. -/
theorem selectBss_best_iff (conf : ScanConf) (nt : List ScanBss)
    (hfits : ∀ ni ∈ nt, ni.niRates.Fits) :
    (∀ nt₁ nt₂, nt₁ ⊆ nt → nt₁ ~ nt₂ → ∃ sel₁ sel₂, selectBss conf nt₁ none = .done sel₁ ∧
        selectBss conf nt₂ none = .done sel₂ ∧ BestBss conf (nt₁.filterMap (matched conf)) sel₁ ∧
        ∀ r₁ ∈ sel₁, ∀ r₂ ∈ sel₂, nodeCompare conf r₁ r₂ = 0) ↔
      BeatsTrans conf (nt.filterMap (matched conf)) := by
  constructor
  · intro h a ha b hb c hc hba hcb
    by_contra hca
    obtain ⟨na, hna, ha⟩ := mem_filterMap.mp ha
    obtain ⟨nb, hnb, hb⟩ := mem_filterMap.mp hb
    obtain ⟨nc, hnc, hc⟩ := mem_filterMap.mp hc
    have hsub : [na, nc, nb] ⊆ nt := by simp [hna, hnb, hnc]
    -- `c` does not beat `a`, so it is gone when `b` comes.
    obtain ⟨sel, -, hsel, -, hbest, -⟩ := h _ _ hsub (Perm.refl _)
    rw [selectBss_eq fun ni hni => hfits ni (hsub hni)] at hsel
    simp only [filterMap_cons, filterMap_nil, ha, hb, hc, foldl_cons, foldl_nil, betterBss,
      if_neg hca] at hsel hbest
    rw [if_pos hba] at hsel
    cases hsel
    exact hbest.best b rfl c (by simp) hcb
  · intro ht nt₁ nt₂ hsub hperm
    have hms := hperm.filterMap (matched conf)
    have hin : nt₁.filterMap (matched conf) ⊆ nt.filterMap (matched conf) := by
      intro x hx
      obtain ⟨ni, hni, hx⟩ := mem_filterMap.mp hx
      exact mem_filterMap.mpr ⟨ni, hsub hni, hx⟩
    have hfits1 : ∀ ni ∈ nt₁, ni.niRates.Fits := fun ni hni => hfits ni (hsub hni)
    obtain ⟨sel₁, h1, hbest1⟩ := selectBss_best ht hfits1 hin
    obtain ⟨sel₂, h2, hbest2⟩ := selectBss_best ht (fun ni hni => hfits1 ni (hperm.mem_iff.mpr hni))
      (fun x hx => hin (hms.mem_iff.mpr hx))
    refine ⟨sel₁, sel₂, h1, h2, hbest1, fun r₁ hr1 r₂ hr2 => ?_⟩
    have h12 := hbest2.best r₂ hr2 r₁ (hms.mem_iff.mp (hbest1.mem r₁ hr1))
    have h21 := hbest1.best r₁ hr1 r₂ (hms.mem_iff.mpr (hbest2.mem r₂ hr2))
    have hneg := nodeCompare_neg conf r₁ r₂
    omega

end Select

/-- A network with this name and one rate. -/
def bssOf (rssi rate : UInt8) : ScanBss :=
  { niChan := 1, niCapinfo := capinfoEss, niRates := ⟨1, (Vector.replicate 15 0).set 0 rate⟩,
    niEssid := [1], niBssid := []
    niFails := 0, niRssi := rssi }

/-- A station that looks for it. -/
def staConf : ScanConf :=
  { chanActive := fun _ => true, chan5ghz := fun _ => false, supRates := fun _ => [12, 48, 108],
    fixedRate := none
    desChan := none, ibss := false, privacy := false, desEssid := [1], desBssid := none }

theorem selectBss_best_sample :
    ∃ sel, selectBss staConf [bssOf 10 108, bssOf 20 12] none = .done sel ∧
    BestBss staConf ([bssOf 10 108, bssOf 20 12].filterMap (matched staConf)) sel := by
  obtain ⟨sel, -, h, -, hbest, -⟩ := (selectBss_best_iff staConf [bssOf 10 108, bssOf 20 12]
    (by simp [bssOf, Rateset.Fits])).mpr (by decide +kernel) _ _ (List.Subset.refl _) (Perm.refl _)
  exact ⟨sel, h, hbest⟩

/-- Each of three networks is better than the next, around: near in signal the rate counts, else the
signal. -/
theorem selectBss_not_best :
    (selectBss staConf [bssOf 10 108, bssOf 13 48, bssOf 16 12] none = .done (some (bssOf 16 12)) ∧
      selectBss staConf [bssOf 16 12, bssOf 13 48, bssOf 10 108] none =
      .done (some (bssOf 10 108))) ∧
      0 < nodeCompare staConf (bssOf 13 48) (bssOf 16 12) ∧
      0 < nodeCompare staConf (bssOf 16 12) (bssOf 10 108) := by
  decide +kernel

end Net80211
