import Mathlib.Data.List.Basic
import Mathlib.Logic.Function.Iterate
import Net80211.Urtwn.Firmware

/-!
# Pages of urtwn

Whoever follows the links of the page list comes where `LltOk` says but for the last one, which is
taken from the wrong count (`lltInit_eq`). The firmware is what is behind the header; an image that
ends before its header does is read outside.
-/

namespace Net80211.Urtwn

open Lib Lib.Guarded List Function Option

/-! ## The list of packet buffer pages -/

/-- From page 0 the links lead to the pages up to `p`, one after the other, and then to the end
marker. From each page between `p` and `n` they lead to each other one, and out to none. -/
structure LltOk (p n : Nat) (llt : Nat → Nat) : Prop where
  chain : ∀ i ≤ p, llt^[i] 0 = i
  stop : llt^[p + 1] 0 = 0xff
  ring : ∀ i, p < i → i < n → ∀ j, p < j → j < n → ∃ k, llt^[k] i = j
  within : ∀ i, p < i → i < n → p < llt i ∧ llt i < n

variable {chip : Nat → Bool}

theorem lltWrite_some {llt llt' : Nat → Nat} {addr data : Nat}
    (h : lltWrite chip llt addr data = some llt') (ha : addr < 256) (j : Nat) :
    llt' j = if j = addr then data % 256 else llt j := by
  rw [lltWrite] at h
  split at h
  · cases h
    rw [Nat.mod_eq_of_lt ha, update_apply]
  · cases h

theorem iterate_links {llt : Nat → Nat} {a b : Nat} (h : ∀ i, a ≤ i → i < b → llt i = i + 1) :
    ∀ {k : Nat}, a + k ≤ b → llt^[k] a = a + k := by
  intro k
  induction k with
  | zero => intro _; rfl
  | succ k ih =>
    intro hk
    rw [iterate_succ_apply', ih (by omega), h _ (by omega) (by omega), Nat.add_assoc]

theorem lltLinks_some (n : Nat) : ∀ {i : Nat} {llt llt' : Nat → Nat},
    lltLinks chip n i llt = some llt' → i + n ≤ 255 →
    ∀ j, llt' j = if i ≤ j ∧ j < i + n then j + 1 else llt j := by
  induction n with
  | zero =>
    intro i llt llt' h _ j
    cases h
    rw [if_neg (by omega)]
  | succ n ih =>
    intro i llt llt' h hn j
    obtain ⟨llt1, hw, h⟩ := bind_eq_some_iff.mp h
    rw [ih h (by omega), lltWrite_some hw (by omega)]
    by_cases hj : j = i
    · rw [if_neg (by omega), if_pos hj, if_pos (by omega), hj]
      omega
    · by_cases hin : i + 1 ≤ j ∧ j < i + 1 + n
      · rw [if_pos hin, if_pos (by omega)]
      · rw [if_neg hin, if_neg hj, if_neg (by omega)]

theorem lltInit_eq {p n : Nat} {llt llt' : Nat → Nat} (hp : p + 1 < n) (hn : n ≤ 256)
    (h : lltInit chip p n llt = some llt') (j : Nat) (hj : j < n) :
    llt' j = if j = n - 1 then (n + 1) % 256 else if j = p then 0xff else j + 1 := by
  obtain ⟨llt1, h1, h⟩ := bind_eq_some_iff.mp h
  obtain ⟨llt2, h2, h⟩ := bind_eq_some_iff.mp h
  obtain ⟨llt3, h3, h⟩ := bind_eq_some_iff.mp h
  rw [lltWrite_some h (by omega), lltLinks_some _ h3 (by omega), lltWrite_some h2 (by omega),
    lltLinks_some _ h1 (by omega)]
  by_cases hlast : j = n - 1
  · rw [if_pos (by omega), if_pos hlast]
  · rw [if_neg (by omega), if_neg hlast]
    by_cases hring : p + 1 ≤ j
    · rw [if_pos (by omega), if_neg (by omega)]
    · rw [if_neg (by omega)]
      by_cases hjp : j = p
      · rw [if_pos hjp, if_pos hjp]
      · rw [if_neg hjp, if_neg hjp, if_pos (by omega)]

/-- The list is as it should be exactly if the wrong count happens to be the right page. -/
theorem lltInit_ok_iff {chip : Nat → Bool} {p n : Nat} {llt llt' : Nat → Nat} (hp : p + 1 < n)
    (hn : n ≤ 256) (h : lltInit chip p n llt = some llt') :
    LltOk p n llt' ↔ (n + 1) % 256 = p + 1 := by
  have heq := lltInit_eq hp hn h
  have hlast : llt' (n - 1) = (n + 1) % 256 := by rw [heq _ (by omega), if_pos rfl]
  constructor
  · intro hok
    -- the last link stays in the ring
    have hin := hok.within (n - 1) (by omega) (by omega)
    rw [hlast] at hin
    omega
  · intro hback
    have hstop : llt' p = 0xff := by rw [heq p (by omega), if_neg (by omega), if_pos rfl]
    have hnext : ∀ i, i ≠ p → i + 1 < n → llt' i = i + 1 := by
      intro i hi hin
      rw [heq i (by omega), if_neg (by omega), if_neg hi]
    have hchain : ∀ i ≤ p, llt'^[i] 0 = i := by
      intro i hi
      have := iterate_links (fun j _ hj => hnext j (by omega) (by omega)) (Nat.zero_add i ▸ hi)
      rwa [Nat.zero_add] at this
    have hup : ∀ {i k}, p < i → i + k < n → llt'^[k] i = i + k := fun hi hk =>
      iterate_links (fun j hj hlt => hnext j (by omega) (by omega)) (Nat.le_sub_one_of_lt hk)
    refine ⟨hchain, ?_, fun i hi hin j hj hjn => ?_, fun i hi hin => ?_⟩
    · rw [iterate_succ_apply', hchain p (Nat.le_refl p), hstop]
    · by_cases hij : i ≤ j
      · exact ⟨j - i, by rw [hup hi (by omega)]; omega⟩
      · refine ⟨j - (p + 1) + (n - 1 - i + 1), ?_⟩
        rw [iterate_add_apply, iterate_succ_apply', hup hi (by omega),
          Nat.add_sub_cancel' (Nat.le_sub_one_of_lt hin), hlast, hback, hup (by omega) (by omega)]
        omega
    · by_cases hend : i = n - 1
      · rw [hend, hlast, hback]
        omega
      · rw [hnext i (by omega) (by omega)]
        omega

theorem lltInit_88e : ∃ llt', lltInit (fun _ => true) 169 177 (fun _ => 0) = some llt' :=
  isSome_iff_exists.mp (by decide +kernel)

/-- The counts of the 88E, and the only ones for which it is right. -/
theorem lltInit_ok_sample :
    (∃ llt', lltInit (fun _ => true) 169 177 (fun _ => 0) = some llt' ∧ ¬ LltOk 169 177 llt') ∧
      ∃ llt', lltInit (fun _ => true) 0 256 (fun _ => 0) = some llt' ∧ LltOk 0 256 llt' := by
  obtain ⟨llt₁, h₁⟩ := lltInit_88e
  obtain ⟨llt₂, h₂⟩ := isSome_iff_exists.mp
    (by decide +kernel : (lltInit (fun _ => true) 0 256 (fun _ => 0)).isSome = true)
  refine ⟨⟨llt₁, h₁, fun hok => ?_⟩, llt₂, h₂, (lltInit_ok_iff (by decide) (by decide) h₂).mpr rfl⟩
  exact absurd ((lltInit_ok_iff (by decide) (by decide) h₁).mp hok) (by decide)

/-- The counts of the 88E: the last page is linked to one that is not there. -/
theorem lltInit_no_ring : ∃ llt', lltInit (fun _ => true) 169 177 (fun _ => 0) = some llt' ∧
    llt' 176 = 178 ∧ ¬ LltOk 169 177 llt' := by
  obtain ⟨llt', h⟩ := lltInit_88e
  have hlast : llt' 176 = 178 := lltInit_eq (by decide) (by decide) h 176 (by decide)
  refine ⟨llt', h, hlast, fun hok => ?_⟩
  have := (hok.within 176 (by decide) (by decide)).2
  omega

/-! ## The firmware -/

/-- The octets of a write, with their places. -/
def FwWrite.octets (w : FwWrite) : List (Nat × Nat × UInt8) :=
  w.buf.zipIdx.map fun b => (w.page, w.off + b.2, b.1)

/-- Octets from `k` of the image on, in their pages. -/
def inPages (k : Nat) (bs : List UInt8) : List (Nat × Nat × UInt8) :=
  (bs.zipIdx k).map fun b => (b.2 / fwPageSize % 8, fwStartAddr + b.2 % fwPageSize, b.1)

theorem inPages_append (k : Nat) (as bs : List UInt8) :
    inPages k (as ++ bs) = inPages k as ++ inPages (k + as.length) bs := by
  rw [inPages, zipIdx_append, map_append]
  rfl

theorem octets_in_page {page j : Nat} (bs : List UInt8) (h : j + bs.length ≤ fwPageSize) :
    FwWrite.octets ⟨page % 8, fwStartAddr + j, bs⟩ = inPages (page * fwPageSize + j) bs := by
  have hp : fwPageSize = 4096 := rfl
  rw [hp] at h
  refine ext_getElem (by simp [FwWrite.octets, inPages]) fun i hi _ => ?_
  have hi : i < bs.length := by simpa [FwWrite.octets] using hi
  simp only [FwWrite.octets, inPages, getElem_map, getElem_zipIdx, hp, Nat.zero_add]
  rw [show (page * 4096 + j + i) / 4096 = page by omega,
    show (page * 4096 + j + i) % 4096 = j + i by omega, Nat.add_assoc]

theorem fwLoadpage_octets (chip : FwWrite → Bool) (page fuel : Nat) : ∀ (j : Nat) (bs : List UInt8),
    bs.length ≤ fuel → j + bs.length ≤ fwPageSize →
    (fwLoadpage chip page fuel (fwStartAddr + j) bs).2 = true →
    (fwLoadpage chip page fuel (fwStartAddr + j) bs).1.flatMap FwWrite.octets =
    inPages (page * fwPageSize + j) bs := by
  induction fuel with
  | zero =>
    intro j bs hfuel _ _
    rw [length_eq_zero_iff.mp (Nat.le_zero.mp hfuel)]
    rfl
  | succ fuel ih =>
    intro j bs hfuel hpage hok
    rw [fwLoadpage] at hok ⊢
    by_cases hz : bs.length = 0
    · rw [length_eq_zero_iff.mp hz]
      rfl
    rw [if_neg hz] at hok ⊢
    dsimp only at hok ⊢
    have hmlen : ∃ mlen, (if bs.length > 196 then 196 else if bs.length > 4 then 4 else 1) = mlen ∧
        0 < mlen ∧ mlen ≤ bs.length := by
      refine ⟨_, rfl, ?_⟩
      split
      · omega
      · split <;> omega
    obtain ⟨mlen, heq, hpos, hle⟩ := hmlen
    rw [heq] at hok ⊢
    split at hok
    · next hchip =>
      have hrest :=
        ih (j + mlen) (bs.drop mlen) (by rw [length_drop]; omega) (by rw [length_drop]; omega)
      rw [← Nat.add_assoc] at hrest
      have htake : (bs.take mlen).length = mlen := length_take_of_le hle
      rw [if_pos hchip, flatMap_cons, hrest hok, octets_in_page _ (by rw [htake]; omega)]
      conv_rhs => rw [← take_append_drop mlen bs, inPages_append, htake, Nat.add_assoc]
    · cases hok

/-- The signature of an image. -/
def signed (fw : List UInt8) : Bool := fwSigned (fw.getD 0 0) (fw.getD 1 0)

/-- The image without its header. -/
def fwImage (fw : List UInt8) : List UInt8 := fw.drop (if signed fw then 32 else 0)

/-- The header is whole. -/
def FwOk (fw : List UInt8) : Prop := 2 ≤ fw.length ∧ (signed fw = true → 32 ≤ fw.length)

instance decidableFwOk (fw : List UInt8) : Decidable (FwOk fw) :=
  inferInstanceAs (Decidable (_ ∧ _))

variable {fw : List UInt8}

theorem loadFirmware_eq {chip : FwWrite → Bool} (h : 2 ≤ fw.length) :
    loadFirmware chip fw = loop (fwRound chip fw) (fw.length + 2)
      ⟨0, if signed fw then 32 else 0, (fw.length + 2 ^ 64 - if signed fw then 32 else 0) % 2 ^ 64,
        []⟩ := by
  have hread : ∀ i < 2, (readAt fw i : Guarded Empty _) = .done (fw.getD i 0) := by
    intro i hi
    simp [readAt, getElem?_eq_getElem (show i < fw.length by omega)]
  rw [loadFirmware, hread 0 (by decide), done_bind, hread 1 (by decide), done_bind]
  rfl

/-- Between two pages. -/
structure AtPage (fw : List UInt8) (s : FwLoad) : Prop where
  ends : s.ptr + s.len = fw.length
  page : s.len = 0 ∨ s.ptr = (if signed fw then 32 else 0) + s.page * fwPageSize
  start : (if signed fw then 32 else 0) ≤ s.ptr
  writes : s.writes.flatMap FwWrite.octets =
    inPages 0 ((fwImage fw).take (s.ptr - if signed fw then 32 else 0))

theorem fwRound_sat (chip : FwWrite → Bool) (s : FwLoad) (hs : AtPage fw s) :
    Sat (Round (AtPage fw) FwLoad.len (fun r => r.2 = true →
      r.1.flatMap FwWrite.octets = inPages 0 (fwImage fw)) s) (fwRound chip fw s) := by
  have hends := hs.ends
  have hstart := hs.start
  have hp : fwPageSize = 4096 := rfl
  rw [fwRound]
  refine sat_ite (fun hz => ?_) fun hnz => ?_
  · refine fun _ => ?_
    rw [hs.writes, take_of_length_le]
    rw [fwImage, length_drop]
    omega
  dsimp only
  rw [readN, if_pos (by omega), done_bind]
  have hbuf : ((fw.drop s.ptr).take (min s.len fwPageSize)).length = min s.len fwPageSize := by
    rw [length_take, length_drop]
    omega
  refine sat_ite (fun hok => ?_) fun hfail => fun h => by cases h
  have hoct := fwLoadpage_octets chip s.page _ 0 _ (Nat.le_refl _) (by rw [hbuf]; omega) hok
  rw [Nat.add_zero, Nat.add_zero] at hoct
  refine ⟨⟨?_, ?_, ?_, ?_⟩, ?_⟩
  · show s.ptr + min s.len fwPageSize + (s.len - min s.len fwPageSize) = _
    omega
  · show s.len - min s.len fwPageSize = 0 ∨
      s.ptr + min s.len fwPageSize = _ + (s.page + 1) * fwPageSize
    have hpage := hs.page.resolve_left hnz
    rw [Nat.succ_mul]
    omega
  · show _ ≤ s.ptr + min s.len fwPageSize
    omega
  · show (s.writes ++ _).flatMap FwWrite.octets =
      inPages 0 ((fwImage fw).take (s.ptr + min s.len fwPageSize - if signed fw then 32 else 0))
    have hpage := hs.page.resolve_left hnz
    have hlen : ((fwImage fw).take (s.ptr - if signed fw then 32 else 0)).length =
        s.page * fwPageSize := by
      rw [length_take, fwImage, length_drop]
      omega
    rw [flatMap_append, hs.writes, hoct, Nat.sub_add_comm hstart, take_add, inPages_append, hlen,
      Nat.zero_add, fwImage, drop_drop, Nat.add_sub_cancel' hstart]
  · show s.len - min s.len fwPageSize < s.len
    omega

/-- An image is read inside and ends up on the chip exactly if its header is whole. -/
theorem loadFirmware_iff (fw : List UInt8) (hlen : fw.length < 2 ^ 64) :
    (∀ chip, ∃ ws ok, loadFirmware chip fw = .done (ws, ok) ∧
      (ok = true → ws.flatMap FwWrite.octets = inPages 0 (fwImage fw))) ↔ FwOk fw := by
  constructor
  · intro h
    obtain ⟨ws, ok, hrun, -⟩ := h fun _ => true
    have h2 : 2 ≤ fw.length := by
      by_contra hlt
      have hnone : fw[1]? = none := getElem?_eq_none (by omega)
      rw [loadFirmware, readAt] at hrun
      cases h0 : fw[0]? with
      | none => rw [h0] at hrun; cases hrun
      | some lo => rw [h0, done_bind, readAt, hnone] at hrun; cases hrun
    refine ⟨h2, fun hsig => ?_⟩
    by_contra hlt
    -- What is left of the length wraps, and the first page is read behind the image.
    rw [loadFirmware_eq h2, hsig, if_pos rfl, loop, fwRound,
      if_neg (by simp only []; omega)] at hrun
    dsimp only at hrun
    rw [readN, if_neg (by omega)] at hrun
    cases hrun
  · rintro ⟨h2, hhdr⟩ chip
    have hle : (if signed fw then 32 else 0) ≤ fw.length := by
      split
      · next hsig => exact hhdr hsig
      · omega
    have hstart : AtPage fw ⟨0, if signed fw then 32 else 0,
        (fw.length + 2 ^ 64 - if signed fw then 32 else 0) % 2 ^ 64, []⟩ := by
      refine ⟨?_, .inr (by rw [Nat.zero_mul, Nat.add_zero]), Nat.le_refl _, ?_⟩
      · show (if signed fw then 32 else 0) + (fw.length + 2 ^ 64 - if signed fw then 32 else 0) %
          2 ^ 64 = _
        omega
      · rw [Nat.sub_self, take_zero]
        rfl
    obtain ⟨⟨ws, ok⟩, hrun, hr⟩ := Guarded.exists_done
      (sat_loop FwLoad.len (fwRound_sat chip) (fw.length + 2) _ hstart (by
        show (fw.length + 2 ^ 64 - _) % 2 ^ 64 < _
        omega))
    exact ⟨ws, ok, (loadFirmware_eq h2).trans hrun, hr⟩

/-- A header, and an image of four octets more than a page. -/
def twoPages : List UInt8 := [0xc1, 0x88] ++ replicate 30 0 ++ (range 4100).map UInt8.ofNat

theorem loadFirmware_sample : ∃ ws, loadFirmware (fun _ => true) twoPages = .done (ws, true) ∧
    signed twoPages = true ∧ ws.flatMap FwWrite.octets = inPages 0 (fwImage twoPages) := by
  have hlen : twoPages.length = 4132 := by simp [twoPages]
  have hok : FwOk twoPages := ⟨by omega, fun _ => by omega⟩
  obtain ⟨ws, ok, hrun, hws⟩ := (loadFirmware_iff twoPages (by omega)).mpr hok fun _ => true
  have htrue : (loadFirmware (fun _ => true) twoPages >>= fun r => .done r.2) = .done true := by
    decide +kernel
  rw [hrun] at htrue
  cases htrue
  exact ⟨ws, hrun, by decide, hws rfl⟩

/-- A header and nothing else, or not even that. -/
theorem loadFirmware_reads_outside :
    loadFirmware (fun _ => true) [0xc1, 0x88] = .fault .read ∧
    loadFirmware (fun _ => true) [0] = .fault .read := by
  decide +kernel

end Net80211.Urtwn
