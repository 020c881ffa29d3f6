import Net80211.Iwm.Nvm

/-!
# What is read of an NVM section

Every chunk is read from the start of the section to the start of the buffer. So a section is read
as it should be if one chunk is all there is to read; a longer one is taken for as long as the
buffer, with its first chunk at the start and behind that whatever the buffer had.
-/

namespace Net80211.Iwm

open Lib List Option

variable {nvm : UInt16 → List UInt8} {nvmSection : UInt16} {maxLen : Nat}

theorem window_getD (l : List UInt8) {n : Nat} (h : n ≤ l.length) :
    window (fun i => l.getD i 0) 0 n = l.take n := by
  refine ext_getElem? fun k => ?_
  by_cases hk : k < n
  · rw [getElem?_window _ _ _ _ hk, getElem?_take_of_lt hk, Nat.zero_add, getD_eq_getElem?_getD,
      getElem?_eq_getElem (by omega), getD_some]
  · rw [getElem?_eq_none (by rw [length_window]; omega),
      getElem?_eq_none (by rw [length_take]; omega)]

theorem nvmReadChunk_faithful (nvm : UInt16 → List UInt8) (nvmSection offset : UInt16)
    (data : Nat → UInt8) :
    nvmReadChunk (faithfulNvm nvm) nvmSection offset nvmDefaultChunkSize data =
      .ok (store data 0 ((nvm nvmSection).take 2048),
        UInt16.ofNat (min 2048 (nvm nvmSection).length)) := by
  have hlen : (UInt16.ofNat (min 2048 (nvm nvmSection).length)).toNat =
      min 2048 (nvm nvmSection).length :=
    UInt16.toNat_ofNat_of_lt' (Nat.lt_of_le_of_lt (Nat.min_le_left _ _) (by decide))
  have hle : ¬ UInt16.ofNat (min 2048 (nvm nvmSection).length) > nvmDefaultChunkSize := by
    rw [gt_iff_lt, UInt16.lt_iff_toNat_lt, hlen]
    exact Nat.not_lt.mpr (Nat.min_le_left _ _)
  have hwin : window (fun i => (nvm nvmSection).getD i 0) 0 (min 2048 (nvm nvmSection).length) =
      (nvm nvmSection).take 2048 := by
    rw [window_getD _ (Nat.min_le_right _ _)]
    exact take_eq_take_iff.mpr (by omega)
  have hoff : ((0 : UInt16)).toNat = 0 := rfl
  rw [nvmReadChunk, faithfulNvm]
  simp only [hoff, drop_zero, show nvmDefaultChunkSize.toNat = 2048 from rfl, hlen, hwin,
    if_neg hle, Bool.false_eq_true, if_false, ne_eq, not_true_eq_false]

theorem nvmReadLoop_short (hshort : (nvm nvmSection).length < 2048) (hmax : 0 < maxLen) (fuel : Nat)
    (data : Nat → UInt8) : nvmReadSection (faithfulNvm nvm) nvmSection maxLen (fuel + 2) data =
      some (none, store data 0 (nvm nvmSection), UInt16.ofNat (nvm nvmSection).length) := by
  have hne : ¬ (UInt16.ofNat (nvm nvmSection).length = nvmDefaultChunkSize) := by
    intro heq
    have htoNat := congrArg UInt16.toNat heq
    rw [UInt16.toNat_ofNat_of_lt' (Nat.lt_trans hshort (by decide)),
      show nvmDefaultChunkSize.toNat = 2048 from rfl] at htoNat
    omega
  rw [nvmReadSection, nvmReadLoop, if_pos ⟨rfl, hmax⟩, nvmReadChunk_faithful]
  dsimp only
  rw [Nat.min_eq_right (Nat.le_of_lt hshort), take_of_length_le (Nat.le_of_lt hshort), nvmReadLoop,
    if_neg (fun h => hne h.1), UInt16.zero_add]

theorem nvmReadChunk_long (hlong : 2048 ≤ (nvm nvmSection).length) (offset : UInt16)
    (data : Nat → UInt8) :
    nvmReadChunk (faithfulNvm nvm) nvmSection offset nvmDefaultChunkSize data =
      .ok (store data 0 ((nvm nvmSection).take 2048), nvmDefaultChunkSize) := by
  rw [nvmReadChunk_faithful, Nat.min_eq_left hlong]
  rfl

/-- Of a longer section the loop reads chunks until the length has reached that of the buffer.
Nothing is written behind the first chunk. -/
theorem nvmReadLoop_long (hlong : 2048 ≤ (nvm nvmSection).length) {err : Option Errno}
    {data' : Nat → UInt8} {len' : UInt16} : ∀ {fuel : Nat} {data : Nat → UInt8} {len : UInt16},
    len.toNat % 2048 = 0 →
      nvmReadLoop (faithfulNvm nvm) nvmSection maxLen fuel data len nvmDefaultChunkSize =
      some (err, data', len') →
      err = none ∧ maxLen ≤ len'.toNat ∧ len'.toNat % 2048 = 0 ∧ ∀ i, 2048 ≤ i →
      data' i = data i := by
  intro fuel
  induction fuel with
  | zero => intro data len _ hr; cases hr
  | succ fuel ih =>
    intro data len hmod hr
    rw [nvmReadLoop] at hr
    by_cases hmore : len.toNat < maxLen
    · rw [if_pos ⟨rfl, hmore⟩, nvmReadChunk_long hlong] at hr
      have hmod' : (len + nvmDefaultChunkSize).toNat % 2048 = 0 := by
        rw [UInt16.toNat_add, show nvmDefaultChunkSize.toNat = 2048 from rfl]
        omega
      obtain ⟨herr, hlen, hmult, hkept⟩ := ih hmod' hr
      refine ⟨herr, hlen, hmult, fun i hi => (hkept i hi).trans (store_of_ge _ ?_)⟩
      rw [length_take]
      omega
    · rw [if_neg (fun h => hmore h.2)] at hr
      cases hr
      exact ⟨rfl, Nat.not_lt.mp hmore, hmod, fun _ _ => rfl⟩

/-- The function returns, and has read as much of the section as the buffer takes. -/
def ReadsSection (nvm : UInt16 → List UInt8) (nvmSection : UInt16) (maxLen : Nat)
    (data : Nat → UInt8) : Prop :=
  ∃ fuel data' len, nvmReadSection (faithfulNvm nvm) nvmSection maxLen fuel data =
    some (none, data', len) ∧
    len.toNat = min (nvm nvmSection).length maxLen ∧
    window data' 0 len.toNat = (nvm nvmSection).take len.toNat

theorem ReadsSection.short (hshort : (nvm nvmSection).length < 2048)
    (hle : (nvm nvmSection).length ≤ maxLen) (hmax : 0 < maxLen) (data : Nat → UInt8) :
    ReadsSection nvm nvmSection maxLen data := by
  have hlen : (UInt16.ofNat (nvm nvmSection).length).toNat = (nvm nvmSection).length :=
    UInt16.toNat_ofNat_of_lt' (Nat.lt_trans hshort (by decide))
  refine ⟨2, _, _, nvmReadLoop_short hshort hmax 0 data, ?_, ?_⟩
  · rw [hlen, Nat.min_eq_left hle]
  · rw [hlen, window_store_same, take_length]

theorem ReadsSection.chunk (hlong : 2048 ≤ (nvm nvmSection).length) (data : Nat → UInt8) :
    ReadsSection nvm nvmSection 2048 data := by
  have htake : ((nvm nvmSection).take 2048).length = 2048 := by
    rw [length_take, Nat.min_eq_left hlong]
  have hwin := window_store_same data ((nvm nvmSection).take 2048) 0
  rw [htake] at hwin
  refine ⟨2, _, nvmDefaultChunkSize, ?_, (Nat.min_eq_right hlong).symm, hwin⟩
  rw [nvmReadSection, nvmReadLoop, if_pos ⟨rfl, by decide⟩, nvmReadChunk_long hlong]
  rfl

theorem succ_ne_self {b : UInt8} : b + 1 ≠ b := by
  intro h
  have htoNat := congrArg UInt8.toNat h
  have hlt := b.toNat_lt
  rw [UInt8.toNat_add, show (1 : UInt8).toNat = 1 from rfl] at htoNat
  omega

/-- A section is read as it should be, whatever the buffer has in it, exactly if there is no room,
or the section has less than a chunk and fits, or the buffer is as long as a chunk and the section
is not shorter. -/
theorem nvm_read_section_iff (nvm : UInt16 → List UInt8) (nvmSection : UInt16) (maxLen : Nat) :
    (∀ data, ReadsSection nvm nvmSection maxLen data) ↔
      maxLen = 0 ∨ ((nvm nvmSection).length < 2048 ∧ (nvm nvmSection).length ≤ maxLen) ∨
        (maxLen = 2048 ∧ 2048 ≤ (nvm nvmSection).length) := by
  constructor
  · intro h
    by_cases hmax : maxLen = 0
    · exact .inl hmax
    rcases Nat.lt_or_ge (nvm nvmSection).length 2048 with hshort | hlong
    · obtain ⟨fuel, data', len, hr, hlen, -⟩ := h fun _ => 0
      obtain ⟨fuel, rfl⟩ : ∃ n, fuel = n + 2 := by
        cases fuel with
        | zero => cases hr
        | succ fuel =>
          cases fuel with
          | zero =>
            rw [nvmReadSection, nvmReadLoop, if_pos ⟨rfl, Nat.pos_of_ne_zero hmax⟩,
              nvmReadChunk_faithful] at hr
            cases hr
          | succ fuel => exact ⟨fuel, rfl⟩
      rw [nvmReadLoop_short hshort (Nat.pos_of_ne_zero hmax)] at hr
      cases hr
      rw [UInt16.toNat_ofNat_of_lt' (Nat.lt_trans hshort (by decide))] at hlen
      exact .inr (.inl ⟨hshort, by omega⟩)
    · -- a buffer that differs from the section right behind the first chunk
      obtain ⟨fuel, data', len, hr, hlen, hwin⟩ := h fun _ => (nvm nvmSection).getD 2048 0 + 1
      obtain ⟨-, hge, hmult, hkept⟩ := nvmReadLoop_long hlong (by decide) hr
      have hfull : len.toNat = maxLen := by omega
      rw [hfull] at hwin hmult
      by_contra hcond
      have hbig : 2048 < maxLen := by omega
      have hat : (window data' 0 maxLen)[2048]? = ((nvm nvmSection).take maxLen)[2048]? := by
        rw [hwin]
      rw [getElem?_window _ _ _ _ hbig, getElem?_take_of_lt hbig, hkept _ (by omega),
        getD_eq_getElem?_getD, getElem?_eq_getElem (by omega), getD_some] at hat
      exact succ_ne_self (Option.some.inj hat)
  · rintro (rfl | ⟨hshort, hle⟩ | ⟨rfl, hlong⟩) data
    · exact ⟨1, data, 0, rfl, (Nat.min_zero _).symm, rfl⟩
    · by_cases hmax : maxLen = 0
      · subst hmax
        exact ⟨1, data, 0, rfl, (Nat.min_zero _).symm, rfl⟩
      · exact .short hshort hle (Nat.pos_of_ne_zero hmax) data
    · exact .chunk hlong data

/-- A section of 3000 octets, read into the buffer of the driver: the length is that of the buffer,
and behind the first chunk is what the buffer had. With a buffer of 1000 octets the length is that
of a chunk. -/
theorem nvm_read_section_overlong :
    (nvmReadSection (faithfulNvm fun _ => replicate 3000 7) 0 16384 9 fun _ => 0).map
      (fun r => (r.1, r.2.2, r.2.1 2047, r.2.1 2048)) = some (none, 16384, 7, 0) ∧
    (nvmReadSection (faithfulNvm fun _ => replicate 3000 7) 0 1000 2 fun _ => 0).map
      (fun r => (r.1, r.2.2, r.2.1 1000)) = some (none, 2048, 7) := by
  decide +kernel

end Net80211.Iwm
