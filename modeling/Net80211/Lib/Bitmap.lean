import Mathlib.Algebra.Ring.Nat
import Mathlib.Data.Finset.Card

/-!
# Bitmaps

A bitmap is an array of words, and bit `n` is bit `n % w` of word `n / w`. `setbit` and
`clrbit` change one bit and no other (`isset_setbit`, `isset_clrbit`), so the number of bits
that are set goes up or down by one.

A bitmap can be sent as the words from the first that is not zero to the last. `first` and
`last` look for them, and `Spans` says that a range of words has them all. A receiver has the
bitmap if and only if it knows where the words start (`received_iff`).

A bitmap can also say which numbers are in use (`Names`), and then it has to be changed
whenever a number is given to someone or taken back.
-/

namespace Net80211.Lib

open List Function Option

variable {w : Nat}

/-- `1 << n`. -/
def Bitmap.mask (w n : Nat) : BitVec w := BitVec.twoPow w (n % w)

def Bitmap.isset (p : Nat → BitVec w) (n : Nat) : Bool := p (n / w) &&& Bitmap.mask w n != 0#w

def Bitmap.setbit (p : Nat → BitVec w) (n : Nat) : Nat → BitVec w :=
  update p (n / w) (p (n / w) ||| Bitmap.mask w n)

def Bitmap.clrbit (p : Nat → BitVec w) (n : Nat) : Nat → BitVec w :=
  update p (n / w) (p (n / w) &&& ~~~ Bitmap.mask w n)

namespace Bitmap

variable {p : Nat → BitVec w} {m n : Nat}

theorem isset_eq (hw : 0 < w) (p : Nat → BitVec w) (n : Nat) :
    isset p n = (p (n / w)).getLsbD (n % w) := by
  have hlt : n % w < w := Nat.mod_lt n hw
  rw [isset, mask, BitVec.and_twoPow]
  cases hb : (p (n / w)).getLsbD (n % w) with
  | false => simp
  | true =>
    rw [if_pos rfl, bne_iff_ne]
    intro h0
    have h1 : (BitVec.twoPow w (n % w)).getLsbD (n % w) = true := by
      rw [BitVec.getLsbD_twoPow]
      simp [hlt]
    rw [h0, BitVec.getLsbD_zero] at h1
    cases h1

/-- Two bits of one word are one bit if they are at one place. -/
theorem eq_of_div_mod (hq : m / w = n / w) (hr : m % w = n % w) : m = n := by
  rw [← Nat.div_add_mod m w, ← Nat.div_add_mod n w, hq, hr]

theorem isset_setbit (hw : 0 < w) (p : Nat → BitVec w) (m n : Nat) :
    isset (setbit p m) n = (decide (n = m) || isset p n) := by
  have hlt : n % w < w := Nat.mod_lt n hw
  rw [isset_eq hw, isset_eq hw, setbit]
  by_cases hq : n / w = m / w
  · rw [← hq, update_self, BitVec.getLsbD_or, mask, BitVec.getLsbD_twoPow]
    have hr : (m % w = n % w) = (n = m) :=
      propext ⟨fun h => eq_of_div_mod hq h.symm, fun h => by rw [h]⟩
    simp [hlt, Nat.mod_lt m hw, hr, Bool.or_comm]
  · rw [update_of_ne hq]
    have hne : n ≠ m := fun h => hq (by rw [h])
    simp [hne]

theorem isset_clrbit (hw : 0 < w) (p : Nat → BitVec w) (m n : Nat) :
    isset (clrbit p m) n = (decide (n ≠ m) && isset p n) := by
  have hlt : n % w < w := Nat.mod_lt n hw
  rw [isset_eq hw, isset_eq hw, clrbit]
  by_cases hq : n / w = m / w
  · rw [← hq, update_self, BitVec.getLsbD_and, BitVec.getLsbD_not, mask, BitVec.getLsbD_twoPow]
    have hr : (m % w = n % w) = (n = m) :=
      propext ⟨fun h => eq_of_div_mod hq h.symm, fun h => by rw [h]⟩
    simp [hlt, Nat.mod_lt m hw, hr, Bool.and_comm]
  · rw [update_of_ne hq]
    have hne : n ≠ m := fun h => hq (by rw [h])
    simp [hne]

theorem isset_zero (n : Nat) : isset (fun _ => 0#w) n = false := by
  simp [isset]

theorem word_ne_zero (hw : 0 < w) (h : isset p n = true) : p (n / w) ≠ 0#w := by
  intro h0
  rw [isset_eq hw, h0, BitVec.getLsbD_zero] at h
  cases h

variable {i : Nat}

theorem exists_isset (hw : 0 < w) (h : p i ≠ 0#w) : ∃ n, n / w = i ∧ isset p n = true := by
  by_contra hn
  refine h (BitVec.eq_of_getLsbD_eq fun k hk => ?_)
  rw [BitVec.getLsbD_zero]
  have hdiv : (w * i + k) / w = i := by
    rw [Nat.mul_add_div hw, Nat.div_eq_of_lt hk, Nat.add_zero]
  have hmod : (w * i + k) % w = k := by
    rw [Nat.mul_add_mod, Nat.mod_eq_of_lt hk]
  cases hb : (p i).getLsbD k with
  | false => rfl
  | true => exact absurd ⟨w * i + k, hdiv, by rw [isset_eq hw, hdiv, hmod, hb]⟩ hn

/-! ## The number of bits that are set -/

/-- The bits below `k` that are set. -/
def bits (p : Nat → BitVec w) (k : Nat) : Finset Nat :=
  (Finset.range k).filter fun n => isset p n = true

theorem card_bits_le (p : Nat → BitVec w) (k : Nat) : (bits p k).card ≤ k := by
  calc (bits p k).card ≤ (Finset.range k).card := Finset.card_filter_le _ _
    _ = k := Finset.card_range k

variable {k : Nat}

theorem bits_setbit (hw : 0 < w) (hn : n < k) : bits (setbit p n) k = insert n (bits p k) := by
  ext m
  simp only [bits, Finset.mem_filter, Finset.mem_range, Finset.mem_insert, isset_setbit hw,
    Bool.or_eq_true, decide_eq_true_eq]
  constructor
  · rintro ⟨hm, h | h⟩
    · exact .inl h
    · exact .inr ⟨hm, h⟩
  · rintro (h | ⟨hm, h⟩)
    · exact ⟨h ▸ hn, .inl h⟩
    · exact ⟨hm, .inr h⟩

theorem bits_clrbit (hw : 0 < w) (p : Nat → BitVec w) (n k : Nat) :
    bits (clrbit p n) k = (bits p k).erase n := by
  ext m
  simp only [bits, Finset.mem_filter, Finset.mem_range, Finset.mem_erase, isset_clrbit hw,
    Bool.and_eq_true, decide_eq_true_eq]
  exact and_left_comm

theorem card_setbit (hw : 0 < w) (hn : n < k) (h : isset p n = false) :
    (bits (setbit p n) k).card = (bits p k).card + 1 := by
  rw [bits_setbit hw hn, Finset.card_insert_of_notMem]
  intro hm
  rw [(Finset.mem_filter.mp hm).2] at h
  cases h

theorem card_clrbit (hw : 0 < w) (hn : n < k) (h : isset p n = true) :
    (bits (clrbit p n) k).card + 1 = (bits p k).card := by
  rw [bits_clrbit hw]
  exact Finset.card_erase_add_one (Finset.mem_filter.mpr ⟨Finset.mem_range.mpr hn, h⟩)

/-! ## The words that are not zero -/

/-- The first word below `k` that is not zero. -/
def first (p : Nat → BitVec w) (k : Nat) : Option Nat := (range k).find? fun i => p i != 0#w

/-- The last word below `k` that is not zero, looked for down to word `off`. -/
def last (p : Nat → BitVec w) (off : Nat) : Nat → Option Nat
  | 0 => none
  | i + 1 => if i ≥ off then if p i != 0#w then some i else last p off i else none

/-- All words that are not zero are among the `len` words from `off` on. -/
def Spans (p : Nat → BitVec w) (off len : Nat) : Prop := ∀ i, p i ≠ 0#w → off ≤ i ∧ i < off + len

theorem first_eq_some (h : first p k = some i) : i < k ∧ p i ≠ 0#w ∧ ∀ j, j < i → p j = 0#w := by
  obtain ⟨hi, hk, hlt⟩ := find?_range_eq_some.mp h
  refine ⟨mem_range.mp hk, bne_iff_ne.mp hi, fun j hj => ?_⟩
  have hz := hlt j hj
  rwa [Bool.not_eq_true', bne_eq_false_iff_eq] at hz

variable {off : Nat}

theorem last_eq_some : ∀ {k : Nat}, last p off k = some i →
    off ≤ i ∧ i < k ∧ p i ≠ 0#w ∧ ∀ j, i < j → j < k → p j = 0#w := by
  intro k
  induction k with
  | zero => intro h; cases h
  | succ k ih =>
    intro h
    rw [last, ite_none_right_eq_some] at h
    obtain ⟨hoff, h⟩ := h
    by_cases hk : p k = 0#w
    · rw [if_neg (by simp [hk])] at h
      obtain ⟨h1, h2, h3, h4⟩ := ih h
      refine ⟨h1, by omega, h3, fun j hij hj => ?_⟩
      rcases Nat.lt_or_ge j k with hjk | hjk
      · exact h4 j hij hjk
      · rw [show j = k by omega, hk]
    · rw [if_pos (bne_iff_ne.mpr hk)] at h
      cases h
      exact ⟨hoff, by omega, hk, fun j hij hj => by omega⟩

theorem spans_of_first_last {j : Nat} (hk : ∀ n, p n ≠ 0#w → n < k) (hi : first p k = some i)
    (hoff : off ≤ i) (hj : last p off k = some j) : Spans p off (1 + (j - off)) := by
  intro n hn
  have hin : i ≤ n := by
    by_contra hlt
    exact hn ((first_eq_some hi).2.2 n (by omega))
  have hnj : n ≤ j := by
    by_contra hlt
    exact hn ((last_eq_some hj).2.2.2 n (by omega) (hk n hn))
  omega

/-! ## A bitmap as it is received -/

/-- Bit `n` as a receiver reads it off `len` words which it takes for those from `off` on. -/
def received (c : Nat → BitVec w) (off len n : Nat) : Bool :=
  decide (off ≤ n / w ∧ n / w < off + len) && (c (n / w - off)).getLsbD (n % w)

variable {c : Nat → BitVec w}

theorem received_congr {c' : Nat → BitVec w} (off : Nat) {len : Nat}
    (hc : ∀ i, i < len → c i = c' i) (n : Nat) : received c off len n = received c' off len n := by
  rw [received, received]
  by_cases hin : off ≤ n / w ∧ n / w < off + len
  · rw [hc _ (by omega)]
  · rw [decide_eq_false hin, Bool.false_and, Bool.false_and]

theorem received_eq (hw : 0 < w) {len : Nat} (hspan : Spans p off len)
    (hc : ∀ i, i < len → c i = p (off + i)) (n : Nat) : received c off len n = isset p n := by
  rw [received, isset_eq hw]
  by_cases hin : off ≤ n / w ∧ n / w < off + len
  · rw [hc _ (by omega), show off + (n / w - off) = n / w by omega]
    simp [hin]
  · have hz : p (n / w) = 0#w := by
      by_contra hne
      exact hin (hspan _ hne)
    simp [hin, hz]

/-- A word that is not zero is received at its distance from where the receiver starts. -/
theorem received_word (hw : 0 < w) (off : Nat) {len : Nat} (hi : i < len) (hne : c i ≠ 0#w) :
    ∃ n, n / w = off + i ∧ received c off len n = true := by
  obtain ⟨n, hn, hset⟩ :=
    exists_isset hw (p := fun k => c (k - off)) (i := off + i) (by simpa using hne)
  refine ⟨n, hn, ?_⟩
  rw [isset_eq hw] at hset
  rw [received, hset, Bool.and_true, decide_eq_true_eq, hn]
  omega

/-- A receiver that takes the words for others than they are reads the wrong bits, unless all
are zero. -/
theorem received_iff (hw : 0 < w) {off' len j : Nat} (hspan : Spans p off len)
    (hc : ∀ k, k < len → c k = p (off + k)) (hi : p i ≠ 0#w) (hbelow : ∀ k, k < i → p k = 0#w)
    (hj : p j ≠ 0#w) (habove : ∀ k, j < k → p k = 0#w) :
    (∀ n, received c off' len n = isset p n) ↔ off' = off := by
  refine ⟨fun h => ?_, fun h => h ▸ received_eq hw hspan hc⟩
  -- the word at distance `k` is seen at `off' + k`, where the bitmap has one too
  have hseen : ∀ k, p (off + k) ≠ 0#w → k < len → p (off' + k) ≠ 0#w := by
    intro k hk hlt
    have hck : c k ≠ 0#w := by rwa [hc k hlt]
    obtain ⟨n, hn, hset⟩ := received_word hw off' hlt hck
    rw [h n] at hset
    rw [← hn]
    exact word_ne_zero hw hset
  have hi' := hspan i hi
  have hj' := hspan j hj
  rcases Nat.lt_trichotomy off' off with hlt | heq | hgt
  · refine absurd (hbelow (off' + (i - off)) (by omega)) (hseen (i - off) ?_ (by omega))
    rwa [show off + (i - off) = i by omega]
  · exact heq
  · refine absurd (habove (off' + (j - off)) (by omega)) (hseen (j - off) ?_ (by omega))
    rwa [show off + (j - off) = j by omega]

/-! ## Numbers that are handed out -/

section Names

variable {ν : Type} {f g : ν → Option Nat} {a : Nat} {i : ν}

/-- No two have the same number, and the bits are those of the numbers in use. -/
structure Names (f : ν → Option Nat) (p : Nat → BitVec w) : Prop where
  inj : ∀ {i j a}, f i = some a → f j = some a → i = j
  isset_iff : ∀ a, isset p a = true ↔ ∃ i, f i = some a

theorem Names.of_none (hf : ∀ i, f i = none) : Names f fun _ => 0#w where
  inj := fun {i j a} h => by rw [hf i] at h; cases h
  isset_iff a := by
    rw [isset_zero]
    constructor
    · intro h
      cases h
    · rintro ⟨i, h⟩
      rw [hf i] at h
      cases h

theorem Names.isset_of (h : Names f p) (hi : f i = some a) : isset p a = true :=
  (h.isset_iff a).mpr ⟨i, hi⟩

theorem Names.congr {q : Nat → BitVec w} (h : Names f p) (hq : ∀ a, isset q a = isset p a) :
    Names f q where
  inj := h.inj
  isset_iff a := by rw [hq]; exact h.isset_iff a

theorem Names.clrbit_iff (hw : 0 < w) (h : Names f p) (a : Nat) :
    Names f (clrbit p a) ↔ ¬ ∃ i, f i = some a := by
  rw [← h.isset_iff]
  constructor
  · intro h' hset
    have hclr := (h'.isset_iff a).mpr ((h.isset_iff a).mp hset)
    rw [isset_clrbit hw] at hclr
    simp at hclr
  · intro hclr
    refine h.congr fun b => ?_
    rw [isset_clrbit hw]
    by_cases hb : b = a
    · simp [hb, hclr]
    · simp [hb]

variable [DecidableEq ν]

theorem Names.give (hw : 0 < w) (h : Names f p) (hi : f i = none) (ha : isset p a = false) :
    Names (update f i (some a)) (setbit p a) where
  inj := by
    intro j k b hj hk
    have hfresh : ∀ j, f j ≠ some a := by
      intro j hj
      rw [h.isset_of hj] at ha
      cases ha
    by_cases hji : j = i
    · by_cases hki : k = i
      · rw [hji, hki]
      · rw [hji, update_self] at hj
        rw [update_of_ne hki] at hk
        cases hj
        exact absurd hk (hfresh k)
    · rw [update_of_ne hji] at hj
      by_cases hki : k = i
      · rw [hki, update_self] at hk
        cases hk
        exact absurd hj (hfresh j)
      · rw [update_of_ne hki] at hk
        exact h.inj hj hk
  isset_iff := by
    intro b
    rw [isset_setbit hw, Bool.or_eq_true, decide_eq_true_eq, h.isset_iff]
    constructor
    · rintro (hb | ⟨j, hj⟩)
      · exact ⟨i, by rw [update_self, hb]⟩
      · have hji : j ≠ i := fun hji => by rw [hji, hi] at hj; cases hj
        exact ⟨j, by rw [update_of_ne hji, hj]⟩
    · rintro ⟨j, hj⟩
      by_cases hji : j = i
      · rw [hji, update_self] at hj
        cases hj
        exact .inl rfl
      · rw [update_of_ne hji] at hj
        exact .inr ⟨j, hj⟩

theorem Names.take (hw : 0 < w) (h : Names f p) (hi : f i = some a) :
    Names (update f i none) (clrbit p a) where
  inj := by
    intro j k b hj hk
    have hji : j ≠ i := fun hji => by rw [hji, update_self] at hj; cases hj
    have hki : k ≠ i := fun hki => by rw [hki, update_self] at hk; cases hk
    rw [update_of_ne hji] at hj
    rw [update_of_ne hki] at hk
    exact h.inj hj hk
  isset_iff := by
    intro b
    rw [isset_clrbit hw, Bool.and_eq_true, decide_eq_true_eq, h.isset_iff]
    constructor
    · rintro ⟨hb, j, hj⟩
      have hji : j ≠ i := fun hji => by rw [hji, hi] at hj; cases hj; exact hb rfl
      exact ⟨j, by rw [update_of_ne hji, hj]⟩
    · rintro ⟨j, hj⟩
      have hji : j ≠ i := fun hji => by rw [hji, update_self] at hj; cases hj
      rw [update_of_ne hji] at hj
      refine ⟨fun hb => hji (h.inj hj ?_), j, hj⟩
      rw [hb, hi]

/-- Someone who alone may have number `a` has it from now on or does not, and the bit says so. -/
theorem Names.put (hw : 0 < w) {q : Nat → BitVec w} (h : Names f p) (hi : f i = none ∨ f i = some a)
    (halone : ∀ j, f j = some a → j = i) (v : Bool)
    (hq : ∀ b, isset q b = if b = a then v else isset p b) :
    Names (update f i (if v = true then some a else none)) q := by
  have hnone : f i = none → isset p a = false := by
    intro hi
    refine Bool.eq_false_iff.mpr fun hset => ?_
    obtain ⟨j, hj⟩ := (h.isset_iff a).mp hset
    rw [halone j hj, hi] at hj
    cases hj
  have hsame : isset p a = v → ∀ b, isset q b = isset p b := by
    intro hv b
    rw [hq]
    split
    · next hb => rw [hb, hv]
    · rfl
  cases v with
  | true =>
    rw [if_pos rfl]
    rcases hi with hi | hi
    · refine (h.give hw hi (hnone hi)).congr fun b => ?_
      rw [hq, isset_setbit hw, Bool.if_true_left]
    · rw [← hi, update_eq_self]
      exact h.congr (hsame (h.isset_of hi))
  | false =>
    rw [if_neg Bool.false_ne_true]
    rcases hi with hi | hi
    · rw [← hi, update_eq_self]
      exact h.congr (hsame (hnone hi))
    · refine (h.take hw hi).congr fun b => ?_
      rw [hq, isset_clrbit hw, Bool.if_false_left, decide_not]

/-- A bit stays set when the one who had the number goes. -/
theorem Names.forget_iff (h : Names f p) (i : ν) : Names (update f i none) p ↔ f i = none := by
  constructor
  · intro h'
    cases hi : f i with
    | none => rfl
    | some a =>
      obtain ⟨j, hj⟩ := (h'.isset_iff a).mp (h.isset_of hi)
      have hji : j ≠ i := fun hji => by rw [hji, update_self] at hj; cases hj
      rw [update_of_ne hji] at hj
      exact absurd (h.inj hj hi) hji
  · intro hi
    rwa [← hi, update_eq_self]

end Names

end Bitmap

end Net80211.Lib
