import Mathlib.Algebra.Ring.Nat
import Mathlib.Data.List.Nodup

/-!
# Books on what is handed out

Things are handed out with the numbers below `next`, and given back; `freed` lists what was given
back, in the order that it was. A function takes over the things `c` and leaves `c'` to somebody.
`Moves` says that nothing got lost on the way and nothing was made up: what was held or handed out
meanwhile is either given back or held afterwards, once each.

Functions are put together with `Moves.trans`, and a function that looks at a part of what is held
leaves the rest alone (`Moves.frame`). Where nothing was given back twice and nothing held was given
back (`Clean`), it stays so.
-/

namespace Net80211.Lib

open List

structure Books where
  next : Nat
  freed : List Nat

/-- From `b` to `b'` numbers are handed out and given back, and nothing is taken off the books. -/
structure Books.Le (b b' : Books) : Prop where
  next : b.next ≤ b'.next
  freed : ∀ a, b.freed.count a ≤ b'.freed.count a

/-- From `c` to `c'`: the balance for each number `a`, where `new a` says whether it was handed
out. -/
def Moves (b : Books) (c : List Nat) (b' : Books) (c' : List Nat) : Prop :=
  b.Le b' ∧ ∃ new : Nat → Nat, (∀ a, new a ≤ if b.next ≤ a ∧ a < b'.next then 1 else 0) ∧
    ∀ a, b.freed.count a + c.count a + new a = b'.freed.count a + c'.count a

variable {b b₁ b' : Books} {c c₁ c' d : List Nat} {a : Nat}

theorem Books.Le.refl (b : Books) : b.Le b := ⟨Nat.le_refl _, fun _ => Nat.le_refl _⟩

theorem Books.Le.trans (h : b.Le b₁) (h' : b₁.Le b') : b.Le b' :=
  ⟨Nat.le_trans h.next h'.next, fun a => Nat.le_trans (h.freed a) (h'.freed a)⟩

theorem Moves.refl (b : Books) (c : List Nat) : Moves b c b c :=
  ⟨.refl b, fun _ => 0, fun _ => Nat.zero_le _, fun _ => rfl⟩

theorem Moves.trans (h : Moves b c b₁ c₁) (h' : Moves b₁ c₁ b' c') : Moves b c b' c' := by
  obtain ⟨hle, new, hnew, hbal⟩ := h
  obtain ⟨hle', new', hnew', hbal'⟩ := h'
  have hnext := hle.next
  have hnext' := hle'.next
  refine ⟨hle.trans hle', fun a => new a + new' a, fun a => ?_, fun a => ?_⟩
  · have h1 := hnew a
    have h2 := hnew' a
    show new a + new' a ≤ _
    split at h1 <;> split at h2 <;> split <;> omega
  · have h1 := hbal a
    have h2 := hbal' a
    show b.freed.count a + c.count a + (new a + new' a) = _
    omega

theorem Moves.frame (h : Moves b c b' c') (d : List Nat) : Moves b (c ++ d) b' (c' ++ d) := by
  obtain ⟨hle, new, hnew, hbal⟩ := h
  refine ⟨hle, new, hnew, fun a => ?_⟩
  have := hbal a
  rw [count_append, count_append]
  omega

theorem Moves.perm (h : Moves b c b' c') (hc : c.Perm c₁) (hc' : c'.Perm d) : Moves b c₁ b' d := by
  obtain ⟨hle, new, hnew, hbal⟩ := h
  refine ⟨hle, new, hnew, fun a => ?_⟩
  rw [← hc.count_eq, ← hc'.count_eq]
  exact hbal a

theorem Moves.take (freed : List Nat) (n : Nat) : Moves ⟨n, freed⟩ [] ⟨n + 1, freed⟩ [n] := by
  refine ⟨⟨Nat.le_succ n, fun _ => Nat.le_refl _⟩, fun a => [n].count a, fun a => ?_, fun a => ?_⟩
  · show [n].count a ≤ if n ≤ a ∧ a < n + 1 then 1 else 0
    by_cases ha : n = a
    · rw [ha, if_pos (by omega)]
      exact count_le_length
    · rw [count_eq_zero.mpr fun hmem => ha (mem_singleton.mp hmem).symm]
      exact Nat.zero_le _
  · show freed.count a + 0 + [n].count a = freed.count a + [n].count a
    omega

theorem Moves.skip (freed : List Nat) (n : Nat) : Moves ⟨n, freed⟩ [] ⟨n + 1, freed⟩ [] :=
  ⟨⟨Nat.le_succ n, fun _ => Nat.le_refl _⟩, fun _ => 0, fun _ => Nat.zero_le _, fun _ => rfl⟩

theorem Moves.give (n : Nat) (freed c : List Nat) : Moves ⟨n, freed⟩ c ⟨n, freed ++ c⟩ [] := by
  have hcount : ∀ a, (freed ++ c).count a = freed.count a + c.count a := fun a => count_append
  refine ⟨⟨Nat.le_refl n, fun a => ?_⟩, fun _ => 0, fun _ => Nat.zero_le _, fun a => ?_⟩
  · show freed.count a ≤ (freed ++ c).count a
    rw [hcount]
    exact Nat.le_add_right _ _
  · show freed.count a + c.count a + 0 = (freed ++ c).count a + 0
    rw [hcount]

/-- Nothing was given back twice, nothing that is held was given back, and all of it was handed
out. -/
structure Clean (b : Books) (c : List Nat) : Prop where
  nodup : (b.freed ++ c).Nodup
  below : ∀ a ∈ b.freed ++ c, a < b.next

theorem Clean.count_le (h : Clean b c) (a : Nat) :
    b.freed.count a + c.count a ≤ if a < b.next then 1 else 0 := by
  have hone := nodup_iff_count_le_one.mp h.nodup a
  rw [count_append] at hone
  split
  · exact hone
  · next hlt =>
    have h0 : (b.freed ++ c).count a = 0 := count_eq_zero.mpr fun hmem => hlt (h.below a hmem)
    rw [count_append] at h0
    omega

theorem clean_of_count_le (h : ∀ a, b.freed.count a + c.count a ≤ if a < b.next then 1 else 0) :
    Clean b c := by
  refine ⟨nodup_iff_count_le_one.mpr fun a => ?_, fun a ha => ?_⟩
  · have := h a
    rw [count_append]
    split at this <;> omega
  · have hpos := count_pos_iff.mpr ha
    have := h a
    rw [count_append] at hpos
    split at this
    · assumption
    · omega

theorem Clean.perm (h : Clean b c) (hc : c.Perm c') : Clean b c' := by
  refine clean_of_count_le fun a => ?_
  rw [← hc.count_eq]
  exact h.count_le a

theorem Clean.take {n k : Nat} {freed : List Nat} (h : Clean ⟨n, freed⟩ c) :
    Clean ⟨n + k, freed⟩ (c ++ range' n k) := by
  refine clean_of_count_le fun a => ?_
  have h1 : freed.count a + c.count a ≤ if a < n then 1 else 0 := h.count_le a
  have h2 : (range' n k).count a ≤ 1 := nodup_iff_count_le_one.mp nodup_range' a
  have h3 : (range' n k).count a = 0 ∨ n ≤ a ∧ a < n + k := by
    by_cases hmem : a ∈ range' n k
    · exact .inr (mem_range'_1.mp hmem)
    · exact .inl (count_eq_zero.mpr hmem)
  show freed.count a + (c ++ range' n k).count a ≤ if a < n + k then 1 else 0
  rw [count_append]
  split at h1 <;> split <;> omega

theorem Moves.clean (h : Moves b c b' c') (hc : Clean b c) : Clean b' c' := by
  obtain ⟨⟨hle, -⟩, new, hnew, hbal⟩ := h
  refine clean_of_count_le fun a => ?_
  have h1 := hc.count_le a
  have h2 := hnew a
  have h3 := hbal a
  split at h1 <;> split at h2 <;> split <;> omega

/-- What was held is given back or still held. -/
theorem Moves.mem (h : Moves b c b' c') (ha : a ∈ b.freed ++ c) : a ∈ b'.freed ++ c' := by
  obtain ⟨-, new, -, hbal⟩ := h
  have hpos := count_pos_iff.mpr ha
  have := hbal a
  rw [count_append] at hpos
  refine count_pos_iff.mp ?_
  rw [count_append]
  omega

/-- Who held nothing holds only what was handed out meanwhile. -/
theorem Moves.fresh (h : Moves b [] b' c') (ha : a ∈ c') : b.next ≤ a := by
  obtain ⟨hle, new, hnew, hbal⟩ := h
  have hpos := count_pos_iff.mpr ha
  have h1 := hnew a
  have h2 := hbal a
  have h3 := hle.freed a
  rw [count_nil] at h2
  split at h1 <;> omega

theorem Books.Le.mem (h : b.Le b') (ha : a ∈ b.freed) : a ∈ b'.freed :=
  count_pos_iff.mp (Nat.lt_of_lt_of_le (count_pos_iff.mpr ha) (h.freed a))

theorem Books.Le.not_nodup (h : b.Le b') (hn : ¬ b.freed.Nodup) : ¬ b'.freed.Nodup := by
  refine fun hn' => hn (nodup_iff_count_le_one.mpr fun a => ?_)
  exact Nat.le_trans (h.freed a) (nodup_iff_count_le_one.mp hn' a)

end Net80211.Lib
