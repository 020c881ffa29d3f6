import Mathlib.Algebra.Ring.Nat
import Mathlib.Data.List.GetD
import Mathlib.Tactic.Common

/-!
# Windows of a memory

A buffer in memory is a function from offsets to octets together with a window,
the octets that count. `window` reads the window as a list, `store` writes a
list at an offset, and the lemmas say what a window looks like after a store:
the same if the two are apart, and `patch`ed if the store lies inside.

The last part is about data handled in pieces. `runChunks` threads a state
through a list of pieces and collects what comes out of each.
-/

namespace Net80211.Lib

open List Option

variable {α : Type}

/-- The `n` octets from offset `i` on. -/
def window (f : Nat → α) : Nat → Nat → List α
  | _, 0 => []
  | i, n + 1 => f i :: window f (i + 1) n

/-- Write `p` at offset `i`. -/
def store (f : Nat → α) (i : Nat) (p : List α) : Nat → α := fun j =>
  if i ≤ j then (p[j - i]?).getD (f j) else f j

/-- Replace a part of a list, from position `i` on. -/
def patch (l : List α) (i : Nat) (p : List α) : List α :=
  l.take i ++ p ++ l.drop (i + p.length)

/-! ## Windows -/

@[simp] theorem length_window (f : Nat → α) : ∀ (n i : Nat), (window f i n).length = n := by
  intro n
  induction n with
  | zero => intro i; rfl
  | succ n ih => intro i; rw [window, length_cons, ih]

theorem window_add (f : Nat → α) : ∀ (m n i : Nat),
    window f i (m + n) = window f i m ++ window f (i + m) n := by
  intro m
  induction m with
  | zero => intro n i; rw [Nat.zero_add]; rfl
  | succ m ih =>
    intro n i
    rw [show m + 1 + n = m + n + 1 by omega, window, ih, window, cons_append,
      show i + (m + 1) = i + 1 + m by omega]

theorem window_shift (f : Nat → α) (d : Nat) : ∀ (n i : Nat),
    window (fun j => f (d + j)) i n = window f (d + i) n := by
  intro n
  induction n with
  | zero => intro i; rfl
  | succ n ih => intro i; rw [window, window, ih, Nat.add_assoc]

theorem take_window (f : Nat → α) (i : Nat) {k n : Nat} (h : k ≤ n) :
    (window f i n).take k = window f i k := by
  rw [show n = k + (n - k) by omega, window_add, take_left' (length_window f k i)]

theorem drop_window (f : Nat → α) (i k n : Nat) :
    (window f i n).drop k = window f (i + k) (n - k) := by
  by_cases h : k ≤ n
  · conv => lhs; rw [show n = k + (n - k) by omega, window_add]
    exact drop_left' (length_window f k i)
  · rw [show n - k = 0 by omega, window, drop_eq_nil_of_le (by rw [length_window]; omega)]

theorem window_congr {f g : Nat → α} : ∀ (n i : Nat), (∀ k < n, f (i + k) = g (i + k)) →
    window f i n = window g i n := by
  intro n
  induction n with
  | zero => intro i _; rfl
  | succ n ih =>
    intro i h
    have h0 : f i = g i := h 0 (by omega)
    rw [window, window, h0]
    congr 1
    refine ih (i + 1) fun k hk => ?_
    rw [show i + 1 + k = i + (k + 1) by omega]
    exact h (k + 1) (by omega)

theorem getElem?_window (f : Nat → α) : ∀ (n i k : Nat), k < n →
    (window f i n)[k]? = some (f (i + k)) := by
  intro n
  induction n with
  | zero => intro i k h; exact absurd h (by omega)
  | succ n ih =>
    intro i k h
    rw [window]
    cases k with
    | zero => rfl
    | succ k =>
      rw [getElem?_cons_succ, ih _ _ (by omega), show i + 1 + k = i + (k + 1) by omega]

/-! ## Stores -/

variable {i j : Nat}

theorem store_of_lt (f : Nat → α) (p : List α) (h : j < i) : store f i p j = f j := by
  rw [store, if_neg (by omega)]

variable {p a l q : List α}

theorem store_of_ge (f : Nat → α) (h : i + p.length ≤ j) : store f i p j = f j := by
  rw [store, if_pos (by omega), getElem?_eq_none (by omega), getD_none]

theorem store_add (f : Nat → α) (i k : Nat) (p : List α) :
    store f i p (i + k) = (p[k]?).getD (f (i + k)) := by
  rw [store, if_pos (by omega), show i + k - i = k by omega]

theorem store_singleton (f : Nat → α) (i j : Nat) (x : α) :
    store f i [x] j = if j = i then x else f j := by
  rcases Nat.lt_trichotomy j i with hlt | heq | hgt
  · rw [store_of_lt f [x] hlt, if_neg (by omega)]
  · rw [heq, if_pos rfl]
    exact store_add f i 0 [x]
  · rw [store_of_ge f (by rw [length_singleton]; omega), if_neg (by omega)]

theorem store_store {f : Nat → α} (h : p.length = q.length) :
    store (store f i p) i q = store f i q := by
  funext j
  by_cases hj : i ≤ j
  · obtain ⟨k, rfl⟩ : ∃ k, j = i + k := ⟨j - i, by omega⟩
    rw [store_add, store_add, store_add]
    by_cases hk : k < q.length
    · rw [getElem?_eq_getElem hk, getD_some, getD_some]
    · rw [getElem?_eq_none (by omega), getElem?_eq_none (by omega)]
      rfl
  · rw [store_of_lt _ _ (by omega), store_of_lt _ _ (by omega), store_of_lt _ _ (by omega)]

theorem window_store_of_disjoint (f : Nat → α) {a n : Nat} (h : a + n ≤ i ∨ i + p.length ≤ a) :
    window (store f i p) a n = window f a n := by
  refine window_congr n a fun k hk => ?_
  rcases h with h | h
  · exact store_of_lt f p (by omega)
  · exact store_of_ge f (by omega)

theorem window_store_same (f : Nat → α) (p : List α) (i : Nat) :
    window (store f i p) i p.length = p := by
  refine ext_getElem? fun k => ?_
  by_cases hk : k < p.length
  · rw [getElem?_window _ _ _ _ hk, store_add, getElem?_eq_getElem hk, getD_some]
  · rw [getElem?_eq_none (by rw [length_window]; omega), getElem?_eq_none (by omega)]

theorem window_store (f : Nat → α) {a n : Nat} (h : i + p.length ≤ n) :
    window (store f (a + i) p) a n = patch (window f a n) i p := by
  obtain ⟨r, rfl⟩ : ∃ r, n = i + p.length + r := ⟨n - (i + p.length), by omega⟩
  rw [window_add, window_add, window_store_of_disjoint f (Or.inl (Nat.le_refl _)),
    window_store_same, window_store_of_disjoint f (Or.inr (by omega)), patch,
    take_window f a (by omega), drop_window]
  congr 2
  omega

/-! ## Patches -/

theorem patch_nil (l : List α) (i : Nat) : patch l i [] = l := by
  rw [patch, append_nil, length_nil, Nat.add_zero, take_append_drop]

theorem length_patch (h : i + p.length ≤ l.length) :
    (patch l i p).length = l.length := by
  rw [patch, length_append, length_append, length_take, length_drop]
  omega

theorem drop_patch {k : Nat} (h : i + p.length ≤ l.length) (hk : i + p.length ≤ k) :
    (patch l i p).drop k = l.drop k := by
  have hlen : (l.take i ++ p).length = i + p.length := by
    rw [length_append, length_take]
    omega
  rw [patch, drop_append, drop_eq_nil_of_le (by omega), hlen, drop_drop, nil_append]
  congr 1
  omega

theorem patch_append_right (b : List α) (p : List α) (h : a.length ≤ i) :
    patch (a ++ b) i p = a ++ patch b (i - a.length) p := by
  rw [patch, patch, take_append, drop_append, take_of_length_le h,
    drop_eq_nil_of_le (by omega), nil_append, append_assoc, append_assoc,
    append_assoc, show i + p.length - a.length = i - a.length + p.length by omega]

theorem patch_append_left (b : List α) (h : i + p.length ≤ a.length) :
    patch (a ++ b) i p = patch a i p ++ b := by
  rw [patch, patch, take_append, drop_append, show i - a.length = 0 by omega,
    show i + p.length - a.length = 0 by omega, take_zero, append_nil, drop_zero,
    append_assoc, append_assoc, append_assoc]

theorem patch_append (b : List α) (q : List α) (h : i + p.length = a.length) :
    patch (a ++ b) i (p ++ q) = patch a i p ++ patch b 0 q := by
  rw [patch, patch, patch, take_append, drop_append, length_append,
    show i - a.length = 0 by omega, show i + (p.length + q.length) - a.length = q.length by omega,
    drop_eq_nil_of_le (show a.length ≤ i + (p.length + q.length) by omega),
    drop_eq_nil_of_le (show a.length ≤ i + p.length by omega), take_zero,
    append_nil, append_nil, nil_append, nil_append, Nat.zero_add]
  simp only [append_assoc]

theorem patch_middle {b : List α} (c : List α) {b' : List α} (h : b'.length = b.length) :
    patch (a ++ b ++ c) a.length b' = a ++ b' ++ c := by
  rw [patch, h, drop_left' (by rw [length_append]), append_assoc a b c, take_left' rfl]

theorem patch_patch (h : p.length = q.length) (hi : i ≤ l.length) :
    patch (patch l i p) i q = patch l i q := by
  have hlen : (l.take i).length = i := by rw [length_take]; omega
  have htake : (patch l i p).take i = l.take i := by
    rw [patch, append_assoc, take_left' hlen]
  have hdrop : (patch l i p).drop (i + q.length) = l.drop (i + q.length) := by
    rw [patch, drop_left' (by rw [length_append]; omega), h]
  conv => lhs; rw [patch, htake, hdrop]
  rw [patch]

/-! ## Data in pieces -/

/-- Thread a state through the pieces and collect what comes out. -/
def runChunks {σ : Type} (f : σ → List α → Option (σ × List α)) :
    σ → List (List α) → Option (σ × List α)
  | s, [] => some (s, [])
  | s, p :: ps =>
    match f s p with
    | none => none
    | some (s, q) =>
      match runChunks f s ps with
      | none => none
      | some (s, q') => some (s, q ++ q')

end Net80211.Lib
