import Mathlib.Algebra.Ring.Nat
import Mathlib.Data.List.Sort

/-!
# Lists by a key and by arrival

An element goes in front of the first one with a larger key. So a list that is sorted by
its keys stays sorted, and among equal keys the order is that of arrival: the elements
are numbered, and `Earlier` orders them by key and number. What is not in front of an
element when it is its turn never gets there (`orderedInsert_append`).
-/

namespace Net80211.Lib

open List

variable {α τ : Type} [LinearOrder τ] {key : α → τ} {num : α → Nat}

/-- A smaller key, or the same one and a smaller number. -/
def Earlier (key : α → τ) (num : α → Nat) (x y : α) : Prop :=
  key x < key y ∨ key x = key y ∧ num x < num y

theorem Earlier.key_le {x y : α} (h : Earlier key num x y) : key x ≤ key y :=
  h.elim le_of_lt fun h => le_of_eq h.1

variable {r : α → α → Prop} [DecidableRel r]

theorem pairwise_orderedInsert {a : α} {l : List α} (hr : ∀ x ∈ l, r a x ↔ key a < key x)
    (hl : l.Pairwise (Earlier key num)) (hnew : ∀ x ∈ l, num x < num a) :
    (l.orderedInsert r a).Pairwise (Earlier key num) := by
  induction l with
  | nil => exact pairwise_singleton _ a
  | cons x l ih =>
    obtain ⟨hx, hl⟩ := pairwise_cons.mp hl
    have hrx := hr x mem_cons_self
    rw [orderedInsert]
    split
    case isTrue hlt =>
      refine pairwise_cons.mpr ⟨?_, pairwise_cons.mpr ⟨hx, hl⟩⟩
      intro y hy
      rcases mem_cons.mp hy with rfl | hy
      · exact .inl (hrx.mp hlt)
      · exact .inl (lt_of_lt_of_le (hrx.mp hlt) (hx y hy).key_le)
    case isFalse hge =>
      refine pairwise_cons.mpr ⟨?_, ih (fun y hy => hr y (mem_cons_of_mem _ hy)) hl
        fun y hy => hnew y (mem_cons_of_mem _ hy)⟩
      intro y hy
      rcases (mem_orderedInsert _).mp hy with rfl | hy
      · exact (lt_or_eq_of_le (not_lt.mp (mt hrx.mpr hge))).imp_right
          fun h => ⟨h, hnew x mem_cons_self⟩
      · exact hx y hy

theorem orderedInsert_append {a : α} {l₁ l₂ : List α} (hle : ∀ x ∈ l₁, ¬ r a x) :
    (l₁ ++ l₂).orderedInsert r a = l₁ ++ l₂.orderedInsert r a := by
  induction l₁ with
  | nil => rfl
  | cons x l₁ ih =>
    rw [cons_append, orderedInsert, if_neg (hle x mem_cons_self),
      ih fun y hy => hle y (mem_cons_of_mem _ hy), cons_append]

end Net80211.Lib
