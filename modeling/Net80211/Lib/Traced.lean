import Net80211.Lib.Bytes

/-!
# Programs and what they look at

`Traced` is a program that reads a buffer and writes down where: each access is an offset and a
number of octets. Unlike a checked access it does not go wrong anywhere, so what a program does with
stale octets behind the end of the data is part of its meaning, and that it does not look there is a
statement about its log (`Within`).
-/

namespace Net80211.Lib

structure Traced (α : Type) where
  val : α
  log : List (Nat × Nat)

variable {α β γ : Type}

instance monadTraced : Monad Traced where
  pure a := ⟨a, []⟩
  bind x f := ⟨(f x.val).val, x.log ++ (f x.val).log⟩

/-- Look at `n` octets from offset `i` on. -/
def look (buf : Nat → γ) (i n : Nat) : Traced (List γ) := ⟨window buf i n, [(i, n)]⟩

def lookAt (buf : Nat → γ) (i : Nat) : Traced γ := ⟨buf i, [(i, 1)]⟩

/-- Nothing was looked at from `len` on. -/
def Traced.Within (len : Nat) (x : Traced α) : Prop := ∀ a ∈ x.log, a.1 + a.2 ≤ len

open Traced List

@[simp] theorem val_pure (a : α) : (pure a : Traced α).val = a := rfl

@[simp] theorem val_bind (x : Traced α) (f : α → Traced β) : (x >>= f).val = (f x.val).val := rfl

@[simp] theorem val_look (buf : Nat → γ) (i n : Nat) : (look buf i n).val = window buf i n := rfl

@[simp] theorem val_lookAt (buf : Nat → γ) (i : Nat) : (lookAt buf i).val = buf i := rfl

variable {len : Nat}

@[simp] theorem within_pure (a : α) : Within len (pure a : Traced α) := by
  intro x hx
  cases hx

@[simp] theorem within_bind (x : Traced α) (f : α → Traced β) :
    Within len (x >>= f) ↔ Within len x ∧ Within len (f x.val) := by
  show (∀ a ∈ x.log ++ (f x.val).log, _) ↔ _
  rw [forall_mem_append]
  rfl

@[simp] theorem within_look (buf : Nat → γ) (i n : Nat) : Within len (look buf i n) ↔
    i + n ≤ len := by
  show (∀ a ∈ [(i, n)], _) ↔ _
  rw [forall_mem_singleton]

@[simp] theorem within_lookAt (buf : Nat → γ) (i : Nat) : Within len (lookAt buf i) ↔
    i + 1 ≤ len := by
  show (∀ a ∈ [(i, 1)], _) ↔ _
  rw [forall_mem_singleton]

end Net80211.Lib
