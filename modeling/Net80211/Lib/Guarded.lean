import Mathlib.Algebra.Ring.Nat
import Mathlib.Tactic.Common

/-!
# Programs with checked accesses

A program over buffers gives a value, gives up for a reason it knows, or goes
wrong: it reads or writes outside an object, or a loop does not come to its end.
`Guarded` is such a result, `readAt` and `writeAt` are accesses that go wrong
outside the buffer, and `loop` is a `while` with a bound on its rounds that goes
wrong when the bound is reached.

`Sat P` says that a program does not go wrong and that `P` holds of its value. It
is shown along the program: `Sat.bind` for a sequence, one lemma for each access,
and for a loop an invariant with a measure (`sat_loop`) or with a count
(`sat_repeatN`, `sat_foldlM`).

`Sim R` compares a program with itself in a larger memory: unless it goes wrong, it
does there what it does here. So a program that does not go wrong in a small memory
neither reads nor depends on anything around it (`Sim.eq_of_sat`).
-/

namespace Net80211.Lib

/-- What goes wrong. -/
inductive Fault where
  | read
  | write
  | loop
  deriving DecidableEq, Repr

inductive Guarded (δ α : Type) where
  | done (a : α)
  | drop (why : δ)
  | fault (e : Fault)
  deriving DecidableEq, Repr

variable {α β δ σ ρ : Type}

def Guarded.bind (x : Guarded δ α) (f : α → Guarded δ β) : Guarded δ β :=
  match x with
  | .done a => f a
  | .drop why => .drop why
  | .fault e => .fault e

instance monadGuarded (δ : Type) : Monad (Guarded δ) where
  pure := .done
  bind := Guarded.bind

theorem done_bind (a : α) (f : α → Guarded δ β) : (Guarded.done a >>= f) = f a := rfl

theorem drop_bind (why : δ) (f : α → Guarded δ β) : (Guarded.drop why >>= f) = .drop why := rfl

theorem guarded_bind_assoc {γ : Type} (x : Guarded δ α) (f : α → Guarded δ β)
    (g : β → Guarded δ γ) : (x >>= f >>= g) = x >>= fun a => f a >>= g := by
  cases x <;> rfl

theorem ite_bind (c : Prop) [Decidable c] (x y : Guarded δ α) (f : α → Guarded δ β) :
    ((if c then x else y) >>= f) = if c then x >>= f else y >>= f := by
  split <;> rfl

/-! ## Nothing goes wrong -/

def Guarded.Sat (P : α → Prop) : Guarded δ α → Prop
  | .done a => P a
  | .drop _ => True
  | .fault _ => False

open Guarded

variable {P : α → Prop} {Q : β → Prop} {x : Guarded δ α} {f : α → Guarded δ β} {c : Prop}

theorem sat_pure {a : α} (h : P a) : Sat P (pure a : Guarded δ α) := h

theorem Guarded.Sat.bind (hx : Sat P x) (hf : ∀ a, P a → Sat Q (f a)) :
    Sat Q (x >>= f) := by
  cases x with
  | done a => exact hf a hx
  | drop why => exact trivial
  | fault e => exact hx.elim

theorem Guarded.Sat.mono {P' : α → Prop} (hx : Sat P x) (h : ∀ a, P a → P' a) : Sat P' x := by
  cases x with
  | done a => exact h a hx
  | drop why => exact trivial
  | fault e => exact hx

theorem Guarded.Sat.not_fault (h : Sat P x) (e : Fault) : x ≠ .fault e := by
  rintro rfl
  exact h

/-- A program that never gives up gives a value. -/
theorem Guarded.exists_done {x : Guarded Empty α} (h : Sat P x) : ∃ a, x = .done a ∧ P a := by
  cases x with
  | done a => exact ⟨a, rfl, h⟩
  | drop why => cases why
  | fault e => exact h.elim

theorem sat_ite [Decidable c] {y : Guarded δ α} (hx : c → Sat P x) (hy : ¬ c → Sat P y) :
    Sat P (if c then x else y) := by
  split
  · next h => exact hx h
  · next h => exact hy h

/-! ## Buffers -/

def readAt (buf : List β) (i : Nat) : Guarded δ β :=
  match buf[i]? with
  | some b => .done b
  | none => .fault .read

variable {i : Nat} {buf : List β}

theorem sat_readAt (h : i < buf.length) :
    Sat (fun b => buf[i]? = some b) (readAt buf i : Guarded δ β) := by
  rw [readAt, List.getElem?_eq_getElem h]
  exact rfl

/-- The `n` entries from `i` on. -/
def readN (buf : List β) (i n : Nat) : Guarded δ (List β) :=
  if i + n ≤ buf.length then .done ((buf.drop i).take n) else .fault .read

variable {n : Nat} {body : σ → Guarded δ (σ ⊕ ρ)} {Inv : σ → Prop} {v : Vector β n}

theorem sat_readN (h : i + n ≤ buf.length) :
    Sat (fun bs => bs.length = n) (readN buf i n : Guarded δ (List β)) := by
  rw [readN, if_pos h]
  show ((buf.drop i).take n).length = n
  rw [List.length_take, List.length_drop]
  omega

/-! An array is a vector, and the length is part of its type. -/

def vecRead {n : Nat} (v : Vector β n) (i : Nat) : Guarded δ β :=
  if h : i < n then .done v[i] else .fault .read

theorem sat_vecRead (h : i < n) :
    Sat (fun _ => True) (vecRead v i : Guarded δ β) := by
  rw [vecRead, dif_pos h]
  exact trivial

def vecWrite {n : Nat} (v : Vector β n) (i : Nat) (b : β) : Guarded δ (Vector β n) :=
  if h : i < n then .done (v.set i b) else .fault .write

theorem vecWrite_of_lt (b : β) (h : i < n) :
    (vecWrite v i b : Guarded δ (Vector β n)) = .done (v.set i b) := dif_pos h

theorem sat_vecWrite (b : β) (h : i < n) :
    Sat (fun _ => True) (vecWrite v i b : Guarded δ (Vector β n)) := by
  rw [vecWrite, dif_pos h]
  exact trivial

theorem vecWrite_split {a b : List β} {x : β} (h : v.toList = a ++ x :: b) (hi : i = a.length)
    (y : β) : ∃ v', (vecWrite v i y : Guarded δ (Vector β n)) = .done v' ∧
    v'.toList = a ++ y :: b := by
  have hlt : i < n := by
    have hlen := congrArg List.length h
    simp only [Vector.length_toList, List.length_append, List.length_cons] at hlen
    omega
  refine ⟨v.set i y, vecWrite_of_lt y hlt, ?_⟩
  rw [Vector.toList_set, h, hi, List.set_append_right _ _ (Nat.le_refl _), Nat.sub_self,
    List.set_cons_zero]

/-- `memcpy` into an array, from `i` on. -/
def vecCopy {n : Nat} (v : Vector β n) (i : Nat) : List β → Guarded δ (Vector β n)
  | [] => .done v
  | b :: bs => do
      let v ← vecWrite v i b
      vecCopy v (i + 1) bs

theorem vecCopy_split (bs : List β) : ∀ {v : Vector β n} {a b c : List β} {i : Nat},
    v.toList = a ++ (b ++ c) → i = a.length → b.length = bs.length →
    ∃ v', (vecCopy v i bs : Guarded δ (Vector β n)) = .done v' ∧ v'.toList = a ++ (bs ++ c) := by
  induction bs with
  | nil =>
    intro v a b c i hv _ hb
    rw [List.length_eq_zero_iff.mp hb] at hv
    exact ⟨v, rfl, hv⟩
  | cons y bs ih =>
    intro v a b c i hv hi hb
    cases b with
    | nil => cases hb
    | cons x b =>
      obtain ⟨v1, hw, hv1⟩ := vecWrite_split (δ := δ) hv hi y
      obtain ⟨v', hrun, hv'⟩ :=
        ih (v := v1) (a := a ++ [y]) (b := b) (c := c) (i := i + 1) (by simpa using hv1)
        (by simp [hi]) (Nat.succ.inj hb)
      refine ⟨v', ?_, by simpa using hv'⟩
      rw [vecCopy, hw, done_bind, hrun]

theorem sat_vecCopy (bs : List β) (h : i + bs.length ≤ n) :
    Sat (fun _ => True) (vecCopy v i bs : Guarded δ (Vector β n)) := by
  have hlen : v.toList.length = n := Vector.length_toList
  obtain ⟨v', hrun, -⟩ := vecCopy_split (δ := δ) bs (v := v) (a := v.toList.take i)
    (b := (v.toList.drop i).take bs.length) (c := (v.toList.drop i).drop bs.length) (i := i)
    (by rw [List.take_append_drop, List.take_append_drop]) (by rw [List.length_take]; omega)
    (by rw [List.length_take, List.length_drop]; omega)
  rw [hrun]
  exact trivial

/-! ## Loops -/

/-- `while`, with a bound on the rounds; a round ends the loop with a value or goes
on with the next state. -/
def loop (body : σ → Guarded δ (σ ⊕ ρ)) : Nat → σ → Guarded δ ρ
  | 0, _ => .fault .loop
  | n + 1, s => do
      match ← body s with
      | .inl s => loop body n s
      | .inr r => pure r

/-- What a round leaves behind: the invariant and less to do, or the end. -/
def Round (Inv : σ → Prop) (left : σ → Nat) (R : ρ → Prop) (s : σ) : σ ⊕ ρ → Prop
  | .inl s' => Inv s' ∧ left s' < left s
  | .inr r => R r

theorem sat_loop {R : ρ → Prop} (left : σ → Nat)
    (h : ∀ s, Inv s → Sat (Round Inv left R s) (body s)) :
    ∀ (n : Nat) (s : σ), Inv s → left s < n → Sat R (loop body n s) := by
  intro n
  induction n with
  | zero => exact fun s _ hlt => absurd hlt (Nat.not_lt_zero _)
  | succ n ih =>
    intro s hinv hlt
    rw [loop]
    refine (h s hinv).bind fun next hnext => ?_
    cases next with
    | inl s' => exact ih s' hnext.1 (by have := hnext.2; omega)
    | inr r => exact hnext

/-- `for (; n > 0; n--)`. -/
def repeatN (body : σ → Guarded δ σ) : Nat → σ → Guarded δ σ
  | 0, s => pure s
  | n + 1, s => do
      let s ← body s
      repeatN body n s

/-- The invariant may name the rounds that are left. -/
theorem sat_repeatN {body : σ → Guarded δ σ} (Inv : Nat → σ → Prop)
    (h : ∀ n s, Inv (n + 1) s → Sat (Inv n) (body s)) :
    ∀ (n : Nat) (s : σ), Inv n s → Sat (Inv 0) (repeatN body n s) := by
  intro n
  induction n with
  | zero => exact fun s hinv => hinv
  | succ n ih => exact fun s hinv => (h n s hinv).bind fun s' hs' => ih s' hs'

theorem sat_foldlM {body : σ → β → Guarded δ σ} (Inv : σ → Prop)
    (h : ∀ s b, Inv s → Sat Inv (body s b)) :
    ∀ (l : List β) (s : σ), Inv s → Sat Inv (l.foldlM body s) := by
  intro l
  induction l with
  | nil => exact fun s hinv => hinv
  | cons b l ih =>
    intro s hinv
    rw [List.foldlM_cons]
    exact (h s b hinv).bind fun s' hs' => ih s' hs'

/-! ## What a value tells

`Post P` is `Sat P` for programs that may go wrong: `P` holds of the value, if there is one. -/

def Guarded.Post (P : α → Prop) (x : Guarded δ α) : Prop := ∀ a, x = .done a → P a

theorem post_pure {a : α} (h : P a) : Post P (pure a : Guarded δ α) := by
  intro b hb
  cases hb
  exact h

theorem post_fault (e : Fault) : Post P (.fault e : Guarded δ α) := by
  intro b hb
  cases hb

theorem Guarded.Post.bind (hx : Post P x) (hf : ∀ a, P a → Post Q (f a)) :
    Post Q (x >>= f) := by
  intro b hb
  cases x with
  | done a => exact hf a (hx a rfl) b hb
  | drop why | fault e => cases hb

/-! ## Memory around a buffer -/

/-- The second program does what the first does, unless that goes wrong. -/
inductive Guarded.Sim (R : α → β → Prop) : Guarded δ α → Guarded δ β → Prop where
  | fault (e : Fault) (y : Guarded δ β) : Sim R (.fault e) y
  | done {a : α} {b : β} (h : R a b) : Sim R (.done a) (.done b)
  | drop (why : δ) : Sim R (.drop why) (.drop why)

variable {γ ε : Type} {R : α → β → Prop} {S : γ → ε → Prop} {y : Guarded δ β}

theorem Guarded.Sim.bind {f : α → Guarded δ γ} {g : β → Guarded δ ε} (h : Sim R x y)
    (hf : ∀ a b, R a b → Sim S (f a) (g b)) : Sim S (x >>= f) (y >>= g) := by
  cases h with
  | fault e y => exact .fault e _
  | done hab => exact hf _ _ hab
  | drop why => exact .drop why

theorem sim_ite [Decidable c] {x' : Guarded δ α} {y' : Guarded δ β} (h : Sim R x y)
    (h' : Sim R x' y') : Sim R (if c then x else x') (if c then y else y') := by
  split
  · exact h
  · exact h'

theorem Guarded.Sim.eq_of_sat {y : Guarded δ α} (h : Sim Eq x y) (hx : Sat P x) : x = y := by
  cases h with
  | fault e y => exact hx.elim
  | done hab => rw [hab]
  | drop why => rfl

/-- A buffer inside a larger one, from `pre.length` on. -/
theorem sim_readAt (pre buf post : List β) (i : Nat) :
    Sim Eq (readAt buf i : Guarded δ β) (readAt (pre ++ buf ++ post) (pre.length + i)) := by
  rw [readAt]
  cases h : buf[i]? with
  | none => exact .fault .read _
  | some b =>
    have hlt : i < buf.length := (List.getElem?_eq_some_iff.mp h).1
    rw [readAt, List.append_assoc, List.getElem?_append_right (Nat.le_add_right _ _),
      Nat.add_sub_cancel_left, List.getElem?_append_left hlt, h]
    exact .done rfl

theorem sim_repeatN {body : α → Guarded δ α} {body' : β → Guarded δ β}
    (h : ∀ a b, R a b → Sim R (body a) (body' b)) :
    ∀ (n : Nat) (a : α) (b : β), R a b → Sim R (repeatN body n a) (repeatN body' n b) := by
  intro n
  induction n with
  | zero => exact fun a b hab => .done hab
  | succ n ih => exact fun a b hab => (h a b hab).bind ih

end Net80211.Lib
