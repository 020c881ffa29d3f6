import Mathlib.Tactic.Common

/-!
# A queue behind a semaphore

Producers put entries into a bounded queue and give a token each; one worker
takes a token and then an entry. The two halves of a producer, the insertion
and the give, are separate steps, and so are the two of the worker.

The worker misses nothing as long as every entry has a token somewhere: in the
semaphore, on its way there, or in the worker's hand. `Covered` is that, and it
is kept by everything but a give that the semaphore does not count.
-/

namespace Net80211.Lib

open List Option

/-- A semaphore. Nothing is said about `give`: it may be lost. -/
class Semaphore (S : Type) where
  give : S → S
  take : S → Option S
  count : S → Nat
  take_some : ∀ s s', take s = some s' → count s = count s' + 1
  take_none : ∀ s, take s = none → count s = 0

/-- The queue, the semaphore, the producers between insertion and give, and
whether the worker has a token it has not used. -/
structure TokenRing (S α : Type) where
  ring : List α
  sem : S
  givers : Nat
  held : Bool

namespace TokenRing

variable {S α : Type} [Semaphore S]

/-- Insert if there is room; a token follows either way. -/
def post (room : Nat) (r : TokenRing S α) (a : α) : TokenRing S α :=
  { r with
    ring := if r.ring.length < room then r.ring ++ [a] else r.ring
    givers := r.givers + 1 }

def give (r : TokenRing S α) : Option (TokenRing S α) :=
  if r.givers = 0 then none
  else some { r with givers := r.givers - 1, sem := Semaphore.give r.sem }

def take (r : TokenRing S α) : Option (TokenRing S α) :=
  if r.held then none
  else
    match Semaphore.take r.sem with
    | none => none
    | some sem => some { r with sem := sem, held := true }

/-- Use the token: the first entry, if there is one. -/
def pop (r : TokenRing S α) : Option (TokenRing S α × Option α) :=
  if r.held then
    match r.ring with
    | [] => some ({ r with held := false }, none)
    | a :: ring => some ({ r with ring := ring, held := false }, some a)
  else none

variable {r r' : TokenRing S α} {a : α} {o : Option α}

/-! ## What the steps do -/

theorem give_some (h : r.give = some r') :
    0 < r.givers ∧ r' = { r with givers := r.givers - 1, sem := Semaphore.give r.sem } := by
  rw [give] at h
  split at h
  · cases h
  · next hg =>
    cases h
    exact ⟨Nat.pos_of_ne_zero hg, rfl⟩

theorem take_some (h : r.take = some r') :
    r.held = false ∧ ∃ sem, Semaphore.take r.sem = some sem ∧
    r' = { r with sem := sem, held := true } := by
  rw [take] at h
  split at h
  · cases h
  next hheld =>
  split at h
  · cases h
  next sem hsem =>
  cases h
  exact ⟨Bool.eq_false_iff.mpr hheld, sem, hsem, rfl⟩

omit [Semaphore S] in
theorem pop_some (h : r.pop = some (r', o)) :
    r.held = true ∧ r.ring = o.toList ++ r'.ring ∧ (o = none → r.ring = []) ∧
      r' = { r with ring := r'.ring, held := false } := by
  rw [pop] at h
  split at h
  · next hheld =>
    split at h
    · next hring =>
      cases h
      exact ⟨hheld, rfl, fun _ => hring, rfl⟩
    · next hring =>
      cases h
      exact ⟨hheld, hring, fun ho => absurd ho (by simp), rfl⟩
  · cases h

theorem ring_give (h : r.give = some r') : r'.ring = r.ring := by
  rw [(give_some h).2]

theorem ring_take (h : r.take = some r') : r'.ring = r.ring := by
  obtain ⟨_, sem, _, rfl⟩ := take_some h
  rfl

/-! ## Tokens -/

/-- The tokens that are not used up. -/
def tokens (r : TokenRing S α) : Nat := Semaphore.count r.sem + r.givers + r.held.toNat

/-- Every entry has a token. -/
def Covered (r : TokenRing S α) : Prop := r.ring.length ≤ r.tokens

/-- The semaphore counts the next token. -/
def Counts (r : TokenRing S α) : Prop :=
  Semaphore.count (Semaphore.give r.sem) = Semaphore.count r.sem + 1

theorem tokens_post (room : Nat) (a : α) : (r.post room a).tokens = r.tokens + 1 := by
  simp only [tokens, post]
  omega

theorem tokens_give (hc : r.Counts) (hg : r.give = some r') : r'.tokens = r.tokens := by
  obtain ⟨hpos, rfl⟩ := give_some hg
  rw [Counts] at hc
  simp only [tokens, hc]
  omega

theorem tokens_take (ht : r.take = some r') : r'.tokens = r.tokens := by
  obtain ⟨hheld, sem, hsem, rfl⟩ := take_some ht
  have hcount := Semaphore.take_some _ _ hsem
  simp only [tokens, hheld, Bool.toNat_true, Bool.toNat_false]
  omega

theorem tokens_pop (hp : r.pop = some (r', o)) : r.tokens = r'.tokens + 1 := by
  obtain ⟨hheld, _, _, hr'⟩ := pop_some hp
  rw [hr', tokens, tokens, hheld]
  rfl

theorem covered_post (room : Nat) (a : α) (h : r.Covered) : (r.post room a).Covered := by
  rw [Covered, tokens_post]
  rw [Covered] at h
  rw [post]
  dsimp only
  split
  · rw [length_append, length_singleton]
    omega
  · omega

section

variable (h : r.Covered)
include h

theorem covered_give (hc : r.Counts) (hg : r.give = some r') : r'.Covered := by
  rw [Covered, ring_give hg, tokens_give hc hg]
  exact h

theorem covered_take (ht : r.take = some r') : r'.Covered := by
  rw [Covered, ring_take ht, tokens_take ht]
  exact h

theorem covered_pop (hp : r.pop = some (r', o)) : r'.Covered := by
  obtain ⟨_, hring, hnil, _⟩ := pop_some hp
  rw [Covered, tokens_pop hp] at h
  rw [Covered]
  cases o with
  | none =>
    rw [toList_none, nil_append] at hring
    rw [← hring, hnil rfl]
    exact Nat.zero_le _
  | some a =>
    rw [hring, toList_some, length_append, length_singleton] at h
    omega

/-- Where no token is under way and none is left, the queue is empty. -/
theorem ring_eq_nil (hs : Semaphore.take r.sem = none) (hg : r.givers = 0)
    (hh : r.held = false) : r.ring = [] := by
  rw [Covered, tokens, Semaphore.take_none _ hs, hg, hh] at h
  exact length_eq_zero_iff.mp (by simpa using h)

/-- Where no token can move, there is none. A give is asked for only where the
semaphore is empty. -/
theorem eq_nil_of_stuck (hpop : r.pop = none) (htake : r.take = none)
    (hgive : Semaphore.count r.sem = 0 → r.give = none) : r.ring = [] := by
  have hheld : r.held = false := by
    rw [pop] at hpop
    split at hpop
    · split at hpop <;> cases hpop
    · next hh => exact Bool.eq_false_iff.mpr hh
  have hnone : Semaphore.take r.sem = none := by
    rw [take, hheld] at htake
    cases ht : Semaphore.take r.sem with
    | none => rfl
    | some sem => rw [ht] at htake; cases htake
  have hgivers : r.givers = 0 := by
    have := hgive (Semaphore.take_none _ hnone)
    rw [give] at this
    by_contra hne
    rw [if_neg hne] at this
    cases this
  exact ring_eq_nil h hnone hgivers hheld

end

/-! ## Work left -/

/-- Tokens weigh less the nearer they are to being used up. -/
def weight (r : TokenRing S α) : Nat :=
  3 * r.givers + 2 * Semaphore.count r.sem + r.held.toNat

theorem weight_take (ht : r.take = some r') : r'.weight < r.weight := by
  obtain ⟨hheld, sem, hsem, rfl⟩ := take_some ht
  rw [weight, weight, Semaphore.take_some _ _ hsem, hheld]
  simp only [Bool.toNat_true, Bool.toNat_false]
  omega

theorem weight_give (hc : Semaphore.count (Semaphore.give r.sem) ≤ Semaphore.count r.sem + 1)
    (hg : r.give = some r') : r'.weight < r.weight := by
  obtain ⟨hpos, rfl⟩ := give_some hg
  rw [weight, weight]
  dsimp only
  omega

theorem weight_pop (hp : r.pop = some (r', o)) : r'.weight < r.weight := by
  obtain ⟨hheld, _, _, hr'⟩ := pop_some hp
  rw [hr', weight, weight, hheld]
  simp

/-! The same with `k` for every entry, which the entry popped is to pay for. -/

theorem load_give (k : Nat)
    (hc : Semaphore.count (Semaphore.give r.sem) ≤ Semaphore.count r.sem + 1)
    (hg : r.give = some r') : k * r'.ring.length + r'.weight < k * r.ring.length + r.weight := by
  rw [ring_give hg]
  exact Nat.add_lt_add_left (weight_give hc hg) _

theorem load_take (k : Nat) (ht : r.take = some r') :
    k * r'.ring.length + r'.weight < k * r.ring.length + r.weight := by
  rw [ring_take ht]
  exact Nat.add_lt_add_left (weight_take ht) _

theorem load_pop (k : Nat) (hp : r.pop = some (r', o)) :
    k * r'.ring.length + r'.weight + k * o.toList.length < k * r.ring.length + r.weight := by
  have hweight := weight_pop hp
  rw [(pop_some hp).2.1, length_append, Nat.mul_add]
  omega

end TokenRing

end Net80211.Lib
