import Mathlib.Data.Finset.Card
import Mathlib.Data.Nat.ModEq

/-!
# Ring buffers with two indices

A buffer of `n` slots with the index of the first entry and the index behind the
last. `Holds` says which entries it has. It never has `n`: with all slots in use
the two indices are equal, as they are in an empty buffer.

Where the number of entries is kept, one index is enough: `slotsFrom` lists the slots, and
`Occupies` says that these are the ones in use.
-/

namespace Net80211.Lib

open List Function

variable {α : Type} {n next cur : Nat} {buf : Nat → α} {l : List α} {a : α}

/-- The slots from `next` up to `cur` have the entries of `l`. -/
structure Holds (n : Nat) (buf : Nat → α) (next cur : Nat) (l : List α) : Prop where
  next_lt : next < n
  length_lt : l.length < n
  cur_eq : cur = (next + l.length) % n
  slot : ∀ k, ∀ h : k < l.length, buf ((next + k) % n) = l.get ⟨k, h⟩

theorem holds_nil (buf : Nat → α) (h : next < n) : Holds n buf next next [] :=
  ⟨h, Nat.lt_of_le_of_lt (Nat.zero_le _) h, by rw [length_nil, Nat.add_zero, Nat.mod_eq_of_lt h],
    fun k hk => absurd hk (Nat.not_lt_zero k)⟩

theorem slot_ne (next : Nat) {i j : Nat} (hi : i < n) (hj : j < n) (hne : i ≠ j) :
    (next + i) % n ≠ (next + j) % n := by
  intro h
  have hmod : i % n = j % n := Nat.ModEq.add_left_cancel' next h
  rw [Nat.mod_eq_of_lt hi, Nat.mod_eq_of_lt hj] at hmod
  exact hne hmod

section

variable (h : Holds n buf next cur l)
include h

/-- The indices are equal in an empty buffer and in no other. -/
theorem Holds.eq_iff : next = cur ↔ l = [] := by
  constructor
  · intro heq
    rw [h.cur_eq] at heq
    by_contra hne
    have hpos : 0 < l.length := length_pos_iff.mpr hne
    refine slot_ne next (Nat.lt_trans hpos h.length_lt) h.length_lt (Nat.ne_of_lt hpos) ?_
    rw [Nat.add_zero, Nat.mod_eq_of_lt h.next_lt]
    exact heq
  · intro hnil
    rw [h.cur_eq, hnil, length_nil, Nat.add_zero, Nat.mod_eq_of_lt h.next_lt]

/-- One slot stays free: then the index behind the next entry is the first. -/
theorem Holds.full_iff : (cur + 1) % n = next ↔ l.length + 1 = n := by
  have hcur : (cur + 1) % n = (next + (l.length + 1)) % n := by
    rw [h.cur_eq, Nat.mod_add_mod, Nat.add_assoc]
  rw [hcur]
  constructor
  · intro heq
    by_contra hne
    have hlt : l.length + 1 < n := Nat.lt_of_le_of_ne h.length_lt hne
    refine slot_ne next hlt (Nat.lt_trans (Nat.succ_pos _) hlt) (Nat.succ_ne_zero _) ?_
    rw [heq, Nat.add_zero, Nat.mod_eq_of_lt h.next_lt]
  · intro heq
    rw [heq, Nat.add_mod_right, Nat.mod_eq_of_lt h.next_lt]

/-- The number of entries, from the indices. -/
theorem Holds.length_eq : (cur + n - next) % n = l.length := by
  have hnext := h.next_lt
  have hlen := h.length_lt
  rw [h.cur_eq]
  rcases Nat.lt_or_ge (next + l.length) n with hlt | hge
  · rw [Nat.mod_eq_of_lt hlt, show next + l.length + n - next = l.length + n by omega,
      Nat.add_mod_right, Nat.mod_eq_of_lt hlen]
  · have hwrap : (next + l.length) % n = next + l.length - n := by
      rw [Nat.mod_eq_sub_mod hge, Nat.mod_eq_of_lt (by omega)]
    rw [hwrap, show next + l.length - n + n - next = l.length by omega, Nat.mod_eq_of_lt hlen]

theorem Holds.push (hroom : l.length + 1 < n) (a : α) :
    Holds n (update buf cur a) next ((cur + 1) % n) (l ++ [a]) := by
  refine ⟨h.next_lt, ?_, ?_, ?_⟩
  · rw [length_append, length_singleton]
    exact hroom
  · rw [h.cur_eq, length_append, length_singleton, Nat.mod_add_mod, Nat.add_assoc]
  · intro k hk
    rw [length_append, length_singleton] at hk
    rw [get_eq_getElem]
    rcases Nat.lt_succ_iff_lt_or_eq.mp hk with hlt | heq
    · rw [h.cur_eq, update_of_ne (slot_ne next (by omega) h.length_lt (Nat.ne_of_lt hlt)),
        h.slot k hlt, getElem_append_left hlt, get_eq_getElem]
    · subst heq
      rw [h.cur_eq, update_self, getElem_append_right (Nat.le_refl _)]
      simp

end

theorem Holds.front (h : Holds n buf next cur (a :: l)) : buf next = a := by
  have := h.slot 0 (Nat.zero_lt_succ _)
  rw [Nat.add_zero, Nat.mod_eq_of_lt h.next_lt] at this
  exact this

theorem Holds.pop (h : Holds n buf next cur (a :: l)) : Holds n buf ((next + 1) % n) cur l := by
  have hn : 0 < n := Nat.lt_of_le_of_lt (Nat.zero_le _) h.next_lt
  have hlen := h.length_lt
  rw [length_cons] at hlen
  have hshift : ∀ k, ((next + 1) % n + k) % n = (next + (k + 1)) % n := by
    intro k
    rw [Nat.mod_add_mod]
    congr 1
    omega
  refine ⟨Nat.mod_lt _ hn, by omega, ?_, ?_⟩
  · rw [hshift, h.cur_eq, length_cons]
  · intro k hk
    rw [hshift, h.slot (k + 1) (by rw [length_cons]; omega)]
    rfl

/-! ## Slots in use -/

/-- The `len` slots from `first` on. -/
def slotsFrom (n first len : Nat) : List Nat := (range len).map fun k => (first + k) % n

theorem length_slotsFrom (n first len : Nat) : (slotsFrom n first len).length = len := by
  rw [slotsFrom, length_map, length_range]

theorem slotsFrom_succ (n first len : Nat) :
    slotsFrom n first (len + 1) = slotsFrom n first len ++ [(first + len) % n] := by
  rw [slotsFrom, range_succ, map_append]
  rfl

theorem slotsFrom_cons {first : Nat} (h : first < n) (len : Nat) :
    slotsFrom n first (len + 1) = first :: slotsFrom n ((first + 1) % n) len := by
  rw [slotsFrom, range_succ_eq_map, map_cons, map_map, Nat.add_zero, Nat.mod_eq_of_lt h, slotsFrom]
  congr 1
  refine map_congr_left fun k _ => ?_
  show (first + (k + 1)) % n = ((first + 1) % n + k) % n
  rw [Nat.mod_add_mod]
  congr 1
  omega

theorem nodup_slotsFrom (n first : Nat) {len : Nat} (h : len ≤ n) :
    (slotsFrom n first len).Nodup := by
  refine List.Nodup.map_on (fun i hi j hj heq => ?_) nodup_range
  by_contra hne
  rw [mem_range] at hi hj
  exact slot_ne first (by omega) (by omega) hne heq

/-- Exactly the `len` slots from `first` on are in use. -/
structure Occupies (n : Nat) (used : Nat → Prop) (first len : Nat) : Prop where
  first_lt : first < n
  len_lt : len < n
  used_iff : ∀ i < n, used i ↔ i ∈ slotsFrom n first len

variable {used used' : Nat → Prop} {first len : Nat}

theorem Occupies.free (h : Occupies n used first len) : ¬ used ((first + len) % n) := by
  have hnodup := nodup_slotsFrom n first (Nat.succ_le_of_lt h.len_lt)
  rw [slotsFrom_succ] at hnodup
  rw [h.used_iff _ (Nat.mod_lt _ (Nat.zero_lt_of_lt h.first_lt))]
  exact fun hmem => (nodup_append.mp hnodup).2.2 _ hmem _ (mem_singleton_self _) rfl

theorem Occupies.front (h : Occupies n used first (len + 1)) : used first := by
  rw [h.used_iff _ h.first_lt, slotsFrom_cons h.first_lt]
  exact mem_cons_self

theorem Occupies.push (h : Occupies n used first len) (hroom : len + 1 < n)
    (hused : ∀ i, used' i ↔ used i ∨ i = (first + len) % n) : Occupies n used' first (len + 1) := by
  refine ⟨h.first_lt, hroom, fun i hi => ?_⟩
  rw [hused, h.used_iff i hi, slotsFrom_succ, mem_append, mem_singleton]

theorem Occupies.pop (h : Occupies n used first (len + 1))
    (hused : ∀ i, used' i ↔ used i ∧ i ≠ first) : Occupies n used' ((first + 1) % n) len := by
  have hlen := h.len_lt
  have hnodup := nodup_slotsFrom n first (Nat.le_of_lt hlen)
  rw [slotsFrom_cons h.first_lt] at hnodup
  refine ⟨Nat.mod_lt _ (Nat.zero_lt_of_lt h.first_lt), by omega, fun i hi => ?_⟩
  rw [hused, h.used_iff i hi, slotsFrom_cons h.first_lt, mem_cons]
  refine ⟨fun ⟨hmem, hne⟩ => hmem.resolve_left hne, fun hmem => ⟨.inr hmem, fun heq => ?_⟩⟩
  exact (nodup_cons.mp hnodup).1 (heq ▸ hmem)

theorem Occupies.card [DecidablePred used] (h : Occupies n used first len) :
    ((Finset.range n).filter used).card = len := by
  have heq : (Finset.range n).filter used = (slotsFrom n first len).toFinset := by
    ext i
    rw [Finset.mem_filter, Finset.mem_range, mem_toFinset]
    refine ⟨fun ⟨hi, hu⟩ => (h.used_iff i hi).mp hu, fun hmem => ?_⟩
    have hi : i < n := by
      obtain ⟨k, -, rfl⟩ := mem_map.mp hmem
      exact Nat.mod_lt _ (Nat.zero_lt_of_lt h.first_lt)
    exact ⟨hi, (h.used_iff i hi).mpr hmem⟩
  rw [heq, toFinset_card_of_nodup (nodup_slotsFrom n first (Nat.le_of_lt h.len_lt)),
    length_slotsFrom]

end Net80211.Lib
