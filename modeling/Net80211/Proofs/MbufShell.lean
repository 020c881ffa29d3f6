import Net80211.Proofs.Mbuf

/-!
# The mbuf shell as octet strings

`HasOctets c b` says that the chain `c` stands for the octet string `b`: the mbufs
spell it out, in whatever pieces, and a packet header counts it. Every operation
of the shell is then an operation on octet strings, and the relation is all that
a caller has to keep.
-/

namespace Net80211

open Lib List

/-- A chain that holds the octets `b`; its packet header, if it has one, says how
many they are. -/
structure HasOctets (c : List Mbuf) (b : List UInt8) : Prop where
  octets : bytes c = b
  pkthdr : ∀ m ∈ c.head?, m.hasPkthdr = true → m.pkthdrLen = b.length

variable {ms : List Mbuf} {b : List UInt8} {m : Mbuf}

theorem HasOctets.cons_iff : HasOctets (m :: ms) b ↔
      bytes (m :: ms) = b ∧ (m.hasPkthdr = true → m.pkthdrLen = b.length) := by
  refine ⟨fun h => ⟨h.octets, h.pkthdr m rfl⟩, fun h => ⟨h.1, fun m' hm => ?_⟩⟩
  cases hm
  exact h.2

variable {c c' : List Mbuf} {n : Nat} {h h' : Heap}

theorem HasOctets.of_pkt (hb : bytes c = b) (hp : ∀ m ∈ c.head?, m.hasPkthdr = true → Pkt c) :
    HasOctets c b := by
  refine ⟨hb, fun m hm hf => ?_⟩
  have hpkt := hp m hm hf
  cases c with
  | nil => cases hm
  | cons m' ms =>
    cases hm
    rw [hpkt.2, ← hb, length_bytes]

/-! ## Trimming -/

theorem mAdj_flags (m : Mbuf) (ms : List Mbuf) (n : Int) :
    ∃ m' tl, mAdj (m :: ms) n = m' :: tl ∧ m'.mFlags = m.mFlags := by
  have hsync : ∀ (m' : Mbuf) (tl : List Mbuf), m'.mFlags = m.mFlags →
      ∃ m'' tl', mSyncLen (m' :: tl) = m'' :: tl' ∧ m''.mFlags = m.mFlags := by
    intro m' tl hfl
    rw [mSyncLen]
    split <;> exact ⟨_, _, rfl, hfl⟩
  rw [mAdj]
  split
  · rw [mAdjHead]
    split
    · exact hsync _ _ rfl
    split <;> exact hsync _ _ rfl
  · dsimp only
    generalize (if mLength (m :: ms) > (-n).toNat then _ else _) = count
    rw [mAdjTail]
    split <;> exact hsync _ _ rfl

theorem HasOctets.mAdj (n : Int) (hb : bytes (mAdj c n) = b) : HasOctets (mAdj c n) b := by
  refine .of_pkt hb fun m' hm hf => ?_
  cases c with
  | nil => cases n <;> exact absurd hm (by simp [Net80211.mAdj, mAdjHead, mAdjTail, mSyncLen])
  | cons m ms =>
    obtain ⟨m1, tl, heq, hfl⟩ := mAdj_flags m ms n
    rw [heq] at hm
    cases hm
    refine mAdj_pkt ?_ n
    rw [Mbuf.hasPkthdr, ← hfl]
    exact hf

theorem HasOctets.mCopydata (hc : HasOctets c b) (off len : Nat) :
    mCopydata c off len = (b.drop off).take len := by
  rw [mCopydata_eq, hc.octets]

theorem HasOctets.mPullup (hc : HasOctets c b) (hp : mPullup h c n = (h', some c')) :
    HasOctets c' b ∧ ∃ m' tl, c' = m' :: tl ∧ n ≤ m'.mLen := by
  cases c with
  | nil => cases hp
  | cons m ms =>
    obtain ⟨m', tl, rfl, hb, hn, hfl, hlen⟩ := mPullup_some hp
    obtain ⟨hoct, hpk⟩ := HasOctets.cons_iff.mp hc
    refine ⟨HasOctets.cons_iff.mpr ⟨hb.trans hoct, fun hf => ?_⟩, m', tl, rfl, by omega⟩
    rw [hfl] at hf
    rw [hlen hf, hpk hf]

theorem HasOctets.mPrepend (hc : HasOctets c b) (hp : mPrepend h c n = (h', some c')) :
    ∃ p : List UInt8, p.length = n ∧ HasOctets c' (p ++ b) := by
  cases c with
  | nil => cases hp
  | cons m ms =>
    obtain ⟨m', tl, p, rfl, hlen, hb, hfl, hpkt⟩ := mPrepend_some hp
    obtain ⟨hoct, hpk⟩ := HasOctets.cons_iff.mp hc
    refine ⟨p, hlen, HasOctets.cons_iff.mpr ⟨by rw [hb, hoct], fun hf => ?_⟩⟩
    rw [hfl] at hf
    rw [hpkt hf, hpk hf, length_append, hlen, Nat.add_comm]

/-- `m_pullup` fails for a length that no first mbuf could have, for one that the
chain does not have, and for want of memory. -/
theorem mPullup_none_iff : (mPullup h (m :: ms) n).2 = none ↔
      mclbytes - mhAlign < n ∨ m.mLen < n ∧ (mLength (m :: ms) < n ∨ h.alloc h.next = none) := by
  have hcap : mclbytes - mhAlign = 3840 := rfl
  have hcap' : ((mclbytes : Int) - mhAlign) = 3840 := rfl
  rw [mPullup, hcap, hcap']
  split
  · next hbad => exact ⟨fun _ => .inl (by omega), fun _ => rfl⟩
  next hgood =>
  split
  · next hin => exact ⟨(fun h => by cases h), by omega⟩
  next hout =>
  split
  · next hshort => exact ⟨fun _ => .inr ⟨by omega, .inl (by omega)⟩, fun _ => rfl⟩
  next hlong =>
  rw [mGetImpl]
  split
  · next heq =>
    split at heq
    · next hnone => exact ⟨fun _ => .inr ⟨by omega, .inr hnone⟩, fun _ => rfl⟩
    · cases heq
  · next heq =>
    split at heq
    · cases heq
    · next hsome =>
      refine ⟨(fun h => by cases h), fun hor => ?_⟩
      rw [hsome] at hor
      rcases hor with hor | ⟨_, hor | hor⟩
      · omega
      · omega
      · cases hor

/-- With memory for every mbuf nothing is left over. -/
theorem mAppendNew_all : ∀ (fuel : Nat) (h : Heap) (cp : List UInt8), (∀ k, h.alloc k ≠ none) →
    cp.length ≤ fuel → (mAppendNew fuel h cp).2.2 = [] := by
  intro fuel
  induction fuel with
  | zero => intro h cp _ hle; exact eq_nil_of_length_eq_zero (Nat.le_zero.mp hle)
  | succ fuel ih =>
    intro h cp hall hle
    rw [mAppendNew]
    split
    · next h0 => exact eq_nil_of_length_eq_zero h0
    next h0 =>
    split
    · next hget =>
      rw [mGetImpl] at hget
      split at hget
      · next hnone => exact absurd hnone (hall _)
      · cases hget
    · next h1 n hget =>
      have halloc : h1.alloc = h.alloc := by
        rw [mGetImpl] at hget
        split at hget
        · cases hget
        · cases hget; rfl
      refine ih h1 _ (by rw [halloc]; exact hall) ?_
      have hmlen : 0 < mbufMlen := by decide
      simp only [Mbuf.put, length_drop]
      omega

theorem mAppendLast_all : ∀ (ms : List Mbuf) (m : Mbuf) (h : Heap) (cp : List UInt8),
    (∀ k, h.alloc k ≠ none) → (mAppendLast h (m :: ms) cp).2.2 = [] := by
  intro ms
  induction ms with
  | nil =>
    intro m h cp hall
    rw [mAppendLast]
    exact mAppendNew_all _ h _ hall (by rw [length_drop]; omega)
  | cons m2 ms ih => intro m h cp hall; exact ih m2 h cp hall

theorem mAppendLast_rest : ∀ (ms : List Mbuf) (m : Mbuf) (h : Heap) (cp : List UInt8),
    (mAppendLast h (m :: ms) cp).2.2.length ≤ cp.length := by
  intro ms
  induction ms with
  | nil =>
    intro m h cp
    have hnew := fun fuel cp => congrArg length (bytes_mAppendNew fuel h cp)
    simp only [length_append] at hnew
    rw [mAppendLast]
    refine Nat.le_trans (Nat.le_trans (Nat.le_add_left _ _) (Nat.le_of_eq (hnew _ _))) ?_
    rw [length_drop]
    omega
  | cons m2 ms ih => intro m h cp; exact ih m2 h cp

theorem HasOctets.mAppend (hc : HasOctets (m :: ms) b) (h : Heap) (cp : List UInt8) :
    ∃ p rest, cp = p ++ rest ∧ HasOctets (mAppend h (m :: ms) cp).2.1 (b ++ p) ∧
      ((mAppend h (m :: ms) cp).2.2 = true ↔ rest = []) ∧
      ((∀ k, h.alloc k ≠ none) → rest = []) := by
  obtain ⟨m', tl, heq, hfl, hpl, _, hb⟩ := mAppendLast_spec ms m h cp
  have hall : (∀ k, h.alloc k ≠ none) → (mAppendLast h (m :: ms) cp).2.2 = [] :=
    mAppendLast_all ms m h cp
  obtain ⟨hoct, hpk⟩ := HasOctets.cons_iff.mp hc
  rw [Net80211.mAppend]
  simp only [heq]
  have hle := mAppendLast_rest ms m h cp
  generalize (mAppendLast h (m :: ms) cp).2.2 = rest at hb hall hle
  rw [hoct] at hb
  -- What was appended stands in front of what is left over.
  obtain ⟨p, hp, rfl⟩ : ∃ p, bytes (m' :: tl) = b ++ p ∧ cp = p ++ rest := by
    rcases append_eq_append_iff.mp hb with ⟨q, hq, hrest⟩ | hp
    · rw [hrest, length_append] at hle
      have hnil : q = [] := eq_nil_of_length_eq_zero (by omega)
      rw [hnil, append_nil] at hq
      rw [hnil, nil_append] at hrest
      exact ⟨[], by rw [hq, append_nil], by rw [hrest, nil_append]⟩
    · exact hp
  have hlen : (p ++ rest).length - rest.length = p.length := by
    rw [length_append, Nat.add_sub_cancel]
  refine ⟨p, rest, rfl, HasOctets.cons_iff.mpr ⟨?_, fun hf => ?_⟩, ?_, hall⟩
  · rw [← hp]
    split
    · rfl
    · rfl
  · split at hf
    · next hf' =>
      rw [if_pos hf']
      rw [Mbuf.hasPkthdr, hfl] at hf'
      rw [hpl, hpk hf', hlen, length_append]
    · next hf' => exact absurd hf hf'
  · rw [beq_iff_eq, length_eq_zero_iff]

/-! ## All of it -/

end Net80211
