import Mathlib.Data.List.Forall2
import Net80211.Mbuf

/-!
# Chains as octet strings

What the mbuf operations do to the octets of a chain. `bytes` forgets how the
octets are spread over the mbufs; each operation gets one lemma that says what
it does to `bytes`, so that nothing above has to look into a chain.
-/

namespace Net80211

open Lib List

@[simp] theorem Mbuf.length_bytes (m : Mbuf) : m.bytes.length = m.mLen :=
  length_window _ _ _

@[simp] theorem bytes_nil : bytes [] = [] := rfl

theorem bytes_cons (m : Mbuf) (ms : List Mbuf) : bytes (m :: ms) = m.bytes ++ bytes ms := rfl

theorem bytes_singleton (m : Mbuf) : bytes [m] = m.bytes := by
  rw [bytes_cons, bytes_nil, append_nil]

theorem bytes_append (ms ns : List Mbuf) : bytes (ms ++ ns) = bytes ms ++ bytes ns :=
  flatMap_append

theorem mLength_cons (m : Mbuf) (ms : List Mbuf) : mLength (m :: ms) = m.mLen + mLength ms := by
  rw [mLength, map_cons, sum_cons]; rfl

theorem length_bytes (ms : List Mbuf) : (bytes ms).length = mLength ms := by
  induction ms with
  | nil => rfl
  | cons m ms ih => rw [bytes_cons, length_append, ih, mLength_cons, Mbuf.length_bytes]

theorem Mbuf.get_put (m : Mbuf) (i : Nat) (p : List UInt8) : (m.put i p).get = store m.get i p := by
  funext j
  change store m.mCluster (m.mData + i) p (m.mData + j) = _
  by_cases hj : i ≤ j
  · obtain ⟨k, rfl⟩ : ∃ k, j = i + k := ⟨j - i, by omega⟩
    rw [← Nat.add_assoc, store_add, store_add, Mbuf.get, Nat.add_assoc]
  · rw [store_of_lt _ _ (by omega), store_of_lt _ _ (by omega), Mbuf.get]

variable {m : Mbuf} {len i n : Nat} {p : List UInt8}

/-- A write inside the data patches the octets. -/
theorem Mbuf.bytes_put (h : i + p.length ≤ m.mLen) :
    (m.put i p).bytes = patch m.bytes i p :=
  window_store m.mCluster h

theorem bytes_put_head (ms : List Mbuf) (h : i + p.length ≤ m.mLen) :
    bytes (m.put i p :: ms) = patch (bytes (m :: ms)) i p := by
  rw [bytes_cons, Mbuf.bytes_put h, bytes_cons,
    patch_append_left _ (by rw [Mbuf.length_bytes]; exact h)]

/-- Reading in the first mbuf is reading in the chain. -/
theorem window_eq_bytes (ms : List Mbuf) (h : i + n ≤ m.mLen) :
    window m.mCluster (m.mData + i) n = ((bytes (m :: ms)).drop i).take n := by
  rw [bytes_cons, drop_append, take_append, Mbuf.length_bytes, Mbuf.bytes, drop_window,
    length_window, take_window _ _ (by omega), show i - m.mLen = 0 by omega,
    show n - (m.mLen - i) = 0 by omega, take_zero, append_nil]

theorem window_get_eq_bytes (ms : List Mbuf) (h : i + n ≤ m.mLen) :
    window m.get i n = ((bytes (m :: ms)).drop i).take n := by
  rw [← window_eq_bytes ms h]
  exact window_shift m.mCluster m.mData n i

theorem get_eq_bytes (ms : List Mbuf) (h : i < m.mLen) :
    m.get i = (bytes (m :: ms)).getD i 0 := by
  rw [bytes_cons, getD_append _ _ _ _ (by rw [Mbuf.length_bytes]; exact h), getD,
    Mbuf.bytes, getElem?_window _ _ _ _ h]
  rfl

/-! ## Trimming -/

theorem bytes_mAdjHead : ∀ (ms : List Mbuf) (n : Nat),
    bytes (mAdjHead ms n) = (bytes ms).drop n := by
  intro ms
  induction ms with
  | nil => intro n; rw [mAdjHead, bytes_nil, drop_nil]
  | cons m ms ih =>
    intro n
    rw [mAdjHead]
    by_cases h0 : n = 0
    · rw [if_pos h0, h0, drop_zero]
    rw [if_neg h0, bytes_cons, drop_append, Mbuf.length_bytes]
    by_cases hle : m.mLen ≤ n
    · rw [if_pos hle, bytes_cons, ih,
        drop_eq_nil_of_le (show m.bytes.length ≤ _ by rw [Mbuf.length_bytes]; exact hle)]
      rfl
    · rw [if_neg hle, show n - m.mLen = 0 by omega, drop_zero, Mbuf.bytes, drop_window]
      rfl

theorem bytes_mAdjTail : ∀ (ms : List Mbuf) (n : Nat),
    bytes (mAdjTail ms n) = (bytes ms).take n := by
  intro ms
  induction ms with
  | nil => intro n; rw [mAdjTail, bytes_nil, take_nil]
  | cons m ms ih =>
    intro n
    rw [mAdjTail, bytes_cons, take_append, Mbuf.length_bytes]
    by_cases hgt : m.mLen > n
    · rw [if_pos hgt, bytes_cons, ih, Mbuf.bytes, Mbuf.bytes, take_window _ _ (by omega),
        show n - m.mLen = 0 by omega, Nat.sub_self]
    · rw [if_neg hgt, bytes_cons, ih,
        take_of_length_le (l := m.bytes) (by rw [Mbuf.length_bytes]; omega)]

theorem bytes_mSyncLen (ms : List Mbuf) : bytes (mSyncLen ms) = bytes ms := by
  cases ms with
  | nil => rfl
  | cons m ms =>
    rw [mSyncLen]
    split
    · rfl
    · rfl

theorem bytes_mAdj_head (ms : List Mbuf) (n : Nat) : bytes (mAdj ms n) = (bytes ms).drop n := by
  rw [mAdj, bytes_mSyncLen, if_pos (by omega), Int.toNat_natCast, bytes_mAdjHead]

theorem addr_mAdjHead (ms : List Mbuf) (n : Nat) :
    (mAdjHead ms n).map Mbuf.addr = ms.map Mbuf.addr := by
  induction ms generalizing n with
  | nil => rfl
  | cons m ms ih =>
    rw [mAdjHead]
    split
    · rfl
    split
    · rw [map_cons, map_cons, ih]
    · rfl

theorem addr_mAdjTail (ms : List Mbuf) (n : Nat) :
    (mAdjTail ms n).map Mbuf.addr = ms.map Mbuf.addr := by
  induction ms generalizing n with
  | nil => rfl
  | cons m ms ih =>
    rw [mAdjTail]
    split <;> rw [map_cons, map_cons, ih]

theorem addr_mAdj (ms : List Mbuf) (n : Int) : (mAdj ms n).map Mbuf.addr = ms.map Mbuf.addr := by
  have hsync : ∀ ms : List Mbuf, (mSyncLen ms).map Mbuf.addr = ms.map Mbuf.addr := by
    intro ms
    cases ms with
    | nil => rfl
    | cons m ms =>
      rw [mSyncLen]
      split
      · rfl
      · rfl
  rw [mAdj, hsync]
  split
  · exact addr_mAdjHead _ _
  · exact addr_mAdjTail _ _

theorem bytes_mAdj_tail (ms : List Mbuf) (h0 : 0 < n) :
    bytes (mAdj ms (-n)) = (bytes ms).take (mLength ms - n) := by
  rw [mAdj, bytes_mSyncLen, if_neg (by omega), Int.neg_neg, Int.toNat_natCast, bytes_mAdjTail]
  congr 1
  split
  · rfl
  · omega

/-! ## Copying -/

theorem mCopydataLoop_eq : ∀ (ms : List Mbuf) (off len : Nat), (∀ m ∈ ms.head?, off ≤ m.mLen) →
    mCopydataLoop ms off len = ((bytes ms).drop off).take len := by
  intro ms
  induction ms with
  | nil => intro off len _; rw [mCopydataLoop, bytes_nil, drop_nil, take_nil]
  | cons m ms ih =>
    intro off len hoff
    have hoff : off ≤ m.mLen := hoff m rfl
    rw [mCopydataLoop]
    by_cases h0 : len = 0
    · rw [if_pos h0, h0, take_zero]
    rw [if_neg h0, bytes_cons, drop_append, Mbuf.length_bytes,
      show off - m.mLen = 0 by omega, drop_zero, take_append, Mbuf.bytes, drop_window,
      length_window]
    dsimp only
    rw [ih 0 _ fun _ _ => Nat.zero_le _, drop_zero]
    split
    · rw [take_of_length_le (l := window _ _ _) (by rw [length_window]; omega)]
    · rw [take_window _ _ (by omega), show len - (m.mLen - off) = len - len by omega]

theorem mCopydata_eq (ms : List Mbuf) (off len : Nat) :
    mCopydata ms off len = ((bytes ms).drop off).take len := by
  have hseek : ∀ (ms : List Mbuf) (off : Nat),
      (∀ m ∈ (mCopydataSeek ms off).1.head?, (mCopydataSeek ms off).2 ≤ m.mLen) ∧
        (bytes (mCopydataSeek ms off).1).drop (mCopydataSeek ms off).2 = (bytes ms).drop off := by
    intro ms
    induction ms with
    | nil => intro off; exact ⟨fun m hm => absurd hm (by simp [mCopydataSeek]), rfl⟩
    | cons m ms ih =>
      intro off
      rw [mCopydataSeek]
      split
      · next h =>
        refine ⟨?_, rfl⟩
        intro m' hm'
        obtain rfl : m = m' := Option.some.inj hm'
        omega
      · next h =>
        refine ⟨(ih _).1, ?_⟩
        rw [(ih _).2, bytes_cons, drop_append, Mbuf.length_bytes,
          drop_eq_nil_of_le (show m.bytes.length ≤ _ by rw [Mbuf.length_bytes]; omega),
          nil_append]
  rw [mCopydata, mCopydataLoop_eq _ _ _ (hseek ms off).1, (hseek ms off).2]

theorem bytes_mDropEmpty : ∀ (ms : List Mbuf) (h : Heap), bytes (mDropEmpty h ms).2 = bytes ms := by
  intro ms
  induction ms with
  | nil => intro h; rfl
  | cons m ms ih =>
    intro h
    rw [mDropEmpty]
    split
    · next h0 =>
      rw [ih, bytes_cons, eq_nil_of_length_eq_zero (l := m.bytes)
        (by rw [Mbuf.length_bytes]; exact h0), nil_append]
    · rfl

/-! ## Rearranging -/

/-- A packet: the header mbuf carries the length of the chain. -/
def Pkt : List Mbuf → Prop
  | [] => False
  | m :: ms => m.hasPkthdr = true ∧ m.pkthdrLen = mLength (m :: ms)

theorem and_moved_flag (a b x : UInt32) : ((a &&& ~~~x) ||| (b &&& x)) &&& x = b &&& x := by
  apply UInt32.eq_of_toBitVec_eq
  ext i hi
  simp only [UInt32.toBitVec_and, UInt32.toBitVec_or, UInt32.toBitVec_not, BitVec.getElem_and,
    BitVec.getElem_or, BitVec.getElem_not]
  cases x.toBitVec[i] <;> simp

theorem or_masked_flag {a b : UInt32} (h : a &&& b = 0) (x y : UInt32) :
    (x ||| (y &&& a)) &&& b = x &&& b := by
  apply UInt32.eq_of_toBitVec_eq
  ext i hi
  have hi' : (a &&& b).toBitVec[i] = (0 : UInt32).toBitVec[i] := by rw [h]
  simp only [UInt32.toBitVec_and, UInt32.toBitVec_or, BitVec.getElem_and,
    BitVec.getElem_or] at hi' ⊢
  cases ha : a.toBitVec[i] <;> cases hb : b.toBitVec[i] <;> simp_all

theorem mMovePkthdr_hasPkthdr (dst src : Mbuf) :
    (mMovePkthdr dst src).1.hasPkthdr = src.hasPkthdr := by
  simp only [mMovePkthdr, Mbuf.hasPkthdr, and_moved_flag]

theorem mGetImpl_hasPkthdr {h h' : Heap} {pkthdr : Bool} (hg : mGetImpl h pkthdr = (h', some m)) :
    m.hasPkthdr = pkthdr := by
  have hflags : ∀ p : Bool, (((if p then mPkthdr else 0) ||| mExt) &&& mPkthdr != 0) = p := by
    decide
  rw [mGetImpl] at hg
  split at hg
  · cases (Prod.mk.inj hg).2
  · cases (Prod.mk.inj hg).2
    exact hflags pkthdr

theorem bytes_pulled (head m : Mbuf) (ms : List Mbuf) (h : Heap) (hlen : len ≤ mLength (m :: ms)) :
    bytes ({ head.put 0 (mCopydata (m :: ms) 0 len) with mLen := len } ::
      (mDropEmpty h (mAdj (m :: ms) len)).2) = bytes (m :: ms) := by
  have hcopy : (mCopydata (m :: ms) 0 len).length = len := by
    rw [mCopydata_eq, length_take, drop_zero, length_bytes]
    omega
  have hhead : Mbuf.bytes { head.put 0 (mCopydata (m :: ms) 0 len) with mLen := len } =
      (bytes (m :: ms)).take len := by
    have := window_store_same head.mCluster (mCopydata (m :: ms) 0 len) head.mData
    rw [hcopy] at this
    rw [Mbuf.bytes, Mbuf.put]
    simp only [Nat.add_zero]
    rw [this, mCopydata_eq, drop_zero]
  rw [bytes_cons, hhead, bytes_mDropEmpty, bytes_mAdj_head, take_append_drop]

variable {ms ms' : List Mbuf}

/-- `m_pullup` keeps the octets and makes the first `len` of them contiguous, and no
more of them where it has to allocate. -/
theorem mPullup_some {h h' : Heap} (hp : mPullup h (m :: ms) len = (h', some ms')) :
    ∃ m' tl, ms' = m' :: tl ∧ bytes ms' = bytes (m :: ms) ∧ m'.mLen = max m.mLen len ∧
      m'.hasPkthdr = m.hasPkthdr ∧ (m.hasPkthdr = true → m'.pkthdrLen = m.pkthdrLen) := by
  rw [mPullup] at hp
  split at hp
  · exact absurd (congrArg Prod.snd hp) (by simp)
  split at hp
  · next hlen =>
    injection hp with _ hms
    cases hms
    exact ⟨m, ms, rfl, rfl, by omega, rfl, fun _ => rfl⟩
  next hshort =>
  have hmax : len = max m.mLen len := by omega
  split at hp
  · exact absurd (congrArg Prod.snd hp) (by simp)
  next htot =>
  split at hp
  · exact absurd (congrArg Prod.snd hp) (by simp)
  next head hget =>
  cases hf : m.hasPkthdr with
  | true =>
    rw [hf] at hp
    simp only [if_true, Int.toNat_natCast] at hp
    injection hp with _ hms
    cases hms
    refine ⟨_, _, rfl, ?_, hmax, ?_, fun _ => rfl⟩
    · exact bytes_pulled _ (mMovePkthdr head m).2 ms _ (by
        rw [mLength_cons] at htot ⊢
        exact Int.ofNat_le.mp (Int.not_lt.mp htot))
    · have := mMovePkthdr_hasPkthdr head m
      rw [hf] at this
      exact this
  | false =>
    rw [hf] at hp
    simp only [Bool.false_eq_true, if_false, Int.toNat_natCast] at hp
    injection hp with _ hms
    cases hms
    rw [hf] at hget
    have hfl : head.hasPkthdr = false := mGetImpl_hasPkthdr hget
    refine ⟨_, _, rfl, ?_, hmax, hfl, nofun⟩
    exact bytes_pulled _ m ms _ (Int.ofNat_le.mp (Int.not_lt.mp htot))

theorem mPrepend_some {h h' : Heap} (hp : mPrepend h (m :: ms) len = (h', some ms')) :
    ∃ m' tl p, ms' = m' :: tl ∧ p.length = len ∧ bytes ms' = p ++ bytes (m :: ms) ∧
      m'.hasPkthdr = m.hasPkthdr ∧ (m.hasPkthdr = true → m'.pkthdrLen = m.pkthdrLen + len) := by
  rw [mPrepend] at hp
  split at hp
  · exact absurd (congrArg Prod.snd hp) (by simp)
  split at hp
  · next hlead =>
    injection hp with _ hms
    cases hms
    refine ⟨_, _, window m.mCluster (m.mData - len) len, rfl, length_window _ _ _, ?_, rfl, ?_⟩
    · simp only [bytes_cons, Mbuf.bytes, Int.toNat_natCast]
      rw [Nat.add_comm m.mLen len, window_add, show m.mData - len + len = m.mData by omega,
        append_assoc]
    · intro hf
      simp only [hf, if_true, Int.toNat_natCast]
  split at hp
  · exact absurd (congrArg Prod.snd hp) (by simp)
  next n hget =>
  cases hf : m.hasPkthdr with
  | true =>
    rw [hf] at hp
    simp only [if_true, Int.toNat_natCast] at hp
    injection hp with _ hms
    cases hms
    refine ⟨_, _, window n.mCluster n.mData len, rfl, length_window _ _ _, rfl, ?_, fun _ => rfl⟩
    have := mMovePkthdr_hasPkthdr { n with mLen := len } m
    rw [hf] at this
    exact this
  | false =>
    rw [hf] at hp
    simp only [Bool.false_eq_true, if_false, Int.toNat_natCast] at hp
    injection hp with _ hms
    cases hms
    rw [hf] at hget
    have hfl : n.hasPkthdr = false := mGetImpl_hasPkthdr hget
    exact ⟨_, _, window n.mCluster n.mData len, rfl, length_window _ _ _, rfl, hfl, nofun⟩

theorem mAdj_within {k : Nat} (hf : m.hasPkthdr = true) (hk : k < m.mLen) :
    mAdj (m :: ms) k = { m with mLen := m.mLen - k, mData := m.mData + k,
                                pkthdrLen := mLength (m :: ms) - k } :: ms := by
  have hhead :
      mAdjHead (m :: ms) k = { m with mLen := m.mLen - k, mData := m.mData + k } :: ms := by
    rw [mAdjHead]
    split
    · next h0 => rw [h0]; rfl
    · rw [if_neg (by omega)]
  have hf' : Mbuf.hasPkthdr { m with mLen := m.mLen - k, mData := m.mData + k } = true := hf
  rw [mAdj, if_pos (Int.natCast_nonneg k), Int.toNat_natCast, hhead, mSyncLen, if_pos hf']
  congr 2
  simp only [mLength_cons]
  omega

theorem mAdj_pkt (hf : m.hasPkthdr = true) (n : Int) : Pkt (mAdj (m :: ms) n) := by
  have hsync : ∀ (m : Mbuf) (ms : List Mbuf), m.hasPkthdr = true → Pkt (mSyncLen (m :: ms)) := by
    intro m ms hf
    rw [mSyncLen, if_pos hf]
    exact ⟨hf, rfl⟩
  rw [mAdj]
  split
  · rw [mAdjHead]
    split
    · exact hsync _ _ hf
    · split <;> exact hsync _ _ hf
  · dsimp only
    generalize (if mLength (m :: ms) > (-n).toNat then _ else _) = count
    rw [mAdjTail]
    split <;> exact hsync _ _ hf

theorem mAdj_tail_head (m : Mbuf) (ms : List Mbuf) {len : Int} (h : len < 0) :
    ∃ m' ms', mAdj (m :: ms) len = m' :: ms' ∧ m'.get = m.get ∧ m'.mFlags = m.mFlags ∧
      m'.mLen = min m.mLen (mLength (m :: ms) - (-len).toNat) := by
  have htail : ∀ count, ∃ m' ms', mAdjTail (m :: ms) count = m' :: ms' ∧ m'.get = m.get ∧
      m'.mFlags = m.mFlags ∧ m'.mLen = min m.mLen count := by
    intro count
    rw [mAdjTail]
    split
    · next hlt => exact ⟨_, _, rfl, rfl, rfl, (Nat.min_eq_right (Nat.le_of_lt hlt)).symm⟩
    · next hge => exact ⟨_, _, rfl, rfl, rfl, (Nat.min_eq_left (Nat.not_lt.mp hge)).symm⟩
  have hcount : (if mLength (m :: ms) > (-len).toNat then mLength (m :: ms) - (-len).toNat else 0) =
      mLength (m :: ms) - (-len).toNat := by
    split
    · rfl
    · omega
  rw [mAdj, if_neg (by omega)]
  simp only [hcount]
  obtain ⟨m', ms', heq, hrest⟩ := htail (mLength (m :: ms) - (-len).toNat)
  rw [heq, mSyncLen]
  split <;> exact ⟨_, _, rfl, hrest⟩

/-! ## Appending -/

theorem bytes_mAppendNew : ∀ (fuel : Nat) (h : Heap) (cp : List UInt8),
    bytes (mAppendNew fuel h cp).2.1 ++ (mAppendNew fuel h cp).2.2 = cp := by
  intro fuel
  induction fuel with
  | zero => intro h cp; rfl
  | succ fuel ih =>
    intro h cp
    rw [mAppendNew]
    split
    · rfl
    split
    · rfl
    next h1 n _ =>
    have hlen : (cp.take (min mbufMlen cp.length)).length = min mbufMlen cp.length := by
      rw [length_take]; omega
    have hn : Mbuf.bytes (Mbuf.put { n with mLen := min mbufMlen cp.length } 0
        (cp.take (min mbufMlen cp.length))) = cp.take (min mbufMlen cp.length) := by
      have := window_store_same n.mCluster (cp.take (min mbufMlen cp.length)) n.mData
      rw [hlen] at this
      exact this
    simp only [bytes_cons, append_assoc]
    rw [hn, ih]
    exact take_append_drop _ cp

theorem mAppendLast_spec : ∀ (ms : List Mbuf) (m : Mbuf) (h : Heap) (cp : List UInt8),
    ∃ m' tl, (mAppendLast h (m :: ms) cp).2.1 = m' :: tl ∧ m'.mFlags = m.mFlags ∧
      m'.pkthdrLen = m.pkthdrLen ∧ m.mLen ≤ m'.mLen ∧
      bytes (m' :: tl) ++ (mAppendLast h (m :: ms) cp).2.2 = bytes (m :: ms) ++ cp := by
  intro ms
  induction ms with
  | nil =>
    intro m h cp
    rw [mAppendLast]
    refine ⟨_, _, rfl, rfl, rfl, Nat.le_add_right _ _, ?_⟩
    have hle : min (mClusterSize - (m.mData + m.mLen)) cp.length ≤ cp.length := by omega
    generalize min (mClusterSize - (m.mData + m.mLen)) cp.length = space at hle ⊢
    have hlen : (cp.take space).length = space := by rw [length_take]; omega
    have hm : Mbuf.bytes { m.put m.mLen (cp.take space) with mLen := m.mLen + space } =
        m.bytes ++ cp.take space := by
      have := window_store_same m.mCluster (cp.take space) (m.mData + m.mLen)
      rw [hlen] at this
      rw [Mbuf.bytes, Mbuf.put]
      rw [window_add, this, window_store_of_disjoint _ (Or.inl (Nat.le_refl _)), Mbuf.bytes]
    rw [bytes_cons, hm, append_assoc, bytes_mAppendNew, append_assoc,
      take_append_drop, bytes_cons, bytes_nil, append_nil]
  | cons m2 ms ih =>
    intro m h cp
    obtain ⟨m', tl, heq, _, _, _, hb⟩ := ih m2 h cp
    refine ⟨m, m' :: tl, ?_, rfl, rfl, Nat.le_refl _, ?_⟩
    · exact congrArg (m :: ·) heq
    · rw [bytes_cons, append_assoc, bytes_cons m, append_assoc]
      exact congrArg (m.bytes ++ ·) hb

theorem mAppend_true {h h' : Heap} {cp : List UInt8}
    (ha : mAppend h (m :: ms) cp = (h', ms', true)) :
    ∃ m' tl, ms' = m' :: tl ∧ bytes ms' = bytes (m :: ms) ++ cp ∧ m'.mFlags = m.mFlags ∧
      m.mLen ≤ m'.mLen ∧ (m.hasPkthdr = true → m'.pkthdrLen = m.pkthdrLen + cp.length) := by
  obtain ⟨m', tl, heq, hfl, hpl, hlen, hb⟩ := mAppendLast_spec ms m h cp
  rw [mAppend] at ha
  simp only [heq] at ha
  injection ha with _ ha
  injection ha with hms hrest
  have hnil : (mAppendLast h (m :: ms) cp).2.2 = [] :=
    eq_nil_of_length_eq_zero (beq_iff_eq.mp hrest)
  rw [hnil, append_nil] at hb
  subst hms
  refine ⟨_, tl, rfl, ?_, ?_, ?_, ?_⟩
  · rw [← hb]
    split
    · rfl
    · rfl
  · split <;> exact hfl
  · split <;> exact hlen
  · intro hf
    have hf' : m'.hasPkthdr = true := by rw [Mbuf.hasPkthdr, hfl]; exact hf
    rw [if_pos hf', hnil, hpl]
    rfl

/-- Everything but the contents of the cluster is the same. -/
structure SameShape (m m' : Mbuf) : Prop where
  addr : m'.addr = m.addr
  flags : m'.mFlags = m.mFlags
  data : m'.mData = m.mData
  len : m'.mLen = m.mLen
  pkthdr : m'.pkthdrLen = m.pkthdrLen

theorem SameShape.rfl : SameShape m m := ⟨by rfl, by rfl, by rfl, by rfl, by rfl⟩

theorem SameShape.put (m : Mbuf) (i : Nat) (p : List UInt8) : SameShape m (m.put i p) :=
  ⟨by rfl, by rfl, by rfl, by rfl, by rfl⟩

theorem SameShape.trans {m₁ m₂ m₃ : Mbuf} (h : SameShape m₁ m₂) (h' : SameShape m₂ m₃) :
    SameShape m₁ m₃ :=
  ⟨h'.addr.trans h.addr, h'.flags.trans h.flags, h'.data.trans h.data, h'.len.trans h.len,
    h'.pkthdr.trans h.pkthdr⟩

/-- Two chains of the same shape. -/
abbrev SameShapes : List Mbuf → List Mbuf → Prop := List.Forall₂ SameShape

theorem SameShapes.refl (ms : List Mbuf) : SameShapes ms ms :=
  forall₂_same.mpr fun _ _ => SameShape.rfl

theorem SameShapes.trans : ∀ {ms₁ ms₂ ms₃ : List Mbuf}, SameShapes ms₁ ms₂ →
    SameShapes ms₂ ms₃ → SameShapes ms₁ ms₃
  | _, _, _, .nil, .nil => .nil
  | _, _, _, .cons h hs, .cons h' hs' => .cons (h.trans h') (SameShapes.trans hs hs')

theorem SameShapes.mLength (h : SameShapes ms ms') : mLength ms' = mLength ms := by
  induction h with
  | nil => rfl
  | cons h _ ih => rw [mLength_cons, mLength_cons, ih, h.len]

theorem SameShapes.pkt : ∀ {ms ms' : List Mbuf}, SameShapes ms ms' → Pkt ms → Pkt ms'
  | _, _, .nil, h => h
  | _, _, .cons hs hss, h => by
      refine ⟨?_, ?_⟩
      · rw [Mbuf.hasPkthdr, hs.flags]; exact h.1
      · rw [hs.pkthdr, h.2, SameShapes.mLength (.cons hs hss)]

end Net80211
