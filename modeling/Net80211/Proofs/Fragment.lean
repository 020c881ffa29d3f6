import Net80211.Proofs.InputData
import Net80211.Proofs.Encap

/-!
# Fragments of a frame

`ieee80211_fragment` copies everything behind the first `mtu` octets into new
frames and trims the first one when all the copies are there. A round of its loop
copies what fits and counts; `fragmentLoop_spec` is the whole loop, from any offset: the
copies cut the rest of the frame into pieces (`CutInto`), or an allocation failed and
what was allocated before it is freed. `fragment_partition` is the frame and its copies
together.

The number of a fragment has four bits and the counter has not, so the seventeenth fragment
has the number of the first.
-/

namespace Net80211

open Lib Crypto List Option

/-! ## One fragment -/

/-- The header of a first fragment. -/
def fragHdr (hdr : List UInt8) : List UInt8 := patch hdr 1 [hdrOf hdr 1 ||| fc1MoreFrag]

/-- The header of fragment `k`, from a header that says more fragments follow. -/
def numberedHdr (hdr : List UInt8) (k : Nat) : List UInt8 :=
  patch hdr 22 [hdrOf hdr 22 ||| UInt8.ofNat (k % 16)]

/-- The header of the last one. -/
def lastHdr (hdr : List UInt8) (k : Nat) : List UInt8 :=
  patch (numberedHdr hdr k) 1 [hdrOf (numberedHdr hdr k) 1 &&& ~~~fc1MoreFrag]

variable {hdr : List UInt8} {i : Nat}

theorem length_numberedHdr (h : 24 ≤ hdr.length) (k : Nat) :
    (numberedHdr hdr k).length = hdr.length :=
  length_patch (show 22 + 1 ≤ _ by omega)

theorem length_lastHdr (h : 24 ≤ hdr.length) (k : Nat) : (lastHdr hdr k).length = hdr.length := by
  have hlen := length_numberedHdr h k
  exact (length_patch (show 1 + 1 ≤ _ by omega)).trans hlen

theorem hdrOf_patch (h : i < hdr.length) (b : UInt8) (j : Nat) :
    hdrOf (patch hdr i [b]) j = if j = i then b else hdrOf hdr j := by
  have htake : (hdr.take i).length = i := by rw [length_take]; omega
  rw [hdrOf, hdrOf, getD_eq_getElem?_getD, getD_eq_getElem?_getD, patch, append_assoc,
    getElem?_append, htake]
  by_cases hlt : j < i
  · rw [if_pos hlt, if_neg (by omega), getElem?_take_of_lt hlt]
  rw [if_neg hlt]
  by_cases heq : j = i
  · rw [if_pos heq, heq, Nat.sub_self]
    rfl
  · rw [if_neg heq, getElem?_append_right (by rw [length_singleton]; omega), getElem?_drop,
      length_singleton]
    congr 2
    omega

theorem length_fragHdr (hl : 2 ≤ hdr.length) : (fragHdr hdr).length = hdr.length := length_patch hl

theorem hdrOf_fragHdr (hl : 2 ≤ hdr.length) (i : Nat) :
    hdrOf (fragHdr hdr) i = if i = 1 then hdrOf hdr 1 ||| fc1MoreFrag else hdrOf hdr i :=
  hdrOf_patch hl _ i

/-- The header of fragment `k`, the last one or not. -/
def hdrAt (hdr : List UInt8) (last : Bool) (k : Nat) : List UInt8 :=
  if last then lastHdr hdr k else numberedHdr hdr k

theorem length_hdrAt (h : 24 ≤ hdr.length) (last : Bool) (k : Nat) :
    (hdrAt hdr last k).length = hdr.length := by
  cases last with
  | true => exact length_lastHdr h k
  | false => exact length_numberedHdr h k

/-- A new mbuf that holds a frame of its own. -/
structure OwnFrame (b : List UInt8) (m : Mbuf) : Prop where
  octets : m.bytes = b
  data : m.mData = mhAlign
  pkthdr : m.hasPkthdr = true
  pkthdrLen : m.pkthdrLen = m.mLen
  frag : m.mFlags = mPkthdr ||| mExt ||| mFrag

section Loop

variable {m0 : Mbuf} {ms0 : List Mbuf} {hdrsize ciphdrsize mtu : Nat}

theorem fragmentAt_octets (fragno : Nat) (m : Mbuf) (h24 : 24 ≤ hdrsize)
    {fragsize off payload : Nat} (hsize : ciphdrsize ≤ fragsize)
    (hoff : off + payload ≤ mLength (m0 :: ms0)) (hm : m.mFlags = mPkthdr ||| mExt) :
    let f := fragmentAt m0 ms0 hdrsize ciphdrsize fragsize fragno off payload m
    OwnFrame (numberedHdr (window m0.get 0 hdrsize) fragno ++
      ((bytes (m0 :: ms0)).drop off).take payload) f ∧ f.addr = m.addr := by
  have hf : m.hasPkthdr = true := by
    rw [Mbuf.hasPkthdr, hm]
    decide
  have hcopy : (mCopydata (m0 :: ms0) off payload).length = payload := by
    rw [mCopydata_eq, length_take, length_drop, length_bytes]
    omega
  have halign : mAlign m ((fragsize : Int) - ciphdrsize) =
      { m with mData := mhAlign, mLen := fragsize - ciphdrsize } := by
    rw [mAlign, if_neg (by omega), hf]
    congr 1
    omega
  generalize hA : window m0.get 0 hdrsize = hdr
  have hlenA : hdr.length = hdrsize := hA ▸ length_window _ _ _
  have hwin : window m0.mCluster m0.mData hdrsize = hdr :=
    (window_shift m0.mCluster m0.mData hdrsize 0).symm.trans hA
  -- the mbuf as if it had its final length from the start
  let q : Mbuf := { m with mData := mhAlign, mLen := hdrsize + payload }
  have hqlen : q.bytes.length = hdrsize + payload := Mbuf.length_bytes q
  have h22 : (q.put 0 hdr).get 22 = hdrOf hdr 22 := by
    have := Mbuf.get_put_add q 0 22 hdr
    rw [Nat.zero_add] at this
    rw [this, hdrOf, getD_eq_getElem?_getD, getElem?_eq_getElem (by omega)]
    rfl
  have hput0 : (q.put 0 hdr).bytes = hdr ++ q.bytes.drop hdrsize := by
    rw [Mbuf.bytes_put (by rw [hlenA]; show 0 + hdrsize ≤ hdrsize + payload; omega), patch,
      take_zero, nil_append, hlenA, Nat.zero_add]
  have hput22 : ((q.put 0 hdr).put 22 [hdrOf hdr 22 ||| UInt8.ofNat (fragno % 16)]).bytes =
      numberedHdr hdr fragno ++ q.bytes.drop hdrsize := by
    rw [Mbuf.bytes_put (show 22 + 1 ≤ hdrsize + payload by omega), hput0,
      patch_append_left _ (show 22 + 1 ≤ hdr.length by omega)]
    rfl
  have hput : (((q.put 0 hdr).put 22 [hdrOf hdr 22 ||| UInt8.ofNat (fragno % 16)]).put hdrsize
      (mCopydata (m0 :: ms0) off payload)).bytes =
        numberedHdr hdr fragno ++ ((bytes (m0 :: ms0)).drop off).take payload := by
    have hnum := length_numberedHdr (show 24 ≤ hdr.length by omega) fragno
    rw [Mbuf.bytes_put (show hdrsize + _ ≤ hdrsize + payload by omega), hput22,
      patch_append_right _ _ (by omega), show hdrsize - (numberedHdr hdr fragno).length = 0 by
      omega, patch,
      take_zero, nil_append, hcopy, Nat.zero_add, drop_drop,
      drop_eq_nil_of_le (by omega), append_nil, mCopydata_eq]
  simp only [fragmentAt, halign, hwin]
  refine ⟨⟨?_, rfl, ?_, rfl, ?_⟩, rfl⟩
  · rw [← hput, ← h22]
    rfl
  · show ((m.mFlags ||| mFrag) &&& mPkthdr != 0) = true
    rw [hm]
    decide
  · show m.mFlags ||| mFrag = _
    rw [hm]

/-! ## The loop -/

/-- `frags` cut `l` into pieces of `per` octets, with the numbers from `k` on. -/
def CutInto (hdr : List UInt8) (per : Nat) : Nat → List UInt8 → List Mbuf → Prop
  | _, _, [] => False
  | k, l, [f] => 0 < l.length ∧ l.length ≤ per ∧ OwnFrame (lastHdr hdr k ++ l) f
  | k, l, f :: fs =>
    per < l.length ∧ OwnFrame (numberedHdr hdr k ++ l.take per) f ∧
      CutInto hdr per (k + 1) (l.drop per) fs

theorem CutInto.cons {per k : Nat} {l : List UInt8} {f : Mbuf} {fs : List Mbuf}
    (hlt : per < l.length) (hf : OwnFrame (numberedHdr hdr k ++ l.take per) f)
    (hfs : CutInto hdr per (k + 1) (l.drop per) fs) : CutInto hdr per k l (f :: fs) := by
  cases fs with
  | nil => exact hfs.elim
  | cons g gs => exact ⟨hlt, hf, hfs⟩

theorem OwnFrame.last {l : List UInt8} {k : Nat} {f : Mbuf} (h24 : 24 ≤ hdr.length)
    (hf : OwnFrame (numberedHdr hdr k ++ l) f) :
    OwnFrame (lastHdr hdr k ++ l) (f.put 1 [f.get 1 &&& ~~~fc1MoreFrag]) := by
  have hlen := length_numberedHdr h24 k
  have hmlen : f.mLen = hdr.length + l.length := by
    rw [← Mbuf.length_bytes, hf.octets, length_append, hlen]
  have hget : f.get 1 = hdrOf (numberedHdr hdr k) 1 :=
    get_eq_hdrOf ((bytes_singleton f).trans hf.octets) (by omega) (by omega)
  refine ⟨?_, hf.data, hf.pkthdr, hf.pkthdrLen, hf.frag⟩
  rw [Mbuf.bytes_put (show 1 + 1 ≤ f.mLen by omega), hf.octets,
    patch_append_left _ (show 1 + 1 ≤ _ by omega), hget]
  rfl

theorem mGetImpl_cases (h : Heap) :
    (h.alloc h.next = none ∧ mGetImpl h true = ({ h with next := h.next + 1 }, none)) ∨
      ∃ m, h.alloc h.next ≠ none ∧ mGetImpl h true = ({ h with next := h.next + 1 }, some m) ∧
        m.addr = h.next ∧ m.mFlags = mPkthdr ||| mExt ∧ m.mData = mhAlign := by
  rw [mGetImpl]
  cases halloc : h.alloc h.next with
  | none => exact .inl ⟨rfl, rfl⟩
  | some cl => exact .inr ⟨_, some_ne_none cl, rfl, rfl, rfl, rfl⟩

/-- The allocations that a run of `k` successful ones and a failed one makes. -/
structure AllocFails (h : Heap) (k : Nat) : Prop where
  succeed : ∀ i < k, h.alloc (h.next + i) ≠ none
  fail : h.alloc (h.next + k) = none

/-- Where the headers fill the whole fragment, the loop does not come to its end. -/
theorem fragmentLoop_stuck (hmtu : mtu ≤ hdrsize + ciphdrsize) {h' : Heap} {frags : List Mbuf} :
    ∀ (fuel : Nat) (h : Heap) (fragno off remainder : Nat) (acc : List Mbuf), 0 < remainder →
      fragmentLoop m0 ms0 hdrsize ciphdrsize mtu fuel h fragno off remainder acc ≠
        some (h', some frags) := by
  intro fuel
  induction fuel with
  | zero => intro h fragno off remainder acc _ hl; cases hl
  | succ fuel ih =>
    intro h fragno off remainder acc hrem hl
    have hpayload : min (hdrsize + ciphdrsize + remainder) mtu - (hdrsize + ciphdrsize) = 0 := by
      omega
    rw [fragmentLoop] at hl
    simp only [hpayload, Nat.sub_zero, if_pos (Nat.pos_iff_ne_zero.mp hrem)] at hl
    split at hl
    · cases hl
    · exact ih _ _ _ _ _ hrem hl

/-- The loop of `ieee80211_fragment` comes to its end: an allocation fails and what was
allocated is freed, or the rest of the frame is cut. -/
theorem fragmentLoop_spec (h24 : 24 ≤ hdrsize) (hmtu : hdrsize + ciphdrsize < mtu) :
    ∀ (fuel : Nat) (h : Heap) (fragno off remainder : Nat) (acc : List Mbuf),
      off + remainder = mLength (m0 :: ms0) → 0 < remainder → remainder < fuel →
      (∃ k, AllocFails h k ∧
        fragmentLoop m0 ms0 hdrsize ciphdrsize mtu fuel h fragno off remainder acc =
          some ({ h with next := h.next + k + 1,
                         freed := h.freed ++ acc.map Mbuf.addr ++ range' h.next k }, none)) ∨
      ∃ frags, fragmentLoop m0 ms0 hdrsize ciphdrsize mtu fuel h fragno off remainder acc =
          some ({ h with next := h.next + frags.length }, some (acc ++ frags)) ∧
        CutInto (window m0.get 0 hdrsize) (mtu - (hdrsize + ciphdrsize)) fragno
          ((bytes (m0 :: ms0)).drop off) frags ∧
        frags.map Mbuf.addr = range' h.next frags.length := by
  intro fuel
  induction fuel with
  | zero => intro h fragno off remainder acc _ _ hlt; omega
  | succ fuel ih =>
    intro h fragno off remainder acc hoff hpos hfuel
    have hrest : ((bytes (m0 :: ms0)).drop off).length = remainder := by
      rw [length_drop, length_bytes]
      omega
    rw [fragmentLoop]
    rcases mGetImpl_cases h with ⟨halloc, hget⟩ | ⟨m, halloc, hget, hmaddr, hflags, _⟩
    · refine .inl ⟨0, ⟨fun i hi => absurd hi (Nat.not_lt_zero i), halloc⟩, ?_⟩
      rw [hget, range'_zero, append_nil]
      rfl
    · simp only [hget]
      generalize hpay :
        min (hdrsize + ciphdrsize + remainder) mtu - (hdrsize + ciphdrsize) = payload
      obtain ⟨hown, haddr⟩ := fragmentAt_octets fragno m h24
        (show ciphdrsize ≤ min (hdrsize + ciphdrsize + remainder) mtu by omega)
        (show off + payload ≤ mLength (m0 :: ms0) by omega) hflags
      generalize fragmentAt m0 ms0 hdrsize ciphdrsize
        (min (hdrsize + ciphdrsize + remainder) mtu) fragno
        off payload m = f at hown haddr ⊢
      rw [hmaddr] at haddr
      by_cases hlast : remainder - payload ≠ 0
      · -- a full fragment, and the loop goes on behind it
        have hper : payload = mtu - (hdrsize + ciphdrsize) := by omega
        rw [if_pos hlast]
        have hih :=
          ih { h with next := h.next + 1 } (fragno + 1) (off + payload) (remainder - payload)
          (acc ++ [f]) (by omega) (by omega) (by omega)
        rcases hih with ⟨k, hfail, hrun⟩ | ⟨frags, hrun, hcut, haddrs⟩
        · refine .inl ⟨k + 1, ⟨fun i hi => ?_, ?_⟩, ?_⟩
          · cases i with
            | zero => exact halloc
            | succ i =>
              have := hfail.succeed i (by omega)
              dsimp only at this
              rwa [show h.next + (i + 1) = h.next + 1 + i by omega]
          · have := hfail.fail
            dsimp only at this
            rwa [show h.next + (k + 1) = h.next + 1 + k by omega]
          · rw [hrun, map_append, map_singleton, haddr, range'_succ]
            simp only [append_assoc, singleton_append]
            rw [show h.next + 1 + k + 1 = h.next + (k + 1) + 1 by omega]
        · refine .inr ⟨f :: frags, ?_, ?_, ?_⟩
          · rw [hrun, append_assoc, singleton_append, length_cons]
            rw [show h.next + 1 + frags.length = h.next + (frags.length + 1) by omega]
          · rw [← drop_drop, hper] at hcut
            exact .cons (by omega) (hper ▸ hown) hcut
          · rw [map_cons, haddr, haddrs, length_cons, range'_succ]
      · rw [if_neg hlast]
        have hall : ((bytes (m0 :: ms0)).drop off).take payload = (bytes (m0 :: ms0)).drop off :=
          take_of_length_le (by omega)
        rw [hall] at hown
        refine .inr ⟨[f.put 1 [f.get 1 &&& ~~~fc1MoreFrag]], rfl, ⟨by omega, by omega, ?_⟩, ?_⟩
        · exact hown.last (by rw [length_window]; exact h24)
        · exact congrArg (fun a => [a]) haddr

end Loop

/-! ## What a cut is -/

variable {l : List UInt8} {per k : Nat} {fs : List Mbuf}

theorem CutInto.pos (h : CutInto hdr per k l fs) : 0 < fs.length := by
  cases fs with
  | nil => exact h.elim
  | cons f fs => exact Nat.succ_pos _

/-- Every fragment is full but the last one. -/
theorem CutInto.length (h : CutInto hdr per k l fs) :
    fs.length * per < l.length + per ∧ l.length ≤ fs.length * per := by
  induction fs generalizing k l with
  | nil => exact h.elim
  | cons f fs ih =>
    cases fs with
    | nil =>
      obtain ⟨hpos, hle, _⟩ := h
      rw [length_singleton, Nat.one_mul]
      omega
    | cons g gs =>
      obtain ⟨hlt, _, hrest⟩ := h
      have := ih hrest
      rw [length_drop] at this
      rw [length_cons, Nat.succ_mul]
      omega

theorem CutInto.payload (h : CutInto hdr per k l fs) (h24 : 24 ≤ hdr.length) :
    fs.flatMap (fun f => f.bytes.drop hdr.length) = l := by
  induction fs generalizing k l with
  | nil => exact h.elim
  | cons f fs ih =>
    cases fs with
    | nil =>
      obtain ⟨_, _, hf⟩ := h
      rw [flatMap_singleton, hf.octets, drop_left' (length_lastHdr h24 k)]
    | cons g gs =>
      obtain ⟨_, hf, hrest⟩ := h
      rw [flatMap_cons, ih hrest, hf.octets, drop_left' (length_numberedHdr h24 k),
        take_append_drop]

theorem CutInto.getElem? (h : CutInto hdr per k l fs) (hper : 0 < per) {f : Mbuf}
    (hi : fs[i]? = some f) :
    ∃ b, 0 < b.length ∧ b.length ≤ per ∧
    OwnFrame (hdrAt hdr (i + 1 = fs.length) (k + i) ++ b) f := by
  induction fs generalizing k l i with
  | nil => exact h.elim
  | cons g fs ih =>
    cases fs with
    | nil =>
      cases i with
      | zero =>
        obtain ⟨hpos, hle, hf⟩ := h
        cases hi
        exact ⟨l, hpos, hle, hf⟩
      | succ i => cases hi
    | cons g' gs =>
      obtain ⟨hlt, hf, hrest⟩ := h
      cases i with
      | zero =>
        cases hi
        refine ⟨l.take per, ?_, ?_, ?_⟩
        · rw [length_take]
          omega
        · rw [length_take]
          omega
        · rw [decide_eq_false (by rw [length_cons, length_cons]; omega)]
          exact hf
      | succ i =>
        obtain ⟨b, hpos, hb, hown⟩ := ih hrest (show (g' :: gs)[i]? = some f from hi)
        refine ⟨b, hpos, hb, ?_⟩
        have hlast :
            decide (i + 1 + 1 = (g :: g' :: gs).length) = decide (i + 1 = (g' :: gs).length) := by
          rw [length_cons, decide_eq_decide]
          omega
        rw [show k + (i + 1) = k + 1 + i by omega, hlast]
        exact hown

/-! ## The frame and its fragments -/

/-- The fragment number of a frame. -/
def fragNumber (f : List Mbuf) : Nat := (seqFrag (whSeq (hdrOf (bytes f)))).toNat

/-- `IEEE80211_FC1_MORE_FRAG`. -/
def moreFragments (f : List Mbuf) : Bool := hdrOf (bytes f) 1 &&& fc1MoreFrag != 0

theorem whSeq_mod (wh : Wh) : (whSeq wh).toNat % 16 = (wh 22).toNat % 16 := by
  have h16 : (16 : Nat) = 2 ^ 4 := rfl
  rw [whSeq, UInt16.toNat_or, h16, Nat.or_mod_two_pow, UInt16.toNat_shiftLeft, UInt8.toNat_toUInt16,
    UInt8.toNat_toUInt16]
  have hshift : ((wh 23).toNat <<< ((8 : UInt16).toNat % 16)) % 2 ^ 16 % 2 ^ 4 = 0 := by
    rw [show (8 : UInt16).toNat % 16 = 8 from rfl, Nat.shiftLeft_eq]
    omega
  rw [hshift, Nat.or_zero]

theorem length_mAdjTail : ∀ (ms : List Mbuf) (count : Nat),
    (mAdjTail ms count).length = ms.length := by
  intro ms
  induction ms with
  | nil => exact fun _ => rfl
  | cons m ms ih =>
    intro count
    rw [mAdjTail]
    split <;> rw [length_cons, length_cons, ih]

theorem mAdj_tail_place (m : Mbuf) (ms : List Mbuf) {len : Int} (h : len < 0) :
    ∃ m' ms', mAdj (m :: ms) len = m' :: ms' ∧ m'.mData = m.mData ∧ m'.addr = m.addr ∧
      ms'.length = ms.length := by
  rw [mAdj, if_neg (by omega)]
  dsimp only
  generalize (if mLength (m :: ms) > (-len).toNat then _ else _) = count
  rw [mAdjTail]
  split <;>
  · rw [mSyncLen]
    split <;> exact ⟨_, _, rfl, rfl, rfl, length_mAdjTail _ _⟩

/-- The first fragment: what fits of the frame, in its own mbufs. -/
structure FirstFragment (m0 : Mbuf) (b : List UInt8) (m : Mbuf) (ms : List Mbuf) : Prop where
  octets : bytes (m :: ms) = b
  pkt : Pkt (m :: ms)
  len : m.mLen = min m0.mLen b.length
  data : m.mData = m0.mData
  addr : m.addr = m0.addr
  flags : m.mFlags = m0.mFlags ||| mFirstfrag ||| mFrag

variable {h : Heap} {m0 : Mbuf} {ms0 : List Mbuf} {hdrsize ciphdrsize mtu : Nat}
  {frames : List (List Mbuf)}

/-- The frame with the bit that more fragments follow. -/
theorem bytes_marked (ms0 : List Mbuf) (hcont : hdrsize ≤ m0.mLen) (h24 : 24 ≤ hdrsize) :
    let m := m0.put 1 [m0.get 1 ||| fc1MoreFrag]
    window m.get 0 hdrsize = fragHdr (window m0.get 0 hdrsize) ∧
      bytes (m :: ms0) = fragHdr (window m0.get 0 hdrsize) ++ (bytes (m0 :: ms0)).drop hdrsize := by
  have hwin : window m0.get 0 hdrsize = (bytes (m0 :: ms0)).take hdrsize :=
    window_get_eq_bytes ms0 (by omega)
  have hlen : (window m0.get 0 hdrsize).length = hdrsize := length_window _ _ _
  have hget : hdrOf (window m0.get 0 hdrsize) 1 = m0.get 1 := by
    rw [hdrOf, getD_eq_getElem?_getD, getElem?_window _ _ _ _ (by omega)]
    rfl
  have hb : bytes (m0.put 1 [m0.get 1 ||| fc1MoreFrag] :: ms0) =
      fragHdr (window m0.get 0 hdrsize) ++ (bytes (m0 :: ms0)).drop hdrsize := by
    rw [bytes_put_head ms0 (show 1 + 1 ≤ m0.mLen by omega), fragHdr, hget]
    conv => lhs; rw [← take_append_drop hdrsize (bytes (m0 :: ms0)), ← hwin]
    exact patch_append_left _ (show 1 + 1 ≤ _ by omega)
  have hwin' : window (m0.put 1 [m0.get 1 ||| fc1MoreFrag]).get 0 hdrsize =
      (bytes (m0.put 1 [m0.get 1 ||| fc1MoreFrag] :: ms0)).take hdrsize :=
    window_get_eq_bytes ms0 (show 0 + hdrsize ≤ m0.mLen by omega)
  refine ⟨?_, hb⟩
  rw [hwin', hb, take_left' ((length_fragHdr (by omega)).trans hlen)]

/-- `ieee80211_fragment` frees all it allocated, or it leaves the first fragment and its copies. -/
theorem fragment_spec (hpkt : Pkt (m0 :: ms0)) (h24 : 24 ≤ hdrsize) (hcont : hdrsize ≤ m0.mLen)
    (hmtu : hdrsize + ciphdrsize < mtu) (hlen : mtu < mLength (m0 :: ms0)) :
    (∃ k, AllocFails h k ∧ fragment h m0 ms0 hdrsize ciphdrsize mtu =
      some ({ h with next := h.next + k + 1, freed := h.freed ++ range' h.next k }, none)) ∨
    ∃ m ms frags, fragment h m0 ms0 hdrsize ciphdrsize mtu =
        some ({ h with next := h.next + frags.length },
          some ((m :: ms) :: frags.map fun f => [f])) ∧
      FirstFragment m0 (fragHdr (window m0.get 0 hdrsize) ++
        ((bytes (m0 :: ms0)).drop hdrsize).take (mtu - (hdrsize + ciphdrsize))) m ms ∧
      CutInto (fragHdr (window m0.get 0 hdrsize)) (mtu - (hdrsize + ciphdrsize)) 1
        (((bytes (m0 :: ms0)).drop hdrsize).drop (mtu - (hdrsize + ciphdrsize))) frags ∧
      frags.map Mbuf.addr = range' h.next frags.length ∧ ms.length = ms0.length := by
  obtain ⟨hhdr, hmarked⟩ := bytes_marked ms0 hcont h24
  have hpk : m0.pkthdrLen = mLength (m0 :: ms0) := hpkt.2
  have hhdrlen : (fragHdr (window m0.get 0 hdrsize)).length = hdrsize :=
    (length_fragHdr (by rw [length_window]; omega)).trans (length_window _ _ _)
  have hbody : ((bytes (m0 :: ms0)).drop hdrsize).length = mLength (m0 :: ms0) - hdrsize := by
    rw [length_drop, length_bytes]
  rw [fragment]
  generalize hm : m0.put 1 [m0.get 1 ||| fc1MoreFrag] = m0' at hhdr hmarked ⊢
  have hpk' : m0'.pkthdrLen = mLength (m0 :: ms0) := by rw [← hm]; exact hpk
  have hmlen : mLength (m0' :: ms0) = mLength (m0 :: ms0) := by rw [← hm]; rfl
  have hf' : m0'.hasPkthdr = true := by rw [← hm]; exact hpkt.1
  rw [hpk']
  have hoff : mtu - ciphdrsize + (mLength (m0 :: ms0) - (mtu - ciphdrsize)) =
      mLength (m0' :: ms0) := by
    omega
  rcases fragmentLoop_spec h24 hmtu (mLength (m0 :: ms0) - (mtu - ciphdrsize) + 1) h 1
    (mtu - ciphdrsize) _ []
    hoff (by omega) (by omega) with ⟨k, hfail, hrun⟩ | ⟨frags, hrun, hcut, haddrs⟩
  · rw [hrun]
    exact .inl ⟨k, hfail, by rw [map_nil, append_nil]⟩
  · have hneg : -((mLength (m0 :: ms0) : Int) - (mtu - ciphdrsize : Nat)) =
        -((mLength (m0 :: ms0) - (mtu - ciphdrsize) : Nat) : Int) := by omega
    obtain ⟨m, ms, hadj, _, hflags, hmin⟩ :=
      mAdj_tail_head m0' ms0
        (show -((mLength (m0 :: ms0) - (mtu - ciphdrsize) : Nat) : Int) < 0 by omega)
    obtain ⟨m2, ms2, hadj2, hdata, haddr, hshape⟩ :=
      mAdj_tail_place m0' ms0
        (show -((mLength (m0 :: ms0) - (mtu - ciphdrsize) : Nat) : Int) < 0 by omega)
    obtain ⟨rfl, rfl⟩ : m2 = m ∧ ms2 = ms := by
      rw [hadj] at hadj2
      injection hadj2 with h1 h2
      exact ⟨h1.symm, h2.symm⟩
    have hpktadj : Pkt (m2 :: ms2) := hadj ▸ mAdj_pkt hf' _
    have hb : bytes (m2 :: ms2) = fragHdr (window m0.get 0 hdrsize) ++
        ((bytes (m0 :: ms0)).drop hdrsize).take (mtu - (hdrsize + ciphdrsize)) := by
      rw [← hadj, bytes_mAdj_tail _ (by omega), hmlen, hmarked,
        show mLength (m0 :: ms0) - (mLength (m0 :: ms0) - (mtu - ciphdrsize)) =
          hdrsize + (mtu - (hdrsize + ciphdrsize)) by omega, take_append,
        take_of_length_le (by omega), hhdrlen, Nat.add_sub_cancel_left]
    rw [hrun]
    simp only [hneg, hadj]
    refine .inr ⟨_, _, frags, rfl, ⟨hb, ?_, ?_, ?_, ?_, ?_⟩, ?_, haddrs, hshape⟩
    · refine ⟨?_, hpktadj.2⟩
      show ((m2.mFlags ||| mFirstfrag ||| mFrag) &&& mPkthdr != 0) = true
      have hmask : (m2.mFlags ||| mFirstfrag ||| mFrag) &&& mPkthdr = m2.mFlags &&& mPkthdr :=
        (or_masked_flag (a := mFrag) rfl _ mFrag).trans
          (or_masked_flag (a := mFirstfrag) rfl _ mFirstfrag)
      rw [hmask]
      exact hpktadj.1
    · have hblen : (bytes (m2 :: ms2)).length = mtu - ciphdrsize := by
        rw [hb, length_append, hhdrlen, length_take, hbody]
        omega
      rw [← hb, hblen]
      have hm0 : m0'.mLen = m0.mLen := by rw [← hm]; rfl
      rw [hmin, hmlen, hm0, Int.neg_neg, Int.toNat_natCast]
      omega
    · exact hdata.trans (by rw [← hm]; rfl)
    · exact haddr.trans (by rw [← hm]; rfl)
    · show m2.mFlags ||| _ ||| _ = _
      rw [hflags, ← hm]
      rfl
    · rw [hhdr, hmarked, drop_append, drop_eq_nil_of_le (by omega), nil_append, hhdrlen,
        show mtu - ciphdrsize - hdrsize = mtu - (hdrsize + ciphdrsize) by omega] at hcut
      exact hcut

/-- The loop comes to its end where a fragment has room for more than the headers. -/
theorem fragment_mtu {h' : Heap} (hpkt : Pkt (m0 :: ms0)) (hlen : mtu < mLength (m0 :: ms0))
    (hrun : fragment h m0 ms0 hdrsize ciphdrsize mtu = some (h', some frames)) :
    hdrsize + ciphdrsize < mtu := by
  have hpk : (m0.put 1 [m0.get 1 ||| fc1MoreFrag]).pkthdrLen = mLength (m0 :: ms0) := hpkt.2
  rw [fragment] at hrun
  simp only [hpk] at hrun
  split at hrun
  · cases hrun
  · cases hrun
  next hloop =>
  refine Nat.lt_of_not_le fun hle => ?_
  exact fragmentLoop_stuck hle _ _ _ _ _ _ (by omega) hloop

/-! ## The partition -/

theorem hdrOf_append {a b : List UInt8} (h : i < a.length) : hdrOf (a ++ b) i = hdrOf a i :=
  getD_append _ _ _ _ h

theorem hdrOf_numberedHdr (h : 24 ≤ hdr.length) (k i : Nat) :
    hdrOf (numberedHdr hdr k) i =
      if i = 22 then hdrOf hdr 22 ||| UInt8.ofNat (k % 16) else hdrOf hdr i :=
  hdrOf_patch (by omega) _ i

theorem hdrOf_lastHdr (h : 24 ≤ hdr.length) (k i : Nat) :
    hdrOf (lastHdr hdr k) i =
      if i = 1 then hdrOf hdr 1 &&& ~~~fc1MoreFrag else hdrOf (numberedHdr hdr k) i := by
  have hlen := length_numberedHdr h k
  rw [lastHdr, hdrOf_patch (by omega), hdrOf_numberedHdr h k 1]
  rfl

theorem moreFrag_or (x : UInt8) : ((x ||| fc1MoreFrag) &&& fc1MoreFrag != 0) = true := by
  rw [or_and_eq, UInt8.and_self, bne_iff_ne]
  intro h
  exact absurd (UInt8.or_eq_zero_iff.mp h).2 (by decide)

theorem moreFrag_and (x : UInt8) : (x &&& ~~~fc1MoreFrag) &&& fc1MoreFrag = 0 := by
  rw [UInt8.and_assoc]
  exact UInt8.and_zero

theorem or_moreFrag_clear (x : UInt8) :
    (x ||| fc1MoreFrag) &&& ~~~fc1MoreFrag = x &&& ~~~fc1MoreFrag := by
  rw [or_and_eq]
  exact UInt8.or_zero

theorem and_moreFrag_clear (x : UInt8) :
    x &&& ~~~fc1MoreFrag &&& ~~~fc1MoreFrag = x &&& ~~~fc1MoreFrag := by
  rw [UInt8.and_assoc, UInt8.and_self]

/-- What the header of fragment `k` says: it differs from that of the first one in the number,
which goes into four bits that are clear, and in the bit of the last one. -/
theorem hdrOf_hdrAt (h : 24 ≤ hdr.length) (last : Bool) (k : Nat) :
    ((hdrOf hdr 22).toNat % 16 = 0 → (hdrOf (hdrAt hdr last k) 22).toNat % 16 = k % 16) ∧
      (hdrOf (hdrAt hdr last k) 22).toNat / 16 = (hdrOf hdr 22).toNat / 16 ∧
      (hdrOf (hdrAt hdr last k) 1 &&& fc1MoreFrag != 0) =
      (!last && hdrOf hdr 1 &&& fc1MoreFrag != 0) ∧
      hdrOf (hdrAt hdr last k) 1 &&& ~~~fc1MoreFrag = hdrOf hdr 1 &&& ~~~fc1MoreFrag ∧ ∀ i, i ≠ 1 →
      i ≠ 22 → hdrOf (hdrAt hdr last k) i = hdrOf hdr i := by
  have hnum : (hdrOf hdr 22).toNat % 16 = 0 →
      (hdrOf (numberedHdr hdr k) 22).toNat % 16 = k % 16 := by
    intro h0
    have h16 : (16 : Nat) = 2 ^ 4 := rfl
    rw [hdrOf_numberedHdr h, if_pos rfl, UInt8.toNat_or]
    rw [h16] at h0 ⊢
    rw [Nat.or_mod_two_pow, h0, Nat.zero_or, UInt8.toNat_ofNat']
    omega
  have hseq : (hdrOf (numberedHdr hdr k) 22).toNat / 16 = (hdrOf hdr 22).toNat / 16 := by
    have hdiv : ∀ a b : Nat, (a ||| b) / 16 = a / 16 ||| b / 16 :=
      fun a b => Nat.or_div_two_pow (n := 4)
    have hzero : (UInt8.ofNat (k % 16)).toNat / 16 = 0 := by
      rw [UInt8.toNat_ofNat']
      omega
    rw [hdrOf_numberedHdr h, if_pos rfl, UInt8.toNat_or, hdiv, hzero, Nat.or_zero]
  cases last with
  | true =>
    refine ⟨fun h0 => ?_, ?_, ?_, ?_, fun i h1 h22 => ?_⟩
    · rw [hdrAt, if_pos rfl, hdrOf_lastHdr h, if_neg (by decide)]
      exact hnum h0
    · rw [hdrAt, if_pos rfl, hdrOf_lastHdr h, if_neg (by decide)]
      exact hseq
    · rw [hdrAt, if_pos rfl, hdrOf_lastHdr h, if_pos rfl, moreFrag_and]
      rfl
    · rw [hdrAt, if_pos rfl, hdrOf_lastHdr h, if_pos rfl, and_moreFrag_clear]
    · rw [hdrAt, if_pos rfl, hdrOf_lastHdr h, if_neg h1, hdrOf_numberedHdr h, if_neg h22]
  | false =>
    refine ⟨hnum, hseq, ?_, ?_, fun i h1 h22 => ?_⟩
    · rw [hdrAt, if_neg Bool.false_ne_true, hdrOf_numberedHdr h, if_neg (by decide)]
      rfl
    · rw [hdrAt, if_neg Bool.false_ne_true, hdrOf_numberedHdr h, if_neg (by decide)]
    · rw [hdrAt, if_neg Bool.false_ne_true, hdrOf_numberedHdr h, if_neg h22]

/-- The frames are pieces of a frame `b` with a header of `hdrsize` octets: their payloads are its
payload, each has some of it, all but the last say that more follow, they are counted in four bits,
and the header is otherwise the one of the frame, with its sequence number. -/
structure Pieces (hdrsize : Nat) (b : List UInt8) (frames : List (List Mbuf)) : Prop where
  payload : frames.flatMap (fun f => (bytes f).drop hdrsize) = b.drop hdrsize
  carries : ∀ f ∈ frames, hdrsize < mLength f
  more : ∀ i f, frames[i]? = some f → (moreFragments f = true ↔ i + 1 < frames.length)
  number : ∀ i f, frames[i]? = some f → fragNumber f = i % 16
  seq : ∀ f ∈ frames, (hdrOf (bytes f) 22).toNat / 16 = (hdrOf b 22).toNat / 16
  fc1 : ∀ f ∈ frames, hdrOf (bytes f) 1 &&& ~~~fc1MoreFrag = hdrOf b 1 &&& ~~~fc1MoreFrag
  header : ∀ f ∈ frames, ∀ i < hdrsize, i ≠ 1 → i ≠ 22 → hdrOf (bytes f) i = hdrOf b i

/-- And none is longer than `mtu` with a cipher header. -/
structure Partition (hdrsize ciphdrsize mtu : Nat) (b : List UInt8)
    (frames : List (List Mbuf)) : Prop extends Pieces hdrsize b frames where
  fits : ∀ f ∈ frames, mLength f + ciphdrsize ≤ mtu

/-- Numbers in four bits are different as long as there are sixteen of them. -/
theorem nodup_mod_iff (n : Nat) : ((range n).map (· % 16)).Nodup ↔ n ≤ 16 := by
  constructor
  · intro h
    by_contra hn
    have hinj := nodup_iff_injective_get.mp h
    have hlen : ((range n).map (· % 16)).length = n := by rw [length_map, length_range]
    have := @hinj ⟨0, by omega⟩ ⟨16, by omega⟩ (by simp)
    cases this
  · intro hn
    have hid : (range n).map (· % 16) = range n := by
      conv => rhs; rw [← map_id (range n)]
      refine map_congr_left fun i hi => ?_
      have := mem_range.mp hi
      exact Nat.mod_eq_of_lt (by omega)
    rw [hid]
    exact nodup_range

theorem Partition.numbers {b : List UInt8} (h : Partition hdrsize ciphdrsize mtu b frames) :
    frames.map fragNumber = (range frames.length).map (· % 16) := by
  refine ext_getElem? fun i => ?_
  rw [getElem?_map, getElem?_map]
  cases hi : frames[i]? with
  | none =>
    have := getElem?_eq_none_iff.mp hi
    rw [getElem?_eq_none (by rw [length_range]; exact this)]
    rfl
  | some f =>
    obtain ⟨hlt, _⟩ := List.getElem?_eq_some_iff.mp hi
    rw [getElem?_range hlt]
    exact congrArg some (h.number i f hi)

theorem fragment_is_partition {frags : List Mbuf} {m : Mbuf} {ms : List Mbuf} (h24 : 24 ≤ hdrsize)
    (hcont : hdrsize ≤ m0.mLen) (hnum : (m0.get 22).toNat % 16 = 0)
    (hmtu : hdrsize + ciphdrsize < mtu)
    (hfirst : FirstFragment m0 (fragHdr (window m0.get 0 hdrsize) ++
      ((bytes (m0 :: ms0)).drop hdrsize).take (mtu - (hdrsize + ciphdrsize))) m ms)
    (hcut : CutInto (fragHdr (window m0.get 0 hdrsize)) (mtu - (hdrsize + ciphdrsize)) 1
      (((bytes (m0 :: ms0)).drop hdrsize).drop (mtu - (hdrsize + ciphdrsize))) frags) :
    Partition hdrsize ciphdrsize mtu (bytes (m0 :: ms0)) ((m :: ms) :: frags.map fun f => [f]) := by
  generalize hH : fragHdr (window m0.get 0 hdrsize) = hdr at hfirst hcut
  have hlen : hdr.length = hdrsize := by
    rw [← hH]
    exact (length_fragHdr (by rw [length_window]; omega)).trans (length_window _ _ _)
  have hwin : ∀ i < hdrsize, hdrOf (window m0.get 0 hdrsize) i = hdrOf (bytes (m0 :: ms0)) i := by
    intro i hi
    rw [window_get_eq_bytes ms0 (by omega), drop_zero, hdrOf, hdrOf, getD_eq_getElem?_getD,
      getD_eq_getElem?_getD, getElem?_take_of_lt hi]
  have hhdr : ∀ i < hdrsize, i ≠ 1 → hdrOf hdr i = hdrOf (bytes (m0 :: ms0)) i := by
    intro i hi hne
    rw [← hH, hdrOf_fragHdr (by rw [length_window]; omega), if_neg hne, hwin i hi]
  have hone : hdrOf hdr 1 = hdrOf (window m0.get 0 hdrsize) 1 ||| fc1MoreFrag := by
    rw [← hH, hdrOf_fragHdr (by rw [length_window]; omega), if_pos rfl]
  have h22 : (hdrOf hdr 22).toNat % 16 = 0 := by
    rw [hhdr 22 (by omega) (by decide), hdrOf, ← get_eq_bytes ms0 (by omega)]
    exact hnum
  have h24' : 24 ≤ hdr.length := by omega
  have hmore : (hdrOf hdr 1 &&& fc1MoreFrag != 0) = true := by rw [hone]; exact moreFrag_or _
  -- the header of the first frame and of the others, in one form
  have hframe : ∀ i f, ((m :: ms) :: frags.map fun f => [f])[i]? = some f →
      ∃ hdr' b, hdr'.length = hdrsize ∧ (0 < b.length ∧ b.length ≤ mtu - (hdrsize + ciphdrsize)) ∧
        bytes f = hdr' ++ b ∧
        (hdrOf hdr' 22).toNat % 16 = i % 16 ∧
        (hdrOf hdr' 22).toNat / 16 = (hdrOf hdr 22).toNat / 16 ∧
        (hdrOf hdr' 1 &&& fc1MoreFrag != 0) = decide (i < frags.length) ∧
        hdrOf hdr' 1 &&& ~~~fc1MoreFrag = hdrOf hdr 1 &&& ~~~fc1MoreFrag ∧
        ∀ j, j ≠ 1 → j ≠ 22 → hdrOf hdr' j = hdrOf hdr j := by
    intro i f hi
    cases i with
    | zero =>
      cases hi
      refine ⟨hdr, _, hlen, ?_, hfirst.octets, h22, rfl, ?_, rfl, fun _ _ _ => rfl⟩
      · have hrest := hcut.length.1
        have hmul := Nat.le_mul_of_pos_left (mtu - (hdrsize + ciphdrsize)) hcut.pos
        rw [length_drop] at hrest
        rw [length_take]
        omega
      · rw [hmore, decide_eq_true hcut.pos]
    | succ i =>
      rw [getElem?_cons_succ, getElem?_map] at hi
      obtain ⟨g, hg, rfl⟩ := map_eq_some_iff.mp hi
      obtain ⟨hlt, _⟩ := List.getElem?_eq_some_iff.mp hg
      obtain ⟨b, hpos, hb, hown⟩ := hcut.getElem? (by omega) hg
      obtain ⟨hn, hs, hm, hc, hrest⟩ := hdrOf_hdrAt h24' (i + 1 = frags.length) (1 + i)
      refine ⟨_, b, (length_hdrAt h24' _ _).trans hlen, ⟨hpos, hb⟩,
        (bytes_singleton g).trans hown.octets, ?_, hs, ?_, hc, hrest⟩
      · rw [hn h22, Nat.add_comm]
      · rw [hm, hmore, Bool.and_true]
        by_cases hlast : i + 1 = frags.length
        · rw [decide_eq_true hlast, decide_eq_false (by omega)]
          rfl
        · rw [decide_eq_false hlast, decide_eq_true (by omega)]
          rfl
  have hsize : ∀ f ∈ (m :: ms) :: frags.map fun f => [f],
      hdrsize < mLength f ∧ mLength f + ciphdrsize ≤ mtu := by
    intro f hf
    obtain ⟨i, hi⟩ := mem_iff_getElem?.mp hf
    obtain ⟨hdr', b, hl, hb, hbytes, _⟩ := hframe i f hi
    rw [← length_bytes, hbytes, length_append]
    omega
  refine ⟨⟨?_, fun f hf => (hsize f hf).1, fun i f hi => ?_, fun i f hi => ?_, fun f hf => ?_,
    fun f hf => ?_, fun f hf i hi h1 h22' => ?_⟩, fun f hf => (hsize f hf).2⟩
  · have hrest := hcut.payload h24'
    rw [hlen] at hrest
    rw [flatMap_cons, hfirst.octets, drop_left' hlen, flatMap_map]
    simp only [bytes_singleton]
    rw [hrest, take_append_drop]
  · obtain ⟨hdr', b, hl, _, hbytes, _, _, hm, _⟩ := hframe i f hi
    rw [moreFragments, hbytes, hdrOf_append (by omega), hm, decide_eq_true_iff, length_cons,
      length_map]
    omega
  · obtain ⟨hdr', b, hl, _, hbytes, hn, _⟩ := hframe i f hi
    rw [fragNumber, seqFrag_toNat, whSeq_mod, hbytes, hdrOf_append (by omega), hn]
  · obtain ⟨k, hk⟩ := mem_iff_getElem?.mp hf
    obtain ⟨hdr', b, hl, _, hbytes, _, hs, _⟩ := hframe k f hk
    rw [hbytes, hdrOf_append (by omega), hs, hhdr 22 (by omega) (by decide)]
  · obtain ⟨k, hk⟩ := mem_iff_getElem?.mp hf
    obtain ⟨hdr', b, hl, _, hbytes, _, _, _, hc, _⟩ := hframe k f hk
    rw [hbytes, hdrOf_append (by omega), hc, hone, or_moreFrag_clear, hwin 1 (by omega)]
  · obtain ⟨k, hk⟩ := mem_iff_getElem?.mp hf
    obtain ⟨hdr', b, hl, _, hbytes, _, _, _, _, hrest⟩ := hframe k f hk
    rw [hbytes, hdrOf_append (by omega), hrest i h1 h22', hhdr i hi h1]

/-- `ieee80211_fragment` of a frame over the threshold with the number zero comes to its end: it
frees every fragment it allocated, or it returns a partition, whose size is known from the
payload. -/
theorem fragment_cases (hpkt : Pkt (m0 :: ms0)) (h24 : 24 ≤ hdrsize) (hcont : hdrsize ≤ m0.mLen)
    (hnum : (m0.get 22).toNat % 16 = 0) (hmtu : hdrsize + ciphdrsize < mtu)
    (hlen : mtu < mLength (m0 :: ms0)) :
    (∃ k, AllocFails h k ∧ fragment h m0 ms0 hdrsize ciphdrsize mtu =
      some ({ h with next := h.next + k + 1, freed := h.freed ++ range' h.next k }, none)) ∨
    ∃ h' frames, fragment h m0 ms0 hdrsize ciphdrsize mtu = some (h', some frames) ∧
    h'.freed = h.freed ∧
      Partition hdrsize ciphdrsize mtu (bytes (m0 :: ms0)) frames ∧
      (frames.length ≤ 16 ↔
      mLength (m0 :: ms0) ≤ hdrsize + 16 * (mtu - (hdrsize + ciphdrsize))) := by
  rcases fragment_spec hpkt h24 hcont hmtu hlen with hfail | ⟨m, ms, frags, hrun, hfirst, hcut, _⟩
  · exact .inl hfail
  refine .inr ⟨_, _, hrun, rfl, fragment_is_partition h24 hcont hnum hmtu hfirst hcut, ?_⟩
  obtain ⟨hfull, hall⟩ := hcut.length
  rw [length_drop, length_drop, length_bytes] at hfull hall
  rw [length_cons, length_map]
  generalize mtu - (hdrsize + ciphdrsize) = per at hfull hall ⊢
  constructor
  · intro hle
    have := Nat.mul_le_mul_right per hle
    rw [Nat.succ_mul] at this
    omega
  · intro hle
    have hlt : frags.length * per < 16 * per := by omega
    exact Nat.lt_of_mul_lt_mul_right hlt

/-- A frame over the threshold with the number zero: `ieee80211_fragment` comes to its end, and
either frees every fragment it allocated, or the frames are a partition of the frame. Their numbers
are different exactly if sixteen of them carry the payload. -/
theorem fragment_partition (hpkt : Pkt (m0 :: ms0)) (h24 : 24 ≤ hdrsize) (hcont : hdrsize ≤ m0.mLen)
    (hnum : (m0.get 22).toNat % 16 = 0) (hmtu : hdrsize + ciphdrsize < mtu)
    (hlen : mtu < mLength (m0 :: ms0)) :
    (∃ k, AllocFails h k ∧ fragment h m0 ms0 hdrsize ciphdrsize mtu =
      some ({ h with next := h.next + k + 1, freed := h.freed ++ range' h.next k }, none)) ∨
    ∃ h' frames, fragment h m0 ms0 hdrsize ciphdrsize mtu = some (h', some frames) ∧
    h'.freed = h.freed ∧
      Partition hdrsize ciphdrsize mtu (bytes (m0 :: ms0)) frames ∧
      ((frames.map fragNumber).Nodup ↔
        mLength (m0 :: ms0) ≤ hdrsize + 16 * (mtu - (hdrsize + ciphdrsize))) := by
  rcases fragment_cases (h := h) hpkt h24 hcont hnum hmtu hlen
    with hfail | ⟨h', frames, hrun, hfreed, hp, hcount⟩
  · exact .inl hfail
  · refine .inr ⟨h', frames, hrun, hfreed, hp, ?_⟩
    rw [hp.numbers, nodup_mod_iff, hcount]

/-- A frame of `len` zero octets in one mbuf. -/
def zeroFrame (len : Nat) : Mbuf :=
  { addr := 0, mFlags := mPkthdr ||| mExt, mCluster := fun _ => 0, mData := mhAlign, mLen := len
    pkthdrLen := len }

theorem fragment_partition_sample :
    ∃ h' frames, fragment plenty (zeroFrame 100) [] 24 8 60 = some (h', some frames) ∧
      Partition 24 8 60 (bytes [zeroFrame 100]) frames ∧ (frames.map fragNumber).Nodup := by
  have hpart :=
    @fragment_partition plenty (zeroFrame 100) [] 24 8 60 ⟨rfl, rfl⟩ (by decide) (by decide) rfl
    (by decide) (by decide)
  rcases hpart with ⟨k, hfail, _⟩ | ⟨h', frames, hrun, _, hp, hnodup⟩
  · cases hfail.fail
  · exact ⟨h', frames, hrun, hp, hnodup.mpr (by decide)⟩

/-- Seventeen fragments of one octet: the last one has the number of the first. -/
theorem fragment_numbers_repeat :
    ((fragment plenty (zeroFrame 41) [] 24 0 25).bind Prod.snd).map (map fragNumber) =
      some [0, 1, 2, 3, 4, 5, 6, 7, 8, 9, 10, 11, 12, 13, 14, 15, 0] := by
  decide +kernel

end Net80211
