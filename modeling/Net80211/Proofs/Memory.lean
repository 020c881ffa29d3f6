import Net80211.Osal.Memory

/-!
# What is freed is what was allocated

`bus_dmamem_alloc` serves every size and alignment whose sum does not wrap
(`busDmamem_serves_iff`). `usbd_destroy_xfer` frees the address that `sysmemalign` handed out,
which is a block of the heap only if the block was aligned already (`xfer_frees`).
-/

namespace Net80211.Osal

open Lib List

/-! ## DMA memory -/

variable {k : Nat}

theorem toNat_alignDown {a : BitVec 64} (ha : a.toNat = 2 ^ k) (x : BitVec 64) :
    (alignDown x a).toNat = x.toNat / 2 ^ k * 2 ^ k := by
  have hm : (a - 1).toNat = 2 ^ k - 1 := by
    have := Nat.two_pow_pos k
    bv_omega
  refine Nat.eq_of_testBit_eq fun i => ?_
  rw [alignDown, BitVec.toNat_and, Nat.testBit_and, Nat.testBit_mul_two_pow,
    Nat.testBit_div_two_pow, BitVec.testBit_toNat (~~~(a - 1)), BitVec.getLsbD_not,
    ← BitVec.testBit_toNat (a - 1), hm, Nat.testBit_two_pow_sub_one]
  by_cases hi : k ≤ i
  · by_cases hw : i < 64
    · simp [hi, hw]
    · have hpow := Nat.pow_le_pow_right (show 0 < 2 by decide) (Nat.not_lt.mp hw)
      have hx : x.toNat.testBit i = false :=
        Nat.testBit_lt_two_pow (Nat.lt_of_lt_of_le x.isLt hpow)
      rw [Nat.sub_add_cancel hi, hx, Bool.and_false, Bool.false_and]
  · simp [hi, Nat.not_le.mp hi]

theorem ptrOf_ptrBytes (p : BitVec 64) : ptrOf (ptrBytes p) = p := by
  apply BitVec.eq_of_toNat_eq
  have := p.isLt
  simp only [ptrOf, ptrBytes, range, range.loop, map, foldr, UInt8.toNat_ofNat',
    BitVec.toNat_ofNat]
  omega

/-- A segment in the block of `n` octets at `raw`: the address is aligned, the octets asked for and
the word with the address of the block are inside, and as long as only the segment is written it
is this block that is freed. -/
structure DmaServes (size alignment raw : BitVec 64) (n : Nat) (seg : DmaSegment)
    (mem : Nat → UInt8) : Prop where
  aligned : max alignment.toNat 64 ∣ seg.dsAddr.toNat
  size_le : size.toNat ≤ seg.dsLen.toNat
  slot : raw.toNat + 8 ≤ seg.dsAddr.toNat
  inside : seg.dsAddr.toNat + seg.dsLen.toNat ≤ raw.toNat + n
  freed : ∀ mem',
    (∀ a, a < seg.dsAddr.toNat ∨ seg.dsAddr.toNat + seg.dsLen.toNat ≤ a → mem' a = mem a) →
    busDmamemFree mem' seg = some raw

theorem dmaAlignment_eq {alignment : BitVec 64} (h : alignment.toNat = 2 ^ k) :
    ∃ j, (dmaAlignment alignment).toNat = 2 ^ (j + 3) ∧ max alignment.toNat 64 = 2 ^ (j + 3) := by
  rw [dmaAlignment]
  split
  · exact ⟨3, rfl, by bv_omega⟩
  · have hk : 6 ≤ k := by
      by_contra hk
      have := Nat.pow_le_pow_right (show 0 < 2 by decide) (show k ≤ 5 by omega)
      bv_omega
    refine ⟨k - 3, ?_⟩
    rw [Nat.sub_add_cancel (by omega)]
    exact ⟨h, by bv_omega⟩

theorem ptr_kept {mem mem' : Nat → UInt8} {raw va : BitVec 64} (hva : 8 ≤ va.toNat)
    (h : ∀ a < va.toNat, mem' a = store mem (va - 8).toNat (ptrBytes raw) a) (len : BitVec 64) :
    busDmamemFree mem' ⟨va, len⟩ = some raw := by
  have hslot : (va - 8).toNat + 8 = va.toNat := by bv_omega
  have hne : va ≠ 0 := by bv_omega
  have hwin : window mem' (va - 8).toNat 8 = ptrBytes raw := by
    rw [window_congr 8 _ fun i hi => h _ (by omega)]
    exact window_store_same mem (ptrBytes raw) _
  rw [busDmamemFree, if_pos hne, hwin, ptrOf_ptrBytes]

theorem busDmamem_serves_iff (kmalloc : BitVec 64 → Option (BitVec 64)) (mem : Nat → UInt8)
    (size alignment raw : BitVec 64) {mem' : Nat → UInt8} {seg : DmaSegment} {k : Nat}
    (halign : alignment.toNat = 2 ^ k)
    (hraw : kmalloc (dmaSize size + dmaAlignment alignment) = some raw) (h8 : 8 ∣ raw.toNat)
    (hfit : raw.toNat + (dmaSize size + dmaAlignment alignment).toNat < 2 ^ 64)
    (h : busDmamemAlloc kmalloc mem size alignment = some (seg, mem')) :
    DmaServes size alignment raw (dmaSize size + dmaAlignment alignment).toNat seg mem' ↔
      (size.toNat + 63) / 64 * 64 + max alignment.toNat 64 < 2 ^ 64 := by
  obtain ⟨j, hj, hmax⟩ := dmaAlignment_eq halign
  have hsz : (dmaSize size).toNat = (size.toNat + 63) % 2 ^ 64 / 64 * 64 := by
    rw [dmaSize, toNat_alignDown (k := 6) rfl, BitVec.toNat_add]
    rfl
  have hva := toNat_alignDown hj (raw + dmaAlignment alignment)
  have hlt := (dmaAlignment alignment).isLt
  rw [busDmamemAlloc, hraw] at h
  cases h
  generalize alignDown (raw + dmaAlignment alignment) (dmaAlignment alignment) = va at hva ⊢
  rw [BitVec.toNat_add, hj] at hfit hva
  rw [BitVec.toNat_add, hj, hmax]
  rw [hj] at hlt
  constructor
  · -- A block that a wrapped sum asked for has less room than the segment.
    intro hs
    have hlen : size.toNat ≤ (dmaSize size).toNat := hs.size_le
    have hslot : raw.toNat + 8 ≤ va.toNat := hs.slot
    have hin : va.toNat + (dmaSize size).toNat ≤ _ := hs.inside
    omega
  · intro hok
    have hpow : 2 ^ (j + 3) = 8 * 2 ^ j := by rw [Nat.pow_add, Nat.mul_comm]
    have hmod := Nat.div_add_mod' (raw.toNat + 2 ^ (j + 3)) (2 ^ (j + 3))
    have hrest := Nat.mod_lt (raw.toNat + 2 ^ (j + 3)) (Nat.two_pow_pos (j + 3))
    rw [Nat.mod_eq_of_lt (by omega)] at hva
    rw [← hva] at hmod
    have hdvd : 2 ^ (j + 3) ∣ va.toNat := hva ▸ Nat.dvd_mul_left _ _
    have h8va : 8 ∣ va.toNat := (Dvd.intro _ hpow.symm).trans hdvd
    have hslot : raw.toNat + 8 ≤ va.toNat := by omega
    have hin : va.toNat + (dmaSize size).toNat ≤
        raw.toNat + ((dmaSize size).toNat + 2 ^ (j + 3)) % 2 ^ 64 := by omega
    have hlen : size.toNat ≤ (dmaSize size).toNat := by omega
    exact ⟨hmax ▸ hdvd, hlen, hslot, hin,
      fun mem' hmem => ptr_kept (by omega) (fun a ha => hmem a (.inl ha)) _⟩

theorem busDmamem_serves_sample :
    ∃ seg mem, busDmamemAlloc (fun _ => some 8) (fun _ => 0) 100 256 = some (seg, mem) ∧
      DmaServes 100 256 8 384 seg mem :=
  ⟨_, _, rfl, (busDmamem_serves_iff (fun _ => some 8) (fun _ => 0) _ _ 8 (k := 8) rfl rfl
    (by decide) (by decide) rfl).mpr (by decide)⟩

/-- The sum of size and alignment wraps: a block of 128 octets for a segment of almost the whole
address space. -/
theorem busDmamem_wraps :
    ∃ seg mem, busDmamemAlloc (fun n => if n = 128 then some 8 else none) (fun _ => 0) (-128) 256 =
      some (seg, mem) ∧ seg.dsLen = -128 ∧ ¬ seg.dsAddr.toNat + seg.dsLen.toNat ≤ 8 + 128 :=
  ⟨_, _, rfl, by decide, by decide⟩

/-! ## Transfers -/

/-- The block of the buffer, where one is asked for, is itself aligned, and its size does not
wrap. -/
def XferOk (align : BitVec 64) (_ : XferHeap) : XferOp → Prop
  | .create size xfer raw => size ≠ 0 → xfer ≠ none →
    ∀ p ∈ raw, p ≠ 0 ∧ align.toNat ∣ p.toNat ∧ p.toNat + size.toNat + align.toNat < 2 ^ 64
  | .destroy _ => True

/-- The blocks of a transfer. -/
def XferMem.owned (x : XferMem) : List (BitVec 64) :=
  if x.dmaBuf ≠ 0 then [x.dmaBuf, x.xfer] else [x.xfer]

structure XferMem.Inside (x : XferMem) : Prop where
  le : x.raw.toNat ≤ x.dmaBuf.toNat
  inside : x.dmaBuf.toNat + x.size.toNat ≤ x.raw.toNat + x.rawLen.toNat

structure XferHeapInv (s : XferHeap) : Prop where
  live : s.live.Perm (s.xfers.flatMap XferMem.owned)
  frees : ∀ f ∈ s.frees, f.2 = true
  inside : ∀ x ∈ s.xfers, x.size ≠ 0 → x.Inside

theorem sysmemalign_of_dvd {align size raw : BitVec 64} (hal : align.toNat = 2 ^ k)
    (hdvd : align.toNat ∣ raw.toNat) (hfit : raw.toNat + align.toNat ≤ 2 ^ 64) :
    sysmemalign align size raw = (size + align, raw) := by
  have hpos := Nat.two_pow_pos k
  have hne : align ≠ 0 := by bv_omega
  have hsum : (raw + align - 1).toNat = raw.toNat + (2 ^ k - 1) := by bv_omega
  obtain ⟨c, hc⟩ := hdvd
  rw [sysmemalign, if_neg hne, Prod.mk.injEq]
  refine ⟨rfl, BitVec.eq_of_toNat_eq ?_⟩
  rw [toNat_alignDown hal, hsum, hc, hal, Nat.mul_add_div hpos, Nat.div_eq_of_lt (by omega),
    Nat.add_zero, Nat.mul_comm]

variable {align : BitVec 64} {s s' : XferHeap}

/-- A block that is there is freed. -/
theorem vPortFree_live {p : BitVec 64} {l : List (BitVec 64)} (hlive : s.live.Perm (p :: l))
    (hfrees : ∀ f ∈ s.frees, f.2 = true) :
    (vPortFree s p).live.Perm l ∧ ∀ f ∈ (vPortFree s p).frees, f.2 = true := by
  refine ⟨?_, forall_mem_cons.mpr ⟨decide_eq_true (hlive.mem_iff.mpr mem_cons_self), hfrees⟩⟩
  have herase := hlive.erase p
  rwa [erase_cons_head] at herase

theorem XferHeapInv.create {size : BitVec 64} {xfer raw : Option (BitVec 64)}
    (hal : align.toNat = 2 ^ k) (h : XferHeapInv s) (hok : XferOk align s (.create size xfer raw)) :
    XferHeapInv (usbdCreateXfer align s size xfer raw) := by
  cases xfer with
  | none => exact h
  | some p =>
    rw [usbdCreateXfer.eq_def]
    dsimp only
    split
    · exact ⟨h.live.cons p, h.frees, forall_mem_cons.mpr ⟨fun hne => absurd rfl hne, h.inside⟩⟩
    next hsize =>
    cases raw with
    | none =>
      obtain ⟨hlive, hfrees⟩ :=
        vPortFree_live (s := { s with live := p :: s.live }) (h.live.cons p) h.frees
      exact ⟨hlive, hfrees, h.inside⟩
    | some q =>
      obtain ⟨hne, hdvd, hfit⟩ := hok hsize (by simp) q rfl
      dsimp only
      rw [sysmemalign_of_dvd hal hdvd (by omega), if_neg hne]
      refine ⟨?_, h.frees, forall_mem_cons.mpr ⟨fun _ => ⟨Nat.le_refl _, ?_⟩, h.inside⟩⟩
      · rw [flatMap_cons, XferMem.owned, if_pos hne]
        exact (h.live.cons p).cons q
      · simp only [BitVec.toNat_add]
        omega

theorem XferHeapInv.destroy {x : XferMem} (h : XferHeapInv s) (hx : x ∈ s.xfers) :
    XferHeapInv (usbdDestroyXfer s x) := by
  have hlive := h.live.trans ((perm_cons_erase hx).flatMap_right XferMem.owned)
  have hinside : ∀ y ∈ s.xfers.erase x, y.size ≠ 0 → y.Inside :=
    fun y hy => h.inside y (mem_of_mem_erase hy)
  rw [flatMap_cons, XferMem.owned] at hlive
  rw [usbdDestroyXfer]
  split at hlive
  · next hbuf =>
    obtain ⟨hlive₁, hfrees₁⟩ :=
      vPortFree_live (s := { s with xfers := s.xfers.erase x }) hlive h.frees
    obtain ⟨hlive₂, hfrees₂⟩ := vPortFree_live hlive₁ hfrees₁
    rw [if_pos hbuf]
    exact ⟨hlive₂, hfrees₂, hinside⟩
  · next hbuf =>
    obtain ⟨hlive₁, hfrees₁⟩ :=
      vPortFree_live (s := { s with xfers := s.xfers.erase x }) hlive h.frees
    rw [if_neg hbuf]
    exact ⟨hlive₁, hfrees₁, hinside⟩

def XferHeapInit (s : XferHeap) : Prop := s = ⟨[], [], []⟩

/-- In every run in which the block of each buffer is aligned itself and its size does not wrap:
every pointer passed to `vPortFree` is a block that `pvPortMalloc` returned and that was not freed
since, and every buffer lies inside its block. -/
theorem xfer_frees {k : Nat} (hal : align.toNat = 2 ^ k)
    (h : Reach XferHeapInit (xferStep align) (XferOk align) s) :
    (∀ f ∈ s.frees, f.2 = true) ∧ ∀ x ∈ s.xfers, x.size ≠ 0 → x.Inside := by
  have hinv : XferHeapInv s := by
    refine h.invariant ?_ ?_
    · rintro s rfl
      exact ⟨.nil, (fun _ hf => by cases hf), (fun _ hx => by cases hx)⟩
    · intro s op s' hi hok hs
      cases op with
      | create size xfer raw =>
        cases hs
        exact hi.create hal hok
      | destroy x =>
        obtain ⟨hx, rfl⟩ := of_guard hs
        exact hi.destroy hx
  exact ⟨hinv.frees, hinv.inside⟩

theorem xfer_frees_sample : ∃ s, Reach XferHeapInit (xferStep 64) (XferOk 64) s ∧
    s.frees = [(8, true), (128, true)] ∧ ∀ f ∈ s.frees, f.2 = true := by
  obtain ⟨s, h, hf⟩ : ∃ s, Reach XferHeapInit (xferStep 64) (XferOk 64) s ∧
      s.frees = [(8, true), (128, true)] :=
    Reach.of_run [.create 1 (some 8) (some 128), .destroy ⟨8, 128, 1, 128, 65⟩] rfl
      ⟨(fun _ _ p hp => by cases hp; decide), fun _ _ => ⟨trivial, fun _ _ => trivial⟩⟩
      (by decide +kernel)
  exact ⟨s, h, hf, (xfer_frees (k := 6) rfl h).1⟩

/-- A block at 8: the buffer begins at 64, and 64 is what is freed. -/
theorem xfer_frees_interior : ∃ s, Reach XferHeapInit (xferStep 64) Any s ∧
    s.frees = [(72, true), (64, false)] ∧ s.live = [8] :=
  Reach.of_run [.create 1 (some 72) (some 8), .destroy ⟨72, 64, 1, 8, 65⟩] rfl (runOk_any _ _)
    (by decide +kernel)

end Net80211.Osal
