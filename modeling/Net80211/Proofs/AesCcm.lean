import Mathlib.Tactic.IntervalCases
import Net80211.Crypto.AesCcm

/-!
# The streaming code computes RFC 3610

`CcmInv c h m C` is what holds of the structure between two calls, once the
octets `m` of the plaintext have been through: the authenticator is `h` with
`m` absorbed octet by octet, the counter is the one of the block in progress,
and inside a block `out` is its key stream. `h` is the CBC-MAC of the header,
which `aesCcmInit` leaves behind.

Encryption takes three phases, and each has one lemma: `CcmInv.part` for the rest
of an open block, the `Enc1` loop for whole blocks, `CcmInv.tail` for what opens
a new block. A call is the three in a row, and a message in pieces is an induction
on the pieces. Decryption undoes encryption and leaves the same structure behind,
whatever the cipher and the counter are (`Undone`), so what is shown of the one
call goes over to the other.

The code carries the counter in two octets whatever `L` is, so a message is
limited to 65535 blocks: that is the only place where the length matters, and
past it the code panics rather than wraps.
-/

namespace Net80211.Crypto

open Lib List Option

/-- The number of octets the two counter octets of the code are good for. -/
def ccmMax : Nat := 16 * 65535

/-! ## The counter -/

variable {c : CcmParams}

variable {k j i : Nat}

theorem ccmCtrBlock_put (hc : c.Valid) (hj : j < 65536) (hk : k < 65536) :
    (ccmCtrBlock c j).put 14 (beOctets 2 k) = ccmCtrBlock c k := by
  obtain ⟨l, hl⟩ : ∃ l, c.L = l + 2 := ⟨c.L - 2, by have := hc.two_le_L; omega⟩
  have hsplit : ∀ n < 65536, ccmCtrBlock c n = Block.ofList
      ((UInt8.ofNat (c.L - 1) :: (c.nonce ++ replicate l 0)) ++ beOctets 2 n) := by
    intro n hn
    rw [ccmCtrBlock, hl, beOctets_of_lt hn, ← append_assoc, cons_append]
  have hlen : (UInt8.ofNat (c.L - 1) :: (c.nonce ++ replicate l 0)).length = 14 := by
    rw [length_cons, length_append, length_replicate, hc.nonce_length]
    have := hc.L_le
    omega
  rw [hsplit j hj, hsplit k hk]
  conv => lhs; rw [← hlen]
  exact Block.put_ofList (by rw [length_beOctets, length_beOctets])

theorem ccmCtrBlock_apply_of_lt (hc : c.Valid) (hk : k < 65536) {j : Fin 16} (hj : j.val < 14) :
    ccmCtrBlock c k j = ccmCtrBlock c 0 j := by
  rw [← ccmCtrBlock_put hc (j := 0) (by omega) hk, Block.put, if_neg (by omega)]

theorem ccmCtrBlock_14 (hc : c.Valid) (hk : k < 65536) :
    ccmCtrBlock c k 14 = UInt8.ofNat (k / 256) := by
  rw [← ccmCtrBlock_put hc (j := 0) (by omega) hk]
  rfl

theorem ccmCtrBlock_15 (hc : c.Valid) (hk : k < 65536) : ccmCtrBlock c k 15 = UInt8.ofNat k := by
  rw [← ccmCtrBlock_put hc (j := 0) (by omega) hk]
  simp only [Block.put, beOctets, Nat.pow_zero, Nat.div_one]
  rfl

theorem ofNat_add_one (k : Nat) : UInt8.ofNat k + 1 = UInt8.ofNat (k + 1) := by
  rw [UInt8.ofNat_add]; rfl

theorem ofNat_eq_zero : UInt8.ofNat k = 0 ↔ k % 256 = 0 := by
  rw [← UInt8.toNat_inj, UInt8.toNat_ofNat']
  exact Iff.rfl

/-- Below the last counter value the increment is the increment. -/
theorem aesCcmInc_eq (hc : c.Valid) (hk : k + 1 < 65536) {C : AesCcm}
    (h : C.ctr = ccmCtrBlock c k) : aesCcmInc C = some { C with ctr := ccmCtrBlock c (k + 1) } := by
  have hk' : k < 65536 := by omega
  have h14 : ∀ x, (ccmCtrBlock c k).put 15 [x] 14 = UInt8.ofNat (k / 256) := by
    intro x
    rw [← ccmCtrBlock_14 hc hk']
    rfl
  have hoct : beOctets 2 (k + 1) =
      [UInt8.ofNat ((k + 1) / 256)] ++ [UInt8.ofNat (k + 1)] := by
    simp [beOctets]
  simp only [aesCcmInc, h, ccmCtrBlock_15 hc hk', h14, ofNat_add_one, ofNat_eq_zero]
  by_cases hz : (k + 1) % 256 = 0
  · have hq : (k + 1) / 256 = k / 256 + 1 := by omega
    rw [if_pos hz, if_neg (by omega), ← ccmCtrBlock_put hc hk' hk, hoct, hq]
    have := Block.put_put_append (ccmCtrBlock c k) 14 [UInt8.ofNat (k / 256 + 1)]
      [UInt8.ofNat (k + 1)]
    rw [← this]
    rfl
  · -- No carry: octet 14 is the one already there.
    have hq : (k + 1) / 256 = k / 256 := by omega
    have hoct' : beOctets 2 k = [UInt8.ofNat (k / 256)] ++ [UInt8.ofNat k] := by
      simp [beOctets]
    rw [if_neg hz, ← ccmCtrBlock_put hc (j := 0) (by omega) hk, hoct, hq, ← Block.put_append,
      ← ccmCtrBlock_put hc (j := 0) (by omega) hk', hoct', ← Block.put_append]
    congr 2
    exact Block.put_put _ _ (by simp)

theorem aesCcmInc_last (hc : c.Valid) {C : AesCcm} (h : C.ctr = ccmCtrBlock c 65535) :
    aesCcmInc C = none := by
  have h14 : ∀ x, (ccmCtrBlock c 65535).put 15 [x] 14 = UInt8.ofNat (65535 / 256) := by
    intro x
    rw [← ccmCtrBlock_14 hc (k := 65535) (by omega)]
    rfl
  simp only [aesCcmInc, h, ccmCtrBlock_15 hc (k := 65535) (by omega), h14]
  rfl

theorem aesCcmZeroCtr_ctr (hc : c.Valid) (hk : k < 65536) {C : AesCcm}
    (h : C.ctr = ccmCtrBlock c k) : (aesCcmZeroCtr C).ctr = ccmCtrBlock c 0 := by
  rw [aesCcmZeroCtr, h, ← ccmCtrBlock_put hc hk (k := 0) (by omega)]
  rfl

/-- The octets of the counter register above the counter itself; for `L = 2`
they belong to the nonce. -/
def ctrHigh (c : CcmParams) : Nat :=
  (ccmCtrBlock c 0 12).toNat * 256 + (ccmCtrBlock c 0 13).toNat

theorem ctrHigh_lt (c : CcmParams) : ctrHigh c < 65536 := by
  have h1 := (ccmCtrBlock c 0 12).toNat_lt
  have h2 := (ccmCtrBlock c 0 13).toNat_lt
  rw [ctrHigh]
  omega

theorem be32dec_ctr (hc : c.Valid) (hk : k < 65536) :
    be32dec (ccmCtrBlock c k) = UInt32.ofNat (ctrHigh c * 65536 + k) := by
  rw [be32dec, ccmCtrBlock_apply_of_lt hc hk (j := 12) (by decide),
    ccmCtrBlock_apply_of_lt hc hk (j := 13) (by decide), ccmCtrBlock_14 hc hk,
    ccmCtrBlock_15 hc hk, UInt8.toNat_ofNat', UInt8.toNat_ofNat', ctrHigh]
  refine congrArg UInt32.ofNat ?_
  omega

/-- The counter register steps with the counter. -/
theorem be32dec_ctr_succ (hc : c.Valid) (hk : k + 1 < 65536) :
    be32dec (ccmCtrBlock c k) + 1 = be32dec (ccmCtrBlock c (k + 1)) := by
  rw [be32dec_ctr hc (by omega), be32dec_ctr hc hk, ← Nat.add_assoc, UInt32.ofNat_add (_ + k) 1]
  rfl

/-- Storing the register gives the counter block it stands for. -/
theorem be32enc_ctr (hc : c.Valid) (hj : j < 65536) (hk : k < 65536) :
    be32enc (ccmCtrBlock c j) (be32dec (ccmCtrBlock c k)) = ccmCtrBlock c k := by
  have hh := ctrHigh_lt c
  have hn : (UInt32.ofNat (ctrHigh c * 65536 + k)).toNat = ctrHigh c * 65536 + k := by
    rw [UInt32.toNat_ofNat']; omega
  have h12 : UInt8.ofNat ((ctrHigh c * 65536 + k) / 256 ^ 3) = ccmCtrBlock c j 12 := by
    rw [ccmCtrBlock_apply_of_lt hc hj (j := 12) (by decide), ctrHigh, ← UInt8.toNat_inj,
      UInt8.toNat_ofNat']
    have := (ccmCtrBlock c 0 12).toNat_lt
    have := (ccmCtrBlock c 0 13).toNat_lt
    omega
  have h13 : UInt8.ofNat ((ctrHigh c * 65536 + k) / 256 ^ 2) = ccmCtrBlock c j 13 := by
    rw [ccmCtrBlock_apply_of_lt hc hj (j := 13) (by decide), ctrHigh, ← UInt8.toNat_inj,
      UInt8.toNat_ofNat']
    have := (ccmCtrBlock c 0 13).toNat_lt
    omega
  have hlow : beOctets 2 (ctrHigh c * 65536 + k) = beOctets 2 k := by
    simp only [beOctets, cons.injEq, and_true, ← UInt8.toNat_inj, UInt8.toNat_ofNat']
    omega
  have hoct : beOctets 4 (ctrHigh c * 65536 + k) =
      [ccmCtrBlock c j 12, ccmCtrBlock c j 13] ++ beOctets 2 k := by
    rw [beOctets, beOctets, h12, h13, hlow]
    rfl
  have hself : (ccmCtrBlock c j).put 12 [ccmCtrBlock c j 12, ccmCtrBlock c j 13] =
      ccmCtrBlock c j := by
    funext i
    rw [Block.put]
    split
    · next h =>
      have h' : i.val = 12 ∨ i.val = 13 := by
        simp only [length_cons, length_nil] at h
        omega
      rcases h' with h' | h'
      · obtain rfl : i = 12 := Fin.ext h'
        rfl
      · obtain rfl : i = 13 := Fin.ext h'
        rfl
    · rfl
  rw [be32enc, be32dec_ctr hc hk, hn, hoct, ← Block.put_append, hself]
  exact ccmCtrBlock_put hc hj hk

/-! ## Whole blocks -/

theorem aesbearCbcmacUpdate1_eq (E : Block → Block) : ∀ (n : Nat) (p : List UInt8) (a : Block),
    16 * n ≤ p.length → aesbearCbcmacUpdate1 E n p a = absorbs E 0 a (p.take (16 * n)) := by
  intro n
  induction n with
  | zero => intro p a _; simp [aesbearCbcmacUpdate1, absorbs]
  | succ n ih =>
    intro p a h
    have hlen : (p.take 16).length = 16 := by rw [length_take]; omega
    rw [aesbearCbcmacUpdate1, ih _ _ (by rw [length_drop]; omega),
      show 16 * (n + 1) = 16 + 16 * n by omega, take_add,
      absorbs_append E _ _ 0 a (by omega), absorbs_block E hlen, hlen]
    conv => lhs; rw [← take_append_drop 16 p, Block.ofList_append (by omega)]
    rw [take_append_drop]

theorem xorStream_block (c : CcmParams) {p : List UInt8} (hp : i + p.length ≤ 16) (k n : Nat)
    (hn : n = 16 * k + i) :
    xorStream (c.E (ccmCtrBlock c (k + 1))).at i p = xorStream (ccmKey c) n p := by
  refine xorStream_congr p i n fun j hj => ?_
  rw [ccmKey, show (n + j) / 16 = k by omega, show (n + j) % 16 = i + j by omega]

theorem aesbearCcmEnc1Loop_eq (hc : c.Valid) (hj : j < 65536) :
    ∀ (n : Nat) (p : List UInt8) (a : Block) (k : Nat), 16 * n ≤ p.length → k + n < 65536 →
      aesbearCcmEnc1Loop c.E (ccmCtrBlock c j) n p a (be32dec (ccmCtrBlock c k)) =
        (absorbs c.E 0 a (p.take (16 * n)), be32dec (ccmCtrBlock c (k + n)),
          xorStream (ccmKey c) (16 * k) (p.take (16 * n))) := by
  intro n
  induction n with
  | zero => intro p a k _ _; simp [aesbearCcmEnc1Loop, absorbs, xorStream]
  | succ n ih =>
    intro p a k h hk
    have hlen : (p.take 16).length = 16 := by rw [length_take]; omega
    have hblk : Block.ofList p = Block.ofList (p.take 16) := by
      conv => lhs; rw [← take_append_drop 16 p, Block.ofList_append (by omega)]
    rw [aesbearCcmEnc1Loop, be32dec_ctr_succ hc (by omega), be32enc_ctr hc hj (by omega),
      ih _ _ _ (by rw [length_drop]; omega) (by omega),
      show 16 * (n + 1) = 16 + 16 * n by omega, take_add,
      absorbs_append c.E _ _ 0 a (by omega), absorbs_block c.E hlen, hlen, xorStream_append,
      hlen, hblk, xorStream_block c (by omega) k (16 * k) (by omega),
      show k + 1 + n = k + (n + 1) by omega, show 16 * (k + 1) = 16 * k + 16 by omega]

theorem aesbearCcmEnc1_eq (hc : c.Valid) {p : List UInt8} (hp : p.length % 16 = 0) (a : Block)
    (hk : k + p.length / 16 < 65536) : aesbearCcmEnc1 c.E p a (ccmCtrBlock c k) =
      (absorbs c.E 0 a p, ccmCtrBlock c (k + p.length / 16), xorStream (ccmKey c) (16 * k) p) := by
  have hfull : p.take (16 * (p.length / 16)) = p := take_of_length_le (by omega)
  rw [aesbearCcmEnc1, aesbearCcmEnc1Loop_eq hc (by omega) _ _ _ _ (by omega) hk, hfull]
  rw [be32enc_ctr hc (by omega) hk]

/-! ## Decryption undoes encryption -/

theorem blocks_split (p : List UInt8) : ∃ b t, p = b ++ t ∧
    b = p.take (p.length - p.length % 16) ∧ t = p.drop (p.length - p.length % 16) ∧
    b.length = p.length - p.length % 16 ∧ t.length < 16 := by
  refine ⟨_, _, (take_append_drop (p.length - p.length % 16) p).symm, rfl, rfl, ?_, ?_⟩
  · rw [length_take]; omega
  · rw [length_drop]; omega

variable (E : Block → Block)

/-- The decryption loop runs one round more than its argument says, and leaves
the cipher of the last authenticator to be run. -/
theorem aesbearCcmEnc1Loop_dec (ctr : Block) :
    ∀ (n : Nat) (q : List UInt8) (a : Block) (c3 : UInt32), q.length = 16 * (n + 1) →
      ∃ x c3' p, aesbearCcmDec1Loop E ctr n q (E (be32enc ctr (c3 + 1))) a (c3 + 1) = (x, c3', p) ∧
        p.length = q.length ∧ aesbearCcmEnc1Loop E ctr (n + 1) p a c3 = (E x, c3', q) := by
  intro n
  induction n with
  | zero =>
    intro q a c3 h
    have hq : q.take 16 = q := take_of_length_le (by omega)
    refine ⟨_, _, _, rfl, by rw [hq, length_xorStream], ?_⟩
    rw [hq, aesbearCcmEnc1Loop, aesbearCcmEnc1Loop, append_nil,
      take_of_length_le (by rw [length_xorStream]; omega), xorStream_xorStream]
  | succ n ih =>
    intro q a c3 h
    obtain ⟨b, hb⟩ : ∃ b, b = xorStream (E (be32enc ctr (c3 + 1))).at 0 (q.take 16) := ⟨_, rfl⟩
    have hblen : b.length = 16 := by rw [hb, length_xorStream, length_take]; omega
    obtain ⟨x, c3', p, hdec, hplen, henc⟩ := ih (q.drop 16) (E (a.xor (Block.ofList b))) (c3 + 1)
      (by rw [length_drop]; omega)
    refine ⟨x, c3', b ++ p, ?_, ?_, ?_⟩
    · rw [aesbearCcmDec1Loop, ← hb, hdec]
    · rw [length_append, hblen, hplen, length_drop]
      omega
    · rw [aesbearCcmEnc1Loop, Block.ofList_append (by omega), drop_left' hblen,
        take_left' hblen, henc, hb, xorStream_xorStream, take_append_drop]

theorem aesbearCcmEnc1_dec {q : List UInt8} (hq : q.length % 16 = 0) (h0 : q.length ≠ 0)
    (a ctr : Block) : ∃ a' ctr' p, aesbearCcmDec1 E q a ctr = (a', ctr', p) ∧
      p.length = q.length ∧ aesbearCcmEnc1 E p a ctr = (a', ctr', q) := by
  obtain ⟨x, c3', p, hdec, hlen, henc⟩ := aesbearCcmEnc1Loop_dec E ctr (q.length / 16 - 1) q a
    (be32dec ctr) (by omega)
  refine ⟨E x, be32enc ctr c3', p, ?_, hlen, ?_⟩
  · rw [aesbearCcmDec1, hdec]
  · rw [aesbearCcmEnc1, hlen, show q.length / 16 = q.length / 16 - 1 + 1 by omega, henc]

theorem aesCcmInc_auth (C : AesCcm) (a : Block) :
    aesCcmInc { C with auth := a } = (aesCcmInc C).map fun C => { C with auth := a } := by
  rw [aesCcmInc, aesCcmInc]
  dsimp only
  split
  · split <;> rfl
  · rfl

/-- Decryption takes the octets `q` to `p`, and encryption takes `p` to `q` and leaves the same
behind, or both panic. -/
def Undone (p q : List UInt8) (enc dec : Option (AesCcm × List UInt8)) : Prop :=
  enc = none ∧ dec = none ∨ ∃ C, enc = some (C, q) ∧ dec = some (C, p)

theorem aesCcmEncBlocks_dec (C : AesCcm) (q : List UInt8) :
    ∃ p, p.length = q.length ∧ Undone p q (aesCcmEncBlocks E C p) (aesCcmDecBlocks E C q) := by
  obtain ⟨b, t, rfl, -, -, hblen, htlen⟩ := blocks_split q
  rw [length_append] at hblen
  obtain ⟨a', ctr', pb, hdec, hplen, henc⟩ : ∃ a' ctr' pb,
      (if b.length ≠ 0 then aesbearCcmDec1 E b C.auth C.ctr else (C.auth, C.ctr, [])) =
      (a', ctr', pb) ∧ pb.length = b.length ∧
      (if b.length ≠ 0 then aesbearCcmEnc1 E pb C.auth C.ctr else (C.auth, C.ctr, [])) =
      (a', ctr', b) := by
    by_cases h0 : b.length = 0
    · obtain rfl := eq_nil_of_length_eq_zero h0
      exact ⟨_, _, [], rfl, rfl, rfl⟩
    · obtain ⟨a', ctr', pb, h1, h2, h3⟩ := aesbearCcmEnc1_dec E (q := b) (by omega) h0 C.auth C.ctr
      exact ⟨a', ctr', pb, by rw [if_pos h0, h1], h2, by rw [if_pos h0, h3]⟩
  -- Both functions take as many whole blocks.
  have hwhole : ∀ {b' t' : List UInt8}, b'.length = b.length → t'.length = t.length →
      (b' ++ t').length - (b' ++ t').length % 16 = b'.length := by
    intro b' t' hb ht
    rw [length_append]
    omega
  by_cases h0 : t.length = 0
  · refine ⟨pb ++ t, by simp [hplen], .inr ⟨{ C with auth := a', ctr := ctr' }, ?_, ?_⟩⟩
    · rw [aesCcmEncBlocks, hwhole hplen rfl, take_left, drop_left, hplen, henc]
      simp [eq_nil_of_length_eq_zero h0]
    · rw [aesCcmDecBlocks, hwhole rfl rfl, take_left, drop_left, hdec]
      simp [eq_nil_of_length_eq_zero h0]
  have hinc := aesCcmInc_auth { C with auth := a', ctr := ctr' }
  cases hC : aesCcmInc { C with auth := a', ctr := ctr' } with
  | none =>
    refine ⟨pb ++ t, by simp [hplen], .inl ⟨?_, ?_⟩⟩
    · rw [aesCcmEncBlocks, hwhole hplen rfl, take_left, drop_left, hplen, henc]
      rw [if_pos h0, hinc, hC]
      rfl
    · rw [aesCcmDecBlocks, hwhole rfl rfl, take_left, drop_left, hdec]
      rw [if_pos h0, hC]
  | some C1 =>
    have ht : (xorStream (E C1.ctr).at 0 t).length = t.length := length_xorStream _ _ _
    have hauth : C1.auth = a' := by
      have := hinc a'
      rw [hC] at this
      exact congrArg AesCcm.auth (some_inj.mp this)
    refine ⟨pb ++ xorStream (E C1.ctr).at 0 t, by simp [hplen], .inr ⟨{ C1 with
      auth := a'.xorAt 0 (xorStream (E C1.ctr).at 0 t), out := E C1.ctr, i := t.length }, ?_, ?_⟩⟩
    · rw [aesCcmEncBlocks, hwhole hplen ht, take_left, drop_left, hplen, henc]
      rw [ht, if_pos h0, hinc, hC]
      simp only [map_some, xorStream_xorStream]
    · rw [aesCcmDecBlocks, hwhole rfl rfl, take_left, drop_left, hdec]
      rw [if_pos h0, hC, ← hauth]

theorem aesCcmEnc_dec {C : AesCcm} (hi : C.i < 16) (q : List UInt8) :
    ∃ p, p.length = q.length ∧ Undone p q (aesCcmEnc E C p) (aesCcmDec E C q) := by
  by_cases h0 : C.i = 0
  · obtain ⟨p, hlen, h⟩ := aesCcmEncBlocks_dec E { C with mleft := C.mleft - q.length } q
    refine ⟨p, hlen, ?_⟩
    rw [aesCcmEnc, aesCcmDec, hlen]
    rw [if_neg (not_not.mpr h0), if_neg (not_not.mpr h0)]
    exact h
  obtain ⟨b, hb⟩ : ∃ b, b = xorStream C.out.at C.i (q.take (min (16 - C.i) q.length)) := ⟨_, rfl⟩
  have hback : xorStream C.out.at C.i b = q.take (min (16 - C.i) q.length) := by
    rw [hb, xorStream_xorStream]
  have hblen : b.length = min (16 - C.i) q.length := by
    rw [hb, length_xorStream, length_take]
    omega
  by_cases hfull : C.i + min (16 - C.i) q.length = 16
  · obtain ⟨p, hlen, h⟩ := aesCcmEncBlocks_dec E
      { C with mleft := C.mleft - q.length, auth := E (C.auth.xorAt C.i b), i := 0 }
      (q.drop (min (16 - C.i) q.length))
    rw [length_drop] at hlen
    have hplen : (b ++ p).length = q.length := by
      rw [length_append]
      omega
    refine ⟨b ++ p, hplen, ?_⟩
    rw [aesCcmEnc, aesCcmDec, hplen]
    rw [if_pos h0, if_pos h0, if_pos hfull, if_pos hfull, take_left' hblen, drop_left' hblen,
      hback, ← hb]
    rcases h with ⟨henc, hdec⟩ | ⟨C', henc, hdec⟩
    · rw [henc, hdec]
      exact .inl ⟨rfl, rfl⟩
    · rw [henc, hdec]
      exact .inr ⟨C', by simp only [take_append_drop], rfl⟩
  · have hq : q.take (min (16 - C.i) q.length) = q := take_of_length_le (by omega)
    rw [hq] at hb hback
    have hplen : b.length = q.length := by rw [hb, length_xorStream]
    refine ⟨b, hplen, .inr ⟨{ C with
      mleft := C.mleft - q.length, auth := C.auth.xorAt C.i b, i := C.i + min (16 - C.i) q.length },
        ?_, ?_⟩⟩
    · rw [aesCcmEnc, hplen]
      dsimp only
      rw [if_pos h0, if_neg hfull, take_of_length_le (by omega), hback]
    · rw [aesCcmDec]
      rw [if_pos h0, if_neg hfull, hq, ← hb]

/-! ## The invariant between two calls -/

/-- The structure after the plaintext octets `m`, for a header of CBC-MAC `h`. -/
structure CcmInv (c : CcmParams) (h : Block) (m : List UInt8) (C : AesCcm) : Prop where
  i_eq : C.i = m.length % 16
  auth_eq : C.auth = absorbs c.E 0 h m
  ctr_eq : C.ctr = ccmCtrBlock c ((m.length + 15) / 16)
  out_eq : C.i ≠ 0 → C.out = c.E C.ctr
  M_eq : C.M = c.M

variable {h : Block} {m p : List UInt8} {C : AesCcm} {n : Nat}

theorem CcmInv.mleft (inv : CcmInv c h m C) (n : Nat) : CcmInv c h m { C with mleft := n } :=
  ⟨inv.i_eq, inv.auth_eq, inv.ctr_eq, inv.out_eq, inv.M_eq⟩

theorem CcmInv.absorb (inv : CcmInv c h m C) (p : List UInt8) :
    absorbs c.E 0 h (m ++ p) = absorbs c.E C.i C.auth p := by
  rw [absorbs_append c.E m p 0 h (by omega), Nat.zero_add, ← inv.i_eq, ← inv.auth_eq]

theorem CcmInv.key (inv : CcmInv c h m C) (hi : C.i ≠ 0) (hp : C.i + p.length ≤ 16) :
    xorStream C.out.at C.i p = xorStream (ccmKey c) m.length p := by
  have hmod := inv.i_eq
  rw [inv.out_eq hi, inv.ctr_eq, show (m.length + 15) / 16 = m.length / 16 + 1 by omega]
  exact xorStream_block c hp (m.length / 16) m.length (by omega)

theorem CcmInv.part_open (inv : CcmInv c h m C) (hi : C.i ≠ 0) (hp : C.i + p.length < 16) :
    CcmInv c h (m ++ p) { C with auth := C.auth.xorAt C.i p, i := C.i + p.length } := by
  have hmod := inv.i_eq
  refine ⟨?_, ?_, ?_, fun _ => inv.out_eq hi, inv.M_eq⟩
  · simp only [length_append]; omega
  · rw [inv.absorb, absorbs_open c.E p C.i C.auth hp]
  · simp only [length_append]
    rw [inv.ctr_eq]
    congr 1
    omega

theorem CcmInv.part_close (inv : CcmInv c h m C) (hi : C.i ≠ 0) (hp : C.i + p.length = 16) :
    CcmInv c h (m ++ p) { C with auth := c.E (C.auth.xorAt C.i p), i := 0 } := by
  have hmod := inv.i_eq
  refine ⟨?_, ?_, ?_, fun h0 => absurd rfl h0, inv.M_eq⟩
  · simp only [length_append]; omega
  · rw [inv.absorb, absorbs_close c.E C.auth hp (by omega)]
  · simp only [length_append]
    rw [inv.ctr_eq]
    congr 1
    omega

theorem CcmInv.blocks (inv : CcmInv c h m C) (hi : C.i = 0) (hp : p.length % 16 = 0) :
    CcmInv c h (m ++ p) { C with
      auth := absorbs c.E 0 C.auth p
      ctr := ccmCtrBlock c (m.length / 16 + p.length / 16) } := by
  have hmod := inv.i_eq
  refine ⟨?_, ?_, ?_, fun h0 => absurd hi h0, inv.M_eq⟩
  · simp only [length_append]; omega
  · rw [inv.absorb, hi]
  · simp only [length_append]
    congr 1
    omega

/-- Octets that open a block, from a block boundary. -/
theorem CcmInv.tail (inv : CcmInv c h m C) (hi : C.i = 0) (h0 : p.length ≠ 0) (hp : p.length < 16) :
    CcmInv c h (m ++ p) { C with
      auth := C.auth.xorAt 0 p
      ctr := ccmCtrBlock c (m.length / 16 + 1)
      out := c.E (ccmCtrBlock c (m.length / 16 + 1))
      i := p.length } := by
  have hmod := inv.i_eq
  refine ⟨?_, ?_, ?_, fun _ => rfl, inv.M_eq⟩
  · simp only [length_append]; omega
  · rw [inv.absorb, hi, absorbs_open c.E p 0 C.auth (by omega)]
  · simp only [length_append]
    congr 1
    omega

/-! ## One call -/

theorem enc1_inv (hc : c.Valid) (inv : CcmInv c h m C) (hi : C.i = 0)
    (hp : p.length % 16 = 0) (hmax : m.length + p.length ≤ ccmMax) :
    (if p.length ≠ 0 then aesbearCcmEnc1 c.E p C.auth C.ctr else (C.auth, C.ctr, [])) =
      (absorbs c.E 0 C.auth p, ccmCtrBlock c (m.length / 16 + p.length / 16),
        xorStream (ccmKey c) m.length p) := by
  have hmod := inv.i_eq
  rw [ccmMax] at hmax
  rw [inv.ctr_eq, show (m.length + 15) / 16 = m.length / 16 by omega]
  split
  · rw [aesbearCcmEnc1_eq hc hp _ (by omega), show 16 * (m.length / 16) = m.length by omega]
  · next h0 =>
    obtain rfl := eq_nil_of_length_eq_zero (not_not.mp h0)
    rfl

theorem xorStream_blocks (c : CcmParams) {b t : List UInt8} (hn : n % 16 = 0)
    (hb : b.length % 16 = 0) (ht : t.length < 16) :
    xorStream (ccmKey c) n (b ++ t) = xorStream (ccmKey c) n b ++
      xorStream (c.E (ccmCtrBlock c (n / 16 + b.length / 16 + 1))).at 0 t := by
  rw [xorStream_append, xorStream_block c (by omega) _ (n + b.length) (by omega)]

theorem aesCcmEncBlocks_inv (hc : c.Valid) (inv : CcmInv c h m C) (hi : C.i = 0)
    (hmax : m.length + p.length ≤ ccmMax) :
    ∃ C', aesCcmEncBlocks c.E C p = some (C', xorStream (ccmKey c) m.length p) ∧
      CcmInv c h (m ++ p) C' := by
  have hmod := inv.i_eq
  obtain ⟨b, t, hbt, hb, ht, hblen, htlen⟩ := blocks_split p
  have hlen : p.length = b.length + t.length := by rw [hbt, length_append]
  have hb16 : b.length % 16 = 0 := by omega
  have hinv := inv.blocks hi hb16
  rw [aesCcmEncBlocks, ← hb, ← ht, ← hblen, enc1_inv hc inv hi hb16 (by omega)]
  by_cases h0 : t.length = 0
  · obtain rfl := eq_nil_of_length_eq_zero h0
    rw [append_nil] at hbt
    subst hbt
    rw [if_neg (by simp)]
    exact ⟨_, rfl, hinv⟩
  · have hk : (m ++ b).length / 16 = m.length / 16 + b.length / 16 := by
      rw [length_append]; omega
    have hlast : m.length / 16 + b.length / 16 + 1 < 65536 := by rw [ccmMax] at hmax; omega
    have htail := hinv.tail hi h0 htlen
    rw [hk, append_assoc, ← hbt] at htail
    rw [if_pos h0, aesCcmInc_eq hc (k := m.length / 16 + b.length / 16) hlast rfl, hbt,
      xorStream_blocks c (by omega) hb16 htlen, ← hbt]
    exact ⟨_, rfl, htail⟩

theorem aesCcmEnc_panic (hc : c.Valid) (inv : CcmInv c h m C) (hi : C.i = 0)
    (hp : m.length + p.length = ccmMax + 1) : aesCcmEnc c.E C p = none := by
  have hmod := inv.i_eq
  rw [ccmMax] at hp
  obtain ⟨b, t, hbt, hb, ht, hblen, htlen⟩ := blocks_split p
  have hlen : p.length = b.length + t.length := by rw [hbt, length_append]
  have hb16 : b.length % 16 = 0 := by omega
  rw [aesCcmEnc]
  rw [if_neg (not_not.mpr hi), aesCcmEncBlocks, ← hb, ← ht, ← hblen,
    enc1_inv hc (inv.mleft _) hi hb16 (by rw [ccmMax]; omega)]
  rw [if_pos (by omega), aesCcmInc_last hc]
  rw [show m.length / 16 + b.length / 16 = 65535 by omega]

theorem aesCcmDec_panic (hc : c.Valid) (inv : CcmInv c h m C) (hi : C.i = 0)
    (hp : m.length + p.length = ccmMax + 1) : aesCcmDec c.E C p = none := by
  obtain ⟨q, hlen, ⟨-, hdec⟩ | ⟨C', henc, -⟩⟩ := aesCcmEnc_dec c.E (hi ▸ (by decide : 0 < 16)) p
  · exact hdec
  · rw [aesCcmEnc_panic hc inv hi (by omega)] at henc
    cases henc

/-- The octets that go to the open block: either the input ends inside it, or
they fill it up. -/
theorem part_split (p : List UInt8) (hi : i < 16) :
    (i + p.length < 16 ∧ p.take (min (16 - i) p.length) = p) ∨
      i + (p.take (min (16 - i) p.length)).length = 16 := by
  rw [length_take]
  by_cases h : p.length < 16 - i
  · exact .inl ⟨by omega, take_of_length_le (by omega)⟩
  · exact .inr (by omega)

theorem aesCcmEnc_inv (hc : c.Valid) (inv : CcmInv c h m C) (hmax : m.length + p.length ≤ ccmMax) :
    ∃ C', aesCcmEnc c.E C p = some (C', xorStream (ccmKey c) m.length p) ∧
      CcmInv c h (m ++ p) C' := by
  have hmod := inv.i_eq
  have inv := inv.mleft (C.mleft - p.length)
  rw [aesCcmEnc]
  dsimp only
  by_cases hi : C.i = 0
  · rw [if_neg (not_not.mpr hi)]
    exact aesCcmEncBlocks_inv hc inv hi hmax
  rw [if_pos hi]
  have hsplit := take_append_drop (min (16 - C.i) p.length) p
  have hlen := length_take (i := min (16 - C.i) p.length) (l := p)
  rcases part_split p (i := C.i) (by omega) with ⟨hlt, hall⟩ | hfull
  · -- The input ends inside the block.
    rw [hall, if_neg (by omega), inv.key hi (Nat.le_of_lt hlt)]
    refine ⟨_, rfl, ?_⟩
    have := inv.part_open hi hlt
    rw [Nat.min_eq_right (by omega)]
    exact this
  · have hclose := inv.part_close hi hfull
    obtain ⟨C', hC', hinv'⟩ := aesCcmEncBlocks_inv hc hclose rfl
      (p := p.drop (min (16 - C.i) p.length)) (by
        rw [length_append, length_drop]; omega)
    rw [append_assoc, hsplit] at hinv'
    rw [if_pos (by omega), hC', inv.key hi (Nat.le_of_eq hfull)]
    refine ⟨_, ?_, hinv'⟩
    conv => rhs; rw [← hsplit, xorStream_append]
    rw [length_append]

theorem aesCcmDec_inv (hc : c.Valid) (inv : CcmInv c h m C) (hmax : m.length + p.length ≤ ccmMax) :
    ∃ C', aesCcmDec c.E C p = some (C', xorStream (ccmKey c) m.length p) ∧
      CcmInv c h (m ++ xorStream (ccmKey c) m.length p) C' := by
  have hi : C.i < 16 := by rw [inv.i_eq]; omega
  obtain ⟨q, hlen, hundo⟩ := aesCcmEnc_dec c.E hi p
  obtain ⟨C', henc, hinv⟩ := aesCcmEnc_inv hc inv (p := q) (by omega)
  rcases hundo with ⟨hnone, -⟩ | ⟨C'', henc', hdec⟩
  · rw [henc] at hnone
    cases hnone
  · cases henc.symm.trans henc'
    rw [xorStream_xorStream]
    exact ⟨C', hdec, hinv⟩

/-! ## A message in pieces -/

theorem aesCcmEncs_inv (hc : c.Valid) : ∀ (ps : List (List UInt8)) (m : List UInt8) (C : AesCcm),
    CcmInv c h m C → m.length + ps.flatten.length ≤ ccmMax →
    ∃ C', aesCcmEncs c.E C ps = some (C', xorStream (ccmKey c) m.length ps.flatten) ∧
      CcmInv c h (m ++ ps.flatten) C' := by
  intro ps
  induction ps with
  | nil =>
    intro m C inv _
    exact ⟨C, rfl, by rw [flatten_nil, append_nil]; exact inv⟩
  | cons p ps ih =>
    intro m C inv hmax
    rw [flatten_cons, length_append] at hmax
    obtain ⟨C1, h1, inv1⟩ := aesCcmEnc_inv hc inv (p := p) (by omega)
    obtain ⟨C2, h2, inv2⟩ := ih (m ++ p) C1 inv1 (by rw [length_append]; omega)
    refine ⟨C2, ?_, ?_⟩
    · rw [aesCcmEncs, runChunks, h1]
      rw [aesCcmEncs] at h2
      dsimp only
      rw [h2, flatten_cons, xorStream_append, length_append]
    · rw [flatten_cons, ← append_assoc]
      exact inv2

theorem aesCcmDecs_inv (hc : c.Valid) : ∀ (ps : List (List UInt8)) (m : List UInt8) (C : AesCcm),
    CcmInv c h m C → m.length + ps.flatten.length ≤ ccmMax →
    ∃ C', aesCcmDecs c.E C ps = some (C', xorStream (ccmKey c) m.length ps.flatten) ∧
      CcmInv c h (m ++ xorStream (ccmKey c) m.length ps.flatten) C' := by
  intro ps
  induction ps with
  | nil =>
    intro m C inv _
    exact ⟨C, rfl, by rw [flatten_nil, xorStream, append_nil]; exact inv⟩
  | cons p ps ih =>
    intro m C inv hmax
    rw [flatten_cons, length_append] at hmax
    obtain ⟨C1, h1, inv1⟩ := aesCcmDec_inv hc inv (p := p) (by omega)
    obtain ⟨C2, h2, inv2⟩ := ih _ C1 inv1
      (by rw [length_append, length_xorStream]; omega)
    rw [length_append, length_xorStream] at h2 inv2
    refine ⟨C2, ?_, ?_⟩
    · rw [aesCcmDecs, runChunks, h1]
      rw [aesCcmDecs] at h2
      dsimp only
      rw [h2, flatten_cons, xorStream_append]
    · rw [flatten_cons, xorStream_append, ← append_assoc]
      exact inv2

/-! ## Before and after the message -/

theorem aesCcmInitMlen_eq : ∀ (n i mlen : Nat) (b : Block), i + n ≤ 16 →
    aesCcmInitMlen n i mlen b = b.put (16 - i - n) (beOctets n mlen) := by
  intro n
  induction n with
  | zero =>
    intro i mlen b _
    funext j
    rw [aesCcmInitMlen, beOctets, Block.put, if_neg (by rw [length_nil]; omega)]
  | succ n ih =>
    intro i mlen b h
    have hoff : 16 - i - 1 = 16 - (i + 1) - n + (beOctets n (mlen / 256)).length := by
      rw [length_beOctets]; omega
    have hlow : UInt8.ofNat (mlen % 256) = UInt8.ofNat mlen := by
      rw [← UInt8.toNat_inj, UInt8.toNat_ofNat', UInt8.toNat_ofNat']; omega
    rw [aesCcmInitMlen, ih _ _ _ (by omega), hoff, Block.put_put_append, hlow,
      ← beOctets_succ_right]
    congr 1
    omega

theorem shiftin_flags (hc : c.Valid) {a : Nat} (ha : a < 2) :
    shiftin a 6 0x40 ||| shiftin ((c.M - 2) / 2) 3 0x38 ||| shiftin (c.L - 1) 0 0x07 =
      UInt8.ofNat (64 * a + 8 * ((c.M - 2) / 2) + (c.L - 1)) := by
  have h1 : (c.M - 2) / 2 < 8 := by have := hc.M_le; omega
  have h2 : c.L - 1 < 8 := by have := hc.L_le; omega
  generalize (c.M - 2) / 2 = x at *
  generalize c.L - 1 = y at *
  interval_cases a <;> interval_cases x <;> interval_cases y <;> rfl

theorem shiftin_L (hc : c.Valid) : shiftin (c.L - 1) 0 0x07 = UInt8.ofNat (c.L - 1) := by
  have h : c.L - 1 < 8 := by have := hc.L_le; omega
  generalize c.L - 1 = y at *
  interval_cases y <;> rfl

/-- The announcement of the length is the encoding of the RFC, except at
`2 ^ 32 - 1`, where the code takes the longer form. -/
theorem aesCcmInitAdlen_eq (h0 : n ≠ 0) (hn : n ≠ 2 ^ 32 - 1) (b : Block) :
    aesCcmInitAdlen n b = (b.xorAt 0 (adEncode n), (adEncode n).length) := by
  rw [aesCcmInitAdlen, adEncode, if_neg h0]
  by_cases h1 : n < 0xff00
  · rw [if_pos h1, if_pos h1]
    simp [beOctets]
  · rw [if_neg h1, if_neg h1]
    by_cases h2 : n < 0xffffffff
    · rw [if_pos h2, if_pos (by omega)]
      simp [beOctets]
    · rw [if_neg h2, if_neg (by omega)]
      simp [beOctets]

theorem length_adEncode_lt (h0 : n ≠ 0) :
    2 ≤ (adEncode n).length ∧ (adEncode n).length ≤ 10 := by
  rw [adEncode, if_neg h0]
  split
  · simp
  · split <;> simp

theorem aesCcmInitAdBlocks_eq (E : Block → Block) (p : List UInt8) (x : Block) :
    aesCcmInitAdBlocks E p x = cbcMac E x (padBlocks p) := by
  obtain ⟨q, t, hqt, hq, ht, hqlen, htlen⟩ := blocks_split p
  have hplen : p.length = q.length + t.length := by rw [hqt, length_append]
  have hupd : (if q.length ≠ 0 then aesbearCbcmacUpdate1 E (q.length / 16) p x else x) =
      absorbs E 0 x q := by
    split
    · rw [aesbearCbcmacUpdate1_eq E _ p x (by omega), show 16 * (q.length / 16) = q.length by omega,
        hqlen, ← hq]
    · next h0 =>
      obtain rfl := eq_nil_of_length_eq_zero (not_not.mp h0)
      rfl
  have habs : absorbs E 0 x p = (absorbs E 0 x q).xorAt 0 t := by
    rw [hqt, absorbs_append E q t 0 x (by omega), show (0 + q.length) % 16 = 0 by omega,
      absorbs_open E t 0 _ (by omega)]
  rw [← finish_absorbs, habs, finish, aesCcmInitAdBlocks, ← ht, ← hqlen, hupd,
    show p.length % 16 = t.length by omega]
  by_cases h0 : t.length = 0
  · obtain rfl := eq_nil_of_length_eq_zero h0
    rw [if_neg (not_not.mpr h0), if_pos h0, Block.xorAt_nil]
  · rw [if_pos h0, if_neg h0]

variable {ad : List UInt8} {ps : List (List UInt8)}

/-- The additional data is the CBC-MAC of its encoding. -/
theorem aesCcmInitAd_eq (E : Block → Block) (hn : ad.length ≠ 2 ^ 32 - 1) (b : Block) :
    aesCcmInitAd E ad b = cbcMac E b (padBlocks (adEncode ad.length ++ ad)) := by
  rw [aesCcmInitAd]
  by_cases h0 : ad.length = 0
  · rw [if_pos h0]
    obtain rfl := eq_nil_of_length_eq_zero h0
    rfl
  have hl := length_adEncode_lt h0
  rw [if_neg h0, aesCcmInitAdlen_eq h0 hn]
  dsimp only
  have hfst := Block.xorAt_append b 0 (adEncode ad.length)
    (ad.take (min ad.length (16 - (adEncode ad.length).length)))
  rw [Nat.zero_add] at hfst
  rw [hfst, aesCcmInitAdBlocks_eq, Block.xorAt_zero]
  generalize hk : min ad.length (16 - (adEncode ad.length).length) = k
  have hlen : (adEncode ad.length ++ ad.take k).length = (adEncode ad.length).length + k := by
    rw [length_append, length_take]; omega
  have hsplit : adEncode ad.length ++ ad = (adEncode ad.length ++ ad.take k) ++ ad.drop k := by
    rw [append_assoc, take_append_drop]
  by_cases hshort : ad.length ≤ 16 - (adEncode ad.length).length
  · -- Length and data share the only block.
    have hdrop : ad.drop k = [] := drop_eq_nil_of_le (by omega)
    rw [hdrop, append_nil] at hsplit
    rw [hsplit, hdrop, padBlocks_nil, padBlocks_short (p := _ ++ _) (by omega) (by omega)]
    rfl
  · rw [hsplit, padBlocks_append (by omega)]
    rfl

theorem aesCcmInit_inv (hc : c.Valid) (hn : ad.length ≠ 2 ^ 32 - 1) (mlen : Nat) (C : AesCcm) :
    CcmInv c (ccmHead c ad mlen) [] (aesCcmInit c.E C c.L c.M c.nonce ad mlen) := by
  have hL := hc.L_le
  have hnl := hc.nonce_length
  have hput : ∀ (b : Block) (x : UInt8) (l : List UInt8), l.length = c.L →
      ((b.put 0 [x]).put 1 c.nonce).put (1 + c.nonce.length) l =
        Block.ofList (x :: (c.nonce ++ l)) := by
    intro b x l hl
    have h1 := Block.put_append b 0 [x] c.nonce
    rw [length_singleton, Nat.zero_add] at h1
    have h2 := Block.put_append b 0 ([x] ++ c.nonce) l
    rw [Nat.zero_add, length_append, length_singleton] at h2
    rw [h1, h2, append_assoc]
    refine Block.put_full b ?_
    simp only [length_append, length_singleton]
    omega
  refine ⟨rfl, ?_, ?_, fun h0 => absurd rfl h0, rfl⟩
  · show aesCcmInitAd c.E ad _ = _
    rw [absorbs, ccmHead, aesCcmInitAd_eq c.E hn, aesCcmInitMlen_eq _ _ _ _ (by omega),
      show 16 - 0 - c.L = 1 + c.nonce.length by omega, hput _ _ _ (length_beOctets _ _),
      shiftin_flags hc (by split <;> omega), ccmB0]
  · show Block.put _ _ _ = _
    rw [hput _ _ _ (by rw [length_replicate]; omega), shiftin_L hc, ccmCtrBlock,
      length_nil, beOctets_zero, show 16 - 1 - c.nonce.length = c.L by omega]

theorem aesCcmTag_eq (hc : c.Valid) (inv : CcmInv c (ccmHead c ad m.length) m C)
    (hmax : m.length ≤ ccmMax) :
    (aesCcmTag c.E C).2 = ccmTag c ad m := by
  rw [ccmMax] at hmax
  have hfin : (if C.i ≠ 0 then c.E C.auth else C.auth) = ccmMac c ad m := by
    rw [ccmMac, ← finish_absorbs, finish, ← inv.i_eq, ← inv.auth_eq]
    by_cases hi : C.i = 0
    · rw [if_neg (not_not.mpr hi), if_pos hi]
    · rw [if_pos hi, if_neg hi]
  have hctr : (aesCcmZeroCtr { C with auth := ccmMac c ad m }).ctr = ccmCtrBlock c 0 :=
    aesCcmZeroCtr_ctr hc (k := (m.length + 15) / 16) (by omega) inv.ctr_eq
  rw [aesCcmTag, hfin]
  simp only [hctr]
  rw [ccmTag, ← inv.M_eq]
  rfl

theorem length_ccmTag (c : CcmParams) (ad m : List UInt8) : (ccmTag c ad m).length = c.M := by
  rw [ccmTag, length_map, length_range]

theorem aesCcmVerify_eq (hc : c.Valid) (inv : CcmInv c (ccmHead c ad m.length) m C)
    (hmax : m.length ≤ ccmMax) (tag : List UInt8) :
    aesCcmVerify c.E C tag = (tag.take c.M == ccmTag c ad m) := by
  rw [aesCcmVerify, aesCcmTag_eq hc inv hmax, inv.M_eq]

/-! ## The whole message -/

theorem aesCcmEncs_init (hc : c.Valid) (had : ad.length ≠ 2 ^ 32 - 1)
    (hmax : ps.flatten.length ≤ ccmMax) (C : AesCcm) :
    ∃ C', aesCcmEncs c.E (aesCcmInit c.E C c.L c.M c.nonce ad ps.flatten.length) ps =
        some (C', ccmCrypt c ps.flatten) ∧ (aesCcmTag c.E C').2 = ccmTag c ad ps.flatten := by
  obtain ⟨C', hC', inv⟩ := aesCcmEncs_inv hc ps [] _ (aesCcmInit_inv hc had _ C)
    (by rw [length_nil]; omega)
  exact ⟨C', hC', aesCcmTag_eq hc inv hmax⟩

/-- One octet more than the counter is good for, in one piece. -/
theorem aesCcmEncs_panic (hc : c.Valid) (had : ad.length ≠ 2 ^ 32 - 1) (hp : p.length = ccmMax + 1)
    (mlen : Nat) (C : AesCcm) :
    aesCcmEncs c.E (aesCcmInit c.E C c.L c.M c.nonce ad mlen) [p] = none := by
  rw [aesCcmEncs, runChunks, aesCcmEnc_panic hc (aesCcmInit_inv hc had mlen C) rfl
    (by rw [length_nil, Nat.zero_add]; exact hp)]

/-- Decryption gives the plaintext back and checks the tag of that plaintext. -/
theorem aesCcmDecs_init (hc : c.Valid) (had : ad.length ≠ 2 ^ 32 - 1)
    (hps : ps.flatten = ccmCrypt c m) (hmax : m.length ≤ ccmMax) (C : AesCcm) :
    ∃ C', aesCcmDecs c.E (aesCcmInit c.E C c.L c.M c.nonce ad m.length) ps = some (C', m) ∧
      ∀ tag, aesCcmVerify c.E C' tag = (tag.take c.M == ccmTag c ad m) := by
  have hm : xorStream (ccmKey c) 0 ps.flatten = m := by
    rw [hps, ccmCrypt, xorStream_xorStream]
  have hlen : ps.flatten.length = m.length := by rw [hps, ccmCrypt, length_xorStream]
  obtain ⟨C', hC', inv⟩ := aesCcmDecs_inv hc ps [] _ (aesCcmInit_inv hc had m.length C)
    (by rw [length_nil]; omega)
  rw [length_nil, hm] at hC' inv
  exact ⟨C', hC', aesCcmVerify_eq hc inv hmax⟩

theorem take_ccmTag (c : CcmParams) (ad m : List UInt8) :
    (ccmTag c ad m).take c.M = ccmTag c ad m :=
  take_of_length_le (by rw [length_ccmTag])

end Net80211.Crypto
