import Mathlib.Data.List.GetD
import Mathlib.Tactic.Ring

/-!
# Counter mode with CBC-MAC, as RFC 3610 defines it

The definitions follow the RFC section by section over an arbitrary block
function: the first authentication block and the encoding of the additional
data (2.2), the CBC-MAC, the counter blocks and the key stream (2.3). Nothing
here knows of buffers, chunks or partial blocks; those belong to the program
that is compared with it.

The second half is what such a comparison needs. A program that takes its
input in pieces keeps a cursor inside the current block, so the CBC-MAC is
restated octet by octet: `absorb` folds one octet into the block under
construction and runs the cipher when the block is full, and `finish` closes a
block that was left open. `finish_absorbs` says that this is the CBC-MAC of the
zero-padded input, for every input.
-/

namespace Net80211.Lib

open List

/-- Sixteen octets. -/
abbrev Block := Fin 16 → UInt8

instance neZeroSixteen : NeZero 16 := ⟨by decide⟩

/-- The octet at position `i` of a block, for `i` below sixteen. -/
def Block.at (b : Block) (i : Nat) : UInt8 := b (Fin.ofNat 16 i)

def Block.zero : Block := fun _ => 0

def Block.xor (a b : Block) : Block := fun j => a j ^^^ b j

/-- Overwrite the octets of a block from position `i` on. -/
def Block.put (b : Block) (i : Nat) (p : List UInt8) : Block := fun j =>
  if i ≤ j.val ∧ j.val < i + p.length then p.getD (j.val - i) 0 else b j

/-- XOR octets into a block from position `i` on. -/
def Block.xorAt (b : Block) (i : Nat) (p : List UInt8) : Block := fun j =>
  if i ≤ j.val then b j ^^^ p.getD (j.val - i) 0 else b j

/-- The first sixteen octets of a list, padded with zeros. -/
def Block.ofList (p : List UInt8) : Block := fun j => p.getD j.val 0

/-- The octets of a list in blocks, the last one padded with zeros. -/
def padBlocks (p : List UInt8) : List Block :=
  (range ((p.length + 15) / 16)).map fun k => Block.ofList (p.drop (16 * k))

/-- The `k` octets of `n`, most significant first. -/
def beOctets : Nat → Nat → List UInt8
  | 0, _ => []
  | k + 1, n => UInt8.ofNat (n / 256 ^ k) :: beOctets k n

@[simp] theorem length_beOctets (k n : Nat) : (beOctets k n).length = k := by
  induction k with
  | zero => rfl
  | succ k ih => rw [beOctets, length_cons, ih]

/-! ## RFC 3610 -/

/-- The octets that announce the length of the additional data. -/
def adEncode (n : Nat) : List UInt8 :=
  if n = 0 then []
  else if n < 0xff00 then beOctets 2 n
  else if n < 2 ^ 32 then 0xff :: 0xfe :: beOctets 4 n
  else 0xff :: 0xff :: beOctets 8 n

/-- What the authentication field is computed with: the block function, the
sizes of the length field and of the tag, and the nonce. -/
structure CcmParams where
  E : Block → Block
  L : Nat
  M : Nat
  nonce : List UInt8

/-- The parameters RFC 3610 allows: a length field of two to eight octets, an
even tag size of four to sixteen octets, and the nonce that fits. -/
structure CcmParams.Valid (c : CcmParams) : Prop where
  two_le_L : 2 ≤ c.L
  L_le : c.L ≤ 8
  four_le_M : 4 ≤ c.M
  M_le : c.M ≤ 16
  M_even : c.M % 2 = 0
  nonce_length : c.nonce.length = 15 - c.L

/-- `B_0`: flags, nonce and message length. -/
def ccmB0 (c : CcmParams) (adlen mlen : Nat) : Block :=
  Block.ofList
    (UInt8.ofNat (64 * (if adlen = 0 then 0 else 1) + 8 * ((c.M - 2) / 2) + (c.L - 1)) ::
      (c.nonce ++ beOctets c.L mlen))

/-- `A_i`: flags, nonce and counter. -/
def ccmCtrBlock (c : CcmParams) (i : Nat) : Block :=
  Block.ofList (UInt8.ofNat (c.L - 1) :: (c.nonce ++ beOctets c.L i))

def cbcMac (E : Block → Block) (x : Block) (bs : List Block) : Block :=
  bs.foldl (fun x b => E (x.xor b)) x

/-- The CBC-MAC value once the additional data has been processed. -/
def ccmHead (c : CcmParams) (ad : List UInt8) (mlen : Nat) : Block :=
  cbcMac c.E (c.E (ccmB0 c ad.length mlen)) (padBlocks (adEncode ad.length ++ ad))

/-- `T`, before truncation and encryption. -/
def ccmMac (c : CcmParams) (ad m : List UInt8) : Block :=
  cbcMac c.E (ccmHead c ad m.length) (padBlocks m)

/-- Octet `k` of the key stream `S_1 S_2 ...`. -/
def ccmKey (c : CcmParams) (k : Nat) : UInt8 :=
  (c.E (ccmCtrBlock c (k / 16 + 1))).at (k % 16)

/-- Octets XORed with a key stream from its octet `n` on. -/
def xorStream (ks : Nat → UInt8) : Nat → List UInt8 → List UInt8
  | _, [] => []
  | n, x :: xs => (ks n ^^^ x) :: xorStream ks (n + 1) xs

/-- The encrypted message. -/
def ccmCrypt (c : CcmParams) (m : List UInt8) : List UInt8 :=
  xorStream (ccmKey c) 0 m

/-- The encrypted authentication value `U`. -/
def ccmTag (c : CcmParams) (ad m : List UInt8) : List UInt8 :=
  (range c.M).map fun j =>
    ((c.E (ccmCtrBlock c 0)).xor (ccmMac c ad m)).at j

/-! ## Blocks and lists -/

theorem Block.xorAt_nil (b : Block) (i : Nat) : b.xorAt i [] = b := by
  funext j
  simp [Block.xorAt]

theorem Block.xorAt_zero (b : Block) (p : List UInt8) : b.xorAt 0 p = b.xor (Block.ofList p) := by
  funext j
  simp [Block.xorAt, Block.xor, Block.ofList]

/-- XORing two runs of octets one behind the other is XORing their
concatenation. -/
theorem Block.xorAt_append (b : Block) (i : Nat) (p q : List UInt8) :
    (b.xorAt i p).xorAt (i + p.length) q = b.xorAt i (p ++ q) := by
  funext j
  simp only [Block.xorAt]
  by_cases h1 : i + p.length ≤ j.val
  · have h2 : i ≤ j.val := by omega
    have h3 : p.length ≤ j.val - i := by omega
    rw [if_pos h1, if_pos h2, if_pos h2, getD_append_right _ _ _ _ h3,
      getD_eq_default _ _ h3, UInt8.xor_zero]
    congr 2
    omega
  · rw [if_neg h1]
    by_cases h2 : i ≤ j.val
    · rw [if_pos h2, if_pos h2, getD_append _ _ _ _ (by omega)]
    · rw [if_neg h2, if_neg h2]

variable {p q : List UInt8}

theorem Block.ofList_append (hp : 16 ≤ p.length) :
    Block.ofList (p ++ q) = Block.ofList p := by
  funext j
  have := j.isLt
  simp only [Block.ofList]
  rw [getD_append _ _ _ _ (by omega)]

/-- Overwriting two runs of octets, one behind the other. -/
theorem Block.put_append (b : Block) (i : Nat) (p q : List UInt8) :
    (b.put i p).put (i + p.length) q = b.put i (p ++ q) := by
  funext j
  simp only [Block.put, length_append]
  by_cases h1 : i + p.length ≤ j.val ∧ j.val < i + p.length + q.length
  · rw [if_pos h1, if_pos (by omega), getD_append_right _ _ _ _ (by omega)]
    congr 1
    omega
  · rw [if_neg h1]
    by_cases h2 : i ≤ j.val ∧ j.val < i + p.length
    · rw [if_pos h2, if_pos (by omega), getD_append _ _ _ _ (by omega)]
    · rw [if_neg h2, if_neg (by omega)]

/-- Overwriting two runs of octets, the later one first. -/
theorem Block.put_put_append (b : Block) (i : Nat) (p q : List UInt8) :
    (b.put (i + p.length) q).put i p = b.put i (p ++ q) := by
  funext j
  simp only [Block.put, length_append]
  by_cases h1 : i ≤ j.val ∧ j.val < i + p.length
  · rw [if_pos h1, if_pos (by omega), getD_append _ _ _ _ (by omega)]
  · rw [if_neg h1]
    by_cases h2 : i + p.length ≤ j.val ∧ j.val < i + p.length + q.length
    · rw [if_pos h2, if_pos (by omega), getD_append_right _ _ _ _ (by omega)]
      congr 1
      omega
    · rw [if_neg h2, if_neg (by omega)]

/-- A run of octets overwritten by a run that is no shorter leaves no trace. -/
theorem Block.put_put (b : Block) (i : Nat) (h : p.length ≤ q.length) :
    (b.put i p).put i q = b.put i q := by
  funext j
  simp only [Block.put]
  split
  · rfl
  · rw [if_neg (by omega)]

theorem Block.put_full (b : Block) (hp : p.length = 16) : b.put 0 p = Block.ofList p := by
  funext j
  have := j.isLt
  simp only [Block.put, Block.ofList]
  rw [if_pos (by omega), Nat.sub_zero]

theorem Block.put_ofList {t t' : List UInt8} (h : t.length = t'.length) :
    (Block.ofList (p ++ t)).put p.length t' = Block.ofList (p ++ t') := by
  funext j
  simp only [Block.put, Block.ofList]
  by_cases h1 : p.length ≤ j.val
  · rw [getD_append_right _ _ _ _ h1]
    rw [getD_append_right _ _ _ _ h1]
    split
    · rfl
    · rw [getD_eq_default _ _ (by omega), getD_eq_default _ _ (by omega)]
  · rw [if_neg (by omega), getD_append _ _ _ _ (by omega), getD_append _ _ _ _ (by omega)]

theorem beOctets_succ_right (k n : Nat) :
    beOctets (k + 1) n = beOctets k (n / 256) ++ [UInt8.ofNat n] := by
  induction k with
  | zero => simp [beOctets]
  | succ k ih =>
    rw [beOctets, ih, beOctets, cons_append, Nat.div_div_eq_div_mul]
    congr 3
    rw [Nat.pow_succ, Nat.mul_comm]

theorem beOctets_of_lt {n : Nat} (hn : n < 65536) (k : Nat) :
    beOctets (k + 2) n = replicate k 0 ++ beOctets 2 n := by
  induction k with
  | zero => rfl
  | succ k ih =>
    have h : n / 256 ^ (k + 2) = 0 := by
      refine Nat.div_eq_of_lt (Nat.lt_of_lt_of_le hn ?_)
      calc 65536 = 256 ^ 2 := by norm_num
        _ ≤ 256 ^ (k + 2) := Nat.pow_le_pow_right (by omega) (by omega)
    rw [beOctets, h, ih, replicate_succ, cons_append]
    rfl

theorem beOctets_zero (k : Nat) : beOctets k 0 = replicate k 0 := by
  induction k with
  | zero => rfl
  | succ k ih => rw [beOctets, Nat.zero_div, ih, replicate_succ]; rfl

theorem padBlocks_nil : padBlocks [] = [] := rfl

theorem padBlocks_short (h₁ : 0 < p.length) (h₂ : p.length ≤ 16) :
    padBlocks p = [Block.ofList p] := by
  have h : (p.length + 15) / 16 = 1 := by omega
  simp [padBlocks, h]

theorem padBlocks_append (hp : p.length = 16) (q : List UInt8) :
    padBlocks (p ++ q) = Block.ofList p :: padBlocks q := by
  have h : ((p ++ q).length + 15) / 16 = (q.length + 15) / 16 + 1 := by
    rw [length_append]; omega
  rw [padBlocks, h, range_succ_eq_map, map_cons, map_map]
  congr 1
  · rw [Nat.mul_zero, drop_zero, Block.ofList_append (by omega)]
  · refine map_congr_left fun k _ => ?_
    simp only [Function.comp]
    rw [drop_append, drop_eq_nil_of_le (by omega), nil_append]
    congr 2
    omega

/-! ## The CBC-MAC, octet by octet -/

/-- Fold octets into the block under construction, whose next octet goes to
position `i`; a full block is run through the cipher. -/
def absorbs (E : Block → Block) : Nat → Block → List UInt8 → Block
  | _, a, [] => a
  | i, a, x :: xs =>
    if i = 15 then absorbs E 0 (E (a.xorAt i [x])) xs
    else absorbs E (i + 1) (a.xorAt i [x]) xs

/-- Close a block that was left open: padding with zeros changes nothing, so
only the cipher is run. -/
def finish (E : Block → Block) (i : Nat) (a : Block) : Block :=
  if i = 0 then a else E a

theorem absorbs_append (E : Block → Block) : ∀ (p q : List UInt8) (i : Nat) (a : Block),
    i < 16 → absorbs E i a (p ++ q) = absorbs E ((i + p.length) % 16) (absorbs E i a p) q := by
  intro p
  induction p with
  | nil =>
    intro q i a hi
    simp only [nil_append, length_nil, Nat.add_zero, absorbs, Nat.mod_eq_of_lt hi]
  | cons x p ih =>
    intro q i a hi
    simp only [cons_append, absorbs, length_cons]
    by_cases h : i = 15
    · subst h
      rw [if_pos rfl, if_pos rfl, ih q 0 _ (by omega)]
      congr 1
      omega
    · rw [if_neg h, if_neg h, ih q (i + 1) _ (by omega)]
      congr 1
      omega

/-- Octets that stay inside the block are XORed into it. -/
theorem absorbs_open (E : Block → Block) : ∀ (p : List UInt8) (i : Nat) (a : Block),
    i + p.length < 16 → absorbs E i a p = a.xorAt i p := by
  intro p
  induction p with
  | nil => intro i a _; rw [absorbs, Block.xorAt_nil]
  | cons x p ih =>
    intro i a h
    rw [length_cons] at h
    rw [absorbs, if_neg (by omega), ih _ _ (by omega)]
    exact Block.xorAt_append a i [x] p

theorem absorbs_close (E : Block → Block) {i : Nat} (a : Block) (h : i + p.length = 16)
    (hp : 0 < p.length) : absorbs E i a p = E (a.xorAt i p) := by
  obtain ⟨q, x, rfl⟩ : ∃ q x, p = q ++ [x] :=
    ⟨p.dropLast, p.getLast (ne_nil_of_length_pos hp),
      (dropLast_concat_getLast _).symm⟩
  rw [length_append, length_singleton] at h
  rw [absorbs_append E q [x] i a (by omega), absorbs_open E q i a (by omega),
    Nat.mod_eq_of_lt (by omega), absorbs, if_pos (by omega), absorbs,
    Block.xorAt_append]

theorem absorbs_block (E : Block → Block) (hp : p.length = 16) (a : Block) :
    absorbs E 0 a p = E (a.xor (Block.ofList p)) := by
  rw [absorbs_close E a (by omega) (by omega), Block.xorAt_zero]

/-- Octet by octet is block by block: whatever the length of the input, closing
the last block gives the CBC-MAC of the zero-padded blocks. -/
theorem finish_absorbs (E : Block → Block) (m : List UInt8) (a : Block) :
    finish E (m.length % 16) (absorbs E 0 a m) = cbcMac E a (padBlocks m) := by
  -- One block is taken off per round; what is left is below a block.
  induction hn : m.length / 16 generalizing m a with
  | zero =>
    have hlt : m.length < 16 := by omega
    rw [absorbs_open E m 0 a (by omega), Nat.mod_eq_of_lt hlt, finish]
    split
    · next h =>
      obtain rfl := eq_nil_of_length_eq_zero h
      rw [Block.xorAt_nil]; rfl
    · next h =>
      rw [padBlocks_short (by omega) (by omega), Block.xorAt_zero]; rfl
  | succ n ih =>
    have hlen : (m.take 16).length = 16 := by rw [length_take]; omega
    have hrest : (m.drop 16).length = m.length - 16 := length_drop
    have hmod : m.length % 16 = (m.drop 16).length % 16 := by omega
    conv => lhs; rw [← take_append_drop 16 m]
    conv => rhs; rw [← take_append_drop 16 m]
    rw [absorbs_append E _ _ 0 a (by omega), absorbs_block E hlen, hlen,
      padBlocks_append hlen, take_append_drop, hmod]
    exact ih (m.drop 16) _ (by omega)

/-! ## Key streams -/

@[simp] theorem length_xorStream (ks : Nat → UInt8) : ∀ (p : List UInt8) (n : Nat),
    (xorStream ks n p).length = p.length := by
  intro p
  induction p with
  | nil => intro n; rfl
  | cons x p ih => intro n; rw [xorStream, length_cons, ih, length_cons]

theorem xorStream_append (ks : Nat → UInt8) : ∀ (p q : List UInt8) (n : Nat),
    xorStream ks n (p ++ q) = xorStream ks n p ++ xorStream ks (n + p.length) q := by
  intro p
  induction p with
  | nil => intro q n; rfl
  | cons x p ih =>
    intro q n
    rw [cons_append, xorStream, ih, xorStream, cons_append, length_cons]
    congr 3
    omega

theorem xorStream_xorStream (ks : Nat → UInt8) : ∀ (p : List UInt8) (n : Nat),
    xorStream ks n (xorStream ks n p) = p := by
  intro p
  induction p with
  | nil => intro n; rfl
  | cons x p ih =>
    intro n
    rw [xorStream, xorStream, ih, ← UInt8.xor_assoc, UInt8.xor_self, UInt8.zero_xor]

theorem xorStream_congr {ks ks' : Nat → UInt8} : ∀ (p : List UInt8) (n n' : Nat),
    (∀ k < p.length, ks (n + k) = ks' (n' + k)) → xorStream ks n p = xorStream ks' n' p := by
  intro p
  induction p with
  | nil => intro n n' _; rfl
  | cons x p ih =>
    intro n n' h
    have h0 := h 0 (by rw [length_cons]; omega)
    rw [Nat.add_zero, Nat.add_zero] at h0
    rw [xorStream, xorStream, h0]
    congr 1
    refine ih (n + 1) (n' + 1) fun k hk => ?_
    have := h (k + 1) (by rw [length_cons]; omega)
    rw [show n + 1 + k = n + (k + 1) by omega, show n' + 1 + k = n' + (k + 1) by omega]
    exact this

end Net80211.Lib
