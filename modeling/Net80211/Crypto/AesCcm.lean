import Net80211.Lib.Bytes
import Net80211.Lib.Ccm

/-!
# The streaming AES-CCM of `crypto/aes/aes_ccm.c`

`aes_ccm_init` absorbs the header data, `aes_ccm_enc` and `aes_ccm_dec` take
the message in pieces, `aes_ccm_tag` and `aes_ccm_verify` close it. The state
between two calls is the structure of `aes_ccm.h`; `authctr` is kept as its two
halves. The cursor `i` is shared: it is the position in the block being
authenticated and in the key stream block `out`.

Whole blocks go through the implementation bound by `port/aes_impl_compat.c`,
`aesbear_ccm_enc1` and `aesbear_ccm_dec1` of `aes_bear.c`, which keep the last
four octets of the counter in a 32-bit register. The AES rounds themselves are
the parameter `E`: the bit-sliced calls run it on two blocks at once.

Assertions are compiled out in this port (`port_config.h`), so they do not
appear. `panic` never returns: `none` stands for it.
-/

namespace Net80211.Crypto

open Lib List

/-- `struct aes_ccm`. -/
structure AesCcm where
  auth : Block
  ctr : Block
  out : Block
  mlen : Nat
  mleft : Nat
  i : Nat
  L : Nat
  M : Nat

/-- Increment the last two octets of the counter; running out of them is the
panic "AES-CCM overflow". -/
def aesCcmInc (C : AesCcm) : Option AesCcm :=
  let c15 := C.ctr 15 + 1
  let ctr := C.ctr.put 15 [c15]
  if c15 = 0 then
    let c14 := ctr 14 + 1
    if c14 = 0 then none else some { C with ctr := ctr.put 14 [c14] }
  else some { C with ctr := ctr }

def aesCcmZeroCtr (C : AesCcm) : AesCcm := { C with ctr := C.ctr.put 14 [0, 0] }

/-! ## Whole blocks -/

/-- `be32dec(ctr + 12)`. -/
def be32dec (b : Block) : UInt32 :=
  UInt32.ofNat ((b 12).toNat * 2 ^ 24 + (b 13).toNat * 2 ^ 16 + (b 14).toNat * 2 ^ 8 +
    (b 15).toNat)

/-- `be32enc(ctr + 12, v)`. -/
def be32enc (b : Block) (v : UInt32) : Block := b.put 12 (beOctets 4 v.toNat)

/-- `aes_cbcmac_update1`, `n` blocks of input. -/
def aesbearCbcmacUpdate1 (E : Block → Block) : Nat → List UInt8 → Block → Block
  | 0, _, auth => auth
  | n + 1, inp, auth =>
    aesbearCbcmacUpdate1 E n (inp.drop 16) (E (auth.xor (Block.ofList inp)))

/-- The loop of `aes_ccm_enc1`: authenticate the block, advance the counter
register, encrypt. Returns the authenticator, the register and the output. -/
def aesbearCcmEnc1Loop (E : Block → Block) (ctr : Block) :
    Nat → List UInt8 → Block → UInt32 → Block × UInt32 × List UInt8
  | 0, _, auth, c3 => (auth, c3, [])
  | n + 1, inp, auth, c3 =>
    let c3 := c3 + 1
    let ks := E (be32enc ctr c3)
    let r := aesbearCcmEnc1Loop E ctr n (inp.drop 16)
      (E (auth.xor (Block.ofList inp))) c3
    (r.1, r.2.1, xorStream ks.at 0 (inp.take 16) ++ r.2.2)

def aesbearCcmEnc1 (E : Block → Block) (inp : List UInt8) (auth ctr : Block) :
    Block × Block × List UInt8 :=
  let r := aesbearCcmEnc1Loop E ctr (inp.length / 16) inp auth (be32dec ctr)
  (r.1, be32enc ctr r.2.1, r.2.2)

/-- The loop of `aes_ccm_dec1`. The key stream block of the current round is
already there; the authenticator of this round and the key stream of the next
are computed together, so the last authenticator is left to the caller. -/
def aesbearCcmDec1Loop (E : Block → Block) (ctr : Block) :
    Nat → List UInt8 → Block → Block → UInt32 → Block × UInt32 × List UInt8
  | 0, inp, ks, auth, c3 =>
    let b := xorStream ks.at 0 (inp.take 16)
    (auth.xor (Block.ofList b), c3, b)
  | n + 1, inp, ks, auth, c3 =>
    let b := xorStream ks.at 0 (inp.take 16)
    let c3 := c3 + 1
    let r := aesbearCcmDec1Loop E ctr n (inp.drop 16) (E (be32enc ctr c3))
      (E (auth.xor (Block.ofList b))) c3
    (r.1, r.2.1, b ++ r.2.2)

def aesbearCcmDec1 (E : Block → Block) (inp : List UInt8) (auth ctr : Block) :
    Block × Block × List UInt8 :=
  let c3 := be32dec ctr + 1
  let r := aesbearCcmDec1Loop E ctr (inp.length / 16 - 1) inp (E (be32enc ctr c3)) auth c3
  (E r.1, be32enc ctr r.2.1, r.2.2)

/-! ## Initialisation -/

/-- `__SHIFTIN` into an octet. -/
def shiftin (v shift mask : Nat) : UInt8 := UInt8.ofNat ((v <<< shift) &&& mask)

/-- The loop that stores the message length at the end of the first block. -/
def aesCcmInitMlen : Nat → Nat → Nat → Block → Block
  | 0, _, _, auth => auth
  | n + 1, i, mlen, auth =>
    aesCcmInitMlen n (i + 1) (mlen / 256) (auth.put (16 - i - 1) [UInt8.ofNat (mlen % 256)])

/-- The length of the additional data, XORed into the authenticator; also the
position behind it. -/
def aesCcmInitAdlen (adlen : Nat) (auth : Block) : Block × Nat :=
  if adlen < 0xff00 then
    (auth.xorAt 0 [UInt8.ofNat (adlen / 2 ^ 8), UInt8.ofNat adlen], 2)
  else if adlen < 0xffffffff then
    (auth.xorAt 0 [0xff, 0xfe, UInt8.ofNat (adlen / 2 ^ 24), UInt8.ofNat (adlen / 2 ^ 16),
      UInt8.ofNat (adlen / 2 ^ 8), UInt8.ofNat adlen], 6)
  else
    (auth.xorAt 0 [0xff, 0xff, UInt8.ofNat (adlen / 2 ^ 56), UInt8.ofNat (adlen / 2 ^ 48),
      UInt8.ofNat (adlen / 2 ^ 40), UInt8.ofNat (adlen / 2 ^ 32), UInt8.ofNat (adlen / 2 ^ 24),
      UInt8.ofNat (adlen / 2 ^ 16), UInt8.ofNat (adlen / 2 ^ 8), UInt8.ofNat adlen], 10)

/-- Additional data from a block boundary: whole blocks, then the rest. -/
def aesCcmInitAdBlocks (E : Block → Block) (adp : List UInt8) (auth : Block) : Block :=
  let n := adp.length - adp.length % 16
  let auth := if n ≠ 0 then aesbearCbcmacUpdate1 E (n / 16) adp auth else auth
  let adp := adp.drop n
  if adp.length ≠ 0 then E (auth.xorAt 0 adp) else auth

/-- The additional data: what fits behind its length, then the blocks. -/
def aesCcmInitAd (E : Block → Block) (ad : List UInt8) (auth : Block) : Block :=
  if ad.length = 0 then auth
  else
    let (auth, i) := aesCcmInitAdlen ad.length auth
    let k := min ad.length (16 - i)
    aesCcmInitAdBlocks E (ad.drop k) (E (auth.xorAt i (ad.take k)))

/-- `aes_ccm_init`. `C` is the storage handed in, whatever it holds. -/
def aesCcmInit (E : Block → Block) (C : AesCcm) (L M : Nat) (nonce ad : List UInt8)
    (mlen : Nat) : AesCcm :=
  let flags := shiftin (if ad.length = 0 then 0 else 1) 6 0x40
  let flags := flags ||| shiftin ((M - 2) / 2) 3 0x38
  let flags := flags ||| shiftin (L - 1) 0 0x07
  let auth := (C.auth.put 0 [flags]).put 1 nonce
  let auth := E (aesCcmInitMlen L 0 mlen auth)
  let auth := aesCcmInitAd E ad auth
  let ctr := (C.ctr.put 0 [shiftin (L - 1) 0 0x07]).put 1 nonce
  let ctr := ctr.put (1 + nonce.length) (replicate (16 - 1 - nonce.length) 0)
  { auth := auth, ctr := ctr, out := C.out, mlen := mlen, mleft := mlen, i := 0, L := L, M := M }

/-! ## Encryption and decryption -/

/-- The part of `aes_ccm_enc` that starts on a block boundary. -/
def aesCcmEncBlocks (E : Block → Block) (C : AesCcm) (p : List UInt8) :
    Option (AesCcm × List UInt8) :=
  let n := p.length - p.length % 16
  let r := if n ≠ 0 then aesbearCcmEnc1 E (p.take n) C.auth C.ctr else (C.auth, C.ctr, [])
  let C := { C with auth := r.1, ctr := r.2.1 }
  let p := p.drop n
  if p.length ≠ 0 then
    match aesCcmInc { C with auth := C.auth.xorAt 0 p } with
    | none => none
    | some C =>
      let out := E C.ctr
      some ({ C with out := out, i := p.length }, r.2.2 ++ xorStream out.at 0 p)
  else some (C, r.2.2)

/-- `aes_ccm_enc`: the state afterwards and the octets written to `out`. -/
def aesCcmEnc (E : Block → Block) (C : AesCcm) (p : List UInt8) :
    Option (AesCcm × List UInt8) :=
  let C := { C with mleft := C.mleft - p.length }
  if C.i ≠ 0 then
    let m := min (16 - C.i) p.length
    let q := xorStream C.out.at C.i (p.take m)
    let C := { C with auth := C.auth.xorAt C.i (p.take m), i := C.i + m }
    if C.i = 16 then
      match aesCcmEncBlocks E { C with auth := E C.auth, i := 0 } (p.drop m) with
      | none => none
      | some (C, q') => some (C, q ++ q')
    else some (C, q)
  else aesCcmEncBlocks E C p

/-- The part of `aes_ccm_dec` that starts on a block boundary. -/
def aesCcmDecBlocks (E : Block → Block) (C : AesCcm) (p : List UInt8) :
    Option (AesCcm × List UInt8) :=
  let n := p.length - p.length % 16
  let r := if n ≠ 0 then aesbearCcmDec1 E (p.take n) C.auth C.ctr else (C.auth, C.ctr, [])
  let C := { C with auth := r.1, ctr := r.2.1 }
  let p := p.drop n
  if p.length ≠ 0 then
    match aesCcmInc C with
    | none => none
    | some C =>
      let out := E C.ctr
      let q := xorStream out.at 0 p
      some ({ C with auth := C.auth.xorAt 0 q, out := out, i := p.length }, r.2.2 ++ q)
  else some (C, r.2.2)

/-- `aes_ccm_dec`. -/
def aesCcmDec (E : Block → Block) (C : AesCcm) (p : List UInt8) :
    Option (AesCcm × List UInt8) :=
  let C := { C with mleft := C.mleft - p.length }
  if C.i ≠ 0 then
    let m := min (16 - C.i) p.length
    let q := xorStream C.out.at C.i (p.take m)
    let C := { C with auth := C.auth.xorAt C.i q, i := C.i + m }
    if C.i = 16 then
      match aesCcmDecBlocks E { C with auth := E C.auth, i := 0 } (p.drop m) with
      | none => none
      | some (C, q') => some (C, q ++ q')
    else some (C, q)
  else aesCcmDecBlocks E C p

/-- `aes_ccm_tag`. Setting the cursor to `~0u` bars any further use. -/
def aesCcmTag (E : Block → Block) (C : AesCcm) : AesCcm × List UInt8 :=
  let auth := if C.i ≠ 0 then E C.auth else C.auth
  let C := aesCcmZeroCtr { C with auth := auth }
  let out := E C.ctr
  ({ C with out := out, i := 0xffffffff }, (range C.M).map fun j => (out.xor C.auth).at j)

/-- `aes_ccm_verify`: does `tag` start with the expected tag? -/
def aesCcmVerify (E : Block → Block) (C : AesCcm) (tag : List UInt8) : Bool :=
  tag.take C.M == (aesCcmTag E C).2

/-- A message handed to `aes_ccm_enc` in pieces. -/
def aesCcmEncs (E : Block → Block) : AesCcm → List (List UInt8) → Option (AesCcm × List UInt8) :=
  runChunks (aesCcmEnc E)

/-- A ciphertext handed to `aes_ccm_dec` in pieces. -/
def aesCcmDecs (E : Block → Block) : AesCcm → List (List UInt8) → Option (AesCcm × List UInt8) :=
  runChunks (aesCcmDec E)

end Net80211.Crypto
