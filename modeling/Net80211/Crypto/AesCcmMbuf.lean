import Net80211.Mbuf
import Net80211.Crypto.AesCcm

/-!
# AES-CCM over an mbuf chain

`crypto/aes/aes_ccm_mbuf.c`. The octets `off .. off + len` of the chain are
handed to the streaming code one mbuf at a time and overwritten in place. The
two functions and the clearing after a failed verification walk the chain with
the same loop, `forSegments`. Running off the end of the chain dereferences
`NULL`, which is `none` here, as is the panic of the streaming code.
-/

namespace Net80211.Crypto

open Lib

/-- `while (off >= m->m_len)`: the mbufs passed over, those from the offset on,
and the offset in the first of them. -/
def skipSegments : List Mbuf → Nat → Option (List Mbuf × List Mbuf × Nat)
  | [], _ => none
  | m :: ms, off =>
    if off ≥ m.mLen then
      match skipSegments ms (off - m.mLen) with
      | none => none
      | some (pre, r, off) => some (m :: pre, r, off)
    else some ([], m :: ms, off)

/-- `for (; len > 0; m = m->m_next, off = 0, len -= seglen)`, rewriting each
segment with `f`. -/
def forSegments {σ : Type} (f : σ → List UInt8 → Option (σ × List UInt8)) :
    σ → List Mbuf → Nat → Nat → Option (σ × List Mbuf)
  | s, [], _, len => if len = 0 then some (s, []) else none
  | s, m :: ms, off, len =>
    if len = 0 then some (s, m :: ms)
    else
      let seglen := min (m.mLen - off) len
      match f s (window m.mCluster (m.mData + off) seglen) with
      | none => none
      | some (s, q) =>
        match forSegments f s ms 0 (len - seglen) with
        | none => none
        | some (s, ms) => some (s, m.put off q :: ms)

/-- `aes_ccm_enc_mbuf`: the state, the chain and the tag. -/
def aesCcmEncMbuf (E : Block → Block) (C : AesCcm) (m : List Mbuf) (off len : Nat) :
    Option (AesCcm × List Mbuf × List UInt8) :=
  match skipSegments m off with
  | none => none
  | some (pre, m, off) =>
    match forSegments (aesCcmEnc E) C m off len with
    | none => none
    | some (C, m) =>
      let (C, tag) := aesCcmTag E C
      some (C, pre ++ m, tag)

/-- `memset(p, 0, seglen)`. -/
def memset0 (s : Unit) (p : List UInt8) : Option (Unit × List UInt8) :=
  some (s, List.replicate p.length 0)

/-- `aes_ccm_dec_mbuf`: the chain, and whether the tag was right. -/
def aesCcmDecMbuf (E : Block → Block) (C : AesCcm) (m0 : List Mbuf) (off0 len0 : Nat)
    (tag : List UInt8) : Option (List Mbuf × Bool) :=
  match skipSegments m0 off0 with
  | none => none
  | some (pre, m0, off0) =>
    match forSegments (aesCcmDec E) C m0 off0 len0 with
    | none => none
    | some (C, m) =>
      if aesCcmVerify E C tag then some (pre ++ m, true)
      else
        match forSegments memset0 () m off0 len0 with
        | none => none
        | some (_, m) => some (pre ++ m, false)

end Net80211.Crypto
