import Net80211.Frame
import Net80211.Crypto.AesCcmMbuf
import Net80211.Crypto.Key

/-!
# CCMP and the cipher framework around it

`net80211/ieee80211_crypto_ccmp.c`, and from `ieee80211_crypto.c` the two entry
points `ieee80211_crypto_encap` and `ieee80211_crypto_decap`, which choose the
key and hand the frame to its cipher.

`E` is the block cipher: it takes a key schedule. A chain that is shorter than
its header says makes the code run off its end; like the panic of AES-CCM this
is `none`. The failures the code reports are results: the functions return the
frame as they leave it and whether they succeeded.
-/

namespace Net80211

open Lib

/-- AES with a key schedule, as `wk_private` holds it. -/
abbrev BlockCipher := Option (List UInt8) → Block → Block

namespace Crypto

/-- The local `struct aes_ccm` of the two functions below, before
`aes_ccm_init` fills it in. -/
def aesCcmLocal : AesCcm :=
  { auth := .zero, ctr := .zero, out := .zero, mlen := 0, mleft := 0, i := 0, L := 0, M := 0 }

/-- The priority octet of the nonce. -/
def ccmpQos (wh : Wh) : UInt8 :=
  if hasQos wh then (if is4Address wh then wh 30 else wh 24) &&& 0x0f else 0

def ccmpNonce (wh : Wh) (pn : Nat) : List UInt8 :=
  ccmpQos wh :: (window wh 10 6 ++
    [UInt8.ofNat (pn / 2 ^ 40), UInt8.ofNat (pn / 2 ^ 32), UInt8.ofNat (pn / 2 ^ 24),
      UInt8.ofNat (pn / 2 ^ 16), UInt8.ofNat (pn / 2 ^ 8), UInt8.ofNat pn])

/-- The additional data: the header with the bits masked that may change. -/
def ccmpAd (wh : Wh) : List UInt8 :=
  [wh 0 &&& 0x8f, wh 1 &&& 0xc7] ++ window wh 4 18 ++ [wh 22 &&& 0x0f, 0] ++
    (if is4Address wh then window wh 24 6 else []) ++
    (if hasQos wh then [ccmpQos wh, 0] else [])

/-- `ccmp_init_blocks`. -/
def ccmpInitBlocks (E : Block → Block) (wh : Wh) (pn dataLen : Nat) : AesCcm :=
  aesCcmInit E aesCcmLocal 2 8 (ccmpNonce wh pn) (ccmpAd wh) dataLen

/-- `ccmp_encrypt`, and whether the MIC could be appended. -/
def ccmpEncrypt (E : Block → Block) (h : Heap) (pn : Nat) (m : Mbuf) (ms : List Mbuf)
    (hdrlen : Nat) : Option (Heap × List Mbuf × Bool) :=
  -- A length below the headers wraps around as a size_t.
  if m.pkthdrLen < hdrlen + 8 then none
  else
    let dataLen := m.pkthdrLen - (hdrlen + 8)
    match aesCcmEncMbuf E (ccmpInitBlocks E m.get pn dataLen) (m :: ms) (hdrlen + 8) dataLen with
    | none => none
    | some (_, ms, mic) => some (mAppend h ms mic)

/-- The eight octets of the CCMP header. -/
def ccmpHeader (tsc : Nat) (keyid : UInt8) : List UInt8 :=
  [UInt8.ofNat tsc, UInt8.ofNat (tsc / 2 ^ 8), 0, keyid ||| 0x20, UInt8.ofNat (tsc / 2 ^ 16),
    UInt8.ofNat (tsc / 2 ^ 24), UInt8.ofNat (tsc / 2 ^ 32), UInt8.ofNat (tsc / 2 ^ 40)]

/-- `ccmp_encap`. -/
def ccmpEncap (E : BlockCipher) (datapad : Bool) (h : Heap) (k : Key)
    (m : Mbuf) (ms : List Mbuf) (keyid : UInt8) : Option (Heap × Key × List Mbuf × Bool) :=
  let hdrlen := hdrspace datapad m.get
  let k := { k with wkKeytsc := (k.wkKeytsc + 1) % 2 ^ 64 }
  let m := m.put hdrlen (ccmpHeader k.wkKeytsc keyid)
  if k.wkFlags.swcrypt then
    match ccmpEncrypt (E k.wkPrivate) h k.wkKeytsc m ms hdrlen with
    | none => none
    | some (h, ms, ok) => some (h, k, ms, ok)
  else some (h, k, m :: ms, true)

/-- `READ_6`: the packet number of a CCMP header. -/
def read6 (b0 b1 b2 b3 b4 b5 : UInt8) : Nat :=
  b0.toNat + b1.toNat * 2 ^ 8 + b2.toNat * 2 ^ 16 + b3.toNat * 2 ^ 24 + b4.toNat * 2 ^ 32 +
    b5.toNat * 2 ^ 40

/-- `m_copydata` into a local variable that holds `stack` before. -/
def copyLocal (stack : Nat → UInt8) (ms : List Mbuf) (off len : Nat) : List UInt8 :=
  let p := mCopydata ms off len
  p ++ window stack p.length (len - p.length)

/-- `ccmp_decrypt`. -/
def ccmpDecrypt (E : Block → Block) (stack : Nat → UInt8) (pn : Nat) (m : Mbuf)
    (ms : List Mbuf) (hdrlen : Nat) : Option (List Mbuf × Bool) :=
  if m.pkthdrLen < hdrlen + 16 then none
  else
    let dataLen := m.pkthdrLen - (hdrlen + 16)
    let mic := copyLocal stack (m :: ms) (m.pkthdrLen - 8) 8
    aesCcmDecMbuf E (ccmpInitBlocks E m.get pn dataLen) (m :: ms) (hdrlen + 8) dataLen mic

/-- The end of `ccmp_decap`: move the header up and strip the CCMP header and
the MIC. -/
def ccmpStrip (ms : List Mbuf) (hdrlen : Nat) : List Mbuf :=
  match ms with
  | [] => []
  | m :: ms =>
    let m := m.put 8 (window m.mCluster m.mData hdrlen)
    mAdj (mAdj (m :: ms) 8) (-8)

/-- The packet number in the CCMP header behind the 802.11 header. -/
def ccmpPn (m : Mbuf) (hdrlen : Nat) : Nat :=
  let ivp := fun i => m.get (hdrlen + i)
  read6 (ivp 0) (ivp 1) (ivp 4) (ivp 5) (ivp 6) (ivp 7)

/-- The decryption of `ccmp_decap`, unless the device has done it. -/
def ccmpOpen (E : BlockCipher) (stack : Nat → UInt8) (k : Key) (pn : Nat)
    (m : Mbuf) (ms : List Mbuf) (hdrlen : Nat) : Option (List Mbuf × Bool) :=
  if k.wkFlags.swcrypt then ccmpDecrypt (E k.wkPrivate) stack pn m ms hdrlen
  else some (m :: ms, true)

/-- `ccmp_decap`. -/
def ccmpDecap (E : BlockCipher) (stack : Nat → UInt8) (k : Key)
    (m : Mbuf) (ms : List Mbuf) (hdrlen : Nat) : Option (Key × List Mbuf × Bool) :=
  if m.get (hdrlen + 3) &&& 0x20 = 0 then some (k, m :: ms, false)
  else if ccmpPn m hdrlen ≤ k.wkKeyrsc then some (k, m :: ms, false)
  else
    match ccmpOpen E stack k (ccmpPn m hdrlen) m ms hdrlen with
    | none => none
    | some (ms, false) => some (k, ms, false)
    | some (ms, true) =>
      some ({ k with wkKeyrsc := ccmpPn m hdrlen }, ccmpStrip ms hdrlen, true)

/-! ## The framework -/

variable {ν : Type} [DecidableEq ν]

def Keys.set (ks : Keys ν) (s : KeySlot ν) (k : Key) : Keys ν :=
  { ks with key := Function.update ks.key s k }

/-- The key of a frame to node `n`, by the first octet of its receiver: the
default transmit key for multicast and where there is no unicast key. -/
def txSlot (ks : Keys ν) (n : ν) (addr1 : UInt8) : Option (KeySlot ν × UInt8) :=
  if isMulticast addr1 || (ks.key (.ucast n)).wkCipher == .none then
    match ks.defTxkey with
    | none => none
    | some i => some (.nw i, UInt8.ofNat i)
  else some (.ucast n, 0)

/-- What `ieee80211_crypto_encap` leaves: the heap, the keys, the chain its local
`m` points to, which is gone if an allocation failed, and the key. Only the key is
returned: the caller goes on with its own pointer, whatever the chain begins with. -/
structure EncapResult (ν : Type) where
  heap : Heap
  keys : Keys ν
  frame : Option (List Mbuf)
  key : Option (KeySlot ν)

/-- `if (m->m_len < len) m = m_pullup(m, len);` -/
def pullupTo (h : Heap) (m : Mbuf) (ms : List Mbuf) (len : Nat) :
    Heap × Option (Mbuf × List Mbuf) :=
  if m.mLen < len then
    match mPullup h (m :: ms) len with
    | (h, some (m :: ms)) => (h, some (m, ms))
    | (h, _) => (h, none)
  else (h, some (m, ms))

/-- Make room for the cipher header and move the 802.11 header to the front. -/
def encapSpace (h : Heap) (ms : List Mbuf) (hdrlen header : Nat) :
    Heap × Option (Mbuf × List Mbuf) :=
  match mPrepend h ms header with
  | (h, some (m :: ms)) =>
    match pullupTo h m ms (hdrlen + header) with
    | (h, none) => (h, none)
    | (h, some (m, ms)) =>
      (h, some (m.put 0 (window m.mCluster (m.mData + header) hdrlen), ms))
  | (h, _) => (h, none)

/-- `ieee80211_crypto_encap`. -/
def cryptoEncap (E : BlockCipher) (h : Heap) (ks : Keys ν) (n : ν)
    (m : Mbuf) (ms : List Mbuf) : Option (EncapResult ν) :=
  match txSlot ks n (m.get 4) with
  | none => some { heap := h, keys := ks, frame := some (m :: ms), key := none }
  | some (s, keyid) =>
    let k := ks.key s
    let hdrlen := hdrspace ks.datapad m.get
    match encapSpace h (m :: ms) hdrlen k.wkCipher.icHeader with
    | (h, none) => some { heap := h, keys := ks, frame := none, key := none }
    | (h, some (m, ms)) =>
      match k.wkCipher with
      | .none => some { heap := h, keys := ks, frame := some (m :: ms), key := none }
      | .ccmp =>
        match ccmpEncap E ks.datapad h k m ms (keyid <<< 6) with
        | none => none
        | some (h, k, ms, ok) =>
          some { heap := h, keys := ks.set s k, frame := some ms,
                 key := if ok then some s else none }

/-- The key of a received frame from node `n`. -/
def rxSlot (ks : Keys ν) (n : ν) (addr1 keyid : UInt8) : KeySlot ν :=
  if isMulticast addr1 || (ks.key (.ucast n)).wkCipher == .none then
    .nw (Fin.ofNat 4 (keyid.toNat / 2 ^ 6))
  else .ucast n

/-- `ieee80211_crypto_decap`; the frame of the result is `*mp`. Local variables
are not cleared, and where a frame is too short for them they keep what the
stack held. -/
def cryptoDecap (E : BlockCipher) (stack : Nat → UInt8) (h : Heap)
    (ks : Keys ν) (n : ν) (m : Mbuf) (ms : List Mbuf) (hdrlen : Nat) : Option (EncapResult ν) :=
  if m.pkthdrLen < 32 then some { heap := h, keys := ks, frame := some (m :: ms), key := none }
  else
    let keyid := (copyLocal stack (m :: ms) (hdrlen + 3) 1).headD 0
    let s := rxSlot ks n (m.get 4) keyid
    let k := ks.key s
    match pullupTo h m ms (hdrlen + k.wkCipher.icHeader) with
    | (h, none) => some { heap := h, keys := ks, frame := none, key := none }
    | (h, some (m, ms)) =>
      if m.pkthdrLen < hdrlen + k.wkCipher.icHeader + k.wkCipher.icTrailer then
        some { heap := h, keys := ks, frame := some (m :: ms), key := none }
      else
        match k.wkCipher with
        | .none => some { heap := h, keys := ks, frame := some (m :: ms), key := none }
        | .ccmp =>
          match ccmpDecap E stack k m ms hdrlen with
          | none => none
          | some (k, ms, ok) =>
            some { heap := h, keys := ks.set s k, frame := some ms,
                   key := if ok then some s else none }

end Crypto

end Net80211
