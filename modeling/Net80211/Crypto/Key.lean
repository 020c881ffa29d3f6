import Mathlib.Algebra.Ring.Nat
import Mathlib.Logic.Function.Basic

/-!
# Keys

`struct ieee80211_key`, the key table and the part of
`net80211/ieee80211_crypto.c` that sets keys up: `ieee80211_crypto_newkey`,
`_setkey`, `_delkey`, with the methods of the CCMP cipher they call and the
default driver methods (`null_key_alloc`, `null_key_set`), which no driver of
this repository replaces.

The supplicant driver installs CCMP keys only, so the ciphers are CCMP and the
null cipher of a slot that holds no key. The private state of a CCMP key is an
AES key schedule: `some b` after `aes_setenckey128` with the octets `b`, `none`
for the zeroed allocation of `ccmp_attach`.
-/

namespace Net80211.Crypto

inductive Cipher where
  | none
  | ccmp
  deriving DecidableEq, Repr

def Cipher.icHeader : Cipher → Nat
  | .none => 0
  | .ccmp => 8

def Cipher.icTrailer : Cipher → Nat
  | .none => 0
  | .ccmp => 8

/-- `wk_flags`. -/
structure KeyFlags where
  xmit : Bool
  recv : Bool
  group : Bool
  swcrypt : Bool
  deriving DecidableEq, Repr

/-- `struct ieee80211_key`. An index of `none` is `IEEE80211_KEYIX_NONE`. -/
structure Key where
  wkKeylen : Nat
  wkFlags : KeyFlags
  wkKeyix : Option Nat
  wkKey : List UInt8
  wkKeyrsc : Nat
  wkKeytsc : Nat
  wkCipher : Cipher
  wkPrivate : Option (List UInt8)
  deriving DecidableEq, Repr

instance neZeroFour : NeZero 4 := ⟨by decide⟩

/-- A key of the interface's table, or the unicast key of a node. -/
inductive KeySlot (ν : Type) where
  | nw (i : Fin 4)
  | ucast (n : ν)
  deriving DecidableEq, Repr

/-- The keys of an interface and its nodes, the default transmit key, and of
the interface what the cipher code reads: does the device do CCMP itself, and
does it pad headers. -/
structure Keys (ν : Type) where
  key : KeySlot ν → Key
  defTxkey : Option (Fin 4)
  hwCcm : Bool
  datapad : Bool

/-- `ieee80211_crypto_resetkey` after the `memset` of `_ieee80211_crypto_delkey`. -/
def resetkey : Key :=
  { wkKeylen := 0
    wkFlags := { xmit := true, recv := true, group := false, swcrypt := false }
    wkKeyix := none
    wkKey := List.replicate 32 0
    wkKeyrsc := 0
    wkKeytsc := 0
    wkCipher := .none
    wkPrivate := none }

/-- `null_key_alloc`: a key of the table has its own index, any other unicast
key has index 0, and a group key outside the table is refused. -/
def nullKeyAlloc {ν : Type} (slot : KeySlot ν) (k : Key) : Option Nat :=
  match slot with
  | .nw i => some i
  | .ucast _ => if k.wkFlags.group then none else some 0

/-- How a round of `ieee80211_crypto_newkey` ends. -/
inductive NewkeyResult where
  | ok
  | attachFailed
  | noIndex
  deriving DecidableEq, Repr

/-- One round of `ieee80211_crypto_newkey`: bind the cipher if `bind` says so,
where the allocation of `ccmp_attach` may fail, commit to the flags, and ask for
a key index. -/
def newkeyRound {ν : Type} (slot : KeySlot ν) (flags oflags : KeyFlags) (bind attach : Bool)
    (k : Key) : Key × NewkeyResult :=
  if bind && !attach then ({ k with wkFlags := oflags }, .attachFailed)
  else
    let k := if bind then { k with wkCipher := .ccmp, wkPrivate := none } else k
    let k := { k with wkFlags := flags }
    match k.wkKeyix with
    | some _ => (k, .ok)
    | none =>
      match nullKeyAlloc slot k with
      | none => (k, .noIndex)
      | some ix => ({ k with wkKeyix := some ix }, .ok)

/-- `ieee80211_crypto_newkey` for CCMP. `attach` says whether the allocations
succeed, that of the first round and that of the software fallback. -/
def newkey {ν : Type} (hwCcm : Bool) (slot : KeySlot ν) (flags : KeyFlags) (attach : Bool × Bool)
    (k : Key) : Key × Bool :=
  let flags := { flags with swcrypt := !hwCcm }
  let bind := k.wkCipher != .ccmp || k.wkFlags != flags
  match newkeyRound slot flags k.wkFlags bind attach.1 k with
  | (k, .ok) => (k, true)
  | (k, .attachFailed) => (k, false)
  | (k, .noIndex) =>
    if flags.swcrypt then (k, false)
    else
      -- No room in the hardware: once more, with the host doing the work.
      match newkeyRound slot { flags with swcrypt := true } k.wkFlags true attach.2 k with
      | (k, .ok) => (k, true)
      | (k, _) => (k, false)

/-- `ccmp_setkey`. -/
def ccmpSetkey (k : Key) : Key × Bool :=
  if k.wkKeylen ≠ 16 then (k, false)
  else if k.wkFlags.swcrypt then ({ k with wkPrivate := some (k.wkKey.take 16) }, true)
  else (k, true)

/-- `ieee80211_crypto_setkey`, with `null_key_set`. -/
def cryptoSetkey (k : Key) : Key × Bool :=
  let r := match k.wkCipher with
    | .none => (k, true)
    | .ccmp => ccmpSetkey k
  if r.2 then (r.1, r.1.wkKeyix.isSome) else r

end Net80211.Crypto
