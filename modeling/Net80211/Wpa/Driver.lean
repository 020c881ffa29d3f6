import Net80211.Node

/-!
# The supplicant driver

`freertos_set_key` of `port/wpa/driver_net80211.c`. The operations that move the
state machine are in `Net80211.Wpa.Assoc`.

A pointer argument with a length is an optional list. The allocations of
`ieee80211_crypto_newkey` are decided by `attach`, as there.
-/

namespace Net80211.Wpa

open Crypto

/-- The algorithms `freertos_set_key` tells apart. -/
inductive WpaAlg where
  | none
  | ccmp
  | other
  deriving DecidableEq, Repr

/-- `struct wpa_driver_set_key_params`. -/
structure SetKeyParams where
  alg : WpaAlg
  addr : Option (List UInt8)
  keyIdx : Int
  setTx : Bool
  seq : Option (List UInt8)
  key : Option (List UInt8)
  deriving DecidableEq, Repr

/-- The key of the call, if it passes the checks for an installation. -/
def SetKeyParams.ccmpKey (p : SetKeyParams) : Option (List UInt8) :=
  match p.alg, p.key with
  | .ccmp, some key => if key.length = 16 then some key else none
  | _, _ => none

/-- `is_group`. -/
def SetKeyParams.isGroup (p : SetKeyParams) : Bool :=
  match p.addr with
  | none => true
  | some a => isMulticast (a.headD 0)

/-- The number `seq` holds, least significant octet first. -/
def seqPn : List UInt8 → Nat
  | [] => 0
  | b :: bs => b.toNat + 2 ^ 8 * seqPn bs

/-- The initial `wk_keyrsc`. -/
def SetKeyParams.rsc (p : SetKeyParams) : Nat :=
  match p.seq with
  | none => 0
  | some seq => if 0 < seq.length ∧ seq.length ≤ 8 then seqPn seq else 0

variable {ν : Type} [DecidableEq ν]

/-- The key the call is about. -/
def setKeySlot (ic : Ic ν) (p : SetKeyParams) : KeySlot ν :=
  if p.isGroup then .nw (Fin.ofNat 4 p.keyIdx.toNat) else .ucast ic.icBss

/-- What a successful `ieee80211_crypto_newkey` is filled with, and whether
`ieee80211_crypto_setkey` took it. -/
def fillKey (k : Key) (key : List UInt8) (rsc : Nat) : Key × Bool :=
  cryptoSetkey { k with
    wkKeylen := key.length
    wkKeyrsc := rsc
    wkKeytsc := 0
    wkKey := key ++ List.replicate (32 - key.length) 0 }

/-- The rest of a call that set up a key: the default transmit key and, for a
pairwise key, the port. -/
def installKey (ic : Ic ν) (p : SetKeyParams) (k : Key) : Ic ν :=
  let ic := ic.setKey (setKeySlot ic p) k
  if p.isGroup then
    if p.setTx then
      { ic with icKeys := { ic.icKeys with defTxkey := some (Fin.ofNat 4 p.keyIdx.toNat) } }
    else ic
  else nodeAuthorize ic ic.icBss

/-- `freertos_set_key` and what it returns. A key that was set up is installed
whatever `ieee80211_crypto_setkey` said. -/
def setKey (ic : Ic ν) (p : SetKeyParams) (attach : Bool × Bool) : Ic ν × Int :=
  if p.keyIdx < 0 ∨ 4 ≤ p.keyIdx then (ic, -1)
  else
    let slot := setKeySlot ic p
    match p.alg with
    | .none => (ic.setKey slot resetkey, 0)
    | _ =>
      match p.ccmpKey with
      | none => (ic, -1)
      | some key =>
        let flags := { xmit := true, recv := true, group := p.isGroup, swcrypt := false }
        match newkey ic.icKeys.hwCcm slot flags attach (ic.icKeys.key slot) with
        | (k, false) => (ic.setKey slot k, -1)
        | (k, true) =>
          let r := fillKey k key p.rsc
          (installKey ic p r.1, if r.2 then 0 else -1)

end Net80211.Wpa
