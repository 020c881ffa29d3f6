import Net80211.Lib.Guarded

/-!
# What urtwn puts on the chip

`urtwn_llt_init`, and `urtwn_load_firmware` with `urtwn_fw_loadpage`, of `driver/urtwn/if_urtwn.c`.
Whether a write goes through is up to the chip. The registers that switch the download on and
off, and the waits behind it, are left out.
-/

namespace Net80211.Urtwn

open Lib

/-! ## The list of packet buffer pages -/

/-- `urtwn_llt_write`: address and data are fields of eight bits. -/
def lltWrite (chip : Nat → Bool) (llt : Nat → Nat) (addr data : Nat) : Option (Nat → Nat) :=
  if chip addr then some (Function.update llt (addr % 256) (data % 256)) else none

/-- The loops of `urtwn_llt_init`: `n` pages from `i` on, each linked to the next. -/
def lltLinks (chip : Nat → Bool) : Nat → Nat → (Nat → Nat) → Option (Nat → Nat)
  | 0, _, llt => some llt
  | n + 1, i, llt => lltWrite chip llt i (i + 1) >>= lltLinks chip n (i + 1)

/-- `urtwn_llt_init`, but for the chip that makes the list itself. -/
def lltInit (chip : Nat → Bool) (pageCount pktbufCount : Nat) (llt : Nat → Nat) :
    Option (Nat → Nat) := do
  let llt ← lltLinks chip pageCount 0 llt
  let llt ← lltWrite chip llt pageCount 0xff
  let n := pktbufCount - 1 - (pageCount + 1)
  let llt ← lltLinks chip n (pageCount + 1) llt
  lltWrite chip llt (pageCount + 1 + n) (pktbufCount + 1)

/-! ## The firmware -/

/-- `R92C_FW_START_ADDR`. -/
def fwStartAddr : Nat := 0x1000

/-- `R92C_FW_PAGE_SIZE`. -/
def fwPageSize : Nat := 4096

/-- A call of `urtwn_write_region`, with the page that `R92C_MCUFWDL` selects. -/
structure FwWrite where
  page : Nat
  off : Nat
  buf : List UInt8
  deriving DecidableEq, Repr

/-- `urtwn_fw_loadpage`, and whether every write went through. -/
def fwLoadpage (chip : FwWrite → Bool) (page : Nat) : Nat → Nat → List UInt8 → List FwWrite × Bool
  | 0, _, _ => ([], true)
  | fuel + 1, off, buf =>
    if buf.length = 0 then ([], true)
    else
      let mlen := if buf.length > 196 then 196 else if buf.length > 4 then 4 else 1
      -- the field of the page has three bits
      let w : FwWrite := ⟨page % 8, off, buf.take mlen⟩
      if chip w then
        let r := fwLoadpage chip page fuel (off + mlen) (buf.drop mlen)
        (w :: r.1, r.2)
      else ([w], false)

/-- The signatures of a header. -/
def fwSigned (lo hi : UInt8) : Bool :=
  (lo.toNat + 256 * hi.toNat) / 16 ∈ [0x88c, 0x88e, 0x92e, 0x92c]

/-- The variables of the loop over the pages. -/
structure FwLoad where
  page : Nat
  ptr : Nat
  len : Nat
  writes : List FwWrite

def fwRound (chip : FwWrite → Bool) (fw : List UInt8) (s : FwLoad) :
    Guarded Empty (FwLoad ⊕ List FwWrite × Bool) :=
  if s.len = 0 then pure (.inr (s.writes, true))
  else do
    let mlen := min s.len fwPageSize
    let buf ← readN fw s.ptr mlen
    let r := fwLoadpage chip s.page buf.length fwStartAddr buf
    if r.2 then pure (.inl ⟨s.page + 1, s.ptr + mlen, s.len - mlen, s.writes ++ r.1⟩)
    else pure (.inr (s.writes ++ r.1, false))

/-- `urtwn_load_firmware` from the image in memory on: the writes, and whether all went through.
The signature is read before the length is looked at, and the header taken off without a look. -/
def loadFirmware (chip : FwWrite → Bool) (fw : List UInt8) :
    Guarded Empty (List FwWrite × Bool) := do
  let lo ← readAt fw 0
  let hi ← readAt fw 1
  let hdr := if fwSigned lo hi then 32 else 0
  loop (fwRound chip fw) (fw.length + 2) ⟨0, hdr, (fw.length + 2 ^ 64 - hdr) % 2 ^ 64, []⟩

end Net80211.Urtwn
