import Net80211.Lib.Guarded

/-!
# Information elements

What the handlers of management frames in `net80211/ieee80211_input.c` share: the
loop over the elements of a frame with `IEEE80211_VERIFY_LENGTH` and
`IEEE80211_VERIFY_ELEMENT`, the tests for vendor elements, `ieee80211_parse_wpa`,
`ieee80211_parse_rsn`, `ieee80211_parse_wmeparams` and `ieee80211_saveie`.

A frame is the list of its octets, and a pointer into it the offset. A handler
that returns early is a `drop`, with the counter of `ic_stats` it is booked under.
Debug output is left out where it prints addresses of the header.
-/

namespace Net80211

open Lib

/-- Why a management frame is not processed further. -/
inductive MgmtDrop where
  | tooshort
  | wrongdir
  | mgtdiscard
  | elemToosmall
  | elemMissing
  | elemToobig
  | badchan
  | chanmismatch
  | badbintval
  | ssidmismatch
  | assocBss
  | assocNotauth
  | assocBadwpaie
  | assocCapmismatch
  | authFail
  | noNode
  -- Subtypes without elements, which are handled elsewhere.
  | other
  deriving DecidableEq, Repr

/-- `IEEE80211_ELEMID_*`, as far as a handler has a case for it. -/
inductive Elemid where
  | ssid
  | rates
  | fhparms
  | dsparms
  | tim
  | ibssparms
  | country
  | erp
  | rsn
  | xrates
  | vendor
  | unknown
  deriving DecidableEq, Repr

def elemid (b : UInt8) : Elemid :=
  if b = 0 then .ssid
  else if b = 1 then .rates
  else if b = 2 then .fhparms
  else if b = 3 then .dsparms
  else if b = 5 then .tim
  else if b = 6 then .ibssparms
  else if b = 7 then .country
  else if b = 42 then .erp
  else if b = 48 then .rsn
  else if b = 50 then .xrates
  else if b = 221 then .vendor
  else .unknown

variable (frame : List UInt8)

/-- `LE_READ_2`, and `le16toh` of a `u_int16_t` in the frame. -/
def leRead2 (p : Nat) : Guarded MgmtDrop UInt16 := do
  let a ← readAt frame p
  let b ← readAt frame (p + 1)
  pure (a.toUInt16 ||| b.toUInt16 <<< 8)

/-- `LE_READ_4`. -/
def leRead4 (p : Nat) : Guarded MgmtDrop UInt32 := do
  let a ← readAt frame p
  let b ← readAt frame (p + 1)
  let c ← readAt frame (p + 2)
  let d ← readAt frame (p + 3)
  pure (a.toUInt32 ||| b.toUInt32 <<< 8 ||| c.toUInt32 <<< 16 ||| d.toUInt32 <<< 24)

/-! ## The loop -/

/-- `IEEE80211_VERIFY_LENGTH`. The comparison is one of `size_t`, where a negative
length is large. -/
def verifyLength (len : Int) (minlen : Nat) : Guarded MgmtDrop Unit :=
  if 0 ≤ len ∧ len < minlen then .drop .elemToosmall else pure ()

/-- `IEEE80211_VERIFY_ELEMENT`. -/
def verifyElement (maxlen : UInt8) : Option Nat → Guarded MgmtDrop Nat
  | none => .drop .elemMissing
  | some p => do
      let n ← readAt frame (p + 1)
      if n > maxlen then .drop .elemToobig else pure p

/-- One round of `while (frm + 1 < efrm)`. -/
def elementRound {σ : Type} (visit : Nat → σ → Guarded MgmtDrop σ) (s : Nat × σ) :
    Guarded MgmtDrop ((Nat × σ) ⊕ σ) :=
  if s.1 + 1 < frame.length then do
    let n ← readAt frame (s.1 + 1)
    verifyLength ((frame.length : Int) - s.1) (n.toNat + 2)
    let acc ← visit s.1 s.2
    let n ← readAt frame (s.1 + 1)
    pure (.inl (s.1 + (n.toNat + 2), acc))
  else pure (.inr s.2)

/-- The loop of a handler from `frm` on; `visit` is its `switch`. -/
def elements {σ : Type} (visit : Nat → σ → Guarded MgmtDrop σ) (frm : Nat) (acc : σ) :
    Guarded MgmtDrop σ :=
  loop (elementRound frame visit) (frame.length + 1) (frm, acc)

/-! ## Vendor elements -/

/-- `WPA_OUI_TYPE << 24 | WPA_OUI`. -/
def wpaOui : UInt32 := 0x01f25000

/-- `WME_OUI_TYPE << 24 | WME_OUI`. -/
def wmeOui : UInt32 := 0x02f25000

/-- An element longer than `len` that starts with `oui`. -/
def isOui (len : UInt8) (oui : UInt32) (p : Nat) : Guarded MgmtDrop Bool := do
  let n ← readAt frame (p + 1)
  if n > len then
    let w ← leRead4 frame (p + 2)
    pure (w == oui)
  else pure false

def iswpaoui (p : Nat) : Guarded MgmtDrop Bool := isOui frame 3 wpaOui p

def iswmeoui (p : Nat) : Guarded MgmtDrop Bool := isOui frame 3 wmeOui p

/-- A WME element of this subtype. -/
def isWme (subtype : UInt8) (p : Nat) : Guarded MgmtDrop Bool := do
  let oui ← isOui frame 5 wmeOui p
  if oui then
    let b ← readAt frame (p + 6)
    pure (b == subtype)
  else pure false

def iswmeparam (p : Nat) : Guarded MgmtDrop Bool := isWme frame 1 p

def iswmeinfo (p : Nat) : Guarded MgmtDrop Bool := isWme frame 0 p

/-- `ieee80211_saveie`. A saved element of the same length is written over; for any
other there is new memory, if there is (`malloc`). -/
def saveie (malloc : Bool) (ie : Option (List UInt8)) (p : Nat) :
    Guarded MgmtDrop (Option (List UInt8)) := do
  let n ← readAt frame (p + 1)
  let same := match ie with
    | some old => old.getD 1 0 == n
    | none => false
  if same || malloc then
    let bs ← readN frame p (n.toNat + 2)
    pure (some bs)
  else pure none

/-! ## WPA and RSN -/

/-- `struct ieee80211_rsnparms`. -/
structure RsnParms where
  rsnMcastcipher : UInt8
  rsnMcastkeylen : UInt8
  rsnUcastcipherset : UInt8
  rsnUcastcipher : UInt8
  rsnUcastkeylen : UInt8
  rsnKeymgmtset : UInt8
  rsnKeymgmt : UInt8
  rsnCaps : UInt16
  deriving DecidableEq, Repr

/-- The cipher of a selector, with the key length where it says one. A selector
that is not known is 32. -/
abbrev SelCipher := UInt32 → Nat × Option UInt8

def wpaCipher : SelCipher := fun w =>
  if w = 0x00f25000 then (6, none)
  else if w = 0x01f25000 then (0, some 5)
  else if w = 0x05f25000 then (0, some 13)
  else if w = 0x02f25000 then (1, none)
  else if w = 0x04f25000 then (3, none)
  else (32, none)

def rsnCipher : SelCipher := fun w =>
  if w = 0x00ac0f00 then (6, none)
  else if w = 0x01ac0f00 then (0, some 5)
  else if w = 0x05ac0f00 then (0, some 13)
  else if w = 0x02ac0f00 then (1, none)
  else if w = 0x04ac0f00 then (3, none)
  else if w = 0x03ac0f00 then (2, none)
  else (32, none)

def wpaKeymgmt (w : UInt32) : UInt32 :=
  if w = 0x01f25000 then 1 else if w = 0x02f25000 then 2 else 0

def rsnKeymgmt (w : UInt32) : UInt32 :=
  if w = 0x01ac0f00 then 1 else if w = 0x02ac0f00 then 2 else 0

/-- `1 << c`. The source means 32 to be shifted out; in C that shift is undefined,
and `shl32` is what it gives. -/
def cipherBit (shl32 : UInt32) (c : Nat) : UInt32 := if c < 32 then UInt32.ofNat (2 ^ c) else shl32

/-- What `ieee80211_node_lateattach` sets in `ic_bss`, for a driver with or without
`IEEE80211_C_AES` and `IEEE80211_C_CKIP`. -/
def lateattachRsn (aes ckip : Bool) : RsnParms :=
  { rsnMcastcipher := 1, rsnMcastkeylen := 16
    rsnUcastcipherset := 0x0b ||| (if aes then 0x04 else 0) ||| (if ckip then 0x20 else 0)
    rsnUcastcipher := 0, rsnUcastkeylen := 13, rsnKeymgmtset := 3, rsnKeymgmt := 2, rsnCaps := 0 }

/-- In what the two elements differ: the least length, the octets in front of the
version, and the selectors. -/
structure SecIe where
  minlen : UInt8
  oui : UInt8
  cipher : SelCipher
  keymgmt : UInt32 → UInt32

def wpaIe : SecIe := { minlen := 14, oui := 4, cipher := wpaCipher, keymgmt := wpaKeymgmt }

def rsnIe : SecIe := { minlen := 10, oui := 0, cipher := rsnCipher, keymgmt := rsnKeymgmt }

/-- Where a parser is in its element: `frm`, the octets that are left, and what the
selectors so far amount to. -/
structure Selectors where
  frm : Nat
  len : UInt8
  w : UInt32
  keylen : UInt8

variable (shl32 : UInt32)

def ucastRound (ie : SecIe) (s : Selectors) : Guarded MgmtDrop Selectors := do
  let sel ← leRead4 frame s.frm
  let (c, keylen) := ie.cipher sel
  pure { frm := s.frm + 4, len := s.len - 4, w := s.w ||| cipherBit shl32 c,
         keylen := keylen.getD s.keylen }

def keymgmtRound (ie : SecIe) (s : Selectors) : Guarded MgmtDrop Selectors := do
  let sel ← leRead4 frame s.frm
  pure { s with frm := s.frm + 4, len := s.len - 4, w := s.w ||| ie.keymgmt sel }

/-- The optional capabilities. -/
def parseCaps (frm : Nat) (len : UInt8) (rsn : RsnParms) : Guarded MgmtDrop RsnParms :=
  if len > 2 then do
    let caps ← leRead2 frame frm
    pure { rsn with rsnCaps := caps }
  else pure rsn

/-- From the key management algorithms on. -/
def parseKeymgmt (ie : SecIe) (frm : Nat) (len : UInt8) (rsn : RsnParms) :
    Guarded MgmtDrop (Option RsnParms) := do
  let n ← leRead2 frame frm
  let len := len - 2
  if len.toNat < n.toNat * 4 then pure none
  else
    let s ← repeatN (keymgmtRound frame ie) n.toNat
      { frm := frm + 2, len := len, w := 0, keylen := 0 }
    let w := s.w &&& rsn.rsnKeymgmtset.toUInt32
    if w = 0 then pure none
    else
      let rsn := { rsn with rsnKeymgmt := if w &&& 1 != 0 then 1 else 2 }
      let rsn ← parseCaps frame s.frm s.len rsn
      pure (some rsn)

/-- From the unicast ciphers on. -/
def parseUcast (ie : SecIe) (frm : Nat) (len : UInt8) (rsn : RsnParms) :
    Guarded MgmtDrop (Option RsnParms) := do
  let n ← leRead2 frame frm
  let len := len - 2
  if len.toNat < n.toNat * 4 + 2 then pure none
  else
    let s ← repeatN (ucastRound frame shl32 ie) n.toNat
      { frm := frm + 2, len := len, w := 0, keylen := rsn.rsnUcastkeylen }
    let w := s.w &&& rsn.rsnUcastcipherset.toUInt32
    if w = 0 then pure none
    else
      let ucast := if w &&& 2 != 0 then 1 else 3
      parseKeymgmt frame ie s.frm s.len
        { rsn with rsnUcastcipher := ucast, rsnUcastkeylen := s.keylen }

/-- `ieee80211_parse_wpa` and `ieee80211_parse_rsn`; `none` is
`IEEE80211_REASON_IE_INVALID`. `enabled` is the bit of `ic_flags` for the element. -/
def parseSecIe (ie : SecIe) (enabled : Bool) (p : Nat) (rsn : RsnParms) :
    Guarded MgmtDrop (Option RsnParms) := do
  let len ← readAt frame (p + 1)
  if !enabled then pure none
  else if len < ie.minlen then pure none
  else
    let frm := p + 2 + ie.oui.toNat
    let len := len - ie.oui
    let version ← leRead2 frame frm
    if version ≠ 1 then pure none
    else
      let sel ← leRead4 frame (frm + 2)
      let (c, keylen) := ie.cipher sel
      if c ≠ rsn.rsnMcastcipher.toNat then pure none
      else
        let rsn := { rsn with rsnMcastkeylen := keylen.getD rsn.rsnMcastkeylen }
        parseUcast frame shl32 ie (frm + 6) (len - 6) rsn

def parseWpa (wpa1 : Bool) (p : Nat) (rsn : RsnParms) : Guarded MgmtDrop (Option RsnParms) :=
  parseSecIe frame shl32 wpaIe wpa1 p rsn

def parseRsn (wpa2 : Bool) (p : Nat) (rsn : RsnParms) : Guarded MgmtDrop (Option RsnParms) :=
  parseSecIe frame shl32 rsnIe wpa2 p rsn

/-! ## WME parameters -/

/-- `struct wmeParams`, what an element sets of it. -/
structure WmeParams where
  wmepAcm : UInt8
  wmepAifsn : UInt8
  wmepLogcwmin : UInt8
  wmepLogcwmax : UInt8
  wmepTxopLimit : UInt8
  deriving DecidableEq, Repr

/-- `struct chanAccParams`. -/
structure ChanAccParams where
  capInfo : UInt8
  capWmeParams : List WmeParams
  deriving DecidableEq, Repr

/-- One access category. -/
def wmeRound (frame : List UInt8) (s : Nat × List WmeParams) :
    Guarded MgmtDrop (Nat × List WmeParams) := do
  let (frm, ps) := s
  let b0 ← readAt frame frm
  let b1 ← readAt frame (frm + 1)
  let txop ← leRead2 frame (frm + 2)
  let p : WmeParams :=
    { wmepAcm := (b0 &&& 0x10) >>> 4, wmepAifsn := b0 &&& 0x0f, wmepLogcwmin := b1 &&& 0x0f
      wmepLogcwmax := (b1 &&& 0xf0) >>> 4, wmepTxopLimit := txop.toUInt8 }
  pure (frm + 4, ps ++ [p])

/-- `ieee80211_parse_wmeparams`: the result and the parameters. -/
def parseWmeparams (frame : List UInt8) (wme : ChanAccParams) (p : Nat) :
    Guarded MgmtDrop (Int × ChanAccParams) := do
  let len ← readAt frame (p + 1)
  if len < 24 then pure (-1, wme)
  else
    let qosinfo ← readAt frame (p + 8)
    let qosinfo := qosinfo &&& 0x0f
    if qosinfo = wme.capInfo then pure (0, wme)
    else
      let s ← repeatN (wmeRound frame) 4 (p + 10, [])
      pure (1, { capInfo := qosinfo, capWmeParams := s.2 })

end Net80211
