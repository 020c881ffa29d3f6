import Net80211.Lib.Bitmap
import Net80211.Lib.Bytes

/-!
# The TIM element of the beacon

`ieee80211_set_tim` of `net80211/ieee80211_node.c`, and what `ieee80211_beacon_alloc` and
`ieee80211_beacon_update` of `net80211/ieee80211_output.c` do about the TIM element of an
access point. The pointers of `struct ieee80211_beacon_offsets` are offsets into the buffer of
the beacon. What comes before the element and what comes after it is given when the beacon is
allocated. Of the WME parameters an update has the octets that it writes: `bo_wme`, which
only a beacon with WME parameters has, is `bo_trailer` at all times.

A failed assertion stops the system. That of `ieee80211_set_tim` never fails, since an
association id comes from `ieee80211_node_join`; the one about the offset of the bitmap is a
result `none`.
-/

namespace Net80211

open Lib

abbrev Octet := BitVec 8

/-! ## The bitmap of the stations with frames -/

/-- The power-save fields of `struct ieee80211com`, and `IEEE80211_F_TIMUPDATE`. -/
structure Tim where
  icMaxAid : Nat
  icTimBitmap : Nat → Octet
  icPsPending : BitVec 16
  timUpdate : Bool

/-- `howmany(n, d)`. -/
def howmany (n d : Nat) : Nat := if n % d = 0 then n / d else n / d + 1

/-- `ic_tim_len`. -/
def Tim.icTimLen (t : Tim) : Nat := howmany t.icMaxAid 8

/-- `ieee80211_set_tim` for the station with association id `aid`. -/
def Tim.setTim (t : Tim) (aid : Nat) (set : Bool) : Tim :=
  if set != Bitmap.isset t.icTimBitmap aid then
    if set then
      { t with
        icTimBitmap := Bitmap.setbit t.icTimBitmap aid
        icPsPending := t.icPsPending + 1
        timUpdate := true }
    else
      { t with
        icTimBitmap := Bitmap.clrbit t.icTimBitmap aid
        icPsPending := t.icPsPending - 1
        timUpdate := true }
  else t

/-! ## The beacon -/

/-- The buffer of a beacon and `struct ieee80211_beacon_offsets`. -/
structure ApBeacon where
  buf : Nat → Octet
  boCaps : Nat
  boTim : Nat
  boTimLen : Nat
  boTrailer : Nat
  boTrailerLen : Nat
  /-- Were there WME parameters when the beacon was allocated? -/
  wme : Bool

/-! The fields of `struct ieee80211_tim_ie`; `tim_bitmap` is at offset 5. -/

def ApBeacon.timLen (b : ApBeacon) : Octet := b.buf (b.boTim + 1)

def ApBeacon.timCount (b : ApBeacon) : Octet := b.buf (b.boTim + 2)

def ApBeacon.timPeriod (b : ApBeacon) : Octet := b.buf (b.boTim + 3)

def ApBeacon.timBitctl (b : ApBeacon) : Octet := b.buf (b.boTim + 4)

/-- `ieee80211_beacon_alloc`: the element goes where `frm` is when the first elements are in
the buffer, and the other elements behind it. -/
def beaconAlloc (buf : Nat → Octet) (boCaps boTim : Nat) (trailer : List Octet) (wme : Bool)
    (icDtimPeriod : Octet) : ApBeacon where
  buf := store (store buf boTim [5, 4, 0, icDtimPeriod, 0, 0]) (boTim + 6) trailer
  boCaps := boCaps
  boTim := boTim
  boTimLen := 1
  boTrailer := boTim + 6
  boTrailerLen := trailer.length
  wme := wme

/-- `timoff` and `timlen`: from an octet with an even number to the last that is not zero. -/
def Tim.timWindow (t : Tim) : Option (Nat × Nat) :=
  if t.icPsPending ≠ 0 then
    match Bitmap.first t.icTimBitmap t.icTimLen with
    | none => none
    | some i =>
      let timoff := i / 2 * 2
      -- 128 stands for an empty bitmap
      if timoff = 128 then none
      else (Bitmap.last t.icTimBitmap timoff t.icTimLen).map fun i => (timoff, 1 + (i - timoff))
  else some (0, 1)

/-- The element gets another length, and what follows it another place. -/
def ApBeacon.resize (b : ApBeacon) (timoff timlen : Nat) : ApBeacon :=
  let buf := store b.buf (b.boTim + 5 + timlen) (window b.buf b.boTrailer b.boTrailerLen)
  let buf := store buf (b.boTim + 1) [BitVec.ofNat 8 (3 + timlen)]
  { b with
    buf := store buf (b.boTim + 4) [BitVec.ofNat 8 timoff]
    boTrailer := b.boTim + 5 + timlen
    boTimLen := timlen }

/-- The branch of `ieee80211_beacon_update` for `IEEE80211_F_TIMUPDATE`, and `len_changed`. -/
def ApBeacon.putTim (b : ApBeacon) (t : Tim) : Option (Tim × ApBeacon × Bool) :=
  match t.timWindow with
  | none => none
  | some (timoff, timlen) =>
    let lenChanged := timlen != b.boTimLen
    let b := if lenChanged then b.resize timoff timlen else b
    let b := { b with buf := store b.buf (b.boTim + 5) (window t.icTimBitmap timoff b.boTimLen) }
    some ({ t with timUpdate := false }, b, lenChanged)

/-- Count down the DTIM period, and say whether multicast frames wait. -/
def ApBeacon.countDown (b : ApBeacon) (mcast : Bool) : ApBeacon :=
  let count := if b.timCount = 0 then b.timPeriod - 1 else b.timCount - 1
  let b := { b with buf := store b.buf (b.boTim + 2) [count] }
  let bitctl := if mcast && (b.timCount == 1 || b.timPeriod == 1) then b.timBitctl ||| 1
    else b.timBitctl &&& ~~~1
  { b with buf := store b.buf (b.boTim + 4) [bitctl] }

/-- The capabilities, and the WME parameters if they have changed. -/
def ApBeacon.putFixed (b : ApBeacon) (capinfo : Octet × Octet) (wme : Option (List Octet)) :
    ApBeacon :=
  let buf := store b.buf b.boCaps [capinfo.1, capinfo.2]
  { b with buf := if b.wme then store buf b.boTrailer (wme.getD []) else buf }

/-- `ieee80211_beacon_update` of an access point. -/
def beaconUpdate (t : Tim) (b : ApBeacon) (capinfo : Octet × Octet) (wme : Option (List Octet))
    (mcast : Bool) : Option (Tim × ApBeacon × Bool) :=
  let b := b.putFixed capinfo wme
  if t.timUpdate then (b.putTim t).map fun r => (r.1, r.2.1.countDown mcast, r.2.2)
  else some (t, b.countDown mcast, false)

/-! ## What a station reads -/

/-- Does the element of the beacon say that there are frames for the station with association
id `aid`? The bitmap offset is the control octet without the multicast bit. -/
def ApBeacon.traffic (b : ApBeacon) (aid : Nat) : Bool :=
  Bitmap.received (fun i => b.buf (b.boTim + 5 + i))
    (b.timBitctl &&& ~~~1).toNat (b.timLen.toNat - 3) aid

/-- Does it say that multicast frames follow? -/
def ApBeacon.multicast (b : ApBeacon) : Bool := b.timBitctl.getLsbD 0

end Net80211
