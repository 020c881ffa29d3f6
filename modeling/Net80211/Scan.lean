import Net80211.RecvMgmt

/-!
# Scanning

`ieee80211_reset_scan`, `ieee80211_begin_scan` and `ieee80211_next_scan`, and what
`ieee80211_end_scan` chooses a BSS with, of `net80211/ieee80211_node.c`. A channel is its place in
`ic_channels`. The generation of the scan table is in `NodeTable`; the state machine and the
statistics are left out.
-/

namespace Net80211

open Lib

/-! ## The channels of a scan -/

/-- `IEEE80211_CHAN_MAX`; `ic_channels` has one entry more. -/
def chanMax : Nat := 255

/-- What a scan works on; `desChan` is `none` for
`IEEE80211_CHAN_ANYC`. -/
structure ScanIc where
  desChan : Option Nat
  chanActive : Nat → Bool
  chanScan : Nat → Bool
  curchan : Nat

/-- `ieee80211_reset_scan`. -/
def resetScan (ic : ScanIc) : ScanIc :=
  { ic with chanScan := match ic.desChan with
      | some c => fun i => decide (i = c)
      | none => ic.chanActive }

/-- The loop of `ieee80211_next_scan`; `none` if it takes more than `fuel` rounds. -/
def nextChan (ic : ScanIc) : Nat → Nat → Option (Option Nat)
  | 0, _ => none
  | fuel + 1, chan =>
    let chan := if chan + 1 > chanMax then 0 else chan + 1
    if ic.chanScan chan then some (some chan)
    else if chan ≠ ic.curchan then nextChan ic fuel chan
    else some none

/-- The end of `ieee80211_next_scan`: the channel it switches to. Where there is none it calls
`ieee80211_end_scan`, which may start the next scan. -/
def ScanIc.switch (ic : ScanIc) : Option Nat → ScanIc × Option Nat
  | some c => ({ ic with chanScan := Function.update ic.chanScan c false, curchan := c }, some c)
  | none => (ic, none)

def nextScan (ic : ScanIc) : Option (ScanIc × Option Nat) :=
  (nextChan ic (chanMax + 1) ic.curchan).map ic.switch

/-- What `n` calls of `ieee80211_next_scan` switch to. -/
def scanCalls : Nat → ScanIc → Option (List (Option Nat))
  | 0, _ => some []
  | n + 1, ic => do
    let (ic, c) ← nextScan ic
    let cs ← scanCalls n ic
    pure (c :: cs)

/-- `ieee80211_begin_scan` makes the first of these calls. -/
def ScanIc.beginScan (ic : ScanIc) (n : Nat) : Option (List (Option Nat)) :=
  scanCalls n (resetScan ic)

/-! ## The choice of a BSS -/

/-- What `ieee80211_end_scan` reads of a node. -/
structure ScanBss where
  niChan : UInt8
  niCapinfo : UInt16
  niRates : Rateset
  niEssid : List UInt8
  niBssid : List UInt8
  niFails : Nat
  niRssi : UInt8
  deriving DecidableEq, Repr

/-- The configuration of the interface. `desBssid` is there with `IEEE80211_F_DESBSSID`. -/
structure ScanConf where
  chanActive : UInt8 → Bool
  chan5ghz : UInt8 → Bool
  supRates : UInt8 → List UInt8
  fixedRate : Option Nat
  desChan : Option UInt8
  ibss : Bool
  privacy : Bool
  desEssid : List UInt8
  desBssid : Option (List UInt8)

/-- `IEEE80211_CAPINFO_PRIVACY`. -/
def capinfoPrivacy : UInt16 := 0x0010

def ScanBss.hasPrivacy (ni : ScanBss) : Bool := ni.niCapinfo &&& capinfoPrivacy != 0

/-- `ieee80211_match_bss`, and the rates that `ieee80211_fix_rate` leaves. -/
def matchBss (conf : ScanConf) (ni : ScanBss) : Guarded Empty (UInt8 × Rateset) := do
  let (rate, rates, _) ← fixRate ⟨conf.supRates ni.niChan, conf.fixedRate, false⟩
    ⟨false, true, true, false⟩ ni.niRates 0
  let bit (b : UInt8) (c : Bool) : UInt8 := if c then b else 0
  pure (bit 0x01 (!conf.chanActive ni.niChan || conf.desChan.any fun c => ni.niChan != c) |||
    bit 0x02 (ni.niCapinfo &&& (if conf.ibss then capinfoIbss else capinfoEss) == 0) |||
    bit 0x04 (conf.privacy != ni.hasPrivacy) ||| bit 0x08 (rate &&& rateBasic != 0) |||
    bit 0x10 (conf.desEssid.length != 0 && ni.niEssid != conf.desEssid) |||
    bit 0x20 (conf.desBssid.any fun bssid => bssid != ni.niBssid) |||
    bit 0x40 (ni.niFails ≥ 2) ||| bit 0x80 (conf.desEssid.length == 0), rates)

/-- `maxrate`. A node that matches has rates; without any the code reads in front of the array. -/
def maxrate (ni : ScanBss) : UInt8 := rv (ni.niRates.rates.getLastD 0)

/-- `ieee80211_node_compare`. -/
def nodeCompare (conf : ScanConf) (a b : ScanBss) : Int :=
  if a.hasPrivacy && !b.hasPrivacy then 1
  else if !a.hasPrivacy && b.hasPrivacy then -1
  else
    let weight : Int := b.niFails - a.niFails
    if weight.natAbs > 1 then weight
    else
      let rssi : Int := a.niRssi.toNat - b.niRssi.toNat
      if rssi.natAbs < 5 ∧ maxrate a ≠ maxrate b then (maxrate a).toNat - (maxrate b).toNat
      else if rssi.natAbs < 5 ∧ conf.chan5ghz a.niChan ∧ ¬ conf.chan5ghz b.niChan then 1
      else if rssi.natAbs < 5 ∧ ¬ conf.chan5ghz a.niChan ∧ conf.chan5ghz b.niChan then -1
      else rssi

/-- The node that stays. -/
def betterBss (conf : ScanConf) (sel : Option ScanBss) (ni : ScanBss) : Option ScanBss :=
  match sel with
  | none => some ni
  | some selbs => if nodeCompare conf ni selbs > 0 then some ni else some selbs

/-- The loop of `ieee80211_end_scan` over the scan table, where it looks for a BSS to join. -/
def selectBss (conf : ScanConf) : List ScanBss → Option ScanBss → Guarded Empty (Option ScanBss)
  | [], sel => pure sel
  | ni :: nt, sel => do
    let (fail, rates) ← matchBss conf ni
    selectBss conf nt (if fail = 0 then betterBss conf sel { ni with niRates := rates } else sel)

end Net80211
