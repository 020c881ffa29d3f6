import Net80211.Lib.Guarded

/-!
# Rate sets

`ieee80211_setup_rates` of `net80211/ieee80211_input.c`, and `ieee80211_fix_rate` and
`ieee80211_iserp_rateset` of `net80211/ieee80211_proto.c`. The elements are read from the frame they
were found in, at their offsets. Every access to `rs_rates` is checked against the size of the
array; the table of supported rates is the driver's and is not.
-/

namespace Net80211

open Lib

/-- `IEEE80211_RATE_MAXSIZE`. -/
abbrev rateMaxsize : Nat := 15

/-- `struct ieee80211_rateset`. -/
structure Rateset where
  rsNrates : UInt8
  rsRates : Vector UInt8 rateMaxsize
  deriving DecidableEq, Repr

/-- `RV`, the rate without its basic bit. -/
def rv (v : UInt8) : UInt8 := v &&& 0x7f

/-- `IEEE80211_RATE_BASIC`. -/
def rateBasic : UInt8 := 0x80

/-- `IEEE80211_R_*`. -/
structure RateFlags where
  dosort : Bool
  dofrate : Bool
  donego : Bool
  dodel : Bool
  deriving DecidableEq, Repr

/-- What `ieee80211_fix_rate` reads of the interface: the supported rates of the
channel's mode, `ic_fixed_rate` unless it is `IEEE80211_FIXED_RATE_NONE`, and
whether this is an access point. -/
structure RateCtx where
  srs : List UInt8
  fixedRate : Option Nat
  hostap : Bool
  deriving DecidableEq, Repr

/-- The variables of `ieee80211_fix_rate`. -/
structure FixRate where
  i : Nat
  nrs : Rateset
  error : Nat
  okrate : UInt8
  badrate : UInt8
  fixedrate : UInt8
  txrate : Nat

variable {δ : Type}

/-- One round of the sort, at `j`. -/
def sortRound (i : Nat) (s : Nat × Vector UInt8 rateMaxsize) :
    Guarded δ (Nat × Vector UInt8 rateMaxsize) := do
  let (j, rates) := s
  let ri ← vecRead rates i
  let rj ← vecRead rates j
  if rv ri > rv rj then
    let rates ← vecWrite rates i rj
    let rates ← vecWrite rates j ri
    pure (j + 1, rates)
  else pure (j + 1, rates)

/-- The smallest of the rates from `i` on comes to `i`. -/
def sortRates (i : Nat) (nrs : Rateset) : Guarded δ Rateset := do
  let (_, rates) ← repeatN (sortRound i) (nrs.rsNrates.toNat - (i + 1)) (i + 1, nrs.rsRates)
  pure { nrs with rsRates := rates }

def sortIf (dosort : Bool) (i : Nat) (nrs : Rateset) : Guarded δ Rateset :=
  if dosort then sortRates i nrs else pure nrs

/-- One round of the deletion: `rs_rates[j] = rs_rates[j + 1]`. -/
def deleteRound (s : Nat × Vector UInt8 rateMaxsize) :
    Guarded δ (Nat × Vector UInt8 rateMaxsize) := do
  let (j, rates) := s
  let r ← vecRead rates (j + 1)
  let rates ← vecWrite rates j r
  pure (j + 1, rates)

/-- The rate at `i` is taken out, and the last entry is cleared. -/
def deleteRate (i : Nat) (nrs : Rateset) : Guarded δ Rateset := do
  let n := nrs.rsNrates - 1
  let (j, rates) ← repeatN deleteRound (n.toNat - i) (i, nrs.rsRates)
  let rates ← vecWrite rates j 0
  pure { rsNrates := n, rsRates := rates }

/-- A supported rate is written over the one at `i`, with its basic bit. -/
def negotiate (i : Nat) (rates : Vector UInt8 rateMaxsize) :
    Option UInt8 → Guarded δ (Vector UInt8 rateMaxsize)
  | some r => vecWrite rates i r
  | none => pure rates

/-- One round of `ieee80211_fix_rate`. -/
def fixRateRound (ctx : RateCtx) (flags : RateFlags) (fixed : Option Nat) (s : FixRate) :
    Guarded δ (FixRate ⊕ FixRate) :=
  if s.i < s.nrs.rsNrates.toNat then do
    let nrs ← sortIf flags.dosort s.i s.nrs
    let cur ← vecRead nrs.rsRates s.i
    let r := rv cur
    let fixedrate := match fixed with
      | some k => if r = rv (ctx.srs.getD k 0) then r else s.fixedrate
      | none => s.fixedrate
    let sup := if flags.donego then ctx.srs.find? (fun x => r = rv x) else none
    let ignore := flags.donego && sup.isNone
    let rates ← negotiate s.i nrs.rsRates sup
    let nrs := { nrs with rsRates := rates }
    let cur ← vecRead nrs.rsRates s.i
    let error := if ignore && ctx.hostap && cur &&& rateBasic != 0 then s.error + 1 else s.error
    if ignore && flags.dodel then
      let nrs ← deleteRate s.i nrs
      pure (.inl { s with nrs := nrs, error := error, badrate := r, fixedrate := fixedrate })
    else if ignore then
      pure (.inl { s with
        i := s.i + 1, nrs := nrs, error := error, badrate := r, fixedrate := fixedrate })
    else
      pure (.inl { s with
        i := s.i + 1, nrs := nrs, error := error, badrate := r, fixedrate := fixedrate
        okrate := cur, txrate := s.i })
  else pure (.inr s)

/-- `ieee80211_fix_rate`: the rate, the set, and `ni_txrate`. -/
def fixRate (ctx : RateCtx) (flags : RateFlags) (nrs : Rateset) (txrate : Nat) :
    Guarded δ (UInt8 × Rateset × Nat) := do
  let fixed := if flags.dofrate then ctx.fixedRate else none
  let s ← loop (fixRateRound ctx flags fixed) (nrs.rsNrates.toNat + 1)
    { i := 0, nrs := nrs, error := 0, okrate := 0, badrate := 0, fixedrate := 0, txrate := txrate }
  if s.okrate = 0 ∨ s.error ≠ 0 ∨ (fixed.isSome ∧ s.fixedrate = 0) then
    pure (s.badrate ||| rateBasic, s.nrs, s.txrate)
  else pure (rv s.okrate, s.nrs, s.txrate)

/-- The extended rates are tacked on, as many as there is room for. -/
def addXrates (frame : List UInt8) (rs : Rateset) : Option Nat → Guarded δ Rateset
  | none => pure rs
  | some xrates => do
      let nxrates ← readAt frame (xrates + 1)
      let nxrates :=
        if rs.rsNrates.toNat + nxrates.toNat > rateMaxsize then 15 - rs.rsNrates else nxrates
      let bs ← readN frame (xrates + 2) nxrates.toNat
      let rates ← vecCopy rs.rsRates rs.rsNrates.toNat bs
      pure { rsNrates := rs.rsNrates + nxrates, rsRates := rates }

/-- `ieee80211_setup_rates`. -/
def setupRates (ctx : RateCtx) (flags : RateFlags) (frame : List UInt8) (rates : Nat)
    (xrates : Option Nat) (txrate : Nat) : Guarded δ (UInt8 × Rateset × Nat) := do
  let n ← readAt frame (rates + 1)
  let bs ← readN frame (rates + 2) n.toNat
  let rsRates ← vecCopy (Vector.replicate rateMaxsize 0) 0 bs
  let rs ← addXrates frame { rsNrates := n, rsRates := rsRates } xrates
  fixRate ctx flags rs txrate

/-! ## ERP stations -/

/-- The rates in a set. -/
def Rateset.rates (rs : Rateset) : List UInt8 := rs.rsRates.toList.take rs.rsNrates.toNat

/-- The table of `ieee80211_iserp_rateset`, in units of 500 kb/s. -/
def erpRates : List UInt8 := [2, 4, 11, 22, 12, 24, 48]

/-- The inner loop of `ieee80211_iserp_rateset`, which gives up at the first rate that is higher. -/
def iserpFind (rate : UInt8) : List UInt8 → Bool
  | [] => false
  | r :: rates =>
    if rate = rv r then true
    else if rv r > rate then false
    else iserpFind rate rates

/-- `ieee80211_iserp_rateset`. -/
def iserpRateset (rs : Rateset) : Bool :=
  if rs.rsNrates.toNat < erpRates.length then false
  else erpRates.all fun rate => iserpFind rate rs.rates

end Net80211
