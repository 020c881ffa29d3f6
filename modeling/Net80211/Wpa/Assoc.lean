import Net80211.Proto
import Net80211.Wpa.Driver

/-!
# Association

`freertos_associate`, `freertos_deauthenticate` and `freertos_set_supp_port` of
`port/wpa/driver_net80211.c`, and the station they run in.

The drivers do not change the state where `ieee80211_new_state` is called: urtwn
puts the request into its command queue, iwm into a workqueue. So a request joins
`requests`, and `transition` carries out the first one. iwm drops a request of an
older generation, and the frames and timers that ask for a state without looking
at the port may ask for any (`request`).

`granted` says whether the port was opened for the current association: by a
pairwise key that `freertos_set_key` installed or by `freertos_set_supp_port`,
after the last join and the last time `S_AUTH` was entered. No code reads it.
-/

namespace Net80211.Wpa

open Crypto

inductive WpaCipher where
  | none
  | tkip
  | ccmp
  | other
  deriving DecidableEq, Repr

/-- `struct wpa_driver_associate_params`. -/
structure AssociateParams where
  ssid : Option (List UInt8)
  bssid : Option (List UInt8)
  wpaIe : Option (List UInt8)
  pairwiseSuite : WpaCipher
  groupSuite : WpaCipher
  dropUnencrypted : Bool
  deriving DecidableEq, Repr

/-- `sizeof(ic->ic_des_essid)`. -/
def nwidLen : Nat := 32

/-- `WLAN_EID_RSN`. -/
def eidRsn : UInt8 := 48

/-- Does the SSID pass the check? -/
def AssociateParams.ssidOk (p : AssociateParams) : Bool :=
  match p.ssid with
  | none => false
  | some ssid => 0 < ssid.length && ssid.length ≤ nwidLen

/-- The information element, if it has an octet. -/
def AssociateParams.optIe (p : AssociateParams) : Option (List UInt8) :=
  match p.wpaIe with
  | some (b :: bs) => some (b :: bs)
  | _ => none

def AssociateParams.privacy (p : AssociateParams) : Bool :=
  p.pairwiseSuite ≠ .none || p.groupSuite ≠ .none

/-- What `freertos_associate` makes of `ic_flags`. -/
def AssociateParams.flags (p : AssociateParams) : IcFlags :=
  { privacy := p.privacy
    wpa1 := p.optIe.any fun ie => ie.headD 0 ≠ eidRsn
    wpa2 := p.optIe.any fun ie => ie.headD 0 = eidRsn
    dropunenc := p.dropUnencrypted
    desbssid := p.bssid.isSome }

/-- A station: the interface, the states asked for, and the history of the port. -/
structure Sta (ν : Type) where
  ic : Ic ν
  requests : List (State × Int)
  granted : Bool

inductive StaOp (ν : Type) where
  | associate (p : AssociateParams) (mem : Bool)
  | deauthenticate (reason : Int)
  | setKey (p : SetKeyParams) (attach : Bool × Bool)
  | setSuppPort (authorized : Bool)
  | recvDeauth (addr1 : List UInt8) (len : Nat)
  | recvDisassoc (addr1 : List UInt8) (len : Nat)
  | request (nstate : State) (arg : Int)
  | transition (fresh : ν) (mbuf : Bool)
  | drop
  | scanAdd (n : ν) (macaddr : List UInt8)
  | scanRemove (n : ν)

variable {ν : Type} [DecidableEq ν]

/-- `ieee80211_new_state`. -/
def newState (s : Sta ν) (r : State × Int) : Sta ν := { s with requests := s.requests ++ [r] }

/-- `ieee80211_sta_join`: a new association begins. -/
def staJoin (s : Sta ν) (selbs : ν) : Sta ν :=
  let ic := copyBss { s.ic with icBss := selbs } selbs s.ic.icBss
  newState { s with ic := ic, granted := false } (.auth, -1)

/-- The node the call will join: there is memory for the element and the BSS is in
the scan table. -/
def associateTarget (ic : Ic ν) (p : AssociateParams) (mem : Bool) : Option ν :=
  if p.optIe.isSome && !mem then none
  else
    match p.bssid with
    | none => none
    | some bssid => findNode ic bssid

/-- `freertos_associate` and what it returns. The flags are set before the checks
that make it fail. -/
def associate (s : Sta ν) (p : AssociateParams) (mem : Bool) : Sta ν × Int :=
  if p.ssidOk then
    let ic := { s.ic with icFlags := p.flags }
    match associateTarget ic p mem with
    | none => ({ s with ic := ic }, -1)
    | some n =>
      let authmode : Authmode := if ic.icFlags.privacy then .ieee8021x else .open
      let ic := ic.setNode ic.icBss { ic.icNode ic.icBss with niAuthmode := authmode }
      (staJoin { s with ic := ic } n, 0)
  else (s, -1)

/-- `freertos_deauthenticate`. -/
def deauthenticate (s : Sta ν) (reason : Int) : Sta ν := newState s (.init, reason)

/-- `freertos_set_supp_port`. -/
def setSuppPort (s : Sta ν) (authorized : Bool) : Sta ν :=
  if authorized then { s with ic := nodeAuthorize s.ic s.ic.icBss, granted := true }
  else { s with ic := nodeUnauthorize s.ic s.ic.icBss }

/-- `freertos_set_key`, with its mark in the history. -/
def staSetKey (s : Sta ν) (p : SetKeyParams) (attach : Bool × Bool) : Sta ν :=
  let (ic, ret) := setKey s.ic p attach
  { s with
    ic := ic
    granted := if ret = 0 ∧ p.isGroup = false ∧ p.alg ≠ .none then true else s.granted }

/-- The first request is carried out. -/
def transition (s : Sta ν) (fresh : ν) (mbuf : Bool) : Option (Sta ν) :=
  match s.requests with
  | [] => none
  | (nstate, arg) :: requests =>
    if fresh = s.ic.icBss then none
    else
      let ic := newstate s.ic nstate arg fresh mbuf
      some
        { ic := ic, requests := requests
          granted := if nstate = .auth ∧ ic.icState = .auth then false else s.granted }

def staStep (s : Sta ν) : StaOp ν → Option (Sta ν)
  | .associate p mem => some (associate s p mem).1
  | .deauthenticate reason => some (deauthenticate s reason)
  | .setKey p attach => some (staSetKey s p attach)
  | .setSuppPort authorized => some (setSuppPort s authorized)
  | .recvDeauth addr1 len => some ((recvMgmtDeauth s.ic addr1 len).elim s (newState s))
  | .recvDisassoc addr1 len => some ((recvMgmtDisassoc s.ic addr1 len).elim s (newState s))
  | .request nstate arg => some (newState s (nstate, arg))
  | .transition fresh mbuf => transition s fresh mbuf
  | .drop => some { s with requests := s.requests.tail }
  | .scanAdd n macaddr =>
    if n ∈ s.ic.icScan ∨ n = s.ic.icBss then none
    else some { s with ic := allocNode s.ic n macaddr }
  | .scanRemove n => some { s with ic := { s.ic with icScan := s.ic.icScan.erase n } }

/-! ## The element of the association request -/

/-- A station with `ic_opt_ie`, the element that goes into an association request. -/
structure Link (ν : Type) extends Sta ν where
  icOptIe : Option (List UInt8)

/-- `freertos_associate` with all it changes: the element is copied before the BSS is
looked up, and the old one stays where there is no memory for the copy. -/
def Link.associate (s : Link ν) (p : AssociateParams) (mem : Bool) : Link ν × Int :=
  if p.ssidOk then
    let s := { s with ic := { s.ic with icFlags := p.flags } }
    if p.optIe.isSome && !mem then (s, -1)
    else
      let s := { s with icOptIe := p.optIe }
      match p.bssid with
      | none => (s, -1)
      | some bssid =>
        match findNode s.ic bssid with
        | none => (s, -1)
        | some n =>
          let authmode : Authmode := if s.ic.icFlags.privacy then .ieee8021x else .open
          let ni := { s.ic.icNode s.ic.icBss with niAuthmode := authmode }
          ({ s with toSta := staJoin { s.toSta with ic := s.ic.setNode s.ic.icBss ni } n }, 0)
  else (s, -1)

end Net80211.Wpa
