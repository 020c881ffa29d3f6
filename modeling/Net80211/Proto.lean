import Net80211.Node

/-!
# The state machine of a station

`ieee80211_newstate` of `net80211/ieee80211_proto.c` with what it calls of
`net80211/ieee80211_node.c` and `net80211/ieee80211_output.c`, in station mode.
Of the management frames a transition sends, only the deauthentication has an
effect on a node, and only if there is an mbuf for it (`mbuf`). The node that
`ieee80211_reset_bss` allocates is `fresh`.
-/

namespace Net80211

open Crypto

/-- `IEEE80211_FC0_SUBTYPE_AUTH`. -/
def fc0SubtypeAuth : Int := 0xb0

/-- `IEEE80211_FC0_SUBTYPE_DEAUTH`. -/
def fc0SubtypeDeauth : Int := 0xc0

/-- `IEEE80211_FC0_SUBTYPE_DISASSOC`. -/
def fc0SubtypeDisassoc : Int := 0xa0

section Proto

variable {ν : Type} [DecidableEq ν]

/-- `ieee80211_sta_leave`. -/
def staLeave (ic : Ic ν) (n : ν) : Ic ν := nodeCleanup ic n

/-- `ieee80211_send_mgmt` of a deauthentication: the port is closed. -/
def sendMgmtDeauth (ic : Ic ν) (n : ν) (mbuf : Bool) : Ic ν :=
  if mbuf then nodeUnauthorize ic n else ic

/-- `ieee80211_reset_bss`. -/
def resetBss (ic : Ic ν) (fresh : ν) : Ic ν :=
  let obss := ic.icBss
  let ic := allocNode { ic with icScan := [] } fresh ic.icMyaddr
  copyBss { ic with icBss := fresh } fresh obss

/-- `ieee80211_begin_scan`: a reset drops the nodes seen so far. -/
def beginScan (ic : Ic ν) (reset : Int) : Ic ν :=
  if reset ≠ 0 then { ic with icScan := [] } else ic

/-- `ieee80211_newstate`. -/
def newstate (ic : Ic ν) (nstate : State) (arg : Int) (fresh : ν) (mbuf : Bool) : Ic ν :=
  let ostate := ic.icState
  let ic := { ic with icState := nstate }
  let ni := ic.icBss
  match nstate with
  | .init =>
    match ostate with
    | .init => ic
    | .run => resetBss (staLeave ic ni) fresh
    | .assoc => resetBss (sendMgmtDeauth ic ni mbuf) fresh
    | .scan | .auth => resetBss ic fresh
  | .scan =>
    match ostate with
    | .init => beginScan ic arg
    | .scan => ic
    | .run =>
      let ic := staLeave ic ni
      if ic.icRoamingAuto then beginScan ic arg else ic
    | .auth | .assoc => if ic.icRoamingAuto then beginScan ic arg else ic
  | .auth =>
    match ostate with
    | .run =>
      if arg = fc0SubtypeAuth then { ic with icState := ostate }
      else if arg = fc0SubtypeDeauth then staLeave ic ni
      else ic
    | _ => ic
  | .assoc =>
    match ostate with
    | .run => staLeave ic ni
    | _ => ic
  | .run => if (ic.icNode ni).niAuthmode ≠ .ieee8021x then nodeAuthorize ic ni else ic

/-- The state that `ieee80211_recv_mgmt_deauth` asks for, and why. `len` is what
the frame has behind its header. -/
def recvMgmtDeauth (ic : Ic ν) (addr1 : List UInt8) (len : Nat) : Option (State × Int) :=
  if ic.icState = .scan then none
  else if len < 2 then none
  else if addr1 ≠ ic.icMyaddr then none
  else some (.auth, fc0SubtypeDeauth)

/-- `ieee80211_recv_mgmt_disassoc`. -/
def recvMgmtDisassoc (ic : Ic ν) (addr1 : List UInt8) (len : Nat) : Option (State × Int) :=
  if ic.icState ≠ .run ∧ ic.icState ≠ .assoc ∧ ic.icState ≠ .auth then none
  else if len < 2 then none
  else if addr1 ≠ ic.icMyaddr then none
  else some (.assoc, fc0SubtypeDisassoc)

end Proto

end Net80211
