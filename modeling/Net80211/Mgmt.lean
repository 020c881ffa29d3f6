import Net80211.Output
import Net80211.Proto

/-!
# Management frames of a station

The frames that `ieee80211_newstate` of `net80211/ieee80211_proto.c` sends in
station mode, as `ieee80211_send_mgmt`, `ieee80211_mgmt_output` and
`ieee80211_send_setup` of `net80211/ieee80211_output.c` build and queue them.

`ieee80211_send_mgmt` gets its node, which is `ic_bss` here. What it puts into an
association request is a parameter (`assocReq`), and so is the challenge text a node
holds. Probe requests are left out: they go to no node, and only `S_SCAN` sends them.
The timer for the answer is left out too, nothing here waits for one.

The queue holds the frames as values; `sendMgmt` is one of them in its mbuf, from
`ieee80211_getmgtframe` to `IF_ENQUEUE`.
-/

namespace Net80211

open Crypto

/-- A frame of `ic_mgtq`: its node and the fields of `struct ieee80211_frame`, and what
is behind them. -/
structure MgmtFrame (ν : Type) where
  ni : ν
  iFc0 : UInt8
  iFc1 : UInt8
  iAddr1 : List UInt8
  iAddr2 : List UInt8
  iAddr3 : List UInt8
  iSeq : UInt16
  body : List UInt8
  deriving DecidableEq, Repr

/-- The calls of `ieee80211_send_mgmt`. -/
inductive MgmtSend where
  | auth (arg : Nat)
  | deauth (reason : UInt16)
  | disassoc (reason : UInt16)
  | assocReq
  deriving DecidableEq, Repr

-- IEEE80211_AUTH_SHARED_REQUEST, _CHALLENGE, _RESPONSE
def authSharedRequest : Nat := 1
def authSharedChallenge : Nat := 2
def authSharedResponse : Nat := 3

/-- `htole16`, least significant octet first. -/
def htole16 (x : UInt16) : List UInt8 := [x.toUInt8, (x >>> 8).toUInt8]

variable {ν : Type}

/-- What the frames hold that is not modelled further. -/
structure MgmtData (ν : Type) where
  niChallenge : ν → Option (List UInt8)
  assocReq : List UInt8

/-- The body of an authentication frame. The upper half of `arg` is the status. -/
def authBody (ic : Ic ν) (challenge : Option (List UInt8)) (arg : Nat) : List UInt8 :=
  let status := arg / 2 ^ 16
  let arg := arg % 2 ^ 16
  let hasChallenge := (arg = authSharedChallenge ∨ arg = authSharedResponse) ∧ challenge.isSome
  let isSharedKey := hasChallenge ∨ arg ≥ authSharedResponse ∨
    arg = authSharedRequest ∧ (ic.icNode ic.icBss).niAuthmode = .shared
  htole16 (if isSharedKey then 1 else 0) ++ htole16 (UInt16.ofNat arg) ++
  htole16 (UInt16.ofNat status) ++
    if hasChallenge ∧ status = 0 then [16, 128] ++ challenge.getD [] else []

/-- `ieee80211_send_mgmt`: the subtype and the body. -/
def mgmtBody (ic : Ic ν) (d : MgmtData ν) (n : ν) : MgmtSend → UInt8 × List UInt8
  | .auth arg => (0xb0, authBody ic (d.niChallenge n) arg)
  | .deauth reason => (0xc0, htole16 reason)
  | .disassoc reason => (0xa0, htole16 reason)
  | .assocReq => (0x00, d.assocReq)

/-- `ieee80211_mgmt_output`, without the encryption flag that only an answer to a
challenge has: the header of `ieee80211_send_setup` in front. -/
def mgmtOutput (ic : Ic ν) (n : ν) (subtype : UInt8) (body : List UInt8) : MgmtFrame ν :=
  let ni := ic.icNode n
  { ni := n, iFc0 := subtype, iFc1 := 0
    iAddr1 := ni.niMacaddr, iAddr2 := ic.icMyaddr, iAddr3 := ni.niBssid
    iSeq := ni.niTxseqs 0 <<< 4, body := body }

/-- The calls of `ieee80211_send_mgmt` that a transition makes. -/
def newstateSends (ic : Ic ν) (nstate : State) (arg : Int) : List MgmtSend :=
  match nstate with
  | .init =>
    match ic.icState with
    | .run => [.disassoc 8]
    | .assoc => [.deauth 3]
    | .init | .scan | .auth => []
  | .scan | .run => []
  | .auth =>
    match ic.icState with
    | .init | .scan => [.auth 1]
    | .auth | .assoc => if arg = fc0SubtypeAuth then [.auth 2] else []
    | .run =>
      if arg = fc0SubtypeAuth then [.auth 2]
      else if arg = fc0SubtypeDeauth then if ic.icRoamingAuto then [.auth 1] else []
      else []
  | .assoc =>
    match ic.icState with
    | .init | .scan | .assoc => []
    | .auth => [.assocReq]
    | .run => if ic.icRoamingAuto then [.assocReq] else []

/-- `ic_mgtq` after a transition. A frame that there is no mbuf for is not sent, and
the way to `S_INIT` drains the queue unless it starts there. -/
def newstateMgtq (ic : Ic ν) (d : MgmtData ν) (mgtq : List (MgmtFrame ν)) (nstate : State)
    (arg : Int) (mbuf : Bool) : List (MgmtFrame ν) :=
  let frames := (newstateSends ic nstate arg).map fun send =>
    mgmtOutput ic ic.icBss (mgmtBody ic d ic.icBss send).1 (mgmtBody ic d ic.icBss send).2
  if nstate = .init ∧ ic.icState ≠ .init then []
  else if mbuf then mgtq ++ frames else mgtq

/-! ## The mbuf of a frame -/

def mhlen : Nat := 128

/-- `M_LINK0`. -/
def mLink0 : UInt32 := 0x000010

/-- `ieee80211_getmgtframe`: an mbuf for `pktlen` octets, with room for the header in front. -/
def getmgtframe (h : Heap) (pktlen : Nat) : Heap × Option Mbuf :=
  let len := (24 + pktlen + 3) / 4 * 4
  match mGetImpl h true with
  | (h, none) => (h, none)
  | (h, some m) =>
    let m := if len ≤ mhlen then mAlign m len else m
    (h, some { m with mData := m.mData + 24 })

/-- The answer to a challenge is to be encrypted. -/
def mgmtLink0 (challenge : Option (List UInt8)) : MgmtSend → Bool
  | .auth arg => arg % 2 ^ 16 = authSharedResponse && challenge.isSome && arg / 2 ^ 16 = 0
  | .deauth _ | .disassoc _ | .assocReq => false

/-- The header of `ieee80211_send_setup`. -/
def MgmtFrame.header (f : MgmtFrame ν) : List UInt8 :=
  [f.iFc0, f.iFc1, 0, 0] ++ f.iAddr1 ++ f.iAddr2 ++ f.iAddr3 ++ htole16 f.iSeq

/-- What all frames of `ieee80211_send_mgmt` go through, up to the queue: an mbuf for `pktlen`
octets, the body, and in `ieee80211_mgmt_output` the header in front of it. `link0` asks for
encryption, which a node without challenge text does not get. -/
def mgmtMbuf (h : Heap) (ic : Ic ν) (n : ν) (challenge : Option (List UInt8)) (subtype : UInt8)
    (pktlen : Nat) (body : List UInt8) (link0 : Bool) : Heap × Option (List Mbuf) :=
  match getmgtframe h pktlen with
  | (h, none) => (h, none)
  | (h, some m) =>
    let m := { m.put 0 body with mLen := body.length, pkthdrLen := body.length }
    let m := if link0 then { m with mFlags := m.mFlags ||| mLink0 } else m
    match mPrepend h [m] 24 with
    | (h, some (m :: ms)) =>
      let m := m.put 0 (mgmtOutput ic n subtype body).header
      let m := if m.mFlags &&& mLink0 != 0 && challenge.isSome then
          { m.put 1 [m.get 1 ||| fc1Wep] with mFlags := m.mFlags &&& ~~~mLink0 }
        else m
      (h, some (m :: ms))
    | (h, _) => (h, none)

/-- `ieee80211_send_mgmt` as far as the frame goes. An association request is allocated with
`pktlen`, the others with their size. -/
def sendMgmt (h : Heap) (ic : Ic ν) (d : MgmtData ν) (n : ν) (pktlen : Nat) (send : MgmtSend) :
    Heap × Option (List Mbuf) :=
  let (subtype, body) := mgmtBody ic d n send
  mgmtMbuf h ic n (d.niChallenge n) subtype (if send = .assocReq then pktlen else body.length) body
    (mgmtLink0 (d.niChallenge n) send)

end Net80211
