import Net80211.Output

/-!
# Data frames on their way in

`ieee80211_input`, `ieee80211_input_data`, `ieee80211_defrag`, `ieee80211_decap`
and `ieee80211_deliver_data` of `net80211/ieee80211_input.c`, and behind them
`if_percpuq_enqueue` of `port/net/embox/bsd_ifnet.c`, which calls the hooks of
the port.

A node keeps its receive state (`NodeRx`) beside what `Node` holds of it. `Rx` is
the interface with its nodes and what reception reads and writes: the hooks, the
bridge queue of an access point, and what was handed up. Statistics, the signal
strength and the listeners (`bpf_mtap`) are left out, and so is the VLAN tag,
which the hooks do not see. `ALIGNED_POINTER` is not defined in this port. A frame
that the cipher code does not survive is `none`, as there.

Management and control frames go to functions that are not modelled here: `input`
returns them.
-/

namespace Net80211

open Lib Crypto Function

/-- The receive state of a node; `niTable` says whether it is in a table, and
`niRxfrag` is `ni_rxfrag[0]`, the only entry the code uses. -/
structure NodeRx where
  niTable : Bool
  niAssocid : Nat
  niPwrMgt : Bool
  niRxseqs : Nat → UInt16
  niRxfragstamp : UInt32
  niRxfrag : Option (List Mbuf)

/-- A cleared node, in its table. -/
def nodeRxInit : NodeRx :=
  { niTable := true, niAssocid := 0, niPwrMgt := false, niRxseqs := fun _ => 0
    niRxfragstamp := 0, niRxfrag := none }

/-! ## Reassembly -/

/-- The new fragment is in order and related to the stored ones: the sequence
control field is the next one as a number, and the addresses are the same. -/
def defragFollows (mfrag : List Mbuf) (wh : Wh) : Bool :=
  match mfrag with
  | [] => false
  | lm :: _ =>
    (whSeq wh).toNat == (whSeq lm.get).toNat + 1 && window wh 4 6 == window lm.get 4 6 &&
      window wh 10 6 == window lm.get 10 6

/-- `m_cat`, and the length that `ieee80211_defrag` adds to the packet header. -/
def defragCat (mfrag ms : List Mbuf) : List Mbuf :=
  let mlen := match ms with
    | [] => 0
    | m :: _ => m.pkthdrLen
  match mCat mfrag ms with
  | [] => []
  | f :: fs => { f with pkthdrLen := f.pkthdrLen + mlen } :: fs

/-- Strip the header of a fragment, append the rest, and note its number in the
header of the first one. -/
def defragJoin (mfrag : List Mbuf) (m : Mbuf) (ms : List Mbuf) (hdrspace : Nat) : List Mbuf :=
  match defragCat mfrag (mAdj (m :: ms) hdrspace) with
  | [] => []
  | f :: fs => f.put 22 [m.get 22, m.get 23] :: fs

/-- The end of `ieee80211_defrag`: more to come, or the frame is complete. -/
def defragEnd (ticks : UInt32) (ni : NodeRx) (moreFrag : Bool) (mfrag : List Mbuf) :
    NodeRx × Option (List Mbuf) :=
  if moreFrag then ({ ni with niRxfragstamp := ticks, niRxfrag := some mfrag }, none)
  else (ni, some mfrag)

/-- `ieee80211_defrag`. -/
def defrag (h : Heap) (ticks : UInt32) (ni : NodeRx) (m : Mbuf) (ms : List Mbuf) (hdrspace : Nat) :
    Heap × NodeRx × Option (List Mbuf) :=
  let moreFrag := m.get 1 &&& fc1MoreFrag != 0
  let fragno := seqFrag (whSeq m.get)
  if !moreFrag && fragno == 0 && ni.niRxfrag.isNone then (h, ni, some (m :: ms))
  else if !ni.niTable then (mFreem h (m :: ms), ni, none)
  else
    let (h, mfrag) := match ni.niRxfrag with
      | none => (h, none)
      | some mfrag =>
        if defragFollows mfrag m.get then (h, some mfrag) else (mFreem h mfrag, none)
    let ni := { ni with niRxfrag := none }
    match mfrag with
    | none =>
      if fragno != 0 then (mFreem h (m :: ms), ni, none)
      else (h, defragEnd ticks ni moreFrag (m :: ms))
    | some mfrag => (h, defragEnd ticks ni moreFrag (defragJoin mfrag m ms hdrspace))

/-- `ieee80211_timeout_scan_candidates` and `ieee80211_timeout_stations`: fragments
are given up a second after the last one. -/
def rxfragTimeout (hz ticks : UInt32) (h : Heap) (ni : NodeRx) : Heap × NodeRx :=
  match ni.niRxfrag with
  | none => (h, ni)
  | some mfrag =>
    if ticks > ni.niRxfragstamp + hz then (mFreem h mfrag, { ni with niRxfrag := none })
    else (h, ni)

/-- What `node_cleanup` does about the fragments. -/
def rxfragCleanup (h : Heap) (ni : NodeRx) : Heap × NodeRx :=
  match ni.niRxfrag with
  | none => (h, ni)
  | some mfrag => (mFreem h mfrag, { ni with niRxfrag := none })

/-! ## Decapsulation -/

/-- The LLC and SNAP header of an Ethernet frame, without its type. -/
def llcSnap : List UInt8 := [0xaa, 0xaa, 0x03, 0, 0, 0]

/-- Destination and source of a frame, by its direction. -/
def decapAddrs (wh : Wh) : List UInt8 :=
  let dir := wh 1 &&& fc1DirMask
  if dir == fc1DirNods then window wh 4 6 ++ window wh 10 6
  else if dir == fc1DirTods then window wh 16 6 ++ window wh 10 6
  else if dir == fc1DirFromds then window wh 4 6 ++ window wh 16 6
  else window wh 16 6 ++ window wh 24 6

/-- `ieee80211_decap`. A frame without SNAP header keeps its LLC header, behind
its length. -/
def decap (h : Heap) (m : Mbuf) (ms : List Mbuf) (hdrlen : Nat) : Heap × Option (List Mbuf) :=
  match pullupTo h m ms (hdrlen + 8) with
  | (h, none) => (h, none)
  | (h, some (m, ms)) =>
    let addrs := decapAddrs m.get
    let snap := window m.get hdrlen 6 == llcSnap
    match mAdj (m :: ms) (if snap then hdrlen + 8 - 14 else hdrlen - 14) with
    | [] => (h, none)
    | m :: ms =>
      let m := m.put 0 addrs
      let len := UInt16.ofNat (m.pkthdrLen - 14)
      let m := if snap then m else m.put 12 [(len >>> 8).toUInt8, len.toUInt8]
      (h, some (m :: ms))

/-! ## The interface -/

/-- What the hooks of the port get: the source address and the payload of an EAPOL
frame, or a whole Ethernet frame. -/
inductive RxUp where
  | eapol (src buf : List UInt8)
  | data (frame : List UInt8)
  deriving DecidableEq, Repr

/-- What an access point does about a frame besides receiving it: the frames of
`ieee80211_send_error` and `IEEE80211_SEND_MGMT`, and `ieee80211_node_pwrsave`. -/
inductive RxReply (ν : Type) where
  | deauth (addr : List UInt8)
  | disassoc (n : ν)
  | pwrsave (n : ν) (enable : Bool)
  deriving DecidableEq, Repr

/-- The interface as reception sees it: `IEEE80211_F_SCAN`, `IEEE80211_F_NOBRIDGE`
and `IFF_SIMPLEX`, the station table, which hooks are set, the queue of frames to
send and the clock; what was handed up and replied. -/
structure Rx (ν : Type) where
  heap : Heap
  ic : Ic ν
  node : ν → NodeRx
  icSta : List ν
  scan : Bool
  nobridge : Bool
  simplex : Bool
  eapolRx : Bool
  dataRx : Bool
  ticks : UInt32
  ifSnd : List (List Mbuf)
  replies : List (RxReply ν)
  up : List RxUp

variable {ν : Type} [DecidableEq ν]

def Rx.setNode (rx : Rx ν) (n : ν) (ni : NodeRx) : Rx ν :=
  { rx with node := update rx.node n ni }

/-- `if_percpuq_enqueue`. The hooks get what the first mbuf holds. -/
def ifPercpuqEnqueue (rx : Rx ν) (m : Mbuf) (ms : List Mbuf) : Rx ν :=
  let eh := etherHeader m
  let up :=
    if eh.etherType == ethertypePae && rx.eapolRx then
      [.eapol eh.etherShost (window m.get 14 (m.mLen - 14))]
    else if rx.dataRx then [.data m.bytes]
    else []
  { rx with up := rx.up ++ up, heap := mFreem rx.heap (m :: ms) }

/-- The bridge of an access point: what goes back to the air, and what is left for
the host. -/
def bridge (rx : Rx ν) (m : Mbuf) (ms : List Mbuf) : Rx ν × Option (Mbuf × List Mbuf) :=
  let eh := etherHeader m
  if isMulticast (eh.etherDhost.headD 0) then
    match mCopypacket rx.heap m with
    | (h, none) => ({ rx with heap := h }, some (m, ms))
    | (h, some m1) =>
      ({ rx with heap := h, ifSnd := rx.ifSnd ++ [[{ m1 with mFlags := m1.mFlags ||| mMcast }]] },
        some (m, ms))
  else
    match rx.icSta.find? fun n => (rx.ic.icNode n).niMacaddr = eh.etherDhost with
    | none => (rx, some (m, ms))
    | some sta =>
      if (rx.ic.icNode sta).niAuth && sta ≠ rx.ic.icBss then
        ({ rx with ifSnd := rx.ifSnd ++ [m :: ms] }, none)
      else (rx, some (m, ms))

/-- `ieee80211_deliver_data`. -/
def deliverData (rx : Rx ν) (m : Mbuf) (ms : List Mbuf) : Rx ν :=
  let (rx, left) :=
    if rx.ic.icOpmode = .hostap && !rx.nobridge then bridge rx m ms else (rx, some (m, ms))
  match left with
  | none => rx
  | some (m, ms) => ifPercpuqEnqueue rx m ms

/-- Does the port let a frame pass? Before authorization only EAPOL frames do, and
afterwards, where `IEEE80211_F_DROPUNENC` is set, nothing else in the clear. -/
def portPasses (ic : Ic ν) (n : ν) (protect : Bool) (eh : EtherHeader) : Bool :=
  eh.etherType == ethertypePae ||
    (ic.icNode n).niAuth && (!ic.icFlags.dropunenc || protect)

/-- The fragmentation step of `ieee80211_input_data`: unicast frames go through
`ieee80211_defrag`. -/
def inputDefrag (rx : Rx ν) (n : ν) (m : Mbuf) (ms : List Mbuf) (hdrspace : Nat) :
    Rx ν × Option (List Mbuf) :=
  if isMulticast (m.get 4) then (rx, some (m :: ms))
  else
    match defrag rx.heap rx.ticks (rx.node n) m ms hdrspace with
    | (h, ni, m) => ({ rx.setNode n ni with heap := h }, m)

/-- The end of `ieee80211_input_data`: decapsulation, the port and delivery. `protect`
says whether the frame came with a key. The last component is `*mp`, which the
caller frees. -/
def inputDeliver (rx : Rx ν) (n : ν) (protect : Bool) (m : Mbuf) (ms : List Mbuf)
    (hdrspace : Nat) : Rx ν × Option (List Mbuf) :=
  match decap rx.heap m ms hdrspace with
  | (h, none) | (h, some []) => ({ rx with heap := h }, none)
  | (h, some (m :: ms)) =>
    let rx := { rx with heap := h }
    if portPasses rx.ic n protect (etherHeader m) then (deliverData rx m ms, none)
    else (rx, some (m :: ms))

/-- `ieee80211_input_data` behind the cipher. -/
def inputMsdu (rx : Rx ν) (n : ν) (protect : Bool) (m : Mbuf) (ms : List Mbuf) (hdrspace : Nat) :
    Rx ν × Option (List Mbuf) :=
  match inputDefrag rx n m ms hdrspace with
  | (rx, none) | (rx, some []) => (rx, none)
  | (rx, some (m :: ms)) => inputDeliver rx n protect m ms hdrspace

/-! ## Data frames -/

/-- The first part of `ieee80211_input_data`, by the operation mode: does the frame
go on? An access point answers a station that is not associated. -/
def inputDataOpmode (rx : Rx ν) (n : ν) (wh : Wh) : Rx ν × Bool :=
  let dir := wh 1 &&& fc1DirMask
  match rx.ic.icOpmode with
  | .sta =>
    -- What we sent to a group comes back from the access point.
    (rx, dir == fc1DirFromds &&
      !(rx.simplex && isMulticast (wh 4) && window wh 16 6 == rx.ic.icMyaddr))
  | .ibss | .ahdemo => (rx, dir == fc1DirNods)
  | .hostap =>
    let ni := rx.node n
    let pwr := wh 1 &&& fc1PwrMgt != 0
    if dir != fc1DirTods then (rx, false)
    else if n = rx.ic.icBss then
      ({ rx with replies := rx.replies ++ [.deauth (window wh 10 6)] }, false)
    else if ni.niAssocid = 0 then ({ rx with replies := rx.replies ++ [.disassoc n] }, false)
    else if pwr != ni.niPwrMgt then
      ({ rx.setNode n { ni with niPwrMgt := pwr } with
          replies := rx.replies ++ [.pwrsave n pwr] }, true)
    else (rx, true)
  | .monitor => (rx, false)

/-- What the cipher step of `ieee80211_input_data` leaves. -/
inductive RxOpened (ν : Type) where
  | discard (frame : Option (List Mbuf))
  | pass (key : Option (KeySlot ν)) (m : Mbuf) (ms : List Mbuf)

/-- The privacy requirements: a protected frame is decrypted, and then looks like a
clear one. -/
def inputDecrypt (E : BlockCipher) (stack : Nat → UInt8) (rx : Rx ν)
    (n : ν) (m : Mbuf) (ms : List Mbuf) (hdrspace : Nat) : Option (Rx ν × RxOpened ν) :=
  if m.get 1 &&& fc1Wep == 0 then some (rx, .pass none m ms)
  else if !rx.ic.icFlags.privacy then some (rx, .discard (some (m :: ms)))
  else
    match cryptoDecap E stack rx.heap rx.ic.icKeys n m ms hdrspace with
    | none => none
    | some r =>
      let rx := { rx with heap := r.heap, ic := { rx.ic with icKeys := r.keys } }
      match r.key, r.frame with
      | some s, some (m :: ms) =>
        some (rx, .pass (some s) (m.put 1 [m.get 1 &&& ~~~fc1Wep]) ms)
      | _, frame => some (rx, .discard frame)

/-- `ieee80211_input_data` up to the fragmentation step. -/
def inputOpen (E : BlockCipher) (stack : Nat → UInt8) (rx : Rx ν) (n : ν)
    (m : Mbuf) (ms : List Mbuf) : Option (Rx ν × RxOpened ν) :=
  let hdrspace := hdrspace rx.ic.icKeys.datapad m.get
  match pullupTo rx.heap m ms hdrspace with
  | (h, none) => some ({ rx with heap := h }, .discard none)
  | (h, some (m, ms)) =>
    match inputDataOpmode { rx with heap := h } n m.get with
    | (rx, false) => some (rx, .discard (some (m :: ms)))
    | (rx, true) => inputDecrypt E stack rx n m ms hdrspace

/-- `ieee80211_input_data`. The last component is `*mp`, which the caller frees. -/
def inputData (E : BlockCipher) (stack : Nat → UInt8) (rx : Rx ν) (n : ν)
    (m : Mbuf) (ms : List Mbuf) : Option (Rx ν × Option (List Mbuf)) :=
  let hdrspace := hdrspace rx.ic.icKeys.datapad m.get
  match inputOpen E stack rx n m ms with
  | none => none
  | some (rx, .discard frame) => some (rx, frame)
  | some (rx, .pass key m ms) => some (inputMsdu rx n key.isSome m ms hdrspace)

/-! ## All frames -/

/-- Why `ieee80211_input` drops a frame. -/
inductive RxDrop where
  | monitor
  | tooshort
  | badversion
  | wrongbss
  | nodealloc
  | dup
  | badtype
  deriving DecidableEq, Repr

/-- The types of a frame, `IEEE80211_FC0_TYPE_*`. -/
def fc0TypeMask : UInt8 := 0x0c
def fc0TypeMgt : UInt8 := 0x00
def fc0TypeCtl : UInt8 := 0x04
def fc0TypeData : UInt8 := 0x08

/-- `M_HASFCS`. -/
def mHasfcs : UInt32 := 0x002000

/-- `ieee80211_fakeup_adhoc_node`: a node for a new member of the IBSS, under the
name `n`. -/
def fakeupAdhocNode (rx : Rx ν) (n : ν) (macaddr : List UInt8) : Rx ν :=
  let bss := rx.ic.icNode rx.ic.icBss
  let ni : Node :=
    { niMacaddr := macaddr, niBssid := bss.niBssid, niAuth := true, niQos := false
      niAuthmode := bss.niAuthmode, niTxseqs := fun _ => 0 }
  { rx with
    ic := (rx.ic.setNode n ni).setKey (.ucast n) resetkey
    node := update rx.node n nodeRxInit
    icSta := n :: rx.icSta }

/-- Is the frame for us, and which node is it from? `adhoc` is the name that a new
node would get, `none` where the allocation fails. -/
def inputBss (rx : Rx ν) (adhoc : Option ν) (n : ν) (m : Mbuf) : Rx ν × Except RxDrop ν :=
  let wh := m.get
  let type := wh 0 &&& fc0TypeMask
  match rx.ic.icOpmode with
  | .sta =>
    if window wh 10 6 ≠ (rx.ic.icNode n).niBssid then (rx, .error .wrongbss)
    else if !isMulticast (wh 4) && window wh 4 6 != rx.ic.icMyaddr then (rx, .error .wrongbss)
    else (rx, .ok n)
  | .ibss | .ahdemo | .hostap =>
    let nods := wh 1 &&& fc1DirMask == fc1DirNods && type != fc0TypeCtl
    let bssid := if nods then window wh 16 6 else window wh 4 6
    if nods && m.mLen < 24 then (rx, .error .tooshort)
    else if type != fc0TypeData then (rx, .ok n)
    else if bssid ≠ (rx.ic.icNode rx.ic.icBss).niBssid ∧ bssid ≠ List.replicate 6 0xff then
      (rx, .error .wrongbss)
    else if n = rx.ic.icBss ∧ rx.ic.icOpmode ≠ .hostap ∧
        window wh 10 6 ≠ (rx.ic.icNode n).niMacaddr then
      match adhoc with
      | none => (rx, .error .nodealloc)
      | some n => (fakeupAdhocNode rx n (window wh 10 6), .ok n)
    else (rx, .ok n)
  | .monitor => (rx, .error .monitor)

/-- The counter of a frame: one for each traffic identifier, and one for all frames
without. -/
def rxTid (wh : Wh) : Nat := if hasQos wh then (wh 24 &&& 0x0f).toNat + 1 else 0

/-- Is a frame with the Retry bit and number `rxseq` a duplicate, where `last` was
the last number? `SEQ_LEQ` compares as integers, not modulo `2 ^ 16`. -/
def isDup (last rxseq : UInt16) : Bool :=
  seqSeq last == 4095 && seqSeq rxseq == seqSeq last ||
    seqSeq last != 4095 && ((rxseq.toNat : Int) - last.toNat ≤ 0 : Bool)

/-- The duplicate filter of `ieee80211_input`. -/
def inputDup (ni : NodeRx) (m : Mbuf) : Except RxDrop NodeRx :=
  if hasQos m.get && m.mLen < 26 then .error .tooshort
  else
    let tid := rxTid m.get
    let rxseq := whSeq m.get
    if m.get 1 &&& fc1Retry != 0 && isDup (ni.niRxseqs tid) rxseq then .error .dup
    else .ok { ni with niRxseqs := update ni.niRxseqs tid rxseq }

/-- Do frames like this one go through the duplicate filter? Control frames have no
number, and a station does not count what is sent to a group. -/
def hasSeq (ic : Ic ν) (wh : Wh) : Bool :=
  wh 0 &&& fc0TypeMask &&& 0x04 == 0 && (ic.icOpmode != .sta || !isMulticast (wh 4))

/-- `ieee80211_input` up to the switch on the type of the frame. While scanning
everything passes. -/
def inputFilter (rx : Rx ν) (adhoc : Option ν) (n : ν) (m : Mbuf) : Rx ν × Except RxDrop ν :=
  if rx.ic.icOpmode = .monitor then (rx, .error .monitor)
  else if m.mLen < 16 then (rx, .error .tooshort)
  else if m.get 0 &&& 0x03 != 0 then (rx, .error .badversion)
  else if rx.scan then (rx, .ok n)
  else
    match inputBss rx adhoc n m with
    | (rx, .error e) => (rx, .error e)
    | (rx, .ok n) =>
      if hasSeq rx.ic m.get then
        match inputDup (rx.node n) m with
        | .error e => (rx, .error e)
        | .ok ni => (rx.setNode n ni, .ok n)
      else (rx, .ok n)

/-- What `ieee80211_input` does with a frame. -/
inductive RxResult (ν : Type) where
  | dropped (why : RxDrop)
  | data
  | management (n : ν) (frame : List Mbuf)
  | control (n : ν) (frame : List Mbuf)

/-- `ieee80211_input` without the statistics. -/
def input (E : BlockCipher) (stack : Nat → UInt8) (rx : Rx ν)
    (adhoc : Option ν) (n : ν) (m : Mbuf) (ms : List Mbuf) : Option (Rx ν × RxResult ν) :=
  let drop (rx : Rx ν) (ms : List Mbuf) := { rx with heap := mFreem rx.heap ms }
  match (if m.mFlags &&& mHasfcs != 0 then mAdj (m :: ms) (-4) else m :: ms) with
  | [] => none
  | m :: ms =>
    let m := { m with mFlags := m.mFlags &&& ~~~mHasfcs }
    match inputFilter rx adhoc n m with
    | (rx, .error e) => some (drop rx (m :: ms), .dropped e)
    | (rx, .ok n) =>
      let type := m.get 0 &&& fc0TypeMask
      if type == fc0TypeData then
        match inputData E stack rx n m ms with
        | none => none
        | some (rx, frame) => some (drop rx (frame.getD []), .data)
      else if type == fc0TypeMgt then some (rx, .management n (m :: ms))
      else if type == fc0TypeCtl then some (rx, .control n (m :: ms))
      else some (drop rx (m :: ms), .dropped .badtype)

end Net80211
