import Net80211.Urtwn.Tx
import Net80211.Proofs.TxFrame

/-!
# What a packet of the port becomes on the bus

A packet that `wlan_port_xmit` accepts becomes at most one transfer. `TxHolds` says
what the transfer holds: the frame of the packet, or its first fragment where it is
longer than the threshold, protected where `ieee80211_encap` says so. How long that is
follows from the packet and the state it is sent in (`txLength`), and what the receiver
gets of the payload as well (`txPayload`).

The results are over runs in which packets are queued and sent while everything else
about the interface changes: how much of the buffer a transfer takes, and which packets
are sent as a whole.
-/

namespace Net80211.Urtwn

open Lib Crypto List Function Option

/-! ## The payload of a frame -/

section Payload

variable {ν : Type}

/-- The payload in what follows the header of a frame to node `n`, as a receiver with
the same keys gets it. -/
def bodyPayload (E : BlockCipher) (ks : Keys ν) (n : ν)
    (hdr body : List UInt8) : List UInt8 :=
  if hdrOf hdr 1 &&& fc1Wep = 0 then body
  else
    match txSlot ks n (hdrOf hdr 4) with
    | none => body
    | some (s, _) =>
      let k := ks.key s
      if k.wkFlags.swcrypt then
        let pn := read6 (hdrOf body 0) (hdrOf body 1) (hdrOf body 4) (hdrOf body 5) (hdrOf body 6)
          (hdrOf body 7)
        ccmCrypt (ccmpParams (E k.wkPrivate) (hdrOf hdr) pn) ((body.drop 8).take (body.length - 16))
      else body.drop 8

/-- The payload of a frame behind its own header. -/
def framePayload (E : BlockCipher) (ks : Keys ν) (n : ν)
    (octets : List UInt8) : List UInt8 :=
  let hdrlen := hdrspace ks.datapad (hdrOf octets)
  bodyPayload E ks n (octets.take hdrlen) (octets.drop hdrlen)

variable {E : BlockCipher} {ks : Keys ν} {n : ν} {hdr payload : List UInt8}

theorem framePayload_append (hhdr : hdr.length = hdrspace ks.datapad (hdrOf hdr))
    (body : List UInt8) : framePayload E ks n (hdr ++ body) = bodyPayload E ks n hdr body := by
  have hbounds := hdrspace_bounds ks.datapad (hdrOf hdr)
  have hget : ∀ i < 24, hdrOf (hdr ++ body) i = hdrOf hdr i := fun i hi =>
    getD_append _ _ _ _ (by omega)
  rw [framePayload, hdrspace_congr (hget 0 (by decide)) (hget 1 (by decide)), ← hhdr]
  simp only [take_left' rfl, drop_left' rfl]

theorem framePayload_protected (hhdr : hdr.length = hdrspace ks.datapad (hdrOf hdr))
    (hwep : hdrOf hdr 1 &&& fc1Wep ≠ 0) {s : KeySlot ν} {keyid : UInt8}
    (hslot : txSlot ks n (hdrOf hdr 4) = some (s, keyid)) (kid : UInt8) :
    framePayload E ks n (protectedFrame E (ks.key s) hdr kid payload) = payload := by
  rw [protectedFrame]
  generalize ((ks.key s).wkKeytsc + 1) % 2 ^ 64 = tsc
  cases hsw : (ks.key s).wkFlags.swcrypt with
  | true =>
    rw [if_pos rfl, sealed]
    simp only [append_assoc]
    rw [framePayload_append hhdr, bodyPayload, if_neg hwep, hslot]
    simp only [hsw, if_true]
    generalize hc : ccmpParams (E (ks.key s).wkPrivate) (hdrOf hdr) tsc = c
    have hpn : ccmpParams (E (ks.key s).wkPrivate) (hdrOf hdr) (read6 (UInt8.ofNat tsc)
        (UInt8.ofNat (tsc / 2 ^ 8)) (UInt8.ofNat (tsc / 2 ^ 16)) (UInt8.ofNat (tsc / 2 ^ 24))
        (UInt8.ofNat (tsc / 2 ^ 32)) (UInt8.ofNat (tsc / 2 ^ 40))) = c := by
      rw [← hc, read6_ofNat, ccmpParams, ccmpNonce_mod, ccmpParams]
    refine (congrArg (ccmCrypt · _) hpn).trans ?_
    have hlen :
        (ccmpHeader tsc kid ++ (ccmCrypt c payload ++ ccmTag c (ccmpAd (hdrOf hdr)) payload)).length
        -
        16 = (ccmCrypt c payload).length := by
      simp only [length_append, length_ccmpHeader, length_ccmTag]
      rw [← hc]
      change 8 + (_ + 8) - 16 = _
      omega
    rw [hlen, drop_left' (length_ccmpHeader tsc kid), take_left' rfl, ccmCrypt, ccmCrypt,
      xorStream_xorStream]
  | false =>
    rw [if_neg Bool.false_ne_true, append_assoc, framePayload_append hhdr, bodyPayload,
      if_neg hwep, hslot]
    simp only [hsw, Bool.false_eq_true, if_false]
    rw [drop_left' (length_ccmpHeader tsc kid)]

end Payload

/-! ## One transfer -/

section Transfer

variable {ν : Type}

variable {E : BlockCipher} {ic : Ic ν} {n : ν} {frame octets : List UInt8}

theorem txHolds_payload (h : TxHolds E ic n frame octets) :
    framePayload E ic.icKeys n octets = txPayload ic n frame := by
  cases h with
  | clear _ hhdr hwep _ => rw [framePayload_append hhdr, bodyPayload, if_pos hwep]
  | sealed _ hhdr hwep _ _ hslot => exact framePayload_protected hhdr hwep hslot _

/-- The octets in front of a frame of length `len`: the descriptor and the padding. -/
def txLead (chip92eu : Bool) (len : Nat) : Nat :=
  if chip92eu then txDescSize else 32 + if (32 + len) % 64 = 0 then 8 else 0

theorem txCopy_pkt {usb : Nat → Bool} {sc sc' : TxSoftc ν} {m : Mbuf} {ms c : List Mbuf}
    {error : Bool} (hpkt : Pkt (m :: ms)) (ht : txCopy usb sc m ms = (sc', c, error)) :
    c = m :: ms ∧ ∃ x, sc' = { sc with xfers := sc.xfers ++ [x] } ∧ x.frame = bytes (m :: ms) ∧
      x.written = txLead sc.chip92eu x.frame.length + x.frame.length := by
  have hcopy : mCopydata (m :: ms) 0 m.pkthdrLen = bytes (m :: ms) := by
    rw [mCopydata_eq, drop_zero, hpkt.2, ← length_bytes, take_length]
  rw [txCopy, hcopy] at ht
  simp only [Prod.mk.injEq] at ht
  obtain ⟨rfl, rfl, _⟩ := ht
  refine ⟨rfl, _, rfl, rfl, ?_⟩
  rw [Xfer.written, txLead, TxSoftc.txdLen, length_bytes, ← hpkt.2]
  cases sc.chip92eu <;> rfl

/-- The mbuf `addr` is freed, and so is all that was allocated since `h`. -/
def AllFreed (addr : Nat) (h h' : Heap) : Prop :=
  addr ∈ h'.freed ∧ ∀ a, h.next ≤ a → a < h'.next → h.alloc a ≠ none → a ∈ h'.freed

theorem AllFreed.of_grown {h h' : Heap} {m : Mbuf} {ms : List Mbuf}
    (hg : Grown h h' (ms.map Mbuf.addr)) : AllFreed m.addr h (mFreem h' (m :: ms)) :=
  ⟨mem_append_right _ mem_cons_self,
    fun a h₁ h₂ ha => mem_append_right _ (mem_cons_of_mem _ (hg.mem a h₁ h₂ ha))⟩

/-- A transfer `x` for an Ethernet frame. -/
structure Launched (E : BlockCipher) (ic : Ic ν) (n : ν) (frame : List UInt8)
    (chip92eu : Bool) (x : Xfer) : Prop where
  holds : TxHolds E ic n frame x.frame
  written : x.written = txLead chip92eu x.frame.length + x.frame.length

variable [DecidableEq ν]

/-- `urtwn_tx` for the frame of a packet: an error before anything is sent, or a
transfer. -/
theorem urtwnTx_port {usb : Nat → Bool} {sc sc' : TxSoftc ν} {m : Mbuf} {data : TxData}
    {hdr : List UInt8} {c : List Mbuf} {error : Bool} (hf : PortFrame ic n frame hdr m)
    (hpos : 0 < (txPayload ic n frame).length) (hmax : (txPayload ic n frame).length ≤ ccmMax)
    (hkeys : sc.ic.icKeys = ic.icKeys) (ht : urtwnTx E usb sc n m [] data = some (sc', c, error)) :
    sc'.oerrors = sc.oerrors ∧ (error = true ∧ sc'.xfers = sc.xfers ∨
      ∃ x m' ms', c = m' :: ms' ∧ m'.addr = m.addr ∧ sc'.xfers = sc.xfers ++ [x] ∧
        Launched E ic n frame sc.chip92eu x ∧ Grown sc.heap sc'.heap (ms'.map Mbuf.addr)) := by
  have hbounds := hdrspace_bounds ic.icKeys.datapad (hdrOf hdr)
  rw [← hf.hdrspace_eq] at hbounds
  have hb : bytes [m] = hdr ++ txPayload ic n frame := (bytes_singleton m).trans hf.octets
  have hget : m.get 1 = hdrOf hdr 1 := get_eq_hdrOf hb (by rw [hf.mLen]; omega) (by omega)
  have hwep := hf.wep
  rw [urtwnTx, hget] at ht
  split at ht
  · next hclear =>
    rw [beq_iff_eq] at hclear
    rw [hclear] at hwep
    obtain ⟨rfl, x, rfl, hx, hwrit⟩ := txCopy_pkt hf.pkt (Option.some.inj ht)
    refine ⟨rfl, .inr ⟨x, m, [], rfl, rfl, rfl, ⟨?_, hwrit⟩, .refl _ _⟩⟩
    rw [hx, hb]
    exact .clear hf.len hf.hdrspace_eq hclear hwep.symm
  next hset =>
  rw [beq_iff_eq] at hset
  rw [bne_iff_ne.mpr hset] at hwep
  split at ht
  · cases ht
  next r hr =>
  rw [hkeys] at hr
  dsimp only at ht
  split at ht
  · next s m' ms' hkey hframe =>
    obtain ⟨haddr, ht⟩ := ite_none_right_eq_some.mp ht
    obtain ⟨m1, ms1, keyid, hframe', _, hslot, hpkt, hbytes, hg⟩ :=
      cryptoEncap_frame hf.toTxFrame hpos hmax hr hkey
    cases hframe.symm.trans hframe'
    obtain ⟨rfl, x, rfl, hx, hwrit⟩ := txCopy_pkt hpkt (Option.some.inj ht)
    refine ⟨rfl, .inr ⟨x, m', ms', rfl, haddr, rfl, ⟨?_, hwrit⟩, hg⟩⟩
    rw [hx, hbytes]
    exact .sealed hf.len hf.hdrspace_eq hset hwep.symm hf.addr1 hslot
  · simp only [Option.some.injEq, Prod.mk.injEq] at ht
    obtain ⟨rfl, _, rfl⟩ := ht
    exact ⟨rfl, .inl ⟨rfl, rfl⟩⟩

/-- From `sendit` on: the packet was not sent and is counted, or it was and is freed. -/
theorem sendit_port {usb : Nat → Bool} {sc sc' : TxSoftc ν} {m : Mbuf} {data : TxData}
    {hdr : List UInt8} (hf : PortFrame ic n frame hdr m)
    (hpos : 0 < (txPayload ic n frame).length) (hmax : (txPayload ic n frame).length ≤ ccmMax)
    (hkeys : sc.ic.icKeys = ic.icKeys) (hs : sendit E usb sc n m [] data = some sc') :
    sc'.xfers = sc.xfers ∧ sc'.oerrors = sc.oerrors + 1 ∨
      ∃ x, sc'.xfers = sc.xfers ++ [x] ∧ Launched E ic n frame sc.chip92eu x ∧
        AllFreed m.addr sc.heap sc'.heap := by
  rw [sendit] at hs
  split at hs
  · cases hs
  next sc1 c error ht =>
  obtain ⟨herr, hcase⟩ := urtwnTx_port hf hpos hmax hkeys ht
  injection hs with hs
  rcases hcase with ⟨rfl, hx⟩ | ⟨x, m', ms', rfl, haddr, hx, hl, hg⟩
  · subst hs
    exact .inl ⟨hx, congrArg (· + 1) herr⟩
  · refine .inr ⟨x, ?_⟩
    have hfreed := haddr ▸ AllFreed.of_grown (m := m') hg
    cases error with
    | true | false => subst hs; exact ⟨hx, hl, hfreed⟩

end Transfer

/-! ## One round -/

variable {ν : Type} [DecidableEq ν]

/-- Every `ni_bssid` has its six octets. -/
def Sized (ic : Ic ν) : Prop := ∀ n, (ic.icNode n).niBssid.length = 6

theorem Sized.setNode {ic : Ic ν} (hs : Sized ic) {n : ν} {ni : Node} (hl : ni.niBssid.length = 6) :
    Sized (ic.setNode n ni) := by
  intro n'
  change (update ic.icNode n ni n').niBssid.length = 6
  by_cases hn : n' = n
  · rw [hn, update_self]
    exact hl
  · rw [update_of_ne hn]
    exact hs n'

variable {m : Mbuf} {ms : List Mbuf}

theorem encap_sized {h h' : Heap} {ic ic' : Ic ν} {n : ν} {out : Option (List (List Mbuf))}
    (hs : Sized ic) (he : encap h ic n m ms = some (h', ic', out)) : Sized ic' := by
  rcases encap_ic he with rfl | ⟨seqs, rfl⟩
  · exact hs
  · exact hs.setNode (hs n)

/-- The queues and the flags of the interface are as before. -/
structure TxKept (sc sc' : TxSoftc ν) : Prop where
  ifSnd : sc'.ifSnd = sc.ifSnd
  mgtq : sc'.mgtq = sc.mgtq
  running : sc'.running = sc.running
  oactive : sc'.oactive = sc.oactive
  icState : sc'.ic.icState = sc.ic.icState

variable {sc : TxSoftc ν}

omit [DecidableEq ν] in
theorem TxKept.rfl : TxKept sc sc := ⟨by rfl, by rfl, by rfl, by rfl, by rfl⟩

omit [DecidableEq ν] in
theorem TxKept.trans {sc₁ sc₂ sc₃ : TxSoftc ν} (h : TxKept sc₁ sc₂) (h' : TxKept sc₂ sc₃) :
    TxKept sc₁ sc₃ :=
  ⟨h'.ifSnd.trans h.ifSnd, h'.mgtq.trans h.mgtq, h'.running.trans h.running,
    h'.oactive.trans h.oactive, h'.icState.trans h.icState⟩

/-- What looking for a node leaves as it is. -/
structure SameTx (sc sc' : TxSoftc ν) : Prop where
  kept : TxKept sc sc'
  heap : sc'.heap = sc.heap
  chip92eu : sc'.chip92eu = sc.chip92eu
  oerrors : sc'.oerrors = sc.oerrors
  xfers : sc'.xfers = sc.xfers

theorem findTxnode_spec (sc : TxSoftc ν) (adhoc : Option ν) (macaddr : List UInt8) :
    SameTx sc (findTxnode sc adhoc macaddr).1 ∧
      (Sized sc.ic → Sized (findTxnode sc adhoc macaddr).1.ic) ∧
      (findTxnode sc adhoc macaddr).1.txFreeList = sc.txFreeList := by
  have hsame : SameTx sc sc := ⟨.rfl, rfl, rfl, rfl, rfl⟩
  rw [findTxnode.eq_def]
  split
  · exact ⟨hsame, id, rfl⟩
  split
  · exact ⟨hsame, id, rfl⟩
  split
  · split
    · exact ⟨hsame, id, rfl⟩
    · exact ⟨⟨⟨rfl, rfl, rfl, rfl, rfl⟩, rfl, rfl, rfl, rfl⟩, fun hs => Sized.setNode hs (hs _),
        rfl⟩
  · exact ⟨hsame, id, rfl⟩

theorem findTxnode_congr {sc₁ : TxSoftc ν} (hic : sc₁.ic = sc.ic) (hsta : sc₁.icSta = sc.icSta)
    (adhoc : Option ν) (macaddr : List UInt8) :
    (findTxnode sc₁ adhoc macaddr).1.ic = (findTxnode sc adhoc macaddr).1.ic ∧
      (findTxnode sc₁ adhoc macaddr).2 = (findTxnode sc adhoc macaddr).2 := by
  rw [findTxnode.eq_def sc₁, findTxnode.eq_def sc, hic, hsta]
  split
  · exact ⟨hic, rfl⟩
  split
  · exact ⟨hic, rfl⟩
  split
  · split
    · exact ⟨hic, rfl⟩
    · refine ⟨?_, rfl⟩
      simp only [fakeupAdhocNode, hic]
  · exact ⟨hic, rfl⟩

/-- The node that a frame goes to, and the interface with that node entered. -/
def txNode (sc : TxSoftc ν) (adhoc : Option ν) (frame : List UInt8) : Option ν :=
  (findTxnode sc adhoc (etherHeaderOf frame).etherDhost).2

def txIc (sc : TxSoftc ν) (adhoc : Option ν) (frame : List UInt8) : Ic ν :=
  (findTxnode sc adhoc (etherHeaderOf frame).etherDhost).1.ic

/-- What became of the packet with mbuf `addr` that `urtwn_start` took in state `sc`. -/
inductive TxOutcome (E : BlockCipher) (sc : TxSoftc ν) (adhoc : Option ν)
    (frame : List UInt8) (addr : Nat) (sc' : TxSoftc ν) : Prop where
  | rejected : sc'.xfers = sc.xfers → sc'.oerrors = sc.oerrors + 1 →
    TxOutcome E sc adhoc frame addr sc'
  | sent {n : ν} {x : Xfer} : txNode sc adhoc frame = some n →
      sc'.xfers = sc.xfers ++ [x] → Launched E (txIc sc adhoc frame) n frame sc.chip92eu x →
      (txFragments (txIc sc adhoc frame) n frame = true →
        encapHdrsize (txIc sc adhoc frame) n frame +
          (encapCipher (txIc sc adhoc frame) n frame).icHeader <
            (txIc sc adhoc frame).icFragthreshold.toNat) →
      (txFragments (txIc sc adhoc frame) n frame = false → AllFreed addr sc.heap sc'.heap) →
      TxOutcome E sc adhoc frame addr sc'

variable {frame : List UInt8}

/-- The way of a packet from the queue: `startEncap`, then `sendit`. -/
def startSend (E : BlockCipher) (usb : Nat → Bool) (adhoc : Option ν)
    (sc : TxSoftc ν) (m : Mbuf) (ms : List Mbuf) (data : TxData) : Option (TxSoftc ν) :=
  match startEncap sc adhoc m ms data with
  | none => none
  | some (sc, none) => some sc
  | some (sc, some (n, m, ms)) => sendit E usb sc n m ms data

variable {E : BlockCipher} {usb : Nat → Bool} {adhoc : Option ν}
  {sc' : TxSoftc ν} {data : TxData} {go : Bool}

theorem startSend_of_round (hr : (match startEncap sc adhoc m ms data with
      | none => none
      | some (sc, none) => some (sc, true)
      | some (sc, some (n, m, ms)) => (sendit E usb sc n m ms data).map (·, true)) =
          some (sc', go)) :
    startSend E usb adhoc sc m ms data = some sc' ∧ go = true := by
  rw [startSend]
  cases he : startEncap sc adhoc m ms data with
  | none =>
    rw [he] at hr
    cases hr
  | some r =>
    rw [he] at hr
    obtain ⟨sc1, out⟩ := r
    cases out with
    | none =>
      cases hr
      exact ⟨rfl, rfl⟩
    | some q =>
      obtain ⟨sc2, hs, heq⟩ := map_eq_some_iff.mp hr
      cases heq
      exact ⟨hs, rfl⟩

theorem startSend_port (hp : PortPacket frame m) (hs : Sized sc.ic)
    (hr : startSend E usb adhoc sc m [] data = some sc') :
    TxOutcome E sc adhoc frame m.addr sc' := by
  rw [startSend, startEncap, pullupTo, if_neg (by rw [hp.mLen]; exact Nat.not_lt.mpr hp.min)] at hr
  simp only [hp.etherHeader] at hr
  obtain ⟨hsame, hsized, -⟩ := findTxnode_spec sc adhoc (etherHeaderOf frame).etherDhost
  have hnode : (findTxnode sc adhoc (etherHeaderOf frame).etherDhost).2 = txNode sc adhoc frame :=
    rfl
  have hic : (findTxnode sc adhoc (etherHeaderOf frame).etherDhost).1.ic = txIc sc adhoc frame :=
    rfl
  rw [show sc.setHeap sc.heap = sc from rfl] at hr
  generalize findTxnode sc adhoc (etherHeaderOf frame).etherDhost = r at hr hsame hsized hnode hic
  obtain ⟨sc1, n⟩ := r
  dsimp only at hr hsame hsized hnode hic
  have hreject : ∀ h ic, TxOutcome E sc adhoc frame m.addr
      ((TxSoftc.countError { sc1 with heap := h, ic }).putTxData data) := fun h ic =>
    .rejected hsame.xfers (congrArg (· + 1) hsame.oerrors)
  cases n with
  | none => cases hr; exact hreject _ sc1.ic
  | some n =>
    dsimp only at hr
    cases he : encap sc1.heap sc1.ic n m [] with
    | none => rw [he] at hr; cases hr
    | some out =>
      obtain ⟨h', ic', frames⟩ := out
      rw [he] at hr
      rcases frames with _ | _ | ⟨_ | ⟨m1, ms1⟩, rest⟩
      · cases hr; exact hreject _ _
      · cases hr; exact hreject _ _
      · cases hr; exact hreject _ _
      · obtain ⟨hkeys, -, hh, hfrag, m2, hdr, hc, haddr, hframe⟩ :=
          encap_first hp (hsized hs) he
        cases hc
        rw [hic] at hkeys hh hfrag hframe
        obtain ⟨hpos, hmax⟩ := txPayload_bounds hp hfrag
        rcases sendit_port hframe hpos hmax hkeys hr with
          ⟨hx, herr⟩ | ⟨x, hx, hl, hfreed⟩
        · exact .rejected (hx.trans hsame.xfers) (herr.trans (congrArg (· + 1) hsame.oerrors))
        · refine .sent hnode.symm (hx.trans (congrArg (· ++ [x]) hsame.xfers))
            (hsame.chip92eu ▸ hl) hfrag fun hno => ?_
          rw [← hsame.heap, ← hh hno, ← haddr]
          exact hfreed

theorem urtwnTx_keeps {n : ν} {c : List Mbuf} {error : Bool}
    (ht : urtwnTx E usb sc n m ms data = some (sc', c, error)) :
    TxKept sc sc' ∧ sc'.ic.icNode = sc.ic.icNode := by
  rw [urtwnTx] at ht
  split at ht
  · cases ht; exact ⟨⟨rfl, rfl, rfl, rfl, rfl⟩, rfl⟩
  split at ht
  · cases ht
  dsimp only at ht
  split at ht
  · split at ht
    · cases ht; exact ⟨⟨rfl, rfl, rfl, rfl, rfl⟩, rfl⟩
    · cases ht
  · cases ht; exact ⟨⟨rfl, rfl, rfl, rfl, rfl⟩, rfl⟩

theorem sendit_keeps {n : ν} (hs : sendit E usb sc n m ms data = some sc') :
    TxKept sc sc' ∧ sc'.ic.icNode = sc.ic.icNode := by
  rw [sendit] at hs
  split at hs
  · cases hs
  next sc1 c error ht =>
  obtain ⟨hkept, hnode⟩ := urtwnTx_keeps ht
  cases error with
  | true | false => cases hs; exact ⟨hkept.trans ⟨rfl, rfl, rfl, rfl, rfl⟩, hnode⟩

theorem startEncap_keeps {out : Option (ν × Mbuf × List Mbuf)}
    (he : startEncap sc adhoc m ms data = some (sc', out)) :
    TxKept sc sc' ∧ (Sized sc.ic → Sized sc'.ic) := by
  rw [startEncap.eq_def] at he
  split at he
  · cases he; exact ⟨⟨rfl, rfl, rfl, rfl, rfl⟩, id⟩
  next h m1 ms1 _ =>
  obtain ⟨hsame, hsized, -⟩ := findTxnode_spec (sc.setHeap h) adhoc (etherHeader m1).etherDhost
  have hkept : ∀ {sc2 : TxSoftc ν} {h2 ic2}, TxKept (sc.setHeap h) sc2 →
      ic2.icState = sc2.ic.icState → TxKept sc { sc2 with heap := h2, ic := ic2 } := fun hk hst =>
    ⟨hk.ifSnd, hk.mgtq, hk.running, hk.oactive, hst.trans hk.icState⟩
  have hstate : ∀ {h' : Heap} {ic ic' : Ic ν} {n out}, encap h' ic n m1 ms1 = some out →
      out.2.1 = ic' → ic'.icState = ic.icState := by
    rintro h' ic _ n ⟨h3, ic3, out⟩ hcap rfl
    rcases encap_ic hcap with rfl | ⟨seqs, rfl⟩
    · rfl
    · rfl
  split at he
  · next sc2 hfind =>
    rw [hfind] at hsame hsized
    cases he
    exact ⟨(hkept hsame.kept rfl).trans ⟨rfl, rfl, rfl, rfl, rfl⟩, hsized⟩
  next sc2 n hfind =>
  rw [hfind] at hsame hsized
  split at he
  · cases he
  · next hcap =>
    cases he
    exact ⟨hkept hsame.kept (hstate hcap rfl), fun hs => encap_sized (hsized hs) hcap⟩
  · next hcap =>
    cases he
    exact ⟨(hkept hsame.kept (hstate hcap rfl)).trans ⟨rfl, rfl, rfl, rfl, rfl⟩,
      fun hs => encap_sized (hsized hs) hcap⟩

theorem startSend_keeps (hr : startSend E usb adhoc sc m ms data = some sc') :
    TxKept sc sc' ∧ (Sized sc.ic → Sized sc'.ic) := by
  rw [startSend.eq_def] at hr
  split at hr
  · cases hr
  · next he => cases hr; exact startEncap_keeps he
  · next sc1 n m1 ms1 he =>
    obtain ⟨hkept, hsized⟩ := startEncap_keeps he
    obtain ⟨hkept', hnode⟩ := sendit_keeps hr
    refine ⟨hkept.trans hkept', fun hs n => ?_⟩
    rw [hnode]
    exact hsized hs n

omit [DecidableEq ν] in
theorem getTxData_cases {p : Nat} (hg : sc.getTxData p = some (data, sc')) :
    ∃ rest, sc.txFreeList p = data :: rest ∧
      sc' = { sc with txFreeList := update sc.txFreeList p rest } := by
  rw [TxSoftc.getTxData] at hg
  split at hg
  · cases hg
  · next rest hfl =>
    cases hg
    exact ⟨rest, hfl, rfl⟩

/-- What a round can do: there is no buffer; there is nothing to send; a management frame
is sent; the first packet of the queue is taken. -/
inductive RoundMove (E : BlockCipher) (usb : Nat → Bool) (adhoc : Option ν)
    (sc : TxSoftc ν) : TxSoftc ν → Bool → Prop where
  | noBuffer {pidx : Nat} : sc.getTxData pidx = none →
      RoundMove E usb adhoc sc { sc with oactive := true } false
  | idle : sc.mgtq = [] → sc.ic.icState ≠ .run ∨ sc.ifSnd = [] ∨ (∃ rest, sc.ifSnd = [] :: rest) →
      RoundMove E usb adhoc sc sc false
  | mgmt {n : ν} {m : Mbuf} {ms : List Mbuf} {rest : List (ν × Mbuf × List Mbuf)} {data : TxData}
      {sc₁ sc' : TxSoftc ν} : sc.mgtq = (n, m, ms) :: rest →
      sc.getTxData (sc.ac2idx 3) = some (data, sc₁) →
      sendit E usb { sc₁ with mgtq := rest } n m ms data = some sc' →
      RoundMove E usb adhoc sc sc' true
  | packet {m : Mbuf} {ms : List Mbuf} {rest : List (List Mbuf)} {data : TxData}
      {sc₁ sc' : TxSoftc ν} : sc.mgtq = [] → sc.ic.icState = .run → sc.ifSnd = (m :: ms) :: rest →
      sc.getTxData (sc.ac2idx (startQid m.get)) = some (data, sc₁) →
      startSend E usb adhoc { sc₁ with ifSnd := rest } m ms data = some sc' →
      RoundMove E usb adhoc sc sc' true

theorem urtwnStartRound_move (hr : urtwnStartRound E usb adhoc sc = some (sc', go)) :
    RoundMove E usb adhoc sc sc' go := by
  rw [urtwnStartRound.eq_def] at hr
  split at hr
  · next n m ms rest hmgtq =>
    split at hr
    · next hdata => cases hr; exact .noBuffer hdata
    next data sc1 hdata =>
    obtain ⟨sc2, hsend, heq⟩ := map_eq_some_iff.mp hr
    cases heq
    exact .mgmt hmgtq hdata hsend
  next hmgtq =>
  split at hr
  · next hrun => cases hr; exact .idle hmgtq (.inl hrun)
  next hrun =>
  split at hr
  · next hsnd => cases hr; exact .idle hmgtq (.inr (.inl hsnd))
  · next rest hsnd => cases hr; exact .idle hmgtq (.inr (.inr ⟨rest, hsnd⟩))
  next m ms rest hsnd =>
  split at hr
  · next hdata => cases hr; exact .noBuffer hdata
  next data sc1 hdata =>
  have hsend : ∀ {sc2}, startSend E usb adhoc { sc1 with ifSnd := rest } m ms data = some sc2 →
      RoundMove E usb adhoc sc sc2 true := .packet hmgtq (not_not.mp hrun) hsnd hdata
  obtain ⟨hs, rfl⟩ := startSend_of_round hr
  exact hsend hs

theorem urtwnStartRound_cases (hr : urtwnStartRound E usb adhoc sc = some (sc', go)) :
    sc'.ifSnd = sc.ifSnd ∧ sc'.ic.icNode = sc.ic.icNode ∨
      ∃ m ms rest data fl, sc.ifSnd = (m :: ms) :: rest ∧
        startSend E usb adhoc { sc with txFreeList := fl, ifSnd := rest } m ms data = some sc' := by
  cases urtwnStartRound_move hr with
  | noBuffer _ | idle _ _ => exact .inl ⟨rfl, rfl⟩
  | mgmt _ hdata hsend =>
    obtain ⟨fl, -, rfl⟩ := getTxData_cases hdata
    obtain ⟨hkept, hnode⟩ := sendit_keeps hsend
    exact .inl ⟨hkept.ifSnd, hnode⟩
  | packet _ _ hsnd hdata hsend =>
    obtain ⟨fl, -, rfl⟩ := getTxData_cases hdata
    exact .inr ⟨_, _, _, _, _, hsnd, hsend⟩

/-- A packet of the port that is taken from the queue with a buffer from a free list. -/
theorem startSend_taken {rest : List (List Mbuf)} {fl : Nat → List TxData} (hp : PortPacket frame m)
    (hs : Sized sc.ic)
    (hr : startSend E usb adhoc { sc with txFreeList := fl, ifSnd := rest } m [] data = some sc') :
    TxOutcome E sc adhoc frame m.addr sc' := by
  generalize hsc1 : ({ sc with txFreeList := fl, ifSnd := rest } : TxSoftc ν) = sc1 at hr
  have hic : sc1.ic = sc.ic := by rw [← hsc1]
  obtain ⟨hic', hnode⟩ := findTxnode_congr hic (show sc1.icSta = sc.icSta by rw [← hsc1]) adhoc
    (etherHeaderOf frame).etherDhost
  change txIc sc1 adhoc frame = txIc sc adhoc frame at hic'
  change txNode sc1 adhoc frame = txNode sc adhoc frame at hnode
  cases startSend_port hp (hic ▸ hs) hr with
  | rejected hx herr => rw [← hsc1] at hx herr; exact .rejected hx herr
  | @sent n x hn hx hl hfrag hfreed =>
    rw [hic'] at hl hfrag hfreed
    rw [hnode] at hn
    rw [← hsc1] at hx hl hfreed
    exact .sent hn hx hl hfrag hfreed

/-! ## Whole runs -/

/-- A packet of the port that `urtwn_start` has taken from the queue: the state before
the round and after it. -/
structure TxEntry (ν : Type) where
  frame : List UInt8
  addr : Nat
  adhoc : Option ν
  start : TxSoftc ν
  finish : TxSoftc ν

/-- The transfers that were started for the packet. -/
def TxEntry.xfers (e : TxEntry ν) : List Xfer := e.finish.xfers.drop e.start.xfers.length

/-- The node the packet was sent to and the interface it was sent with. -/
def TxEntry.node (e : TxEntry ν) : Option ν := txNode e.start e.adhoc e.frame

def TxEntry.ic (e : TxEntry ν) : Ic ν := txIc e.start e.adhoc e.frame

/-- Sending, with the frame that each packet of the queue was made from, `none` where
it does not come from the port, and the packets that were taken. -/
structure TxRun (ν : Type) where
  sc : TxSoftc ν
  waiting : List (Option (List UInt8))
  taken : List (TxEntry ν)

/-- The port hands over a frame; an access point queues what it bridges; `urtwn_start`
makes a round; and everything but the queue may change. -/
inductive TxRunOp (ν : Type) where
  | xmit (frame : List UInt8)
  | bridge (c : List Mbuf)
  | round (usb : Nat → Bool) (adhoc : Option ν)
  | host (sc : TxSoftc ν) (sized : ∀ n, (sc.ic.icNode n).niBssid.length = 6)

/-- The record of a packet from the port. -/
def noteTaken (sc sc' : TxSoftc ν) (adhoc : Option ν) :
    List (Option (List UInt8)) → List (List Mbuf) → List (TxEntry ν)
  | some frame :: _, (m :: _) :: _ => [{ frame, addr := m.addr, adhoc, start := sc, finish := sc' }]
  | _, _ => []

def txRunStep (E : BlockCipher) (s : TxRun ν) : TxRunOp ν → Option (TxRun ν)
  | .xmit frame =>
    match xmitEnqueue s.sc frame with
    | (sc, none) => some { s with sc }
    | (sc, some _) => some { s with sc, waiting := s.waiting ++ [some frame] }
  | .bridge c =>
    some { s with sc := { s.sc with ifSnd := s.sc.ifSnd ++ [c] }, waiting := s.waiting ++ [none] }
  | .round usb adhoc =>
    match urtwnStartRound E usb adhoc s.sc with
    | none => none
    | some (sc, _) =>
      if sc.ifSnd.length = s.sc.ifSnd.length then some { s with sc }
      else some { sc, waiting := s.waiting.tail
                  taken := s.taken ++ noteTaken s.sc sc adhoc s.waiting s.sc.ifSnd }
  | .host sc _ => some { s with sc := { sc with ifSnd := s.sc.ifSnd } }

/-- Nothing is queued and nothing was sent. -/
def txRunInit (s : TxRun ν) : Prop :=
  Sized s.sc.ic ∧ s.sc.ifSnd = [] ∧ s.waiting = [] ∧ s.taken = []

/-- The packet for a frame of the port. -/
def Waits (w : Option (List UInt8)) (c : List Mbuf) : Prop :=
  ∀ frame, w = some frame → ∃ m, c = [m] ∧ PortPacket frame m

structure TxRunInv (E : BlockCipher) (s : TxRun ν) : Prop where
  sized : Sized s.sc.ic
  waiting : List.Forall₂ Waits s.waiting s.sc.ifSnd
  taken : ∀ e ∈ s.taken, (14 ≤ e.frame.length) ∧ TxOutcome E e.start e.adhoc e.frame e.addr e.finish

omit [DecidableEq ν] in
theorem xmitEnqueue_cases {r : Option Nat}
    (hx : xmitEnqueue sc frame = (sc', r)) : sc'.ic = sc.ic ∧ (r = none ∧ sc'.ifSnd = sc.ifSnd ∨
      r ≠ none ∧ ∃ m, sc'.ifSnd = sc.ifSnd ++ [[m]] ∧ PortPacket frame m) := by
  rw [xmitEnqueue] at hx
  split at hx
  · cases hx; exact ⟨rfl, .inl ⟨rfl, rfl⟩⟩
  next hlen =>
  split at hx
  · cases hx; exact ⟨rfl, .inl ⟨rfl, rfl⟩⟩
  next h m hget =>
  obtain ⟨rfl, rfl⟩ := Prod.mk.inj hx
  refine ⟨rfl, .inr ⟨nofun, _, rfl, ?_⟩⟩
  rw [mGetImpl] at hget
  split at hget
  · cases hget
  · cases hget
    exact .of_flags (by omega) (by omega) (window_store_same _ _ _) rfl rfl rfl

theorem TxRunInv.step {s s' : TxRun ν} {a : TxRunOp ν} (hi : TxRunInv E s)
    (hs : txRunStep E s a = some s') : TxRunInv E s' := by
  cases a with
  | xmit frame =>
    rw [txRunStep] at hs
    split at hs
    · next sc hx =>
      cases hs
      obtain ⟨hic, ⟨_, hsnd⟩ | ⟨hne, _⟩⟩ := xmitEnqueue_cases hx
      · exact ⟨hic ▸ hi.sized, hsnd ▸ hi.waiting, hi.taken⟩
      · exact absurd rfl hne
    · next sc _ hx =>
      cases hs
      obtain ⟨hic, ⟨hno, _⟩ | ⟨_, m, hsnd, hp⟩⟩ := xmitEnqueue_cases hx
      · cases hno
      · refine ⟨hic ▸ hi.sized, ?_, hi.taken⟩
        rw [hsnd]
        refine rel_append hi.waiting (.cons (fun f hf => ?_) .nil)
        cases hf
        exact ⟨m, rfl, hp⟩
  | bridge c =>
    cases hs
    exact ⟨hi.sized, rel_append hi.waiting (.cons (fun _ hf => nomatch hf) .nil), hi.taken⟩
  | host sc sized =>
    cases hs
    exact ⟨sized, hi.waiting, hi.taken⟩
  | round usb adhoc =>
    rw [txRunStep] at hs
    split at hs
    · cases hs
    next sc go hr =>
    rcases urtwnStartRound_cases hr with ⟨hsnd, hnode⟩ | ⟨m, ms, rest, data, fl, hsnd, hsend⟩
    · rw [if_pos (congrArg length hsnd)] at hs
      cases hs
      exact ⟨fun n => hnode ▸ hi.sized n, hsnd ▸ hi.waiting, hi.taken⟩
    · obtain ⟨hkept, hsized⟩ := startSend_keeps hsend
      have hrest : sc.ifSnd = rest := hkept.ifSnd
      have htook : ¬ sc.ifSnd.length = s.sc.ifSnd.length := by
        rw [hrest, hsnd, length_cons]
        omega
      rw [if_neg htook] at hs
      cases hs
      have hwait := hi.waiting
      rw [hsnd] at hwait
      generalize hw : s.waiting = waiting at hwait
      cases hwait with
      | @cons w _ ws _ hw0 hws =>
        refine ⟨hsized hi.sized, ?_, fun e he => ?_⟩
        · change List.Forall₂ Waits (w :: ws).tail sc.ifSnd
          rw [hrest]
          exact hws
        rcases mem_append.mp he with he | he
        · exact hi.taken e he
        rw [hsnd] at he
        cases w with
        | none => exact nomatch he
        | some frame =>
          obtain ⟨m', hm', hp⟩ := hw0 frame rfl
          cases hm'
          cases mem_singleton.mp he
          exact ⟨hp.min, startSend_taken hp hi.sized hsend⟩

theorem txRun_taken {s : TxRun ν} (h : Reach txRunInit (txRunStep E) Any s) {e : TxEntry ν}
    (he : e ∈ s.taken) :
    14 ≤ e.frame.length ∧ TxOutcome E e.start e.adhoc e.frame e.addr e.finish := by
  have hi : TxRunInv E s := by
    refine h.invariant (fun s hs => ?_) fun s a s' hi _ hs => hi.step hs
    obtain ⟨hsized, hsnd, hwait, htaken⟩ := hs
    refine ⟨hsized, ?_, fun e he => ?_⟩
    · rw [hsnd, hwait]
      exact .nil
    · rw [htaken] at he
      cases he
  exact hi.taken e he

/-- A transfer stays inside its buffer exactly where the frame is no longer than
`IEEE80211_MAX_LEN` and 16 octets, or 8 with the long descriptor of the 92EU. -/
theorem txbuf_bound {E : BlockCipher} {s : TxRun ν}
    (h : Reach txRunInit (txRunStep E) Any s) {e : TxEntry ν} (he : e ∈ s.taken) {x : Xfer}
    (hx : x ∈ e.xfers) : ∃ n, e.node = some n ∧ (x.written ≤ urtwnTxbufsz ↔
      txLength e.ic n e.frame ≤ ieee80211MaxLen + if e.start.chip92eu then 8 else 16) := by
  obtain ⟨hmin, ho⟩ := txRun_taken h he
  rw [TxEntry.xfers] at hx
  cases ho with
  | rejected hnone _ =>
    rw [hnone, drop_length] at hx
    cases hx
  | sent hn hxs hl hfrag _ =>
    rw [hxs, drop_left' rfl] at hx
    cases mem_singleton.mp hx
    refine ⟨_, hn, ?_⟩
    rw [hl.written, hl.holds.txLength_eq hmin hfrag]
    change _ ↔ txLength (txIc e.start e.adhoc e.frame) _ e.frame ≤ _
    generalize txLength (txIc e.start e.adhoc e.frame) _ e.frame = len
    have hsz : urtwnTxbufsz = 2360 := rfl
    have hml : ieee80211MaxLen = 2312 := rfl
    rw [txLead, txDescSize, hsz, hml]
    cases e.start.chip92eu with
    | true => simp only [if_true]; omega
    | false => simp only [Bool.false_eq_true, if_false]; split <;> omega

/-- A packet that was taken without an error is sent as a whole, with all its mbufs
freed, exactly where it was not fragmented. -/
theorem sent_complete_iff {E : BlockCipher} {s : TxRun ν}
    (h : Reach txRunInit (txRunStep E) Any s) {e : TxEntry ν} (he : e ∈ s.taken)
    (herr : e.finish.oerrors = e.start.oerrors) : ∃ n, e.node = some n ∧
      ((e.xfers.flatMap fun x => framePayload E e.ic.icKeys n x.frame) = llcPayload e.frame ∧
        AllFreed e.addr e.start.heap e.finish.heap ↔ txFragments e.ic n e.frame = false) := by
  obtain ⟨hmin, ho⟩ := txRun_taken h he
  cases ho with
  | rejected _ hcount => rw [hcount] at herr; omega
  | @sent n x hn hxs hl hfrag hfreed =>
    refine ⟨n, hn, ?_⟩
    have hone : e.xfers = [x] := by rw [TxEntry.xfers, hxs, drop_left' rfl]
    rw [hone, flatMap_singleton, TxEntry.ic, txHolds_payload hl.holds, txPayload]
    have hlen := length_llcPayload hmin
    cases hfr : txFragments (txIc e.start e.adhoc e.frame) n e.frame with
    | false => exact ⟨fun _ => rfl, fun _ => ⟨rfl, hfreed hfr⟩⟩
    | true =>
      refine ⟨fun hall => ?_, fun h => by cases h⟩
      -- The first fragment is shorter than the packet.
      have hfits := hfrag hfr
      rw [txFragments, Bool.and_eq_true, decide_eq_true_iff] at hfr
      have := congrArg length hall.1
      rw [if_pos rfl, length_take] at this
      omega

/-! ### Three packets -/

/-- A station of an open network with the fragmentation threshold `thr`, and one
transfer buffer. -/
def openTx (thr : UInt16) : TxRun Unit :=
  { sc :=
      { heap := ⟨fun _ => some fun _ => 0, 0, []⟩
        ic := { stationWith .none with icFragthreshold := thr }
        node := fun _ => nodeRxInit, icSta := [], scan := false, nobridge := false, simplex := false
        eapolRx := false, dataRx := true, ticks := 0, ifSnd := [], replies := [], up := []
        chip92eu := false, running := true, oactive := false, mgtq := [], ac2idx := fun _ => 0
        txFreeList := fun _ => [⟨0, 0⟩], oerrors := 0, xfers := [] }
    waiting := [], taken := [] }

theorem openTx_init (thr : UInt16) : txRunInit (openTx thr) := ⟨fun _ => rfl, rfl, rfl, rfl⟩

/-- An IPv4 packet of `len` octets in an Ethernet frame. -/
def ipv4Frame (len : Nat) : List UInt8 :=
  replicate 12 2 ++ [0x08, 0x00] ++ replicate len 7

/-- With the threshold a station starts with, the first fragment of a long packet runs
over the end of the buffer. -/
theorem txbuf_overrun :
    ∃ s : TxRun Unit, Reach txRunInit (txRunStep fun _ b => b) Any s ∧ ∃ e ∈ s.taken,
      14 ≤ e.frame.length ∧ e.frame.length ≤ mclbytes ∧ 256 ≤ e.ic.icFragthreshold.toNat ∧
      ∃ x ∈ e.xfers, urtwnTxbufsz < x.written :=
  Reach.of_run [.xmit (ipv4Frame 2386), .round (fun _ => true) none] (openTx_init 2346)
    (runOk_any _ _) (by decide +kernel)

theorem txbuf_bound_sample : ∃ (s : TxRun Unit) (e : TxEntry Unit) (x : Xfer),
      Reach txRunInit (txRunStep fun _ b => b) Any s ∧ e ∈ s.taken ∧ x ∈ e.xfers ∧
      txLength e.ic () e.frame = 72 ∧ x.written ≤ urtwnTxbufsz := by
  obtain ⟨s, hr, e, he, x, hx, hchip, hlen⟩ : ∃ s : TxRun Unit,
      Reach txRunInit (txRunStep fun _ b => b) Any s ∧ ∃ e ∈ s.taken, ∃ x ∈ e.xfers,
        e.start.chip92eu = false ∧ txLength e.ic () e.frame = 72 :=
    Reach.of_run [.xmit (ipv4Frame 40), .round (fun _ => true) none] (openTx_init 2346)
      (runOk_any _ _) (by decide +kernel)
  obtain ⟨_, _, hiff⟩ := txbuf_bound hr he hx
  refine ⟨s, e, x, hr, he, hx, hlen, hiff.mpr ?_⟩
  rw [hlen, hchip]
  decide

/-- A packet over the threshold: the first fragment is sent, and the mbuf of the second
is lost. -/
theorem second_fragment_lost :
    ∃ s : TxRun Unit, Reach txRunInit (txRunStep fun _ b => b) Any s ∧ ∃ e ∈ s.taken,
      e.finish.oerrors = e.start.oerrors ∧ e.node = some () ∧
      (e.xfers.flatMap fun x => framePayload (fun _ b => b) e.ic.icKeys () x.frame) ≠
        llcPayload e.frame ∧ ¬ AllFreed e.addr e.start.heap e.finish.heap := by
  obtain ⟨s, hr, e, he, herr, hnode, hne, hnext, hnext', halloc, hfreed⟩ : ∃ s : TxRun Unit,
      Reach txRunInit (txRunStep fun _ b => b) Any s ∧ ∃ e ∈ s.taken,
        e.finish.oerrors = e.start.oerrors ∧ e.node = some () ∧
        (e.xfers.flatMap fun x => framePayload (fun _ b => b) e.ic.icKeys () x.frame) ≠
          llcPayload e.frame ∧
        e.start.heap.next ≤ 1 ∧ 1 < e.finish.heap.next ∧ (e.start.heap.alloc 1).isSome = true ∧
        1 ∉ e.finish.heap.freed :=
    Reach.of_run [.xmit (ipv4Frame 286), .round (fun _ => true) none] (openTx_init 256)
      (runOk_any _ _) (by decide +kernel)
  refine ⟨s, hr, e, he, herr, hnode, hne, fun hall => hfreed (hall.2 1 hnext hnext' ?_)⟩
  exact isSome_iff_ne_none.mp halloc

theorem sent_complete_iff_sample :
    ∃ (s : TxRun Unit) (e : TxEntry Unit), Reach txRunInit (txRunStep fun _ b => b) Any s ∧
      e ∈ s.taken ∧ e.finish.oerrors = e.start.oerrors ∧
      (e.xfers.flatMap fun x => framePayload (fun _ b => b) e.ic.icKeys () x.frame) =
        llcPayload (ipv4Frame 40) ∧ AllFreed e.addr e.start.heap e.finish.heap := by
  obtain ⟨s, hr, e, he, herr, hfr, hframe⟩ : ∃ s : TxRun Unit,
      Reach txRunInit (txRunStep fun _ b => b) Any s ∧ ∃ e ∈ s.taken,
        e.finish.oerrors = e.start.oerrors ∧ txFragments e.ic () e.frame = false ∧
        e.frame = ipv4Frame 40 :=
    Reach.of_run [.xmit (ipv4Frame 40), .round (fun _ => true) none] (openTx_init 256)
      (runOk_any _ _) (by decide +kernel)
  obtain ⟨_, _, hiff⟩ := sent_complete_iff hr he herr
  exact ⟨s, e, hr, he, herr, hframe ▸ hiff.mpr hfr⟩

end Net80211.Urtwn
