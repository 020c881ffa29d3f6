import Net80211.Proofs.Defrag
import Net80211.Proofs.Replay

/-!
# What the host gets of an MSDU

From the fragments of an MSDU to the call of a hook: reassembly, `ieee80211_decap`,
the port, `ieee80211_deliver_data` and `if_percpuq_enqueue`. On octet strings the
first part is right: the chain that reaches the interface holds the Ethernet frame
(`decap_some`). The hook is given the first mbuf of it.
-/

namespace Net80211

open Lib Crypto List Function

/-! ## Decapsulation -/

/-- A number in network order. -/
def lenOctets (n : Nat) : List UInt8 := [(UInt16.ofNat n >>> 8).toUInt8, (UInt16.ofNat n).toUInt8]

/-- The Ethernet frame of an MSDU: the addresses, and behind them what follows the
SNAP header, which starts with the type, or else the length and all of it. -/
def etherFrame (addrs body : List UInt8) : List UInt8 :=
  if body.take 6 = llcSnap then addrs ++ body.drop 6 else addrs ++ lenOctets body.length ++ body

theorem length_decapAddrs (wh : Wh) : (decapAddrs wh).length = 12 := by
  rw [decapAddrs]
  split
  · rfl
  split
  · rfl
  split
  · rfl
  · rfl

theorem dir_cases (b : UInt8) : b &&& fc1DirMask = fc1DirNods ∨ b &&& fc1DirMask = fc1DirTods ∨
      b &&& fc1DirMask = fc1DirFromds ∨ b &&& fc1DirMask = fc1DirDstods := by
  have hmod : (b &&& fc1DirMask).toNat = b.toNat % 4 := by
    rw [UInt8.toNat_and]
    exact Nat.and_two_pow_sub_one_eq_mod b.toNat 2
  simp only [← UInt8.toNat_inj, hmod]
  have hlt : b.toNat % 4 < 4 := Nat.mod_lt _ (by decide)
  generalize b.toNat % 4 = k at hlt
  match k, hlt with
  | 0, _ => exact .inl rfl
  | 1, _ => exact .inr (.inl rfl)
  | 2, _ => exact .inr (.inr (.inl rfl))
  | 3, _ => exact .inr (.inr (.inr rfl))

/-- The addresses are read off the header, and the fourth one only where the header
has it. -/
theorem decapAddrs_congr {wh wh' : Wh} (h : ∀ i < 22, wh i = wh' i)
    (h4 : is4Address wh = true → window wh 24 6 = window wh' 24 6) :
    decapAddrs wh = decapAddrs wh' := by
  have hw : ∀ a, a + 6 ≤ 22 → window wh a 6 = window wh' a 6 := fun a ha =>
    window_congr 6 a fun k hk => h (a + k) (by omega)
  rw [decapAddrs, decapAddrs, ← h 1 (by decide), hw 4 (by decide), hw 10 (by decide),
    hw 16 (by decide)]
  split
  · rfl
  next hnods =>
  split
  · rfl
  next htods =>
  split
  · rfl
  next hfromds =>
  rw [h4]
  rw [is4Address, beq_iff_eq]
  rcases dir_cases (wh 1) with hd | hd | hd | hd
  · exact absurd (beq_iff_eq.mpr hd) hnods
  · exact absurd (beq_iff_eq.mpr hd) htods
  · exact absurd (beq_iff_eq.mpr hd) hfromds
  · exact hd

variable {h' : Heap}

/-- What `ieee80211_decap` makes of a packet whose header and LLC header are
contiguous. -/
theorem decap_pulled {h : Heap} {m m₁ : Mbuf} {ms ms₁ : List Mbuf} {hdrlen : Nat}
    (hge : 24 ≤ hdrlen) (hp : pullupTo h m ms (hdrlen + 8) = (h', some (m₁, ms₁)))
    (hf : m₁.hasPkthdr = true) (hlen : hdrlen + 8 ≤ m₁.mLen) :
    ∃ m' : Mbuf, decap h m ms hdrlen = (h', some (m' :: ms₁)) ∧ 14 ≤ m'.mLen ∧
      bytes (m' :: ms₁) = etherFrame (decapAddrs m₁.get) ((bytes (m₁ :: ms₁)).drop hdrlen) := by
  have hsnap : window m₁.get hdrlen 6 = ((bytes (m₁ :: ms₁)).drop hdrlen).take 6 :=
    window_get_eq_bytes ms₁ (by omega)
  -- The octets after a cut of `k`, with the addresses written over their start.
  have hcut : ∀ (k : Nat) (p : Nat), k + 14 ≤ m₁.mLen →
      bytes (Mbuf.put { m₁ with mLen := m₁.mLen - k, mData := m₁.mData + k, pkthdrLen := p } 0
        (decapAddrs m₁.get) :: ms₁) = decapAddrs m₁.get ++ (bytes (m₁ :: ms₁)).drop (k + 12) := by
    intro k p hk
    have hadj :
        bytes ({ m₁ with mLen := m₁.mLen - k, mData := m₁.mData + k, pkthdrLen := p } :: ms₁) =
        (bytes (m₁ :: ms₁)).drop k := by
      rw [← bytes_mAdj_head, mAdj_within hf (by omega)]
      rfl
    rw [bytes_put_head _ (by rw [length_decapAddrs]; simp only []; omega), hadj, patch,
      take_zero, nil_append, length_decapAddrs, drop_drop, Nat.zero_add]
  rw [decap, hp]
  simp only [hsnap, beq_iff_eq]
  by_cases hs : ((bytes (m₁ :: ms₁)).drop hdrlen).take 6 = llcSnap
  · have hsub : (hdrlen : Int) + 8 - 14 = ((hdrlen - 6 : Nat) : Int) := by omega
    simp only [hs, if_pos, hsub, mAdj_within hf (show hdrlen - 6 < m₁.mLen by omega)]
    refine ⟨_, rfl, ?_, ?_⟩
    · change 14 ≤ m₁.mLen - (hdrlen - 6)
      omega
    · rw [hcut _ _ (by omega), etherFrame, if_pos hs, drop_drop,
        show hdrlen - 6 + 12 = hdrlen + 6 by omega]
  · have hsub : (hdrlen : Int) - 14 = ((hdrlen - 14 : Nat) : Int) := by omega
    simp only [hs, if_false, hsub, mAdj_within hf (show hdrlen - 14 < m₁.mLen by omega)]
    refine ⟨_, rfl, ?_, ?_⟩
    · change 14 ≤ m₁.mLen - (hdrlen - 14)
      omega
    · -- The length goes behind the addresses, over what was the end of the header.
      have hbody : mLength (m₁ :: ms₁) - (hdrlen - 14) - 14 =
          ((bytes (m₁ :: ms₁)).drop hdrlen).length := by
        rw [length_drop, length_bytes]
        omega
      rw [bytes_put_head _ (show 12 + 2 ≤ m₁.mLen - (hdrlen - 14) by omega), hcut _ _ (by omega),
        etherFrame, if_neg hs, ← hbody, patch,
        take_left' (length_decapAddrs _), drop_append, length_decapAddrs, drop_drop,
        drop_eq_nil_of_le (by rw [length_decapAddrs]; simp), nil_append]
      simp only [length_cons, length_nil]
      rw [show hdrlen - 14 + 12 + (12 + (0 + 1 + 1) - 12) = hdrlen by omega]
      rfl

section Decap

variable {h : Heap} {m : Mbuf} {ms : List Mbuf} {hdrlen : Nat}

/-- The Ethernet frame of the packet, and whether all of it is in the first mbuf. -/
def Decapped (m : Mbuf) (ms : List Mbuf) (hdrlen : Nat) (m' : Mbuf) (ms' : List Mbuf) : Prop :=
  14 ≤ m'.mLen ∧
    bytes (m' :: ms') = etherFrame (decapAddrs m.get) ((bytes (m :: ms)).drop hdrlen) ∧
    (mLength ms' = 0 ↔ mLength (m :: ms) ≤ max m.mLen (hdrlen + 8))

variable (h ms) in
/-- `ieee80211_decap` fails where the headers cannot be made contiguous, and
otherwise makes the Ethernet frame. -/
theorem decap_cases (hge : 24 ≤ hdrlen) (hcont : hdrsize m.get ≤ m.mLen) (hf : m.hasPkthdr = true) :
    (∃ h', decap h m ms hdrlen = (h', none) ∧ m.mLen < hdrlen + 8 ∧
      (mclbytes - mhAlign < hdrlen + 8 ∨ mLength (m :: ms) < hdrlen + 8 ∨ h.alloc h.next = none)) ∨
    ∃ h' m' ms', decap h m ms hdrlen = (h', some (m' :: ms')) ∧ Decapped m ms hdrlen m' ms' := by
  obtain ⟨⟨h', r⟩, hp⟩ : ∃ x, pullupTo h m ms (hdrlen + 8) = x := ⟨_, rfl⟩
  cases r with
  | none =>
    refine .inl ⟨h', ?_, pullupTo_none hp⟩
    rw [decap, hp]
  | some c =>
    obtain ⟨m1, ms1⟩ := c
    obtain ⟨hb, hmax, hpk⟩ := pullupTo_some hp
    obtain ⟨m', hd, h14, hbytes⟩ := decap_pulled hge hp (hpk hf).1 (by omega)
    refine .inr ⟨h', m', ms1, hd, h14, ?_, ?_⟩
    · have hget : ∀ i < m.mLen, m.get i = m1.get i := fun i hi => by
        rw [get_eq_bytes ms hi, get_eq_bytes ms1 (by omega), hb]
      have h24 := hdrsize_ge m.get
      rw [hbytes, hb, decapAddrs_congr (fun i hi => hget i (by omega)) fun h4 => ?_]
      have h30 : 30 ≤ hdrsize m.get := by rw [hdrsize, if_pos h4]; omega
      exact window_congr 6 24 fun k hk => hget (24 + k) (by omega)
    · have htot : mLength (m :: ms) = m1.mLen + mLength ms1 := by
        rw [← length_bytes, ← hb, length_bytes, mLength_cons]
      omega

end Decap

/-! ## The hooks -/

section Rx

variable {ν : Type} [DecidableEq ν]

/-- What the hooks get of an Ethernet frame. -/
def rxUp (rx : Rx ν) (frame : List UInt8) : List RxUp :=
  if (frame.drop 12).take 2 == ethertypePae && rx.eapolRx then
    [.eapol ((frame.drop 6).take 6) (frame.drop 14)]
  else if rx.dataRx then [.data frame]
  else []

/-- The header of an Ethernet frame. -/
def etherHeaderOf (frame : List UInt8) : EtherHeader :=
  { etherDhost := frame.take 6, etherShost := (frame.drop 6).take 6
    etherType := (frame.drop 12).take 2 }

variable {m : Mbuf}

theorem etherHeader_eq (ms : List Mbuf) (h : 14 ≤ m.mLen) :
    etherHeader m = etherHeaderOf (bytes (m :: ms)) := by
  rw [etherHeader, etherHeaderOf, window_get_eq_bytes ms (by omega),
    window_get_eq_bytes ms (by omega), window_get_eq_bytes ms (by omega), drop_zero]

omit [DecidableEq ν] in
theorem ifPercpuqEnqueue_up (rx : Rx ν) (ms : List Mbuf) (h : 14 ≤ m.mLen) :
    (ifPercpuqEnqueue rx m ms).up = rx.up ++ rxUp rx m.bytes := by
  have heh := etherHeader_eq [] h
  rw [bytes_singleton] at heh
  have hrest : window m.get 14 (m.mLen - 14) = m.bytes.drop 14 := by
    rw [window_get_eq_bytes [] (by omega), bytes_singleton, take_of_length_le (by
      rw [length_drop, Mbuf.length_bytes])]
  rw [ifPercpuqEnqueue, rxUp]
  simp only [heh, hrest, etherHeaderOf]

/-- Does an access point send the frame back to the air, to another station? -/
def bridgedAway (rx : Rx ν) (dhost : List UInt8) : Bool :=
  rx.ic.icOpmode == .hostap && !rx.nobridge && !isMulticast (dhost.headD 0) &&
    match rx.icSta.find? fun n => (rx.ic.icNode n).niMacaddr = dhost with
    | none => false
    | some sta => (rx.ic.icNode sta).niAuth && sta ≠ rx.ic.icBss

theorem bridge_left (rx : Rx ν) (m : Mbuf) (ms : List Mbuf)
    (hap : (rx.ic.icOpmode = .hostap && !rx.nobridge) = true)
    (hb : bridgedAway rx (etherHeader m).etherDhost = false) :
    ∃ rx', bridge rx m ms = (rx', some (m, ms)) ∧ rx'.up = rx.up ∧ rx'.eapolRx = rx.eapolRx ∧
      rx'.dataRx = rx.dataRx := by
  simp only [Bool.and_eq_true, decide_eq_true_eq] at hap
  rw [bridge]
  split
  · split <;> exact ⟨_, rfl, rfl, rfl, rfl⟩
  next hmcast =>
  simp only [bridgedAway, hap.1, hap.2, hmcast, beq_self_eq_true, Bool.not_false, Bool.and_self,
    Bool.true_and] at hb
  split
  · exact ⟨_, rfl, rfl, rfl, rfl⟩
  · next sta hfind =>
    rw [hfind] at hb
    dsimp only at hb
    rw [hb]
    exact ⟨_, rfl, rfl, rfl, rfl⟩

theorem deliverData_up (rx : Rx ν) (ms : List Mbuf) (h : 14 ≤ m.mLen)
    (hb : bridgedAway rx (etherHeader m).etherDhost = false) :
    (deliverData rx m ms).up = rx.up ++ rxUp rx m.bytes := by
  rw [deliverData]
  by_cases hap : (rx.ic.icOpmode = .hostap && !rx.nobridge) = true
  · obtain ⟨rx', hbr, hup, heapol, hdata⟩ := bridge_left rx m ms hap hb
    rw [if_pos hap, hbr]
    rw [ifPercpuqEnqueue_up rx' ms h, hup, rxUp, rxUp, heapol, hdata]
  · rw [if_neg hap]
    exact ifPercpuqEnqueue_up rx ms h

variable {rx : Rx ν} {n : ν}

/-- A chain that passes the port and is not sent back goes to the hooks. -/
theorem inputDeliver_up {protect : Bool} {m' : Mbuf} {ms ms' : List Mbuf} {hdrspace : Nat}
    (hd : decap rx.heap m ms hdrspace = (h', some (m' :: ms'))) (h14 : 14 ≤ m'.mLen)
    (hport : portPasses rx.ic n protect (etherHeader m') = true)
    (hb : bridgedAway rx (etherHeader m').etherDhost = false) :
    (inputDeliver rx n protect m ms hdrspace).1.up = rx.up ++ rxUp rx m'.bytes := by
  rw [inputDeliver, hd]
  simp only [hport, if_true]
  exact deliverData_up { rx with heap := h' } ms' h14 hb

omit [DecidableEq ν] in
theorem rxUp_first_iff {ms : List Mbuf} (h14 : 14 ≤ m.mLen)
    (hook : rxUp rx (bytes (m :: ms)) ≠ []) :
    ∃ x, rxUp rx m.bytes = [x] ∧ ([x] = rxUp rx (bytes (m :: ms)) ↔ mLength ms = 0) := by
  have hlen : 14 ≤ m.bytes.length := by rw [Mbuf.length_bytes]; exact h14
  have hin : ∀ a n, a + n ≤ 14 →
      ((bytes (m :: ms)).drop a).take n = (m.bytes.drop a).take n := fun a n ha => by
    rw [bytes_cons, drop_append_of_le_length (by omega),
      take_append_of_le_length (by rw [length_drop]; omega)]
  have hmore : ∀ l : List UInt8, l = l ++ bytes ms ↔ mLength ms = 0 := fun l => by
    rw [self_eq_append_right, ← length_bytes, length_eq_zero_iff]
  rw [rxUp, rxUp, hin 12 2 (by decide), hin 6 6 (by decide)]
  rw [rxUp, hin 12 2 (by decide)] at hook
  split
  · refine ⟨_, rfl, ?_⟩
    rw [cons.injEq, RxUp.eapol.injEq, bytes_cons, drop_append_of_le_length hlen, hmore]
    simp
  next hpae =>
  rw [if_neg hpae] at hook
  split
  · refine ⟨_, rfl, ?_⟩
    rw [cons.injEq, RxUp.data.injEq, bytes_cons, hmore]
    simp
  · next hdata => rw [if_neg hdata] at hook; exact absurd rfl hook

/-! ## The frames of one MSDU -/

/-- The frames go through `ieee80211_input_data` behind the cipher, one after the
other; each comes with whether it had a key. -/
def receive (rx : Rx ν) (n : ν) (frames : List (RxFrame × Bool)) : Rx ν :=
  frames.foldl (fun rx fr => (inputMsdu rx n fr.2 fr.1.m fr.1.ms fr.1.hdrspace).1) rx

/-- What a fragment that is only stored leaves alone. -/
structure Unheard (rx rx' : Rx ν) : Prop where
  ic : rx'.ic = rx.ic
  icSta : rx'.icSta = rx.icSta
  nobridge : rx'.nobridge = rx.nobridge
  eapolRx : rx'.eapolRx = rx.eapolRx
  dataRx : rx'.dataRx = rx.dataRx
  up : rx'.up = rx.up
  alloc : rx'.heap.alloc = rx.heap.alloc

/-- The buffer of the node after the frames `parts`. -/
def Waits (before stored : Option (List Mbuf)) : List RxFrame → Prop
  | [] => stored = before
  | first :: rest => ∃ c, stored = some c ∧ Joined first rest c

variable {before : Option (List Mbuf)} {fr : RxFrame}

/-- In order, the next fragment is joined to what is stored; the first one finds
nothing that it follows. -/
theorem Assembled.waits {stored : Option (List Mbuf)} {parts : List RxFrame} {c : List Mbuf}
    {sn : UInt16} {ra ta : List UInt8} (hfr : Fragments sn ra ta (parts ++ [fr]))
    (hw : Waits before stored parts)
    (hfresh : parts = [] → ∀ c, before = some c → defragFollows c fr.m.get = false)
    (ha : Assembled stored fr c) : Waits before (some c) (parts ++ [fr]) := by
  cases parts with
  | nil =>
    cases ha with
    | start _ _ => exact ⟨_, rfl, .single fr⟩
    | join hc hfol => exact absurd hfol (by rw [hfresh rfl _ (hw.symm.trans hc)]; exact nofun)
  | cons first rest =>
    obtain ⟨c0, hc0, hj⟩ := hw
    have hfol := hj.follows hfr
    cases ha with
    | start hnot _ => exact absurd hfol (by rw [hnot _ hc0]; exact nofun)
    | join hc _ =>
      cases hc0.symm.trans hc
      exact ⟨_, rfl, hj.join fr⟩

/-- A call for the next fragment stores what it has, or returns it. -/
theorem DefragMove.waits {ni : NodeRx} {stored r : Option (List Mbuf)} {parts : List RxFrame}
    {sn : UInt16} {ra ta : List UInt8} (hm : DefragMove ni fr stored r) (htab : ni.niTable = true)
    (hfr : Fragments sn ra ta (parts ++ [fr])) (hw : Waits before ni.niRxfrag parts)
    (hfresh : parts = [] → ∀ c, before = some c → defragFollows c fr.m.get = false) :
    ∃ c, Waits before (some c) (parts ++ [fr]) ∧
      (fr.more = true ∧ stored = some c ∧ r = none ∨ fr.more = false ∧ r = some c) := by
  cases hm with
  | orphan hno => rw [htab] at hno; cases hno
  | discard hnot hfrag =>
    cases parts with
    | nil =>
      have h0 : fr.frag.toNat = 0 := (hfr 0 fr rfl).2.2.2
      exact absurd (UInt16.toNat_inj.mp h0) hfrag
    | cons first rest =>
      obtain ⟨c0, hc0, hj⟩ := hw
      have := hj.follows hfr
      rw [hnot _ hc0] at this
      cases this
  | store _ ha hmore => exact ⟨_, ha.waits hfr hw hfresh, .inl ⟨hmore, rfl, rfl⟩⟩
  | complete ha hmore => exact ⟨_, ha.waits hfr hw hfresh, .inr ⟨hmore, rfl⟩⟩

theorem inputMsdu_stored (protect : Bool) (huni : isMulticast (fr.m.get 4) = false) {ni' : NodeRx}
    (hd : defrag rx.heap rx.ticks (rx.node n) fr.m fr.ms fr.hdrspace = (h', ni', none)) :
    (inputMsdu rx n protect fr.m fr.ms fr.hdrspace).1 = { rx.setNode n ni' with heap := h' } := by
  rw [inputMsdu, inputDefrag, huni, if_neg nofun, hd]

theorem inputMsdu_complete (protect : Bool) (huni : isMulticast (fr.m.get 4) = false) {ni' : NodeRx}
    {f : Mbuf} {fs : List Mbuf}
    (hd : defrag rx.heap rx.ticks (rx.node n) fr.m fr.ms fr.hdrspace = (h', ni', some (f :: fs))) :
    inputMsdu rx n protect fr.m fr.ms fr.hdrspace =
      inputDeliver { rx.setNode n ni' with heap := h' } n protect f fs fr.hdrspace := by
  rw [inputMsdu, inputDefrag, huni, if_neg nofun, hd]

/-- Fragments that come after `parts` and are not the last one. -/
theorem receive_waits {sn : UInt16} {ra ta : List UInt8} (huni : isMulticast (ra.headD 0) = false) :
    ∀ (frames : List (RxFrame × Bool)) (parts : List RxFrame) (rx : Rx ν),
      (rx.node n).niTable = true → Fragments sn ra ta (parts ++ frames.map Prod.fst) →
      (∀ p ∈ frames, p.1.more = true) →
      (parts = [] → ∀ p ∈ frames.head?, ∀ c, before = some c → defragFollows c p.1.m.get = false) →
      Waits before (rx.node n).niRxfrag parts →
      Unheard rx (receive rx n frames) ∧ ((receive rx n frames).node n).niTable = true ∧
        Waits before ((receive rx n frames).node n).niRxfrag (parts ++ frames.map Prod.fst) := by
  intro frames
  induction frames with
  | nil =>
    intro parts rx htab _ _ _ hw
    rw [map_nil, append_nil]
    exact ⟨⟨rfl, rfl, rfl, rfl, rfl, rfl, rfl⟩, htab, hw⟩
  | cons fr frames ih =>
    intro parts rx htab hfr hmore hfresh hw
    obtain ⟨⟨h', ni', r⟩, hd⟩ :
        ∃ x, defrag rx.heap rx.ticks (rx.node n) fr.1.m fr.1.ms fr.1.hdrspace = x := ⟨_, rfl⟩
    obtain ⟨hm, htab', halloc⟩ := defrag_move hd
    rw [map_cons, append_cons] at hfr ⊢
    obtain ⟨c, hwait, ⟨_, hst, rfl⟩ | ⟨hlast, _⟩⟩ :=
      hm.waits htab hfr.left hw (fun h0 => hfresh h0 fr rfl)
    · have hmc : isMulticast (fr.1.m.get 4) = false := by
        have := (hfr parts.length fr.1 (by simp)).2.1
        rw [← this] at huni
        exact huni
      have hstep := inputMsdu_stored fr.2 hmc hd
      have hnode : ({ rx.setNode n ni' with heap := h' } : Rx ν).node n = ni' :=
        update_self ..
      obtain ⟨hun, htab'', hw'⟩ := ih (parts ++ [fr.1]) { rx.setNode n ni' with heap := h' }
        (by rw [hnode, htab', htab]) hfr (fun p hp => hmore p (mem_cons_of_mem _ hp))
        (fun h0 => absurd h0 (by simp)) (by rw [hnode, hst]; exact hwait)
      rw [receive, foldl_cons, hstep]
      exact ⟨⟨hun.ic, hun.icSta, hun.nobridge, hun.eapolRx, hun.dataRx, hun.up,
        hun.alloc.trans halloc⟩, htab'', hw'⟩
    · rw [hmore fr mem_cons_self] at hlast
      cases hlast

variable {rest : List RxFrame}

/-- The Ethernet frame of joined fragments, with the addresses of the first one. -/
theorem Joined.decap_cases {first : RxFrame} {f : Mbuf} {fs : List Mbuf}
    (hj : Joined first rest (f :: fs)) (h : Heap) {hdrlen : Nat} (hge : 24 ≤ hdrlen) :
    (∃ h', decap h f fs hdrlen = (h', none) ∧ f.mLen < hdrlen + 8 ∧
      (mclbytes - mhAlign < hdrlen + 8 ∨ mLength (f :: fs) < hdrlen + 8 ∨ h.alloc h.next = none)) ∨
    ∃ h' m' ms', decap h f fs hdrlen = (h', some (m' :: ms')) ∧ 14 ≤ m'.mLen ∧ bytes (m' :: ms') =
        etherFrame (decapAddrs first.m.get) ((bytes (f :: fs)).drop hdrlen) ∧
      (mLength ms' = 0 ↔ mLength (f :: fs) ≤ max first.m.mLen (hdrlen + 8)) := by
  obtain ⟨f', fs', heq, hlen, hflags, hget⟩ := hj.head
  cases heq
  have hout : ∀ i, i < 22 ∨ 24 ≤ i → f.get i = first.m.get i := fun i hi => by
    rw [hget]
    rcases hi with hi | hi
    · exact store_of_lt _ _ hi
    · exact store_of_ge _ hi
  have hsz : hdrsize f.get = hdrsize first.m.get := by
    rw [hdrsize, hdrsize, is4Address, is4Address, hasQos, hasQos, hout 0 (.inl (by decide)),
      hout 1 (.inl (by decide))]
  have hcont : hdrsize f.get ≤ f.mLen := by
    rw [hsz, hlen]
    exact Nat.le_trans first.hdrsize_le first.contiguous
  have hf : f.hasPkthdr = true := by rw [Mbuf.hasPkthdr, hflags]; exact first.pkthdr
  rcases Net80211.decap_cases h fs hge hcont hf with hnone | ⟨h', m', ms', hd, h14, hb, hfit⟩
  · exact .inl hnone
  · refine .inr ⟨h', m', ms', hd, h14, ?_, by rw [hfit, hlen]⟩
    rw [hb, decapAddrs_congr (fun i hi => hout i (.inl hi)) fun _ =>
      window_congr 6 24 fun k _ => hout (24 + k) (.inr (Nat.le_add_right _ _))]

theorem Joined.body {first : RxFrame} {c : List Mbuf} (hj : Joined first rest c) :
    (bytes c).drop first.hdrspace = (first :: rest).flatMap RxFrame.payload ∧
      mLength c = first.hdrspace + ((first :: rest).flatMap RxFrame.payload).length := by
  have h24 := first.le_hdrspace
  have hcont := first.contiguous
  have hfirst : (bytes first.chain).length = first.m.mLen + mLength first.ms := by
    rw [length_bytes, RxFrame.chain, mLength_cons]
  have hoct : 22 + (rest.getLastD first).seqOctets.length ≤ (bytes first.chain).length := by
    change 24 ≤ _
    omega
  have hle :
      first.hdrspace ≤ (patch (bytes first.chain) 22 (rest.getLastD first).seqOctets).length := by
    rw [length_patch hoct]
    omega
  have hbody : (bytes c).drop first.hdrspace = (first :: rest).flatMap RxFrame.payload := by
    rw [hj.octets, drop_append_of_le_length hle, drop_patch hoct h24, flatMap_cons, RxFrame.payload]
  refine ⟨hbody, ?_⟩
  rw [← hbody, length_drop, ← length_bytes, hj.octets, length_append]
  omega

/-- The Ethernet frame of an MSDU that comes in fragments: addresses from the first
one, and the payload of all of them. -/
def msduFrame : List RxFrame → List UInt8
  | [] => []
  | first :: rest =>
    etherFrame (decapAddrs first.m.get) ((first :: rest).flatMap RxFrame.payload)

/-- All of the MSDU is in the first mbuf of the first fragment, or the LLC header
that is made contiguous is all of it. -/
def FitsFirst : List RxFrame → Prop
  | [] => True
  | first :: rest =>
    first.hdrspace + ((first :: rest).flatMap RxFrame.payload).length ≤
      max first.m.mLen (first.hdrspace + 8)

instance : ∀ parts : List RxFrame, Decidable (FitsFirst parts)
  | [] => .isTrue trivial
  | _ :: _ => inferInstanceAs (Decidable (_ ≤ _))

/-- The fragments of one MSDU come in for node `n`, in order. They have headers of
one size, and what is sent to a group is not fragmented. There is memory, the port
lets the frame pass, it is not for another station, and a hook is set for it. -/
structure Arrives (rx : Rx ν) (n : ν) (frames : List (RxFrame × Bool)) : Prop where
  one : OneMsdu (frames.map Prod.fst)
  nonempty : frames ≠ []
  hdrspace : ∀ p ∈ frames, ∀ q ∈ frames, p.1.hdrspace = q.1.hdrspace
  group : ∀ p ∈ frames, isMulticast (p.1.m.get 4) = true → frames = [p]
  table : (rx.node n).niTable = true
  fresh : ∀ p ∈ frames.head?, ∀ c, (rx.node n).niRxfrag = some c →
    defragFollows c p.1.m.get = false
  memory : ∀ k, rx.heap.alloc k ≠ none
  llc : 8 ≤ ((frames.map Prod.fst).flatMap RxFrame.payload).length
  port : ∀ p ∈ frames.getLast?,
    portPasses rx.ic n p.2 (etherHeaderOf (msduFrame (frames.map Prod.fst))) = true
  kept : bridgedAway rx (etherHeaderOf (msduFrame (frames.map Prod.fst))).etherDhost = false
  hook : rxUp rx (msduFrame (frames.map Prod.fst)) ≠ []

theorem inputDeliver_joined {protect : Bool} {first : RxFrame} {f : Mbuf} {fs : List Mbuf}
    (hj : Joined first rest (f :: fs)) (hmem : ∀ k, rx.heap.alloc k ≠ none)
    (hllc : 8 ≤ ((first :: rest).flatMap RxFrame.payload).length)
    (hport : portPasses rx.ic n protect (etherHeaderOf (msduFrame (first :: rest))) = true)
    (hkept : bridgedAway rx (etherHeaderOf (msduFrame (first :: rest))).etherDhost = false)
    (hook : rxUp rx (msduFrame (first :: rest)) ≠ []) :
    ∃ x, (inputDeliver rx n protect f fs first.hdrspace).1.up = rx.up ++ [x] ∧
      ([x] = rxUp rx (msduFrame (first :: rest)) ↔ FitsFirst (first :: rest)) := by
  obtain ⟨hbody, htot⟩ := hj.body
  have h32 := first.hdrspace_le
  rcases hj.decap_cases rx.heap first.le_hdrspace with
    ⟨_, _, _, hbig | hshort | hnomem⟩ | ⟨h', m', ms', hd, h14, hb, hfit⟩
  · have : mclbytes - mhAlign = 3840 := rfl
    omega
  · omega
  · exact absurd hnomem (hmem _)
  · rw [hbody] at hb
    rw [htot] at hfit
    have hframe : msduFrame (first :: rest) = bytes (m' :: ms') := hb.symm
    rw [hframe] at hport hkept hook ⊢
    rw [← etherHeader_eq ms' h14] at hport hkept
    obtain ⟨x, hx, hiff⟩ := rxUp_first_iff h14 hook
    refine ⟨x, ?_, hiff.trans hfit⟩
    rw [inputDeliver_up hd h14 hport hkept, hx]

theorem Unheard.bridgedAway {rx' : Rx ν} (hu : Unheard rx rx') (dhost : List UInt8) :
    bridgedAway rx' dhost = Net80211.bridgedAway rx dhost := by
  rw [Net80211.bridgedAway, Net80211.bridgedAway, hu.ic, hu.icSta, hu.nobridge]

omit [DecidableEq ν] in
theorem Unheard.rxUp {rx' : Rx ν} (hu : Unheard rx rx') (frame : List UInt8) :
    rxUp rx' frame = Net80211.rxUp rx frame := by
  rw [Net80211.rxUp, Net80211.rxUp, hu.eapolRx, hu.dataRx]

omit [DecidableEq ν] in
/-- The last fragment of an MSDU, after the others were stored, is returned with them. -/
theorem defrag_last {init : List RxFrame} {last : RxFrame} (hone : OneMsdu (init ++ [last]))
    (htab : (rx.node n).niTable = true) (hw : Waits before (rx.node n).niRxfrag init)
    (hfresh : init = [] → ∀ c, before = some c → defragFollows c last.m.get = false) :
    ∃ h' ni' f fs first rest,
      defrag rx.heap rx.ticks (rx.node n) last.m last.ms last.hdrspace = (h', ni', some (f :: fs)) ∧
      h'.alloc = rx.heap.alloc ∧ init ++ [last] = first :: rest ∧ Joined first rest (f :: fs) := by
  obtain ⟨sn, ra, ta, hfr, hmore⟩ := hone
  have hno : last.more = false := by
    have := hmore init.length last (by simp)
    rw [length_append, length_singleton] at this
    exact Bool.eq_false_iff.mpr fun hm => absurd (this.mp hm) (Nat.lt_irrefl _)
  obtain ⟨⟨h', ni', r⟩, hd⟩ :
      ∃ x, defrag rx.heap rx.ticks (rx.node n) last.m last.ms last.hdrspace = x := ⟨_, rfl⟩
  obtain ⟨hm, _, halloc⟩ := defrag_move hd
  obtain ⟨c, hwait, ⟨hyes, _⟩ | ⟨_, rfl⟩⟩ := hm.waits htab hfr hw hfresh
  · rw [hno] at hyes; cases hyes
  cases hl : init ++ [last] with
  | nil => exact absurd hl (by simp)
  | cons first rest =>
    rw [hl] at hwait
    obtain ⟨c', hc', hj⟩ := hwait
    cases hc'
    obtain ⟨f, fs, rfl, _⟩ := hj.head
    exact ⟨h', ni', f, fs, first, rest, hd, halloc, rfl, hj⟩

/-- All fragments of an MSDU but the last one are stored. -/
theorem receive_init {init : List (RxFrame × Bool)} {last : RxFrame}
    (hone : OneMsdu (init.map Prod.fst ++ [last])) (huni : isMulticast (last.m.get 4) = false)
    (htab : (rx.node n).niTable = true)
    (hfresh : ∀ p ∈ init.head?, ∀ c, (rx.node n).niRxfrag = some c →
      defragFollows c p.1.m.get = false) :
    Unheard rx (receive rx n init) ∧ ((receive rx n init).node n).niTable = true ∧
      Waits (rx.node n).niRxfrag ((receive rx n init).node n).niRxfrag (init.map Prod.fst) := by
  obtain ⟨sn, ra, ta, hfr, hmore⟩ := hone
  have hlast := hfr init.length last (by simp)
  refine receive_waits (by rw [← hlast.2.1]; exact huni) init [] rx htab hfr.left ?_
    (fun _ => hfresh) rfl
  intro p hp
  obtain ⟨i, hi⟩ := mem_iff_getElem?.mp hp
  have hlt := (List.getElem?_eq_some_iff.mp hi).1
  refine (hmore i p.1 ?_).mpr ?_
  · rw [getElem?_append_left (by rw [length_map]; exact hlt), getElem?_map, hi]
    rfl
  · rw [length_append, length_map, length_singleton]
    omega

theorem inputMsdu_last {rx₁ : Rx ν} {init : List (RxFrame × Bool)} {last : RxFrame × Bool}
    (ha : Arrives rx n (init ++ [last])) (huni : isMulticast (last.1.m.get 4) = false)
    (hun : Unheard rx rx₁) (htab : (rx₁.node n).niTable = true)
    (hw : Waits (rx.node n).niRxfrag (rx₁.node n).niRxfrag (init.map Prod.fst)) :
    ∃ x, (inputMsdu rx₁ n last.2 last.1.m last.1.ms last.1.hdrspace).1.up = rx.up ++ [x] ∧
      ([x] = rxUp rx (msduFrame ((init ++ [last]).map Prod.fst)) ↔
        FitsFirst ((init ++ [last]).map Prod.fst)) := by
  have hparts : (init ++ [last]).map Prod.fst = init.map Prod.fst ++ [last.1] := by
    rw [map_append, map_singleton]
  have hfresh : init.map Prod.fst = [] → ∀ c, (rx.node n).niRxfrag = some c →
      defragFollows c last.1.m.get = false := by
    intro h0
    rw [map_eq_nil_iff.mp h0] at ha
    exact ha.fresh last rfl
  obtain ⟨h', ni', f, fs, first, rest, hd, halloc, heq, hj⟩ :=
    defrag_last (hparts ▸ ha.one) htab hw hfresh
  have hhdr : last.1.hdrspace = first.hdrspace := by
    have hmem : first ∈ (init ++ [last]).map Prod.fst := by
      rw [hparts, heq]; exact mem_cons_self
    obtain ⟨p, hp, rfl⟩ := mem_map.mp hmem
    exact ha.hdrspace last (by simp) p hp
  have hport := ha.port last (by simp)
  have hkept := ha.kept
  have hook := ha.hook
  have hllc := ha.llc
  rw [hparts, heq] at hport hkept hook hllc ⊢
  have hun2 : Unheard rx { rx₁.setNode n ni' with heap := h' } :=
    ⟨hun.ic, hun.icSta, hun.nobridge, hun.eapolRx, hun.dataRx, hun.up, halloc.trans hun.alloc⟩
  rw [inputMsdu_complete last.2 huni hd, hhdr, ← hun2.up, ← hun2.rxUp]
  refine inputDeliver_joined hj ?_ hllc ?_ ?_ ?_
  · rw [hun2.alloc]; exact ha.memory
  · rw [hun2.ic]; exact hport
  · rw [hun2.bridgedAway]; exact hkept
  · rw [hun2.rxUp]; exact hook

/-- One thing is handed up for an MSDU. It is the whole Ethernet frame exactly where
the first mbuf has it all. -/
theorem msdu_handed_up {rx : Rx ν} {n : ν} {frames : List (RxFrame × Bool)}
    (ha : Arrives rx n frames) : ∃ x, (receive rx n frames).up = rx.up ++ [x] ∧
      ([x] = rxUp rx (msduFrame (frames.map Prod.fst)) ↔ FitsFirst (frames.map Prod.fst)) := by
  obtain ⟨init, last, rfl⟩ : ∃ init last, frames = init ++ [last] := by
    rcases eq_nil_or_concat frames with h0 | ⟨init, last, h⟩
    · exact absurd h0 ha.nonempty
    · exact ⟨init, last, by rw [h, concat_eq_append]⟩
  rw [receive, foldl_append, foldl_cons, foldl_nil]
  cases hmc : isMulticast (last.1.m.get 4) with
  | true =>
    -- What is sent to a group comes in one frame, and is not looked at before.
    have hone : init = [] := by
      have := congrArg length (ha.group last (by simp) hmc)
      rw [length_append, length_singleton] at this
      exact eq_nil_of_length_eq_zero (by omega)
    subst hone
    rw [foldl_nil, inputMsdu, inputDefrag, if_pos hmc]
    exact inputDeliver_joined (.single last.1) ha.memory ha.llc (ha.port last rfl) ha.kept ha.hook
  | false =>
    have hone := ha.one
    rw [map_append, map_singleton] at hone
    obtain ⟨hun, htab, hw⟩ := receive_init hone hmc ha.table (by
      intro p hp
      refine ha.fresh p ?_
      rw [head?_append, hp]
      rfl)
    exact inputMsdu_last ha hmc hun htab hw

end Rx

/-- A station with both hooks set, associated with an access point, and authorized. -/
def stationRx (flags : IcFlags) (key : Key) : Rx Unit :=
  { heap := plenty
    ic :=
      { icOpmode := .sta, icState := .run, icFlags := flags, icBss := ()
        icNode := fun _ =>
          { niMacaddr := [2, 0, 0, 0, 0, 2], niBssid := [2, 0, 0, 0, 0, 2], niAuth := true
            niQos := false, niAuthmode := .open, niTxseqs := fun _ => 0 }
        icScan := [()]
        icKeys := { key := fun _ => key, defTxkey := none, hwCcm := false, datapad := false }
        icMyaddr := [2, 0, 0, 0, 0, 1], icRoamingAuto := false, icFragthreshold := 2346
        icNoack := fun _ => false }
    node := fun _ => nodeRxInit, icSta := [], scan := false, nobridge := false, simplex := true
    eapolRx := true, dataRx := true, ticks := 0, ifSnd := [], replies := [], up := [] }

/-- A station in an open network. -/
def openStation : Rx Unit :=
  stationRx { privacy := false, wpa1 := false, wpa2 := false, dropunenc := false, desbssid := true }
    resetkey

/-- An MSDU of eleven octets. -/
def wholeFrame : List (RxFrame × Bool) :=
  [(apFrame 1 false 0x30 0 (llcSnap ++ [8, 0, 1, 2, 3]), false)]

/-- The same in two fragments, the first one with the LLC header and one octet. -/
def twoFragments : List (RxFrame × Bool) :=
  [(apFrame 1 true 0x30 0 (llcSnap ++ [8, 0, 1]), false), (apFrame 2 false 0x31 0 [2, 3], false)]

theorem wholeFrame_arrives : Arrives openStation () wholeFrame where
  one := ⟨3, [2, 0, 0, 0, 0, 1], [2, 0, 0, 0, 0, 2], fun i p hp => match i, hp with
    | 0, rfl => by decide, fun i p hp => match i, hp with
    | 0, rfl => by decide⟩
  nonempty := nofun
  hdrspace := by decide
  group := fun p hp _ => by rw [mem_singleton.mp hp]; rfl
  table := rfl
  fresh := fun _ _ _ hc => nomatch hc
  memory := nofun
  llc := by decide
  port := by decide
  kept := by decide
  hook := by decide

theorem twoFragments_arrives : Arrives openStation () twoFragments where
  one := ⟨3, [2, 0, 0, 0, 0, 1], [2, 0, 0, 0, 0, 2], fun i p hp => match i, hp with
    | 0, rfl => by decide
    | 1, rfl => by decide, fun i p hp => match i, hp with
    | 0, rfl => by decide
    | 1, rfl => by decide⟩
  nonempty := nofun
  hdrspace := by decide
  group := by
    have hall : ∀ p ∈ twoFragments, isMulticast (p.1.m.get 4) = false := by decide
    exact fun p hp hmc => absurd hmc (by rw [hall p hp]; exact nofun)
  table := rfl
  fresh := fun _ _ _ hc => nomatch hc
  memory := nofun
  llc := by decide
  port := by decide
  kept := by decide
  hook := by decide

/-- The one frame is handed up as it is, and the fragments are not. -/
theorem msdu_handed_up_sample :
    (receive openStation () wholeFrame).up =
      [.data [2, 0, 0, 0, 0, 1, 2, 0, 0, 0, 0, 3, 8, 0, 1, 2, 3]] ∧
    ∃ x, (receive openStation () twoFragments).up = [x] ∧
      [x] ≠ rxUp openStation (msduFrame (twoFragments.map Prod.fst)) := by
  obtain ⟨x, hup, hx⟩ := msdu_handed_up wholeFrame_arrives
  obtain ⟨y, hup2, hy⟩ := msdu_handed_up twoFragments_arrives
  refine ⟨?_, y, hup2, mt hy.mp (by decide)⟩
  rw [hup, hx.mpr (by decide)]
  decide +kernel

/-- The hook gets the first fragment. -/
theorem msdu_cut_short : Arrives openStation () twoFragments ∧
      (receive openStation () twoFragments).up =
      [.data [2, 0, 0, 0, 0, 1, 2, 0, 0, 0, 0, 3, 8, 0, 1]] ∧
      rxUp openStation (msduFrame (twoFragments.map Prod.fst)) =
        [.data [2, 0, 0, 0, 0, 1, 2, 0, 0, 0, 0, 3, 8, 0, 1, 2, 3]] :=
  ⟨twoFragments_arrives, by decide +kernel, by decide +kernel⟩

end Net80211
