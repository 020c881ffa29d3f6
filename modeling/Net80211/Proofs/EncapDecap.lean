import Net80211.Proofs.EncapChain

/-!
# What `ieee80211_decap` makes of the frames of `ieee80211_encap`

The frames of a sender reach the receiver octet for octet, in mbufs of any shape (`Heard`). What the
receiver reads in the header of each of them is what `ieee80211_encap` wrote there (`Addressed`), so
the header has the size it was given, and the addresses of the Ethernet frame are found where its
direction says. A frame that was not fragmented is the only piece of itself.

The pieces are counted in four bits, so the numbers of a fragmented frame run from 0 to 15 again and
again. For the receiver each run of them is a frame of its own: the number 0 never follows a stored
15 of the same frame, so `ieee80211_defrag` gives up what it has and starts over, and what it
returns in the end is the last run (`receive_numbered`). That is all of the frame as long as there
is one run.
-/

namespace Net80211

open Lib Crypto List Option

/-! ## The header -/

section Addressed

variable {ν : Type} {ic : Ic ν} {n : ν} {eth addrs : List UInt8} {dir : UInt8}

/-- What the header of a frame says of the Ethernet frame `eth`. -/
structure Addressed (ic : Ic ν) (n : ν) (eth : List UInt8) (dir : UInt8) (addrs : List UInt8)
    (wh : Wh) : Prop where
  fc0 : wh 0 = if encapQos ic n eth then 0x88 else 0x08
  dir : wh 1 &&& fc1DirMask = dir
  addrs : window wh 4 18 = addrs

theorem Addressed.congr {wh wh' : Wh} (hA : Addressed ic n eth dir addrs wh) (h0 : wh' 0 = wh 0)
    (h1 : wh' 1 &&& fc1DirMask = wh 1 &&& fc1DirMask) (h : ∀ i, 4 ≤ i → i < 22 → wh' i = wh i) :
    Addressed ic n eth dir addrs wh' := by
  refine ⟨h0.trans hA.fc0, h1.trans hA.dir, ?_⟩
  rw [← hA.addrs]
  exact window_congr _ _ fun k hk => h _ (by omega) (by omega)

/-- The directions of the frames that are sent. -/
theorem encapAddrs_dir {eh : EtherHeader} (h : encapAddrs ic n eh = some (dir, addrs)) :
    dir = fc1DirTods ∨ dir = fc1DirNods ∨ dir = fc1DirFromds := by
  rw [encapAddrs] at h
  cases hop : ic.icOpmode with
  | monitor => rw [hop] at h; cases h
  | sta => rw [hop] at h; cases h; exact .inl rfl
  | ibss | ahdemo => rw [hop] at h; cases h; exact .inr (.inl rfl)
  | hostap => rw [hop] at h; cases h; exact .inr (.inr rfl)

/-- The receiver finds the payload where the sender put it. -/
theorem Addressed.hdrspace {wh : Wh} (hA : Addressed ic n eth dir addrs wh)
    (ha : encapAddrs ic n (etherHeaderOf eth) = some (dir, addrs)) :
    hdrspace ic.icKeys.datapad wh = encapHdrsize ic n eth := by
  have hqos : hasQos wh = encapQos ic n eth := by
    rw [hasQos, hA.fc0]
    cases encapQos ic n eth <;> decide
  have h4 : is4Address wh = false := by
    rw [is4Address, hA.dir]
    rcases encapAddrs_dir ha with rfl | rfl | rfl <;> decide
  rw [Net80211.hdrspace, hdrsize, hqos, h4, encapHdrsize]
  cases hq : encapQos ic n eth with
  | true | false =>
    rw [encapQos] at hq
    rw [hq]
    rfl

theorem Addressed.decapAddrs {wh : Wh} (hA : Addressed ic n eth dir addrs wh)
    (hb : ∀ n, (ic.icNode n).niBssid.length = 6) (hlen : 14 ≤ eth.length)
    (ha : encapAddrs ic n (etherHeaderOf eth) = some (dir, addrs)) :
    decapAddrs wh = eth.take 12 := by
  have hd : (etherHeaderOf eth).etherDhost.length = 6 := by
    rw [etherHeaderOf, length_take]
    omega
  have hs : (etherHeaderOf eth).etherShost.length = 6 := by
    rw [etherHeaderOf, length_take, length_drop]
    omega
  have heth : (etherHeaderOf eth).etherDhost ++ (etherHeaderOf eth).etherShost = eth.take 12 := by
    rw [etherHeaderOf, show (12 : Nat) = 6 + 6 from rfl, take_add]
  have hw : ∀ a : Nat, a + 6 ≤ 18 → window wh (4 + a) 6 = (addrs.drop a).take 6 := by
    intro a ha
    rw [← hA.addrs, drop_window, take_window _ _ (by omega)]
  -- three addresses of six octets, by their places
  have hthree : ∀ x y z : List UInt8, x.length = 6 → y.length = 6 → z.length = 6 →
      addrs = x ++ y ++ z → window wh 4 6 = x ∧ window wh 10 6 = y ∧ window wh 16 6 = z := by
    rintro x y z hx hy hz rfl
    refine ⟨?_, ?_, ?_⟩
    · rw [show (4 : Nat) = 4 + 0 from rfl, hw 0 (by decide), drop_zero, append_assoc, take_left' hx]
    · rw [show (10 : Nat) = 4 + 6 from rfl, hw 6 (by decide), append_assoc, drop_left' hx,
        take_left' hy]
    · rw [show (16 : Nat) = 4 + 12 from rfl, hw 12 (by decide),
        drop_left' (by rw [length_append, hx, hy]), take_of_length_le (by omega)]
  rw [Net80211.decapAddrs, hA.dir, ← heth]
  rw [encapAddrs] at ha
  cases hop : ic.icOpmode with
  | monitor => rw [hop] at ha; cases ha
  | sta =>
    rw [hop] at ha
    obtain ⟨rfl, heq⟩ := Prod.mk.inj (Option.some.inj ha)
    obtain ⟨-, h10, h16⟩ := hthree _ _ _ (hb _) hs hd heq.symm
    rw [h10, h16]
    rfl
  | ibss | ahdemo =>
    rw [hop] at ha
    obtain ⟨rfl, heq⟩ := Prod.mk.inj (Option.some.inj ha)
    obtain ⟨h4, h10, -⟩ := hthree _ _ _ hd hs (hb _) heq.symm
    rw [h4, h10]
    rfl
  | hostap =>
    rw [hop] at ha
    obtain ⟨rfl, heq⟩ := Prod.mk.inj (Option.some.inj ha)
    obtain ⟨h4, -, h16⟩ := hthree _ _ _ hd (hb _) hs heq.symm
    rw [h4, h16]
    rfl

/-- The addresses and the payload behind its LLC header are the Ethernet frame again. -/
theorem etherFrame_llcPayload (eth : List UInt8) :
    etherFrame (eth.take 12) (llcPayload eth) = eth := by
  have h6 : llcSnap.length = 6 := rfl
  rw [etherFrame, llcPayload, if_pos (take_left' h6), drop_left' h6, take_append_drop]

/-- The other bits beside the direction: More-Data and Protected, but not More-Fragments. -/
theorem Encapped.fc1_bits {f : Mbuf} {fs : List Mbuf} (he : Encapped ic n eth dir addrs f fs)
    (ha : encapAddrs ic n (etherHeaderOf eth) = some (dir, addrs)) :
    f.get 1 &&& fc1DirMask = dir ∧ f.get 1 &&& fc1MoreFrag = 0 := by
  rw [he.fc1]
  rcases encapAddrs_dir ha with rfl | rfl | rfl <;> split <;> split <;> decide

/-- The header of the frame before it is fragmented. -/
theorem Encapped.addressed {f : Mbuf} {fs : List Mbuf} (he : Encapped ic n eth dir addrs f fs)
    (ha : encapAddrs ic n (etherHeaderOf eth) = some (dir, addrs)) :
    Addressed ic n eth dir addrs (hdrOf (bytes (f :: fs))) := by
  have h24 := (encapHdrsize_bounds ic n eth).1
  have hcont := he.contiguous
  have hget : ∀ i < 24, hdrOf (bytes (f :: fs)) i = f.get i :=
    fun i hi => (get_eq_bytes fs (by omega)).symm
  have hown : Addressed ic n eth dir addrs f.get := ⟨he.fc0, (he.fc1_bits ha).1, he.addrs⟩
  exact hown.congr (hget 0 (by decide)) (by rw [hget 1 (by decide)]) fun i _ hi => hget i (by omega)

end Addressed

/-! ## The frames -/

/-- The direction is not touched by fragmentation. -/
theorem dir_of_clear {x y : UInt8} (h : x &&& ~~~fc1MoreFrag = y &&& ~~~fc1MoreFrag) :
    x &&& fc1DirMask = y &&& fc1DirMask := by
  have hmask : fc1DirMask = ~~~fc1MoreFrag &&& fc1DirMask := by decide
  rw [hmask, ← UInt8.and_assoc, ← UInt8.and_assoc, h]

/-- A frame with the octets of the chain `c` comes in, in mbufs of any shape with its header
contiguous, and the size of the header is read off it. -/
structure Heard (datapad : Bool) (c : List Mbuf) (fr : RxFrame) : Prop where
  octets : bytes fr.chain = bytes c
  space : fr.hdrspace = hdrspace datapad fr.m.get

variable {c : List Mbuf} {fr : RxFrame} {i : Nat}

theorem Heard.get {datapad : Bool} (h : Heard datapad c fr)
    (hi : i < 24) : fr.m.get i = hdrOf (bytes c) i := by
  have h24 := fr.le_hdrspace
  have hcont := fr.contiguous
  rw [get_eq_bytes fr.ms (by omega), hdrOf, ← h.octets]
  rfl

/-! ## Fragments that are counted in four bits -/

section Numbered

variable {sn : UInt16} {ra ta : List UInt8} {parts : List RxFrame}

/-- The frames are pieces of what `ta` sent to `ra` under the number `sn`, in order and all of
them, and their numbers start over after sixteen. -/
def Numbered (sn : UInt16) (ra ta : List UInt8) (parts : List RxFrame) : Prop :=
  ∀ (i : Nat) (p : RxFrame), parts[i]? = some p →
    (p.seq = sn ∧ p.addr1 = ra ∧ p.addr2 = ta ∧ p.frag.toNat = i % 16) ∧
      (p.more = true ↔ i + 1 < parts.length)

theorem Numbered.fragments (hn : Numbered sn ra ta parts) :
    Fragments sn ra ta (parts.take 16) := by
  intro i p hi
  rw [getElem?_take] at hi
  split at hi
  · next hlt =>
    obtain ⟨hseq, ha1, ha2, hfrag⟩ := (hn i p hi).1
    exact ⟨hseq, ha1, ha2, hfrag.trans (Nat.mod_eq_of_lt hlt)⟩
  · cases hi

theorem Numbered.drop (hn : Numbered sn ra ta parts) : Numbered sn ra ta (parts.drop 16) := by
  intro i p hi
  rw [getElem?_drop] at hi
  obtain ⟨⟨hseq, ha1, ha2, hfrag⟩, hmore⟩ := hn (16 + i) p hi
  have hlt := (List.getElem?_eq_some_iff.mp hi).1
  refine ⟨⟨hseq, ha1, ha2, by omega⟩, hmore.trans ?_⟩
  rw [length_drop]
  omega

theorem Numbered.oneMsdu (hn : Numbered sn ra ta parts) (h16 : parts.length ≤ 16) :
    OneMsdu parts :=
  ⟨sn, ra, ta, take_of_length_le h16 ▸ hn.fragments, fun i p hi => (hn i p hi).2⟩

/-- The first fragment of the next run does not follow the stored run. -/
theorem Numbered.restarts {first p : RxFrame} {rest : List RxFrame} {c : List Mbuf}
    (hn : Numbered sn ra ta parts) (hstored : parts.take 16 = first :: rest)
    (hp : parts[16]? = some p) (hj : Joined first rest c) : defragFollows c p.m.get = false := by
  have hlen := congrArg length hstored
  have hlt := (List.getElem?_eq_some_iff.mp hp).1
  rw [length_take, length_cons] at hlen
  have hlast : parts[15]? = some (rest.getLastD first) := by
    have hget := getElem?_getLastD first rest
    rw [show rest.length = 15 by omega, ← hstored, getElem?_take_of_lt (by decide)] at hget
    exact hget
  obtain ⟨⟨hseq, -, -, hfrag⟩, -⟩ := hn 16 p hp
  obtain ⟨⟨hseq', -, -, hfrag'⟩, -⟩ := hn 15 _ hlast
  have hsame : p.num.toNat / 16 = (rest.getLastD first).num.toNat / 16 := by
    rw [← seqSeq_toNat, ← seqSeq_toNat]
    exact congrArg UInt16.toNat (hseq.trans hseq'.symm)
  rw [RxFrame.frag, seqFrag_toNat] at hfrag hfrag'
  refine Bool.eq_false_iff.mpr fun hfol => ?_
  have := ((hj.follows_iff p).mp hfol).1
  omega

variable {μ : Type} [DecidableEq μ] {k : μ} {last : RxFrame}

omit [DecidableEq μ] in
theorem Unheard.trans {rx rx' rx'' : Rx μ} (h : Unheard rx rx') (h' : Unheard rx' rx'') :
    Unheard rx rx'' :=
  ⟨h'.ic.trans h.ic, h'.icSta.trans h.icSta, h'.nobridge.trans h.nobridge,
    h'.eapolRx.trans h.eapolRx, h'.dataRx.trans h.dataRx, h'.up.trans h.up, h'.alloc.trans h.alloc⟩

/-- What is stored before the last frame comes in: the run `blk` it belongs to. -/
theorem receive_numbered (huni : isMulticast (ra.headD 0) = false) (init : List (RxFrame × Bool))
    (rx : Rx μ) (htab : (rx.node k).niTable = true)
    (hn : Numbered sn ra ta (init.map Prod.fst ++ [last]))
    (hfresh : ∀ p ∈ (init.map Prod.fst ++ [last]).head?, ∀ c, (rx.node k).niRxfrag = some c →
      defragFollows c p.m.get = false) :
    ∃ pre blk before, init = pre ++ blk ∧ pre.length % 16 = 0 ∧ blk.length < 16 ∧
      Unheard rx (receive rx k init) ∧ ((receive rx k init).node k).niTable = true ∧
      Numbered sn ra ta (blk.map Prod.fst ++ [last]) ∧
      Waits before ((receive rx k init).node k).niRxfrag (blk.map Prod.fst) ∧
      (blk.map Prod.fst = [] → ∀ c, before = some c → defragFollows c last.m.get = false) := by
  have hmore : ∀ p ∈ init, p.1.more = true := by
    intro p hp
    obtain ⟨i, hi⟩ := mem_iff_getElem?.mp hp
    have hlt := (List.getElem?_eq_some_iff.mp hi).1
    refine (hn i p.1 ?_).2.mpr ?_
    · rw [getElem?_append_left (by rw [length_map]; exact hlt), getElem?_map, hi]
      rfl
    · rw [length_append, length_map, length_singleton]
      omega
  have hhead : ∀ p ∈ init.head?, ∀ c, (rx.node k).niRxfrag = some c →
      defragFollows c p.1.m.get = false := by
    intro p hp
    refine hfresh p.1 ?_
    rw [head?_append, head?_map, hp]
    rfl
  by_cases hshort : init.length < 16
  · have hfr : Fragments sn ra ta ([] ++ init.map Prod.fst) := by
      have := hn.fragments
      rw [take_of_length_le (by rw [length_append, length_map, length_singleton]; omega)] at this
      exact this.left
    obtain ⟨hun, htab', hw⟩ := receive_waits huni init [] rx htab hfr hmore (fun _ => hhead) rfl
    refine ⟨[], init, _, rfl, rfl, hshort, hun, htab', hn, hw, fun h0 => ?_⟩
    rw [h0] at hfresh
    exact hfresh last rfl
  · -- sixteen frames are one run, and the rest starts over
    have hsplit := take_append_drop 16 init
    have hmap : init.map Prod.fst ++ [last] =
        (init.take 16).map Prod.fst ++ ((init.drop 16).map Prod.fst ++ [last]) := by
      rw [← append_assoc, ← map_append, hsplit]
    have h16 : ((init.take 16).map Prod.fst).length = 16 := by
      rw [length_map, length_take]
      omega
    have htake : (init.map Prod.fst ++ [last]).take 16 = (init.take 16).map Prod.fst := by
      rw [hmap, take_left' h16]
    have hdrop : (init.map Prod.fst ++ [last]).drop 16 = (init.drop 16).map Prod.fst ++ [last] := by
      rw [hmap, drop_left' h16]
    have hfr : Fragments sn ra ta ([] ++ (init.take 16).map Prod.fst) := htake ▸ hn.fragments
    obtain ⟨hun, htab', hw⟩ := receive_waits huni (init.take 16) [] rx htab hfr
      (fun p hp => hmore p (mem_of_mem_take hp)) (fun _ p hp => hhead p (by
        rw [head?_take, if_neg (by decide)] at hp
        exact hp)) rfl
    cases hrun : (init.take 16).map Prod.fst with
    | nil => rw [hrun] at h16; cases h16
    | cons first rest =>
      rw [nil_append, hrun] at hw
      obtain ⟨c, hc, hj⟩ := hw
      have hfresh' : ∀ p ∈ ((init.drop 16).map Prod.fst ++ [last]).head?, ∀ c',
          ((receive rx k (init.take 16)).node k).niRxfrag = some c' →
          defragFollows c' p.m.get = false := by
        intro p hp c' hc'
        cases hc.symm.trans hc'
        refine hn.restarts (htake.trans hrun) ?_ hj
        rw [← hp, ← hdrop, head?_drop]
      obtain ⟨pre, blk, before, hinit, hpre, hblk, hun', htab'', hn', hw', hend⟩ :=
        receive_numbered huni (init.drop 16) (receive rx k (init.take 16)) htab'
          (hdrop ▸ hn.drop) hfresh'
      have hrec : receive (receive rx k (init.take 16)) k (init.drop 16) = receive rx k init := by
        rw [receive, receive, receive, ← foldl_append, hsplit]
      rw [hrec] at hun' htab'' hw'
      refine ⟨init.take 16 ++ pre, blk, before, ?_, ?_, hblk, hun.trans hun', htab'', hn', hw',
        hend⟩
      · rw [append_assoc, ← hinit, hsplit]
      · rw [length_map] at h16
        rw [length_append, h16]
        omega
termination_by init.length
decreasing_by rw [length_drop]; omega

end Numbered

section Pieces

variable {ν : Type} {ic : Ic ν} {n : ν} {eth addrs b : List UInt8} {dir : UInt8}
  {hdrsize : Nat} {frames : List (List Mbuf)}

theorem Pieces.addressed (hp : Pieces hdrsize b frames) (h24 : 24 ≤ hdrsize)
    (hA : Addressed ic n eth dir addrs (hdrOf b)) (hc : c ∈ frames) :
    Addressed ic n eth dir addrs (hdrOf (bytes c)) :=
  hA.congr (hp.header c hc 0 (by omega) (by decide) (by decide))
    (dir_of_clear (hp.fc1 c hc)) fun i hi hi' =>
    hp.header c hc i (by omega) (by omega) (by omega)

variable {datapad : Bool}

/-- The receiver reads the header that was sent. -/
theorem Heard.addressed (hh : Heard datapad c fr)
    (hA : Addressed ic n eth dir addrs (hdrOf (bytes c))) : Addressed ic n eth dir addrs fr.m.get :=
  hA.congr (hh.get (by decide)) (by rw [hh.get (by decide)]) fun _ _ hi' => hh.get (by omega)

/-- The sequence number, from the octets it is in. -/
theorem seqSeq_congr {wh wh' : Wh} (h22 : (wh 22).toNat / 16 = (wh' 22).toNat / 16)
    (h23 : wh 23 = wh' 23) : seqSeq (whSeq wh) = seqSeq (whSeq wh') := by
  have hdiv : ∀ a b : Nat, (a ||| b) / 16 = a / 16 ||| b / 16 :=
    fun a b => Nat.or_div_two_pow (n := 4)
  rw [← UInt16.toNat_inj, seqSeq_toNat, seqSeq_toNat, whSeq, whSeq, UInt16.toNat_or,
    UInt16.toNat_or, hdiv, hdiv, UInt8.toNat_toUInt16, UInt8.toNat_toUInt16, h22, h23]

variable {parts : List RxFrame}

/-- A frame that comes in is one that was sent. -/
theorem heard_getElem? (hh : List.Forall₂ (Heard datapad) frames parts) {p : RxFrame}
    (hi : parts[i]? = some p) : ∃ c, frames[i]? = some c ∧ Heard datapad c p := by
  induction hh generalizing i with
  | nil => cases hi
  | cons hcp _ ih =>
    cases i with
    | zero => cases hi; exact ⟨_, rfl, hcp⟩
    | succ i => exact ih hi

theorem Pieces.numbered (hp : Pieces hdrsize b frames) (h24 : 24 ≤ hdrsize)
    (hh : List.Forall₂ (Heard datapad) frames parts) :
    Numbered (seqSeq (whSeq (hdrOf b))) (window (hdrOf b) 4 6) (window (hdrOf b) 10 6) parts := by
  refine fun i p hi => ⟨?_, ?_⟩
  · obtain ⟨c, hc, hcp⟩ := heard_getElem? hh hi
    have hmem := mem_of_getElem? hc
    have hwin : ∀ a, 4 ≤ a → a + 6 ≤ 22 → window p.m.get a 6 = window (hdrOf b) a 6 :=
      fun a ha ha' =>
      window_congr _ _ fun k hk => by
        rw [hcp.get (by omega), hp.header c hmem _ (by omega) (by omega) (by omega)]
    refine ⟨seqSeq_congr ?_ ?_, hwin 4 (by decide) (by decide), hwin 10 (by decide) (by decide), ?_⟩
    · rw [hcp.get (by decide), hp.seq c hmem]
    · rw [hcp.get (by decide), hp.header c hmem 23 (by omega) (by decide) (by decide)]
    · have hnum := hp.number i c hc
      rw [fragNumber, seqFrag_toNat, whSeq_mod] at hnum
      rw [RxFrame.frag, seqFrag_toNat, RxFrame.num, whSeq_mod, hcp.get (by decide), hnum]
  · obtain ⟨c, hc, hcp⟩ := heard_getElem? hh hi
    have hmore := hp.more i c hc
    rw [moreFragments] at hmore
    rw [RxFrame.more, hcp.get (by decide), hmore, hh.length_eq]

/-- Each of the frames that come in has some of the payload. -/
theorem Pieces.carries_heard (hp : Pieces hdrsize b frames)
    (hh : List.Forall₂ (Heard datapad) frames parts) (hs : ∀ p ∈ parts, p.hdrspace = hdrsize) :
    ∀ p ∈ parts, 0 < p.payload.length := by
  intro p hmem
  obtain ⟨i, hi⟩ := mem_iff_getElem?.mp hmem
  obtain ⟨c, hc, hcp⟩ := heard_getElem? hh hi
  have := hp.carries c (mem_of_getElem? hc)
  rw [RxFrame.payload, hcp.octets, hs p hmem, length_drop, length_bytes]
  omega

/-- What is behind the headers is the payload of the frame. -/
theorem Pieces.received (hp : Pieces hdrsize b frames)
    (hh : List.Forall₂ (Heard datapad) frames parts) (hs : ∀ p ∈ parts, p.hdrspace = hdrsize) :
    parts.flatMap RxFrame.payload = b.drop hdrsize := by
  have hsame : parts.flatMap RxFrame.payload = frames.flatMap fun f => (bytes f).drop hdrsize := by
    clear hp
    induction hh with
    | nil => rfl
    | cons hcp _ ih =>
      rw [flatMap_cons, flatMap_cons, ih fun p hp => hs p (mem_cons_of_mem _ hp),
        RxFrame.payload, hcp.octets, hs _ mem_cons_self]
  rw [hsame, hp.payload]

theorem Encapped.pieces {f : Mbuf} {fs : List Mbuf} (he : Encapped ic n eth dir addrs f fs)
    (ha : encapAddrs ic n (etherHeaderOf eth) = some (dir, addrs)) :
    Pieces (encapHdrsize ic n eth) (bytes (f :: fs)) [f :: fs] := by
  have h24 := (encapHdrsize_bounds ic n eth).1
  have hcont := he.contiguous
  have hget : ∀ i < 24, hdrOf (bytes (f :: fs)) i = f.get i :=
    fun i hi => (get_eq_bytes fs (by omega)).symm
  have hone : ∀ {i : Nat} {c : List Mbuf}, [f :: fs][i]? = some c → i = 0 ∧ c = f :: fs := by
    intro i c hi
    cases i with
    | zero => cases hi; exact ⟨rfl, rfl⟩
    | succ i => cases hi
  refine ⟨?_, fun c hc => ?_, fun i c hi => ?_, fun i c hi => ?_, fun c hc => ?_, fun c hc => ?_,
    fun c hc _ _ _ _ => ?_⟩
  · rw [flatMap_singleton]
  · rw [mem_singleton.mp hc, mLength_cons]
    omega
  · obtain ⟨rfl, rfl⟩ := hone hi
    rw [moreFragments, hget 1 (by decide), (he.fc1_bits ha).2]
    exact iff_of_false Bool.false_ne_true (Nat.lt_irrefl 1)
  · obtain ⟨rfl, rfl⟩ := hone hi
    rw [fragNumber, seqFrag_toNat, whSeq_mod, hget 22 (by decide), he.number]
  · rw [mem_singleton.mp hc]
  · rw [mem_singleton.mp hc]
  · rw [mem_singleton.mp hc]

end Pieces

/-! ## There and back -/

variable {ν : Type} [DecidableEq ν] {ic ic' : Ic ν} {n : ν} {h h' : Heap} {m : Mbuf}
  {ms : List Mbuf} {frames : List (List Mbuf)}

/-- The first octet of the receiver of a frame. -/
def encapAddr1 (ic : Ic ν) (n : ν) (frame : List UInt8) : UInt8 :=
  match encapAddrs ic n (etherHeaderOf frame) with
  | none => 0
  | some (_, addrs) => addrs.headD 0

/-- The frame is not fragmented: it is not over the threshold, or to a group, or it has `M_FF`
in the mbuf that it keeps. -/
def SentWhole (ic : Ic ν) (n : ν) (m : Mbuf) (eth : List UInt8) : Prop :=
  encapHdrsize ic n eth + (llcPayload eth).length ≤ ic.icFragthreshold.toNat ∨
    isMulticast (encapAddr1 ic n eth) = true ∨ m.mFlags &&& mFf ≠ 0 ∧ ¬ LacksRoom ic n eth m

/-- Or sixteen fragments carry its payload. -/
def Carried (ic : Ic ν) (n : ν) (m : Mbuf) (eth : List UInt8) : Prop :=
  SentWhole ic n m eth ∨ (llcPayload eth).length ≤
    16 * (ic.icFragthreshold.toNat - (encapHdrsize ic n eth + (encapCipher ic n eth).icHeader))

omit [DecidableEq ν] in
/-- What becomes of a frame: pieces of it, and more than one only where it is to one station. -/
theorem Encapped.cut {eth addrs : List UInt8} {dir : UInt8} {f : Mbuf} {fs : List Mbuf} {h₁ : Heap}
    (henc : Encapped ic n eth dir addrs f fs)
    (ha : encapAddrs ic n (etherHeaderOf eth) = some (dir, addrs))
    (hfrag : if f.pkthdrLen > ic.icFragthreshold.toNat && !isMulticast (addrs.headD 0) &&
      f.mFlags &&& mFf == 0 then
        fragment h₁ f fs (encapHdrsize ic n eth)
        (encapCipher ic n eth).icHeader ic.icFragthreshold.toNat =
          some (h', some frames) else h' = h₁ ∧ frames = [f :: fs]) :
    Pieces (encapHdrsize ic n eth) (bytes (f :: fs)) frames ∧
      (frames.length = 1 ∧ (mLength (f :: fs) ≤ ic.icFragthreshold.toNat ∨
          isMulticast (addrs.headD 0) = true ∨ f.mFlags &&& mFf ≠ 0) ∨
        ic.icFragthreshold.toNat < mLength (f :: fs) ∧ isMulticast (addrs.headD 0) = false ∧
          f.mFlags &&& mFf = 0 ∧ (frames.length ≤ 16 ↔ mLength (f :: fs) ≤ encapHdrsize ic n eth +
            16 * (ic.icFragthreshold.toNat -
              (encapHdrsize ic n eth + (encapCipher ic n eth).icHeader)))) := by
  split at hfrag
  · next htx =>
    simp only [Bool.and_eq_true, decide_eq_true_eq, Bool.not_eq_true', beq_iff_eq] at htx
    obtain ⟨⟨hlong, hmc⟩, hff⟩ := htx
    rw [henc.pkt.2] at hlong
    have hcont := henc.contiguous
    have hpart :=
      fragment_cases (h := h₁) henc.pkt (encapHdrsize_bounds ic n eth).1 (by omega) henc.number
      (fragment_mtu henc.pkt hlong hfrag) hlong
    rcases hpart with ⟨k, -, hfail⟩ | ⟨h2, frames', hrun, -, hp, hcount⟩
    · rw [hfail] at hfrag
      cases hfrag
    · rw [hrun] at hfrag
      cases hfrag
      exact ⟨hp.toPieces, .inr ⟨hlong, hmc, hff, hcount⟩⟩
  · next htx =>
    obtain ⟨-, rfl⟩ := hfrag
    refine ⟨henc.pieces ha, .inl ⟨rfl, ?_⟩⟩
    simp only [Bool.and_eq_true, decide_eq_true_eq, Bool.not_eq_true', beq_iff_eq,
      henc.pkt.2] at htx
    by_cases hlong : mLength (f :: fs) ≤ ic.icFragthreshold.toNat
    · exact .inl hlong
    · refine .inr ?_
      cases hmc : isMulticast (addrs.headD 0) with
      | true => exact .inl rfl
      | false => exact .inr fun hff => htx ⟨⟨by omega, hmc⟩, hff⟩

/-- The frames that `ieee80211_encap` returns are pieces of one, not more than sixteen exactly where
the packet is carried, and only a frame to one station is fragmented. -/
theorem encap_pieces (hb : ∀ n, (ic.icNode n).niBssid.length = 6) (hpkt : Pkt (m :: ms))
    (h14 : 14 ≤ m.mLen) (he : encap h ic n m ms = some (h', ic', some frames)) :
    ∃ b dir addrs, encapAddrs ic n (etherHeaderOf (bytes (m :: ms))) = some (dir, addrs) ∧
      Addressed ic n (bytes (m :: ms)) dir addrs (hdrOf b) ∧
      b.drop (encapHdrsize ic n (bytes (m :: ms))) = llcPayload (bytes (m :: ms)) ∧
      Pieces (encapHdrsize ic n (bytes (m :: ms))) b frames ∧
      (frames.length ≤ 16 ↔ Carried ic n m (bytes (m :: ms))) ∧
      (frames.length ≠ 1 → isMulticast (addrs.headD 0) = false) := by
  obtain ⟨-, h1, f, fs, dir, addrs, ha, henc, hhead, hfrag⟩ := encap_chain hb hpkt h14 he
  generalize bytes (m :: ms) = eth at ha henc hhead hfrag ⊢
  have hlen : mLength (f :: fs) = encapHdrsize ic n eth + (llcPayload eth).length := by
    have hcont := henc.contiguous
    rw [← henc.octets, length_drop, length_bytes, mLength_cons]
    omega
  have hA : encapAddr1 ic n eth = addrs.headD 0 := by rw [encapAddr1, ha]
  have hff : f.mFlags &&& mFf ≠ 0 ↔ m.mFlags &&& mFf ≠ 0 ∧ ¬ LacksRoom ic n eth m := by
    rcases hhead with ⟨-, -, hflags, -, hroom, -⟩ | ⟨-, hflags, hroom⟩
    · rw [hflags]
      exact (and_iff_left hroom).symm
    · rw [hflags]
      exact iff_of_false (by decide) fun hno => hno.2 hroom
  obtain ⟨hp, hmany⟩ := henc.cut ha hfrag
  refine ⟨bytes (f :: fs), dir, addrs, ha, henc.addressed ha, henc.octets, hp, ?_⟩
  rw [Carried, SentWhole, hA, ← hff, ← hlen]
  rcases hmany with ⟨hone, hwhole⟩ | ⟨hlong, hmc, hno, hcount⟩
  · exact ⟨iff_of_true (by omega) (.inl hwhole), fun hne => absurd hone hne⟩
  · refine ⟨hcount.trans ?_, fun _ => hmc⟩
    rw [hmc, hlen]
    constructor
    · exact fun hle => .inr (by omega)
    · rintro ((hle | hgroup | hset) | hle)
      · omega
      · cases hgroup
      · exact absurd hno hset
      · omega

/-- `ieee80211_decap` makes the Ethernet frame `eth` of a packet, unless the headers are not
contiguous and there is no memory to make them so. -/
def DecapsTo (h : Heap) (m : Mbuf) (ms : List Mbuf) (hdrlen : Nat) (eth : List UInt8) : Prop :=
  (∃ h' c, decap h m ms hdrlen = (h', some c) ∧ bytes c = eth) ∨
    m.mLen < hdrlen + 8 ∧ h.alloc h.next = none ∧ ∃ h', decap h m ms hdrlen = (h', none)

omit [DecidableEq ν] in
/-- Joined fragments of a frame that was sent are decapsulated to the Ethernet frame. -/
theorem Joined.decapsTo {first : RxFrame} {rest : List RxFrame} {f : Mbuf} {fs : List Mbuf}
    {eth addrs : List UInt8} {dir : UInt8} (hj : Joined first rest (f :: fs)) (h : Heap)
    (hb : ∀ n, (ic.icNode n).niBssid.length = 6) (hlen : 14 ≤ eth.length)
    (ha : encapAddrs ic n (etherHeaderOf eth) = some (dir, addrs))
    (hA : Addressed ic n eth dir addrs first.m.get)
    (hbody : (first :: rest).flatMap RxFrame.payload = llcPayload eth) :
    DecapsTo h f fs first.hdrspace eth := by
  obtain ⟨hdrop, htot⟩ := hj.body
  have h32 := first.hdrspace_le
  have hpay : 8 ≤ (llcPayload eth).length := by
    rw [length_llcPayload hlen]
    omega
  rw [hbody] at hdrop htot
  rcases hj.decap_cases h first.le_hdrspace with
    ⟨h', hd, hshort, hbig | hfew | hnomem⟩ | ⟨h', m', ms', hd, -, hbytes, -⟩
  · have : mclbytes - mhAlign = 3840 := rfl
    omega
  · omega
  · exact .inr ⟨hshort, hnomem, h', hd⟩
  · refine .inl ⟨h', _, hd, ?_⟩
    rw [hbytes, hdrop, hA.decapAddrs hb hlen ha, etherFrame_llcPayload]

/-- What comes in after the other frames is returned by `ieee80211_defrag`, nothing was handed up
before, and `ieee80211_decap` makes the Ethernet frame `eth` of it. -/
def Regains {μ : Type} [DecidableEq μ] (rx : Rx μ) (k : μ) (init : List (RxFrame × Bool))
    (last : RxFrame) (eth : List UInt8) : Prop :=
  (receive rx k init).up = rx.up ∧
    ∃ rx' f fs, inputDefrag (receive rx k init) k last.m last.ms last.hdrspace =
    (rx', some (f :: fs)) ∧
      DecapsTo rx'.heap f fs last.hdrspace eth

/-- The run of the last frame is returned, whatever came before it. -/
theorem defrag_run {μ : Type} [DecidableEq μ] {rx : Rx μ} {k : μ} {init : List (RxFrame × Bool)}
    {last : RxFrame} {sn : UInt16} {ra ta : List UInt8} (htab : (rx.node k).niTable = true)
    (hn : Numbered sn ra ta (init.map Prod.fst ++ [last])) (huni : isMulticast (ra.headD 0) = false)
    (hfresh : ∀ p ∈ (init.map Prod.fst ++ [last]).head?, ∀ c, (rx.node k).niRxfrag = some c →
      defragFollows c p.m.get = false) :
    (receive rx k init).up = rx.up ∧ ∃ rx' f fs pre first rest,
      inputDefrag (receive rx k init) k last.m last.ms last.hdrspace = (rx', some (f :: fs)) ∧
      rx'.heap.alloc = rx.heap.alloc ∧ Joined first rest (f :: fs) ∧
      init.map Prod.fst ++ [last] = pre ++ first :: rest ∧ pre.length % 16 = 0 ∧
      rest.length < 16 := by
  obtain ⟨pre, blk, before, rfl, hpre, hblk, hun, htab', hn', hw, hend⟩ :=
    receive_numbered huni init rx htab hn hfresh
  have hlen : (blk.map Prod.fst ++ [last]).length = blk.length + 1 := by
    rw [length_append, length_map, length_singleton]
  obtain ⟨h1, ni', f, fs, first, rest, hd, halloc, heq, hj⟩ :=
    defrag_last (hn'.oneMsdu (by omega)) htab' hw hend
  have hgroup : isMulticast (last.m.get 4) = false := by
    obtain ⟨⟨-, ha1, -⟩, -⟩ := hn' blk.length last (by simp)
    rw [← ha1] at huni
    exact huni
  refine ⟨hun.up, { (receive rx k (pre ++ blk)).setNode k ni' with heap := h1 }, f, fs,
    pre.map Prod.fst, first, rest, ?_, halloc.trans hun.alloc, hj, ?_, ?_, ?_⟩
  · rw [inputDefrag, if_neg (by rw [hgroup]; exact Bool.false_ne_true), hd]
  · rw [map_append, append_assoc, heq]
  · rw [length_map, hpre]
  · rw [heq, length_cons] at hlen
    omega

/-- A frame with SNAP header loses it, another one gets its length. -/
theorem length_etherFrame (wh : Wh) (body : List UInt8) :
    (etherFrame (decapAddrs wh) body).length = 6 + body.length ∨
      (etherFrame (decapAddrs wh) body).length = 14 + body.length := by
  rw [etherFrame]
  split
  · next hsnap =>
    have h6 : (body.take 6).length = 6 := by rw [hsnap]; rfl
    rw [length_take] at h6
    rw [length_append, length_decapAddrs, length_drop]
    omega
  · rw [length_append, length_append, length_decapAddrs]
    exact .inr rfl

/-- Each frame that comes in says in its header what was sent. -/
theorem Pieces.heard {ν : Type} {ic : Ic ν} {n : ν} {eth b addrs : List UInt8} {dir : UInt8}
    {frames : List (List Mbuf)} {parts : List RxFrame}
    (hp : Pieces (encapHdrsize ic n eth) b frames) (hA : Addressed ic n eth dir addrs (hdrOf b))
    (ha : encapAddrs ic n (etherHeaderOf eth) = some (dir, addrs))
    (hh : List.Forall₂ (Heard ic.icKeys.datapad) frames parts) :
    ∀ p ∈ parts, Addressed ic n eth dir addrs p.m.get ∧ p.hdrspace = encapHdrsize ic n eth := by
  intro p hmem
  obtain ⟨i, hi⟩ := mem_iff_getElem?.mp hmem
  obtain ⟨c, hc, hcp⟩ := heard_getElem? hh hi
  have hAp :=
    hcp.addressed (hp.addressed (encapHdrsize_bounds ic n eth).1 hA (mem_of_getElem? hc))
  exact ⟨hAp, hcp.space.trans (hAp.hdrspace ha)⟩

/-- The octets of an Ethernet frame go through `ieee80211_encap`, the air and `ieee80211_decap`. A
frame that is sent as one is decapsulated as it is. Fragments go through `ieee80211_defrag`, which
hands nothing up before the last one; what it returns then is decapsulated to the Ethernet frame
exactly where sixteen fragments carried it, given memory. -/
theorem encap_decap_inverse_iff {ν : Type} [DecidableEq ν] {ic ic' : Ic ν} {n : ν} {h h' : Heap}
    {m : Mbuf} {ms : List Mbuf} {frames : List (List Mbuf)}
    (hb : ∀ n, (ic.icNode n).niBssid.length = 6) (hpkt : Pkt (m :: ms)) (h14 : 14 ≤ m.mLen)
    (he : encap h ic n m ms = some (h', ic', some frames)) :
    (∀ (c : List Mbuf) (fr : RxFrame) (rh : Heap), frames = [c] → Heard ic.icKeys.datapad c fr →
      DecapsTo rh fr.m fr.ms fr.hdrspace (bytes (m :: ms))) ∧
    ∀ {μ : Type} [DecidableEq μ] (rx : Rx μ) (k : μ) (init : List (RxFrame × Bool))
      (last : RxFrame),
      List.Forall₂ (Heard ic.icKeys.datapad) frames (init.map Prod.fst ++ [last]) →
      (rx.node k).niTable = true →
      (∀ p ∈ (init.map Prod.fst ++ [last]).head?, ∀ c, (rx.node k).niRxfrag = some c →
        defragFollows c p.m.get = false) →
      (Carried ic n m (bytes (m :: ms)) → Regains rx k init last (bytes (m :: ms))) ∧
      ((∀ a, rx.heap.alloc a ≠ none) →
        (Regains rx k init last (bytes (m :: ms)) ↔ Carried ic n m (bytes (m :: ms)))) := by
  have hlen : 14 ≤ (bytes (m :: ms)).length := by
    rw [length_bytes, mLength_cons]
    omega
  obtain ⟨b, dir, addrs, ha, hA, hpay, hp, hcarried, hmc⟩ := encap_pieces hb hpkt h14 he
  rw [← hcarried]
  generalize bytes (m :: ms) = eth at ha hA hpay hp hlen ⊢
  have h24 := (encapHdrsize_bounds ic n eth).1
  have hsingle : ∀ (c : List Mbuf) (fr : RxFrame) (rh : Heap), frames = [c] →
      Heard ic.icKeys.datapad c fr → DecapsTo rh fr.m fr.ms fr.hdrspace eth := by
    rintro c fr rh rfl hh
    have hall := List.Forall₂.cons hh .nil
    have hpart := hp.heard hA ha hall
    obtain ⟨hAp, -⟩ := hpart fr mem_cons_self
    refine (Joined.single fr).decapsTo rh hb hlen ha hAp ?_
    rw [hp.received hall fun p hp => (hpart p hp).2, hpay]
  refine ⟨hsingle, ?_⟩
  intro μ _ rx k init last hh htab hfresh
  have hpart := hp.heard hA ha hh
  have hparts := hh.length_eq
  rw [length_append, length_map, length_singleton] at hparts
  obtain ⟨hAl, hsl⟩ := hpart last (by simp)
  cases hgroup : isMulticast (addrs.headD 0) with
  | true =>
    -- only a frame to one station is fragmented, so this is all of it
    have h4 : last.m.get 4 = addrs.headD 0 := congrArg (·.headD 0) hAl.addrs
    have hlen1 : frames.length = 1 := by
      by_contra hne
      rw [hmc hne] at hgroup
      cases hgroup
    obtain rfl : init = [] := eq_nil_of_length_eq_zero (by omega)
    obtain ⟨c, rfl⟩ := length_eq_one_iff.mp hlen1
    cases hh with
    | cons hcp _ =>
      have hback : Regains rx k [] last eth := by
        refine ⟨rfl, rx, last.m, last.ms, ?_, hsingle c last rx.heap rfl hcp⟩
        rw [inputDefrag]
        exact if_pos (h4 ▸ hgroup)
      exact ⟨fun _ => hback, fun _ => iff_of_true hback (Nat.le_of_lt (by simp))⟩
  | false =>
    have huni : isMulticast ((window (hdrOf b) 4 6).headD 0) = false := by
      have h4 : hdrOf b 4 = addrs.headD 0 := congrArg (·.headD 0) hA.addrs
      show isMulticast (hdrOf b 4) = false
      rw [h4, hgroup]
    obtain ⟨hup, rx', f, fs, pre, first, rest, hd, halloc, hj, heq, hpre, hrest⟩ :=
      defrag_run htab (hp.numbered h24 hh) huni hfresh
    have hmem : first ∈ init.map Prod.fst ++ [last] := by rw [heq]; simp
    obtain ⟨hAf, hsf⟩ := hpart first hmem
    have hall := hp.received hh fun p hp => (hpart p hp).2
    rw [heq, flatMap_append, hpay] at hall
    have hcount := congrArg length heq
    rw [length_append, length_map, length_singleton, length_append, length_cons] at hcount
    have hback : frames.length ≤ 16 → Regains rx k init last eth := by
      intro h16
      obtain rfl : pre = [] := eq_nil_of_length_eq_zero (by omega)
      rw [flatMap_nil, nil_append] at hall
      refine ⟨hup, rx', f, fs, hd, ?_⟩
      rw [hsl, ← hsf]
      exact hj.decapsTo rx'.heap hb hlen ha hAf hall
    refine ⟨hback, fun hmem' => ⟨?_, hback⟩⟩
    rintro ⟨-, rx₁, f₁, fs₁, hd₁, hto⟩
    cases hd.symm.trans hd₁
    rw [hsl, ← hsf] at hto
    rcases hto with ⟨h₂, c, hdec, hbytes⟩ | ⟨-, hnomem, -⟩
    · by_contra hmany
      -- at least sixteen octets are missing
      have hlost : pre.length ≤ (pre.flatMap RxFrame.payload).length := by
        have hpos := hp.carries_heard hh fun p hp => (hpart p hp).2
        rw [length_flatMap, ← length_map (fun p : RxFrame => p.payload.length)]
        refine length_le_sum_of_one_le _ fun x hx => ?_
        obtain ⟨p, hpm, rfl⟩ := mem_map.mp hx
        exact hpos p (by rw [heq]; exact mem_append_left _ hpm)
      rcases hj.decap_cases rx'.heap first.le_hdrspace
        with ⟨_, hnone, -⟩ | ⟨h₃, m', ms', hsome, -, hb', -⟩
      · rw [hdec] at hnone
        cases hnone
      · rw [hdec] at hsome
        cases hsome
        have hshort := congrArg length (hb'.symm.trans hbytes)
        rw [hj.body.1] at hshort
        have htotal := congrArg length hall
        rw [length_append, length_llcPayload hlen] at htotal
        have := length_etherFrame first.m.get ((first :: rest).flatMap RxFrame.payload)
        omega
    · exact absurd (halloc ▸ hnomem) (hmem' _)

/-! ## Samples -/

/-- The frames as they were sent, where their headers are contiguous. -/
def heardAs (datapad : Bool) : List Mbuf → Option RxFrame
  | [] => none
  | m :: ms =>
    if h : hdrspace datapad m.get ≤ m.mLen ∧ m.hasPkthdr = true then
      some { m, ms, hdrspace := hdrspace datapad m.get, hdrsize_le := hdrsize_le_hdrspace _ _
             hdrspace_le := (hdrspace_bounds _ _).2, contiguous := h.1, pkthdr := h.2 }
    else none

theorem heardAs_some {datapad : Bool} (h : heardAs datapad c = some fr) :
    Heard datapad c fr := by
  cases c with
  | nil => cases h
  | cons m ms =>
    rw [heardAs] at h
    split at h
    · cases h
      exact ⟨rfl, rfl⟩
    · cases h

theorem forall₂_heardAs {datapad : Bool} {parts : List RxFrame}
    (h : frames.mapM (heardAs datapad) = some parts) :
    List.Forall₂ (Heard datapad) frames parts := by
  induction frames generalizing parts with
  | nil =>
    cases h
    exact .nil
  | cons c cs ih =>
    rw [mapM_cons] at h
    obtain ⟨p, hp, h⟩ := bind_eq_some_iff.mp h
    obtain ⟨ps, hps, h⟩ := bind_eq_some_iff.mp h
    cases h
    exact .cons (heardAs_some hp) (ih hps)

/-- What `ieee80211_decap` makes of the last frame, after the others came in. -/
def decapLast {ν : Type} [DecidableEq ν] (rx : Rx ν) (k : ν) (parts : List RxFrame) :
    Option (List UInt8) :=
  match parts.getLast? with
  | none => none
  | some last =>
    match inputDefrag (receive rx k (parts.dropLast.map (·, false))) k last.m last.ms
      last.hdrspace with
    | (rx, some (f :: fs)) => (decap rx.heap f fs last.hdrspace).2.map bytes
    | (_, _) => none

/-- An access point with a fragmentation threshold. -/
def thresholdAp (threshold : UInt16) : Ic Unit :=
  { openStation.ic with icOpmode := .hostap, icFragthreshold := threshold }

/-- An Ethernet frame to a station, with `k` octets behind its header. -/
def numberedEther (k : Nat) : List UInt8 :=
  [2, 0, 0, 0, 0, 1, 2, 0, 0, 0, 0, 9, 8, 0] ++ (range k).map UInt8.ofNat

/-- The frames that come in at the station. -/
def thresholdAir (threshold : UInt16) (k : Nat) : Option (List RxFrame) :=
  ((encap plenty (thresholdAp threshold) () (packet 0 (numberedEther k)) []).bind fun r =>
    r.2.2).bind
    (mapM (heardAs false))

/-- Two fragments, which carry the frame. -/
theorem encap_decap_inverse_sample : ∃ p q, thresholdAir 60 40 = some [p, q] ∧
      Carried (thresholdAp 60) () (packet 0 (numberedEther 40))
      (bytes [packet 0 (numberedEther 40)]) ∧
      Regains openStation () [(p, false)] q (bytes [packet 0 (numberedEther 40)]) := by
  have hlen : (thresholdAir 60 40).map length = some 2 := by decide +kernel
  obtain ⟨parts, hair, hparts⟩ := map_eq_some_iff.mp hlen
  obtain ⟨p, q, rfl⟩ := length_eq_two.mp hparts
  obtain ⟨frames, hframes, hheard⟩ := bind_eq_some_iff.mp hair
  obtain ⟨⟨h', ic', r⟩, he, hr⟩ := bind_eq_some_iff.mp hframes
  cases hr
  have hall := forall₂_heardAs hheard
  have hcarried : Carried (thresholdAp 60) () (packet 0 (numberedEther 40))
      (bytes [packet 0 (numberedEther 40)]) := .inr (by decide +kernel)
  have hiff := encap_decap_inverse_iff (fun _ => rfl) ⟨rfl, rfl⟩ (by decide) he
  obtain ⟨-, hback⟩ := hiff.2 openStation () [(p, false)] q hall rfl fun _ _ _ hc => by cases hc
  exact ⟨p, q, hair, hcarried, (hback fun _ => some_ne_none _).mpr hcarried⟩

/-- Seventeen fragments of eight octets. The last one has the number zero again and no more
follow it, so `ieee80211_defrag` takes it for a frame of its own, and its payload goes up under
a length. -/
theorem encap_decap_loses : (thresholdAir 32 128).map length = some 17 ∧
      (thresholdAir 32 128).bind (decapLast openStation ()) =
        some [2, 0, 0, 0, 0, 1, 2, 0, 0, 0, 0, 9, 0, 8, 120, 121, 122, 123, 124, 125, 126, 127] ∧
      (thresholdAir 32 128).bind (decapLast openStation ()) ≠
        some (bytes [packet 0 (numberedEther 128)]) := by
  decide +kernel

end Net80211
