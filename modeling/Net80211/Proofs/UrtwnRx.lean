import Net80211.Proofs.UrtwnTx
import Net80211.Urtwn.Rx

/-!
# What urtwn_rxeof hands up, and what it looks at

The descriptors of a transfer stand where the lengths in them say: the next one follows the frame,
at the next multiple of the spacing (`descAt`). The loop of `urtwn_rxeof` stops at the first that
does not fit into the transfer, or when it has seen as many as the first one announces; so it takes
the frames it should (`RxParsed`).

Nothing of it looks past the end of the transfer but the lookup of the node: it reads the second
address of the header, up to octet 16, and frames are accepted from 10 octets on. So the accesses
stay inside exactly if there are 16 octets for each frame whose second address is looked up.
-/

namespace Net80211.Urtwn

open Lib List

variable {ν : Type}

/-- The first word of a descriptor. -/
def rxdw0At (buf : Nat → UInt8) (desc : Nat) : UInt32 := (ldw buf desc).val

/-- Descriptor, info block and frame. -/
def totlenAt (buf : Nat → UInt8) (desc : Nat) : Nat :=
  rxDescSize + rxInfosz (rxdw0At buf desc) + rxPktlen (rxdw0At buf desc)

/-- Where the frame begins. -/
def frameAt (buf : Nat → UInt8) (desc : Nat) : Nat :=
  desc + rxDescSize + rxInfosz (rxdw0At buf desc)

/-- The `i`-th descriptor behind the one at `desc`. -/
def descAt (sc : RxChip) (buf : Nat → UInt8) (desc : Nat) : Nat → Nat
  | 0 => desc
  | i + 1 => descAt sc buf (desc + roundup2 (totlenAt buf desc) sc.pktspacing) i

/-- There is a descriptor at `desc`, and its frame is inside the transfer. -/
def RxFits (buf : Nat → UInt8) (len desc : Nat) : Prop :=
  desc + rxDescSize ≤ len ∧ rxPktlen (rxdw0At buf desc) ≠ 0 ∧ desc + totlenAt buf desc ≤ len

/-- What has to become of the frame: it is handed up as it stands in the buffer, unless the
descriptor says that it is broken, its length is out of range or there is no mbuf for it. -/
inductive RxJudged (buf : Nat → UInt8) (desc : Nat) : RxOutcome ν → Prop where
  | crcError : rxdw0At buf desc &&& 0x0000c000 ≠ 0 → RxJudged buf desc .crcError
  | tooShort : rxdw0At buf desc &&& 0x0000c000 = 0 → rxPktlen (rxdw0At buf desc) < 10 →
    RxJudged buf desc .tooShort
  | tooBig : rxdw0At buf desc &&& 0x0000c000 = 0 → rxPktlen (rxdw0At buf desc) > mclbytes →
    RxJudged buf desc .tooBig
  | noMbuf : rxdw0At buf desc &&& 0x0000c000 = 0 → 10 ≤ rxPktlen (rxdw0At buf desc) →
      rxPktlen (rxdw0At buf desc) ≤ mclbytes → RxJudged buf desc .noMbuf
  | up {n : ν} {rssi : Int} : rxdw0At buf desc &&& 0x0000c000 = 0 →
    10 ≤ rxPktlen (rxdw0At buf desc) →
      rxPktlen (rxdw0At buf desc) ≤ mclbytes →
      RxJudged buf desc (.up n (window buf (frameAt buf desc) (rxPktlen (rxdw0At buf desc))) rssi)

/-- The octets of a header that the lookup of its node needs. -/
def lookupLen (fc0 : UInt8) : Nat := if looksUpAddr1 fc0 then 10 else 16

/-- The lookup for a frame that is handed up stays inside the transfer. -/
def LookupFits (buf : Nat → UInt8) (len desc : Nat) : RxOutcome ν → Prop
  | .up _ _ _ => frameAt buf desc + lookupLen (buf (frameAt buf desc)) ≤ len
  | _ => True

theorem within_ldw (buf : Nat → UInt8) (len i : Nat) : (ldw buf i).Within len ↔ i + 4 ≤ len := by
  simp [ldw]

variable {sc : RxChip} {buf : Nat → UInt8} {len : Nat}

theorem within_getRssi {rate physt : Nat} (h : physt + 8 ≤ len) :
    (getRssi sc buf rate physt).Within len := by
  rw [getRssi]
  split
  · simp only [within_bind, within_lookAt, within_pure, and_true]
    omega
  · simp only [within_bind, within_ldw, within_pure, and_true]
    omega

theorem within_r88eGetRssi {rate physt : Nat} (h : physt + 8 ≤ len) :
    (r88eGetRssi buf rate physt).Within len := by
  rw [r88eGetRssi]
  split
  · simp only [within_bind, within_lookAt, within_pure, and_true]
    omega
  · simp only [within_bind, within_ldw, within_pure, and_true]
    omega

theorem within_findNodeAt (rx : Rx ν) (table : List ν) (buf : Nat → UInt8) (len macaddr : Nat) :
    (findNodeAt rx table buf macaddr).Within len ↔ macaddr + 6 ≤ len := by
  rw [findNodeAt, within_bind, within_lookAt]
  split
  · exact and_iff_left (within_pure _)
  · rw [within_bind, within_look, and_iff_left (within_pure _)]
    omega

theorem within_findRxnode (rx : Rx ν) (buf : Nat → UInt8) (len wh : Nat) :
    (findRxnode rx buf wh).Within len ↔ wh + lookupLen (buf wh) ≤ len := by
  simp only [findRxnode, within_bind, within_lookAt, val_lookAt, within_findNodeAt, within_pure,
    and_true]
  rw [lookupLen, lookupAddr]
  split
  · omega
  · omega

theorem rxMbuf_spec (inputFn : InputFn ν) (buf : Nat → UInt8) {wh pktlen : Nat}
    (hfits : wh + pktlen ≤ len) (rssi : Int) (s : RxDev ν) :
    (∃ n, (rxMbuf inputFn buf wh pktlen rssi s).val.outcomes =
      s.outcomes ++ [.up n (window buf wh pktlen) rssi] ∧
        ((rxMbuf inputFn buf wh pktlen rssi s).Within len ↔ wh + lookupLen (buf wh) ≤ len)) ∨
      (rxMbuf inputFn buf wh pktlen rssi s).val.outcomes = s.outcomes ++ [.noMbuf] ∧
        (rxMbuf inputFn buf wh pktlen rssi s).Within len ∧
        s.rx.heap.alloc s.rx.heap.next = none := by
  rw [rxMbuf, mGetImpl]
  cases halloc : s.rx.heap.alloc s.rx.heap.next with
  | none => exact .inr ⟨rfl, within_pure _, rfl⟩
  | some cl =>
    refine .inl ⟨_, rfl, ?_⟩
    simp only [within_bind, within_look, within_pure, within_findRxnode, and_true, hfits, true_and]

/-- `ieee80211_input` does not change which allocations succeed. -/
def KeepsAlloc (inputFn : InputFn ν) : Prop :=
  ∀ rx n m rssi, (inputFn rx n m rssi).heap.alloc = rx.heap.alloc

variable {inputFn : InputFn ν}

theorem rxMbuf_alloc (hinput : KeepsAlloc inputFn) (buf : Nat → UInt8) (wh pktlen : Nat)
    (rssi : Int) (s : RxDev ν) :
    (rxMbuf inputFn buf wh pktlen rssi s).val.rx.heap.alloc = s.rx.heap.alloc := by
  rw [rxMbuf, mGetImpl]
  cases s.rx.heap.alloc s.rx.heap.next with
  | none => rfl
  | some cl => exact hinput _ _ _ _

/-- What one descriptor leads to. -/
structure RxFramed (inputFn : InputFn ν) (buf : Nat → UInt8) (len desc : Nat) (s : RxDev ν)
    (o : RxOutcome ν) (x : Traced (RxDev ν)) : Prop where
  outcomes : x.val.outcomes = s.outcomes ++ [o]
  judged : RxJudged buf desc o
  within : x.Within len ↔ LookupFits buf len desc o
  noMbuf : o = .noMbuf → s.rx.heap.alloc s.rx.heap.next = none
  alloc : KeepsAlloc inputFn → x.val.rx.heap.alloc = s.rx.heap.alloc

variable {desc npkts : Nat} {s : RxDev ν} {o : RxOutcome ν} {outs : List (RxOutcome ν)} {α : Type}
  {f : α → Traced (RxDev ν)} {x : Traced (RxDev ν)}

/-- Reads inside the transfer come before it. -/
theorem RxFramed.behind {x : Traced α} (hx : x.Within len)
    (h : RxFramed inputFn buf len desc s o (f x.val)) :
    RxFramed inputFn buf len desc s o (x >>= f) := by
  refine ⟨h.outcomes, h.judged, ?_, h.noMbuf, h.alloc⟩
  rw [within_bind]
  exact (and_iff_right hx).trans h.within

theorem RxFramed.mbuf (htot : desc + totlenAt buf desc ≤ len)
    (hcrc : rxdw0At buf desc &&& 0x0000c000 = 0) (hmin : 10 ≤ rxPktlen (rxdw0At buf desc))
    (hmax : rxPktlen (rxdw0At buf desc) ≤ mclbytes) (rssi : Int) {s' : RxDev ν} (hrx : s'.rx = s.rx)
    (hout : s'.outcomes = s.outcomes) : ∃ o, RxFramed inputFn buf len desc s o
      (rxMbuf inputFn buf (desc + rxDescSize + rxInfosz (rxdw0At buf desc))
        (rxPktlen (rxdw0At buf desc)) rssi s') := by
  have hfits :
      desc + rxDescSize + rxInfosz (rxdw0At buf desc) + rxPktlen (rxdw0At buf desc) ≤ len := by
    rw [totlenAt] at htot
    omega
  have halloc' : KeepsAlloc inputFn →
      (rxMbuf inputFn buf (desc + rxDescSize + rxInfosz (rxdw0At buf desc))
      (rxPktlen (rxdw0At buf desc)) rssi s').val.rx.heap.alloc = s.rx.heap.alloc := by
    intro hinput
    rw [rxMbuf_alloc hinput, hrx]
  rcases rxMbuf_spec inputFn buf hfits rssi s' with ⟨n, hval, hwithin⟩ | ⟨hval, hwithin, halloc⟩
  · exact ⟨_, hout ▸ hval, .up hcrc hmin hmax, hwithin, (fun h => by cases h), halloc'⟩
  · refine ⟨_, hout ▸ hval, .noMbuf hcrc hmin hmax, ⟨fun _ => trivial, fun _ => hwithin⟩,
      fun _ => ?_, halloc'⟩
    rw [← hrx]
    exact halloc

theorem rxChecked_spec (sc : RxChip) (inputFn : InputFn ν)
    (hf : RxFits buf len desc) (s : RxDev ν) (rxdw3 : UInt32) :
    ∃ o, RxFramed inputFn buf len desc s o
      (rxChecked sc inputFn buf desc (rxPktlen (rxdw0At buf desc)) s (rxdw0At buf desc) rxdw3) := by
  obtain ⟨hdesc, hpos, htot⟩ := hf
  -- frames that are not accepted
  have hdrop : ∀ {o : RxOutcome ν}, RxJudged buf desc o → LookupFits buf len desc o → o ≠ .noMbuf →
      ∃ o', RxFramed inputFn buf len desc s o' (pure (s.note o)) := by
    intro o hj hl hno
    exact ⟨o, rfl, hj, ⟨fun _ => hl, fun _ => within_pure _⟩, fun h => absurd h hno, fun _ => rfl⟩
  rw [rxChecked]
  split
  · next hcrc => exact hdrop (.crcError hcrc) trivial (fun h => by cases h)
  next hcrc =>
  split
  · next hshort => exact hdrop (.tooShort (not_not.mp hcrc) hshort) trivial (fun h => by cases h)
  next hshort =>
  split
  · next hbig => exact hdrop (.tooBig (not_not.mp hcrc) hbig) trivial (fun h => by cases h)
  next hbig =>
  have hmbuf : ∀ (rssi : Int) (s' : RxDev ν), s'.rx = s.rx → s'.outcomes = s.outcomes →
      ∃ o, RxFramed inputFn buf len desc s o
        (rxMbuf inputFn buf (desc + rxDescSize + rxInfosz (rxdw0At buf desc))
        (rxPktlen (rxdw0At buf desc)) rssi s') :=
    fun rssi s' => RxFramed.mbuf htot (not_not.mp hcrc) (Nat.not_lt.mp hshort)
      (Nat.not_lt.mp hbig) rssi
  dsimp only
  split
  · next hphyst =>
    -- an info block has at least eight octets
    have hinfo : desc + rxDescSize + 8 ≤ len := by
      rw [totlenAt] at htot
      have : rxInfosz (rxdw0At buf desc) % 8 = 0 := Nat.mul_mod_left _ _
      have := hphyst.1
      omega
    have hrssi : (rxRssi sc buf (rxdw3 &&& 0x0000003f).toNat (desc + rxDescSize)).Within len := by
      rw [rxRssi]
      split
      · exact within_getRssi hinfo
      · exact within_r88eGetRssi hinfo
    obtain ⟨o, ho⟩ := hmbuf (rxRssi sc buf (rxdw3 &&& 0x0000003f).toNat (desc + rxDescSize)).val
      { s with avgPwdb := updateAvgrssi sc s.avgPwdb (rxdw3 &&& 0x0000003f).toNat _ } rfl rfl
    exact ⟨o, RxFramed.behind hrssi ho⟩
  · exact hmbuf 0 s rfl rfl

theorem rxFrame_spec (sc : RxChip) (inputFn : InputFn ν)
    (hf : RxFits buf len desc) (s : RxDev ν) :
    ∃ o, RxFramed inputFn buf len desc s o
    (rxFrame sc inputFn buf desc (rxPktlen (rxdw0At buf desc)) s) := by
  have hdesc := hf.1
  rw [rxDescSize] at hdesc
  have hw0 : (ldw buf desc).Within len := (within_ldw ..).mpr (by omega)
  have hw3 : (ldw buf (desc + 12)).Within len := (within_ldw ..).mpr (by omega)
  obtain ⟨o, ho⟩ := rxChecked_spec sc inputFn hf s (ldw buf (desc + 12)).val
  exact ⟨o, RxFramed.behind hw0 (RxFramed.behind hw3 ho)⟩

/-- What the loop makes of `npkts` frames, the first of them at `desc`. -/
structure RxParsed (sc : RxChip) (inputFn : InputFn ν) (buf : Nat → UInt8) (len desc npkts : Nat)
    (s : RxDev ν) (outs : List (RxOutcome ν)) (x : Traced (RxDev ν)) : Prop where
  outcomes : x.val.outcomes = s.outcomes ++ outs
  count : outs.length ≤ npkts
  fits : ∀ i < outs.length, RxFits buf len (descAt sc buf desc i)
  stops : outs.length = npkts ∨ ¬ RxFits buf len (descAt sc buf desc outs.length)
  judged : ∀ i o, outs[i]? = some o → RxJudged buf (descAt sc buf desc i) o
  within : x.Within len ↔ ∀ i o, outs[i]? = some o → LookupFits buf len (descAt sc buf desc i) o
  noMbuf : KeepsAlloc inputFn → (∀ a, s.rx.heap.alloc a ≠ none) → .noMbuf ∉ outs

theorem RxParsed.stop (hval : x.val = s) (hwithin : x.Within len)
    (h : npkts = 0 ∨ ¬ RxFits buf len desc) :
    RxParsed sc inputFn buf len desc npkts s [] x := by
  refine ⟨by rw [hval, append_nil], Nat.zero_le _, fun i hi => absurd hi (Nat.not_lt_zero i),
    h.imp_left Eq.symm,
    fun i o ho => ?_, ⟨fun _ i o ho => ?_, fun _ => hwithin⟩, fun _ _ => not_mem_nil⟩
  · cases ho
  · cases ho

theorem RxParsed.behind {x : Traced α} (hx : x.Within len)
    (h : RxParsed sc inputFn buf len desc npkts s outs (f x.val)) :
    RxParsed sc inputFn buf len desc npkts s outs (x >>= f) := by
  refine ⟨h.outcomes, h.count, h.fits, h.stops, h.judged, ?_, h.noMbuf⟩
  rw [within_bind]
  exact (and_iff_right hx).trans h.within

theorem RxParsed.cons {f : RxDev ν → Traced (RxDev ν)} (hf : RxFits buf len desc)
    (hx : RxFramed inputFn buf len desc s o x)
    (h : RxParsed sc inputFn buf len (desc + roundup2 (totlenAt buf desc) sc.pktspacing) npkts x.val
      outs (f x.val)) :
    RxParsed sc inputFn buf len desc (npkts + 1) s (o :: outs) (x >>= f) := by
  refine ⟨?_, Nat.succ_le_succ h.count, fun i hi => ?_, h.stops.imp_left (congrArg (· + 1)),
    fun i o' ho' => ?_, ?_, fun hinput hall hmem => ?_⟩
  · rw [val_bind, h.outcomes, hx.outcomes, append_assoc]
    rfl
  · cases i with
    | zero => exact hf
    | succ i => exact h.fits i (Nat.lt_of_succ_lt_succ hi)
  · cases i with
    | zero => exact Option.some.inj ho' ▸ hx.judged
    | succ i => exact h.judged i o' ho'
  · rw [within_bind, hx.within, h.within]
    refine ⟨fun ⟨h0, hs⟩ i o' ho' => ?_, fun hall =>
      ⟨hall 0 o rfl, fun i o' ho' => hall (i + 1) o' ho'⟩⟩
    cases i with
    | zero => exact Option.some.inj ho' ▸ h0
    | succ i => exact hs i o' ho'
  · rcases mem_cons.mp hmem with ho | hmem
    · exact hall _ (hx.noMbuf ho.symm)
    · exact h.noMbuf hinput (hx.alloc hinput ▸ hall) hmem

theorem rxLoop_parsed (sc : RxChip) (inputFn : InputFn ν) (buf : Nat → UInt8) (len : Nat) :
    ∀ (npkts desc : Nat) (s : RxDev ν), ∃ outs,
      RxParsed sc inputFn buf len desc npkts s outs
      (rxLoop sc inputFn buf npkts desc ((len : Int) - desc) s) := by
  intro npkts
  induction npkts with
  | zero =>
    intro desc s
    exact ⟨[], .stop rfl (within_pure _) (.inl rfl)⟩
  | succ npkts ih =>
    intro desc s
    rw [rxLoop]
    split
    · next hlen =>
      refine ⟨[], .stop rfl (within_pure _) (.inr fun hf => ?_)⟩
      have := hf.1
      rw [rxDescSize] at this
      omega
    split
    · next hlen =>
      refine ⟨[], .stop rfl (within_pure _) (.inr fun hf => ?_)⟩
      have := hf.1
      omega
    next hneg hlen =>
    have hw : (ldw buf desc).Within len := (within_ldw ..).mpr (by rw [rxDescSize] at hlen; omega)
    have hround : ∃ outs, RxParsed sc inputFn buf len desc (npkts + 1) s outs
        (if rxPktlen (rxdw0At buf desc) = 0 then pure s
        else if (totlenAt buf desc : Int) > (len : Int) - desc then pure s
        else rxFrame sc inputFn buf desc (rxPktlen (rxdw0At buf desc)) s >>= fun s =>
          rxLoop sc inputFn buf npkts (desc + roundup2 (totlenAt buf desc) sc.pktspacing)
            ((len : Int) - desc - roundup2 (totlenAt buf desc) sc.pktspacing) s) := by
      split
      · next hzero => exact ⟨[], .stop rfl (within_pure _) (.inr fun hf => hf.2.1 hzero)⟩
      next hpos =>
      split
      · next htot =>
        refine ⟨[], .stop rfl (within_pure _) (.inr fun hf => ?_)⟩
        have := hf.2.2
        omega
      next htot =>
      have hf : RxFits buf len desc := ⟨by omega, hpos, by omega⟩
      obtain ⟨o, ho⟩ := rxFrame_spec sc inputFn hf s
      obtain ⟨outs, hrest⟩ := ih (desc + roundup2 (totlenAt buf desc) sc.pktspacing)
        (rxFrame sc inputFn buf desc (rxPktlen (rxdw0At buf desc)) s).val
      rw [show (len : Int) - desc - roundup2 (totlenAt buf desc) sc.pktspacing =
        (len : Int) - (desc + roundup2 (totlenAt buf desc) sc.pktspacing : Nat) by push_cast; omega]
      exact ⟨o :: outs, .cons hf ho hrest⟩
    obtain ⟨outs, hround⟩ := hround
    exact ⟨outs, RxParsed.behind hw hround⟩

/-- The number of frames that a transfer announces. -/
def announced (sc : RxChip) (buf : Nat → UInt8) (status : XferStatus) (len : Nat) : Nat :=
  if status = .normalCompletion ∧ rxDescSize ≤ len then sc.npkts (ldw buf 8).val else 0

/-- The frame that is handed up. -/
def RxOutcome.frame : RxOutcome ν → Option (List UInt8)
  | .up _ frame _ => some frame
  | _ => none

/-- The frame behind the descriptor at `desc`, if it is to be handed up. -/
def wholeFrame (buf : Nat → UInt8) (desc : Nat) : Option (List UInt8) :=
  if rxdw0At buf desc &&& 0x0000c000 = 0 ∧ 10 ≤ rxPktlen (rxdw0At buf desc) ∧
    rxPktlen (rxdw0At buf desc) ≤ mclbytes then
    some (window buf (frameAt buf desc) (rxPktlen (rxdw0At buf desc)))
  else none

theorem RxJudged.frame (h : RxJudged buf desc o) (hno : o ≠ .noMbuf) :
    o.frame = wholeFrame buf desc := by
  rw [wholeFrame]
  cases h with
  | crcError hcrc => exact (if_neg fun h => hcrc h.1).symm
  | tooShort _ hlen => exact (if_neg fun h => Nat.not_lt.mpr h.2.1 hlen).symm
  | tooBig _ hlen => exact (if_neg fun h => Nat.not_lt.mpr h.2.2 hlen).symm
  | noMbuf _ _ _ => exact absurd rfl hno
  | up hcrc hmin hmax => exact (if_pos ⟨hcrc, hmin, hmax⟩).symm

theorem filterMap_eq_range {β : Type} {f : α → Option β} : ∀ {l : List α} {g : Nat → Option β},
    (∀ i a, l[i]? = some a → f a = g i) → l.filterMap f = (range l.length).filterMap g := by
  intro l
  induction l with
  | nil => intro g _; rfl
  | cons a l ih =>
    intro g h
    rw [length_cons, range_succ_eq_map, filterMap_cons, filterMap_cons, filterMap_map,
      h 0 a rfl, ih fun i b hb => h (i + 1) b hb]
    rfl

theorem lookupFits_iff {buf : Nat → UInt8} {len : Nat} {desc : Nat → Nat}
    {outs : List (RxOutcome ν)} :
    (∀ i o, outs[i]? = some o → LookupFits buf len (desc i) o) ↔
      ∀ i n frame rssi, outs[i]? = some (.up n frame rssi) →
        frameAt buf (desc i) + lookupLen (buf (frameAt buf (desc i))) ≤ len := by
  refine ⟨fun h i n frame rssi ho => h i _ ho, fun h i o ho => ?_⟩
  cases o with
  | up n frame rssi => exact h i n frame rssi ho
  | crcError | tooShort | tooBig | noMbuf => exact trivial

/-- A transfer is parsed from its start, for as many frames as it announces. -/
theorem rxeof_parsed (sc : RxChip) (inputFn : InputFn ν) (buf : Nat → UInt8) (status : XferStatus)
    (len : Nat) (s : RxDev ν) :
    ∃ outs x, RxParsed sc inputFn buf len 0 (announced sc buf status len) s outs x ∧
      x.val = (urtwnRxeof sc inputFn buf status len s).val.1 ∧
      (x.Within len ↔ (urtwnRxeof sc inputFn buf status len s).Within len) := by
  by_cases hrun : status = .normalCompletion ∧ rxDescSize ≤ len
  · obtain ⟨rfl, hlen⟩ := hrun
    obtain ⟨outs, h⟩ := rxLoop_parsed sc inputFn buf len (sc.npkts (ldw buf 8).val) 0 s
    have hw : (ldw buf 8).Within len := (within_ldw ..).mpr (by rw [rxDescSize] at hlen; omega)
    rw [Nat.cast_zero, Int.sub_zero] at h
    rw [announced, if_pos ⟨rfl, hlen⟩, urtwnRxeof, if_neg (Nat.not_lt.mpr hlen)]
    refine ⟨outs, _, h, rfl, ?_⟩
    simp only [within_bind, within_pure, and_true, hw, true_and]
  · have hidle : (urtwnRxeof sc inputFn buf status len s).val.1 = s ∧
        (urtwnRxeof sc inputFn buf status len s).Within len := by
      cases status with
      | normalCompletion =>
        rw [urtwnRxeof, if_pos (Nat.lt_of_not_le fun hlen => hrun ⟨rfl, hlen⟩)]
        exact ⟨rfl, within_pure _⟩
      | notStarted | cancelled | stalled | other => exact ⟨rfl, within_pure _⟩
    rw [announced, if_neg hrun]
    exact ⟨[], pure s, .stop rfl (within_pure _) (.inl rfl), hidle.1.symm, fun _ => hidle.2,
      fun _ => within_pure _⟩

/-- Each descriptor up to the announced count, if it and all before it fit and its frame is to be
handed up, leaves room for the address that is looked up. -/
def LookupsFit (sc : RxChip) (buf : Nat → UInt8) (status : XferStatus) (len : Nat) : Prop :=
  ∀ i < announced sc buf status len, (∀ j ≤ i, RxFits buf len (descAt sc buf 0 j)) →
    (wholeFrame buf (descAt sc buf 0 i)).isSome = true →
    frameAt buf (descAt sc buf 0 i) + lookupLen (buf (frameAt buf (descAt sc buf 0 i))) ≤ len

/-- Every transfer, whatever it holds. The frames that are handed up are those behind the
descriptors, in order, up to the announced count or the first that does not fit. The accesses stay
inside the transfer exactly if the addresses that are looked up do; that is so if the descriptors
leave room for them, and as long as there are mbufs only then. -/
theorem rxeof_parses (sc : RxChip) (inputFn : InputFn ν) (buf : Nat → UInt8)
    (status : XferStatus) (len : Nat) (s : RxDev ν) :
    ∃ outs, (urtwnRxeof sc inputFn buf status len s).val.1.outcomes = s.outcomes ++ outs ∧
      outs.length ≤ announced sc buf status len ∧
      (∀ i < outs.length, RxFits buf len (descAt sc buf 0 i)) ∧
      (outs.length = announced sc buf status len ∨
        ¬ RxFits buf len (descAt sc buf 0 outs.length)) ∧
      (∀ i o, outs[i]? = some o → RxJudged buf (descAt sc buf 0 i) o) ∧
      (KeepsAlloc inputFn → (∀ a, s.rx.heap.alloc a ≠ none) → outs.filterMap RxOutcome.frame =
          (range outs.length).filterMap fun i => wholeFrame buf (descAt sc buf 0 i)) ∧
      ((urtwnRxeof sc inputFn buf status len s).Within len ↔
        ∀ i n frame rssi, outs[i]? = some (.up n frame rssi) →
          frameAt buf (descAt sc buf 0 i) +
            lookupLen (buf (frameAt buf (descAt sc buf 0 i))) ≤ len) ∧
      (LookupsFit sc buf status len → (urtwnRxeof sc inputFn buf status len s).Within len) ∧
      (KeepsAlloc inputFn → (∀ a, s.rx.heap.alloc a ≠ none) →
        ((urtwnRxeof sc inputFn buf status len s).Within len ↔ LookupsFit sc buf status len)) := by
  obtain ⟨outs, x, h, hval, hx⟩ := rxeof_parsed sc inputFn buf status len s
  have hwithin := hx.symm.trans (h.within.trans lookupFits_iff)
  have hframe : KeepsAlloc inputFn → (∀ a, s.rx.heap.alloc a ≠ none) → ∀ i o, outs[i]? = some o →
      o.frame = wholeFrame buf (descAt sc buf 0 i) :=
    fun hinput hall i o ho =>
      (h.judged i o ho).frame fun hno => h.noMbuf hinput hall (hno ▸ mem_of_getElem? ho)
  have hroom : LookupsFit sc buf status len →
      (urtwnRxeof sc inputFn buf status len s).Within len := by
    intro hl
    refine hwithin.mpr fun i n frame rssi ho => ?_
    have hi : i < outs.length := (List.getElem?_eq_some_iff.mp ho).1
    refine hl i (Nat.lt_of_lt_of_le hi h.count) (fun j hj => h.fits j (by omega)) ?_
    rw [← (h.judged i _ ho).frame (fun h => by cases h)]
    rfl
  refine ⟨outs, hval ▸ h.outcomes, h.count, h.fits, h.stops, h.judged, fun hinput hall => ?_,
    hwithin, hroom, fun hinput hall => ⟨fun hw i hi hfit hwhole => ?_, hroom⟩⟩
  · exact filterMap_eq_range (hframe hinput hall)
  · -- the loop has come to the descriptor
    have hlt : i < outs.length := by
      by_contra hle
      rcases h.stops with heq | hno
      · omega
      · exact hno (hfit _ (by omega))
    have ho : outs[i]? = some outs[i] := getElem?_eq_getElem hlt
    rw [← hframe hinput hall i _ ho] at hwhole
    cases hup : outs[i] with
    | up n frame rssi => exact hwithin.mp hw i n frame rssi (hup ▸ ho)
    | crcError | tooShort | tooBig | noMbuf =>
      rw [hup] at hwhole
      cases hwhole

/-- A transfer of one data frame of ten octets. -/
def shortFrame (i : Nat) : UInt8 :=
  ([10, 0, 0, 0, 0, 0, 0, 0, 0, 0, 1, 0] : List UInt8).getD i (if i = 24 then 0x08 else 0)

def chip92c : RxChip := { chip92c := true, chip88e := false, chip92eu := false, cckHipwr := false }

def rxIdle : RxDev Unit := { rx := (openTx 2346).sc.toRx, avgPwdb := -1, outcomes := [] }

/-- The transfer has 34 octets. -/
def shortTransfer : Traced (RxDev Unit × Bool) :=
  urtwnRxeof chip92c (fun rx _ _ _ => rx) shortFrame .normalCompletion 34 rxIdle

/-- The frame is handed up, and octet 39 is read for it. -/
theorem rxeof_reads_behind :
    shortTransfer.val.1.outcomes.map RxOutcome.frame = [some [0x08, 0, 0, 0, 0, 0, 0, 0, 0, 0]] ∧
      (39, 1) ∈ shortTransfer.log ∧ ¬ shortTransfer.Within 34 := by
  refine ⟨by decide, by decide, fun h => ?_⟩
  exact absurd (h (39, 1) (by decide)) (by decide)

end Net80211.Urtwn
