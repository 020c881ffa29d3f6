import Net80211.Proofs.Elements

/-!
# What a WPA or RSN element negotiates

`ieee80211_parse_wpa` and `ieee80211_parse_rsn` collect the suites of an element in a
word, one bit for each, and choose from the bits that the local parameters have too.
An `Offer` is what the element says, read off its octets without the parser; the
parser's word is a fold over it (`mask`), and a bit of the word is a suite of the offer
(`bit_mask`).

The parser stays inside the element, whatever is around it. What it chooses is another
matter. Whatever is not TKIP is taken for CCM: an element that offers neither is
accepted as long as it shares some cipher with the local set, and the local set has WEP
from the start. A selector that is not known is worth `1 << 32`, which is nothing only
where the shift makes it so. And a capability field is read where more than its two
octets are left, so one that ends the element is passed over.
-/

namespace Net80211

open Lib Lib.Guarded List Option

/-! ## Elements and offers -/

/-- An element by itself; the length octet is that of the body. -/
structure Element where
  id : UInt8
  body : List UInt8
  short : body.length < 256

def Element.bytes (e : Element) : List UInt8 := e.id :: UInt8.ofNat e.body.length :: e.body

def u16At (e : List UInt8) (i : Nat) : UInt16 :=
  (e.getD i 0).toUInt16 ||| (e.getD (i + 1) 0).toUInt16 <<< 8

def u32At (e : List UInt8) (i : Nat) : UInt32 :=
  (e.getD i 0).toUInt32 ||| (e.getD (i + 1) 0).toUInt32 <<< 8 |||
    (e.getD (i + 2) 0).toUInt32 <<< 16 ||| (e.getD (i + 3) 0).toUInt32 <<< 24

/-- The `n` selectors from `i` on. -/
def selectorsAt (e : List UInt8) (i : Nat) : Nat → List UInt32
  | 0 => []
  | n + 1 => u32At e i :: selectorsAt e (i + 4) n

/-- The suites of an element, and what is behind them. -/
structure Offer where
  group : UInt32
  ucast : List UInt32
  akm : List UInt32
  rest : List UInt8

/-- The offer of an element with these octets. -/
def SecIe.offer (ie : SecIe) (e : List UInt8) : Offer :=
  let base := 2 + ie.oui.toNat
  let n := (u16At e (base + 6)).toNat
  let m := (u16At e (base + 8 + 4 * n)).toNat
  { group := u32At e (base + 2), ucast := selectorsAt e (base + 8) n
    akm := selectorsAt e (base + 8 + 4 * n + 2) m, rest := e.drop (base + 8 + 4 * n + 2 + 4 * m) }

/-- The capability field, where there is one. -/
def Offer.caps (o : Offer) : Option UInt16 :=
  if 2 ≤ o.rest.length then some (u16At o.rest 0) else none

/-- A cipher in a set of ciphers. -/
def inSet (set : UInt8) (c : Nat) : Prop := set.toNat.testBit c = true

/-- The cipher is offered, and enabled here. -/
def Acceptable (ie : SecIe) (o : Offer) (rsn : RsnParms) (c : Nat) : Prop :=
  (∃ sel ∈ o.ucast, (ie.cipher sel).1 = c) ∧ inSet rsn.rsnUcastcipherset c

/-- What is to hold of parameters that were negotiated from an offer. -/
structure Negotiated (ie : SecIe) (o : Offer) (rsn rsn' : RsnParms) : Prop where
  ucast : Acceptable ie o rsn rsn'.rsnUcastcipher.toNat
  keymgmt : (∃ sel ∈ o.akm, ie.keymgmt sel = rsn'.rsnKeymgmt.toUInt32) ∧
    rsn'.rsnKeymgmt &&& rsn.rsnKeymgmtset ≠ 0
  group : (ie.cipher o.group).1 = rsn.rsnMcastcipher.toNat
  mcast : rsn'.rsnMcastcipher = rsn.rsnMcastcipher
  caps : ∀ c, o.caps = some c → rsn'.rsnCaps = c

/-! ## Bits -/

def bit (w : UInt32) (k : Nat) : Bool := w.toBitVec.getLsbD k

/-- The word that a list of selectors adds up to. -/
def mask (f : UInt32 → UInt32) (sels : List UInt32) : UInt32 :=
  sels.foldl (fun w sel => w ||| f sel) 0

theorem bit_or (v w : UInt32) (k : Nat) : bit (v ||| w) k = (bit v k || bit w k) := by
  rw [bit, UInt32.toBitVec_or, BitVec.getLsbD_or]
  rfl

theorem bit_and (v w : UInt32) (k : Nat) : bit (v &&& w) k = (bit v k && bit w k) := by
  rw [bit, UInt32.toBitVec_and, BitVec.getLsbD_and]
  rfl

theorem bit_toUInt32 (set : UInt8) (k : Nat) : bit set.toUInt32 k = set.toNat.testBit k := by
  rw [bit, BitVec.getLsbD, UInt32.toNat_toBitVec, UInt8.toNat_toUInt32]

theorem bit_foldl (f : UInt32 → UInt32) (k : Nat) : ∀ (sels : List UInt32) (w : UInt32),
    bit (sels.foldl (fun w sel => w ||| f sel) w) k =
    (bit w k || sels.any fun sel => bit (f sel) k) := by
  intro sels
  induction sels with
  | nil => exact fun w => (Bool.or_false _).symm
  | cons sel sels ih =>
    intro w
    rw [foldl_cons, ih, bit_or, any_cons, Bool.or_assoc]

theorem bit_mask (f : UInt32 → UInt32) (sels : List UInt32) (k : Nat) :
    bit (mask f sels) k = true ↔ ∃ sel ∈ sels, bit (f sel) k = true := by
  rw [mask, bit_foldl, show bit 0 k = false from BitVec.getLsbD_zero, Bool.false_or,
    List.any_eq_true]

theorem and_bit_ne_zero (w v : UInt32) {k : Nat} (hk : k < 32)
    (hv : v.toBitVec = BitVec.twoPow 32 k) : (w &&& v != 0) = bit w k := by
  have hand : (w &&& v).toBitVec = if bit w k then BitVec.twoPow 32 k else 0#32 := by
    rw [UInt32.toBitVec_and, hv, BitVec.and_twoPow]
    rfl
  have hpow : BitVec.twoPow 32 k ≠ 0#32 := by
    intro h
    have hbit := congrArg (fun b => b.getLsbD k) h
    simp [hk] at hbit
  cases hb : bit w k with
  | true =>
    rw [hb, if_pos rfl] at hand
    rw [bne_iff_ne]
    intro h
    rw [h] at hand
    exact hpow hand.symm
  | false =>
    rw [hb, if_neg Bool.false_ne_true] at hand
    rw [bne_eq_false_iff_eq]
    exact UInt32.toBitVec_inj.mp hand

/-! ## The parser against the offer -/

section Parse

variable {e : List UInt8} {ie : SecIe} {shl32 : UInt32}

theorem readAt_getD {i : Nat} (h : i < e.length) :
    Sat (fun b => b = e.getD i 0) (readAt e i : Guarded MgmtDrop UInt8) :=
  (sat_readAt h).mono fun b hb => by rw [getD_eq_getElem?_getD, hb, getD_some]

theorem leRead2_u16At {i : Nat} (h : i + 2 ≤ e.length) :
    Sat (fun w => w = u16At e i) (leRead2 e i) := by
  rw [leRead2]
  refine (readAt_getD (by omega)).bind fun a ha => ?_
  refine (readAt_getD (by omega)).bind fun b hb => ?_
  rw [ha, hb]
  exact sat_pure rfl

theorem leRead4_u32At {i : Nat} (h : i + 4 ≤ e.length) :
    Sat (fun w => w = u32At e i) (leRead4 e i) := by
  rw [leRead4]
  refine (readAt_getD (by omega)).bind fun a ha => ?_
  refine (readAt_getD (by omega)).bind fun b hb => ?_
  refine (readAt_getD (by omega)).bind fun c hc => ?_
  refine (readAt_getD (by omega)).bind fun d hd => ?_
  rw [ha, hb, hc, hd]
  exact sat_pure rfl

/-- What a round adds to the word is that of its selector. -/
def Adds (e : List UInt8) (f : UInt32 → UInt32)
    (body : Selectors → Guarded MgmtDrop Selectors) : Prop :=
  ∀ s, s.frm + 4 ≤ e.length →
    Sat (fun s' => s'.frm = s.frm + 4 ∧ s'.len = s.len - 4 ∧
    s'.w = s.w ||| f (u32At e s.frm)) (body s)

theorem adds_ucastRound :
    Adds e (fun sel => cipherBit shl32 (ie.cipher sel).1) (ucastRound e shl32 ie) := by
  intro s hs
  rw [ucastRound]
  refine (leRead4_u32At hs).bind fun sel hsel => ?_
  rw [← hsel]
  exact ⟨rfl, rfl, rfl⟩

theorem adds_keymgmtRound : Adds e ie.keymgmt (keymgmtRound e ie) := by
  intro s hs
  rw [keymgmtRound]
  refine (leRead4_u32At hs).bind fun sel hsel => ?_
  rw [← hsel]
  exact ⟨rfl, rfl, rfl⟩

theorem sat_selectorsAt {f : UInt32 → UInt32} {body : Selectors → Guarded MgmtDrop Selectors}
    (hbody : Adds e f body) : ∀ (n : Nat) (s : Selectors), s.frm + s.len.toNat = e.length →
    n * 4 ≤ s.len.toNat → Sat (fun s' => s'.frm = s.frm + 4 * n ∧ s'.frm + s'.len.toNat = e.length ∧
      s'.w = (selectorsAt e s.frm n).foldl (fun w sel => w ||| f sel) s.w) (repeatN body n s) := by
  intro n
  induction n with
  | zero => exact fun s hend _ => ⟨rfl, hend, rfl⟩
  | succ n ih =>
    intro s hend hn
    have hsub : (s.len - 4).toNat = s.len.toNat - 4 :=
      toNat_sub_of_toNat_le (show 4 ≤ s.len.toNat by omega)
    rw [repeatN]
    refine (hbody s (by omega)).bind fun s' hs' => ?_
    obtain ⟨hfrm, hlen, hw⟩ := hs'
    refine (ih s' (by rw [hfrm, hlen, hsub]; omega) (by rw [hlen, hsub]; omega)).mono fun t ht => ?_
    refine ⟨by rw [ht.1, hfrm]; omega, ht.2.1, ?_⟩
    rw [ht.2.2, hw, hfrm, selectorsAt, foldl_cons]

theorem u16At_drop (e : List UInt8) (i : Nat) : u16At (e.drop i) 0 = u16At e i := by
  simp only [u16At, getD_eq_getElem?_getD, getElem?_drop, Nat.add_zero, Nat.zero_add]

theorem sat_parseCaps_rest {frm : Nat} {len : UInt8} (rsn : RsnParms)
    (hend : frm + len.toNat = e.length) : Sat (fun rsn' => rsn' = { rsn with
        rsnCaps := if 2 < (e.drop frm).length then u16At (e.drop frm) 0 else rsn.rsnCaps })
      (parseCaps e frm len rsn) := by
  have hrest : (e.drop frm).length = len.toNat := by rw [length_drop]; omega
  have hiff : len > 2 ↔ 2 < len.toNat := UInt8.lt_iff_toNat_lt
  rw [parseCaps, hrest, u16At_drop]
  refine sat_ite (fun hgt => ?_) (fun hle => ?_)
  · have hlt := hiff.mp hgt
    refine (leRead2_u16At (by omega)).bind fun caps hcaps => ?_
    rw [if_pos hlt, ← hcaps]
    exact sat_pure rfl
  · rw [if_neg fun hlt => hle (hiff.mpr hlt)]
    exact sat_pure rfl

/-- How a choice comes out of the offer. -/
structure Chosen (shl32 : UInt32) (ie : SecIe) (o : Offer) (rsn rsn' : RsnParms) : Prop where
  group : (ie.cipher o.group).1 = rsn.rsnMcastcipher.toNat
  mcast : rsn'.rsnMcastcipher = rsn.rsnMcastcipher
  ucast : rsn'.rsnUcastcipher =
    if mask (fun sel => cipherBit shl32 (ie.cipher sel).1) o.ucast &&&
      rsn.rsnUcastcipherset.toUInt32 &&& 2 != 0
      then 1 else 3
  akm : mask ie.keymgmt o.akm &&& rsn.rsnKeymgmtset.toUInt32 ≠ 0
  keymgmt : rsn'.rsnKeymgmt =
    if mask ie.keymgmt o.akm &&& rsn.rsnKeymgmtset.toUInt32 &&& 1 != 0 then 1 else 2
  caps : rsn'.rsnCaps = if 2 < o.rest.length then u16At o.rest 0 else rsn.rsnCaps

theorem refused {P : RsnParms → Prop} : ∀ rsn' ∈ (none : Option RsnParms), P rsn' := by
  intro rsn' h
  cases h

/-- The part of the choice that is made from the key management suites on, for a list of them
at `frm`. -/
def ChosenFrom (e : List UInt8) (ie : SecIe) (frm : Nat) (rsn rsn' : RsnParms) : Prop :=
  let m := (u16At e frm).toNat
  let w := mask ie.keymgmt (selectorsAt e (frm + 2) m) &&& rsn.rsnKeymgmtset.toUInt32
  let rest := e.drop (frm + 2 + 4 * m)
  w ≠ 0 ∧ rsn' = { rsn with
    rsnKeymgmt := if w &&& 1 != 0 then 1 else 2
    rsnCaps := if 2 < rest.length then u16At rest 0 else rsn.rsnCaps }

theorem sat_parseKeymgmt_chosen {frm : Nat} {len : UInt8} (rsn : RsnParms)
    (hend : frm + len.toNat = e.length) (hlen : 2 ≤ len.toNat) :
    Sat (fun r => ∀ rsn' ∈ r, ChosenFrom e ie frm rsn rsn') (parseKeymgmt e ie frm len rsn) := by
  have hsub : (len - 2).toNat = len.toNat - 2 := toNat_sub_of_toNat_le hlen
  rw [parseKeymgmt]
  refine (leRead2_u16At (by omega)).bind fun n hn => ?_
  rw [hn]
  refine sat_ite (fun _ => refused) (fun hroom => ?_)
  refine (sat_selectorsAt adds_keymgmtRound _ _ (by show frm + 2 + (len - 2).toNat = _; omega)
    (Nat.not_lt.mp hroom)).bind fun s hs => ?_
  obtain ⟨hfrm, hend', hw⟩ := hs
  have hmask : s.w = mask ie.keymgmt (selectorsAt e (frm + 2) (u16At e frm).toNat) := hw
  have hfrm' : s.frm = frm + 2 + 4 * (u16At e frm).toNat := hfrm
  refine sat_ite (fun _ => refused) (fun hne => ?_)
  refine (sat_parseCaps_rest _ hend').bind fun rsn' hrsn' => ?_
  intro r hr
  cases hr
  simp only [ChosenFrom]
  rw [← hmask, ← hfrm']
  exact ⟨hne, hrsn'⟩

theorem sat_parseUcast_chosen {frm : Nat} {len : UInt8} (rsn : RsnParms)
    (hend : frm + len.toNat = e.length) (hlen : 2 ≤ len.toNat) : Sat (fun r => ∀ rsn' ∈ r, ∃ keylen,
        ChosenFrom e ie (frm + 2 + 4 * (u16At e frm).toNat) { rsn with
            rsnUcastcipher :=
              if mask (fun sel => cipherBit shl32 (ie.cipher sel).1)
                  (selectorsAt e (frm + 2) (u16At e frm).toNat) &&&
                rsn.rsnUcastcipherset.toUInt32 &&& 2 != 0 then 1 else 3
            rsnUcastkeylen := keylen } rsn') (parseUcast e shl32 ie frm len rsn) := by
  have hsub : (len - 2).toNat = len.toNat - 2 := toNat_sub_of_toNat_le hlen
  rw [parseUcast]
  refine (leRead2_u16At (by omega)).bind fun n hn => ?_
  rw [hn]
  refine sat_ite (fun _ => refused) (fun hroom => ?_)
  have hroom' : (u16At e frm).toNat * 4 + 2 ≤ (len - 2).toNat := Nat.not_lt.mp hroom
  refine (sat_selectorsAt adds_ucastRound _ _ (by show frm + 2 + (len - 2).toNat = _; omega)
    (by show _ ≤ (len - 2).toNat; omega)).bind fun s hs => ?_
  obtain ⟨hfrm, hend', hw⟩ := hs
  have hmask : s.w = mask (fun sel => cipherBit shl32 (ie.cipher sel).1)
    (selectorsAt e (frm + 2) (u16At e frm).toNat) := hw
  have hfrm' : s.frm = frm + 2 + 4 * (u16At e frm).toNat := hfrm
  refine sat_ite (fun _ => refused) (fun _ => ?_)
  refine (sat_parseKeymgmt_chosen _ hend' (by omega)).mono fun r hr rsn' hrsn' => ⟨s.keylen, ?_⟩
  rw [← hmask, ← hfrm']
  exact hr rsn' hrsn'

theorem sat_parseSecIe_chosen {n : UInt8} (hn : e[1]? = some n) (hend : e.length = n.toNat + 2)
    (hie : ie.oui.toNat + 10 ≤ ie.minlen.toNat) (enabled : Bool) (rsn : RsnParms) :
    Sat (fun r => ∀ rsn' ∈ r, Chosen shl32 ie (ie.offer e) rsn rsn')
      (parseSecIe e shl32 ie enabled 0 rsn) := by
  rw [parseSecIe]
  refine (sat_readAt (show 0 + 1 < e.length by omega)).bind fun len hlen => ?_
  obtain rfl : n = len := some_inj.mp (hn.symm.trans hlen)
  refine sat_ite (fun _ => refused) (fun _ => sat_ite (fun _ => refused) (fun hmin => ?_))
  have hge : ie.minlen.toNat ≤ n.toNat := UInt8.le_iff_toNat_le.mp (UInt8.not_lt.mp hmin)
  have houi : (n - ie.oui).toNat = n.toNat - ie.oui.toNat := toNat_sub_of_toNat_le (by omega)
  have hsub : (n - ie.oui - 6).toNat = (n - ie.oui).toNat - 6 :=
    toNat_sub_of_toNat_le (show 6 ≤ (n - ie.oui).toNat by omega)
  refine (leRead2_u16At (by omega)).bind fun version _ => ?_
  refine sat_ite (fun _ => refused) (fun _ => ?_)
  refine (leRead4_u32At (by omega)).bind fun sel hsel => ?_
  refine sat_ite (fun _ => refused) (fun hgroup => ?_)
  refine (sat_parseUcast_chosen _ (by omega) (by omega)).mono fun r hr rsn' hrsn' => ?_
  obtain ⟨keylen, hne, heq⟩ := hr rsn' hrsn'
  have hfrm : 0 + 2 + ie.oui.toNat = 2 + ie.oui.toNat := by omega
  rw [hfrm] at hne heq hsel
  subst heq
  subst hsel
  exact { group := Decidable.not_not.mp hgroup, mcast := rfl, ucast := rfl, akm := hne,
          keymgmt := rfl
          caps := rfl }

end Parse

/-! ## Around the element -/

section Around

variable (pre e post : List UInt8) (shl32 : UInt32) (ie : SecIe)

theorem sim_leRead2 (i : Nat) :
    Sim Eq (leRead2 e i) (leRead2 (pre ++ e ++ post) (pre.length + i)) := by
  rw [leRead2, leRead2, Nat.add_assoc]
  refine (sim_readAt pre e post i).bind fun a a' ha => ?_
  refine (sim_readAt pre e post (i + 1)).bind fun b b' hb => ?_
  rw [ha, hb]
  exact .done rfl

theorem sim_leRead4 (i : Nat) :
    Sim Eq (leRead4 e i) (leRead4 (pre ++ e ++ post) (pre.length + i)) := by
  rw [leRead4, leRead4, Nat.add_assoc, Nat.add_assoc, Nat.add_assoc]
  refine (sim_readAt pre e post i).bind fun a a' ha => ?_
  refine (sim_readAt pre e post (i + 1)).bind fun b b' hb => ?_
  refine (sim_readAt pre e post (i + 2)).bind fun c c' hc => ?_
  refine (sim_readAt pre e post (i + 3)).bind fun d d' hd => ?_
  rw [ha, hb, hc, hd]
  exact .done rfl

/-- The same place in the element, and the same found so far. -/
def Shifted (pre : List UInt8) (s s' : Selectors) : Prop :=
  s' = { s with frm := pre.length + s.frm }

theorem sim_ucastRound (s s' : Selectors) (h : Shifted pre s s') :
    Sim (Shifted pre) (ucastRound e shl32 ie s) (ucastRound (pre ++ e ++ post) shl32 ie s') := by
  subst h
  rw [ucastRound, ucastRound]
  refine (sim_leRead4 pre e post s.frm).bind fun sel sel' hsel => ?_
  subst hsel
  exact .done rfl

theorem sim_keymgmtRound (s s' : Selectors) (h : Shifted pre s s') :
    Sim (Shifted pre) (keymgmtRound e ie s) (keymgmtRound (pre ++ e ++ post) ie s') := by
  subst h
  rw [keymgmtRound, keymgmtRound]
  refine (sim_leRead4 pre e post s.frm).bind fun sel sel' hsel => ?_
  subst hsel
  exact .done rfl

theorem sim_parseCaps (frm : Nat) (len : UInt8) (rsn : RsnParms) :
    Sim Eq (parseCaps e frm len rsn) (parseCaps (pre ++ e ++ post) (pre.length + frm) len rsn) := by
  rw [parseCaps, parseCaps]
  refine sim_ite ?_ (.done rfl)
  refine (sim_leRead2 pre e post frm).bind fun caps caps' hcaps => ?_
  subst hcaps
  exact .done rfl

theorem sim_parseKeymgmt (frm : Nat) (len : UInt8) (rsn : RsnParms) :
    Sim Eq (parseKeymgmt e ie frm len rsn)
      (parseKeymgmt (pre ++ e ++ post) ie (pre.length + frm) len rsn) := by
  rw [parseKeymgmt, parseKeymgmt]
  refine (sim_leRead2 pre e post frm).bind fun n n' hn => ?_
  subst hn
  refine sim_ite (.done rfl) ?_
  refine (sim_repeatN (sim_keymgmtRound pre e post ie) _ _ _ rfl).bind fun s s' hs => ?_
  subst hs
  refine sim_ite (.done rfl) ?_
  refine (sim_parseCaps pre e post s.frm s.len _).bind fun rsn rsn' hrsn => ?_
  subst hrsn
  exact .done rfl

theorem sim_parseUcast (frm : Nat) (len : UInt8) (rsn : RsnParms) :
    Sim Eq (parseUcast e shl32 ie frm len rsn)
      (parseUcast (pre ++ e ++ post) shl32 ie (pre.length + frm) len rsn) := by
  rw [parseUcast, parseUcast]
  refine (sim_leRead2 pre e post frm).bind fun n n' hn => ?_
  subst hn
  refine sim_ite (.done rfl) ?_
  refine (sim_repeatN (sim_ucastRound pre e post shl32 ie) _ _ _ rfl).bind fun s s' hs => ?_
  subst hs
  exact sim_ite (.done rfl) (sim_parseKeymgmt pre e post ie s.frm s.len _)

theorem sim_parseSecIe (enabled : Bool) (rsn : RsnParms) :
    Sim Eq (parseSecIe e shl32 ie enabled 0 rsn)
      (parseSecIe (pre ++ e ++ post) shl32 ie enabled pre.length rsn) := by
  have hfrm : pre.length + 2 + ie.oui.toNat = pre.length + (0 + 2 + ie.oui.toNat) := by omega
  rw [parseSecIe, parseSecIe, hfrm]
  refine (sim_readAt pre e post (0 + 1)).bind fun len len' hlen => ?_
  subst hlen
  refine sim_ite (.done rfl) (sim_ite (.done rfl) ?_)
  refine (sim_leRead2 pre e post (0 + 2 + ie.oui.toNat)).bind fun version version' hversion => ?_
  subst hversion
  refine sim_ite (.done rfl) ?_
  refine (sim_leRead4 pre e post (0 + 2 + ie.oui.toNat + 2)).bind fun sel sel' hsel => ?_
  subst hsel
  exact sim_ite (.done rfl) (sim_parseUcast pre e post shl32 ie (0 + 2 + ie.oui.toNat + 6) _ _)

end Around

/-! ## The choice -/

/-- The two elements. -/
inductive SecKind where
  | wpa
  | rsn
  deriving DecidableEq, Repr

def SecKind.ie : SecKind → SecIe
  | .wpa => wpaIe
  | .rsn => rsnIe

/-- The parser of the element. -/
def SecKind.parse : SecKind → List UInt8 → UInt32 → Bool → Nat → RsnParms →
    Guarded MgmtDrop (Option RsnParms)
  | .wpa => parseWpa
  | .rsn => parseRsn

theorem SecKind.parse_eq (kind : SecKind) (e : List UInt8) (shl32 : UInt32) :
    kind.parse e shl32 = parseSecIe e shl32 kind.ie := by
  cases kind <;> rfl

variable {ie : SecIe} {o : Offer} {rsn rsn' : RsnParms} {shl32 : UInt32}

theorem bit_cipherBit (shl32 : UInt32) (c : Nat) {k : Nat} (hk : k < 32) :
    bit (cipherBit shl32 c) k = true ↔ c = k ∨ 32 ≤ c ∧ bit shl32 k = true := by
  rw [cipherBit]
  split
  · next hc =>
    have hpow : bit (UInt32.ofNat (2 ^ c)) k = decide (c = k) := by
      have hlt : 2 ^ c < 2 ^ 32 := Nat.pow_lt_pow_right (by omega) hc
      rw [bit, BitVec.getLsbD, UInt32.toNat_toBitVec, UInt32.toNat_ofNat', Nat.mod_eq_of_lt hlt,
        Nat.testBit_two_pow]
    rw [hpow, decide_eq_true_eq]
    omega
  · next hc =>
    have hne : c ≠ k := by omega
    exact ⟨fun hb => .inr ⟨Nat.le_of_not_lt hc, hb⟩, fun h => (h.resolve_left hne).2⟩

/-- A selector that is not known lends its shift to TKIP. -/
def Strays (shl32 : UInt32) (ie : SecIe) (o : Offer) (rsn : RsnParms) : Prop :=
  inSet rsn.rsnUcastcipherset 1 ∧ bit shl32 1 = true ∧ ∃ sel ∈ o.ucast, 32 ≤ (ie.cipher sel).1

theorem tkip_iff (shl32 : UInt32) (ie : SecIe) (o : Offer) (rsn : RsnParms) :
    (mask (fun sel => cipherBit shl32 (ie.cipher sel).1) o.ucast &&&
      rsn.rsnUcastcipherset.toUInt32 &&& 2 != 0)
      = true ↔ Acceptable ie o rsn 1 ∨ Strays shl32 ie o rsn := by
  rw [and_bit_ne_zero _ 2 (show 1 < 32 by omega) rfl, bit_and, Bool.and_eq_true, bit_toUInt32,
    bit_mask]
  constructor
  · rintro ⟨⟨sel, hsel, hbit⟩, hset⟩
    rcases (bit_cipherBit shl32 _ (by omega)).mp hbit with hc | ⟨hc, hshl⟩
    · exact .inl ⟨⟨sel, hsel, hc⟩, hset⟩
    · exact .inr ⟨hset, hshl, sel, hsel, hc⟩
  · rintro (⟨⟨sel, hsel, hc⟩, hset⟩ | ⟨hset, hshl, sel, hsel, hc⟩)
    · exact ⟨⟨sel, hsel, (bit_cipherBit shl32 _ (by omega)).mpr (.inl hc)⟩, hset⟩
    · exact ⟨⟨sel, hsel, (bit_cipherBit shl32 _ (by omega)).mpr (.inr ⟨hc, hshl⟩)⟩, hset⟩

theorem Chosen.ucast_iff (h : Chosen shl32 ie o rsn rsn') :
    Acceptable ie o rsn rsn'.rsnUcastcipher.toNat ↔
      Acceptable ie o rsn 1 ∨ Acceptable ie o rsn 3 ∧ ¬ Strays shl32 ie o rsn := by
  rw [h.ucast]
  split
  · next htkip =>
    constructor
    · exact .inl
    · rintro (h1 | ⟨-, hno⟩)
      · exact h1
      · exact ((tkip_iff shl32 ie o rsn).mp htkip).resolve_right hno
  · next htkip =>
    have hno : ¬ (Acceptable ie o rsn 1 ∨ Strays shl32 ie o rsn) := fun h =>
      htkip ((tkip_iff shl32 ie o rsn).mpr h)
    constructor
    · exact fun h3 => .inr ⟨h3, fun hs => hno (.inr hs)⟩
    · rintro (h1 | ⟨h3, -⟩)
      · exact absurd (.inl h1) hno
      · exact h3

theorem exists_bit {w : UInt32} (h : w ≠ 0) : ∃ k, bit w k = true := by
  by_contra hno
  apply h
  apply UInt32.toBitVec_inj.mp
  apply BitVec.eq_of_getLsbD_eq
  intro k _
  have hk : bit w k = false := Bool.eq_false_iff.mpr fun hk => hno ⟨k, hk⟩
  exact hk.trans BitVec.getLsbD_zero.symm

theorem and_ne_zero_of_bit {v set : UInt8} {k : Nat} (hv : bit v.toUInt32 k = true)
    (hset : bit set.toUInt32 k = true) : v &&& set ≠ 0 := by
  intro h
  have hbit := congrArg (fun x : UInt8 => bit x.toUInt32 k) h
  simp only [UInt8.toUInt32_and, bit_and, hv, hset, Bool.and_self] at hbit
  rw [show bit (0 : UInt8).toUInt32 k = false from BitVec.getLsbD_zero] at hbit
  cases hbit

/-- A suite is worth one bit at most, and the bit tells which. -/
def OneBit (ie : SecIe) : Prop :=
  ∀ sel k, bit (ie.keymgmt sel) k = true → k = 0 ∧ ie.keymgmt sel = 1 ∨ k = 1 ∧ ie.keymgmt sel = 2

theorem bit_one {k : Nat} (h : bit 1 k = true) : k = 0 := by
  rw [bit, BitVec.getLsbD, UInt32.toNat_toBitVec] at h
  have h2 : (2 ^ 0).testBit k = true := h
  rw [Nat.testBit_two_pow, decide_eq_true_eq] at h2
  exact h2.symm

theorem bit_two {k : Nat} (h : bit 2 k = true) : k = 1 := by
  rw [bit, BitVec.getLsbD, UInt32.toNat_toBitVec] at h
  have h2 : (2 ^ 1).testBit k = true := h
  rw [Nat.testBit_two_pow, decide_eq_true_eq] at h2
  exact h2.symm

theorem oneBit (kind : SecKind) : OneBit kind.ie := by
  have hcases : ∀ sel, kind.ie.keymgmt sel = 1 ∨ kind.ie.keymgmt sel = 2 ∨
      kind.ie.keymgmt sel = 0 := by
    intro sel
    cases kind
    · show wpaKeymgmt sel = 1 ∨ wpaKeymgmt sel = 2 ∨ wpaKeymgmt sel = 0
      rw [wpaKeymgmt]
      split
      · exact .inl rfl
      · split
        · exact .inr (.inl rfl)
        · exact .inr (.inr rfl)
    · show rsnKeymgmt sel = 1 ∨ rsnKeymgmt sel = 2 ∨ rsnKeymgmt sel = 0
      rw [rsnKeymgmt]
      split
      · exact .inl rfl
      · split
        · exact .inr (.inl rfl)
        · exact .inr (.inr rfl)
  intro sel k hbit
  rcases hcases sel with h | h | h
  · rw [h] at hbit
    exact .inl ⟨bit_one hbit, h⟩
  · rw [h] at hbit
    exact .inr ⟨bit_two hbit, h⟩
  · rw [h, show bit 0 k = false from BitVec.getLsbD_zero] at hbit
    cases hbit

theorem Chosen.keymgmt_ok (h : Chosen shl32 ie o rsn rsn') (hie : OneBit ie) :
    (∃ sel ∈ o.akm, ie.keymgmt sel = rsn'.rsnKeymgmt.toUInt32) ∧
      rsn'.rsnKeymgmt &&& rsn.rsnKeymgmtset ≠ 0 := by
  rw [h.keymgmt, and_bit_ne_zero _ 1 (show 0 < 32 by omega) rfl]
  split
  · next hbit =>
    rw [bit_and, Bool.and_eq_true, bit_mask] at hbit
    obtain ⟨⟨sel, hsel, hb⟩, hset⟩ := hbit
    refine ⟨⟨sel, hsel, ?_⟩, and_ne_zero_of_bit rfl hset⟩
    rcases hie sel 0 hb with ⟨-, h1⟩ | ⟨h01, -⟩
    · exact h1
    · cases h01
  · next hzero =>
    -- Some bit is set, and it is not that of 802.1X.
    obtain ⟨k, hk⟩ := exists_bit h.akm
    have hk' := hk
    rw [bit_and, Bool.and_eq_true, bit_mask] at hk'
    obtain ⟨⟨sel, hsel, hb⟩, hset⟩ := hk'
    rcases hie sel k hb with ⟨rfl, -⟩ | ⟨rfl, h2⟩
    · exact absurd hk hzero
    · exact ⟨⟨sel, hsel, h2⟩, and_ne_zero_of_bit rfl hset⟩

theorem Chosen.caps_iff (h : Chosen shl32 ie o rsn rsn') :
    (∀ c, o.caps = some c → rsn'.rsnCaps = c) ↔
    (o.rest.length = 2 → rsn.rsnCaps = u16At o.rest 0) := by
  rw [h.caps, Offer.caps]
  by_cases h2 : 2 < o.rest.length
  · rw [if_pos h2, if_pos (by omega)]
    exact ⟨fun _ heq => by omega, fun _ c hc => some_inj.mp hc⟩
  · rw [if_neg h2]
    constructor
    · intro hall heq
      exact hall _ (if_pos (by omega))
    · intro hall c hc
      split at hc
      · next hle => exact (hall (by omega)).trans (some_inj.mp hc)
      · cases hc

/-- For every WPA or RSN element, whatever is around it in the frame: the parser reads
inside the element only. Where it accepts, key management and multicast cipher are right;
the unicast cipher is exactly if TKIP, or else CCM, is offered and enabled, and the
capabilities are recorded exactly if they do not end the element. -/
theorem cipher_negotiation (kind : SecKind) (shl32 : UInt32) (enabled : Bool) (rsn : RsnParms)
    (pre post : List UInt8) (e : Element) :
    (∀ f, kind.parse e.bytes shl32 enabled 0 rsn ≠ .fault f) ∧
      kind.parse (pre ++ e.bytes ++ post) shl32 enabled pre.length rsn =
        kind.parse e.bytes shl32 enabled 0 rsn ∧
      ∀ rsn', kind.parse e.bytes shl32 enabled 0 rsn = .done (some rsn') →
        (Negotiated kind.ie (kind.ie.offer e.bytes) rsn rsn' ↔
          (Acceptable kind.ie (kind.ie.offer e.bytes) rsn 1 ∨
            Acceptable kind.ie (kind.ie.offer e.bytes) rsn 3 ∧
              ¬ Strays shl32 kind.ie (kind.ie.offer e.bytes) rsn) ∧
          ((kind.ie.offer e.bytes).rest.length = 2 →
            rsn.rsnCaps = u16At (kind.ie.offer e.bytes).rest 0)) := by
  have hlen : e.bytes.length = (UInt8.ofNat e.body.length).toNat + 2 := by
    rw [UInt8.toNat_ofNat', Nat.mod_eq_of_lt e.short]
    rfl
  have hmin : kind.ie.oui.toNat + 10 ≤ kind.ie.minlen.toNat := by
    cases kind <;> exact Nat.le_refl _
  have hsat : Sat (fun r => ∀ rsn' ∈ r, Chosen shl32 kind.ie (kind.ie.offer e.bytes) rsn rsn')
      (parseSecIe e.bytes shl32 kind.ie enabled 0 rsn) :=
    sat_parseSecIe_chosen rfl hlen hmin enabled rsn
  rw [kind.parse_eq, kind.parse_eq]
  refine ⟨hsat.not_fault, ((sim_parseSecIe _ _ _ _ _ enabled rsn).eq_of_sat hsat).symm, ?_⟩
  intro rsn' hdone
  rw [hdone] at hsat
  have hchosen : Chosen shl32 kind.ie (kind.ie.offer e.bytes) rsn rsn' := hsat rsn' rfl
  rw [← hchosen.ucast_iff, ← hchosen.caps_iff]
  constructor
  · exact fun h => ⟨h.ucast, h.caps⟩
  · rintro ⟨hucast, hcaps⟩
    exact { ucast := hucast, keymgmt := hchosen.keymgmt_ok (oneBit kind), group := hchosen.group
            mcast := hchosen.mcast, caps := hcaps }

/-- An RSN element with one unicast cipher, one key management suite (PSK) and TKIP for
multicast, as the local parameters have it. -/
def rsnSample (ucast : UInt8) (rest : List UInt8) (h : rest.length < 200) : Element where
  id := 48
  body := [1, 0, 0x00, 0x0f, 0xac, 2, 1, 0, 0x00, 0x0f, 0xac, ucast, 1, 0, 0x00, 0x0f, 0xac,
    2] ++ rest
  short := by
    rw [length_append]
    exact Nat.lt_of_lt_of_le (Nat.add_lt_add_left h 18) (by decide)

/-- CCMP, with capabilities and an empty list of PMKIDs. -/
theorem cipher_negotiation_sample :
    ∃ rsn', SecKind.rsn.parse (rsnSample 4 [0x0c, 0, 0, 0] (by decide)).bytes 0 true 0
        (lateattachRsn false false) = .done (some rsn') ∧
      Negotiated rsnIe (rsnIe.offer (rsnSample 4 [0x0c, 0, 0, 0] (by decide)).bytes)
        (lateattachRsn false false) rsn' := by
  refine ⟨_, rfl, ?_⟩
  refine ((cipher_negotiation .rsn 0 true (lateattachRsn false false) [] []
    (rsnSample 4 [0x0c, 0, 0, 0] (by decide))).2.2 _ rfl).mpr ⟨.inr ⟨?_, ?_⟩, ?_⟩
  · exact ⟨⟨0x04ac0f00, by decide, rfl⟩, rfl⟩
  · rintro ⟨-, hshl, -⟩
    cases hshl
  · intro hrest
    cases hrest

/-- The capabilities of the usual element, which end it, are not recorded; and an element
that offers WEP alone is accepted for CCM. -/
theorem negotiation_goes_wrong :
    (∃ rsn', SecKind.rsn.parse (rsnSample 4 [0x0c, 0] (by decide)).bytes 0 true 0
        (lateattachRsn false false) = .done (some rsn') ∧
      (rsnIe.offer (rsnSample 4 [0x0c, 0] (by decide)).bytes).caps = some 0x000c ∧
      rsn'.rsnCaps = 0 ∧ ¬ Negotiated rsnIe (rsnIe.offer (rsnSample 4 [0x0c, 0] (by decide)).bytes)
        (lateattachRsn false false) rsn') ∧
    ∃ rsn', SecKind.rsn.parse (rsnSample 1 [] (by decide)).bytes 0 true 0
        (lateattachRsn false false) = .done (some rsn') ∧ rsn'.rsnUcastcipher = 3 ∧
      ¬ Negotiated rsnIe (rsnIe.offer (rsnSample 1 [] (by decide)).bytes)
        (lateattachRsn false false) rsn' := by
  refine ⟨⟨_, rfl, rfl, rfl, fun h => ?_⟩, ⟨_, rfl, rfl, fun h => ?_⟩⟩
  · have hcaps : (0 : UInt16) = 0x000c := h.caps 0x000c rfl
    exact absurd hcaps (by decide)
  · obtain ⟨sel, hsel, hc⟩ := h.ucast.1
    obtain rfl : sel = 0x01ac0f00 := mem_singleton.mp hsel
    exact absurd (show (0 : Nat) = 3 from hc) (by decide)

end Net80211
