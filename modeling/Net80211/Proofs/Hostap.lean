import Net80211.Hostap
import Net80211.Lib.Run

/-!
# What the steps of an access point keep

A step is about one node, apart from a reset of the table and from the beacon: the other
nodes stay as they are, in the table or out of it (`Ap.Touch`), and the bitmap of the stations
with frames changes by one call of `ieee80211_set_tim` at most (`Tim.Stirs`). What holds of
every node then only has to be shown for that one (`Ap.Touch.inv`).
-/

namespace Net80211

open Lib List Function Option

/-! ## The bitmap of the stations with frames -/

variable {t t' : Tim} {aid : Nat} {set : Bool}

@[simp] theorem Tim.setTim_icMaxAid (t : Tim) (aid : Nat) (set : Bool) :
    (t.setTim aid set).icMaxAid = t.icMaxAid := by
  rw [Tim.setTim]
  split
  · split <;> rfl
  · rfl

theorem Tim.isset_setTim (t : Tim) (aid : Nat) (set : Bool) (a : Nat) :
    Bitmap.isset (t.setTim aid set).icTimBitmap a = if a = aid then set
    else Bitmap.isset t.icTimBitmap a := by
  rw [Tim.setTim]
  by_cases hset : set = Bitmap.isset t.icTimBitmap aid
  · rw [if_neg (by simp [hset])]
    split
    · next h => rw [h, hset]
    · rfl
  · rw [if_pos (bne_iff_ne.mpr hset)]
    cases set with
    | true => simp [Bitmap.isset_setbit, Bool.if_true_left]
    | false => simp [Bitmap.isset_clrbit, Bool.if_false_left]

theorem Tim.setTim_same (h : Bitmap.isset t.icTimBitmap aid = set) : t.setTim aid set = t := by
  rw [Tim.setTim, if_neg (by simp [h])]

theorem Tim.setTim_timUpdate (t : Tim) (aid : Nat) (set : Bool) :
    t.setTim aid set = t ∨ (t.setTim aid set).timUpdate = true := by
  rw [Tim.setTim]
  split
  · split <;> exact .inr rfl
  · exact .inl rfl

/-- The bits are those of association ids, and `ic_ps_pending` is their number. -/
structure TimInv (t : Tim) : Prop where
  maxAid : t.icMaxAid ≤ 2007
  bound : ∀ a, Bitmap.isset t.icTimBitmap a = true → 1 ≤ a ∧ a < t.icMaxAid
  pending : t.icPsPending.toNat = (Bitmap.bits t.icTimBitmap t.icMaxAid).card

theorem TimInv.setTim (h : TimInv t) (haid : set = true → 1 ≤ aid ∧ aid < t.icMaxAid) :
    TimInv (t.setTim aid set) where
  maxAid := by rw [Tim.setTim_icMaxAid]; exact h.maxAid
  bound := by
    intro a ha
    rw [Tim.isset_setTim] at ha
    rw [Tim.setTim_icMaxAid]
    split at ha
    · next heq => exact heq ▸ haid ha
    · exact h.bound a ha
  pending := by
    have hp := h.pending
    by_cases hset : Bitmap.isset t.icTimBitmap aid = set
    · rw [Tim.setTim_same hset, hp]
    · rw [Tim.setTim, if_pos (bne_iff_ne.mpr (Ne.symm hset))]
      cases set with
      | true =>
        have hcard :=
          Bitmap.card_setbit (by decide : 0 < 8) (haid rfl).2 (Bool.eq_false_iff.mpr hset)
        have hle := Bitmap.card_bits_le (Bitmap.setbit t.icTimBitmap aid) t.icMaxAid
        have hmax := h.maxAid
        simp only [if_true, BitVec.toNat_add, hcard]
        simp only [show (1 : BitVec 16).toNat = 1 from rfl]
        omega
      | false =>
        have hbit : Bitmap.isset t.icTimBitmap aid = true := Bool.eq_true_of_not_eq_false hset
        have hcard := Bitmap.card_clrbit (by decide : 0 < 8) (h.bound aid hbit).2 hbit
        have hle := Bitmap.card_bits_le t.icTimBitmap t.icMaxAid
        have hmax := h.maxAid
        simp only [Bool.false_eq_true, if_false, BitVec.toNat_sub]
        simp only [show (1 : BitVec 16).toNat = 1 from rfl]
        omega

/-- One call of `ieee80211_set_tim` or none. -/
def Tim.Stirs (t t' : Tim) : Prop :=
  t' = t ∨ ∃ aid set, t' = t.setTim aid set ∧ (set = true → 1 ≤ aid ∧ aid < t.icMaxAid)

theorem Tim.Stirs.refl (t : Tim) : Tim.Stirs t t := .inl rfl

theorem Tim.Stirs.clear (t : Tim) (aid : Nat) : Tim.Stirs t (t.setTim aid false) :=
  .inr ⟨aid, false, rfl, fun h => by cases h⟩

theorem Tim.Stirs.inv (hs : Tim.Stirs t t') (h : TimInv t) : TimInv t' := by
  rcases hs with rfl | ⟨aid, set, rfl, haid⟩
  · exact h
  · exact h.setTim haid

theorem Tim.Stirs.icMaxAid (hs : Tim.Stirs t t') : t'.icMaxAid = t.icMaxAid := by
  rcases hs with rfl | ⟨aid, set, rfl, -⟩
  · rfl
  · exact Tim.setTim_icMaxAid t aid set

theorem Tim.Stirs.timUpdate (hs : Tim.Stirs t t') : t' = t ∨ t'.timUpdate = true := by
  rcases hs with rfl | ⟨aid, set, rfl, -⟩
  · exact .inl rfl
  · exact Tim.setTim_timUpdate t aid set

/-! ## Association ids -/

theorem aidOf_zero : aidOf 0 = 0 := by decide

/-- The two bits at the top are not part of the association id. -/
theorem aidOf_or (h : aid < 2 ^ 14) : aidOf (BitVec.ofNat 16 aid ||| 0xc000) = aid := by
  have hmask : (~~~0xc000 : BitVec 16).toNat = 2 ^ 14 - 1 := by decide
  have htop : (0xc000 : BitVec 16).toNat % 2 ^ 14 = 0 := by decide
  rw [aidOf, BitVec.toNat_and, BitVec.toNat_or, BitVec.toNat_ofNat, hmask,
    Nat.mod_eq_of_lt (by omega : aid < 2 ^ 16), Nat.and_two_pow_sub_one_eq_mod,
    Nat.or_mod_two_pow, htop, Nat.or_zero, Nat.mod_eq_of_lt h]

theorem freeAid_eq_some {ν : Type} {s : Ap ν} (h : s.freeAid = some aid) :
    1 ≤ aid ∧ aid < s.icMaxAid ∧ Bitmap.isset s.icAidBitmap aid = false := by
  have hbit := find?_some h
  have hmem := mem_range'_1.mp (mem_of_find?_eq_some h)
  rw [Bool.not_eq_true'] at hbit
  exact ⟨by omega, by omega, hbit⟩

/-! ## The fields -/

section Fields

variable {ν : Type} [DecidableEq ν] (s : Ap ν) (n : ν)

/-- `ic_tim_bitmap` after `node_cleanup`. -/
def Ap.drained : Tim := if s.savedq n = [] then s.toTim else s.toTim.setTim (s.aid n) false

theorem nodeCleanup_eq : s.nodeCleanup n = { s with
        toTim := s.drained n
        icNode := update s.icNode n
          { s.icNode n with niPwrMgt := false, niSavedq := [], niAssocid := 0 } } := by
  rw [Ap.nodeCleanup, Ap.drained]
  cases hq : s.savedq n with
  | nil => simp [Ap.setNode]
  | cons c q => simp [Ap.setNode, Ap.setTim, Ap.aid, Ap.associd]

theorem freeNodeLast_eq : s.freeNodeLast n = { s with
        toTim := s.drained n
        icAidBitmap := Bitmap.clrbit s.icAidBitmap (s.aid n)
        ntNode := s.ntNode.erase n
        icNode := update s.icNode n ApNode.none } := by
  have herase :
      (if n ∈ s.ntNode then { s.aidClr n with ntNode := s.ntNode.erase n } else s.aidClr n) =
      { s.aidClr n with ntNode := s.ntNode.erase n } := by
    split
    · rfl
    · next hn => rw [erase_of_not_mem hn]; rfl
  change Ap.nodeFree (if n ∈ s.ntNode then { s.aidClr n with ntNode := s.ntNode.erase n }
    else s.aidClr n) n = _
  rw [herase, Ap.nodeFree, nodeCleanup_eq]
  simp only [Ap.setNode, update_idem]
  rfl

/-- `node_reclaim` and `ieee80211_free_node` when there are other references. -/
theorem nodeReclaim_eq (h : s.refcnt n ≠ 1) : s.nodeReclaim n = { s with
        ntNode := s.ntNode.erase n
        icNode := update s.icNode n { s.icNode n with niRefcnt := s.refcnt n - 1 } } := by
  rw [Ap.nodeReclaim, if_neg h]
  rfl

theorem nodeReclaim_last (h : s.refcnt n = 1) : s.nodeReclaim n = s.freeNodeLast n := by
  rw [Ap.nodeReclaim, if_pos h]

end Fields

/-! ## One node at a time -/

variable {ν : Type} {s s' s'' : Ap ν} {m n : ν}

/-- Only node `n` and its place in the table may have changed. -/
structure Ap.Touch (s s' : Ap ν) (n : ν) : Prop where
  node : ∀ m, m ≠ n → s'.icNode m = s.icNode m
  table : ∀ m, m ≠ n → (m ∈ s'.ntNode ↔ m ∈ s.ntNode)
  tim : s.toTim.Stirs s'.toTim
  beacon : s'.beacon = s.beacon

/-- What holds of a node at all times. A station that sleeps is associated. -/
structure Ap.NodeOk (s : Ap ν) (n : ν) : Prop where
  alive : n ∈ s.ntNode → s.refcnt n ≠ 0
  aid : s.associd n ≠ 0 → 1 ≤ s.aid n ∧ s.aid n < s.icMaxAid
  asleep : n ∈ s.ntNode → (s.icNode n).niPwrMgt = true → s.associd n ≠ 0

structure ApInv (s : Ap ν) : Prop where
  nodup : s.ntNode.Nodup
  tim : TimInv s.toTim
  node : ∀ n, s.NodeOk n

theorem Ap.Touch.icMaxAid (h : s.Touch s' n) : s'.icMaxAid = s.icMaxAid := h.tim.icMaxAid

/-- The nodes that a step is not about are as they were. -/
theorem Ap.Touch.nodeOk (h : s.Touch s' n) (hm : m ≠ n) (hok : s.NodeOk m) : s'.NodeOk m := by
  have hnode := h.node m hm
  have hmem := h.table m hm
  have hmax := h.icMaxAid
  refine ⟨fun hin => ?_, fun ha => ?_, fun hin hp => ?_⟩
  · rw [Ap.refcnt, hnode]
    exact hok.alive (hmem.mp hin)
  · rw [Ap.associd, hnode] at ha
    rw [Ap.aid, Ap.associd, hnode, hmax]
    exact hok.aid ha
  · rw [hnode] at hp
    rw [Ap.associd, hnode]
    exact hok.asleep (hmem.mp hin) hp

theorem Ap.Touch.inv (h : s.Touch s' n) (hi : ApInv s) (hnodup : s'.ntNode.Nodup)
    (hn : s'.NodeOk n) : ApInv s' where
  nodup := hnodup
  tim := h.tim.inv hi.tim
  node m := by
    by_cases hm : m = n
    · exact hm ▸ hn
    · exact h.nodeOk hm (hi.node m)

/-! ## A station that stays -/

/-- Something is done for node `n`, which stays where it is. The bit of the station is changed
to what its queue says, or neither it nor what it says is changed. -/
structure Ap.Serve (s s' : Ap ν) (n : ν) : Prop where
  node : ∀ m, m ≠ n → s'.icNode m = s.icNode m
  ntNode : s'.ntNode = s.ntNode
  aids : s'.icAidBitmap = s.icAidBitmap
  beacon : s'.beacon = s.beacon
  associd : s'.associd n = s.associd n
  alive : n ∈ s.ntNode → s'.refcnt n ≠ 0
  asleep : n ∈ s.ntNode → (s'.icNode n).niPwrMgt = true → s.associd n ≠ 0
  tim : s'.toTim = s.toTim ∧ (s'.savedq n).isEmpty = (s.savedq n).isEmpty ∨
    s'.toTim = s.toTim.setTim (s.aid n) (!(s'.savedq n).isEmpty) ∧ s.associd n ≠ 0

theorem Ap.NodeOk.serve (h : s.NodeOk n) : s.Serve s n :=
  ⟨fun _ _ => rfl, rfl, rfl, rfl, rfl, h.alive, h.asleep, .inl ⟨rfl, rfl⟩⟩

theorem Ap.Serve.touch (h : s.Serve s' n) (hok : s.NodeOk n) : s.Touch s' n where
  node := h.node
  table m _ := by rw [h.ntNode]
  tim := by
    rcases h.tim with ⟨ht, -⟩ | ⟨ht, ha⟩
    · exact .inl ht
    · exact .inr ⟨_, _, ht, fun _ => hok.aid ha⟩
  beacon := h.beacon

theorem Ap.Serve.nodeOk (h : s.Serve s' n) (hok : s.NodeOk n) : s'.NodeOk n where
  alive := h.ntNode ▸ h.alive
  aid := by
    rw [Ap.aid, h.associd, (h.touch hok).icMaxAid]
    exact hok.aid
  asleep := by
    rw [h.associd, h.ntNode]
    exact h.asleep

theorem Ap.Serve.inv (h : s.Serve s' n) (hi : ApInv s) : ApInv s' :=
  (h.touch (hi.node n)).inv hi (h.ntNode ▸ hi.nodup) (h.nodeOk (hi.node n))

/-! ## A node that goes -/

theorem Ap.drained_stirs (s : Ap ν) (n : ν) : s.toTim.Stirs (s.drained n) := by
  rw [Ap.drained]
  split
  · exact .refl _
  · exact .clear _ _

/-- The bit of an association id that is none is not set, so it need not be cleared. -/
theorem TimInv.setTim_zero (h : TimInv t) : t.setTim 0 false = t := by
  refine Tim.setTim_same (Bool.eq_false_iff.mpr fun hset => ?_)
  have h0 := (h.bound 0 hset).1
  omega

theorem Ap.drained_of_associd_zero (hi : ApInv s) (ha : s.associd n = 0) :
    s.drained n = s.toTim := by
  rw [Ap.drained, Ap.aid, ha, aidOf_zero, hi.tim.setTim_zero, ite_self]

theorem Ap.nodeOk_none (hn : s.icNode n = ApNode.none) (hmem : n ∉ s.ntNode) : s.NodeOk n where
  alive h := absurd h hmem
  aid h := absurd (show s.associd n = 0 by rw [Ap.associd, hn]; rfl) h
  asleep h := absurd h hmem

/-! ## A station that joins -/

/-- A station that was not associated gets association id `a`. -/
structure Ap.Joined (s s' : Ap ν) (n : ν) (a : Nat) : Prop where
  node : ∀ m, m ≠ n → s'.icNode m = s.icNode m
  ntNode : s'.ntNode = s.ntNode
  tim : s'.toTim = s.toTim
  beacon : s'.beacon = s.beacon
  unassociated : s.associd n = 0
  associd : s'.associd n ≠ 0
  aid : s'.aid n = a
  savedq : s'.savedq n = s.savedq n
  refcnt : s'.refcnt n = s.refcnt n
  range : 1 ≤ a ∧ a < s.icMaxAid
  fresh : Bitmap.isset s.icAidBitmap a = false
  aids : s'.icAidBitmap = Bitmap.setbit s.icAidBitmap a

theorem Ap.Joined.touch (h : s.Joined s' n aid) : s.Touch s' n where
  node := h.node
  table m _ := by rw [h.ntNode]
  tim := .inl h.tim
  beacon := h.beacon

theorem Ap.Joined.inv (h : s.Joined s' n aid) (hi : ApInv s) : ApInv s' := by
  refine h.touch.inv hi (h.ntNode ▸ hi.nodup) ⟨fun hn => ?_, fun _ => ?_, fun _ _ => h.associd⟩
  · rw [h.refcnt]
    exact (hi.node n).alive (h.ntNode ▸ hn)
  · rw [h.aid, h.touch.icMaxAid]
    exact h.range

theorem aidClr_inv (hi : ApInv s) (n : ν) : ApInv (s.aidClr n) :=
  ⟨hi.nodup, hi.tim, fun m => ⟨(hi.node m).alive, (hi.node m).aid, (hi.node m).asleep⟩⟩

theorem ApInit.inv (h : ApInit s) : ApInv s where
  nodup := by rw [h.ntNode]; exact nodup_nil
  tim := by
    refine ⟨h.maxAid, fun a ha => ?_, ?_⟩
    · rw [h.timBitmap] at ha
      cases (Bitmap.isset_zero a).symm.trans ha
    · rw [h.psPending, h.timBitmap]
      symm
      refine Finset.card_eq_zero.mpr (Finset.filter_eq_empty_iff.mpr fun a _ ha => ?_)
      cases (Bitmap.isset_zero a).symm.trans ha
  node n := by
    have hn : s.icNode n = ApNode.none := by rw [h.icNode]
    exact Ap.nodeOk_none hn (by rw [h.ntNode]; exact not_mem_nil)

variable [DecidableEq ν] {wme : Option (List Octet)} {capinfo : Octet × Octet}

/-! ## The steps for a station that stays -/

theorem setNode_serve (hok : s.NodeOk n) {refcnt : Nat} (hr : refcnt ≠ 0) :
    s.Serve (s.setNode n { s.icNode n with niRefcnt := refcnt }) n where
  node m hm := update_of_ne hm _ _
  ntNode := rfl
  aids := rfl
  beacon := rfl
  associd := by simp [Ap.associd, Ap.setNode]
  alive _ := by simpa [Ap.refcnt, Ap.setNode] using hr
  asleep := by simpa [Ap.setNode] using hok.asleep
  tim := .inl ⟨rfl, by simp [Ap.savedq, Ap.setNode]⟩

/-- The power-save bit and the queue of the station may be written, and its bit in the bitmap is
what the queue says or neither is changed. -/
inductive Ap.Put (s : Ap ν) (n : ν) : Ap ν → Prop where
  | mk (pwrMgt : Bool) (q : List (List Mbuf × Int)) (t : Tim) (snd : List (List Mbuf))
      (ht : t = s.toTim ∧ q.isEmpty = (s.savedq n).isEmpty ∨
      t = s.toTim.setTim (s.aid n) (!q.isEmpty)) :
      s.Put n
        { s with
          toTim := t
          icNode := update s.icNode n { s.icNode n with niPwrMgt := pwrMgt, niSavedq := q }
          ifSnd := snd }

theorem Ap.Put.serve (h : s.Put n s') (hok : s.NodeOk n) (ha : s.associd n ≠ 0) : s.Serve s' n := by
  obtain ⟨pwrMgt, q, t, snd, ht⟩ := h
  refine ⟨fun m hm => update_of_ne hm _ _, rfl, rfl, rfl, ?_, fun hn => ?_, fun _ _ => ha, ?_⟩
  · simp [Ap.associd]
  · simpa [Ap.refcnt] using hok.alive hn
  · rcases ht with ht | ht
    · exact .inl (by simpa [Ap.savedq] using ht)
    · exact .inr ⟨by simpa [Ap.savedq] using ht, ha⟩

theorem Ap.Put.refl (s : Ap ν) (n : ν) : s.Put n s := by
  have h : s.Put n _ := .mk (s.icNode n).niPwrMgt (s.savedq n) s.toTim s.ifSnd (.inl ⟨rfl, rfl⟩)
  simpa [Ap.savedq] using h

theorem pwrsave_put (s : Ap ν) (n : ν) (c : List Mbuf) (age : Int) :
    s.Put n (s.pwrsave n c age) := by
  rw [Ap.pwrsave]
  by_cases hfull : (s.savedq n).length ≥ psMaxQueue
  · rw [if_pos hfull]
    exact .refl s n
  · rw [if_neg hfull]
    cases hq : s.savedq n with
    | nil =>
      -- the first frame, which sets the bit
      have h : s.Put n _ := .mk (s.icNode n).niPwrMgt [(c, age)] _ s.ifSnd (.inr rfl)
      simpa [Ap.setTim, Ap.setNode, Ap.aid, Ap.associd] using h
    | cons m q =>
      have h : s.Put n _ := .mk (s.icNode n).niPwrMgt
        (m :: q ++ [(c, age - (m :: q).getLast?.elim 0 Prod.snd)]) s.toTim s.ifSnd
        (.inl ⟨rfl, by simp [hq]⟩)
      simpa [Ap.setTim, Ap.setNode] using h

theorem nodePwrsave_put (s : Ap ν) (n : ν) (enable : Bool) : s.Put n (s.nodePwrsave n enable) := by
  rw [Ap.nodePwrsave]
  cases enable with
  | true =>
    have h : s.Put n _ := .mk true (s.savedq n) s.toTim s.ifSnd (.inl ⟨rfl, rfl⟩)
    simpa [Ap.setNode, Ap.savedq] using h
  | false =>
    rw [if_neg (by decide)]
    cases hq : (s.icNode n).niSavedq with
    | nil =>
      have h : s.Put n _ := .mk false [] _ s.ifSnd (.inr rfl)
      simpa [Ap.setNode, Ap.setTim, Ap.savedq, Ap.aid, Ap.associd, hq] using h
    | cons m q =>
      have h : s.Put n _ :=
        .mk false [] _ (s.ifSnd ++ pwrsaveFlush ((m :: q).map Prod.fst)) (.inr rfl)
      simpa [Ap.setNode, Ap.setTim, Ap.savedq, Ap.aid, Ap.associd, hq] using h

theorem recvPspoll_put (s : Ap ν) (n : ν) (aid : BitVec 16) : s.Put n (s.recvPspoll n aid) := by
  rw [Ap.recvPspoll]
  split
  · exact .refl s n
  · split
    · exact .refl s n
    · cases hq : s.savedq n with
      | nil =>
        have h : s.Put n _ := .mk (s.icNode n).niPwrMgt [] _ s.ifSnd (.inr rfl)
        have hself : { s.icNode n with niSavedq := [] } = s.icNode n := by rw [← hq, Ap.savedq]
        simpa [Ap.setTim, Ap.aid, Ap.associd, hself] using h
      | cons m q =>
        cases q with
        | nil =>
          have h : s.Put n _ :=
            .mk (s.icNode n).niPwrMgt [] _ (s.ifSnd ++ (pspollTake [m.1]).1) (.inr rfl)
          simpa [Ap.setNode, Ap.setTim, Ap.aid, Ap.associd] using h
        | cons m' q =>
          have h : s.Put n _ := .mk (s.icNode n).niPwrMgt (m' :: q) s.toTim
            (s.ifSnd ++ (pspollTake ((m :: m' :: q).map Prod.fst)).1) (.inl ⟨rfl, by simp [hq]⟩)
          simpa [Ap.setNode] using h

theorem age_put (s : Ap ν) (n : ν) : s.Put n (s.age n) := by
  rw [Ap.age]
  by_cases hlen : (s.savedq n).length ≠ 0
  · rw [if_pos hlen]
    have hne : s.savedq n ≠ [] := fun h => hlen (by rw [h]; rfl)
    cases hq : ageQueue (s.savedq n) with
    | nil =>
      have h : s.Put n _ := .mk (s.icNode n).niPwrMgt [] _ s.ifSnd (.inr rfl)
      simpa [Ap.setNode, Ap.setTim, Ap.aid, Ap.associd, hne] using h
    | cons m q =>
      have h : s.Put n _ :=
        .mk (s.icNode n).niPwrMgt (m :: q) s.toTim s.ifSnd (.inl ⟨rfl, by simp [hne]⟩)
      simpa [Ap.setNode] using h
  · rw [if_neg hlen]
    exact .refl s n

theorem recvPspoll_serve (hok : s.NodeOk n) (aid : BitVec 16) : s.Serve (s.recvPspoll n aid) n := by
  by_cases ha : s.associd n = 0
  · rw [Ap.recvPspoll, if_pos ha]
    exact hok.serve
  · exact (recvPspoll_put s n aid).serve hok ha

/-! ## The steps for a node that goes -/

theorem freeNodeLast_touch (s : Ap ν) (n : ν) : s.Touch (s.freeNodeLast n) n := by
  rw [freeNodeLast_eq]
  exact ⟨fun m hm => update_of_ne hm _ _, fun m hm => mem_erase_of_ne hm, s.drained_stirs n, rfl⟩

theorem freeNodeLast_inv (hi : ApInv s) : ApInv (s.freeNodeLast n) := by
  refine (freeNodeLast_touch s n).inv hi ?_ (Ap.nodeOk_none ?_ ?_)
  · rw [freeNodeLast_eq]
    exact hi.nodup.erase n
  · rw [freeNodeLast_eq]
    exact update_self _ _ _
  · rw [freeNodeLast_eq]
    exact hi.nodup.not_mem_erase

theorem nodeReclaim_touch (s : Ap ν) (n : ν) : s.Touch (s.nodeReclaim n) n := by
  by_cases h : s.refcnt n = 1
  · rw [nodeReclaim_last s n h]
    exact freeNodeLast_touch s n
  · rw [nodeReclaim_eq s n h]
    exact ⟨fun m hm => update_of_ne hm _ _, fun m hm => mem_erase_of_ne hm, .refl _, rfl⟩

theorem nodeReclaim_ntNode (s : Ap ν) (n : ν) : (s.nodeReclaim n).ntNode = s.ntNode.erase n := by
  by_cases h : s.refcnt n = 1
  · rw [nodeReclaim_last s n h, freeNodeLast_eq]
  · rw [nodeReclaim_eq s n h]

theorem nodeReclaim_inv (hi : ApInv s) : ApInv (s.nodeReclaim n) := by
  by_cases h : s.refcnt n = 1
  · rw [nodeReclaim_last s n h]
    exact freeNodeLast_inv hi
  · have hmem : n ∉ (s.nodeReclaim n).ntNode := by
      rw [nodeReclaim_ntNode]
      exact hi.nodup.not_mem_erase
    refine (nodeReclaim_touch s n).inv hi ?_ ⟨fun hin => absurd hin hmem, ?_,
      fun hin => absurd hin hmem⟩
    · rw [nodeReclaim_ntNode]
      exact hi.nodup.erase n
    · rw [nodeReclaim_eq s n h]
      simpa [Ap.associd, Ap.aid] using (hi.node n).aid

/-- Out of the table, dropping a reference is all that reclaiming a node does. -/
theorem freeNode_eq_nodeReclaim (h : n ∉ s.ntNode) : s.freeNode n = s.nodeReclaim n := by
  rw [Ap.freeNode, Ap.nodeReclaim]
  split
  · rfl
  · simp only [Ap.setNode, erase_of_not_mem h]

/-- A station that leaves, before its node goes out of the table. Its association id is 0 when
its queue is drained. -/
def Ap.staGone (s : Ap ν) (n : ν) : Ap ν :=
  if s.associd n = 0 then s
  else
    { s with
      toTim := if s.savedq n = [] then s.toTim else s.toTim.setTim 0 false
      icAidBitmap := Bitmap.clrbit s.icAidBitmap (s.aid n)
      icNode := update s.icNode n ⟨s.refcnt n, 0, false, []⟩ }

theorem nodeLeave_eq (s : Ap ν) (n : ν) : s.nodeLeave n = (s.staGone n).nodeReclaim n := by
  have hnt : (s.staGone n).ntNode = s.ntNode := by
    rw [Ap.staGone]
    split <;> rfl
  have hgone : (if s.associd n ≠ 0 then
      ((s.aidClr n).setNode n { (s.aidClr n).icNode n with niAssocid := 0 }).nodeCleanup n else s) =
        s.staGone n := by
    rw [Ap.staGone, ite_not]
    split
    · rfl
    · rw [nodeCleanup_eq]
      simp only [Ap.setNode, Ap.aidClr, Ap.drained, Ap.savedq, Ap.aid, Ap.associd, Ap.refcnt,
        update_self, update_idem, aidOf_zero]
      rfl
  have hleave : s.nodeLeave n = if n ∈ s.ntNode then (s.staGone n).nodeReclaim n
      else (s.staGone n).freeNode n := by
    rw [← hgone]
    rfl
  rw [hleave]
  split
  · rfl
  · next hn => exact freeNode_eq_nodeReclaim (by rwa [hnt])

/-- What is left when a station has left: its bit among the stations with frames is what it was. -/
structure Ap.Left (s s' : Ap ν) (n : ν) : Prop where
  node : ∀ m, m ≠ n → s'.icNode m = s.icNode m
  ntNode : s'.ntNode = s.ntNode.erase n
  tim : s'.toTim = s.toTim
  beacon : s'.beacon = s.beacon
  associd : s'.associd n = 0
  savedq : s'.savedq n = [] ∨ s.associd n = 0 ∧ s'.savedq n = s.savedq n
  aids : Bitmap.isset s.icAidBitmap 0 = false → ∀ a,
    Bitmap.isset s'.icAidBitmap a =
    (decide (s.associd n = 0 ∨ a ≠ s.aid n) && Bitmap.isset s.icAidBitmap a)

theorem Ap.Left.touch (h : s.Left s' n) : s.Touch s' n where
  node := h.node
  table m hm := by rw [h.ntNode, mem_erase_of_ne hm]
  tim := .inl h.tim
  beacon := h.beacon

theorem Ap.Left.inv (h : s.Left s' n) (hi : ApInv s) : ApInv s' := by
  have hmem : n ∉ s'.ntNode := by
    rw [h.ntNode]
    exact hi.nodup.not_mem_erase
  refine h.touch.inv hi (h.ntNode ▸ hi.nodup.erase n)
    ⟨fun hin => absurd hin hmem, fun ha => ?_, fun hin => absurd hin hmem⟩
  exact absurd h.associd ha

theorem nodeReclaim_left (hi : ApInv s) (ha : s.associd n = 0) : s.Left (s.nodeReclaim n) n := by
  by_cases h : s.refcnt n = 1
  · rw [nodeReclaim_last s n h, freeNodeLast_eq]
    refine ⟨fun m hm => update_of_ne hm _ _, rfl, Ap.drained_of_associd_zero hi ha, rfl, ?_,
      .inl ?_, ?_⟩
    · simp [Ap.associd, ApNode.none]
    · simp [Ap.savedq, ApNode.none]
    · intro h0 a
      simp only [Ap.aid, ha, aidOf_zero, Bitmap.isset_clrbit (by decide : 0 < 32)]
      by_cases haz : a = 0
      · simp [haz, h0]
      · simp [haz]
  · rw [nodeReclaim_eq s n h]
    refine ⟨fun m hm => update_of_ne hm _ _, rfl, rfl, rfl, ?_, .inr ⟨ha, ?_⟩, ?_⟩
    · simpa [Ap.associd] using ha
    · simp [Ap.savedq]
    · intro _ a
      simp [ha]

theorem staGone_inv (hi : ApInv s) (n : ν) : ApInv (s.staGone n) := by
  rw [Ap.staGone]
  split
  · exact hi
  · have htouch : s.Touch
        { s with
          toTim := if s.savedq n = [] then s.toTim else s.toTim.setTim 0 false
          icAidBitmap := Bitmap.clrbit s.icAidBitmap (s.aid n)
          icNode := update s.icNode n ⟨s.refcnt n, 0, false, []⟩ } n := by
      refine ⟨fun m hm => update_of_ne hm _ _, fun m _ => Iff.rfl, ?_, rfl⟩
      rw [hi.tim.setTim_zero, ite_self]
      exact .refl _
    refine htouch.inv hi hi.nodup ⟨fun hn => ?_, fun ha => ?_, fun _ hp => ?_⟩
    · simpa [Ap.refcnt] using (hi.node n).alive hn
    · simp [Ap.associd] at ha
    · simp at hp

theorem staGone_associd (s : Ap ν) (n : ν) : (s.staGone n).associd n = 0 := by
  rw [Ap.staGone]
  split
  · next ha => exact ha
  · simp [Ap.associd]

theorem nodeLeave_left (hi : ApInv s) (n : ν) : s.Left (s.nodeLeave n) n := by
  rw [nodeLeave_eq]
  have hleft := nodeReclaim_left (staGone_inv hi n) (staGone_associd s n)
  by_cases ha : s.associd n = 0
  · rw [show s.staGone n = s by rw [Ap.staGone, if_pos ha]] at hleft ⊢
    exact hleft
  · rw [show s.staGone n = _ by rw [Ap.staGone, if_neg ha]] at hleft ⊢
    refine ⟨fun m hm => ?_, hleft.ntNode, ?_, hleft.beacon, hleft.associd, .inl ?_, fun h0 a => ?_⟩
    · rw [hleft.node m hm]
      exact update_of_ne hm _ _
    · rw [hleft.tim]
      rw [hi.tim.setTim_zero, ite_self]
    · rcases hleft.savedq with hq | ⟨-, hq⟩
      · exact hq
      · rw [hq]
        simp [Ap.savedq]
    · have hclr : Bitmap.isset (Bitmap.clrbit s.icAidBitmap (s.aid n)) 0 = false := by
        rw [Bitmap.isset_clrbit (by decide), h0, Bool.and_false]
      have hne : decide (s.associd n = 0 ∨ a ≠ s.aid n) = decide (a ≠ s.aid n) :=
        decide_eq_decide.mpr (or_iff_right ha)
      rw [hleft.aids hclr a, hne]
      simp [Ap.associd, Bitmap.isset_clrbit]

/-! ## The step for a station that joins -/

theorem nodeJoin_joined (hi : ApInv s) (ha : s.associd n = 0) (hfree : s.freeAid = some aid) :
    s.Joined (s.nodeJoin n) n aid := by
  obtain ⟨h1, hmax, hfresh⟩ := freeAid_eq_some hfree
  have hlt : aid < 2 ^ 14 := by
    have hle := hi.tim.maxAid
    omega
  have haid : aidOf (BitVec.ofNat 16 aid ||| 0xc000) = aid := aidOf_or hlt
  rw [Ap.nodeJoin, if_pos ha, hfree]
  refine ⟨fun m hm => update_of_ne hm _ _, rfl, rfl, rfl, ha, ?_, ?_, ?_, ?_, ⟨h1, hmax⟩, hfresh,
    ?_⟩
  · simp [Ap.associd, Ap.setNode]
  · simpa [Ap.aid, Ap.associd, Ap.setNode] using haid
  · simp [Ap.savedq, Ap.setNode]
  · simp [Ap.refcnt, Ap.setNode]
  · simpa [Ap.aid, Ap.associd, Ap.setNode] using congrArg (Bitmap.setbit s.icAidBitmap) haid

theorem nodeJoin_full (ha : s.associd n = 0) (hfree : s.freeAid = none) :
    s.nodeJoin n = s.nodeLeave n := by
  rw [Ap.nodeJoin, if_pos ha, hfree]

theorem nodeJoin_again (ha : s.associd n ≠ 0) : s.nodeJoin n = s := by
  rw [Ap.nodeJoin, if_neg ha]

theorem nodeJoin_cases (hi : ApInv s) (n : ν) :
    s.nodeJoin n = s ∨ s.nodeJoin n = s.nodeLeave n ∧ s.associd n = 0 ∨
    ∃ aid, s.Joined (s.nodeJoin n) n aid := by
  by_cases ha : s.associd n = 0
  · cases hfree : s.freeAid with
    | none => exact .inr (.inl ⟨nodeJoin_full ha hfree, ha⟩)
    | some aid => exact .inr (.inr ⟨aid, nodeJoin_joined hi ha hfree⟩)
  · exact .inl (nodeJoin_again ha)

theorem nodeJoin_touch (hi : ApInv s) (n : ν) : s.Touch (s.nodeJoin n) n := by
  rcases nodeJoin_cases hi n with h | ⟨h, -⟩ | ⟨aid, h⟩
  · rw [h]
    exact ⟨fun _ _ => rfl, fun _ _ => Iff.rfl, .refl _, rfl⟩
  · rw [h]
    exact (nodeLeave_left hi n).touch
  · exact h.touch

/-! ## The reset of the table -/

/-- A node that the table is reset with: its bit is cleared, and then it is reclaimed. -/
def Ap.resetNode (s : Ap ν) (n : ν) : Ap ν :=
  (if s.associd n ≠ 0 then s.aidClr n else s).nodeReclaim n

theorem freeAllnodes_cons (n : ν) (ns : List ν) (s : Ap ν) :
    Ap.freeAllnodes (n :: ns) s = Ap.freeAllnodes ns (s.resetNode n) := rfl

theorem resetNode_inv (hi : ApInv s) (n : ν) : ApInv (s.resetNode n) := by
  rw [Ap.resetNode]
  split
  · exact nodeReclaim_inv (aidClr_inv hi n)
  · exact nodeReclaim_inv hi

theorem resetNode_touch (s : Ap ν) (n : ν) : s.Touch (s.resetNode n) n := by
  rw [Ap.resetNode]
  split
  · have h := nodeReclaim_touch (s.aidClr n) n
    exact ⟨h.node, h.table, h.tim, h.beacon⟩
  · exact nodeReclaim_touch s n

theorem resetNode_ntNode (s : Ap ν) (n : ν) : (s.resetNode n).ntNode = s.ntNode.erase n := by
  rw [Ap.resetNode, nodeReclaim_ntNode]
  split <;> rfl

/-- What holds of a table and is kept when its first node goes holds at the end, when it is
empty. -/
theorem freeAllnodes_keeps {P : Ap ν → Prop}
    (hstep : ∀ s n, n ∈ s.ntNode → P s → P (s.resetNode n)) :
    ∀ (ns : List ν) (s : Ap ν), s.ntNode = ns → P s →
      P (Ap.freeAllnodes ns s) ∧ (Ap.freeAllnodes ns s).ntNode = [] := by
  intro ns
  induction ns with
  | nil => exact fun s hs hP => ⟨hP, hs⟩
  | cons n ns ih =>
    intro s hs hP
    rw [freeAllnodes_cons]
    refine ih _ ?_ (hstep s n (by simp [hs]) hP)
    rw [resetNode_ntNode, hs, erase_cons_head]

theorem freeAllnodes_inv (hi : ApInv s) : ApInv (Ap.freeAllnodes s.ntNode s) :=
  (freeAllnodes_keeps (P := ApInv) (fun _ n _ h => resetNode_inv h n) s.ntNode s rfl hi).1

/-! ## The beacon -/

theorem beaconUpdate_tim {b b' : ApBeacon} {mcast lenChanged : Bool}
    (h : beaconUpdate t b capinfo wme mcast = some (t', b', lenChanged)) :
    t' = { t with timUpdate := false } := by
  rw [beaconUpdate] at h
  by_cases hu : t.timUpdate = true
  · simp only [hu, if_true] at h
    obtain ⟨⟨t1, b1, l1⟩, hput, heq⟩ := map_eq_some_iff.mp h
    rw [ApBeacon.putTim] at hput
    cases hw : t.timWindow with
    | none => rw [hw] at hput; cases hput
    | some w =>
      rw [hw] at hput
      cases hput
      cases heq
      rfl
  · rw [Bool.not_eq_true] at hu
    simp only [hu, Bool.false_eq_true, if_false] at h
    cases h
    rw [← hu]

theorem allocNode_touch (s : Ap ν) (n : ν) :
    s.Touch { s.setNode n ⟨1, 0, false, []⟩ with ntNode := s.ntNode ++ [n] } n :=
  ⟨fun m hm => update_of_ne hm _ _, fun m hm => by simp [hm], .refl _, rfl⟩

/-- An update of the beacon changes nothing else but that it is due. -/
theorem beaconUpdate_keeps {mcast : Bool}
    (h : apStep s (.beaconUpdate capinfo wme mcast) = some s') :
    ∃ b, s' = { s with toTim := { s.toTim with timUpdate := false }, beacon := b } := by
  rw [apStep] at h
  cases hb : s.beacon with
  | none => rw [hb] at h; cases h
  | some b =>
    rw [hb] at h
    obtain ⟨r, hup, rfl⟩ := map_eq_some_iff.mp h
    exact ⟨some r.2.1, by rw [beaconUpdate_tim hup]⟩

/-! ## Any step -/

theorem apStep_inv {op : ApOp ν} (hi : ApInv s) (hstep : apStep s op = some s') : ApInv s' := by
  cases op with
  | allocNode n =>
    obtain ⟨hr, rfl⟩ := of_guard hstep
    have hn : n ∉ s.ntNode := fun hn => (hi.node n).alive hn hr
    refine (allocNode_touch s n).inv hi ?_ ⟨fun _ => ?_, fun ha => ?_, fun _ hp => ?_⟩
    · exact nodup_append.mpr ⟨hi.nodup, nodup_singleton n, by
        intro a ha b hb
        rw [mem_singleton.mp hb]
        exact fun h => hn (h ▸ ha)⟩
    · simp [Ap.refcnt, Ap.setNode]
    · simp [Ap.associd, Ap.setNode] at ha
    · simp [Ap.setNode] at hp
  | refNode n =>
    obtain ⟨hr, rfl⟩ := of_guard hstep
    exact (setNode_serve (hi.node n) (Nat.succ_ne_zero (s.refcnt n))).inv hi
  | freeNode n =>
    obtain ⟨hr, rfl⟩ := of_guard hstep
    rw [Ap.freeNode]
    by_cases h1 : s.refcnt n = 1
    · rw [if_pos h1]
      exact freeNodeLast_inv hi
    · rw [if_neg h1]
      exact (setNode_serve (hi.node n) (show s.refcnt n - 1 ≠ 0 by omega)).inv hi
  | nodeJoin n =>
    obtain ⟨-, rfl⟩ := of_guard hstep
    rcases nodeJoin_cases hi n with h | ⟨h, -⟩ | ⟨aid, h⟩
    · rwa [h]
    · rw [h]
      exact (nodeLeave_left hi n).inv hi
    · exact h.inv hi
  | nodeLeave n =>
    obtain ⟨-, rfl⟩ := of_guard hstep
    exact (nodeLeave_left hi n).inv hi
  | tableReset =>
    cases hstep
    exact freeAllnodes_inv hi
  | pwrsave n c age =>
    obtain ⟨⟨hn, hp⟩, rfl⟩ := of_guard hstep
    exact ((pwrsave_put s n c age).serve (hi.node n) ((hi.node n).asleep hn hp)).inv hi
  | nodePwrsave n enable =>
    obtain ⟨⟨-, ha, -⟩, rfl⟩ := of_guard hstep
    exact ((nodePwrsave_put s n enable).serve (hi.node n) ha).inv hi
  | recvPspoll n aid =>
    obtain ⟨-, rfl⟩ := of_guard hstep
    exact (recvPspoll_serve (hi.node n) aid).inv hi
  | age n =>
    obtain ⟨⟨-, ha⟩, rfl⟩ := of_guard hstep
    exact ((age_put s n).serve (hi.node n) ha).inv hi
  | beaconAlloc buf boCaps boTim trailer wme icDtimPeriod =>
    obtain ⟨-, rfl⟩ := of_guard hstep
    exact ⟨hi.nodup, hi.tim, fun m => ⟨(hi.node m).alive, (hi.node m).aid, (hi.node m).asleep⟩⟩
  | beaconUpdate capinfo wme mcast =>
    obtain ⟨b, rfl⟩ := beaconUpdate_keeps hstep
    exact ⟨hi.nodup, ⟨hi.tim.maxAid, hi.tim.bound, hi.tim.pending⟩,
      fun m => ⟨(hi.node m).alive, (hi.node m).aid, (hi.node m).asleep⟩⟩

end Net80211
