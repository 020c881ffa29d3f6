import Net80211.AidMaps
import Net80211.Proofs.Hostap

/-!
# Association ids as indices

Every association id with which a bitmap is accessed is that of a node, or one that
`ieee80211_node_join` has counted up to. So the accesses are within the bitmaps as long as the
association id of every node is (`Ap.Room`). No function but two gives a node an association
id: `ieee80211_node_join`, from those there is room for, and
`ieee80211_recv_mgmt_assoc_resp`, from the frame and with no check. All the others leave it or
make it 0 (`Ap.Thins`), for which there is room as well.

The lists go with the functions: a step changes no bit that is not in its list (`modeStep_alters`).

A run is within the bitmaps if the association ids in the association responses are. One that
is not stays with its node until the node is released, and is used then.
-/

namespace Net80211

open Lib List Function Option

section Thins

variable {ν : Type} {s s' s'' : Ap ν} {n : ν}

/-- There is room for the association id of every node. -/
structure Ap.Room (s : Ap ν) : Prop where
  pos : 0 < s.icMaxAid
  maxAid : s.icMaxAid ≤ 2007
  aid : ∀ n, s.aid n < s.icMaxAid

/-- No node has got another association id, but nodes may have lost theirs. -/
structure Ap.Thins (s s' : Ap ν) : Prop where
  icMaxAid : s'.icMaxAid = s.icMaxAid
  associd : ∀ n, s'.associd n = s.associd n ∨ s'.associd n = 0

theorem Ap.Thins.refl (s : Ap ν) : s.Thins s := ⟨rfl, fun _ => .inl rfl⟩

theorem Ap.Thins.trans (h : s.Thins s') (h' : s'.Thins s'') : s.Thins s'' where
  icMaxAid := h'.icMaxAid.trans h.icMaxAid
  associd n := by
    rcases h'.associd n with hn | hn
    · rw [hn]
      exact h.associd n
    · exact .inr hn

theorem Ap.Thins.room (h : s.Thins s') (hs : s.Room) : s'.Room where
  pos := h.icMaxAid ▸ hs.pos
  maxAid := h.icMaxAid ▸ hs.maxAid
  aid n := by
    rw [h.icMaxAid, Ap.aid]
    rcases h.associd n with hn | hn
    · rw [hn]
      exact hs.aid n
    · rw [hn, aidOf_zero]
      exact hs.pos

theorem Ap.Thins.within (h : s.Thins s') {aids : List Nat} (ha : ∀ aid ∈ aids, aid < s'.icMaxAid) :
    ∀ aid ∈ aids, aid < s.icMaxAid :=
  h.icMaxAid ▸ ha

/-- Where the association ids are as they were. -/
theorem Ap.Thins.congr (h : s.Thins s') (hmax : s''.icMaxAid = s'.icMaxAid)
    (hnode : s''.icNode = s'.icNode) : s.Thins s'' where
  icMaxAid := hmax.trans h.icMaxAid
  associd n := by
    rw [Ap.associd, hnode]
    exact h.associd n

theorem Ap.Thins.aidClr (h : s.Thins s') (n : ν) : s.Thins (s'.aidClr n) := h.congr rfl rfl

theorem Ap.Thins.withTable (h : s.Thins s') (ns : List ν) : s.Thins { s' with ntNode := ns } :=
  h.congr rfl rfl

theorem Ap.Thins.drained (h : s.Thins s') (n : ν) : s.Thins { s' with toTim := s'.drained n } :=
  h.congr (s'.drained_stirs n).icMaxAid rfl

theorem cleanupAids_lt (h : s.Room) (n : ν) : ∀ aid ∈ s.cleanupAids n, aid < s.icMaxAid := by
  intro aid haid
  rw [Ap.cleanupAids, mem_ite_nil_right, mem_singleton] at haid
  exact haid.2 ▸ h.aid n

theorem freeAids_lt (h : s.Room) (n : ν) : ∀ aid ∈ s.freeAids n, aid < s.icMaxAid := by
  intro aid haid
  have hclr := (Ap.Thins.refl s).aidClr n
  rw [Ap.freeAids, mem_ite_nil_right, mem_cons] at haid
  obtain ⟨-, rfl | haid⟩ := haid
  · exact h.aid n
  · exact hclr.within (cleanupAids_lt (hclr.room h) n) aid haid

theorem resetAids_lt (h : s.Room) (n : ν) : ∀ aid ∈ s.resetAids n, aid < s.icMaxAid := by
  intro aid haid
  have hclr := (Ap.Thins.refl s).aidClr n
  rw [Ap.resetAids] at haid
  split at haid
  · rcases mem_cons.mp haid with rfl | haid
    · exact h.aid n
    · exact hclr.within (freeAids_lt (hclr.room h) n) aid haid
  · exact freeAids_lt h n aid haid

variable [DecidableEq ν]

theorem setNode_associd (s : Ap ν) (n : ν) (ni : ApNode) (m : ν) :
    (s.setNode n ni).associd m = if m = n then ni.niAssocid else s.associd m := by
  change (update s.icNode n ni m).niAssocid = _
  rw [update_apply, apply_ite ApNode.niAssocid]
  rfl

theorem Ap.Thins.setNode (h : s.Thins s') {ni : ApNode}
    (hni : ni.niAssocid = s'.associd n ∨ ni.niAssocid = 0) : s.Thins (s'.setNode n ni) := by
  refine h.trans ⟨rfl, fun m => ?_⟩
  rw [setNode_associd]
  split
  · next hm => exact hm ▸ hni
  · exact .inl rfl

/-! ## What leaves the association ids -/

theorem Ap.Thins.nodeCleanup (h : s.Thins s') (n : ν) : s.Thins (s'.nodeCleanup n) := by
  rw [nodeCleanup_eq]
  exact ((h.drained n).setNode (.inr rfl)).congr rfl rfl

theorem Ap.Thins.freeNodeLast (h : s.Thins s') (n : ν) : s.Thins (s'.freeNodeLast n) := by
  rw [freeNodeLast_eq]
  have hnone : s.Thins ({ s' with toTim := s'.drained n }.setNode n ApNode.none) :=
    (h.drained n).setNode (.inr rfl)
  exact hnone.congr rfl rfl

theorem Ap.Thins.nodeReclaim (h : s.Thins s') (n : ν) : s.Thins (s'.nodeReclaim n) := by
  rw [Ap.nodeReclaim]
  split
  · exact h.freeNodeLast n
  · have hless : s.Thins (s'.setNode n { s'.icNode n with niRefcnt := s'.refcnt n - 1 }) :=
      h.setNode (.inl rfl)
    exact hless.withTable _

theorem Ap.Thins.freeNode (h : s.Thins s') (n : ν) : s.Thins (s'.freeNode n) := by
  rw [Ap.freeNode]
  split
  · exact h.freeNodeLast n
  · exact h.setNode (.inl rfl)

theorem Ap.Thins.resetNode (h : s.Thins s') (n : ν) : s.Thins (s'.resetNode n) := by
  rw [Ap.resetNode]
  split
  · exact (h.aidClr n).nodeReclaim n
  · exact h.nodeReclaim n

theorem nodeLeave_thins (s : Ap ν) (n : ν) : s.Thins (s.nodeLeave n) := by
  have hgone : s.Thins (if s.associd n ≠ 0 then
      ((s.aidClr n).setNode n { (s.aidClr n).icNode n with niAssocid := 0 }).nodeCleanup n
        else s) := by
    split
    · exact (((Ap.Thins.refl s).aidClr n).setNode (.inr rfl)).nodeCleanup n
    · exact .refl s
  rw [Ap.nodeLeave]
  split
  · exact hgone.nodeReclaim n
  · exact hgone.freeNode n

theorem Ap.Put.thins (h : s.Put n s') : s.Thins s' := by
  obtain ⟨pwrMgt, q, t, snd, ht⟩ := h
  have hnode : s.Thins (s.setNode n { s.icNode n with niPwrMgt := pwrMgt, niSavedq := q }) :=
    (Ap.Thins.refl s).setNode (.inl rfl)
  refine hnode.congr ?_ rfl
  rcases ht with ⟨rfl, -⟩ | rfl
  · rfl
  · exact Tim.setTim_icMaxAid _ _ _

/-! ## What takes an association id -/

theorem nodeJoin_room (h : s.Room) (n : ν) : (s.nodeJoin n).Room := by
  rw [Ap.nodeJoin]
  split
  · cases hfree : s.freeAid with
    | none => exact (nodeLeave_thins s n).room h
    | some aid =>
      obtain ⟨-, hlt, -⟩ := freeAid_eq_some hfree
      refine ⟨h.pos, h.maxAid, fun m => ?_⟩
      change aidOf ((s.setNode n _).associd m) < s.icMaxAid
      rw [setNode_associd]
      split
      · rw [aidOf_or (Nat.lt_trans hlt (Nat.lt_of_le_of_lt h.maxAid (by decide)))]
        exact hlt
      · exact h.aid m
  · exact h

theorem apStep_room {op : ApOp ν} (h : s.Room) (hstep : apStep s op = some s') : s'.Room := by
  have hs := Ap.Thins.refl s
  cases op with
  | allocNode n =>
    obtain ⟨-, rfl⟩ := of_guard hstep
    have hnew : s.Thins (s.setNode n ⟨1, 0, false, []⟩) := hs.setNode (.inr rfl)
    exact (hnew.withTable _).room h
  | refNode n =>
    obtain ⟨-, rfl⟩ := of_guard hstep
    have href : s.Thins (s.setNode n { s.icNode n with niRefcnt := s.refcnt n + 1 }) :=
      hs.setNode (.inl rfl)
    exact href.room h
  | freeNode n =>
    obtain ⟨-, rfl⟩ := of_guard hstep
    exact (hs.freeNode n).room h
  | nodeJoin n =>
    obtain ⟨-, rfl⟩ := of_guard hstep
    exact nodeJoin_room h n
  | nodeLeave n =>
    obtain ⟨-, rfl⟩ := of_guard hstep
    exact (nodeLeave_thins s n).room h
  | tableReset =>
    cases hstep
    exact (freeAllnodes_keeps (P := Ap.Room)
      (fun s n _ hs => ((Ap.Thins.refl s).resetNode n).room hs) s.ntNode s rfl h).1
  | pwrsave n c age =>
    obtain ⟨-, rfl⟩ := of_guard hstep
    exact (pwrsave_put s n c age).thins.room h
  | nodePwrsave n enable =>
    obtain ⟨-, rfl⟩ := of_guard hstep
    exact (nodePwrsave_put s n enable).thins.room h
  | recvPspoll n aid =>
    obtain ⟨-, rfl⟩ := of_guard hstep
    exact (recvPspoll_put s n aid).thins.room h
  | age n =>
    obtain ⟨-, rfl⟩ := of_guard hstep
    exact (age_put s n).thins.room h
  | beaconAlloc buf boCaps boTim trailer wme icDtimPeriod =>
    obtain ⟨-, rfl⟩ := of_guard hstep
    refine Ap.Thins.room ?_ h
    exact hs.congr rfl rfl
  | beaconUpdate capinfo wme mcast =>
    obtain ⟨b, rfl⟩ := beaconUpdate_keeps hstep
    refine Ap.Thins.room ?_ h
    exact hs.congr rfl rfl

/-! ## The accesses -/

theorem leaveAids_lt (h : s.Room) (n : ν) : ∀ aid ∈ s.leaveAids n, aid < s.icMaxAid := by
  intro aid haid
  have hgone : s.Thins ((s.aidClr n).setNode n { s.icNode n with niAssocid := 0 }) :=
    ((Ap.Thins.refl s).aidClr n).setNode (.inr rfl)
  have hclean := hgone.nodeCleanup n
  rw [Ap.leaveAids] at haid
  split at haid
  · rcases mem_append.mp haid with haid | haid
    · rcases mem_cons.mp haid with rfl | haid
      · exact h.aid n
      · exact hgone.within (cleanupAids_lt (hgone.room h) n) aid haid
    · exact hclean.within (freeAids_lt (hclean.room h) n) aid haid
  · exact freeAids_lt h n aid haid

theorem joinAids_lt (h : s.Room) (n : ν) : ∀ aid ∈ s.joinAids n, aid < s.icMaxAid := by
  intro aid haid
  rw [Ap.joinAids, mem_ite_nil_right] at haid
  obtain ⟨-, haid⟩ := haid
  cases hfree : s.freeAid with
  | none =>
    rw [hfree] at haid
    rcases mem_append.mp haid with haid | haid
    · have hcount := mem_range'_1.mp haid
      omega
    · exact leaveAids_lt h n aid haid
  | some free =>
    obtain ⟨-, hlt, -⟩ := freeAid_eq_some hfree
    rw [hfree] at haid
    rcases mem_append.mp haid with haid | haid
    · have hcount := mem_range'_1.mp haid
      omega
    · rw [mem_singleton,
        aidOf_or (Nat.lt_trans hlt (Nat.lt_of_le_of_lt h.maxAid (by decide)))] at haid
      exact haid ▸ hlt

end Thins

/-! ## The bits that change -/

section Alters

variable {ν : Type} {s s' s'' t : Ap ν} {n : ν} {aids aids' : List Nat}

/-- No bit of the bitmaps is another but those of `aids`. -/
def Ap.Alters (s s' : Ap ν) (aids : List Nat) : Prop :=
  ∀ aid, aid ∉ aids → Bitmap.isset s'.icAidBitmap aid = Bitmap.isset s.icAidBitmap aid ∧
    Bitmap.isset s'.icTimBitmap aid = Bitmap.isset s.icTimBitmap aid

theorem Ap.Alters.same (h : s'.icAidBitmap = s.icAidBitmap ∧ s'.icTimBitmap = s.icTimBitmap) :
    s.Alters s' aids :=
  fun _ _ => ⟨by rw [h.1], by rw [h.2]⟩

theorem Ap.Alters.append (h : s.Alters s' aids) (h' : s'.Alters s'' aids') :
    s.Alters s'' (aids ++ aids') := by
  intro aid haid
  rw [mem_append, not_or] at haid
  exact ⟨(h' aid haid.2).1.trans (h aid haid.1).1, (h' aid haid.2).2.trans (h aid haid.1).2⟩

theorem aidClr_alters (s : Ap ν) (n : ν) : s.Alters (s.aidClr n) [s.aid n] := by
  intro aid hno
  refine ⟨?_, rfl⟩
  rw [Ap.aidClr, Bitmap.isset_clrbit (by decide), decide_eq_true (mt mem_singleton.mpr hno),
    Bool.true_and]

/-- The bit of a node is changed after other fields of the node, which do not say which bit. -/
theorem setTim_alters (set : Bool) (h : t.icAidBitmap = s.icAidBitmap ∧ t.toTim = s.toTim)
    (haid : t.aid n = s.aid n) : s.Alters (t.setTim n set) [s.aid n] := by
  intro aid hno
  refine ⟨by rw [← h.1]; rfl, ?_⟩
  rw [Ap.setTim, h.2, haid, Tim.setTim]
  split
  · split
    · rw [Bitmap.isset_setbit (by decide), decide_eq_false (mt mem_singleton.mpr hno),
        Bool.false_or]
    · rw [Bitmap.isset_clrbit (by decide), decide_eq_true (mt mem_singleton.mpr hno), Bool.true_and]
  · rfl

theorem drained_alters (s : Ap ν) (n : ν) :
    s.Alters { s with toTim := s.drained n } (s.cleanupAids n) := by
  rw [Ap.cleanupAids, Ap.drained]
  cases s.savedq n with
  | nil => exact .same ⟨rfl, rfl⟩
  | cons c q => exact setTim_alters false ⟨rfl, rfl⟩ rfl

variable [DecidableEq ν]

theorem setNode_alters (set : Bool) (ni : ApNode) (ifSnd : List (List Mbuf))
    (h : ni.niAssocid = s.associd n) :
    s.Alters (Ap.setTim { s.setNode n ni with ifSnd := ifSnd } n set) [s.aid n] := by
  refine setTim_alters set ?_ ?_
  · exact ⟨rfl, rfl⟩
  · simp [Ap.aid, Ap.associd, Ap.setNode, h]

theorem pwrsave_alters (s : Ap ν) (n : ν) (c : List Mbuf) (age : Int) :
    s.Alters (s.pwrsave n c age) (s.pwrsaveAids n) := by
  simp only [Ap.pwrsave, Ap.pwrsaveAids, length_append, length_singleton]
  split_ifs
  · exact .same ⟨rfl, rfl⟩
  · exact setNode_alters true _ _ rfl
  · exact .same ⟨rfl, rfl⟩

theorem nodePwrsave_alters (s : Ap ν) (n : ν) (enable : Bool) :
    s.Alters (s.nodePwrsave n enable) (s.nodePwrsaveAids n enable) := by
  rw [Ap.nodePwrsave, Ap.nodePwrsaveAids]
  split
  · exact .same ⟨rfl, rfl⟩
  dsimp only
  split
  · exact setNode_alters false _ _ rfl
  · refine setTim_alters false ?_ ?_
    · exact ⟨rfl, rfl⟩
    · simp [Ap.aid, Ap.associd, Ap.setNode]

theorem recvPspoll_alters (s : Ap ν) (n : ν) (aid : BitVec 16) :
    s.Alters (s.recvPspoll n aid) (s.recvPspollAids n aid) := by
  rw [Ap.recvPspoll, Ap.recvPspollAids]
  split
  · exact .same ⟨rfl, rfl⟩
  split
  · exact .same ⟨rfl, rfl⟩
  rcases s.savedq n with _ | ⟨c, _ | ⟨c', q⟩⟩
  · exact setTim_alters false ⟨rfl, rfl⟩ rfl
  · exact setNode_alters false _ _ rfl
  · exact .same ⟨rfl, rfl⟩

theorem age_alters (s : Ap ν) (n : ν) : s.Alters (s.age n) (s.ageAids n) := by
  simp only [Ap.age, Ap.ageAids]
  by_cases hq : (s.savedq n).length ≠ 0
  · rw [if_pos hq]
    split
    · next h =>
      rw [if_pos ⟨hq, h.2⟩]
      exact setNode_alters false _ _ rfl
    · exact .same ⟨rfl, rfl⟩
  · rw [if_neg hq]
    exact .same ⟨rfl, rfl⟩

theorem freeNode_alters (s : Ap ν) (n : ν) : s.Alters (s.freeNode n) (s.freeAids n) ∧
    s.Alters (s.nodeReclaim n) (s.freeAids n) := by
  rw [Ap.freeNode, Ap.nodeReclaim, Ap.freeAids]
  split
  · rw [freeNodeLast_eq]
    have hlast := (aidClr_alters s n).append (drained_alters (s.aidClr n) n)
    exact ⟨hlast, hlast⟩
  · exact ⟨.same ⟨rfl, rfl⟩, .same ⟨rfl, rfl⟩⟩

theorem nodeLeave_alters (s : Ap ν) (n : ν) : s.Alters (s.nodeLeave n) (s.leaveAids n) := by
  rw [Ap.nodeLeave, Ap.leaveAids]
  by_cases hassoc : s.associd n ≠ 0
  · rw [if_pos hassoc, if_pos hassoc]
    have hgone :
        s.Alters (((s.aidClr n).setNode n { s.icNode n with niAssocid := 0 }).nodeCleanup n)
        (s.aid n :: ((s.aidClr n).setNode n { s.icNode n with niAssocid := 0 }).cleanupAids n) := by
      rw [nodeCleanup_eq]
      exact (aidClr_alters s n).append (drained_alters ((s.aidClr n).setNode n _) n)
    split
    · exact hgone.append (freeNode_alters _ n).2
    · exact hgone.append (freeNode_alters _ n).1
  · rw [if_neg hassoc, if_neg hassoc]
    split
    · exact (freeNode_alters s n).2
    · exact (freeNode_alters s n).1

theorem nodeJoin_alters (s : Ap ν) (n : ν) : s.Alters (s.nodeJoin n) (s.joinAids n) := by
  rw [Ap.nodeJoin, Ap.joinAids]
  split
  · cases s.freeAid with
    | none => exact (Ap.Alters.same ⟨rfl, rfl⟩).append (nodeLeave_alters s n)
    | some aid =>
      intro a hno
      have hne : a ≠ aidOf (BitVec.ofNat 16 aid ||| 0xc000) := fun h => hno (by simp [h])
      refine ⟨?_, rfl⟩
      dsimp only
      rw [Ap.aid, setNode_associd, if_pos rfl, Bitmap.isset_setbit (by decide),
        decide_eq_false hne, Bool.false_or]
      rfl
  · exact .same ⟨rfl, rfl⟩

end Alters

/-! ## Runs -/

variable {ν : Type} {s s' : ModeAp ν}

/-- The association id that an association response leaves the node with is one there is room
for. -/
def RespInRoom (s : ModeAp ν) : ModeOp ν → Prop
  | .assocResp n ic frame => aidOf (respAssocid (s.associd n) ic frame) < s.icMaxAid
  | _ => True

instance decidableRespInRoom (s : ModeAp ν) (op : ModeOp ν) : Decidable (RespInRoom s op) := by
  cases op <;> unfold RespInRoom <;> infer_instance

theorem ModeInit.room_all (h : ModeInit s) : s.Room where
  pos := h.room
  maxAid := h.maxAid
  aid n := by
    have hzero : s.associd n = 0 := by rw [Ap.associd, h.icNode]; rfl
    rw [Ap.aid, hzero, aidOf_zero]
    exact h.room

variable [DecidableEq ν]

theorem modeStep_room {op : ModeOp ν} (h : s.Room) (hok : RespInRoom s op)
    (hstep : modeStep s op = some s') : s'.Room := by
  cases op with
  | ap op =>
    obtain ⟨-, hstep⟩ := ite_none_right_eq_some.mp hstep
    obtain ⟨ap, hap, rfl⟩ := map_eq_some_iff.mp hstep
    exact apStep_room h hap
  | resetNode n =>
    obtain ⟨-, rfl⟩ := of_guard hstep
    exact ((Ap.Thins.refl s.toAp).resetNode n).room h
  | nodeReclaim n =>
    obtain ⟨-, rfl⟩ := of_guard hstep
    exact ((Ap.Thins.refl s.toAp).nodeReclaim n).room h
  | assocResp n ic frame =>
    obtain ⟨-, rfl⟩ := of_guard hstep
    refine ⟨h.pos, h.maxAid, fun m => ?_⟩
    rw [Ap.aid, setNode_associd]
    split
    · exact hok
    · exact h.aid m
  | setOpmode opmode =>
    cases hstep
    exact h

theorem reach_room (h : Reach ModeInit modeStep RespInRoom s) : s.Room := by
  induction h with
  | init h0 => exact h0.room_all
  | step _ hok hstep ih => exact modeStep_room ih hok hstep

theorem modeAids_lt (h : s.Room) (op : ModeOp ν) : ∀ aid ∈ modeAids s op, aid < s.icMaxAid := by
  -- the functions that clear or set no bit but that of the node
  have hone : ∀ (n : ν) (aids : List Nat), (∀ aid ∈ aids, aid = s.aid n) →
      ∀ aid ∈ aids, aid < s.icMaxAid :=
    fun n _ haids aid haid => haids aid haid ▸ h.aid n
  cases op with
  | ap op =>
    cases op with
    | freeNode n => exact freeAids_lt h n
    | nodeJoin n => exact joinAids_lt h n
    | nodeLeave n => exact leaveAids_lt h n
    | pwrsave n c age => exact hone n _ (by simp [modeAids, Ap.pwrsaveAids])
    | nodePwrsave n enable => exact hone n _ (by simp [modeAids, Ap.nodePwrsaveAids])
    | recvPspoll n aid => exact hone n _ (by simp [modeAids, Ap.recvPspollAids])
    | age n => exact hone n _ (by simp [modeAids, Ap.ageAids])
    | allocNode n | refNode n | tableReset | beaconAlloc buf boCaps boTim trailer wme icDtimPeriod
    | beaconUpdate capinfo wme mcast => exact forall_mem_nil _
  | resetNode n => exact resetAids_lt h n
  | nodeReclaim n => exact freeAids_lt h n
  | assocResp n ic frame | setOpmode opmode => exact forall_mem_nil _

/-- A step changes no bit that is not in its list. -/
theorem modeStep_alters {op : ModeOp ν} (hstep : modeStep s op = some s') :
    s.toAp.Alters s'.toAp (modeAids s op) := by
  cases op with
  | ap op =>
    obtain ⟨hmode, hstep⟩ := ite_none_right_eq_some.mp hstep
    obtain ⟨ap, hap, rfl⟩ := map_eq_some_iff.mp hstep
    cases op with
    | tableReset => cases hmode
    | beaconUpdate capinfo wme mcast =>
      obtain ⟨b, rfl⟩ := beaconUpdate_keeps hap
      exact .same ⟨rfl, rfl⟩
    | allocNode n | refNode n | beaconAlloc buf boCaps boTim trailer wme icDtimPeriod =>
      obtain ⟨-, rfl⟩ := of_guard hap
      exact .same ⟨rfl, rfl⟩
    | freeNode n =>
      obtain ⟨-, rfl⟩ := of_guard hap
      exact (freeNode_alters _ n).1
    | nodeJoin n =>
      obtain ⟨-, rfl⟩ := of_guard hap
      exact nodeJoin_alters _ n
    | nodeLeave n =>
      obtain ⟨-, rfl⟩ := of_guard hap
      exact nodeLeave_alters _ n
    | pwrsave n c age =>
      obtain ⟨-, rfl⟩ := of_guard hap
      exact pwrsave_alters _ n c age
    | nodePwrsave n enable =>
      obtain ⟨-, rfl⟩ := of_guard hap
      exact nodePwrsave_alters _ n enable
    | recvPspoll n aid =>
      obtain ⟨-, rfl⟩ := of_guard hap
      exact recvPspoll_alters _ n aid
    | age n =>
      obtain ⟨-, rfl⟩ := of_guard hap
      exact age_alters _ n
  | resetNode n =>
    obtain ⟨-, rfl⟩ := of_guard hstep
    rw [modeAids, Ap.resetAids]
    split
    · exact (aidClr_alters _ n).append (freeNode_alters _ n).2
    · exact (freeNode_alters _ n).2
  | nodeReclaim n =>
    obtain ⟨-, rfl⟩ := of_guard hstep
    exact (freeNode_alters _ n).2
  | assocResp n ic frame =>
    obtain ⟨-, rfl⟩ := of_guard hstep
    exact .same ⟨rfl, rfl⟩
  | setOpmode opmode =>
    cases hstep
    exact .same ⟨rfl, rfl⟩

/-- A node with an association id there is no room for is released some time, and then it is
used. -/
theorem exists_beyond (n : ν) : ∀ (k : Nat) (s : ModeAp ν), s.refcnt n = k + 1 →
    s.icMaxAid ≤ s.aid n → ∃ (ops : List (ModeOp ν)) (s' : ModeAp ν),
    runSteps modeStep s ops = some s' ∧
      (modeStep s' (.ap (.freeNode n))).isSome = true ∧ s'.aid n ∈ modeAids s' (.ap (.freeNode n)) ∧
      s'.icMaxAid ≤ s'.aid n := by
  have hstep : ∀ s : ModeAp ν, s.refcnt n ≠ 0 →
      modeStep s (.ap (.freeNode n)) = some { s with toAp := s.toAp.freeNode n } := by
    intro s hr
    change (if true = true then (apStep s.toAp (.freeNode n)).map _ else none) = _
    rw [if_pos rfl, apStep, if_pos hr]
    rfl
  intro k
  induction k with
  | zero =>
    intro s hr haid
    refine ⟨[], s, rfl, ?_, ?_, haid⟩
    · rw [hstep s (by omega)]
      rfl
    · change s.aid n ∈ s.toAp.freeAids n
      rw [Ap.freeAids, if_pos hr]
      exact mem_cons_self
  | succ k ih =>
    intro s hr haid
    -- one of the other references is given up
    have hnode : s.toAp.freeNode n = s.toAp.setNode n { s.icNode n with niRefcnt := k + 1 } := by
      rw [Ap.freeNode, if_neg (by omega), hr]
      rfl
    have hfree : modeStep s (.ap (.freeNode n)) =
        some { s with toAp := s.toAp.setNode n { s.icNode n with niRefcnt := k + 1 } } := by
      rw [hstep s (by omega), hnode]
    obtain ⟨ops, s', hrun, h⟩ :=
      ih { s with toAp := s.toAp.setNode n { s.icNode n with niRefcnt := k + 1 } }
      (by simp [Ap.refcnt, Ap.setNode])
      (by rw [Ap.aid, setNode_associd, if_pos rfl]; exact haid)
    refine ⟨.ap (.freeNode n) :: ops, s', ?_, h⟩
    rw [runSteps, hfree]
    exact hrun

/-- Every access is within the bitmaps in a run whose association responses have association ids
there is room for. With any other there is a run to an access beyond their end. -/
theorem aid_accesses_within (h : Reach ModeInit modeStep RespInRoom s) (op : ModeOp ν) :
    (∀ aid ∈ modeAids s op, aid < s.icMaxAid) ∧ ∀ s', modeStep s op = some s' → ¬ RespInRoom s op →
      ∃ (ops : List (ModeOp ν)) (s'' : ModeAp ν) (op' : ModeOp ν),
      runSteps modeStep s' ops = some s'' ∧
        (modeStep s'' op').isSome = true ∧ ∃ aid ∈ modeAids s'' op', s''.icMaxAid ≤ aid := by
  refine ⟨modeAids_lt (reach_room h) op, fun s' hstep hbad => ?_⟩
  cases op with
  | assocResp n ic frame =>
    obtain ⟨⟨hr, -, -⟩, rfl⟩ := of_guard hstep
    obtain ⟨k, hk⟩ := Nat.exists_eq_succ_of_ne_zero hr
    have hbeyond := exists_beyond n k
      { s with toAp :=
        s.toAp.setNode n { s.icNode n with niAssocid := respAssocid (s.associd n) ic frame } }
      (by simpa [Ap.refcnt, Ap.setNode] using hk)
      (by rw [Ap.aid, setNode_associd, if_pos rfl]; exact Nat.le_of_not_lt hbad)
    obtain ⟨ops, s'', hrun, hsome, hmem, hle⟩ := hbeyond
    exact ⟨ops, s'', _, hrun, hsome, _, hmem, hle⟩
  | ap op | resetNode n | nodeReclaim n | setOpmode opmode => exact absurd trivial hbad

/-! ## A station -/

/-- An access point as a scan finds it, with the rates of 802.11b. -/
def assocBss : MgmtNode where
  niMacaddr := [2, 0, 0, 0, 0, 1]
  niBssid := [2, 0, 0, 0, 0, 1]
  niAssocid := 0
  niQos := false
  niTstamp := [0, 0, 0, 0, 0, 0, 0, 0]
  niIntval := 100
  niCapinfo := 1
  niEsslen := 0
  niEssid := .replicate nwidLen 0
  niRates := ⟨4, #v[2, 4, 11, 22, 0, 0, 0, 0, 0, 0, 0, 0, 0, 0, 0]⟩
  niTxrate := 0
  niChan := 1
  niFhdwell := 0
  niFhindex := 0
  niErp := 0
  niTimoff := 0
  niDtimCount := 0
  niDtimPeriod := 1
  niWpaIe := none
  niWmeIe := none
  niRsn := ⟨0, 0, 0, 0, 0, 0, 0, 0⟩

/-- A station that has sent it an association request. -/
def assocIc : MgmtIc where
  icOpmode := .sta
  icState := .assoc
  icFlags := ⟨false, false, false, false, false⟩
  icFh := false
  icCurchan := 1
  icChanActive := fun _ => true
  icSupRates := fun _ => [2, 4, 11, 22]
  icFixedRate := none
  icBss := assocBss
  icWme := ⟨0, []⟩
  msgScan := false
  ni := assocBss
  niIsBss := true
  niTable := true
  niChain := []
  scanNode := none
  newNode := none
  malloc := true
  shl32 := 1

/-- An association response with a status of 0, the association id of two octets and the rates of
802.11b. -/
def assocRespFrame (lo hi : UInt8) : List UInt8 :=
  [0x10, 0] ++ replicate 22 0 ++ [1, 0, 0, 0, lo, hi, 1, 4, 2, 4, 11, 22]

def stationStart : ModeAp Nat where
  icMaxAid := 128
  icTimBitmap := fun _ => 0
  icPsPending := 0
  timUpdate := false
  icAidBitmap := fun _ => 0
  ntNode := []
  icNode := fun _ => ApNode.none
  ifSnd := []
  beacon := none
  icOpmode := .sta

theorem stationStart_init : ModeInit stationStart :=
  ⟨⟨by decide, rfl, rfl, rfl, rfl, rfl, rfl, rfl⟩, by decide⟩

/-- A station with association id 1 begins a scan. -/
theorem aid_accesses_within_sample : ∃ s : ModeAp Nat, modeAids s (.resetNode 0) = [1] ∧
    ∀ aid ∈ modeAids s (.resetNode 0), aid < s.icMaxAid := by
  have hrun : ∃ s : ModeAp Nat, Reach ModeInit modeStep RespInRoom s ∧
      modeAids s (.resetNode 0) = [1] :=
    Reach.of_run [.ap (.allocNode 0), .ap (.refNode 0),
      .assocResp 0 assocIc (assocRespFrame 1 0xc0)] stationStart_init
      (by decide +kernel) (by decide +kernel)
  obtain ⟨s, hs, h⟩ := hrun
  exact ⟨s, h, (aid_accesses_within hs _).1⟩

/-- With an association response whose association id is 0xffff, the scan clears bit 16383 of
128. -/
theorem aid_access_beyond : ∃ s : ModeAp Nat, Reach ModeInit modeStep Any s ∧
    (modeStep s (.resetNode 0)).isSome = true ∧ modeAids s (.resetNode 0) = [16383] ∧
    s.icMaxAid = 128 :=
  Reach.of_run [.ap (.allocNode 0), .ap (.refNode 0),
    .assocResp 0 assocIc (assocRespFrame 0xff 0xff)]
    stationStart_init (runOk_any _ _) (by decide +kernel)

end Net80211
