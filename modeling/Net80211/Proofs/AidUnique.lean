import Net80211.Proofs.Hostap

/-!
# Association ids

The association ids in use are those of the associated stations, and `ic_aid_bitmap` has
their bits, as long as no bit is cleared for a node that is not in the table any more. A
reset of the table leaves nodes with other references their association id, and the bit is
cleared again when the last of these references goes, whoever has the association id then.
-/

namespace Net80211

open Lib List Function Option

variable {ν : Type} {s s' : Ap ν} {m n : ν}

/-- No two associated stations have the same association id, and the bits that are set are
those of the association ids in use. -/
structure AidUnique (s : Ap ν) : Prop where
  unique : ∀ m ∈ s.ntNode, ∀ n ∈ s.ntNode, s.associd m ≠ 0 → s.associd n ≠ 0 →
    s.aid m = s.aid n → m = n
  isset_iff : ∀ a, Bitmap.isset s.icAidBitmap a = true ↔
    ∃ n ∈ s.ntNode, s.associd n ≠ 0 ∧ s.aid n = a

/-- No associated station has the association id of a node that is out of the table. -/
def Ap.Unclaimed (s : Ap ν) (n : ν) : Prop :=
  n ∉ s.ntNode → s.associd n ≠ 0 → ∀ m ∈ s.ntNode, s.associd m ≠ 0 → s.aid m ≠ s.aid n

/-- A step does not clear the bit of another station. -/
def AidKept (s : Ap ν) : ApOp ν → Prop
  | .freeNode n => s.refcnt n = 1 → s.Unclaimed n
  | .nodeLeave n => s.Unclaimed n
  | _ => True

theorem AidUnique.isset_zero (h : AidUnique s) (hi : ApInv s) :
    Bitmap.isset s.icAidBitmap 0 = false := by
  refine Bool.eq_false_iff.mpr fun hset => ?_
  obtain ⟨n, -, ha, hn⟩ := (h.isset_iff 0).mp hset
  have h1 := ((hi.node n).aid ha).1
  omega

variable [DecidableEq ν] {a : Nat}

/-- The association id of an associated station. -/
def Ap.assoc (s : Ap ν) (n : ν) : Option Nat :=
  if n ∈ s.ntNode ∧ s.associd n ≠ 0 then some (s.aid n) else none

theorem assoc_eq_some : s.assoc n = some a ↔ n ∈ s.ntNode ∧ s.associd n ≠ 0 ∧ s.aid n = a := by
  rw [Ap.assoc, ite_none_right_eq_some, Option.some.injEq, and_assoc]

theorem assoc_eq_none : s.assoc n = none ↔ n ∉ s.ntNode ∨ s.associd n = 0 := by
  rw [Ap.assoc, ite_eq_right_iff]
  constructor
  · intro h
    by_cases hn : n ∈ s.ntNode
    · by_cases ha : s.associd n = 0
      · exact .inr ha
      · cases h ⟨hn, ha⟩
    · exact .inl hn
  · rintro (h | h) ⟨hn, ha⟩
    · exact absurd hn h
    · exact absurd h ha

theorem assoc_ne_none : s.assoc n ≠ none ↔ n ∈ s.ntNode ∧ s.associd n ≠ 0 := by
  rw [ne_eq, assoc_eq_none, not_or, not_not]

theorem aidUnique_iff : AidUnique s ↔ Bitmap.Names s.assoc s.icAidBitmap := by
  have hex : ∀ a, (∃ n, s.assoc n = some a) ↔ ∃ n ∈ s.ntNode, s.associd n ≠ 0 ∧ s.aid n = a := by
    intro a
    exact exists_congr fun n => assoc_eq_some
  constructor
  · intro h
    refine ⟨fun {m n a} hm hn => ?_, fun a => (h.isset_iff a).trans (hex a).symm⟩
    obtain ⟨hm, ham, hma⟩ := assoc_eq_some.mp hm
    obtain ⟨hn, han, hna⟩ := assoc_eq_some.mp hn
    exact h.unique m hm n hn ham han (hma.trans hna.symm)
  · intro h
    refine ⟨fun m hm n hn ham han haid => ?_, fun a => (h.isset_iff a).trans (hex a)⟩
    exact h.inj (assoc_eq_some.mpr ⟨hm, ham, haid⟩) (assoc_eq_some.mpr ⟨hn, han, rfl⟩)

theorem Ap.Touch.assoc (h : s.Touch s' n) (hm : m ≠ n) : s'.assoc m = s.assoc m := by
  have ha : s'.associd m = s.associd m := by rw [Ap.associd, Ap.associd, h.node m hm]
  rw [Ap.assoc, Ap.assoc, Ap.aid, Ap.aid, ha]
  exact if_congr (and_congr_left fun _ => h.table m hm) rfl rfl

theorem Ap.Touch.assoc_eq (h : s.Touch s' n) : s'.assoc = update s.assoc n (s'.assoc n) := by
  funext m
  by_cases hm : m = n
  · rw [hm, update_self]
  · rw [update_of_ne hm, h.assoc hm]

theorem Ap.Serve.assoc_node (h : s.Serve s' n) : s'.assoc n = s.assoc n := by
  simp only [Ap.assoc, Ap.aid, h.associd, h.ntNode]

theorem Ap.Serve.assoc (h : s.Serve s' n) (hi : ApInv s) : s'.assoc = s.assoc := by
  rw [(h.touch (hi.node n)).assoc_eq, h.assoc_node, update_eq_self]

theorem Ap.Serve.aidUnique (h : s.Serve s' n) (hi : ApInv s) (hu : AidUnique s) : AidUnique s' := by
  rw [aidUnique_iff] at hu ⊢
  rwa [h.assoc hi, h.aids]

theorem allocNode_fresh (hi : ApInv s) (h : apStep s (.allocNode n) = some s') :
    s.Touch s' n ∧ s.assoc n = none ∧ s'.associd n = 0 := by
  obtain ⟨hr, rfl⟩ := of_guard h
  refine ⟨allocNode_touch s n, ?_, ?_⟩
  · exact assoc_eq_none.mpr (.inl fun hn => (hi.node n).alive hn hr)
  · simp [Ap.associd, Ap.setNode]

theorem Ap.Joined.aidUnique (h : s.Joined s' n a) (hn : n ∈ s.ntNode) (hu : AidUnique s) :
    AidUnique s' := by
  have hnone : s.assoc n = none := assoc_eq_none.mpr (.inr h.unassociated)
  have hsome : s'.assoc n = some a := assoc_eq_some.mpr ⟨h.ntNode ▸ hn, h.associd, h.aid⟩
  rw [aidUnique_iff] at hu ⊢
  rw [h.touch.assoc_eq, hsome, h.aids]
  exact hu.give (by decide) hnone h.fresh

/-! ## Nodes that go -/

/-- Node `n` is not associated any more, and the bit of its association id is clear. -/
structure Ap.Gone (s s' : Ap ν) (n : ν) : Prop where
  touch : s.Touch s' n
  assoc : s'.assoc n = none
  aids : ∀ a, Bitmap.isset s'.icAidBitmap a =
    (decide (s.associd n = 0 ∨ a ≠ s.aid n) && Bitmap.isset s.icAidBitmap a)

/-- The bit that was cleared was that of the node. -/
theorem Ap.Gone.aidUnique_iff (h : s.Gone s' n) (hu : AidUnique s) :
    AidUnique s' ↔ s.Unclaimed n := by
  rw [Net80211.aidUnique_iff] at hu ⊢
  rw [h.touch.assoc_eq, h.assoc]
  by_cases ha : s.associd n = 0
  · -- nothing was cleared
    have hnone : s.assoc n = none := assoc_eq_none.mpr (.inr ha)
    refine iff_of_true ?_ fun _ hne => absurd ha hne
    rw [← hnone, update_eq_self]
    exact hu.congr fun a => by rw [h.aids, decide_eq_true (.inl ha), Bool.true_and]
  · have hbits : ∀ a, Bitmap.isset s'.icAidBitmap a =
        Bitmap.isset (Bitmap.clrbit s.icAidBitmap (s.aid n)) a := by
      intro a
      rw [h.aids, Bitmap.isset_clrbit (by decide)]
      exact congrArg (· && _) (decide_eq_decide.mpr (or_iff_right ha))
    by_cases hn : n ∈ s.ntNode
    · have hsome : s.assoc n = some (s.aid n) := assoc_eq_some.mpr ⟨hn, ha, rfl⟩
      exact iff_of_true ((hu.take (by decide) hsome).congr hbits) fun hout => absurd hn hout
    · have hnone : s.assoc n = none := assoc_eq_none.mpr (.inl hn)
      rw [← hnone, update_eq_self]
      have hiff : Bitmap.Names s.assoc s'.icAidBitmap ↔
          Bitmap.Names s.assoc (Bitmap.clrbit s.icAidBitmap (s.aid n)) :=
        ⟨fun h' => h'.congr fun a => (hbits a).symm, fun h' => h'.congr hbits⟩
      rw [hiff, hu.clrbit_iff (by decide)]
      constructor
      · intro hno _ _ m hm ham haid
        exact hno ⟨m, assoc_eq_some.mpr ⟨hm, ham, haid⟩⟩
      · rintro hun ⟨m, hm⟩
        obtain ⟨hm, ham, haid⟩ := assoc_eq_some.mp hm
        exact hun hn ha m hm ham haid

theorem Ap.Left.gone (h : s.Left s' n) (h0 : Bitmap.isset s.icAidBitmap 0 = false) : s.Gone s' n :=
  ⟨h.touch, assoc_eq_none.mpr (.inr h.associd), h.aids h0⟩

theorem freeNodeLast_gone (h0 : Bitmap.isset s.icAidBitmap 0 = false) (n : ν) :
    s.Gone (s.freeNodeLast n) n := by
  refine ⟨freeNodeLast_touch s n, assoc_eq_none.mpr (.inr ?_), fun a => ?_⟩
  · rw [freeNodeLast_eq]
    simp [Ap.associd, ApNode.none]
  · rw [freeNodeLast_eq, Bitmap.isset_clrbit (by decide)]
    by_cases ha : s.associd n = 0
    · -- bit 0
      rw [Ap.aid, ha, aidOf_zero]
      by_cases ha0 : a = 0
      · rw [ha0, h0, Bool.and_false, Bool.and_false]
      · simp [ha0]
    · exact congrArg (· && _) (decide_eq_decide.mpr (or_iff_right ha)).symm

theorem resetNode_gone (hi : ApInv s) (h0 : Bitmap.isset s.icAidBitmap 0 = false) (n : ν) :
    s.Gone (s.resetNode n) n := by
  refine ⟨resetNode_touch s n, assoc_eq_none.mpr (.inl ?_), ?_⟩
  · rw [resetNode_ntNode]
    exact hi.nodup.not_mem_erase
  · intro a
    rw [Ap.resetNode]
    by_cases ha : s.associd n = 0
    · rw [if_neg (not_not_intro ha)]
      exact (nodeReclaim_left hi ha).aids h0 a
    · rw [if_pos ha, decide_eq_decide.mpr (or_iff_right ha),
        ← Bitmap.isset_clrbit (by decide : 0 < 32)]
      by_cases h : s.refcnt n = 1
      · rw [nodeReclaim_last (s.aidClr n) n h, freeNodeLast_eq]
        -- the bit is cleared twice
        change Bitmap.isset (Bitmap.clrbit (Bitmap.clrbit s.icAidBitmap (s.aid n)) (s.aid n)) a = _
        rw [Bitmap.isset_clrbit (by decide), Bitmap.isset_clrbit (by decide), ← Bool.and_assoc,
          Bool.and_self]
      · rw [nodeReclaim_eq (s.aidClr n) n h]
        rfl

theorem freeAllnodes_aidUnique (hi : ApInv s) (hu : AidUnique s) :
    AidUnique (Ap.freeAllnodes s.ntNode s) := by
  have hstep : ∀ (s : Ap ν) n, n ∈ s.ntNode → ApInv s ∧ AidUnique s → ApInv (s.resetNode n) ∧
      AidUnique (s.resetNode n) := by
    rintro s n hn ⟨hi, hu⟩
    have hgone := resetNode_gone hi (hu.isset_zero hi) n
    exact ⟨resetNode_inv hi n, (hgone.aidUnique_iff hu).mpr fun hout => absurd hn hout⟩
  exact (freeAllnodes_keeps (P := fun s => ApInv s ∧ AidUnique s) hstep s.ntNode s rfl ⟨hi, hu⟩).1.2

/-! ## Any step -/

theorem apStep_aidUnique_iff {op : ApOp ν} (hi : ApInv s) (hu : AidUnique s)
    (hstep : apStep s op = some s') : AidUnique s' ↔ AidKept s op := by
  have h0 := hu.isset_zero hi
  cases op with
  | allocNode n =>
    obtain ⟨htouch, hnone, ha⟩ := allocNode_fresh hi hstep
    obtain ⟨-, rfl⟩ := of_guard hstep
    refine iff_of_true ?_ trivial
    rw [aidUnique_iff] at hu ⊢
    rw [htouch.assoc_eq, assoc_eq_none.mpr (.inr ha), ← hnone, update_eq_self]
    exact hu
  | refNode n =>
    obtain ⟨hr, rfl⟩ := of_guard hstep
    exact iff_of_true
      ((setNode_serve (hi.node n) (Nat.succ_ne_zero (s.refcnt n))).aidUnique hi hu) trivial
  | freeNode n =>
    obtain ⟨hr, rfl⟩ := of_guard hstep
    rw [Ap.freeNode, AidKept]
    by_cases h1 : s.refcnt n = 1
    · rw [if_pos h1, (freeNodeLast_gone h0 n).aidUnique_iff hu]
      exact ⟨fun h _ => h, fun h => h h1⟩
    · rw [if_neg h1]
      exact iff_of_true
        ((setNode_serve (hi.node n) (show s.refcnt n - 1 ≠ 0 by omega)).aidUnique hi hu)
        fun h => absurd h h1
  | nodeJoin n =>
    obtain ⟨hn, rfl⟩ := of_guard hstep
    refine iff_of_true ?_ trivial
    rcases nodeJoin_cases hi n with h | ⟨h, -⟩ | ⟨aid, h⟩
    · rwa [h]
    · rw [h, ((nodeLeave_left hi n).gone h0).aidUnique_iff hu]
      exact fun hout => absurd hn hout
    · exact h.aidUnique hn hu
  | nodeLeave n =>
    obtain ⟨-, rfl⟩ := of_guard hstep
    exact ((nodeLeave_left hi n).gone h0).aidUnique_iff hu
  | tableReset =>
    cases hstep
    exact iff_of_true (freeAllnodes_aidUnique hi hu) trivial
  | pwrsave n c age =>
    obtain ⟨⟨hn, hp⟩, rfl⟩ := of_guard hstep
    exact iff_of_true
      (((pwrsave_put s n c age).serve (hi.node n) ((hi.node n).asleep hn hp)).aidUnique hi
      hu) trivial
  | nodePwrsave n enable =>
    obtain ⟨⟨-, ha, -⟩, rfl⟩ := of_guard hstep
    exact iff_of_true (((nodePwrsave_put s n enable).serve (hi.node n) ha).aidUnique hi hu) trivial
  | recvPspoll n aid =>
    obtain ⟨-, rfl⟩ := of_guard hstep
    exact iff_of_true ((recvPspoll_serve (hi.node n) aid).aidUnique hi hu) trivial
  | age n =>
    obtain ⟨⟨-, ha⟩, rfl⟩ := of_guard hstep
    exact iff_of_true (((age_put s n).serve (hi.node n) ha).aidUnique hi hu) trivial
  | beaconAlloc buf boCaps boTim trailer wme icDtimPeriod =>
    obtain ⟨-, rfl⟩ := of_guard hstep
    exact iff_of_true ⟨hu.unique, hu.isset_iff⟩ trivial
  | beaconUpdate capinfo wme mcast =>
    obtain ⟨b, rfl⟩ := beaconUpdate_keeps hstep
    exact iff_of_true ⟨hu.unique, hu.isset_iff⟩ trivial

/-! ## Runs -/

theorem ApInit.aidUnique (h : ApInit s) : AidUnique s := by
  refine aidUnique_iff.mpr ?_
  rw [h.aidBitmap]
  refine Bitmap.Names.of_none fun n => assoc_eq_none.mpr (.inl ?_)
  rw [h.ntNode]
  exact not_mem_nil

/-- As long as no bit is cleared for a node that is out of the table while a station has its
association id, the association ids of the associated stations are distinct and are those in the
bitmap. The first step that does clear such a bit ends this. -/
theorem aid_unique (h : Reach ApInit apStep AidKept s) :
    AidUnique s ∧ ∀ op s', apStep s op = some s' → (AidUnique s' ↔ AidKept s op) := by
  have hboth : ApInv s ∧ AidUnique s := by
    induction h with
    | init h0 => exact ⟨h0.inv, h0.aidUnique⟩
    | step _ hok hstep ih =>
      exact ⟨apStep_inv ih.1 hstep, (apStep_aidUnique_iff ih.1 ih.2 hstep).mpr hok⟩
  exact ⟨hboth.2, fun op s' => apStep_aidUnique_iff hboth.1 hboth.2⟩

/-- An access point with the default limit. -/
def apStart : Ap Nat where
  icMaxAid := 128
  icTimBitmap := fun _ => 0
  icPsPending := 0
  timUpdate := false
  icAidBitmap := fun _ => 0
  ntNode := []
  icNode := fun _ => ApNode.none
  ifSnd := []
  beacon := none

theorem apStart_init : ApInit apStart := ⟨by decide, rfl, rfl, rfl, rfl, rfl, rfl, rfl⟩

/-- A packet of 60 octets. -/
def apPacket : List Mbuf := [⟨0, mPkthdr, fun _ => 0, 0, 60, 60⟩]

/-- Two stations that join one after the other. -/
theorem aid_unique_sample : ∃ s : Ap Nat, AidUnique s ∧ s.ntNode = [0, 1] ∧ s.aid 0 = 1 ∧
    s.aid 1 = 2 := by
  have hrun : ∃ s : Ap Nat, Reach ApInit apStep AidKept s ∧ s.ntNode = [0, 1] ∧ s.aid 0 = 1 ∧
      s.aid 1 = 2 :=
    Reach.of_run [.allocNode 0, .allocNode 1, .nodeJoin 0, .nodeJoin 1] apStart_init
      ⟨trivial,
      fun _ _ => ⟨trivial, fun _ _ => ⟨trivial, fun _ _ => ⟨trivial, fun _ _ => trivial⟩⟩⟩⟩
      (by decide +kernel)
  obtain ⟨s, hs, h⟩ := hrun
  exact ⟨s, (aid_unique hs).1, h⟩

/-- A frame is on its way to station 0 when the table is reset. Station 1 gets the association id of
station 0, and its bit is cleared when the frame has been sent: station 2 gets the same one. -/
theorem aid_shared : ∃ s : Ap Nat, Reach ApInit apStep Any s ∧
    1 ∈ s.ntNode ∧ 2 ∈ s.ntNode ∧ s.associd 1 ≠ 0 ∧ s.associd 2 ≠ 0 ∧ s.aid 1 = s.aid 2 :=
  Reach.of_run [.allocNode 0, .nodeJoin 0, .refNode 0, .tableReset, .allocNode 1, .nodeJoin 1,
    .freeNode 0, .allocNode 2, .nodeJoin 2] apStart_init (runOk_any _ _) (by decide +kernel)

end Net80211
