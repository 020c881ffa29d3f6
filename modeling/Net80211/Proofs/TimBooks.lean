import Net80211.Proofs.AidUnique

/-!
# Stations with frames

The bit of a station in `ic_tim_bitmap` is set if and only if there are frames in its queue,
unless a station goes with frames in its queue. `ieee80211_node_leave` clears the association
id before it drains the queue, so the bit it clears is not that of the station; and a reset
of the table does not drain the queue of a node with other references. In both cases the bit
stays set with no station that has the frames.
-/

namespace Net80211

open Lib Function Option

variable {ν : Type} {s s' : Ap ν} {m n : ν}

/-- The bits that are set are those of the associated stations with frames, and `ic_ps_pending`
is their number. -/
structure TimBooks (s : Ap ν) : Prop where
  isset_iff : ∀ a, Bitmap.isset s.icTimBitmap a = true ↔
    ∃ n ∈ s.ntNode, s.associd n ≠ 0 ∧ s.aid n = a ∧ s.savedq n ≠ []
  pending : s.icPsPending.toNat = (Bitmap.bits s.icTimBitmap (8 * s.icTimLen)).card

/-- No station goes with frames in its queue, unless its node goes with it in a reset. -/
def TimKept (s : Ap ν) : ApOp ν → Prop
  | .nodeLeave n => s.savedq n = []
  | .tableReset => ∀ n ∈ s.ntNode, s.refcnt n ≠ 1 → s.savedq n = []
  | _ => True

/-- Only associated stations have frames in their queue. -/
def QueueOk (s : Ap ν) : Prop := ∀ n, s.savedq n ≠ [] → n ∈ s.ntNode ∧ s.associd n ≠ 0

theorem Ap.Touch.queueOk (h : s.Touch s' n) (hq : QueueOk s)
    (hn : s'.savedq n ≠ [] → n ∈ s'.ntNode ∧ s'.associd n ≠ 0) : QueueOk s' := by
  intro m hm
  by_cases hmn : m = n
  · exact hmn ▸ hn (hmn ▸ hm)
  · have hnode := h.node m hmn
    rw [Ap.savedq, hnode] at hm
    rw [h.table m hmn, Ap.associd, hnode]
    exact hq m hm

theorem TimInv.bits_eq {t : Tim} (h : TimInv t) :
    Bitmap.bits t.icTimBitmap (8 * t.icTimLen) = Bitmap.bits t.icTimBitmap t.icMaxAid := by
  have hlen : t.icMaxAid ≤ 8 * t.icTimLen := by
    rw [Tim.icTimLen, howmany]
    split <;> omega
  ext a
  simp only [Bitmap.bits, Finset.mem_filter, Finset.mem_range]
  constructor
  · rintro ⟨-, ha⟩
    exact ⟨(h.bound a ha).2, ha⟩
  · rintro ⟨hlt, ha⟩
    exact ⟨by omega, ha⟩

variable [DecidableEq ν] {a : Nat}

/-- The association id of an associated station with frames. -/
def Ap.waiting (s : Ap ν) (n : ν) : Option Nat := if (s.savedq n).isEmpty then none else s.assoc n

theorem waiting_eq_some : s.waiting n = some a ↔ s.assoc n = some a ∧ s.savedq n ≠ [] := by
  rw [Ap.waiting, Option.ite_none_left_eq_some, List.isEmpty_iff]
  exact and_comm

theorem waiting_of_nil (h : s.savedq n = []) : s.waiting n = none := by
  rw [Ap.waiting, h]
  rfl

theorem waiting_of_assoc (h : s.assoc n = none) : s.waiting n = none := by
  rw [Ap.waiting, h, ite_self]

theorem QueueOk.waiting_eq_none (hq : QueueOk s) : s.waiting n = none ↔ s.savedq n = [] := by
  refine ⟨fun h => ?_, waiting_of_nil⟩
  by_contra hne
  have hsome : s.assoc n = some (s.aid n) := assoc_eq_some.mpr ⟨(hq n hne).1, (hq n hne).2, rfl⟩
  rw [waiting_eq_some.mpr ⟨hsome, hne⟩] at h
  cases h

theorem timBooks_iff (hi : ApInv s) (hu : AidUnique s) : TimBooks s ↔
    Bitmap.Names s.waiting s.icTimBitmap := by
  have hex : ∀ a, (∃ n, s.waiting n = some a) ↔
      ∃ n ∈ s.ntNode, s.associd n ≠ 0 ∧ s.aid n = a ∧ s.savedq n ≠ [] := by
    intro a
    refine exists_congr fun n => ?_
    rw [waiting_eq_some, assoc_eq_some, and_assoc, and_assoc]
  constructor
  · intro h
    refine ⟨fun {m n a} hm hn => ?_, fun a => (h.isset_iff a).trans (hex a).symm⟩
    exact (aidUnique_iff.mp hu).inj (waiting_eq_some.mp hm).1 (waiting_eq_some.mp hn).1
  · intro h
    refine ⟨fun a => (h.isset_iff a).trans (hex a), ?_⟩
    rw [hi.tim.bits_eq]
    exact hi.tim.pending

theorem Ap.Touch.waiting_eq (h : s.Touch s' n) :
    s'.waiting = update s.waiting n (s'.waiting n) := by
  funext m
  by_cases hm : m = n
  · rw [hm, update_self]
  · rw [update_of_ne hm, Ap.waiting, Ap.waiting, h.assoc hm, Ap.savedq, Ap.savedq, h.node m hm]

/-! ## What the steps do -/

/-- What is shown of a step: `ic_tim_bitmap` is right after it if and only if the condition
holds. -/
def BooksStep (s' : Ap ν) (kept : Prop) : Prop :=
  (Bitmap.Names s'.waiting s'.icTimBitmap ↔ kept) ∧ (kept → QueueOk s')

/-- Neither who waits nor the bitmap is changed. -/
theorem Ap.Touch.books_same (h : s.Touch s' n) (hb : Bitmap.Names s.waiting s.icTimBitmap)
    (hq : QueueOk s) (hw : s'.waiting n = s.waiting n) (ht : s'.toTim = s.toTim)
    (hn : s'.savedq n ≠ [] → n ∈ s'.ntNode ∧ s'.associd n ≠ 0) : BooksStep s' True := by
  refine ⟨iff_of_true ?_ trivial, fun _ => h.queueOk hq hn⟩
  rwa [h.waiting_eq, hw, update_eq_self, ht]

/-- The node goes, and the bitmap is not changed. -/
theorem Ap.Touch.books_forget (h : s.Touch s' n) (hb : Bitmap.Names s.waiting s.icTimBitmap)
    (hq : QueueOk s) (hw : s'.assoc n = none) (ht : s'.toTim = s.toTim)
    (hn : s.savedq n = [] → s'.savedq n = []) : BooksStep s' (s.savedq n = []) := by
  refine ⟨?_, fun hnil => h.queueOk hq fun hne => absurd (hn hnil) hne⟩
  rw [h.waiting_eq, waiting_of_assoc hw, ht, hb.forget_iff, hq.waiting_eq_none]

theorem Ap.Touch.books_drained (h : s.Touch s' n) (hb : Bitmap.Names s.waiting s.icTimBitmap)
    (hq : QueueOk s) (hw : s'.assoc n = none) (ht : s'.toTim = s.drained n)
    (hn : s'.savedq n = []) : BooksStep s' True := by
  refine ⟨iff_of_true ?_ trivial, fun _ => h.queueOk hq fun hne => absurd hn hne⟩
  rw [h.waiting_eq, waiting_of_assoc hw, ht, Ap.drained]
  by_cases hnil : s.savedq n = []
  · rw [if_pos hnil]
    exact (hb.forget_iff n).mpr (waiting_of_nil hnil)
  · have hsome : s.waiting n = some (s.aid n) :=
      waiting_eq_some.mpr ⟨assoc_eq_some.mpr ⟨(hq n hnil).1, (hq n hnil).2, rfl⟩, hnil⟩
    rw [if_neg hnil]
    refine (hb.take (by decide) hsome).congr fun a => ?_
    rw [Tim.isset_setTim, Bitmap.isset_clrbit (by decide), Bool.if_false_left, decide_not]

theorem Ap.Serve.books_same (h : s.Serve s' n) (hi : ApInv s)
    (hb : Bitmap.Names s.waiting s.icTimBitmap) (hq : QueueOk s) (ht : s'.toTim = s.toTim)
    (hempty : (s'.savedq n).isEmpty = (s.savedq n).isEmpty) : BooksStep s' True := by
  refine (h.touch (hi.node n)).books_same hb hq
    (by rw [Ap.waiting, Ap.waiting, hempty, h.assoc_node]) ht fun hne => ?_
  rw [h.ntNode, h.associd]
  refine hq n fun hnil => hne ?_
  rw [hnil] at hempty
  exact List.isEmpty_iff.mp hempty

/-- The bit of a station is changed to what its queue says. -/
theorem Ap.Serve.books (h : s.Serve s' n) (hi : ApInv s) (hu : AidUnique s)
    (hb : Bitmap.Names s.waiting s.icTimBitmap) (hq : QueueOk s) (hn : n ∈ s.ntNode) :
    BooksStep s' True := by
  have htouch := h.touch (hi.node n)
  rcases h.tim with ⟨ht, hempty⟩ | ⟨ht, ha⟩
  · exact h.books_same hi hb hq ht hempty
  · refine ⟨iff_of_true ?_ trivial, fun _ => htouch.queueOk hq fun _ => by
      rw [h.ntNode, h.associd]; exact ⟨hn, ha⟩⟩
    have hsome : s.assoc n = some (s.aid n) := assoc_eq_some.mpr ⟨hn, ha, rfl⟩
    have hwait : s'.waiting n = if (!(s'.savedq n).isEmpty) = true then some (s.aid n)
        else none := by
      rw [Ap.waiting, h.assoc_node, hsome]
      cases (s'.savedq n).isEmpty <;> rfl
    rw [htouch.waiting_eq, hwait]
    refine hb.put (by decide) ?_ (fun j hj => ?_) _ fun b => ?_
    · rw [Ap.waiting, hsome]
      cases (s.savedq n).isEmpty with
      | true => exact .inl rfl
      | false => exact .inr rfl
    · exact (aidUnique_iff.mp hu).inj (waiting_eq_some.mp hj).1 hsome
    · rw [ht, Tim.isset_setTim]

/-! ## The reset of the table -/

theorem resetNode_drained (s : Ap ν) (h : s.refcnt n = 1) :
    (s.resetNode n).toTim = s.drained n ∧ (s.resetNode n).savedq n = [] := by
  have hlast : ∀ u : Ap ν, u.refcnt n = 1 →
      (u.nodeReclaim n).toTim = u.drained n ∧ (u.nodeReclaim n).savedq n = [] := by
    intro u hu
    rw [nodeReclaim_last u n hu, freeNodeLast_eq]
    exact ⟨rfl, by simp [Ap.savedq, ApNode.none]⟩
  rw [Ap.resetNode]
  split
  · exact hlast (s.aidClr n) h
  · exact hlast s h

theorem resetNode_other (s : Ap ν) (h : s.refcnt n ≠ 1) :
    (s.resetNode n).toTim = s.toTim ∧ (s.resetNode n).savedq n = s.savedq n := by
  have hother : ∀ u : Ap ν, u.refcnt n ≠ 1 →
      (u.nodeReclaim n).toTim = u.toTim ∧ (u.nodeReclaim n).savedq n = u.savedq n := by
    intro u hu
    rw [nodeReclaim_eq u n hu]
    exact ⟨rfl, by simp [Ap.savedq]⟩
  rw [Ap.resetNode]
  split
  · exact hother (s.aidClr n) h
  · exact hother s h

theorem resetNode_assoc (hi : ApInv s) (n : ν) : (s.resetNode n).assoc n = none := by
  refine assoc_eq_none.mpr (.inl ?_)
  rw [resetNode_ntNode]
  exact hi.nodup.not_mem_erase

/-- What a reset of a table without such nodes keeps. -/
structure ResetOk (s : Ap ν) : Prop where
  inv : ApInv s
  names : Bitmap.Names s.waiting s.icTimBitmap
  queueOk : QueueOk s
  kept : ∀ n ∈ s.ntNode, s.refcnt n ≠ 1 → s.savedq n = []

theorem ResetOk.resetNode (h : ResetOk s) (hn : n ∈ s.ntNode) : ResetOk (s.resetNode n) := by
  have htouch := resetNode_touch s n
  have hnone := resetNode_assoc h.inv n
  have hbooks : BooksStep (s.resetNode n) True := by
    by_cases hr : s.refcnt n = 1
    · obtain ⟨ht, hq⟩ := resetNode_drained s hr
      exact htouch.books_drained h.names h.queueOk hnone ht hq
    · obtain ⟨ht, hq⟩ := resetNode_other s hr
      have hnil := h.kept n hn hr
      have hforget := htouch.books_forget h.names h.queueOk hnone ht fun _ => by rw [hq, hnil]
      exact ⟨iff_of_true (hforget.1.mpr hnil) trivial, fun _ => hforget.2 hnil⟩
  refine ⟨resetNode_inv h.inv n, hbooks.1.mpr trivial, hbooks.2 trivial, fun m hm hr => ?_⟩
  have hmn : m ≠ n := by
    intro hmn
    rw [hmn, resetNode_ntNode] at hm
    exact h.inv.nodup.not_mem_erase hm
  rw [Ap.refcnt, htouch.node m hmn] at hr
  rw [Ap.savedq, htouch.node m hmn]
  exact h.kept m ((htouch.table m hmn).mp hm) hr

/-- A bit that no node clears when it goes. -/
structure Stale (a : Nat) (s : Ap ν) : Prop where
  nodup : s.ntNode.Nodup
  isset : Bitmap.isset s.icTimBitmap a = true
  others : ∀ m ∈ s.ntNode, s.refcnt m = 1 → s.savedq m ≠ [] → s.aid m ≠ a

theorem Stale.resetNode (h : Stale a s) (hn : n ∈ s.ntNode) : Stale a (s.resetNode n) := by
  have htouch := resetNode_touch s n
  have hnodup : (s.resetNode n).ntNode.Nodup := by
    rw [resetNode_ntNode]
    exact h.nodup.erase n
  refine ⟨hnodup, ?_, fun m hm hr hq => ?_⟩
  · by_cases hr : s.refcnt n = 1
    · rw [(resetNode_drained s hr).1, Ap.drained]
      by_cases hnil : s.savedq n = []
      · rw [if_pos hnil]
        exact h.isset
      · rw [if_neg hnil, Tim.isset_setTim, if_neg (Ne.symm (h.others n hn hr hnil))]
        exact h.isset
    · rw [(resetNode_other s hr).1]
      exact h.isset
  · have hmn : m ≠ n := by
      intro hmn
      rw [hmn, resetNode_ntNode] at hm
      exact h.nodup.not_mem_erase hm
    rw [Ap.refcnt, htouch.node m hmn] at hr
    rw [Ap.savedq, htouch.node m hmn] at hq
    rw [Ap.aid, Ap.associd, htouch.node m hmn]
    exact h.others m ((htouch.table m hmn).mp hm) hr hq

theorem freeAllnodes_books (hi : ApInv s) (hu : AidUnique s)
    (hb : Bitmap.Names s.waiting s.icTimBitmap) (hq : QueueOk s) :
    BooksStep (Ap.freeAllnodes s.ntNode s) (TimKept s .tableReset) := by
  have hkeep : TimKept s .tableReset → ResetOk (Ap.freeAllnodes s.ntNode s) := fun hkept =>
    (freeAllnodes_keeps (P := ResetOk) (fun _ _ hn h => h.resetNode hn) s.ntNode s rfl
      ⟨hi, hb, hq, hkept⟩).1
  refine ⟨⟨fun hnames n hn hr => ?_, fun hkept => (hkeep hkept).names⟩,
    fun hkept => (hkeep hkept).queueOk⟩
  by_contra hne
  have ha := (hq n hne).2
  have hsome : s.waiting n = some (s.aid n) :=
    waiting_eq_some.mpr ⟨assoc_eq_some.mpr ⟨hn, ha, rfl⟩, hne⟩
  have hstale : Stale (s.aid n) s := by
    refine ⟨hi.nodup, hb.isset_of hsome, fun m hm hrm hqm haid => hr ?_⟩
    rw [← hu.unique m hm n hn (hq m hqm).2 ha haid]
    exact hrm
  obtain ⟨hend, hnt⟩ :=
    freeAllnodes_keeps (P := Stale (s.aid n)) (fun _ _ hn h => h.resetNode hn) s.ntNode s rfl hstale
  obtain ⟨m, hm⟩ := (hnames.isset_iff _).mp hend.isset
  have hmem := (assoc_eq_some.mp (waiting_eq_some.mp hm).1).1
  rw [hnt] at hmem
  cases hmem

/-! ## Any step -/

theorem setNode_books (hi : ApInv s) (hb : Bitmap.Names s.waiting s.icTimBitmap) (hq : QueueOk s)
    {refcnt : Nat} (hr : refcnt ≠ 0) :
    BooksStep (s.setNode n { s.icNode n with niRefcnt := refcnt }) True :=
  (setNode_serve (hi.node n) hr).books_same hi hb hq rfl (by simp [Ap.savedq, Ap.setNode])

theorem apStep_books {op : ApOp ν} (hi : ApInv s) (hu : AidUnique s)
    (hb : Bitmap.Names s.waiting s.icTimBitmap) (hq : QueueOk s) (hstep : apStep s op = some s') :
    BooksStep s' (TimKept s op) := by
  cases op with
  | allocNode n =>
    obtain ⟨hr, rfl⟩ := of_guard hstep
    have hnone : s.assoc n = none := assoc_eq_none.mpr (.inl fun hn => (hi.node n).alive hn hr)
    have hnil :
        Ap.savedq { s.setNode n ⟨1, 0, false, []⟩ with ntNode := s.ntNode ++ [n] } n = [] := by
      simp [Ap.savedq, Ap.setNode]
    exact (allocNode_touch s n).books_same hb hq
      (by rw [waiting_of_nil hnil, waiting_of_assoc hnone]) rfl
      fun hne => absurd hnil hne
  | refNode n =>
    obtain ⟨hr, rfl⟩ := of_guard hstep
    exact setNode_books hi hb hq (Nat.succ_ne_zero (s.refcnt n))
  | freeNode n =>
    obtain ⟨hr, rfl⟩ := of_guard hstep
    rw [Ap.freeNode]
    by_cases h1 : s.refcnt n = 1
    · rw [if_pos h1]
      have hgone := freeNodeLast_gone (hu.isset_zero hi) n
      refine hgone.touch.books_drained hb hq hgone.assoc ?_ ?_
      · rw [freeNodeLast_eq]
      · rw [freeNodeLast_eq]
        simp [Ap.savedq, ApNode.none]
    · rw [if_neg h1]
      exact setNode_books hi hb hq (show s.refcnt n - 1 ≠ 0 by omega)
  | nodeJoin n =>
    obtain ⟨hn, rfl⟩ := of_guard hstep
    have hnil : s.associd n = 0 → s.savedq n = [] := by
      intro ha
      by_contra hne
      exact (hq n hne).2 ha
    rcases nodeJoin_cases hi n with h | ⟨h, ha⟩ | ⟨aid, h⟩
    · rw [h]
      exact ⟨iff_of_true hb trivial, fun _ => hq⟩
    · rw [h]
      have hleft := nodeLeave_left hi n
      have hsaved : (s.nodeLeave n).savedq n = [] := by
        rcases hleft.savedq with hs | ⟨-, hs⟩
        · exact hs
        · rw [hs, hnil ha]
      exact hleft.touch.books_same hb hq (by rw [waiting_of_nil hsaved, waiting_of_nil (hnil ha)])
        hleft.tim
        fun hne => absurd hsaved hne
    · have hsaved : (s.nodeJoin n).savedq n = [] := by rw [h.savedq, hnil h.unassociated]
      exact h.touch.books_same hb hq
        (by rw [waiting_of_nil hsaved, waiting_of_nil (hnil h.unassociated)]) h.tim
        fun hne => absurd hsaved hne
  | nodeLeave n =>
    obtain ⟨-, rfl⟩ := of_guard hstep
    have hleft := nodeLeave_left hi n
    refine hleft.touch.books_forget hb hq (assoc_eq_none.mpr (.inr hleft.associd)) hleft.tim
      fun hnil => ?_
    rcases hleft.savedq with hs | ⟨-, hs⟩
    · exact hs
    · rw [hs, hnil]
  | tableReset =>
    cases hstep
    exact freeAllnodes_books hi hu hb hq
  | pwrsave n c age =>
    obtain ⟨⟨hn, hp⟩, rfl⟩ := of_guard hstep
    exact ((pwrsave_put s n c age).serve (hi.node n) ((hi.node n).asleep hn hp)).books hi
      hu hb hq hn
  | nodePwrsave n enable =>
    obtain ⟨⟨hn, ha, -⟩, rfl⟩ := of_guard hstep
    exact ((nodePwrsave_put s n enable).serve (hi.node n) ha).books hi hu hb hq hn
  | recvPspoll n aid =>
    obtain ⟨hn, rfl⟩ := of_guard hstep
    exact (recvPspoll_serve (hi.node n) aid).books hi hu hb hq hn
  | age n =>
    obtain ⟨⟨hn, ha⟩, rfl⟩ := of_guard hstep
    exact ((age_put s n).serve (hi.node n) ha).books hi hu hb hq hn
  | beaconAlloc buf boCaps boTim trailer wme icDtimPeriod =>
    obtain ⟨-, rfl⟩ := of_guard hstep
    exact ⟨iff_of_true ⟨hb.inj, hb.isset_iff⟩ trivial, fun _ => hq⟩
  | beaconUpdate capinfo wme mcast =>
    obtain ⟨b, rfl⟩ := beaconUpdate_keeps hstep
    exact ⟨iff_of_true ⟨hb.inj, hb.isset_iff⟩ trivial, fun _ => hq⟩

/-! ## Runs -/

/-- As long as no station goes with frames in its queue and the association ids stay distinct,
`ic_tim_bitmap` says which stations have frames, and `ic_ps_pending` how many. A step with which a
station does go with frames ends this. -/
theorem tim_books (h : Reach ApInit apStep (fun s op => AidKept s op ∧ TimKept s op) s) :
    TimBooks s ∧ ∀ op s', AidKept s op → apStep s op = some s' → (TimBooks s' ↔ TimKept s op) := by
  have hall : ApInv s ∧ AidUnique s ∧ Bitmap.Names s.waiting s.icTimBitmap ∧ QueueOk s := by
    induction h with
    | init h0 =>
      have hnil : ∀ n, Ap.savedq _ n = [] := fun n => by rw [Ap.savedq, h0.icNode]; rfl
      refine ⟨h0.inv, h0.aidUnique, ?_, fun n hne => absurd (hnil n) hne⟩
      rw [h0.timBitmap]
      exact Bitmap.Names.of_none fun n => waiting_of_nil (hnil n)
    | step _ hok hstep ih =>
      obtain ⟨hi, hu, hb, hq⟩ := ih
      have hbooks := apStep_books hi hu hb hq hstep
      exact ⟨apStep_inv hi hstep, (apStep_aidUnique_iff hi hu hstep).mpr hok.1, hbooks.1.mpr hok.2,
        hbooks.2 hok.2⟩
  obtain ⟨hi, hu, hb, hq⟩ := hall
  refine ⟨(timBooks_iff hi hu).mpr hb, fun op s' hok hstep => ?_⟩
  rw [timBooks_iff (apStep_inv hi hstep) ((apStep_aidUnique_iff hi hu hstep).mpr hok)]
  exact (apStep_books hi hu hb hq hstep).1

/-- A frame waits for station 0. -/
theorem tim_books_sample : ∃ s : Ap Nat, TimBooks s ∧ s.aid 0 = 1 ∧ (s.savedq 0).length = 1 ∧
    s.icPsPending = 1 := by
  have hrun : ∃ s : Ap Nat, Reach ApInit apStep (fun s op => AidKept s op ∧ TimKept s op) s ∧
      s.aid 0 = 1 ∧ (s.savedq 0).length = 1 ∧ s.icPsPending = 1 :=
    Reach.of_run [.allocNode 0, .nodeJoin 0, .nodePwrsave 0 true, .pwrsave 0 apPacket 10]
      apStart_init
      ⟨⟨trivial, trivial⟩,
      fun _ _ => ⟨⟨trivial, trivial⟩, fun _ _ => ⟨⟨trivial, trivial⟩, fun _ _ =>
        ⟨⟨trivial, trivial⟩, fun _ _ => trivial⟩⟩⟩⟩ (by decide +kernel)
  obtain ⟨s, hs, h⟩ := hrun
  exact ⟨s, (tim_books hs).1, h⟩

/-- The station leaves while the frame waits: its bit stays set, and there is no station. -/
theorem tim_bit_stale : ∃ s : Ap Nat, Reach ApInit apStep Any s ∧
    s.ntNode = [] ∧ Bitmap.isset s.icTimBitmap 1 = true ∧ s.icPsPending = 1 :=
  Reach.of_run [.allocNode 0, .nodeJoin 0, .nodePwrsave 0 true, .pwrsave 0 apPacket 10,
    .nodeLeave 0] apStart_init
    (runOk_any _ _) (by decide +kernel)

theorem reach_apInv {ok : Ap ν → ApOp ν → Prop} (h : Reach ApInit apStep ok s) : ApInv s :=
  h.invariant (fun _ => ApInit.inv) fun _ _ _ hi _ => apStep_inv hi

/-- Two stations have joined; the second is asleep with a frame in its queue, and its bit is set. -/
theorem reach_apInv_sample : ∃ s : Ap Nat, ApInv s ∧ s.ntNode = [0, 1] ∧ s.aid 0 = 1 ∧ s.aid 1 = 2 ∧
    (s.icNode 1).niPwrMgt = true ∧ (s.savedq 1).length = 1 ∧ s.icPsPending = 1 ∧
    Bitmap.isset s.icTimBitmap 2 = true := by
  obtain ⟨s, hs, h⟩ : ∃ s : Ap Nat, Reach ApInit apStep Any s ∧ s.ntNode = [0, 1] ∧ s.aid 0 = 1 ∧
      s.aid 1 = 2 ∧ (s.icNode 1).niPwrMgt = true ∧ (s.savedq 1).length = 1 ∧ s.icPsPending = 1 ∧
      Bitmap.isset s.icTimBitmap 2 = true :=
    Reach.of_run [.allocNode 0, .nodeJoin 0, .allocNode 1, .nodeJoin 1, .nodePwrsave 1 true,
      .pwrsave 1 apPacket 10] apStart_init (runOk_any _ _) (by decide +kernel)
  exact ⟨s, reach_apInv hs, h⟩

end Net80211
