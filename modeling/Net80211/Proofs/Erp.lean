import Net80211.Erp
import Net80211.Proofs.AidMaps
import Net80211.Proofs.AidUnique

/-!
# The counters of an 802.11g access point

A step is about one node (`Ap.Touch`), so a counter stays the number of the stations it is to
count if and only if the step changes it by what the node has become, less what it was
(`counted_iff`). `ieee80211_node_join_11g` and `ieee80211_node_leave_11g` do so. A station
that is associated already and sends another association request has its capabilities
written again, and nothing is counted: that is right if it needs the slot time it needed
before, and else the counter is wrong from then on, until it is 0 when the station leaves.

The counters have 16 bits. As association ids are distinct there are fewer stations than
that; the condition for this (`AidKept`) is a condition here, too.

A station looks at the value it holds, not at the one that the beacon brings, when it sets a
flag. So its flags are those of the beacon before, and right as long as nothing changes.
-/

namespace Net80211

open Lib List Function Option

/-! ## Association requests -/

variable (ic : MgmtIc) (frame : List UInt8)

/-- What an association request leaves behind, of what it does to the node. -/
def assocReqOut (r : Bool × MgmtNode) : MgmtOut :=
  { nodes := [r.2], installed := [r.2.niRates], icWme := ic.icWme }

theorem assocReqRecord_rates (e : Found) (rsn : RsnParms) (ni : MgmtNode) :
    (assocReqRecord ic frame e rsn ni >>= fun joined =>
      pure { nodes := [joined], installed := [ni.niRates], icWme := ic.icWme : MgmtOut }) =
    assocReqRecord ic frame e rsn ni >>= fun joined => pure (assocReqOut ic (true, joined)) := by
  rw [assocReqRecord]
  cases saveieOrNull ic frame ni.niWpaIe e.wpa with
  | done wpa => cases saveieOrNull ic frame ni.niWmeIe e.wme <;> rfl
  | drop why | fault e => rfl

theorem assocReqAccept_eq (q : AssocReq) :
    assocReqAccept ic frame q.found q.rates q.capinfo q.lintval q.rsn =
      assocReqJoin ic frame q >>= fun r => pure (assocReqOut ic r) := by
  rw [assocReqAccept, assocReqJoin]
  cases nodeSetupRates ic frame rateFlagsAll ic.ni q.rates q.found.xrates with
  | done out =>
    simp only [done_bind]
    split
    · rfl
    · rw [guarded_bind_assoc]
      exact assocReqRecord_rates ic frame q.found q.rsn _
  | drop why | fault e => rfl

/-- The handler is the checks and what they decide. -/
theorem recvMgmtAssocReq_eq (reassoc : Bool) : recvMgmtAssocReq ic frame reassoc =
      assocReqCheck ic frame reassoc >>= assocReqJoin ic frame >>= fun r =>
      pure (assocReqOut ic r) := by
  rw [recvMgmtAssocReq, assocReqCheck]
  simp only [ite_bind, guarded_bind_assoc, drop_bind, ← assocReqAccept_eq]
  rfl

/-! ## Joining and leaving -/

variable {ν : Type} {s s' : ErpAp ν} {n : ν} {caps : ErpCaps}

theorem nodeLeave11g_eq (caps : ErpCaps) (hlong : shortSlot (s.niCapinfo n) = false →
    s.icLongslotsta ≠ 0) (hnon : s.niErp n = false → s.icNonerpsta ≠ 0) : ∃ flags,
    s.nodeLeave11g caps n = some { s with
        icLongslotsta := if shortSlot (s.niCapinfo n) then s.icLongslotsta else s.icLongslotsta - 1
        icNonerpsta := if s.niErp n then s.icNonerpsta else s.icNonerpsta - 1
        icFlags := flags } := by
  have hslot : ∃ flags, s.leaveSlot caps n = some
      { s with
        icLongslotsta := if shortSlot (s.niCapinfo n) then s.icLongslotsta else s.icLongslotsta - 1
        icFlags := flags } := by
    rw [ErpAp.leaveSlot]
    cases hslot : shortSlot (s.niCapinfo n) with
    | true => exact ⟨_, rfl⟩
    | false =>
      rw [if_pos (by rfl), if_neg (hlong hslot)]
      by_cases hlast : s.icLongslotsta - 1 = 0 ∧ caps.shslot = true
      · exact ⟨_, congrArg some (if_pos hlast)⟩
      · exact ⟨_, congrArg some (if_neg hlast)⟩
  obtain ⟨flags, hslot⟩ := hslot
  rw [ErpAp.nodeLeave11g, hslot, bind_eq_bind, bind_some, ErpAp.leaveErp]
  cases herp : s.niErp n with
  | true => exact ⟨_, rfl⟩
  | false =>
    rw [if_pos (by rfl), if_neg (hnon herp)]
    by_cases hlast : s.icNonerpsta - 1 = 0
    · cases caps.shpreamble <;> exact ⟨_, if_pos hlast⟩
    · exact ⟨_, if_neg hlast⟩

variable [DecidableEq ν] {op : ApOp ν} {rates : Rateset} {c : BitVec 16}

theorem nodeJoin11g_eq (caps : ErpCaps) (s : ErpAp ν) (n : ν) (rates : Rateset) :
    ∃ flags, s.nodeJoin11g caps n rates = { s with
        niErp := if iserpRateset rates then update s.niErp n true else s.niErp
        icLongslotsta := if shortSlot (s.niCapinfo n) then s.icLongslotsta else s.icLongslotsta + 1
        icNonerpsta := if iserpRateset rates then s.icNonerpsta else s.icNonerpsta + 1
        icFlags := flags } := by
  have hslot : ∃ flags, s.joinSlot n =
      { s with
        icLongslotsta := if shortSlot (s.niCapinfo n) then s.icLongslotsta else s.icLongslotsta + 1
        icFlags := flags } := by
    rw [ErpAp.joinSlot]
    cases shortSlot (s.niCapinfo n) <;> exact ⟨_, rfl⟩
  obtain ⟨flags, hslot⟩ := hslot
  rw [ErpAp.nodeJoin11g, hslot, ErpAp.joinErp]
  cases iserpRateset rates with
  | true => exact ⟨_, rfl⟩
  | false =>
    by_cases hp : s.niCapinfo n &&& capinfoShortPreamble = 0
    · cases caps.protmode <;> exact ⟨_, if_pos hp⟩
    · cases caps.protmode <;> exact ⟨_, if_neg hp⟩

/-! ## What is counted -/

/-- The associated stations that need the long slot time. -/
def ErpAp.longslot (s : ErpAp ν) : Finset ν :=
  s.ntNode.toFinset.filter fun n => s.associd n ≠ 0 ∧ shortSlot (s.niCapinfo n) = false

/-- The associated stations that are not ERP stations. -/
def ErpAp.nonerp (s : ErpAp ν) : Finset ν :=
  s.ntNode.toFinset.filter fun n => s.associd n ≠ 0 ∧ s.niErp n = false

/-- The counters are the numbers of these stations. -/
structure ErpCounted (s : ErpAp ν) : Prop where
  longslot : s.icLongslotsta.toNat = s.longslot.card
  nonerp : s.icNonerpsta.toNat = s.nonerp.card

theorem mem_longslot : n ∈ s.longslot ↔ s.assoc n ≠ none ∧ shortSlot (s.niCapinfo n) = false := by
  rw [ErpAp.longslot, Finset.mem_filter, List.mem_toFinset, assoc_ne_none, and_assoc]

theorem mem_nonerp : n ∈ s.nonerp ↔ s.assoc n ≠ none ∧ s.niErp n = false := by
  rw [ErpAp.nonerp, Finset.mem_filter, List.mem_toFinset, assoc_ne_none, and_assoc]

/-- Only node `n` may have changed. -/
structure ErpAp.Touch (s s' : ErpAp ν) (n : ν) : Prop where
  touch : s.toAp.Touch s'.toAp n
  niCapinfo : ∀ m, m ≠ n → s'.niCapinfo m = s.niCapinfo m
  niErp : ∀ m, m ≠ n → s'.niErp m = s.niErp m

/-- What node `n` adds to the number of stations that need the long slot time. -/
def ErpAp.longCount (s : ErpAp ν) (n : ν) : Nat := (decide (n ∈ s.longslot)).toNat

/-- What node `n` adds to the number of stations that are not ERP stations. -/
def ErpAp.nonCount (s : ErpAp ν) (n : ν) : Nat := (decide (n ∈ s.nonerp)).toNat

theorem counts_of_none (h : s.assoc n = none) : s.longCount n = 0 ∧ s.nonCount n = 0 := by
  constructor
  · rw [ErpAp.longCount, decide_eq_false fun hm => (mem_longslot.mp hm).1 h, Bool.toNat_false]
  · rw [ErpAp.nonCount, decide_eq_false fun hm => (mem_nonerp.mp hm).1 h, Bool.toNat_false]

theorem counts_of_assoc (h : s.assoc n ≠ none) :
    s.longCount n = (!shortSlot (s.niCapinfo n)).toNat ∧ s.nonCount n = (!s.niErp n).toNat := by
  constructor
  · simp [ErpAp.longCount, mem_longslot, h]
  · simp [ErpAp.nonCount, mem_nonerp, h]

/-- The counters are right if and only if they have changed by what the node has become, less what
it was. -/
theorem counted_iff (h : s.Touch s' n) (hc : ErpCounted s) : ErpCounted s' ↔
      s'.icLongslotsta.toNat + s.longCount n = s.icLongslotsta.toNat + s'.longCount n ∧
      s'.icNonerpsta.toNat + s.nonCount n = s.icNonerpsta.toNat + s'.nonCount n := by
  have hlong : s'.longslot.card + s.longCount n = s.longslot.card + s'.longCount n := by
    refine card_update fun m hm => ?_
    rw [mem_longslot, mem_longslot, h.touch.assoc hm, h.niCapinfo m hm]
  have hnon : s'.nonerp.card + s.nonCount n = s.nonerp.card + s'.nonCount n := by
    refine card_update fun m hm => ?_
    rw [mem_nonerp, mem_nonerp, h.touch.assoc hm, h.niErp m hm]
  have hc1 := hc.longslot
  have hc2 := hc.nonerp
  constructor <;>
  · rintro ⟨h1, h2⟩
    exact ⟨by omega, by omega⟩

/-- A node that is not associated before and after. -/
theorem counted_of_none (h : s.Touch s' n) (hc : ErpCounted s) (hn : s.assoc n = none)
    (hn' : s'.assoc n = none) (hlong : s'.icLongslotsta = s.icLongslotsta)
    (hnon : s'.icNonerpsta = s.icNonerpsta) : ErpCounted s' := by
  obtain ⟨hl, he⟩ := counts_of_none hn
  obtain ⟨hl', he'⟩ := counts_of_none hn'
  refine (counted_iff h hc).mpr ⟨?_, ?_⟩
  · rw [hlong, hl, hl']
  · rw [hnon, he, he']

theorem counted_congr (hassoc : s'.assoc = s.assoc) (hcap : s'.niCapinfo = s.niCapinfo)
    (herp : s'.niErp = s.niErp) (hlong : s'.icLongslotsta = s.icLongslotsta)
    (hnon : s'.icNonerpsta = s.icNonerpsta) (hc : ErpCounted s) : ErpCounted s' := by
  have hl : s'.longslot = s.longslot := by
    ext m
    rw [mem_longslot, mem_longslot, hassoc, hcap]
  have he : s'.nonerp = s.nonerp := by
    ext m
    rw [mem_nonerp, mem_nonerp, hassoc, herp]
  exact ⟨by rw [hlong, hl, hc.longslot], by rw [hnon, he, hc.nonerp]⟩

theorem card_assoc_le {stations : Finset ν} (hi : ApInv s.toAp) (hu : AidUnique s.toAp)
    (h : ∀ n ∈ stations, s.assoc n ≠ none) : stations.card ≤ 2007 := by
  have hassoc : ∀ n ∈ stations, n ∈ s.ntNode ∧ s.associd n ≠ 0 :=
    fun n hn => assoc_ne_none.mp (h n hn)
  have hle : stations.card ≤ (Finset.range s.icMaxAid).card := by
    refine Finset.card_le_card_of_injOn s.aid (fun n hn => ?_) fun m hm n hn => ?_
    · exact Finset.mem_coe.mpr (Finset.mem_range.mpr ((hi.node n).aid (hassoc n hn).2).2)
    · exact hu.unique m (hassoc m hm).1 n (hassoc n hn).1 (hassoc m hm).2 (hassoc n hn).2
  rw [Finset.card_range] at hle
  exact Nat.le_trans hle hi.tim.maxAid

theorem longslot_le (hi : ApInv s.toAp) (hu : AidUnique s.toAp) (hc : ErpCounted s) :
    s.icLongslotsta.toNat ≤ 2007 :=
  hc.longslot ▸ card_assoc_le hi hu fun _ hn => (mem_longslot.mp hn).1

theorem nonerp_le (hi : ApInv s.toAp) (hu : AidUnique s.toAp) (hc : ErpCounted s) :
    s.icNonerpsta.toNat ≤ 2007 :=
  hc.nonerp ▸ card_assoc_le hi hu fun _ hn => (mem_nonerp.mp hn).1

/-! ## A station leaves -/

theorem toNat_uncount {b : Bool} (h : b = false → c ≠ 0) :
    (if b then c else c - 1).toNat + (!b).toNat = c.toNat := by
  cases b with
  | true => rfl
  | false =>
    have hc := h rfl
    change (c - 1).toNat + 1 = c.toNat
    bv_omega

theorem toNat_count {b : Bool} (h : c.toNat ≤ 2007) :
    (if b then c else c + 1).toNat = c.toNat + (!b).toNat := by
  cases b with
  | true => rfl
  | false =>
    change (c + 1).toNat = c.toNat + 1
    bv_omega

theorem nodeLeave_counted (caps : ErpCaps) (hi : ApInv s.toAp) (hu : AidUnique s.toAp)
    (hc : ErpCounted s) (hn : n ∈ s.ntNode) :
    ∃ s', s.nodeLeave caps n = some s' ∧ ErpCounted s' ∧ s'.toAp = s.toAp.nodeLeave n ∧
    s.Touch s' n := by
  have hgone := (nodeLeave_left hi n).gone (hu.isset_zero hi)
  rw [ErpAp.nodeLeave]
  by_cases ha : s.associd n = 0
  · rw [if_neg (not_not_intro ha)]
    have htouch : s.Touch { s with toAp := s.toAp.nodeLeave n } n :=
      ⟨hgone.touch, fun _ _ => rfl, fun _ _ => rfl⟩
    exact ⟨_, rfl, counted_of_none htouch hc (assoc_eq_none.mpr (.inr ha)) hgone.assoc rfl rfl,
      rfl, htouch⟩
  · rw [if_pos ha]
    have hassoc : s.assoc n ≠ none := assoc_ne_none.mpr ⟨hn, ha⟩
    have hlong : shortSlot (s.niCapinfo n) = false → s.icLongslotsta ≠ 0 := by
      intro h h0
      have hpos := Finset.card_pos.mpr ⟨n, mem_longslot.mpr ⟨hassoc, h⟩⟩
      rw [← hc.longslot, h0] at hpos
      exact absurd hpos (by decide)
    have hnon : s.niErp n = false → s.icNonerpsta ≠ 0 := by
      intro h h0
      have hpos := Finset.card_pos.mpr ⟨n, mem_nonerp.mpr ⟨hassoc, h⟩⟩
      rw [← hc.nonerp, h0] at hpos
      exact absurd hpos (by decide)
    obtain ⟨flags, hleave⟩ := nodeLeave11g_eq caps hlong hnon
    obtain ⟨hl, he⟩ := counts_of_assoc hassoc
    have hcounts : ∀ t : ErpAp ν, t.toAp = s.toAp.nodeLeave n → t.longCount n = 0 ∧
        t.nonCount n = 0 :=
      fun t ht => counts_of_none (by rw [ht]; exact hgone.assoc)
    rw [hleave]
    refine ⟨_, rfl, (counted_iff (n := n) ?_ hc).mpr ?_, rfl, ?_⟩
    · exact ⟨hgone.touch, fun _ _ => rfl, fun _ _ => rfl⟩
    · rw [hl, he, (hcounts _ rfl).1, (hcounts _ rfl).2]
      exact ⟨toNat_uncount hlong, toNat_uncount hnon⟩
    · exact ⟨hgone.touch, fun _ _ => rfl, fun _ _ => rfl⟩

/-! ## A station joins -/

theorem nodeJoin_counted (hi : ApInv s.toAp) (hu : AidUnique s.toAp) (hc : ErpCounted s)
    (hn : n ∈ s.ntNode) (ha : s.associd n = 0) (herp : s.niErp n = false) :
    ErpCounted (s.nodeJoin caps n rates) := by
  have hnone : s.assoc n = none := assoc_eq_none.mpr (.inr ha)
  rw [ErpAp.nodeJoin]
  cases hfree : s.freeAid with
  | none =>
    rw [if_neg (by simp)]
    have hgone := (nodeLeave_left hi n).gone (hu.isset_zero hi)
    rw [← nodeJoin_full ha hfree] at hgone
    exact counted_of_none ⟨hgone.touch, fun _ _ => rfl, fun _ _ => rfl⟩ hc hnone hgone.assoc rfl rfl
  | some aid =>
    rw [if_pos ⟨ha, rfl⟩]
    have hjoin := nodeJoin_joined hi ha hfree
    have hassoc : (s.toAp.nodeJoin n).assoc n ≠ none :=
      assoc_ne_none.mpr ⟨hjoin.ntNode ▸ hn, hjoin.associd⟩
    have hlongs := longslot_le hi hu hc
    have hnons := nonerp_le hi hu hc
    obtain ⟨flags, hjoin11g⟩ := nodeJoin11g_eq caps { s with toAp := s.toAp.nodeJoin n } n rates
    have hflag : (if iserpRateset rates then update s.niErp n true else s.niErp) n =
        iserpRateset rates := by
      cases iserpRateset rates with
      | true => exact update_self _ _ _
      | false => exact herp
    rw [hjoin11g]
    refine (counted_iff (n := n) ?_ hc).mpr ?_
    · refine ⟨hjoin.touch, fun _ _ => rfl, fun m hm => ?_⟩
      cases iserpRateset rates with
      | true => exact update_of_ne hm _ _
      | false => rfl
    · obtain ⟨hl, he⟩ := counts_of_none hnone
      rw [hl, he, (counts_of_assoc hassoc).1, (counts_of_assoc hassoc).2]
      refine ⟨toNat_count hlongs, ?_⟩
      change (if iserpRateset rates then s.icNonerpsta else s.icNonerpsta + 1).toNat =
        s.icNonerpsta.toNat +
        (!(if iserpRateset rates then update s.niErp n true else s.niErp) n).toNat
      rw [hflag]
      exact toNat_count hnons

theorem writeCapinfo_touch (s : ErpAp ν) (n : ν) (capinfo : UInt16) :
    s.Touch { s with niCapinfo := update s.niCapinfo n capinfo } n :=
  ⟨⟨fun _ _ => rfl, fun _ _ => Iff.rfl, .refl _, rfl⟩, fun _ hm => update_of_ne hm _ _,
    fun _ _ => rfl⟩

/-- A station that is associated already has its capabilities written, and is not counted. -/
theorem nodeJoin_again_counted_iff {capinfo : UInt16} (hc : ErpCounted s) (hn : n ∈ s.ntNode)
    (ha : s.associd n ≠ 0) :
    ErpCounted (({ s with niCapinfo := update s.niCapinfo n capinfo }).nodeJoin caps n rates) ↔
      shortSlot capinfo = shortSlot (s.niCapinfo n) := by
  have heq : ({ s with niCapinfo := update s.niCapinfo n capinfo }).nodeJoin caps n rates =
      { s with niCapinfo := update s.niCapinfo n capinfo } := by
    rw [ErpAp.nodeJoin, if_neg fun h => ha h.1, nodeJoin_again ha]
  have hassoc : s.assoc n ≠ none := assoc_ne_none.mpr ⟨hn, ha⟩
  obtain ⟨hl, he⟩ := counts_of_assoc hassoc
  obtain ⟨hl', he'⟩ :=
    counts_of_assoc (s := { s with niCapinfo := update s.niCapinfo n capinfo }) (n := n) hassoc
  rw [heq, counted_iff (writeCapinfo_touch s n capinfo) hc, hl, he, hl', he', and_iff_left rfl,
    Nat.add_left_cancel_iff]
  dsimp only
  rw [update_self]
  cases shortSlot capinfo <;> cases shortSlot (s.niCapinfo n) <;> decide

/-! ## Any step -/

/-- A step does not clear the association id of another station. -/
def ErpAidKept (s : ErpAp ν) : ErpOp ν → Prop
  | .freeNode n => s.refcnt n = 1 → s.toAp.Unclaimed n
  | _ => True

/-- An associated station that associates again needs the slot time it needed before. -/
def SlotKept (s : ErpAp ν) : ErpOp ν → Prop
  | .assocReq n ic frame reassoc =>
    match assocReqVerdict ic frame reassoc with
    | .join ni => s.associd n ≠ 0 → shortSlot ni.niCapinfo = shortSlot (s.niCapinfo n)
    | _ => True
  | _ => True

/-- `IEEE80211_NODE_ERP` is not set before a station joins. -/
structure ErpInv (s : ErpAp ν) : Prop where
  ap : ApInv s.toAp
  aid : AidUnique s.toAp
  fresh : ∀ n ∈ s.ntNode, s.associd n = 0 → s.niErp n = false

theorem ErpInv.of_apStep (hi : ErpInv s) (hstep : apStep s.toAp op = some s'.toAp)
    (hkept : AidKept s.toAp op) (hfresh : ∀ n ∈ s'.ntNode, s'.associd n = 0 → s'.niErp n = false) :
    ErpInv s' :=
  ⟨apStep_inv hi.ap hstep, (apStep_aidUnique_iff hi.ap hi.aid hstep).mpr hkept, hfresh⟩

theorem ErpAp.Touch.fresh (h : s.Touch s' n) (hi : ErpInv s)
    (hn : n ∈ s'.ntNode → s'.associd n = 0 → s'.niErp n = false) :
    ∀ m ∈ s'.ntNode, s'.associd m = 0 → s'.niErp m = false := by
  intro m hm ha
  by_cases hmn : m = n
  · subst hmn
    exact hn hm ha
  · rw [h.niErp m hmn]
    refine hi.fresh m ((h.touch.table m hmn).mp hm) ?_
    rwa [Ap.associd, h.touch.node m hmn] at ha

theorem nodeLeave_step (hi : ErpInv s) (hc : ErpCounted s) (hn : n ∈ s.ntNode)
    (h : s.nodeLeave caps n = some s') : ErpInv s' ∧ ErpCounted s' := by
  obtain ⟨t, ht, hct, hap, htouch⟩ := nodeLeave_counted caps hi.ap hi.aid hc hn
  obtain rfl := Option.some.inj (h.symm.trans ht)
  have hstep : apStep s.toAp (.nodeLeave n) = some s'.toAp := by
    rw [apStep, if_pos ((hi.ap.node n).alive hn), hap]
  have hout : n ∉ s'.ntNode := by
    rw [hap, (nodeLeave_left hi.ap n).ntNode]
    exact hi.ap.nodup.not_mem_erase
  exact ⟨hi.of_apStep hstep (fun h => absurd hn h) (htouch.fresh hi fun h => absurd h hout), hct⟩

theorem nodeJoin_fields (caps : ErpCaps) (s : ErpAp ν) (n : ν) (rates : Rateset) :
    (s.nodeJoin caps n rates).toAp = s.toAp.nodeJoin n ∧
    ∀ m, m ≠ n → (s.nodeJoin caps n rates).niErp m = s.niErp m := by
  rw [ErpAp.nodeJoin]
  split
  · obtain ⟨flags, hjoin⟩ := nodeJoin11g_eq caps { s with toAp := s.toAp.nodeJoin n } n rates
    rw [hjoin]
    refine ⟨rfl, fun m hm => ?_⟩
    cases iserpRateset rates with
    | true => exact update_of_ne hm _ _
    | false => rfl
  · exact ⟨rfl, fun _ _ => rfl⟩

theorem nodeJoin_inv (rates : Rateset) (hi : ErpInv s) (hn : n ∈ s.ntNode) :
    ErpInv (s.nodeJoin caps n rates) := by
  obtain ⟨hap, herp⟩ := nodeJoin_fields caps s n rates
  have hstep : apStep s.toAp (.nodeJoin n) = some (s.nodeJoin caps n rates).toAp := by
    rw [apStep, if_pos hn, hap]
  have hn' : n ∈ (s.toAp.nodeJoin n).ntNode → (s.toAp.nodeJoin n).associd n ≠ 0 := by
    intro hin ha'
    by_cases ha : s.associd n = 0
    · cases hfree : s.freeAid with
      | none =>
        rw [nodeJoin_full ha hfree, (nodeLeave_left hi.ap n).ntNode] at hin
        exact hi.ap.nodup.not_mem_erase hin
      | some aid => exact (nodeJoin_joined hi.ap ha hfree).associd ha'
    · rw [nodeJoin_again ha] at ha'
      exact ha ha'
  refine hi.of_apStep hstep trivial fun m hm ha => ?_
  rw [hap] at hm ha
  have hmn : m ≠ n := fun h => hn' (h ▸ hm) (h ▸ ha)
  have htouch := nodeJoin_touch hi.ap n
  rw [herp m hmn]
  refine hi.fresh m ((htouch.table m hmn).mp hm) ?_
  rwa [Ap.associd, htouch.node m hmn] at ha

theorem nodeJoin_step (caps : ErpCaps) (capinfo : UInt16) (rates : Rateset) (hi : ErpInv s)
    (hc : ErpCounted s) (hn : n ∈ s.ntNode) :
    ErpInv (({ s with niCapinfo := update s.niCapinfo n capinfo }).nodeJoin caps n rates) ∧
    (ErpCounted (({ s with niCapinfo := update s.niCapinfo n capinfo }).nodeJoin caps n rates) ↔
      (s.associd n ≠ 0 → shortSlot capinfo = shortSlot (s.niCapinfo n))) := by
  refine ⟨nodeJoin_inv rates ⟨hi.ap, hi.aid, hi.fresh⟩ hn, ?_⟩
  by_cases ha : s.associd n = 0
  · refine iff_of_true ?_ fun h => absurd ha h
    have hnone : s.assoc n = none := assoc_eq_none.mpr (.inr ha)
    refine nodeJoin_counted hi.ap hi.aid ?_ hn ha (hi.fresh n hn ha)
    exact counted_of_none (writeCapinfo_touch s n capinfo) hc hnone hnone rfl rfl
  · rw [nodeJoin_again_counted_iff hc hn ha]
    exact ⟨fun h _ => h, fun h => h ha⟩

/-- A node that stays as it was is counted as it was. -/
theorem serve_step {ap : Ap ν} (hi : ErpInv s) (hc : ErpCounted s) (h : s.toAp.Serve ap n)
    (hap : apStep s.toAp op = some ap) (hkept : AidKept s.toAp op) :
    ErpInv { s with toAp := ap } ∧ ErpCounted { s with toAp := ap } := by
  have htouch : s.Touch { s with toAp := ap } n :=
    ⟨h.touch (hi.ap.node n), fun _ _ => rfl, fun _ _ => rfl⟩
  refine ⟨hi.of_apStep hap hkept (htouch.fresh hi fun hn ha => ?_),
    counted_congr (h.assoc hi.ap) rfl rfl rfl rfl hc⟩
  exact hi.fresh n (h.ntNode ▸ hn) (h.associd ▸ ha)

theorem erpStep_counted_iff {op : ErpOp ν} (hi : ErpInv s) (hc : ErpCounted s)
    (haid : ErpAidKept s op) (hstep : erpStep caps s op = some s') :
    ErpInv s' ∧ (ErpCounted s' ↔ SlotKept s op) := by
  cases op with
  | allocNode n =>
    obtain ⟨ap, hap, rfl⟩ := map_eq_some_iff.mp hstep
    obtain ⟨htouch, hnone, ha⟩ := allocNode_fresh hi.ap hap
    have htouch' : s.Touch { s with
        toAp := ap, niCapinfo := update s.niCapinfo n 0, niErp := update s.niErp n false } n :=
      ⟨htouch, fun _ hm => update_of_ne hm _ _, fun _ hm => update_of_ne hm _ _⟩
    refine ⟨hi.of_apStep hap trivial (htouch'.fresh hi fun _ _ => update_self _ _ _),
      iff_of_true ?_ trivial⟩
    exact counted_of_none htouch' hc hnone (assoc_eq_none.mpr (.inr ha)) rfl rfl
  | refNode n =>
    obtain ⟨ap, hap, rfl⟩ := map_eq_some_iff.mp hstep
    obtain ⟨-, rfl⟩ := of_guard hap
    obtain ⟨hi', hc'⟩ :=
      serve_step hi hc (setNode_serve (hi.ap.node n) (Nat.succ_ne_zero (s.refcnt n))) hap trivial
    exact ⟨hi', iff_of_true hc' trivial⟩
  | freeNode n =>
    obtain ⟨hlast, hstep⟩ := ite_none_left_eq_some.mp hstep
    obtain ⟨ap, hap, rfl⟩ := map_eq_some_iff.mp hstep
    obtain ⟨hr, rfl⟩ := of_guard hap
    by_cases h1 : s.refcnt n = 1
    · -- the node is out of the table
      have hgone := freeNodeLast_gone (hi.aid.isset_zero hi.ap) n
      have hnone : s.assoc n = none := assoc_eq_none.mpr (.inl fun hn => hlast ⟨hn, h1⟩)
      have hfree : s.toAp.freeNode n = s.toAp.freeNodeLast n := by rw [Ap.freeNode, if_pos h1]
      have htouch : s.Touch { s with toAp := s.toAp.freeNode n } n :=
        ⟨hfree ▸ hgone.touch, fun _ _ => rfl, fun _ _ => rfl⟩
      have hout : n ∉ (s.toAp.freeNode n).ntNode := by
        rw [hfree, freeNodeLast_eq]
        exact hi.ap.nodup.not_mem_erase
      refine ⟨hi.of_apStep hap haid (htouch.fresh hi fun hn => absurd hn hout),
        iff_of_true ?_ trivial⟩
      exact counted_of_none htouch hc hnone (hfree ▸ hgone.assoc) rfl rfl
    · have hfree :
          s.toAp.freeNode n = s.toAp.setNode n { s.icNode n with niRefcnt := s.refcnt n - 1 } := by
        rw [Ap.freeNode, if_neg h1]
      have hserve := setNode_serve (hi.ap.node n) (show s.refcnt n - 1 ≠ 0 by omega)
      obtain ⟨hi', hc'⟩ := serve_step hi hc (hfree ▸ hserve) hap fun h => absurd h h1
      exact ⟨hi', iff_of_true hc' trivial⟩
  | assocReq n ic frame reassoc =>
    obtain ⟨hn, hstep⟩ := ite_none_right_eq_some.mp hstep
    rw [ErpAp.recvMgmtAssocReq] at hstep
    rw [SlotKept]
    cases hv : assocReqVerdict ic frame reassoc with
    | discard =>
      rw [hv] at hstep
      cases hstep
      exact ⟨hi, iff_of_true hc trivial⟩
    | leave =>
      rw [hv] at hstep
      obtain ⟨hi', hc'⟩ := nodeLeave_step hi hc hn hstep
      exact ⟨hi', iff_of_true hc' trivial⟩
    | join ni =>
      rw [hv] at hstep
      cases hstep
      exact nodeJoin_step caps ni.niCapinfo ni.niRates hi hc hn
  | nodeLeave n =>
    obtain ⟨hn, hstep⟩ := ite_none_right_eq_some.mp hstep
    obtain ⟨hi', hc'⟩ := nodeLeave_step hi hc hn hstep
    exact ⟨hi', iff_of_true hc' trivial⟩
  | tableReset =>
    cases hstep
    have hnil : (Ap.freeAllnodes s.ntNode s.toAp).ntNode = [] :=
      (freeAllnodes_keeps (P := fun _ => True) (fun _ _ _ _ => trivial) s.ntNode s.toAp rfl
        trivial).2
    have hap : apStep s.toAp .tableReset = some (Ap.freeAllnodes s.ntNode s.toAp) := rfl
    refine ⟨hi.of_apStep hap trivial fun m hm => ?_, iff_of_true ⟨?_, ?_⟩ trivial⟩
    · rw [ErpAp.resetErp, hnil] at hm
      cases hm
    · simp [ErpAp.resetErp, ErpAp.longslot, hnil]
    · simp [ErpAp.resetErp, ErpAp.nonerp, hnil]

/-! ## Runs -/

theorem ErpInit.counted (h : ErpInit s) : ErpInv s ∧ ErpCounted s := by
  refine ⟨⟨h.toApInit.inv, h.toApInit.aidUnique, fun n hn => ?_⟩, ⟨?_, ?_⟩⟩
  · rw [h.ntNode] at hn
    cases hn
  · simp [h.longslotsta, ErpAp.longslot, h.ntNode]
  · simp [h.nonerpsta, ErpAp.nonerp, h.ntNode]

/-- The counters are right, and no assertion fails, in a run in which every associated station
that associates again needs the slot time it needed before. A step of another kind makes a
counter wrong. -/
theorem erp_counters
    (h : Reach ErpInit (erpStep caps) (fun s op => ErpAidKept s op ∧ SlotKept s op) s) :
    ErpCounted s ∧ (∀ n ∈ s.ntNode, (s.nodeLeave caps n).isSome = true) ∧ ∀ op s', ErpAidKept s op →
    erpStep caps s op = some s' → (ErpCounted s' ↔ SlotKept s op) := by
  have hboth : ErpInv s ∧ ErpCounted s := by
    induction h with
    | init h0 => exact h0.counted
    | step _ hok hstep ih =>
      obtain ⟨hi', hiff⟩ := erpStep_counted_iff ih.1 ih.2 hok.1 hstep
      exact ⟨hi', hiff.mpr hok.2⟩
  refine ⟨hboth.2, fun n hn => ?_, fun op s' haid hstep =>
    (erpStep_counted_iff hboth.1 hboth.2 haid hstep).2⟩
  obtain ⟨s', hs', -⟩ := nodeLeave_counted caps hboth.1.ap hboth.1.aid hboth.2 hn
  rw [hs']
  rfl

/-! ## A station that changes its mind -/

def erpStart : ErpAp Nat :=
  { apStart with
    niCapinfo := fun _ => 0, niErp := fun _ => false, icLongslotsta := 0, icNonerpsta := 0
    icFlags := ⟨false, true, true, false⟩ }

theorem erpStart_init : ErpInit erpStart := ⟨apStart_init, rfl, rfl⟩

def erpCaps : ErpCaps := ⟨true, true, true⟩

/-- An access point, and a station that is not its own node. -/
def assocApIc : MgmtIc := { assocIc with icOpmode := .hostap, icState := .run, niIsBss := false }

/-- An association request with the rates of 802.11b. -/
def assocReqFrame (capinfo : UInt16) : List UInt8 :=
  replicate 16 (0 : UInt8) ++ assocBss.niBssid ++
    [0, 0, capinfo.toUInt8, (capinfo >>> 8).toUInt8, 1, 0, 0, 0, 1, 4, 2, 4, 11, 22]

/-- A station that needs the long slot time associates, and can leave. -/
theorem erp_counters_sample : ∃ s : ErpAp Nat, ErpCounted s ∧ s.icLongslotsta = 1 ∧ s.ntNode = [0] ∧
    (s.nodeLeave erpCaps 0).isSome = true := by
  have hfirst : ∀ s, erpStep erpCaps erpStart (.allocNode 0) = some s →
      SlotKept s (.assocReq 0 assocApIc (assocReqFrame 0x0001) false) := by
    intro s hs
    have hzero : s.associd 0 = 0 := by
      rw [erpStep, apStep, if_pos (by decide)] at hs
      cases hs
      rfl
    rw [SlotKept]
    split
    · exact fun h => absurd hzero h
    · trivial
  have hrun : ∃ s : ErpAp Nat, Reach ErpInit (erpStep erpCaps)
      (fun s op => ErpAidKept s op ∧ SlotKept s op) s ∧ s.icLongslotsta = 1 ∧ s.ntNode = [0] :=
    Reach.of_run [.allocNode 0, .assocReq 0 assocApIc (assocReqFrame 0x0001) false] erpStart_init
      ⟨⟨trivial, trivial⟩, fun s hs => ⟨⟨trivial, hfirst s hs⟩, fun _ _ => trivial⟩⟩
      (by decide +kernel)
  obtain ⟨s, hs, hlong, hnt⟩ := hrun
  obtain ⟨hc, hleave, -⟩ := erp_counters hs
  exact ⟨s, hc, hlong, hnt, hleave 0 (by simp [hnt])⟩

/-- A station that is capable of the short slot time associates, and then associates again without
it. It is not counted, and the assertion fails when it leaves. -/
theorem erp_counter_stale : ∃ s : ErpAp Nat, Reach ErpInit (erpStep erpCaps) Any s ∧
    s.longslot.card = 1 ∧ s.icLongslotsta = 0 ∧ 0 ∈ s.ntNode ∧
    (s.nodeLeave erpCaps 0).isNone = true :=
  Reach.of_run [.allocNode 0, .assocReq 0 assocApIc (assocReqFrame 0x0401) false,
    .assocReq 0 assocApIc (assocReqFrame 0x0001) false] erpStart_init (runOk_any _ _)
    (by decide +kernel)

/-! ## A station -/

section Station

variable {ic : MgmtIc} {frame : List UInt8} {s s' : ErpSta} {a : MgmtIc × List UInt8} {b : Beacon}

theorem shortSlot_xor (c c' : UInt16) :
    ((c ^^^ c') &&& capinfoShortSlottime != 0) = (shortSlot c != shortSlot c') := by
  have hbit : ∀ c : UInt16, shortSlot c = c.toBitVec.getLsbD 10 := by
    intro c
    have hand : c &&& capinfoShortSlottime = if c.toBitVec.getLsbD 10 then 0x0400 else 0 := by
      rw [← UInt16.toBitVec_inj, UInt16.toBitVec_and]
      refine (BitVec.and_twoPow c.toBitVec 10).trans ?_
      cases c.toBitVec.getLsbD 10 <;> rfl
    rw [shortSlot, hand]
    cases c.toBitVec.getLsbD 10 <;> rfl
  rw [← shortSlot, hbit, hbit, hbit, UInt16.toBitVec_xor, BitVec.getLsbD_xor]

theorem readTim_erp (ni : MgmtNode) (tim : Option Nat) :
    Guarded.Post (fun ni' => ni'.niErp = ni.niErp ∧ ni'.niCapinfo = ni.niCapinfo)
    (readTim frame ni tim) := by
  cases tim with
  | none => exact post_pure ⟨rfl, rfl⟩
  | some p =>
    refine Guarded.Post.bind (P := fun _ => True) (fun _ _ => trivial) fun count _ => ?_
    refine Guarded.Post.bind (P := fun _ => True) (fun _ _ => trivial) fun period _ => ?_
    exact post_pure ⟨rfl, rfl⟩

theorem addScan_last {ni : MgmtNode} (out : MgmtOut) (hout : out.nodes = [ni]) :
    Guarded.Post (fun out' => out'.nodes.getLast? = some ni) (addScan ic frame false b out) := by
  rw [addScan]
  refine Guarded.Post.bind (P := fun _ => True) (fun _ _ => trivial) fun addr _ => ?_
  split
  · refine Guarded.Post.bind (P := fun _ => True) (fun _ _ => trivial) fun ni' _ => ?_
    exact post_pure (by rw [hout]; rfl)
  · exact post_pure (by rw [hout]; rfl)

theorem updateStation_erp (ni : MgmtNode) :
    Guarded.Post (fun out => ∃ ni', out.nodes.getLast? = some ni' ∧ ni'.niErp = b.sp.spErp ∧
      shortSlot ni'.niCapinfo = shortSlot b.sp.spCapinfo) (updateStation ic frame false b ni) := by
  rw [updateStation]
  refine Guarded.Post.bind (P := fun _ => True) (fun _ _ => trivial) fun tstamp _ => ?_
  refine Guarded.Post.bind (P := fun _ => True) (fun _ _ => trivial) fun wme _ => ?_
  refine Guarded.Post.bind (readTim_erp _ _) fun ni' hni => ?_
  have hslot : shortSlot ni'.niCapinfo = shortSlot b.sp.spCapinfo := by
    rw [hni.2]
    simp only [shortSlot_xor, bne_iff_ne]
    split
    · rfl
    · next h => exact not_not.mp h
  split
  · intro out hout
    exact ⟨ni', addScan_last _ rfl out hout, hni.1, hslot⟩
  · exact post_pure ⟨ni', rfl, hni.1, hslot⟩

theorem erpStaStep_some (h : erpStaStep s a = some s') :
    ∃ b, parseBeacon (s.hears a.1) a.2 = .done b ∧ s'.icFlags = beaconErp s.icBss b.sp s.icFlags ∧
      s'.icBss.niErp = b.sp.spErp ∧ shortSlot s'.icBss.niCapinfo = shortSlot b.sp.spCapinfo := by
  rw [erpStaStep] at h
  obtain ⟨⟨haid, haddr⟩, h⟩ := ite_none_right_eq_some.mp h
  split at h
  · next b out hb hout =>
    cases h
    -- The handler goes to `updateStation`: the station is associated, and the sender is its access
    -- point.
    have hpost :
        Guarded.Post (fun out => ∃ ni', out.nodes.getLast? = some ni' ∧ ni'.niErp = b.sp.spErp ∧
        shortSlot ni'.niCapinfo = shortSlot b.sp.spCapinfo)
        (recvMgmtBeacon (s.hears a.1) a.2 false) := by
      rw [recvMgmtBeacon, if_neg (by simp [ErpSta.hears, haid]), hb, done_bind]
      refine Guarded.Post.bind (P := fun ni => ni = s.icBss) (post_pure rfl) ?_
      rintro _ rfl
      refine Guarded.Post.bind (P := fun addr2 => addr2 = s.icBss.niBssid) ?_ ?_
      · rw [readN]
        split
        · exact post_pure haddr
        · exact post_fault .read
      · rintro addr2 haddr2
        rw [if_pos ⟨rfl, haid, .inr haddr2⟩]
        exact updateStation_erp _
    obtain ⟨ni', hlast, herp, hslot⟩ := hpost out hout
    refine ⟨b, hb, rfl, ?_⟩
    rw [getLastD_eq_getLast?, hlast]
    exact ⟨herp, hslot⟩
  · cases h

/-- The flags are those of the node. -/
def ErpSta.Tracks (s : ErpSta) : Prop :=
  s.icFlags.useprot = useProtection s.icBss.niErp ∧ s.icFlags.shslot = shortSlot s.icBss.niCapinfo

theorem ErpSta.Tracks.beacon (h : s.Tracks) (sp : ScanParams) :
    (beaconErp s.icBss sp s.icFlags).useprot = useProtection s.icBss.niErp ∧
      (beaconErp s.icBss sp s.icFlags).shslot = shortSlot s.icBss.niCapinfo := by
  rw [beaconErp]
  split <;> split
  · exact ⟨rfl, rfl⟩
  · exact ⟨h.1, rfl⟩
  · exact ⟨rfl, h.2⟩
  · exact h

/-- The flags are set as the beacon says. -/
def Heeds (s : ErpSta) (a : MgmtIc × List UInt8) : Prop :=
  ∀ b s', parseBeacon (s.hears a.1) a.2 = .done b → erpStaStep s a = some s' →
    s'.icFlags.useprot = useProtection b.sp.spErp ∧ s'.icFlags.shslot = shortSlot b.sp.spCapinfo

/-- The beacon says what the node holds already. -/
def Repeats (s : ErpSta) (a : MgmtIc × List UInt8) : Prop :=
  ∀ b, parseBeacon (s.hears a.1) a.2 = .done b → (erpStaStep s a).isSome = true →
    useProtection b.sp.spErp = useProtection s.icBss.niErp ∧
      shortSlot b.sp.spCapinfo = shortSlot s.icBss.niCapinfo

theorem heeds_iff_repeats (h : s.Tracks) : Heeds s a ↔ Repeats s a := by
  constructor
  · intro hh b hb hsome
    obtain ⟨s', hs⟩ := isSome_iff_exists.mp hsome
    obtain ⟨hu, hsh⟩ := hh b s' hb hs
    obtain ⟨b', hb', hflags, -⟩ := erpStaStep_some hs
    rw [hflags] at hu hsh
    exact ⟨hu ▸ (h.beacon _).1, hsh ▸ (h.beacon _).2⟩
  · intro hr b s' hb hs
    obtain ⟨hu, hsh⟩ := hr b hb (by rw [hs]; rfl)
    obtain ⟨b', hb', hflags, -⟩ := erpStaStep_some hs
    rw [hflags, hu, hsh]
    exact h.beacon _

theorem Heeds.tracks (h : Heeds s a) (hs : erpStaStep s a = some s') : s'.Tracks := by
  obtain ⟨b, hb, -, herp, hslot⟩ := erpStaStep_some hs
  obtain ⟨hu, hsh⟩ := h b s' hb hs
  exact ⟨herp ▸ hu, hslot ▸ hsh⟩

/-- After each beacon of a run the flags are as that beacon says, exactly if no beacon changes the
use of protection or the slot time. -/
theorem station_erp_tracks (ni : MgmtNode) (beacons : List (MgmtIc × List UInt8)) :
    runOk erpStaStep Heeds (assocRespErp ni) beacons ↔
      runOk erpStaStep Repeats (assocRespErp ni) beacons :=
  runOk_iff (fun _ _ => heeds_iff_repeats) (fun _ _ _ _ hok hs => hok.tracks hs) beacons ⟨rfl, rfl⟩

end Station

/-- A beacon with an ERP element, and the short slot time. -/
def erpBeacon : List UInt8 :=
  [0x80, 0] ++ replicate 8 0 ++ assocBss.niBssid ++ assocBss.niBssid ++ replicate 10 0 ++
    [100, 0, 1, 4, 0, 0, 1, 1, 2, 42, 1, 2]

/-- The first beacon that asks for protection and the short slot time: neither is set. -/
theorem station_erp_late : ∃ s b, erpStaStep (assocRespErp { assocBss with niAssocid := 1 })
    (assocIc, erpBeacon) = some s ∧
    parseBeacon ((assocRespErp { assocBss with niAssocid := 1 }).hears assocIc) erpBeacon =
    .done b ∧ useProtection b.sp.spErp = true ∧ s.icFlags.useprot = false ∧
    shortSlot b.sp.spCapinfo = true ∧ s.icFlags.shslot = false :=
  ⟨_, _, rfl, rfl, by decide, by decide, by decide, by decide⟩

end Net80211
