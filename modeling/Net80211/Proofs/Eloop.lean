import Net80211.Lib.Arrival
import Net80211.Lib.Run
import Net80211.Wpa.Eloop

/-!
# The timeouts of the event loop

The list of timeouts is sorted by expiry, and by registration where that is equal.
Handlers register and cancel while the loop runs through the list, but the loop holds no
place in it: it takes the head, off the list, before it calls the handler. So every
function and every step of the loop does one of three things to the list (`inv_register`,
`inv_cut` and `inv_run`), and `EloopInv` is what they keep.

An entry that is due has only entries in front of it that are due as well, and nothing
that is registered later gets there: `Waits` counts the steps of the loop that are left
until its handler runs.
-/

namespace Net80211.Wpa

open Lib List

/-! ## Time -/

theorem carry_us (n : Nat) : ∀ t : OsTime, (carry n t).us = t.us := by
  induction n with
  | zero => exact fun _ => rfl
  | succ n ih =>
    intro t
    rw [carry]
    split
    · rw [ih, OsTime.us, OsTime.us]
      dsimp only
      omega
    · rfl

/-- There are turns enough when a turn is left for every million. -/
theorem carry_normal (n : Nat) :
    ∀ t : OsTime, 0 ≤ t.usec → t.usec < (n + 1) * 1000000 → (carry n t).Normal := by
  induction n with
  | zero =>
    intro t h0 h1
    exact ⟨h0, by rw [carry]; omega⟩
  | succ n ih =>
    intro t h0 h1
    rw [carry]
    split
    case isTrue h =>
      push_cast at h1
      exact ih _ (by simp only []; omega) (by simp only []; omega)
    case isFalse h => exact ⟨h0, by omega⟩

theorem expiry_us (now : OsTime) (secs usecs : UInt32) :
    (expiry now secs usecs).us = now.us + (secs.toNat * 1000000 + usecs.toNat) := by
  rw [expiry, carry_us, OsTime.us, OsTime.us]
  dsimp only
  omega

variable {now : OsTime}

theorem expiry_normal (h : now.Normal) (secs usecs : UInt32) :
    (expiry now secs usecs).Normal := by
  obtain ⟨h0, h1⟩ := h
  refine carry_normal _ _ (by simp only []; omega) ?_
  dsimp only
  omega

theorem expiry_fits (h : now.IsClock) (secs usecs : UInt32) :
    0 ≤ (expiry now secs usecs).sec ∧ (expiry now secs usecs).sec < 2 ^ 63 := by
  obtain ⟨hnormal, h0, h1⟩ := h
  obtain ⟨hu0, hu1⟩ := expiry_normal hnormal secs usecs
  have hus := expiry_us now secs usecs
  have hsecs := secs.toNat_lt
  have husecs := usecs.toNat_lt
  rw [OsTime.us] at hus
  omega

variable {η : Type}

/-! ## The invariant -/

/-- The order of the list. -/
def timerOrder (t t' : Timeout η) : Prop := Earlier (fun t => t.time.us) (fun t => t.id) t t'

/-- What holds between any two steps. -/
structure EloopInv (s : Eloop η) : Prop where
  clock : s.now.IsClock
  expiry : ∀ r ∈ s.registered, r.clock.IsClock ∧ r.entry.time = expiry r.clock r.secs r.usecs
  number : s.registered.map (fun r => r.entry.id) = range s.registered.length
  sorted : s.timeout.Pairwise timerOrder
  kept : (s.registered.map fun r => r.entry).Perm
    (s.timeout ++ (s.ran.map fun r => r.entry) ++ s.cancelled)
  onTime : ∀ r ∈ s.ran, r.entry.time.us ≤ r.clock.us ∧ ∀ t ∈ r.rest, r.entry.time.us ≤ t.time.us
  sleep : ∀ ms, s.loopAt = .sleep ms → 1 ≤ ms ∧ ms ≤ 20

variable {s : Eloop η} {t : Timeout η}

theorem EloopInv.mem_registered (h : EloopInv s) (ht : t ∈ s.timeout) :
    ∃ r ∈ s.registered, r.entry = t :=
  mem_map.mp (h.kept.mem_iff.mpr (by simp [ht]))

theorem EloopInv.normal (h : EloopInv s) (ht : t ∈ s.timeout) : t.time.Normal := by
  obtain ⟨r, hr, rfl⟩ := h.mem_registered ht
  obtain ⟨hclock, htime⟩ := h.expiry r hr
  exact htime ▸ expiry_normal hclock.1 r.secs r.usecs

theorem EloopInv.id_lt (h : EloopInv s) (ht : t ∈ s.timeout) : t.id < s.registered.length := by
  obtain ⟨r, hr, rfl⟩ := h.mem_registered ht
  have hid : r.entry.id ∈ range s.registered.length :=
    h.number ▸ mem_map_of_mem (f := fun r => r.entry.id) hr
  exact mem_range.mp hid

theorem EloopInv.nodup (h : EloopInv s) :
    (s.timeout ++ (s.ran.map fun r => r.entry) ++ s.cancelled).Nodup := by
  refine h.kept.nodup_iff.mp (List.Nodup.of_map (fun t => t.id) ?_)
  rw [map_map]
  exact h.number ▸ nodup_range

/-! ## What the functions do -/

theorem unlinkAll_eq (p : Timeout η → Bool) (l : List (Timeout η)) :
    unlinkAll p l = (l.filter (fun t => !p t), l.filter p) := by
  induction l with
  | nil => rfl
  | cons t l ih => cases hp : p t <;> simp [unlinkAll, ih, hp]

/-- A clock that has gone on and the flag change nothing. -/
theorem inv_tick (h : EloopInv s) (hclock : now.IsClock) :
    EloopInv { s with now := now } :=
  ⟨hclock, h.expiry, h.number, h.sorted, h.kept, h.onTime, h.sleep⟩

theorem inv_terminate (h : EloopInv s) : EloopInv { s with terminate := true } :=
  ⟨h.clock, h.expiry, h.number, h.sorted, h.kept, h.onTime, h.sleep⟩

theorem inv_register [OsTimeHelpers] (h : EloopInv s) (secs usecs : UInt32) (handler : η)
    (eloopData userData : UInt64) (mem : Bool) :
    EloopInv (registerTimeout s secs usecs handler eloopData userData mem).1 := by
  rw [registerTimeout]
  split
  case isFalse => exact h
  case isTrue =>
    have hnormal := expiry_normal h.clock.1 secs usecs
    constructor
    case clock => exact h.clock
    case sleep => exact h.sleep
    case onTime => exact h.onTime
    case expiry =>
      intro r hr
      rcases mem_append.mp hr with hr | hr
      · exact h.expiry r hr
      · rw [mem_singleton.mp hr]
        exact ⟨h.clock, rfl⟩
    case number => simp [h.number, range_succ]
    case sorted =>
      exact pairwise_orderedInsert (fun t ht => before_iff hnormal (h.normal ht)) h.sorted
        fun t ht => h.id_lt ht
    case kept =>
      simp only [map_append, map_cons, map_nil, append_assoc]
      refine (perm_append_singleton _ _).trans ?_
      refine ((h.kept.cons _).trans ?_).trans ((perm_orderedInsert _ _ _).symm.append_right _)
      rw [cons_append, append_assoc]

/-- Some entries are taken off the list and freed. -/
structure Cut (s s' : Eloop η) : Prop where
  freed : ∃ freed, s'.cancelled = s.cancelled ++ freed ∧ s.timeout.Perm (s'.timeout ++ freed)
  sublist : s'.timeout.Sublist s.timeout
  terminate : s'.terminate = s.terminate
  loopAt : s'.loopAt = s.loopAt
  now : s'.now = s.now
  registered : s'.registered = s.registered
  ran : s'.ran = s.ran

variable {s' : Eloop η}

theorem inv_cut (h : EloopInv s) (hc : Cut s s') : EloopInv s' := by
  obtain ⟨freed, hcancelled, hperm⟩ := hc.freed
  constructor
  case clock => exact hc.now ▸ h.clock
  case expiry => exact hc.registered ▸ h.expiry
  case number => exact hc.registered ▸ h.number
  case sorted => exact h.sorted.sublist hc.sublist
  case onTime => exact hc.ran ▸ h.onTime
  case sleep => exact hc.loopAt ▸ h.sleep
  case kept =>
    rw [hc.registered, hc.ran, hcancelled]
    refine h.kept.trans (((hperm.append_right _).append_right _).trans ?_)
    simp only [append_assoc]
    refine List.Perm.append_left _ ?_
    rw [← append_assoc, ← append_assoc]
    exact (perm_append_comm.append_right _).trans
      (by rw [append_assoc, append_assoc]; exact perm_append_comm.append_left _)

theorem cut_refl (s : Eloop η) : Cut s s :=
  ⟨⟨[], by simp, by simp⟩, List.Sublist.refl _, rfl, rfl, rfl, rfl, rfl⟩

theorem waitSlice_le [OsTimeHelpers] (s : Eloop η) : 1 ≤ waitSlice s ∧ waitSlice s ≤ 20 := by
  have hclamp : ∀ ms : UInt32, 1 ≤ (if ms == 0 || ms > 20 then 20 else ms) ∧
      (if ms == 0 || ms > 20 then 20 else ms) ≤ 20 := by
    intro ms
    split
    case isTrue => exact ⟨by decide, by decide⟩
    case isFalse h =>
      simp only [Bool.or_eq_true, beq_iff_eq, decide_eq_true_eq, not_or] at h
      refine ⟨?_, UInt32.not_lt.mp h.2⟩
      have : ms.toNat ≠ 0 := fun h0 => h.1 (UInt32.toNat_inj.mp h0)
      exact UInt32.le_iff_toNat_le.mpr (by show 1 ≤ _; omega)
  exact hclamp _

variable [DecidableEq η]

theorem cut_cancel (s : Eloop η) (handler : η) (eloopData userData : UInt64) :
    Cut s (cancelTimeout s handler eloopData userData).1 := by
  rw [cancelTimeout, unlinkAll_eq]
  refine ⟨⟨_, rfl, ?_⟩, filter_sublist, rfl, rfl, rfl, rfl, rfl⟩
  exact (perm_append_comm.trans (filter_append_perm _ _)).symm

theorem cut_cancelOne [OsTimeHelpers] (s : Eloop η) (handler : η) (eloopData userData : UInt64) :
    Cut s (cancelTimeoutOne s handler eloopData userData).1 := by
  rw [cancelTimeoutOne]
  split
  case h_1 => exact cut_refl s
  case h_2 t ht =>
    refine ⟨⟨[t], rfl, ?_⟩, eraseP_sublist, rfl, rfl, rfl, rfl, rfl⟩
    obtain ⟨hp, l1, l2, hl, hnot⟩ := find?_eq_some_iff_append.mp ht
    simp only [hl]
    rw [eraseP_append_right _ fun x hx => by simpa using hnot x hx, eraseP_cons_of_pos hp]
    exact perm_middle.trans (perm_append_singleton _ _).symm

/-- A call of one of the functions: it frees entries, and may register one. -/
inductive EloopCall [OsTimeHelpers] (s : Eloop η) : Eloop η → Prop where
  | cut {s' : Eloop η} (h : Cut s s') : EloopCall s s'
  | register {s' : Eloop η} (h : Cut s s') (secs usecs : UInt32) (handler : η)
      (eloopData userData : UInt64) (mem : Bool) :
      EloopCall s (registerTimeout s' secs usecs handler eloopData userData mem).1

theorem call_reschedule [OsTimeHelpers] (s : Eloop η) (secs usecs : UInt32) (handler : η)
    (eloopData userData : UInt64) (onlyShorten mem : Bool) :
    EloopCall s (rescheduleTimeout s secs usecs handler eloopData userData onlyShorten mem).1 := by
  rw [rescheduleTimeout]
  split
  case h_1 => exact .cut (cut_refl s)
  case h_2 =>
    dsimp only
    generalize (if onlyShorten = true then _ else _) = go
    cases go with
    | true => exact .register (cut_cancel s handler eloopData userData) _ _ _ _ _ _
    | false => exact .cut (cut_refl s)

/-- What a step can be. -/
inductive EloopMove [OsTimeHelpers] (s : Eloop η) : EloopOp η → Eloop η → Prop where
  | tick {now : OsTime} (hclock : now.IsClock) (hle : s.now.us ≤ now.us) :
      EloopMove s (.tick now) { s with now := now }
  | call {op : EloopOp η} {s' : Eloop η} (hop : op.isRun = false) (h : EloopCall s s') :
    EloopMove s op s'
  | terminate : EloopMove s .terminate { s with terminate := true }
  | run {s' : Eloop η} (h : eloopRun s = some s') : EloopMove s .run s'

variable {op : EloopOp η} {loopAt : EloopAt}

theorem eloopStep_move [OsTimeHelpers] (h : eloopStep s op = some s') : EloopMove s op s' := by
  cases op with
  | tick now =>
    rw [eloopStep] at h
    split at h
    case isTrue hok => cases h; exact .tick hok.1 hok.2
    case isFalse => cases h
  | register => cases h; exact .call rfl (.register (cut_refl s) _ _ _ _ _ _)
  | cancel => cases h; exact .call rfl (.cut (cut_cancel s _ _ _))
  | cancelOne => cases h; exact .call rfl (.cut (cut_cancelOne s _ _ _))
  | deplete | replenish => cases h; exact .call rfl (call_reschedule s _ _ _ _ _ _ _)
  | terminate => cases h; exact .terminate
  | run => exact .run h

/-! ## Every run keeps the invariant -/

omit [DecidableEq η] in
theorem inv_at (h : EloopInv s)
    (hsleep : ∀ ms, loopAt = .sleep ms → 1 ≤ ms ∧ ms ≤ 20) : EloopInv { s with loopAt := loopAt } :=
  ⟨h.clock, h.expiry, h.number, h.sorted, h.kept, h.onTime, hsleep⟩

omit [DecidableEq η] in
/-- The head of the list is taken off and its handler called. -/
theorem inv_pop [OsTimeHelpers] (h : EloopInv s) {ts : List (Timeout η)} {budget : Nat}
    (hlist : s.timeout = t :: ts) (hdue : s.now.before t.time = false) :
    EloopInv { s with
      timeout := ts, loopAt := .handler budget, ran := s.ran ++ [⟨t, s.now, ts⟩] } := by
  have hsorted := pairwise_cons.mp (hlist ▸ h.sorted)
  constructor
  case clock => exact h.clock
  case expiry => exact h.expiry
  case number => exact h.number
  case sorted => exact hsorted.2
  case sleep => intro ms hms; cases hms
  case kept =>
    refine h.kept.trans ?_
    simp only [hlist, map_append, map_cons, map_nil, append_assoc, cons_append, nil_append]
    rw [← append_assoc, ← append_assoc]
    exact perm_middle.symm
  case onTime =>
    intro r hr
    rcases mem_append.mp hr with hr | hr
    · exact h.onTime r hr
    · rw [mem_singleton.mp hr]
      have hnormal : t.time.Normal := h.normal (by rw [hlist]; exact mem_cons_self)
      refine ⟨?_, fun t' ht' => (hsorted.1 t' ht').key_le⟩
      rw [← Bool.not_eq_true, before_iff h.clock.1 hnormal] at hdue
      exact not_lt.mp hdue

omit [DecidableEq η] in
theorem inv_run [OsTimeHelpers] (h : EloopInv s) (hrun : eloopRun s = some s') : EloopInv s' := by
  rw [eloopRun] at hrun
  split at hrun
  case h_1 =>
    cases hrun
    refine inv_at h ?_
    intro ms hms
    split at hms
    · cases hms
    · cases hms; exact waitSlice_le s
  case h_2 => cases hrun; exact inv_at h (by simp)
  case h_3 =>
    split at hrun
    case h_1 => cases hrun; exact inv_at h (by simp)
    case h_2 t ts hlist =>
      split at hrun
      case isTrue hdue =>
        cases hrun
        exact inv_pop h hlist (by simpa using (Bool.and_eq_true_iff.mp hdue).2)
      case isFalse => cases hrun; exact inv_at h (by simp)
  case h_4 => cases hrun; exact inv_at h (by simp)
  case h_5 => cases hrun; exact inv_at h (by simp)
  case h_6 => cases hrun

theorem inv_step [OsTimeHelpers] (h : EloopInv s) (hstep : eloopStep s op = some s') :
    EloopInv s' := by
  cases eloopStep_move hstep with
  | tick hclock => exact inv_tick h hclock
  | call _ hcall =>
    cases hcall with
    | cut hcut => exact inv_cut h hcut
    | register hcut => exact inv_register (inv_cut h hcut) _ _ _ _ _ _
  | terminate => exact inv_terminate h
  | run hrun => exact inv_run h hrun

theorem reach_inv [OsTimeHelpers] (h : Reach eloopInit eloopStep Any s) : EloopInv s := by
  refine Reach.invariant ?_ (fun s op s' hinv _ hstep => inv_step hinv hstep) h
  rintro s ⟨htimeout, -, hat, hclock, hreg, hcancelled, hran⟩
  exact ⟨hclock, by simp [hreg], by simp [hreg], by simp [htimeout],
    by simp [hreg, htimeout, hran, hcancelled], by simp [hran], by simp [hat]⟩

/-! ## An entry that is due runs -/

/-- The steps of the loop until the next handler, if an entry is due. -/
def turns : EloopAt → Nat
  | .top => 2
  | .sleep _ => 1
  | .drain budget => if budget < drainBudget then 0 else 4
  | .handler budget => if budget + 1 < drainBudget then 1 else 5
  | .events => 3
  | .stopped => 0

/-- The entry is due, and at most `n` steps of the loop come before its handler. -/
structure Waits (s : Eloop η) (e : Timeout η) (n : Nat) : Prop where
  due : e.time.us ≤ s.now.us
  place : ∃ l₁ l₂, s.timeout = l₁ ++ e :: l₂ ∧ 6 * l₁.length + turns s.loopAt ≤ n

/-- The handler ran, or the entry was cancelled. -/
def Done (s : Eloop η) (e : Timeout η) : Prop := (∃ r ∈ s.ran, r.entry = e) ∨ e ∈ s.cancelled

variable {e : Timeout η} {n : Nat}

omit [DecidableEq η] in
/-- A new entry goes behind all that are due. -/
theorem waits_register [OsTimeHelpers] (hinv : EloopInv s) (h : Waits s e n) (secs usecs : UInt32)
    (handler : η) (eloopData userData : UInt64) (mem : Bool) :
    Waits (registerTimeout s secs usecs handler eloopData userData mem).1 e n := by
  obtain ⟨l1, l2, hlist, hle⟩ := h.place
  rw [registerTimeout]
  split
  case isFalse => exact h
  case isTrue =>
    have hsorted : ∀ x ∈ l1 ++ [e], x.time.us ≤ e.time.us := by
      intro x hx
      have := (pairwise_append.mp (hlist ▸ hinv.sorted)).2.2
      rcases mem_append.mp hx with hx | hx
      · exact (this x hx e mem_cons_self).key_le
      · rw [mem_singleton.mp hx]
    have hfront : ∀ x ∈ l1 ++ [e], ¬ (expiry s.now secs usecs).before x.time = true := by
      intro x hx
      have hmem : x ∈ s.timeout := by
        rw [hlist]
        rcases mem_append.mp hx with hx | hx
        · exact mem_append_left _ hx
        · rw [mem_singleton.mp hx]; simp
      rw [before_iff (expiry_normal hinv.clock.1 secs usecs) (hinv.normal hmem), expiry_us]
      have := hsorted x hx
      have := h.due
      omega
    refine ⟨h.due, l1, l2.orderedInsert (fun t t' => t.time.before t'.time = true)
      ⟨expiry s.now secs usecs, eloopData, userData, handler, s.registered.length⟩, ?_, hle⟩
    simp only [hlist]
    rw [append_cons, orderedInsert_append hfront, append_assoc]
    rfl

omit [DecidableEq η] in
/-- Entries are freed: the entry is one of them, or stays where it was or nearer to the
head. -/
theorem waits_cut (hinv : EloopInv s) (hc : Cut s s') (h : Waits s e n) :
    Done s' e ∨ Waits s' e n := by
  obtain ⟨l1, l2, hlist, hle⟩ := h.place
  obtain ⟨freed, hcancelled, hperm⟩ := hc.freed
  have hsub := hc.sublist
  rw [hlist] at hsub
  obtain ⟨k1, k2, hkept, hk1, hk2⟩ := sublist_append_iff.mp hsub
  rcases sublist_cons_iff.mp hk2 with hk2 | ⟨k2', rfl, -⟩
  · have hfreed : e ∈ s'.timeout ++ freed := hperm.mem_iff.mp (by rw [hlist]; simp)
    rcases mem_append.mp hfreed with hmem | hmem
    · -- the entry is in the list once
      have hnodup : (l1 ++ e :: l2).Nodup := by
        have := hinv.nodup
        rw [hlist, append_assoc] at this
        exact (nodup_append.mp this).1
      have hnot := (nodup_cons.mp (nodup_middle.mp hnodup)).1
      rw [hkept] at hmem
      rcases mem_append.mp hmem with hmem | hmem
      · exact absurd (mem_append_left _ (hk1.subset hmem)) hnot
      · exact absurd (mem_append_right _ (hk2.subset hmem)) hnot
    · exact .inl (.inr (by rw [hcancelled]; exact mem_append_right _ hmem))
  · refine .inr ⟨hc.now ▸ h.due, k1, k2', hkept, ?_⟩
    have := hk1.length_le
    rw [hc.loopAt]
    omega

omit [DecidableEq η] in
theorem waits_at (h : Waits s e n) (hturns : turns s.loopAt = turns loopAt + 1) :
    ∃ m, n = m + 1 ∧ Waits { s with loopAt := loopAt } e m := by
  obtain ⟨l1, l2, hlist, hle⟩ := h.place
  obtain ⟨m, rfl⟩ : ∃ m, n = m + 1 := ⟨n - 1, by omega⟩
  exact ⟨m, rfl, h.due, l1, l2, hlist, by simp only []; omega⟩

omit [DecidableEq η] in
/-- A step of the loop brings the entry nearer. -/
theorem waits_run [OsTimeHelpers] (hinv : EloopInv s) (h : Waits s e n)
    (hrun : eloopRun s = some s') (hterm : s'.terminate = false) :
    Done s' e ∨ ∃ m, n = m + 1 ∧ Waits s' e m := by
  rw [eloopRun] at hrun
  split at hrun
  case h_1 hat =>
    cases hrun
    exact .inr (waits_at h (by rw [hat, show s.terminate = false from hterm]; rfl))
  case h_2 hat => cases hrun; exact .inr (waits_at h (by rw [hat]; rfl))
  case h_3 budget hat =>
    obtain ⟨l1, l2, hlist, hle⟩ := h.place
    split at hrun
    case h_1 hnil => rw [hnil] at hlist; simp at hlist
    case h_2 t ts hcons =>
      -- the head is due, as it is not later than the entry
      have hdue : s.now.before t.time = false := by
        have ht : t.time.us ≤ e.time.us := by
          have hmem : e ∈ t :: ts := by rw [← hcons, hlist]; simp
          rcases mem_cons.mp hmem with rfl | hmem
          · exact le_refl _
          · exact ((pairwise_cons.mp (hcons ▸ hinv.sorted)).1 e hmem).key_le
        have hnormal : t.time.Normal := hinv.normal (by rw [hcons]; exact mem_cons_self)
        rw [← Bool.not_eq_true, before_iff hinv.clock.1 hnormal, not_lt]
        exact le_trans ht h.due
      by_cases hb : budget < drainBudget
      · rw [if_pos (by simp [hb, hdue])] at hrun
        cases hrun
        rw [hcons] at hlist
        cases l1 with
        | nil =>
          rw [nil_append] at hlist
          injection hlist with he
          exact .inl (.inl ⟨⟨t, s.now, ts⟩, by simp, he⟩)
        | cons t' l1 =>
          rw [cons_append] at hlist
          injection hlist with _ hts
          rw [length_cons, hat] at hle
          obtain ⟨m, rfl⟩ : ∃ m, n = m + 1 := ⟨n - 1, by omega⟩
          refine .inr ⟨m, rfl, h.due, l1, l2, hts, ?_⟩
          have : turns (.handler budget) ≤ 5 := by rw [turns]; split <;> omega
          dsimp only
          omega
      · rw [if_neg (by simp [hb])] at hrun
        cases hrun
        exact .inr (waits_at h (by rw [hat, turns, turns, if_neg hb]))
  case h_4 budget hat =>
    cases hrun
    refine .inr (waits_at h ?_)
    rw [hat, turns, turns]
    split <;> rfl
  case h_5 hat => cases hrun; exact .inr (waits_at h (by rw [hat]; rfl))
  case h_6 => cases hrun

theorem waits_step [OsTimeHelpers] (hinv : EloopInv s) (h : Waits s e n)
    (hstep : eloopStep s op = some s') : (Done s' e ∨ s'.terminate = true) ∨
    ∃ m, n = m + op.isRun.toNat ∧ Waits s' e m := by
  cases eloopStep_move hstep with
  | tick _ hle => exact .inr ⟨n, rfl, le_trans h.due hle, h.place⟩
  | call hop hcall =>
    rw [hop]
    cases hcall with
    | cut hcut => exact (waits_cut hinv hcut h).imp .inl fun h => ⟨n, rfl, h⟩
    | register hcut =>
      rcases waits_cut hinv hcut h with hdone | h
      · refine .inl (.inl ?_)
        rw [registerTimeout]
        split <;> exact hdone
      · exact .inr ⟨n, rfl, waits_register (inv_cut hinv hcut) h _ _ _ _ _ _⟩
  | terminate => exact .inl (.inr rfl)
  | run hrun =>
    cases hterm : s'.terminate with
    | true => exact .inl (.inr rfl)
    | false => exact (waits_run hinv h hrun hterm).imp_left .inl

omit [DecidableEq η] in
theorem done_cut (hc : Cut s s') (h : Done s e ∨ s.terminate = true) :
    Done s' e ∨ s'.terminate = true := by
  obtain ⟨freed, hcancelled, -⟩ := hc.freed
  refine h.imp (fun hdone => hdone.imp (fun h => hc.ran ▸ h) fun h => ?_) fun h => hc.terminate ▸ h
  rw [hcancelled]
  exact mem_append_left _ h

/-- What is over stays over, and a loop that is told to end is not told otherwise. -/
theorem done_step [OsTimeHelpers] (hstep : eloopStep s op = some s')
    (h : Done s e ∨ s.terminate = true) : Done s' e ∨ s'.terminate = true := by
  cases eloopStep_move hstep with
  | tick => exact h
  | call _ hcall =>
    cases hcall with
    | cut hc => exact done_cut hc h
    | register hc =>
      have hdone := done_cut hc h
      rw [registerTimeout]
      split <;> exact hdone
  | terminate => exact .inr rfl
  | run hrun =>
    rw [eloopRun] at hrun
    split at hrun
    case h_3 =>
      split at hrun
      case h_1 => cases hrun; exact h
      case h_2 =>
        split at hrun
        case isTrue =>
          cases hrun
          refine h.imp_left fun hdone => hdone.imp_left ?_
          rintro ⟨r, hr, he⟩
          exact ⟨r, mem_append_left _ hr, he⟩
        case isFalse => cases hrun; exact h
    case h_6 => cases hrun
    all_goals cases hrun; exact h

/-- Once an entry is due, so many steps of the loop are enough, whatever is registered
and cancelled between them. -/
theorem due_runs [OsTimeHelpers] (hinv : EloopInv s) (he : e ∈ s.timeout)
    (hdue : e.time.us ≤ s.now.us) {ops : List (EloopOp η)}
    (hrun : runSteps eloopStep s ops = some s') (hterm : s'.terminate = false)
    (hcount : 6 * s.timeout.length < ops.countP EloopOp.isRun) : Done s' e := by
  obtain ⟨l1, l2, hlist⟩ := append_of_mem he
  have hwaits : Waits s e (6 * s.timeout.length) := by
    refine ⟨hdue, l1, l2, hlist, ?_⟩
    have : turns s.loopAt ≤ 5 := by
      cases s.loopAt <;> rw [turns] <;> first | omega | (split <;> omega)
    rw [hlist, length_append, length_cons]
    omega
  have hdone : Done s' e ∨ s'.terminate = true := runSteps_countdown EloopOp.isRun
    (fun _ _ _ => inv_step) (fun _ _ _ hstep h => done_step hstep h)
    (fun _ _ _ _ hinv h hstep => waits_step hinv h hstep) ops hinv hwaits hrun hcount
  exact hdone.resolve_right (by rw [hterm]; exact Bool.false_ne_true)

/-! ## The contract -/

/-- What the timeouts are worth to who registers them. -/
structure TimerContract [OsTimeHelpers] (s : Eloop η) : Prop where
  /-- By expiry, and among equal ones as they were registered. -/
  sorted : s.timeout.Pairwise fun t t' =>
    t.time.us < t'.time.us ∨ t.time.us = t'.time.us ∧ t.id < t'.id
  number : s.registered.map (fun r => r.entry.id) = range s.registered.length
  /-- An entry expires its interval after the registration, and no sum overflowed. -/
  expiry : ∀ r ∈ s.registered,
    r.entry.time.us = r.clock.us + (r.secs.toNat * 1000000 + r.usecs.toNat) ∧
    0 ≤ r.entry.time.sec ∧ r.entry.time.sec < 2 ^ 63 ∧ r.entry.time.Normal
  cancel : ∀ handler eloopData userData,
    (cancelTimeout s handler eloopData userData).1.timeout =
        s.timeout.filter (fun t => !t.isFor handler eloopData userData) ∧
      (cancelTimeout s handler eloopData userData).2 =
        s.timeout.countP (fun t => t.isFor handler eloopData userData)
  cancelOne : ∀ handler eloopData userData,
    (cancelTimeoutOne s handler eloopData userData).1.timeout =
        s.timeout.eraseP (fun t => t.isExactly handler eloopData userData) ∧
      (cancelTimeoutOne s handler eloopData userData).2.1 =
        (isTimeoutRegistered s handler eloopData userData).toNat
  /-- A registered entry is in the list, or its handler ran, or it was cancelled: one of
  them, and once. -/
  kept : (s.registered.map fun r => r.entry).Perm
    (s.timeout ++ (s.ran.map fun r => r.entry) ++ s.cancelled)
  once : (s.timeout ++ (s.ran.map fun r => r.entry) ++ s.cancelled).Nodup
  /-- No handler ran early, or before one that was to come first. -/
  onTime : ∀ r ∈ s.ran, r.entry.time.us ≤ r.clock.us ∧ ∀ t ∈ r.rest, r.entry.time.us ≤ t.time.us
  /-- An entry that is due runs within so many steps of the loop, unless cancelled. -/
  runs : ∀ e ∈ s.timeout, e.time.us ≤ s.now.us → ∀ ops s', runSteps eloopStep s ops = some s' →
    s'.terminate = false → 6 * s.timeout.length < ops.countP EloopOp.isRun →
    (∃ r ∈ s'.ran, r.entry = e) ∨ e ∈ s'.cancelled

theorem cancelTimeoutOne_eq [OsTimeHelpers] (s : Eloop η) (handler : η)
    (eloopData userData : UInt64) : (cancelTimeoutOne s handler eloopData userData).1.timeout =
        s.timeout.eraseP (Timeout.isExactly handler eloopData userData) ∧
      (cancelTimeoutOne s handler eloopData userData).2.1 =
        (isTimeoutRegistered s handler eloopData userData).toNat := by
  rw [cancelTimeoutOne, isTimeoutRegistered]
  split
  case h_1 hnone =>
    have hall : ∀ t ∈ s.timeout, ¬ Timeout.isExactly handler eloopData userData t = true := by
      simpa using hnone
    rw [eraseP_of_forall_not hall, any_eq_false.mpr hall]
    exact ⟨rfl, rfl⟩
  case h_2 t hsome =>
    rw [any_eq_true.mpr ⟨t, mem_of_find?_eq_some hsome, find?_some hsome⟩]
    exact ⟨rfl, rfl⟩

/-- The contract holds after every sequence of calls, ticks of the clock and steps of the
loop, handlers that call back included. -/
theorem timer_loop_contract [OsTimeHelpers] {s : Eloop η} (h : Reach eloopInit eloopStep Any s) :
    TimerContract s := by
  have hinv := reach_inv h
  constructor
  case sorted => exact hinv.sorted
  case number => exact hinv.number
  case expiry =>
    intro r hr
    obtain ⟨hclock, htime⟩ := hinv.expiry r hr
    obtain ⟨h0, h1⟩ := expiry_fits hclock r.secs r.usecs
    rw [htime]
    exact ⟨expiry_us r.clock r.secs r.usecs, h0, h1, expiry_normal hclock.1 r.secs r.usecs⟩
  case cancel =>
    intro handler eloopData userData
    rw [cancelTimeout, unlinkAll_eq]
    exact ⟨rfl, countP_eq_length_filter.symm⟩
  case cancelOne => exact fun handler eloopData userData =>
    cancelTimeoutOne_eq s handler eloopData userData
  case kept => exact hinv.kept
  case once => exact hinv.nodup
  case onTime => exact hinv.onTime
  case runs =>
    exact fun e he hdue ops s' hrun hterm hcount => due_runs hinv he hdue hrun hterm hcount

/-- The order by seconds and then by microseconds. -/
instance lexicographic : OsTimeHelpers where
  before a b := a.sec < b.sec || a.sec == b.sec && a.usec < b.usec
  sub a b :=
    let usec := a.usec - b.usec
    if usec < 0 then ⟨a.sec - b.sec - 1, usec + 1000000⟩ else ⟨a.sec - b.sec, usec⟩
  before_iff := by
    rintro a b ⟨ha0, ha1⟩ ⟨hb0, hb1⟩
    simp only [OsTime.us, Bool.or_eq_true, Bool.and_eq_true, decide_eq_true_eq, beq_iff_eq]
    omega

/-- Two entries with the same expiry and one in front of them, which is registered last;
the first of the two is cancelled, and when they are due two handlers run. -/
theorem timer_loop_contract_sample :
    ∃ s : Eloop Nat, Reach eloopInit eloopStep Any s ∧ TimerContract s ∧
      s.ran.map (fun r => r.entry.id) = [2, 1] ∧ s.cancelled.map (fun t => t.id) = [0] ∧
      s.timeout = [] := by
  obtain ⟨s, hreach, hran⟩ : ∃ s : Eloop Nat, Reach eloopInit eloopStep Any s ∧
      s.ran.map (fun r => r.entry.id) = [2, 1] ∧ s.cancelled.map (fun t => t.id) = [0] ∧
      s.timeout = [] :=
    Reach.of_run
      (s := { timeout := [], terminate := false, loopAt := .top, now := ⟨0, 0⟩, registered := []
              cancelled := [], ran := [] })
      [.register 2 0 0 0 0 true, .register 0 2000000 1 0 0 true, .register 1 500000 2 0 0 true,
        .cancel 0 eloopAllCtx 0, .tick ⟨2, 0⟩, .run, .run, .run, .run, .run]
      ⟨rfl, rfl, rfl, by decide, rfl, rfl, rfl⟩ (runOk_any _ _) (by decide +kernel)
  exact ⟨s, hreach, timer_loop_contract hreach, hran⟩

/-! ## The counter -/

theorem counterNow_us (freq ticks : UInt64) :
    (counterNow freq ticks).us = ((ticks.toNat * 1000000 % 2 ^ 64 / freq.toNat : Nat) : Int) := by
  have hus : (ticks * 1000000 / freq).toNat = ticks.toNat * 1000000 % 2 ^ 64 / freq.toNat := by
    rw [UInt64.toNat_div, UInt64.toNat_mul]
    rfl
  rw [OsTime.us, counterNow, ← hus]
  dsimp only
  generalize ticks * 1000000 / freq = us
  rw [UInt64.toNat_div, UInt64.toNat_mod, show (1000000 : UInt64).toNat = 1000000 from rfl]
  omega

theorem counterNow_normal (freq ticks : UInt64) : (counterNow freq ticks).Normal := by
  rw [OsTime.Normal, counterNow]
  dsimp only
  rw [UInt64.toNat_mod, show (1000000 : UInt64).toNat = 1000000 from rfl]
  omega

/-- The time of a reading is right as long as its product does not wrap. -/
theorem counterNow_exact_iff {freq : UInt64} (hf : 0 < freq.toNat) (ticks : UInt64) :
    (counterNow freq ticks).us = ((ticks.toNat * 1000000 / freq.toNat : Nat) : Int) ↔
      ticks.toNat * 1000000 < 2 ^ 64 := by
  rw [counterNow_us]
  constructor
  · intro h
    by_contra hwrap
    have hle : ticks.toNat * 1000000 % 2 ^ 64 + freq.toNat ≤ ticks.toNat * 1000000 := by
      have := freq.toNat_lt
      omega
    have hlt :
        ticks.toNat * 1000000 % 2 ^ 64 / freq.toNat < ticks.toNat * 1000000 / freq.toNat := by
      calc ticks.toNat * 1000000 % 2 ^ 64 / freq.toNat
          < ticks.toNat * 1000000 % 2 ^ 64 / freq.toNat + 1 := Nat.lt_succ_self _
        _ = (ticks.toNat * 1000000 % 2 ^ 64 + freq.toNat) / freq.toNat :=
        (Nat.add_div_right _ hf).symm
        _ ≤ ticks.toNat * 1000000 / freq.toNat := Nat.div_le_div_right hle
    exact absurd (Int.ofNat_inj.mp h) (Nat.ne_of_lt hlt)
  · intro h
    rw [Nat.mod_eq_of_lt h]

/-- For two readings of the counter, in order: the times are in order and are those of
the readings, and a timeout that was registered at the first is due at the second once
its interval is over, if and only if the second has not wrapped in microseconds. -/
theorem counter_clock_iff [OsTimeHelpers] (freq a b : UInt64) (hf : 0 < freq.toNat) (hab : a ≤ b) :
    ((counterNow freq a).us ≤ (counterNow freq b).us ∧
      (counterNow freq a).us = ((a.toNat * 1000000 / freq.toNat : Nat) : Int) ∧
      (counterNow freq b).us = ((b.toNat * 1000000 / freq.toNat : Nat) : Int) ∧
      ∀ secs usecs : UInt32,
        (secs.toNat * 1000000 + usecs.toNat) * freq.toNat ≤ (b.toNat - a.toNat) * 1000000 →
        (counterNow freq b).before (expiry (counterNow freq a) secs usecs) = false) ↔
      b.toNat * 1000000 < 2 ^ 64 := by
  have hle : a.toNat ≤ b.toNat := UInt64.le_iff_toNat_le.mp hab
  constructor
  · rintro ⟨-, -, hb, -⟩
    exact (counterNow_exact_iff hf b).mp hb
  · intro hb
    have ha : a.toNat * 1000000 < 2 ^ 64 := lt_of_le_of_lt (Nat.mul_le_mul_right _ hle) hb
    have hua := (counterNow_exact_iff hf a).mpr ha
    have hub := (counterNow_exact_iff hf b).mpr hb
    refine ⟨?_, hua, hub, ?_⟩
    · rw [hua, hub]
      exact_mod_cast Nat.div_le_div_right (Nat.mul_le_mul_right _ hle)
    · intro secs usecs helapsed
      -- whole intervals come out of the division
      have hdiv : a.toNat * 1000000 / freq.toNat + (secs.toNat * 1000000 + usecs.toNat) ≤
          b.toNat * 1000000 / freq.toNat := by
        rw [← Nat.add_mul_div_right _ _ hf]
        exact Nat.div_le_div_right (by omega)
      rw [← Bool.not_eq_true, before_iff (counterNow_normal freq b)
        (expiry_normal (counterNow_normal freq a) secs usecs), expiry_us, hua, hub, not_lt]
      exact_mod_cast hdiv

theorem counter_clock_iff_sample :
    (counterNow 62500000 62500000).us = 1000000 ∧ (counterNow 62500000 187500000).us = 3000000 ∧
      (counterNow 62500000 187500000).before (expiry (counterNow 62500000 62500000) 2 0) =
      false := by
  obtain ⟨-, ha, hb, hdue⟩ :=
    (counter_clock_iff 62500000 62500000 187500000 (by decide) (by decide)).mpr (by decide)
  exact ⟨ha, hb, hdue 2 0 (by decide)⟩

/-- A counter with 62.5 MHz, after three days and ten hours, and one second later: the
clock has gone back to its start, and a timeout of one second is not due. -/
theorem counter_clock_wraps : (counterNow 62500000 18446744073709).us = 295147905179 ∧
      (counterNow 62500000 (18446744073709 + 62500000)).us = 999999 ∧
      (counterNow 62500000 (18446744073709 + 62500000)).before
        (expiry (counterNow 62500000 18446744073709) 1 0) = true := by
  decide +kernel

end Net80211.Wpa
