import Net80211.Proofs.Urbq

/-!
# The workers do not sleep on work

Both queues of the shim are queues behind a semaphore, and both workers use one
token for one entry. So they miss nothing as long as each entry has its token,
and the only step that can break that is a give the semaphore does not count. On
embox there is no such give. On FreeRTOS the semaphore has room for one token:
two posts before the worker comes round leave one token for two entries, and the
worker goes back to sleep with the second one in the ring.
-/

namespace Net80211.Usb

open Lib List Option

/-! ## Tokens of the two queues -/

variable {α : Type} {r r' : TokenRing Sem α}

/-- On this layer a give is lost unless the semaphore is empty. -/
def GiveCounted (os : Os) (r : TokenRing Sem α) : Prop := os = .freertos → r.sem.count = 0

variable {os : Os}

theorem GiveCounted.counts (hos : r.sem.os = os) (h : GiveCounted os r) : r.Counts :=
  Sem.count_give fun hf => h (hos.symm.trans hf)

/-- What both queues keep: the layer, a token for each entry, and a worker with a
token in its hand is nowhere else. -/
structure RingInv (os : Os) (r : TokenRing Sem α) (loop : Prop) : Prop where
  os : r.sem.os = os
  covered : r.Covered
  held : r.held = true → loop

variable {loop loop' : Prop}

theorem RingInv.post (h : RingInv os r loop) (room : Nat) (a : α) :
    RingInv os (r.post room a) loop :=
  ⟨h.os, TokenRing.covered_post room a h.covered, h.held⟩

theorem RingInv.give (h : RingInv os r loop) (hc : GiveCounted os r) (hg : r.give = some r') :
    RingInv os r' loop := by
  have hcov := TokenRing.covered_give h.covered (hc.counts h.os) hg
  obtain ⟨_, rfl⟩ := TokenRing.give_some hg
  exact ⟨(Sem.os_give r.sem).trans h.os, hcov, h.held⟩

theorem RingInv.take (h : RingInv os r loop) (hl : loop) (ht : r.take = some r') :
    RingInv os r' loop := by
  have hcov := TokenRing.covered_take h.covered ht
  obtain ⟨_, sem, hsem, rfl⟩ := TokenRing.take_some ht
  exact ⟨(Sem.os_take hsem).trans h.os, hcov, fun _ => hl⟩

theorem RingInv.pop {o : Option α} (h : RingInv os r loop)
    (hp : r.pop = some (r', o)) : RingInv os r' loop' := by
  obtain ⟨_, _, _, hr'⟩ := TokenRing.pop_some hp
  refine ⟨?_, TokenRing.covered_pop h.covered hp, ?_⟩
  · rw [hr']
    exact h.os
  · rw [hr']
    exact fun hf => absurd hf (by simp)

/-- A worker that is past the semaphore holds no token, so it may go anywhere. -/
theorem RingInv.busy (h : RingInv os r loop) (hl : ¬ loop) : RingInv os r loop' :=
  ⟨h.os, h.covered, fun hheld => absurd (h.held hheld) hl⟩

/-! ## The URB queue -/

section Urbq

variable {π χ : Type} [DecidableEq χ] {q q' : Urbq π χ}

def UrbRing (os : Os) (q : Urbq π χ) : Prop := RingInv os q.urbs (q.worker = .loop)

theorem UrbRing.complete (h : UrbRing os q) (x : χ) : UrbRing os (urbComplete q x) := by
  rw [urbComplete]
  split
  · exact RingInv.post h usbdShimRing x
  · exact h

theorem UrbRing.abort : ∀ (l : List χ) {q : Urbq π χ}, UrbRing os q →
    UrbRing os (l.foldl (fun q x => if q.inFlight x then usbhKillUrb q x else q) q) := by
  intro l
  induction l with
  | nil => intro q h; exact h
  | cons x l ih =>
    intro q h
    rw [foldl_cons]
    refine ih ?_
    split
    · rw [usbhKillUrb]
      split
      · exact h.complete x
      · exact h
    · exact h

variable [DecidableEq π]

theorem urbqStep_ring {op : UrbOp π χ} (h : UrbRing os q)
    (hg : op = .give → GiveCounted os q.urbs) (hs : urbqStep q op = some q') : UrbRing os q' := by
  cases op with
  | transfer x | link x =>
    obtain ⟨-, rfl⟩ := of_guard hs
    exact h
  | submit x accepted =>
    obtain ⟨-, hs⟩ := ite_none_right_eq_some.mp hs
    cases accepted <;>
    · cases hs
      exact h
  | refuse x =>
    obtain ⟨-, rfl⟩ := of_guard hs
    exact RingInv.post h usbdShimRing x
  | complete x =>
    obtain ⟨-, rfl⟩ := of_guard hs
    exact h.complete x
  | abort p =>
    cases hs
    exact UrbRing.abort _ h
  | give =>
    obtain ⟨r, hgive, rfl⟩ := urbqStep_give hs
    exact RingInv.give h (hg rfl) hgive
  | take =>
    obtain ⟨hw, r, htake, rfl⟩ := urbqStep_take hs
    exact RingInv.take h hw htake
  | pop =>
    obtain ⟨r, o, hpop, rfl⟩ := urbqStep_pop hs
    exact RingInv.pop h hpop
  | work | call | ret =>
    rw [urbqStep] at hs
    split at hs
    · next hw =>
      cases hs
      exact RingInv.busy h (by rw [hw]; simp)
    · cases hs
  | unlink =>
    rw [urbqStep] at hs
    split at hs
    · next hw =>
      obtain ⟨-, rfl⟩ := of_guard hs
      exact RingInv.busy h (by rw [hw]; simp)
    · cases hs

/-! ### Work left -/

def UrbWorker.left : UrbWorker χ → Nat
  | .loop => 0
  | .work _ => 4
  | .unlink _ => 3
  | .call _ => 2
  | .callback _ => 1

def urbLoad (q : Urbq π χ) : Nat := 5 * q.urbs.ring.length + q.urbs.weight + q.worker.left

/-- The steps of the worker, and the gives it waits for. -/
def UrbOp.isWorker : UrbOp π χ → Bool
  | .give | .take | .pop | .work | .unlink | .call | .ret => true
  | _ => false

theorem urbqStep_load {op : UrbOp π χ} (hw : op.isWorker = true)
    (hheld : q.urbs.held = true → q.worker = .loop) (hs : urbqStep q op = some q') :
    urbLoad q' < urbLoad q := by
  cases op with
  | transfer x | link x | submit x accepted | refuse x | complete x | abort p =>
    exact absurd hw (by simp [UrbOp.isWorker])
  | give =>
    obtain ⟨r, hgive, rfl⟩ := urbqStep_give hs
    exact Nat.add_lt_add_right (TokenRing.load_give 5 (Sem.count_give_le _) hgive) _
  | take =>
    obtain ⟨_, r, htake, rfl⟩ := urbqStep_take hs
    exact Nat.add_lt_add_right (TokenRing.load_take 5 htake) _
  | pop =>
    obtain ⟨r, o, hpop, rfl⟩ := urbqStep_pop hs
    have hload := TokenRing.load_pop 5 hpop
    have hloop := hheld (TokenRing.pop_some hpop).1
    cases o with
    | none => exact Nat.add_lt_add_right hload _
    | some a =>
      rw [toList_some, length_singleton] at hload
      simp only [urbLoad, hloop, UrbWorker.left, Option.elim]
      omega
  | work | call | ret =>
    rw [urbqStep] at hs
    split at hs
    · next hwk =>
      cases hs
      simp only [urbLoad, hwk, UrbWorker.left]
      omega
    · cases hs
  | unlink =>
    rw [urbqStep] at hs
    split at hs
    · next hwk =>
      obtain ⟨-, rfl⟩ := of_guard hs
      simp only [urbLoad, hwk, UrbWorker.left]
      omega
    · cases hs

/-- A worker that cannot go on has nothing to do. -/
theorem urbq_idle {ph : χ → Phase} (h : UrbRing os q) (hph : Phases q ph)
    (hstuck : ∀ op : UrbOp π χ, op.isWorker = true → (op = .give → GiveCounted os q.urbs) →
      urbqStep q op = none) : q.worker = .loop ∧ q.urbs.ring = [] := by
  have hloop : q.worker = .loop := by
    cases hw : q.worker with
    | loop => rfl
    | work x => exact absurd (hstuck .work rfl (by simp)) (by simp [urbqStep, hw])
    | unlink x =>
      have hmem : x ∈ q.pending (q.pipe x) :=
        count_pos_iff.mp (by rw [unlink_pending hph hw]; exact Nat.one_pos)
      exact absurd (hstuck .unlink rfl (by simp)) (by simp [urbqStep, hw, hmem])
    | call x => exact absurd (hstuck .call rfl (by simp)) (by simp [urbqStep, hw])
    | callback x => exact absurd (hstuck .ret rfl (by simp)) (by simp [urbqStep, hw])
  refine ⟨hloop, TokenRing.eq_nil_of_stuck h.covered ?_ ?_ ?_⟩
  · have hpop := hstuck .pop rfl (by simp)
    rw [urbqStep] at hpop
    split at hpop
    · next hnone => exact hnone
    · cases hpop
    · cases hpop
  · have htake := hstuck .take rfl (by simp)
    rw [urbqStep, hloop] at htake
    dsimp only at htake
    split at htake
    · next hnone => exact hnone
    · cases htake
  · intro hzero
    have hgive := hstuck .give rfl fun _ _ => hzero
    rw [urbqStep] at hgive
    split at hgive
    · next hnone => exact hnone
    · cases hgive

end Urbq

/-! ## The task queue -/

section Taskq

variable {τ : Type} [DecidableEq τ] {q q' : Taskq τ}

def TaskRing (os : Os) (q : Taskq τ) : Prop := RingInv os q.tasks (q.worker = .loop)

theorem taskqStep_ring {op : TaskOp τ} (h : TaskRing os q)
    (hg : op = .give → GiveCounted os q.tasks) (hs : taskqStep q op = some q') :
    TaskRing os q' := by
  cases op with
  | addTask t =>
    cases hs
    rw [usbAddTask]
    split
    · exact h
    · exact RingInv.post h usbdShimRing t
  | give =>
    obtain ⟨r, hgive, rfl⟩ := taskqStep_give hs
    exact RingInv.give h (hg rfl) hgive
  | take =>
    obtain ⟨hw, r, htake, rfl⟩ := taskqStep_take hs
    exact RingInv.take h hw htake
  | pop =>
    obtain ⟨r, o, hpop, rfl⟩ := taskqStep_pop hs
    exact RingInv.pop h hpop
  | ret | reset =>
    rw [taskqStep] at hs
    split at hs
    · next hw =>
      cases hs
      exact RingInv.busy h (by rw [hw]; simp)
    · cases hs

/-! ## Work left -/

def TaskWorker.left : TaskWorker τ → Nat
  | .loop => 0
  | .running _ => 2
  | .returned _ => 1

def taskLoad (q : Taskq τ) : Nat := 3 * q.tasks.ring.length + q.tasks.weight + q.worker.left

/-- The steps of the worker, and the gives it waits for. -/
def TaskOp.isWorker : TaskOp τ → Bool
  | .addTask _ => false
  | _ => true

theorem taskqStep_load {op : TaskOp τ} (hw : op.isWorker = true)
    (hheld : q.tasks.held = true → q.worker = .loop) (hs : taskqStep q op = some q') :
    taskLoad q' < taskLoad q := by
  cases op with
  | addTask t => exact absurd hw (by simp [TaskOp.isWorker])
  | give =>
    obtain ⟨r, hgive, rfl⟩ := taskqStep_give hs
    exact Nat.add_lt_add_right (TokenRing.load_give 3 (Sem.count_give_le _) hgive) _
  | take =>
    obtain ⟨_, r, htake, rfl⟩ := taskqStep_take hs
    exact Nat.add_lt_add_right (TokenRing.load_take 3 htake) _
  | pop =>
    obtain ⟨r, o, hpop, rfl⟩ := taskqStep_pop hs
    have hload := TokenRing.load_pop 3 hpop
    have hloop := hheld (TokenRing.pop_some hpop).1
    cases o with
    | none => exact Nat.add_lt_add_right hload _
    | some a =>
      rw [toList_some, length_singleton] at hload
      simp only [taskLoad, hloop, TaskWorker.left, Option.elim]
      omega
  | ret | reset =>
    rw [taskqStep] at hs
    split at hs
    · next hwk =>
      cases hs
      simp only [taskLoad, hwk, TaskWorker.left]
      omega
    · cases hs

theorem taskq_ring_eq_nil (h : q.tasks.Covered) (hloop : q.worker = .loop)
    (hpop : taskqStep q .pop = none) (htake : taskqStep q .take = none)
    (hgive : q.tasks.sem.count = 0 → taskqStep q .give = none) : q.tasks.ring = [] := by
  refine TokenRing.eq_nil_of_stuck h ?_ ?_ ?_
  · rw [taskqStep] at hpop
    split at hpop
    · next hnone => exact hnone
    · cases hpop
    · cases hpop
  · rw [taskqStep, hloop] at htake
    dsimp only at htake
    split at htake
    · next hnone => exact hnone
    · cases htake
  · intro hzero
    have hgive := hgive hzero
    rw [taskqStep] at hgive
    split at hgive
    · next hnone => exact hnone
    · cases hgive

/-- A worker that cannot go on has nothing to do. -/
theorem taskq_idle (h : TaskRing os q)
    (hstuck : ∀ op : TaskOp τ, op.isWorker = true → (op = .give → GiveCounted os q.tasks) →
      taskqStep q op = none) : q.worker = .loop ∧ q.tasks.ring = [] := by
  have hloop : q.worker = .loop := by
    cases hw : q.worker with
    | loop => rfl
    | running t => exact absurd (hstuck .ret rfl (by simp)) (by simp [taskqStep, hw])
    | returned t => exact absurd (hstuck .reset rfl (by simp)) (by simp [taskqStep, hw])
  exact ⟨hloop, taskq_ring_eq_nil h.covered hloop (hstuck .pop rfl (by simp))
    (hstuck .take rfl (by simp)) fun hzero => hstuck .give rfl fun _ _ => hzero⟩

end Taskq

/-! ## The device -/

/-- The shim of a device that is running: both queues and both workers. -/
structure Usbd (π χ τ : Type) where
  urbq : Urbq π χ
  taskq : Taskq τ

inductive UsbdOp (π χ τ : Type) where
  | urb (op : UrbOp π χ)
  | task (op : TaskOp τ)
  deriving DecidableEq, Repr

variable {π χ τ : Type} [DecidableEq π] [DecidableEq χ] [DecidableEq τ]

def usbdStep (d : Usbd π χ τ) : UsbdOp π χ τ → Option (Usbd π χ τ)
  | .urb op =>
    match urbqStep d.urbq op with
    | none => none
    | some q => some { d with urbq := q }
  | .task op =>
    match taskqStep d.taskq op with
    | none => none
    | some q => some { d with taskq := q }

/-- `wlan_workers_start`. -/
def usbdInit (os : Os) (d : Usbd π χ τ) : Prop :=
  ∃ pipe, d = { urbq := urbqCreate pipe os, taskq := taskqCreate os }

/-- No give is lost: on FreeRTOS, each one finds its semaphore empty. -/
def GivesCounted (os : Os) (d : Usbd π χ τ) : UsbdOp π χ τ → Prop
  | .urb .give => GiveCounted os d.urbq.urbs
  | .task .give => GiveCounted os d.taskq.tasks
  | _ => True

def UsbdOp.isWorker : UsbdOp π χ τ → Bool
  | .urb op => op.isWorker
  | .task op => op.isWorker

structure UsbdInv (os : Os) (d : Usbd π χ τ) : Prop where
  urbs : UrbRing os d.urbq
  tasks : TaskRing os d.taskq
  phases : ∃ ph, Phases d.urbq ph

omit [DecidableEq π] in
theorem urbqCreate_phases (pipe : χ → π) (os : Os) : Phases (urbqCreate pipe os) fun _ => .idle :=
  fun _ => ⟨rfl, rfl, rfl, rfl, rfl, fun h => absurd h (show ¬ false = true by decide), rfl⟩

omit [DecidableEq π] [DecidableEq χ] in
theorem urbqCreate_ring (pipe : χ → π) (os : Os) : UrbRing os (urbqCreate pipe os) :=
  ⟨by cases os <;> rfl, Nat.zero_le _, fun h => absurd h (by simp [urbqCreate])⟩

variable {d d' : Usbd π χ τ} {op : UsbdOp π χ τ}

omit [DecidableEq π] [DecidableEq τ] in
theorem usbdInv_init (h : usbdInit os d) : UsbdInv os d := by
  obtain ⟨pipe, rfl⟩ := h
  exact ⟨urbqCreate_ring pipe os,
    ⟨by cases os <;> rfl, Nat.zero_le _, fun h => absurd h (by simp [taskqCreate])⟩,
    _, urbqCreate_phases pipe os⟩

theorem usbdStep_inv (h : UsbdInv os d) (hok : GivesCounted os d op)
    (hs : usbdStep d op = some d') : UsbdInv os d' := by
  obtain ⟨ph, hph⟩ := h.phases
  cases op with
  | urb op =>
    rw [usbdStep] at hs
    split at hs
    · cases hs
    · next hstep =>
      cases hs
      obtain ⟨ph', hph', _⟩ := urbqStep_phases hph h.urbs.held hstep
      refine ⟨urbqStep_ring h.urbs ?_ hstep, h.tasks, ph', hph'⟩
      rintro rfl
      exact hok
  | task op =>
    rw [usbdStep] at hs
    split at hs
    · cases hs
    · next hstep =>
      cases hs
      refine ⟨h.urbs, taskqStep_ring h.tasks ?_ hstep, ph, hph⟩
      rintro rfl
      exact hok

def usbdLoad (d : Usbd π χ τ) : Nat := urbLoad d.urbq + taskLoad d.taskq

theorem usbdStep_load (h : UsbdInv os d) (hw : op.isWorker = true)
    (hs : usbdStep d op = some d') : usbdLoad d' < usbdLoad d := by
  cases op with
  | urb op =>
    rw [usbdStep] at hs
    split at hs
    · cases hs
    · next hstep =>
      cases hs
      exact Nat.add_lt_add_right (urbqStep_load hw h.urbs.held hstep) _
  | task op =>
    rw [usbdStep] at hs
    split at hs
    · cases hs
    · next hstep =>
      cases hs
      exact Nat.add_lt_add_left (taskqStep_load hw h.tasks.held hstep) _

/-- Where neither worker can go on, both rings are empty. -/
theorem usbd_stuck (h : UsbdInv os d)
    (hstuck : Stuck usbdStep (GivesCounted os) (fun op => op.isWorker = true) d) :
    d.urbq.urbs.ring = [] ∧ d.taskq.tasks.ring = [] := by
  obtain ⟨ph, hph⟩ := h.phases
  constructor
  · refine (urbq_idle h.urbs hph fun op hw hg => ?_).2
    have hok : GivesCounted os d (.urb op) := by
      cases op <;> first | exact trivial | exact hg rfl
    have := hstuck (.urb op) hw hok
    rw [usbdStep] at this
    split at this
    · next hnone => exact hnone
    · cases this
  · refine (taskq_idle h.tasks fun op hw hg => ?_).2
    have hok : GivesCounted os d (.task op) := by
      cases op <;> first | exact trivial | exact hg rfl
    have := hstuck (.task op) hw hok
    rw [usbdStep] at this
    split at this
    · next hnone => exact hnone
    · cases this

omit [DecidableEq π] [DecidableEq χ] [DecidableEq τ] in
theorem givesCounted_embox (d : Usbd π χ τ) (op : UsbdOp π χ τ) : GivesCounted .embox d op := by
  have hcount : ∀ {α : Type} (r : TokenRing Sem α), GiveCounted .embox r := fun r hf =>
    absurd hf (by decide)
  cases op with
  | urb op | task op => cases op <;> first | exact trivial | exact hcount _

/-- A worker that sleeps has an empty ring before it once the producers have
given their tokens, and the two workers, left alone, come to an end with both
rings empty. On embox every run meets the condition. -/
theorem usb_workers_never_sleep_on_work (os : Os) (d : Usbd π χ τ)
    (h : Reach (usbdInit os) usbdStep (GivesCounted os) d) :
    (d.urbq.Blocked → d.urbq.urbs.givers = 0 → d.urbq.urbs.ring = []) ∧
    (d.taskq.Blocked → d.taskq.tasks.givers = 0 → d.taskq.tasks.ring = []) ∧
    (∀ ops d', (∀ op ∈ ops, op.isWorker = true) → runOk usbdStep (GivesCounted os) d ops →
      runSteps usbdStep d ops = some d' → ops.length ≤ usbdLoad d ∧
        (Stuck usbdStep (GivesCounted os) (fun op => op.isWorker = true) d' →
          d'.urbq.urbs.ring = [] ∧ d'.taskq.tasks.ring = [])) ∧
    (∃ ops d', (∀ op ∈ ops, op.isWorker = true) ∧ runOk usbdStep (GivesCounted os) d ops ∧
      runSteps usbdStep d ops = some d' ∧ d'.urbq.urbs.ring = [] ∧ d'.taskq.tasks.ring = []) ∧
    (os = .embox → ∀ (d : Usbd π χ τ) (op : UsbdOp π χ τ), GivesCounted os d op) := by
  have hinv : UsbdInv os d := h.invariant (fun _ => usbdInv_init) fun _ _ _ => usbdStep_inv
  have hdown : ∀ (d : Usbd π χ τ) (op : UsbdOp π χ τ) (d' : Usbd π χ τ), UsbdInv os d →
      op.isWorker = true → GivesCounted os d op → usbdStep d op = some d' →
      UsbdInv os d' ∧ usbdLoad d' < usbdLoad d := fun d op d' hi hw hok hs =>
    ⟨usbdStep_inv hi hok hs, usbdStep_load hi hw hs⟩
  refine ⟨?_, ?_, ?_, ?_, ?_⟩
  · intro hb hg
    exact TokenRing.ring_eq_nil hinv.urbs.covered hb.2.2 hg hb.2.1
  · intro hb hg
    exact TokenRing.ring_eq_nil hinv.tasks.covered hb.2.2 hg hb.2.1
  · exact (progress hdown (fun _ => usbd_stuck) d hinv).1
  · exact (progress hdown (fun _ => usbd_stuck) d hinv).2
  · rintro rfl d op
    exact givesCounted_embox d op

/-! ### Two runs -/

/-- A device with two transfers on one pipe and one task. -/
def usbdSample (os : Os) : Usbd Unit Bool Unit :=
  { urbq := urbqCreate (fun _ => ()) os, taskq := taskqCreate os }

/-- One transfer up to its completion, and the token of it. -/
def usbdSamplePost (x : Bool) : List (UsbdOp Unit Bool Unit) :=
  [.urb (.transfer x), .urb (.link x), .urb (.submit x true), .urb (.complete x), .urb .give]

/-- The worker's way around its loop. -/
def usbdSampleWork : List (UsbdOp Unit Bool Unit) :=
  [.urb .take, .urb .pop, .urb .work, .urb .unlink, .urb .call, .urb .ret]

/-- FreeRTOS: two completions before the worker comes round. It runs one callback
and sleeps with the other transfer in the ring. -/
theorem urb_worker_sleeps_on_work :
    ∃ d : Usbd Unit Bool Unit, Reach (usbdInit .freertos) usbdStep Any d ∧ d.urbq.Blocked ∧
      d.urbq.urbs.givers = 0 ∧ d.urbq.urbs.ring = [true] := by
  obtain ⟨d, hreach, ⟨hw, hh, ht⟩, hg, hr⟩ :
      ∃ d : Usbd Unit Bool Unit, Reach (usbdInit .freertos) usbdStep Any d ∧
        (d.urbq.worker = .loop ∧ d.urbq.urbs.held = false ∧ d.urbq.urbs.sem.take = none) ∧
        d.urbq.urbs.givers = 0 ∧ d.urbq.urbs.ring = [true] :=
    Reach.of_run (usbdSamplePost false ++ usbdSamplePost true ++ usbdSampleWork)
      (show usbdInit .freertos (usbdSample .freertos) from ⟨_, rfl⟩) (runOk_any _ _) (by decide)
  exact ⟨d, hreach, ⟨hw, hh, ht⟩, hg, hr⟩

theorem usb_workers_never_sleep_on_work_sample :
    ∃ d : Usbd Unit Bool Unit, Reach (usbdInit .embox) usbdStep (GivesCounted .embox) d ∧
      d.urbq.urbs.ring = [true] ∧ ¬ d.urbq.Blocked := by
  obtain ⟨d, hreach, hg, hr⟩ :
      ∃ d : Usbd Unit Bool Unit, Reach (usbdInit .embox) usbdStep (GivesCounted .embox) d ∧
        d.urbq.urbs.givers = 0 ∧ d.urbq.urbs.ring = [true] :=
    Reach.of_run (usbdSamplePost false ++ usbdSamplePost true ++ usbdSampleWork)
      (show usbdInit .embox (usbdSample .embox) from ⟨_, rfl⟩)
      (runOk_of_forall givesCounted_embox _ _) (by decide)
  refine ⟨d, hreach, hr, fun hb => ?_⟩
  have := (usb_workers_never_sleep_on_work .embox d hreach).1 hb hg
  rw [hr] at this
  cases this

end Net80211.Usb
