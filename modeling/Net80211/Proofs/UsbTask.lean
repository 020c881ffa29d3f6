import Net80211.Proofs.UsbWorkers
import Net80211.Usb.UsbTask

/-!
# What becomes of a queued task

A task's `queue` field is set exactly while the task is in the ring or in the
worker's hands. So no task is in the ring twice, and each time it was queued it
has been started, taken out, or is still there. `usb_rem_task_wait` reads the same
field: when it finds it cleared, the task is nowhere.

Removal breaks something else. It leaves a slot of NULL in the ring, with the
token of the task, and the worker has no test for it. What the worker owes a task,
to get to it and to be alive then, is shown for runs in which no task is taken
out of the ring and no give is lost.
-/

namespace Net80211.Usb

open Lib List Function Option

variable {τ : Type} [DecidableEq τ] {s s' : UsbTasks τ} {t u : τ} {os : Os}

/-! ## Steps -/

/-- What a step does. -/
inductive TaskMove (s : UsbTasks τ) : UsbTaskOp τ → UsbTasks τ → Prop where
  | refuse (t : τ) : TaskMove s (.addTask t) s
  | queue (t : τ) : s.q.queue (some t) = false → s.q.tasks.ring.length < usbdShimRing →
      TaskMove s (.addTask t) (queueTask s t)
  | remTask (t : τ) : TaskMove s (.remTask t) (usbRemTask s t)
  | remTaskWait (t : τ) : TaskMove s (.remTaskWait t)
      { usbRemTask s t with waits := s.waits ++ [{ task := t, pos := .test, again := false }] }
  | sleep (i : Nat) (t : τ) : s.q.queue (some t) = true →
      TaskMove s (.test i)
        { s with waits := s.waits.set i { task := t, pos := .asleep, again := false } }
  | left (i : Nat) (t : τ) : s.q.queue (some t) = false →
      TaskMove s (.test i)
        { s with waits := s.waits.set i { task := t, pos := .left, again := false } }
  | leave (i : Nat) (t : τ) (again : Bool) :
      s.waits[i]? = some { task := t, pos := .left, again := again } →
      TaskMove s (.leave i)
        { s with waits := s.waits.set i { task := t, pos := .returned, again := again } }
  | give (r : TokenRing Sem (Option τ)) (lost : Nat) : s.q.tasks.give = some r →
      s.lost ≤ lost → (lost = 0 → s.q.tasks.sem.os = .freertos → s.q.tasks.sem.count = 0) →
      TaskMove s .give { s with q := { s.q with tasks := r }, lost := lost }
  | take (r : TokenRing Sem (Option τ)) : s.q.worker = .loop → s.q.tasks.take = some r →
      TaskMove s .take { s with q := { s.q with tasks := r } }
  | idle (r : TokenRing Sem (Option τ)) : s.q.worker = .loop → s.q.tasks.pop = some (r, none) →
      TaskMove s .pop { s with q := { s.q with tasks := r } }
  | run (r : TokenRing Sem (Option τ)) (e : Option τ) : s.q.worker = .loop →
      s.q.tasks.pop = some (r, some e) →
      TaskMove s .pop
        { s with q := { s.q with tasks := r, worker := .running e }, ran := started s.ran e }
  | ret (t : τ) : s.q.worker = .running (some t) →
      TaskMove s .ret { s with q := { s.q with worker := .returned (some t) } }
  | reset (e : Option τ) : s.q.worker = .returned e →
      TaskMove s .reset
        { s with
          q := { s.q with queue := update s.q.queue e false, worker := .loop }
          waits := broadcast s.waits }

variable {op : UsbTaskOp τ}

theorem TaskMove.of_step (h : usbTaskStep s op = some s') : TaskMove s op s' := by
  cases op with
  | addTask t =>
    rw [usbTaskStep] at h
    split at h
    · cases h
      exact .refuse t
    · next hno =>
      cases h
      rw [not_or, Bool.not_eq_true, Nat.not_le] at hno
      exact .queue t hno.1 hno.2
  | remTask t =>
    cases h
    exact .remTask t
  | remTaskWait t =>
    cases h
    exact .remTaskWait t
  | test i =>
    rw [usbTaskStep] at h
    split at h
    · next t again hi =>
      cases hq : s.q.queue (some t) with
      | false =>
        simp only [hq, Bool.false_eq_true, if_false] at h
        cases h
        exact .left i t hq
      | true =>
        simp only [hq, if_true] at h
        cases h
        exact .sleep i t hq
    · cases h
  | leave i =>
    rw [usbTaskStep] at h
    split at h
    · next t again hi =>
      cases h
      exact .leave i t again hi
    · cases h
  | give =>
    rw [usbTaskStep] at h
    split at h
    · cases h
    · next q hq =>
      obtain ⟨r, hr, rfl⟩ := taskqStep_give hq
      cases h
      refine .give r _ hr ?_ ?_
      · split <;> omega
      · intro hlost hos
        split at hlost
        · cases hlost
        · next hfull => exact Classical.not_not.mp fun hne => hfull ⟨hos, hne⟩
  | take =>
    rw [usbTaskStep] at h
    split at h
    · cases h
    · next q hq =>
      obtain ⟨hw, r, hr, rfl⟩ := taskqStep_take hq
      cases h
      exact .take r hw hr
  | pop =>
    rw [usbTaskStep] at h
    split at h
    · next r hw hr =>
      cases h
      exact .idle r hw hr
    · next r e hw hr =>
      cases h
      exact .run r e hw hr
    · cases h
  | ret =>
    rw [usbTaskStep] at h
    split at h
    · cases h
    · next hnull =>
      split at h
      · cases h
      · next q hq =>
        cases h
        rw [taskqStep] at hq
        split at hq
        · next e hw =>
          cases hq
          cases e with
          | none => exact absurd hw hnull
          | some t => exact .ret t hw
        · cases hq
  | reset =>
    rw [usbTaskStep] at h
    split at h
    · cases h
    · next q hq =>
      cases h
      rw [taskqStep] at hq
      split at hq
      · next e hw =>
        cases hq
        exact .reset e hw
      · cases hq

/-! ## The slots -/

theorem length_blank (t : τ) (ring : List (Option τ)) : (blank t ring).length = ring.length :=
  length_map ..

theorem count_blank_self (t : τ) : ∀ ring : List (Option τ), (blank t ring).count (some t) = 0 := by
  intro ring
  induction ring with
  | nil => rfl
  | cons e ring ih =>
    rw [blank, map_cons, ← blank, count_cons, ih, Nat.zero_add, if_neg]
    by_cases he : e = some t <;> simp [he]

theorem count_blank_of_ne (hne : u ≠ t) :
    ∀ ring : List (Option τ), (blank t ring).count (some u) = ring.count (some u) := by
  intro ring
  induction ring with
  | nil => rfl
  | cons e ring ih =>
    rw [blank, map_cons, ← blank, count_cons, count_cons, ih]
    split
    · next he =>
      rw [he, if_neg (by simp), if_neg (by simpa using hne.symm)]
    · rfl

/-- How often the worker has a task in its hands. -/
def TaskWorker.hands (t : τ) : TaskWorker (Option τ) → Nat
  | .loop => 0
  | .running e | .returned e => if e = some t then 1 else 0

/-- Neither in the ring nor with the worker. -/
def UsbTasks.Idle (s : UsbTasks τ) (t : τ) : Prop :=
  some t ∉ s.q.tasks.ring ∧ s.q.worker ≠ .running (some t) ∧ s.q.worker ≠ .returned (some t)

/-- A call of `usb_rem_task_wait` that is out of its loop. -/
def RemWait.Over (w : RemWait τ) : Prop := w.pos = .left ∨ w.pos = .returned

/-! ## What every run keeps -/

/-- `queue` is set for the tasks in the ring and with the worker, once for each;
each queueing was started, taken out, or is in the ring; NULL comes from removals;
and a wait that is over has found `queue` cleared. -/
structure TasksInv (s : UsbTasks τ) : Prop where
  flag : ∀ t, s.q.tasks.ring.count (some t) + s.q.worker.hands t = (s.q.queue (some t)).toNat
  account : ∀ t, s.added t = s.ran t + s.removed t + s.q.tasks.ring.count (some t)
  null : (∀ t, s.removed t = 0) → none ∉ s.q.tasks.ring ∧ s.q.worker ≠ .running none
  waits : ∀ w ∈ s.waits, w.Over → w.again = false → s.q.queue (some w.task) = false

omit [DecidableEq τ] in
theorem not_mem_create (w : RemWait τ) (os : Os) : w ∉ (usbTasksCreate os : UsbTasks τ).waits :=
  not_mem_nil

theorem tasksInv_create (os : Os) : TasksInv (usbTasksCreate os : UsbTasks τ) :=
  ⟨fun _ => rfl, fun _ => rfl, fun _ => ⟨not_mem_nil, by simp [usbTasksCreate, taskqCreate]⟩,
    fun w hw => absurd hw (not_mem_create w os)⟩

theorem TasksInv.idle (h : TasksInv s) (hq : s.q.queue (some t) = false) : s.Idle t := by
  have hflag := h.flag t
  rw [hq, Bool.toNat_false, Nat.add_eq_zero_iff] at hflag
  refine ⟨count_eq_zero.mp hflag.1, ?_, ?_⟩ <;>
  · intro hw
    have := hflag.2
    rw [hw, TaskWorker.hands, if_pos rfl] at this
    cases this

theorem TasksInv.queue (h : TasksInv s) (hq : s.q.queue (some t) = false)
    (hroom : s.q.tasks.ring.length < usbdShimRing) : TasksInv (queueTask s t) := by
  have hadd : usbAddTask s.q (some t) = { s.q with
      queue := update s.q.queue (some t) true
      tasks := s.q.tasks.post usbdShimRing (some t) } := by
    rw [usbAddTask, if_neg]
    rw [not_or, hq, Nat.not_le]
    exact ⟨Bool.false_ne_true, hroom⟩
  have hring : (s.q.tasks.post usbdShimRing (some t)).ring = s.q.tasks.ring ++ [some t] :=
    if_pos hroom
  rw [queueTask, hadd]
  refine ⟨?_, ?_, ?_, ?_⟩
  · intro u
    have hflag := h.flag u
    simp only [hring, count_append]
    by_cases hu : u = t
    · subst hu
      rw [hq, Bool.toNat_false] at hflag
      rw [update_self, count_singleton_self, Bool.toNat_true]
      omega
    · rw [update_of_ne (by simpa using hu), count_singleton, if_neg (by simpa using Ne.symm hu)]
      omega
  · intro u
    have hacc := h.account u
    simp only [hring, count_append]
    by_cases hu : u = t
    · subst hu
      rw [update_self, count_singleton_self]
      omega
    · rw [update_of_ne hu, count_singleton, if_neg (by simpa using Ne.symm hu)]
      omega
  · intro hrem
    obtain ⟨hnone, hw⟩ := h.null hrem
    refine ⟨?_, hw⟩
    simp only [hring, mem_append, mem_singleton]
    rintro (hmem | hmem)
    · exact hnone hmem
    · cases hmem
  · intro w hw hover hagain
    obtain ⟨w0, hw0, rfl⟩ := mem_map.mp hw
    split at hagain
    · cases hagain
    · next hne =>
      rw [if_neg hne] at hover ⊢
      exact (update_of_ne (by simpa using hne) _ _).trans (h.waits w0 hw0 hover hagain)

theorem TasksInv.remTask (h : TasksInv s) (t : τ) : TasksInv (usbRemTask s t) := by
  rw [usbRemTask]
  split
  · next hmem =>
    have hone : s.q.tasks.ring.count (some t) + s.q.worker.hands t ≤ 1 := by
      rw [h.flag t]
      exact Bool.toNat_le _
    have hpos := count_pos_iff.mpr hmem
    refine ⟨?_, ?_, ?_, ?_⟩
    · intro u
      by_cases hu : u = t
      · subst hu
        simp only [count_blank_self, update_self, Bool.toNat_false]
        omega
      · simp only [count_blank_of_ne hu]
        rw [update_of_ne (by simpa using hu)]
        exact h.flag u
    · intro u
      have hacc := h.account u
      by_cases hu : u = t
      · subst hu
        simp only [count_blank_self, update_self]
        omega
      · simp only [count_blank_of_ne hu]
        rw [update_of_ne hu]
        exact hacc
    · intro hrem
      have hzero : update s.removed t (s.removed t + 1) t = 0 := hrem t
      rw [update_self] at hzero
      cases hzero
    · intro w hw hover hagain
      by_cases hu : w.task = t
      · simp only [hu, update_self]
      · exact (update_of_ne (by simpa using hu) _ _).trans (h.waits w hw hover hagain)
  · exact h

variable {r : TokenRing Sem (Option τ)} {e : Option τ}

theorem TasksInv.tokens {lost : Nat} (h : TasksInv s) (hring : r.ring = s.q.tasks.ring) :
    TasksInv { s with q := { s.q with tasks := r }, lost := lost } :=
  ⟨fun t => by simp only [hring]; exact h.flag t, fun t => by simp only [hring]; exact h.account t,
    fun hrem => by simp only [hring]; exact h.null hrem, h.waits⟩

theorem TasksInv.wait (h : TasksInv s) {waits : List (RemWait τ)}
    (hw : ∀ w ∈ waits, w.Over → w.again = false → s.q.queue (some w.task) = false) :
    TasksInv { s with waits := waits } :=
  ⟨h.flag, h.account, h.null, hw⟩

theorem TasksInv.run (h : TasksInv s) (hw : s.q.worker = .loop)
    (hp : s.q.tasks.pop = some (r, some e)) :
    TasksInv { s
      with q := { s.q with tasks := r, worker := .running e }, ran := started s.ran e } := by
  obtain ⟨_, hring, _, _⟩ := TokenRing.pop_some hp
  rw [toList_some, singleton_append] at hring
  refine ⟨?_, ?_, ?_, h.waits⟩
  · intro t
    have hflag := h.flag t
    rw [hring, hw, count_cons] at hflag
    simp only [TaskWorker.hands] at hflag ⊢
    by_cases he : e = some t
    · rw [if_pos (by simpa using he)] at hflag
      rw [if_pos he]
      omega
    · rw [if_neg (by simpa using he)] at hflag
      rw [if_neg he]
      omega
  · intro t
    have hacc := h.account t
    rw [hring, count_cons] at hacc
    cases e with
    | none =>
      rw [if_neg (by simp)] at hacc
      exact hacc
    | some u =>
      simp only [started]
      by_cases hu : t = u
      · subst hu
        rw [if_pos (by simp)] at hacc
        rw [update_self]
        omega
      · rw [if_neg (by simpa using Ne.symm hu)] at hacc
        rw [update_of_ne hu]
        exact hacc
  · intro hrem
    obtain ⟨hnone, _⟩ := h.null hrem
    rw [hring, mem_cons, not_or] at hnone
    refine ⟨hnone.2, ?_⟩
    intro hrun
    injection hrun with hrun
    exact hnone.1 hrun.symm

theorem TasksInv.reset (h : TasksInv s) (hw : s.q.worker = .returned e) :
    TasksInv { s with
      q := { s.q with queue := update s.q.queue e false, worker := .loop }
      waits := broadcast s.waits } := by
  refine ⟨?_, h.account, ?_, ?_⟩
  · intro t
    have hflag := h.flag t
    rw [hw, TaskWorker.hands] at hflag
    simp only [TaskWorker.hands]
    by_cases he : e = some t
    · subst he
      rw [if_pos rfl] at hflag
      rw [update_self, Bool.toNat_false]
      have := Bool.toNat_le (s.q.queue (some t))
      omega
    · rw [if_neg he] at hflag
      rw [update_of_ne (Ne.symm he)]
      exact hflag
  · intro hrem
    exact ⟨(h.null hrem).1, fun hloop => by cases hloop⟩
  · intro w hmem hover hagain
    obtain ⟨w0, hw0, rfl⟩ := mem_map.mp hmem
    split at hover
    · -- A sleeper is woken before its test.
      rcases hover with hpos | hpos <;> cases hpos
    · next hne =>
      rw [if_neg hne] at hagain ⊢
      by_cases he : some w0.task = e
      · simp only [he, update_self]
      · exact (update_of_ne he _ _).trans (h.waits w0 hw0 hover hagain)

theorem usbTaskStep_inv (h : TasksInv s) (hs : usbTaskStep s op = some s') : TasksInv s' := by
  have hset : ∀ (i : Nat) (w : RemWait τ),
      (w.Over → w.again = false → s.q.queue (some w.task) = false) →
      TasksInv { s with waits := s.waits.set i w } := by
    intro i w hw
    refine h.wait fun w' hmem => ?_
    rcases mem_or_eq_of_mem_set hmem with hold | rfl
    · exact h.waits w' hold
    · exact hw
  cases TaskMove.of_step hs with
  | refuse t => exact h
  | queue t hq hroom => exact h.queue hq hroom
  | remTask t => exact h.remTask t
  | remTaskWait t =>
    have hrem := h.remTask t
    refine hrem.wait fun w hmem hover hagain => ?_
    rcases mem_append.mp hmem with hold | hnew
    · have hwaits : (usbRemTask s t).waits = s.waits := by
        rw [usbRemTask]
        split <;> rfl
      exact hrem.waits w (hwaits ▸ hold) hover hagain
    · rw [mem_singleton] at hnew
      subst hnew
      rcases hover with hpos | hpos <;> cases hpos
  | sleep i t hq =>
    refine hset i _ fun hover => ?_
    rcases hover with hpos | hpos <;> cases hpos
  | left i t hq => exact hset i _ fun _ _ => hq
  | leave i t again hi =>
    have hleft := h.waits ⟨t, .left, again⟩ (mem_of_getElem? hi) (.inl rfl)
    exact hset i _ fun _ => hleft
  | give r lost hg => exact h.tokens (TokenRing.ring_give hg)
  | take r _ ht => exact h.tokens (TokenRing.ring_take ht)
  | idle r _ hp =>
    obtain ⟨_, hring, _, _⟩ := TokenRing.pop_some hp
    exact h.tokens hring.symm
  | run r e hw hp => exact h.run hw hp
  | ret t hw =>
    refine ⟨fun u => ?_, h.account,
      fun hrem => ⟨(h.null hrem).1, fun hrun => by cases hrun⟩, h.waits⟩
    have hflag := h.flag u
    rw [hw] at hflag
    exact hflag
  | reset e hw => exact h.reset hw

/-! ## Counts only grow -/

structure Later (s s' : UsbTasks τ) : Prop where
  ran : ∀ t, s.ran t ≤ s'.ran t
  removed : ∀ t, s.removed t ≤ s'.removed t
  lost : s.lost ≤ s'.lost

theorem later_remTask (s : UsbTasks τ) (t : τ) : Later s (usbRemTask s t) := by
  rw [usbRemTask]
  split
  · exact ⟨fun _ => le_rfl, le_update_succ s.removed t, le_rfl⟩
  · exact ⟨fun _ => le_rfl, fun _ => le_rfl, le_rfl⟩

theorem usbTaskStep_later (hs : usbTaskStep s op = some s') : Later s s' := by
  cases TaskMove.of_step hs with
  | remTask t => exact later_remTask s t
  | remTaskWait t =>
    exact ⟨(later_remTask s t).ran, (later_remTask s t).removed, (later_remTask s t).lost⟩
  | give r lost _ hlost => exact ⟨fun _ => le_rfl, fun _ => le_rfl, hlost⟩
  | run r e _ _ =>
    refine ⟨fun t => ?_, fun _ => le_rfl, le_rfl⟩
    cases e with
    | none => exact le_rfl
    | some u => exact le_update_succ s.ran u t
  | _ => exact ⟨fun _ => le_rfl, fun _ => le_rfl, le_rfl⟩

theorem later_run (ops : List (UsbTaskOp τ)) (hs : runSteps usbTaskStep s ops = some s') :
    Later s s' := by
  refine runSteps_keeps (P := Later s) (fun s1 op s2 hstep h => ?_) ops
    ⟨fun _ => le_rfl, fun _ => le_rfl, le_rfl⟩ hs
  have hstep := usbTaskStep_later hstep
  exact ⟨fun t => (h.ran t).trans (hstep.ran t), fun t => (h.removed t).trans (hstep.removed t),
    h.lost.trans hstep.lost⟩

theorem count_remTask (s : UsbTasks τ) (t : τ) :
    (usbRemTask s t).q.tasks.ring.count (some t) = 0 := by
  rw [usbRemTask]
  split
  · exact count_blank_self t _
  · next hno => exact count_eq_zero.mpr hno

theorem ran_remTask (s : UsbTasks τ) (t : τ) : (usbRemTask s t).ran = s.ran := by
  rw [usbRemTask]
  split <;> rfl

theorem added_remTask (s : UsbTasks τ) (t : τ) : (usbRemTask s t).added = s.added := by
  rw [usbRemTask]
  split <;> rfl

theorem runSteps_tasksInv (ops : List (UsbTaskOp τ)) (h : TasksInv s)
    (hs : runSteps usbTaskStep s ops = some s') : TasksInv s' :=
  runSteps_keeps (fun _ _ _ hstep hinv => usbTaskStep_inv hinv hstep) ops h hs

theorem TasksInv.removed_silent (h : TasksInv s) (t : τ) (ops : List (UsbTaskOp τ))
    (hs : runSteps usbTaskStep (usbRemTask s t) ops = some s') (hadded : s'.added t = s.added t) :
    s'.ran t = s.ran t := by
  have hlater := later_run ops hs
  have hbefore := (h.remTask t).account t
  have hafter := (runSteps_tasksInv ops (h.remTask t) hs).account t
  have hran := hlater.ran t
  have hremoved := hlater.removed t
  rw [count_remTask, added_remTask, ran_remTask] at hbefore
  rw [ran_remTask] at hran
  omega

/-! ## The worker gets to every task -/

theorem RingInv.blank {loop : Prop} (h : RingInv os r loop) (t : τ) :
    RingInv os { r with ring := blank t r.ring } loop := by
  refine ⟨h.os, ?_, h.held⟩
  have hcov := h.covered
  rw [TokenRing.Covered] at hcov ⊢
  simp only [length_blank]
  exact hcov

theorem ring_remTask (h : TaskRing os s.q) (t : τ) : TaskRing os (usbRemTask s t).q := by
  rw [usbRemTask]
  split
  · exact RingInv.blank h t
  · exact h

theorem usbTaskStep_ring (h : TaskRing os s.q) (hg : op = .give → GiveCounted os s.q.tasks)
    (hs : usbTaskStep s op = some s') : TaskRing os s'.q := by
  cases TaskMove.of_step hs with
  | refuse t | sleep i t _ | left i t _ | leave i t again _ => exact h
  | queue t _ _ =>
    have hadd : taskqStep s.q (.addTask (some t)) = some (usbAddTask s.q (some t)) := rfl
    exact taskqStep_ring h (fun hop => by cases hop) hadd
  | remTask t | remTaskWait t => exact ring_remTask h t
  | give r lost hgive => exact RingInv.give h (hg rfl) hgive
  | take r hw htake => exact RingInv.take h hw htake
  | idle r hw hp | run r e hw hp => exact RingInv.pop h hp
  | ret t hw | reset e hw => exact RingInv.busy h (by rw [hw]; simp)

/-- Where no give was lost, every entry has its token. -/
theorem usbTaskStep_covered (h : s.lost = 0 → TaskRing os s.q) (hs : usbTaskStep s op = some s') :
    s'.lost = 0 → TaskRing os s'.q := by
  intro hlost
  have hzero : s.lost = 0 := Nat.le_zero.mp (hlost ▸ (usbTaskStep_later hs).lost)
  refine usbTaskStep_ring (h hzero) ?_ hs
  rintro rfl
  cases TaskMove.of_step hs with
  | give r lost _ _ hcount => exact fun hf => hcount hlost ((h hzero).os.trans hf)

/-- The steps of the worker, and the gives it waits for. -/
def UsbTaskOp.isWorker : UsbTaskOp τ → Bool
  | .give | .take | .pop | .ret | .reset => true
  | _ => false

/-- No give is lost: on FreeRTOS, each one finds its semaphore empty. -/
def TaskGives (os : Os) (s : UsbTasks τ) (op : UsbTaskOp τ) : Prop :=
  op = .give → GiveCounted os s.q.tasks

/-- What the worker relies on: tokens, and a ring without NULL. -/
structure TasksLive (os : Os) (s : UsbTasks τ) : Prop where
  inv : TasksInv s
  ring : TaskRing os s.q
  kept : ∀ t, s.removed t = 0

theorem worker_live (h : TasksLive os s) (hw : op.isWorker = true) (hok : TaskGives os s op)
    (hs : usbTaskStep s op = some s') : TasksLive os s' ∧ taskLoad s'.q < taskLoad s.q := by
  have hinv := usbTaskStep_inv h.inv hs
  have hring := usbTaskStep_ring h.ring hok hs
  cases TaskMove.of_step hs with
  | give r lost hg =>
    exact ⟨⟨hinv, hring, h.kept⟩,
      Nat.add_lt_add_right (TokenRing.load_give 3 (Sem.count_give_le _) hg) _⟩
  | take r _ ht => exact ⟨⟨hinv, hring, h.kept⟩, Nat.add_lt_add_right (TokenRing.load_take 3 ht) _⟩
  | idle r _ hp => exact ⟨⟨hinv, hring, h.kept⟩, Nat.add_lt_add_right (TokenRing.load_pop 3 hp) _⟩
  | run r e hloop hp =>
    have hload := TokenRing.load_pop 3 hp
    rw [toList_some, length_singleton] at hload
    refine ⟨⟨hinv, hring, h.kept⟩, ?_⟩
    simp only [taskLoad, hloop, TaskWorker.left]
    omega
  | ret t hwk | reset e hwk =>
    refine ⟨⟨hinv, hring, h.kept⟩, ?_⟩
    simp only [taskLoad, hwk, TaskWorker.left]
    omega
  | _ => cases hw

/-- A worker that cannot go on has started every task as often as it was queued. -/
theorem worker_done (h : TasksLive os s)
    (hstuck : Stuck usbTaskStep (TaskGives os) (fun op => op.isWorker = true) s) :
    ∀ t, s.ran t = s.added t := by
  have hother : ∀ op : UsbTaskOp τ, op ≠ .give → TaskGives os s op :=
    fun op hne hop => absurd hop hne
  have hnil : s.q.tasks.ring = [] := by
    refine (taskq_idle h.ring fun op hw hg => ?_).2
    cases op with
    | addTask e => cases hw
    | give =>
      have hnone := hstuck .give rfl fun _ => hg rfl
      rw [usbTaskStep] at hnone
      split at hnone
      · next hq => exact hq
      · cases hnone
    | take =>
      have hnone := hstuck .take rfl (hother _ (by simp))
      rw [usbTaskStep] at hnone
      split at hnone
      · next hq => exact hq
      · cases hnone
    | pop =>
      have hnone := hstuck .pop rfl (hother _ (by simp))
      rw [taskqStep]
      split
      · rfl
      · next r hp =>
        have hloop := h.ring.held (TokenRing.pop_some hp).1
        rw [usbTaskStep, hloop, hp] at hnone
        cases hnone
      · next r e hp =>
        have hloop := h.ring.held (TokenRing.pop_some hp).1
        rw [usbTaskStep, hloop, hp] at hnone
        cases hnone
    | ret =>
      have hnone := hstuck .ret rfl (hother _ (by simp))
      rw [usbTaskStep] at hnone
      split at hnone
      · next hw => exact absurd hw (h.inv.null h.kept).2
      · split at hnone
        · next hq => exact hq
        · cases hnone
    | reset =>
      have hnone := hstuck .reset rfl (hother _ (by simp))
      rw [usbTaskStep] at hnone
      split at hnone
      · next hq => exact hq
      · cases hnone
  intro t
  have hacc := h.inv.account t
  rw [hnil, h.kept t, count_nil] at hacc
  exact hacc.symm

omit [DecidableEq τ] in
theorem taskRing_create (os : Os) : TaskRing os (usbTasksCreate os : UsbTasks τ).q :=
  ⟨by cases os <;> rfl, Nat.zero_le _, fun h => absurd h (by simp [usbTasksCreate, taskqCreate])⟩

/-- In every run: each time a task was queued it has been started, taken out, or
is in the ring, where it is at most once; a task that was taken out is not started
before it is queued again; and a wait that is over leaves its task idle until the
task is queued again. As long as no task was taken out of the ring, the worker
meets no NULL, and as long as no give was lost either, it comes to an end with
every task started as often as it was queued. -/
theorem usb_task_contract (os : Os) (s : UsbTasks τ)
    (h : Reach (usbTasksInit os) usbTaskStep Any s) :
    (∀ t, s.added t = s.ran t + s.removed t + s.q.tasks.ring.count (some t) ∧
      s.q.tasks.ring.count (some t) ≤ 1) ∧
    (∀ t ops s', runSteps usbTaskStep (usbRemTask s t) ops = some s' → s'.added t = s.added t →
      s'.ran t = s.ran t) ∧ (∀ w ∈ s.waits, w.Over → w.again = false → s.Idle w.task) ∧
    ((∀ t, s.removed t = 0) → none ∉ s.q.tasks.ring ∧ s.q.worker ≠ .running none) ∧
    ((∀ t, s.removed t = 0) → s.lost = 0 →
      (∀ ops s', (∀ op ∈ ops, op.isWorker = true) → runOk usbTaskStep (TaskGives os) s ops →
        runSteps usbTaskStep s ops = some s' → ops.length ≤ taskLoad s.q ∧
          (Stuck usbTaskStep (TaskGives os) (fun op => op.isWorker = true) s' →
            ∀ t, s'.ran t = s'.added t)) ∧
      ∃ ops s', (∀ op ∈ ops, op.isWorker = true) ∧ runOk usbTaskStep (TaskGives os) s ops ∧
        runSteps usbTaskStep s ops = some s' ∧ ∀ t, s'.ran t = s'.added t) := by
  obtain ⟨hinv, hring⟩ : TasksInv s ∧ (s.lost = 0 → TaskRing os s.q) := by
    induction h with
    | init h0 =>
      subst h0
      exact ⟨tasksInv_create os, fun _ => taskRing_create os⟩
    | step _ _ hs ih => exact ⟨usbTaskStep_inv ih.1 hs, usbTaskStep_covered ih.2 hs⟩
  refine ⟨?_, ?_, ?_, hinv.null, ?_⟩
  · intro t
    have hflag := hinv.flag t
    have hle := Bool.toNat_le (s.q.queue (some t))
    exact ⟨hinv.account t, by omega⟩
  · intro t ops s' hs hadded
    exact hinv.removed_silent t ops hs hadded
  · intro w hmem hover hagain
    exact hinv.idle (hinv.waits w hmem hover hagain)
  · intro hkept hlost
    exact progress (fun _ _ _ hlive hw hok hs => worker_live hlive hw hok hs)
      (fun _ => worker_done) s ⟨hinv, hring hlost, hkept⟩

/-! ### Runs -/

/-- One task has run and another is queued: the worker gets to it. -/
theorem usb_task_contract_sample :
    ∃ s : UsbTasks Bool, Reach (usbTasksInit .freertos) usbTaskStep Any s ∧ s.ran false = 1 ∧
      s.added true = 1 ∧ s.ran true = 0 ∧
      ∃ ops s', runSteps usbTaskStep s ops = some s' ∧ s'.ran true = s'.added true := by
  obtain ⟨s, hreach, ⟨hran, hadded, hwait⟩, hkept, hlost⟩ :
      ∃ s : UsbTasks Bool, Reach (usbTasksInit .freertos) usbTaskStep Any s ∧
        (s.ran false = 1 ∧ s.added true = 1 ∧ s.ran true = 0) ∧ (∀ t, s.removed t = 0) ∧
        s.lost = 0 :=
    Reach.of_run [.addTask false, .give, .take, .pop, .addTask true, .ret, .reset]
      (show usbTasksInit .freertos (usbTasksCreate .freertos) from rfl) (runOk_any _ _) (by decide)
  obtain ⟨ops, s', _, _, hrun, hdone⟩ :=
    ((usb_task_contract .freertos s hreach).2.2.2.2 hkept hlost).2
  exact ⟨s, hreach, hran, hadded, hwait, ops, s', hrun, hdone true⟩

/-- A task is queued and taken out, and the worker, on the token of the task, takes
NULL for the next task. Nothing was lost: this is embox. On FreeRTOS two gives
before the worker comes round leave it asleep with a task in the ring. And a wait
returns with its task in the ring where the task is queued after the last test. -/
theorem usb_worker_takes_null :
    (∃ s : UsbTasks Unit, Reach (usbTasksInit .embox) usbTaskStep Any s ∧
      s.added () = 1 ∧ s.removed () = 1 ∧ s.q.worker = .running none) ∧
    (∃ s : UsbTasks Bool, Reach (usbTasksInit .freertos) usbTaskStep Any s ∧
      (∀ t, s.removed t = 0) ∧ s.q.tasks.ring = [some true] ∧ s.q.worker = .loop ∧
      s.q.tasks.givers = 0 ∧ s.q.tasks.held = false ∧ s.q.tasks.sem.take = none) ∧
    (∃ s : UsbTasks Unit, Reach (usbTasksInit .embox) usbTaskStep Any s ∧
      s.removed () = 0 ∧ s.waits = [⟨(), .returned, true⟩] ∧ some () ∈ s.q.tasks.ring) := by
  refine ⟨?_, ?_, ?_⟩
  · exact Reach.of_run [.addTask (), .give, .remTask (), .take, .pop]
      (show usbTasksInit .embox (usbTasksCreate .embox) from rfl) (runOk_any _ _) (by decide)
  · exact Reach.of_run
      [.addTask false, .addTask true, .give, .give, .take, .pop, .ret, .reset]
      (show usbTasksInit .freertos (usbTasksCreate .freertos) from rfl) (runOk_any _ _) (by decide)
  · exact Reach.of_run [.remTaskWait (), .test 0, .addTask (), .leave 0]
      (show usbTasksInit .embox (usbTasksCreate .embox) from rfl) (runOk_any _ _) (by decide)

end Net80211.Usb
