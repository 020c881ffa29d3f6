import Net80211.Usb.Osal

/-!
# The USB task queue

`usb_add_task` and `wlan_taskq_worker_loop` of
`port/bus/usb/cherryusb/usbdi_compat.c`. A section under `ipl_save` is one step,
and the give of the semaphore that follows it is another. What a task does
between the start of its function and the return is up to the driver.
-/

namespace Net80211.Usb

open Lib Function

/-- `USBD_SHIM_RING`. -/
def usbdShimRing : Nat := 16

/-- Where `wlan_taskq_worker_loop` is: at the semaphore, in the function of a
task, or behind it. -/
inductive TaskWorker (τ : Type) where
  | loop
  | running (t : τ)
  | returned (t : τ)
  deriving DecidableEq, Repr

/-- `queue` is `task->queue != USB_NUM_TASKQS`. -/
structure Taskq (τ : Type) where
  queue : τ → Bool
  tasks : TokenRing Sem τ
  worker : TaskWorker τ

inductive TaskOp (τ : Type) where
  | addTask (t : τ)
  | give
  | take
  | pop
  | ret
  | reset
  deriving DecidableEq, Repr

def taskqCreate {τ : Type} (os : Os) : Taskq τ :=
  { queue := fun _ => false
    tasks := { ring := [], sem := semCreate os, givers := 0, held := false }
    worker := .loop }

variable {τ : Type} [DecidableEq τ]

/-- `usb_add_task` up to its give. A task that is queued is not queued again. -/
def usbAddTask (q : Taskq τ) (t : τ) : Taskq τ :=
  if q.queue t ∨ usbdShimRing ≤ q.tasks.ring.length then q
  else
    { q with
      queue := update q.queue t true
      tasks := q.tasks.post usbdShimRing t }

def taskqStep (q : Taskq τ) : TaskOp τ → Option (Taskq τ)
  | .addTask t => some (usbAddTask q t)
  | .give =>
    match q.tasks.give with
    | none => none
    | some r => some { q with tasks := r }
  | .take =>
    match q.worker with
    | .loop =>
      match q.tasks.take with
      | none => none
      | some r => some { q with tasks := r }
    | _ => none
  | .pop =>
    match q.tasks.pop with
    | none => none
    | some (r, none) => some { q with tasks := r }
    | some (r, some t) => some { q with tasks := r, worker := .running t }
  | .ret =>
    match q.worker with
    | .running t => some { q with worker := .returned t }
    | _ => none
  | .reset =>
    match q.worker with
    | .returned t => some { q with queue := update q.queue t false, worker := .loop }
    | _ => none

/-! The three steps that move a token. -/

variable {q q' : Taskq τ}

theorem taskqStep_give (h : taskqStep q .give = some q') :
    ∃ r, q.tasks.give = some r ∧ q' = { q with tasks := r } := by
  rw [taskqStep] at h
  split at h
  · cases h
  · next r hr =>
    cases h
    exact ⟨r, hr, rfl⟩

theorem taskqStep_take (h : taskqStep q .take = some q') :
    q.worker = .loop ∧ ∃ r, q.tasks.take = some r ∧ q' = { q with tasks := r } := by
  rw [taskqStep] at h
  split at h
  · next hw =>
    split at h
    · cases h
    · next r hr =>
      cases h
      exact ⟨hw, r, hr, rfl⟩
  · cases h

theorem taskqStep_pop (h : taskqStep q .pop = some q') : ∃ r o, q.tasks.pop = some (r, o) ∧
      q' = { q with tasks := r, worker := o.elim q.worker .running } := by
  rw [taskqStep] at h
  split at h
  · cases h
  · next r hr =>
    cases h
    exact ⟨r, none, hr, rfl⟩
  · next r t hr =>
    cases h
    exact ⟨r, some t, hr, rfl⟩

/-- The worker is blocked in `usb_osal_sem_take`. -/
def Taskq.Blocked (q : Taskq τ) : Prop :=
  q.worker = .loop ∧ q.tasks.held = false ∧ q.tasks.sem.take = none

end Net80211.Usb
