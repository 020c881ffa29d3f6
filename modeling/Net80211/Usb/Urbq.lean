import Net80211.Usb.Taskq

/-!
# Transfers and their completion

`usbd_transfer`, `usbd_abort_pipe`, the completion handler and
`wlan_urb_worker_loop` of `port/bus/usb/cherryusb/usbdi_compat.c`, for any set of
pipes `π` and transfers `χ`, on a device that is there.

The steps are the sections under `ipl_save` and what lies between them. The host
controller is described by what it may do: it accepts an URB or refuses it, it
completes an URB it holds once, and `usbh_kill_urb` completes an URB it holds and
leaves any other alone. A driver calls `usbd_transfer` on a transfer whose
earlier callbacks have run.

`submitted` and `ran` count the calls of `usbd_transfer` and the runs of the
callback; no code reads them.
-/

namespace Net80211.Usb

open Lib Function

/-- Where a call of `usbd_transfer` is: past `in_flight = 1`, past the insertion,
or past a submission that was refused. -/
inductive Call where
  | idle
  | armed
  | linked
  | refused
  deriving DecidableEq, Repr

/-- Where `wlan_urb_worker_loop` is: at the semaphore, before each of the three
parts of `usbd_shim_urb_work`, or in the callback. -/
inductive UrbWorker (χ : Type) where
  | loop
  | work (x : χ)
  | unlink (x : χ)
  | call (x : χ)
  | callback (x : χ)
  deriving DecidableEq, Repr

structure Urbq (π χ : Type) where
  pipe : χ → π
  inFlight : χ → Bool
  -- The host controller holds the URB.
  active : χ → Bool
  pending : π → List χ
  call : χ → Call
  urbs : TokenRing Sem χ
  worker : UrbWorker χ
  submitted : χ → Nat
  ran : χ → Nat

inductive UrbOp (π χ : Type) where
  | transfer (x : χ)
  | link (x : χ)
  | submit (x : χ) (accepted : Bool)
  | refuse (x : χ)
  | complete (x : χ)
  | abort (p : π)
  | give
  | take
  | pop
  | work
  | unlink
  | call
  | ret
  deriving DecidableEq, Repr

variable {π χ : Type}

def urbqCreate (pipe : χ → π) (os : Os) : Urbq π χ :=
  { pipe := pipe, inFlight := fun _ => false, active := fun _ => false, pending := fun _ => []
    call := fun _ => .idle
    urbs := { ring := [], sem := semCreate os, givers := 0, held := false }
    worker := .loop, submitted := fun _ => 0, ran := fun _ => 0 }

variable [DecidableEq π] [DecidableEq χ]

/-- `usbd_ring_post` up to its give. In a full ring the transfer is dropped. -/
def usbdRingPost (q : Urbq π χ) (x : χ) : Urbq π χ :=
  { q with urbs := q.urbs.post usbdShimRing x }

/-- The host controller is done with an URB and calls `usbd_shim_urb_complete`. -/
def urbComplete (q : Urbq π χ) (x : χ) : Urbq π χ :=
  let q := { q with active := update q.active x false }
  if q.inFlight x then usbdRingPost q x else q

/-- `usbh_kill_urb`. -/
def usbhKillUrb (q : Urbq π χ) (x : χ) : Urbq π χ :=
  if q.active x then urbComplete q x else q

/-- `usbd_abort_pipe`. -/
def usbdAbortPipe (q : Urbq π χ) (p : π) : Urbq π χ :=
  (q.pending p).foldl (fun q x => if q.inFlight x then usbhKillUrb q x else q) q

def urbqStep (q : Urbq π χ) : UrbOp π χ → Option (Urbq π χ)
  | .transfer x =>
    if q.submitted x = q.ran x then
      some { q with
        inFlight := update q.inFlight x true
        call := update q.call x .armed
        submitted := update q.submitted x (q.submitted x + 1) }
    else none
  | .link x =>
    if q.call x = .armed then
      some { q with
        pending := update q.pending (q.pipe x) (x :: q.pending (q.pipe x))
        call := update q.call x .linked }
    else none
  | .submit x accepted =>
    if q.call x = .linked then
      if accepted then
        some { q with
          active := update q.active x true
          call := update q.call x .idle }
      else
        some { q with
          inFlight := update q.inFlight x false
          call := update q.call x .refused }
    else none
  | .refuse x =>
    if q.call x = .refused then
      some { usbdRingPost q x with call := update q.call x .idle }
    else none
  | .complete x => if q.active x then some (urbComplete q x) else none
  | .abort p => some (usbdAbortPipe q p)
  | .give =>
    match q.urbs.give with
    | none => none
    | some r => some { q with urbs := r }
  | .take =>
    match q.worker with
    | .loop =>
      match q.urbs.take with
      | none => none
      | some r => some { q with urbs := r }
    | _ => none
  | .pop =>
    match q.urbs.pop with
    | none => none
    | some (r, none) => some { q with urbs := r }
    | some (r, some x) => some { q with urbs := r, worker := .work x }
  | .work =>
    match q.worker with
    | .work x => some { q with inFlight := update q.inFlight x false, worker := .unlink x }
    | _ => none
  | .unlink =>
    match q.worker with
    | .unlink x =>
      -- SLIST_REMOVE runs off the list where the transfer is not on it.
      if x ∈ q.pending (q.pipe x) then
        some { q with
          pending := update q.pending (q.pipe x) ((q.pending (q.pipe x)).erase x)
          worker := .call x }
      else none
    | _ => none
  | .call =>
    match q.worker with
    | .call x =>
      some { q with ran := update q.ran x (q.ran x + 1), worker := .callback x }
    | _ => none
  | .ret =>
    match q.worker with
    | .callback _ => some { q with worker := .loop }
    | _ => none

/-! The three steps that move a token. -/

variable {q q' : Urbq π χ}

theorem urbqStep_give (h : urbqStep q .give = some q') :
    ∃ r, q.urbs.give = some r ∧ q' = { q with urbs := r } := by
  rw [urbqStep] at h
  split at h
  · cases h
  · next r hr =>
    cases h
    exact ⟨r, hr, rfl⟩

theorem urbqStep_take (h : urbqStep q .take = some q') :
    q.worker = .loop ∧ ∃ r, q.urbs.take = some r ∧ q' = { q with urbs := r } := by
  rw [urbqStep] at h
  split at h
  · next hw =>
    split at h
    · cases h
    · next r hr =>
      cases h
      exact ⟨hw, r, hr, rfl⟩
  · cases h

theorem urbqStep_pop (h : urbqStep q .pop = some q') : ∃ r o, q.urbs.pop = some (r, o) ∧
      q' = { q with urbs := r, worker := o.elim q.worker .work } := by
  rw [urbqStep] at h
  split at h
  · cases h
  · next r hr =>
    cases h
    exact ⟨r, none, hr, rfl⟩
  · next r x hr =>
    cases h
    exact ⟨r, some x, hr, rfl⟩

/-- The worker is blocked in `usb_osal_sem_take`. -/
def Urbq.Blocked (q : Urbq π χ) : Prop :=
  q.worker = .loop ∧ q.urbs.held = false ∧ q.urbs.sem.take = none

end Net80211.Usb
