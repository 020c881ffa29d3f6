import Mathlib.Algebra.Ring.Nat
import Mathlib.Logic.Function.Basic

/-!
# Control jobs

`wpa_job_run` and `wpa_process_jobs` of `port/wpa/supp_main_freertos.c`: a thread
of the shell hands a function to the event loop and waits for it. The job object
is on the heap, and who frees it depends on when the caller gives up.

A section under `wpa_job_mtx` is one step, and so is what a thread does between
two of them; the event loop is one thread, and there may be any number of calls
of `wpa_job_run` at a time, each with its own number. The function of a job is
any function; it starts and ends. Each allocation is an object of its own. What
a call cannot know is a parameter: whether `calloc` and `malloc` succeed.

`allocs`, `frees`, `runs` and `completed` count what happened to a job; no code
reads them. `fault` records an access to an object that has been freed, or a
second free.
-/

namespace Net80211.Wpa

/-- `struct wpa_job`. -/
structure Job (φ α : Type) where
  fn : φ
  arg : Option α
  done : Bool
  started : Bool
  abandoned : Bool
  deriving DecidableEq, Repr

/-- Where a call of `wpa_job_run` is: before it installs its job, refused because
there is another one, in its loop after `waited` milliseconds, about to free the
job that is done or that was not started in time, or back with its result. What
it returned goes with whether the job was started by then. -/
inductive CallAt where
  | ready
  | refused
  | waiting (waited : Nat)
  | seenDone
  | timedOut
  | returned (ok started : Bool)
  deriving DecidableEq, Repr

/-- A call of `wpa_job_run` with its job. -/
structure Call (φ α : Type) where
  job : Job φ α
  timeout : Nat
  pc : CallAt
  allocs : Nat
  argAllocs : Nat
  frees : Nat
  argFrees : Nat
  runs : Nat
  completed : Nat
  deriving DecidableEq, Repr

/-- Where the event loop is: outside `wpa_process_jobs`, before the function of
job `j`, in it, behind it, or about to free a job that was given up. -/
inductive JobWorker where
  | loop
  | taken (j : Nat)
  | inFn (j : Nat)
  | ran (j : Nat)
  | release (j : Nat)
  deriving DecidableEq, Repr

structure Jobs (φ α : Type) where
  cur : Option Nat
  calls : Nat → Option (Call φ α)
  next : Nat
  worker : JobWorker
  fault : Bool

inductive JobOp (φ α : Type) where
  | call (fn : φ) (arg : Option α) (timeout : Nat) (calloc malloc : Bool)
  | install (j : Nat)
  | sleep (j : Nat)
  | poll (j : Nat)
  | free (j : Nat)
  | take
  | enter
  | leave
  | finish
  | release
  deriving DecidableEq, Repr

variable {φ α : Type}

def jobsInit : Jobs φ α :=
  { cur := none, calls := fun _ => none, next := 0, worker := .loop, fault := false }

/-- The object is allocated and not freed. -/
def Call.live (c : Call φ α) : Bool := c.frees < c.allocs

/-- So is its argument, if it has one. -/
def Call.argLive (c : Call φ α) : Bool := c.job.arg.isNone || c.argFrees < c.argAllocs

/-- Write back the record of a call after an access, which `ok` says is to live
memory. -/
def Jobs.put (s : Jobs φ α) (j : Nat) (c : Call φ α) (ok : Bool) : Jobs φ α :=
  { s with calls := Function.update s.calls j (some c), fault := s.fault || !ok }

/-- `wpa_job_free`. -/
def jobFree (c : Call φ α) : Call φ α :=
  { c with
    argFrees := if c.job.arg.isSome then c.argFrees + 1 else c.argFrees
    frees := c.frees + 1 }

/-- The allocations at the beginning of `wpa_job_run`. -/
def jobAlloc (fn : φ) (arg : Option α) (timeout : Nat) (calloc malloc : Bool) : Call φ α :=
  let c : Call φ α :=
    { job := { fn := fn, arg := none, done := false, started := false, abandoned := false }
      timeout := timeout, pc := .returned false false
      allocs := 0, argAllocs := 0, frees := 0, argFrees := 0, runs := 0, completed := 0 }
  if !calloc then c
  else
    match arg with
    | none => { c with pc := .ready, allocs := 1 }
    | some a =>
      if !malloc then { c with allocs := 1, frees := 1 }
      else
        { c with
          pc := .ready, allocs := 1, argAllocs := 1
          job := { c.job with arg := some a } }

/-- One step of the callers or of the event loop. -/
def jobStep (s : Jobs φ α) : JobOp φ α → Option (Jobs φ α)
  | .call fn arg timeout calloc malloc =>
    some { s with
      calls := Function.update s.calls s.next (some (jobAlloc fn arg timeout calloc malloc))
      next := s.next + 1 }
  | .install j =>
    match s.calls j with
    | some c =>
      if c.pc ≠ .ready then none
      else if s.cur ≠ none then some (s.put j { c with pc := .refused } true)
      else some { s.put j { c with pc := .waiting 0 } true with cur := some j }
    | none => none
  | .sleep j =>
    match s.calls j with
    | some c =>
      match c.pc with
      | .waiting waited =>
        if c.job.done ∨ waited ≥ c.timeout then none
        else some (s.put j { c with pc := .waiting ((waited + 10) % 2 ^ 32) } c.live)
      | _ => none
    | none => none
  | .poll j =>
    match s.calls j with
    | some c =>
      match c.pc with
      | .waiting waited =>
        if c.job.done then some (s.put j { c with pc := .seenDone } c.live)
        else if waited ≥ c.timeout then
          let c' := { c with job := { c.job with abandoned := true } }
          if c.job.started then
            some (s.put j { c' with pc := .returned false true } c.live)
          else some { s.put j { c' with pc := .timedOut } c.live with cur := none }
        else none
      | _ => none
    | none => none
  | .free j =>
    match s.calls j with
    | some c =>
      match c.pc with
      | .refused | .timedOut =>
        some (s.put j { jobFree c with pc := .returned false c.job.started }
          (c.live && c.argLive))
      | .seenDone =>
        some (s.put j { jobFree c with pc := .returned true c.job.started }
          (c.live && c.argLive))
      | _ => none
    | none => none
  | .take =>
    match s.worker, s.cur with
    | .loop, some j =>
      match s.calls j with
      | some c =>
        some { s.put j { c with job := { c.job with started := true } } c.live with
          worker := .taken j }
      | none => none
    | _, _ => none
  | .enter =>
    match s.worker with
    | .taken j =>
      match s.calls j with
      | some c =>
        some { s.put j { c with runs := c.runs + 1 } (c.live && c.argLive) with
          worker := .inFn j }
      | none => none
    | _ => none
  | .leave =>
    match s.worker with
    | .inFn j =>
      match s.calls j with
      | some c =>
        some { s.put j { c with completed := c.completed + 1 } c.argLive with
          worker := .ran j }
      | none => none
    | _ => none
  | .finish =>
    match s.worker with
    | .ran j =>
      match s.calls j with
      | some c =>
        some { s.put j { c with job := { c.job with done := true } } c.live with
          cur := none
          worker := if c.job.abandoned then .release j else .loop }
      | none => none
    | _ => none
  | .release =>
    match s.worker with
    | .release j =>
      match s.calls j with
      | some c => some { s.put j (jobFree c) (c.live && c.argLive) with worker := .loop }
      | none => none
    | _ => none

/-- A job that is installed and not done: its caller waits for it, or the event
loop is at it. -/
def Jobs.Current (s : Jobs φ α) (j : Nat) : Prop :=
  s.worker = .taken j ∨ s.worker = .inFn j ∨ s.worker = .ran j ∨
    ∃ c waited, s.calls j = some c ∧ c.pc = .waiting waited ∧ c.job.done = false

end Net80211.Wpa
