import Net80211.Lib.Run
import Net80211.Wpa.Job

/-!
# Who frees a control job

A job is in one of a few phases: not installed, queued, in the hands of the event
loop, done, given up. `CallOk` says what each phase looks like to the caller, to
the object and to the event loop, and every step takes one job from one phase to
the next and leaves the others alone. In each phase one thread has the duty to
free the object, and only the phases before `ended` have live memory; that is why
there is no second free and no access after one.
-/

namespace Net80211.Wpa

open Lib Function Option

variable {φ α : Type}

/-! ## Phases -/

/-- The event loop, as one job sees it. -/
inductive JobStage where
  | off
  | taken
  | inFn
  | ran
  | release
  deriving DecidableEq, Repr

def JobWorker.stage : JobWorker → Nat → JobStage
  | .loop, _ => .off
  | .taken i, j => if i = j then .taken else .off
  | .inFn i, j => if i = j then .inFn else .off
  | .ran i, j => if i = j then .ran else .off
  | .release i, j => if i = j then .release else .off

/-- The object and its argument are allocated, and have been freed `k` times. -/
def Mem (c : Call φ α) (k : Nat) : Prop :=
  c.allocs = 1 ∧ c.frees = k ∧ c.argAllocs = c.job.arg.toList.length ∧ c.argFrees = k * c.argAllocs

/-- How often the function of a job has run, by where the event loop is. -/
def JobStage.runs : JobStage → Nat
  | .off | .taken => 0
  | .inFn | .ran | .release => 1

def JobStage.completed : JobStage → Nat
  | .off | .taken | .inFn => 0
  | .ran | .release => 1

/-- A call in one of its phases; `cur` says whether its job is `wpa_job_cur`. -/
inductive CallOk (c : Call φ α) : Bool → JobStage → Prop where
  | apart : c.pc = .ready ∧ c.job.abandoned = false ∨ c.pc = .refused ∨ c.pc = .timedOut →
      Mem c 0 → c.job.done = false → c.job.started = false → c.runs = 0 → c.completed = 0 →
      CallOk c false .off
  | queued {waited : Nat} : c.pc = .waiting waited → Mem c 0 → c.job.done = false →
      c.job.started = false → c.job.abandoned = false → c.runs = 0 → c.completed = 0 →
      CallOk c true .off
  | working {st : JobStage} : st = .taken ∨ st = .inFn ∨ st = .ran →
      (c.job.abandoned = false ∧ ∃ waited, c.pc = .waiting waited) ∨
        c.job.abandoned = true ∧ c.pc = .returned false true →
      Mem c 0 → c.job.done = false → c.job.started = true → c.runs = st.runs →
      c.completed = st.completed → CallOk c true st
  | finished : (∃ waited, c.pc = .waiting waited) ∨ c.pc = .seenDone → Mem c 0 →
      c.job.done = true → c.job.started = true → c.runs = 1 → c.completed = 1 → CallOk c false .off
  | release : c.pc = .returned false true → Mem c 0 → c.job.started = true → c.runs = 1 →
      CallOk c false .release
  | ended {ok started : Bool} : c.pc = .returned ok started → c.frees = c.allocs →
      c.argFrees = c.argAllocs → c.allocs ≤ 1 → c.argAllocs ≤ 1 → c.runs ≤ 1 →
      (ok = true → c.completed = 1) → (ok = false → started = false → c.runs = 0) →
      CallOk c false .off

structure JobsInv (s : Jobs φ α) : Prop where
  fault : s.fault = false
  call : ∀ j c, s.calls j = some c → CallOk c (decide (s.cur = some j)) (s.worker.stage j)
  absent : ∀ j, s.calls j = none → s.cur ≠ some j ∧ s.worker.stage j = .off
  fresh : ∀ j, s.next ≤ j → s.calls j = none

/-! ## Memory -/

variable {c : Call φ α}

theorem Mem.live (h : Mem c 0) : c.live = true := by
  obtain ⟨hallocs, hfrees, _, _⟩ := h
  rw [Call.live, hfrees, hallocs]
  rfl

theorem Mem.argLive (h : Mem c 0) : c.argLive = true := by
  obtain ⟨_, _, hargAllocs, hargFrees⟩ := h
  rw [Call.argLive, hargFrees, hargAllocs]
  cases c.job.arg with
  | none => rfl
  | some a => simp

theorem Mem.free (h : Mem c 0) : (jobFree c).frees = (jobFree c).allocs ∧
    (jobFree c).argFrees = (jobFree c).argAllocs ∧ (jobFree c).allocs ≤ 1 ∧
    (jobFree c).argAllocs ≤ 1 := by
  obtain ⟨hallocs, hfrees, hargAllocs, hargFrees⟩ := h
  have harg : (if c.job.arg.isSome then c.argFrees + 1 else c.argFrees) = c.argAllocs := by
    rw [hargFrees, hargAllocs]
    cases c.job.arg with
    | none => rfl
    | some a => simp
  refine ⟨?_, harg, Nat.le_of_eq hallocs, ?_⟩
  · show c.frees + 1 = c.allocs
    rw [hfrees, hallocs]
  · show c.argAllocs ≤ 1
    rw [hargAllocs]
    cases c.job.arg <;> simp

/-! ## What a phase looks like

The place of the caller or that of the event loop tells the phase; the equations
of the other phases contradict it. -/

section Inversion

variable {cur : Bool} {st : JobStage}

theorem CallOk.of_ready (h : CallOk c cur st) (hpc : c.pc = .ready) :
    cur = false ∧ st = .off ∧ Mem c 0 ∧ c.job.done = false ∧ c.job.started = false ∧
      c.job.abandoned = false ∧ c.runs = 0 ∧ c.completed = 0 := by
  cases h <;> grind

theorem CallOk.of_waiting {waited : Nat} (h : CallOk c cur st) (hpc : c.pc = .waiting waited) :
    Mem c 0 ∧ (c.job.done = true → cur = false ∧ st = .off ∧ c.job.started = true ∧ c.runs = 1 ∧
        c.completed = 1) ∧
      (c.job.done = false → cur = true ∧ c.job.abandoned = false ∧ c.runs = st.runs ∧
        c.completed = st.completed ∧ (c.job.started = false ∧ st = .off ∨
          c.job.started = true ∧ (st = .taken ∨ st = .inFn ∨ st = .ran))) := by
  cases h <;> grind [JobStage.runs, JobStage.completed]

/-- A caller about to free its job: the event loop is not at it, and the function
has run if the job is done and has not if it is not. -/
theorem CallOk.of_freeing (h : CallOk c cur st)
    (hpc : c.pc = .refused ∨ c.pc = .timedOut ∨ c.pc = .seenDone) :
    cur = false ∧ st = .off ∧ Mem c 0 ∧ c.runs ≤ 1 ∧
      (c.pc = .seenDone → c.completed = 1) ∧ (c.pc ≠ .seenDone → c.runs = 0) := by
  cases h <;> grind

theorem CallOk.of_queued (h : CallOk c true .off) :
    ∃ waited, c.pc = .waiting waited ∧ Mem c 0 ∧ c.job.done = false ∧ c.job.started = false ∧
      c.job.abandoned = false ∧ c.runs = 0 ∧ c.completed = 0 := by
  cases h <;> grind

theorem CallOk.of_working (h : CallOk c cur st) (hst : st = .taken ∨ st = .inFn ∨ st = .ran) :
    cur = true ∧ Mem c 0 ∧ c.job.done = false ∧ c.job.started = true ∧ c.runs = st.runs ∧
      c.completed = st.completed ∧ ((c.job.abandoned = false ∧ ∃ waited, c.pc = .waiting waited) ∨
        c.job.abandoned = true ∧ c.pc = .returned false true) := by
  cases h <;> grind

theorem CallOk.of_release (h : CallOk c cur .release) :
    cur = false ∧ c.pc = .returned false true ∧ Mem c 0 ∧ c.runs = 1 := by
  cases h <;> grind

/-- What a call that is over and out of the event loop's hands has left behind. -/
theorem CallOk.safe (h : CallOk c cur st) : c.frees ≤ 1 ∧ c.argFrees ≤ 1 ∧ c.runs ≤ 1 ∧
      (∀ started, c.pc = .returned true started → c.completed = 1) ∧
      (c.pc = .returned false false → c.runs = 0) := by
  have hmem : Mem c 0 → c.frees ≤ 1 ∧ c.argFrees ≤ 1 := by
    rintro ⟨_, hfrees, _, hargFrees⟩
    omega
  cases h <;> grind [JobStage.runs, JobStage.completed]

end Inversion

/-! ## Moves

Every step but a new call is a move of one job: it changes the record of that
job, and with it `wpa_job_cur` and the place of the event loop. `ok` says whether
the memory it touches is live. -/

/-- The moves of job `j`. -/
inductive JobMove (j : Nat) (c : Call φ α) :
    JobOp φ α → Option Nat → JobWorker → Call φ α → Option Nat → JobWorker → Bool → Prop where
  | refuse {cur w} : c.pc = .ready →
      JobMove j c (.install j) cur w { c with pc := .refused } cur w true
  | install {w} : c.pc = .ready →
      JobMove j c (.install j) none w { c with pc := .waiting 0 } (some j) w true
  | sleep {cur w waited} : c.pc = .waiting waited → c.job.done = false →
      JobMove j c (.sleep j) cur w { c with pc := .waiting ((waited + 10) % 2 ^ 32) } cur w c.live
  | see {cur w waited} : c.pc = .waiting waited → c.job.done = true →
      JobMove j c (.poll j) cur w { c with pc := .seenDone } cur w c.live
  | leaveStarted {cur w waited} : c.pc = .waiting waited → c.job.done = false →
      c.job.started = true →
      JobMove j c (.poll j) cur w
        { c with job := { c.job with abandoned := true }, pc := .returned false true } cur w c.live
  | withdraw {cur w waited} : c.pc = .waiting waited → c.job.done = false →
      c.job.started = false →
      JobMove j c (.poll j) cur w
        { c with job := { c.job with abandoned := true }, pc := .timedOut } none w c.live
  | free {cur w ok} : c.pc = .refused ∨ c.pc = .timedOut ∨ c.pc = .seenDone →
      (ok = true ↔ c.pc = .seenDone) →
      JobMove j c (.free j) cur w { jobFree c with pc := .returned ok c.job.started } cur w
        (c.live && c.argLive)
  | take : JobMove j c .take (some j) .loop { c with job := { c.job with started := true } }
      (some j) (.taken j) c.live
  | enter {cur} : JobMove j c .enter cur (.taken j) { c with runs := c.runs + 1 } cur (.inFn j)
      (c.live && c.argLive)
  | leave {cur} : JobMove j c .leave cur (.inFn j) { c with completed := c.completed + 1 } cur
      (.ran j) c.argLive
  | finish {cur} : JobMove j c .finish cur (.ran j) { c with job := { c.job with done := true } }
      none (if c.job.abandoned then .release j else .loop) c.live
  | release {cur} : JobMove j c .release cur (.release j) (jobFree c) cur .loop
      (c.live && c.argLive)

variable {s s' : Jobs φ α} {j : Nat} {c' : Call φ α} {op : JobOp φ α} {ok : Bool}

theorem jobStep_move (hs : jobStep s op = some s') :
    (∃ fn arg timeout calloc malloc, op = .call fn arg timeout calloc malloc) ∨
    ∃ j c c' cur w ok, s.calls j = some c ∧ JobMove j c op s.cur s.worker c' cur w ok ∧
      s' = { s.put j c' ok with cur := cur, worker := w } := by
  cases op with
  | call fn arg timeout calloc malloc => exact .inl ⟨fn, arg, timeout, calloc, malloc, rfl⟩
  | install j =>
    rw [jobStep] at hs
    split at hs
    · next c hj =>
      split at hs
      · cases hs
      next hpc =>
      split at hs
      · cases hs
        exact .inr ⟨j, c, _, _, _, _, hj, .refuse (not_not.mp hpc), rfl⟩
      · next hcur =>
        cases hs
        refine .inr ⟨j, c, _, _, _, _, hj, ?_, rfl⟩
        rw [not_not.mp hcur]
        exact .install (not_not.mp hpc)
    · cases hs
  | sleep j =>
    rw [jobStep] at hs
    split at hs
    · next c hj =>
      split at hs
      · next waited hpc =>
        split at hs
        · cases hs
        next hlt =>
        cases hs
        exact .inr ⟨j, c, _, _, _, _, hj,
          .sleep hpc (Bool.eq_false_iff.mpr fun hd => hlt (.inl hd)), rfl⟩
      · cases hs
    · cases hs
  | poll j =>
    rw [jobStep] at hs
    split at hs
    · next c hj =>
      split at hs
      · next waited hpc =>
        split at hs
        · next hd =>
          cases hs
          exact .inr ⟨j, c, _, _, _, _, hj, .see hpc hd, rfl⟩
        next hd =>
        have hd : c.job.done = false := Bool.eq_false_iff.mpr hd
        obtain ⟨-, hs⟩ := ite_none_right_eq_some.mp hs
        dsimp only at hs
        split at hs
        · next hst =>
          cases hs
          exact .inr ⟨j, c, _, _, _, _, hj, .leaveStarted hpc hd hst, rfl⟩
        · next hst =>
          cases hs
          exact .inr ⟨j, c, _, _, _, _, hj,
            .withdraw hpc hd (Bool.eq_false_iff.mpr hst), rfl⟩
      · cases hs
    · cases hs
  | free j =>
    rw [jobStep] at hs
    split at hs
    · next c hj =>
      split at hs
      · next hpc =>
        cases hs
        exact .inr ⟨j, c, _, _, _, _, hj, .free (.inl hpc) (by rw [hpc]; simp), rfl⟩
      · next hpc =>
        cases hs
        exact .inr ⟨j, c, _, _, _, _, hj, .free (.inr (.inl hpc)) (by rw [hpc]; simp), rfl⟩
      · next hpc =>
        cases hs
        exact .inr ⟨j, c, _, _, _, _, hj, .free (.inr (.inr hpc)) (by rw [hpc]; simp), rfl⟩
      · cases hs
    · cases hs
  | take =>
    rw [jobStep] at hs
    split at hs
    · next j hw hcur =>
      split at hs
      · next c hj =>
        cases hs
        refine .inr ⟨j, c, _, _, _, _, hj, ?_, rfl⟩
        rw [hw, Jobs.put, hcur]
        exact .take
      · cases hs
    · cases hs
  | enter | leave | finish | release =>
    rw [jobStep] at hs
    split at hs
    · next j hw =>
      split at hs
      · next c hj =>
        cases hs
        refine .inr ⟨j, c, _, _, _, _, hj, ?_, rfl⟩
        rw [hw]
        constructor
      · cases hs
    · cases hs

theorem JobMove.callOk {cur cur' : Option Nat} {w w' : JobWorker}
    (hmove : JobMove j c op cur w c' cur' w' ok)
    (h : CallOk c (decide (cur = some j)) (w.stage j)) :
    ok = true ∧ CallOk c' (decide (cur' = some j)) (w'.stage j) := by
  have htaken : (JobWorker.taken j).stage j = .taken := if_pos rfl
  have hinFn : (JobWorker.inFn j).stage j = .inFn := if_pos rfl
  have hran : (JobWorker.ran j).stage j = .ran := if_pos rfl
  have hrel : (JobWorker.release j).stage j = .release := if_pos rfl
  cases hmove with
  | refuse hpc =>
    obtain ⟨hcur, hst, hm, hd, hs, _, hr, hc⟩ := h.of_ready hpc
    rw [hcur, hst]
    exact ⟨rfl, .apart (.inr (.inl rfl)) hm hd hs hr hc⟩
  | install hpc =>
    obtain ⟨_, hst, hm, hd, hs, ha, hr, hc⟩ := h.of_ready hpc
    rw [hst, decide_eq_true rfl]
    exact ⟨rfl, .queued rfl hm hd hs ha hr hc⟩
  | sleep hpc hd =>
    obtain ⟨hm, _, hrun⟩ := h.of_waiting hpc
    obtain ⟨hcur, ha, hr, hc, hst⟩ := hrun hd
    refine ⟨hm.live, ?_⟩
    rw [hcur]
    rcases hst with ⟨hs, hst⟩ | ⟨hs, hst⟩
    · rw [hst] at hr hc ⊢
      exact .queued rfl hm hd hs ha hr hc
    · exact .working hst (.inl ⟨ha, _, rfl⟩) hm hd hs hr hc
  | see hpc hd =>
    obtain ⟨hm, hdone, _⟩ := h.of_waiting hpc
    obtain ⟨hcur, hst, hs, hr, hc⟩ := hdone hd
    rw [hcur, hst]
    exact ⟨hm.live, .finished (.inr rfl) hm hd hs hr hc⟩
  | leaveStarted hpc hd hs =>
    obtain ⟨hm, _, hrun⟩ := h.of_waiting hpc
    obtain ⟨hcur, _, hr, hc, hst⟩ := hrun hd
    refine ⟨hm.live, ?_⟩
    rw [hcur]
    rcases hst with ⟨hs0, _⟩ | ⟨_, hst⟩
    · rw [hs] at hs0
      cases hs0
    · exact .working hst (.inr ⟨rfl, rfl⟩) hm hd hs hr hc
  | withdraw hpc hd hs =>
    obtain ⟨hm, _, hrun⟩ := h.of_waiting hpc
    obtain ⟨_, _, hr, hc, hst⟩ := hrun hd
    refine ⟨hm.live, ?_⟩
    rcases hst with ⟨_, hst⟩ | ⟨hs1, _⟩
    · rw [hst] at hr hc ⊢
      exact .apart (.inr (.inr rfl)) hm hd hs hr hc
    · rw [hs] at hs1
      cases hs1
  | free hpc hseen =>
    obtain ⟨hcur, hst, hm, hr, hdone, hzero⟩ := h.of_freeing hpc
    obtain ⟨hf, haf, ha, haa⟩ := hm.free
    refine ⟨by rw [hm.live, hm.argLive]; rfl, ?_⟩
    rw [hcur, hst]
    refine .ended rfl hf haf ha haa hr (fun htrue => hdone (hseen.mp htrue)) fun hfalse _ =>
      hzero fun hpc => ?_
    rw [hseen.mpr hpc] at hfalse
    cases hfalse
  | take =>
    rw [decide_eq_true rfl] at h ⊢
    obtain ⟨waited, hpc, hm, hd, _, ha, hr, hc⟩ := CallOk.of_queued h
    rw [htaken]
    exact ⟨hm.live, .working (.inl rfl) (.inl ⟨ha, waited, hpc⟩) hm hd rfl hr hc⟩
  | enter =>
    rw [htaken] at h
    obtain ⟨hcur, hm, hd, hs, hr, hc, hat⟩ := h.of_working (.inl rfl)
    rw [hcur, hinFn]
    exact ⟨by rw [hm.live, hm.argLive]; rfl,
      .working (.inr (.inl rfl)) hat hm hd hs (congrArg (· + 1) hr) hc⟩
  | leave =>
    rw [hinFn] at h
    obtain ⟨hcur, hm, hd, hs, hr, hc, hat⟩ := h.of_working (.inr (.inl rfl))
    rw [hcur, hran]
    exact ⟨hm.argLive, .working (.inr (.inr rfl)) hat hm hd hs hr (congrArg (· + 1) hc)⟩
  | finish =>
    rw [hran] at h
    obtain ⟨_, hm, hd, hs, hr, hc, hat⟩ := h.of_working (.inr (.inr rfl))
    refine ⟨hm.live, ?_⟩
    rcases hat with ⟨ha, hpc⟩ | ⟨ha, hpc⟩
    · rw [ha]
      exact .finished (.inl hpc) hm rfl hs hr hc
    · rw [ha, if_pos rfl, hrel]
      exact .release hpc hm hs hr
  | release =>
    rw [hrel] at h
    obtain ⟨hcur, hpc, hm, hr⟩ := h.of_release
    obtain ⟨hf, haf, ha, haa⟩ := hm.free
    rw [hcur]
    exact ⟨by rw [hm.live, hm.argLive]; rfl,
      .ended hpc hf haf ha haa (Nat.le_of_eq hr) nofun nofun⟩

/-- The other jobs do not see a move: who takes the current job off is its caller
or the event loop that has it. -/
theorem JobMove.frame {cur cur' : Option Nat} {w w' : JobWorker}
    (hmove : JobMove j c op cur w c' cur' w' ok) (h : CallOk c (decide (cur = some j)) (w.stage j))
    {i : Nat} (hij : i ≠ j) :
    (cur' = some i ↔ cur = some i) ∧ w'.stage i = w.stage i := by
  have hoff : ∀ w : JobWorker, w = .loop ∨ w = .taken j ∨ w = .inFn j ∨ w = .ran j ∨
      w = .release j → w.stage i = .off := by
    rintro w (rfl | rfl | rfl | rfl | rfl) <;> simp [JobWorker.stage, Ne.symm hij]
  have hnone : cur = some j → ((none : Option Nat) = some i ↔ cur = some i) := by
    rintro rfl
    simpa using Ne.symm hij
  cases hmove with
  | refuse | sleep | see | leaveStarted | free => exact ⟨Iff.rfl, rfl⟩
  | install => exact ⟨by simpa using Ne.symm hij, rfl⟩
  | withdraw hpc hd =>
    obtain ⟨hcur, _⟩ := (h.of_waiting hpc).2.2 hd
    exact ⟨hnone (of_decide_eq_true hcur), rfl⟩
  | take | enter | leave | release => exact ⟨Iff.rfl, by rw [hoff _ (by simp), hoff _ (by simp)]⟩
  | finish =>
    obtain ⟨hcur, _⟩ := h.of_working (.inr (.inr (if_pos rfl)))
    refine ⟨hnone (of_decide_eq_true hcur), ?_⟩
    rw [hoff _ (by split <;> simp), hoff _ (by simp)]

/-! ## The invariant -/

theorem JobsInv.lt_next (h : JobsInv s) (hj : s.calls j = some c) : j < s.next := by
  by_contra hge
  rw [h.fresh j (by omega)] at hj
  cases hj

theorem JobsInv.move {cur : Option Nat} {w : JobWorker} (h : JobsInv s) (hj : s.calls j = some c)
    (hmove : JobMove j c op s.cur s.worker c' cur w ok) :
    JobsInv { s.put j c' ok with cur := cur, worker := w } := by
  have hlt := h.lt_next hj
  have hcall := h.call j c hj
  obtain ⟨rfl, hok⟩ := hmove.callOk hcall
  refine ⟨?_, fun i d hi => ?_, fun i hi => ?_, fun i hi => ?_⟩
  · show (s.fault || !true) = false
    rw [h.fault]
    rfl
  all_goals simp only [Jobs.put] at hi ⊢
  · by_cases hij : i = j
    · subst hij
      rw [update_self] at hi
      exact Option.some.inj hi ▸ hok
    · rw [update_of_ne hij] at hi
      obtain ⟨hcur, hstage⟩ := hmove.frame hcall hij
      rw [hstage, decide_eq_decide.mpr hcur]
      exact h.call i d hi
  · by_cases hij : i = j
    · subst hij
      rw [update_self] at hi
      cases hi
    · rw [update_of_ne hij] at hi
      obtain ⟨hcur, hstage⟩ := hmove.frame hcall hij
      rw [hstage, ne_eq, hcur]
      exact h.absent i hi
  · rw [update_of_ne (by omega)]
    exact h.fresh i hi

theorem jobAlloc_ok (fn : φ) (arg : Option α) (timeout : Nat) (calloc malloc : Bool) :
    CallOk (jobAlloc fn arg timeout calloc malloc) false .off := by
  cases calloc with
  | false =>
    exact .ended rfl rfl rfl (Nat.zero_le _) (Nat.zero_le _) (Nat.zero_le _) nofun fun _ _ => rfl
  | true =>
    cases arg with
    | none => exact .apart (.inl ⟨rfl, rfl⟩) ⟨rfl, rfl, rfl, rfl⟩ rfl rfl rfl rfl
    | some a =>
      cases malloc with
      | false =>
        exact .ended rfl rfl rfl (Nat.le_refl _) (Nat.zero_le _) (Nat.zero_le _) nofun
          fun _ _ => rfl
      | true => exact .apart (.inl ⟨rfl, rfl⟩) ⟨rfl, rfl, rfl, rfl⟩ rfl rfl rfl rfl

theorem JobsInv.newCall {fn : φ} {arg : Option α} {timeout : Nat} {calloc malloc : Bool}
    (h : JobsInv s) (hs : jobStep s (.call fn arg timeout calloc malloc) = some s') :
    JobsInv s' := by
  obtain ⟨hcur, hstage⟩ := h.absent s.next (h.fresh s.next (Nat.le_refl _))
  cases hs
  refine ⟨h.fault, fun i d hi => ?_, fun i hi => ?_, fun i hi => ?_⟩
  all_goals dsimp only at hi ⊢
  · by_cases hij : i = s.next
    · subst hij
      rw [update_self] at hi
      rw [← Option.some.inj hi, decide_eq_false hcur, hstage]
      exact jobAlloc_ok fn arg timeout calloc malloc
    · rw [update_of_ne hij] at hi
      exact h.call i d hi
  · by_cases hij : i = s.next
    · subst hij
      rw [update_self] at hi
      cases hi
    · rw [update_of_ne hij] at hi
      exact h.absent i hi
  · rw [update_of_ne (by omega)]
    exact h.fresh i (by omega)

theorem jobStep_inv (h : JobsInv s) (hs : jobStep s op = some s') :
    JobsInv s' := by
  obtain ⟨fn, arg, timeout, calloc, malloc, rfl⟩ | ⟨j, c, c', cur, w, ok, hj, hmove, rfl⟩ :=
    jobStep_move hs
  · exact h.newCall hs
  · exact h.move hj hmove

theorem jobsInit_inv : JobsInv (jobsInit : Jobs φ α) :=
  ⟨rfl, nofun, fun _ _ => ⟨nofun, rfl⟩, fun _ _ => rfl⟩

theorem JobsInv.cur_of_current (h : JobsInv s) (hj : s.Current j) : s.cur = some j := by
  have hat : ∀ st, (st = .taken ∨ st = .inFn ∨ st = .ran) → s.worker.stage j = st →
      s.cur = some j := by
    intro st hst hstage
    cases hc : s.calls j with
    | none =>
      rw [(h.absent j hc).2] at hstage
      rw [← hstage] at hst
      rcases hst with hst | hst | hst <;> cases hst
    | some c =>
      have hok := h.call j c hc
      rw [hstage] at hok
      exact of_decide_eq_true (hok.of_working hst).1
  rcases hj with hw | hw | hw | ⟨c, waited, hc, hpc, hd⟩
  · exact hat .taken (.inl rfl) (by rw [hw]; exact if_pos rfl)
  · exact hat .inFn (.inr (.inl rfl)) (by rw [hw]; exact if_pos rfl)
  · exact hat .ran (.inr (.inr rfl)) (by rw [hw]; exact if_pos rfl)
  · exact of_decide_eq_true (((h.call j c hc).of_waiting hpc).2.2 hd).1

/-! ## Work left -/

/-- Every step but a new call and a round of the caller's loop that finds nothing. -/
def JobOp.isInternal : JobOp φ α → Bool
  | .call .. | .sleep _ => false
  | _ => true

def CallAt.left : CallAt → Nat
  | .ready => 3
  | .waiting _ => 2
  | .refused | .seenDone | .timedOut => 1
  | .returned .. => 0

/-- What the caller has before it, and the event loop until it starts the job. -/
def callLeft (c : Call φ α) : Nat := c.pc.left + if c.job.started then 0 else 6

def JobWorker.left : JobWorker → Nat
  | .loop => 0
  | .taken _ => 5
  | .inFn _ => 4
  | .ran _ => 3
  | .release _ => 1

def jobsLeft (s : Jobs φ α) : Nat :=
  ∑ i ∈ Finset.range s.next, ((s.calls i).elim 0 callLeft) + s.worker.left

theorem JobMove.left {cur cur' : Option Nat} {w w' : JobWorker}
    (hmove : JobMove j c op cur w c' cur' w' ok) (hi : op.isInternal = true)
    (h : CallOk c (decide (cur = some j)) (w.stage j)) :
    callLeft c' + w'.left < callLeft c + w.left := by
  cases hmove with
  | sleep => cases hi
  | refuse hpc | install hpc | see hpc | leaveStarted hpc | withdraw hpc =>
    refine Nat.add_lt_add_right ?_ _
    simp [callLeft, hpc, CallAt.left]
  | free hpc =>
    refine Nat.add_lt_add_right (Nat.add_lt_add_right ?_ _) _
    rcases hpc with hpc | hpc | hpc <;> · rw [hpc]; exact Nat.zero_lt_one
  | take =>
    rw [decide_eq_true rfl] at h
    obtain ⟨_, _, _, _, hs, _⟩ := CallOk.of_queued h
    simp [callLeft, hs, JobWorker.left]
  | enter | leave | release => exact Nat.add_lt_add_left (by simp [JobWorker.left]) _
  | finish =>
    refine Nat.add_lt_add_left ?_ _
    split <;> simp [JobWorker.left]

theorem jobsLeft_put (h : JobsInv s) (hj : s.calls j = some c) (c' : Call φ α)
    (cur : Option Nat) (w : JobWorker) (ok : Bool) :
    jobsLeft { s.put j c' ok with cur := cur, worker := w } + callLeft c +
      s.worker.left = jobsLeft s + callLeft c' + w.left := by
  have hsum :=
    sum_update (Finset.mem_range.mpr (h.lt_next hj)) s.calls (Option.elim · 0 callLeft) (some c')
  rw [hj] at hsum
  simp only [jobsLeft, Jobs.put, elim_some] at hsum ⊢
  omega

theorem jobStep_left (h : JobsInv s) (hi : op.isInternal = true)
    (hs : jobStep s op = some s') : jobsLeft s' < jobsLeft s := by
  obtain ⟨fn, arg, timeout, calloc, malloc, rfl⟩ | ⟨j, c, c', cur, w, ok, hj, hmove, rfl⟩ :=
    jobStep_move hs
  · cases hi
  · have hlt := hmove.left hi (h.call j c hj)
    have heq := jobsLeft_put h hj c' cur w ok
    omega

/-- A call is back and its memory has been given back. -/
def Call.Settled (c : Call φ α) : Prop :=
  (∃ ok started, c.pc = .returned ok started) ∧ c.frees = c.allocs ∧ c.argFrees = c.argAllocs

theorem JobsInv.settled_of_stuck (h : JobsInv s)
    (hstuck : ∀ op : JobOp φ α, op.isInternal = true → jobStep s op = none)
    (hj : s.calls j = some c) : c.Settled := by
  have hcalls : ∀ {i}, s.cur = some i ∨ s.worker.stage i ≠ .off → ∃ d, s.calls i = some d := by
    intro i hi
    cases hc : s.calls i with
    | none =>
      obtain ⟨hcur, hoff⟩ := h.absent i hc
      rcases hi with hi | hi
      · exact absurd hi hcur
      · exact absurd hoff hi
    | some d => exact ⟨d, rfl⟩
  have hloop : s.worker = .loop := by
    cases hw : s.worker with
    | loop => rfl
    | taken i =>
      obtain ⟨d, hd⟩ := hcalls (.inr (show s.worker.stage i ≠ .off by simp [hw, JobWorker.stage]))
      exact absurd (hstuck .enter rfl) (by simp [jobStep, hw, hd])
    | inFn i =>
      obtain ⟨d, hd⟩ := hcalls (.inr (show s.worker.stage i ≠ .off by simp [hw, JobWorker.stage]))
      exact absurd (hstuck .leave rfl) (by simp [jobStep, hw, hd])
    | ran i =>
      obtain ⟨d, hd⟩ := hcalls (.inr (show s.worker.stage i ≠ .off by simp [hw, JobWorker.stage]))
      exact absurd (hstuck .finish rfl) (by simp [jobStep, hw, hd])
    | release i =>
      obtain ⟨d, hd⟩ := hcalls (.inr (show s.worker.stage i ≠ .off by simp [hw, JobWorker.stage]))
      exact absurd (hstuck .release rfl) (by simp [jobStep, hw, hd])
  have hnone : s.cur = none := by
    cases hcur : s.cur with
    | none => rfl
    | some i =>
      obtain ⟨d, hd⟩ := hcalls (.inl hcur)
      exact absurd (hstuck .take rfl) (by simp [jobStep, hloop, hcur, hd])
  have hok := h.call j c hj
  rw [hloop, hnone] at hok
  cases hok with
  | apart hpc =>
    rcases hpc with ⟨hpc, _⟩ | hpc | hpc
    · exact absurd (hstuck (.install j) rfl) (by simp [jobStep, hj, hpc, hnone])
    · exact absurd (hstuck (.free j) rfl) (by simp [jobStep, hj, hpc])
    · exact absurd (hstuck (.free j) rfl) (by simp [jobStep, hj, hpc])
  | finished hpc _ hd =>
    rcases hpc with ⟨waited, hpc⟩ | hpc
    · exact absurd (hstuck (.poll j) rfl) (by simp [jobStep, hj, hpc, hd])
    · exact absurd (hstuck (.free j) rfl) (by simp [jobStep, hj, hpc])
  | ended hpc hf haf => exact ⟨⟨_, _, hpc⟩, hf, haf⟩

/-! ## The handshake -/

/-- In every state that callers and the event loop reach: nothing is used after it
was freed, a job is freed once at most and its function runs once at most, a call
that returned 0 has had its function run to the end, the function of a call that
returned -1 before the job was started has not run, and one job at most is
installed. And the threads come to an end of what they have to do, in a bounded
number of steps, with every call back and every object freed as often as it was
allocated. -/
theorem wpa_job_handshake {s : Jobs φ α} (h : Reach (· = jobsInit) jobStep Any s) :
    s.fault = false ∧ (∀ j c, s.calls j = some c → c.frees ≤ 1 ∧ c.argFrees ≤ 1 ∧ c.runs ≤ 1 ∧
      (∀ started, c.pc = .returned true started → c.completed = 1) ∧
      (c.pc = .returned false false → c.runs = 0)) ∧ (∀ i j, s.Current i → s.Current j → i = j) ∧
    (∀ ops s', (∀ op ∈ ops, op.isInternal = true) → runSteps jobStep s ops = some s' →
      ops.length ≤ jobsLeft s ∧
        (Stuck jobStep Any (·.isInternal = true) s' → ∀ j c, s'.calls j = some c → c.Settled)) ∧
    ∃ ops s', (∀ op ∈ ops, op.isInternal = true) ∧ runSteps jobStep s ops = some s' ∧
      ∀ j c, s'.calls j = some c → c.Settled := by
  have hinv : JobsInv s :=
    h.invariant (fun s hs => hs ▸ jobsInit_inv) fun _ _ _ hi _ hs => jobStep_inv hi hs
  have hdown : ∀ (s : Jobs φ α) (op : JobOp φ α) (s' : Jobs φ α), JobsInv s →
      op.isInternal = true → Any s op → jobStep s op = some s' →
      JobsInv s' ∧ jobsLeft s' < jobsLeft s :=
    fun _ _ _ hi hint _ hs => ⟨jobStep_inv hi hs, jobStep_left hi hint hs⟩
  have hlast : ∀ s : Jobs φ α, JobsInv s → Stuck jobStep Any (·.isInternal = true) s →
      ∀ j c, s.calls j = some c → c.Settled :=
    fun _ hi hstuck _ _ hj => hi.settled_of_stuck (fun op hop => hstuck op hop trivial) hj
  obtain ⟨hbound, ops, s', hint, _, hrun, hend⟩ := progress hdown hlast s hinv
  refine ⟨hinv.fault, fun j c hj => (hinv.call j c hj).safe, fun i j hi hj => ?_,
    fun ops s' hint hrun => hbound ops s' hint (runOk_any _ _) hrun, ops, s', hint, hrun, hend⟩
  have hcur := hinv.cur_of_current hi
  rw [hinv.cur_of_current hj] at hcur
  exact (Option.some.inj hcur).symm

/-- A caller gives up while its function runs, and a second one is refused
meanwhile. -/
def jobSample : List (JobOp Unit Unit) :=
  [.call () (some ()) 10 true true, .install 0, .take, .enter, .call () none 0 true true,
    .sleep 0, .poll 0, .install 1, .free 1, .leave, .finish, .release]

theorem wpa_job_handshake_sample :
    ∃ s : Jobs Unit Unit, Reach (· = jobsInit) jobStep Any s ∧
      (s.calls 0).map (fun c => (c.pc, c.frees, c.runs)) = some (.returned false true, 1, 1) ∧
      (s.calls 1).map (fun c => (c.pc, c.frees, c.runs)) = some (.returned false false, 1, 0) ∧
      s.fault = false := by
  obtain ⟨s, hs, hzero, hone⟩ : ∃ s : Jobs Unit Unit, Reach (· = jobsInit) jobStep Any s ∧
      (s.calls 0).map (fun c => (c.pc, c.frees, c.runs)) = some (.returned false true, 1, 1) ∧
      (s.calls 1).map (fun c => (c.pc, c.frees, c.runs)) = some (.returned false false, 1, 0) :=
    Reach.of_run jobSample rfl (runOk_any _ _) (by decide)
  exact ⟨s, hs, hzero, hone, (wpa_job_handshake hs).1⟩

end Net80211.Wpa
