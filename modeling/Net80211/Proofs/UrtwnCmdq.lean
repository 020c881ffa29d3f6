import Net80211.Lib.RingBuffer
import Net80211.Proofs.UsbWorkers
import Net80211.Urtwn.Cmdq

/-!
# No command of urtwn is lost

At any time one party has the duty to get the queued commands executed: a caller
of `urtwn_do_async` on its way to `usb_add_task`, the task in the ring of the
device, or the worker in `urtwn_task`. `Duty` lists the cases, and the steps pass
the duty on without dropping it, with two exceptions.

The worker resets the flag of the task only after `urtwn_task` has returned. A
command that comes between its last test and the reset is the first one in the
queue, so its caller calls `usb_add_task`, which finds the flag set and does
nothing. And the queue has 32 slots but tells full from empty by its two indices:
the 32nd command makes a full queue look empty.
-/

namespace Net80211.Urtwn

open Lib Usb List Function Option

/-! ## The ring -/

section CmdRing

variable {C : Type} {sc sc' : Softc C} {l : List C}

theorem urtwnDoAsync_frame (sc : Softc C) (c : C) :
    (urtwnDoAsync sc c).taskq = sc.taskq ∧ (urtwnDoAsync sc c).dying = sc.dying := by
  rw [urtwnDoAsync]
  split
  · exact ⟨rfl, rfl⟩
  · split <;> exact ⟨rfl, rfl⟩

/-- The ring has the commands `l`; the first is the one whose callback runs or is to run. -/
structure RingServes (l : List C) (sc : Softc C) : Prop where
  buffer : Holds hostCmdRingCount sc.cmdq.cmd sc.cmdq.next sc.cmdq.cur l
  queued : sc.cmdq.queued = l.length
  waiting : ¬ (sc.InTask ∧ sc.taskAt = .ran) → sc.accepted = sc.executed ++ l
  exec : sc.InTask → ∀ i, sc.taskAt = .exec i → i = sc.cmdq.next ∧ l ≠ []
  ran : sc.InTask → sc.taskAt = .ran → ∃ c rest done, l = c :: rest ∧ sc.executed = done ++ [c] ∧
    sc.accepted = sc.executed ++ rest

theorem RingServes.doAsync (h : RingServes l sc) (hd : sc.dying = false)
    (hroom : sc.cmdq.queued + 1 < hostCmdRingCount) (c : C) :
    RingServes (l ++ [c]) (urtwnDoAsync sc c) := by
  have hq := h.queued
  have hlen : l.length + 1 < hostCmdRingCount := by omega
  have hfull : ¬ sc.cmdq.queued = hostCmdRingCount := by omega
  simp only [urtwnDoAsync, hd, Bool.false_eq_true, if_false, hfull]
  refine ⟨h.buffer.push hlen c, ?_, fun hran => ?_, fun hin i hi => ?_, fun hin hat => ?_⟩
  · simp only [hq, length_append, length_singleton]
    omega
  · simp only [h.waiting hran, append_assoc]
  · exact ⟨(h.exec hin i hi).1, by simp⟩
  · obtain ⟨c0, rest, done, rfl, hex, hacc⟩ := h.ran hin hat
    exact ⟨c0, rest ++ [c], done, rfl, hex, by simp only [hacc, append_assoc]⟩

/-- The head of the loop of `urtwn_task`: it goes on exactly if there is a command. -/
theorem ringServes_test (hin : sc.InTask)
    (hb : Holds hostCmdRingCount sc.cmdq.cmd sc.cmdq.next sc.cmdq.cur l)
    (hq : sc.cmdq.queued = l.length) (ho : sc.accepted = sc.executed ++ l) :
    RingServes l (urtwnTaskTest sc) ∧ (¬ (urtwnTaskTest sc).InTask → l = []) := by
  rw [urtwnTaskTest]
  split
  · next hne =>
    refine ⟨⟨hb, hq, fun _ => ho, fun _ i hi => ?_, fun _ hat => ?_⟩, fun hout => absurd hin hout⟩
    · cases hi
      exact ⟨rfl, fun hnil => hne (hb.eq_iff.mpr hnil)⟩
    · cases hat
  · next heq =>
    refine ⟨⟨hb, hq, fun _ => ho, fun hout => ?_, fun hout => ?_⟩,
      fun _ => hb.eq_iff.mp (not_not.mp heq)⟩
    · cases hout
    · cases hout

theorem RingServes.outside (h : RingServes l sc) (hout : ¬ sc.InTask) {q : Taskq Unit}
    {pos : TaskAt} (hpos : q.worker = .running () → pos = .start) :
    RingServes l { sc with taskq := q, taskAt := pos } := by
  refine ⟨h.buffer, h.queued, fun _ => h.waiting fun hran => hout hran.1, fun hin i hi => ?_,
    fun hin hat => ?_⟩
  · cases (hpos hin).symm.trans hi
  · cases (hpos hin).symm.trans hat

theorem RingServes.test (h : RingServes l sc) (hs : cmdqStep sc .test = some sc') :
    sc.InTask ∧ sc' = urtwnTaskTest sc ∧ RingServes l sc' ∧ (¬ sc'.InTask → l = []) := by
  rw [cmdqStep] at hs
  split at hs
  · next hw hat =>
    cases hs
    have hacc := h.waiting fun hran => by rw [hat] at hran; cases hran.2
    exact ⟨hw, rfl, ringServes_test hw h.buffer h.queued hacc⟩
  · cases hs

theorem RingServes.call (h : RingServes l sc) (hs : cmdqStep sc .call = some sc') :
    sc.InTask ∧ sc'.taskq = sc.taskq ∧ sc'.scheduling = sc.scheduling ∧ RingServes l sc' := by
  rw [cmdqStep] at hs
  split at hs
  · next i hw hat =>
    cases hs
    obtain ⟨rfl, hne⟩ := h.exec hw i hat
    obtain ⟨c, rest, rfl⟩ := exists_cons_of_ne_nil hne
    have hacc := h.waiting fun hran => by rw [hat] at hran; cases hran.2
    refine ⟨hw, rfl, rfl, h.buffer, h.queued, fun hran => absurd ⟨hw, rfl⟩ hran,
      (fun _ i hi => by cases hi), fun _ _ => ?_⟩
    -- The slot of the callback is the front of the queue.
    refine ⟨c, rest, sc.executed, rfl, ?_, ?_⟩
    · rw [h.buffer.front]
    · simp only [h.buffer.front, hacc, append_assoc, singleton_append]
  · cases hs

theorem RingServes.relock (h : RingServes l sc) (hs : cmdqStep sc .relock = some sc') :
    sc.InTask ∧ ∃ l' sc₀, sc₀.scheduling = sc.scheduling ∧ sc₀.taskq = sc.taskq ∧
    sc' = urtwnTaskTest sc₀ ∧
      RingServes l' sc' ∧ (¬ sc'.InTask → l' = []) := by
  rw [cmdqStep] at hs
  split at hs
  · next hw hat =>
    cases hs
    obtain ⟨c, rest, done, rfl, hex, hacc⟩ := h.ran hw hat
    have hq := h.queued
    rw [length_cons] at hq
    refine ⟨hw, rest, _, ?_, ?_, rfl,
      ringServes_test hw h.buffer.pop (by simp only [hq]; omega) hacc⟩
    · rfl
    · rfl
  · cases hs

/-- Right after the creation, whatever is in the slots. -/
def cmdqInit (os : Os) (sc : Softc C) : Prop := ∃ cmd, sc = cmdqCreate cmd os

theorem ringServes_init {os : Os} (h : cmdqInit os sc) : RingServes [] sc := by
  obtain ⟨cmd, rfl⟩ := h
  refine ⟨holds_nil cmd (Nat.zero_lt_succ 31), rfl, fun _ => rfl, fun hin => ?_, fun hin => ?_⟩
  · cases hin
  · cases hin

end CmdRing

/-! ## Who has the duty -/

/-- `returned` and `returnedBusy` are between the last test and the reset of the
flag, without and with a caller on its way to `usb_add_task`. -/
inductive Duty where
  | idle
  | scheduled
  | ringed
  | inTask
  | returned
  | returnedBusy
  deriving DecidableEq, Repr

namespace Duty

/-- No command is queued. -/
def quiet : Duty → Bool
  | .idle | .returned => true
  | _ => false

def scheduling : Duty → Nat
  | .scheduled | .returnedBusy => 1
  | _ => 0

def queue : Duty → Bool
  | .idle | .scheduled => false
  | _ => true

def ring : Duty → List Unit
  | .ringed => [()]
  | _ => []

def worker : Duty → TaskWorker Unit
  | .inTask => .running ()
  | .returned | .returnedBusy => .returned ()
  | _ => .loop

/-- A command comes in. -/
def busy : Duty → Duty
  | .idle => .scheduled
  | .returned => .returnedBusy
  | d => d

end Duty

variable {C : Type} {sc sc' : Softc C} {d : Duty} {l : List C} {op : CmdOp C}
  {r : TokenRing Sem Unit}

/-- The state under a duty with the commands `l` in the queue. -/
structure Serves (d : Duty) (l : List C) (sc : Softc C) : Prop extends RingServes l sc where
  quiet : l = [] ↔ d.quiet = true
  scheduling : sc.scheduling = d.scheduling
  queue : sc.taskq.queue () = d.queue
  ring : sc.taskq.tasks.ring = d.ring
  tokens : sc.taskq.tasks.tokens = d.ring.length
  worker : sc.taskq.worker = d.worker

theorem Serves.ne_nil (h : Serves d l sc) (hd : d.quiet = false) : l ≠ [] := by
  intro hl
  rw [h.quiet.mp hl] at hd
  cases hd

/-! ## The steps -/

/-- Room for one more command, and a task that may be queued again. -/
def CmdqOk (sc : Softc C) : CmdOp C → Prop
  | .doAsync _ => sc.dying = false → sc.cmdq.queued + 1 < hostCmdRingCount
  | .addTask => sc.taskq.queue () = false
  | _ => True

instance decidableCmdqOk (sc : Softc C) (op : CmdOp C) : Decidable (CmdqOk sc op) := by
  cases op <;> unfold CmdqOk <;> infer_instance

theorem Serves.doAsync (h : Serves d l sc) (hd : sc.dying = false)
    (hroom : sc.cmdq.queued + 1 < hostCmdRingCount) (c : C) :
    Serves d.busy (l ++ [c]) (urtwnDoAsync sc c) := by
  have hq := h.queued
  have hfull : ¬ sc.cmdq.queued = hostCmdRingCount := by omega
  have hring := h.toRingServes.doAsync hd hroom c
  simp only [urtwnDoAsync, hd, Bool.false_eq_true, if_false, hfull] at hring ⊢
  refine ⟨hring, ?_, ?_, ?_, ?_, ?_, ?_⟩
  · constructor
    · intro hnil
      exact absurd hnil (by simp)
    · intro hquiet
      cases d <;> cases hquiet
  · -- The caller schedules the task where it finds the queue empty.
    have hzero : sc.cmdq.queued = 0 ↔ d.quiet = true := by
      rw [← h.quiet, hq, ← length_eq_zero_iff]
      omega
    simp only [hzero, h.scheduling]
    cases d <;> rfl
  · rw [show sc.taskq.queue () = d.queue from h.queue]
    cases d <;> rfl
  · rw [show sc.taskq.tasks.ring = d.ring from h.ring]
    cases d <;> rfl
  · rw [show _ = d.ring.length from h.tokens]
    cases d <;> rfl
  · rw [show sc.taskq.worker = d.worker from h.worker]
    cases d <;> rfl

theorem Serves.addTask (h : Serves d l sc) (hq : sc.taskq.queue () = false)
    (hs : cmdqStep sc .addTask = some sc') : Serves .ringed l sc' := by
  rw [cmdqStep] at hs
  split at hs
  · cases hs
  next hsched =>
  cases hs
  rw [h.scheduling] at hsched
  have hd : d = .scheduled := by
    rw [h.queue] at hq
    cases d <;> first | rfl | exact absurd rfl hsched | cases hq
  subst hd
  have hring : sc.taskq.tasks.ring = [] := h.ring
  have htokens := h.tokens
  have hadd : usbAddTask sc.taskq () = { sc.taskq with
      queue := update sc.taskq.queue () true
      tasks := sc.taskq.tasks.post usbdShimRing () } := by
    rw [usbAddTask, if_neg (by rw [hq, hring]; decide)]
  rw [hadd]
  refine ⟨⟨h.buffer, h.queued, h.waiting, h.exec, h.ran⟩, h.quiet, ?_, ?_, ?_, ?_, h.worker⟩
  · simp only [h.scheduling]
    rfl
  · simp only [update_self]
    rfl
  · simp only [TokenRing.post, hring]
    rfl
  · simp only [TokenRing.tokens_post, h.tokens]
    rfl

theorem taskqUnder_some {op : TaskOp Unit} (hs : taskqUnder sc op = some sc') :
    ∃ q, taskqStep sc.taskq op = some q ∧ sc' = { sc with taskq := q } := by
  rw [taskqUnder] at hs
  split at hs
  · cases hs
  · next q hq =>
    cases hs
    exact ⟨q, hq, rfl⟩

theorem taskqUnder_none {op : TaskOp Unit} (hs : taskqUnder sc op = none) :
    taskqStep sc.taskq op = none := by
  rw [taskqUnder] at hs
  split at hs
  · next hnone => exact hnone
  · cases hs

theorem Serves.tokens_move (h : Serves d l sc) (hring : r.ring = sc.taskq.tasks.ring)
    (htokens : r.tokens = sc.taskq.tasks.tokens) :
    Serves d l { sc with taskq := { sc.taskq with tasks := r } } :=
  ⟨⟨h.buffer, h.queued, h.waiting, h.exec, h.ran⟩, h.quiet, h.scheduling, h.queue,
    hring.trans h.ring, htokens.trans h.tokens, h.worker⟩

theorem Serves.give (h : Serves d l sc) (hs : cmdqStep sc .give = some sc') : Serves d l sc' := by
  obtain ⟨q, hq, rfl⟩ := taskqUnder_some hs
  obtain ⟨r, hr, rfl⟩ := taskqStep_give hq
  -- There is one entry at most, so the token on its way is the only one.
  have hcount : sc.taskq.tasks.sem.count = 0 := by
    have htokens : sc.taskq.tasks.sem.count + sc.taskq.tasks.givers + sc.taskq.tasks.held.toNat =
        d.ring.length := h.tokens
    have hlen : d.ring.length ≤ 1 := by cases d <;> decide
    have hgivers := (TokenRing.give_some hr).1
    omega
  exact h.tokens_move (TokenRing.ring_give hr)
    (TokenRing.tokens_give (Sem.count_give fun _ => hcount) hr)

theorem Serves.take (h : Serves d l sc) (hs : cmdqStep sc .take = some sc') : Serves d l sc' := by
  obtain ⟨q, hq, rfl⟩ := taskqUnder_some hs
  obtain ⟨_, r, hr, rfl⟩ := taskqStep_take hq
  exact h.tokens_move (TokenRing.ring_take hr) (TokenRing.tokens_take hr)

theorem Serves.pop_ringed {o : Option Unit} (h : Serves d l sc)
    (hr : sc.taskq.tasks.pop = some (r, o)) :
    d = .ringed ∧ o = some () ∧ r.ring = [] ∧ r.tokens = 0 := by
  have htokens := TokenRing.tokens_pop hr
  obtain ⟨_, hring, hnil, _⟩ := TokenRing.pop_some hr
  rw [h.tokens] at htokens
  have hd : d = .ringed := by
    cases d <;> first | rfl | cases htokens
  subst hd
  rw [h.ring] at hring hnil
  cases o with
  | none => exact absurd (hnil rfl) (by decide)
  | some t => exact ⟨rfl, rfl, (cons.inj hring).2.symm, Nat.succ.inj htokens.symm⟩

theorem Serves.pop (h : Serves d l sc) (hs : cmdqStep sc .pop = some sc') :
    Serves .inTask l sc' := by
  obtain ⟨q, hq, rfl⟩ := taskqUnder_some hs
  obtain ⟨r, o, hr, rfl⟩ := taskqStep_pop hq
  obtain ⟨rfl, rfl, hring, hzero⟩ := h.pop_ringed hr
  have hout : ¬ sc.InTask := fun hin => by cases hin.symm.trans h.worker
  exact ⟨h.outside hout fun _ => rfl, h.quiet, h.scheduling, h.queue, hring, hzero, rfl⟩

/-- The head of the loop with `l` to do: the first command, or out of the function. -/
theorem serves_test {sc₀ : Softc C} {l₀ : List C} (h : Serves .inTask l₀ sc₀)
    (hsc : sc.scheduling = sc₀.scheduling) (htq : sc.taskq = sc₀.taskq)
    (hr : RingServes l (urtwnTaskTest sc)) (hnil : ¬ (urtwnTaskTest sc).InTask → l = []) :
    ∃ d, Serves d l (urtwnTaskTest sc) := by
  have hsched : sc.scheduling = 0 := hsc.trans h.scheduling
  have hqueue : sc.taskq.queue () = true := by rw [htq]; exact h.queue
  have hring : sc.taskq.tasks.ring = [] := by rw [htq]; exact h.ring
  have htokens : sc.taskq.tasks.tokens = 0 := by rw [htq]; exact h.tokens
  have hworker : sc.taskq.worker = .running () := htq ▸ h.worker
  rw [urtwnTaskTest] at hr hnil ⊢
  split at hr
  · next hne =>
    rw [if_pos hne] at hnil ⊢
    refine ⟨.inTask, hr, ?_, hsched, hqueue, hring, htokens, hworker⟩
    exact ⟨fun hl => absurd hl (hr.exec hworker _ rfl).2, fun hf => by cases hf⟩
  · next heq =>
    rw [if_neg heq] at hnil ⊢
    refine ⟨.returned, hr, ?_, hsched, hqueue, hring, htokens, rfl⟩
    exact ⟨fun _ => rfl, fun _ => hnil fun hin => by cases hin⟩

theorem Serves.inTask_of (h : Serves d l sc) (hw : sc.taskq.worker = .running ()) :
    d = .inTask := by
  rw [h.worker] at hw
  cases d <;> first | rfl | cases hw

theorem Serves.test (h : Serves d l sc) (hs : cmdqStep sc .test = some sc') :
    ∃ d', Serves d' l sc' := by
  obtain ⟨hin, rfl, hr, hnil⟩ := h.toRingServes.test hs
  cases h.inTask_of hin
  exact serves_test h rfl rfl hr hnil

theorem Serves.call (h : Serves d l sc) (hs : cmdqStep sc .call = some sc') : Serves d l sc' := by
  obtain ⟨-, htq, hsc, hr⟩ := h.toRingServes.call hs
  refine ⟨hr, h.quiet, hsc.trans h.scheduling, ?_, ?_, ?_, ?_⟩ <;> rw [htq]
  exacts [h.queue, h.ring, h.tokens, h.worker]

theorem Serves.relock (h : Serves d l sc) (hs : cmdqStep sc .relock = some sc') :
    ∃ d' l', Serves d' l' sc' := by
  obtain ⟨hin, l', sc₀, hsc, htq, rfl, hr, hnil⟩ := h.toRingServes.relock hs
  cases h.inTask_of hin
  exact Exists.imp (fun d' hd' => ⟨l', hd'⟩) (serves_test h hsc htq hr hnil)

theorem Serves.reset (h : Serves d l sc) (hs : cmdqStep sc .reset = some sc') :
    ∃ d', Serves d' l sc' := by
  obtain ⟨q, hq, rfl⟩ := taskqUnder_some hs
  rw [taskqStep] at hq
  split at hq
  · next t hw =>
    cases hq
    have hqueue : update sc.taskq.queue t false () = false := update_self _ _ _
    have hout : ¬ sc.InTask := fun hin => by cases hin.symm.trans hw
    have hr :
        RingServes l
        { sc with taskq :=
          { sc.taskq with queue := update sc.taskq.queue t false, worker := .loop } } :=
      h.outside hout fun hin => by cases hin
    rw [h.worker] at hw
    cases d with
    | idle | scheduled | ringed | inTask => cases hw
    | returned => exact ⟨.idle, hr, h.quiet, h.scheduling, hqueue, h.ring, h.tokens, rfl⟩
    | returnedBusy => exact ⟨.scheduled, hr, h.quiet, h.scheduling, hqueue, h.ring, h.tokens, rfl⟩
  · cases hq

/-- Everything but a caller and the end of the device. -/
def CmdOp.isInternal : CmdOp C → Bool
  | .doAsync _ | .die => false
  | _ => true

theorem cmdqStep_frame (hi : op.isInternal = true) (hs : cmdqStep sc op = some sc') :
    sc'.accepted = sc.accepted ∧ sc'.dying = sc.dying := by
  have htest : ∀ sc : Softc C, (urtwnTaskTest sc).accepted = sc.accepted ∧
      (urtwnTaskTest sc).dying = sc.dying := by
    intro sc
    rw [urtwnTaskTest]
    split <;> exact ⟨rfl, rfl⟩
  cases op with
  | doAsync c | die => cases hi
  | addTask | call =>
    rw [cmdqStep] at hs
    split at hs <;> cases hs
    exact ⟨rfl, rfl⟩
  | give | take | pop | reset =>
    obtain ⟨q, _, rfl⟩ := taskqUnder_some hs
    exact ⟨rfl, rfl⟩
  | test | relock =>
    rw [cmdqStep] at hs
    split at hs <;> cases hs
    exact htest _

/-- While the device lives, somebody has the duty. -/
def CmdqInv (sc : Softc C) : Prop := sc.dying = false → ∃ d l, Serves d l sc

theorem cmdqStep_inv (h : CmdqInv sc) (hok : CmdqOk sc op)
    (hs : cmdqStep sc op = some sc') : CmdqInv sc' := by
  intro hd'
  have hd : sc.dying = false := by
    cases hi : op.isInternal with
    | true => exact (cmdqStep_frame hi hs).2 ▸ hd'
    | false =>
      cases op with
      | doAsync c =>
        cases hs
        exact (urtwnDoAsync_frame sc c).2 ▸ hd'
      | die =>
        cases hs
        cases hd'
      | _ => cases hi
  obtain ⟨d, l, hsv⟩ := h hd
  cases op with
  | doAsync c =>
    cases hs
    exact ⟨_, _, hsv.doAsync hd (hok hd) c⟩
  | die =>
    cases hs
    cases hd'
  | addTask => exact ⟨_, _, hsv.addTask hok hs⟩
  | give => exact ⟨d, l, hsv.give hs⟩
  | take => exact ⟨d, l, hsv.take hs⟩
  | pop => exact ⟨_, l, hsv.pop hs⟩
  | test => exact Exists.imp (fun d' hd' => ⟨l, hd'⟩) (hsv.test hs)
  | call => exact ⟨d, l, hsv.call hs⟩
  | relock => exact hsv.relock hs
  | reset => exact Exists.imp (fun d' hd' => ⟨l, hd'⟩) (hsv.reset hs)

/-! ## Work left -/

/-- What the worker has before it in this round of its loop. -/
def taskLeft : TaskWorker Unit → TaskAt → Nat
  | .loop, _ => 0
  | .returned (), _ => 1
  | .running (), .start => 3
  | .running (), .exec _ => 2
  | .running (), .ran => 1

def cmdqLoad (sc : Softc C) : Nat :=
  3 * sc.cmdq.queued.toNat + 7 * sc.scheduling + 3 * sc.taskq.tasks.ring.length +
    sc.taskq.tasks.weight + taskLeft sc.taskq.worker sc.taskAt

/-- The head of the loop costs nothing where a command or the way out is left. -/
theorem cmdqLoad_test (hw : sc.taskq.worker = .running ()) :
    cmdqLoad (urtwnTaskTest sc) ≤ cmdqLoad { sc with taskAt := .exec 0 } := by
  rw [urtwnTaskTest]
  split <;>
  · simp only [cmdqLoad, hw, taskLeft]
    omega

theorem cmdqStep_load (h : Serves d l sc) (hi : op.isInternal = true)
    (hs : cmdqStep sc op = some sc') : cmdqLoad sc' < cmdqLoad sc := by
  cases op with
  | doAsync c | die => cases hi
  | addTask =>
    rw [cmdqStep] at hs
    split at hs
    · cases hs
    next hsched =>
    cases hs
    rw [usbAddTask]
    split
    · simp only [cmdqLoad]
      omega
    · simp only [cmdqLoad, TokenRing.post, TokenRing.weight]
      split
      · rw [length_append, length_singleton]
        omega
      · omega
  | give =>
    obtain ⟨q, hq, rfl⟩ := taskqUnder_some hs
    obtain ⟨r, hr, rfl⟩ := taskqStep_give hq
    have hload := TokenRing.load_give 3 (Sem.count_give_le _) hr
    simp only [cmdqLoad]
    omega
  | take =>
    obtain ⟨q, hq, rfl⟩ := taskqUnder_some hs
    obtain ⟨_, r, hr, rfl⟩ := taskqStep_take hq
    have hload := TokenRing.load_take 3 hr
    simp only [cmdqLoad]
    omega
  | pop =>
    obtain ⟨q, hq, rfl⟩ := taskqUnder_some hs
    obtain ⟨r, o, hr, rfl⟩ := taskqStep_pop hq
    have hload := TokenRing.load_pop (r := sc.taskq.tasks) 3 hr
    obtain ⟨rfl, rfl, _, _⟩ := h.pop_ringed hr
    have hworker : sc.taskq.worker = .loop := h.worker
    rw [toList_some, length_singleton] at hload
    simp only [cmdqLoad, hworker, Option.elim, taskLeft]
    omega
  | test =>
    rw [cmdqStep] at hs
    split at hs
    · next hw hat =>
      cases hs
      have hle := cmdqLoad_test hw
      simp only [cmdqLoad, hw, hat, taskLeft] at hle ⊢
      omega
    · cases hs
  | call =>
    rw [cmdqStep] at hs
    split at hs
    · next i hw hat =>
      cases hs
      simp only [cmdqLoad, hw, hat, taskLeft]
      omega
    · cases hs
  | relock =>
    rw [cmdqStep] at hs
    split at hs
    · next hw hat =>
      cases hs
      cases h.inTask_of hw
      have hpos : 0 < l.length := length_pos_iff.mpr (h.ne_nil rfl)
      have hq := h.queued
      refine Nat.lt_of_le_of_lt (cmdqLoad_test hw) ?_
      simp only [cmdqLoad, hw, hat, taskLeft]
      omega
    · cases hs
  | reset =>
    obtain ⟨q, hq, rfl⟩ := taskqUnder_some hs
    rw [taskqStep] at hq
    split at hq
    · next t hw =>
      cases hq
      simp only [cmdqLoad, hw, taskLeft]
      omega
    · cases hq

theorem Serves.executed_of_stuck (h : Serves d l sc)
    (hstuck : Stuck cmdqStep CmdqOk (fun op => op.isInternal = true) sc) :
    sc.executed = sc.accepted ∧ sc.cmdq.queued = 0 := by
  have hworker := h.worker
  cases d with
  | idle =>
    have hout : ¬ sc.InTask := fun hin => by cases hin.symm.trans hworker
    have hacc := h.waiting fun hran => hout hran.1
    have hq := h.queued
    rw [h.quiet.mpr rfl] at hacc hq
    exact ⟨by rw [hacc, append_nil], hq⟩
  | scheduled =>
    have hadd := hstuck .addTask rfl h.queue
    rw [cmdqStep, if_neg (by rw [h.scheduling]; decide)] at hadd
    cases hadd
  | ringed =>
    -- The task in the ring has its token, and some step moves it.
    have hpop := taskqUnder_none
      (show taskqUnder { sc with taskAt := .start } .pop = none from hstuck .pop rfl trivial)
    have hnil := taskq_ring_eq_nil (Nat.le_of_eq (by rw [h.ring, h.tokens])) hworker
      hpop (taskqUnder_none (hstuck .take rfl trivial))
      fun _ => taskqUnder_none (hstuck .give rfl trivial)
    exact absurd (h.ring.symm.trans hnil) (by decide)
  | inTask =>
    cases hat : sc.taskAt with
    | start =>
      have htest := hstuck .test rfl trivial
      rw [cmdqStep, hworker, hat] at htest
      cases htest
    | exec i =>
      have hcall := hstuck .call rfl trivial
      rw [cmdqStep, hworker, hat] at hcall
      cases hcall
    | ran =>
      have hrelock := hstuck .relock rfl trivial
      rw [cmdqStep, hworker, hat] at hrelock
      cases hrelock
  | returned | returnedBusy =>
    have hreset := taskqUnder_none (hstuck .reset rfl trivial)
    rw [taskqStep, hworker] at hreset
    cases hreset

theorem cmdqInv_init {os : Os} (h : cmdqInit os sc) : CmdqInv sc := by
  have hr := ringServes_init h
  obtain ⟨cmd, rfl⟩ := h
  intro _
  refine ⟨.idle, [], hr, ⟨fun _ => rfl, fun _ => rfl⟩, rfl, rfl, rfl, ?_, rfl⟩
  cases os <;> rfl

/-- In a run in which no command finds the queue full but for one slot and every
call of `usb_add_task` finds the flag of the task clear: where a command is
queued and no caller is on its way to `usb_add_task`, the task is in the ring or
the worker is in `urtwn_task` before its last test; and without another call
every accepted command is executed, in the order in which they came. -/
theorem urtwn_no_lost_command (os : Os) (sc : Softc C)
    (h : Reach (cmdqInit os) cmdqStep CmdqOk sc) (hd : sc.dying = false) :
    (sc.scheduling = 0 → 0 < sc.cmdq.queued → () ∈ sc.taskq.tasks.ring ∨ sc.InTask) ∧
    (∀ ops sc', (∀ op ∈ ops, op.isInternal = true) → runOk cmdqStep CmdqOk sc ops →
      runSteps cmdqStep sc ops = some sc' → ops.length ≤ cmdqLoad sc ∧
        (Stuck cmdqStep CmdqOk (fun op => op.isInternal = true) sc' →
          sc'.executed = sc.accepted ∧ sc'.cmdq.queued = 0)) ∧
    (∃ ops sc', (∀ op ∈ ops, op.isInternal = true) ∧ runOk cmdqStep CmdqOk sc ops ∧
      runSteps cmdqStep sc ops = some sc' ∧ sc'.executed = sc.accepted ∧ sc'.cmdq.queued = 0) := by
  have hinv : CmdqInv sc := h.invariant (fun _ => cmdqInv_init) fun _ _ _ => cmdqStep_inv
  -- What the internal steps keep: the duty, the device and the accepted commands.
  have hdown : ∀ (s : Softc C) (op : CmdOp C) (s' : Softc C),
      (CmdqInv s ∧ s.dying = false ∧ s.accepted = sc.accepted) → op.isInternal = true →
      CmdqOk s op → cmdqStep s op = some s' →
      (CmdqInv s' ∧ s'.dying = false ∧ s'.accepted = sc.accepted) ∧ cmdqLoad s' < cmdqLoad s := by
    rintro s op s' ⟨hi, hd, ha⟩ hint hok hs
    obtain ⟨hacc, hdying⟩ := cmdqStep_frame hint hs
    obtain ⟨d, l, hsv⟩ := hi hd
    exact ⟨⟨cmdqStep_inv hi hok hs, hdying.trans hd, hacc.trans ha⟩, cmdqStep_load hsv hint hs⟩
  have hend : ∀ s : Softc C, (CmdqInv s ∧ s.dying = false ∧ s.accepted = sc.accepted) →
      Stuck cmdqStep CmdqOk (fun op => op.isInternal = true) s →
      s.executed = sc.accepted ∧ s.cmdq.queued = 0 := by
    rintro s ⟨hi, hd, ha⟩ hstuck
    obtain ⟨d, l, hsv⟩ := hi hd
    obtain ⟨hex, hq⟩ := hsv.executed_of_stuck hstuck
    exact ⟨hex.trans ha, hq⟩
  refine ⟨?_, progress hdown hend sc ⟨hinv, hd, rfl⟩⟩
  intro hsched hq
  obtain ⟨d, l, hsv⟩ := hinv hd
  have hl : l ≠ [] := by
    rintro rfl
    rw [hsv.queued] at hq
    cases hq
  rw [hsv.scheduling] at hsched
  rw [hsv.ring, Softc.InTask, hsv.worker]
  cases d with
  | idle | returned => exact absurd (hsv.quiet.mpr rfl) hl
  | scheduled | returnedBusy => cases hsched
  | ringed => exact .inl mem_cons_self
  | inTask => exact .inr rfl

/-! ### Two runs -/

/-- One command up to the last test of `urtwn_task`. -/
def cmdSampleFirst : List (CmdOp Bool) :=
  [.doAsync false, .addTask, .give, .take, .pop, .test, .call, .relock]

/-- The second command comes between the last test and the reset of the flag. It
stays in the queue, the task is in no ring, the worker sleeps, and no step is
left. -/
theorem urtwn_command_lost :
    ∃ sc : Softc Bool, Reach (cmdqInit .embox) cmdqStep Any sc ∧ sc.dying = false ∧
      sc.scheduling = 0 ∧ sc.cmdq.queued = 1 ∧ sc.taskq.tasks.ring = [] ∧ sc.taskq.Blocked ∧
      sc.accepted = [false, true] ∧ sc.executed = [false] ∧
      Stuck cmdqStep Any (fun op => op.isInternal = true) sc := by
  obtain ⟨sc, hreach, hd, hsched, hq, hring, ⟨hw, hh, ht⟩, hacc, hex, hg⟩ :
      ∃ sc : Softc Bool, Reach (cmdqInit .embox) cmdqStep Any sc ∧
        sc.dying = false ∧ sc.scheduling = 0 ∧ sc.cmdq.queued = 1 ∧ sc.taskq.tasks.ring = [] ∧
        (sc.taskq.worker = .loop ∧ sc.taskq.tasks.held = false ∧ sc.taskq.tasks.sem.take = none) ∧
        sc.accepted = [false, true] ∧ sc.executed = [false] ∧ sc.taskq.tasks.givers = 0 :=
    Reach.of_run (cmdSampleFirst ++ [.doAsync true, .addTask, .reset])
      ⟨fun _ => false, rfl⟩ (runOk_any _ _) (by decide)
  refine ⟨sc, hreach, hd, hsched, hq, hring, ⟨hw, hh, ht⟩, hacc, hex, ?_⟩
  intro op hint _
  cases op with
  | doAsync c | die => cases hint
  | addTask => simp [cmdqStep, hsched]
  | give => simp [cmdqStep, taskqUnder, taskqStep, TokenRing.give, hg]
  | take =>
    simp [cmdqStep, taskqUnder, taskqStep, TokenRing.take, hw, hh,
      show Semaphore.take sc.taskq.tasks.sem = none from ht]
  | pop => simp [cmdqStep, taskqUnder, taskqStep, TokenRing.pop, hh]
  | test | call | relock => simp [cmdqStep, hw]
  | reset => simp [cmdqStep, taskqUnder, taskqStep, hw]

/-- The same commands with the second one after the reset. -/
theorem urtwn_no_lost_command_sample :
    ∃ sc : Softc Bool, Reach (cmdqInit .freertos) cmdqStep CmdqOk sc ∧ sc.dying = false ∧
      sc.cmdq.queued = 1 ∧ (() ∈ sc.taskq.tasks.ring ∨ sc.InTask) := by
  obtain ⟨sc, hreach, hd, hsched, hq⟩ :
      ∃ sc : Softc Bool, Reach (cmdqInit .freertos) cmdqStep CmdqOk sc ∧
        sc.dying = false ∧ sc.scheduling = 0 ∧ sc.cmdq.queued = 1 :=
    Reach.of_run (cmdSampleFirst ++ [.reset, .doAsync true, .addTask])
      ⟨fun _ => false, rfl⟩ (by decide) (by decide)
  exact ⟨sc, hreach, hd, hq, (urtwn_no_lost_command .freertos sc hreach hd).1 hsched
    (by rw [hq]; decide)⟩

/-! ## The ring alone

Whoever calls `urtwn_task` and when: with room in the ring and a device that is not dying, it
executes the commands that were accepted, in their order, and returns when there are none. -/

/-- Room for one more command, and the device is not dying. -/
def CmdRingOk (sc : Softc C) : CmdRingOp C → Prop
  | .doAsync _ => sc.dying = false ∧ sc.cmdq.queued + 1 < hostCmdRingCount
  | _ => True

instance decidableCmdRingOk (sc : Softc C) (op : CmdRingOp C) : Decidable (CmdRingOk sc op) := by
  cases op <;> unfold CmdRingOk <;> infer_instance

theorem RingServes.step {op : CmdRingOp C} (h : RingServes l sc) (hok : CmdRingOk sc op)
    (hs : cmdRingStep sc op = some sc') :
    ∃ l', RingServes l' sc' ∧ (sc.InTask → ¬ sc'.InTask → l' = []) := by
  cases op with
  | doAsync c =>
    cases hs
    refine ⟨_, h.doAsync hok.1 hok.2 c, fun hin hout => absurd ?_ hout⟩
    rw [Softc.InTask, (urtwnDoAsync_frame sc c).1]
    exact hin
  | die =>
    cases hs
    exact ⟨l, ⟨h.buffer, h.queued, h.waiting, h.exec, h.ran⟩, fun hin hout => absurd hin hout⟩
  | task =>
    rw [cmdRingStep] at hs
    split at hs
    · cases hs
    · next hw =>
      cases hs
      exact ⟨l, h.outside hw fun _ => rfl, fun hin => absurd hin hw⟩
  | test =>
    obtain ⟨-, -, hr, hnil⟩ := h.test hs
    exact ⟨l, hr, fun _ => hnil⟩
  | call =>
    obtain ⟨-, htq, -, hr⟩ := h.call hs
    refine ⟨l, hr, fun hin hout => absurd ?_ hout⟩
    rw [Softc.InTask, htq]
    exact hin
  | relock =>
    obtain ⟨-, l', -, -, -, -, hr, hnil⟩ := h.relock hs
    exact ⟨l', hr, fun _ => hnil⟩

/-- In every run in which a command comes only while the device is not dying and leaves a slot of
the ring free: the callbacks that ran are those of the first accepted commands, in their order, each
once; `queued` counts the accepted commands without those whose callback has returned to
`urtwn_task`; a command stays in its slot while its callback runs; and `urtwn_task` returns only
when every accepted command has been executed. -/
theorem urtwn_cmd_ring {os : Os} {sc : Softc C} (h : Reach (cmdqInit os) cmdRingStep CmdRingOk sc) :
    sc.executed <+: sc.accepted ∧ (sc.cmdq.queued : Int) = sc.accepted.length - sc.executed.length +
      (if sc.taskq.worker = .running () ∧ sc.taskAt = .ran then 1 else 0) ∧
    (sc.InTask → sc.taskAt = .ran → sc.executed.getLast? = some (sc.cmdq.cmd sc.cmdq.next)) ∧
    ∀ op sc', CmdRingOk sc op → cmdRingStep sc op = some sc' → sc.InTask → ¬ sc'.InTask →
      sc'.cmdq.next = sc'.cmdq.cur ∧ sc'.cmdq.queued = 0 ∧ sc'.executed = sc'.accepted := by
  obtain ⟨l, hserves⟩ : ∃ l, RingServes l sc := by
    induction h with
    | init hi => exact ⟨[], ringServes_init hi⟩
    | step _ hok hs ih =>
      obtain ⟨l, hl⟩ := ih
      obtain ⟨l', hl', -⟩ := hl.step hok hs
      exact ⟨l', hl'⟩
  have hq := hserves.queued
  refine ⟨?_, ?_, fun hin hat => ?_, fun op sc' hok hs hin hout => ?_⟩
  · by_cases hran : sc.taskq.worker = .running () ∧ sc.taskAt = .ran
    · obtain ⟨c, rest, done, -, -, hacc⟩ := hserves.ran hran.1 hran.2
      exact ⟨rest, hacc.symm⟩
    · exact ⟨l, (hserves.waiting hran).symm⟩
  · by_cases hran : sc.taskq.worker = .running () ∧ sc.taskAt = .ran
    · obtain ⟨c, rest, done, rfl, -, hacc⟩ := hserves.ran hran.1 hran.2
      rw [if_pos hran, hq, hacc, length_append, length_cons]
      omega
    · rw [if_neg hran, hq, hserves.waiting hran, length_append]
      omega
  · obtain ⟨c, rest, done, rfl, hex, -⟩ := hserves.ran hin hat
    rw [hex, getLast?_concat, hserves.buffer.front]
  · obtain ⟨l', hl', hnil⟩ := hserves.step hok hs
    rw [hnil hin hout] at hl'
    refine ⟨hl'.buffer.eq_iff.mpr rfl, hl'.queued, ?_⟩
    rw [hl'.waiting fun hran => hout hran.1, append_nil]

/-- One command, executed. -/
theorem urtwn_cmd_ring_sample :
    ∃ sc : Softc Nat, Reach (cmdqInit .freertos) cmdRingStep CmdRingOk sc ∧ sc.accepted = [7] ∧
    sc.InTask ∧ sc.taskAt = .ran ∧
      sc.executed.getLast? = some (sc.cmdq.cmd sc.cmdq.next) := by
  obtain ⟨sc, hr, hacc, hin, hat⟩ :
    ∃ sc : Softc Nat, Reach (cmdqInit .freertos) cmdRingStep CmdRingOk sc ∧
      sc.accepted = [7] ∧ sc.taskq.worker = .running () ∧ sc.taskAt = .ran :=
    Reach.of_run [.doAsync 7, .task, .test, .call] ⟨fun _ => 0, rfl⟩ (by decide) (by decide)
  exact ⟨sc, hr, hacc, hin, hat, (urtwn_cmd_ring hr).2.2.1 hin hat⟩

/-- With 32 commands the ring looks empty: `urtwn_task` returns at once. With a 33rd, which is not
accepted, the command in the first slot is gone, the new one is executed in its place, and
`urtwn_task` returns with 31 commands left. And a command for a device that is dying is not counted,
but executed. -/
theorem urtwn_cmd_ring_full :
    (∃ sc : Softc Nat, Reach (cmdqInit .freertos) cmdRingStep Any sc ∧ sc.accepted = range 32 ∧
      sc.executed = [] ∧ sc.cmdq.queued = 32 ∧ sc.taskq.worker = .returned ()) ∧
    (∃ sc : Softc Nat, Reach (cmdqInit .freertos) cmdRingStep Any sc ∧ sc.accepted = range 32 ∧
      sc.executed = [32] ∧ sc.cmdq.queued = 31 ∧ sc.taskq.worker = .returned ()) ∧
    ∃ sc : Softc Nat, Reach (cmdqInit .freertos) cmdRingStep Any sc ∧ sc.accepted = [] ∧
    sc.executed = [7] ∧
      sc.cmdq.queued = -1 ∧ sc.taskq.worker = .returned () :=
  ⟨Reach.of_run ((range 32).map .doAsync ++ [.task, .test]) ⟨fun _ => 0, rfl⟩ (runOk_any _ _)
    (by decide +kernel),
    Reach.of_run ((range 33).map .doAsync ++ [.task, .test, .call, .relock]) ⟨fun _ => 0, rfl⟩
    (runOk_any _ _)
      (by decide +kernel),
    Reach.of_run [.die, .doAsync 7, .task, .test, .call, .relock] ⟨fun _ => 0, rfl⟩ (runOk_any _ _)
    (by decide +kernel)⟩

end Net80211.Urtwn
