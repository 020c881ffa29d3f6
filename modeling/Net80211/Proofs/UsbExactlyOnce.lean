import Mathlib.Algebra.BigOperators.Fin
import Net80211.Proofs.UsbWorkers

/-!
# Every transfer is completed once

Where the posts find room and no give is lost, each call of `usbd_transfer` leads
to one run of the callback. At any time the calls are the runs and the transfers
under way, and a transfer is on the pending list of its pipe from the insertion
to the worker's removal. Nothing stays under way but what the host controller
holds: every other step comes to an end, and at the end of it no transfer is left
in between.
-/

namespace Net80211.Usb

open Lib List Option

variable {π χ : Type} [DecidableEq χ] {q q' : Urbq π χ} {os : Os} {ph : χ → Phase}

/-- A call of `usbd_transfer` whose callback has not run. -/
def UnderWay (q : Urbq π χ) (x : χ) : Prop :=
  q.call x ≠ .idle ∨ q.active x = true ∨ x ∈ q.urbs.ring ∨ q.worker.stage x ≠ .none

/-- Between the insertion into the pending list and the worker's removal. -/
def Linked (q : Urbq π χ) (x : χ) : Prop :=
  q.call x = .linked ∨ q.call x = .refused ∨ q.active x = true ∨ x ∈ q.urbs.ring ∨
    q.worker.stage x = .work ∨ q.worker.stage x = .unlink

theorem Fits.underWay {ph : Phase} {x : χ} (h : Fits ph (q.view x)) (hl : ph ≠ .lost) :
    UnderWay q x ↔ ph.outstanding = 1 := by
  have hc : q.call x = ph.callOf := h.call
  have ha : q.active x = ph.isActive := h.active
  have hr : x ∈ q.urbs.ring ↔ 0 < ph.inRing := by
    rw [← count_pos_iff, show q.urbs.ring.count x = ph.inRing from h.inRing]
  have hs : q.worker.stage x = ph.stage := h.stage
  rw [UnderWay, hc, ha, hr, hs]
  cases ph <;> first | exact absurd rfl hl | decide

theorem Fits.linked {ph : Phase} {x : χ} (h : Fits ph (q.view x)) (hl : ph ≠ .lost) :
    Linked q x ↔ ph.inPending = 1 := by
  have hc : q.call x = ph.callOf := h.call
  have ha : q.active x = ph.isActive := h.active
  have hr : x ∈ q.urbs.ring ↔ 0 < ph.inRing := by
    rw [← count_pos_iff, show q.urbs.ring.count x = ph.inRing from h.inRing]
  have hs : q.worker.stage x = ph.stage := h.stage
  rw [Linked, hc, ha, hr, hs]
  cases ph <;> first | exact absurd rfl hl | decide

/-- Where no transfer is lost, the counts and the pending lists are right. -/
theorem exactly_once_of_phases (h : Phases q ph) (hl : ∀ x, ph x ≠ .lost) (x : χ) :
    (q.submitted x = q.ran x ∧ ¬ UnderWay q x ∨ q.submitted x = q.ran x + 1 ∧ UnderWay q x) ∧
      (q.pending (q.pipe x)).count x ≤ 1 ∧ (x ∈ q.pending (q.pipe x) ↔ Linked q x) := by
  have hx := h x
  have hcount : q.submitted x = q.ran x + (ph x).outstanding := hx.count
  have hpend : (q.pending (q.pipe x)).count x = (ph x).inPending := hx.inPending
  have hout : (ph x).outstanding = 0 ∨ (ph x).outstanding = 1 := by
    cases ph x <;> decide
  have hin : (ph x).inPending = 0 ∨ (ph x).inPending = 1 := by
    cases ph x <;> decide
  refine ⟨?_, by omega, ?_⟩
  · rw [hx.underWay (hl x)]
    omega
  · rw [← count_pos_iff, hpend, hx.linked (hl x)]
    omega

/-! ## Progress -/

def Call.left : Call → Nat
  | .idle => 0
  | .armed => 14
  | .linked => 13
  | .refused => 12

/-- Everything but the calls of the driver and the host controller's doings. -/
def UrbOp.isInternal : UrbOp π χ → Bool
  | .transfer _ | .complete _ | .abort _ => false
  | _ => true

/-- Every post finds room and no give is lost. -/
def NothingLost (os : Os) (q : Urbq π χ) (op : UrbOp π χ) : Prop :=
  Room q op ∧ (op = .give → GiveCounted os q.urbs)

instance decidableRoom (q : Urbq π χ) (op : UrbOp π χ) : Decidable (Room q op) := by
  cases op <;> unfold Room <;> infer_instance

instance decidableNothingLost [DecidableEq π] (os : Os) (q : Urbq π χ) (op : UrbOp π χ) :
    Decidable (NothingLost os q op) :=
  inferInstanceAs (Decidable (_ ∧ (_ → os = .freertos → q.urbs.sem.count = 0)))

omit [DecidableEq χ] in
theorem urbLoad_post (q : Urbq π χ) (x : χ) : urbLoad (usbdRingPost q x) ≤ urbLoad q + 8 := by
  simp only [urbLoad, usbdRingPost, TokenRing.post, TokenRing.weight]
  split
  · rw [length_append, length_singleton]
    omega
  · omega

variable [Fintype χ]

def urbCalls (q : Urbq π χ) : Nat := ∑ x, (q.call x).left

/-- The total work left. -/
def xferLoad (q : Urbq π χ) : Nat := urbLoad q + urbCalls q

variable [DecidableEq π] {op : UrbOp π χ}

omit [Fintype χ] in
theorem urbqStep_call (hw : op.isWorker = true) (hs : urbqStep q op = some q') :
    q'.call = q.call := by
  cases op with
  | transfer x | link x | submit x accepted | refuse x | complete x | abort p =>
    exact absurd hw (by simp [UrbOp.isWorker])
  | give | pop | work | call | ret =>
    rw [urbqStep] at hs
    split at hs <;> cases hs <;> rfl
  | take | unlink =>
    rw [urbqStep] at hs
    split at hs
    · split at hs <;> cases hs
      rfl
    · cases hs

theorem urbqStep_xferLoad (hi : op.isInternal = true)
    (hheld : q.urbs.held = true → q.worker = .loop) (hs : urbqStep q op = some q') :
    xferLoad q' < xferLoad q := by
  have hwork : op.isWorker = true → xferLoad q' < xferLoad q := by
    intro hw
    have hload := urbqStep_load hw hheld hs
    have hcall := urbqStep_call hw hs
    simp only [xferLoad, urbCalls, hcall]
    omega
  cases op with
  | transfer x | complete x | abort p => exact absurd hi (by simp [UrbOp.isInternal])
  | link x =>
    obtain ⟨hc, rfl⟩ := of_guard hs
    have := sum_update (Finset.mem_univ x) q.call Call.left .linked
    rw [hc, Call.left, Call.left] at this
    simp only [xferLoad, urbCalls, urbLoad]
    omega
  | submit x accepted =>
    obtain ⟨hc, hs⟩ := ite_none_right_eq_some.mp hs
    split at hs
    · cases hs
      have := sum_update (Finset.mem_univ x) q.call Call.left .idle
      rw [hc, Call.left, Call.left] at this
      simp only [xferLoad, urbCalls, urbLoad]
      omega
    · cases hs
      have := sum_update (Finset.mem_univ x) q.call Call.left .refused
      rw [hc, Call.left, Call.left] at this
      simp only [xferLoad, urbCalls, urbLoad]
      omega
  | refuse x =>
    obtain ⟨hc, rfl⟩ := of_guard hs
    have hpost := urbLoad_post q x
    have := sum_update (Finset.mem_univ x) q.call Call.left .idle
    rw [hc, Call.left, Call.left] at this
    simp only [xferLoad, urbCalls, urbLoad] at hpost ⊢
    omega
  | give | take | pop | work | unlink | call | ret => exact hwork rfl

omit [Fintype χ] in
/-- Where no internal step is left, a transfer under way is with the host
controller. -/
theorem urbq_settled (h : UrbRing os q) (hph : Phases q ph) (hl : ∀ x, ph x ≠ .lost)
    (hstuck : Stuck urbqStep (NothingLost os) (fun op => op.isInternal = true) q) (x : χ) :
    q.active x = true ∨ q.submitted x = q.ran x := by
  have hidle := urbq_idle h hph fun op hw hg => by
    have hroom : Room q op := by
      cases op <;> first | exact trivial | exact absurd hw (by simp [UrbOp.isWorker])
    exact hstuck op (by cases op <;> first | rfl | exact hw) ⟨hroom, hg⟩
  have hcall : q.call x = .idle := by
    cases hc : q.call x with
    | idle => rfl
    | armed =>
      have := hstuck (.link x) rfl ⟨trivial, by simp⟩
      rw [urbqStep, if_pos hc] at this
      cases this
    | linked =>
      have := hstuck (.submit x true) rfl ⟨trivial, by simp⟩
      rw [urbqStep, if_pos hc, if_pos rfl] at this
      cases this
    | refused =>
      -- The ring is empty, so the post finds room.
      have := hstuck (.refuse x) rfl ⟨by rw [Room, hidle.2]; exact Nat.zero_lt_succ _, by simp⟩
      rw [urbqStep, if_pos hc] at this
      cases this
  rcases (exactly_once_of_phases hph hl x).1 with hdone | hway
  · exact .inr hdone.1
  · rcases hway.2 with hc | ha | hr | hs
    · exact absurd hcall hc
    · exact .inl ha
    · rw [hidle.2] at hr
      exact absurd hr not_mem_nil
    · rw [hidle.1] at hs
      exact absurd rfl hs

/-- The invariant of the runs that lose nothing. -/
def UrbqInv (os : Os) (q : Urbq π χ) : Prop :=
  UrbRing os q ∧ ∃ ph, Phases q ph ∧ ∀ x, ph x ≠ .lost

omit [Fintype χ] in
theorem urbqStep_inv (h : UrbqInv os q) (hok : NothingLost os q op)
    (hs : urbqStep q op = some q') : UrbqInv os q' := by
  obtain ⟨hring, ph, hph, hl⟩ := h
  obtain ⟨ph', hph', _, hkeep⟩ := urbqStep_phases hph hring.held hs
  exact ⟨urbqStep_ring hring hok.2 hs, ph', hph', hkeep hok.1 hl⟩

/-- The queue right after its creation, for any pipes. -/
def urbqInit (os : Os) (q : Urbq π χ) : Prop := ∃ pipe, q = urbqCreate pipe os

/-- In a run in which every post finds room and every give is counted, each call
of `usbd_transfer` has one run of the callback, now or to come; each transfer is
on the pending list of its pipe once from the insertion to the worker's removal;
and what is under way gets to its callback without another call, unless the host
controller keeps it. -/
theorem usb_completion_exactly_once (os : Os) (q : Urbq π χ)
    (h : Reach (urbqInit os) urbqStep (NothingLost os) q) :
    (∀ x, q.submitted x = q.ran x ∧ ¬ UnderWay q x ∨ q.submitted x = q.ran x + 1 ∧ UnderWay q x) ∧
    (∀ x, (q.pending (q.pipe x)).count x ≤ 1 ∧ (x ∈ q.pending (q.pipe x) ↔ Linked q x)) ∧
    (∀ ops q', (∀ op ∈ ops, op.isInternal = true) → runOk urbqStep (NothingLost os) q ops →
      runSteps urbqStep q ops = some q' → ops.length ≤ xferLoad q ∧
        (Stuck urbqStep (NothingLost os) (fun op => op.isInternal = true) q' →
          ∀ x, q'.active x = true ∨ q'.submitted x = q'.ran x)) ∧
    (∃ ops q', (∀ op ∈ ops, op.isInternal = true) ∧ runOk urbqStep (NothingLost os) q ops ∧
      runSteps urbqStep q ops = some q' ∧ ∀ x, q'.active x = true ∨ q'.submitted x = q'.ran x) := by
  have hinv : UrbqInv os q := by
    refine h.invariant ?_ fun _ _ _ => urbqStep_inv
    rintro _ ⟨pipe, rfl⟩
    exact ⟨urbqCreate_ring pipe os, _, urbqCreate_phases pipe os, fun _ => by decide⟩
  have hdown : ∀ (q : Urbq π χ) (op : UrbOp π χ) (q' : Urbq π χ), UrbqInv os q →
      op.isInternal = true → NothingLost os q op → urbqStep q op = some q' →
      UrbqInv os q' ∧ xferLoad q' < xferLoad q := fun q op q' hi hin hok hs =>
    ⟨urbqStep_inv hi hok hs, urbqStep_xferLoad hin hi.1.held hs⟩
  have hend : ∀ q : Urbq π χ, UrbqInv os q →
      Stuck urbqStep (NothingLost os) (fun op => op.isInternal = true) q →
      ∀ x, q.active x = true ∨ q.submitted x = q.ran x := by
    rintro q ⟨hring, ph, hph, hl⟩ hstuck
    exact urbq_settled hring hph hl hstuck
  have ⟨_, ph, hph, hl⟩ := hinv
  exact ⟨fun x => (exactly_once_of_phases hph hl x).1, fun x => (exactly_once_of_phases hph hl x).2,
    progress hdown hend q hinv⟩

/-! ### Two runs -/

/-- Seventeen transfers on two pipes, as two TX pipes of eight and one RX transfer
have them. -/
def urbqSample (os : Os) : Urbq Bool (Fin 17) := urbqCreate (fun x => x.val < 8) os

/-- One transfer up to its completion, and the token of it. -/
def urbqSamplePost (x : Fin 17) : List (UrbOp Bool (Fin 17)) :=
  [.transfer x, .link x, .submit x true, .complete x, .give]

/-- The worker's way around its loop. -/
def urbqSampleWork : List (UrbOp Bool (Fin 17)) := [.take, .pop, .work, .unlink, .call, .ret]

/-- All seventeen complete before the worker comes round, on the layer that counts
every give. The seventeenth finds the ring full: no callback of it runs, it stays
pending, and no step is left that could change that. -/
theorem full_ring_loses_completion :
    ∃ q : Urbq Bool (Fin 17), Reach (urbqInit .embox) urbqStep Any q ∧
      Stuck urbqStep Any (fun op => op.isInternal = true) q ∧ q.active 16 = false ∧
      q.submitted 16 = 1 ∧ q.ran 16 = 0 ∧ q.pending (q.pipe 16) = [16] := by
  obtain ⟨q, hreach, ⟨hw, hh, ht, hg, hc⟩, hrest⟩ :
      ∃ q : Urbq Bool (Fin 17), Reach (urbqInit .embox) urbqStep Any q ∧
        (q.worker = .loop ∧ q.urbs.held = false ∧ q.urbs.sem.take = none ∧
          q.urbs.givers = 0 ∧ ∀ x, q.call x = .idle) ∧ q.active 16 = false ∧
          q.submitted 16 = 1 ∧ q.ran 16 = 0 ∧ q.pending (q.pipe 16) = [16] :=
    Reach.of_run ((finRange 17).flatMap urbqSamplePost ++
        ((replicate 16 urbqSampleWork).flatten ++ [.take, .pop]))
      (show urbqInit .embox (urbqSample .embox) from ⟨_, rfl⟩) (runOk_any _ _) (by decide +kernel)
  refine ⟨q, hreach, ?_, hrest⟩
  intro op hint _
  cases op with
  | transfer x | complete x | abort p => exact absurd hint (by simp [UrbOp.isInternal])
  | link x | submit x accepted | refuse x => simp [urbqStep, hc]
  | give => simp [urbqStep, TokenRing.give, hg]
  | take => simp [urbqStep, TokenRing.take, hw, hh, show Semaphore.take q.urbs.sem = none from ht]
  | pop => simp [urbqStep, TokenRing.pop, hh]
  | work | unlink | call | ret => simp [urbqStep, hw]

/-- One transfer, completed and on its way to the worker. -/
theorem usb_completion_exactly_once_sample :
    ∃ q : Urbq Bool (Fin 17), Reach (urbqInit .freertos) urbqStep (NothingLost .freertos) q ∧
      q.submitted 0 = 1 ∧ q.ran 0 = 0 ∧ UnderWay q 0 := by
  obtain ⟨q, hreach, hs, hr⟩ :
      ∃ q : Urbq Bool (Fin 17), Reach (urbqInit .freertos) urbqStep (NothingLost .freertos) q ∧
        q.submitted 0 = 1 ∧ q.ran 0 = 0 :=
    Reach.of_run (urbqSamplePost 0)
      (show urbqInit .freertos (urbqSample .freertos) from ⟨_, rfl⟩) (by decide) (by decide)
  refine ⟨q, hreach, hs, hr, ?_⟩
  rcases (usb_completion_exactly_once .freertos q hreach).1 0 with hdone | hway
  · rw [hs, hr] at hdone
    exact absurd hdone.1 (by decide)
  · exact hway.2

end Net80211.Usb
