import Net80211.Lib.Run
import Net80211.Usb.Urbq

/-!
# The way of a transfer

Seen from one transfer the shim is a small machine: the call arms it, links it
and submits it, the host controller or the refusal puts it into the ring, and
the worker takes it through its three parts to the callback, after which it is
idle again. `Phase` is that machine. Every state of the shim shows each transfer
in one phase (`Fits`), and every step moves each transfer along `PhaseStep` or
leaves it (`urbqStep_phases`).

The one way out of the circle is a post into a full ring, to `lost`: the
transfer stays pending and no callback will run. Where every post finds room
there is no `lost`, and the callbacks are as many as the calls but for the
transfers under way.
-/

namespace Net80211.Usb

open Lib List Function Option

inductive Phase where
  | idle
  | armed
  | linked
  | refused
  | active
  | ringed
  | work
  | unlink
  | call
  | lost
  deriving DecidableEq, Repr

inductive PhaseStep : Phase → Phase → Prop where
  | transfer : PhaseStep .idle .armed
  | link : PhaseStep .armed .linked
  | accept : PhaseStep .linked .active
  | refuse : PhaseStep .linked .refused
  | complete : PhaseStep .active .ringed
  | postRefused : PhaseStep .refused .ringed
  | dropComplete : PhaseStep .active .lost
  | dropRefused : PhaseStep .refused .lost
  | pop : PhaseStep .ringed .work
  | work : PhaseStep .work .unlink
  | unlink : PhaseStep .unlink .call
  | call : PhaseStep .call .idle

/-! ## What a phase looks like -/

/-- The part of the worker a transfer is in. -/
inductive Stage where
  | none
  | work
  | unlink
  | call
  deriving DecidableEq, Repr

namespace Phase

def callOf : Phase → Call
  | .armed => .armed
  | .linked => .linked
  | .refused => .refused
  | _ => .idle

def isActive : Phase → Bool
  | .active => true
  | _ => false

def inRing : Phase → Nat
  | .ringed => 1
  | _ => 0

def stage : Phase → Stage
  | .work => .work
  | .unlink => .unlink
  | .call => .call
  | _ => .none

/-- From the insertion to the worker's removal. -/
def inPending : Phase → Nat
  | .idle | .armed | .call => 0
  | _ => 1

def flying : Phase → Bool
  | .armed | .linked | .active => true
  | _ => false

def outstanding : Phase → Nat
  | .idle => 0
  | _ => 1

end Phase

section Views

variable {π χ : Type} [DecidableEq χ]

def UrbWorker.stage : UrbWorker χ → χ → Stage
  | .work y, x => if y = x then .work else .none
  | .unlink y, x => if y = x then .unlink else .none
  | .call y, x => if y = x then .call else .none
  | _, _ => .none

/-- What a state shows of one transfer. -/
structure View where
  call : Call
  active : Bool
  inRing : Nat
  stage : Stage
  inPending : Nat
  inFlight : Bool
  submitted : Nat
  ran : Nat

def Urbq.view (q : Urbq π χ) (x : χ) : View :=
  { call := q.call x, active := q.active x, inRing := q.urbs.ring.count x
    stage := q.worker.stage x, inPending := (q.pending (q.pipe x)).count x
    inFlight := q.inFlight x, submitted := q.submitted x, ran := q.ran x }

structure Fits (ph : Phase) (v : View) : Prop where
  call : v.call = ph.callOf
  active : v.active = ph.isActive
  inRing : v.inRing = ph.inRing
  stage : v.stage = ph.stage
  inPending : v.inPending = ph.inPending
  inFlight : ph.flying = true → v.inFlight = true
  count : v.submitted = v.ran + ph.outstanding

variable {v : View} {ph : Phase}

/-! A phase is known by any of its marks. -/

theorem Fits.idle_of (h : Fits ph v) (hc : v.submitted = v.ran) : ph = .idle := by
  have := h.count
  cases ph <;> simp [Phase.outstanding] at this ⊢ <;> omega

theorem Fits.of_call {p : Phase} (h : Fits ph v) (hp : p.callOf ≠ .idle) (hc : v.call = p.callOf) :
    ph = p := by
  have hph := h.call.symm.trans hc
  cases p with
  | armed | linked | refused => cases ph <;> first | rfl | exact absurd hph (by decide)
  | idle | active | ringed | work | unlink | call | lost => exact absurd rfl hp

theorem Fits.active_of (h : Fits ph v) (ha : v.active = true) : ph = .active := by
  have := h.active
  cases ph <;> simp_all [Phase.isActive]

theorem Fits.ringed_of (h : Fits ph v) (hr : 0 < v.inRing) : ph = .ringed := by
  have := h.inRing
  cases ph <;> simp_all [Phase.inRing]

theorem Fits.of_stage {p : Phase} (h : Fits ph v) (hp : p.stage ≠ .none) (hs : v.stage = p.stage) :
    ph = p := by
  have hph := h.stage.symm.trans hs
  cases p with
  | work | unlink | call => cases ph <;> first | rfl | exact absurd hph (by decide)
  | idle | armed | linked | refused | active | ringed | lost => exact absurd rfl hp

end Views

/-! ## Steps move transfers along the machine -/

variable {π χ : Type} {q q' : Urbq π χ} {ph : χ → Phase}

def Moves (ph ph' : χ → Phase) : Prop := ∀ x, Relation.ReflTransGen PhaseStep (ph x) (ph' x)

theorem Moves.rfl : Moves ph ph := fun _ => .refl

theorem Moves.trans {ph₁ ph₂ ph₃ : χ → Phase} (h : Moves ph₁ ph₂) (h' : Moves ph₂ ph₃) :
    Moves ph₁ ph₃ := fun x => (h x).trans (h' x)

variable [DecidableEq χ]

/-- A state shows each transfer in its phase. -/
def Phases (q : Urbq π χ) (ph : χ → Phase) : Prop := ∀ x, Fits (ph x) (q.view x)

variable {x y : χ}

/-- One transfer takes a step and the others look as before. -/
theorem Phases.move {b : Phase} (h : Phases q ph) (hx : Fits b (q'.view x))
    (hy : ∀ y, y ≠ x → q'.view y = q.view y) (hs : PhaseStep (ph x) b) :
    Phases q' (update ph x b) ∧ Moves ph (update ph x b) := by
  constructor
  · intro y
    by_cases hyx : y = x
    · subst hyx
      rw [update_self]
      exact hx
    · rw [update_of_ne hyx, hy y hyx]
      exact h y
  · intro y
    by_cases hyx : y = x
    · subst hyx
      rw [update_self]
      exact .single hs
    · rw [update_of_ne hyx]

theorem count_post (h : y ≠ x) (r : TokenRing Sem χ) :
    (r.post usbdShimRing x).ring.count y = r.ring.count y := by
  rw [TokenRing.post]
  split
  · rw [count_append, count_singleton]
    simp [Ne.symm h]
  · rfl

theorem count_post_self (x : χ) (r : TokenRing Sem χ) : (r.post usbdShimRing x).ring.count x =
      if r.ring.length < usbdShimRing then r.ring.count x + 1 else r.ring.count x := by
  rw [TokenRing.post]
  split
  · rw [count_append, count_singleton_self]
  · rfl

/-- Where a posted transfer is: in the ring, if that has room. -/
def posted (q : Urbq π χ) : Phase := if q.urbs.ring.length < usbdShimRing then .ringed else .lost

theorem Phases.complete (h : Phases q ph) (ha : q.active x = true) :
    ph x = .active ∧ Phases (urbComplete q x) (update ph x (posted q)) ∧
      Moves ph (update ph x (posted q)) := by
  have hx := h x
  have hph : ph x = .active := hx.active_of ha
  rw [hph] at hx
  have hfl : q.inFlight x = true := hx.inFlight rfl
  have hq : urbComplete q x = usbdRingPost
      { q with active := update q.active x false } x := by
    rw [urbComplete]
    rw [if_pos hfl]
  refine ⟨hph, h.move ?_ ?_ ?_⟩
  · have hring : q.urbs.ring.count x = 0 := hx.inRing
    rw [hq, posted]
    have hpost := count_post_self x q.urbs
    split
    · next hroom =>
      rw [if_pos hroom, hring] at hpost
      exact ⟨hx.call, update_self .., hpost, hx.stage, hx.inPending, fun hf => absurd hf
        (by decide), hx.count⟩
    · next hroom =>
      rw [if_neg hroom, hring] at hpost
      exact ⟨hx.call, update_self .., hpost, hx.stage, hx.inPending, fun hf => absurd hf
        (by decide), hx.count⟩
  · intro y hy
    rw [hq, Urbq.view, Urbq.view]
    simp only [usbdRingPost, count_post hy, update_of_ne hy]
  · rw [hph, posted]
    split
    · exact .complete
    · exact .dropComplete

/-- The transfers an abort completes. -/
def aborted (q : Urbq π χ) (l : List χ) : Nat := l.countP fun x => q.active x && q.inFlight x

theorem urbComplete_ring_le (q : Urbq π χ) (x : χ) :
    (urbComplete q x).urbs.ring.length ≤ q.urbs.ring.length + 1 := by
  rw [urbComplete]
  split
  · rw [usbdRingPost, TokenRing.post]
    dsimp only
    split
    · exact Nat.le_of_eq length_append
    · omega
  · exact Nat.le_succ _

theorem aborted_urbComplete_le (q : Urbq π χ) (x : χ) (l : List χ) :
    aborted (urbComplete q x) l ≤ aborted q l := by
  have hfl : (urbComplete q x).inFlight = q.inFlight := by
    rw [urbComplete]
    split <;> simp [usbdRingPost]
  have hac : (urbComplete q x).active = update q.active x false := by
    rw [urbComplete]
    split <;> simp [usbdRingPost]
  refine countP_mono_left fun y _ => ?_
  rw [hfl, hac]
  by_cases hy : y = x
  · rw [hy, update_self]
    simp
  · rw [update_of_ne hy]
    exact id

theorem Phases.abort : ∀ (l : List χ) {q : Urbq π χ} {ph : χ → Phase}, Phases q ph →
    ∃ ph', Phases (l.foldl (fun q x => if q.inFlight x then usbhKillUrb q x else q) q) ph' ∧
      Moves ph ph' ∧ (q.urbs.ring.length + aborted q l ≤ usbdShimRing → (∀ x, ph x ≠ .lost) →
        ∀ x, ph' x ≠ .lost) := by
  intro l
  induction l with
  | nil =>
    intro q ph h
    exact ⟨ph, h, .rfl, fun _ hl => hl⟩
  | cons x l ih =>
    intro q ph h
    rw [foldl_cons]
    by_cases hk : q.inFlight x = true ∧ q.active x = true
    · obtain ⟨hfl, hac⟩ := hk
      rw [if_pos hfl, usbhKillUrb, if_pos hac]
      obtain ⟨hph, h1, hm⟩ := h.complete hac
      obtain ⟨ph', h', hm', hl'⟩ := ih h1
      refine ⟨ph', h', hm.trans hm', ?_⟩
      intro hroom hl
      have hcons : aborted q (x :: l) = aborted q l + 1 := by
        rw [aborted, countP_cons_of_pos (by rw [hac, hfl]; rfl), aborted]
      have hring := urbComplete_ring_le q x
      have hab := aborted_urbComplete_le q x l
      refine hl' (by omega) fun y => ?_
      by_cases hy : y = x
      · rw [hy, update_self, posted, if_pos (by omega)]
        decide
      · rw [update_of_ne hy]
        exact hl y
    · have hsame : (if q.inFlight x then usbhKillUrb q x else q) = q := by
        split
        · next hfl => rw [usbhKillUrb, if_neg fun hac => hk ⟨hfl, hac⟩]
        · rfl
      rw [hsame]
      obtain ⟨ph', h', hm', hl'⟩ := ih h
      refine ⟨ph', h', hm', fun hroom hl => hl' ?_ hl⟩
      rw [aborted, countP_cons_of_neg (by
        rw [Bool.and_eq_true]
        exact fun hb => hk ⟨hb.2, hb.1⟩)] at hroom
      exact hroom

/-- Every post of the step finds room in the ring. -/
def Room (q : Urbq π χ) : UrbOp π χ → Prop
  | .refuse _ | .complete _ => q.urbs.ring.length < usbdShimRing
  | .abort p => q.urbs.ring.length + aborted q (q.pending p) ≤ usbdShimRing
  | _ => True

variable [DecidableEq π] {op : UrbOp π χ}

theorem count_pending_insert (q : Urbq π χ) (h : y ≠ x) :
    (update q.pending (q.pipe x) (x :: q.pending (q.pipe x)) (q.pipe y)).count y =
      (q.pending (q.pipe y)).count y := by
  by_cases hp : q.pipe y = q.pipe x
  · rw [hp, update_self, count_cons_of_ne (Ne.symm h)]
  · rw [update_of_ne hp]

theorem count_pending_erase (q : Urbq π χ) (h : y ≠ x) :
    (update q.pending (q.pipe x) ((q.pending (q.pipe x)).erase x) (q.pipe y)).count y =
      (q.pending (q.pipe y)).count y := by
  by_cases hp : q.pipe y = q.pipe x
  · rw [hp, update_self, count_erase_of_ne h]
  · rw [update_of_ne hp]

/-- Transfer `x` takes a step to `b`, and the others look as before. -/
structure Takes (ph : χ → Phase) (q q' : Urbq π χ) (x : χ) (b : Phase) : Prop where
  fits : Fits b (q'.view x)
  others : ∀ y, y ≠ x → q'.view y = q.view y
  step : PhaseStep (ph x) b

theorem takes_transfer (h : Phases q ph) (hs : urbqStep q (.transfer x) = some q') :
    Takes ph q q' x .armed := by
  obtain ⟨hidle, rfl⟩ := of_guard hs
  have hx := h x
  have hph := hx.idle_of hidle
  rw [hph] at hx
  refine ⟨⟨update_self .., hx.active, hx.inRing, hx.stage, hx.inPending,
    fun _ => update_self .., ?_⟩, ?_, hph ▸ .transfer⟩
  · simp only [Urbq.view, update_self, hidle]
    rfl
  · intro y hy
    simp only [Urbq.view, update_of_ne hy]

theorem takes_link (h : Phases q ph) (hs : urbqStep q (.link x) = some q') :
    Takes ph q q' x .linked := by
  obtain ⟨hcall, rfl⟩ := of_guard hs
  have hx := h x
  have hph : ph x = .armed := hx.of_call (by decide) hcall
  rw [hph] at hx
  refine ⟨⟨update_self .., hx.active, hx.inRing, hx.stage, ?_, fun _ => hx.inFlight rfl,
    hx.count⟩, ?_, hph ▸ .link⟩
  · have hp : (q.pending (q.pipe x)).count x = 0 := hx.inPending
    simp only [Urbq.view, update_self, count_cons_self, hp]
    rfl
  · intro y hy
    simp only [Urbq.view, update_of_ne hy, count_pending_insert q hy]

theorem takes_submit {accepted : Bool} (h : Phases q ph)
    (hs : urbqStep q (.submit x accepted) = some q') :
    Takes ph q q' x (if accepted then .active else .refused) := by
  obtain ⟨hcall, hs⟩ := ite_none_right_eq_some.mp hs
  have hx := h x
  have hph : ph x = .linked := hx.of_call (by decide) hcall
  rw [hph] at hx
  cases accepted with
  | true =>
    cases hs
    refine ⟨⟨update_self .., update_self .., hx.inRing, hx.stage, hx.inPending,
      fun _ => hx.inFlight rfl, hx.count⟩, ?_, hph ▸ .accept⟩
    intro y hy
    simp only [Urbq.view, update_of_ne hy]
  | false =>
    cases hs
    refine ⟨⟨update_self .., hx.active, hx.inRing, hx.stage, hx.inPending,
      fun hf => absurd hf (by decide), hx.count⟩, ?_, hph ▸ .refuse⟩
    intro y hy
    simp only [Urbq.view, update_of_ne hy]

theorem takes_refuse (h : Phases q ph) (hs : urbqStep q (.refuse x) = some q') :
    Takes ph q q' x (posted q) := by
  obtain ⟨hcall, rfl⟩ := of_guard hs
  have hx := h x
  have hph : ph x = .refused := hx.of_call (by decide) hcall
  rw [hph] at hx
  have hring : q.urbs.ring.count x = 0 := hx.inRing
  have hpost := count_post_self x q.urbs
  rw [hring] at hpost
  refine ⟨?_, ?_, ?_⟩
  · rw [posted]
    split
    · next hroom =>
      rw [if_pos hroom] at hpost
      exact ⟨update_self .., hx.active, hpost, hx.stage, hx.inPending,
        fun hf => absurd hf (by decide), hx.count⟩
    · next hroom =>
      rw [if_neg hroom] at hpost
      exact ⟨update_self .., hx.active, hpost, hx.stage, hx.inPending,
        fun hf => absurd hf (by decide), hx.count⟩
  · intro y hy
    simp only [Urbq.view, usbdRingPost, update_of_ne hy, count_post hy]
  · rw [hph, posted]
    split
    · exact .postRefused
    · exact .dropRefused

theorem takes_pop (h : Phases q ph) (hw : q.urbs.held = true → q.worker = .loop)
    (hs : urbqStep q .pop = some q') :
    (∃ x, Takes ph q q' x .work) ∨ ∀ x, q'.view x = q.view x := by
  obtain ⟨r, o, hr, rfl⟩ := urbqStep_pop hs
  obtain ⟨hheld, hring, _, _⟩ := TokenRing.pop_some hr
  cases o with
  | none =>
    rw [toList_none, nil_append] at hring
    exact .inr fun x => by simp only [Urbq.view, hring, Option.elim]
  | some x =>
    have hring : q.urbs.ring = x :: r.ring := hring
    have hx := h x
    have hph : ph x = .ringed := hx.ringed_of (by simp [Urbq.view, hring])
    rw [hph] at hx
    have hcount : r.ring.count x = 0 := by
      have : q.urbs.ring.count x = 1 := hx.inRing
      rw [hring, count_cons_self] at this
      omega
    refine .inl ⟨x, ⟨hx.call, hx.active, hcount, if_pos rfl, hx.inPending,
      fun hf => absurd hf (by decide), hx.count⟩, ?_, hph ▸ .pop⟩
    intro y hy
    have hst : (UrbWorker.work x).stage y = .none := if_neg (Ne.symm hy)
    simp only [Urbq.view, hring, hw hheld, count_cons_of_ne (Ne.symm hy), Option.elim, hst]
    rfl

theorem stage_self : (UrbWorker.work x).stage x = .work ∧
    (UrbWorker.unlink x).stage x = .unlink ∧ (UrbWorker.call x).stage x = .call :=
  ⟨if_pos rfl, if_pos rfl, if_pos rfl⟩

theorem stage_of_ne (h : y ≠ x) : (UrbWorker.work x).stage y = .none ∧
    (UrbWorker.unlink x).stage y = .none ∧ (UrbWorker.call x).stage y = .none :=
  ⟨if_neg (Ne.symm h), if_neg (Ne.symm h), if_neg (Ne.symm h)⟩

theorem takes_work (h : Phases q ph) (hs : urbqStep q .work = some q') :
    ∃ x, Takes ph q q' x .unlink := by
  rw [urbqStep] at hs
  split at hs
  · next x hw =>
    cases hs
    have hx := h x
    have hph : ph x = .work := hx.of_stage (by decide) (by
      rw [Urbq.view, hw]
      exact stage_self.1)
    rw [hph] at hx
    refine ⟨x, ⟨hx.call, hx.active, hx.inRing, stage_self.2.1, hx.inPending,
      fun hf => absurd hf (by decide), hx.count⟩, ?_, hph ▸ .work⟩
    intro y hy
    simp only [Urbq.view, hw, update_of_ne hy, stage_of_ne hy]
  · cases hs

omit [DecidableEq π] in
theorem unlink_pending (h : Phases q ph) (hw : q.worker = .unlink x) :
    (q.pending (q.pipe x)).count x = 1 := by
  have hx := h x
  have hph : ph x = .unlink := hx.of_stage (by decide) (by
    rw [Urbq.view, hw]
    exact stage_self.2.1)
  rw [hph] at hx
  exact hx.inPending

theorem takes_unlink (h : Phases q ph) (hs : urbqStep q .unlink = some q') :
    ∃ x, Takes ph q q' x .call := by
  rw [urbqStep] at hs
  split at hs
  · next x hw =>
    obtain ⟨-, rfl⟩ := of_guard hs
    have hone := unlink_pending h hw
    have hx := h x
    have hph : ph x = .unlink := hx.of_stage (by decide) (by
      rw [Urbq.view, hw]
      exact stage_self.2.1)
    rw [hph] at hx
    refine ⟨x, ⟨hx.call, hx.active, hx.inRing, stage_self.2.2, ?_,
      fun hf => absurd hf (by decide), hx.count⟩, ?_, hph ▸ .unlink⟩
    · simp only [Urbq.view, update_self, count_erase_self, hone]
      rfl
    · intro y hy
      simp only [Urbq.view, hw, count_pending_erase q hy, stage_of_ne hy]
  · cases hs

theorem takes_call (h : Phases q ph) (hs : urbqStep q .call = some q') :
    ∃ x, Takes ph q q' x .idle := by
  rw [urbqStep] at hs
  split at hs
  · next x hw =>
    cases hs
    have hx := h x
    have hph : ph x = .call := hx.of_stage (by decide) (by
      rw [Urbq.view, hw]
      exact stage_self.2.2)
    rw [hph] at hx
    refine ⟨x,
      ⟨hx.call, hx.active, hx.inRing, rfl, hx.inPending, fun hf => absurd hf (by decide), ?_⟩,
      ?_, hph ▸ .call⟩
    · have hc : q.submitted x = q.ran x + 1 := hx.count
      simp only [Urbq.view, update_self, hc]
      rfl
    · intro y hy
      simp only [Urbq.view, hw, update_of_ne hy, stage_of_ne hy]
      rfl
  · cases hs

/-- The steps of the semaphore and the return of a callback, which no transfer
sees. -/
theorem still_step (hop : op = .give ∨ op = .take ∨ op = .ret) (hs : urbqStep q op = some q')
    (x : χ) : q'.view x = q.view x := by
  rcases hop with rfl | rfl | rfl
  · obtain ⟨r, hr, rfl⟩ := urbqStep_give hs
    simp only [Urbq.view, TokenRing.ring_give hr]
  · obtain ⟨_, r, hr, rfl⟩ := urbqStep_take hs
    simp only [Urbq.view, TokenRing.ring_take hr]
  · rw [urbqStep] at hs
    split at hs
    · next hw =>
      cases hs
      simp only [Urbq.view, hw]
      rfl
    · cases hs

/-- Every step moves the transfers along the machine, and none gets lost where
the posts find room. -/
theorem urbqStep_phases (h : Phases q ph) (hw : q.urbs.held = true → q.worker = .loop)
    (hs : urbqStep q op = some q') :
    ∃ ph', Phases q' ph' ∧ Moves ph ph' ∧
      (Room q op → (∀ x, ph x ≠ .lost) → ∀ x, ph' x ≠ .lost) := by
  have htake : ∀ {x : χ} {b : Phase}, Takes ph q q' x b → (Room q op → b ≠ .lost) →
      ∃ ph', Phases q' ph' ∧ Moves ph ph' ∧
        (Room q op → (∀ x, ph x ≠ .lost) → ∀ x, ph' x ≠ .lost) := by
    intro x b ht hb
    obtain ⟨hp, hm⟩ := h.move ht.fits ht.others ht.step
    refine ⟨_, hp, hm, fun hroom hl y => ?_⟩
    by_cases hyx : y = x
    · rw [hyx, update_self]
      exact hb hroom
    · rw [update_of_ne hyx]
      exact hl y
  have hstill : (∀ x, q'.view x = q.view x) → ∃ ph', Phases q' ph' ∧ Moves ph ph' ∧
      (Room q op → (∀ x, ph x ≠ .lost) → ∀ x, ph' x ≠ .lost) := fun hv =>
    ⟨ph, fun x => by rw [hv x]; exact h x, .rfl, fun _ hl => hl⟩
  have hposted : q.urbs.ring.length < usbdShimRing → posted q ≠ .lost := by
    intro hroom
    rw [posted, if_pos hroom]
    decide
  cases op with
  | transfer x => exact htake (takes_transfer h hs) fun _ => by decide
  | link x => exact htake (takes_link h hs) fun _ => by decide
  | submit x accepted =>
    refine htake (takes_submit h hs) fun _ => ?_
    cases accepted <;> decide
  | refuse x => exact htake (takes_refuse h hs) hposted
  | complete x =>
    obtain ⟨hac, rfl⟩ := of_guard hs
    obtain ⟨_, hp, hm⟩ := h.complete hac
    refine ⟨_, hp, hm, fun hroom hl y => ?_⟩
    by_cases hyx : y = x
    · rw [hyx, update_self]
      exact hposted hroom
    · rw [update_of_ne hyx]
      exact hl y
  | abort p =>
    cases hs
    exact Phases.abort (q.pending p) h
  | give => exact hstill (still_step (.inl rfl) hs)
  | take => exact hstill (still_step (.inr (.inl rfl)) hs)
  | pop =>
    rcases takes_pop h hw hs with ⟨x, ht⟩ | hv
    · exact htake ht fun _ => by decide
    · exact hstill hv
  | work =>
    obtain ⟨x, ht⟩ := takes_work h hs
    exact htake ht fun _ => by decide
  | unlink =>
    obtain ⟨x, ht⟩ := takes_unlink h hs
    exact htake ht fun _ => by decide
  | call =>
    obtain ⟨x, ht⟩ := takes_call h hs
    exact htake ht fun _ => by decide
  | ret => exact hstill (still_step (.inr (.inr rfl)) hs)

end Net80211.Usb
