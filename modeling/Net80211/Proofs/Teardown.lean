import Net80211.Proofs.UsbExactlyOnce
import Net80211.Usb.Teardown

/-!
# What the worker finds of a transfer that is torn down

A transfer is under way from the call of `usbd_transfer` to the return of its
callback, and in between the controller, the ring, the pipe's list and the worker
hold on to it. The driver destroys it without a look at any of that: `urtwn_stop`
aborts the pipes, which puts the transfers into the ring, and frees them at once,
whether or not the worker has been round.

So memory is safe where every transfer has come to rest before it is destroyed.
Then all that is under way is in `tx_data` or `rx_data` (`XfersInv`), what is in
there is allocated, and the teardown takes a transfer out before it frees it and
the transfers before the pipes (`Sound`).
-/

namespace Net80211.Usb

open Lib List Function Option

/-! ## Steps of the shim -/

variable {π χ : Type} [DecidableEq π] [DecidableEq χ] {q q' : Urbq π χ} {op : UrbOp π χ}

/-- The controller and the ring move and nothing else. -/
def OnlyPosts (q q' : Urbq π χ) : Prop :=
  ∃ active urbs, q' = { q with active := active, urbs := urbs } ∧ urbs.held = q.urbs.held

omit [DecidableEq π] [DecidableEq χ] in
theorem OnlyPosts.refl (q : Urbq π χ) : OnlyPosts q q := ⟨q.active, q.urbs, rfl, rfl⟩

omit [DecidableEq π] [DecidableEq χ] in
theorem OnlyPosts.trans {q₁ q₂ q₃ : Urbq π χ} (h : OnlyPosts q₁ q₂) (h' : OnlyPosts q₂ q₃) :
    OnlyPosts q₁ q₃ := by
  obtain ⟨_, _, rfl, hheld⟩ := h
  obtain ⟨active, urbs, rfl, hheld'⟩ := h'
  exact ⟨active, urbs, rfl, hheld'.trans hheld⟩

omit [DecidableEq π] in
theorem onlyPosts_complete (q : Urbq π χ) (x : χ) : OnlyPosts q (urbComplete q x) := by
  rw [urbComplete]
  split
  · exact ⟨_, q.urbs.post usbdShimRing x, rfl, rfl⟩
  · exact ⟨_, q.urbs, rfl, rfl⟩

omit [DecidableEq π] in
theorem onlyPosts_kills : ∀ (l : List χ) (q : Urbq π χ),
    OnlyPosts q (l.foldl (fun q x => if q.inFlight x then usbhKillUrb q x else q) q) := by
  intro l
  induction l with
  | nil => exact OnlyPosts.refl
  | cons x l ih =>
    intro q
    rw [foldl_cons]
    refine OnlyPosts.trans ?_ (ih _)
    split
    · rw [usbhKillUrb]
      split
      · exact onlyPosts_complete q x
      · exact .refl q
    · exact .refl q

/-- What a step leaves alone, as far as the teardown cares. -/
structure UrbFrame (q : Urbq π χ) (op : UrbOp π χ) (q' : Urbq π χ) : Prop where
  pipe : q'.pipe = q.pipe
  submitted : ∀ x, op ≠ .transfer x → q'.submitted x = q.submitted x
  ran : ∀ x, q.ran x ≤ q'.ran x
  callback : ∀ x, q'.worker = .callback x → q.worker = .callback x ∨ q.worker = .call x
  home : ∀ p x, x ∈ q'.pending p → x ∈ q.pending p ∨ q.pipe x = p
  held : (q.urbs.held = true → q.worker = .loop) → q'.urbs.held = true → q'.worker = .loop

omit [DecidableEq π] [DecidableEq χ] in
/-- A step that leaves all of that as it is. -/
theorem UrbFrame.of_same (hpipe : q'.pipe = q.pipe) (hsubmitted : q'.submitted = q.submitted)
    (hran : q'.ran = q.ran) (hworker : q'.worker = q.worker) (hpending : q'.pending = q.pending)
    (hheld : q'.urbs.held = q.urbs.held) : UrbFrame q op q' where
  pipe := hpipe
  submitted := fun x _ => by rw [hsubmitted]
  ran := fun x => by rw [hran]
  callback := fun x hw => .inl (hworker ▸ hw)
  home := fun p x hm => .inl (hpending ▸ hm)
  held := fun hl hh => by
    rw [hworker]
    exact hl (hheld ▸ hh)

omit [DecidableEq π] [DecidableEq χ] in
theorem OnlyPosts.frame (h : OnlyPosts q q') : UrbFrame q op q' := by
  obtain ⟨active, urbs, rfl, hheld⟩ := h
  exact .of_same rfl rfl rfl rfl rfl hheld

theorem urbqStep_frame (hs : urbqStep q op = some q') : UrbFrame q op q' := by
  cases op with
  | transfer x =>
    obtain ⟨-, rfl⟩ := of_guard hs
    refine ⟨rfl, fun y hy => ?_, fun _ => le_rfl, fun _ hw => .inl hw, fun _ _ hm => .inl hm, id⟩
    exact update_of_ne (fun hyx => hy (by rw [hyx])) _ _
  | link x =>
    obtain ⟨-, rfl⟩ := of_guard hs
    refine ⟨rfl, fun _ _ => rfl, fun _ => le_rfl, fun _ hw => .inl hw, fun p y hm => ?_, id⟩
    rcases mem_update hm with ⟨rfl, hnew⟩ | hold
    · rcases mem_cons.mp hnew with rfl | hold
      · exact .inr rfl
      · exact .inl hold
    · exact .inl hold
  | submit x accepted =>
    obtain ⟨-, hs⟩ := ite_none_right_eq_some.mp hs
    cases accepted <;>
    · cases hs
      exact .of_same rfl rfl rfl rfl rfl rfl
  | refuse x =>
    obtain ⟨-, rfl⟩ := of_guard hs
    exact .of_same rfl rfl rfl rfl rfl rfl
  | complete x =>
    obtain ⟨-, rfl⟩ := of_guard hs
    exact (onlyPosts_complete q x).frame
  | abort p =>
    cases hs
    exact (onlyPosts_kills (q.pending p) q).frame
  | give =>
    obtain ⟨r, hr, rfl⟩ := urbqStep_give hs
    obtain ⟨_, rfl⟩ := TokenRing.give_some hr
    exact .of_same rfl rfl rfl rfl rfl rfl
  | take =>
    obtain ⟨hw, r, hr, rfl⟩ := urbqStep_take hs
    exact ⟨rfl, fun _ _ => rfl, fun _ => le_rfl, fun _ hw => .inl hw, fun _ _ hm => .inl hm,
      fun _ _ => hw⟩
  | pop =>
    obtain ⟨r, o, hr, rfl⟩ := urbqStep_pop hs
    obtain ⟨_, _, _, hr'⟩ := TokenRing.pop_some hr
    refine ⟨rfl, fun _ _ => rfl, fun _ => le_rfl, fun x hw => ?_, fun _ _ hm => .inl hm,
      fun _ hh => ?_⟩
    · cases o with
      | none => exact .inl hw
      | some y => cases hw
    · rw [hr'] at hh
      cases hh
  | work =>
    rw [urbqStep] at hs
    split at hs
    · next x hw =>
      cases hs
      refine ⟨rfl, fun _ _ => rfl, fun _ => le_rfl, (fun _ hc => by cases hc),
        fun _ _ hm => .inl hm, fun hl hh => ?_⟩
      exact absurd (hl hh) (by rw [hw]; simp)
    · cases hs
  | unlink =>
    rw [urbqStep] at hs
    split at hs
    · next x hw =>
      obtain ⟨-, rfl⟩ := of_guard hs
      refine ⟨rfl, fun _ _ => rfl, fun _ => le_rfl, (fun _ hc => by cases hc), fun p y hm => ?_,
        fun hl hh => ?_⟩
      · rcases mem_update hm with ⟨rfl, hrest⟩ | hold
        · exact .inl (mem_of_mem_erase hrest)
        · exact .inl hold
      · exact absurd (hl hh) (by rw [hw]; simp)
    · cases hs
  | call =>
    rw [urbqStep] at hs
    split at hs
    · next x hw =>
      cases hs
      refine ⟨rfl, fun _ _ => rfl, le_update_succ q.ran x, fun y hc => ?_, fun _ _ hm => .inl hm,
        fun hl hh => ?_⟩
      · cases hc
        exact .inr hw
      · exact absurd (hl hh) (by rw [hw]; simp)
    · cases hs
  | ret =>
    rw [urbqStep] at hs
    split at hs
    · cases hs
      exact ⟨rfl, fun _ _ => rfl, fun _ => le_rfl, (fun _ hc => by cases hc), fun _ _ hm => .inl hm,
        fun _ _ => rfl⟩
    · cases hs

/-- Whatever gets lost, no submission has two runs of the callback, and the worker finds a transfer
in the list that it takes it off. -/
theorem urbq_at_most_once {os : Os} (h : Reach (urbqInit os) urbqStep Any q) (x : χ) :
    q.ran x ≤ q.submitted x ∧ q.submitted x ≤ q.ran x + 1 ∧ q.urbs.ring.count x ≤ 1 ∧
      (x ∈ q.urbs.ring → q.active x = false ∧ q.worker.stage x = .none ∧
        q.submitted x = q.ran x + 1) ∧
      (q.worker = .unlink x → (q.pending (q.pipe x)).count x = 1) := by
  have hall : (∃ ph, Phases q ph) ∧ (q.urbs.held = true → q.worker = .loop) := by
    induction h with
    | init h0 =>
      obtain ⟨pipe, rfl⟩ := h0
      exact ⟨⟨_, urbqCreate_phases pipe os⟩, fun _ => rfl⟩
    | step _ _ hs ih =>
      obtain ⟨⟨ph, hph⟩, hheld⟩ := ih
      obtain ⟨ph', hph', -⟩ := urbqStep_phases hph hheld hs
      exact ⟨⟨ph', hph'⟩, (urbqStep_frame hs).held hheld⟩
  obtain ⟨⟨ph, hph⟩, -⟩ := hall
  have hring : q.urbs.ring.count x = (ph x).inRing := (hph x).inRing
  have hactive : q.active x = (ph x).isActive := (hph x).active
  have hstage : q.worker.stage x = (ph x).stage := (hph x).stage
  have hcount : q.submitted x = q.ran x + (ph x).outstanding := (hph x).count
  rw [← count_pos_iff, hring, hactive, hstage, hcount]
  refine and_assoc.mp ⟨?_, ?_, ?_, unlink_pending hph⟩ <;>
    cases ph x <;> simp [Phase.inRing, Phase.isActive, Phase.stage, Phase.outstanding]

/-- A completion in the ring. -/
theorem urbq_at_most_once_sample : ∃ q : Urbq Bool (Fin 17), 0 ∈ q.urbs.ring ∧
    q.active 0 = false := by
  obtain ⟨q, hq, hr⟩ : ∃ q : Urbq Bool (Fin 17), Reach (urbqInit .embox) urbqStep Any q ∧
    0 ∈ q.urbs.ring :=
    Reach.of_run (urbqSamplePost 0) (show urbqInit .embox (urbqSample .embox) from ⟨_, rfl⟩)
      (runOk_any _ _) (by decide)
  exact ⟨q, hr, ((urbq_at_most_once hq 0).2.2.2.1 hr).1⟩

/-! ## The order of the teardown -/

variable {pipeOf : χ → π} {xs ys : List χ} {ps : List π}

/-- The rest of a teardown, with these transfers and pipes still in the driver's
tables: a transfer is freed after it was taken out, and a pipe after it was taken
out and no transfer of it is left. -/
def Sound (pipeOf : χ → π) : List χ → List π → List (Teardown π χ) → Prop
  | _, _, [] => True
  | xs, ps, .abort _ :: acts => Sound pipeOf xs ps acts
  | xs, ps, .kill x :: acts => Sound pipeOf (xs.filter (· ≠ x)) ps acts
  | xs, ps, .freeBuf x :: acts => x ∉ xs ∧ Sound pipeOf xs ps acts
  | xs, ps, .freeXfer x :: acts => x ∉ xs ∧ Sound pipeOf xs ps acts
  | xs, ps, .close p :: acts => (∀ x ∈ xs, pipeOf x ≠ p) ∧ Sound pipeOf xs (ps.filter (· ≠ p)) acts
  | xs, ps, .freePipe p :: acts => p ∉ ps ∧ (∀ x ∈ xs, pipeOf x ≠ p) ∧ Sound pipeOf xs ps acts

theorem sound_aborts (l : List π) (acts : List (Teardown π χ)) (h : Sound pipeOf xs ps acts) :
    Sound pipeOf xs ps (l.map .abort ++ acts) := by
  induction l with
  | nil => exact h
  | cons p l ih => exact ih

theorem sound_freeList (acts : List (Teardown π χ)) : ∀ (l xs : List χ),
    (∀ xs', (∀ x ∈ xs', x ∈ xs ∧ x ∉ l) → Sound pipeOf xs' ps acts) →
    Sound pipeOf xs ps (urtwnFreeList l ++ acts) := by
  intro l
  induction l with
  | nil => exact fun xs h => h xs fun x hx => ⟨hx, not_mem_nil⟩
  | cons x l ih =>
    intro xs h
    have hout : x ∉ xs.filter (· ≠ x) := by simp
    refine ⟨hout, hout, ih _ fun xs' hxs' => h xs' fun y hy => ?_⟩
    obtain ⟨hmem, hl⟩ := hxs' y hy
    rw [mem_filter, decide_eq_true_eq] at hmem
    exact ⟨hmem.1, not_mem_cons_of_ne_of_not_mem hmem.2 hl⟩

theorem sound_closePipes : ∀ (l ps : List π), Sound pipeOf [] ps (urtwnClosePipes l) := by
  intro l
  induction l with
  | nil => exact fun _ => trivial
  | cons p l ih =>
    intro ps
    exact ⟨by simp, by simp, by simp, ih _⟩

theorem sound_stop (s : UrtwnXfers π χ) (acts : List (Teardown π χ))
    (h : Sound pipeOf [] ps acts) : Sound pipeOf s.data ps (urtwnStop s ++ acts) := by
  rw [urtwnStop, append_assoc, append_assoc, append_assoc]
  refine sound_aborts _ _ (sound_aborts _ _ (sound_freeList _ _ _ fun xs hxs => ?_))
  refine sound_freeList _ _ _ fun ys hys => ?_
  have hnil : ys = [] := by
    refine eq_nil_iff_forall_not_mem.mpr fun y hy => ?_
    obtain ⟨hx, hrx⟩ := hys y hy
    obtain ⟨hdata, htx⟩ := hxs y hx
    exact (mem_append.mp hdata).elim htx hrx
  rw [hnil]
  exact h

/-! ## Memory -/

variable {s s' : UrtwnXfers π χ} {os : Os} {x : χ} {ph : χ → Phase}

/-- The transfer, its buffer and its pipe are allocated. -/
def UrtwnXfers.Allocated (s : UrtwnXfers π χ) (x : χ) : Prop :=
  s.xfer x = .live ∧ s.buf x = .live ∧ s.pipe (s.q.pipe x) = .live

/-- From the call of `usbd_transfer` to the return of the callback. -/
def Urbq.UnderWay (q : Urbq π χ) (x : χ) : Prop := q.ran x < q.submitted x ∨ q.worker = .callback x

structure XfersInv (s : UrtwnXfers π χ) : Prop where
  phases : ∃ ph, Phases s.q ph
  held : s.q.urbs.held = true → s.q.worker = .loop
  home : ∀ p x, x ∈ s.q.pending p → s.q.pipe x = p
  data : ∀ x, s.q.UnderWay x → x ∈ s.data
  live : ∀ x ∈ s.data, s.Allocated x
  pipes : ∀ p ∈ s.txPipe ++ s.rxPipe, s.pipe p = .live
  sound : Sound s.q.pipe s.data (s.txPipe ++ s.rxPipe) s.todo

/-- A transfer at rest: each call of `usbd_transfer` has had its callback, and the
worker has come back from it. -/
def Urbq.AtRest (q : Urbq π χ) (x : χ) : Prop := q.submitted x = q.ran x ∧ q.worker ≠ .callback x

instance decidableAtRest (q : Urbq π χ) (x : χ) : Decidable (q.AtRest x) :=
  inferInstanceAs (Decidable (_ ∧ _))

/-- The actions that take a transfer away find it at rest. -/
def KillsAtRest (q : Urbq π χ) : Teardown π χ → Prop
  | .kill x => q.AtRest x
  | _ => True

instance decidableKillsAtRest (q : Urbq π χ) (act : Teardown π χ) :
    Decidable (KillsAtRest q act) := by
  cases act <;> unfold KillsAtRest <;> infer_instance

/-- Every transfer is at rest when it is destroyed. -/
def DestroysAtRest (s : UrtwnXfers π χ) : XferOp π χ → Prop
  | .next => ∀ act ∈ s.todo.head?, KillsAtRest s.q act
  | _ => True

instance decidableDestroysAtRest (s : UrtwnXfers π χ) (op : XferOp π χ) :
    Decidable (DestroysAtRest s op) := by
  cases op <;> unfold DestroysAtRest <;> infer_instance

omit [DecidableEq π] in
theorem Phases.underWay (h : Phases q ph) (hne : ph x ≠ .idle) : q.UnderWay x := by
  have hcount : q.submitted x = q.ran x + (ph x).outstanding := (h x).count
  have hone : (ph x).outstanding = 1 := by
    cases hph : ph x <;> first | rfl | exact absurd hph hne
  exact .inl (by omega)

theorem xfersInv_attach (os : Os) (pipeOf : χ → π) (tx rx : List π) :
    XfersInv (urtwnAttach os pipeOf tx rx) where
  phases := ⟨fun _ => .idle,
    fun _ => ⟨rfl, rfl, rfl, rfl, rfl, (fun h => by cases h), rfl⟩⟩
  held := fun _ => rfl
  home := fun _ _ h => absurd h not_mem_nil
  data := fun x h => by
    rcases h with h | h
    · exact absurd h (Nat.lt_irrefl 0)
    · cases h
  live := fun _ h => absurd h not_mem_nil
  pipes := fun _ h => if_pos h
  sound := trivial

/-- A step of the shim, with the driver's tables as they are. -/
theorem XfersInv.urb (h : XfersInv s) (hop : ∀ x, op = .transfer x → x ∈ s.data)
    (hs : urbqStep s.q op = some q) :
    XfersInv { s with q := q } := by
  obtain ⟨ph, hph⟩ := h.phases
  obtain ⟨ph', hph', _⟩ := urbqStep_phases hph h.held hs
  have hf := urbqStep_frame hs
  have hpipe : ∀ x, q.pipe x = s.q.pipe x := fun x => by rw [hf.pipe]
  refine ⟨⟨ph', hph'⟩, hf.held h.held, ?_, ?_, ?_, h.pipes, ?_⟩
  · intro p x hm
    rw [hpipe x]
    rcases hf.home p x hm with hold | hnew
    · exact h.home p x hold
    · exact hnew
  · rintro x (hlt | hcb)
    · by_cases hx : op = .transfer x
      · exact hop x hx
      · refine h.data x (.inl ?_)
        have hlt : q.ran x < q.submitted x := hlt
        have hsub := hf.submitted x hx
        have hran := hf.ran x
        omega
    · rcases hf.callback x hcb with hold | hcall
      · exact h.data x (.inr hold)
      · refine h.data x (hph.underWay ?_)
        have hstage : ph x = .call := (hph x).of_stage (by decide) (by
          rw [Urbq.view, hcall]
          exact stage_self.2.2)
        rw [hstage]
        decide
  · intro x hx
    obtain ⟨hxfer, hbuf, hp⟩ := h.live x hx
    exact ⟨hxfer, hbuf, by simp only [hf.pipe]; exact hp⟩
  · simp only [hf.pipe]
    exact h.sound

variable {acts : List (Teardown π χ)}

theorem XfersInv.kill (h : XfersInv s) (htodo : s.todo = .kill x :: acts)
    (hrest : s.q.AtRest x) : XfersInv { teardown s (.kill x) with todo := acts } := by
  obtain ⟨ph, hph⟩ := h.phases
  have hidle := (hph x).idle_of hrest.1
  have hactive : s.q.active x = false := by
    have := (hph x).active
    rw [hidle] at this
    exact this
  have hq : (if s.q.inFlight x then usbhKillUrb s.q x else s.q) = s.q := by
    rw [usbhKillUrb, hactive, if_neg Bool.false_ne_true, ite_self]
  have hsound := h.sound
  rw [htodo] at hsound
  rw [teardown, hq]
  have hmem : ∀ y, y ∈ s.txData.filter (· ≠ x) ++ s.rxData.filter (· ≠ x) ↔ y ∈ s.data ∧ y ≠ x := by
    intro y
    rw [← filter_append, mem_filter, decide_eq_true_eq]
    rfl
  refine ⟨⟨ph, hph⟩, h.held, h.home, ?_, ?_, h.pipes, ?_⟩
  · intro y hy
    refine (hmem y).mpr ⟨h.data y hy, ?_⟩
    rintro rfl
    rcases hy with hlt | hcb
    · exact absurd hrest.1 (Nat.ne_of_gt hlt)
    · exact hrest.2 hcb
  · intro y hy
    exact h.live y ((hmem y).mp hy).1
  · rw [Sound, UrtwnXfers.data, filter_append] at hsound
    exact hsound

/-- Where no transfer of a pipe is left, nothing is on its list. -/
theorem XfersInv.pending_nil {p : π} (h : XfersInv s) (hp : ∀ x ∈ s.data, s.q.pipe x ≠ p) :
    s.q.pending p = [] := by
  obtain ⟨ph, hph⟩ := h.phases
  refine eq_nil_iff_forall_not_mem.mpr fun x hx => ?_
  have hpipe := h.home p x hx
  refine hp x (h.data x (hph.underWay ?_)) hpipe
  intro hidle
  have hzero : (s.q.pending (s.q.pipe x)).count x = (ph x).inPending := (hph x).inPending
  rw [hidle, hpipe] at hzero
  exact count_eq_zero.mp hzero hx

theorem XfersInv.close {p : π} (h : XfersInv s) (htodo : s.todo = .close p :: acts) :
    XfersInv { teardown s (.close p) with todo := acts } := by
  have hsound := h.sound
  rw [htodo] at hsound
  obtain ⟨hp, hsound⟩ := hsound
  rw [teardown, usbdAbortPipe, h.pending_nil hp]
  refine ⟨h.phases, h.held, h.home, h.data, h.live, ?_, ?_⟩
  · intro p' hp'
    refine h.pipes p' ?_
    rw [← filter_append] at hp'
    exact mem_of_mem_filter hp'
  · rw [filter_append] at hsound
    exact hsound

theorem XfersInv.free {act : Teardown π χ} (h : XfersInv s) (htodo : s.todo = act :: acts)
    (hact : (∃ x, act = .freeBuf x ∨ act = .freeXfer x) ∨ ∃ p, act = .freePipe p) :
    XfersInv { teardown s act with todo := acts } := by
  have hsound := h.sound
  rw [htodo] at hsound
  rcases hact with ⟨x, rfl | rfl⟩ | ⟨p, rfl⟩
  · obtain ⟨hx, hsound⟩ := hsound
    refine ⟨h.phases, h.held, h.home, h.data, fun y hy => ?_, h.pipes, hsound⟩
    obtain ⟨hxfer, hbuf, hpipe⟩ := h.live y hy
    exact ⟨hxfer, (update_of_ne (ne_of_mem_of_not_mem hy hx) _ _).trans hbuf, hpipe⟩
  · obtain ⟨hx, hsound⟩ := hsound
    refine ⟨h.phases, h.held, h.home, h.data, fun y hy => ?_, h.pipes, hsound⟩
    obtain ⟨hxfer, hbuf, hpipe⟩ := h.live y hy
    exact ⟨(update_of_ne (ne_of_mem_of_not_mem hy hx) _ _).trans hxfer, hbuf, hpipe⟩
  · obtain ⟨hp, hx, hsound⟩ := hsound
    refine ⟨h.phases, h.held, h.home, h.data, fun y hy => ?_, fun p' hp' => ?_, hsound⟩
    · obtain ⟨hxfer, hbuf, hpipe⟩ := h.live y hy
      exact ⟨hxfer, hbuf, (update_of_ne (hx y hy) _ _).trans hpipe⟩
    · exact (update_of_ne (ne_of_mem_of_not_mem hp' hp) _ _).trans (h.pipes p' hp')

theorem XfersInv.create {tx : Bool} (h : XfersInv s) (htodo : s.todo = [])
    (hpipe : s.q.pipe x ∈ (if tx then s.txPipe else s.rxPipe)) : XfersInv (createXfer s tx x) := by
  have hmem : ∀ y, y ∈ (createXfer s tx x).data ↔ y = x ∨ y ∈ s.data := by
    intro y
    cases tx <;> simp only [createXfer, UrtwnXfers.data, if_true, Bool.false_eq_true, if_false,
      mem_append, mem_singleton] <;> tauto
  have hlive : s.pipe (s.q.pipe x) = .live := by
    refine h.pipes _ (mem_append.mpr ?_)
    cases tx with
    | true => exact .inl hpipe
    | false => exact .inr hpipe
  refine ⟨h.phases, h.held, h.home, fun y hy => (hmem y).mpr (.inr (h.data y hy)), ?_, h.pipes, ?_⟩
  · intro y hy
    by_cases hyx : y = x
    · subst hyx
      exact ⟨update_self .., update_self .., hlive⟩
    · obtain ⟨hxfer, hbuf, hp⟩ := h.live y (((hmem y).mp hy).resolve_left hyx)
      exact ⟨(update_of_ne hyx _ _).trans hxfer, (update_of_ne hyx _ _).trans hbuf, hp⟩
  · rw [show (createXfer s tx x).todo = [] from htodo]
    exact trivial

theorem XfersInv.start (h : XfersInv s) (hacts : Sound s.q.pipe [] (s.txPipe ++ s.rxPipe) acts) :
    XfersInv { s with todo := urtwnStop s ++ acts } :=
  ⟨h.phases, h.held, h.home, h.data, h.live, h.pipes, sound_stop s acts hacts⟩

theorem xferStep_inv {op : XferOp π χ} (h : XfersInv s) (hok : DestroysAtRest s op)
    (hs : xferStep s op = some s') : XfersInv s' := by
  cases op with
  | urb op =>
    obtain ⟨hcalls, hs⟩ := ite_none_right_eq_some.mp hs
    split at hs
    · cases hs
    · next q hq =>
      cases hs
      refine h.urb ?_ hq
      rintro x rfl
      exact of_decide_eq_true hcalls
  | create tx x =>
    rw [xferStep] at hs
    by_cases hc : s.todo = [] ∧ s.xfer x = .unborn ∧
      s.q.pipe x ∈ (if tx then s.txPipe else s.rxPipe)
    · rw [if_pos hc] at hs
      cases hs
      exact h.create hc.1 hc.2.2
    · rw [if_neg hc] at hs
      cases hs
  | stop =>
    obtain ⟨-, rfl⟩ := of_guard hs
    have hstop := h.start (show Sound s.q.pipe [] (s.txPipe ++ s.rxPipe) [] from trivial)
    rw [append_nil] at hstop
    exact hstop
  | detach =>
    obtain ⟨-, rfl⟩ := of_guard hs
    exact h.start (sound_closePipes _ _)
  | next =>
    rw [xferStep] at hs
    split at hs
    · cases hs
    · next act acts htodo =>
      cases hs
      cases act with
      | abort p =>
        have hstep : urbqStep s.q (.abort p) = some (usbdAbortPipe s.q p) := rfl
        have hq := h.urb (fun x hx => by cases hx) hstep
        have hsound := hq.sound
        rw [show ({ s with q := usbdAbortPipe s.q p } : UrtwnXfers π χ).todo = _ from htodo]
          at hsound
        exact ⟨hq.phases, hq.held, hq.home, hq.data, hq.live, hq.pipes, hsound⟩
      | kill x => exact h.kill htodo (hok (.kill x) (by rw [htodo]; rfl))
      | freeBuf x => exact h.free htodo (.inl ⟨x, .inl rfl⟩)
      | freeXfer x => exact h.free htodo (.inl ⟨x, .inr rfl⟩)
      | close p => exact h.close htodo
      | freePipe p => exact h.free htodo (.inr ⟨p, rfl⟩)

/-- Wherever the shim holds on to a transfer. -/
def Urbq.Holding (q : Urbq π χ) (x : χ) : Prop :=
  x ∈ q.urbs.ring ∨ q.worker = .work x ∨ q.worker = .unlink x ∨ q.worker = .call x ∨
    q.worker = .callback x ∨ x ∈ q.pending (q.pipe x) ∨ q.active x = true ∨ q.call x ≠ .idle

omit [DecidableEq π] in
theorem Phases.underWay_of_holding (h : Phases q ph) (hx : q.Holding x) : q.UnderWay x := by
  by_cases hcb : q.worker = .callback x
  · exact .inr hcb
  refine h.underWay fun hidle => ?_
  have hfit := h x
  rw [hidle] at hfit
  rcases hx with hx | hx | hx | hx | hx | hx | hx | hx
  · exact count_eq_zero.mp hfit.inRing hx
  · have hstage := hfit.stage
    rw [Urbq.view, hx] at hstage
    exact absurd (stage_self.1.symm.trans hstage) (by decide)
  · have hstage := hfit.stage
    rw [Urbq.view, hx] at hstage
    exact absurd (stage_self.2.1.symm.trans hstage) (by decide)
  · have hstage := hfit.stage
    rw [Urbq.view, hx] at hstage
    exact absurd (stage_self.2.2.symm.trans hstage) (by decide)
  · exact hcb hx
  · exact count_eq_zero.mp hfit.inPending hx
  · exact absurd (hfit.active.symm.trans hx) (by decide)
  · exact hx hfit.call

/-- Where every transfer is at rest when it is destroyed, whatever the shim holds
on to is allocated, with its buffer and its pipe: the entries of the ring, the
transfer the worker is at, the transfers on the list of a pipe, those the
controller has and those in `usbd_transfer`. -/
theorem usb_no_use_after_free (os : Os) (s : UrtwnXfers π χ)
    (h : Reach (urtwnXfersInit os) xferStep DestroysAtRest s) :
    (∀ x, s.q.Holding x → s.Allocated x) ∧
    (∀ p x, x ∈ s.q.pending p → s.Allocated x ∧ s.q.pipe x = p) := by
  have hinv : XfersInv s := by
    induction h with
    | init h0 =>
      obtain ⟨pipeOf, tx, rx, rfl⟩ := h0
      exact xfersInv_attach os pipeOf tx rx
    | step _ hok hs ih => exact xferStep_inv ih hok hs
  obtain ⟨ph, hph⟩ := hinv.phases
  have hhold : ∀ x, s.q.Holding x → s.Allocated x := fun x hx =>
    hinv.live x (hinv.data x (hph.underWay_of_holding hx))
  refine ⟨hhold, fun p x hx => ?_⟩
  have hpipe := hinv.home p x hx
  subst hpipe
  exact ⟨hhold x (.inr (.inr (.inr (.inr (.inr (.inl hx)))))), rfl⟩

/-! ### Runs -/

/-- One receive transfer, up to the controller. -/
def xferSample : List (XferOp Unit Unit) :=
  [.create false (), .urb (.transfer ()), .urb (.link ()), .urb (.submit () true)]

/-- The worker's way around its loop. -/
def xferSampleWork : List (XferOp Unit Unit) :=
  [.urb .give, .urb .take, .urb .pop, .urb .work, .urb .unlink, .urb .call]

/-- The transfer completes, its callback runs and returns, and the driver detaches;
the transfer is live up to its destruction. -/
theorem usb_no_use_after_free_sample :
    (∃ s : UrtwnXfers Unit Unit, Reach (urtwnXfersInit .embox) xferStep DestroysAtRest s ∧
      s.q.worker = .work () ∧ s.Allocated ()) ∧
    ∃ s : UrtwnXfers Unit Unit, Reach (urtwnXfersInit .embox) xferStep DestroysAtRest s ∧
      s.xfer () = .freed ∧ s.pipe () = .freed ∧ s.todo = [] := by
  refine ⟨?_, ?_⟩
  · obtain ⟨s, hreach, hw⟩ :
        ∃ s : UrtwnXfers Unit Unit, Reach (urtwnXfersInit .embox) xferStep DestroysAtRest s ∧
          s.q.worker = .work () :=
      Reach.of_run (xferSample ++ [.urb (.complete ()), .urb .give, .urb .take, .urb .pop])
        ⟨fun _ => (), [], [()], rfl⟩ (by decide) (by decide)
    exact ⟨s, hreach, hw, (usb_no_use_after_free .embox s hreach).1 () (.inr (.inl hw))⟩
  · exact Reach.of_run
      (xferSample ++ [.urb (.complete ())] ++ xferSampleWork ++ [.urb .ret, .detach] ++
        replicate 6 .next)
      ⟨fun _ => (), [], [()], rfl⟩ (by decide) (by decide)

/-- The driver detaches while the controller has a transfer. The abort puts it into
the ring, the transfer and the pipe are freed, and then the worker takes it. -/
theorem worker_takes_freed_xfer :
    ∃ s : UrtwnXfers Unit Unit, Reach (urtwnXfersInit .embox) xferStep Any s ∧
      s.q.worker = .work () ∧ s.xfer () = .freed ∧ s.buf () = .freed ∧ s.pipe () = .freed :=
  Reach.of_run
    (xferSample ++ [.detach] ++ replicate 6 .next ++ [.urb .give, .urb .take, .urb .pop])
    (show urtwnXfersInit .embox (urtwnAttach .embox (fun _ => ()) [] [()]) from ⟨_, _, _, rfl⟩)
    (runOk_any _ _) (by decide)

end Net80211.Usb
