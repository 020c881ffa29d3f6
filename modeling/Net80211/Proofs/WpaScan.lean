import Net80211.Lib.RingBuffer
import Net80211.Lib.Run
import Net80211.Wpa.Scan

/-!
# One result for each scan

A call of `freertos_scan2` that sets the flag makes a token, and the token is in one
place: in the flag, with the handler or the timeout that took it, in an event of the
queue, delivered, or gone because the scan was refused or cancelled. Every step moves
tokens; the ones that drop or double one are those that `Kept` excludes.

Nothing holds on to a token for ever. While the flag is set a timeout is registered,
so with the flag set something is left to do, and what the event loop and the handlers
have left to do is bounded by `scanLoad`.
-/

namespace Net80211.Wpa

open Lib List Option Function

/-! ## Where a token is -/

/-- One for the token `k`, if that is what is there. -/
def one (j k : Nat) : Nat := if j = k then 1 else 0

def HandlerAt.carries (k : Nat) : HandlerAt → Nat
  | .took j | .sending j _ => one j k
  | .entered | .returned => 0

def EventMsg.carries (k : Nat) (m : EventMsg) : Nat :=
  match m.event with
  | .scanResults j _ => one j k
  | .other | .dummy => 0

def LoopAt.carries (k : Nat) : LoopAt → Nat
  | .timedOut j => one j k
  | _ => 0

/-- The call of `scan2` that the event loop is in. -/
def LoopAt.calls (k : Nat) : LoopAt → Nat
  | .scan2 j | .armed j | .failed j => one j k
  | _ => 0

/-- Is the event loop where a flag that is set has its timeout? -/
def LoopAt.timed : LoopAt → Bool
  | .loop | .armed _ => true
  | _ => false

/-- How often the token `k` is somewhere, where the queue is `q`. -/
def held (s : Scan) (q : List EventMsg) (k : Nat) : Nat :=
  s.scanPending.elim 0 (one · k) + s.loop.carries k + (s.handlers.map (HandlerAt.carries k)).sum +
    (q.map (EventMsg.carries k)).sum + s.delivered.count k + s.refused.count k + s.cancelled.count k

/-- The events are sent and find room, while the driver is there; and a call of `scan2`
that gives up finds its flag still set. -/
def Kept (s : Scan) : ScanOp → Prop
  | .fail => s.scanPending ≠ none
  | .call _ => s.ctx = true
  | .report mem | .send _ mem => mem = true ∧ s.full = false
  | _ => True

instance decidableKept (s : Scan) (a : ScanOp) : Decidable (Kept s a) := by
  cases a <;> unfold Kept <;> infer_instance

/-- What holds in every state of a run that keeps the events; the queue is `q`. -/
structure ScanInv (s : Scan) (q : List EventMsg) : Prop where
  ring : Holds wpaQueueLen s.wpaQueue s.wpaQueueHead s.wpaQueueTail q
  token : ∀ k, held s q k = if k < s.asked then 1 else 0
  call : ∀ k, s.accepted.count k + s.refused.count k + s.loop.calls k = if k < s.asked then 1 else 0
  current : ∀ k, s.loop.calls k = 1 → s.delivered.count k = 0 ∧ ∀ j, s.scanPending = some j → j = k
  addressed : ∀ m ∈ q, m.ctx = false → ∀ k, m.carries k = 0
  sending : ∀ k, .sending k false ∉ s.handlers
  off : s.ctx = false → s.scanPending = none
  armed : s.scanPending ≠ none → s.loop.timed = true → 0 < s.timeouts
  reported : ∀ k, s.loop = .timedOut k → s.scanPending = none ∧ s.ctx = true

/-! ## The queue -/

variable {s : Scan} {q : List EventMsg} {mem : Bool}

theorem ScanInv.full_iff (hi : ScanInv s q) : s.full = true ↔ q.length + 1 = wpaQueueLen := by
  rw [Scan.full, beq_iff_eq]
  exact hi.ring.full_iff

theorem wpaSendEvent_kept (hmem : mem = true ∧ s.full = false) (ctx : Bool)
    (event : WpaEvent) : wpaSendEvent s mem ctx event = { s with
        wpaQueue := update s.wpaQueue s.wpaQueueTail ⟨ctx, event⟩
        wpaQueueTail := (s.wpaQueueTail + 1) % wpaQueueLen } := by
  rw [wpaSendEvent, hmem.1, hmem.2]
  rfl

theorem wpaSendEvent_cases (s : Scan) (mem ctx : Bool) (event : WpaEvent) :
    wpaSendEvent s mem ctx event = s ∨ mem = true ∧ s.full = false := by
  rw [wpaSendEvent]
  cases mem <;> cases s.full <;> simp

theorem ScanInv.push (hi : ScanInv s q) (hfull : s.full = false) (m : EventMsg) :
    Holds wpaQueueLen (update s.wpaQueue s.wpaQueueTail m) s.wpaQueueHead
      ((s.wpaQueueTail + 1) % wpaQueueLen) (q ++ [m]) := by
  refine hi.ring.push ?_ m
  have hne : q.length + 1 ≠ wpaQueueLen := fun h => by
    rw [hi.full_iff.mpr h] at hfull
    cases hfull
  exact Nat.lt_of_le_of_ne hi.ring.length_lt hne

theorem sum_carries_push (k : Nat) (q : List EventMsg) (m : EventMsg) :
    ((q ++ [m]).map (EventMsg.carries k)).sum = (q.map (EventMsg.carries k)).sum + m.carries k := by
  rw [map_append, sum_append, map_singleton, sum_singleton]

/-! ## One step -/

variable {s' : Scan} {k : Nat} {m : EventMsg}

theorem count_snoc (l : List Nat) (j k : Nat) : (l ++ [j]).count k = l.count k + one j k := by
  rw [count_append, count_singleton, one]
  simp only [beq_iff_eq]

/-- The flag is cleared by `freertos_deauthenticate` or `freertos_deinit`. -/
theorem ScanInv.cancel (hi : ScanInv s q) (hloop : s.loop = .loop) (ctx : Bool) :
    ScanInv { cancelScan s with ctx } q := by
  refine ⟨hi.ring, fun k => ?_, hi.call, fun k hk => ?_, hi.addressed, hi.sending, fun _ => rfl,
    fun h => absurd rfl h, fun k hk => ?_⟩
  · refine Eq.trans ?_ (hi.token k)
    simp only [held, cancelScan, Scan.stop, elim_none]
    cases s.scanPending with
    | none => rw [toList_none, append_nil, elim_none]
    | some j => rw [toList_some, count_snoc, elim_some]; omega
  · change s.loop.calls k = 1 at hk
    rw [hloop] at hk
    cases hk
  · cases hloop.symm.trans hk

theorem ScanInv.ask (hi : ScanInv s q) (hloop : s.loop = .loop) (hctx : s.ctx = true)
    (hp : s.scanPending = none) :
    ScanInv { s with scanPending := some s.asked, asked := s.asked + 1, loop := .scan2 s.asked
      } q := by
  have hfresh := hi.token s.asked
  rw [if_neg (Nat.lt_irrefl _), held] at hfresh
  refine ⟨hi.ring, fun k => ?_, fun k => ?_, fun k hk => ?_, hi.addressed, hi.sending,
    fun h => ?_, nofun, nofun⟩
  · have htok := hi.token k
    simp only [held, hp, hloop, LoopAt.carries, elim_none, elim_some] at htok ⊢
    rw [one]
    split at htok <;> split <;> split <;> omega
  · have hcall := hi.call k
    simp only [hloop, LoopAt.calls] at hcall ⊢
    rw [one]
    split at hcall <;> split <;> split <;> omega
  · simp only [LoopAt.calls, one] at hk
    split at hk
    · next heq =>
      subst heq
      exact ⟨show s.delivered.count s.asked = 0 by omega, fun j hj => (Option.some.inj hj).symm⟩
    · cases hk
  · rw [hctx] at h
    cases h

/-- The event loop goes on without touching a token. -/
theorem ScanInv.goto (hi : ScanInv s q) {pc pc' : LoopAt} {timeouts : Nat} (hloop : s.loop = pc)
    (hcar : ∀ j, pc'.carries j = pc.carries j) (hcalls : ∀ j, pc'.calls j = pc.calls j)
    (harm : s.scanPending ≠ none → pc'.timed = true → 0 < timeouts)
    (hrep : ∀ k, pc' ≠ .timedOut k) : ScanInv { s with loop := pc', timeouts } q := by
  subst hloop
  refine ⟨hi.ring, fun j => ?_, fun j => ?_, fun j hj => hi.current j ((hcalls j).symm.trans hj),
    hi.addressed, hi.sending, hi.off, harm, fun k h => absurd h (hrep k)⟩
  · have htok := hi.token j
    simp only [held, hcar j] at htok ⊢
    exact htok
  · have hcall := hi.call j
    simp only [hcalls j] at hcall ⊢
    exact hcall

theorem ScanInv.accept (hi : ScanInv s q) (hloop : s.loop = .armed k) :
    ScanInv { s with loop := .loop, accepted := s.accepted ++ [k] } q := by
  refine ⟨hi.ring, fun j => ?_, fun j => ?_, fun j hj => (nomatch hj), hi.addressed,
    hi.sending, hi.off, fun hp _ => hi.armed hp (by rw [hloop]; rfl), nofun⟩
  · have htok := hi.token j
    simp only [held, hloop, LoopAt.carries] at htok ⊢
    exact htok
  · have hcall := hi.call j
    simp only [hloop, LoopAt.calls] at hcall ⊢
    rw [count_snoc]
    omega

theorem ScanInv.refuse (hi : ScanInv s q) (hloop : s.loop = .failed k) (hp : s.scanPending ≠ none) :
    ScanInv { s.stop with loop := .loop, refused := s.refused ++ [k] } q := by
  obtain ⟨j, hj⟩ := ne_none_iff_exists'.mp hp
  obtain rfl : j = k := (hi.current k (by rw [hloop, LoopAt.calls, one, if_pos rfl])).2 j hj
  refine ⟨hi.ring, fun i => ?_, fun i => ?_, fun i hc => (nomatch hc), hi.addressed, hi.sending,
    fun _ => rfl, fun h => absurd rfl h, fun _ hc => nomatch hc⟩
  · have htok := hi.token i
    simp only [held, hloop, hj, LoopAt.carries, elim_some, elim_none, Scan.stop] at htok ⊢
    rw [count_snoc]
    omega
  · have hcall := hi.call i
    simp only [hloop, LoopAt.calls, Scan.stop] at hcall ⊢
    rw [count_snoc]
    omega

theorem ScanInv.pollTake (hi : ScanInv s q) (hloop : s.loop = .poll)
    (hp : s.scanPending = some k) :
    ScanInv { s with scanPending := none, loop := .timedOut k } q := by
  have hctx : s.ctx = true := by
    by_contra h
    cases (hi.off (Bool.eq_false_iff.mpr h)).symm.trans hp
  refine ⟨hi.ring, fun j => ?_, fun j => ?_, fun j hj => (nomatch hj), hi.addressed, hi.sending,
    fun _ => rfl, fun h => absurd rfl h, fun _ _ => ⟨rfl, hctx⟩⟩
  · have htok := hi.token j
    simp only [held, hloop, hp, LoopAt.carries, elim_some, elim_none] at htok ⊢
    omega
  · have hcall := hi.call j
    simp only [hloop, LoopAt.calls] at hcall ⊢
    exact hcall

theorem ScanInv.report (hi : ScanInv s q) (hloop : s.loop = .timedOut k)
    (hk : mem = true ∧ s.full = false) :
    ScanInv { wpaSendEvent s mem s.ctx (.scanResults k true) with loop := .loop }
      (q ++ [⟨s.ctx, .scanResults k true⟩]) := by
  obtain ⟨hp, hctx⟩ := hi.reported k hloop
  rw [wpaSendEvent_kept hk]
  refine ⟨hi.push hk.2 _, fun j => ?_, fun j => ?_, fun j hj => (nomatch hj), fun m hm hc => ?_,
    hi.sending, hi.off, fun h => absurd hp h, fun _ h => nomatch h⟩
  · have htok := hi.token j
    simp only [held, hloop, LoopAt.carries, sum_carries_push, EventMsg.carries] at htok ⊢
    omega
  · have hcall := hi.call j
    simp only [hloop, LoopAt.calls] at hcall ⊢
    exact hcall
  · rcases mem_append.mp hm with hm | hm
    · exact hi.addressed m hm hc
    · rw [mem_singleton.mp hm] at hc
      cases hctx.symm.trans hc

theorem ScanInv.handle (hi : ScanInv s q) {i : Nat} {a b : HandlerAt} {flag : Option Nat}
    (hget : s.handlers[i]? = some a) (hb : ∀ k, b ≠ .sending k false)
    (hflag : flag = none ∨ flag = s.scanPending)
    (hcar : ∀ k, b.carries k + flag.elim 0 (one · k) = a.carries k + s.scanPending.elim 0
      (one · k)) :
    ScanInv { s with scanPending := flag, handlers := s.handlers.set i b } q := by
  have hsub : ∀ j, flag = some j → s.scanPending = some j := fun j hj => by
    rcases hflag with rfl | rfl
    · cases hj
    · exact hj
  have hnone : s.scanPending = none → flag = none := fun h => by
    rcases hflag with rfl | rfl
    · rfl
    · exact h
  refine ⟨hi.ring, fun k => ?_, hi.call, fun k hk => ?_, hi.addressed, fun k hk => ?_,
    fun h => hnone (hi.off h), fun h => hi.armed fun h' => h (hnone h'), fun k h => ?_⟩
  · have htok := hi.token k
    have hset := sum_map_set (HandlerAt.carries k) b hget
    have := hcar k
    simp only [held] at htok ⊢
    omega
  · exact ⟨(hi.current k hk).1, fun j hj => (hi.current k hk).2 j (hsub j hj)⟩
  · rcases mem_or_eq_of_mem_set hk with hk | hk
    · exact hi.sending k hk
    · exact hb k hk.symm
  · exact ⟨hnone (hi.reported k h).1, (hi.reported k h).2⟩

theorem ScanInv.enter (hi : ScanInv s q) :
    ScanInv { s with handlers := s.handlers ++ [.entered] } q := by
  refine ⟨hi.ring, fun k => ?_, hi.call, hi.current, hi.addressed, fun k hk => ?_, hi.off, hi.armed,
    hi.reported⟩
  · have htok := hi.token k
    simp only [held, map_append, sum_append, map_singleton, sum_singleton,
      HandlerAt.carries] at htok ⊢
    exact htok
  · rcases mem_append.mp hk with hk | hk
    · exact hi.sending k hk
    · cases mem_singleton.mp hk

/-- An event is put into the queue; a handler sent it, or it is not about a scan. -/
theorem ScanInv.enqueue (hi : ScanInv s q) {handlers : List HandlerAt} (hfull : s.full = false)
    (haddr : m.ctx = false → ∀ k, m.carries k = 0)
    (hmem : ∀ h ∈ handlers, h ∈ s.handlers ∨ h = .returned)
    (hcar : ∀ k, (handlers.map (HandlerAt.carries k)).sum + m.carries k =
      (s.handlers.map (HandlerAt.carries k)).sum) : ScanInv { s with
      wpaQueue := update s.wpaQueue s.wpaQueueTail m
      wpaQueueTail := (s.wpaQueueTail + 1) % wpaQueueLen, handlers } (q ++ [m]) := by
  refine ⟨hi.push hfull m, fun k => ?_, hi.call, hi.current, fun m' hm hc => ?_,
    fun k hk => ?_, hi.off, hi.armed, hi.reported⟩
  · have htok := hi.token k
    have := hcar k
    simp only [held, sum_carries_push] at htok ⊢
    omega
  · rcases mem_append.mp hm with hm | hm
    · exact hi.addressed m' hm hc
    · rw [mem_singleton.mp hm] at hc ⊢
      exact haddr hc
  · rcases hmem _ hk with hk | hk
    · exact hi.sending k hk
    · cases hk

/-- The first event leaves the queue; `more` is what it delivers. -/
theorem ScanInv.dequeue (hi : ScanInv s (m :: q)) (hloop : s.loop = .loop) {more : List Nat}
    (hmore : ∀ k, more.count k = m.carries k) : ScanInv { s with
      wpaQueueHead := (s.wpaQueueHead + 1) % wpaQueueLen, delivered := s.delivered ++ more } q := by
  refine ⟨hi.ring.pop, fun k => ?_, hi.call, fun k hk => ?_,
    fun m' hm => hi.addressed m' (mem_cons_of_mem _ hm), hi.sending, hi.off, hi.armed, hi.reported⟩
  · have htok := hi.token k
    simp only [held, map_cons, sum_cons, count_append, hmore] at htok ⊢
    omega
  · change s.loop.calls k = 1 at hk
    rw [hloop] at hk
    cases hk

theorem ScanInv.process (hi : ScanInv s (m :: q)) (hloop : s.loop = .loop)
    (hs : wpaProcessEvent s = some s') : ScanInv s' q := by
  have hne : s.wpaQueueHead ≠ s.wpaQueueTail := fun h => nomatch hi.ring.eq_iff.mp h
  rw [wpaProcessEvent, if_neg hne, hi.ring.front] at hs
  injection hs with hs
  have hskip : (∀ k, m.carries k = 0) →
      ScanInv { s with wpaQueueHead := (s.wpaQueueHead + 1) % wpaQueueLen } q := fun h => by
    have := hi.dequeue hloop (show ∀ k, ([] : List Nat).count k = m.carries k from fun k =>
      (h k).symm)
    rwa [append_nil] at this
  subst hs
  cases hctx : m.ctx with
  | false =>
    rw [if_neg fun h => nomatch h.2]
    exact hskip (hi.addressed m mem_cons_self hctx)
  | true =>
    cases hev : m.event with
    | scanResults k aborted =>
      rw [if_pos ⟨nofun, rfl⟩]
      refine hi.dequeue hloop fun j => ?_
      rw [EventMsg.carries, hev]
      exact (count_snoc [] k j).trans (Nat.zero_add _)
    | other =>
      rw [if_pos ⟨nofun, rfl⟩]
      exact hskip fun j => by rw [EventMsg.carries, hev]
    | dummy =>
      rw [if_neg fun h => h.1 rfl]
      exact hskip fun j => by rw [EventMsg.carries, hev]

theorem scanInit_inv (h : scanInit s) : ScanInv s [] := by
  obtain ⟨hctx, hp, ht, hhead, htail, hloop, hh, hasked, hacc, href, hcan, hdel⟩ := h
  refine ⟨?_, fun k => ?_, fun k => ?_, fun k hk => ?_, nofun, fun k => ?_, fun _ => hp,
    fun h => absurd hp h, fun k hk => ?_⟩
  · rw [hhead, htail]
    exact holds_nil _ (by decide)
  · simp [held, hp, hloop, hh, hdel, href, hcan, hasked, LoopAt.carries]
  · simp [hacc, href, hloop, hasked, LoopAt.calls]
  · rw [hloop] at hk
    cases hk
  · rw [hh]
    exact not_mem_nil
  · cases hloop.symm.trans hk

/-- `freertos_init2` clears a flag that is clear. -/
theorem ScanInv.start (hi : ScanInv s q) (hctx : s.ctx = false) :
    ScanInv { s with ctx := true, scanPending := none } q := by
  have hp := hi.off hctx
  refine ⟨hi.ring, fun k => ?_, hi.call, fun k hk => ⟨(hi.current k hk).1, nofun⟩, hi.addressed,
    hi.sending, fun _ => rfl, fun h => absurd rfl h, fun _ _ => ⟨rfl, rfl⟩⟩
  have htok := hi.token k
  simp only [held, hp] at htok ⊢
  exact htok

/-! ## What is left to do -/

/-- The steps that end what has begun. The others are the calls of the supplicant, the
notifications and the events of others. -/
def ScanOp.isInternal : ScanOp → Bool
  | .register _ | .portScan _ | .fail | .timeout | .poll | .report _ => true
  | .exchange _ | .call _ | .send _ _ | .process => true
  | .init2 | .deinit | .scan2 _ | .deauthenticate | .notify | .post _ _ _ => false

def LoopAt.left : LoopAt → Nat
  | .loop => 0
  | .failed _ => 1
  | .armed _ | .timedOut _ => 2
  | .poll => 3
  | .scan2 _ => 7

def HandlerAt.left : HandlerAt → Nat
  | .returned => 0
  | .sending _ _ => 2
  | .took _ => 3
  | .entered => 4

/-- A bound on the internal steps. A registered timeout is weighed against its own run
and the event it may send. -/
def scanLoad (s : Scan) : Nat :=
  s.loop.left + 4 * s.timeouts + (s.handlers.map HandlerAt.left).sum +
    (s.wpaQueueTail + wpaQueueLen - s.wpaQueueHead) % wpaQueueLen

/-- The internal steps. -/
inductive ScanMove (s : Scan) : ScanOp → Scan → Prop where
  | registered {k : Nat} : s.loop = .scan2 k →
      ScanMove s (.register true) { s with timeouts := 1, loop := .armed k }
  | unregistered {k : Nat} : s.loop = .scan2 k →
      ScanMove s (.register false) { s with timeouts := 0, loop := .failed k }
  | started {k : Nat} : s.loop = .armed k →
      ScanMove s (.portScan true) { s with loop := .loop, accepted := s.accepted ++ [k] }
  | unstarted {k : Nat} : s.loop = .armed k →
    ScanMove s (.portScan false) { s with loop := .failed k }
  | fail {k : Nat} : s.loop = .failed k →
      ScanMove s .fail { s.stop with loop := .loop, refused := s.refused ++ [k] }
  | timeout : s.loop = .loop → s.timeouts ≠ 0 →
      ScanMove s .timeout { s with timeouts := s.timeouts - 1, loop := .poll }
  | pollTake {k : Nat} : s.loop = .poll → s.scanPending = some k →
      ScanMove s .poll { s with scanPending := none, loop := .timedOut k }
  | pollSkip : s.loop = .poll → s.scanPending = none → ScanMove s .poll { s with loop := .loop }
  | report {k : Nat} {mem : Bool} : s.loop = .timedOut k →
      ScanMove s (.report mem) { wpaSendEvent s mem s.ctx (.scanResults k true) with loop := .loop }
  | take {i k : Nat} : s.handlers[i]? = some .entered → s.scanPending = some k →
      ScanMove s (.exchange i)
      { s with scanPending := none, handlers := s.handlers.set i (.took k) }
  | skip {i : Nat} : s.handlers[i]? = some .entered → s.scanPending = none →
      ScanMove s (.exchange i) { s with handlers := s.handlers.set i .returned }
  | call {i k : Nat} : s.handlers[i]? = some (.took k) →
      ScanMove s (.call i) { s with handlers := s.handlers.set i (.sending k s.ctx) }
  | send {i k : Nat} {ctx mem : Bool} : s.handlers[i]? = some (.sending k ctx) →
      ScanMove s (.send i mem)
        { wpaSendEvent s mem ctx (.scanResults k false)
          with handlers := s.handlers.set i .returned }
  | process {s' : Scan} : s.loop = .loop → wpaProcessEvent s = some s' → ScanMove s .process s'

variable {a : ScanOp}

theorem ScanInv.scanLoad (hi : ScanInv s q) :
    scanLoad s = s.loop.left + 4 * s.timeouts + (s.handlers.map HandlerAt.left).sum + q.length := by
  have hnext := hi.ring.next_lt
  have hlen := hi.ring.length_lt
  rw [Wpa.scanLoad, hi.ring.cur_eq]
  rw [wpaQueueLen] at hnext hlen ⊢
  omega

theorem scanStep_move (ha : a.isInternal = true) (hs : scanStep s a = some s') :
    ScanMove s a s' := by
  cases a with
  | init2 | deinit | scan2 ssids | deauthenticate | notify | post mem ctx event => cases ha
  | register mem =>
    rw [scanStep] at hs
    split at hs
    · next k hloop => cases mem <;> cases hs <;> constructor <;> exact hloop
    · cases hs
  | portScan ok =>
    rw [scanStep] at hs
    split at hs
    · next k hloop => cases ok <;> cases hs <;> constructor <;> exact hloop
    · cases hs
  | fail =>
    rw [scanStep] at hs
    split at hs
    · next k hloop => cases hs; exact .fail hloop
    · cases hs
  | timeout =>
    obtain ⟨hc, hs⟩ := ite_none_left_eq_some.mp hs
    rw [not_or, not_not] at hc
    cases hs
    exact .timeout hc.1 hc.2
  | poll =>
    rw [scanStep] at hs
    split at hs
    · next hloop =>
      split at hs
      · next k hp => cases hs; exact .pollTake hloop hp
      · next hp => cases hs; exact .pollSkip hloop hp
    · cases hs
  | report mem =>
    rw [scanStep] at hs
    split at hs
    · next k hloop => cases hs; exact .report hloop
    · cases hs
  | exchange i =>
    rw [scanStep] at hs
    split at hs
    · next hget =>
      split at hs
      · next k hp => cases hs; exact .take hget hp
      · next hp => cases hs; exact .skip hget hp
    · cases hs
  | call i =>
    rw [scanStep] at hs
    split at hs
    · next k hget => cases hs; exact .call hget
    · cases hs
  | send i mem =>
    rw [scanStep] at hs
    split at hs
    · next k ctx hget => cases hs; exact .send hget
    · cases hs
  | process =>
    obtain ⟨hc, hs⟩ := ite_none_left_eq_some.mp hs
    exact .process (not_not.mp hc) hs

theorem wpaProcessEvent_frame (hs : wpaProcessEvent s = some s') :
    s'.loop = s.loop ∧ s'.timeouts = s.timeouts ∧ s'.handlers = s.handlers := by
  obtain ⟨-, hs⟩ := ite_none_left_eq_some.mp hs
  cases hs
  split
  · cases (s.wpaQueue s.wpaQueueHead).event <;> exact ⟨rfl, rfl, rfl⟩
  · exact ⟨rfl, rfl, rfl⟩

theorem ScanInv.less {q' : List EventMsg} (hi : ScanInv s q) (hi' : ScanInv s' q')
    (hlt : s'.loop.left + 4 * s'.timeouts + (s'.handlers.map HandlerAt.left).sum + q'.length <
      s.loop.left + 4 * s.timeouts + (s.handlers.map HandlerAt.left).sum + q.length) :
    ∃ q', ScanInv s' q' ∧ Wpa.scanLoad s' < Wpa.scanLoad s :=
  ⟨q', hi', by rw [hi.scanLoad, hi'.scanLoad]; exact hlt⟩

theorem ScanMove.less (hi : ScanInv s q) (hk : Kept s a) (hm : ScanMove s a s') :
    ∃ q', ScanInv s' q' ∧ scanLoad s' < scanLoad s := by
  cases hm with
  | registered hloop =>
    refine hi.less (hi.goto hloop (fun _ => rfl) (fun _ => rfl) (fun _ _ => Nat.one_pos) nofun) ?_
    simp only [hloop, LoopAt.left]
    omega
  | unregistered hloop | unstarted hloop | timeout hloop ht =>
    refine hi.less (hi.goto hloop (fun _ => rfl) (fun _ => rfl) nofun nofun) ?_
    simp only [hloop, LoopAt.left]
    omega
  | started hloop =>
    refine hi.less (hi.accept hloop) ?_
    simp only [hloop, LoopAt.left]
    omega
  | fail hloop =>
    refine hi.less (hi.refuse hloop hk) ?_
    simp only [hloop, LoopAt.left, Scan.stop]
    omega
  | pollTake hloop hp =>
    refine hi.less (hi.pollTake hloop hp) ?_
    simp only [hloop, LoopAt.left]
    omega
  | pollSkip hloop hp =>
    refine hi.less (hi.goto hloop (fun _ => rfl) (fun _ => rfl) (fun h => absurd hp h) nofun) ?_
    simp only [hloop, LoopAt.left]
    omega
  | report hloop =>
    refine hi.less (hi.report hloop hk) ?_
    rw [wpaSendEvent_kept hk]
    simp only [hloop, LoopAt.left, length_append, length_singleton]
    omega
  | @take i k hget hp =>
    refine hi.less (hi.handle hget nofun (.inl rfl) fun j => ?_) ?_
    · simp only [hp, HandlerAt.carries, elim_none, elim_some]
      omega
    · have := sum_map_set HandlerAt.left (.took k) hget
      simp only [HandlerAt.left] at this ⊢
      omega
  | skip hget hp =>
    refine hi.less (hi.handle hget nofun (.inr rfl) fun j => rfl) ?_
    have := sum_map_set HandlerAt.left .returned hget
    simp only [HandlerAt.left] at this ⊢
    omega
  | @call i k hget =>
    have hctx : s.ctx = true := hk
    refine hi.less (hi.handle hget (fun j h => ?_) (.inr rfl) fun j => rfl) ?_
    · rw [hctx] at h
      cases h
    · have := sum_map_set HandlerAt.left (.sending k s.ctx) hget
      simp only [HandlerAt.left] at this ⊢
      omega
  | @send i k ctx mem hget =>
    have hctx : ctx = true := by
      by_contra h
      rw [Bool.eq_false_iff.mpr h] at hget
      exact hi.sending k (mem_of_getElem? hget)
    rw [wpaSendEvent_kept hk]
    have hcar : ∀ j, ((s.handlers.set i .returned).map (HandlerAt.carries j)).sum + one k j =
        (s.handlers.map (HandlerAt.carries j)).sum := fun j =>
      sum_map_set (HandlerAt.carries j) .returned hget
    refine hi.less (hi.enqueue hk.2 (fun h => ?_) (fun h => mem_or_eq_of_mem_set) hcar) ?_
    · cases hctx.symm.trans h
    · have := sum_map_set HandlerAt.left .returned hget
      simp only [HandlerAt.left, length_append, length_singleton] at this ⊢
      omega
  | process hloop hs =>
    obtain ⟨m, q, rfl⟩ : ∃ m q', q = m :: q' := by
      refine exists_cons_of_ne_nil fun h => ?_
      rw [wpaProcessEvent, if_pos (hi.ring.eq_iff.mpr h)] at hs
      cases hs
    obtain ⟨hl, ht, hh⟩ := wpaProcessEvent_frame hs
    refine hi.less (hi.process hloop hs) ?_
    rw [hl, ht, hh, length_cons]
    omega

/-- A call of the supplicant, a notification or an event of another. -/
theorem ScanInv.outside (hi : ScanInv s q) (ha : a.isInternal = false)
    (hs : scanStep s a = some s') : ∃ q', ScanInv s' q' := by
  cases a with
  | register mem | portScan ok | fail | timeout | poll | report mem | exchange i | call i
  | send i mem | process => cases ha
  | init2 =>
    obtain ⟨hc, hs⟩ := ite_none_left_eq_some.mp hs
    cases hs
    exact ⟨q, hi.start (Bool.eq_false_iff.mpr fun h => hc (.inr h))⟩
  | deinit =>
    obtain ⟨hc, hs⟩ := ite_none_left_eq_some.mp hs
    cases hs
    exact ⟨q, hi.cancel (by_contra fun h => hc (.inl h)) false⟩
  | deauthenticate =>
    obtain ⟨hc, hs⟩ := ite_none_left_eq_some.mp hs
    cases hs
    exact ⟨q, hi.cancel (by_contra fun h => hc (.inl h)) s.ctx⟩
  | scan2 ssids =>
    rw [scanStep] at hs
    split at hs
    · cases hs
    next hc =>
    cases hs
    rw [scan2]
    split
    · exact ⟨q, hi⟩
    split
    · exact ⟨q, hi⟩
    · next hp =>
      exact ⟨q, hi.ask (by_contra fun h => hc (.inl h))
        (by_contra fun h => hc (.inr (by simp [h]))) hp⟩
  | notify =>
    obtain ⟨-, rfl⟩ := of_guard hs
    exact ⟨q, hi.enter⟩
  | post mem ctx event =>
    have hpost : (∀ k, (EventMsg.mk ctx event).carries k = 0) →
        ∃ q', ScanInv (wpaSendEvent s mem ctx event) q' := fun hcar => by
      rcases wpaSendEvent_cases s mem ctx event with heq | hkept
      · rw [heq]
        exact ⟨q, hi⟩
      · rw [wpaSendEvent_kept hkept]
        exact ⟨_, hi.enqueue hkept.2 (fun _ => hcar) (fun h => .inl) fun k => by
          rw [hcar, Nat.add_zero]⟩
    cases event with
    | scanResults k aborted => cases hs
    | other | dummy =>
      cases hs
      exact hpost fun k => rfl

theorem ScanInv.step (hi : ScanInv s q) (hk : Kept s a) (hs : scanStep s a = some s') :
    ∃ q', ScanInv s' q' := by
  cases ha : a.isInternal with
  | false => exact hi.outside ha hs
  | true =>
    obtain ⟨q', hi', _⟩ := (scanStep_move ha hs).less hi hk
    exact ⟨q', hi'⟩

/-- Where nothing is left to do, the tokens are with the lists. -/
theorem ScanInv.idle (hi : ScanInv s q)
    (hstuck : Stuck scanStep Any (fun a => a.isInternal = true) s) :
    s.loop = .loop ∧ s.scanPending = none ∧ (∀ h ∈ s.handlers, h = .returned) ∧ q = [] := by
  have hno : ∀ a, a.isInternal = true → scanStep s a = none := fun a ha => hstuck a ha trivial
  have hloop : s.loop = .loop := by
    cases h : s.loop with
    | loop => rfl
    | scan2 k => simpa [scanStep, h] using hno (.register true) rfl
    | armed k => simpa [scanStep, h] using hno (.portScan true) rfl
    | failed k => simpa [scanStep, h] using hno .fail rfl
    | timedOut k => simpa [scanStep, h] using hno (.report true) rfl
    | poll => cases hp : s.scanPending <;> simpa [scanStep, h, hp] using hno .poll rfl
  refine ⟨hloop, ?_, fun h hh => ?_, ?_⟩
  · by_contra hp
    have ht := hi.armed hp (by rw [hloop]; rfl)
    have := hno .timeout rfl
    rw [scanStep, if_neg (not_or.mpr ⟨not_not.mpr hloop, Nat.ne_of_gt ht⟩)] at this
    cases this
  · obtain ⟨i, hi⟩ := getElem?_of_mem hh
    cases h with
    | returned => rfl
    | entered => cases hp : s.scanPending <;> simpa [scanStep, hi, hp] using hno (.exchange i) rfl
    | took k => simpa [scanStep, hi] using hno (.call i) rfl
    | sending k ctx => simpa [scanStep, hi] using hno (.send i true) rfl
  · refine hi.ring.eq_iff.mp ?_
    have := hno .process rfl
    rw [scanStep, if_neg (not_not.mpr hloop), wpaProcessEvent] at this
    split at this
    · assumption
    · cases this

theorem ScanInv.answered (hi : ScanInv s q) (hk : k ∈ s.delivered) :
    k ∈ s.accepted ∧ k ∉ s.cancelled := by
  have hpos := count_pos_iff.mpr hk
  have htok := hi.token k
  have hcall := hi.call k
  have hlt : k < s.asked := by
    by_contra h
    rw [if_neg h, held] at htok
    omega
  -- what is delivered is not the scan of a call that has yet to return
  have hcur : s.loop.calls k ≠ 1 := fun h => by
    have := (hi.current k h).1
    omega
  rw [if_pos hlt] at htok hcall
  rw [held] at htok
  rw [← count_pos_iff, ← count_eq_zero]
  omega

theorem ScanInv.answers (hi : ScanInv s q)
    (hstuck : Stuck scanStep Any (fun a => a.isInternal = true) s) (hk : k ∈ s.accepted)
    (hc : k ∉ s.cancelled) : s.delivered.count k = 1 := by
  obtain ⟨hloop, hp, hh, rfl⟩ := hi.idle hstuck
  have hpos := count_pos_iff.mpr hk
  have hcall := hi.call k
  have htok := hi.token k
  have hlt : k < s.asked := by
    by_contra h
    rw [if_neg h] at hcall
    omega
  rw [if_pos hlt] at htok hcall
  have hsum : (s.handlers.map (HandlerAt.carries k)).sum = 0 := by
    refine List.sum_eq_zero_iff_forall_eq_nat.mpr fun n hn => ?_
    obtain ⟨h, hmem, rfl⟩ := List.mem_map.mp hn
    rw [hh h hmem]
    rfl
  rw [held, hsum, hp, hloop, count_eq_zero.mpr hc] at htok
  simp only [LoopAt.carries, elim_none, map_nil, sum_nil] at htok
  omega

/-- No call is under way, no timeout is registered and no event waits. -/
def Scan.Idle (s : Scan) : Prop :=
  s.loop = .loop ∧ s.timeouts = 0 ∧ (∀ h ∈ s.handlers, h = .returned) ∧
    s.wpaQueueHead = s.wpaQueueTail

instance (s : Scan) : Decidable s.Idle :=
  inferInstanceAs (Decidable (s.loop = .loop ∧ s.timeouts = 0 ∧ (∀ h ∈ s.handlers, h = .returned) ∧
    s.wpaQueueHead = s.wpaQueueTail))

theorem stuck_of_idle (hidle : s.Idle) : Stuck scanStep Any (fun op => op.isInternal = true) s := by
  obtain ⟨hloop, ht, hh, hq⟩ := hidle
  intro op hop _
  by_contra hne
  obtain ⟨s', hs⟩ := ne_none_iff_exists'.mp hne
  have hget : ∀ {i : Nat} {h : HandlerAt}, s.handlers[i]? = some h → h = .returned := fun hi =>
    hh _ (mem_of_getElem? hi)
  cases scanStep_move hop hs with
  | registered h | unregistered h | started h | unstarted h | fail h | pollTake h _ | pollSkip h _
  | report h => cases hloop.symm.trans h
  | timeout _ h => exact h ht
  | take h _ | skip h _ | call h | send h => cases hget h
  | process _ h =>
    rw [wpaProcessEvent, if_pos hq] at h
    cases h

/-! ## The result -/

/-- Along every run that keeps the events, a scan is answered at most once, and only a
scan that was accepted and not cancelled. What is left to do comes to an end, and there
every such scan has been answered. -/
theorem scan_results_once {s : Scan} (h : Reach scanInit scanStep Kept s) :
    (∀ k, s.delivered.count k ≤ 1) ∧ (∀ k ∈ s.delivered, k ∈ s.accepted ∧ k ∉ s.cancelled) ∧
    ∀ ops s', (∀ op ∈ ops, op.isInternal = true) → runOk scanStep Kept s ops →
      runSteps scanStep s ops = some s' → ops.length ≤ scanLoad s ∧
        (Stuck scanStep Any (fun op => op.isInternal = true) s' →
          ∀ k ∈ s'.accepted, k ∉ s'.cancelled → s'.delivered.count k = 1) := by
  obtain ⟨q, hi⟩ : ∃ q, ScanInv s q :=
    @Reach.invariant _ _ _ _ _ (fun s => ∃ q, ScanInv s q) (fun s h0 => ⟨[], scanInit_inv h0⟩)
      (fun s a s' ⟨q, hi⟩ hk hs => hi.step hk hs) s h
  have hstep : ∀ s a s', (∃ q, ScanInv s q) → a.isInternal = true → Kept s a →
      scanStep s a = some s' → (∃ q, ScanInv s' q) ∧ scanLoad s' < scanLoad s := by
    rintro s a s' ⟨q, hi⟩ ha hk hs
    obtain ⟨q', hi', hlt⟩ := (scanStep_move ha hs).less hi hk
    exact ⟨⟨q', hi'⟩, hlt⟩
  refine ⟨fun k => ?_, fun k => hi.answered, fun ops s' hint hok hrun => ?_⟩
  · have htok := hi.token k
    rw [held] at htok
    split at htok <;> omega
  · obtain ⟨⟨q', hi'⟩, hle⟩ := runSteps_length hstep ops s s' ⟨q, hi⟩ hint hok hrun
    exact ⟨Nat.le_trans (Nat.le_add_right _ _) hle, fun hstuck k => hi'.answers hstuck⟩

/-- The driver before `freertos_init2`. -/
def scanSample : Scan :=
  ⟨false, none, 0, fun _ => ⟨false, .dummy⟩, 0, 0, .loop, [], 0, [], [], [], []⟩

theorem scanSample_init : scanInit scanSample :=
  ⟨rfl, rfl, rfl, rfl, rfl, rfl, rfl, rfl, rfl, rfl, rfl, rfl⟩

/-- A scan is accepted, and its notification has come. -/
def scanSampleOps : List ScanOp :=
  [.init2, .scan2 [], .register true, .portScan true, .notify, .exchange 0, .call 0, .send 0 true]

theorem scan_results_once_sample : ∃ s s', Reach scanInit scanStep Kept s ∧
      runSteps scanStep s [.process, .timeout, .poll] = some s' ∧
      0 ∈ s'.accepted ∧ 0 ∉ s'.cancelled ∧ s'.delivered.count 0 = 1 := by
  obtain ⟨s, hs, hok, hrun⟩ :
      ∃ s, Reach scanInit scanStep Kept s ∧ runOk scanStep Kept s [.process, .timeout, .poll] ∧
        (runSteps scanStep s [.process, .timeout, .poll]).map
          (fun s' => decide (s'.Idle ∧ 0 ∈ s'.accepted ∧ 0 ∉ s'.cancelled)) = some true :=
    Reach.of_run scanSampleOps scanSample_init (by decide +kernel) (by decide +kernel)
  obtain ⟨s', hs', hend⟩ := map_eq_some_iff.mp hrun
  obtain ⟨hidle, hacc, hcan⟩ := of_decide_eq_true hend
  exact ⟨s, s', hs, hs', hacc, hcan,
    ((scan_results_once hs).2.2 _ s' (by decide) hok hs').2 (stuck_of_idle hidle) 0 hacc hcan⟩

/-- A notification of an older scan takes the flag of a call that is then refused: the
supplicant gets results for it. And the event of an accepted scan finds the queue full. -/
theorem scan_results_astray :
    (∃ s, Reach scanInit scanStep Any s ∧ 0 ∈ s.delivered ∧ s.accepted = [] ∧ s.refused = [0]) ∧
    ∃ s, Reach scanInit scanStep Any s ∧ Stuck scanStep Any (fun op => op.isInternal = true) s ∧
      0 ∈ s.accepted ∧ s.cancelled = [] ∧ s.delivered = [] := by
  constructor
  · exact Reach.of_run
      [.init2, .notify, .scan2 [], .exchange 0, .register true, .portScan false, .fail, .call 0,
        .send 0 true, .process] scanSample_init (runOk_any _ _) (by decide +kernel)
  · obtain ⟨s, hs, hidle, hrest⟩ :
        ∃ s, Reach scanInit scanStep Any s ∧
          s.Idle ∧ 0 ∈ s.accepted ∧ s.cancelled = [] ∧ s.delivered = [] :=
      Reach.of_run
        ([.init2, .scan2 [], .register true, .portScan true] ++ replicate 31
        (.post true true .other) ++
          [.notify, .exchange 0, .call 0, .send 0 true] ++ replicate 31 .process ++
          [.timeout, .poll])
        scanSample_init (runOk_any _ _) (by decide +kernel)
    exact ⟨s, hs, stuck_of_idle hidle, hrest⟩

end Net80211.Wpa
