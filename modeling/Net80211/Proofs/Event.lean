import Net80211.Lib.RingBuffer
import Net80211.Lib.Run
import Net80211.Wpa.Event

/-!
# Driver events, in order and once

Any number of calls of `wpa_send_event` are under way at a time. A message gets its place
in the queue under the lock, and only then does the call return: so the order in which
messages are handled is that of the locked sections, and a call that has returned before
another one begins comes before it, but two calls at the same time may return in the
other order.

What a message owns is settled by `sendBuild` (what the call allocated) and
`Msg.release` (what is freed with it). They agree for all events whose payload has no
pointer besides those that are copied; `Event.uncopied` are the others.
-/

namespace Net80211.Wpa

open Lib List Function Option

/-! ## The memory of a message -/

/-- The pointers of an event that its copy shares with the producer. -/
def Event.uncopied : Event → List MemBlock
  | .deauth (some (_, ie)) => ie.toList
  | .assoc (some (_, ptrs)) => ptrs.filterMap id
  | .scanResults (some ptrs) => ptrs.filterMap id
  | _ => []

/-- The element of a deauthentication is freed with the message, though it was not copied. -/
def Event.astray : Event → List MemBlock
  | .deauth (some (_, ie)) => ie.toList
  | _ => []

theorem Event.astray_of_uncopied {event : Event} (h : event.uncopied = []) : event.astray = [] := by
  rcases event with _ | (_ | ⟨addr, ie⟩) | _ | _ | _ <;> first | rfl | exact h

theorem Event.noData {event : Event} (h : event.hasData = false) :
    eventCopyFree event = [] ∧ event.astray = [] ∧ event.pointers = [] := by
  rcases event with (_ | _) | (_ | _) | (_ | _) | (_ | _) | ⟨_, _ | _⟩ <;>
    first | exact ⟨rfl, rfl, rfl⟩ | cases h

theorem perm_swap_pairs {α : Type} (a b c d : α) : [a, b, c, d].Perm [d, c, a, b] :=
  (show ([a, b] ++ [c, d]).Perm ([c, d] ++ [a, b]) from perm_append_comm).trans
    (List.Perm.swap d c [a, b])

variable {k : Nat} {mem : Part → Bool} {event event' : Event}

theorem sendBuild_refused_iff :
    (sendBuild k mem event).event = none ↔ ∃ p ∈ event.parts, mem p = false := by
  rcases event
    with (_ | ⟨src, data⟩) | (_ | ⟨addr, ie⟩) | (_ | ⟨_ | addr, ptrs⟩) | (_ | ptrs) | ⟨event,
    _ | ptrs⟩
  all_goals simp only [sendBuild, Event.hasData, Event.parts, mem_cons, not_mem_nil, or_false,
    exists_eq_or_imp, exists_eq_left, isSome_some, isSome_none]
  all_goals cases mem .msg <;> try rfl
  all_goals cases mem .copy <;> try simp
  case eapolRx.some => cases mem .src <;> cases mem .data <;> simp
  all_goals cases mem .addr <;> simp

/-- What `wpa_send_event` can have before the lock: nothing that it did not undo, or the
event with its pointers copied. -/
inductive Builds (k : Nat) : Event → Built → Prop where
  | refused {event : Event} {allocated freed : List MemBlock} (hperm : freed.Perm allocated)
      (hnodup : allocated.Nodup) (hown : ∀ b ∈ allocated, ∃ p, b = .own k p) :
      Builds k event ⟨allocated, freed, none⟩
  | plain {event : Event} (hdata : event.hasData = false) :
      Builds k event ⟨[.own k .msg], [], some event⟩
  | eapolRx (src data : MemPtr) :
      Builds k (.eapolRx (some (src, data)))
      ⟨[.own k .msg, .own k .copy, .own k .src, .own k .data], [],
        some (.eapolRx (some (some (.own k .src), some (.own k .data))))⟩
  | deauth (addr ie : MemPtr) :
      Builds k (.deauth (some (addr, ie))) ⟨[.own k .msg, .own k .copy, .own k .addr], [],
        some (.deauth (some (some (.own k .addr), ie)))⟩
  | assoc (addr : MemBlock) (ptrs : List MemPtr) :
      Builds k (.assoc (some (some addr, ptrs))) ⟨[.own k .msg, .own k .copy, .own k .addr], [],
        some (.assoc (some (some (.own k .addr), ptrs)))⟩
  | assocNull (ptrs : List MemPtr) :
      Builds k (.assoc (some (none, ptrs))) ⟨[.own k .msg, .own k .copy], [],
        some (.assoc (some (none, ptrs)))⟩
  | scanResults (ptrs : List MemPtr) :
      Builds k (.scanResults (some ptrs)) ⟨[.own k .msg, .own k .copy], [],
        some (.scanResults (some ptrs))⟩
  | other (event : Int) (ptrs : List MemPtr) :
      Builds k (.other event (some ptrs)) ⟨[.own k .msg, .own k .copy], [.own k .copy],
        some (.other event none)⟩

theorem sendBuild_builds (k : Nat) (mem : Part → Bool) (event : Event) :
    Builds k event (sendBuild k mem event) := by
  rw [sendBuild.eq_def]
  cases mem .msg with
  | false => exact .refused (List.Perm.refl _) nodup_nil (by simp)
  | true =>
    cases hdata : event.hasData with
    | false => exact .plain hdata
    | true =>
      cases mem .copy with
      | false => exact .refused (List.Perm.refl _) (nodup_singleton _) (by simp)
      | true =>
        rcases event
          with (_ | ⟨src, data⟩) | (_ | ⟨addr, ie⟩) | (_ | ⟨_ | addr, ptrs⟩) | (_ | ptrs) |
          ⟨event, _ | ptrs⟩ <;> try cases hdata
        · cases mem .src <;> cases mem .data
          · exact .refused (reverse_perm [_, _]) (by simp) (by simp)
          · exact .refused (reverse_perm [_, _, _]) (by simp) (by simp)
          · exact .refused (reverse_perm [_, _, _]) (by simp) (by simp)
          · exact .eapolRx src data
        · cases mem .addr
          · exact .refused (reverse_perm [_, _]) (by simp) (by simp)
          · exact .deauth addr ie
        · exact .assocNull ptrs
        · cases mem .addr
          · exact .refused (reverse_perm [_, _]) (by simp) (by simp)
          · exact .assoc addr ptrs
        · exact .scanResults ptrs
        · exact .other event ptrs

theorem sendBuild_isEvent (h : (sendBuild k mem event).event = some event') :
    event'.isEvent = event.isEvent := by
  have hb := sendBuild_builds k mem event
  generalize sendBuild k mem event = b at h hb
  cases hb <;> cases h <;> rfl

theorem sendBuild_allocated (k : Nat) (mem : Part → Bool) (event : Event) :
    (sendBuild k mem event).allocated.Nodup ∧
      ∀ b ∈ (sendBuild k mem event).allocated, ∃ p, b = .own k p := by
  have hb := sendBuild_builds k mem event
  generalize sendBuild k mem event = b at hb
  cases hb with
  | refused _ hnodup hown => exact ⟨hnodup, hown⟩
  | plain | eapolRx | deauth | assoc | assocNull | scanResults | other => simp

/-- A call that is refused frees what it allocated. -/
theorem sendBuild_undone (h : (sendBuild k mem event).event = none) :
    (sendBuild k mem event).freed.Perm (sendBuild k mem event).allocated := by
  have hb := sendBuild_builds k mem event
  generalize sendBuild k mem event = b at h hb
  cases hb with
  | refused hperm => exact hperm
  | plain | eapolRx | deauth | assoc | assocNull | scanResults | other => cases h

/-- What is freed with a message is what was allocated for it, and what goes astray. -/
theorem sendBuild_release (h : (sendBuild k mem event).event = some event') (ctx : Bool) :
    ((sendBuild k mem event).freed ++ (Msg.mk k ctx event').release).Perm
      ((sendBuild k mem event).allocated ++ event.astray) := by
  have hb := sendBuild_builds k mem event
  generalize sendBuild k mem event = b at h hb
  cases hb with
  | refused => cases h
  | plain hdata =>
    cases h
    obtain ⟨hfree, hastray, -⟩ := Event.noData hdata
    simp [Msg.release, hfree, hastray, hdata]
  | eapolRx => cases h; exact perm_swap_pairs _ _ _ _
  | deauth addr ie =>
    cases h
    cases ie with
    | none => exact reverse_perm [_, _, _]
    | some ie => exact perm_swap_pairs _ _ _ _
  | assoc => cases h; exact reverse_perm [_, _, _]
  | assocNull | scanResults | other => cases h; exact reverse_perm [_, _]

/-- Where nothing is left uncopied, a handler finds only memory of the message, which is
not freed yet. -/
theorem sendBuild_pointers (h : (sendBuild k mem event).event = some event')
    (hun : event.uncopied = []) :
    ∀ b ∈ event'.pointers, b ∈ (sendBuild k mem event).allocated ∧
    b ∉ (sendBuild k mem event).freed := by
  have hb := sendBuild_builds k mem event
  generalize sendBuild k mem event = b at h hb
  cases hb with
  | refused => cases h
  | plain hdata => cases h; simp [(Event.noData hdata).2.2]
  | eapolRx | other => cases h; simp [Event.pointers]
  | deauth addr ie =>
    cases h
    rw [Event.pointers, show ie.toList = [] from hun]
    simp
  | assoc addr ptrs | assocNull ptrs | scanResults ptrs =>
    cases h
    rw [Event.pointers, show ptrs.filterMap id = [] from hun]
    simp

/-! ## The invariant -/

/-- `m` is the message of the call `k`, and `freed` what the call freed when it made it. -/
structure IsBuilt (k : Nat) (c : SendCall) (m : Msg) (mem : Part → Bool) (freed : List MemBlock) :
    Prop where
  mem_eq : c.mem = some mem
  event : (sendBuild k mem c.event).event = some m.event
  key : m.k = k
  ctx : m.ctx = c.ctx
  allocated : c.allocated = (sendBuild k mem c.event).allocated
  freed_eq : freed = (sendBuild k mem c.event).freed

/-- Where a call of `wpa_send_event` can be, and what it has done so far. -/
inductive CallStatus (enqueued handled : List Nat) (k : Nat) (c : SendCall) : Prop where
  | entered (hat : c.sendAt = .entered) (hnot : k ∉ enqueued) (hfound : c.found = none)
      (hallocated : c.allocated = []) (hfreed : c.freed = [])
  | refused (hat : c.sendAt = .refused ∨ c.sendAt = .returned (-1)) (hnot : k ∉ enqueued)
      (hfound : c.found = none) {mem : Part → Bool} (hmem : c.mem = some mem)
      (hevent : (sendBuild k mem c.event).event = none)
      (hallocated : c.allocated = (sendBuild k mem c.event).allocated)
      (hfreed : c.freed = (sendBuild k mem c.event).freed)
  | ready {m : Msg} (hat : c.sendAt = .ready m) (hnot : k ∉ enqueued) (hfound : c.found = none)
      {mem : Part → Bool} (hbuilt : IsBuilt k c m mem c.freed)
  | full {m : Msg} (hat : c.sendAt = .full m) (hnot : k ∉ enqueued) (hfound : c.found = some 31)
      {mem : Part → Bool} (hbuilt : IsBuilt k c m mem c.freed)
  | dropped {m : Msg} (hat : c.sendAt = .returned (-1)) (hnot : k ∉ enqueued)
      (hfound : c.found = some 31) {mem : Part → Bool} {freed : List MemBlock}
      (hbuilt : IsBuilt k c m mem freed) (hfreed : c.freed = freed ++ m.release)
  | queued {m : Msg} (hat : c.sendAt = .queued ∨ c.sendAt = .returned 0) (hin : k ∈ enqueued)
      {n : Nat} (hfound : c.found = some n) (hroom : n < 31) {mem : Part → Bool}
      {freed : List MemBlock} (hbuilt : IsBuilt k c m mem freed)
      (hfreed : c.freed = freed ++ if k ∈ handled then m.release else [])

/-- The message the event loop has. -/
def ProcessAt.msgs : ProcessAt → List Msg
  | .handling _ m => [m]
  | _ => []

/-- Is the handler called for the message of the call `k`? -/
def EventQ.wants (s : EventQ) (k : Nat) : Bool :=
  (s.calls k).any fun c => c.event.isEvent && c.ctx

/-- What holds between any two steps; the queue is `q`. -/
structure EventInv (s : EventQ) (q : List Msg) : Prop where
  ring : Holds wpaQueueLen s.wpaQueue s.wpaQueueHead s.wpaQueueTail q
  order : s.enqueued = s.handled ++ (s.processAt.msgs ++ q).map fun m => m.k
  nodup : s.enqueued.Nodup
  source : ∀ m ∈ s.processAt.msgs ++ q, ∃ c mem freed, s.calls m.k = some c ∧
    IsBuilt m.k c m mem freed
  fresh : ∀ k, s.next ≤ k → s.calls k = none
  known : ∀ k ∈ s.enqueued, k < s.next
  status : ∀ k c, s.calls k = some c → CallStatus s.enqueued s.handled k c
  earlier : ∀ k c, s.calls k = some c →
    ∀ j ∈ c.earlier, j ∈ s.enqueued ∧ (k ∈ s.enqueued → [j, k].Sublist s.enqueued)
  returned : ∀ k, (k, 0) ∈ s.returned → k ∈ s.enqueued
  delivered : s.delivered = s.handled.filter s.wants

variable {s s' : EventQ} {q : List Msg} {c c' : SendCall}

variable {m : Msg}

theorem EventInv.mem_enqueued (h : EventInv s q) (hm : m ∈ s.processAt.msgs ++ q) :
    m.k ∈ s.enqueued := by
  rw [h.order]
  exact mem_append_right _ (mem_map_of_mem hm)

theorem EventInv.handled_enqueued (h : EventInv s q) (hk : k ∈ s.handled) : k ∈ s.enqueued := by
  rw [h.order]
  exact mem_append_left _ hk

theorem calls_update {calls : Nat → Option SendCall} {j : Nat} {cj : SendCall}
    (h : update calls k (some c) j = some cj) : j = k ∧ cj = c ∨ j ≠ k ∧ calls j = some cj := by
  by_cases hj : j = k
  · rw [hj, update_self] at h
    exact .inl ⟨hj, (some_inj.mp h).symm⟩
  · rw [update_of_ne hj] at h
    exact .inr ⟨hj, h⟩

theorem wants_of_calls (hc : s.calls k = some c) : s.wants k = (c.event.isEvent && c.ctx) := by
  rw [EventQ.wants, hc]
  rfl

theorem wants_congr (h : s'.calls k = s.calls k) : s'.wants k = s.wants k := by
  rw [EventQ.wants, EventQ.wants, h]

/-- A call that is not handled does not matter to what was delivered. -/
theorem filter_wants_update (hcalls : s'.calls = update s.calls k (some c))
    (hnot : k ∉ s.handled) : s.handled.filter s'.wants = s.handled.filter s.wants :=
  filter_congr fun j hj => by
    have hne : j ≠ k := fun heq => hnot (heq ▸ hj)
    exact wants_congr (by rw [hcalls]; exact update_of_ne hne _ _)

theorem filter_wants (hcalls : s'.calls = update s.calls k (some c)) (hnot : k ∉ s.handled) :
    (s.handled ++ [k]).filter s'.wants =
      s.handled.filter s.wants ++ if c.event.isEvent && c.ctx then [k] else [] := by
  have hk : s'.wants k = (c.event.isEvent && c.ctx) :=
    wants_of_calls (by rw [hcalls]; exact update_self _ _ _)
  rw [filter_append, filter_wants_update hcalls hnot, filter_singleton, hk]
  cases c.event.isEvent && c.ctx <;> rfl

/-- The numbers that are not given out yet stay without a call. -/
theorem EventInv.fresh_update (h : EventInv s q) (hc : s.calls k = some c) (c' : SendCall) :
    ∀ j, s.next ≤ j → update s.calls k (some c') j = none := by
  intro j hj
  have hne : j ≠ k := by
    rintro rfl
    rw [h.fresh j hj] at hc
    cases hc
  exact (update_of_ne hne _ _).trans (h.fresh j hj)

/-- The message of one call is nothing to what another one does. -/
theorem EventInv.source_update (h : EventInv s q) (hm : m ∈ s.processAt.msgs ++ q) (hne : m.k ≠ k)
    (c' : SendCall) :
    ∃ c mem freed, update s.calls k (some c') m.k = some c ∧ IsBuilt m.k c m mem freed := by
  obtain ⟨c, mem, freed, hc, hbuilt⟩ := h.source m hm
  exact ⟨c, mem, freed, (update_of_ne hne _ _).trans hc, hbuilt⟩

variable {freed : List MemBlock} {budget : Nat} {ret : Int}

theorem IsBuilt.of_call (h : IsBuilt k c m mem freed) (hmem : c'.mem = c.mem)
    (hevent : c'.event = c.event) (hctx : c'.ctx = c.ctx)
    (hallocated : c'.allocated = c.allocated) : IsBuilt k c' m mem freed :=
  ⟨hmem.trans h.mem_eq, hevent ▸ h.event, h.key, h.ctx.trans hctx.symm,
    hevent ▸ hallocated.trans h.allocated, hevent ▸ h.freed_eq⟩

theorem EventInv.setCall (h : EventInv s q) (hc : s.calls k = some c)
    (hstatus : CallStatus s.enqueued s.handled k c') (hctx : c'.ctx = c.ctx)
    (hevent : c'.event = c.event) (hearlier : c'.earlier = c.earlier)
    (hkeep : k ∈ s.enqueued → c'.mem = c.mem ∧ c'.allocated = c.allocated) :
    EventInv (s.setCall k c') q := by
  have hwants : (s.setCall k c').wants = s.wants := by
    funext j
    by_cases hj : j = k
    · subst hj
      rw [wants_of_calls hc, wants_of_calls (update_self j _ s.calls), hctx, hevent]
    · exact wants_congr (update_of_ne hj _ _)
  constructor
  case ring => exact h.ring
  case order => exact h.order
  case nodup => exact h.nodup
  case known => exact h.known
  case returned => exact h.returned
  case delivered => rw [hwants]; exact h.delivered
  case fresh => exact h.fresh_update hc _
  case source =>
    intro m hm
    by_cases hmk : m.k = k
    · obtain ⟨cm, mem, freed, hcm, hbuilt⟩ := h.source m hm
      obtain ⟨hmem, hallocated⟩ := hkeep (hmk ▸ h.mem_enqueued hm)
      obtain rfl : cm = c := some_inj.mp (hcm.symm.trans (hmk ▸ hc))
      refine ⟨c', mem, freed, by rw [hmk]; exact update_self _ _ _, ?_⟩
      exact hbuilt.of_call hmem hevent hctx hallocated
    · exact h.source_update hm hmk c'
  case status =>
    intro j cj hcj
    rcases calls_update hcj with ⟨rfl, rfl⟩ | ⟨-, hcj⟩
    · exact hstatus
    · exact h.status j cj hcj
  case earlier =>
    intro j cj hcj
    rcases calls_update hcj with ⟨rfl, rfl⟩ | ⟨-, hcj⟩
    · rw [hearlier]
      exact h.earlier j c hc
    · exact h.earlier j cj hcj

theorem EventInv.returns (h : EventInv s q) (hret : ret = 0 → k ∈ s.enqueued) :
    EventInv { s with returned := s.returned ++ [(k, ret)] } q := by
  refine ⟨h.ring, h.order, h.nodup, h.source, h.fresh, h.known, h.status, h.earlier, ?_,
    h.delivered⟩
  intro j hj
  rcases mem_append.mp hj with hj | hj
  · exact h.returned j hj
  · obtain ⟨rfl, rfl⟩ := Prod.mk.inj (mem_singleton.mp hj)
    exact hret rfl

theorem EventInv.call (h : EventInv s q) (ctx : Bool) (event : Event)
    (hop : eventStep s (.call ctx event) = some s') : EventInv s' q := by
  cases hop
  have hnext : s.next ∉ s.enqueued := fun hin => absurd (h.known _ hin) (Nat.lt_irrefl _)
  constructor
  case ring => exact h.ring
  case order => exact h.order
  case nodup => exact h.nodup
  case known => exact fun k hk => Nat.lt_succ_of_lt (h.known k hk)
  case returned => exact h.returned
  case source =>
    intro m hm
    have hne : m.k ≠ s.next := fun heq => hnext (heq ▸ h.mem_enqueued hm)
    exact h.source_update hm hne _
  case fresh =>
    intro k hk
    have hk : s.next + 1 ≤ k := hk
    exact (update_of_ne (by omega) _ _).trans (h.fresh k (by omega))
  case status =>
    intro k c hc
    rcases calls_update hc with ⟨rfl, rfl⟩ | ⟨-, hc⟩
    · exact .entered rfl hnext rfl rfl rfl
    · exact h.status k c hc
  case earlier =>
    intro k c hc
    rcases calls_update hc with ⟨rfl, rfl⟩ | ⟨-, hc⟩
    · intro j hj
      obtain ⟨r, hr, rfl⟩ := mem_map.mp hj
      obtain ⟨hr, hzero⟩ := mem_filter.mp hr
      refine ⟨h.returned r.1 ?_, fun hin => absurd hin hnext⟩
      rw [← of_decide_eq_true hzero]
      exact hr
    · exact h.earlier k c hc
  case delivered =>
    have hhandled : s.next ∉ s.handled := fun hk => hnext (h.handled_enqueued hk)
    exact h.delivered.trans (filter_wants_update rfl hhandled).symm

/-- Of the two lists a call only knows whether it is in them. -/
theorem CallStatus.congr {enqueued handled enqueued' handled' : List Nat}
    (h : CallStatus enqueued handled k c) (hin : k ∈ enqueued' ↔ k ∈ enqueued)
    (hdone : k ∈ handled' ↔ k ∈ handled) : CallStatus enqueued' handled' k c := by
  cases h with
  | entered hat hn hfound hal hfr => exact .entered hat (mt hin.mp hn) hfound hal hfr
  | refused hat hn hfound hmem hev hal hfr =>
    exact .refused hat (mt hin.mp hn) hfound hmem hev hal hfr
  | ready hat hn hfound hb => exact .ready hat (mt hin.mp hn) hfound hb
  | full hat hn hfound hb => exact .full hat (mt hin.mp hn) hfound hb
  | dropped hat hn hfound hb hfr => exact .dropped hat (mt hin.mp hn) hfound hb hfr
  | queued hat hn hfound hroom hb hfr =>
    exact .queued hat (hin.mpr hn) hfound hroom hb (by simp only [hdone]; exact hfr)

theorem EventInv.push (h : EventInv s q) (hc : s.calls k = some c) (hat : c.sendAt = .ready m)
    (hroom : (s.wpaQueueTail + 1) % wpaQueueLen ≠ s.wpaQueueHead) :
    EventInv (sendLocked s k c m) (q ++ [m]) := by
  have hlen : q.length + 1 ≠ wpaQueueLen := fun heq => hroom (h.ring.full_iff.mpr heq)
  have hlt := h.ring.length_lt
  obtain ⟨hnot, mem, hbuilt⟩ : k ∉ s.enqueued ∧ ∃ mem, IsBuilt k c m mem c.freed := by
    cases h.status k c hc with
    | ready hat' hnot _ hb =>
      cases hat.symm.trans hat'
      exact ⟨hnot, _, hb⟩
    | entered hat' | full hat' | dropped hat' => cases hat.symm.trans hat'
    | refused hat' | queued hat' => rcases hat' with hat' | hat' <;> cases hat.symm.trans hat'
  have hfound : (s.wpaQueueTail + wpaQueueLen - s.wpaQueueHead) % wpaQueueLen < 31 := by
    rw [h.ring.length_eq]
    rw [wpaQueueLen] at hlen hlt
    omega
  have hhandled : k ∉ s.handled := fun hk => hnot (h.handled_enqueued hk)
  rw [sendLocked, if_neg hroom]
  constructor
  case ring => exact h.ring.push (by omega) m
  case order =>
    show s.enqueued ++ [k] = s.handled ++ (s.processAt.msgs ++ (q ++ [m])).map fun m => m.k
    simp [h.order, hbuilt.key]
  case nodup =>
    refine nodup_append.mpr ⟨h.nodup, nodup_singleton k, ?_⟩
    intro a ha b hb heq
    rw [mem_singleton.mp hb] at heq
    exact hnot (heq ▸ ha)
  case known =>
    intro j hj
    rcases mem_append.mp hj with hj | hj
    · exact h.known j hj
    · rw [mem_singleton.mp hj]
      by_contra hge
      rw [h.fresh k (Nat.le_of_not_lt hge)] at hc
      cases hc
  case returned => exact fun j hj => mem_append_left _ (h.returned j hj)
  case source =>
    intro m' hm'
    rw [← append_assoc] at hm'
    rcases mem_append.mp hm' with hm' | hm'
    · have hne : m'.k ≠ k := fun heq => hnot (heq ▸ h.mem_enqueued hm')
      exact h.source_update hm' hne _
    · rw [mem_singleton.mp hm', hbuilt.key]
      exact ⟨_, mem, c.freed, update_self _ _ _, hbuilt.of_call rfl rfl rfl rfl⟩
  case fresh => exact h.fresh_update hc _
  case status =>
    intro j cj hcj
    rcases calls_update hcj with ⟨rfl, rfl⟩ | ⟨hne, hcj⟩
    · refine .queued (.inl rfl) (mem_append_right _ (mem_singleton_self _)) rfl hfound
        (hbuilt.of_call rfl rfl rfl rfl) ?_
      show c.freed = c.freed ++ if j ∈ s.handled then m.release else []
      rw [if_neg hhandled, append_nil]
    · exact (h.status j cj hcj).congr (by simp [hne]) Iff.rfl
  case earlier =>
    intro j cj hcj i hi
    rcases calls_update hcj with ⟨rfl, rfl⟩ | ⟨hne, hcj⟩
    · have hin := (h.earlier j c hc i hi).1
      exact ⟨mem_append_left _ hin,
        fun _ => (singleton_sublist.mpr hin).append (List.Sublist.refl [j])⟩
    · obtain ⟨hin, hbefore⟩ := h.earlier j cj hcj i hi
      refine ⟨mem_append_left _ hin, fun hj => (hbefore ?_).trans (sublist_append_left _ _)⟩
      exact (mem_append.mp hj).resolve_right fun hj => hne (mem_singleton.mp hj)
  case delivered => exact h.delivered.trans (filter_wants_update rfl hhandled).symm

theorem EventInv.moveTo (h : EventInv s q) {processAt : ProcessAt}
    (hmsgs : processAt.msgs = s.processAt.msgs) : EventInv { s with processAt := processAt } q :=
  ⟨h.ring, by rw [hmsgs]; exact h.order, h.nodup, by rw [hmsgs]; exact h.source, h.fresh, h.known,
    h.status, h.earlier, h.returned, h.delivered⟩

theorem EventInv.take (h : EventInv s q) (hat : s.processAt = .loop budget)
    (hne : s.wpaQueueHead ≠ s.wpaQueueTail) (b : Nat) : ∃ q', EventInv { s with
      wpaQueueHead := (s.wpaQueueHead + 1) % wpaQueueLen
      processAt := .handling b (s.wpaQueue s.wpaQueueHead) } q' := by
  cases q with
  | nil => exact absurd (h.ring.eq_iff.mpr rfl) hne
  | cons m q =>
    have hfront := h.ring.front
    have horder := h.order
    have hsource := h.source
    rw [hat] at horder hsource
    rw [hfront]
    exact ⟨q, h.ring.pop, horder, h.nodup, hsource, h.fresh, h.known, h.status, h.earlier,
      h.returned, h.delivered⟩

theorem IsBuilt.unique {m' : Msg} {mem' : Part → Bool} {freed' : List MemBlock}
    (h : IsBuilt k c m mem freed) (h' : IsBuilt k c m' mem' freed') : m = m' ∧ freed = freed' := by
  obtain rfl : mem = mem' := some_inj.mp (h.mem_eq.symm.trans h'.mem_eq)
  refine ⟨?_, h.freed_eq.trans h'.freed_eq.symm⟩
  have hevent : m.event = m'.event := some_inj.mp (h.event.symm.trans h'.event)
  have hkey := h.key.trans h'.key.symm
  have hctx := h.ctx.trans h'.ctx.symm
  cases m
  cases m'
  cases hkey
  cases hctx
  cases hevent
  rfl

/-- A message that is not handled yet is that of a call which was queued, and nothing of
it was freed since. -/
theorem EventInv.unhandled (h : EventInv s q) (hm : m ∈ s.processAt.msgs ++ q) :
    m.k ∉ s.handled ∧ ∃ c mem, s.calls m.k = some c ∧
    (c.sendAt = .queued ∨ c.sendAt = .returned 0) ∧
      m.k ∈ s.enqueued ∧ (∃ n, c.found = some n ∧ n < 31) ∧ IsBuilt m.k c m mem c.freed := by
  have hin := h.mem_enqueued hm
  have hnot : m.k ∉ s.handled := by
    intro hk
    have hnodup := h.nodup
    rw [h.order] at hnodup
    exact (nodup_append.mp hnodup).2.2 _ hk _ (mem_map_of_mem hm) rfl
  obtain ⟨c, mem, freed, hc, hbuilt⟩ := h.source m hm
  refine ⟨hnot, c, mem, hc, ?_⟩
  cases h.status _ c hc with
  | queued hat' _ hfound hroom hb hfreed =>
    obtain ⟨rfl, rfl⟩ := hbuilt.unique hb
    rw [if_neg hnot, append_nil] at hfreed
    exact ⟨hat', hin, ⟨_, hfound, hroom⟩, hfreed ▸ hbuilt⟩
  | entered _ hn | refused _ hn | ready _ hn | full _ hn | dropped _ hn => exact absurd hin hn

theorem EventInv.handle (h : EventInv s q) (hat : s.processAt = .handling budget m) :
    EventInv (processStep s) q := by
  obtain ⟨hnot, c, mem, hc, hsent, hin, ⟨n, hfound, hroom⟩, hbuilt⟩ :=
    h.unhandled (m := m) (by simp [hat, ProcessAt.msgs])
  have horder := h.order
  rw [hat] at horder
  rw [processStep, hat]
  simp only [freeMsg, hc, map_some]
  constructor
  case ring => exact h.ring
  case order => exact horder.trans (by simp [ProcessAt.msgs])
  case nodup => exact h.nodup
  case known => exact h.known
  case returned => exact h.returned
  case source =>
    intro m' hm'
    have hm' : m' ∈ q := hm'
    have hne : m'.k ≠ m.k := by
      intro heq
      have hnodup := h.nodup
      rw [horder] at hnodup
      have := (nodup_append.mp hnodup).2.1
      simp only [ProcessAt.msgs, singleton_append, map_cons] at this
      exact (nodup_cons.mp this).1 (heq ▸ mem_map_of_mem hm')
    exact h.source_update (mem_append_right _ hm') hne _
  case fresh => exact h.fresh_update hc _
  case status =>
    intro j cj hcj
    rcases calls_update hcj with ⟨rfl, rfl⟩ | ⟨hne, hcj⟩
    · refine .queued hsent hin hfound hroom (hbuilt.of_call rfl rfl rfl rfl) ?_
      rw [if_pos (mem_append_right _ (mem_singleton_self _))]
    · exact (h.status j cj hcj).congr Iff.rfl (by simp [hne])
  case earlier =>
    intro j cj hcj
    rcases calls_update hcj with ⟨rfl, rfl⟩ | ⟨hne, hcj⟩
    · exact h.earlier m.k c hc
    · exact h.earlier j cj hcj
  case delivered =>
    have hwants : (m.event.isEvent && m.ctx) = (c.event.isEvent && c.ctx) := by
      rw [sendBuild_isEvent hbuilt.event, hbuilt.ctx]
    rw [hwants, filter_wants rfl hnot, ← h.delivered]
    cases c.event.isEvent && c.ctx <;> simp

theorem EventInv.process (h : EventInv s q) : ∃ q', EventInv (processStep s) q' := by
  cases hat : s.processAt with
  | handling budget m => exact ⟨q, h.handle hat⟩
  | idle =>
    rw [processStep, hat]
    exact ⟨q, h.moveTo (by rw [hat]; rfl)⟩
  | loop budget =>
    cases budget with
    | zero =>
      rw [processStep, hat]
      exact ⟨q, h.moveTo (by rw [hat]; rfl)⟩
    | succ budget =>
      rw [processStep, hat]
      dsimp only
      split
      case isTrue => exact ⟨q, h.moveTo (by rw [hat]; rfl)⟩
      case isFalse hne => exact h.take hat hne budget

theorem EventInv.send (h : EventInv s q) (hc : s.calls k = some c)
    (hstep : sendStep s k c mem = some s') : ∃ q', EventInv s' q' := by
  have hstatus := h.status k c hc
  rw [sendStep] at hstep
  cases hstatus with
  | entered hat hnot hfound =>
    rw [hat] at hstep
    obtain ⟨-, hstep⟩ := ite_none_left_eq_some.mp hstep
    cases hstep
    refine ⟨q, h.setCall hc ?_ rfl rfl rfl fun hin => absurd hin hnot⟩
    cases hevent : (sendBuild k mem c.event).event with
    | none => exact .refused (.inl rfl) hnot hfound rfl hevent rfl rfl
    | some event => exact .ready rfl hnot hfound ⟨rfl, hevent, rfl, rfl, rfl, rfl⟩
  | refused hat hnot hfound hmem hevent hallocated hfreed =>
    rcases hat with hat | hat <;> rw [hat] at hstep <;> cases hstep
    have hstatus : CallStatus s.enqueued s.handled k { c with sendAt := .returned (-1) } :=
      .refused (.inr rfl) hnot hfound hmem hevent hallocated hfreed
    exact ⟨q, (h.setCall hc hstatus rfl rfl rfl fun hin => absurd hin hnot).returns (by simp)⟩
  | ready hat hnot hfound hbuilt =>
    rw [hat] at hstep
    cases hstep
    by_cases hroom : (s.wpaQueueTail + 1) % wpaQueueLen = s.wpaQueueHead
    · rw [sendLocked, if_pos hroom]
      refine ⟨q, h.setCall hc ?_ rfl rfl rfl fun hin => absurd hin hnot⟩
      refine .full rfl hnot ?_ (hbuilt.of_call rfl rfl rfl rfl)
      have hlen := h.ring.full_iff.mp hroom
      have hcount := h.ring.length_eq
      rw [wpaQueueLen] at hlen
      exact congrArg some (hcount.trans (by omega))
    · exact ⟨q ++ [_], h.push hc hat hroom⟩
  | @full m hat hnot hfound _ hbuilt =>
    rw [hat] at hstep
    cases hstep
    have hstatus : CallStatus s.enqueued s.handled k
        { c with freed := c.freed ++ m.release, sendAt := .returned (-1) } :=
      .dropped rfl hnot hfound (hbuilt.of_call rfl rfl rfl rfl) rfl
    exact ⟨q, (h.setCall hc hstatus rfl rfl rfl fun hin => absurd hin hnot).returns (by simp)⟩
  | dropped hat => rw [hat] at hstep; cases hstep
  | queued hat hin hfound hroom hbuilt hfreed =>
    rcases hat with hat | hat <;> rw [hat] at hstep <;> cases hstep
    have hstatus : CallStatus s.enqueued s.handled k { c with sendAt := .returned 0 } :=
      .queued (.inr rfl) hin hfound hroom (hbuilt.of_call rfl rfl rfl rfl) hfreed
    exact ⟨q, (h.setCall hc hstatus rfl rfl rfl fun _ => ⟨rfl, rfl⟩).returns fun _ => hin⟩

variable {op : EventOp} {n : Nat}

theorem EventInv.step (h : EventInv s q) (hstep : eventStep s op = some s') :
    ∃ q', EventInv s' q' := by
  cases op with
  | call ctx event => exact ⟨q, h.call ctx event hstep⟩
  | process => cases hstep; exact h.process
  | send k mem =>
    rw [eventStep] at hstep
    split at hstep
    case h_1 => cases hstep
    case h_2 c hc => exact h.send hc hstep

theorem eventInv_init (h : eventInit s) : EventInv s [] := by
  obtain ⟨hhead, htail, hcalls, hnext, hat, henq, hhandled, hdelivered, hret⟩ := h
  constructor
  case ring => rw [hhead, htail]; exact holds_nil _ (by decide)
  case order => simp [henq, hhandled, hat, ProcessAt.msgs]
  case nodup => simp [henq]
  case source => simp [hat, ProcessAt.msgs]
  case fresh => simp [hcalls]
  case known => simp [henq]
  case status => simp [hcalls]
  case earlier => simp [hcalls]
  case returned => simp [hret]
  case delivered => simp [hdelivered, hhandled]

/-! ## Every message is handled -/

/-- The steps of the event loop until it has handled the next message. -/
def ProcessAt.cost : ProcessAt → Nat
  | .handling _ _ => 1
  | .loop (_ + 1) => 2
  | .idle => 3
  | .loop 0 => 4

/-- The message of the call `k` is in the queue, or the event loop has it. -/
def Pending (s : EventQ) (k n : Nat) : Prop :=
  ∃ l₁ l₂, s.enqueued = s.handled ++ (l₁ ++ k :: l₂) ∧ 4 * l₁.length + s.processAt.cost ≤ n

/-- A step of the event loop brings it nearer. -/
theorem pending_process (h : EventInv s q) (hp : Pending s k n) :
    k ∈ (processStep s).handled ∨ ∃ m, n = m + 1 ∧ Pending (processStep s) k m := by
  obtain ⟨l1, l2, hlist, hle⟩ := hp
  have hmove : ∀ {at' : ProcessAt}, s.processAt.cost = at'.cost + 1 → ∀ {s1 : EventQ},
      s1.enqueued = s.enqueued → s1.handled = s.handled → s1.processAt = at' →
      ∃ m, n = m + 1 ∧ Pending s1 k m := by
    intro at' hcost s1 henq hhandled hat
    refine ⟨n - 1, by omega, l1, l2, by rw [henq, hhandled]; exact hlist, ?_⟩
    rw [hat]
    omega
  cases hat : s.processAt with
  | idle =>
    rw [processStep, hat]
    exact .inr (hmove (by rw [hat]; rfl) rfl rfl rfl)
  | loop budget =>
    cases budget with
    | zero =>
      rw [processStep, hat]
      exact .inr (hmove (by rw [hat]; rfl) rfl rfl rfl)
    | succ budget =>
      rw [processStep, hat]
      dsimp only
      split
      case isTrue heq =>
        -- the queue is not empty
        have horder := h.order
        rw [h.ring.eq_iff.mp heq, hat, hlist] at horder
        simp [ProcessAt.msgs] at horder
      case isFalse => exact .inr (hmove (by rw [hat]; rfl) rfl rfl rfl)
  | handling budget m =>
    have horder := h.order
    rw [hlist, hat] at horder
    have hrest := append_cancel_left horder
    rw [processStep, hat]
    cases l1 with
    | nil =>
      injection hrest with hk
      exact .inl (mem_append_right _ (by rw [hk]; exact mem_singleton_self _))
    | cons j l1 =>
      injection hrest with hj
      rw [hat, length_cons] at hle
      refine .inr ⟨n - 1, by omega, l1, l2, ?_, ?_⟩
      · rw [hj] at hlist
        simpa using hlist
      · have hcost : (ProcessAt.loop budget).cost ≤ 4 := by
          cases budget <;> simp [ProcessAt.cost]
        simp only [ProcessAt.cost] at hle
        show 4 * l1.length + (ProcessAt.loop budget).cost ≤ n - 1
        omega

/-- No step of a call takes a message off the queue. -/
theorem pending_send (hop : op.isProcess = false) (hstep : eventStep s op = some s') :
    (∃ l, s'.enqueued = s.enqueued ++ l) ∧ s'.handled = s.handled ∧ s'.processAt = s.processAt := by
  cases op with
  | process => cases hop
  | call => cases hstep; exact ⟨⟨[], (append_nil _).symm⟩, rfl, rfl⟩
  | send k mem =>
    rw [eventStep] at hstep
    split at hstep
    case h_1 => cases hstep
    case h_2 c hc =>
      rw [sendStep] at hstep
      split at hstep
      case h_1 =>
        obtain ⟨-, hstep⟩ := ite_none_left_eq_some.mp hstep
        cases hstep
        exact ⟨⟨[], (append_nil _).symm⟩, rfl, rfl⟩
      case h_3 m hat =>
        cases hstep
        rw [sendLocked]
        split
        case isTrue => exact ⟨⟨[], (append_nil _).symm⟩, rfl, rfl⟩
        case isFalse => exact ⟨⟨[k], rfl⟩, rfl, rfl⟩
      case h_6 => cases hstep
      all_goals cases hstep; exact ⟨⟨[], (append_nil _).symm⟩, rfl, rfl⟩

theorem pending_step (h : ∃ q, EventInv s q) (hp : Pending s k n)
    (hstep : eventStep s op = some s') :
    k ∈ s'.handled ∨ ∃ m, n = m + op.isProcess.toNat ∧ Pending s' k m := by
  obtain ⟨q, h⟩ := h
  cases hop : op.isProcess with
  | true =>
    cases op with
    | process => cases hstep; exact pending_process h hp
    | call | send => cases hop
  | false =>
    obtain ⟨⟨l, henq⟩, hhandled, hat⟩ := pending_send hop hstep
    obtain ⟨l1, l2, hlist, hle⟩ := hp
    refine .inr ⟨n, rfl, l1, l2 ++ l, ?_, by rw [hat]; exact hle⟩
    rw [henq, hhandled, hlist]
    simp

theorem handled_step (hstep : eventStep s op = some s') (hk : k ∈ s.handled) : k ∈ s'.handled := by
  cases hop : op.isProcess with
  | false => rw [(pending_send hop hstep).2.1]; exact hk
  | true =>
    cases op with
    | call | send => cases hop
    | process =>
      cases hstep
      rw [processStep]
      split
      case h_3 => split <;> exact hk
      case h_4 => exact mem_append_left _ hk
      all_goals exact hk

theorem queued_handled (h : EventInv s q) (hk : k ∈ s.enqueued) {ops : List EventOp}
    (hrun : runSteps eventStep s ops = some s')
    (hcount : 4 * (s.enqueued.length - s.handled.length) < ops.countP EventOp.isProcess) :
    k ∈ s'.handled := by
  by_cases hdone : k ∈ s.handled
  · exact runSteps_keeps (fun _ _ _ hstep => handled_step hstep) ops hdone hrun
  · have hrest : k ∈ (s.processAt.msgs ++ q).map fun m => m.k :=
      (mem_append.mp (h.order ▸ hk)).resolve_left hdone
    obtain ⟨l1, l2, hsplit⟩ := append_of_mem hrest
    have hlist : s.enqueued = s.handled ++ (l1 ++ k :: l2) := by rw [h.order, hsplit]
    have hcost : s.processAt.cost ≤ 4 := by
      rcases s.processAt with _ | (_ | _) | _ <;> simp [ProcessAt.cost]
    refine runSteps_countdown EventOp.isProcess
      (fun s _ s' h hstep => h.elim fun q h => h.step hstep)
      (fun _ _ _ hstep => handled_step hstep)
      (fun _ _ _ _ h hp hstep => pending_step h hp hstep) ops
      ⟨q, h⟩ ⟨l1, l2, hlist, ?_⟩ hrun hcount
    rw [hlist]
    simp only [length_append, length_cons]
    omega

/-! ## In order and once -/

/-- What the queue is worth to who sends and who handles. -/
structure EventContract (s : EventQ) : Prop where
  /-- Head and tail delimit the messages that are not handled yet, in the order of the
  locked sections of their calls; `found` of a call is how many there were. -/
  queue : ∃ q, Holds wpaQueueLen s.wpaQueue s.wpaQueueHead s.wpaQueueTail q ∧
    s.enqueued = s.handled ++ (s.processAt.msgs ++ q).map (fun m => m.k) ∧
    (s.wpaQueueTail + wpaQueueLen - s.wpaQueueHead) % wpaQueueLen = q.length
  once : s.enqueued.Nodup
  /-- The handler is called for what has a context and is no wake-up. -/
  delivered : s.delivered = s.handled.filter s.wants
  /-- A call that returned 0 before another one began comes first. -/
  order : ∀ k c, s.calls k = some c → k ∈ s.enqueued → ∀ j ∈ c.earlier, [j, k].Sublist s.enqueued
  /-- A call returns 0 with its message queued, or -1 because it lacked memory or found 31
  messages. Then it queued nothing, and freed what it had allocated where the payload has no
  element of a deauthentication. -/
  returns : ∀ k c ret, s.calls k = some c → c.sendAt = .returned ret →
    (ret = 0 ∧ k ∈ s.enqueued ∨ ret = -1 ∧ k ∉ s.enqueued) ∧ (∃ mem, c.mem = some mem ∧
      (ret = -1 ↔ (∃ p ∈ c.event.parts, mem p = false) ∨ c.found = some 31)) ∧
    (ret = -1 → c.event.astray = [] → c.freed.Perm c.allocated)
  /-- What is queued is handled within so many steps of the event loop. -/
  handles : ∀ k ∈ s.enqueued, ∀ ops s', runSteps eventStep s ops = some s' →
    4 * (s.enqueued.length - s.handled.length) < ops.countP EventOp.isProcess → k ∈ s'.handled

theorem IsBuilt.accepted (h : IsBuilt k c m mem freed) : ¬ ∃ p ∈ c.event.parts, mem p = false := by
  rw [← sendBuild_refused_iff, h.event]
  exact some_ne_none _

theorem IsBuilt.release (h : IsBuilt k c m mem freed) :
    (freed ++ m.release).Perm (c.allocated ++ c.event.astray) := by
  obtain ⟨hmem, hevent, hkey, hctx, hallocated, hfreed⟩ := h
  obtain ⟨k', ctx, event⟩ := m
  cases hkey
  rw [hallocated, hfreed]
  exact sendBuild_release hevent ctx

theorem CallStatus.returns {enqueued handled : List Nat} (h : CallStatus enqueued handled k c)
    (hat : c.sendAt = .returned ret) :
    (ret = 0 ∧ k ∈ enqueued ∨ ret = -1 ∧ k ∉ enqueued) ∧ (∃ mem, c.mem = some mem ∧
      (ret = -1 ↔ (∃ p ∈ c.event.parts, mem p = false) ∨ c.found = some 31)) ∧
    (ret = -1 → c.event.astray = [] → c.freed.Perm c.allocated) := by
  cases h with
  | entered hat' | ready hat' | full hat' => cases hat.symm.trans hat'
  | @refused hat' hnot hfound mem hmem hevent hallocated hfreed =>
    rcases hat' with hat' | hat' <;> cases hat.symm.trans hat'
    refine ⟨.inr ⟨rfl, hnot⟩,
      ⟨mem, hmem, fun _ => .inl (sendBuild_refused_iff.mp hevent), fun _ => rfl⟩, fun _ _ => ?_⟩
    rw [hallocated, hfreed]
    exact sendBuild_undone hevent
  | @dropped m hat' hnot hfound mem freed hbuilt hfreed =>
    cases hat.symm.trans hat'
    refine ⟨.inr ⟨rfl, hnot⟩, ⟨mem, hbuilt.mem_eq, fun _ => .inr hfound, fun _ => rfl⟩,
      fun _ hno => ?_⟩
    rw [hfreed, ← append_nil c.allocated, ← hno]
    exact hbuilt.release
  | @queued m hat' hin n hfound hroom mem freed hbuilt hfreed =>
    rcases hat' with hat' | hat' <;> cases hat.symm.trans hat'
    refine ⟨.inl ⟨rfl, hin⟩, ⟨mem, hbuilt.mem_eq, (fun h => by cases h), fun h => ?_⟩,
      (fun h => by cases h)⟩
    rcases h with h | h
    · exact absurd h hbuilt.accepted
    · rw [hfound] at h
      cases h
      exact absurd hroom (Nat.lt_irrefl _)

theorem reach_eventInv {ok : EventQ → EventOp → Prop} (h : Reach eventInit eventStep ok s) :
    ∃ q, EventInv s q := by
  have hstep : ∀ s op s', (∃ q, EventInv s q) → ok s op → eventStep s op = some s' →
      ∃ q, EventInv s' q :=
    fun s op s' hinv _ hstep => hinv.elim fun q hinv => hinv.step hstep
  exact Reach.invariant (fun s h => ⟨[], eventInv_init h⟩) hstep h

/-- The contract holds for every interleaving of calls and of the event loop. -/
theorem event_queue_contract (h : Reach eventInit eventStep Any s) : EventContract s := by
  obtain ⟨q, hinv⟩ := reach_eventInv h
  constructor
  case queue => exact ⟨q, hinv.ring, hinv.order, hinv.ring.length_eq⟩
  case once => exact hinv.nodup
  case delivered => exact hinv.delivered
  case order => exact fun k c hc hk j hj => (hinv.earlier k c hc j hj).2 hk
  case returns => exact fun k c ret hc hat => (hinv.status k c hc).returns hat
  case handles => exact fun k hk ops s' hrun hcount => queued_handled hinv hk hrun hcount

/-- Every allocation succeeds. -/
def memSample : Part → Bool := fun _ => true

def eventSample : EventQ :=
  { wpaQueue := fun _ => ⟨0, false, .other 0 none⟩, wpaQueueHead := 0, wpaQueueTail := 0
    calls := fun _ => none, next := 0, processAt := .idle, enqueued := [], handled := []
    delivered := [], returned := [] }

theorem eventSample_init : eventInit eventSample := ⟨rfl, rfl, rfl, rfl, rfl, rfl, rfl, rfl, rfl⟩

/-- One event, and behind it the one that only wakes the loop. -/
theorem event_queue_contract_sample :
    ∃ s : EventQ, Reach eventInit eventStep Any s ∧ EventContract s ∧
      s.returned = [(0, 0), (1, 0)] ∧ s.handled = [0, 1] ∧ s.delivered = [0] := by
  obtain ⟨s, hreach, hs⟩ : ∃ s : EventQ, Reach eventInit eventStep Any s ∧
      s.returned = [(0, 0), (1, 0)] ∧ s.handled = [0, 1] ∧ s.delivered = [0] :=
    Reach.of_run
      [.call true (.deauth (some (some (.producer 1), none))), .send 0 memSample, .send 0 memSample,
        .send 0 memSample, sendDummy, .send 1 memSample, .send 1 memSample, .send 1 memSample,
        .process, .process, .process, .process, .process]
      eventSample_init (runOk_any _ _) (by decide +kernel)
  exact ⟨s, hreach, event_queue_contract hreach, hs⟩

/-- Two calls at a time: the first to get the lock is the last to return, and its event is
handled first. -/
theorem returns_out_of_order :
    ∃ s : EventQ, Reach eventInit eventStep Any s ∧ s.returned = [(1, 0), (0, 0)] ∧
    s.handled = [0, 1] :=
  Reach.of_run
    [.call true (.other 5 none), .call true (.other 6 none), .send 0 memSample, .send 0 memSample,
      .send 1 memSample, .send 1 memSample, .send 1 memSample, .send 0 memSample,
      .process, .process, .process, .process, .process]
    eventSample_init (runOk_any _ _) (by decide +kernel)

/-! ## Who owns a payload -/

/-- The payload of an event has only pointers that `wpa_send_event` copies. -/
def Copied (_ : EventQ) : EventOp → Prop
  | .call _ event => event.uncopied = []
  | _ => True

instance decidableCopied (s : EventQ) (op : EventOp) : Decidable (Copied s op) := by
  cases op <;> unfold Copied <;> infer_instance

theorem sendStep_calls (hstep : sendStep s k c mem = some s') :
    ∃ c', s'.calls = update s.calls k (some c') ∧ c'.event = c.event := by
  rw [sendStep] at hstep
  split at hstep
  case h_1 =>
    obtain ⟨-, hstep⟩ := ite_none_left_eq_some.mp hstep
    cases hstep
    exact ⟨_, rfl, rfl⟩
  case h_3 =>
    cases hstep
    rw [sendLocked]
    split <;> exact ⟨_, rfl, rfl⟩
  case h_6 => cases hstep
  all_goals cases hstep; exact ⟨_, rfl, rfl⟩

theorem processStep_calls (hc : (processStep s).calls k = some c) :
    ∃ c₀, s.calls k = some c₀ ∧ c₀.event = c.event := by
  rw [processStep] at hc
  split at hc
  case h_3 => split at hc <;> exact ⟨c, hc, rfl⟩
  case h_4 m _ =>
    have hc : freeMsg s.calls m k = some c := hc
    by_cases hk : k = m.k
    · subst hk
      rw [freeMsg, update_self] at hc
      obtain ⟨c₀, hc0, rfl⟩ := map_eq_some_iff.mp hc
      exact ⟨c₀, hc0, rfl⟩
    · rw [freeMsg, update_of_ne hk] at hc
      exact ⟨c, hc, rfl⟩
  all_goals exact ⟨c, hc, rfl⟩

/-- The events of the calls are those that were sent. -/
theorem copied_step (hok : Copied s op) (hstep : eventStep s op = some s')
    (h : ∀ k c, s.calls k = some c → c.event.uncopied = []) :
    ∀ k c, s'.calls k = some c → c.event.uncopied = [] := by
  intro k c hc
  cases op with
  | call ctx event =>
    cases hstep
    rcases calls_update hc with ⟨-, rfl⟩ | ⟨-, hc⟩
    · exact hok
    · exact h k c hc
  | process =>
    cases hstep
    obtain ⟨c0, hc0, hevent⟩ := processStep_calls hc
    exact hevent ▸ h k c0 hc0
  | send j mem =>
    rw [eventStep] at hstep
    split at hstep
    case h_1 => cases hstep
    case h_2 c0 hc0 =>
      obtain ⟨c', hcalls, hevent⟩ := sendStep_calls hstep
      rw [hcalls] at hc
      rcases calls_update hc with ⟨-, rfl⟩ | ⟨-, hc⟩
      · exact hevent ▸ h j c0 hc0
      · exact h k c hc

theorem CallStatus.owned {enqueued handled : List Nat} (h : CallStatus enqueued handled k c)
    (hun : c.event.uncopied = []) :
    c.freed.Nodup ∧ (∀ b ∈ c.freed, b ∈ c.allocated ∧ ∃ p, b = .own k p) ∧
      (c.sendAt = .returned (-1) ∨ k ∈ enqueued ∧ k ∈ handled → c.freed.Perm c.allocated) := by
  -- enough that it is part of what was allocated by the call
  have hpart : ∀ {mem} rest, c.allocated = (sendBuild k mem c.event).allocated →
      (c.freed ++ rest).Perm c.allocated →
      c.freed.Nodup ∧ ∀ b ∈ c.freed, b ∈ c.allocated ∧ ∃ p, b = .own k p := by
    intro mem rest hallocated hperm
    obtain ⟨hnodup, hown⟩ := sendBuild_allocated k mem c.event
    rw [← hallocated] at hnodup hown
    refine ⟨(nodup_append.mp (hperm.nodup_iff.mpr hnodup)).1, fun b hb => ?_⟩
    have hb := hperm.mem_iff.mp (mem_append_left _ hb)
    exact ⟨hb, hown b hb⟩
  have hastray := Event.astray_of_uncopied hun
  cases h with
  | entered hat hnot _ hallocated hfreed =>
    rw [hfreed, hallocated]
    simp
  | refused hat hnot _ hmem hevent hallocated hfreed =>
    have hperm : c.freed.Perm c.allocated := by
      rw [hfreed, hallocated]
      exact sendBuild_undone hevent
    have := hpart [] hallocated (by rw [append_nil]; exact hperm)
    exact ⟨this.1, this.2, fun _ => hperm⟩
  | ready hat hnot _ hbuilt | full hat hnot _ hbuilt =>
    have hperm := hbuilt.release
    rw [hastray, append_nil] at hperm
    have := hpart _ hbuilt.allocated hperm
    refine ⟨this.1, this.2, fun h => ?_⟩
    rcases h with h | h
    · cases hat.symm.trans h
    · exact absurd h.1 hnot
  | dropped hat hnot _ hbuilt hfreed =>
    have hperm := hbuilt.release
    rw [hastray, append_nil, ← hfreed] at hperm
    have := hpart [] hbuilt.allocated (by rw [append_nil]; exact hperm)
    exact ⟨this.1, this.2, fun _ => hperm⟩
  | queued hat hin _ _ hbuilt hfreed =>
    have hperm := hbuilt.release
    rw [hastray, append_nil] at hperm
    by_cases hhandled : k ∈ handled
    · rw [if_pos hhandled] at hfreed
      rw [← hfreed] at hperm
      have := hpart [] hbuilt.allocated (by rw [append_nil]; exact hperm)
      exact ⟨this.1, this.2, fun _ => hperm⟩
    · rw [if_neg hhandled, append_nil] at hfreed
      rw [← hfreed] at hperm
      have := hpart _ hbuilt.allocated hperm
      refine ⟨this.1, this.2, fun h => ?_⟩
      rcases h with h | h
      · rcases hat with hat | hat <;> cases hat.symm.trans h
      · exact absurd h.2 hhandled

/-- In every run where the payloads have only pointers that are copied: what is freed for
a message was allocated by its call and is freed once, all of it when the call failed or
the message is handled; and what a handler finds in the copy is memory of the message
that is not freed yet. -/
theorem event_payload_owned (h : Reach eventInit eventStep Copied s) : (∀ k c, s.calls k = some c →
      c.freed.Nodup ∧ (∀ b ∈ c.freed, b ∈ c.allocated ∧ ∃ p, b = .own k p) ∧
        (c.sendAt = .returned (-1) ∨ k ∈ s.handled → c.freed.Perm c.allocated)) ∧
      ∃ q, Holds wpaQueueLen s.wpaQueue s.wpaQueueHead s.wpaQueueTail q ∧
        ∀ m ∈ s.processAt.msgs ++ q, ∃ c, s.calls m.k = some c ∧
          ∀ b ∈ m.event.pointers, b ∈ c.allocated ∧ b ∉ c.freed ∧ ∃ p, b = .own m.k p := by
  obtain ⟨q, hinv⟩ := reach_eventInv h
  have hcopied : ∀ k c, s.calls k = some c → c.event.uncopied = [] := by
    refine Reach.invariant ?_ (fun s op s' hinv hok hstep => copied_step hok hstep hinv) h
    intro s hinit
    simp [hinit.2.2.1]
  refine ⟨fun k c hc => ?_, q, hinv.ring, fun m hm => ?_⟩
  · obtain ⟨hnodup, hown, hall⟩ := (hinv.status k c hc).owned (hcopied k c hc)
    exact ⟨hnodup, hown, fun h => hall (h.imp_right fun hk => ⟨hinv.handled_enqueued hk, hk⟩)⟩
  · obtain ⟨-, c, mem, hc, -, -, -, hbuilt⟩ := hinv.unhandled hm
    refine ⟨c, hc, fun b hb => ?_⟩
    obtain ⟨hin, hfreed⟩ := sendBuild_pointers hbuilt.event (hcopied _ c hc) b hb
    rw [← hbuilt.allocated] at hin
    rw [← hbuilt.freed_eq] at hfreed
    have hown := (sendBuild_allocated m.k mem c.event).2 b
    rw [← hbuilt.allocated] at hown
    exact ⟨hin, hfreed, hown hin⟩

/-- An EAPOL frame: all that was allocated is freed. -/
theorem event_payload_owned_sample :
    ∃ s : EventQ, Reach eventInit eventStep Copied s ∧ s.handled = [0] ∧
      ∀ c, s.calls 0 = some c → c.freed.Nodup ∧ c.freed.Perm c.allocated := by
  obtain ⟨s, hreach, hhandled⟩ : ∃ s : EventQ, Reach eventInit eventStep Copied s ∧
    s.handled = [0] :=
    Reach.of_run
      [.call true (.eapolRx (some (some (.producer 1), some (.producer 2)))), .send 0 memSample,
        .send 0 memSample, .send 0 memSample, .process, .process, .process]
      eventSample_init (by decide +kernel) (by decide +kernel)
  refine ⟨s, hreach, hhandled, fun c hc => ?_⟩
  obtain ⟨hnodup, -, hall⟩ := (event_payload_owned hreach).1 0 c hc
  exact ⟨hnodup, hall (.inr (by rw [hhandled]; exact mem_singleton_self 0))⟩

/-- The element of a deauthentication is the producer's, and is freed behind the handler.
The elements of an association are the producer's too, and are in the queue when the call
has returned. -/
theorem event_payload_shared : (∃ s : EventQ, Reach eventInit eventStep Any s ∧ s.handled = [0] ∧
      ((s.calls 0).map fun c => c.freed) =
      some [.own 0 .addr, .producer 2, .own 0 .copy, .own 0 .msg]) ∧
    ∃ s : EventQ, Reach eventInit eventStep Any s ∧ s.returned = [(0, 0)] ∧
      s.wpaQueueHead = 0 ∧ s.wpaQueueTail = 1 ∧ (s.wpaQueue 0).event.pointers = [.producer 3] :=
  ⟨Reach.of_run
      [.call true (.deauth (some (some (.producer 1), some (.producer 2)))), .send 0 memSample,
        .send 0 memSample, .send 0 memSample, .process, .process, .process]
      eventSample_init (runOk_any _ _) (by decide +kernel),
    Reach.of_run
      [.call true (.assoc (some (none, [some (.producer 3)]))), .send 0 memSample,
      .send 0 memSample,
        .send 0 memSample]
      eventSample_init (runOk_any _ _) (by decide +kernel)⟩

end Net80211.Wpa
