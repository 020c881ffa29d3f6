import Net80211.OutputQueue
import Net80211.Proofs.IwmTx
import Net80211.Proofs.UrtwnTx

/-!
# How long the queue of frames to send gets

No producer looks at the length of `if_snd` before it appends. `wlan_port_xmit` refuses a
frame for its length or for want of an mbuf, and has nothing to free then
(`xmit_refuses_iff`); so from every state the queue passes every bound (`held_exceeds`).

The drivers are no help outside `S_RUN`. `Asleep` is the state in which the rounds of a
driver leave the queue alone, and each accepted frame is one more packet in it.
-/

namespace Net80211

open Lib Crypto List Option

variable {ν : Type}

@[simp] theorem Nic.rx_setRx (nic : Nic ν) (rx : Rx ν) : (nic.setRx rx).rx = rx := by
  cases nic with
  | urtwn sc | iwm sc => rfl

@[simp] theorem Nic.setRx_setRx (nic : Nic ν) (rx rx' : Rx ν) :
    (nic.setRx rx).setRx rx' = nic.setRx rx' := by
  cases nic with
  | urtwn sc | iwm sc => rfl

theorem xmitEnqueue_eq (sc : Urtwn.TxSoftc ν) (frame : List UInt8) : Urtwn.xmitEnqueue sc frame =
      ({ sc with toRx := (portXmitEnqueue sc.toRx frame).1 },
        (portXmitEnqueue sc.toRx frame).2) := by
  rw [Urtwn.xmitEnqueue, portXmitEnqueue]
  split
  · rfl
  · generalize mGetImpl sc.heap true = r
    obtain ⟨h, _ | m⟩ := r
    · rfl
    · rfl

theorem Nic.xmit_eq (nic : Nic ν) (frame : List UInt8) : nic.xmit frame =
      (nic.setRx (portXmitEnqueue nic.rx frame).1, (portXmitEnqueue nic.rx frame).2) := by
  cases nic with
  | urtwn sc => rw [Nic.xmit, xmitEnqueue_eq]; rfl
  | iwm sc => rfl

/-- The length of the frame is right, and there is an mbuf for it. -/
def portAccepts (rx : Rx ν) (frame : List UInt8) : Bool :=
  14 ≤ frame.length && frame.length ≤ mclbytes && (rx.heap.alloc rx.heap.next).isSome

/-- The answer of `wlan_port_xmit`, what it puts into the queue, and that it frees nothing. -/
theorem portXmitEnqueue_spec (rx : Rx ν) (frame : List UInt8) :
    (portXmitEnqueue rx frame).2 = (if portAccepts rx frame then some frame.length else none) ∧
      (portXmitEnqueue rx frame).1.ifSnd.length = rx.ifSnd.length + (portAccepts rx frame).toNat ∧
      (portXmitEnqueue rx frame).1.heap.freed = rx.heap.freed ∧
      (portXmitEnqueue rx frame).1.heap.alloc = rx.heap.alloc ∧
      (portXmitEnqueue rx frame).1.ic = rx.ic := by
  rw [portXmitEnqueue]
  split
  · next hlen =>
    have hno : portAccepts rx frame = false := by
      rw [portAccepts, Bool.and_eq_false_iff, Bool.and_eq_false_iff, decide_eq_false_iff_not,
        decide_eq_false_iff_not]
      omega
    rw [hno]
    exact ⟨rfl, rfl, rfl, rfl, rfl⟩
  next hlen =>
  have hacc : portAccepts rx frame = (rx.heap.alloc rx.heap.next).isSome := by
    rw [portAccepts, decide_eq_true (by omega), decide_eq_true (by omega)]
    rfl
  rw [hacc, mGetImpl]
  cases rx.heap.alloc rx.heap.next with
  | none => exact ⟨rfl, rfl, rfl, rfl, rfl⟩
  | some cl =>
    refine ⟨rfl, ?_, rfl, rfl, rfl⟩
    simp only [length_append, length_singleton, isSome_some, Bool.toNat_true]

/-! ## Any state -/

variable [DecidableEq ν] (E : BlockCipher) (inet : Bool)

/-- With memory each call of `wlan_port_xmit` makes the queue longer by a packet. -/
theorem xmits_held {frame : List UInt8} (hlen : 14 ≤ frame.length ∧ frame.length ≤ mclbytes)
    (n : Nat) {s : OutQueue ν} (hmem : ∀ k, (s.nic.rx.heap.alloc k).isSome = true) :
    ∃ s', runSteps (queueStep E inet) s (replicate n (.xmit frame)) = some s' ∧
      s'.held = s.held + n := by
  have hone : ∀ s : OutQueue ν, (∀ k, (s.nic.rx.heap.alloc k).isSome = true) →
      ∃ s', queueStep E inet s (.xmit frame) = some s' ∧
        (∀ k, (s'.nic.rx.heap.alloc k).isSome = true) ∧ s'.held = s.held + 1 := by
    intro s hmem
    obtain ⟨-, hheld, -, halloc, -⟩ := portXmitEnqueue_spec s.nic.rx frame
    have hacc : portAccepts s.nic.rx frame = true := by
      rw [portAccepts, hmem, decide_eq_true hlen.1, decide_eq_true hlen.2]
      rfl
    rw [hacc] at hheld
    refine ⟨_, rfl, ?_, ?_⟩
    · simpa only [Nic.xmit_eq, Nic.rx_setRx, halloc] using hmem
    · rw [OutQueue.held, Nic.xmit_eq, Nic.rx_setRx]
      exact hheld
  obtain ⟨s', hrun, -, hheld⟩ := runSteps_replicate hone n hmem
  exact ⟨s', hrun, hheld⟩

/-- No state keeps a bound: memory comes back, and the port brings frames. -/
theorem held_exceeds (bound : Nat) (s : OutQueue ν) :
    ∃ ops s', runSteps (queueStep E inet) s ops = some s' ∧ bound < s'.held := by
  have hlen : 14 ≤ (replicate 14 (0 : UInt8)).length ∧
      (replicate 14 (0 : UInt8)).length ≤ mclbytes := by
    decide
  obtain ⟨s', hrun, hheld⟩ := xmits_held E inet hlen (bound + 1)
    (s := { s with nic := s.nic.setRx { s.nic.rx with heap := ⟨fun _ => some fun _ => 0, 0, []⟩ } })
    (fun k => by rw [Nic.rx_setRx]; rfl)
  refine ⟨.host (s.nic.setRx { s.nic.rx with heap := ⟨fun _ => some fun _ => 0, 0, []⟩ }) ::
    replicate (bound + 1) (.xmit (replicate 14 0)), s', ?_, by omega⟩
  rw [runSteps, queueStep, Nic.rx_setRx, Nic.setRx_setRx]
  exact hrun

omit [DecidableEq ν] in
/-- No call of `wlan_port_xmit` is refused because the queue is full: it is for the length of the
frame or for want of an mbuf, and leaves the queue as it is and nothing to free. -/
theorem xmit_refuses_iff (nic : Nic ν) (frame : List UInt8) :
    ((nic.xmit frame).2 = none ↔ portAccepts nic.rx frame = false) ∧
      ((nic.xmit frame).2 = none → (nic.xmit frame).1.rx.ifSnd.length = nic.rx.ifSnd.length ∧
        (nic.xmit frame).1.rx.heap.freed = nic.rx.heap.freed) := by
  obtain ⟨hanswer, hheld, hfreed, _⟩ := portXmitEnqueue_spec nic.rx frame
  rw [Nic.xmit_eq, Nic.rx_setRx, hanswer]
  cases hacc : portAccepts nic.rx frame with
  | true =>
    rw [if_pos rfl]
    exact ⟨⟨(fun h => by cases h), (fun h => by cases h)⟩, (fun h => by cases h)⟩
  | false =>
    rw [hacc] at hheld
    exact ⟨⟨fun _ => rfl, fun _ => rfl⟩, fun _ => ⟨hheld, hfreed⟩⟩

/-! ## Outside `S_RUN` -/

section Asleep

variable (usb : Nat → Bool) (dma : Mbuf → Iwm.DmaLoad) (adhoc : Nat → Option ν)

/-- There is nothing for the driver to send, and memory for everything the port brings. -/
def Asleep (rx : Rx ν) (mgtq : List (ν × Mbuf × List Mbuf)) : Prop :=
  mgtq = [] ∧ rx.ic.icState ≠ .run ∧ ∀ k, (rx.heap.alloc k).isSome = true

/-- The calls of `wlan_port_xmit` that are accepted. -/
def accepted {σ : Type} (xmit : σ → List UInt8 → Option (σ × Option Nat)) (s : σ)
    (frame : List UInt8) : Option σ :=
  match xmit s frame with
  | some (s', some _) => some s'
  | _ => none

omit [DecidableEq ν] in
/-- The port accepts every frame of the right length, and the driver sleeps on. -/
theorem Asleep.xmit {rx : Rx ν} {mgtq : List (ν × Mbuf × List Mbuf)} {frame : List UInt8}
    (h : Asleep rx mgtq) (hlen : 14 ≤ frame.length ∧ frame.length ≤ mclbytes) :
    (portXmitEnqueue rx frame).2 = some frame.length ∧ Asleep (portXmitEnqueue rx frame).1 mgtq ∧
      (portXmitEnqueue rx frame).1.ifSnd.length = rx.ifSnd.length + 1 := by
  obtain ⟨hmgtq, hstate, hmem⟩ := h
  obtain ⟨hanswer, hheld, _, halloc, hic⟩ := portXmitEnqueue_spec rx frame
  have hacc : portAccepts rx frame = true := by
    rw [portAccepts, hmem, decide_eq_true hlen.1, decide_eq_true hlen.2]
    rfl
  rw [hacc] at hanswer hheld
  exact ⟨hanswer, ⟨hmgtq, by rw [hic]; exact hstate, fun k => by rw [halloc]; exact hmem k⟩, hheld⟩

theorem urtwnStart_asleep {sc : Urtwn.TxSoftc ν} (hmgtq : sc.mgtq = [])
    (hstate : sc.ic.icState ≠ .run) : Urtwn.urtwnStart E usb adhoc sc = some sc := by
  rw [Urtwn.urtwnStart]
  split
  · rw [Urtwn.urtwnStartLoop, Urtwn.urtwnStartRound, hmgtq]
    simp only [hstate, ne_eq, not_false_eq_true, if_true]
  · rfl

theorem iwmStart_asleep {sc : Iwm.TxSoftc ν} (hmgtq : sc.mgtq = []) (hstate : sc.ic.icState ≠ .run)
    (hfull : sc.qfullmsk = 0) : Iwm.iwmStart E inet dma adhoc sc = some sc := by
  rw [Iwm.iwmStart]
  split
  · rw [Iwm.iwmStartLoop, Iwm.iwmStartRound, hmgtq]
    simp only [hstate, hfull, ne_eq, not_false_eq_true, not_true_eq_false, if_true, if_false]
  · rfl

variable {frame : List UInt8} (hlen : 14 ≤ frame.length ∧ frame.length ≤ mclbytes)

include hlen

theorem accepted_urtwn {sc : Urtwn.TxSoftc ν} (h : Asleep sc.toRx sc.mgtq) :
    accepted (Urtwn.wlanPortXmitUrtwn E usb adhoc) sc frame =
      some { sc with toRx := (portXmitEnqueue sc.toRx frame).1 } := by
  obtain ⟨hanswer, hasleep, _⟩ := h.xmit hlen
  have hstart : Urtwn.urtwnStart E usb adhoc { sc with toRx := (portXmitEnqueue sc.toRx frame).1 } =
      some { sc with toRx := (portXmitEnqueue sc.toRx frame).1 } :=
    urtwnStart_asleep E usb adhoc hasleep.1 hasleep.2.1
  rw [accepted, Urtwn.wlanPortXmitUrtwn, xmitEnqueue_eq, hanswer]
  simp only [hstart, map_some]

theorem accepted_iwm {sc : Iwm.TxSoftc ν} (h : Asleep sc.toRx sc.mgtq) (hfull : sc.qfullmsk = 0) :
    accepted (Iwm.wlanPortXmitIwm E inet dma adhoc) sc frame =
      some { sc with toRx := (portXmitEnqueue sc.toRx frame).1 } := by
  obtain ⟨hanswer, hasleep, _⟩ := h.xmit hlen
  have hstart :
      Iwm.iwmStart E inet dma adhoc { sc with toRx := (portXmitEnqueue sc.toRx frame).1 } =
      some { sc with toRx := (portXmitEnqueue sc.toRx frame).1 } :=
    iwmStart_asleep E inet dma adhoc hasleep.1 hasleep.2.1 hfull
  rw [accepted, Iwm.wlanPortXmitIwm]
  generalize portXmitEnqueue sc.toRx frame = r at hanswer hstart
  obtain ⟨rx, answer⟩ := r
  obtain rfl : answer = some frame.length := hanswer
  simp only [hstart, map_some]

/-- Every call of `wlan_port_xmit` makes the queue of a sleeping driver longer. -/
theorem urtwn_asleep_grows (n : Nat) {sc : Urtwn.TxSoftc ν} (h : Asleep sc.toRx sc.mgtq) :
    ∃ sc', runSteps (accepted (Urtwn.wlanPortXmitUrtwn E usb adhoc)) sc (replicate n frame) =
      some sc' ∧ sc'.ifSnd.length = sc.ifSnd.length + n := by
  obtain ⟨sc', hrun, _, hheld⟩ := runSteps_replicate (P := fun sc => Asleep sc.toRx sc.mgtq)
    (μ := fun sc : Urtwn.TxSoftc ν => sc.ifSnd.length)
    (fun sc h => ⟨_, accepted_urtwn E usb adhoc hlen h, (h.xmit hlen).2⟩) n h
  exact ⟨sc', hrun, hheld⟩

theorem iwm_asleep_grows (n : Nat) {sc : Iwm.TxSoftc ν} (h : Asleep sc.toRx sc.mgtq)
    (hfull : sc.qfullmsk = 0) :
    ∃ sc', runSteps (accepted (Iwm.wlanPortXmitIwm E inet dma adhoc)) sc (replicate n frame) =
      some sc' ∧ sc'.ifSnd.length = sc.ifSnd.length + n := by
  obtain ⟨sc', hrun, _, hheld⟩ := runSteps_replicate
    (P := fun sc => Asleep sc.toRx sc.mgtq ∧ sc.qfullmsk = 0)
    (μ := fun sc : Iwm.TxSoftc ν => sc.ifSnd.length)
    (fun sc h => ⟨_, accepted_iwm E inet dma adhoc hlen h.1 h.2,
      ⟨(h.1.xmit hlen).2.1, h.2⟩, (h.1.xmit hlen).2.2⟩) n ⟨h, hfull⟩
  exact ⟨sc', hrun, hheld⟩

end Asleep

/-- Whatever the bound: every state has a run in which the queue passes it, no packet is
refused for the length of the queue, and outside `S_RUN` calls of `wlan_port_xmit` are enough, the
starts of the driver included. -/
theorem output_queue_unbounded (usb : Nat → Bool) (dma : Mbuf → Iwm.DmaLoad)
    (adhoc : Nat → Option ν) (bound : Nat) :
    (∀ s : OutQueue ν, ∃ ops s', runSteps (queueStep E inet) s ops = some s' ∧ bound < s'.held) ∧
    (∀ (nic : Nic ν) frame, ((nic.xmit frame).2 = none ↔ portAccepts nic.rx frame = false) ∧
      ((nic.xmit frame).2 = none → (nic.xmit frame).1.rx.ifSnd.length = nic.rx.ifSnd.length ∧
        (nic.xmit frame).1.rx.heap.freed = nic.rx.heap.freed)) ∧
    ∀ frame : List UInt8, 14 ≤ frame.length ∧ frame.length ≤ mclbytes →
      (∀ sc : Urtwn.TxSoftc ν, Asleep sc.toRx sc.mgtq →
        ∃ sc', runSteps (accepted (Urtwn.wlanPortXmitUrtwn E usb adhoc)) sc
          (replicate (bound + 1) frame) = some sc' ∧ bound < sc'.ifSnd.length) ∧
      ∀ sc : Iwm.TxSoftc ν, Asleep sc.toRx sc.mgtq → sc.qfullmsk = 0 →
        ∃ sc', runSteps (accepted (Iwm.wlanPortXmitIwm E inet dma adhoc)) sc
          (replicate (bound + 1) frame) = some sc' ∧ bound < sc'.ifSnd.length := by
  refine ⟨held_exceeds E inet bound, xmit_refuses_iff, fun frame hlen =>
    ⟨fun sc h => ?_, fun sc h hfull => ?_⟩⟩
  · obtain ⟨sc', hrun, hheld⟩ := urtwn_asleep_grows E usb adhoc hlen (bound + 1) h
    exact ⟨sc', hrun, by omega⟩
  · obtain ⟨sc', hrun, hheld⟩ := iwm_asleep_grows E inet dma adhoc hlen (bound + 1) h hfull
    exact ⟨sc', hrun, by omega⟩

/-- The two drivers of a station that scans. -/
def scanningUrtwn : Urtwn.TxSoftc Unit :=
  { (Urtwn.openTx 2346).sc with ic := { (Urtwn.openTx 2346).sc.ic with icState := .scan } }

def scanningIwm : Iwm.TxSoftc Unit :=
  { toRx := scanningUrtwn.toRx, running := true, oactive := false, mgtq := [], qfullmsk := 0
    txq := fun qid => { qid, cur := 0, queued := 0, data := fun _ => none }
    niVlan := fun _ => 0, wmeAcm := fun _ => false, csumData := fun _ => 0
    oerrors := 0, sent := [] }

theorem scanning_asleep : Asleep scanningUrtwn.toRx scanningUrtwn.mgtq :=
  ⟨rfl, by decide, fun _ => rfl⟩

/-- Calls of `wlan_port_xmit` with one frame, over and over, that are all accepted. -/
def urtwnCalls (n : Nat) : Option (Urtwn.TxSoftc Unit) :=
  runSteps (accepted (Urtwn.wlanPortXmitUrtwn (fun _ b => b) (fun _ => true) fun _ => none))
    scanningUrtwn (replicate n (Urtwn.ipv4Frame 46))

def iwmCalls (n : Nat) : Option (Iwm.TxSoftc Unit) :=
  runSteps (accepted (Iwm.wlanPortXmitIwm (fun _ b => b) false Iwm.busDmamapLoadMbuf fun _ => none))
    scanningIwm (replicate n (Urtwn.ipv4Frame 46))

theorem output_queue_unbounded_scanning :
    (∃ sc', urtwnCalls 1001 = some sc' ∧ 1000 < sc'.ifSnd.length) ∧
    ∃ sc', iwmCalls 1001 = some sc' ∧ 1000 < sc'.ifSnd.length := by
  obtain ⟨-, -, hcalls⟩ := output_queue_unbounded (fun _ b => b) false (fun _ => true)
    Iwm.busDmamapLoadMbuf (fun _ : Nat => (none : Option Unit)) 1000
  obtain ⟨hurtwn, hiwm⟩ := hcalls (Urtwn.ipv4Frame 46) (by decide)
  exact ⟨hurtwn _ scanning_asleep, hiwm scanningIwm scanning_asleep rfl⟩

/-- `IFQ_MAXLEN`. -/
def ifqMaxlen : Nat := 64

/-- 65 calls put more packets into the queue than `IFQ_MAXLEN`, with either driver. -/
theorem output_queue_overflows :
    (∃ sc', urtwnCalls 65 = some sc' ∧ ifqMaxlen < sc'.ifSnd.length) ∧
      ∃ sc', iwmCalls 65 = some sc' ∧ ifqMaxlen < sc'.ifSnd.length := by
  have hlen : 14 ≤ (Urtwn.ipv4Frame 46).length ∧ (Urtwn.ipv4Frame 46).length ≤ mclbytes := by decide
  obtain ⟨sc1, hrun1, hheld1⟩ := urtwn_asleep_grows (fun _ b => b) (fun _ => true) (fun _ => none)
    hlen 65 scanning_asleep
  obtain ⟨sc2, hrun2, hheld2⟩ := iwm_asleep_grows (fun _ b => b) false Iwm.busDmamapLoadMbuf
    (fun _ => none) hlen 65 (show Asleep scanningIwm.toRx scanningIwm.mgtq from scanning_asleep) rfl
  exact ⟨⟨sc1, hrun1, by rw [hheld1]; decide⟩, sc2, hrun2, by rw [hheld2]; decide⟩

end Net80211
