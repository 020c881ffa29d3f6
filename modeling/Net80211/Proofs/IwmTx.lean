import Net80211.Iwm.Tx
import Net80211.Proofs.Encap

/-!
# What a round of `iwm_start` does

`iwmStartRound_move` says everything a round can do, and the lemmas before it what
sending leaves alone: the queues, the flags of the interface and its state.
-/

namespace Net80211

open Lib Crypto List

variable {ν : Type} [DecidableEq ν]

theorem rxFindTxnode_keeps (rx : Rx ν) (adhoc : Option ν) (macaddr : List UInt8) :
    (rxFindTxnode rx adhoc macaddr).1.ifSnd = rx.ifSnd ∧
      (rxFindTxnode rx adhoc macaddr).1.ic.icState = rx.ic.icState := by
  rw [rxFindTxnode.eq_def]
  split
  · exact ⟨rfl, rfl⟩
  split
  · exact ⟨rfl, rfl⟩
  split
  · split <;> exact ⟨rfl, rfl⟩
  · exact ⟨rfl, rfl⟩

namespace Iwm

/-- The queues and the flags of the interface are as before. -/
structure TxKept (sc sc' : TxSoftc ν) : Prop where
  ifSnd : sc'.ifSnd = sc.ifSnd
  mgtq : sc'.mgtq = sc.mgtq
  running : sc'.running = sc.running
  oactive : sc'.oactive = sc.oactive
  icState : sc'.ic.icState = sc.ic.icState

omit [DecidableEq ν] in
theorem TxKept.trans {sc₁ sc₂ sc₃ : TxSoftc ν} (h : TxKept sc₁ sc₂) (h' : TxKept sc₂ sc₃) :
    TxKept sc₁ sc₃ :=
  ⟨h'.ifSnd.trans h.ifSnd, h'.mgtq.trans h.mgtq, h'.running.trans h.running,
    h'.oactive.trans h.oactive, h'.icState.trans h.icState⟩

omit [DecidableEq ν] in
theorem txMap_keeps (dma : Mbuf → DmaLoad) (sc : TxSoftc ν) (n : ν) (ac hdrlen : Nat)
    (m : Mbuf) (ms : List Mbuf) : TxKept sc (txMap dma sc n ac hdrlen m ms).1 := by
  rw [txMap]
  split <;> exact ⟨rfl, rfl, rfl, rfl, rfl⟩

variable {E : BlockCipher} {dma : Mbuf → DmaLoad} {sc sc' : TxSoftc ν}

theorem sendit_keeps {n : ν} {m : Mbuf} {ms : List Mbuf} {ac : Nat}
    (hs : sendit E dma sc n m ms ac = some sc') : TxKept sc sc' := by
  have htx : ∀ {r}, iwmTx E dma sc n m ms ac = some r → TxKept sc r.1 := by
    intro r ht
    rw [iwmTx] at ht
    dsimp only at ht
    split at ht
    · cases ht; exact txMap_keeps _ _ _ _ _ _ _
    split at ht
    · cases ht
    split at ht
    · split at ht
      · cases ht
        refine TxKept.trans ?_ (txMap_keeps _ _ _ _ _ _ _)
        exact ⟨rfl, rfl, rfl, rfl, rfl⟩
      · cases ht
    · cases ht; exact ⟨rfl, rfl, rfl, rfl, rfl⟩
  obtain ⟨r, hr, rfl⟩ := Option.map_eq_some_iff.mp hs
  have hkept := htx hr
  cases r.2 with
  | true => exact hkept.trans ⟨rfl, rfl, rfl, rfl, rfl⟩
  | false => exact hkept

theorem startEncap_keeps {inet : Bool} {adhoc : Option ν} {m : Mbuf} {ms : List Mbuf}
    {out : Option (ν × Mbuf × List Mbuf × Nat)}
    (he : startEncap inet sc adhoc m ms = some (sc', out)) : TxKept sc sc' := by
  rw [startEncap.eq_def] at he
  split at he
  · cases he; exact ⟨rfl, rfl, rfl, rfl, rfl⟩
  next h m1 ms1 _ =>
  obtain ⟨hsnd, hstate⟩ := rxFindTxnode_keeps (sc.setHeap h).toRx adhoc (etherHeader m1).etherDhost
  split at he
  · next rx hfind =>
    rw [hfind] at hsnd hstate
    cases he; exact ⟨hsnd, rfl, rfl, rfl, hstate⟩
  next rx n hfind =>
  rw [hfind] at hsnd hstate
  split at he
  · cases he; exact ⟨hsnd, rfl, rfl, rfl, hstate⟩
  next m2 _ =>
  have hcap : ∀ {h' ic' out}, encap rx.heap rx.ic n m2 ms1 = some (h', ic', out) →
      ic'.icState = rx.ic.icState := by
    intro h' ic' out hcap
    rcases encap_ic hcap with rfl | ⟨seqs, rfl⟩
    · rfl
    · rfl
  split at he
  · cases he
  · next heq => cases he; exact ⟨hsnd, rfl, rfl, rfl, (hcap heq).trans hstate⟩
  · next heq => cases he; exact ⟨hsnd, rfl, rfl, rfl, (hcap heq).trans hstate⟩

/-- The way of a packet from the queue: `startEncap`, then `sendit`. -/
def startSend (E : BlockCipher) (inet : Bool) (dma : Mbuf → DmaLoad)
    (adhoc : Option ν) (sc : TxSoftc ν) (m : Mbuf) (ms : List Mbuf) : Option (TxSoftc ν) :=
  match startEncap inet sc adhoc m ms with
  | none => none
  | some (sc, none) => some sc
  | some (sc, some (n, m, ms, ac)) => sendit E dma sc n m ms ac

theorem startSend_keeps {inet : Bool} {adhoc : Option ν} {m : Mbuf} {ms : List Mbuf}
    (hr : startSend E inet dma adhoc sc m ms = some sc') : TxKept sc sc' := by
  rw [startSend.eq_def] at hr
  split at hr
  · cases hr
  · next he => cases hr; exact startEncap_keeps he
  · next he => exact (startEncap_keeps he).trans (sendit_keeps hr)

/-- What a round can do: a ring is full; there is nothing to send; a management frame is
sent; the first packet of the queue is taken. -/
inductive RoundMove (E : BlockCipher) (inet : Bool)
    (dma : Mbuf → DmaLoad) (adhoc : Option ν) (sc : TxSoftc ν) : TxSoftc ν → Bool → Prop where
  | full : sc.qfullmsk ≠ 0 → RoundMove E inet dma adhoc sc { sc with oactive := true } false
  | idle : sc.mgtq = [] → sc.ic.icState ≠ .run ∨ sc.ifSnd = [] ∨ (∃ rest, sc.ifSnd = [] :: rest) →
      RoundMove E inet dma adhoc sc sc false
  | mgmt {n : ν} {m : Mbuf} {ms : List Mbuf} {rest : List (ν × Mbuf × List Mbuf)}
      {sc' : TxSoftc ν} : sc.mgtq = (n, m, ms) :: rest →
      sendit E dma { sc with mgtq := rest } n m ms wmeAcBe = some sc' →
      RoundMove E inet dma adhoc sc sc' true
  | packet {m : Mbuf} {ms : List Mbuf} {rest : List (List Mbuf)} {sc' : TxSoftc ν} :
      sc.mgtq = [] → sc.ic.icState = .run → sc.ifSnd = (m :: ms) :: rest →
      startSend E inet dma adhoc { sc with ifSnd := rest } m ms = some sc' →
      RoundMove E inet dma adhoc sc sc' true

theorem iwmStartRound_move {inet : Bool} {adhoc : Option ν} {go : Bool}
    (hr : iwmStartRound E inet dma adhoc sc = some (sc', go)) :
    RoundMove E inet dma adhoc sc sc' go := by
  rw [iwmStartRound.eq_def] at hr
  split at hr
  · next hfull => cases hr; exact .full hfull
  split at hr
  · next n m ms rest hmgtq =>
    obtain ⟨sc2, hsend, heq⟩ := Option.map_eq_some_iff.mp hr
    cases heq
    exact .mgmt hmgtq hsend
  next hmgtq =>
  split at hr
  · next hrun => cases hr; exact .idle hmgtq (.inl hrun)
  next hrun =>
  split at hr
  · next hsnd => cases hr; exact .idle hmgtq (.inr (.inl hsnd))
  · next rest hsnd => cases hr; exact .idle hmgtq (.inr (.inr ⟨rest, hsnd⟩))
  next m ms rest hsnd =>
  have hsend : ∀ {sc2}, startSend E inet dma adhoc { sc with ifSnd := rest } m ms = some sc2 →
      RoundMove E inet dma adhoc sc sc2 true := .packet hmgtq (not_not.mp hrun) hsnd
  split at hr
  · cases hr
  · next he => cases hr; exact hsend (by rw [startSend, he])
  · next he =>
    obtain ⟨sc2, hs, heq⟩ := Option.map_eq_some_iff.mp hr
    cases heq
    exact hsend (by rw [startSend, he]; exact hs)

end Iwm

end Net80211
