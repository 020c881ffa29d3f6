import Net80211.Proofs.MbufBooks
import Net80211.Proofs.UrtwnTx
import Net80211.Urtwn.Resources

/-!
# Buffers, mbufs and references while urtwn sends

The books of a run. A frame that is taken from a queue takes a buffer, its mbufs and a reference
with it; `Spends` says what has become of them when the round is over, and every way through
`urtwn_tx` and its callers is one of a few (`urtwnTx_cases`). One does not balance: when
`ieee80211_crypto_encap` fails, `urtwn_tx` puts the buffer back and frees the mbuf, and
`urtwn_start` does both again. And `urtwn_tx_beacon` does not put the buffer of a beacon back when
the transfer is refused. The books say exactly that: they are right as long as no call of
`urtwn_tx` is one of these.

The buffer comes from the free list of a pipe, and `urtwn_start` chooses the pipe before the packet
has an 802.11 header (`startPipe_iff`).
-/

namespace Net80211.Urtwn

open Lib Crypto List Function Option

/-! ## Reading a log -/

variable {ν : Type}

def TxEvent.dequeued : TxEvent ν → List Nat
  | .dequeue c => addrs c
  | _ => []

def TxEvent.taken : TxEvent ν → Option ν
  | .refNode n => some n
  | _ => none

def TxEvent.released : TxEvent ν → Option ν
  | .freeNode n => some n
  | _ => none

def TxEvent.submitted : TxEvent ν → Option TxData
  | .submit data => some data
  | _ => none

def TxEvent.call : TxEvent ν → Option (TxCall ν)
  | .urtwnTx call => some call
  | _ => none

theorem foldl_note (log : List (TxEvent ν)) (s : TxUse ν) : log.foldl TxUse.note s =
      { sc := s.sc, inflight := s.inflight ++ log.filterMap TxEvent.submitted
        taken := s.taken ++ log.filterMap TxEvent.taken
        released := s.released ++ log.filterMap TxEvent.released
        dequeued := s.dequeued ++ log.flatMap TxEvent.dequeued
        calls := s.calls ++ log.filterMap TxEvent.call } := by
  induction log generalizing s with
  | nil => simp
  | cons e log ih =>
    rw [foldl_cons, ih]
    cases e <;> simp [filterMap_cons, TxUse.note, TxEvent.dequeued, TxEvent.taken,
      TxEvent.released, TxEvent.submitted, TxEvent.call, addrs]

section Calls

variable [DecidableEq ν] (E : BlockCipher)

/-- The buffers with which encryption failed. -/
def failedBuffers (calls : List (TxCall ν)) : List TxData :=
  calls.filterMap fun call => if call.encrypts E then none else some call.data

/-- The buffers that `urtwn_tx_beacon` did not put back. -/
def lostBuffers (calls : List (TxCall ν)) : List TxData :=
  calls.filterMap fun call =>
    if call.beacon && !(call.encrypts E && call.usb) then some call.data else none

variable (calls calls' : List (TxCall ν))

@[simp]
theorem failedBuffers_append :
    failedBuffers E (calls ++ calls') = failedBuffers E calls ++ failedBuffers E calls' :=
  filterMap_append

@[simp]
theorem lostBuffers_append :
    lostBuffers E (calls ++ calls') = lostBuffers E calls ++ lostBuffers E calls' :=
  filterMap_append

end Calls

/-! ## One frame -/

section Spend

variable [DecidableEq ν]

/-- What became of a chain `c`, a buffer `data` and references `refs` that a frame had. Where
encryption did not fail, the chain is freed and what is left over is new (fragments that nobody
sends); where it did, something is freed twice. -/
structure Spends (E : BlockCipher) (sc : TxSoftc ν) (c : List Nat)
    (data : TxData) (refs : List ν) (sc' : TxSoftc ν) (log : List (TxEvent ν)) : Prop where
  buffers : ∀ d, (sc'.txFreeList d.pidx).count d + (log.filterMap TxEvent.submitted).count d +
      (lostBuffers E (log.filterMap TxEvent.call)).count d =
    (sc.txFreeList d.pidx).count d + [data].count d +
      (failedBuffers E (log.filterMap TxEvent.call)).count d
  pipes : ∀ p, ∀ d ∈ sc'.txFreeList p, d ∈ sc.txFreeList p ∨ d = data ∧ p = data.pidx
  nodes : ∀ n, refs.count n + (log.filterMap TxEvent.taken).count n =
    (log.filterMap TxEvent.released).count n
  le : sc.heap.books.Le sc'.heap.books
  freed : failedBuffers E (log.filterMap TxEvent.call) = [] →
    ∃ leak, (∀ a ∈ leak, sc.heap.next ≤ a) ∧ Moves sc.heap.books c sc'.heap.books leak
  twice : failedBuffers E (log.filterMap TxEvent.call) ≠ [] → ¬ sc'.heap.freed.Nodup
  dequeued : log.flatMap TxEvent.dequeued = []

omit [DecidableEq ν] in
theorem count_putTxData (sc : TxSoftc ν) (data d : TxData) :
    ((sc.putTxData data).txFreeList d.pidx).count d = (sc.txFreeList d.pidx).count d +
    [data].count d := by
  show (update sc.txFreeList data.pidx _ d.pidx).count d = _
  by_cases hp : d.pidx = data.pidx
  · rw [hp, update_self, count_append]
  · rw [update_of_ne hp, count_eq_zero.mpr fun hmem => hp (congrArg _ (mem_singleton.mp hmem)),
      Nat.add_zero]

variable {sc : TxSoftc ν} {data : TxData}

omit [DecidableEq ν] in
theorem mem_putTxData {d : TxData} {p : Nat} (h : d ∈ (sc.putTxData data).txFreeList p) :
    d ∈ sc.txFreeList p ∨ d = data ∧ p = data.pidx := by
  change d ∈ update sc.txFreeList data.pidx _ p at h
  by_cases hp : p = data.pidx
  · subst hp
    rw [update_self, mem_append, mem_singleton] at h
    exact h.imp_right fun h => ⟨h, rfl⟩
  · rw [update_of_ne hp] at h
    exact .inl h

variable {E : BlockCipher} {usb : Nat → Bool} {sc' : TxSoftc ν}
  {ms : List Mbuf}

/-- `urtwn_tx`: the frame is handed to `usbd_transfer`, or it cannot be encrypted. In that case the
buffer is back on its list and the caller frees what is freed. -/
theorem urtwnTx_moves {n : ν} {m : Mbuf} {c : List Mbuf} {error beacon : Bool}
    (ht : urtwnTx E usb sc n m ms data = some (sc', c, error)) {call : TxCall ν}
    (hcall : ⟨sc.heap, sc.ic.icKeys, n, m, ms, data, usb sc.xfers.length, beacon⟩ = call) :
    call.encrypts E = true ∧ call.usb = !error ∧ sc'.txFreeList = sc.txFreeList ∧
        Moves sc.heap.books (addrs (m :: ms)) sc'.heap.books (addrs c) ∨
      call.encrypts E = false ∧ error = true ∧ sc'.txFreeList = (sc.putTxData data).txFreeList ∧
        sc.heap.books.Le sc'.heap.books ∧ ¬ (mFreem sc'.heap c).freed.Nodup := by
  have husb : call.usb = usb sc.xfers.length := by rw [← hcall]
  rw [urtwnTx] at ht
  split at ht
  · next hplain =>
    cases ht
    refine .inl ⟨?_, husb.trans (Bool.not_not _).symm, rfl, .refl _ _⟩
    rw [← hcall, TxCall.encrypts, hplain, Bool.true_or]
  next hwep =>
  cases hcr : cryptoEncap E sc.heap sc.ic.icKeys n m ms with
  | none =>
    rw [hcr] at ht
    cases ht
  | some r =>
    rw [hcr] at ht
    have hmoves := cryptoEncap_moves hcr
    obtain ⟨h, ks, frame, key⟩ := r
    dsimp only at ht hmoves
    have henc : call.encrypts E = (key.isSome && !(frame.getD []).isEmpty) := by
      rw [← hcall, TxCall.encrypts, Bool.eq_false_iff.mpr hwep, Bool.false_or, hcr]
      rfl
    -- the mbuf that is freed here is freed again
    have htwice : ¬ (mFreem (mFreem h [m]) (frame.getD (m :: ms))).freed.Nodup := by
      intro hnd
      have hcount := nodup_iff_count_le_one.mp hnd m.addr
      change ((h.freed ++ [m.addr]) ++ addrs (frame.getD (m :: ms))).count m.addr ≤ 1 at hcount
      rw [count_append, count_append, count_singleton_self] at hcount
      have hpos : 0 < h.freed.count m.addr + (addrs (frame.getD (m :: ms))).count m.addr := by
        cases frame with
        | none => exact Nat.lt_add_left _ (count_pos_iff.mpr mem_cons_self)
        | some f =>
          have hmem := hmoves.mem (mem_append_right _ mem_cons_self)
          rw [← count_append]
          exact count_pos_iff.mpr hmem
      omega
    have hle := hmoves.1.trans (mFreem_moves h [m]).1
    cases key with
    | none =>
      cases ht
      exact .inr ⟨henc, rfl, rfl, hle, htwice⟩
    | some s =>
      cases frame with
      | none =>
        cases ht
        exact .inr ⟨henc, rfl, rfl, hle, htwice⟩
      | some f =>
        cases f with
        | nil =>
          cases ht
          exact .inr ⟨henc, rfl, rfl, hle, htwice⟩
        | cons m' ms' =>
          obtain ⟨-, ht⟩ := ite_none_right_eq_some.mp ht
          cases ht
          exact .inl ⟨henc, husb.trans (Bool.not_not _).symm, rfl, hmoves⟩

/-- The log of a call, and of the references that are released after it. -/
theorem urtwnTxLog_reads {n : ν} {m : Mbuf} {error beacon : Bool} (refs : List ν) {call : TxCall ν}
    (hcall : ⟨sc.heap, sc.ic.icKeys, n, m, ms, data, usb sc.xfers.length, beacon⟩ = call)
    (hsubmit : (call.encrypts E && call.usb) = !error) {log : List (TxEvent ν)}
    (hlog : log = urtwnTxLog E usb sc n m ms data beacon ++ refs.map .freeNode) :
    log.filterMap TxEvent.call = [call] ∧ log.filterMap TxEvent.taken = [] ∧
      log.filterMap TxEvent.released = refs ∧ log.flatMap TxEvent.dequeued = [] ∧
      log.filterMap TxEvent.submitted = if error then [] else [data] := by
  rw [urtwnTxLog, hcall, hsubmit] at hlog
  subst hlog
  cases error <;> simp [filterMap_cons, TxEvent.call, TxEvent.taken, TxEvent.released,
    TxEvent.dequeued, TxEvent.submitted, filterMap_map, flatMap_map, comp_def]

/-- The caller frees the chain, and puts the buffer back after an error unless it was a beacon. -/
theorem urtwnTx_spends {sc₁ : TxSoftc ν} {n : ν} {m : Mbuf} {c : List Mbuf} {error beacon : Bool}
    {refs : List ν} (ht : urtwnTx E usb sc n m ms data = some (sc₁, c, error))
    (hheap : sc'.heap = mFreem sc₁.heap c) (hfl : sc'.txFreeList =
      if error && !beacon then (sc₁.putTxData data).txFreeList else sc₁.txFreeList) :
    Spends E sc (addrs (m :: ms)) data refs sc'
      (urtwnTxLog E usb sc n m ms data beacon ++ refs.map .freeNode) := by
  generalize hcall : TxCall.mk sc.heap sc.ic.icKeys n m ms data (usb sc.xfers.length) beacon = call
  have hbeacon : call.beacon = beacon := by rw [← hcall]
  have hdata : call.data = data := by rw [← hcall]
  have hfree := mFreem_moves sc₁.heap c
  rw [← hheap] at hfree
  generalize hlog : urtwnTxLog E usb sc n m ms data beacon ++ refs.map .freeNode = log
  have hput : ∀ d, ((sc₁.putTxData data).txFreeList d.pidx).count d =
      (sc₁.txFreeList d.pidx).count d + [data].count d := count_putTxData sc₁ data
  rcases urtwnTx_moves ht hcall with ⟨henc, husb, hfl₁, hmoves⟩ | ⟨henc, rfl, hfl₁, hle, htwice⟩
  · obtain ⟨hcalls, htaken, hrel, hdeq, hsub⟩ :=
      urtwnTxLog_reads refs hcall (by rw [henc, husb, Bool.true_and]) hlog.symm
    have hfailed : failedBuffers E (log.filterMap TxEvent.call) = [] := by
      simp [hcalls, failedBuffers, henc]
    have hlost : lostBuffers E (log.filterMap TxEvent.call) =
        if beacon && error then [data] else [] := by
      cases error <;> cases beacon <;> simp [hcalls, lostBuffers, henc, husb, hbeacon, hdata]
    have hall := hmoves.trans hfree
    refine ⟨fun d => ?_, fun p d hd => ?_, fun k => by rw [htaken, hrel]; rfl, hall.1,
      fun _ => ⟨[], by simp, hall⟩, fun h => absurd hfailed h, hdeq⟩
    · rw [hsub, hlost, hfailed, hfl]
      cases error <;> cases beacon <;> simp [hput, hfl₁]
    · rw [hfl] at hd
      split at hd
      · exact hfl₁ ▸ mem_putTxData hd
      · exact .inl (hfl₁ ▸ hd)
  · obtain ⟨hcalls, htaken, hrel, hdeq, hsub⟩ :=
      urtwnTxLog_reads refs hcall (show (_ && _) = !true by rw [henc]; rfl) hlog.symm
    have hfailed : failedBuffers E (log.filterMap TxEvent.call) = [data] := by
      simp [hcalls, failedBuffers, henc, hdata]
    have hlost : lostBuffers E (log.filterMap TxEvent.call) = if beacon then [data] else [] := by
      cases beacon <;> simp [hcalls, lostBuffers, henc, hbeacon, hdata]
    refine ⟨fun d => ?_, fun p d hd => ?_, fun k => by rw [htaken, hrel]; rfl, hle.trans hfree.1,
      (fun h => by cases hfailed.symm.trans h), fun _ => hheap ▸ htwice, hdeq⟩
    · rw [hsub, hlost, hfailed, hfl]
      cases beacon <;> simp [hput, hfl₁, count_putTxData]
    · rw [hfl] at hd
      split at hd
      · rcases mem_putTxData hd with hd | hd
        · exact mem_putTxData (hfl₁ ▸ hd)
        · exact .inr hd
      · exact mem_putTxData (hfl₁ ▸ hd)

theorem sendit_spends {n : ν} {m : Mbuf} (hs : sendit E usb sc n m ms data = some sc') :
    Spends E sc (addrs (m :: ms)) data [n] sc' (senditLog E usb sc n m ms data) := by
  rw [sendit] at hs
  split at hs
  · cases hs
  next sc₁ c error ht =>
  cases hs
  exact urtwnTx_spends ht (by cases error <;> rfl) (by cases error <;> rfl)

variable {log : List (TxEvent ν)}

theorem Spends.drop {sc₁ : TxSoftc ν} {c : List Nat}
    (hmoves : Moves sc.heap.books c sc₁.heap.books []) (hfl : sc₁.txFreeList = sc.txFreeList)
    (hlog : log = [] ∨ ∃ n, log = [.refNode n, .freeNode n]) :
    Spends E sc c data [] (sc₁.putTxData data) log := by
  have hbuf : ∀ d, ((sc₁.putTxData data).txFreeList d.pidx).count d =
      (sc.txFreeList d.pidx).count d + [data].count d := by
    intro d
    rw [count_putTxData, hfl]
  have hpipe : ∀ p, ∀ d ∈ (sc₁.putTxData data).txFreeList p, d ∈ sc.txFreeList p ∨ d = data ∧
      p = data.pidx := by
    intro p d hd
    rw [← hfl]
    exact mem_putTxData hd
  rcases hlog with rfl | ⟨n, rfl⟩
  · exact ⟨hbuf, hpipe, fun _ => rfl, hmoves.1, fun _ => ⟨[], by simp, hmoves⟩,
      fun h => absurd rfl h, rfl⟩
  · exact ⟨hbuf, hpipe, fun _ => Nat.zero_add _, hmoves.1, fun _ => ⟨[], by simp, hmoves⟩,
      fun h => absurd rfl h, rfl⟩

/-- What was done to the chain before, and what else was allocated. -/
theorem Spends.behind {sc₁ : TxSoftc ν} {c c₁ rest : List Nat} {refs : List ν} {b : Books}
    (h : Spends E sc₁ c₁ data refs sc' log) (hc : Moves sc.heap.books c b c₁)
    (hrest : Moves b [] sc₁.heap.books rest) (hfl : sc₁.txFreeList = sc.txFreeList) :
    Spends E sc c data refs sc' log := by
  have hboth : Moves sc.heap.books c sc₁.heap.books (c₁ ++ rest) :=
    hc.trans ((hrest.frame c₁).perm (.refl _) perm_append_comm)
  refine ⟨hfl ▸ h.buffers, hfl ▸ h.pipes, h.nodes, hboth.1.trans h.le, fun hnone => ?_, h.twice,
    h.dequeued⟩
  obtain ⟨leak, hleak, hmoves⟩ := h.freed hnone
  refine ⟨leak ++ rest, fun a ha => ?_, hboth.trans (hmoves.frame rest)⟩
  rcases mem_append.mp ha with ha | ha
  · exact Nat.le_trans hboth.1.next (hleak a ha)
  · exact Nat.le_trans hc.1.next (hrest.fresh ha)

theorem Spends.ref {c : List Nat} {n : ν} (h : Spends E sc c data [n] sc' log) :
    Spends E sc c data [] sc' (.refNode n :: log) := by
  refine ⟨h.buffers, h.pipes, fun k => ?_, h.le, h.freed, h.twice, h.dequeued⟩
  have := h.nodes k
  show 0 + (n :: log.filterMap TxEvent.taken).count k = (log.filterMap TxEvent.released).count k
  rw [← this, Nat.zero_add, ← singleton_append, count_append]

theorem startSend_spends {adhoc : Option ν} {m : Mbuf}
    (hr : startSend E usb adhoc sc m ms data = some sc') :
    Spends E sc (addrs (m :: ms)) data [] sc' (startLog E usb sc adhoc m ms data) := by
  rw [startSend, startEncap] at hr
  rw [startLog]
  generalize hp : pullupTo sc.heap m ms 14 = p at hr ⊢
  obtain ⟨h1, r1⟩ := p
  have hpull := pullupTo_moves hp
  cases r1 with
  | none =>
    cases hr
    exact @Spends.drop _ _ _ _ E _ (sc.setHeap h1).countError _ hpull rfl (.inl rfl)
  | some q =>
    obtain ⟨m1, ms1⟩ := q
    dsimp only at hr ⊢
    obtain ⟨⟨-, hheap, -, -, -⟩, -, hfl⟩ :=
      findTxnode_spec (sc.setHeap h1) adhoc (etherHeader m1).etherDhost
    generalize findTxnode (sc.setHeap h1) adhoc (etherHeader m1).etherDhost = f at hr hheap hfl ⊢
    obtain ⟨sc2, node⟩ := f
    have hpull2 : Moves sc.heap.books (addrs (m :: ms)) sc2.heap.books (addrs (m1 :: ms1)) := by
      rw [hheap]
      exact hpull
    cases node with
    | none =>
      cases hr
      exact @Spends.drop _ _ _ _ E _ (sc2.setHeap (mFreem sc2.heap (m1 :: ms1))).countError _
        (hpull2.trans (mFreem_moves _ _)) hfl (.inl rfl)
    | some n =>
      dsimp only at hr ⊢
      cases he : encap sc2.heap sc2.ic n m1 ms1 with
      | none =>
        rw [he] at hr
        cases hr
      | some r =>
        obtain ⟨h3, ic3, r3⟩ := r
        rw [he] at hr
        have hmoves := encap_moves he
        cases r3 with
        | none =>
          cases hr
          exact @Spends.drop _ _ _ _ E _ (TxSoftc.countError { sc2 with heap := h3, ic := ic3 }) _
            (hpull2.trans hmoves) hfl (.inr ⟨n, rfl⟩)
        | some frames =>
          obtain ⟨f, fs, rest, b, rfl, hf, hrest⟩ := hmoves
          exact ((sendit_spends hr).behind (hpull2.trans hf) hrest hfl).ref

end Spend

/-! ## Runs -/

variable [DecidableEq ν]

/-- The mbufs of the frames that wait. -/
def queueAddrs (sc : TxSoftc ν) : List Nat :=
  (sc.mgtq.flatMap fun e => addrs (e.2.1 :: e.2.2)) ++ sc.ifSnd.flatMap addrs

/-- The books of a run. -/
structure TxUseInv (E : BlockCipher) (buffers : List TxData) (s : TxUse ν) :
    Prop where
  buffers :
    ∀ d, (s.sc.txFreeList d.pidx).count d + s.inflight.count d + (lostBuffers E s.calls).count d =
    buffers.count d + (failedBuffers E s.calls).count d
  pipes : ∀ p, ∀ d ∈ s.sc.txFreeList p, d.pidx = p
  nodes : ∀ n, s.taken.count n = s.released.count n + (s.sc.mgtq.map Prod.fst).count n
  freed : failedBuffers E s.calls = [] → ∃ leak, Clean s.sc.heap.books (queueAddrs s.sc ++ leak) ∧
    ∀ a ∈ s.dequeued, a ∈ s.sc.heap.freed
  twice : failedBuffers E s.calls ≠ [] → ¬ s.sc.heap.freed.Nodup

variable {E : BlockCipher} {buffers : List TxData} {s : TxUse ν}
  {sc₁ sc' : TxSoftc ν} {data : TxData}

/-- A frame goes through: `sc₁` is the driver when the frame, its buffer and its references are
taken out, and `deq` are mbufs of the frame. -/
theorem TxUseInv.spend (h : TxUseInv E buffers s) {c deq : List Nat} {refs : List ν}
    {log : List (TxEvent ν)} (hsp : Spends E sc₁ c data refs sc' log)
    (hfl : ∀ d, (sc₁.txFreeList d.pidx).count d + [data].count d = (s.sc.txFreeList d.pidx).count d)
    (hpipe : ∀ p, ∀ d ∈ sc₁.txFreeList p, d.pidx = p) (hheap : sc₁.heap.freed = s.sc.heap.freed)
    (hclean : ∀ leak, Clean s.sc.heap.books (queueAddrs s.sc ++ leak) →
      Clean sc₁.heap.books (c ++ (queueAddrs sc' ++ leak)))
    (hnodes : ∀ n, (s.sc.mgtq.map Prod.fst).count n = (sc'.mgtq.map Prod.fst).count n +
      refs.count n)
    (hdeq : ∀ a ∈ deq, a ∈ c) : TxUseInv E buffers
      { sc := sc', inflight := s.inflight ++ log.filterMap TxEvent.submitted
        taken := s.taken ++ log.filterMap TxEvent.taken
        released := s.released ++ log.filterMap TxEvent.released
        dequeued := s.dequeued ++ deq
        calls := s.calls ++ log.filterMap TxEvent.call } := by
  have hle : Books.Le ⟨0, s.sc.heap.freed⟩ ⟨0, sc'.heap.freed⟩ :=
    ⟨Nat.le_refl 0, hheap ▸ hsp.le.freed⟩
  refine ⟨fun d => ?_, fun p d hd => ?_, fun n => ?_, fun hnone => ?_, fun hsome => ?_⟩
  · have h1 := h.buffers d
    have h2 := hsp.buffers d
    have h3 := hfl d
    simp only [count_append, lostBuffers_append, failedBuffers_append]
    omega
  · rcases hsp.pipes p d hd with hd | ⟨rfl, rfl⟩
    · exact hpipe p d hd
    · rfl
  · have h1 := h.nodes n
    have h2 := hsp.nodes n
    have h3 := hnodes n
    simp only [count_append]
    omega
  · rw [failedBuffers_append] at hnone
    obtain ⟨hold, hnew⟩ := append_eq_nil_iff.mp hnone
    obtain ⟨leak, hcl, hfreed⟩ := h.freed hold
    obtain ⟨leak', hfresh, hmoves⟩ := hsp.freed hnew
    have hcl1 := hclean leak hcl
    have hcl' := (hmoves.frame (queueAddrs sc' ++ leak)).clean hcl1
    refine ⟨leak ++ leak', hcl'.perm ?_, fun a ha => ?_⟩
    · show (leak' ++ (queueAddrs sc' ++ leak)).Perm (queueAddrs sc' ++ (leak ++ leak'))
      rw [← append_assoc (queueAddrs sc')]
      exact perm_append_comm
    · rcases mem_append.mp ha with ha | ha
      · exact hle.mem (hfreed a ha)
      · -- an mbuf of the frame is older than what is left over
        have hbelow : a < sc₁.heap.next :=
          hcl1.below a (mem_append_right _ (mem_append_left _ (hdeq a ha)))
        rcases mem_append.mp (hmoves.mem (mem_append_right _ (hdeq a ha))) with hin | hin
        · exact hin
        · exact absurd (hfresh a hin) (Nat.not_le.mpr hbelow)
  · by_cases hold : failedBuffers E s.calls = []
    · refine hsp.twice fun hnew => hsome ?_
      rw [failedBuffers_append, hold, hnew]
      rfl
    · exact hle.not_nodup (h.twice hold)

omit [DecidableEq ν] in
/-- A buffer is taken from the list of its pipe. -/
theorem getTxData_free {sc : TxSoftc ν} {p : Nat} (hpipe : ∀ p, ∀ d ∈ sc.txFreeList p, d.pidx = p)
    (hg : sc.getTxData p = some (data, sc₁)) :
    (∀ d, (sc₁.txFreeList d.pidx).count d + [data].count d = (sc.txFreeList d.pidx).count d) ∧
      ∀ p, ∀ d ∈ sc₁.txFreeList p, d.pidx = p := by
  obtain ⟨rest, hfl, rfl⟩ := getTxData_cases hg
  have hdata : data.pidx = p := hpipe p data (hfl ▸ mem_cons_self)
  refine ⟨fun d => ?_, fun q d hd => ?_⟩
  · show (update sc.txFreeList p rest d.pidx).count d + [data].count d = _
    by_cases hp : d.pidx = p
    · have hcons : (data :: rest).count d = [data].count d + rest.count d := by
        rw [← count_append, singleton_append]
      rw [hp, update_self, hfl, hcons, Nat.add_comm]
    · have h0 : [data].count d = 0 :=
        count_eq_zero.mpr fun hmem => hp (mem_singleton.mp hmem ▸ hdata)
      rw [update_of_ne hp, h0, Nat.add_zero]
  · change d ∈ update sc.txFreeList p rest q at hd
    by_cases hq : q = p
    · subst hq
      rw [update_self] at hd
      exact hpipe q d (hfl ▸ mem_cons_of_mem _ hd)
    · rw [update_of_ne hq] at hd
      exact hpipe q d hd

/-- The chain `c` is taken from its queue, with a buffer; `sc₁` is the driver then. -/
theorem TxUseInv.take (h : TxUseInv E buffers s) {p : Nat} {sc₀ : TxSoftc ν} {c : List Mbuf}
    {refs : List ν} {log : List (TxEvent ν)} (hg : s.sc.getTxData p = some (data, sc₀))
    (hfl : sc₁.txFreeList = sc₀.txFreeList) (hheap : sc₁.heap = s.sc.heap)
    (hsp : Spends E sc₁ (addrs c) data refs sc' log)
    (hq : (queueAddrs s.sc).Perm (addrs c ++ queueAddrs sc'))
    (hnodes : ∀ n, (s.sc.mgtq.map Prod.fst).count n = (sc'.mgtq.map Prod.fst).count n +
      refs.count n) :
    TxUseInv E buffers ((TxEvent.dequeue c :: log).foldl TxUse.note { s with sc := sc' }) := by
  obtain ⟨hcount, hpipe⟩ := getTxData_free h.pipes hg
  have hdeq : (TxEvent.dequeue c :: log).flatMap TxEvent.dequeued = addrs c := by
    rw [flatMap_cons, hsp.dequeued, append_nil]
    rfl
  have hclean : ∀ leak, Clean s.sc.heap.books (queueAddrs s.sc ++ leak) →
      Clean sc₁.heap.books (addrs c ++ (queueAddrs sc' ++ leak)) := by
    intro leak hcl
    rw [hheap, ← append_assoc]
    exact hcl.perm (hq.append_right leak)
  rw [foldl_note, hdeq]
  have hspend :=
    h.spend hsp (hfl ▸ hcount) (hfl ▸ hpipe) (congrArg Heap.freed hheap) hclean hnodes
      fun _ ha => ha
  exact hspend

theorem TxUseInv.round (h : TxUseInv E buffers s) {usb : Nat → Bool} {adhoc : Option ν} {go : Bool}
    (hr : urtwnStartRound E usb adhoc s.sc = some (sc', go)) :
    TxUseInv E buffers ((roundLog E usb adhoc s.sc).foldl TxUse.note { s with sc := sc' }) := by
  have hidle : ∀ {sc₁ : TxSoftc ν}, sc₁.txFreeList = s.sc.txFreeList → sc₁.heap = s.sc.heap →
      sc₁.mgtq = s.sc.mgtq → sc₁.ifSnd = s.sc.ifSnd → TxUseInv E buffers { s with sc := sc₁ } := by
    intro sc₁ hfl hheap hmgtq hsnd
    have hq : queueAddrs sc₁ = queueAddrs s.sc := by rw [queueAddrs, queueAddrs, hmgtq, hsnd]
    exact ⟨hfl ▸ h.buffers, hfl ▸ h.pipes, hmgtq ▸ h.nodes, hq ▸ hheap ▸ h.freed, hheap ▸ h.twice⟩
  rw [urtwnStartRound.eq_def] at hr
  rw [roundLog.eq_def]
  cases hmgtq : s.sc.mgtq with
  | cons e rest =>
    obtain ⟨n, m, ms⟩ := e
    simp only [hmgtq] at hr ⊢
    cases hg : s.sc.getTxData (s.sc.ac2idx 3) with
    | none =>
      simp only [hg] at hr ⊢
      cases hr
      exact hidle rfl rfl hmgtq.symm rfl
    | some p =>
      obtain ⟨data, sc₁⟩ := p
      simp only [hg] at hr ⊢
      obtain ⟨sc2, hsend, heq⟩ := map_eq_some_iff.mp hr
      cases heq
      obtain ⟨fl, -, rfl⟩ := getTxData_cases hg
      have hkept := (sendit_keeps hsend).1
      refine h.take hg ?_ ?_ (sendit_spends hsend) ?_ fun k => ?_
      · rfl
      · rfl
      · rw [queueAddrs, queueAddrs, hkept.mgtq, hkept.ifSnd, hmgtq, flatMap_cons, append_assoc]
      · rw [hkept.mgtq, hmgtq, map_cons, ← singleton_append, count_append, Nat.add_comm]
  | nil =>
    simp only [hmgtq] at hr ⊢
    split at hr
    · next hrun =>
      rw [if_pos hrun]
      cases hr
      exact h
    next hrun =>
    rw [if_neg hrun]
    cases hsnd : s.sc.ifSnd with
    | nil =>
      simp only [hsnd] at hr ⊢
      cases hr
      exact h
    | cons c rest =>
      cases c with
      | nil =>
        simp only [hsnd] at hr ⊢
        cases hr
        exact h
      | cons m ms =>
        simp only [hsnd] at hr ⊢
        cases hg : s.sc.getTxData (s.sc.ac2idx (startQid m.get)) with
        | none =>
          simp only [hg] at hr ⊢
          cases hr
          exact hidle rfl rfl hmgtq.symm rfl
        | some p =>
          obtain ⟨data, sc₁⟩ := p
          simp only [hg] at hr ⊢
          obtain ⟨fl, -, rfl⟩ := getTxData_cases hg
          obtain ⟨hsend, -⟩ := startSend_of_round hr
          have hkept := (startSend_keeps hsend).1
          refine h.take hg ?_ ?_ (startSend_spends hsend) ?_ fun k => ?_
          · rfl
          · rfl
          · rw [queueAddrs, queueAddrs, hkept.mgtq, hkept.ifSnd, hmgtq, hsnd]
            rfl
          · rw [hkept.mgtq]
            rfl

theorem newChain_clean {h h' : Heap} {c : List Mbuf} (hn : newChain h c = some h') :
    h'.freed = h.freed ∧ ∀ held, Clean h.books held → Clean h'.books (held ++ addrs c) := by
  obtain ⟨haddr, rfl⟩ := of_guard hn
  refine ⟨rfl, fun held hcl => ?_⟩
  rw [addrs, haddr]
  exact hcl.take

theorem TxUseInv.enqueue (h : TxUseInv E buffers s) {c : List Mbuf} {refs : List ν}
    (hn : newChain s.sc.heap c = some sc'.heap) (hfl : sc'.txFreeList = s.sc.txFreeList)
    (hmgtq : sc'.mgtq.map Prod.fst = s.sc.mgtq.map Prod.fst ++ refs)
    (hq : (queueAddrs s.sc ++ addrs c).Perm (queueAddrs sc')) :
    TxUseInv E buffers { s with sc := sc', taken := s.taken ++ refs } := by
  obtain ⟨hfreed, hclean⟩ := newChain_clean hn
  refine ⟨hfl ▸ h.buffers, hfl ▸ h.pipes, fun n => ?_, fun hnone => ?_, hfreed ▸ h.twice⟩
  · have := h.nodes n
    show (s.taken ++ refs).count n = s.released.count n + (sc'.mgtq.map Prod.fst).count n
    rw [hmgtq, count_append, count_append]
    omega
  · obtain ⟨leak, hcl, hall⟩ := h.freed hnone
    refine ⟨leak, (hclean _ hcl).perm ?_, hfreed ▸ hall⟩
    calc queueAddrs s.sc ++ leak ++ addrs c
      _ = queueAddrs s.sc ++ (leak ++ addrs c) := append_assoc ..
      List.Perm _ (queueAddrs s.sc ++ (addrs c ++ leak)) := perm_append_comm.append_left _
      _ = queueAddrs s.sc ++ addrs c ++ leak := (append_assoc ..).symm
      List.Perm _ (queueAddrs sc' ++ leak) := hq.append_right leak

theorem TxUseInv.beacon (h : TxUseInv E buffers s) {usb : Nat → Bool} {heap : Heap} {m : Mbuf}
    {ms : List Mbuf} (hn : newChain s.sc.heap (m :: ms) = some heap)
    (hb : urtwnTxBeacon E usb (s.sc.setHeap heap) m ms = some sc') :
    TxUseInv E buffers
    ((beaconLog E usb (s.sc.setHeap heap) m ms).foldl TxUse.note { s with sc := sc' }) := by
  obtain ⟨hfreed, hclean⟩ := newChain_clean hn
  rw [urtwnTxBeacon] at hb
  rw [beaconLog]
  cases hg : (s.sc.setHeap heap).getTxData ((s.sc.setHeap heap).ac2idx 3) with
  | none =>
    rw [hg] at hb
    cases hb
    refine ⟨h.buffers, h.pipes, h.nodes, fun hnone => ?_, fun hsome => ?_⟩
    · obtain ⟨leak, hcl, hall⟩ := h.freed hnone
      have hfree := (mFreem_moves heap (m :: ms)).frame (queueAddrs s.sc ++ leak)
      refine ⟨leak, hfree.clean ((hclean _ hcl).perm perm_append_comm), fun a ha => ?_⟩
      exact mem_append_left _ (hfreed ▸ hall a ha)
    · have htwice : ¬ heap.freed.Nodup := hfreed ▸ h.twice hsome
      exact (mFreem_moves heap (m :: ms)).1.not_nodup htwice
  | some p =>
    obtain ⟨data, sc₁⟩ := p
    simp only [hg] at hb ⊢
    have hpipes : ∀ p, ∀ d ∈ (s.sc.setHeap heap).txFreeList p, d.pidx = p := h.pipes
    obtain ⟨hcount, hpipe⟩ := getTxData_free hpipes hg
    obtain ⟨fl, -, hsc1⟩ := getTxData_cases hg
    cases ht : urtwnTx E usb sc₁ sc₁.ic.icBss m ms data with
    | none =>
      rw [ht] at hb
      cases hb
    | some r =>
      obtain ⟨sc2, c, error⟩ := r
      rw [ht] at hb
      cases hb
      have hsp : Spends E sc₁ (addrs (m :: ms)) data [] (sc2.setHeap (mFreem sc2.heap c))
          (urtwnTxLog E usb sc₁ sc₁.ic.icBss m ms data true ++ [].map .freeNode) :=
        urtwnTx_spends ht rfl (by cases error <;> rfl)
      rw [map_nil, append_nil] at hsp
      have hkept := (urtwnTx_keeps ht).1
      have hq : queueAddrs (sc2.setHeap (mFreem sc2.heap c)) = queueAddrs s.sc := by
        show queueAddrs sc2 = _
        rw [queueAddrs, hkept.mgtq, hkept.ifSnd, hsc1]
        rfl
      have hmgtq : sc2.mgtq = s.sc.mgtq := by rw [hkept.mgtq, hsc1]; rfl
      have hspend := h.spend hsp hcount hpipe (by rw [hsc1]; exact hfreed)
        (fun leak hcl => by rw [hq, hsc1]; exact (hclean _ hcl).perm perm_append_comm)
        (fun n => by rw [← hmgtq]; rfl) (forall_mem_nil _)
      rw [foldl_note, hsp.dequeued]
      exact hspend

theorem TxUseInv.step {s' : TxUse ν} (h : TxUseInv E buffers s) {op : TxUseOp ν}
    (hs : txUseStep E s op = some s') : TxUseInv E buffers s' := by
  cases op with
  | packet m ms =>
    obtain ⟨heap, hn, rfl⟩ := map_eq_some_iff.mp hs
    have hq : (queueAddrs s.sc ++ addrs (m :: ms)).Perm
        (queueAddrs { s.sc with heap := heap, ifSnd := s.sc.ifSnd ++ [m :: ms] }) := by
      simp [queueAddrs]
    have hput := @TxUseInv.enqueue _ _ _ _ _
      { s.sc with heap := heap, ifSnd := s.sc.ifSnd ++ [m :: ms] } h _ [] hn rfl
      (append_nil _).symm hq
    rwa [append_nil] at hput
  | mgmt n m ms =>
    obtain ⟨heap, hn, rfl⟩ := map_eq_some_iff.mp hs
    refine h.enqueue hn rfl (map_append) ?_
    show List.Perm (_ ++ _ ++ _) ((s.sc.mgtq ++ [(n, m, ms)]).flatMap _ ++ _)
    rw [flatMap_append, flatMap_singleton, append_assoc, append_assoc]
    exact perm_append_comm.append_left _
  | station rx =>
    cases hs
    exact ⟨h.buffers, h.pipes, h.nodes, h.freed, h.twice⟩
  | round usb adhoc =>
    obtain ⟨r, hr, rfl⟩ := map_eq_some_iff.mp hs
    exact h.round hr
  | beacon usb m ms =>
    obtain ⟨heap, hn, hb⟩ := bind_eq_some_iff.mp hs
    obtain ⟨sc', htx, rfl⟩ := map_eq_some_iff.mp hb
    exact h.beacon hn htx
  | complete data status =>
    obtain ⟨hmem, rfl⟩ := of_guard hs
    have hsc : (txeofPut s.sc data status).txFreeList = (s.sc.putTxData data).txFreeList ∧
        (txeofPut s.sc data status).heap = s.sc.heap ∧
        (txeofPut s.sc data status).mgtq = s.sc.mgtq ∧
        queueAddrs (txeofPut s.sc data status) = queueAddrs s.sc := by
      cases status with
      | normalCompletion | notStarted | cancelled | stalled | other => exact ⟨rfl, rfl, rfl, rfl⟩
    obtain ⟨hfl, hheap, hmgtq, hq⟩ := hsc
    refine ⟨fun d => ?_, fun p d hd => ?_, hmgtq ▸ h.nodes, hq ▸ hheap ▸ h.freed, hheap ▸ h.twice⟩
    · have hbuf := h.buffers d
      have herase : s.inflight.count d = [data].count d + (s.inflight.erase data).count d := by
        rw [← count_append, singleton_append]
        exact (perm_cons_erase hmem).count_eq d
      show ((txeofPut s.sc data status).txFreeList d.pidx).count d +
        (s.inflight.erase data).count d +
        (lostBuffers E s.calls).count d = _ + (failedBuffers E s.calls).count d
      rw [hfl, count_putTxData]
      omega
    · change d ∈ (txeofPut s.sc data status).txFreeList p at hd
      rw [hfl] at hd
      rcases mem_putTxData hd with hd | ⟨rfl, rfl⟩
      · exact h.pipes p d hd
      · rfl

theorem TxUseInit.inv (h : TxUseInit buffers s) : TxUseInv E buffers s := by
  have hq : queueAddrs s.sc = [] := by
    rw [queueAddrs, h.mgtq, h.ifSnd]
    rfl
  refine ⟨fun d => ?_, fun p d hd => ?_, fun n => ?_, fun _ => ⟨[], ?_, ?_⟩,
    fun hsome => absurd (by rw [h.calls]; rfl) hsome⟩
  · have hfree : ((buffers.filter (·.pidx = d.pidx))).count d = buffers.count d :=
      count_filter (decide_eq_true rfl)
    rw [h.free, h.inflight, h.calls, hfree]
    rfl
  · rw [h.free] at hd
    exact of_decide_eq_true (mem_filter.mp hd).2
  · rw [h.taken, h.released, h.mgtq]
    rfl
  · rw [hq]
    refine ⟨?_, ?_⟩
    · show (s.sc.heap.freed ++ []).Nodup
      rw [h.freed]
      exact nodup_nil
    · show ∀ a ∈ s.sc.heap.freed ++ [], _
      rw [h.freed]
      exact forall_mem_nil _
  · rw [h.dequeued]
    exact forall_mem_nil _

/-- The books are right: every buffer is once on the list of its pipe or in a transfer, what was
dequeued is freed and nothing twice, and every reference was released or belongs to a frame that
waits. -/
structure Accounted (buffers : List TxData) (s : TxUse ν) : Prop where
  buffers : ∀ d, (s.sc.txFreeList d.pidx).count d + s.inflight.count d = buffers.count d
  pipes : ∀ p, ∀ d ∈ s.sc.txFreeList p, d.pidx = p
  dequeued : ∀ a ∈ s.dequeued, a ∈ s.sc.heap.freed
  once : s.sc.heap.freed.Nodup
  nodes : ∀ n, s.taken.count n = s.released.count n + (s.sc.mgtq.map Prod.fst).count n

theorem buffers_nil_iff (E : BlockCipher) (calls : List (TxCall ν)) :
    failedBuffers E calls = [] ∧ lostBuffers E calls = [] ↔
      ∀ call ∈ calls, call.encrypts E = true ∧ (call.beacon = true → call.usb = true) := by
  rw [failedBuffers, lostBuffers, filterMap_eq_nil_iff, filterMap_eq_nil_iff, ← forall₂_and]
  refine forall₂_congr fun call _ => ?_
  cases call.encrypts E <;> cases call.beacon <;> cases call.usb <;> simp

/-- In every run, the books are right exactly if each call of `urtwn_tx` was for a frame that could
be encrypted, and each for a beacon one whose transfer was taken. -/
theorem tx_accounted_iff (E : BlockCipher) (buffers : List TxData)
    {s : TxUse ν} (h : Reach (TxUseInit buffers) (txUseStep E) Any s) :
    Accounted buffers s ↔
      ∀ call ∈ s.calls, call.encrypts E = true ∧ (call.beacon = true → call.usb = true) := by
  have hinv : TxUseInv E buffers s :=
    h.invariant (fun _ => TxUseInit.inv) fun _ _ _ hi _ hs => hi.step hs
  rw [← buffers_nil_iff]
  refine ⟨fun hacc => ?_, fun ⟨hfailed, hlost⟩ => ?_⟩
  · have hfailed : failedBuffers E s.calls = [] := by
      by_contra hsome
      exact hinv.twice hsome hacc.once
    refine ⟨hfailed, eq_nil_iff_forall_not_mem.mpr fun d hd => ?_⟩
    have h1 := hinv.buffers d
    have h2 := hacc.buffers d
    have hpos := count_pos_iff.mpr hd
    rw [hfailed, count_nil] at h1
    omega
  · obtain ⟨leak, hcl, hdeq⟩ := hinv.freed hfailed
    refine ⟨fun d => ?_, hinv.pipes, hdeq, (nodup_append.mp hcl.nodup).1, hinv.nodes⟩
    have := hinv.buffers d
    rw [hfailed, hlost, count_nil] at this
    omega

/-! ## Two runs that lose count -/

/-- A station of an open network, with one buffer. -/
def oneBuffer : TxUse Unit :=
  { sc := { (openTx 2346).sc with txFreeList := fun p => [(⟨0, 0⟩ : TxData)].filter (·.pidx = p) }
    inflight := [], taken := [], released := [], dequeued := [], calls := [] }

theorem oneBuffer_init : TxUseInit [⟨0, 0⟩] oneBuffer :=
  ⟨by decide, fun _ => rfl, rfl, rfl, rfl, rfl, rfl, rfl, rfl, rfl⟩

/-- The third frame of a shared key authentication: it is marked to be encrypted. -/
def sharedKeyResponse : Mbuf :=
  { addr := 0, mFlags := mPkthdr, mCluster := fun i => [0xb0, fc1Wep].getD i 0, mData := 0,
    mLen := 30, pkthdrLen := 30 }

def plainBeacon : Mbuf := { sharedKeyResponse with mCluster := fun i => [0x80].getD i 0 }

/-- Without a key the frame cannot be encrypted: its buffer is on the free list twice and its mbuf
is freed twice. And a beacon that is not taken keeps its buffer. -/
theorem tx_count_lost :
    (∃ s : TxUse Unit, Reach (TxUseInit [⟨0, 0⟩]) (txUseStep fun _ b => b) Any s ∧
      s.sc.txFreeList 0 = [⟨0, 0⟩, ⟨0, 0⟩] ∧ s.sc.heap.freed = [0, 0]) ∧
    ∃ s : TxUse Unit, Reach (TxUseInit [⟨0, 0⟩]) (txUseStep fun _ b => b) Any s ∧
      s.sc.txFreeList 0 = [] ∧ s.inflight = [] :=
  ⟨Reach.of_run [.mgmt () sharedKeyResponse [], .round (fun _ => true) none] oneBuffer_init
    (runOk_any _ _)
      (by decide +kernel),
    Reach.of_run [.beacon (fun _ => false) plainBeacon []] oneBuffer_init (runOk_any _ _)
    (by decide +kernel)⟩

/-- A packet is sent and its transfer completes; the transfer of the next one is refused. -/
theorem tx_accounted_iff_sample :
    ∃ s : TxUse Unit, Reach (TxUseInit [⟨0, 0⟩]) (txUseStep fun _ b => b) Any s ∧
    s.dequeued = [0, 2] ∧
      s.released = [(), ()] ∧ Accounted [⟨0, 0⟩] s := by
  obtain ⟨s, hr, hdeq, hrel, hok⟩ : ∃ s : TxUse Unit,
      Reach (TxUseInit [⟨0, 0⟩]) (txUseStep fun _ b => b) Any s ∧
        s.dequeued = [0, 2] ∧ s.released = [(), ()] ∧ ∀ call ∈ s.calls,
          call.encrypts (fun _ b => b) = true ∧ (call.beacon = true → call.usb = true) :=
    Reach.of_run
      [.packet { sharedKeyResponse with mCluster := fun i => (ipv4Frame 16).getD i 0 } [],
      .round (fun _ => true) none,
        .complete ⟨0, 0⟩ .normalCompletion, .mgmt () { plainBeacon with addr := 2 } [],
        .round (fun _ => false) none]
      oneBuffer_init (runOk_any _ _) (by decide +kernel)
  exact ⟨s, hr, hdeq, hrel, (tx_accounted_iff _ _ hr).mpr hok⟩

/-! ## The pipe of a packet -/

/-- The access category that `ieee80211_encap` sends a frame with. -/
def frameAc (ni : Node) (m : Mbuf) : Nat :=
  if ni.niQos && (etherHeader m).etherType != ethertypePae then wmeGetac m else 0

/-- The pipe whose free list `urtwn_start` looks into. -/
def startPipe (ntx : Nat) (m : Mbuf) : Nat := openPipesAc2idx ntx (startQid m.get)

theorem urtwnStartRound_packet {usb : Nat → Bool} {adhoc : Option ν} {sc : TxSoftc ν} {ntx : Nat}
    {m : Mbuf} {ms : List Mbuf} {rest : List (List Mbuf)} (hpipes : sc.ac2idx = openPipesAc2idx ntx)
    (hmgtq : sc.mgtq = []) (hrun : sc.ic.icState = .run)
    (hsnd : sc.ifSnd = (m :: ms) :: rest) : urtwnStartRound E usb adhoc sc =
      match sc.getTxData (startPipe ntx m) with
      | none => some ({ sc with oactive := true }, false)
      | some (data, sc) =>
        (startSend E usb adhoc { sc with ifSnd := rest } m ms data).map (·, true) := by
  rw [urtwnStartRound, hmgtq]
  simp only [hrun, hsnd, hpipes]
  rw [if_neg (by simp), startPipe]
  cases sc.getTxData (openPipesAc2idx ntx (startQid m.get)) with
  | none => rfl
  | some p =>
    obtain ⟨data, sc₁⟩ := p
    simp only [startSend]
    cases startEncap { sc₁ with ifSnd := rest } adhoc m ms data with
    | none => rfl
    | some r =>
      obtain ⟨sc2, out⟩ := r
      cases out with
      | none | some _ => rfl

/-- With two pipes voice and video have one, with three each has its own. -/
theorem openPipesAc2idx_eq_iff {ntx a b : Nat} (hmin : 0 < ntx) (hmax : ntx ≤ 3) (ha : a < 4)
    (hb : b < 4) : openPipesAc2idx ntx a = openPipesAc2idx ntx b ↔
      ntx = 1 ∨ ntx = 2 ∧ (2 ≤ a ↔ 2 ≤ b) ∨ ntx = 3 ∧ max a 1 = max b 1 := by
  obtain rfl | rfl | rfl : ntx = 1 ∨ ntx = 2 ∨ ntx = 3 := by omega
  all_goals
    revert b
    revert a
    decide

theorem startQid_lt (wh : Wh) : startQid wh < 4 := by
  rw [startQid, tidToWmeAc]
  split_ifs <;> decide

theorem frameAc_lt (ni : Node) (m : Mbuf) : frameAc ni m < 4 := by
  rw [frameAc]
  split
  · rw [wmeGetac, UInt32.toNat_and]
    exact Nat.lt_succ_of_le Nat.and_le_right
  · decide

/-- An Ethernet frame of zeros. -/
def zeroFrame : Mbuf :=
  { addr := 0, mFlags := mPkthdr, mCluster := fun _ => 0, mData := 0, mLen := 14, pkthdrLen := 14 }

/-- With one pipe every packet has the pipe of its category. With two a packet goes wrong if its
octets 0 and 24 make it voice or video and its category is neither, or the other way round; with
three also if they make it the wrong one of the two. And the pipe depends on the destination. -/
theorem startPipe_iff {ntx : Nat} (hmin : 0 < ntx) (hmax : ntx ≤ 3) :
    (∀ (E : BlockCipher) (usb : Nat → Bool) (adhoc : Option ν) (sc : TxSoftc ν) (m : Mbuf)
      (ms : List Mbuf) (rest : List (List Mbuf)), sc.ac2idx = openPipesAc2idx ntx → sc.mgtq = [] →
      sc.ic.icState = .run → sc.ifSnd = (m :: ms) :: rest → urtwnStartRound E usb adhoc sc =
        match sc.getTxData (startPipe ntx m) with
        | none => some ({ sc with oactive := true }, false)
        | some (data, sc) =>
          (startSend E usb adhoc { sc with ifSnd := rest } m ms data).map (·, true)) ∧
    (∀ (ni : Node) (m : Mbuf), startPipe ntx m = openPipesAc2idx ntx (frameAc ni m) ↔
      ntx = 1 ∨ ntx = 2 ∧ (2 ≤ startQid m.get ↔ 2 ≤ frameAc ni m) ∨
        ntx = 3 ∧ max (startQid m.get) 1 = max (frameAc ni m) 1) ∧
    ((∀ (ni : Node) (m : Mbuf), 14 ≤ m.mLen → startPipe ntx m = openPipesAc2idx ntx (frameAc ni m))
    ↔ ntx = 1) ∧ ((∀ (m : Mbuf) (dhost : List UInt8), 14 ≤ m.mLen → dhost.length = 6 →
      startPipe ntx (m.put 0 dhost) = startPipe ntx m) ↔ ntx = 1) := by
  have hcat : ∀ (ni : Node) (m : Mbuf), startPipe ntx m = openPipesAc2idx ntx (frameAc ni m) ↔ _ :=
    fun ni m => openPipesAc2idx_eq_iff hmin hmax (startQid_lt _) (frameAc_lt ni m)
  refine ⟨fun _ _ _ _ _ _ _ hpipes hmgtq hrun hsnd => urtwnStartRound_packet hpipes hmgtq hrun hsnd,
    hcat, ⟨fun hall => ?_, fun h1 ni m _ => (hcat ni m).mpr (.inl h1)⟩,
    ⟨fun hall => ?_, fun h1 m dhost _ _ =>
      (openPipesAc2idx_eq_iff hmin hmax (startQid_lt _) (startQid_lt _)).mpr (.inl h1)⟩⟩
  · -- a packet for 00:00:00:00:00:00 to a node without QoS is taken for a management frame
    refine ((hcat ((stationWith .none).icNode ()) zeroFrame).mp
      (hall _ _ (by decide))).resolve_right ?_
    exact fun h => h.elim (fun h => absurd h.2 (by decide)) fun h => absurd h.2 (by decide)
  · have heq := hall zeroFrame [0x08, 0, 0, 0, 0, 0] (by decide) rfl
    refine ((openPipesAc2idx_eq_iff hmin hmax (startQid_lt _) (startQid_lt _)).mp heq).resolve_right
      ?_
    exact fun h => h.elim (fun h => absurd h.2 (by decide)) fun h => absurd h.2 (by decide)

theorem startPipe_iff_sample :
    startPipe 1 (zeroFrame.put 0 [0x08, 0, 0, 0, 0, 0]) = startPipe 1 zeroFrame ∧
      startPipe 1 zeroFrame = openPipesAc2idx 1
      (frameAc ((stationWith .none).icNode ()) zeroFrame) := by
  obtain ⟨-, -, hcat, hdst⟩ := @startPipe_iff Unit _ 1 (by decide) (by decide)
  exact ⟨hdst.mpr rfl _ _ (by decide) rfl, hcat.mpr rfl _ _ (by decide)⟩

/-- Two destinations, and the pipes of the highest and of the lowest priority; the category is the
same. -/
theorem startPipe_leaks :
    startPipe 3 zeroFrame = 0 ∧ startPipe 3 (zeroFrame.put 0 [0x08, 0, 0, 0, 0, 0]) = 2 ∧
      openPipesAc2idx 3 (frameAc ((stationWith .none).icNode ()) zeroFrame) = 2 := by decide

end Net80211.Urtwn
