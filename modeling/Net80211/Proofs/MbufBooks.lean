import Net80211.Lib.Books
import Net80211.Proofs.TxFrame

/-!
# Where the mbufs of a packet go

The books of the allocator through the functions that take a chain over: what `m_pullup`,
`m_prepend`, `ieee80211_mbuf_adjust`, `ieee80211_fragment`, `ieee80211_encap` and
`ieee80211_crypto_encap` return and what they free is together the chain they were given and what
they allocated, each mbuf once. A function that fails frees the chain, but for
`ieee80211_crypto_encap`, which leaves it to the caller unless it ran out of memory for the header.
-/

namespace Net80211

open Lib Crypto List

def Heap.books (h : Heap) : Books := ⟨h.next, h.freed⟩

/-- The mbufs of a chain. -/
def addrs (c : List Mbuf) : List Nat := c.map Mbuf.addr

theorem addrs_cons (m : Mbuf) (ms : List Mbuf) : addrs (m :: ms) = m.addr :: addrs ms := rfl

theorem addrs_append (c d : List Mbuf) : addrs (c ++ d) = addrs c ++ addrs d := map_append

variable {h h' : Heap} {m : Mbuf} {ms c : List Mbuf} {r : Option (List Mbuf)} {pkthdr : Bool}
  {hdrsize ciphdrsize : Nat} {len : Int}

theorem mGetImpl_moves {r : Option Mbuf} (hg : mGetImpl h pkthdr = (h', r)) :
    Moves h.books [] h'.books (addrs r.toList) := by
  rw [mGetImpl] at hg
  split at hg
  · cases hg
    exact .skip _ _
  · cases hg
    exact .take _ _

theorem mFreem_moves (h : Heap) (c : List Mbuf) : Moves h.books (addrs c) (mFreem h c).books [] :=
  .give _ _ _

/-- A new mbuf for what is held, which is freed where there is none. -/
theorem mGetImpl_cons {n : Mbuf} (hg : mGetImpl h pkthdr = (h', some n)) (d : List Nat) :
    Moves h.books d h'.books (n.addr :: d) :=
  ((mGetImpl_moves hg).frame d)

theorem mGetImpl_fails (hg : mGetImpl h pkthdr = (h', none)) (c : List Mbuf) :
    Moves h.books (addrs c) (mFreem h' c).books [] :=
  ((mGetImpl_moves hg).frame (addrs c)).trans (mFreem_moves h' c)

theorem addrs_putLlc (c : List Mbuf) (etherType : List UInt8) :
    addrs (putLlc c etherType) = addrs c := by
  have hadj : addrs (mAdj c 6) = addrs c := addr_mAdj c 6
  rw [putLlc, ← hadj]
  cases mAdj c 6 <;> rfl

theorem mDropEmpty_moves (c : List Mbuf) : ∀ {h h' : Heap} {d : List Mbuf},
    mDropEmpty h c = (h', d) → Moves h.books (addrs c) h'.books (addrs d) := by
  induction c with
  | nil =>
    intro h h' d hd
    cases hd
    exact .refl _ _
  | cons m ms ih =>
    intro h h' d hd
    rw [mDropEmpty] at hd
    split at hd
    · exact ((mFreem_moves h [m]).frame (addrs ms)).trans (ih hd)
    · cases hd
      exact .refl _ _

theorem mPullup_moves (hp : mPullup h c len = (h', r)) :
    Moves h.books (addrs c) h'.books (addrs (r.getD [])) := by
  cases c with
  | nil =>
    cases hp
    exact .refl _ _
  | cons m ms =>
    rw [mPullup] at hp
    split at hp
    · cases hp
      exact mFreem_moves _ _
    split at hp
    · cases hp
      exact .refl _ _
    split at hp
    · cases hp
      exact mFreem_moves _ _
    split at hp
    · next hg =>
      cases hp
      exact mGetImpl_fails hg _
    · next h1 head hg =>
      dsimp only at hp
      generalize hmv : (if m.hasPkthdr then mMovePkthdr head m else (head, m)) = mv at hp
      obtain ⟨head', m'⟩ := mv
      have haddr : head'.addr = head.addr ∧ m'.addr = m.addr := by
        split at hmv <;> cases hmv <;> exact ⟨rfl, rfl⟩
      dsimp only at hp
      generalize hdrop : mDropEmpty h1 (mAdj (m' :: ms) len) = dr at hp
      obtain ⟨h2, tl⟩ := dr
      cases hp
      have hadj : addrs (mAdj (m' :: ms) len) = addrs (m :: ms) := by
        rw [addrs, addr_mAdj, map_cons, haddr.2]
        rfl
      have hmoves := mDropEmpty_moves _ hdrop
      rw [hadj] at hmoves
      show Moves _ _ _ (head'.addr :: addrs tl)
      rw [haddr.1]
      exact (mGetImpl_cons hg _).trans ((hmoves.frame [head.addr]).perm (perm_append_singleton _ _)
        (perm_append_singleton _ _))

theorem mPrepend_moves (hp : mPrepend h c len = (h', r)) :
    Moves h.books (addrs c) h'.books (addrs (r.getD [])) := by
  cases c with
  | nil =>
    cases hp
    exact .refl _ _
  | cons m ms =>
    rw [mPrepend] at hp
    split at hp
    · cases hp
      exact mFreem_moves _ _
    split at hp
    · cases hp
      exact .refl _ _
    split at hp
    · next hg =>
      cases hp
      exact mGetImpl_fails hg _
    · next h1 n hg =>
      dsimp only at hp
      split at hp <;>
      · cases hp
        exact mGetImpl_cons hg _

theorem pullupTo_moves {len : Nat} {r : Option (Mbuf × List Mbuf)}
    (hp : pullupTo h m ms len = (h', r)) :
    Moves h.books (addrs (m :: ms)) h'.books (addrs (r.elim [] fun p => p.1 :: p.2)) := by
  rw [pullupTo] at hp
  split at hp
  · generalize hpull : mPullup h (m :: ms) len = p at hp
    obtain ⟨h1, r1⟩ := p
    have hmoves := mPullup_moves hpull
    cases r1 with
    | none =>
      cases hp
      exact hmoves
    | some c =>
      cases c with
      | nil | cons a as =>
        cases hp
        exact hmoves
  · cases hp
    exact .refl _ _

theorem mbufAdjust_moves {cip : Cipher} (hp : mbufAdjust h hdrsize cip m ms = (h', r)) :
    Moves h.books (addrs (m :: ms)) h'.books (addrs (r.getD [])) := by
  rw [mbufAdjust] at hp
  dsimp only at hp
  split at hp
  · split at hp
    · next hg =>
      cases hp
      exact mGetImpl_fails hg _
    · next h1 n hg =>
      cases hp
      exact mGetImpl_cons hg _
  · cases hp
    exact .refl _ _

/-! ## Encapsulation -/

theorem addr_fragmentAt (m0 : Mbuf) (ms0 : List Mbuf)
    (hdrsize ciphdrsize fragsize fragno off payload : Nat) (m : Mbuf) :
    (fragmentAt m0 ms0 hdrsize ciphdrsize fragsize fragno off payload m).addr = m.addr := by
  show (mAlign m _).addr = _
  rw [mAlign]
  split <;> rfl

theorem fragmentLoop_moves {m0 : Mbuf} {ms0 : List Mbuf} {mtu : Nat} :
    ∀ {fuel : Nat} {h h' : Heap} {fragno off remainder : Nat} {acc : List Mbuf}
      {r : Option (List Mbuf)},
      fragmentLoop m0 ms0 hdrsize ciphdrsize mtu fuel h fragno off remainder acc = some (h', r) →
      Moves h.books (addrs acc) h'.books (addrs (r.getD [])) := by
  intro fuel
  induction fuel with
  | zero => intro h h' fragno off remainder acc r hrun; cases hrun
  | succ fuel ih =>
    intro h h' fragno off remainder acc r hrun
    rw [fragmentLoop] at hrun
    dsimp only at hrun
    split at hrun
    · next hg =>
      cases hrun
      exact mGetImpl_fails hg _
    next h1 n hg =>
    generalize hf : fragmentAt m0 ms0 hdrsize ciphdrsize _ fragno off _ n = f at hrun
    have haddr : f.addr = n.addr := by rw [← hf, addr_fragmentAt]
    -- the fragment at the end of those before
    have hadd : Moves h.books (addrs acc) h1.books (addrs acc ++ [f.addr]) :=
      (mGetImpl_cons hg (addrs acc)).perm (.refl _) (haddr ▸ (perm_append_singleton _ _).symm)
    split at hrun
    · have hrest := ih hrun
      rw [addrs_append] at hrest
      exact hadd.trans hrest
    · cases hrun
      show Moves _ _ _ (addrs (acc ++ [f.put 1 _]))
      rw [addrs_append]
      exact hadd

/-- The mbufs of all frames of a packet. -/
def frameAddrs (frames : List (List Mbuf)) : List Nat := frames.flatMap addrs

theorem frameAddrs_map_singleton (frags : List Mbuf) :
    frameAddrs (frags.map fun m => [m]) = addrs frags := by
  induction frags with
  | nil => rfl
  | cons m ms ih =>
    rw [map_cons, frameAddrs, flatMap_cons]
    exact congrArg (m.addr :: ·) ih

/-- `ieee80211_fragment`: the first fragment is the chain, the others are new. -/
theorem fragment_moves {mtu : Nat} {frames : List (List Mbuf)}
    (hrun : fragment h m ms hdrsize ciphdrsize mtu = some (h', some frames)) :
    ∃ f fs rest, frames = (f :: fs) :: rest ∧ addrs (f :: fs) = addrs (m :: ms) ∧
      Moves h.books [] h'.books (frameAddrs rest) := by
  rw [fragment] at hrun
  dsimp only at hrun
  split at hrun
  · cases hrun
  · cases hrun
  · next frags hloop =>
    have hadj := addr_mAdj (m.put 1 [m.get 1 ||| fc1MoreFrag] :: ms)
      (-((m.put 1 [m.get 1 ||| fc1MoreFrag]).pkthdrLen - ((mtu - ciphdrsize : Nat) : Int)))
    generalize mAdj (m.put 1 [m.get 1 ||| fc1MoreFrag] :: ms) _ = c at hadj hrun
    cases hrun
    cases c with
    | nil => cases hadj
    | cons a as =>
      refine ⟨_, _, _, rfl, hadj, ?_⟩
      rw [frameAddrs_map_singleton]
      exact fragmentLoop_moves hloop

theorem fragment_fails {mtu : Nat}
    (hrun : fragment h m ms hdrsize ciphdrsize mtu = some (h', none)) :
    Moves h.books [] h'.books [] := by
  rw [fragment] at hrun
  dsimp only at hrun
  split at hrun
  · cases hrun
  · next hloop =>
    cases hrun
    exact fragmentLoop_moves hloop
  · cases hrun

variable {ν : Type} [DecidableEq ν] {ic ic' : Ic ν} {n : ν}

theorem addr_fillHeader (ic : Ic ν) (n : ν) (addqos : Bool) (dir : UInt8) (as : List UInt8)
    (m : Mbuf) : (fillHeader ic n addqos dir as m).1.addr = m.addr := by
  rw [fillHeader]
  split <;> rfl

/-- What `ieee80211_encap` returns: the packet is freed, or it is the first frame, and the others
are new. -/
def EncapMoves (h : Heap) (c : List Mbuf) (h' : Heap) : Option (List (List Mbuf)) → Prop
  | none => Moves h.books (addrs c) h'.books []
  | some frames => ∃ f fs rest b, frames = (f :: fs) :: rest ∧
      Moves h.books (addrs c) b (addrs (f :: fs)) ∧ Moves b [] h'.books (frameAddrs rest)

theorem encap_moves {r : Option (List (List Mbuf))} (he : encap h ic n m ms = some (h', ic', r)) :
    EncapMoves h (m :: ms) h' r := by
  rw [encap] at he
  dsimp only at he
  split at he
  · next hadj =>
    cases he
    exact mbufAdjust_moves hadj
  next h1 c hadj =>
  generalize hpre : mPrepend h1 (putLlc c (etherHeader m).etherType) _ = p at he
  obtain ⟨h2, r2⟩ := p
  have hmoves : Moves h.books (addrs (m :: ms)) h2.books (addrs (r2.getD [])) := by
    have hllc := mPrepend_moves hpre
    rw [addrs_putLlc] at hllc
    exact (mbufAdjust_moves hadj).trans hllc
  cases r2 with
  | none =>
    cases he
    exact hmoves
  | some d =>
    cases d with
    | nil =>
      cases he
      exact hmoves
    | cons f fs =>
      dsimp only at he
      split at he
      · cases he
        exact hmoves.trans (mFreem_moves _ _)
      next dir as _ =>
      generalize hfill : fillHeader ic n _ dir as f = r3 at he
      obtain ⟨f1, ic1⟩ := r3
      have hf1 : f1.addr = f.addr := by
        rw [← addr_fillHeader ic n _ dir as f, hfill]
      dsimp only at he
      generalize hwep :
        (if encapProtects ic n (etherHeader m) then f1.put 1 [f1.get 1 ||| fc1Wep]
        else f1) = f2 at he
      have hf2 : addrs (f2 :: fs) = addrs (f :: fs) := by
        rw [addrs_cons, addrs_cons, ← hf1, ← hwep]
        split <;> rfl
      rw [show addrs ((some (f :: fs)).getD []) = addrs (f2 :: fs) from hf2.symm] at hmoves
      split at he
      · split at he
        · cases he
        · next hfrag =>
          cases he
          exact (hmoves.trans ((fragment_fails hfrag).frame _)).trans (mFreem_moves _ _)
        · next hfrag =>
          cases he
          obtain ⟨g, gs, rest, rfl, hg, hrest⟩ := fragment_moves hfrag
          exact ⟨g, gs, rest, h2.books, rfl, hg ▸ hmoves, hrest⟩
      · cases he
        exact ⟨_, _, [], _, rfl, hmoves, .refl _ _⟩

/-- Whichever allocations fail, `ieee80211_encap` frees no mbuf twice, returns none that it freed,
and loses none of the packet. -/
theorem encap_frees_once {r : Option (List (List Mbuf))} (hc : Clean h.books (addrs (m :: ms)))
    (he : encap h ic n m ms = some (h', ic', r)) : Clean h'.books (frameAddrs (r.getD [])) ∧
      ∀ a ∈ addrs (m :: ms), a ∈ h'.freed ++ frameAddrs (r.getD []) := by
  have hmoves : Moves h.books (addrs (m :: ms)) h'.books (frameAddrs (r.getD [])) := by
    have hm := encap_moves he
    cases r with
    | none => exact hm
    | some frames =>
      obtain ⟨f, fs, rest, b, rfl, hfirst, hrest⟩ := hm
      exact hfirst.trans ((hrest.frame _).perm (.refl _) perm_append_comm)
  exact ⟨hmoves.clean hc, fun a ha => hmoves.mem (mem_append_right _ ha)⟩

/-- Two fragments. -/
theorem encap_frees_once_sample : ∃ r, (frameAddrs r).length = 2 ∧ (frameAddrs r).Nodup := by
  have hlen :
      (encap { plenty with next := 1 } (thresholdAp 60) () (packet 0 (numberedEther 40)) []).map
      (fun r => (frameAddrs (r.2.2.getD [])).length) = some 2 := by decide +kernel
  obtain ⟨r, hr, hlen⟩ := Option.map_eq_some_iff.mp hlen
  exact ⟨_, hlen, (encap_frees_once ⟨by decide, by decide⟩ hr).1.nodup.of_append_right⟩

/-! ## Encryption -/

variable {E : BlockCipher}

theorem encapSpace_moves {hdrlen header : Nat} {r : Option (Mbuf × List Mbuf)}
    (hs : encapSpace h c hdrlen header = (h', r)) :
    Moves h.books (addrs c) h'.books (addrs (r.elim [] fun p => p.1 :: p.2)) := by
  rw [encapSpace] at hs
  generalize hpre : mPrepend h c header = p at hs
  obtain ⟨h1, r1⟩ := p
  have hmoves := mPrepend_moves hpre
  cases r1 with
  | none =>
    cases hs
    exact hmoves
  | some d =>
    cases d with
    | nil =>
      cases hs
      exact hmoves
    | cons f fs =>
      dsimp only at hs
      split at hs
      · next hpull =>
        cases hs
        exact hmoves.trans (pullupTo_moves hpull)
      · next hpull =>
        cases hs
        have hp := pullupTo_moves hpull
        exact hmoves.trans hp

theorem mAppendNew_moves : ∀ (fuel : Nat) (h : Heap) (cp : List UInt8),
    Moves h.books [] (mAppendNew fuel h cp).1.books (addrs (mAppendNew fuel h cp).2.1) := by
  intro fuel
  induction fuel with
  | zero => intro h cp; exact .refl _ _
  | succ fuel ih =>
    intro h cp
    rw [mAppendNew]
    split
    · exact .refl _ _
    split
    · next hg => exact mGetImpl_moves hg
    · next h1 n hg =>
      exact (mGetImpl_moves hg).trans (((ih h1 _).frame [n.addr]).perm (.refl _)
        (perm_append_singleton _ _))

theorem mAppendLast_moves : ∀ (c : List Mbuf) (h : Heap) (cp : List UInt8),
    Moves h.books (addrs c) (mAppendLast h c cp).1.books (addrs (mAppendLast h c cp).2.1) := by
  intro c
  induction c with
  | nil => intro h cp; exact .refl _ _
  | cons m ms ih =>
    intro h cp
    cases ms with
    | nil =>
      exact ((mAppendNew_moves _ h _).frame [m.addr]).perm (.refl _) (perm_append_singleton _ _)
    | cons m' ms =>
      rw [mAppendLast]
      · exact ((ih h cp).frame [m.addr]).perm (perm_append_singleton _ _)
          (perm_append_singleton _ _)
      · exact cons_ne_nil _ _

theorem mAppend_moves (h : Heap) (c : List Mbuf) (cp : List UInt8) :
    Moves h.books (addrs c) (mAppend h c cp).1.books (addrs (mAppend h c cp).2.1) := by
  have hmoves := mAppendLast_moves c h cp
  rw [mAppend]
  generalize mAppendLast h c cp = r at hmoves
  obtain ⟨h', c', rest⟩ := r
  cases c' with
  | nil => exact hmoves
  | cons m tl =>
    dsimp only
    split <;> exact hmoves

theorem ccmpEncap_moves {datapad : Bool} {k k' : Key} {keyid : UInt8} {frame : List Mbuf}
    {ok : Bool} (he : ccmpEncap E datapad h k m ms keyid = some (h', k', frame, ok)) :
    Moves h.books (addrs (m :: ms)) h'.books (addrs frame) := by
  rw [ccmpEncap] at he
  dsimp only at he
  split at he
  · split at he
    · cases he
    next h1 frame1 ok1 henc =>
    simp only [Option.some.injEq, Prod.mk.injEq] at he
    obtain ⟨rfl, -, rfl, rfl⟩ := he
    rw [ccmpEncrypt] at henc
    split at henc
    · cases henc
    dsimp only at henc
    split at henc
    · cases henc
    next C' ms1 mic hmbuf =>
    obtain ⟨m1, tl1, rfl, hshapes, -⟩ := aesCcmEncMbuf_head hmbuf
    have hmoves := mAppend_moves h (m1 :: tl1) mic
    rw [Option.some.inj henc] at hmoves
    have haddr : addrs (m1 :: tl1) = addrs (m :: ms) := hshapes.addrs
    rwa [haddr] at hmoves
  · simp only [Option.some.injEq, Prod.mk.injEq] at he
    obtain ⟨rfl, -, rfl, -⟩ := he
    exact .refl _ _

theorem cryptoEncap_moves {ks : Keys ν} {r : EncapResult ν}
    (hc : cryptoEncap E h ks n m ms = some r) :
    Moves h.books (addrs (m :: ms)) r.heap.books (addrs (r.frame.getD [])) := by
  rw [cryptoEncap] at hc
  split at hc
  · cases hc
    exact .refl _ _
  dsimp only at hc
  split at hc
  · next hspc =>
    cases hc
    exact encapSpace_moves hspc
  next hspc =>
  split at hc
  · cases hc
    exact encapSpace_moves hspc
  split at hc
  · cases hc
  next henc =>
  cases hc
  exact (encapSpace_moves hspc).trans (ccmpEncap_moves henc)

end Net80211
