import Net80211.Proofs.InputData

/-!
# The duplicate filter

A transmitter numbers its frames, and `ieee80211_input` keeps for each node and
traffic identifier the number of the last frame it let through. A frame with the
Retry bit is a duplicate if its number is not above that one. The numbers on the
air are a counter modulo 4096, but the comparison is one of integers, with an
exception for 4095 only: so what the filter does about a new frame depends on
whether the counter has wrapped since.

Here a frame carries its place in what the transmitter sends, with the counter as a
natural number. The places of the last frames are kept beside the interface, and the
numbers the nodes hold are theirs (`Slots`).
-/

namespace Net80211

open Lib Crypto Function Option

/-! ## Numbers -/

/-- The place of a frame in what a transmitter sends: how many sequence numbers it
has used before, and the fragment. -/
structure SeqPos where
  count : Nat
  frag : Fin 16
  deriving DecidableEq, Repr

/-- The sequence control field. -/
def SeqPos.num (p : SeqPos) : UInt16 := UInt16.ofNat (p.count % 4096 * 16 + p.frag)

theorem SeqPos.num_toNat (p : SeqPos) : p.num.toNat = p.count % 4096 * 16 + p.frag := by
  rw [SeqPos.num, UInt16.toNat_ofNat', Nat.mod_eq_of_lt]
  omega

/-- A new frame: it comes after the last one, and fewer than 2048 numbers were lost
in between. -/
def Follows : Option SeqPos → SeqPos → Prop
  | none, _ => True
  | some q, p =>
    q.count < p.count ∧ p.count ≤ q.count + 2048 ∨ p.count = q.count ∧ q.frag < p.frag

/-- A new frame that the filter takes for an old one: a first frame with number 0,
another fragment of number 4095, or a frame after the counter has wrapped. -/
def Mistaken : Option SeqPos → SeqPos → Prop
  | none, p => p.count % 4096 = 0 ∧ p.frag = 0
  | some q, p =>
    if q.count % 4096 = 4095 then p.count = q.count else p.count / 4096 ≠ q.count / 4096

/-- What a node holds after the last frame. -/
def slotOf : Option SeqPos → UInt16
  | none => 0
  | some q => q.num

/-- The comparison of the filter, on numbers. -/
theorem isDup_iff (last rxseq : UInt16) : isDup last rxseq = true ↔
      if last.toNat / 16 = 4095 then rxseq.toNat / 16 = 4095 else rxseq.toNat ≤ last.toNat := by
  have hseq : ∀ x y : UInt16, seqSeq x = seqSeq y ↔ x.toNat / 16 = y.toNat / 16 := fun x y => by
    rw [← UInt16.toNat_inj, seqSeq_toNat, seqSeq_toNat]
  have hmax : seqSeq last = 4095 ↔ last.toNat / 16 = 4095 := by
    rw [← UInt16.toNat_inj, seqSeq_toNat]
    rfl
  rw [isDup, Bool.or_eq_true, Bool.and_eq_true, Bool.and_eq_true, bne_iff_ne, beq_iff_eq,
    beq_iff_eq, decide_eq_true_eq, ne_eq, hmax, hseq]
  split
  · next h => rw [h]; simp
  · next h =>
    simp only [h, false_and, not_false_eq_true, true_and, false_or]
    omega

theorem isDup_follows {q : Option SeqPos} {p : SeqPos} (h : Follows q p) :
    isDup (slotOf q) p.num = true ↔ Mistaken q p := by
  have hp := p.frag.isLt
  rw [isDup_iff, p.num_toNat]
  match q, h with
  | none, _ =>
    rw [slotOf, Mistaken, if_neg (by decide), ← Fin.val_inj]
    change _ ≤ 0 ↔ _ ∧ _ = 0
    omega
  | some q, h =>
    have hq := q.frag.isLt
    rw [Follows, Fin.lt_def] at h
    rw [slotOf, q.num_toNat, Mistaken, show (q.count % 4096 * 16 + q.frag) / 16 = q.count % 4096 by
      omega, show (p.count % 4096 * 16 + p.frag) / 16 = p.count % 4096 by omega]
    split
    · omega
    · omega

theorem isDup_self (x : UInt16) : isDup x x = true := by
  rw [isDup_iff]
  split
  · next h => exact h
  · exact Nat.le_refl _

/-! ## What keeps the numbers -/

variable {ν : Type} [DecidableEq ν] {E : BlockCipher} {stack : Nat → UInt8}
  {rx rx' : Rx ν} {n : ν}

/-- No node holds another number than before. -/
def SameSeqs (rx rx' : Rx ν) : Prop := ∀ n, (rx'.node n).niRxseqs = (rx.node n).niRxseqs

omit [DecidableEq ν] in
theorem SameSeqs.of_node (h : rx'.node = rx.node) : SameSeqs rx rx' := fun n => by rw [h]

omit [DecidableEq ν] in
theorem SameSeqs.trans {rx₁ rx₂ rx₃ : Rx ν} (h : SameSeqs rx₁ rx₂) (h' : SameSeqs rx₂ rx₃) :
    SameSeqs rx₁ rx₃ := fun n => (h' n).trans (h n)

theorem SameSeqs.update (ni : NodeRx) (h : ni.niRxseqs = (rx.node n).niRxseqs)
    (hnode : rx'.node = update rx.node n ni) : SameSeqs rx rx' := by
  intro n'
  rw [hnode]
  by_cases hn : n' = n
  · subst hn
    rw [update_self]
    exact h
  · rw [update_of_ne hn]

theorem defrag_rxseqs (h : Heap) (ticks : UInt32) (ni : NodeRx) (m : Mbuf) (ms : List Mbuf)
    (hs : Nat) : (defrag h ticks ni m ms hs).2.1.niRxseqs = ni.niRxseqs := by
  have hend : ∀ more c, (defragEnd ticks { ni with niRxfrag := none } more c).1.niRxseqs =
      ni.niRxseqs := by
    intro more c
    rw [defragEnd]
    split
    · rfl
    · rfl
  rw [defrag]
  dsimp only
  split
  · rfl
  split
  · rfl
  split
  · split
    · rfl
    · exact hend _ _
  · exact hend _ _

theorem inputDeliver_node (rx : Rx ν) (n : ν) (protect : Bool) (m : Mbuf) (ms : List Mbuf)
    (hs : Nat) : (inputDeliver rx n protect m ms hs).1.node = rx.node := by
  have hbridge : ∀ (rx : Rx ν) m ms, (bridge rx m ms).1.node = rx.node := by
    intro rx m ms
    rw [bridge]
    split
    · split
      · rfl
      · rfl
    · split
      · rfl
      · split <;> rfl
  have hdeliver : ∀ (rx : Rx ν) m ms, (deliverData rx m ms).node = rx.node := by
    intro rx m ms
    rw [deliverData]
    by_cases hap : (rx.ic.icOpmode = .hostap && !rx.nobridge) = true
    · have hnode := hbridge rx m ms
      rw [if_pos hap]
      obtain ⟨⟨rx₁, left⟩, heq⟩ : ∃ x, bridge rx m ms = x := ⟨_, rfl⟩
      rw [heq] at hnode ⊢
      cases left with
      | none | some c => exact hnode
    · rw [if_neg hap]
      rfl
  rw [inputDeliver]
  split
  · rfl
  · rfl
  · dsimp only
    split
    · exact hdeliver _ _ _
    · rfl

theorem inputMsdu_seqs (rx : Rx ν) (n : ν) (protect : Bool) (m : Mbuf) (ms : List Mbuf) (hs : Nat) :
    SameSeqs rx (inputMsdu rx n protect m ms hs).1 := by
  have hdefrag : SameSeqs rx (inputDefrag rx n m ms hs).1 := by
    rw [inputDefrag]
    split
    · exact .of_node rfl
    · exact .update _ (defrag_rxseqs ..) rfl
  rw [inputMsdu]
  split
  · next heq => rw [heq] at hdefrag; exact hdefrag
  · next heq => rw [heq] at hdefrag; exact hdefrag
  · next heq =>
    rw [heq] at hdefrag
    exact hdefrag.trans (.of_node (inputDeliver_node ..))

theorem inputDataOpmode_seqs (rx : Rx ν) (n : ν) (wh : Wh) :
    SameSeqs rx (inputDataOpmode rx n wh).1 := by
  rw [inputDataOpmode]
  split
  · exact .of_node rfl
  · exact .of_node rfl
  · exact .of_node rfl
  · dsimp only
    split
    · exact .of_node rfl
    split
    · exact .of_node rfl
    split
    · exact .of_node rfl
    split
    · exact .update { rx.node n with niPwrMgt := wh 1 &&& fc1PwrMgt != 0 } rfl rfl
    · exact .of_node rfl
  · exact .of_node rfl

/-- Behind the filter nothing changes the numbers. -/
theorem inputData_seqs {m : Mbuf} {ms : List Mbuf} {frame : Option (List Mbuf)}
    (h : inputData E stack rx n m ms = some (rx', frame)) : SameSeqs rx rx' := by
  have hopen : ∀ rx₁ o, inputOpen E stack rx n m ms = some (rx₁, o) → SameSeqs rx rx₁ := by
    intro rx₁ o ho
    rw [inputOpen] at ho
    split at ho
    · cases ho; exact .of_node rfl
    next h1 m1 ms1 _ =>
    have hop : SameSeqs rx _ := inputDataOpmode_seqs { rx with heap := h1 } n m1.get
    split at ho
    · next heq =>
      rw [heq] at hop
      cases ho
      exact hop
    · next heq =>
      rw [heq] at hop
      exact hop.trans (.of_node (inputDecrypt_same ho).node)
  rw [inputData] at h
  split at h
  · cases h
  · next heq => cases h; exact hopen _ _ heq
  · next rx₁ key m1 ms1 heq =>
    have hmsdu := inputMsdu_seqs rx₁ n key.isSome m1 ms1 (hdrspace rx.ic.icKeys.datapad m.get)
    rw [Option.some.inj h] at hmsdu
    exact (hopen _ _ heq).trans hmsdu

/-! ## The filter -/

variable {rx₁ : Rx ν} {adhoc : Option ν} {n₁ : ν} {m : Mbuf}

/-- Do the checks before the switch on the operation mode let a frame through? -/
def screened (rx : Rx ν) (m : Mbuf) : Bool :=
  rx.ic.icOpmode ≠ .monitor && 16 ≤ m.mLen && m.get 0 &&& 0x03 == 0 && !rx.scan

/-- The node whose numbers a frame is compared with: a new one, where the frame is
from a new member of an IBSS. -/
def sender (rx : Rx ν) (adhoc : Option ν) (n : ν) (m : Mbuf) : ν :=
  if screened rx m then
    match inputBss rx adhoc n m with
    | (_, .ok n₁) => n₁
    | (_, .error _) => n
  else n

/-- The interface and the node with which a frame gets to the filter. -/
inductive Sender (rx : Rx ν) (adhoc : Option ν) (n : ν) : Rx ν → ν → Prop where
  | known : Sender rx adhoc n rx n
  | member {a : ν} (macaddr : List UInt8) :
      adhoc = some a → Sender rx adhoc n (fakeupAdhocNode rx a macaddr) a

variable {r : Except RxDrop ν}

/-- The modes without an access point of their own share one branch. -/
theorem inputBss_other (hsta : rx.ic.icOpmode ≠ .sta) {mode : Opmode} {nods : Bool}
    {bssid : List UInt8} (h : (if nods && m.mLen < 24 then (rx, .error .tooshort)
      else if m.get 0 &&& fc0TypeMask != fc0TypeData then (rx, .ok n)
      else if bssid ≠ (rx.ic.icNode rx.ic.icBss).niBssid ∧ bssid ≠ List.replicate 6 0xff then
      (rx, .error .wrongbss) else if n = rx.ic.icBss ∧ mode ≠ .hostap ∧
      window m.get 10 6 ≠ (rx.ic.icNode n).niMacaddr then match adhoc with
      | none => (rx, .error .nodealloc)
      | some n => (fakeupAdhocNode rx n (window m.get 10 6), .ok n) else (rx, .ok n)) = (rx₁, r)) :
    (∃ e, r = .error e ∧ e ≠ .dup ∧ rx₁ = rx) ∨ (r = .ok n ∧ rx₁ = rx) ∨
      ∃ a, r = .ok a ∧ Sender rx adhoc n rx₁ a ∧ hasSeq rx.ic m.get = true := by
  split at h
  · cases h; exact .inl ⟨_, rfl, by simp, rfl⟩
  split at h
  · cases h; exact .inr (.inl ⟨rfl, rfl⟩)
  next htype =>
  split at h
  · cases h; exact .inl ⟨_, rfl, by simp, rfl⟩
  split at h
  · split at h
    · cases h; exact .inl ⟨_, rfl, by simp, rfl⟩
    · cases h
      refine .inr (.inr ⟨_, rfl, .member _ rfl, ?_⟩)
      rw [Bool.not_eq_true, bne_eq_false_iff_eq] at htype
      rw [hasSeq, htype, bne_iff_ne.mpr hsta, Bool.true_or]
      rfl
  · cases h; exact .inr (.inl ⟨rfl, rfl⟩)

/-- A frame that is for this network comes from a node of it, or from a new member if
it is a data frame. -/
theorem inputBss_cases (h : inputBss rx adhoc n m = (rx₁, r)) :
    (∃ e, r = .error e ∧ e ≠ .dup ∧ rx₁ = rx) ∨ (r = .ok n ∧ rx₁ = rx) ∨
      ∃ a, r = .ok a ∧ Sender rx adhoc n rx₁ a ∧ hasSeq rx.ic m.get = true := by
  rw [inputBss.eq_def] at h
  cases hop : rx.ic.icOpmode with
  | sta =>
    simp only [hop] at h
    split at h
    · cases h; exact .inl ⟨_, rfl, by simp, rfl⟩
    split at h
    · cases h; exact .inl ⟨_, rfl, by simp, rfl⟩
    · cases h; exact .inr (.inl ⟨rfl, rfl⟩)
  | monitor =>
    simp only [hop] at h
    cases h
    exact .inl ⟨_, rfl, by simp, rfl⟩
  | ibss | ahdemo | hostap =>
    have hsta : rx.ic.icOpmode ≠ .sta := by simp [hop]
    rw [hop] at h
    exact inputBss_other hsta h

/-- What `ieee80211_input` does up to the switch on the type of a frame. -/
inductive FilterMove (rx : Rx ν) (adhoc : Option ν) (n : ν) (m : Mbuf) :
    Rx ν → Except RxDrop ν → Prop where
  | scan : rx.scan = true → sender rx adhoc n m = n → FilterMove rx adhoc n m rx (.ok n)
  | drop {e : RxDrop} : e ≠ .dup → sender rx adhoc n m = n → FilterMove rx adhoc n m rx (.error e)
  | pass : hasSeq rx.ic m.get = false → sender rx adhoc n m = n → FilterMove rx adhoc n m rx (.ok n)
  | refuse {rx₁ : Rx ν} {n₁ : ν} {e : RxDrop} : Sender rx adhoc n rx₁ n₁ →
      sender rx adhoc n m = n₁ → inputDup (rx₁.node n₁) m = .error e →
      FilterMove rx adhoc n m rx₁ (.error e)
  | accept {rx₁ : Rx ν} {n₁ : ν} {ni : NodeRx} : Sender rx adhoc n rx₁ n₁ →
      sender rx adhoc n m = n₁ → rx.scan = false → hasSeq rx.ic m.get = true →
      inputDup (rx₁.node n₁) m = .ok ni → FilterMove rx adhoc n m (rx₁.setNode n₁ ni) (.ok n₁)

theorem Sender.hasSeq (h : Sender rx adhoc n rx₁ n₁) (wh : Wh) :
    hasSeq rx₁.ic wh = Net80211.hasSeq rx.ic wh := by
  cases h with
  | known | member _ _ => rfl

theorem inputFilter_move (h : inputFilter rx adhoc n m = (rx₁, r)) :
    FilterMove rx adhoc n m rx₁ r := by
  have hself : screened rx m = false → sender rx adhoc n m = n := fun hs => by
    rw [sender, hs, if_neg nofun]
  rw [inputFilter] at h
  split at h
  · next hmon => cases h; exact .drop nofun (hself (by simp [screened, hmon]))
  next hmon =>
  split at h
  · next hlen => cases h; exact .drop nofun (hself (by simp [screened, Nat.not_le.mpr hlen]))
  next hlen =>
  split at h
  · next hver => cases h; exact .drop nofun (hself (by simp [screened, bne_iff_ne.mp hver]))
  next hver =>
  split at h
  · next hscan => cases h; exact .scan hscan (hself (by simp [screened, hscan]))
  next hscan =>
  have hscreen : screened rx m = true := by
    simp only [screened, Bool.and_eq_true, decide_eq_true_eq, beq_iff_eq, Bool.not_eq_true']
    exact ⟨⟨⟨hmon, Nat.not_lt.mp hlen⟩, by simpa using hver⟩, by simpa using hscan⟩
  split at h
  · next rx2 e heq =>
    have hsend : sender rx adhoc n m = n := by rw [sender, if_pos hscreen, heq]
    cases h
    rcases inputBss_cases heq with ⟨e', he, hdup, rfl⟩ | ⟨he, _⟩ | ⟨a, he, _⟩
    · cases he
      exact .drop hdup hsend
    · cases he
    · cases he
  · next rx2 n2 heq =>
    have hsend : sender rx adhoc n m = n2 := by rw [sender, if_pos hscreen, heq]
    have hs : Sender rx adhoc n rx2 n2 ∧
        (Net80211.hasSeq rx.ic m.get = false → rx2 = rx ∧ n2 = n) := by
      rcases inputBss_cases heq with ⟨e, he, _⟩ | ⟨he, rfl⟩ | ⟨a, he, ha, hseq⟩
      · cases he
      · cases he
        exact ⟨.known, fun _ => ⟨rfl, rfl⟩⟩
      · cases he
        exact ⟨ha, fun hno => by rw [hseq] at hno; cases hno⟩
    rw [hs.1.hasSeq] at h
    split at h
    · next hseq =>
      split at h
      · next hdup => cases h; exact .refuse hs.1 hsend hdup
      · next hdup => cases h; exact .accept hs.1 hsend (by simpa using hscan) hseq hdup
    · next hseq =>
      cases h
      obtain ⟨rfl, rfl⟩ := hs.2 (by simpa using hseq)
      exact .pass (by simpa using hseq) hsend

/-- A frame is refused as a duplicate where it has the Retry bit and its number is not
above the last one. -/
theorem inputDup_error {ni : NodeRx} {e : RxDrop} (h : inputDup ni m = .error e) :
    e = .tooshort ∨ e = .dup ∧ (m.get 1 &&& fc1Retry != 0) = true ∧
      isDup (ni.niRxseqs (rxTid m.get)) (whSeq m.get) = true := by
  rw [inputDup] at h
  split at h
  · cases h; exact .inl rfl
  · dsimp only at h
    split at h
    · next hdup =>
      cases h
      exact .inr ⟨rfl, Bool.and_eq_true_iff.mp hdup⟩
    · cases h

theorem inputDup_ok {ni ni' : NodeRx} (h : inputDup ni m = .ok ni') :
    ((m.get 1 &&& fc1Retry != 0) && isDup (ni.niRxseqs (rxTid m.get)) (whSeq m.get)) = false ∧
      ni'.niRxseqs = update ni.niRxseqs (rxTid m.get) (whSeq m.get) := by
  rw [inputDup] at h
  split at h
  · cases h
  · dsimp only at h
    split at h
    · cases h
    · next hdup =>
      cases h
      exact ⟨by simpa using hdup, rfl⟩

/-- The places of the last frames, by node and traffic identifier. -/
abbrev Lasts (ν : Type) := ν → Nat → Option SeqPos

/-- A node other than the one that was looked up is a new one. -/
def Lasts.enter (last : Lasts ν) (n n₁ : ν) : Lasts ν :=
  if n₁ = n then last else update last n₁ fun _ => none

def Lasts.note (last : Lasts ν) (n : ν) (tid : Nat) (p : SeqPos) : Lasts ν :=
  update last n (update (last n) tid (some p))

/-- The nodes hold the numbers of the last frames. -/
def Slots (rx : Rx ν) (last : Lasts ν) : Prop :=
  ∀ n t, (rx.node n).niRxseqs t = slotOf (last n t)

variable {last : Lasts ν}

omit [DecidableEq ν] in
theorem Slots.same (h : Slots rx last) (hs : SameSeqs rx rx₁) : Slots rx₁ last :=
  fun n t => by rw [hs n, h n t]

/-- A cleared node is one that nothing was accepted from. -/
theorem Slots.fresh (h : Slots rx last) (hnode : rx₁.node = update rx.node n nodeRxInit) :
    Slots rx₁ (update last n fun _ => none) := by
  intro n' t
  rw [hnode]
  by_cases hn : n' = n
  · subst hn
    rw [update_self, update_self]
    rfl
  · rw [update_of_ne hn, update_of_ne hn]
    exact h n' t

theorem Slots.enter (h : Slots rx last) (hs : Sender rx adhoc n rx₁ n₁) (hadhoc : adhoc ≠ some n) :
    Slots rx₁ (last.enter n n₁) := by
  cases hs with
  | known =>
    rw [Lasts.enter, if_pos rfl]
    exact h
  | member macaddr ha =>
    have hne : n₁ ≠ n := fun heq => hadhoc (by rw [ha, heq])
    rw [Lasts.enter, if_neg hne]
    exact h.fresh rfl

theorem Slots.note (h : Slots rx last) {ni : NodeRx} {t : Nat} {p : SeqPos}
    (hni : ni.niRxseqs = update (rx.node n).niRxseqs t p.num) :
    Slots (rx.setNode n ni) (last.note n t p) := by
  intro n' t'
  have hnode : (rx.setNode n ni).node = update rx.node n ni := rfl
  rw [hnode, Lasts.note]
  by_cases hn : n' = n
  · subst hn
    rw [update_self, update_self, hni]
    by_cases ht : t' = t
    · subst ht
      rw [update_self, update_self]
      rfl
    · rw [update_of_ne ht, update_of_ne ht]
      exact h n' t'
  · rw [update_of_ne hn, update_of_ne hn]
    exact h n' t'

/-! ## Whole runs -/

/-- The frame without the checksum, as `ieee80211_input` goes on with it. -/
def trimCrc (m : Mbuf) (ms : List Mbuf) : Mbuf × List Mbuf :=
  match (if m.mFlags &&& mHasfcs != 0 then mAdj (m :: ms) (-4) else m :: ms) with
  | [] => (m, ms)
  | m :: ms => ({ m with mFlags := m.mFlags &&& ~~~mHasfcs }, ms)

theorem trimCrc_cons (m : Mbuf) (ms : List Mbuf) :
    ∃ m' ms', (if m.mFlags &&& mHasfcs != 0 then mAdj (m :: ms) (-4) else m :: ms) = m' :: ms' ∧
      m'.get = m.get := by
  split
  · obtain ⟨m', ms', heq, hget, _⟩ := mAdj_tail_head m ms (show (-4 : Int) < 0 by decide)
    exact ⟨m', ms', heq, hget⟩
  · exact ⟨m, ms, rfl, rfl⟩

theorem trimCrc_get (m : Mbuf) (ms : List Mbuf) : (trimCrc m ms).1.get = m.get := by
  obtain ⟨m', ms', heq, hget⟩ := trimCrc_cons m ms
  rw [trimCrc, heq]
  exact hget

/-- A frame is dropped as the filter says, and what follows the filter drops none as a
duplicate and keeps the numbers. -/
theorem input_cases {ms : List Mbuf} {res : RxResult ν}
    (h : input E stack rx adhoc n m ms = some (rx', res)) :
    ∃ rx₁ r, inputFilter rx adhoc n (trimCrc m ms).1 = (rx₁, r) ∧ SameSeqs rx₁ rx' ∧
      (∀ e, r = .error e → res = .dropped e) ∧ (res = .dropped .dup → r = .error .dup) := by
  obtain ⟨m', ms', heq, _⟩ := trimCrc_cons m ms
  obtain ⟨⟨rx₁, r⟩, hf⟩ : ∃ x, inputFilter rx adhoc n (trimCrc m ms).1 = x := ⟨_, rfl⟩
  refine ⟨rx₁, r, hf, ?_⟩
  rw [trimCrc, heq] at hf
  rw [input, heq] at h
  simp only [hf] at h
  cases r with
  | error e =>
    cases h
    exact ⟨.of_node rfl, fun e' he => by cases he; rfl, fun hd => by cases hd; rfl⟩
  | ok n₁ =>
    refine ⟨?_, nofun, ?_⟩
    · dsimp only at h
      split at h
      · split at h
        · cases h
        · next hdata =>
          cases h
          exact (inputData_seqs hdata).trans (.of_node rfl)
      split at h
      · cases h; exact .of_node rfl
      split at h
      · cases h; exact .of_node rfl
      · cases h; exact .of_node rfl
    · rintro rfl
      dsimp only at h
      split at h
      · split at h <;> cases h
      split at h
      · cases h
      split at h <;> cases h

/-- A frame and its place in what its transmitter sends. -/
structure Sent where
  m : Mbuf
  ms : List Mbuf
  pos : SeqPos
  num_eq : whSeq m.get = pos.num

/-- The first mbuf as the filter sees it. -/
def Sent.head (fr : Sent) : Mbuf := (trimCrc fr.m fr.ms).1

def Sent.retry (fr : Sent) : Bool := fr.m.get 1 &&& fc1Retry != 0

theorem Sent.head_get (fr : Sent) : fr.head.get = fr.m.get := trimCrc_get fr.m fr.ms

/-- The interface, and the places of the last frames that it accepted. -/
structure DupRun (ν : Type) where
  rx : Rx ν
  last : Lasts ν

/-- A frame comes in; a node is set up; what a node holds besides the numbers changes,
and what the interface holds besides the nodes. -/
inductive DupOp (ν : Type) where
  | frame (stack : Nat → UInt8) (adhoc : Option ν) (n : ν) (fr : Sent)
  | alloc (n : ν)
  | node (n : ν) (ni : NodeRx)
  | host (rx : Rx ν)

/-- The places after a frame. What a station gets for a group is not retransmitted, and
does not count. -/
def noteFrame (s : DupRun ν) (adhoc : Option ν) (n : ν) (fr : Sent) : Lasts ν :=
  let n₁ := sender s.rx adhoc n fr.head
  let last := s.last.enter n n₁
  match (inputFilter s.rx adhoc n fr.head).2 with
  | .ok _ => if hasSeq s.rx.ic fr.m.get then last.note n₁ (rxTid fr.m.get) fr.pos else last
  | .error _ => last

def dupStep (E : BlockCipher) (s : DupRun ν) : DupOp ν → Option (DupRun ν)
  | .frame stack adhoc n fr =>
    if adhoc = some n then none
    else
      match input E stack s.rx adhoc n fr.m fr.ms with
      | none => none
      | some (rx, _) => some { rx, last := noteFrame s adhoc n fr }
  | .alloc n =>
    some { rx := s.rx.setNode n nodeRxInit, last := update s.last n fun _ => none }
  | .node n ni =>
    some { s with rx := s.rx.setNode n { ni with niRxseqs := (s.rx.node n).niRxseqs } }
  | .host rx => some { s with rx := { rx with node := s.rx.node } }

/-- No frame has come in yet. -/
def dupInit (s : DupRun ν) : Prop :=
  (∀ n, (s.rx.node n).niRxseqs = fun _ => 0) ∧ s.last = fun _ _ => none

/-- Frames come in while the interface does not scan. -/
def NotScanning (s : DupRun ν) : DupOp ν → Prop
  | .frame _ _ _ _ => s.rx.scan = false
  | _ => True

instance decidableNotScanning (s : DupRun ν) (a : DupOp ν) : Decidable (NotScanning s a) := by
  cases a <;> unfold NotScanning <;> infer_instance

/-- The last accepted frame of the transmitter and the traffic identifier of a frame. -/
def DupRun.lastOf (s : DupRun ν) (adhoc : Option ν) (n : ν) (fr : Sent) : Option SeqPos :=
  let n₁ := sender s.rx adhoc n fr.head
  s.last.enter n n₁ n₁ (rxTid fr.m.get)

variable {s : DupRun ν}

/-- The number that a frame is compared with in the filter. -/
theorem Slots.lastOf (hslots : Slots s.rx s.last) (hadhoc : adhoc ≠ some n) {fr : Sent}
    (hs : Sender s.rx adhoc n rx₁ n₁) (hn : sender s.rx adhoc n fr.head = n₁) :
    (rx₁.node n₁).niRxseqs (rxTid fr.head.get) = slotOf (s.lastOf adhoc n fr) := by
  rw [hslots.enter hs hadhoc, DupRun.lastOf, hn, fr.head_get]

theorem dupStep_slots {s' : DupRun ν} {a : DupOp ν} (hslots : Slots s.rx s.last)
    (hok : NotScanning s a) (hs : dupStep E s a = some s') : Slots s'.rx s'.last := by
  cases a with
  | frame stack adhoc n fr =>
    rw [dupStep] at hs
    split at hs
    · cases hs
    next hadhoc =>
    split at hs
    · cases hs
    next rx' res hin =>
    cases hs
    obtain ⟨rx₁, r, hf, hsame, _⟩ := input_cases hin
    refine Slots.same ?_ hsame
    have hmove : FilterMove s.rx adhoc n fr.head rx₁ r := inputFilter_move hf
    have hresult : (inputFilter s.rx adhoc n fr.head).2 = r := congrArg Prod.snd hf
    have hself : s.last.enter n n = s.last := if_pos rfl
    rw [noteFrame, hresult]
    cases hmove with
    | scan hscan => rw [show s.rx.scan = false from hok] at hscan; cases hscan
    | drop _ hn =>
      rw [hn, hself]
      exact hslots
    | pass hno hn =>
      rw [fr.head_get] at hno
      rw [hn, hself]
      simp only [hno, Bool.false_eq_true, if_false]
      exact hslots
    | refuse hsend hn _ =>
      rw [hn]
      exact hslots.enter hsend hadhoc
    | accept hsend hn _ hseq hdup =>
      rw [fr.head_get] at hseq
      rw [hn]
      simp only [hseq, if_true]
      refine (hslots.enter hsend hadhoc).note ?_
      rw [(inputDup_ok hdup).2, fr.head_get, fr.num_eq]
  | alloc n =>
    cases hs
    exact hslots.fresh rfl
  | node n ni =>
    cases hs
    exact hslots.same (.update { ni with niRxseqs := (s.rx.node n).niRxseqs } rfl rfl)
  | host rx =>
    cases hs
    exact hslots.same (.of_node rfl)

theorem dupStep_run (hr : Reach dupInit (dupStep E) NotScanning s) : Slots s.rx s.last := by
  have hinit : ∀ s : DupRun ν, dupInit s → Slots s.rx s.last := by
    rintro s ⟨hseqs, hlast⟩ n t
    rw [hseqs n, hlast]
    rfl
  induction hr with
  | init h => exact hinit _ h
  | step _ hok hs ih => exact dupStep_slots ih hok hs

/-- What the filter makes of a frame depends on the last accepted one only. -/
theorem input_dup (hslots : Slots s.rx s.last) {fr : Sent} {res : RxResult ν}
    (hadhoc : adhoc ≠ some n) (hin : input E stack s.rx adhoc n fr.m fr.ms = some (rx', res)) :
    (res = .dropped .dup → fr.retry = true ∧
      isDup (slotOf (s.lastOf adhoc n fr)) fr.pos.num = true) ∧
    (s.rx.scan = false → hasSeq s.rx.ic fr.m.get = true → fr.retry = true →
      isDup (slotOf (s.lastOf adhoc n fr)) fr.pos.num = true → ∃ e, res = .dropped e) := by
  obtain ⟨rx₁, r, hf, _, herr, hdrop⟩ := input_cases hin
  have hmove : FilterMove s.rx adhoc n fr.head rx₁ r := inputFilter_move hf
  constructor
  · intro hres
    cases hmove with
    | scan _ _ | pass _ _ | accept _ _ _ _ _ => cases hdrop hres
    | drop hne _ => cases hdrop hres; exact absurd rfl hne
    | refuse hsend hn hdup =>
      cases hdrop hres
      rcases inputDup_error hdup with he | ⟨_, hretry, hd⟩
      · cases he
      · rw [hslots.lastOf hadhoc hsend hn, fr.head_get, fr.num_eq] at hd
        rw [fr.head_get] at hretry
        exact ⟨hretry, hd⟩
  · intro hscan hseq hretry hd
    cases hmove with
    | scan hyes _ => rw [hscan] at hyes; cases hyes
    | drop _ _ | refuse _ _ _ => exact ⟨_, herr _ rfl⟩
    | pass hno _ => rw [fr.head_get, hseq] at hno; cases hno
    | accept hsend hn _ _ hok =>
      have hno := (inputDup_ok hok).1
      rw [hslots.lastOf hadhoc hsend hn, fr.head_get, fr.num_eq, hd, Bool.and_true] at hno
      rw [Sent.retry, hno] at hretry
      cases hretry

/-- In a run without scanning, a new frame is discarded as a duplicate only where it
has the Retry bit and is mistaken for an old one, and then it is discarded; a
repetition of the last accepted frame is discarded. -/
theorem dup_filter {s : DupRun ν} (hr : Reach dupInit (dupStep E) NotScanning s)
    {adhoc : Option ν} {n : ν} (fr : Sent) {rx' : Rx ν} {res : RxResult ν} (hadhoc : adhoc ≠ some n)
    (hin : input E stack s.rx adhoc n fr.m fr.ms = some (rx', res)) :
    (Follows (s.lastOf adhoc n fr) fr.pos →
      (res = .dropped .dup → fr.retry = true ∧ Mistaken (s.lastOf adhoc n fr) fr.pos) ∧
      (s.rx.scan = false → hasSeq s.rx.ic fr.m.get = true → fr.retry = true →
        Mistaken (s.lastOf adhoc n fr) fr.pos → ∃ e, res = .dropped e)) ∧
    (s.lastOf adhoc n fr = some fr.pos → s.rx.scan = false → hasSeq s.rx.ic fr.m.get = true →
      fr.retry = true → ∃ e, res = .dropped e) := by
  obtain ⟨hdup, hrefuse⟩ := input_dup (dupStep_run hr) hadhoc hin
  refine ⟨fun hnew => ?_, fun hlast hscan hseq hretry => ?_⟩
  · rw [isDup_follows hnew] at hdup hrefuse
    exact ⟨hdup, hrefuse⟩
  · refine hrefuse hscan hseq hretry ?_
    rw [hlast]
    exact isDup_self _

/-- A frame from the access point of `openStation`, with its number in two octets. -/
def apSent (retry : Bool) (seqLo seqHi : UInt8) (pos : SeqPos)
    (h : seqLo.toUInt16 ||| seqHi.toUInt16 <<< 8 = pos.num) : Sent :=
  { m := packet 0 ((apOctets false seqLo seqHi (llcSnap ++ [8, 0, 1])).set 1
      (if retry then fc1DirFromds ||| fc1Retry else fc1DirFromds))
    ms := [], pos
    num_eq := by rw [whSeq, packet_get, packet_get]; exact h }

/-- Why a frame was dropped. -/
def RxResult.why {ν : Type} : RxResult ν → Option RxDrop
  | .dropped e => some e
  | _ => none

theorem RxResult.eq_dropped {ν : Type} {res : RxResult ν} {e : RxDrop} (h : res.why = some e) :
    res = .dropped e := by
  cases res with
  | dropped _ => cases h; rfl
  | data | management _ _ | control _ _ => cases h

def dupStation : DupRun Unit := { rx := openStation, last := fun _ _ => none }

/-- After frame 5, frame 6 with the Retry bit is not discarded as a duplicate, and frame
5 with the Retry bit is discarded. -/
theorem dup_filter_sample : ∃ s : DupRun Unit, s.last () 0 = some ⟨5, 0⟩ ∧
      (∀ rx' res, input (fun _ b => b) (fun _ => 0) s.rx none ()
        (apSent true 0x60 0 ⟨6, 0⟩ rfl).m [] = some (rx', res) → res ≠ .dropped .dup) ∧
      ∀ rx' res, input (fun _ b => b) (fun _ => 0) s.rx none ()
        (apSent true 0x50 0 ⟨5, 0⟩ rfl).m [] = some (rx', res) → ∃ e, res = .dropped e := by
  obtain ⟨s, hr, hlast, h6, h5, hscan, hseq⟩ : ∃ s : DupRun Unit,
      Reach dupInit (dupStep fun _ b => b) NotScanning s ∧ s.last () 0 = some ⟨5, 0⟩ ∧
      s.lastOf none () (apSent true 0x60 0 ⟨6, 0⟩ rfl) = some ⟨5, 0⟩ ∧
      s.lastOf none () (apSent true 0x50 0 ⟨5, 0⟩ rfl) = some ⟨5, 0⟩ ∧ s.rx.scan = false ∧
      hasSeq s.rx.ic (apSent true 0x50 0 ⟨5, 0⟩ rfl).m.get = true :=
    Reach.of_run [.frame (fun _ => 0) none () (apSent false 0x50 0 ⟨5, 0⟩ rfl)]
      (show dupInit dupStation from ⟨fun _ => rfl, rfl⟩) (by decide +kernel) (by decide +kernel)
  have hadhoc : (none : Option Unit) ≠ some () := nofun
  refine ⟨s, hlast, fun rx' res hin hres => ?_, fun rx' res hin => ?_⟩
  · obtain ⟨hnew, _⟩ := dup_filter hr (apSent true 0x60 0 ⟨6, 0⟩ rfl) hadhoc hin
    rw [h6] at hnew
    exact absurd ((hnew (.inl ⟨by decide, by decide⟩)).1 hres).2 (by rw [Mistaken]; decide)
  · exact (dup_filter hr (apSent true 0x50 0 ⟨5, 0⟩ rfl) hadhoc hin).2 h5 hscan hseq rfl

/-- Frame 4094 was accepted, 4095 is lost, and the first that comes in of frame 4096 is
a retransmission: it is discarded. And while the interface scans, a repetition of the
last accepted frame is not. -/
theorem new_frame_discarded : (∃ s : DupRun Unit, Reach dupInit (dupStep fun _ b => b) Any s ∧
      s.lastOf none () (apSent true 0 0 ⟨4096, 0⟩ rfl) = some ⟨4094, 0⟩ ∧
      Follows (some ⟨4094, 0⟩) (apSent true 0 0 ⟨4096, 0⟩ rfl).pos ∧
      ∃ rx', input (fun _ b => b) (fun _ => 0) s.rx none () (apSent true 0 0 ⟨4096, 0⟩ rfl).m [] =
        some (rx', .dropped .dup)) ∧ ∃ s : DupRun Unit, Reach dupInit (dupStep fun _ b => b) Any s ∧
      s.lastOf none () (apSent true 0x50 0 ⟨5, 0⟩ rfl) = some ⟨5, 0⟩ ∧
      ∃ rx' res, input (fun _ b => b) (fun _ => 0) s.rx none ()
      (apSent true 0x50 0 ⟨5, 0⟩ rfl).m [] =
        some (rx', res) ∧ res.why = none := by
  constructor
  · obtain ⟨s, hr, hlast, hdup⟩ : ∃ s : DupRun Unit, Reach dupInit (dupStep fun _ b => b) Any s ∧
        s.lastOf none () (apSent true 0 0 ⟨4096, 0⟩ rfl) = some ⟨4094, 0⟩ ∧
        (input (fun _ b => b) (fun _ => 0) s.rx none () (apSent true 0 0 ⟨4096, 0⟩ rfl).m []).map
          (fun r => r.2.why) = some (some .dup) :=
      Reach.of_run [.frame (fun _ => 0) none () (apSent false 0xe0 0xff ⟨4094, 0⟩ rfl)]
        (show dupInit dupStation from ⟨fun _ => rfl, rfl⟩) (runOk_any _ _) (by decide +kernel)
    obtain ⟨⟨rx', res⟩, hin, hwhy⟩ := map_eq_some_iff.mp hdup
    cases RxResult.eq_dropped hwhy
    exact ⟨s, hr, hlast, .inl ⟨by decide, by decide⟩, rx', hin⟩
  · obtain ⟨s, hr, hlast, hres⟩ : ∃ s : DupRun Unit, Reach dupInit (dupStep fun _ b => b) Any s ∧
        s.lastOf none () (apSent true 0x50 0 ⟨5, 0⟩ rfl) = some ⟨5, 0⟩ ∧
        (input (fun _ b => b) (fun _ => 0) s.rx none () (apSent true 0x50 0 ⟨5, 0⟩ rfl).m []).map
          (fun r => r.2.why) = some none :=
      Reach.of_run [.frame (fun _ => 0) none () (apSent false 0x50 0 ⟨5, 0⟩ rfl),
          .host { openStation with scan := true }]
        (show dupInit dupStation from ⟨fun _ => rfl, rfl⟩) (runOk_any _ _) (by decide +kernel)
    obtain ⟨⟨rx', res⟩, hin, hwhy⟩ := map_eq_some_iff.mp hres
    exact ⟨s, hr, hlast, rx', res, hin, hwhy⟩

end Net80211
