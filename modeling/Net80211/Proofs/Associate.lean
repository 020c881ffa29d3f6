import Net80211.Mgmt
import Net80211.Proofs.InputData
import Net80211.Proofs.PortAuth

/-!
# What a call of associate leaves

`freertos_associate` writes the security flags of the interface and the element of the
association request first, and looks up the BSS last. So a call that fails has changed
how the frames of the association that goes on are protected, unless it asked for what
that association has; what the protection of a frame depends on is `SameProtection`.

A call that succeeds asks for `S_AUTH` and leaves the rest to the state machine, which
sends the first frame of an authentication from `S_INIT` and `S_SCAN` only.
-/

namespace Net80211

open Crypto Lib

/-! ## What protection depends on -/

/-- The same answers to what encapsulation and reception ask of the flags. -/
structure SameProtection (fl fl' : IcFlags) : Prop where
  privacy : fl'.privacy = fl.privacy
  wpa1 : fl'.wpa1 = fl.wpa1
  wpa2 : fl'.wpa2 = fl.wpa2
  dropunenc : fl'.dropunenc = fl.dropunenc

variable {ν : Type} {ic : Ic ν} {fl : IcFlags}

/-- The interface with other flags. -/
abbrev Ic.reflag (ic : Ic ν) (fl : IcFlags) : Ic ν := { ic with icFlags := fl }

abbrev Rx.reflag (rx : Rx ν) (fl : IcFlags) : Rx ν := { rx with ic := rx.ic.reflag fl }

theorem encapKey_reflag (h : SameProtection ic.icFlags fl) (n : ν) (eh : EtherHeader) :
    encapKey (ic.reflag fl) n eh = encapKey ic n eh := by
  rw [encapKey, encapKey, Ic.reflag, h.privacy]

theorem encapProtects_reflag (h : SameProtection ic.icFlags fl) (n : ν) (eh : EtherHeader) :
    encapProtects (ic.reflag fl) n eh = encapProtects ic n eh := by
  rw [encapProtects, encapProtects, encapKey_reflag h, Ic.reflag, h.wpa1, h.wpa2]

variable [DecidableEq ν]

theorem fillHeader_reflag (n : ν) (addqos : Bool) (dir : UInt8) (addrs : List UInt8) (m : Mbuf) :
    fillHeader (ic.reflag fl) n addqos dir addrs m =
      ((fillHeader ic n addqos dir addrs m).1, (fillHeader ic n addqos dir addrs m).2.reflag fl) :=
  rfl

theorem encap_reflag (hsame : SameProtection ic.icFlags fl) (h : Heap) (n : ν) (m : Mbuf)
    (ms : List Mbuf) : encap h (ic.reflag fl) n m ms =
      (encap h ic n m ms).map fun r => (r.1, r.2.1.reflag fl, r.2.2) := by
  have haddrs : encapAddrs (ic.reflag fl) n (etherHeader m) = encapAddrs ic n (etherHeader m) := rfl
  rw [encap, encap]
  simp only [encapKey_reflag hsame, encapProtects_reflag hsame, haddrs]
  generalize mbufAdjust h _ _ m ms = adj
  rcases adj with ⟨h1, _ | ms1⟩
  · rfl
  dsimp only
  generalize mPrepend h1 _ _ = pre
  rcases pre with ⟨h2, _ | _ | ⟨m2, ms2⟩⟩
  · rfl
  · rfl
  cases encapAddrs ic n (etherHeader m) with
  | none => rfl
  | some a =>
    dsimp only
    rw [fillHeader_reflag]
    split
    case isTrue =>
      generalize fragment h2 _ ms2 _ _ _ = frag
      rcases frag with _ | ⟨h3, _ | frames⟩ <;> rfl
    case isFalse => rfl

theorem bridge_reflag (rx : Rx ν) (m : Mbuf) (ms : List Mbuf) :
    bridge (rx.reflag fl) m ms = ((bridge rx m ms).1.reflag fl, (bridge rx m ms).2) := by
  rw [bridge, bridge]
  split
  case isTrue =>
    generalize mCopypacket rx.heap m = copy
    rcases copy with ⟨h, _ | m1⟩ <;> rfl
  case isFalse =>
    generalize rx.icSta.find? _ = sta
    cases sta with
    | none => rfl
    | some n => simp only []; split <;> rfl

theorem deliverData_reflag (fl : IcFlags) (rx : Rx ν) (m : Mbuf) (ms : List Mbuf) :
    deliverData (rx.reflag fl) m ms = (deliverData rx m ms).reflag fl := by
  simp only [deliverData, bridge_reflag]
  cases decide (rx.ic.icOpmode = .hostap) && !rx.nobridge with
  | true =>
    generalize bridge rx m ms = r
    rcases r with ⟨rx', _ | ⟨m', ms'⟩⟩ <;> rfl
  | false => rfl

theorem inputDefrag_reflag (rx : Rx ν) (n : ν) (m : Mbuf) (ms : List Mbuf) (hdrspace : Nat) :
    inputDefrag (rx.reflag fl) n m ms hdrspace =
      ((inputDefrag rx n m ms hdrspace).1.reflag fl, (inputDefrag rx n m ms hdrspace).2) := by
  rw [inputDefrag, inputDefrag]
  split <;> rfl

variable {rx : Rx ν}

theorem inputDeliver_reflag (hsame : SameProtection rx.ic.icFlags fl) (n : ν) (protect : Bool)
    (m : Mbuf) (ms : List Mbuf) (hdrspace : Nat) :
    inputDeliver (rx.reflag fl) n protect m ms hdrspace =
      ((inputDeliver rx n protect m ms hdrspace).1.reflag fl,
        (inputDeliver rx n protect m ms hdrspace).2) := by
  rw [inputDeliver, inputDeliver]
  generalize decap rx.heap m ms hdrspace = d
  rcases d with ⟨h, _ | _ | ⟨m', ms'⟩⟩
  · rfl
  · rfl
  have hport : portPasses (rx.ic.reflag fl) n protect (etherHeader m') =
      portPasses rx.ic n protect (etherHeader m') := by
    rw [portPasses, portPasses, hsame.dropunenc]
  have hdeliver := deliverData_reflag fl { rx with heap := h } m' ms'
  simp only [hport]
  split
  case isTrue => rw [← hdeliver]
  case isFalse => rfl

theorem inputMsdu_reflag (hsame : SameProtection rx.ic.icFlags fl) (n : ν) (protect : Bool)
    (m : Mbuf) (ms : List Mbuf) (hdrspace : Nat) :
    inputMsdu (rx.reflag fl) n protect m ms hdrspace =
      ((inputMsdu rx n protect m ms hdrspace).1.reflag fl,
        (inputMsdu rx n protect m ms hdrspace).2) := by
  have hflags : (inputDefrag rx n m ms hdrspace).1.ic = rx.ic := by
    rw [inputDefrag]; split <;> rfl
  rw [inputMsdu, inputMsdu, inputDefrag_reflag]
  revert hflags
  generalize inputDefrag rx n m ms hdrspace = d
  intro hflags
  rcases d with ⟨rx', _ | _ | ⟨m', ms'⟩⟩
  · rfl
  · rfl
  · exact inputDeliver_reflag (hflags.symm ▸ hsame) n protect m' ms' hdrspace

theorem inputDataOpmode_reflag (fl : IcFlags) (rx : Rx ν) (n : ν) (wh : Wh) :
    inputDataOpmode (rx.reflag fl) n wh =
      ((inputDataOpmode rx n wh).1.reflag fl, (inputDataOpmode rx n wh).2) := by
  rw [inputDataOpmode, inputDataOpmode]
  cases rx.ic.icOpmode <;> try rfl
  -- an access point, by the four checks of the frame
  dsimp only
  repeat' split
  all_goals rfl

theorem inputDataOpmode_ic (rx : Rx ν) (n : ν) (wh : Wh) :
    (inputDataOpmode rx n wh).1.ic = rx.ic := by
  rw [inputDataOpmode]
  cases rx.ic.icOpmode <;> try rfl
  dsimp only
  repeat' split
  all_goals rfl

theorem inputDecrypt_reflag (E : BlockCipher) (stack : Nat → UInt8)
    (hsame : SameProtection rx.ic.icFlags fl) (n : ν) (m : Mbuf) (ms : List Mbuf) (hdrspace : Nat) :
    inputDecrypt E stack (rx.reflag fl) n m ms hdrspace =
      (inputDecrypt E stack rx n m ms hdrspace).map fun r => (r.1.reflag fl, r.2) := by
  rw [inputDecrypt, inputDecrypt]
  simp only [hsame.privacy]
  split
  · rfl
  split
  · rfl
  generalize cryptoDecap E stack rx.heap rx.ic.icKeys n m ms hdrspace = d
  rcases d with _ | ⟨heap, keys, frame, key⟩
  · rfl
  rcases key with _ | s <;> rcases frame with _ | _ | ⟨m', ms'⟩ <;> rfl

theorem inputOpen_reflag (E : BlockCipher) (stack : Nat → UInt8)
    (hsame : SameProtection rx.ic.icFlags fl) (n : ν) (m : Mbuf) (ms : List Mbuf) :
    inputOpen E stack (rx.reflag fl) n m ms =
      (inputOpen E stack rx n m ms).map fun r => (r.1.reflag fl, r.2) := by
  rw [inputOpen, inputOpen]
  generalize pullupTo rx.heap m ms _ = pull
  rcases pull with ⟨h, _ | ⟨m', ms'⟩⟩
  · rfl
  have hic := inputDataOpmode_ic { rx with heap := h } n m'.get
  have hmode := inputDataOpmode_reflag fl { rx with heap := h } n m'.get
  simp only [hmode]
  generalize inputDataOpmode { rx with heap := h } n m'.get = mode at hic ⊢
  rcases mode with ⟨rx', _ | _⟩
  · rfl
  · exact inputDecrypt_reflag E stack (hic.symm ▸ hsame) n m' ms' _

theorem inputOpen_flags {E : BlockCipher} {stack : Nat → UInt8} {rx' : Rx ν}
    {n : ν} {m : Mbuf} {ms : List Mbuf} {o : RxOpened ν}
    (h : inputOpen E stack rx n m ms = some (rx', o)) : rx'.ic.icFlags = rx.ic.icFlags := by
  rw [inputOpen] at h
  generalize pullupTo rx.heap m ms _ = pull at h
  rcases pull with ⟨h1, _ | ⟨m', ms'⟩⟩
  · cases h; rfl
  have hic := inputDataOpmode_ic { rx with heap := h1 } n m'.get
  dsimp only at h
  generalize inputDataOpmode { rx with heap := h1 } n m'.get = mode at hic h
  rcases mode with ⟨rx1, _ | _⟩
  · cases h; exact congrArg Ic.icFlags hic
  · exact (inputDecrypt_same h).flags.trans (congrArg Ic.icFlags hic)

theorem inputData_reflag (E : BlockCipher) (stack : Nat → UInt8)
    (hsame : SameProtection rx.ic.icFlags fl) (n : ν) (m : Mbuf) (ms : List Mbuf) :
    inputData E stack (rx.reflag fl) n m ms =
      (inputData E stack rx n m ms).map fun r => (r.1.reflag fl, r.2) := by
  rw [inputData, inputData, inputOpen_reflag E stack hsame]
  cases hopen : inputOpen E stack rx n m ms with
  | none => rfl
  | some r =>
    rcases r with ⟨rx', frame | ⟨key, m', ms'⟩⟩
    · rfl
    · exact congrArg some
        (inputMsdu_reflag ((inputOpen_flags hopen).symm ▸ hsame) n key.isSome m' ms' _)

namespace Wpa

/-! ## A call that fails -/

variable {p : AssociateParams}

theorem Link.associate_failed {s : Link ν} {mem : Bool} (hfail : (s.associate p mem).2 = -1) :
    (s.associate p mem).1.ic.icFlags = (if p.ssidOk then p.flags else s.ic.icFlags) ∧
      (s.associate p mem).1.icOptIe =
        if p.ssidOk && !(p.optIe.isSome && !mem) then p.optIe else s.icOptIe := by
  revert hfail
  rw [Link.associate]
  cases p.ssidOk with
  | false => simp
  | true =>
    simp only [if_true, Bool.true_and]
    cases p.optIe.isSome && !mem with
    | true => simp
    | false =>
      cases p.bssid with
      | none => simp
      | some bssid =>
        dsimp only
        generalize findNode _ bssid = n
        cases n <;> simp

/-- The parameters ask for the protection of an association with the flags `fl`: some
cipher, the same drop rule, and an element of the same kind. -/
structure AsksSame (p : AssociateParams) (fl : IcFlags) : Prop where
  cipher : p.pairwiseSuite ≠ .none ∨ p.groupSuite ≠ .none
  drop : p.dropUnencrypted = fl.dropunenc
  wpa1 : fl.wpa1 = true ↔ ∃ b bs, p.wpaIe = some (b :: bs) ∧ b ≠ eidRsn
  wpa2 : fl.wpa2 = true ↔ ∃ b bs, p.wpaIe = some (b :: bs) ∧ b = eidRsn

theorem AssociateParams.optIe_any (p : AssociateParams) (f : UInt8 → Prop) [DecidablePred f] :
    (p.optIe.any fun ie => f (ie.headD 0)) = true ↔ ∃ b bs, p.wpaIe = some (b :: bs) ∧ f b := by
  rw [AssociateParams.optIe]
  rcases p.wpaIe with _ | _ | ⟨b, bs⟩
  · simp
  · simp
  · rw [Option.any_some, decide_eq_true_iff]
    simp

theorem sameProtection_flags (hpriv : fl.privacy = true) :
    SameProtection fl p.flags ↔ AsksSame p fl := by
  have hcipher : p.privacy = true ↔ p.pairwiseSuite ≠ .none ∨ p.groupSuite ≠ .none := by
    simp [AssociateParams.privacy]
  have hwpa1 := p.optIe_any (· ≠ eidRsn)
  have hwpa2 := p.optIe_any (· = eidRsn)
  constructor
  · intro h
    exact ⟨hcipher.mp (h.privacy.trans hpriv), h.dropunenc, by rw [← h.wpa1]; exact hwpa1,
      by rw [← h.wpa2]; exact hwpa2⟩
  · intro h
    exact ⟨(hcipher.mpr h.cipher).trans hpriv.symm, Bool.eq_iff_iff.mpr (hwpa1.trans h.wpa1.symm),
      Bool.eq_iff_iff.mpr (hwpa2.trans h.wpa2.symm), h.drop⟩

/-- A call of `freertos_associate` fails on a protected link. The link keeps its flags
and its element, and every data frame goes out and comes in as it would have without
the call, if and only if the call is refused for its SSID, or asks for the protection
and the element that the link has. -/
theorem failed_associate_keeps (s : Link ν) (p : AssociateParams) (mem : Bool)
    (hpriv : s.ic.icFlags.privacy = true) (hfail : (s.associate p mem).2 = -1) :
    (SameProtection s.ic.icFlags (s.associate p mem).1.ic.icFlags ∧
      (s.associate p mem).1.icOptIe = s.icOptIe ∧
      (∀ (ic : Ic ν) (h : Heap) (n : ν) (m : Mbuf) (ms : List Mbuf), ic.icFlags = s.ic.icFlags →
        encap h (ic.reflag (s.associate p mem).1.ic.icFlags) n m ms =
          (encap h ic n m ms).map fun r =>
            (r.1, r.2.1.reflag (s.associate p mem).1.ic.icFlags, r.2.2)) ∧
      (∀ (E : BlockCipher) (stack : Nat → UInt8) (rx : Rx ν) (n : ν)
          (m : Mbuf) (ms : List Mbuf), rx.ic.icFlags = s.ic.icFlags →
        inputData E stack (rx.reflag (s.associate p mem).1.ic.icFlags) n m ms =
          (inputData E stack rx n m ms).map fun r =>
            (r.1.reflag (s.associate p mem).1.ic.icFlags, r.2))) ↔ (p.ssidOk = false ∨
        AsksSame p s.ic.icFlags ∧ (p.optIe.isSome = true ∧ mem = false ∨ p.optIe = s.icOptIe)) := by
  obtain ⟨hflags, hie⟩ := Link.associate_failed hfail
  rw [hflags, hie]
  cases hssid : p.ssidOk with
  | false =>
    have hsame : SameProtection s.ic.icFlags s.ic.icFlags := ⟨rfl, rfl, rfl, rfl⟩
    simp only [Bool.false_and, Bool.false_eq_true, if_false, true_or, iff_true]
    exact ⟨hsame, trivial, fun ic h n m ms hic => encap_reflag (hic ▸ hsame) h n m ms,
      fun E stack rx n m ms hic => inputData_reflag E stack (hic ▸ hsame) n m ms⟩
  | true =>
    have hcopy : (if (true && !(p.optIe.isSome && !mem)) = true then p.optIe else s.icOptIe) =
        s.icOptIe ↔ p.optIe.isSome = true ∧ mem = false ∨ p.optIe = s.icOptIe := by
      cases p.optIe <;> cases mem <;> simp
    simp only [if_true, hcopy, Bool.true_eq_false, false_or]
    constructor
    · rintro ⟨hsame, hkept, -⟩
      exact ⟨(sameProtection_flags hpriv).mp hsame, hkept⟩
    · rintro ⟨hasks, hkept⟩
      have hsame := (sameProtection_flags hpriv).mpr hasks
      exact ⟨hsame, hkept, fun ic h n m ms hic => encap_reflag (hic ▸ hsame) h n m ms,
        fun E stack rx n m ms hic => inputData_reflag E stack (hic ▸ hsame) n m ms⟩

/-! ## A call that succeeds -/

/-- The call joins a node of the scan table that has the address it was given, and asks
for `S_AUTH`. The state stays. -/
theorem associate_joined {s : Sta ν} {mem : Bool} (hret : (associate s p mem).2 = 0) :
    some ((associate s p mem).1.ic.icNode (associate s p mem).1.ic.icBss).niMacaddr = p.bssid ∧
      (associate s p mem).1.ic.icState = s.ic.icState ∧
      (associate s p mem).1.requests = s.requests ++ [(.auth, -1)] := by
  revert hret
  rw [associate]
  split
  case isFalse => simp
  case isTrue =>
    simp only [associateTarget]
    split
    case h_1 => simp
    case h_2 n htarget =>
      intro _
      split at htarget
      · cases htarget
      cases hbssid : p.bssid with
      | none => rw [hbssid] at htarget; cases htarget
      | some bssid =>
        rw [hbssid] at htarget
        have hmac : (s.ic.icNode n).niMacaddr = bssid := by
          simpa using List.find?_some htarget
        refine ⟨?_, rfl, rfl⟩
        by_cases hn : n = s.ic.icBss
        · subst hn; simp [staJoin, newState, copyBss, Ic.setNode, hmac]
        · simp [staJoin, newState, copyBss, Ic.setNode, Function.update_of_ne hn, hmac]

/-- The first frame of an authentication with `bssid`. -/
structure FirstAuth (bssid : Option (List UInt8)) (f : MgmtFrame ν) : Prop where
  fc0 : f.iFc0 = 0xb0
  addr1 : some f.iAddr1 = bssid
  seq : (f.body.drop 2).take 2 = htole16 1

omit [DecidableEq ν] in
theorem newstateMgtq_auth (ic : Ic ν) (d : MgmtData ν) (mgtq : List (MgmtFrame ν)) :
    (∃ f, newstateMgtq ic d mgtq .auth (-1) true = mgtq ++ [f] ∧
        FirstAuth (some (ic.icNode ic.icBss).niMacaddr) f) ↔
      ic.icState = .init ∨ ic.icState = .scan := by
  have hsends : newstateSends ic .auth (-1) =
      if ic.icState = .init ∨ ic.icState = .scan then [.auth 1] else [] := by
    cases hs : ic.icState <;> simp [newstateSends, hs, fc0SubtypeAuth, fc0SubtypeDeauth]
  constructor
  · rintro ⟨f, hf, -⟩
    by_contra hold
    simp [newstateMgtq, hsends, hold] at hf
  · intro hold
    refine ⟨mgmtOutput ic ic.icBss 0xb0 (authBody ic (d.niChallenge ic.icBss) 1), ?_, rfl, rfl, rfl⟩
    simp [newstateMgtq, hsends, hold, mgmtBody]

/-- `freertos_associate` succeeds, and the transition it asks for is carried out. It
queues the first authentication frame for the BSS if and only if the state was
`S_INIT` or `S_SCAN`. -/
theorem associate_sends_auth (s : Sta ν) (p : AssociateParams) (mem : Bool) (d : MgmtData ν)
    (mgtq : List (MgmtFrame ν)) (hret : (associate s p mem).2 = 0) :
    (associate s p mem).1.requests = s.requests ++ [(.auth, -1)] ∧
      ((∃ f, newstateMgtq (associate s p mem).1.ic d mgtq .auth (-1) true = mgtq ++ [f] ∧
          FirstAuth p.bssid f) ↔ s.ic.icState = .init ∨ s.ic.icState = .scan) := by
  obtain ⟨hmac, hstate, hreq⟩ := associate_joined hret
  refine ⟨hreq, ?_⟩
  rw [← hmac, newstateMgtq_auth, hstate]

/-- A network behind `n`, with CCMP and an RSN element or open. -/
def assocSample (n : UInt8) (protect : Bool) : AssociateParams :=
  { ssid := some [97], bssid := some (portSampleAddr n)
    wpaIe := if protect then some [48] else none
    pairwiseSuite := if protect then .ccmp else .none
    groupSuite := if protect then .ccmp else .none
    dropUnencrypted := protect }

def linkSample : Link (Fin 3) :=
  { portSample with
    ic := { portSample.ic with icState := .run, icFlags := ⟨true, false, true, true, true⟩ }
    icOptIe := some [48] }

/-- A frame that is no EAPOL frame. -/
def assocSampleHeader : EtherHeader :=
  { etherDhost := portSampleAddr 8, etherShost := portSampleAddr 4, etherType := [8, 0] }

theorem failed_associate_keeps_sample : (linkSample.associate (assocSample 9 true) true).2 = -1 ∧
      SameProtection linkSample.ic.icFlags
        (linkSample.associate (assocSample 9 true) true).1.ic.icFlags ∧
      (linkSample.associate (assocSample 9 true) true).1.icOptIe = linkSample.icOptIe := by
  have hfail : (linkSample.associate (assocSample 9 true) true).2 = -1 := by decide
  have hasks : AsksSame (assocSample 9 true) linkSample.ic.icFlags :=
    ⟨.inl (by decide), rfl, by simp [linkSample, assocSample, eidRsn],
      by simp [linkSample, assocSample, eidRsn]⟩
  have hkeeps := (failed_associate_keeps linkSample (assocSample 9 true) true rfl hfail).mpr
    (.inr ⟨hasks, .inr rfl⟩)
  exact ⟨hfail, hkeeps.1, hkeeps.2.1⟩

/-- A station in `S_RUN` is asked to join an open network that is not in its scan table.
The call fails, the element is gone, frames to the access point go out in the clear and
clear ones pass the port. -/
theorem failed_associate_clears :
    ∃ s : Sta (Fin 3), Reach staInit staStep Any s ∧ s.ic.icState = .run ∧
      s.ic.icFlags.privacy = true ∧
      ((Link.mk s (some [48])).associate (assocSample 9 false) true).2 = -1 ∧
      ((Link.mk s (some [48])).associate (assocSample 9 false) true).1.icOptIe = none ∧
      encapProtects s.ic s.ic.icBss assocSampleHeader = true ∧
      encapProtects ((Link.mk s (some [48])).associate (assocSample 9 false) true).1.ic s.ic.icBss
        assocSampleHeader = false ∧ portPasses s.ic s.ic.icBss false assocSampleHeader = false ∧
      portPasses ((Link.mk s (some [48])).associate (assocSample 9 false) true).1.ic
      s.ic.icBss false
        assocSampleHeader = true :=
  Reach.of_run (portSampleJoin ++ [portSampleKey, .setSuppPort true]) portSample_init
    (runOk_any _ _)
    (by decide +kernel)

theorem associate_sends_auth_sample :
    ∃ s : Sta (Fin 3), Reach staInit staStep Any s ∧ (associate s (assocSample 8 true) true).2 = 0 ∧
      ∃ f, newstateMgtq (associate s (assocSample 8 true) true).1.ic ⟨fun _ => none, []⟩ []
      .auth (-1)
        true = [] ++ [f] ∧ FirstAuth (assocSample 8 true).bssid f := by
  obtain ⟨s, hreach, hret, hscan⟩ : ∃ s : Sta (Fin 3), Reach staInit staStep Any s ∧
      (associate s (assocSample 8 true) true).2 = 0 ∧ s.ic.icState = .scan :=
    Reach.of_run [.scanAdd 1 (portSampleAddr 8), .request .scan 0, .transition 2 true]
      portSample_init
      (runOk_any _ _) (by decide +kernel)
  exact ⟨s, hreach, hret,
    (associate_sends_auth s (assocSample 8 true) true ⟨fun _ => none, []⟩ [] hret).2.mpr
    (.inr hscan)⟩

/-- A station in `S_RUN` is told to join its BSS once more, and so is one that waits in
`S_AUTH`: the call succeeds, and nothing is sent. -/
theorem associate_silent : (∃ s : Sta (Fin 3), Reach staInit staStep Any s ∧ s.ic.icState = .run ∧
      (associate s (assocSample 8 true) true).2 = 0 ∧
      newstateMgtq (associate s (assocSample 8 true) true).1.ic ⟨fun _ => none, []⟩ [] .auth (-1)
        true = []) ∧ ∃ s : Sta (Fin 3), Reach staInit staStep Any s ∧ s.ic.icState = .auth ∧
      (associate s (assocSample 8 true) true).2 = 0 ∧
      newstateMgtq (associate s (assocSample 8 true) true).1.ic ⟨fun _ => none, []⟩ [] .auth (-1)
        true = [] :=
  ⟨Reach.of_run portSampleJoin portSample_init (runOk_any _ _) (by decide +kernel),
    Reach.of_run (portSampleJoin.take 3) portSample_init (runOk_any _ _) (by decide +kernel)⟩

end Wpa

end Net80211
