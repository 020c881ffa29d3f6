import Net80211.Crypto.Ccmp
import Net80211.Proofs.MbufShell

/-!
# Replay protection

What `ieee80211_crypto_decap` can do to the keys: nothing, or raise the receive
counter of one CCMP key to the packet number of the frame, which was above it.
A run over any sequence of frames follows from that: for each key the packet
numbers of the accepted frames are strictly increasing. What
`ieee80211_crypto_encap` can do is said beside it.

The packet number of a frame is read off its octets, however they are spread
over the chain, and not off the buffer the code assembles them in.
-/

namespace Net80211.Crypto

open Lib List Function

/-- The packet number in the CCMP header behind `hdrlen` octets. -/
def framePn (p : List UInt8) (hdrlen : Nat) : Nat :=
  let b := fun i => p.getD (hdrlen + i) 0
  read6 (b 0) (b 1) (b 4) (b 5) (b 6) (b 7)

theorem ccmpPn_eq_framePn {m : Mbuf} (ms : List Mbuf) {hdrlen : Nat} (h : hdrlen + 8 ≤ m.mLen) :
    ccmpPn m hdrlen = framePn (bytes (m :: ms)) hdrlen := by
  have hget : ∀ i < 8, m.get (hdrlen + i) = (bytes (m :: ms)).getD (hdrlen + i) 0 :=
    fun i hi => get_eq_bytes ms (by omega)
  rw [ccmpPn, framePn]
  dsimp only
  rw [hget 0 (by omega), hget 1 (by omega), hget 4 (by omega), hget 5 (by omega),
    hget 6 (by omega), hget 7 (by omega)]

variable {len : Nat}

theorem pullupTo_some {h h' : Heap} {m m' : Mbuf} {ms ms' : List Mbuf}
    (hp : pullupTo h m ms len = (h', some (m', ms'))) :
    bytes (m' :: ms') = bytes (m :: ms) ∧ m'.mLen = max m.mLen len ∧
      (m.hasPkthdr = true → m'.hasPkthdr = true ∧ m'.pkthdrLen = m.pkthdrLen) := by
  rw [pullupTo] at hp
  split at hp
  · split at hp
    · next heq =>
      injection hp with _ hp
      injection hp with hp
      injection hp with hm hms
      subst hm hms
      obtain ⟨m1, tl, hms, hb, hlen, hfl, hpk⟩ := mPullup_some heq
      injection hms with hm htl
      subst hm htl
      exact ⟨hb, hlen, fun hf => ⟨hfl.trans hf, hpk hf⟩⟩
    · exact absurd (congrArg Prod.snd hp) (by simp)
  · next hlen =>
    injection hp with _ hp
    injection hp with hp
    injection hp with hm hms
    subst hm hms
    exact ⟨rfl, by omega, fun hf => ⟨hf, rfl⟩⟩

/-- A pullup fails where the first mbuf does not have the octets already, and they do
not fit, are not there or there is no memory for them. -/
theorem pullupTo_none {h h' : Heap} {m : Mbuf} {ms : List Mbuf}
    (hp : pullupTo h m ms len = (h', none)) :
    m.mLen < len ∧
    (mclbytes - mhAlign < len ∨ mLength (m :: ms) < len ∨ h.alloc h.next = none) := by
  rw [pullupTo] at hp
  split at hp
  · next hlt =>
    refine ⟨hlt, ?_⟩
    split at hp
    · cases hp
    · next h1 r hnot hpull =>
      have hnone : (mPullup h (m :: ms) len).2 = none := by
        rw [hpull]
        cases r with
        | none => rfl
        | some c =>
          obtain ⟨m', tl, rfl, _⟩ := mPullup_some hpull
          exact absurd rfl (hnot m' tl)
      rcases mPullup_none_iff.mp hnone with hbig | ⟨_, hshort | hmem⟩
      · exact .inl hbig
      · exact .inr (.inl hshort)
      · exact .inr (.inr hmem)
  · cases hp

/-- What an encapsulation does: nothing under no key, or what `ccmp_encap` does behind
the space for its header. -/
theorem cryptoEncap_cases {ν : Type} [DecidableEq ν] {E : BlockCipher} {h : Heap}
    {ks : Keys ν} {n : ν} {m : Mbuf} {ms : List Mbuf} {r : EncapResult ν}
    (hr : cryptoEncap E h ks n m ms = some r) : (r.key = none ∧ r.keys = ks) ∨
    ∃ s keyid h₁ m₁ ms₁ h₂ k frame ok, txSlot ks n (m.get 4) = some (s, keyid) ∧
      (ks.key s).wkCipher = .ccmp ∧
      encapSpace h (m :: ms) (hdrspace ks.datapad m.get) 8 = (h₁, some (m₁, ms₁)) ∧
      ccmpEncap E ks.datapad h₁ (ks.key s) m₁ ms₁ (keyid <<< 6) = some (h₂, k, frame, ok) ∧
      r = { heap := h₂, keys := ks.set s k, frame := some frame, key := if ok then some s
        else none } := by
  rw [cryptoEncap] at hr
  split at hr
  · cases hr
    exact .inl ⟨rfl, rfl⟩
  next s keyid hslot =>
  dsimp only at hr
  split at hr
  · cases hr
    exact .inl ⟨rfl, rfl⟩
  next h₁ m₁ ms₁ hspc =>
  split at hr
  · cases hr
    exact .inl ⟨rfl, rfl⟩
  next hcip =>
  rw [hcip] at hspc
  split at hr
  · cases hr
  next h₂ k frame ok henc =>
  injection hr with hr
  exact .inr ⟨s, keyid, h₁, m₁, ms₁, h₂, k, frame, ok, hslot, hcip, hspc, henc, hr.symm⟩

variable {E : BlockCipher} {stack : Nat → UInt8} {k k' : Key} {m : Mbuf}
  {ms ms' : List Mbuf} {hdrlen : Nat} {ok : Bool}

/-- `ccmp_decap` leaves the key alone, or has seen a packet number above its
receive counter and stores it. -/
theorem ccmpDecap_cases (h : ccmpDecap E stack k m ms hdrlen = some (k', ms', ok)) :
    (ok = false ∧ k' = k) ∨ (ok = true ∧ k.wkKeyrsc < ccmpPn m hdrlen ∧
        k' = { k with wkKeyrsc := ccmpPn m hdrlen }) := by
  rw [ccmpDecap] at h
  split at h
  · injection h with h
    injection h with hk h
    injection h with _ hok
    exact .inl ⟨hok.symm, hk.symm⟩
  split at h
  · injection h with h
    injection h with hk h
    injection h with _ hok
    exact .inl ⟨hok.symm, hk.symm⟩
  next hpn =>
  split at h
  · cases h
  · injection h with h
    injection h with hk h
    injection h with _ hok
    exact .inl ⟨hok.symm, hk.symm⟩
  · injection h with h
    injection h with hk h
    injection h with _ hok
    exact .inr ⟨hok.symm, Nat.lt_of_not_le hpn, hk.symm⟩

variable {ν : Type} [DecidableEq ν] {ks : Keys ν} {n : ν} {hp : Heap} {r : EncapResult ν}

theorem Keys.set_self (ks : Keys ν) (s : KeySlot ν) : ks.set s (ks.key s) = ks := by
  rw [Keys.set, update_eq_self]

@[simp] theorem Keys.set_key_same (ks : Keys ν) (s : KeySlot ν) (k : Key) :
    (ks.set s k).key s = k := update_self ..

theorem Keys.set_key_of_ne (ks : Keys ν) {s s' : KeySlot ν} (k : Key) (h : s' ≠ s) :
    (ks.set s k).key s' = ks.key s' := update_of_ne h ..

/-- The key a decapsulation may change is a CCMP key, and it changes in nothing
but the receive counter, which goes up to the packet number of the frame. -/
theorem cryptoDecap_cases (h : cryptoDecap E stack hp ks n m ms hdrlen = some r) :
    (r.key = none ∧ r.keys = ks) ∨ ∃ s, r.key = some s ∧ (ks.key s).wkCipher = .ccmp ∧
        (ks.key s).wkKeyrsc < framePn (bytes (m :: ms)) hdrlen ∧
        r.keys = ks.set s { ks.key s with wkKeyrsc := framePn (bytes (m :: ms)) hdrlen } := by
  rw [cryptoDecap] at h
  split at h
  · cases h
    exact .inl ⟨rfl, rfl⟩
  dsimp only at h
  generalize rxSlot ks n (m.get 4) _ = s at h
  split at h
  · cases h
    exact .inl ⟨rfl, rfl⟩
  next h1 m1 ms1 hpull =>
  obtain ⟨hb, hlen, _⟩ := pullupTo_some hpull
  split at h
  · cases h
    exact .inl ⟨rfl, rfl⟩
  split at h
  · cases h
    exact .inl ⟨rfl, rfl⟩
  next hcip =>
  rw [hcip] at hlen
  have hpn : ccmpPn m1 hdrlen = framePn (bytes (m :: ms)) hdrlen := by
    rw [← hb]
    exact ccmpPn_eq_framePn ms1 (hlen ▸ Nat.le_max_right _ _)
  split at h
  · cases h
  next k' ms' ok hdecap =>
  cases h
  rcases ccmpDecap_cases hdecap with ⟨rfl, rfl⟩ | ⟨rfl, hlt, rfl⟩
  · exact .inl ⟨rfl, Keys.set_self ks s⟩
  · rw [hpn] at hlt ⊢
    exact .inr ⟨s, rfl, hcip, hlt, rfl⟩

/-! ## Runs -/

/-- A frame handed to `ieee80211_crypto_decap`, with its node and header
length, and what the stack holds at the call. -/
structure RxFrame (ν : Type) where
  node : ν
  stack : Nat → UInt8
  m : Mbuf
  ms : List Mbuf
  hdrlen : Nat

/-- Decapsulate a sequence of frames: the keys afterwards, and for each accepted
frame the key that accepted it and the packet number. The run ends where the
code crashes. -/
def decapRun {ν : Type} [DecidableEq ν] (E : BlockCipher) :
    Heap → Keys ν → List (RxFrame ν) → Keys ν × List (KeySlot ν × Nat)
  | _, ks, [] => (ks, [])
  | h, ks, f :: fs =>
    match cryptoDecap E f.stack h ks f.node f.m f.ms f.hdrlen with
    | none => (ks, [])
    | some r =>
      let rest := decapRun E r.heap r.keys fs
      match r.key with
      | none => rest
      | some s => (rest.1, (s, framePn (bytes (f.m :: f.ms)) f.hdrlen) :: rest.2)

/-- The packet numbers accepted by one key. -/
def acceptedBy {ν : Type} [DecidableEq ν] (s : KeySlot ν) (acc : List (KeySlot ν × Nat)) :
    List Nat :=
  (acc.filter fun a => a.1 = s).map Prod.snd

theorem decapRun_replay : ∀ (fs : List (RxFrame ν)) (h : Heap) (ks : Keys ν) (s : KeySlot ν),
    (acceptedBy s (decapRun E h ks fs).2).Pairwise (· < ·) ∧
      ∀ pn ∈ acceptedBy s (decapRun E h ks fs).2, (ks.key s).wkKeyrsc < pn := by
  intro fs
  induction fs with
  | nil =>
    intro h ks s
    exact ⟨List.Pairwise.nil, fun pn hpn => absurd hpn (by simp [decapRun, acceptedBy])⟩
  | cons f fs ih =>
    intro h ks s
    rw [decapRun]
    cases hdec : cryptoDecap E f.stack h ks f.node f.m f.ms f.hdrlen with
    | none =>
      exact ⟨List.Pairwise.nil, fun pn hpn => absurd hpn (by simp [acceptedBy])⟩
    | some r =>
      obtain ⟨ihp, ihb⟩ := ih r.heap r.keys s
      rcases cryptoDecap_cases hdec with ⟨hkey, hks⟩ | ⟨s', hkey, hcip, hlt, hks⟩
      · simp only [hkey]
        rw [hks] at ihp ihb ⊢
        exact ⟨ihp, ihb⟩
      · simp only [hkey]
        by_cases hs : s' = s
        · -- Accepted by this key: the counter is the packet number from here on.
          subst hs
          have hacc : ∀ (pn : Nat) (acc : List (KeySlot ν × Nat)),
              acceptedBy s' ((s', pn) :: acc) = pn :: acceptedBy s' acc := by
            intro pn acc
            rw [acceptedBy, filter_cons_of_pos (by simp), map_cons, acceptedBy]
          have hrsc : ∀ pn ∈ acceptedBy s' (decapRun E r.heap r.keys fs).2,
              framePn (bytes (f.m :: f.ms)) f.hdrlen < pn := by
            intro pn hpn
            have := ihb pn hpn
            rw [hks, Keys.set_key_same] at this
            exact this
          rw [hacc]
          refine ⟨pairwise_cons.mpr ⟨hrsc, ihp⟩, ?_⟩
          intro pn hpn
          rcases mem_cons.mp hpn with rfl | hpn
          · exact hlt
          · exact Nat.lt_trans hlt (hrsc pn hpn)
        · have hacc : ∀ (pn : Nat) (acc : List (KeySlot ν × Nat)),
              acceptedBy s ((s', pn) :: acc) = acceptedBy s acc := by
            intro pn acc
            rw [acceptedBy, filter_cons_of_neg (by simpa using hs), acceptedBy]
          rw [hacc]
          refine ⟨ihp, fun pn hpn => ?_⟩
          have := ihb pn hpn
          rw [hks, Keys.set_key_of_ne _ _ (Ne.symm hs)] at this
          exact this

/-- Replay protection: along every sequence of frames the packet numbers a CCMP
key accepts are strictly increasing and above the receive counter it started
with, and a frame that is not accepted leaves every key as it was. -/
theorem cryptoDecap_replay_protected (E : BlockCipher) (h : Heap)
    (ks : Keys ν) (s : KeySlot ν) : (∀ fs : List (RxFrame ν),
      (acceptedBy s (decapRun E h ks fs).2).Pairwise (· < ·) ∧
        ∀ pn ∈ acceptedBy s (decapRun E h ks fs).2, (ks.key s).wkKeyrsc < pn) ∧
    (∀ (f : RxFrame ν) (r : EncapResult ν),
      cryptoDecap E f.stack h ks f.node f.m f.ms f.hdrlen = some r → r.key = none →
      (r.keys.key s).wkKeyrsc = (ks.key s).wkKeyrsc) := by
  refine ⟨fun fs => decapRun_replay fs h ks s, fun f r hdec hkey => ?_⟩
  rcases cryptoDecap_cases hdec with ⟨_, hks⟩ | ⟨s', hkey', _⟩
  · rw [hks]
  · rw [hkey] at hkey'
    cases hkey'

/-- A CCMP key, for the device or for the host. -/
def rxKeys (swcrypt : Bool) : Keys Unit :=
  { key := fun _ => { resetkey with
      wkCipher := .ccmp, wkKeyix := some 0, wkKeylen := 16, wkFlags := ⟨true, true, false, swcrypt⟩
      wkPrivate := some (replicate 16 7) }
    defTxkey := none, hwCcm := !swcrypt, datapad := false }

/-- Two octets of data behind a CCMP header with packet number `pn`; the MIC is good if it begins
with 88. -/
def rxFrame (pn mic : UInt8) : RxFrame Unit :=
  { node := (), stack := fun _ => 0
    m := { addr := 0, mFlags := mExt ||| mPkthdr
           mCluster := fun i =>
             if i = 0 then 8 else if i = 24 then pn else if i = 27 then 0x20 else if i = 32 then 1
             else if i = 33 then 9 else if i = 34 then mic else if i = 35 then 31
             else if i = 36 then 8 else 0
           mData := 0, mLen := 42, pkthdrLen := 42 }
    ms := [], hdrlen := 24 }

def rxRun (swcrypt : Bool) (frames : List (RxFrame Unit)) : List Nat :=
  acceptedBy (.ucast ()) (decapRun (fun _ b => b) ⟨fun _ => none, 0, []⟩ (rxKeys swcrypt) frames).2

/-- A wrong MIC does not count, and frames that come twice or late are not accepted; the device has
looked at the MIC of its frames. -/
theorem cryptoDecap_replay_protected_sample :
    rxRun true [rxFrame 2 0, rxFrame 1 88, rxFrame 1 88, rxFrame 2 88] = [1, 2] ∧
    rxRun false [rxFrame 1 0, rxFrame 3 0, rxFrame 3 0, rxFrame 2 0, rxFrame 4 0] = [1, 3, 4] ∧
    (∀ swcrypt frames, (rxRun swcrypt frames).Pairwise (· < ·)) ∧
      ∃ r, cryptoDecap (fun _ b => b) (fun _ => 0) ⟨fun _ => none, 0, []⟩ (rxKeys true) ()
        (rxFrame 2 0).m [] 24 = some r ∧ r.key = none ∧ (r.keys.key (.ucast ())).wkKeyrsc = 0 := by
  have hsafe := fun swcrypt => cryptoDecap_replay_protected (fun _ b => b) ⟨fun _ => none, 0, []⟩
    (rxKeys swcrypt) (.ucast ())
  have hmic : (cryptoDecap (fun _ b => b) (fun _ => 0) ⟨fun _ => none, 0, []⟩ (rxKeys true) ()
      (rxFrame 2 0).m [] 24).map EncapResult.key = some none := by decide +kernel
  obtain ⟨r, hr, hkey⟩ := Option.map_eq_some_iff.mp hmic
  exact ⟨by decide +kernel, by decide +kernel, fun swcrypt frames =>
    ((hsafe swcrypt).1 frames).1, r, hr,
    hkey, (hsafe true).2 (rxFrame 2 0) r hr hkey⟩

end Net80211.Crypto
