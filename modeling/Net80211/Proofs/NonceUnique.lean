import Net80211.Lib.Run
import Net80211.Proofs.SetKey

/-!
# Packet numbers are used once

A frame is protected under a key and a packet number, and CCM allows each pair
once. The packet number counts up within an installation of a key, so a pair
can come back in three ways: the key is installed again after it was used, two
slots hold the same key, or the counter goes past its 48 bits.

`freertos_set_key` rules out none of them, it starts the counter over at every
installation. What holds is the invariant below, along every run that avoids the
three: the numbers used under a key that is installed are those its counter has
passed.
-/

namespace Net80211.Wpa

open Crypto Lib List Function

/-! ## The system -/

/-- What a transmitted frame was protected with. -/
structure TxNonce where
  key : Option (List UInt8)
  pn : Nat
  addr2 : List UInt8
  priority : UInt8
  deriving DecidableEq, Repr

structure TxState (ν : Type) where
  ic : Ic ν
  heap : Heap
  -- The frames transmitted so far, the latest first.
  sent : List TxNonce

inductive TxOp (ν : Type) where
  | setKey (p : SetKeyParams) (attach : Bool × Bool)
  | encap (n : ν) (m : Mbuf) (ms : List Mbuf)

variable {ν : Type} [DecidableEq ν] {k : Key} {m : Mbuf} {E : BlockCipher}
  {r : EncapResult ν}

/-- The frame of an encapsulation that returned a key. -/
def txNonce (r : EncapResult ν) : List TxNonce :=
  match r.key, r.frame with
  | some s, some (m :: _) =>
    [{ key := txKey (r.keys.key s), pn := (r.keys.key s).wkKeytsc % 2 ^ 48
       addr2 := window m.get 10 6, priority := ccmpQos m.get }]
  | _, _ => []

/-- The supplicant sets keys and the driver encapsulates frames. -/
def txStep (E : BlockCipher) (s : TxState ν) :
    TxOp ν → Option (TxState ν)
  | .setKey p attach => some { s with ic := (setKey s.ic p attach).1 }
  | .encap n m ms =>
    match cryptoEncap E s.heap s.ic.icKeys n m ms with
    | none => none
    | some r => some
        { ic := { s.ic with icKeys := r.keys }, heap := r.heap, sent := txNonce r ++ s.sent }

/-- No key is installed and nothing was sent. -/
def txInit (s : TxState ν) : Prop :=
  s.sent = [] ∧ ∀ slot, (s.ic.icKeys.key slot).wkCipher = .none

/-- The index is that of a key and `ieee80211_crypto_newkey` sets it up, so that the key of the call
is installed. -/
def KeyAccepted (ic : Ic ν) (p : SetKeyParams) (attach : Bool × Bool) : Prop :=
  (0 ≤ p.keyIdx ∧ p.keyIdx < 4) ∧ (newkey ic.icKeys.hwCcm (setKeySlot ic p)
    ⟨true, true, p.isGroup, false⟩ attach (ic.icKeys.key (setKeySlot ic p))).2 = true

/-- A key is installed that was not used, and is in no other slot; a frame is
encapsulated with a counter within its 48 bits. -/
def txFresh (s : TxState ν) : TxOp ν → Prop
  | .setKey p attach => ∀ key, p.ccmpKey = some key → KeyAccepted s.ic p attach →
      (∀ e ∈ s.sent, e.key ≠ some key) ∧
      ∀ slot, slot ≠ setKeySlot s.ic p → (s.ic.icKeys.key slot).wkCipher = .ccmp →
        txKey (s.ic.icKeys.key slot) ≠ some key
  | .encap n m _ => ∀ slot keyid, txSlot s.ic.icKeys n (m.get 4) = some (slot, keyid) →
      (s.ic.icKeys.key slot).wkKeytsc < 2 ^ 48

/-! ## One encapsulation -/

theorem ccmpEncap_counts {datapad : Bool} {h h' : Heap} {k' : Key} {ms frame : List Mbuf}
    {keyid : UInt8} {ok : Bool}
    (henc : ccmpEncap E datapad h k m ms keyid = some (h', k', frame, ok)) :
    k' = { k with wkKeytsc := (k.wkKeytsc + 1) % 2 ^ 64 } := by
  rw [ccmpEncap] at henc
  dsimp only at henc
  split at henc
  · split at henc
    · cases henc
    · injection henc with henc
      exact (Prod.mk.inj (Prod.mk.inj henc).2).1.symm
  · injection henc with henc
    exact (Prod.mk.inj (Prod.mk.inj henc).2).1.symm

/-- The key an encapsulation may change is the CCMP key of the frame, and it
changes in nothing but the transmit counter, which goes up by one. -/
theorem cryptoEncap_counts {h : Heap} {ks : Keys ν} {n : ν} {ms : List Mbuf}
    (hr : cryptoEncap E h ks n m ms = some r) :
    (r.key = none ∧ r.keys = ks) ∨
    ∃ s keyid, txSlot ks n (m.get 4) = some (s, keyid) ∧ (ks.key s).wkCipher = .ccmp ∧
      (r.key = none ∨ r.key = some s) ∧
      r.keys = ks.set s { ks.key s with wkKeytsc := ((ks.key s).wkKeytsc + 1) % 2 ^ 64 } := by
  rcases cryptoEncap_cases hr
    with hnone | ⟨s, keyid, h1, m1, ms1, h2, k, frame, ok, hslot, hcip, _, henc, rfl⟩
  · exact .inl hnone
  · refine .inr ⟨s, keyid, hslot, hcip, ?_, by rw [ccmpEncap_counts henc]⟩
    cases ok with
    | true => exact .inr rfl
    | false => exact .inl rfl

omit [DecidableEq ν] in
theorem mem_txNonce {e : TxNonce} (he : e ∈ txNonce r) :
    ∃ s, r.key = some s ∧ e.key = txKey (r.keys.key s) ∧
      e.pn = (r.keys.key s).wkKeytsc % 2 ^ 48 ∧ txNonce r = [e] := by
  rw [txNonce] at he ⊢
  split at he
  · next s m ms hkey hframe =>
    obtain rfl := mem_singleton.mp he
    exact ⟨s, hkey, rfl, rfl, rfl⟩
  · cases he

/-! ## The invariant -/

structure TxInv (s : TxState ν) : Prop where
  used : ∀ slot, (s.ic.icKeys.key slot).wkCipher = .ccmp → ∀ e ∈ s.sent,
    e.key = txKey (s.ic.icKeys.key slot) →
    ∃ c, 1 ≤ c ∧ c ≤ (s.ic.icKeys.key slot).wkKeytsc ∧ e.pn = c % 2 ^ 48
  bound : ∀ slot, (s.ic.icKeys.key slot).wkCipher = .ccmp →
    (s.ic.icKeys.key slot).wkKeytsc ≤ 2 ^ 48
  apart : ∀ slot slot', (s.ic.icKeys.key slot).wkCipher = .ccmp →
    (s.ic.icKeys.key slot').wkCipher = .ccmp →
    txKey (s.ic.icKeys.key slot) = txKey (s.ic.icKeys.key slot') → slot = slot'
  nodup : s.sent.Nodup

variable {s : TxState ν}

omit [DecidableEq ν] in
theorem txInv_init (h : txInit s) : TxInv s := by
  have hno : ∀ slot, (s.ic.icKeys.key slot).wkCipher ≠ .ccmp := by
    intro slot
    rw [h.2 slot]
    decide
  refine ⟨?_, ?_, ?_, ?_⟩
  · intro slot hc
    exact absurd hc (hno slot)
  · intro slot hc
    exact absurd hc (hno slot)
  · intro slot slot' hc
    exact absurd hc (hno slot)
  · rw [h.1]
    exact nodup_nil

variable {s' : TxState ν} {slot : KeySlot ν}

theorem TxInv.clear (inv : TxInv s) (hk : k.wkCipher = .none)
    (hkeys : s'.ic.icKeys.key = update s.ic.icKeys.key slot k) (hsent : s'.sent = s.sent) :
    TxInv s' := by
  have hold : ∀ t, (s'.ic.icKeys.key t).wkCipher = .ccmp →
      s'.ic.icKeys.key t = s.ic.icKeys.key t := by
    intro t ht
    by_cases hts : t = slot
    · rw [hkeys, hts, update_self, hk] at ht
      exact absurd ht (by decide)
    · rw [hkeys, update_of_ne hts]
  refine ⟨?_, ?_, ?_, ?_⟩
  · intro t ht e he hkey
    have heq := hold t ht
    rw [heq] at ht hkey ⊢
    rw [hsent] at he
    exact inv.used t ht e he hkey
  · intro t ht
    have heq := hold t ht
    rw [heq] at ht ⊢
    exact inv.bound t ht
  · intro t t' ht ht' hkey
    have heq := hold t ht
    have heq' := hold t' ht'
    rw [heq] at ht hkey
    rw [heq'] at ht' hkey
    exact inv.apart t t' ht ht' hkey
  · rw [hsent]
    exact inv.nodup

theorem TxInv.install {key : List UInt8} (inv : TxInv s) (htx : txKey k = some key)
    (htsc : k.wkKeytsc = 0) (hkeys : s'.ic.icKeys.key = update s.ic.icKeys.key slot k)
    (hsent : s'.sent = s.sent) (hunused : ∀ e ∈ s.sent, e.key ≠ some key)
    (hother : ∀ t, t ≠ slot → (s.ic.icKeys.key t).wkCipher = .ccmp →
      txKey (s.ic.icKeys.key t) ≠ some key) : TxInv s' := by
  have hslot : s'.ic.icKeys.key slot = k := by rw [hkeys, update_self]
  have hne : ∀ t, t ≠ slot → s'.ic.icKeys.key t = s.ic.icKeys.key t := by
    intro t ht
    rw [hkeys, update_of_ne ht]
  refine ⟨?_, ?_, ?_, ?_⟩
  · intro t ht e he hkey
    rw [hsent] at he
    by_cases hts : t = slot
    · rw [hts, hslot, htx] at hkey
      exact absurd hkey (hunused e he)
    · rw [hne t hts] at ht hkey ⊢
      exact inv.used t ht e he hkey
  · intro t ht
    by_cases hts : t = slot
    · rw [hts, hslot, htsc]
      exact Nat.zero_le _
    · rw [hne t hts] at ht ⊢
      exact inv.bound t ht
  · intro t t' ht ht' hkey
    by_cases hts : t = slot
    · by_cases hts' : t' = slot
      · rw [hts, hts']
      · rw [hts, hslot, htx, hne t' hts'] at hkey
        rw [hne t' hts'] at ht'
        exact absurd hkey.symm (hother t' hts' ht')
    · rw [hne t hts] at ht hkey
      by_cases hts' : t' = slot
      · rw [hts', hslot, htx] at hkey
        exact absurd hkey (hother t hts ht)
      · rw [hne t' hts'] at ht' hkey
        exact inv.apart t t' ht ht' hkey
  · rw [hsent]
    exact inv.nodup

theorem TxInv.count {new : List TxNonce} (inv : TxInv s)
    (hcip : (s.ic.icKeys.key slot).wkCipher = .ccmp)
    (hlt : (s.ic.icKeys.key slot).wkKeytsc < 2 ^ 48)
    (hkeys : s'.ic.icKeys.key = update s.ic.icKeys.key slot
      { s.ic.icKeys.key slot with wkKeytsc := (s.ic.icKeys.key slot).wkKeytsc + 1 })
    (hsent : s'.sent = new ++ s.sent) (hone : new.Nodup)
    (hnew : ∀ e ∈ new, e.key = txKey (s.ic.icKeys.key slot) ∧
      e.pn = ((s.ic.icKeys.key slot).wkKeytsc + 1) % 2 ^ 48) : TxInv s' := by
  have hslot : s'.ic.icKeys.key slot =
      { s.ic.icKeys.key slot with wkKeytsc := (s.ic.icKeys.key slot).wkKeytsc + 1 } := by
    rw [hkeys, update_self]
  have hne : ∀ t, t ≠ slot → s'.ic.icKeys.key t = s.ic.icKeys.key t := by
    intro t ht
    rw [hkeys, update_of_ne ht]
  have hcip' : ∀ t, (s'.ic.icKeys.key t).wkCipher = (s.ic.icKeys.key t).wkCipher := by
    intro t
    by_cases hts : t = slot
    · rw [hts, hslot]
    · rw [hne t hts]
  have htx : ∀ t, txKey (s'.ic.icKeys.key t) = txKey (s.ic.icKeys.key t) := by
    intro t
    by_cases hts : t = slot
    · rw [hts, hslot]
      rfl
    · rw [hne t hts]
  refine ⟨?_, ?_, ?_, ?_⟩
  · intro t ht e he hkey
    rw [hcip'] at ht
    rw [htx] at hkey
    rw [hsent] at he
    rcases mem_append.mp he with he | he
    · obtain ⟨hek, hep⟩ := hnew e he
      obtain rfl := inv.apart t slot ht hcip (hkey.symm.trans hek)
      exact ⟨_, Nat.succ_le_succ (Nat.zero_le _), by rw [hslot], hep⟩
    · obtain ⟨c, hc1, hc, hpn⟩ := inv.used t ht e he hkey
      refine ⟨c, hc1, ?_, hpn⟩
      by_cases hts : t = slot
      · rw [hts] at hc
        rw [hts, hslot]
        exact Nat.le_succ_of_le hc
      · rw [hne t hts]
        exact hc
  · intro t ht
    rw [hcip'] at ht
    by_cases hts : t = slot
    · rw [hts, hslot]
      exact hlt
    · rw [hne t hts]
      exact inv.bound t ht
  · intro t t' ht ht' hkey
    rw [hcip'] at ht ht'
    rw [htx, htx] at hkey
    exact inv.apart t t' ht ht' hkey
  · rw [hsent]
    refine nodup_append.mpr ⟨hone, inv.nodup, ?_⟩
    -- A number that was used is at most the counter, so it is not the next one.
    rintro e he e' he' rfl
    obtain ⟨hek, hep⟩ := hnew e he
    obtain ⟨c, hc1, hc, hpn⟩ := inv.used slot hcip e he' hek
    rw [hpn] at hep
    omega

theorem installs_of_ret {ic : Ic ν} {p : SetKeyParams} {attach : Bool × Bool} {key : List UInt8}
    (hkey : p.ccmpKey = some key) (hret : (setKey ic p attach).2 = 0) :
    KeyAccepted ic p attach := by
  rw [setKey] at hret
  split at hret
  · cases hret
  next hidx =>
  refine ⟨by omega, ?_⟩
  have halg : p.alg = .ccmp := by
    rw [SetKeyParams.ccmpKey] at hkey
    split at hkey
    · assumption
    · cases hkey
  rw [halg, hkey] at hret
  dsimp only at hret
  split at hret
  · cases hret
  next hnew => exact congrArg Prod.snd hnew

theorem txStep_inv (E : BlockCipher) {a : TxOp ν} (inv : TxInv s)
    (hok : txFresh s a) (hs : txStep E s a = some s') : TxInv s' := by
  cases a with
  | setKey p attach =>
    cases hs
    cases hset : setKey s.ic p attach with
    | mk ic' ret =>
    rcases setKey_cases hset with
      ⟨_, hic⟩ | ⟨_, _, hic⟩ | ⟨hret, key, k, hkey, _, htx, htsc, hic⟩
    · rw [hic]
      exact inv
    · exact inv.clear (k := resetkey) rfl (by rw [hic]; rfl) rfl
    · obtain ⟨hunused, hother⟩ := hok key hkey (installs_of_ret hkey (by rw [hset]; exact hret))
      exact inv.install htx htsc (by rw [hic, installKey_key]) rfl hunused hother
  | encap n m ms =>
    rw [txStep] at hs
    cases hr : cryptoEncap E s.heap s.ic.icKeys n m ms with
    | none => rw [hr] at hs; cases hs
    | some r =>
      rw [hr] at hs
      cases hs
      rcases cryptoEncap_counts hr with ⟨hkey, hks⟩ | ⟨slot, keyid, hslot, hcip, hkey, hks⟩
      · have hnone : txNonce r = [] := by
          rw [txNonce, hkey]
        rw [hks, hnone]
        exact ⟨inv.used, inv.bound, inv.apart, inv.nodup⟩
      · have hlt := hok slot keyid hslot
        rw [Nat.mod_eq_of_lt (by omega)] at hks
        have hnew : ∀ e ∈ txNonce r, e.key = txKey (s.ic.icKeys.key slot) ∧
            e.pn = ((s.ic.icKeys.key slot).wkKeytsc + 1) % 2 ^ 48 := by
          intro e he
          obtain ⟨t, ht, hek, hep, _⟩ := mem_txNonce he
          rcases hkey with hkey | hkey
          · rw [hkey] at ht
            cases ht
          · obtain rfl : slot = t := Option.some.inj (hkey.symm.trans ht)
            rw [hks, Keys.set_key_same] at hek hep
            exact ⟨hek, hep⟩
        have hone : (txNonce r).Nodup := by
          rw [txNonce]
          split
          · exact nodup_cons.mpr ⟨not_mem_nil, nodup_nil⟩
          · exact nodup_nil
        exact inv.count hcip hlt (by simp only [hks]; rfl) rfl hone hnew

/-- Along every run that installs fresh keys only and stays within the counters,
no two frames share their key octets, packet number, transmitter and priority. -/
theorem ccmp_nonces_unique (E : BlockCipher) (s : TxState ν)
    (h : Reach txInit (txStep E) txFresh s) : s.sent.Nodup :=
  (h.invariant (fun _ => txInv_init) fun _ _ _ inv hok hs => txStep_inv E inv hok hs).nodup

/-! ## Two runs -/

def txSampleNode : Node :=
  { niMacaddr := [], niBssid := [], niAuth := false, niQos := false, niAuthmode := .ieee8021x
    niTxseqs := fun _ => 0 }

/-- An interface with software CCMP and no keys. -/
def txSample : TxState Unit :=
  { ic :=
      { icOpmode := .sta, icState := .run, icFlags := ⟨true, false, true, true, true⟩, icBss := ()
        icNode := fun _ => txSampleNode, icScan := [()]
        icKeys := { key := fun _ => resetkey, defTxkey := none, hwCcm := false, datapad := false }
        icMyaddr := [], icRoamingAuto := false, icFragthreshold := 2346, icNoack := fun _ => false }
    heap := { alloc := fun _ => some fun _ => 0, next := 0, freed := [] }
    sent := [] }

def txSampleInstall : TxOp Unit :=
  .setKey { alg := .ccmp, addr := some (replicate 6 0), keyIdx := 0, setTx := true, seq := none
            key := some (replicate 16 7) } (true, true)

/-- A data frame of 25 octets. -/
def txSampleEncap : TxOp Unit :=
  .encap () { addr := 0, mFlags := mExt ||| mPkthdr, mCluster := fun i => if i = 256 then 8 else 0
              mData := 256, mLen := 25, pkthdrLen := 25 } []

def txSampleNonce (pn : Nat) : TxNonce :=
  { key := some (replicate 16 7), pn := pn, addr2 := replicate 6 0, priority := 0 }

/-- Installing a key again starts its counter over, and the next frame has the
key and the packet number of an earlier one. -/
theorem set_key_reuses_nonces :
    ∃ s : TxState Unit, Reach txInit (txStep fun _ b => b) Any s ∧ ¬ s.sent.Nodup :=
  Reach.of_run [txSampleInstall, txSampleEncap, txSampleInstall, txSampleEncap]
    (show txInit txSample from ⟨rfl, fun _ => rfl⟩) (runOk_any _ _) (by decide +kernel)

theorem txFresh_sample (as : List (TxOp Unit)) (c : Nat) {s : TxState Unit}
    (hs : runSteps (txStep fun _ b => b) txSample as = some s)
    (hv : (runSteps (txStep fun _ b => b) txSample as).map (fun s =>
      (txSlot s.ic.icKeys () 0, (s.ic.icKeys.key (.ucast ())).wkKeytsc)) =
      some (some (.ucast (), 0), c)) (hc : c < 2 ^ 48) : txFresh s txSampleEncap := by
  intro slot keyid hslot
  rw [hs] at hv
  obtain ⟨hu, ht⟩ := Prod.mk.inj (Option.some.inj hv)
  have hslot' : txSlot s.ic.icKeys () 0 = some (slot, keyid) := hslot
  rw [hu] at hslot'
  obtain rfl : KeySlot.ucast () = slot := (Prod.mk.inj (Option.some.inj hslot')).1
  rw [ht]
  exact hc

theorem ccmp_nonces_unique_sample :
    ∃ s : TxState Unit, Reach txInit (txStep fun _ b => b) txFresh s ∧
      s.sent = [txSampleNonce 2, txSampleNonce 1] ∧ s.sent.Nodup := by
  have hrun : (runSteps (txStep fun _ b => b) txSample
      [txSampleInstall, txSampleEncap, txSampleEncap]).map TxState.sent =
      some [txSampleNonce 2, txSampleNonce 1] := by decide +kernel
  obtain ⟨s, hs, hsent⟩ := Option.map_eq_some_iff.mp hrun
  have hreach : Reach txInit (txStep fun _ b => b) txFresh s := by
    have h0 : Reach txInit (txStep fun _ b => b) txFresh txSample := .init ⟨rfl, fun _ => rfl⟩
    refine h0.run [txSampleInstall, txSampleEncap, txSampleEncap]
      ⟨?_, fun s1 hs1 => ⟨?_, fun s2 hs2 => ⟨?_, fun _ _ => trivial⟩⟩⟩ hs
    · intro key _ _
      refine ⟨fun e he => absurd he (by simp [txSample]), fun t _ ht => ?_⟩
      exact absurd ht (show ¬ resetkey.wkCipher = .ccmp by decide)
    · exact txFresh_sample [txSampleInstall] 0 (by rw [runSteps, hs1]; rfl) (by decide +kernel)
        (by decide)
    · exact txFresh_sample [txSampleInstall, txSampleEncap] 1
        (by rw [runSteps, hs1]; simp only [runSteps, hs2]) (by decide +kernel) (by decide)
  exact ⟨s, hreach, hsent, ccmp_nonces_unique _ s hreach⟩

end Net80211.Wpa
