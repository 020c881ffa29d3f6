import Net80211.Wpa.Driver
import Net80211.Proofs.Replay

/-!
# What `freertos_set_key` does

A call leaves everything alone and fails, or it clears its key, or it installs
the key it was given; then the counters start over, and the call returns 0. In
this port an installation fails only where `ccmp_attach` finds no memory: the
drivers use the default key methods, which have an index for every key the
supplicant installs and accept every key.
-/

namespace Net80211.Wpa

open Crypto Lib

/-- The key octets a frame is encrypted with, by the host or by the device. -/
def txKey (k : Key) : Option (List UInt8) :=
  if k.wkFlags.swcrypt then k.wkPrivate else some (k.wkKey.take k.wkKeylen)

variable {ν : Type} {slot : KeySlot ν} {flags oflags : KeyFlags} {k k' : Key} {key : List UInt8}

theorem newkeyRound_ok {bind attach : Bool} (hk : bind = false → k.wkCipher = .ccmp)
    (h : newkeyRound slot flags oflags bind attach k = (k', .ok)) :
    k'.wkCipher = .ccmp ∧ k'.wkKeyix.isSome := by
  have hcip : (if bind then { k with wkCipher := Cipher.ccmp, wkPrivate := none } else k).wkCipher
      = .ccmp := by
    cases bind with
    | true => rfl
    | false => exact hk rfl
  rw [newkeyRound] at h
  split at h
  · exact absurd (congrArg Prod.snd h) (by simp)
  · generalize (if bind then { k with wkCipher := Cipher.ccmp, wkPrivate := none } else k) = kb
      at h hcip
    dsimp only at h
    split at h
    · next ix hix =>
      obtain rfl := (Prod.mk.inj h).1
      exact ⟨hcip, by rw [hix]; rfl⟩
    · split at h
      · exact absurd (congrArg Prod.snd h) (by simp)
      · obtain rfl := (Prod.mk.inj h).1
        exact ⟨hcip, rfl⟩

/-- The default driver has an index for this key. -/
def HasIndex (slot : KeySlot ν) (flags : KeyFlags) : Prop :=
  match slot with
  | .nw _ => True
  | .ucast _ => flags.group = false

theorem newkeyRound_noIndex {bind attach : Bool} (hs : HasIndex slot flags) :
    newkeyRound slot flags oflags bind attach k ≠ (k', .noIndex) := by
  intro h
  have hix : ∀ kf : Key, kf.wkFlags = flags → nullKeyAlloc slot kf ≠ none := by
    intro kf hkf
    cases slot with
    | nw i => simp [nullKeyAlloc]
    | ucast n =>
      have hg : kf.wkFlags.group = false := by rw [hkf]; exact hs
      simp [nullKeyAlloc, hg]
  rw [newkeyRound] at h
  split at h
  · exact absurd (congrArg Prod.snd h) (by simp)
  · dsimp only at h
    split at h
    · exact absurd (congrArg Prod.snd h) (by simp)
    · split at h
      · next hnone => exact hix _ rfl hnone
      · exact absurd (congrArg Prod.snd h) (by simp)

theorem newkeyRound_attachFailed {bind attach : Bool}
    (h : newkeyRound slot flags k.wkFlags bind attach k = (k', .attachFailed)) : k' = k := by
  rw [newkeyRound] at h
  split at h
  · exact (Prod.mk.inj h).1.symm
  · dsimp only at h
    split at h
    · exact absurd (congrArg Prod.snd h) (by simp)
    · split at h <;> exact absurd (congrArg Prod.snd h) (by simp)

/-- `ieee80211_crypto_newkey` fails and changes nothing, or binds the key to
CCMP and gives it an index. -/
theorem newkey_cases {hwCcm ok : Bool} {attach : Bool × Bool} (hs : HasIndex slot flags)
    (h : newkey hwCcm slot flags attach k = (k', ok)) :
    (ok = false ∧ k' = k) ∨ (ok = true ∧ k'.wkCipher = .ccmp ∧ k'.wkKeyix.isSome) := by
  have hs' : HasIndex slot { flags with swcrypt := !hwCcm } := by
    cases slot with
    | nw i => trivial
    | ucast n => exact hs
  rw [newkey] at h
  dsimp only at h
  split at h
  · next hround =>
    obtain ⟨rfl, rfl⟩ := Prod.mk.inj h
    refine .inr ⟨rfl, newkeyRound_ok ?_ hround⟩
    intro hbind
    rw [Bool.or_eq_false_iff] at hbind
    simpa using hbind.1
  · next hround =>
    obtain ⟨rfl, rfl⟩ := Prod.mk.inj h
    exact .inl ⟨rfl, newkeyRound_attachFailed hround⟩
  · next hround => exact absurd hround (newkeyRound_noIndex hs')

/-- A key of 16 octets is accepted, and is what the frames are encrypted with. -/
theorem fillKey_spec (rsc : Nat) (hk : k.wkCipher = .ccmp) (hix : k.wkKeyix.isSome)
    (hlen : key.length = 16) :
    (fillKey k key rsc).2 = true ∧ (fillKey k key rsc).1.wkCipher = .ccmp ∧
      txKey (fillKey k key rsc).1 = some key ∧ (fillKey k key rsc).1.wkKeytsc = 0 := by
  have htake : ∀ l : List UInt8, (key ++ l).take 16 = key := by
    intro l
    rw [← hlen, List.take_left' rfl]
  cases hsw : k.wkFlags.swcrypt with
  | true | false => simp [fillKey, cryptoSetkey, ccmpSetkey, txKey, hk, hix, hlen, hsw, htake]

variable [DecidableEq ν] {ic ic' : Ic ν} {p : SetKeyParams} {attach : Bool × Bool} {ret : Int}

theorem ccmpKey_length (h : p.ccmpKey = some key) : key.length = 16 := by
  rw [SetKeyParams.ccmpKey] at h
  split at h
  · split at h
    · next hlen =>
      injection h with h
      exact h ▸ hlen
    · cases h
  · cases h

omit [DecidableEq ν] in
theorem setKeySlot_hasIndex (ic : Ic ν) (p : SetKeyParams) (x r s : Bool) :
    HasIndex (setKeySlot ic p) { xmit := x, recv := r, group := p.isGroup, swcrypt := s } := by
  rw [setKeySlot]
  split
  · trivial
  · next h => exact Bool.eq_false_iff.mpr h

theorem Ic.setKey_self (ic : Ic ν) (s : KeySlot ν) : ic.setKey s (ic.icKeys.key s) = ic := by
  rw [Ic.setKey, Keys.set_self]

theorem setKey_cases (h : setKey ic p attach = (ic', ret)) : (ret = -1 ∧ ic' = ic) ∨
    (ret = 0 ∧ p.alg = .none ∧ ic' = ic.setKey (setKeySlot ic p) resetkey) ∨
    (ret = 0 ∧ ∃ key k, p.ccmpKey = some key ∧ k.wkCipher = .ccmp ∧ txKey k = some key ∧
      k.wkKeytsc = 0 ∧ ic' = installKey ic p k) := by
  rw [setKey] at h
  split at h
  · obtain ⟨rfl, rfl⟩ := Prod.mk.inj h
    exact .inl ⟨rfl, rfl⟩
  dsimp only at h
  split at h
  · next halg =>
    obtain ⟨rfl, rfl⟩ := Prod.mk.inj h
    exact .inr (.inl ⟨rfl, halg, rfl⟩)
  split at h
  · obtain ⟨rfl, rfl⟩ := Prod.mk.inj h
    exact .inl ⟨rfl, rfl⟩
  next key hkey =>
  split at h
  · next k hnew =>
    obtain ⟨rfl, rfl⟩ := Prod.mk.inj h
    rcases newkey_cases (setKeySlot_hasIndex ic p _ _ _) hnew with ⟨_, rfl⟩ | ⟨habs, _⟩
    · exact .inl ⟨rfl, Ic.setKey_self ic _⟩
    · cases habs
  · next k hnew =>
    obtain ⟨rfl, rfl⟩ := Prod.mk.inj h
    rcases newkey_cases (setKeySlot_hasIndex ic p _ _ _) hnew with ⟨habs, _⟩ | ⟨_, hcip, hix⟩
    · cases habs
    · obtain ⟨hok, hc, htx, htsc⟩ := fillKey_spec p.rsc hcip hix (ccmpKey_length hkey)
      refine .inr (.inr ⟨by rw [if_pos hok], key, _, hkey, hc, htx, htsc, rfl⟩)

theorem installKey_key (ic : Ic ν) (p : SetKeyParams) (k : Key) :
    (installKey ic p k).icKeys.key = Function.update ic.icKeys.key (setKeySlot ic p) k := by
  rw [installKey]
  split
  · split
    · rfl
    · rfl
  · rfl

end Net80211.Wpa
