import Net80211.Lib.Run
import Net80211.Proofs.SetKey
import Net80211.Wpa.Assoc

/-!
# Port authorization

The port of a protected network is the authorization flag of the current node.
Four things open it: a pairwise key, `freertos_set_supp_port`, the entry into
`S_RUN` with an authentication mode other than 802.1X, and a join of a node that
still has the flag. The first two are what a grant is. The third cannot happen
while the mode is 802.1X whenever privacy is on (`PortInv`), which every call of
`freertos_associate` provides for but one that fails after it has set the flags.
The fourth can: nothing but a deauthentication that the station sends itself
takes the flag away, so it survives a deauthentication by the access point, and
the node keeps it in the scan table.
-/

namespace Net80211.Wpa

open Crypto Lib Function List

variable {ν : Type} {ic ic' ic'' : Ic ν} {s s' : Sta ν}

/-- The node of the current BSS. -/
def bssNode (ic : Ic ν) : Node := ic.icNode ic.icBss

/-- In a protected network the port is open by a grant only, and its mode is
802.1X. -/
structure PortInv (s : Sta ν) : Prop where
  granted : (bssNode s.ic).niAuth = true → s.ic.icFlags.privacy = true → s.granted = true
  authmode : s.ic.icFlags.privacy = true → (bssNode s.ic).niAuthmode = .ieee8021x

/-! ## What the transitions keep -/

/-- The flags and the mode stay, and the port is not opened. -/
structure Keeps (ic ic' : Ic ν) : Prop where
  flags : ic'.icFlags = ic.icFlags
  authmode : (bssNode ic').niAuthmode = (bssNode ic).niAuthmode
  auth : (bssNode ic').niAuth = true → (bssNode ic).niAuth = true

theorem Keeps.of_eq (hf : ic'.icFlags = ic.icFlags) (hn : bssNode ic' = bssNode ic) :
    Keeps ic ic' :=
  ⟨hf, by rw [hn], fun h => hn ▸ h⟩

theorem Keeps.trans (h : Keeps ic ic') (h' : Keeps ic' ic'') : Keeps ic ic'' :=
  ⟨h'.flags.trans h.flags, h'.authmode.trans h.authmode, fun ha => h.auth (h'.auth ha)⟩

theorem PortInv.keep (h : PortInv s) (hk : Keeps s.ic s'.ic)
    (hg : (bssNode s'.ic).niAuth = true → s'.ic.icFlags.privacy = true → s.granted = true →
      s'.granted = true) : PortInv s' := by
  constructor
  · intro ha hp
    refine hg ha hp (h.granted (hk.auth ha) ?_)
    rw [← hk.flags]
    exact hp
  · intro hp
    rw [hk.flags] at hp
    exact hk.authmode.trans (h.authmode hp)

variable [DecidableEq ν] {fresh : ν} {p : SetKeyParams} {mbuf : Bool} {arg : Int} {k : Key}

theorem keeps_nodeCleanup (ic : Ic ν) (n : ν) : Keeps ic (nodeCleanup ic n) := Keeps.of_eq rfl rfl

theorem keeps_sendMgmtDeauth (ic : Ic ν) (mbuf : Bool) :
    Keeps ic (sendMgmtDeauth ic ic.icBss mbuf) := by
  rw [sendMgmtDeauth]
  split
  · refine ⟨rfl, ?_, ?_⟩ <;> simp [bssNode, nodeUnauthorize, Ic.setNode]
  · exact Keeps.of_eq rfl rfl

theorem sendMgmtDeauth_bss (ic : Ic ν) (n : ν) (mbuf : Bool) :
    (sendMgmtDeauth ic n mbuf).icBss = ic.icBss := by
  rw [sendMgmtDeauth]
  split <;> rfl

/-- The new node starts with a closed port and takes the mode over. -/
theorem keeps_resetBss (h : fresh ≠ ic.icBss) : Keeps ic (resetBss ic fresh) := by
  refine ⟨rfl, ?_, ?_⟩
  · simp [bssNode, resetBss, copyBss, allocNode, Ic.setNode, Ic.setKey, update_of_ne h.symm]
  · simp [bssNode, resetBss, copyBss, allocNode, Ic.setNode, Ic.setKey]

omit [DecidableEq ν] in
theorem keeps_beginScan (ic : Ic ν) (reset : Int) : Keeps ic (beginScan ic reset) := by
  rw [beginScan]
  split <;> exact Keeps.of_eq rfl rfl

theorem newstate_keeps {nstate : State} (hfresh : fresh ≠ ic.icBss)
    (hrun : nstate = .run → (bssNode ic).niAuthmode = .ieee8021x) :
    Keeps ic (newstate ic nstate arg fresh mbuf) := by
  have hstate : ∀ st : State, Keeps ic { ic with icState := st } := fun st => Keeps.of_eq rfl rfl
  cases nstate with
  | init =>
    rw [newstate]
    split
    · exact hstate _
    · exact (hstate _).trans ((keeps_nodeCleanup _ _).trans (keeps_resetBss hfresh))
    · refine (hstate .init).trans ((keeps_sendMgmtDeauth _ _).trans (keeps_resetBss ?_))
      rw [sendMgmtDeauth_bss]
      exact hfresh
    · exact (hstate _).trans (keeps_resetBss hfresh)
    · exact (hstate _).trans (keeps_resetBss hfresh)
  | scan =>
    rw [newstate]
    dsimp only
    split
    · exact (hstate _).trans (keeps_beginScan _ _)
    · exact hstate _
    · split
      · exact (hstate _).trans ((keeps_nodeCleanup _ _).trans (keeps_beginScan _ _))
      · exact (hstate _).trans (keeps_nodeCleanup _ _)
    · split
      · exact (hstate _).trans (keeps_beginScan _ _)
      · exact hstate _
    · split
      · exact (hstate _).trans (keeps_beginScan _ _)
      · exact hstate _
  | auth =>
    rw [newstate]
    split
    · split
      · exact hstate _
      · split
        · exact (hstate _).trans (keeps_nodeCleanup _ _)
        · exact hstate _
    · exact hstate _
  | assoc =>
    rw [newstate]
    split
    · exact (hstate _).trans (keeps_nodeCleanup _ _)
    · exact hstate _
  | run =>
    rw [newstate]
    have hmode : ¬ (ic.icNode ic.icBss).niAuthmode ≠ .ieee8021x := not_not.mpr (hrun rfl)
    rw [if_neg hmode]
    exact hstate _

/-! ## The steps -/

/-- Where does a first request enter `S_AUTH`? -/
def entersAuth (ic : Ic ν) : List (State × Int) → Bool
  | (.auth, arg) :: _ => !(ic.icState = .run && arg = fc0SubtypeAuth)
  | _ => false

/-- The node joined has a closed port; without one, privacy was on before. -/
def joinsClosed (ic : Ic ν) : Option ν → Bool
  | some n => !(ic.icNode n).niAuth
  | none => ic.icFlags.privacy

/-- A protected network is joined, and `S_AUTH` entered in it, with a closed port;
and an association that fails does not switch privacy on. -/
def PortOk (s : Sta ν) : StaOp ν → Prop
  | .associate p mem =>
    p.ssidOk = true → p.privacy = true → joinsClosed s.ic (associateTarget s.ic p mem) = true
  | .transition _ _ =>
    entersAuth s.ic s.requests = true → s.ic.icFlags.privacy = true →
      (bssNode s.ic).niAuth = false
  | _ => True

instance decidablePortOk (s : Sta ν) (op : StaOp ν) : Decidable (PortOk s op) := by
  cases op <;> unfold PortOk <;> infer_instance

/-- `S_AUTH` is where the state machine is after a request only if it was entered. -/
theorem newstate_auth {requests : List (State × Int)}
    (h : (newstate ic .auth arg fresh mbuf).icState = .auth) :
    entersAuth ic ((.auth, arg) :: requests) = true := by
  rw [newstate] at h
  dsimp only at h
  rw [entersAuth]
  split at h
  · next hrun =>
    split at h
    · rw [hrun] at h
      cases h
    · next hne => simp [hne]
  · next hrun => simp [show ic.icState ≠ .run from hrun]

theorem transition_inv (h : PortInv s) (hok : PortOk s (.transition fresh mbuf))
    (hs : transition s fresh mbuf = some s') :
    PortInv s' := by
  rw [transition] at hs
  split at hs
  · cases hs
  next nstate arg requests hreq =>
  split at hs
  · cases hs
  next hfresh =>
  cases hs
  by_cases hopen : nstate = .run ∧ (bssNode s.ic).niAuthmode ≠ .ieee8021x
  · -- Outside 802.1X the port opens, and privacy is off.
    obtain ⟨rfl, hmode⟩ := hopen
    have hpriv : ¬ s.ic.icFlags.privacy = true := fun hp => hmode (h.authmode hp)
    have hflags : (newstate s.ic .run arg fresh mbuf).icFlags = s.ic.icFlags := by
      rw [newstate]
      split <;> rfl
    constructor
    · intro _ hp
      rw [hflags] at hp
      exact absurd hp hpriv
    · intro hp
      rw [hflags] at hp
      exact absurd hp hpriv
  · have hkeep : Keeps s.ic (newstate s.ic nstate arg fresh mbuf) := by
      refine newstate_keeps hfresh fun hrun => ?_
      by_contra hmode
      exact hopen ⟨hrun, hmode⟩
    refine h.keep hkeep fun ha hp hg => ?_
    split
    · next hauth =>
      obtain ⟨rfl, hstate⟩ := hauth
      rw [PortOk, hreq] at hok
      have hclosed := hok (newstate_auth hstate) (hkeep.flags ▸ hp)
      rw [hkeep.auth ha] at hclosed
      cases hclosed
    · exact hg

theorem bssNode_staJoin (s : Sta ν) (n : ν) : bssNode (staJoin s n).ic =
      { s.ic.icNode n with niAuthmode := (bssNode s.ic).niAuthmode } := by
  simp [bssNode, staJoin, newState, copyBss, Ic.setNode]

theorem associate_inv {p : AssociateParams} {mem : Bool} (h : PortInv s)
    (hok : PortOk s (.associate p mem)) : PortInv (associate s p mem).1 := by
  rw [associate]
  split
  · next hssid =>
    have htarget : associateTarget { s.ic with icFlags := p.flags } p mem =
        associateTarget s.ic p mem := rfl
    simp only [htarget]
    rw [PortOk] at hok
    have hok := hok hssid
    split
    · next hnone =>
      rw [hnone] at hok
      constructor
      · intro ha hp
        exact h.granted ha (hok hp)
      · intro hp
        exact h.authmode (hok hp)
    · next n hsome =>
      rw [hsome] at hok
      constructor
      · intro ha hp
        rw [bssNode_staJoin] at ha
        have hauth : (s.ic.icNode n).niAuth = true := by
          by_cases hn : n = s.ic.icBss
          · subst hn
            simpa [Ic.setNode] using ha
          · simpa [Ic.setNode, update_of_ne hn] using ha
        have hclosed := hok hp
        rw [joinsClosed, hauth] at hclosed
        cases hclosed
      · intro hp
        have hpriv : p.flags.privacy = true := hp
        rw [bssNode_staJoin]
        simp [bssNode, Ic.setNode, hpriv]
  · exact h

theorem installKey_group (ic : Ic ν) (h : p.isGroup = true) :
    Keeps ic (installKey ic p k) := by
  rw [installKey]
  simp only [h, if_true]
  split <;> exact Keeps.of_eq rfl rfl

theorem installKey_pairwise (ic : Ic ν) (h : p.isGroup = false) :
    (installKey ic p k).icFlags = ic.icFlags ∧
      (bssNode (installKey ic p k)).niAuthmode = (bssNode ic).niAuthmode := by
  simp [installKey, h, bssNode, nodeAuthorize, Ic.setNode, Ic.setKey]

theorem staSetKey_inv {attach : Bool × Bool} (h : PortInv s) :
    PortInv (staSetKey s p attach) := by
  rw [staSetKey]
  cases hk : setKey s.ic p attach with
  | mk ic ret =>
    -- The mark stays wherever it was set.
    have hmark : s.granted = true →
        (if ret = 0 ∧ p.isGroup = false ∧ p.alg ≠ .none then true else s.granted) = true := by
      intro hg
      split
      · rfl
      · exact hg
    rcases setKey_cases hk with ⟨_, rfl⟩ | ⟨_, _, rfl⟩ | ⟨rfl, key, k, hkey, _, _, _, rfl⟩
    · exact h.keep (Keeps.of_eq rfl rfl) fun _ _ => hmark
    · exact h.keep (Keeps.of_eq rfl rfl) fun _ _ => hmark
    · cases hgroup : p.isGroup with
      | true =>
        refine h.keep (installKey_group s.ic hgroup) fun _ _ hg => ?_
        rw [hgroup] at hmark
        exact hmark hg
      | false =>
        obtain ⟨hflags, hmode⟩ := installKey_pairwise s.ic (k := k) hgroup
        have halg : p.alg ≠ .none := by
          intro halg
          rw [SetKeyParams.ccmpKey, halg] at hkey
          cases hkey
        constructor
        · intro _ _
          exact if_pos ⟨rfl, rfl, halg⟩
        · intro hp
          exact hmode.trans (h.authmode (hflags ▸ hp))

theorem setSuppPort_inv (h : PortInv s) (authorized : Bool) :
    PortInv (setSuppPort s authorized) := by
  rw [setSuppPort]
  split
  · constructor
    · intro _ _
      rfl
    · intro hp
      have := h.authmode hp
      simpa [bssNode, nodeAuthorize, Ic.setNode] using this
  · refine h.keep ⟨rfl, ?_, ?_⟩ fun _ _ hg => hg
    · simp [bssNode, nodeUnauthorize, Ic.setNode]
    · simp [bssNode, nodeUnauthorize, Ic.setNode]

theorem staStep_inv {op : StaOp ν} (h : PortInv s) (hok : PortOk s op)
    (hs : staStep s op = some s') : PortInv s' := by
  have hsame : ∀ {s' : Sta ν}, s'.ic = s.ic → s'.granted = s.granted → PortInv s' := by
    intro s' hic hg
    refine h.keep (Keeps.of_eq (by rw [hic]) (by rw [hic])) fun _ _ hgr => ?_
    rw [hg]
    exact hgr
  cases op with
  | associate p mem =>
    cases hs
    exact associate_inv h hok
  | deauthenticate reason | request nstate arg | drop =>
    cases hs
    exact hsame rfl rfl
  | setKey p attach =>
    cases hs
    exact staSetKey_inv h
  | setSuppPort authorized =>
    cases hs
    exact setSuppPort_inv h authorized
  | recvDeauth addr1 len =>
    cases hs
    cases recvMgmtDeauth s.ic addr1 len with
    | none => exact h
    | some r => exact hsame rfl rfl
  | recvDisassoc addr1 len =>
    cases hs
    cases recvMgmtDisassoc s.ic addr1 len with
    | none => exact h
    | some r => exact hsame rfl rfl
  | transition fresh mbuf => exact transition_inv h hok hs
  | scanAdd n macaddr =>
    rw [staStep] at hs
    split at hs
    · cases hs
    next hfree =>
    cases hs
    rw [not_or] at hfree
    refine h.keep (Keeps.of_eq rfl ?_) fun _ _ hg => hg
    simp [bssNode, allocNode, Ic.setNode, Ic.setKey, update_of_ne (Ne.symm hfree.2)]
  | scanRemove n =>
    cases hs
    exact h.keep (Keeps.of_eq rfl rfl) fun _ _ hg => hg

/-- A station after `ieee80211_ifattach`: no privacy, a closed port. -/
def staInit (s : Sta ν) : Prop :=
  s.ic.icOpmode = .sta ∧ (bssNode s.ic).niAuth = false ∧ s.ic.icFlags.privacy = false ∧
    s.requests = [] ∧ s.granted = false

/-- In a run in which protected networks are joined, and `S_AUTH` entered in them,
with a closed port, and no failing association switches privacy on: wherever the
port of the current node is open and privacy is on, a pairwise key was installed
or `freertos_set_supp_port` called for this association. -/
theorem port_open_implies_granted (s : Sta ν) (h : Reach staInit staStep PortOk s)
    (hauth : (s.ic.icNode s.ic.icBss).niAuth = true) (hpriv : s.ic.icFlags.privacy = true) :
    s.granted = true := by
  have hinv : PortInv s := by
    refine h.invariant ?_ fun _ _ _ => staStep_inv
    rintro s ⟨_, ha, hp, _⟩
    constructor
    · intro ha'
      rw [ha] at ha'
      cases ha'
    · intro hp'
      rw [hp] at hp'
      cases hp'
  exact hinv.granted hauth hpriv

/-! ### Two runs -/

def portSampleAddr (n : UInt8) : List UInt8 := replicate 6 n

/-- A station with its own node and room for two more. -/
def portSample : Sta (Fin 3) :=
  { ic :=
      { icOpmode := .sta, icState := .init, icFlags := ⟨false, false, false, false, false⟩,
        icBss := 0
        icNode := fun _ =>
          { niMacaddr := portSampleAddr 4, niBssid := [], niAuth := false, niQos := false
            niAuthmode := .open, niTxseqs := fun _ => 0 }
        icScan := [0]
        icKeys := { key := fun _ => resetkey, defTxkey := none, hwCcm := false, datapad := false }
        icMyaddr := portSampleAddr 4, icRoamingAuto := false, icFragthreshold := 2346
        icNoack := fun _ => false }
    requests := [], granted := false }

theorem portSample_init : staInit portSample := ⟨rfl, rfl, rfl, rfl, rfl⟩

/-- An access point is found, the station joins it and comes up to `S_RUN`. -/
def portSampleJoin : List (StaOp (Fin 3)) :=
  [.scanAdd 1 (portSampleAddr 8),
    .associate { ssid := some [97], bssid := some (portSampleAddr 8), wpaIe := some [48]
                 pairwiseSuite := .ccmp, groupSuite := .ccmp, dropUnencrypted := true } true,
    .transition 2 true, .request .assoc fc0SubtypeAuth, .transition 2 true, .request .run 0x10,
    .transition 2 true]

def portSampleKey : StaOp (Fin 3) :=
  .setKey { alg := .ccmp, addr := some (portSampleAddr 8), keyIdx := 0, setTx := true, seq := none
            key := some (replicate 16 7) } (true, true)

/-- The access point deauthenticates the station, which comes up to `S_RUN` once
more. The port is open again, without a key. -/
theorem port_open_after_deauth :
    ∃ s : Sta (Fin 3), Reach staInit staStep Any s ∧ s.ic.icState = .run ∧
      (s.ic.icNode s.ic.icBss).niAuth = true ∧ s.ic.icFlags.privacy = true ∧ s.granted = false ∧
      (s.ic.icKeys.key (.ucast s.ic.icBss)).wkCipher = .none :=
  Reach.of_run
    (portSampleJoin ++ [portSampleKey, .recvDeauth (portSampleAddr 4) 2, .transition 2 true,
      .request .assoc fc0SubtypeAuth, .transition 2 true, .request .run 0x10, .transition 2 true])
    portSample_init (runOk_any _ _) (by decide +kernel)

/-- The first association, up to the key. -/
theorem port_open_implies_granted_sample :
    ∃ s : Sta (Fin 3), Reach staInit staStep PortOk s ∧ s.ic.icState = .run ∧
      (s.ic.icNode s.ic.icBss).niAuth = true ∧ s.ic.icFlags.privacy = true ∧ s.granted = true := by
  obtain ⟨s, hreach, hstate, hauth, hpriv⟩ :
      ∃ s : Sta (Fin 3), Reach staInit staStep PortOk s ∧ s.ic.icState = .run ∧
        (s.ic.icNode s.ic.icBss).niAuth = true ∧ s.ic.icFlags.privacy = true :=
    Reach.of_run (portSampleJoin ++ [portSampleKey]) portSample_init (by decide +kernel)
      (by decide +kernel)
  exact ⟨s, hreach, hstate, hauth, hpriv, port_open_implies_granted s hreach hauth hpriv⟩

end Net80211.Wpa
