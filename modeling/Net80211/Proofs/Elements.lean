import Net80211.Elements
import Net80211.Proofs.Rates

/-!
# Elements lie inside their frame

The loop of a handler has checked an element against the end of the frame before
it looks at it, so the `switch` may take it as `Inside` (`sat_elements`), and a
pointer that it saves stays so. Everything that reads an element later needs no
more than that and a length that it checks itself: the tests for vendor elements,
`ieee80211_saveie`, and the parsers for WPA, RSN and WME, which count down what is
left of the element as they go.
-/

namespace Net80211

open Lib Lib.Guarded

variable {frame : List UInt8} {p : Nat}

theorem sat_leRead2 (h : p + 2 ≤ frame.length) : Sat (fun _ => True) (leRead2 frame p) := by
  rw [leRead2]
  refine (sat_readAt (by omega)).bind fun a _ => ?_
  exact (sat_readAt (by omega)).bind fun b _ => trivial

theorem sat_leRead4 (h : p + 4 ≤ frame.length) : Sat (fun _ => True) (leRead4 frame p) := by
  rw [leRead4]
  refine (sat_readAt (by omega)).bind fun a _ => ?_
  refine (sat_readAt (by omega)).bind fun b _ => ?_
  refine (sat_readAt (by omega)).bind fun c _ => ?_
  exact (sat_readAt (by omega)).bind fun d _ => trivial

/-! ## The loop -/

theorem sat_verifyLength {len : Int} {minlen : Nat} (h : 0 ≤ len) :
    Sat (fun _ => (minlen : Int) ≤ len) (verifyLength len minlen) := by
  rw [verifyLength]
  refine sat_ite (fun _ => trivial) (fun hn => ?_)
  show (minlen : Int) ≤ len
  omega

/-- An element inside the frame that says no more than `maxlen`. -/
structure Verified (frame : List UInt8) (maxlen p : Nat) : Prop where
  inside : Inside frame p
  le : ∀ n, frame[p + 1]? = some n → n.toNat ≤ maxlen

theorem sat_verifyElement {elem : Option Nat} (maxlen : UInt8) (h : ∀ p ∈ elem, Inside frame p) :
    Sat (Verified frame maxlen.toNat) (verifyElement frame maxlen elem) := by
  cases elem with
  | none => exact trivial
  | some p =>
    rw [verifyElement]
    refine (sat_readAt (h p rfl).lt).bind fun n hn => ?_
    refine sat_ite (fun _ => trivial) (fun hle => ⟨h p rfl, fun n' hn' => ?_⟩)
    rw [hn] at hn'
    cases hn'
    exact UInt8.le_iff_toNat_le.mp (UInt8.not_lt.mp hle)

variable {σ : Type} {visit : Nat → σ → Guarded MgmtDrop σ} {len : UInt8} {frm n : Nat}
  {s : Selectors}

theorem sat_elementRound (Inv : σ → Prop)
    (hv : ∀ p s, Inside frame p → Inv s → Sat Inv (visit p s)) (s : Nat × σ)
    (hs : s.1 ≤ frame.length ∧ Inv s.2) :
    Sat (Round (fun s : Nat × σ => s.1 ≤ frame.length ∧ Inv s.2)
      (fun s => frame.length - s.1) Inv s) (elementRound frame visit s) := by
  rw [elementRound]
  refine sat_ite (fun hlt => ?_) (fun _ => hs.2)
  refine (sat_readAt hlt).bind fun n hn => ?_
  refine (sat_verifyLength (by omega)).bind fun _ hlen => ?_
  have hin : Inside frame s.1 := ⟨n, hn, by omega⟩
  refine (hv s.1 s.2 hin hs.2).bind fun acc hacc => ?_
  refine (sat_readAt hlt).bind fun n' hn' => ?_
  have hle := hin.le_of_read hn'
  show (s.1 + (n'.toNat + 2) ≤ frame.length ∧ Inv acc) ∧
    frame.length - (s.1 + (n'.toNat + 2)) < frame.length - s.1
  exact ⟨⟨by omega, hacc⟩, by omega⟩

/-- The loop comes to its end, and what the `switch` keeps for an element inside
the frame holds there. -/
theorem sat_elements (Inv : σ → Prop) (hv : ∀ p s, Inside frame p → Inv s → Sat Inv (visit p s))
    {acc : σ} (hfrm : frm ≤ frame.length)
    (hacc : Inv acc) : Sat Inv (elements frame visit frm acc) :=
  sat_loop (fun s => frame.length - s.1) (sat_elementRound Inv hv) _ _ ⟨hfrm, hacc⟩
    (Nat.lt_succ_of_le (Nat.sub_le _ _))

/-! ## Vendor elements -/

theorem sat_isOui (hlen : 3 ≤ len.toNat) (oui : UInt32) (h : Inside frame p) :
    Sat (fun b => b = true → p + 2 + len.toNat < frame.length) (isOui frame len oui p) := by
  rw [isOui]
  refine (sat_readAt h.lt).bind fun n hn => ?_
  have hle := h.le_of_read hn
  refine sat_ite (fun hgt => ?_) (fun _ => fun hb => by cases hb)
  have hlt : len.toNat < n.toNat := UInt8.lt_iff_toNat_lt.mp hgt
  refine (sat_leRead4 (by omega)).bind fun w _ => ?_
  intro _
  omega

theorem sat_iswpaoui (h : Inside frame p) : Sat (fun _ => True) (iswpaoui frame p) :=
  (sat_isOui (by decide) wpaOui h).mono fun _ _ => trivial

theorem sat_iswmeoui (h : Inside frame p) : Sat (fun _ => True) (iswmeoui frame p) :=
  (sat_isOui (by decide) wmeOui h).mono fun _ _ => trivial

theorem sat_isWme (subtype : UInt8) (h : Inside frame p) :
    Sat (fun _ => True) (isWme frame subtype p) := by
  rw [isWme]
  refine (sat_isOui (by decide) wmeOui h).bind fun oui houi => ?_
  refine sat_ite (fun hb => ?_) (fun _ => trivial)
  have hlt : p + 2 + 5 < frame.length := houi hb
  exact (sat_readAt (by omega)).bind fun b _ => trivial

theorem sat_saveie (malloc : Bool) (ie : Option (List UInt8)) (h : Inside frame p) :
    Sat (fun _ => True) (saveie frame malloc ie p) := by
  rw [saveie]
  refine (sat_readAt h.lt).bind fun n hn => ?_
  have hle := h.le_of_read hn
  refine sat_ite (fun _ => ?_) (fun _ => trivial)
  exact (sat_readN (by omega)).bind fun bs _ => trivial

/-! ## WPA and RSN -/

/-- What is left of the element by the parser's count is left of the frame, and
`4 * n` of it is still to be read. -/
def Selectors.Ahead (frame : List UInt8) (n : Nat) (s : Selectors) : Prop :=
  s.frm + s.len.toNat ≤ frame.length ∧ n * 4 ≤ s.len.toNat

theorem Selectors.Ahead.next (h : s.Ahead frame (n + 1)) (w : UInt32) (keylen : UInt8) :
    ({ frm := s.frm + 4, len := s.len - 4, w := w, keylen := keylen } : Selectors).Ahead
    frame n := by
  obtain ⟨hin, hn⟩ := h
  have hsub : (s.len - 4).toNat = s.len.toNat - 4 :=
    toNat_sub_of_toNat_le (show 4 ≤ s.len.toNat by omega)
  show s.frm + 4 + (s.len - 4).toNat ≤ frame.length ∧ n * 4 ≤ (s.len - 4).toNat
  omega

theorem Selectors.Ahead.read (h : s.Ahead frame (n + 1)) :
    Sat (fun _ => True) (leRead4 frame s.frm) := by
  obtain ⟨hin, hn⟩ := h
  exact sat_leRead4 (by omega)

theorem sat_selectors {body : Selectors → Guarded MgmtDrop Selectors}
    (hbody : ∀ n s, Selectors.Ahead frame (n + 1) s →
      Sat (fun s' => s'.Ahead frame n ∧ s'.len = s.len - 4) (body s)) {k : Nat}
    (hin : s.frm + s.len.toNat ≤ frame.length) (hn : n * 4 + k ≤ s.len.toNat) :
    Sat (fun s' => s'.frm + s'.len.toNat ≤ frame.length ∧ k ≤ s'.len.toNat) (repeatN body n s) := by
  refine (sat_repeatN (fun n s => Selectors.Ahead frame n s ∧ n * 4 + k ≤ s.len.toNat) ?_ n s
    ⟨⟨hin, by omega⟩, hn⟩).mono fun s' hs' => ⟨hs'.1.1, by omega⟩
  rintro n s ⟨hs, hk⟩
  have hsub : (s.len - 4).toNat = s.len.toNat - 4 :=
    toNat_sub_of_toNat_le (show 4 ≤ s.len.toNat by omega)
  refine (hbody n s hs).mono fun s' hs' => ⟨hs'.1, ?_⟩
  rw [hs'.2, hsub]
  omega

theorem sat_ucastRound (shl32 : UInt32) (ie : SecIe) (n : Nat) (s : Selectors)
    (h : s.Ahead frame (n + 1)) :
    Sat (fun s' => s'.Ahead frame n ∧ s'.len = s.len - 4) (ucastRound frame shl32 ie s) := by
  rw [ucastRound]
  exact h.read.bind fun sel _ => ⟨h.next _ _, rfl⟩

theorem sat_keymgmtRound (ie : SecIe) (n : Nat) (s : Selectors) (h : s.Ahead frame (n + 1)) :
    Sat (fun s' => s'.Ahead frame n ∧ s'.len = s.len - 4) (keymgmtRound frame ie s) := by
  rw [keymgmtRound]
  exact h.read.bind fun sel _ => ⟨h.next _ _, rfl⟩

theorem sat_parseCaps (rsn : RsnParms)
    (hin : frm + len.toNat ≤ frame.length) : Sat (fun _ => True) (parseCaps frame frm len rsn) := by
  rw [parseCaps]
  refine sat_ite (fun hgt => ?_) (fun _ => trivial)
  have hlt : 2 < len.toNat := UInt8.lt_iff_toNat_lt.mp hgt
  exact (sat_leRead2 (by omega)).bind fun caps _ => trivial

theorem sat_parseKeymgmt (ie : SecIe) (rsn : RsnParms) (hin : frm + len.toNat ≤ frame.length)
    (hlen : 2 ≤ len.toNat) :
    Sat (fun _ => True) (parseKeymgmt frame ie frm len rsn) := by
  have hsub : (len - 2).toNat = len.toNat - 2 := toNat_sub_of_toNat_le hlen
  rw [parseKeymgmt]
  refine (sat_leRead2 (by omega)).bind fun n _ => ?_
  refine sat_ite (fun _ => trivial) (fun hn => ?_)
  have hall : frm + 2 + (len - 2).toNat ≤ frame.length := by omega
  have hroom : n.toNat * 4 + 0 ≤ (len - 2).toNat := Nat.not_lt.mp hn
  refine (sat_selectors (sat_keymgmtRound ie) hall hroom).bind fun s hs => ?_
  refine sat_ite (fun _ => trivial) (fun _ => ?_)
  exact (sat_parseCaps _ hs.1).bind fun rsn _ => trivial

theorem sat_parseUcast (shl32 : UInt32) (ie : SecIe) (rsn : RsnParms)
    (hin : frm + len.toNat ≤ frame.length) (hlen : 2 ≤ len.toNat) :
    Sat (fun _ => True) (parseUcast frame shl32 ie frm len rsn) := by
  have hsub : (len - 2).toNat = len.toNat - 2 := toNat_sub_of_toNat_le hlen
  rw [parseUcast]
  refine (sat_leRead2 (by omega)).bind fun n _ => ?_
  refine sat_ite (fun _ => trivial) (fun hn => ?_)
  have hall : frm + 2 + (len - 2).toNat ≤ frame.length := by omega
  refine (sat_selectors (sat_ucastRound shl32 ie) hall (Nat.not_lt.mp hn)).bind fun s hs => ?_
  exact sat_ite (fun _ => trivial) (fun _ => sat_parseKeymgmt ie _ hs.1 hs.2)

/-- The least length of an element covers what stands in front of the ciphers. -/
theorem sat_parseSecIe (shl32 : UInt32) {ie : SecIe} (hie : ie.oui.toNat + 10 ≤ ie.minlen.toNat)
    (enabled : Bool) (rsn : RsnParms) (h : Inside frame p) :
    Sat (fun _ => True) (parseSecIe frame shl32 ie enabled p rsn) := by
  rw [parseSecIe]
  refine (sat_readAt h.lt).bind fun len hlen => ?_
  have hle := h.le_of_read hlen
  refine sat_ite (fun _ => trivial) (fun _ => sat_ite (fun _ => trivial) (fun hmin => ?_))
  have hge : ie.minlen.toNat ≤ len.toNat := UInt8.le_iff_toNat_le.mp (UInt8.not_lt.mp hmin)
  have houi : (len - ie.oui).toNat = len.toNat - ie.oui.toNat := toNat_sub_of_toNat_le (by omega)
  have hsub : (len - ie.oui - 6).toNat = (len - ie.oui).toNat - 6 :=
    toNat_sub_of_toNat_le (show 6 ≤ (len - ie.oui).toNat by omega)
  refine (sat_leRead2 (by omega)).bind fun version _ => ?_
  refine sat_ite (fun _ => trivial) (fun _ => ?_)
  refine (sat_leRead4 (by omega)).bind fun sel _ => ?_
  refine sat_ite (fun _ => trivial) (fun _ => ?_)
  exact sat_parseUcast shl32 ie _ (by omega) (by omega)

theorem sat_parseWpa (shl32 : UInt32) (wpa1 : Bool) (rsn : RsnParms) (h : Inside frame p) :
    Sat (fun _ => True) (parseWpa frame shl32 wpa1 p rsn) :=
  sat_parseSecIe shl32 (by decide) wpa1 rsn h

theorem sat_parseRsn (shl32 : UInt32) (wpa2 : Bool) (rsn : RsnParms) (h : Inside frame p) :
    Sat (fun _ => True) (parseRsn frame shl32 wpa2 p rsn) :=
  sat_parseSecIe shl32 (by decide) wpa2 rsn h

/-! ## WME parameters -/

theorem sat_wmeRound (n : Nat) (s : Nat × List WmeParams) (h : s.1 + 4 * (n + 1) ≤ frame.length) :
    Sat (fun s' => s'.1 + 4 * n ≤ frame.length) (wmeRound frame s) := by
  rw [wmeRound]
  refine (sat_readAt (by omega)).bind fun b0 _ => ?_
  refine (sat_readAt (by omega)).bind fun b1 _ => ?_
  refine (sat_leRead2 (by omega)).bind fun txop _ => ?_
  show s.1 + 4 + 4 * n ≤ frame.length
  omega

theorem sat_parseWmeparams (wme : ChanAccParams) (h : Inside frame p) :
    Sat (fun _ => True) (parseWmeparams frame wme p) := by
  rw [parseWmeparams]
  refine (sat_readAt h.lt).bind fun len hlen => ?_
  have hle := h.le_of_read hlen
  refine sat_ite (fun _ => trivial) (fun hmin => ?_)
  have hge : 24 ≤ len.toNat := UInt8.le_iff_toNat_le.mp (UInt8.not_lt.mp hmin)
  refine (sat_readAt (by omega)).bind fun qosinfo _ => ?_
  refine sat_ite (fun _ => trivial) (fun _ => ?_)
  have hall : p + 10 + 4 * 4 ≤ frame.length := by omega
  exact (sat_repeatN (fun n s => s.1 + 4 * n ≤ frame.length) sat_wmeRound 4 (p + 10, []) hall).bind
    fun s _ => trivial

end Net80211
