import Net80211.Usb.Toggle

/-!
# When the toggles of a pipe fit together

A URB gets the toggle that was left by the last transfer that had completed when it was submitted.
This is the toggle of its predecessor if the transfers in between have changed it an even number of
times.
-/

namespace Net80211.Usb

open Lib List Option

variable {p p' : TogglePipe} {α : Type}

/-- The toggle that URB number `j` was given. -/
def TogglePipe.start (p : TogglePipe) (j : Nat) : Bool := (p.urbs.getD j ⟨false, 0⟩).start

def TogglePipe.ahead (p : TogglePipe) (j : Nat) : Nat := (p.urbs.getD j ⟨false, 0⟩).ahead

/-- The toggle that URB number `j` ends with. -/
def TogglePipe.final (p : TogglePipe) (j : Nat) : Bool := toggled (p.start j) (p.packets.getD j 0)

/-- The toggle of the pipe when `n` transfers have completed. -/
def TogglePipe.after (p : TogglePipe) : Nat → Bool
  | 0 => false
  | j + 1 => p.final j

/-- Every URB whose predecessor has completed was given the toggle that the predecessor ended
with. -/
def TogglePipe.Continuous (p : TogglePipe) : Prop :=
  ∀ j, j + 1 < p.urbs.length → j < p.packets.length → p.start (j + 1) = p.final j

/-- The transfers that had not completed when a URB was submitted have an even number of packets,
all together. -/
def TogglePipe.EvenAhead (p : TogglePipe) : Prop :=
  ∀ j, j < p.urbs.length → j ≤ p.packets.length →
    ((p.packets.drop (j - p.ahead j)).take (p.ahead j)).sum % 2 = 0

theorem toggled_toggled (start : Bool) (m n : Nat) :
    toggled (toggled start m) n = toggled start (m + n) := by
  rcases Nat.mod_two_eq_zero_or_one m with hm | hm <;>
  · rcases Nat.mod_two_eq_zero_or_one n with hn | hn <;> simp [toggled, Nat.add_mod, hm, hn]

theorem eq_toggled_iff (start : Bool) (n : Nat) : start = toggled start n ↔ n % 2 = 0 := by
  rw [toggled]
  rcases Nat.mod_two_eq_zero_or_one n with hn | hn
  · rw [if_neg (by omega)]
    exact iff_of_true rfl hn
  · rw [if_pos hn]
    refine iff_of_false (fun h => ?_) (by omega)
    cases start <;> cases h

/-- A URB starts with the toggle the pipe had when as many transfers had completed as were not ahead
of it. -/
structure ToggleInv (p : TogglePipe) : Prop where
  completed : p.packets.length ≤ p.urbs.length
  dataToggle : p.dataToggle = p.after p.packets.length
  ahead : ∀ j < p.urbs.length, p.ahead j ≤ j ∧ j - p.ahead j ≤ p.packets.length
  start : ∀ j < p.urbs.length, p.start j = p.after (j - p.ahead j)

theorem getD_append_left {l l' : List α} {d : α} {i : Nat} (h : i < l.length) :
    (l ++ l').getD i d = l.getD i d := by
  rw [getD_eq_getElem?_getD, getD_eq_getElem?_getD, getElem?_append_left h]

theorem getD_append_length (l : List α) (a d : α) : (l ++ [a]).getD l.length d = a := by
  rw [getD_eq_getElem?_getD, getElem?_concat_length, getD_some]

theorem ToggleInv.transfer (h : ToggleInv p) :
    ToggleInv { p with urbs :=
      p.urbs ++ [{ start := p.dataToggle, ahead := p.urbs.length - p.packets.length }] } := by
  have hlen := h.completed
  generalize hq :
    ({ p with urbs :=
        p.urbs ++ [{ start := p.dataToggle, ahead := p.urbs.length - p.packets.length }] } :
    TogglePipe) = q
  have hpackets : q.packets = p.packets := by rw [← hq]
  have hurbs :
      q.urbs = p.urbs ++
      [{ start := p.dataToggle, ahead := p.urbs.length - p.packets.length }] := by rw [← hq]
  have htoggle : q.dataToggle = p.dataToggle := by rw [← hq]
  have hold : ∀ j < p.urbs.length, q.start j = p.start j ∧ q.ahead j = p.ahead j := by
    intro j hj
    rw [TogglePipe.start, TogglePipe.ahead, hurbs, getD_append_left hj]
    exact ⟨rfl, rfl⟩
  have hafter : ∀ n ≤ p.urbs.length, q.after n = p.after n := by
    intro n hn
    cases n with
    | zero => rfl
    | succ j =>
      rw [TogglePipe.after, TogglePipe.after, TogglePipe.final, TogglePipe.final, hpackets,
        (hold j hn).1]
  have hnew : q.start p.urbs.length = p.dataToggle ∧
      q.ahead p.urbs.length = p.urbs.length - p.packets.length := by
    rw [TogglePipe.start, TogglePipe.ahead, hurbs, getD_append_length]
    exact ⟨rfl, rfl⟩
  have hcases : ∀ j < q.urbs.length, j < p.urbs.length ∨ j = p.urbs.length := by
    intro j hj
    rw [hurbs, length_append, length_singleton] at hj
    omega
  refine ⟨?_, ?_, fun j hj => ?_, fun j hj => ?_⟩
  · rw [hpackets, hurbs, length_append]
    omega
  · rw [htoggle, hpackets, hafter _ hlen]
    exact h.dataToggle
  · rw [hpackets]
    rcases hcases j hj with hlt | rfl
    · rw [(hold j hlt).2]
      exact h.ahead j hlt
    · rw [hnew.2]
      omega
  · rcases hcases j hj with hlt | rfl
    · rw [(hold j hlt).1, (hold j hlt).2, hafter _ (by omega)]
      exact h.start j hlt
    · rw [hnew.1, hnew.2, hafter _ (by omega),
        show p.urbs.length - (p.urbs.length - p.packets.length) = p.packets.length by omega]
      exact h.dataToggle

theorem ToggleInv.complete (h : ToggleInv p) {urb : ToggleUrb}
    (hurb : p.urbs[p.packets.length]? = some urb) (packets : Nat) :
    ToggleInv
      { p with dataToggle := toggled urb.start packets, packets := p.packets ++ [packets] } := by
  have hlt : p.packets.length < p.urbs.length := (List.getElem?_eq_some_iff.mp hurb).1
  generalize hq :
    ({ p with dataToggle := toggled urb.start packets, packets := p.packets ++ [packets] } :
    TogglePipe) = q
  have hurbs : q.urbs = p.urbs := by rw [← hq]
  have hpackets : q.packets = p.packets ++ [packets] := by rw [← hq]
  have hlen : q.packets.length = p.packets.length + 1 := by
    rw [hpackets, length_append, length_singleton]
  have hstart : ∀ j, q.start j = p.start j := fun j => by
    rw [TogglePipe.start, TogglePipe.start, hurbs]
  have hahead : ∀ j, q.ahead j = p.ahead j := fun j => by
    rw [TogglePipe.ahead, TogglePipe.ahead, hurbs]
  have hafter : ∀ n ≤ p.packets.length, q.after n = p.after n := by
    intro n hn
    cases n with
    | zero => rfl
    | succ j =>
      rw [TogglePipe.after, TogglePipe.after, TogglePipe.final, TogglePipe.final, hpackets, hstart,
        getD_append_left hn]
  refine ⟨?_, ?_, fun j hj => ?_, fun j hj => ?_⟩
  · rw [hlen, hurbs]
    exact hlt
  · have hurb' : p.start p.packets.length = urb.start := by
      rw [TogglePipe.start, getD_eq_getElem?_getD, hurb, getD_some]
    rw [hlen, TogglePipe.after, TogglePipe.final, hstart, hurb', hpackets, getD_append_length, ← hq]
  · rw [hahead, hlen]
    obtain ⟨hle, hbound⟩ := h.ahead j (hurbs ▸ hj)
    exact ⟨hle, by omega⟩
  · rw [hurbs] at hj
    rw [hstart, hahead, hafter _ (h.ahead j hj).2]
    exact h.start j hj

theorem ToggleInv.step (h : ToggleInv p) {op : ToggleOp} (hs : toggleStep p op = some p') :
    ToggleInv p' := by
  cases op with
  | transfer taken =>
    cases taken with
    | true => cases hs; exact h.transfer
    | false => cases hs; exact h
  | complete packets =>
    rw [toggleStep] at hs
    split at hs
    · cases hs
    · next urb hurb => cases hs; exact h.complete hurb packets

theorem toggleInv_init (h : toggleInit p) : ToggleInv p := by
  cases h
  refine ⟨Nat.le_refl _, rfl, fun j hj => ?_, fun j hj => ?_⟩
  · cases hj
  · cases hj

theorem ToggleInv.continuous_iff (h : ToggleInv p) :
    p.Continuous ↔ ∀ j, j < p.urbs.length → j ≤ p.packets.length → p.start j = p.after j := by
  constructor
  · intro hc j hj hle
    cases j with
    | zero =>
      have hstart := h.start 0 hj
      rwa [Nat.zero_sub] at hstart
    | succ j => exact hc j hj hle
  · exact fun hc j hj hlt => hc (j + 1) hj hlt

/-- As long as the toggles fit, `k` transfers change the toggle by all their packets. -/
theorem after_add (p : TogglePipe) (lo : Nat) : ∀ k, lo + k ≤ p.packets.length →
    (∀ i < k, p.start (lo + i) = p.after (lo + i)) →
    p.after (lo + k) = toggled (p.after lo) ((p.packets.drop lo).take k).sum := by
  intro k
  induction k with
  | zero => exact fun _ _ => rfl
  | succ k ih =>
    intro hlen hfit
    have hk : (p.packets.drop lo)[k]? = some (p.packets.getD (lo + k) 0) := by
      rw [getElem?_drop, getD_eq_getElem?_getD, getElem?_eq_getElem (by omega), getD_some]
    rw [← Nat.add_assoc, TogglePipe.after, TogglePipe.final, hfit k (Nat.lt_succ_self k),
      ih (by omega) fun i hi => hfit i (Nat.lt_succ_of_lt hi), toggled_toggled, take_add_one, hk,
      toList_some, sum_append, sum_singleton]

/-- Where the toggles fit up to a URB, they fit with it exactly if the transfers ahead of it have an
even number of packets. -/
theorem ToggleInv.fits_iff (h : ToggleInv p) {j : Nat} (hj : j < p.urbs.length)
    (hle : j ≤ p.packets.length) (hfit : ∀ i < j, p.start i = p.after i) :
    p.start j = p.after j ↔ ((p.packets.drop (j - p.ahead j)).take (p.ahead j)).sum % 2 = 0 := by
  have hahead := (h.ahead j hj).1
  have hafter := after_add p (j - p.ahead j) (p.ahead j) (by omega) fun i hi => hfit _ (by omega)
  rw [Nat.sub_add_cancel hahead] at hafter
  rw [hafter, h.start j hj]
  exact eq_toggled_iff _ _

/-- In every run, the toggles fit together exactly if at every submission the transfers that had not
completed have an even number of packets. -/
theorem toggle_continuous_iff {p : TogglePipe} (h : Reach toggleInit toggleStep Any p) :
    p.Continuous ↔ p.EvenAhead := by
  have hinv : ToggleInv p := h.invariant (fun _ => toggleInv_init) fun _ _ _ hi _ hs => hi.step hs
  rw [hinv.continuous_iff]
  constructor
  · intro hfit j hj hle
    exact (hinv.fits_iff hj hle fun i hi => hfit i (by omega) (by omega)).mp (hfit j hj hle)
  · intro heven j
    induction j using Nat.strongRecOn with
    | _ j ih =>
      intro hj hle
      exact (hinv.fits_iff hj hle fun i hi => ih i hi (by omega) (by omega)).mpr (heven j hj hle)

/-- Two transfers overlap; the first has one packet. The second starts with the toggle that the
first started with. -/
theorem toggle_repeated :
    ∃ p, Reach toggleInit toggleStep Any p ∧ p.urbs = [⟨false, 0⟩, ⟨false, 1⟩] ∧ p.packets = [1] ∧
    ¬ p.Continuous := by
  obtain ⟨p, hr, hurbs, hpackets⟩ : ∃ p, Reach toggleInit toggleStep Any p ∧
    p.urbs = [⟨false, 0⟩, ⟨false, 1⟩] ∧
      p.packets = [1] :=
    Reach.of_run [.transfer true, .transfer true, .complete 1] rfl (runOk_any _ _) (by decide)
  refine ⟨p, hr, hurbs, hpackets, fun hc => ?_⟩
  have hfit := hc 0 (by rw [hurbs]; decide) (by rw [hpackets]; decide)
  rw [TogglePipe.final, TogglePipe.start, TogglePipe.start, hurbs, hpackets] at hfit
  cases hfit

theorem toggle_continuous_iff_sample :
    ∃ p, Reach toggleInit toggleStep Any p ∧ p.urbs = [⟨false, 0⟩, ⟨false, 1⟩] ∧ p.packets = [2] ∧
    p.Continuous := by
  obtain ⟨p, hr, hurbs, hpackets⟩ : ∃ p, Reach toggleInit toggleStep Any p ∧
    p.urbs = [⟨false, 0⟩, ⟨false, 1⟩] ∧
      p.packets = [2] :=
    Reach.of_run [.transfer true, .transfer true, .complete 2] rfl (runOk_any _ _) (by decide)
  refine ⟨p, hr, hurbs, hpackets, (toggle_continuous_iff hr).mpr fun j hj hle => ?_⟩
  rw [hpackets] at hle
  rw [TogglePipe.ahead, hurbs, hpackets]
  rcases Nat.le_one_iff_eq_zero_or_eq_one.mp hle with rfl | rfl
  · rfl
  · rfl

end Net80211.Usb
