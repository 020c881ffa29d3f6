import Mathlib.Algebra.BigOperators.Group.Finset.Basic
import Mathlib.Algebra.Ring.Nat

/-!
# Runs of a system

A system is a set of initial states and a partial function that takes a step; a
step that the state does not allow is `none`. Results about a system are about
the states it reaches, all of them or those it reaches by steps that meet a
condition: `Reach` takes the condition as a parameter, and `Any` is none.

An invariant needs the initial states and one step (`Reach.invariant`). That work gets done needs a
measure which every internal step lowers: then no run of internal steps is longer than the measure
(`runSteps_length`), and one of them ends where no internal step is left (`exists_stuck`).
`progress` is both, with what holds at the end. Where other steps may come between, the steps of one
kind count down to what is waited for (`runSteps_countdown`). The measure of a system of several
parts is a sum, and a step changes one part (`sum_update`, `sum_map_set`), and so does the number of
the parts of one kind (`card_update`).
-/

namespace Net80211.Lib

open List Function Option

variable {σ α : Type}

/-- The states reached by steps that meet `ok`. -/
inductive Reach (init : σ → Prop) (step : σ → α → Option σ) (ok : σ → α → Prop) : σ → Prop where
  | init {s : σ} : init s → Reach init step ok s
  | step {s s' : σ} {a : α} :
      Reach init step ok s → ok s a → step s a = some s' → Reach init step ok s'

/-- A step that is only there where `p` holds. -/
theorem of_guard {p : Prop} [Decidable p] {s s' : σ} (h : (if p then some s else none) = some s') :
    p ∧ s = s' := by
  obtain ⟨hp, h⟩ := ite_none_right_eq_some.mp h
  exact ⟨hp, Option.some.inj h⟩

/-- No condition. -/
def Any (_ : σ) (_ : α) : Prop := True

variable {init : σ → Prop} {step : σ → α → Option σ} {ok : σ → α → Prop}

theorem Reach.invariant {Inv : σ → Prop} (h0 : ∀ s, init s → Inv s)
    (hstep : ∀ s a s', Inv s → ok s a → step s a = some s' → Inv s') {s : σ}
    (h : Reach init step ok s) : Inv s := by
  induction h with
  | init hi => exact h0 _ hi
  | step _ hok hs ih => exact hstep _ _ _ ih hok hs

/-- Take the steps of a list. -/
def runSteps (step : σ → α → Option σ) : σ → List α → Option σ
  | s, [] => some s
  | s, a :: as =>
    match step s a with
    | none => none
    | some s' => runSteps step s' as

/-- Does every step of a list meet `ok` at its state? -/
def runOk (step : σ → α → Option σ) (ok : σ → α → Prop) : σ → List α → Prop
  | _, [] => True
  | s, a :: as => ok s a ∧ ∀ s', step s a = some s' → runOk step ok s' as

theorem runSteps_cons {a : α} {as : List α} {s s' : σ} (h : runSteps step s (a :: as) = some s') :
    ∃ s₁, step s a = some s₁ ∧ runSteps step s₁ as = some s' := by
  rw [runSteps] at h
  cases ha : step s a with
  | none => rw [ha] at h; cases h
  | some s₁ => rw [ha] at h; exact ⟨s₁, rfl, h⟩

theorem Reach.run (as : List α) : ∀ {s s' : σ}, Reach init step ok s → runOk step ok s as →
    runSteps step s as = some s' → Reach init step ok s' := by
  induction as with
  | nil =>
    intro s s' h _ hs
    injection hs with hs
    exact hs ▸ h
  | cons a as ih =>
    intro s s' h hok hs
    obtain ⟨s1, ha, hs⟩ := runSteps_cons hs
    exact ih (h.step hok.1 ha) (hok.2 s1 ha) hs

theorem runOk_of_forall (h : ∀ s a, ok s a) : ∀ (as : List α) (s : σ), runOk step ok s as
  | [], _ => trivial
  | a :: as, s => ⟨h s a, fun s' _ => runOk_of_forall h as s'⟩

theorem runOk_any (as : List α) (s : σ) : runOk step Any s as :=
  runOk_of_forall (fun _ _ => trivial) as s

/-- Steps of a list can be checked by taking them. -/
instance decidableRunOk [∀ s a, Decidable (ok s a)] :
    ∀ (s : σ) (as : List α), Decidable (runOk step ok s as)
  | _, [] => .isTrue trivial
  | s, a :: as =>
    match h : step s a with
    | none =>
      decidable_of_iff (ok s a) ⟨fun hok => ⟨hok, fun s' hs => by rw [h] at hs; cases hs⟩, And.left⟩
    | some s' =>
      haveI := decidableRunOk s' as
      decidable_of_iff (ok s a ∧ runOk step ok s' as)
        ⟨fun hok => ⟨hok.1, fun s₂ hs => by rw [h] at hs; cases hs; exact hok.2⟩,
          fun hok => ⟨hok.1, hok.2 s' h⟩⟩

theorem Reach.of_run {P : σ → Prop} [DecidablePred P] {s : σ} (as : List α) (h0 : init s)
    (hok : runOk step ok s as)
    (h : (runSteps step s as).map (fun s' => decide (P s')) = some true) :
    ∃ s', Reach init step ok s' ∧ P s' := by
  obtain ⟨s', hs', hP⟩ := map_eq_some_iff.mp h
  exact ⟨s', Reach.run as (.init h0) hok hs', of_decide_eq_true hP⟩

/-! ## Progress -/

/-- No internal step that meets `ok` is left. -/
def Stuck (step : σ → α → Option σ) (ok : σ → α → Prop) (internal : α → Prop) (s : σ) : Prop :=
  ∀ a, internal a → ok s a → step s a = none

variable {internal : α → Prop} {Inv : σ → Prop} {μ : σ → Nat} {ι : Type} {i : ι}

/-- What internal steps keep, a run of internal steps keeps, and it is no longer
than the measure allows. -/
theorem runSteps_length
    (hstep : ∀ s a s', Inv s → internal a → ok s a → step s a = some s' → Inv s' ∧ μ s' < μ s) :
    ∀ (as : List α) (s s' : σ), Inv s → (∀ a ∈ as, internal a) → runOk step ok s as →
      runSteps step s as = some s' → Inv s' ∧ as.length + μ s' ≤ μ s := by
  intro as
  induction as with
  | nil =>
    intro s s' hinv _ _ hs
    cases hs
    exact ⟨hinv, Nat.le_of_eq (Nat.zero_add _)⟩
  | cons a as ih =>
    intro s s' hinv hint hok hs
    obtain ⟨s1, ha, hs⟩ := runSteps_cons hs
    obtain ⟨hinv1, hlt⟩ := hstep s a s1 hinv (hint a mem_cons_self) hok.1 ha
    obtain ⟨hinv', hle⟩ := ih s1 s' hinv1 (fun b hb => hint b (mem_cons_of_mem _ hb))
      (hok.2 s1 ha) hs
    refine ⟨hinv', ?_⟩
    rw [length_cons]
    omega

theorem exists_stuck
    (hstep : ∀ s a s', Inv s → internal a → ok s a → step s a = some s' → Inv s' ∧ μ s' < μ s)
    (s : σ) (hinv : Inv s) :
    ∃ as s', (∀ a ∈ as, internal a) ∧ runOk step ok s as ∧ runSteps step s as = some s' ∧
      Stuck step ok internal s' := by
  induction hn : μ s using Nat.strongRecOn generalizing s with
  | ind n ih =>
    by_cases hstuck : Stuck step ok internal s
    · exact ⟨[], s, by simp, trivial, rfl, hstuck⟩
    · rw [Stuck] at hstuck
      push Not at hstuck
      obtain ⟨a, hint, hok, ha⟩ := hstuck
      obtain ⟨s1, hs1⟩ := ne_none_iff_exists'.mp ha
      obtain ⟨hinv1, hlt⟩ := hstep s a s1 hinv hint hok hs1
      obtain ⟨as, s', hall, hoks, hrun, hend⟩ := ih (μ s1) (hn ▸ hlt) s1 hinv1 rfl
      refine ⟨a :: as, s', ?_, ⟨hok, ?_⟩, ?_, hend⟩
      · intro b hb
        rcases mem_cons.mp hb with rfl | hb
        · exact hint
        · exact hall b hb
      · intro s2 hs2
        rw [hs1] at hs2
        injection hs2 with hs2
        exact hs2 ▸ hoks
      · rw [runSteps, hs1]
        exact hrun

/-- Every run of internal steps is bounded and gets to what holds at the end of
one, and there is such a run. -/
theorem progress {Q : σ → Prop}
    (hstep : ∀ s a s', Inv s → internal a → ok s a → step s a = some s' → Inv s' ∧ μ s' < μ s)
    (hend : ∀ s, Inv s → Stuck step ok internal s → Q s) (s : σ) (hinv : Inv s) :
    (∀ as s', (∀ a ∈ as, internal a) → runOk step ok s as → runSteps step s as = some s' →
      as.length ≤ μ s ∧ (Stuck step ok internal s' → Q s')) ∧
    ∃ as s', (∀ a ∈ as, internal a) ∧ runOk step ok s as ∧ runSteps step s as = some s' ∧ Q s' := by
  constructor
  · intro as s' hall hok hrun
    obtain ⟨hinv', hle⟩ := runSteps_length hstep as s s' hinv hall hok hrun
    exact ⟨Nat.le_trans (Nat.le_add_right _ _) hle, hend s' hinv'⟩
  · obtain ⟨as, s', hall, hok, hrun, hstuck⟩ := exists_stuck hstep s hinv
    obtain ⟨hinv', _⟩ := runSteps_length hstep as s s' hinv hall hok hrun
    exact ⟨as, s', hall, hok, hrun, hend s' hinv' hstuck⟩

/-- Two conditions on the steps that come to the same where `Inv` holds. -/
theorem runOk_iff {ok' : σ → α → Prop} (hiff : ∀ s a, Inv s → (ok s a ↔ ok' s a))
    (hinv : ∀ s a s', Inv s → ok s a → step s a = some s' → Inv s') :
    ∀ (as : List α) {s : σ}, Inv s → (runOk step ok s as ↔ runOk step ok' s as) := by
  intro as
  induction as with
  | nil => exact fun _ => Iff.rfl
  | cons a as ih =>
    intro s h
    constructor
    · rintro ⟨hok, hrest⟩
      exact ⟨(hiff s a h).mp hok, fun s' hs => (ih (hinv s a s' h hok hs)).mp (hrest s' hs)⟩
    · rintro ⟨hok, hrest⟩
      have hok := (hiff s a h).mpr hok
      exact ⟨hok, fun s' hs => (ih (hinv s a s' h hok hs)).mpr (hrest s' hs)⟩

/-! ## Systems of parts -/

theorem runSteps_keeps {P : σ → Prop} (hstep : ∀ s a s', step s a = some s' → P s → P s') :
    ∀ (as : List α) {s s' : σ}, P s → runSteps step s as = some s' → P s' := by
  intro as
  induction as with
  | nil =>
    intro s s' h hs
    injection hs with hs
    exact hs ▸ h
  | cons a as ih =>
    intro s s' h hs
    obtain ⟨s1, ha, hs⟩ := runSteps_cons hs
    exact ih (hstep s a s1 ha h) hs

theorem runSteps_replicate {P : σ → Prop} {a : α}
    (h : ∀ s, P s → ∃ s', step s a = some s' ∧ P s' ∧ μ s' = μ s + 1) : ∀ (n : Nat) {s : σ}, P s →
      ∃ s', runSteps step s (replicate n a) = some s' ∧ P s' ∧ μ s' = μ s + n := by
  intro n
  induction n with
  | zero => exact fun {s} hs => ⟨s, rfl, hs, rfl⟩
  | succ n ih =>
    intro s hs
    obtain ⟨s1, ha, hP1, hμ1⟩ := h s hs
    obtain ⟨s', hrun, hP', hμ'⟩ := ih hP1
    refine ⟨s', ?_, hP', by omega⟩
    rw [replicate_succ, runSteps, ha]
    exact hrun

/-- Something is at most `n` steps of one kind away, and no other step puts it off. Then
it has come when more than `n` such steps were taken, whatever came between them. -/
theorem runSteps_countdown {Done : σ → Prop} {wait : σ → Nat → Prop} (counts : α → Bool)
    (hinv : ∀ s a s', Inv s → step s a = some s' → Inv s')
    (hdone : ∀ s a s', step s a = some s' → Done s → Done s')
    (hwait : ∀ s a s' n, Inv s → wait s n → step s a = some s' →
      Done s' ∨ ∃ m, n = m + (counts a).toNat ∧ wait s' m) :
    ∀ (as : List α) {s s' : σ} {n : Nat}, Inv s → wait s n → runSteps step s as = some s' →
      n < as.countP counts → Done s' := by
  intro as
  induction as with
  | nil =>
    intro s s' n _ _ _ hn
    exact absurd hn (Nat.not_lt_zero _)
  | cons a as ih =>
    intro s s' n hi hw hs hn
    obtain ⟨s1, ha, hs⟩ := runSteps_cons hs
    rcases hwait s a s1 n hi hw ha with hd | ⟨m, rfl, hw1⟩
    · exact runSteps_keeps hdone as hd hs
    · refine ih (hinv s a s1 hi ha) hw1 hs ?_
      rw [countP_cons] at hn
      cases hc : counts a with
      | true => rw [hc] at hn; simp only [Bool.toNat_true, if_true] at hn; omega
      | false => rw [hc] at hn; simpa using hn

theorem le_update_succ [DecidableEq ι] (f : ι → Nat) (i j : ι) :
    f j ≤ update f i (f i + 1) j := by
  by_cases hj : j = i
  · subst hj
    rw [update_self]
    omega
  · rw [update_of_ne hj]

theorem mem_update {β : Type} [DecidableEq ι] {f : ι → List β} {j : ι} {l : List β} {b : β}
    (h : b ∈ update f i l j) : (j = i ∧ b ∈ l) ∨ b ∈ f j := by
  by_cases hj : j = i
  · subst hj
    rw [update_self] at h
    exact .inl ⟨rfl, h⟩
  · rw [update_of_ne hj] at h
    exact .inr h

theorem sum_update {ι : Type} [DecidableEq ι] {parts : Finset ι} {i : ι} (hi : i ∈ parts)
    (f : ι → α) (left : α → Nat) (a : α) :
    (∑ j ∈ parts, left (update f i a j)) + left (f i) = (∑ j ∈ parts, left (f j)) + left a := by
  have hother : ∑ j ∈ parts.erase i, left (update f i a j) = ∑ j ∈ parts.erase i, left (f j) :=
    Finset.sum_congr rfl fun j hj => by rw [update_of_ne (Finset.ne_of_mem_erase hj)]
  rw [← Finset.add_sum_erase parts _ hi, ← Finset.add_sum_erase parts (fun j => left (f j)) hi,
    update_self, hother]
  omega

/-- One part is of a kind now, or was before. -/
theorem card_update {ι : Type} [DecidableEq ι] {parts parts' : Finset ι} {i : ι}
    (h : ∀ j, j ≠ i → (j ∈ parts' ↔ j ∈ parts)) :
    parts'.card + (decide (i ∈ parts)).toNat = parts.card + (decide (i ∈ parts')).toNat := by
  have hcard : ∀ s : Finset ι, s.card = (s.erase i).card + (decide (i ∈ s)).toNat := by
    intro s
    by_cases hi : i ∈ s
    · rw [decide_eq_true hi, Bool.toNat_true, Finset.card_erase_add_one hi]
    · rw [decide_eq_false hi, Finset.erase_eq_of_notMem hi, Bool.toNat_false, Nat.add_zero]
  have hother : parts'.erase i = parts.erase i := by
    ext j
    rw [Finset.mem_erase, Finset.mem_erase]
    exact and_congr_right (h j)
  rw [hcard parts, hcard parts', hother]
  omega

theorem sum_map_set (left : α → Nat) : ∀ {l : List α} {i : Nat} {a : α} (b : α),
    l[i]? = some a → ((l.set i b).map left).sum + left a = (l.map left).sum + left b := by
  intro l
  induction l with
  | nil => intro i a b h; cases h
  | cons c l ih =>
    intro i a b h
    cases i with
    | zero =>
      cases h
      simp only [set_cons_zero, map_cons, sum_cons]
      omega
    | succ i =>
      have := ih b (show l[i]? = some a from h)
      simp only [set_cons_succ, map_cons, sum_cons]
      omega

end Net80211.Lib
