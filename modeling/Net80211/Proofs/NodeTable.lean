import Net80211.NodeTable

/-!
# Going over a node table

`IterTable.pending` are the nodes that `ieee80211_iterate_nodes` has not marked, in their order.
A round visits the first of them; what others do takes the nodes that they remove or hear of out,
and appends the ones that they insert (`Others`). So the visits and what is pending grow with the
insertions only (`iterRounds_count`): the rounds come to an end, and a node is visited again only
where it was inserted again.

The mark of a visit is also what a beacon leaves, so the callback is called for a node exactly
if no beacon of it comes before its turn. The turn is known from the table at the start and
from what others do: the nodes in front have theirs before, unless they are taken out or marked
first (`turn`).
-/

namespace Net80211

open List Function

variable {ν ρ : Type} [DecidableEq ν] {gen : UInt32} {others : Nat → List (TableOp ν)}
  {t t' t₁ : IterTable ν} {n m : ν} {before after : List ν}

/-! ## One round -/

/-- The nodes without the mark. -/
def IterTable.pending (gen : UInt32) (t : IterTable ν) : List ν :=
  t.nodes.filter fun n => t.niScangen n != gen

/-- Is a node taken out of the table or given the mark? -/
def TableOp.hits (n : ν) : TableOp ν → Bool
  | .insert _ => false
  | .remove m | .beacon m => m == n

def spared (ops : List (TableOp ν)) (n : ν) : Bool :=
  ops.all fun o => !o.hits n

/-- Is a node of the kind inserted? -/
def TableOp.inserts (q : ν → Bool) : TableOp ν → Bool
  | .insert n => q n
  | _ => false

/-- What others do to a table while it is gone over. -/
structure Others (gen : UInt32) (t : IterTable ν) (ops : List (TableOp ν)) (t' : IterTable ν) :
    Prop where
  scangen : t'.ntScangen = gen
  visited : t'.visited = t.visited
  nodup : t'.nodes.Nodup
  stays : ∀ n ∈ t.nodes, .remove n ∉ ops → n ∈ t'.nodes
  pending : ∃ new, t'.pending gen =
      (t.pending gen).filter (spared ops) ++ new ∧
    (∀ q, new.countP q ≤ ops.countP (TableOp.inserts q)) ∧ ∀ n ∈ t.nodes, .remove n ∉ ops → n ∉ new

theorem Others.op (hg : t.ntScangen = gen) (hnd : t.nodes.Nodup) (o : TableOp ν) :
    Others gen t [o] (t.op o) := by
  cases o with
  | insert m =>
    have hall : ∀ l : List ν, l.filter (spared [.insert m]) = l :=
      fun l => filter_eq_self.mpr fun _ _ => rfl
    rw [IterTable.op]
    split
    · exact ⟨hg, rfl, hnd, fun _ h _ => h, [], by rw [hall, append_nil],
        fun _ => Nat.zero_le _, fun _ _ _ => not_mem_nil⟩
    · next hm =>
      refine ⟨hg, rfl, ?_, fun _ h _ => mem_append_left _ h,
        [m].filter fun x => update t.niScangen m 0 x != gen, ?_, fun q => ?_, fun n hn _ hin => ?_⟩
      · refine nodup_append.mpr ⟨hnd, pairwise_singleton _ m, fun x hx y hy h => hm ?_⟩
        rwa [← mem_singleton.mp hy, ← h]
      · rw [hall]
        refine (filter_append ..).trans (congrArg (· ++ _) (filter_congr fun x hx => ?_))
        exact congrArg (· != gen) (update_of_ne (ne_of_mem_of_not_mem hx hm) ..)
      · refine Nat.le_trans filter_sublist.countP_le ?_
        cases hq : q m <;> simp [TableOp.inserts, hq]
      · exact hm (mem_singleton.mp (mem_filter.mp hin).1 ▸ hn)
  | remove m =>
    have hfilter : t.nodes.erase m = t.nodes.filter (· != m) := hnd.erase_eq_filter m
    refine ⟨hg, rfl, hnd.erase m, fun n hn hr => ?_, [], ?_, fun _ => Nat.zero_le _,
      fun _ _ _ => not_mem_nil⟩
    · exact (mem_erase_of_ne fun h => hr (mem_singleton.mpr (congrArg _ h))).mpr hn
    · rw [IterTable.pending, IterTable.op, hfilter, filter_filter, IterTable.pending, filter_filter,
        append_nil]
      refine filter_congr fun x _ => ?_
      by_cases hx : x = m
      · simp [spared, TableOp.hits, hx]
      · simp [spared, TableOp.hits, bne, beq_false_of_ne hx, beq_false_of_ne (Ne.symm hx)]
  | beacon m =>
    refine ⟨hg, rfl, hnd, fun _ h _ => h, [], ?_, fun _ => Nat.zero_le _, fun _ _ _ => not_mem_nil⟩
    rw [IterTable.pending, IterTable.op, IterTable.pending, filter_filter, append_nil]
    refine filter_congr fun x _ => ?_
    by_cases hx : x = m
    · simp [spared, TableOp.hits, hx, hg]
    · simp [spared, TableOp.hits, hx, Ne.symm hx]

theorem Others.ops : ∀ (ops : List (TableOp ν)) {t : IterTable ν}, t.ntScangen = gen →
    t.nodes.Nodup → Others gen t ops (ops.foldl .op t) := by
  intro ops
  induction ops with
  | nil =>
    intro t hg hnd
    exact ⟨hg, rfl, hnd, fun _ h _ => h, [],
      (append_nil _).symm.trans (congrArg (· ++ _) (filter_eq_self.mpr fun _ _ => rfl).symm),
      fun _ => Nat.le_refl _, fun _ _ _ => not_mem_nil⟩
  | cons o ops ih =>
    intro t hg hnd
    have h1 := Others.op hg hnd o
    obtain ⟨new1, hp1, hq1, hn1⟩ := h1.pending
    have h2 := ih h1.scangen h1.nodup
    obtain ⟨new2, hp2, hq2, hn2⟩ := h2.pending
    have hnot : ∀ {n}, .remove n ∉ o :: ops → .remove n ∉ [o] ∧ .remove n ∉ ops := fun h =>
      ⟨fun h' => h (mem_cons.mpr (.inl (mem_singleton.mp h'))), fun h' => h (mem_cons_of_mem _ h')⟩
    refine ⟨h2.scangen, h2.visited.trans h1.visited, h2.nodup, fun n hn hr =>
      h2.stays n (h1.stays n hn (hnot hr).1) (hnot hr).2,
      new1.filter (spared ops) ++ new2, ?_, fun q => ?_, fun n hn hr => ?_⟩
    · rw [foldl_cons, hp2, hp1, filter_append, filter_filter, append_assoc]
      refine congrArg (· ++ _) (filter_congr fun x _ => ?_)
      simp [spared, Bool.and_comm]
    · have hsub : (new1.filter (spared ops)).countP q ≤ new1.countP q :=
        filter_sublist.countP_le
      have h1 := hq1 q
      have h2 := hq2 q
      rw [← singleton_append, countP_append, countP_append]
      omega
    · rw [mem_append]
      rintro (hin | hin)
      · exact hn1 n hn (hnot hr).1 (mem_filter.mp hin).1
      · exact hn2 n (h1.stays n hn (hnot hr).1) (hnot hr).2 hin

omit [DecidableEq ν] in
theorem find?_eq_head? (t : IterTable ν) :
    t.nodes.find? (t.niScangen · ≠ gen) = (t.pending gen).head? := by
  rw [IterTable.pending, head?_filter]
  congr 1
  funext n
  by_cases h : t.niScangen n = gen <;> simp [h]

theorem pending_visit (hnd : t.nodes.Nodup) (hp : t.pending gen = n :: after) :
    (t.visit gen n).pending gen = after := by
  have hnot : n ∉ after := (nodup_cons.mp (hp ▸ hnd.filter _)).1
  have hother : (t.visit gen n).pending gen = (t.pending gen).filter (· != n) := by
    rw [IterTable.pending, IterTable.pending, filter_filter]
    refine filter_congr fun x _ => ?_
    by_cases hx : x = n
    · simp [IterTable.visit, hx]
    · simp [IterTable.visit, hx]
  rw [hother, hp, filter_cons_of_neg (by simp)]
  exact filter_eq_self.mpr fun x hx => bne_iff_ne.mpr (ne_of_mem_of_not_mem hx hnot)

/-- A round is the last one, or visits the first node that is pending, and then others are at
work. -/
theorem iterRounds_succ {fuel : Nat} (hnd : t.nodes.Nodup)
    (hr : iterRounds gen others (fuel + 1) t = some t') :
    t' = t ∧ (t.ntScangen ≠ gen ∨ t.pending gen = []) ∨
      ∃ n after t₁, t.ntScangen = gen ∧ t.pending gen = n :: after ∧
      (t.visit gen n).pending gen = after ∧
        Others gen (t.visit gen n) (others t.visited.length) t₁ ∧
        t₁.visited = t.visited ++ [n] ∧ iterRounds gen others fuel t₁ = some t' := by
  rw [iterRounds, find?_eq_head?] at hr
  split at hr
  · next hg =>
    cases hr
    exact .inl ⟨rfl, .inl fun h => hg h.symm⟩
  next hg =>
  cases hp : t.pending gen with
  | nil =>
    rw [hp] at hr
    cases hr
    exact .inl ⟨rfl, .inr rfl⟩
  | cons n after =>
    rw [hp] at hr
    have hoth := Others.ops (others t.visited.length) (t := t.visit gen n) (not_not.mp hg).symm hnd
    exact .inr ⟨n, after, _, (not_not.mp hg).symm, rfl, pending_visit hnd hp, hoth,
      hoth.visited, hr⟩

/-! ## The end -/

/-- The visits of nodes of a kind, and how many are still to come. -/
def IterTable.turns (gen : UInt32) (q : ν → Bool) (t : IterTable ν) : Nat :=
  t.visited.countP q + (t.pending gen).countP q

/-- The insertions of nodes of a kind during the first `k` callbacks. -/
def inserted (others : Nat → List (TableOp ν)) (q : ν → Bool) (k : Nat) : Nat :=
  ((range k).flatMap others).countP (TableOp.inserts q)

theorem Others.turns (q : ν → Bool) (hp : t.pending gen = n :: after)
    (hv : (t.visit gen n).pending gen = after)
    (h : Others gen (t.visit gen n) (others t.visited.length) t₁) :
    t₁.turns gen q + inserted others q t.visited.length ≤
      t.turns gen q + inserted others q (t.visited.length + 1) := by
  obtain ⟨new, hnew, hcount, -⟩ := h.pending
  have hq := hcount q
  have hle : (after.filter (spared (others t.visited.length))).countP q ≤ after.countP q :=
    filter_sublist.countP_le
  rw [IterTable.turns, IterTable.turns, h.visited, hnew, hp, hv, inserted, inserted, range_succ,
    flatMap_append, countP_append, countP_append, flatMap_singleton]
  simp only [IterTable.visit, countP_append, countP_cons, countP_nil]
  omega

theorem iterRounds_count (q : ν → Bool) : ∀ (fuel : Nat) {t : IterTable ν}, t.nodes.Nodup →
    iterRounds gen others fuel t = some t' → t.visited.length ≤ t'.visited.length ∧
      t'.turns gen q + inserted others q t.visited.length ≤
        t.turns gen q + inserted others q t'.visited.length := by
  intro fuel
  induction fuel with
  | zero => intro t _ hr; cases hr
  | succ fuel ih =>
    intro t hnd hr
    rcases iterRounds_succ hnd hr with ⟨rfl, -⟩ | ⟨n, after, t₁, -, hp, hv, hoth, hvis, hr⟩
    · exact ⟨Nat.le_refl _, Nat.le_refl _⟩
    have hturns := hoth.turns q hp hv
    obtain ⟨hlen, hrest⟩ := ih hoth.nodup hr
    rw [hvis, length_append, length_singleton] at hlen hrest
    exact ⟨by omega, by omega⟩

theorem iterRounds_ends {inserts : Nat} (hfew : ∀ k, inserted others (fun _ => true) k ≤ inserts) :
    ∀ (fuel : Nat) (t : IterTable ν), t.nodes.Nodup → t.turns gen (fun _ => true) + inserts <
        fuel + t.visited.length + inserted others (fun _ => true) t.visited.length →
      ∃ t', iterRounds gen others fuel t = some t' := by
  intro fuel
  induction fuel with
  | zero =>
    intro t _ hlt
    have := hfew t.visited.length
    have hvis : t.visited.countP (fun _ => true) = t.visited.length := by simp
    rw [IterTable.turns, hvis] at hlt
    omega
  | succ fuel ih =>
    intro t hnd hlt
    rw [iterRounds, find?_eq_head?]
    split
    · exact ⟨t, rfl⟩
    next hg =>
    cases hp : t.pending gen with
    | nil => exact ⟨t, rfl⟩
    | cons n after =>
      have hoth :=
        Others.ops (others t.visited.length) (t := t.visit gen n) (not_not.mp hg).symm hnd
      have hturns := hoth.turns (fun _ => true) hp (pending_visit hnd hp)
      refine ih _ hoth.nodup ?_
      have hlen : (t.visit gen n).visited.length = t.visited.length + 1 := length_append
      rw [hoth.visited, hlen]
      omega

/-! ## The calls -/

/-- A node with the mark is not visited any more. -/
theorem count_of_marked : ∀ (fuel : Nat) {t : IterTable ν}, t.nodes.Nodup → n ∈ t.nodes →
    n ∉ t.pending gen → iterRounds gen others fuel t = some t' →
    (∀ k < t'.visited.length, .remove n ∉ others k) → t'.visited.count n = t.visited.count n := by
  intro fuel
  induction fuel with
  | zero => intro t _ _ _ hr; cases hr
  | succ fuel ih =>
    intro t hnd hn hmark hr hstay
    rcases iterRounds_succ hnd hr with ⟨rfl, -⟩ | ⟨m, after, t₁, -, hp, hv, hoth, hvis, hr⟩
    · rfl
    have hlen := (iterRounds_count (fun _ => true) fuel hoth.nodup hr).1
    rw [hvis, length_append, length_singleton] at hlen
    obtain ⟨new, hnew, -, hnot⟩ := hoth.pending
    rw [hp, mem_cons, not_or] at hmark
    rw [ih hoth.nodup (hoth.stays n hn (hstay _ hlen)) ?_ hr hstay, hvis, count_append,
      count_singleton, beq_false_of_ne (Ne.symm hmark.1)]
    · rfl
    · rw [hnew, hv, mem_append, mem_filter]
      exact not_or.mpr ⟨fun h => hmark.2 h.1, hnot n hn (hstay _ hlen)⟩

/-- Nobody takes a node out or marks it during the first `c` callbacks. -/
def untouched (others : Nat → List (TableOp ν)) (c : Nat) (n : ν) : Bool :=
  spared ((range c).flatMap others) n

/-- The callbacks before the turn of a node that has the nodes `before` in front of it, after the
first `c`. -/
def turn (others : Nat → List (TableOp ν)) : Nat → List ν → Nat
  | c, [] => c
  | c, m :: before => if untouched others c m then turn others (c + 1) before
      else turn others c before

theorem untouched_succ (c : Nat) (n : ν) :
    untouched others (c + 1) n = (untouched others c n && spared (others c) n) := by
  rw [untouched, spared, range_succ, flatMap_append, all_append, flatMap_singleton]
  rfl

theorem le_turn : ∀ (before : List ν) (c : Nat), c ≤ turn others c before := by
  intro before
  induction before with
  | nil => exact fun c => Nat.le_refl c
  | cons m before ih =>
    intro c
    rw [turn]
    split
    · exact Nat.le_trans (Nat.le_succ c) (ih (c + 1))
    · exact ih c

/-- Nodes that were touched have no turn. -/
theorem turn_filter {p : ν → Bool} : ∀ (before : List ν) (c : Nat),
    (∀ m, untouched others c m = true → p m = true) →
      turn others c (before.filter p) = turn others c before := by
  intro before
  induction before with
  | nil => exact fun _ _ => rfl
  | cons m before ih =>
    intro c hp
    have hp' : ∀ m, untouched others (c + 1) m = true → p m = true := fun m hm =>
      hp m (Bool.and_eq_true_iff.mp (untouched_succ c m ▸ hm)).1
    rw [filter_cons, turn]
    split
    · rw [turn, ih _ hp', ih _ hp]
    · next hpm => rw [if_neg fun h => hpm (hp m h), ih _ hp]

/-- A node with the nodes `before` pending in front of it is visited once, exactly if there is no
beacon of it before its turn. -/
theorem count_of_pending : ∀ (fuel : Nat) {t : IterTable ν} {before after : List ν},
    t.ntScangen = gen → t.nodes.Nodup → t.pending gen = before ++ n :: after →
    (∀ m ∈ before, untouched others t.visited.length m = true) → n ∉ t.visited →
    iterRounds gen others fuel t = some t' → (∀ k < t'.visited.length, .remove n ∉ others k) →
      (t'.visited.count n = 1 ↔ ∀ k, t.visited.length ≤ k →
        k < turn others t.visited.length before → .beacon n ∉ others k) := by
  intro fuel
  induction fuel with
  | zero => intro t _ _ _ _ _ _ _ hr; cases hr
  | succ fuel ih =>
    intro t before after hg hnd hpend halive hnot hr hstay
    have hn : n ∈ t.nodes := (mem_filter.mp (hpend ▸ mem_append_right before mem_cons_self)).1
    rcases iterRounds_succ hnd hr with ⟨-, hend | hend⟩ | ⟨m, rest, t₁, -, hp, hv, hoth, hvis, hr⟩
    · exact absurd hg hend
    · rw [hend] at hpend
      exact absurd hpend.symm (by simp)
    have hlen := (iterRounds_count (fun _ => true) fuel hoth.nodup hr).1
    rw [hvis, length_append, length_singleton] at hlen
    have hstay' := hstay _ hlen
    obtain ⟨new, hnew, -, hfresh⟩ := hoth.pending
    have hnd' : (t.pending gen).Nodup := hnd.filter _
    rw [hpend] at hnd' hp
    rw [hv] at hnew
    cases before with
    | nil =>
      -- its turn
      obtain ⟨rfl, rfl⟩ := cons.inj hp
      rw [count_of_marked fuel hoth.nodup (hoth.stays n hn hstay') ?_ hr hstay, hvis, count_append,
        count_eq_zero_of_not_mem hnot, count_singleton_self]
      · refine iff_of_true rfl fun k hk hlt => ?_
        rw [turn] at hlt
        omega
      · rw [hnew, mem_append, mem_filter]
        exact not_or.mpr ⟨fun h => (nodup_cons.mp hnd').1 h.1, hfresh n hn hstay'⟩
    | cons m' before =>
      rw [cons_append] at hp
      obtain ⟨rfl, rfl⟩ := cons.inj hp
      have hne : m' ≠ n := fun h => (nodup_cons.mp hnd').1 (h ▸ mem_append_right _ mem_cons_self)
      have hturn : turn others t.visited.length (m' :: before) =
          turn others (t.visited.length + 1) before := by
        rw [turn, if_pos (halive m' mem_cons_self)]
      have hafter := @le_turn _ _ others before (t.visited.length + 1)
      rw [hturn]
      by_cases hb : .beacon n ∈ others t.visited.length
      · rw [count_of_marked fuel hoth.nodup (hoth.stays n hn hstay') ?_ hr hstay, hvis,
          count_append, count_eq_zero_of_not_mem hnot, count_singleton, beq_false_of_ne hne]
        · exact iff_of_false (by simp) fun h => h _ (Nat.le_refl _) hafter hb
        · rw [hnew, mem_append, mem_filter, spared, all_eq_true]
          refine not_or.mpr ⟨fun h => ?_, hfresh n hn hstay'⟩
          simpa [TableOp.hits] using h.2 _ hb
      · have hquiet : spared (others t.visited.length) n = true := by
          refine all_eq_true.mpr fun o ho => ?_
          cases o with
          | insert x => rfl
          | remove x => exact Bool.not_eq_true' .. ▸ beq_false_of_ne fun h => hstay' (h ▸ ho)
          | beacon x => exact Bool.not_eq_true' .. ▸ beq_false_of_ne fun h => hb (h ▸ ho)
        rw [filter_append, filter_cons_of_pos hquiet, append_assoc, cons_append] at hnew
        rw [ih hoth.scangen hoth.nodup hnew (fun x hx => ?_) ?_ hr hstay, hvis, length_append,
          length_singleton,
          turn_filter before _ fun x hx => (Bool.and_eq_true_iff.mp (untouched_succ _ x ▸ hx)).2]
        · refine ⟨fun hall k hk hlt hmem => ?_, fun hall k hk hlt => hall k (by omega) hlt⟩
          rcases Nat.eq_or_lt_of_le hk with rfl | hgt
          · exact hb hmem
          · exact hall k hgt hlt hmem
        · rw [hvis, mem_append, mem_singleton]
          exact not_or.mpr ⟨hnot, Ne.symm hne⟩
        · obtain ⟨hin, hun⟩ := mem_filter.mp hx
          rw [hvis, length_append, length_singleton, untouched_succ,
            halive x (mem_cons_of_mem _ hin), hun]
          rfl

omit [DecidableEq ν] in
/-- `freertos_collect_cb` keeps the first 64 entries. -/
theorem getScanResults2_eq (entry : ν → Option ρ) (visited : List ν) :
    getScanResults2 entry visited = (visited.filterMap entry).take 64 := by
  have hfold : ∀ (l : List ν) (res : List ρ), res.length ≤ 64 →
      l.foldl (collectCb entry) res = (res ++ l.filterMap entry).take 64 := by
    intro l
    induction l with
    | nil => intro res hle; rw [filterMap_nil, append_nil, take_of_length_le hle]; rfl
    | cons n l ih =>
      intro res hle
      rw [foldl_cons, collectCb]
      split
      · next hfull =>
        rw [ih res hle, take_append_of_le_length hfull, take_append_of_le_length hfull]
      · next hroom =>
        cases hn : entry n with
        | none => rw [filterMap_cons_none hn]; exact ih res hle
        | some r =>
          rw [filterMap_cons_some hn, ih _ (by rw [length_append]; exact Nat.lt_of_not_le hroom),
            append_assoc]
          rfl
  exact (hfold visited [] (Nat.zero_le _)).trans (by rw [nil_append])

/-- The callbacks before the turn of `n` in an iteration: the nodes in front of it that have not the
new mark already. -/
def IterTable.turnOf (t : IterTable ν) (others : Nat → List (TableOp ν)) (n : ν) : Nat :=
  turn others 0 ((t.pending (t.ntScangen + 1)).takeWhile (· != n))

/-- `ieee80211_iterate_nodes` ends if the nodes that others insert are finitely many, and the scan
results are the first 64 entries of its calls. A node is called for again only where it was
inserted again. For a node that stays in the table the callback is called once exactly if the
node has not the new mark at the start and others process no beacon of it before its turn. -/
theorem iterateNodes_calls_iff (others : Nat → List (TableOp ν)) (t : IterTable ν)
    (hnd : t.nodes.Nodup) :
    (∀ inserts, (∀ k, inserted others (fun _ => true) k ≤ inserts) →
      ∃ t', iterateNodes others (t.nodes.length + inserts + 1) t = some t') ∧
    ∀ fuel t', iterateNodes others fuel t = some t' →
      (∀ entry : ν → Option ρ,
        getScanResults2 entry t'.visited = (t'.visited.filterMap entry).take 64) ∧
      (∀ n, t'.visited.count n ≤ t.nodes.count n + inserted others (· == n) t'.visited.length) ∧
      ∀ n ∈ t.nodes, (∀ k < t'.visited.length, .remove n ∉ others k) →
        (t'.visited.count n = 1 ↔ t.niScangen n ≠ t.ntScangen + 1 ∧
          ∀ k < t.turnOf others n, .beacon n ∉ others k) := by
  let start : IterTable ν := { t with ntScangen := t.ntScangen + 1, visited := [] }
  have hle : ∀ q : ν → Bool, start.turns (t.ntScangen + 1) q ≤ t.nodes.countP q := fun q =>
    Nat.le_trans (Nat.le_of_eq (Nat.zero_add _)) filter_sublist.countP_le
  refine ⟨fun inserts hfew => iterRounds_ends hfew _ start hnd ?_, fun fuel t' hr =>
    ⟨fun entry => getScanResults2_eq entry _, fun n => ?_, fun n hn hstay => ?_⟩⟩
  · have hall := Nat.le_trans (hle fun _ => true) countP_le_length
    omega
  · have hcount := (iterRounds_count (t := start) (· == n) fuel hnd hr).2
    have hn := hle (· == n)
    rw [IterTable.turns] at hcount
    rw [count]
    omega
  · by_cases hmark : t.niScangen n = t.ntScangen + 1
    · have hdone : n ∉ start.pending (t.ntScangen + 1) := fun h =>
        bne_iff_ne.mp (mem_filter.mp h).2 hmark
      rw [count_of_marked (t := start) fuel hnd hn hdone hr hstay]
      exact iff_of_false (by simp [start]) fun h => h.1 hmark
    · have hpend : n ∈ start.pending (t.ntScangen + 1) :=
        mem_filter.mpr ⟨hn, bne_iff_ne.mpr hmark⟩
      obtain ⟨before, after, hsplit, hnot⟩ := eq_append_cons_of_mem hpend
      have hfront : (t.pending (t.ntScangen + 1)).takeWhile (· != n) = before := by
        refine (congrArg _ hsplit).trans ?_
        rw [takeWhile_append_of_pos fun x hx => bne_iff_ne.mpr (ne_of_mem_of_not_mem hx hnot),
          takeWhile_cons_of_neg (by simp), append_nil]
      rw [IterTable.turnOf, hfront, and_iff_right hmark, count_of_pending (t := start) fuel rfl hnd
        hsplit (fun _ _ => rfl) not_mem_nil hr hstay]
      exact ⟨fun h k hk => h k (Nat.zero_le k) hk, fun h k _ hk => h k hk⟩

/-- Four nodes: the first is removed in its own callback and comes back, a beacon of the third is
processed after its turn, and the second is marked before it. -/
theorem iterateNodes_calls_sample : ∃ t', iterateNodes
      (fun k => if k = 0 then [.remove 0, .insert 0, .beacon 1] else if k = 1
        then [.beacon 2] else [])
      9 ⟨[0, 1, 2, 3], fun _ => 0, 1, []⟩ = some t' ∧ t'.visited = [0, 2, 3, 0] ∧
        t'.visited.count 2 = 1 ∧ t'.visited.count 1 ≠ 1 := by
  obtain ⟨t', hr, hv⟩ := Option.map_eq_some_iff.mp (show (iterateNodes
      (fun k => if k = 0 then [.remove 0, .insert 0, .beacon 1] else if k = 1
      then [.beacon 2] else [])
      9 ⟨[0, 1, 2, 3], fun _ => 0, 1, []⟩).map IterTable.visited = some [0, 2, 3, 0] by decide)
  obtain ⟨-, -, hcalls⟩ := (iterateNodes_calls_iff (ρ := Nat) _ _ (by decide)).2 9 t' hr
  rw [hv] at hcalls
  refine ⟨t', hr, hv, ?_, fun h1 => ?_⟩
  · rw [hv]
    exact (hcalls 2 (by decide) (by decide)).mpr (by decide)
  · rw [hv] at h1
    exact absurd ((hcalls 1 (by decide) (by decide)).mp h1) (by decide)

/-- A beacon of the second node comes in during the callback for the first one: the second one is
not among the scan results. -/
theorem iterateNodes_skips :
    (iterateNodes (fun k => if k = 0 then [.beacon 1] else []) 3 ⟨[0, 1], fun _ => 0, 1, []⟩).map
      (getScanResults2 some ∘ IterTable.visited) = some [0] := by
  decide

end Net80211
