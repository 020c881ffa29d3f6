import Net80211.Proofs.WpaJob
import Net80211.Wpa.Connect

/-!
# Connect installs what was asked

A request goes through two hands. The caller checks it and copies it into arrays, where
a string that does not fit is cut off; the event loop carries it out, and what fails
there is not reported: a job that came to its end is all that `wpa_job_run` knows. So a
call that returned 0 has had its function run (`wpa_do_connect`, on the request as it was
copied), and whether that installed the network depends on the length of the key and on
the supplicant.
-/

namespace Net80211.Wpa

open Lib List Function Option

/-! ## Copies of strings -/

/-- What is read back of a copy: the string, or as much of it as there was room for. -/
theorem cstr_strlcpy (siz : Nat) (hsiz : 0 < siz) (src : CString) :
    cstr (strlcpy siz src) = src.bytes.take (siz - 1) := by
  have hn : src.bytes.take (if src.strlen < siz - 1 then src.strlen else siz - 1) =
      src.bytes.take (siz - 1) := by
    split
    case isTrue h =>
      rw [CString.strlen] at h ⊢
      rw [take_length, take_of_length_le (Nat.le_of_lt h)]
    case isFalse => rfl
  obtain ⟨pad, hpad⟩ :
    ∃ pad, siz - (if src.strlen < siz - 1 then src.strlen else siz - 1) = pad + 1 :=
    ⟨siz - (if src.strlen < siz - 1 then src.strlen else siz - 1) - 1, by split <;> omega⟩
  rw [cstr, strlcpy, hpad, hn, takeWhile_append_of_pos, replicate_succ]
  · simp
  · intro b hb
    have hne : b ≠ 0 := fun h0 => src.noNul (h0 ▸ mem_of_mem_take hb)
    exact decide_eq_true hne

/-! ## The function of the job -/

/-- The network that was asked for. -/
def ConnectAsked.network (q : ConnectAsked) : Network :=
  { ssid := q.ssid.bytes
    bssid := q.bssid
    key := if q.psk.strlen = 64 then .psk q.psk.bytes else .passphrase q.psk.bytes }

/-- A network was added and selected. -/
def Installs (s s' : Supp) (n : Network) : Prop :=
  s'.networks = s.networks ++ [n] ∧ s'.selected = some n

instance decidableInstalls (s s' : Supp) (n : Network) : Decidable (Installs s s' n) :=
  inferInstanceAs (Decidable (_ ∧ _))

variable {q : ConnectAsked}

theorem connectReq_network (hssid : q.ssid.strlen < reqSsidLen) :
    ({ ssid := cstr (connectReq q).ssid
       bssid := if (connectReq q).bssidSet then some (connectReq q).bssid else none
       key := .passphrase (cstr (connectReq q).psk) } : Network) = q.network ↔
         q.psk.strlen < 64 := by
  have hs : cstr (connectReq q).ssid = q.ssid.bytes := by
    rw [connectReq, cstr_strlcpy _ (by decide)]
    exact take_of_length_le (Nat.le_of_lt_succ hssid)
  have hp : cstr (connectReq q).psk = q.psk.bytes.take 64 := cstr_strlcpy _ (by decide) _
  have hb : (if (connectReq q).bssidSet then some (connectReq q).bssid else none) = q.bssid := by
    rw [connectReq]
    cases q.bssid <;> rfl
  rw [hs, hp, hb, ConnectAsked.network, Network.mk.injEq]
  simp only [true_and]
  constructor
  · intro h
    split at h
    case isTrue => cases h
    case isFalse hne =>
      injection h with h
      have hlen := congrArg length h
      rw [length_take] at hlen
      rw [CString.strlen] at hne ⊢
      omega
  · intro h
    rw [if_neg (Nat.ne_of_lt h), take_of_length_le (Nat.le_of_lt h)]

/-- The function installs the network that was asked for if nothing fails in it and the
key is a passphrase. -/
theorem wpaDoConnect_installs_iff (hssid : q.ssid.strlen < reqSsidLen) (s : Supp)
    (env : ConnectEnv) : Installs s (wpaDoConnect s (connectReq q) env) q.network ↔
      (s.started = true ∧ env.addNetwork = true ∧ env.dupSsid = true ∧ env.dupPsk = true) ∧
        q.psk.strlen < 64 := by
  rw [← connectReq_network hssid, wpaDoConnect]
  cases s.started <;> cases env.addNetwork <;> cases env.dupSsid <;> cases env.dupPsk <;>
    simp [Installs]

/-! ## The job -/

section Job

variable {φ α : Type} {j : Nat} {c c' : Call φ α}

variable {cur' : Option Nat}

/-- No move changes the function and the argument of a job, and its function comes to an
end in one of them. -/
theorem JobMove.keeps {op : JobOp φ α} {cur : Option Nat} {w w' : JobWorker} {ok : Bool}
    (h : JobMove j c op cur w c' cur' w' ok) : c'.job.fn = c.job.fn ∧ c'.job.arg = c.job.arg ∧
      (op ≠ .leave → c'.completed = c.completed) := by
  cases h
  case leave => exact ⟨rfl, rfl, fun h => absurd rfl h⟩
  all_goals exact ⟨rfl, rfl, fun _ => rfl⟩

theorem JobMove.of_leave {cur : Option Nat} {w w' : JobWorker} {ok : Bool}
    (h : JobMove j c .leave cur w c' cur' w' ok) : w = .inFn j := by
  cases h
  rfl

theorem JobMove.not_ended {op : JobOp φ α} {cur : Option Nat} {w w' : JobWorker} {ok : Bool}
    (h : JobMove j c op cur w c' cur' w' ok) (hok : CallOk c (decide (cur = some j)) (w.stage j)) :
    c.pc ≠ .returned false false := by
  intro hpc
  have hoff : cur ≠ some j ∧ w.stage j = .off := by
    generalize hcur : decide (cur = some j) = b at hok
    generalize w.stage j = st at hok
    cases hok with
    | ended => exact ⟨of_decide_eq_false hcur, rfl⟩
    | apart hat | working _ hat | finished hat => rw [hpc] at hat; simp at hat
    | queued hat | release hat => cases hpc.symm.trans hat
  cases h with
  | refuse hat | install hat | sleep hat | see hat | leaveStarted hat
  | withdraw hat => cases hpc.symm.trans hat
  | free hat => rw [hpc] at hat; simp at hat
  | take => exact hoff.1 rfl
  | enter | leave | finish | release => simp [JobWorker.stage] at hoff

theorem jobAlloc_job (fn : φ) (arg : α) (timeout : Nat) (calloc malloc : Bool) :
    (jobAlloc fn (some arg) timeout calloc malloc).job.fn = fn ∧
      ((jobAlloc fn (some arg) timeout calloc malloc).job.arg = some arg ∨
        (jobAlloc fn (some arg) timeout calloc malloc).pc = .returned false false) ∧
      (jobAlloc fn (some arg) timeout calloc malloc).completed = 0 := by
  cases calloc <;> cases malloc <;> simp [jobAlloc]

end Job

/-- What is known of the job of a request. -/
structure Answers (q : ConnectAsked) (c : Call JobFn ConnectReq) (ran : Option JobRan) : Prop where
  fn : c.job.fn = .connect
  arg : c.job.arg = some (connectReq q) ∨ c.pc = .returned false false
  ran : 0 < c.completed → ∃ r, ran = some r ∧ r.after = runJob r.before c.job r.env

structure ConnInv (s : Conn) : Prop where
  jobs : JobsInv s.jobs
  checked : ∀ j q, s.asked j = some q → q.ssid.strlen < reqSsidLen
  fresh : ∀ j, s.jobs.next ≤ j → s.asked j = none
  answers : ∀ j q c, s.asked j = some q → s.jobs.calls j = some c → Answers q c (s.ran j)

variable {s s' : Conn} {j : Nat}

theorem ConnInv.call (h : ConnInv s) {fn : JobFn} {arg : Option ConnectReq} {calloc malloc : Bool}
    (asked : Nat → Option ConnectAsked) (hasked : ∀ j, j ≠ s.jobs.next → asked j = s.asked j)
    (hnew : ∀ q, asked s.jobs.next = some q →
      q.ssid.strlen < reqSsidLen ∧ fn = .connect ∧ arg = some (connectReq q))
    (hstep : callJob s fn arg calloc malloc = some s') : ConnInv { s' with asked := asked } := by
  obtain ⟨jobs, hjobs, rfl⟩ := map_eq_some_iff.mp hstep
  have hinv := jobStep_inv h.jobs hjobs
  cases hjobs
  refine ⟨hinv, fun j q hq => ?_, fun j hj => ?_, fun j q c hq hc => ?_⟩
  · by_cases hj : j = s.jobs.next
    · subst hj; exact (hnew q hq).1
    · exact h.checked j q ((hasked j hj).symm.trans hq)
  · have hj : s.jobs.next + 1 ≤ j := hj
    exact (hasked j (by omega)).trans (h.fresh j (by omega))
  · by_cases hj : j = s.jobs.next
    · subst hj
      obtain ⟨-, rfl, rfl⟩ := hnew q hq
      obtain rfl : jobAlloc _ _ 5000 calloc malloc = c :=
        some_inj.mp ((update_self s.jobs.next _ _).symm.trans hc)
      obtain ⟨hfn, harg, hcompleted⟩ := jobAlloc_job JobFn.connect (connectReq q) 5000 calloc malloc
      exact ⟨hfn, harg, fun hpos => absurd hcompleted (Nat.ne_of_gt hpos)⟩
    · exact h.answers j q c ((hasked j hj).symm.trans hq) ((update_of_ne hj _ _).symm.trans hc)

theorem leaveJob_ran (env : ConnectEnv) {c : Call JobFn ConnectReq} (hw : s.jobs.worker = .inFn j)
    (hc : s.jobs.calls j = some c) : (leaveJob s env).asked = s.asked ∧ (leaveJob s env).ran =
        update s.ran j (some ⟨s.supp, env, runJob s.supp c.job env⟩) := by
  simp [leaveJob, hw, hc]

variable {op : JobOp JobFn ConnectReq} {env : ConnectEnv}

/-- The job of a request moves, and `ran` says what its function did. -/
theorem Answers.move {c c' : Call JobFn ConnectReq} {ran ran' : Option JobRan}
    {cur cur' : Option Nat} {w w' : JobWorker} {ok : Bool} (h : Answers q c ran)
    (hmove : JobMove j c op cur w c' cur' w' ok)
    (hok : CallOk c (decide (cur = some j)) (w.stage j))
    (hran : op = .leave → ∃ r, ran' = some r ∧ r.after = runJob r.before c.job r.env)
    (hkeep : op ≠ .leave → ran' = ran) : Answers q c' ran' := by
  obtain ⟨hfn, harg, hcompleted⟩ := hmove.keeps
  have hjob : ∀ supp env, runJob supp c'.job env = runJob supp c.job env := by
    intro supp env
    rw [runJob, runJob, hfn, harg]
  refine ⟨hfn.trans h.fn, .inl (harg.trans (h.arg.resolve_right (hmove.not_ended hok))),
    fun hpos => ?_⟩
  by_cases hop : op = .leave
  · obtain ⟨r, hr, hafter⟩ := hran hop
    exact ⟨r, hr, hafter.trans (hjob _ _).symm⟩
  · obtain ⟨r, hr, hafter⟩ := h.ran (hcompleted hop ▸ hpos)
    exact ⟨r, (hkeep hop).trans hr, hafter.trans (hjob _ _).symm⟩

theorem jobOp_cases (hstep : jobOp s op env = some s') :
    ∃ jobs, jobStep s.jobs op = some jobs ∧ s'.jobs = jobs ∧
      (∀ fn arg timeout calloc malloc, op ≠ .call fn arg timeout calloc malloc) ∧
      (op = .leave → s'.asked = (leaveJob s env).asked ∧ s'.ran = (leaveJob s env).ran) ∧
      (op ≠ .leave → s'.asked = s.asked ∧ s'.ran = s.ran) := by
  unfold jobOp at hstep
  cases hjobs : jobStep s.jobs op with
  | none => rw [hjobs] at hstep; cases op <;> cases hstep
  | some jobs =>
    rw [hjobs] at hstep
    cases op <;> cases hstep <;> simp

theorem ConnInv.job (h : ConnInv s) (hstep : jobOp s op env = some s') :
    ConnInv s' := by
  obtain ⟨jobs, hjobs, hs', hcall, hleave, hother⟩ := jobOp_cases hstep
  rcases jobStep_move hjobs
    with ⟨fn, arg, timeout, calloc, malloc, rfl⟩ | ⟨i, c, c', cur, w, ok, hc, hmove, hput⟩
  · exact absurd rfl (hcall fn arg timeout calloc malloc)
  have hok := h.jobs.call i c hc
  -- the history is that of the one job that moves
  have hhist : s'.asked = s.asked ∧ (∀ j, j ≠ i → s'.ran j = s.ran j) ∧
      (op = .leave → ∃ r, s'.ran i = some r ∧ r.after = runJob r.before c.job r.env) ∧
      (op ≠ .leave → s'.ran i = s.ran i) := by
    by_cases hop : op = .leave
    · subst hop
      obtain ⟨hasked, hran⟩ := leaveJob_ran env hmove.of_leave hc
      obtain ⟨hasked', hran'⟩ := hleave rfl
      refine ⟨hasked'.trans hasked, fun j hj => ?_, fun _ => ?_, fun h => absurd rfl h⟩
      · rw [hran', hran, update_of_ne hj]
      · rw [hran', hran, update_self]
        exact ⟨_, rfl, rfl⟩
    · obtain ⟨hasked, hran⟩ := hother hop
      exact ⟨hasked, fun j _ => by rw [hran], fun h => absurd h hop, fun _ => by rw [hran]⟩
  obtain ⟨hasked, hrest, hran, hkeep⟩ := hhist
  have hcalls : s'.jobs.calls = update s.jobs.calls i (some c') := by rw [hs', hput]; rfl
  constructor
  case jobs => exact hs' ▸ jobStep_inv h.jobs hjobs
  case checked => exact hasked ▸ h.checked
  case fresh =>
    rw [hasked, hs', hput]
    exact h.fresh
  case answers =>
    intro j q cj hq hcj
    rw [hasked] at hq
    rw [hcalls] at hcj
    by_cases hj : j = i
    · subst hj
      rw [update_self] at hcj
      cases hcj
      exact (h.answers j q c hq hc).move hmove hok hran hkeep
    · rw [update_of_ne hj] at hcj
      rw [hrest j hj]
      exact h.answers j q cj hq hcj

theorem ConnInv.step (h : ConnInv s) {op : ConnOp} (hstep : connStep s op = some s') :
    ConnInv s' := by
  cases op with
  | job op env => exact h.job hstep
  | supplicant started =>
    rw [connStep] at hstep
    split at hstep
    · cases hstep; exact ⟨h.jobs, h.checked, h.fresh, h.answers⟩
    · cases hstep
  | disconnect calloc | status calloc =>
    have hinv := h.call s.asked (fun _ _ => rfl)
      (fun q hq => by rw [h.fresh _ (Nat.le_refl _)] at hq; cases hq) hstep
    rw [connStep, callJob] at hstep
    obtain ⟨jobs, -, rfl⟩ := map_eq_some_iff.mp hstep
    exact hinv
  | connect q calloc malloc =>
    rw [connStep] at hstep
    split at hstep
    case isTrue hok =>
      obtain ⟨s1, hs1, rfl⟩ := map_eq_some_iff.mp hstep
      refine h.call _ (fun j hj => update_of_ne hj _ _) (fun q' hq' => ?_) hs1
      rw [update_self] at hq'
      cases hq'
      refine ⟨?_, rfl, rfl⟩
      rw [connectOk] at hok
      simp at hok
      exact hok.1.2
    case isFalse => cases hstep; exact h

theorem reach_connInv (h : Reach connInit connStep Any s) : ConnInv s := by
  refine Reach.invariant ?_ (fun s op s' hinv _ hstep => hinv.step hstep) h
  rintro s ⟨hjobs, hasked, hran⟩
  exact ⟨hjobs ▸ jobsInit_inv, by simp [hasked], by simp [hasked], by simp [hasked]⟩

/-- A call of `wpa_port_connect_bssid` that returned 0 has had its function run, once the
event loop came to it. The network that was asked for was added and selected if and only
if the key is shorter than 64 characters, the supplicant was running, and neither
`wpa_supplicant_add_network` nor a copy of a string failed. -/
theorem connect_installs_iff (h : Reach connInit connStep Any s) {q : ConnectAsked}
    {c : Call JobFn ConnectReq} {started : Bool} (hasked : s.asked j = some q)
    (hcall : s.jobs.calls j = some c) (hret : c.pc = .returned true started) :
    ∃ r, s.ran j = some r ∧ r.after = wpaDoConnect r.before (connectReq q) r.env ∧
      (Installs r.before r.after q.network ↔
        (r.before.started = true ∧ r.env.addNetwork = true ∧ r.env.dupSsid = true ∧
          r.env.dupPsk = true) ∧ q.psk.strlen < 64) := by
  have hinv := reach_connInv h
  obtain ⟨hfn, harg, hran⟩ := hinv.answers j q c hasked hcall
  have hcompleted : c.completed = 1 := (hinv.jobs.call j c hcall).safe.2.2.2.1 started hret
  obtain ⟨r, hr, hafter⟩ := hran (by rw [hcompleted]; exact Nat.one_pos)
  have harg : c.job.arg = some (connectReq q) := harg.resolve_right (by rw [hret]; simp)
  have hdo : r.after = wpaDoConnect r.before (connectReq q) r.env := by
    rw [hafter, runJob, hfn, harg]
  exact ⟨r, hr, hdo, hdo ▸ wpaDoConnect_installs_iff (hinv.checked j q hasked) r.before r.env⟩

/-- A string of `n` times the letter `a`. -/
def stringSample (n : Nat) : CString := ⟨replicate n 97, by simp⟩

/-- A request for a network with a key of `n` characters. -/
def askedSample (n : Nat) : ConnectAsked :=
  { ssid := stringSample 4, psk := stringSample n, bssid := some [2, 0, 0, 0, 0, 1] }

def connSample : Conn :=
  { jobs := jobsInit, supp := ⟨true, [], none⟩, asked := fun _ => none, ran := fun _ => none }

def envSample (dupPsk : Bool) : ConnectEnv := ⟨true, true, dupPsk⟩

/-- The call, the job and the return. -/
def connRun (n : Nat) (env : ConnectEnv) : List ConnOp :=
  .connect (askedSample n) true true ::
    [.install 0, .take, .enter, .leave, .finish, .poll 0, .free 0].map fun op => .job op env

/-- What became of the call: the place it is at, and whether the network was installed. -/
def connResult (s : Conn) (n : Nat) : Option CallAt × Option Bool :=
  ((s.jobs.calls 0).map fun c => c.pc,
    (s.ran 0).map fun r => decide (Installs r.before r.after (askedSample n).network))

theorem connect_installs_iff_sample : ∃ s : Conn, Reach connInit connStep Any s ∧
      ∃ r, s.ran 0 = some r ∧ Installs r.before r.after (askedSample 8).network := by
  obtain ⟨s, hreach, hcall, hasked, hran⟩ : ∃ s : Conn, Reach connInit connStep Any s ∧
      (s.jobs.calls 0).map (fun c => c.pc) = some (.returned true true) ∧
      (s.asked 0).map (fun q => (q.ssid.bytes, q.psk.bytes, q.bssid)) =
        some ((askedSample 8).ssid.bytes, (askedSample 8).psk.bytes, (askedSample 8).bssid) ∧
      (s.ran 0).map (fun r => (r.before.started, r.env)) = some (true, envSample true) :=
    Reach.of_run (connRun 8 (envSample true)) (show connInit connSample from ⟨rfl, rfl, rfl⟩)
      (runOk_any _ _) (by decide +kernel)
  obtain ⟨c, hc, hpc⟩ := map_eq_some_iff.mp hcall
  obtain ⟨q, hq, hstrings⟩ := map_eq_some_iff.mp hasked
  obtain rfl : q = askedSample 8 := by
    obtain ⟨⟨ssid, _⟩, ⟨psk, _⟩, bssid⟩ := q
    cases hstrings
    rfl
  obtain ⟨r, hr, -, hiff⟩ := connect_installs_iff hreach hq hc hpc
  rw [hr] at hran
  obtain ⟨hstarted, henv⟩ := Prod.mk.inj (some_inj.mp hran)
  refine ⟨s, hreach, r, hr, hiff.mpr ⟨⟨hstarted, ?_⟩, by decide⟩⟩
  rw [henv]
  exact ⟨rfl, rfl, rfl⟩

/-- Three calls that return 0 and install something else or nothing: with a key of 65
characters, which is cut off; with one of 64 digits, which is taken for a passphrase; and
with one of 8, where there is no memory for its copy. -/
theorem connect_reports_success :
    (∃ s : Conn, Reach connInit connStep Any s ∧
      connResult s 65 = (some (.returned true true), some false) ∧
      (s.supp.selected.map fun n => n.key) = some (.passphrase (replicate 64 97))) ∧
    (∃ s : Conn, Reach connInit connStep Any s ∧
      connResult s 64 = (some (.returned true true), some false) ∧
      (s.supp.selected.map fun n => n.key) = some (.passphrase (replicate 64 97))) ∧
    ∃ s : Conn, Reach connInit connStep Any s ∧
    connResult s 8 = (some (.returned true true), some false) ∧
      s.supp.networks = [] :=
  have hinit : connInit connSample := ⟨rfl, rfl, rfl⟩
  ⟨Reach.of_run (connRun 65 (envSample true)) hinit (runOk_any _ _) (by decide +kernel),
    Reach.of_run (connRun 64 (envSample true)) hinit (runOk_any _ _) (by decide +kernel),
    Reach.of_run (connRun 8 (envSample false)) hinit (runOk_any _ _) (by decide +kernel)⟩

end Net80211.Wpa
