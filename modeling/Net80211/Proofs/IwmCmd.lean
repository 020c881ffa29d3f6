import Net80211.Iwm.Cmd
import Net80211.Lib.Run

/-!
# Commands of iwm and their completions

A call that waits for its command returns 0 because its slot is marked, and the
slot is marked by a completion for its descriptor or by a wakeup that was stored
for the descriptor before the command was sent. The second way, and a completion
of an older command of the same descriptor, make a call return before the
firmware has seen its command through. Where neither happens, every marked slot
of a waiting call goes back to the completion of its own command (`SlotFits`), and
the comparison of the generations puts that completion into the generation of the
command.
-/

namespace Net80211.Iwm

open Lib Osal List Function Option

/-- The completion of command number `cmd` has been run, between two generations. -/
def DoneBetween (sc : Softc) (idx lo cmd : Nat) : Prop :=
  ∃ d ∈ sc.dones, d.cmd = some cmd ∧ d.idx = idx ∧ lo ≤ d.generation ∧ d.generation ≤ sc.generation

/-- What a slot says about the thread that sleeps in it. -/
def SlotFits (sc : Softc) (s : TsleepSlot Ident) : Sleep → Prop
  | .wantresp _ => s.ident = .wantresp
  | .other n => s.ident = .other n
  | .done _ idx generation cmd =>
    s.ident = .desc idx ∧ (s.fired = true → DoneBetween sc idx generation cmd)

/-- A call that returned 0 has had the completion of its command, in the
generation of the command. -/
def Matched (sc : Softc) (r : Returned) : Prop :=
  ∃ cmd s, r.cmd = some cmd ∧ sc.sent[cmd]? = some s ∧ ⟨some cmd, s.idx, s.generation⟩ ∈ sc.dones

structure CmdInv (sc : Softc) : Prop where
  slots : ∀ s ∈ sc.tsleep.slots, ∃ sl, sc.sleeps s.thread = some sl ∧ SlotFits sc s sl
  sent : ∀ thread hcmd idx generation cmd,
    sc.sleeps thread = some (.done hcmd idx generation cmd) →
      hcmd.async = false ∧ sc.sent[cmd]? = some ⟨idx, generation⟩ ∧ generation ≤ sc.generation
  returned : ∀ r ∈ sc.returned, r.async = false → r.err = none → Matched sc r

/-! ## The condition -/

/-- No wakeup is stored for the descriptor that the next command takes. -/
def NoneStored (sc : Softc) : Prop := Ident.desc sc.cur ∉ sc.tsleep.pending

/-- The command that a thread waits for on a descriptor. -/
def waitsFor (idx : Nat) : Option Sleep → Option Nat
  | some (.done _ i _ cmd) => if i = idx then some cmd else none
  | _ => none

/-- `iwm_set_cmd_in_flight` has nothing to wait for, or the NIC wakes up. -/
def Softc.nicReady (sc : Softc) (env : SendEnv) : Bool :=
  !(sc.apmgWakeUpWa && !sc.cmdHoldNicAwake) || env.nicAwake

/-- Does `iwm_send_cmd` send a command that it waits for? -/
def Softc.sendsSync (sc : Softc) (hcmd : HostCmd) (env : SendEnv) : Bool :=
  !hcmd.async && !(hcmd.wantSkb && sc.wantresp ≠ cmdRespIdle) && !sc.stopped &&
    (checkLength hcmd env).isNone && sc.nicReady env

/-- Does a call that slept for the response buffer? -/
def Softc.resumeSendsSync (sc : Softc) (thread : Nat) (env : SendEnv) : Bool :=
  match sc.sleeps thread, tsleepLeave sc.tsleep thread with
  | some (.wantresp hcmd), some (_, true) => sc.sendsSync hcmd env
  | _, _ => false

/-- A command that waits finds no stored wakeup on its descriptor when it is sent, and a completion
that wakes a waiting command is the completion of that command. -/
def CmdOk (sc : Softc) : CmdOp → Prop
  | .send _ hcmd env => sc.sendsSync hcmd env = true → NoneStored sc
  | .resume thread env => sc.resumeSendsSync thread env = true → NoneStored sc
  | .cmdDone qid idx cmd =>
    qid = cmdQueue → ∀ s ∈ sc.tsleep.slots, s.fired = false →
      waitsFor idx (sc.sleeps s.thread) = none ∨ waitsFor idx (sc.sleeps s.thread) = cmd
  | _ => True

instance decidableCmdOk (sc : Softc) (op : CmdOp) : Decidable (CmdOk sc op) := by
  cases op <;> dsimp only [CmdOk, NoneStored] <;> infer_instance

/-! ## What stays true -/

variable {sc sc' : Softc} {ident : Ident} {sl : Sleep} {r : Returned} {idx : Nat}

/-- The history only grows. -/
structure Grows (sc sc' : Softc) : Prop where
  sent : ∃ l, sc'.sent = sc.sent ++ l
  dones : ∀ d ∈ sc.dones, d ∈ sc'.dones
  generation : sc.generation ≤ sc'.generation

theorem Grows.of_eq (hs : sc'.sent = sc.sent) (hd : sc'.dones = sc.dones)
    (hg : sc.generation ≤ sc'.generation) : Grows sc sc' :=
  ⟨⟨[], by rw [hs, append_nil]⟩, fun _ h => hd ▸ h, hg⟩

theorem Grows.getElem? (h : Grows sc sc') {cmd : Nat} {s : Sent} (hs : sc.sent[cmd]? = some s) :
    sc'.sent[cmd]? = some s := by
  obtain ⟨l, hl⟩ := h.sent
  have hlt : cmd < sc.sent.length := (List.getElem?_eq_some_iff.mp hs).1
  rw [hl, getElem?_append_left hlt]
  exact hs

theorem DoneBetween.mono {lo cmd : Nat} (h : DoneBetween sc idx lo cmd) (hg : Grows sc sc') :
    DoneBetween sc' idx lo cmd := by
  obtain ⟨d, hd, hcmd, hidx, hlo, hhi⟩ := h
  exact ⟨d, hg.dones d hd, hcmd, hidx, hlo, Nat.le_trans hhi hg.generation⟩

theorem SlotFits.mono {s : TsleepSlot Ident} (h : SlotFits sc s sl) (hg : Grows sc sc') :
    SlotFits sc' s sl := by
  cases sl with
  | wantresp hcmd | other n => exact h
  | done hcmd idx generation cmd => exact ⟨h.1, fun hf => (h.2 hf).mono hg⟩

theorem Matched.mono (h : Matched sc r) (hg : Grows sc sc') : Matched sc' r := by
  obtain ⟨cmd, s, hcmd, hs, hd⟩ := h
  exact ⟨cmd, s, hcmd, hg.getElem? hs, hg.dones _ hd⟩

/-- A step that leaves the sleepers and the ended calls alone. -/
theorem CmdInv.grow (h : CmdInv sc) (hg : Grows sc sc') (ht : sc'.tsleep = sc.tsleep)
    (hs : sc'.sleeps = sc.sleeps) (hr : sc'.returned = sc.returned) : CmdInv sc' := by
  refine ⟨?_, ?_, ?_⟩
  · intro s hmem
    rw [ht] at hmem
    obtain ⟨sl, hsl, hfit⟩ := h.slots s hmem
    exact ⟨sl, by rw [hs]; exact hsl, hfit.mono hg⟩
  · intro thread hcmd idx generation cmd hsl
    rw [hs] at hsl
    obtain ⟨ha, hsent, hle⟩ := h.sent thread hcmd idx generation cmd hsl
    exact ⟨ha, hg.getElem? hsent, Nat.le_trans hle hg.generation⟩
  · intro r hmem ha he
    rw [hr] at hmem
    exact (h.returned r hmem ha he).mono hg

theorem CmdInv.frame (h : CmdInv sc) (hs : sc'.sent = sc.sent) (hd : sc'.dones = sc.dones)
    (hg : sc.generation ≤ sc'.generation) (ht : sc'.tsleep = sc.tsleep)
    (hl : sc'.sleeps = sc.sleeps) (hr : sc'.returned = sc.returned) : CmdInv sc' :=
  h.grow (Grows.of_eq hs hd hg) ht hl hr

theorem CmdInv.wakeup (h : CmdInv sc) (hne : ∀ idx, ident ≠ .desc idx) :
    CmdInv { sc with tsleep := wakeup sc.tsleep ident } := by
  refine ⟨?_, h.sent, h.returned⟩
  intro s' hmem
  obtain ⟨s, hs, hthread, hident, hfired⟩ := wakeup_slots hmem
  obtain ⟨sl, hsl, hfit⟩ := h.slots s hs
  refine ⟨sl, by rw [hthread]; exact hsl, ?_⟩
  cases sl with
  | wantresp hcmd | other n => exact hident.trans hfit
  | done hcmd idx generation cmd =>
    refine ⟨hident.trans hfit.1, fun hf => ?_⟩
    rcases hfired.mp hf with hold | hid
    · exact hfit.2 hold
    · exact absurd (hid.symm.trans hfit.1) (hne idx)

theorem CmdInv.ret (h : CmdInv sc) (hm : r.async = false → r.err = none → Matched sc r) :
    CmdInv { sc with returned := sc.returned ++ [r] } := by
  refine ⟨h.slots, h.sent, ?_⟩
  intro r' hmem
  rcases mem_append.mp hmem with hold | hnew
  · exact h.returned r' hold
  · rw [mem_singleton.mp hnew]
    exact hm

theorem CmdInv.sleepOn (h : CmdInv sc) (hfree : sc.sleeps thread = none)
    (hfit : ∀ fired, (ident ∉ sc.tsleep.pending → fired = false) →
      SlotFits sc ⟨thread, ident, fired⟩ sl)
    (hsent : ∀ hcmd idx generation cmd, sl = .done hcmd idx generation cmd →
      hcmd.async = false ∧ sc.sent[cmd]? = some ⟨idx, generation⟩ ∧ generation ≤ sc.generation) :
    CmdInv (sleepOn sc thread ident sl) := by
  obtain ⟨fired, hslots, hstored⟩ := tsleepEnter_slots sc.tsleep thread ident
  refine ⟨?_, ?_, h.returned⟩
  · intro s hmem
    rw [show (Net80211.Iwm.sleepOn sc thread ident sl).tsleep.slots = _ from hslots] at hmem
    rcases mem_cons.mp hmem with rfl | hold
    · exact ⟨sl, update_self _ _ _, hfit fired hstored⟩
    · obtain ⟨sl', hsl', hfit'⟩ := h.slots s hold
      have hne : s.thread ≠ thread := by
        intro heq
        rw [heq, hfree] at hsl'
        cases hsl'
      exact ⟨sl', by rw [← hsl']; exact update_of_ne hne _ _, hfit'⟩
  · intro t hcmd idx generation cmd hsl
    by_cases heq : t = thread
    · subst heq
      simp only [Net80211.Iwm.sleepOn, update_self] at hsl
      exact hsent hcmd idx generation cmd (Option.some.inj hsl)
    · refine h.sent t hcmd idx generation cmd ?_
      rw [← hsl]
      exact (update_of_ne heq _ _).symm

variable {env : SendEnv} {t : Tsleep Ident} {thread : Nat} {fired : Bool}

theorem CmdInv.leave (h : CmdInv sc) (hsl : sc.sleeps thread = some sl)
    (hl : tsleepLeave sc.tsleep thread = some (t, fired)) :
    CmdInv { sc with tsleep := t, sleeps := update sc.sleeps thread none } ∧
      ∃ s, s.fired = fired ∧ SlotFits sc s sl := by
  obtain ⟨⟨s, hmem, hthread, hfired⟩, hrest, _⟩ := tsleepLeave_some hl
  refine ⟨⟨?_, ?_, h.returned⟩, s, hfired, ?_⟩
  · intro s' hs'
    obtain ⟨hold, hne⟩ := hrest s' hs'
    obtain ⟨sl', hsl', hfit'⟩ := h.slots s' hold
    exact ⟨sl', by rw [← hsl']; exact update_of_ne hne _ _, hfit'⟩
  · intro thread' hcmd idx generation cmd hsl'
    have hne : thread' ≠ thread := by
      rintro rfl
      simp only [update_self] at hsl'
      cases hsl'
    refine h.sent thread' hcmd idx generation cmd ?_
    rw [← hsl']
    exact (update_of_ne hne _ _).symm
  · obtain ⟨sl', hsl', hfit⟩ := h.slots s hmem
    rw [hthread, hsl] at hsl'
    cases hsl'
    exact hfit

variable {cmd : Option Nat} {hcmd : HostCmd}

theorem CmdInv.freeResp (h : CmdInv sc) : CmdInv (iwmFreeResp sc) := by
  have hwake : CmdInv { sc with tsleep := Osal.wakeup sc.tsleep .wantresp } :=
    h.wakeup fun idx => by simp
  exact hwake.frame rfl rfl (Nat.le_refl _) rfl rfl rfl

/-! ## The steps -/

theorem CmdInv.sendOut (h : CmdInv sc) (hcmd : HostCmd) (cmd : Option Nat) (err : Option Errno)
    (hm : hcmd.async = false → err = none → Matched sc ⟨hcmd.async, cmd, err⟩) :
    CmdInv (sendOut sc hcmd cmd err) := by
  rw [Net80211.Iwm.sendOut]
  split
  · next hfree =>
    refine h.freeResp.ret fun _ he => ?_
    rw [Bool.and_eq_true, isSome_iff_ne_none] at hfree
    exact absurd he hfree.2
  · exact h.ret hm

theorem iwmSetCmdInFlight_ok (h : iwmSetCmdInFlight sc env = .ok sc') :
    sc.nicReady env = true ∧ ∃ awake, sc' = { sc with cmdHoldNicAwake := awake } := by
  rw [iwmSetCmdInFlight] at h
  rw [Softc.nicReady]
  split at h
  · split at h
    · next hwa hawake =>
      cases h
      exact ⟨by rw [hawake, Bool.or_true], true, rfl⟩
    · cases h
  · next hwa =>
    cases h
    exact ⟨by rw [Bool.eq_false_iff.mpr hwa]; rfl, sc.cmdHoldNicAwake, rfl⟩

theorem CmdInv.sendKick (h : CmdInv sc) (hfree : sc.sleeps thread = none)
    (hst : hcmd.async = false → sc.stopped = false → checkLength hcmd env = none →
      sc.nicReady env = true → NoneStored sc) :
    CmdInv (sendKick sc thread hcmd env) := by
  rw [Net80211.Iwm.sendKick]
  split
  · exact h.sendOut hcmd none _ fun _ he => by cases he
  next hrun =>
  split
  · exact h.sendOut hcmd none _ fun _ he => by cases he
  next hlen =>
  split
  · exact h.sendOut hcmd none _ fun _ he => by cases he
  next sc1 hflight =>
  obtain ⟨hready, awake, rfl⟩ := iwmSetCmdInFlight_ok hflight
  have hkick : CmdInv { sc with
      cmdHoldNicAwake := awake
      queued := sc.queued + 1
      cur := (sc.cur + 1) % txRingCount
      sent := sc.sent ++ [⟨sc.cur, sc.generation⟩] } :=
    h.grow ⟨⟨_, rfl⟩, fun _ hd => hd, Nat.le_refl _⟩ rfl rfl rfl
  split
  · next hasync =>
    refine hkick.sendOut hcmd _ _ fun hf _ => ?_
    rw [hasync] at hf
    cases hf
  · next hsync =>
    rw [Bool.not_eq_true] at hsync
    refine hkick.sleepOn hfree ?_ ?_
    · intro fired hstored
      rw [hstored (hst hsync (Bool.eq_false_iff.mpr hrun) hlen hready)]
      exact ⟨rfl, fun hf => by cases hf⟩
    · intro hcmd' idx generation cmd hsl
      cases hsl
      exact ⟨hsync, getElem?_concat_length, Nat.le_refl _⟩

theorem CmdInv.iwmSendCmd (h : CmdInv sc) (hfree : sc.sleeps thread = none)
    (hst : sc.sendsSync hcmd env = true → NoneStored sc) :
    CmdInv (iwmSendCmd sc thread hcmd env) := by
  rw [Net80211.Iwm.iwmSendCmd]
  rw [Softc.sendsSync] at hst
  split
  · next hskb =>
    split
    · exact h.sleepOn hfree (fun _ _ => rfl) fun _ _ _ _ hsl => by cases hsl
    · next hidle =>
      have hwant : CmdInv { sc with wantresp := cmdQueue * 65536 + sc.cur } :=
        h.frame rfl rfl (Nat.le_refl _) rfl rfl rfl
      exact hwant.sendKick hfree fun ha hrun hlen hready => hst (by
        rw [ha, hrun, hlen, decide_eq_false hidle, Bool.and_false]
        exact hready)
  · next hskb =>
    exact h.sendKick hfree fun ha hrun hlen hready => hst (by
      rw [ha, hrun, hlen, hready, Bool.eq_false_iff.mpr hskb]
      rfl)

theorem CmdInv.resume (h : CmdInv sc) (hok : CmdOk sc (.resume thread env))
    (hs : cmdStep sc (.resume thread env) = some sc') : CmdInv sc' := by
  rw [cmdStep] at hs
  split at hs
  · next sl t fired hsl hl =>
    cases hs
    obtain ⟨hleft, s, hfired, hfit⟩ := h.leave hsl hl
    have hfree : update sc.sleeps thread none thread = none := update_self _ _ _
    cases sl with
    | wantresp hcmd =>
      rw [iwmResume]
      split
      · next hf =>
        refine hleft.iwmSendCmd hfree fun hsend => ?_
        rw [CmdOk, Softc.resumeSendsSync, hsl, hl, hf] at hok
        rw [NoneStored, (tsleepLeave_some hl).2.2]
        exact hok hsend
      · exact hleft.ret fun _ he => by cases he
    | done hcmd idx generation cmd =>
      obtain ⟨ha, hsent, hle⟩ := h.sent thread hcmd idx generation cmd hsl
      refine hleft.sendOut hcmd _ _ fun _ he => ?_
      split at he
      · next hf =>
        split at he
        · cases he
        · next hgen =>
          rw [not_not] at hgen
          -- The completion lies between two equal generations.
          obtain ⟨d, hd, hcmd', hidx, hlo, hhi⟩ := hfit.2 (hfired.trans hf)
          refine ⟨cmd, ⟨idx, generation⟩, rfl, hsent, ?_⟩
          have hdgen : d.generation = generation := by
            have : sc.generation = generation := hgen.symm
            omega
          rw [← hcmd', ← hidx, ← hdgen]
          exact hd
      · cases he
    | other n => exact hleft
  · cases hs

theorem CmdInv.clearCmdInFlight (h : CmdInv sc) : CmdInv (iwmClearCmdInFlight sc) := by
  rw [iwmClearCmdInFlight]
  split
  · exact h.frame rfl rfl (Nat.le_refl _) rfl rfl rfl
  · exact h

/-- A completion marks the calls that wait on its descriptor. -/
theorem CmdInv.done (h : CmdInv sc) (hok : CmdOk sc (.cmdDone cmdQueue idx cmd)) : CmdInv { sc with
      tsleep := Osal.wakeup sc.tsleep (.desc idx)
      dones := sc.dones ++ [⟨cmd, idx, sc.generation⟩] } := by
  have hg : Grows sc { sc with
      tsleep := Osal.wakeup sc.tsleep (.desc idx)
      dones := sc.dones ++ [⟨cmd, idx, sc.generation⟩] } :=
    ⟨⟨[], by rw [append_nil]⟩, fun d hd => mem_append_left _ hd, Nat.le_refl _⟩
  refine ⟨?_, ?_, fun r hr ha he => (h.returned r hr ha he).mono hg⟩
  · intro s' hmem
    obtain ⟨s, hs, hthread, hident, hfired⟩ := wakeup_slots hmem
    obtain ⟨sl, hsl, hfit⟩ := h.slots s hs
    refine ⟨sl, by rw [hthread]; exact hsl, ?_⟩
    cases sl with
    | wantresp hcmd | other n => exact hident.trans hfit
    | done hcmd i generation c =>
      refine ⟨hident.trans hfit.1, fun hf => ?_⟩
      by_cases hold : s.fired = true
      · exact (hfit.2 hold).mono hg
      · -- The call is woken now, by the completion of its own command.
        have hid : s.ident = .desc idx := (hfired.mp hf).resolve_left hold
        cases hid.symm.trans hfit.1
        have hc : cmd = some c := by
          have := hok rfl s hs (Bool.eq_false_iff.mpr hold)
          rw [hsl, waitsFor, if_pos rfl] at this
          rcases this with hnone | hcmd
          · cases hnone
          · exact hcmd.symm
        have hle := (h.sent s.thread hcmd idx generation c hsl).2.2
        exact ⟨_, mem_append_right _ mem_cons_self, hc, rfl, hle, Nat.le_refl _⟩
  · intro thread hcmd i generation c hsl
    obtain ⟨ha, hsent, hle⟩ := h.sent thread hcmd i generation c hsl
    exact ⟨ha, hg.getElem? hsent, hle⟩

theorem CmdInv.cmdDone (h : CmdInv sc) {qid : Nat} (hok : CmdOk sc (.cmdDone qid idx cmd)) :
    CmdInv (iwmCmdDone sc qid idx cmd) := by
  rw [iwmCmdDone]
  split
  · exact h
  next hqid =>
  obtain rfl := not_not.mp hqid
  have hdone : CmdInv { sc with
      tsleep := Osal.wakeup sc.tsleep (.desc idx)
      dones := sc.dones ++ [⟨cmd, idx, sc.generation⟩] } :=
    h.done hok
  dsimp only
  split
  · exact hdone
  · split
    · refine CmdInv.clearCmdInFlight ?_
      exact hdone.frame rfl rfl (Nat.le_refl _) rfl rfl rfl
    · exact hdone.frame rfl rfl (Nat.le_refl _) rfl rfl rfl

theorem CmdInv.stopDevice (h : CmdInv sc) : CmdInv (iwmStopDevice sc) := by
  have hreset : CmdInv { sc with queued := 0, cur := 0 } :=
    h.frame rfl rfl (Nat.le_refl _) rfl rfl rfl
  rw [iwmStopDevice]
  split
  · exact hreset.clearCmdInFlight
  · exact hreset

theorem cmdStep_inv {op : CmdOp} (h : CmdInv sc) (hok : CmdOk sc op)
    (hs : cmdStep sc op = some sc') : CmdInv sc' := by
  cases op with
  | send thread hcmd env =>
    rw [cmdStep] at hs
    split at hs
    · next hfree =>
      cases hs
      exact h.iwmSendCmd hfree hok
    · cases hs
  | resume thread env => exact h.resume hok hs
  | freeResp =>
    cases hs
    exact h.freeResp
  | cmdDone qid idx cmd =>
    obtain ⟨-, rfl⟩ := of_guard hs
    exact h.cmdDone hok
  | stopDevice =>
    cases hs
    exact h.stopDevice
  | stop =>
    cases hs
    have hstop : CmdInv { sc with stopped := true, generation := sc.generation + 1 } :=
      h.frame rfl rfl (Nat.le_succ _) rfl rfl rfl
    exact hstop.stopDevice
  | init =>
    cases hs
    exact h.frame rfl rfl (Nat.le_succ _) rfl rfl rfl
  | sleep thread n =>
    rw [cmdStep] at hs
    split at hs
    · next hfree =>
      cases hs
      exact h.sleepOn hfree (fun _ _ => rfl) fun _ _ _ _ hsl => by cases hsl
    · cases hs
  | wakeup n =>
    cases hs
    exact h.wakeup fun idx => by simp

theorem cmdInv_init (wa : Bool) : CmdInv (softcInit wa) := by
  refine ⟨?_, ?_, ?_⟩
  · intro s hs
    cases hs
  · intro thread hcmd idx generation cmd hsl
    cases hsl
  · intro r hr
    cases hr

/-- In a run in which no waiting command finds a stored wakeup on its descriptor and
no completion wakes a waiting command that is not its own, a call that waited and
returned 0 has sent its command, and `iwm_cmd_done` has been run for the
completion of that command, with its index and in its generation. -/
theorem iwm_sync_matched (wa : Bool) (sc : Softc)
    (h : Reach (fun sc => sc = softcInit wa) cmdStep CmdOk sc) :
    ∀ r ∈ sc.returned, r.async = false → r.err = none →
      ∃ cmd s, r.cmd = some cmd ∧ sc.sent[cmd]? = some s ∧
        ⟨some cmd, s.idx, s.generation⟩ ∈ sc.dones := by
  have hinv : CmdInv sc :=
    h.invariant (fun _ h0 => h0 ▸ cmdInv_init wa) fun _ _ _ h hok hs => cmdStep_inv h hok hs
  exact hinv.returned

/-! ### Two runs -/

def sampleCmd (async : Bool) : HostCmd :=
  { id := 0x88, async := async, wantSkb := false, paylen := 4 }

def sampleEnv : SendEnv := { mbuf := true, nicAwake := true }

/-- Once around the ring with commands that nobody waits for. The first one is
completed. -/
def sampleRound : List CmdOp :=
  .send 0 (sampleCmd true) sampleEnv :: .cmdDone cmdQueue 0 (some 0) ::
    replicate 255 (.send 0 (sampleCmd true) sampleEnv)

/-- The next command waits on descriptor 0, finds the wakeup that the first one left
there and returns 0. Its own completion has not come. -/
theorem iwm_sync_returns_early :
    ∃ sc : Softc, Reach (fun sc => sc = softcInit false) cmdStep Any sc ∧
      ⟨false, some 256, none⟩ ∈ sc.returned ∧ ∀ d ∈ sc.dones, d.cmd ≠ some 256 :=
  Reach.of_run (sampleRound ++ [.send 0 (sampleCmd false) sampleEnv, .resume 0 sampleEnv])
    rfl (runOk_any _ _) (by decide +kernel)

theorem iwm_sync_matched_sample :
    ∃ sc : Softc, Reach (fun sc => sc = softcInit false) cmdStep CmdOk sc ∧
      sc.returned = [⟨false, some 0, none⟩] ∧ ∃ s : Sent,
      ⟨some 0, s.idx, s.generation⟩ ∈ sc.dones := by
  obtain ⟨sc, hreach, hret⟩ :
      ∃ sc : Softc, Reach (fun sc => sc = softcInit false) cmdStep CmdOk sc ∧
        sc.returned = [⟨false, some 0, none⟩] :=
    Reach.of_run [.send 0 (sampleCmd false) sampleEnv, .cmdDone cmdQueue 0 (some 0),
      .resume 0 sampleEnv] rfl (by decide) (by decide)
  obtain ⟨cmd, s, hcmd, _, hd⟩ := iwm_sync_matched false sc hreach _
    (by rw [hret]; exact mem_cons_self) rfl rfl
  cases hcmd
  exact ⟨sc, hreach, hret, s, hd⟩

end Net80211.Iwm
