import Net80211.Lib.TokenRing

/-!
# Semaphores of the two OS layers

`usb_osal_sem_create`, `_take` and `_give` as the USB shim uses them. On FreeRTOS
the semaphore has room for one token and a give that finds it there is lost. On
embox `struct sem` counts the tokens that are gone: `semaphore_enter` succeeds
while `value < max_value`, `semaphore_leave` takes one off `value` and has no
lower end.
-/

namespace Net80211.Usb

open Lib

inductive Os where
  | freertos
  | embox
  deriving DecidableEq, Repr

/-- A semaphore of either layer, with what keeps its fields in range. -/
inductive Sem where
  | freertos (count : Nat) (le : count ≤ 1)
  | embox (value maxValue : Int) (le : value ≤ maxValue)
  deriving DecidableEq, Repr

/-- `usb_osal_sem_create(0)`. -/
def semCreate : Os → Sem
  | .freertos => .freertos 0 (by decide)
  | .embox => .embox 1 1 (by decide)

/-- `usb_osal_sem_give`. -/
def Sem.give : Sem → Sem
  | .freertos _ _ => .freertos 1 (by decide)
  | .embox value maxValue le => .embox (value - 1) maxValue (by omega)

/-- `usb_osal_sem_take`, where it does not block. -/
def Sem.take : Sem → Option Sem
  | .freertos count le => if 0 < count then some (.freertos (count - 1) (by omega)) else none
  | .embox value maxValue _ =>
    if h : value < maxValue then some (.embox (value + 1) maxValue (by omega)) else none

/-- The tokens that are there. -/
def Sem.count : Sem → Nat
  | .freertos count _ => count
  | .embox value maxValue _ => (maxValue - value).toNat

instance : Semaphore Sem where
  give := Sem.give
  take := Sem.take
  count := Sem.count
  take_some := by
    intro s s' h
    cases s <;>
    · rw [Sem.take] at h
      split at h
      · cases h
        simp only [Sem.count]
        omega
      · cases h
  take_none := by
    intro s h
    cases s <;>
    · rw [Sem.take] at h
      split at h
      · cases h
      · simp only [Sem.count]
        omega

/-- Which layer a semaphore belongs to. -/
def Sem.os : Sem → Os
  | .freertos .. => .freertos
  | .embox .. => .embox

theorem Sem.os_give (s : Sem) : s.give.os = s.os := by
  cases s <;> rfl

theorem Sem.os_take {s s' : Sem} (h : s.take = some s') : s'.os = s.os := by
  cases s with
  | freertos count le | embox value maxValue le =>
    rw [Sem.take] at h
    split at h
    · cases h
      rfl
    · cases h

/-- A give counts on embox, and on FreeRTOS where the semaphore is empty. -/
theorem Sem.count_give {s : Sem} (h : s.os = .freertos → s.count = 0) :
    s.give.count = s.count + 1 := by
  cases s with
  | freertos count le =>
    have h0 : count = 0 := h rfl
    subst h0
    rfl
  | embox value maxValue le =>
    simp only [Sem.give, Sem.count]
    omega

theorem Sem.count_give_le (s : Sem) : s.give.count ≤ s.count + 1 := by
  cases s with
  | freertos count le | embox value maxValue le =>
    simp only [Sem.give, Sem.count]
    omega

end Net80211.Usb
