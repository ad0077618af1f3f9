import Watchlist.Library.Bytes
import Watchlist.Library.PriorityQueue

/-!
`CoroutineTask.hpp`: the status that a coroutine task is observed by, and what the
event loops keep of a coroutine that sleeps until a deadline.

The steady clock counts nanoseconds and a delay milliseconds, both in 64 bits. A loop
adds the two; `steadyDeadline` is the sum as the machine computes it and `exactDeadline`
the sum as it is meant.
-/

namespace Watchlist.Concurrency

inductive TaskStatus
  | pending
  | succeeded
  | cancelled
  | failed
  deriving DecidableEq

/-- `exception` is the text of the exception that the coroutine has ended with. -/
structure TaskState where
  status : TaskStatus
  exception : Option Bytes

namespace TaskState

def new : TaskState := ⟨.pending, none⟩

/-- Only a pending task takes a status. -/
def finish (status : TaskStatus) (exception : Option Bytes) (state : TaskState) : TaskState :=
  if state.status ≠ .pending then state else ⟨status, exception⟩

def succeed : TaskState → TaskState := finish .succeeded none

def fail (exception : Bytes) : TaskState → TaskState := finish .failed (some exception)

def cancel : TaskState → TaskState := finish .cancelled none

theorem finish_of_settled {status : TaskStatus} {exception : Option Bytes} {state : TaskState}
    (h : state.status ≠ .pending) : state.finish status exception = state := if_pos h

theorem finish_of_pending {status : TaskStatus} {exception : Option Bytes} {state : TaskState}
    (h : state.status = .pending) : state.finish status exception = ⟨status, exception⟩ :=
  if_neg (not_not_intro h)

theorem finish_ne_pending {status : TaskStatus} {exception : Option Bytes} {state : TaskState}
    (h : status ≠ .pending) : (state.finish status exception).status ≠ .pending := by
  unfold finish
  split
  · assumption
  · exact h

/-- The three ways to finish a task all settle it. -/
inductive Settles : (TaskState → TaskState) → Prop
  | succeed : Settles succeed
  | fail (exception : Bytes) : Settles (fail exception)
  | cancel : Settles cancel

theorem Settles.of_settled {f : TaskState → TaskState} (hf : Settles f) {state : TaskState}
    (h : state.status ≠ .pending) : f state = state := by
  cases hf with
  | succeed => exact finish_of_settled h
  | fail => exact finish_of_settled h
  | cancel => exact finish_of_settled h

theorem Settles.ne_pending {f : TaskState → TaskState} (hf : Settles f) (state : TaskState) :
    (f state).status ≠ .pending := by
  cases hf with
  | succeed => exact finish_ne_pending nofun
  | fail => exact finish_ne_pending nofun
  | cancel => exact finish_ne_pending nofun

end TaskState

/-- A coroutine, by the number of its task, and the time it sleeps until. -/
structure DelayedTask where
  time : ℤ
  sequence : ℕ
  frame : ℕ
  deriving DecidableEq

namespace DelayedTask

/-- The order of `Later`: by deadline, then by the number of the enqueue. -/
def key (d : DelayedTask) : ℤ ×ₗ ℕ := toLex (d.time, d.sequence)

/-- `d` is to be resumed before `d'`. -/
def Earlier (d d' : DelayedTask) : Prop :=
  d.time < d'.time ∨ d.time = d'.time ∧ d.sequence < d'.sequence

instance (d d' : DelayedTask) : Decidable (d.Earlier d') := by
  unfold Earlier
  infer_instance

theorem earlier_iff {d d' : DelayedTask} : d.Earlier d' ↔ d.key < d'.key := by
  rw [key, key, Prod.Lex.toLex_lt_toLex, Earlier]

theorem not_earlier_iff {d d' : DelayedTask} : ¬d'.Earlier d ↔ d.key ≤ d'.key := by
  rw [earlier_iff, not_lt]

end DelayedTask

/-- `delayed_tasks_` -/
abbrev DelayedTasks := PriorityQueue DelayedTask.key

/-! ### Deadlines -/

/-- The clock reading that a delay asks for; a negative delay asks for none. -/
def exactDeadline (now delay : ℤ) : ℤ := now + max delay 0 * 1000000

/-- The deadline of `enqueue_after` in 64-bit arithmetic: the delay is converted to
nanoseconds and added to the clock reading. -/
def steadyDeadline (now delay : ℤ) : ℤ :=
  (now + ((if delay < 0 then 0 else delay) * 1000000).bmod (2 ^ 64)).bmod (2 ^ 64)

/-- The largest time that the clock can show. -/
def latestTime : ℤ := 2 ^ 63 - 1

theorem steadyDeadline_eq (now delay : ℤ) :
    steadyDeadline now delay = (exactDeadline now delay).bmod (2 ^ 64) := by
  have hclamp : (if delay < 0 then 0 else delay) = max delay 0 := by
    split <;> omega
  rw [steadyDeadline, exactDeadline, hclamp, Int.add_bmod_bmod]

/-- A time that the clock can show is computed exactly. -/
theorem steadyDeadline_of_le {now delay : ℤ} (hnow : 0 ≤ now)
    (h : exactDeadline now delay ≤ latestTime) :
    steadyDeadline now delay = exactDeadline now delay := by
  rw [steadyDeadline_eq]
  have hpos : 0 ≤ exactDeadline now delay := by
    unfold exactDeadline
    omega
  unfold latestTime at h
  apply Int.bmod_eq_of_le <;> omega

/-- The deadline is late enough exactly when the sum fits, or wraps round to the
latest time itself. -/
theorem le_steadyDeadline_iff {now delay : ℤ} (hnow : 0 ≤ now) :
    min (exactDeadline now delay) latestTime ≤ steadyDeadline now delay ↔
      exactDeadline now delay ≤ latestTime ∨
        exactDeadline now delay % 2 ^ 64 = latestTime := by
  by_cases hfits : exactDeadline now delay ≤ latestTime
  · rw [steadyDeadline_of_le hnow hfits]
    exact iff_of_true (min_le_left _ _) (Or.inl hfits)
  · rw [min_eq_right (le_of_not_ge hfits), steadyDeadline_eq, or_iff_right hfits]
    unfold latestTime
    -- no number of 64 bits is larger than the latest time
    rw [Int.bmod_def]
    split <;> omega

end Watchlist.Concurrency
