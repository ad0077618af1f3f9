import Watchlist.Concurrency.CoroutineTask
import Watchlist.Library.Weights

/-!
Waiting for a task: `TaskState` of `CoroutineTask.hpp` with its mutex and its condition
variable. Any threads settle the task, wait for it with and without a timeout, and get its
result. A section is what is done under one hold of the mutex; going to sleep gives it up
in the same step. A sleeper may wake without being notified.
-/

namespace Watchlist.Concurrency

open Bytes Transition Threads

/-- What a waiting call ends with. -/
inductive Answer
  | waited
  /-- `wait_for` has returned -/
  | answered (done : Bool)
  | got
  /-- `get` has thrown `TaskCancelled` -/
  | threwCancelled
  | rethrew (exception : Bytes)
  deriving DecidableEq

/-- The end of `get`, with what it has read. -/
def TaskState.get (state : TaskState) : Answer :=
  if state.status = .cancelled then .threwCancelled
  else
    match state.exception with
    | some exception => .rethrew exception
    | none => .got

inductive Waiting
  | wait
  | waitFor
  | get
  deriving DecidableEq

/-- The ways a waiting call can end. -/
def Waiting.Suits : Waiting → Answer → Prop
  | .wait, answer => answer = .waited
  | .waitFor, answer => ∃ done, answer = .answered done
  | .get, answer => ∃ state : TaskState, answer = state.get

structure TaskCell where
  state : TaskState
  /-- the threads that sleep on `completed_` -/
  asleep : ℕ → Bool
  /-- what `finish` has been called with, in the order of the mutex -/
  asked : List TaskState
  /-- the waiting calls that have been entered, with their threads -/
  entered : List (ℕ × Waiting)
  /-- how they have ended -/
  answers : List (ℕ × Answer)

namespace TaskCell

inductive Call
  | succeed
  | fail (exception : Bytes)
  | cancel
  | await (waiting : Waiting)

inductive Section
  /-- the locked part of `finish` -/
  | settle (asked : TaskState)
  | notifyAll
  /-- the predicate of a wait, under the mutex -/
  | check (waiting : Waiting)
  | sleeping (waiting : Waiting)
  /-- the predicate after a timeout -/
  | expire
  /-- the locked part of `get` after its wait -/
  | read

/-- Why a sleeper goes on. -/
inductive Wake
  | notified
  | spuriously
  | timedOut
  deriving DecidableEq

def new : TaskCell := ⟨.new, fun _ => false, [], [], []⟩

/-- The waiting calls of a thread, in order. -/
def waitsOf (cell : TaskCell) (k : ℕ) : List Waiting :=
  (cell.entered.filter (·.1 = k)).map Prod.snd

/-- The answers that a thread has been given, in order. -/
def answersOf (cell : TaskCell) (k : ℕ) : List Answer :=
  (cell.answers.filter (·.1 = k)).map Prod.snd

def setAsleep (cell : TaskCell) (k : ℕ) (asleep : Bool) : TaskCell :=
  { cell with asleep := Function.update cell.asleep k asleep }

def answer (cell : TaskCell) (k : ℕ) (answer : Answer) : TaskCell :=
  { cell with answers := cell.answers ++ [(k, answer)] }

def isDone (cell : TaskCell) : Bool := decide (cell.state.status ≠ .pending)

/-- The locked part of `finish`. -/
def finish (cell : TaskCell) (asked : TaskState) : TaskCell :=
  { cell with
    state := cell.state.finish asked.status asked.exception
    asked := cell.asked ++ [asked] }

/-- A wait whose predicate holds. -/
def goOn (cell : TaskCell) (k : ℕ) : Waiting → TaskCell × List Section
  | .wait => (cell.answer k .waited, [])
  | .waitFor => (cell.answer k (.answered true), [])
  | .get => (cell, [.read])

def enter (k : ℕ) (cell : TaskCell) : Call → Option (TaskCell × List Section)
  | .succeed => some (cell, [.settle ⟨.succeeded, none⟩])
  | .fail exception => some (cell, [.settle ⟨.failed, some exception⟩])
  | .cancel => some (cell, [.settle ⟨.cancelled, none⟩])
  | .await waiting =>
      some ({ cell with entered := cell.entered ++ [(k, waiting)] }, [.check waiting])

def run (k : ℕ) (cell : TaskCell) : Section → Wake → Option (TaskCell × List Section)
  | .settle asked, _ => some (cell.finish asked, if cell.isDone then [] else [.notifyAll])
  | .notifyAll, _ => some ({ cell with asleep := fun _ => false }, [])
  | .check waiting, _ =>
      if cell.isDone then some (cell.goOn k waiting)
      else some (cell.setAsleep k true, [.sleeping waiting])
  | .sleeping waiting, .notified =>
      if cell.asleep k then none else some (cell, [.check waiting])
  | .sleeping waiting, .spuriously =>
      if cell.asleep k then some (cell.setAsleep k false, [.check waiting]) else none
  | .sleeping waiting, .timedOut =>
      if waiting = .waitFor then some (cell.setAsleep k false, [.expire]) else none
  | .expire, _ => some (cell.answer k (.answered cell.isDone), [])
  | .read, _ => some (cell.answer k cell.state.get, [])

def program : Program TaskCell Section Call Wake := ⟨enter, run⟩

/-! ### What a section can do -/

variable {cell : TaskCell} {k : ℕ} {s t : Threads TaskCell Section} {l : Threads.Label Call Wake}

@[simp] theorem asleep_setAsleep (asleep : Bool) (j : ℕ) :
    (cell.setAsleep k asleep).asleep j = if j = k then asleep else cell.asleep j :=
  Function.update_apply ..

@[simp] theorem entered_setAsleep (asleep : Bool) : (cell.setAsleep k asleep).entered = cell.entered :=
  rfl

@[simp] theorem answers_setAsleep (asleep : Bool) : (cell.setAsleep k asleep).answers = cell.answers :=
  rfl

@[simp] theorem entered_finish (asked : TaskState) : (cell.finish asked).entered = cell.entered := rfl

@[simp] theorem answers_finish (asked : TaskState) : (cell.finish asked).answers = cell.answers := rfl

@[simp] theorem entered_answer (answer : Answer) : (cell.answer k answer).entered = cell.entered := rfl

@[simp] theorem answers_answer (answer : Answer) :
    (cell.answer k answer).answers = cell.answers ++ [(k, answer)] := rfl

@[simp] theorem asleep_goOn (waiting : Waiting) : (cell.goOn k waiting).1.asleep = cell.asleep := by
  cases waiting <;> rfl

inductive Ran (k : ℕ) (cell : TaskCell) : Section → TaskCell → List Section → Prop
  | settlesNot {asked : TaskState} (done : cell.isDone = true) :
      Ran k cell (.settle asked) (cell.finish asked) []
  | settles {asked : TaskState} (pending : cell.isDone = false) :
      Ran k cell (.settle asked) (cell.finish asked) [.notifyAll]
  | notifyAll : Ran k cell .notifyAll { cell with asleep := fun _ => false } []
  | goesOn {waiting : Waiting} (done : cell.isDone = true) :
      Ran k cell (.check waiting) (cell.goOn k waiting).1 (cell.goOn k waiting).2
  | fallsAsleep {waiting : Waiting} (pending : cell.isDone = false) :
      Ran k cell (.check waiting) (cell.setAsleep k true) [.sleeping waiting]
  | isWoken {waiting : Waiting} (awake : cell.asleep k = false) :
      Ran k cell (.sleeping waiting) cell [.check waiting]
  | wakes {waiting : Waiting} (asleep : cell.asleep k = true) :
      Ran k cell (.sleeping waiting) (cell.setAsleep k false) [.check waiting]
  | timesOut : Ran k cell (.sleeping .waitFor) (cell.setAsleep k false) [.expire]
  | expires : Ran k cell .expire (cell.answer k (.answered cell.isDone)) []
  | reads : Ran k cell .read (cell.answer k cell.state.get) []

theorem ran_of_run {a : Section} {choice : Wake} {cell' : TaskCell} {as : List Section}
    (h : TaskCell.run k cell a choice = some (cell', as)) : Ran k cell a cell' as := by
  cases a with
  | settle asked =>
      obtain ⟨rfl, rfl⟩ := Prod.mk.inj (Option.some.inj h)
      cases hdone : cell.isDone with
      | true => exact .settlesNot hdone
      | false => exact .settles hdone
  | notifyAll =>
      obtain ⟨rfl, rfl⟩ := Prod.mk.inj (Option.some.inj h)
      exact .notifyAll
  | check waiting =>
      simp only [TaskCell.run] at h
      cases hdone : cell.isDone with
      | true =>
          rw [if_pos hdone] at h
          obtain ⟨rfl, rfl⟩ := Prod.mk.inj (Option.some.inj h)
          exact .goesOn hdone
      | false =>
          rw [if_neg (ne_true_of_eq_false hdone)] at h
          obtain ⟨rfl, rfl⟩ := Prod.mk.inj (Option.some.inj h)
          exact .fallsAsleep hdone
  | sleeping waiting =>
      cases choice with
      | notified =>
          simp only [TaskCell.run] at h
          split at h
          · cases h
          · rename_i hawake
            obtain ⟨rfl, rfl⟩ := Prod.mk.inj (Option.some.inj h)
            exact .isWoken (Bool.eq_false_of_not_eq_true hawake)
      | spuriously =>
          simp only [TaskCell.run] at h
          split at h
          · rename_i hasleep
            obtain ⟨rfl, rfl⟩ := Prod.mk.inj (Option.some.inj h)
            exact .wakes hasleep
          · cases h
      | timedOut =>
          simp only [TaskCell.run] at h
          split at h
          · rename_i hwaiting
            obtain ⟨rfl, rfl⟩ := Prod.mk.inj (Option.some.inj h)
            exact hwaiting.symm ▸ .timesOut
          · cases h
  | expire =>
      obtain ⟨rfl, rfl⟩ := Prod.mk.inj (Option.some.inj h)
      exact .expires
  | read =>
      obtain ⟨rfl, rfl⟩ := Prod.mk.inj (Option.some.inj h)
      exact .reads

theorem isDone_iff : cell.isDone = true ↔ cell.state.status ≠ .pending := decide_eq_true_iff

theorem isDone_eq_false_iff : cell.isDone = false ↔ cell.state.status = .pending := by
  rw [isDone, decide_eq_false_iff_not, not_not]

/-! ### The first to settle the task decides -/

/-- What a thread may ask `finish` for. -/
inductive Asks : TaskState → Prop
  | succeeded : Asks ⟨.succeeded, none⟩
  | failed (exception : Bytes) : Asks ⟨.failed, some exception⟩
  | cancelled : Asks ⟨.cancelled, none⟩

theorem Asks.ne_pending {state : TaskState} (h : Asks state) : state.status ≠ .pending := by
  cases h <;> rintro ⟨⟩

/-- The answer is a timeout, or that of a settled task. -/
def Answered (state : TaskState) (answer : Answer) : Prop :=
  answer = .answered false ∨
    state.status ≠ .pending ∧
      (answer = .waited ∨ answer = .answered true ∨ answer = state.get)

/-- The state is what was asked for first, and the answers tell of it. -/
structure Decided (cell : TaskCell) : Prop where
  first : cell.state = cell.asked.head?.getD .new
  asked : ∀ state ∈ cell.asked, Asks state
  answers : ∀ x ∈ cell.answers, Answered cell.state x.2

/-- A section that is to come is in accordance with the state. -/
def Fits (state : TaskState) : Section → Prop
  | .settle asked => Asks asked
  | .read => state.status ≠ .pending
  | _ => True

/-- The invariant of the threads and the cell. -/
structure Consistent (s : Threads TaskCell Section) : Prop where
  decided : Decided s.shared
  fits : ∀ a, s.Pending a → Fits s.shared.state a

/-- A cell that is done has been asked. -/
theorem Decided.asked_ne_nil (h : Decided cell) (hdone : cell.state.status ≠ .pending) :
    cell.asked ≠ [] := by
  intro hnone
  have hfirst := h.first
  rw [hnone] at hfirst
  exact hdone (by rw [hfirst]; rfl)

theorem Decided.asked_eq_nil (h : Decided cell) (hpending : cell.state.status = .pending) :
    cell.asked = [] := by
  cases hasked : cell.asked with
  | nil => rfl
  | cons state rest =>
      have hfirst := h.first
      rw [hasked] at hfirst
      have hstate : cell.state = state := hfirst
      have hasks := h.asked state (hasked ▸ List.mem_cons_self)
      exact absurd (hstate ▸ hpending) hasks.ne_pending

theorem Decided.answer (h : Decided cell) {answer : Answer} (hanswer : Answered cell.state answer) :
    Decided (cell.answer k answer) where
  first := h.first
  asked := h.asked
  answers := List.forall_mem_append.mpr ⟨h.answers, List.forall_mem_singleton.mpr hanswer⟩

/-- Only a pending task takes what it is asked for. -/
theorem Decided.finish (h : Decided cell) {asked : TaskState} (hasks : Asks asked) :
    Decided (cell.finish asked) ∧
      (cell.state.status ≠ .pending → (cell.finish asked).state = cell.state) ∧
      (cell.finish asked).state.status ≠ .pending := by
  have hall : ∀ state ∈ cell.asked ++ [asked], Asks state :=
    List.forall_mem_append.mpr ⟨h.asked, List.forall_mem_singleton.mpr hasks⟩
  by_cases hpending : cell.state.status = .pending
  · have hstate : (cell.finish asked).state = asked := TaskState.finish_of_pending hpending
    have hnone := h.asked_eq_nil hpending
    refine ⟨⟨?_, hall, fun x hx => ?_⟩, fun hdone => absurd hpending hdone, ?_⟩
    · rw [hstate]
      show asked = (cell.asked ++ [asked]).head?.getD .new
      rw [hnone]
      rfl
    · -- no answer but a timeout has been given before
      exact (h.answers x hx).imp_right fun hdone => absurd hpending hdone.1
    · rw [hstate]
      exact hasks.ne_pending
  · have hstate : (cell.finish asked).state = cell.state := TaskState.finish_of_settled hpending
    refine ⟨⟨?_, hall, ?_⟩, fun _ => hstate, hstate.symm ▸ hpending⟩
    · rw [hstate, h.first]
      show _ = (cell.asked ++ [asked]).head?.getD .new
      rw [List.head?_append_of_ne_nil _ (h.asked_ne_nil hpending)]
    · rw [hstate]
      exact h.answers

theorem Fits.mono {state state' : TaskState} (h : state.status ≠ .pending → state' = state)
    {a : Section} (hfits : Fits state a) : Fits state' a := by
  cases a with
  | settle asked => exact hfits
  | read => exact h hfits ▸ hfits
  | notifyAll | check _ | sleeping _ | expire => trivial

/-- What a section makes of the cell, and what follows from it. -/
theorem Decided.run {a : Section} {cell' : TaskCell} {as : List Section} (h : Decided cell)
    (hfits : Fits cell.state a) (hran : Ran k cell a cell' as) :
    Decided cell' ∧ (cell.state.status ≠ .pending → cell'.state = cell.state) ∧
      ∀ b ∈ as, Fits cell'.state b := by
  have hsame (asleep : ℕ → Bool) : Decided { cell with asleep := asleep } :=
    ⟨h.first, h.asked, h.answers⟩
  cases hran with
  | settlesNot _ =>
      obtain ⟨hfinish, hkept, -⟩ := h.finish hfits
      exact ⟨hfinish, hkept, List.forall_mem_nil _⟩
  | settles _ =>
      obtain ⟨hfinish, hkept, -⟩ := h.finish hfits
      exact ⟨hfinish, hkept, List.forall_mem_singleton.mpr trivial⟩
  | notifyAll => exact ⟨hsame _, fun _ => rfl, List.forall_mem_nil _⟩
  | @goesOn waiting done =>
      have hsettled := isDone_iff.mp done
      cases waiting with
      | wait => exact ⟨h.answer (Or.inr ⟨hsettled, Or.inl rfl⟩), fun _ => rfl, List.forall_mem_nil _⟩
      | waitFor =>
          exact ⟨h.answer (Or.inr ⟨hsettled, Or.inr (Or.inl rfl)⟩), fun _ => rfl,
            List.forall_mem_nil _⟩
      | get => exact ⟨h, fun _ => rfl, List.forall_mem_singleton.mpr hsettled⟩
  | fallsAsleep _ | wakes _ | timesOut =>
      exact ⟨hsame _, fun _ => rfl, List.forall_mem_singleton.mpr trivial⟩
  | isWoken _ => exact ⟨h, fun _ => rfl, List.forall_mem_singleton.mpr trivial⟩
  | expires =>
      refine ⟨h.answer ?_, fun _ => rfl, List.forall_mem_nil _⟩
      cases hdone : cell.isDone with
      | false => exact Or.inl rfl
      | true => exact Or.inr ⟨isDone_iff.mp hdone, Or.inr (Or.inl rfl)⟩
  | reads =>
      exact ⟨h.answer (Or.inr ⟨hfits, Or.inr (Or.inr rfl)⟩), fun _ => rfl, List.forall_mem_nil _⟩

theorem Consistent.enter (h : Consistent s) {call : Call} {cell' : TaskCell} {as : List Section}
    (hcall : TaskCell.enter k s.shared call = some (cell', as)) :
    Decided cell' ∧ cell'.state = s.shared.state ∧ ∀ b ∈ as, Fits cell'.state b := by
  have hdecided := h.decided
  cases call with
  | succeed =>
      obtain ⟨rfl, rfl⟩ := Prod.mk.inj (Option.some.inj hcall)
      exact ⟨hdecided, rfl, List.forall_mem_singleton.mpr .succeeded⟩
  | fail exception =>
      obtain ⟨rfl, rfl⟩ := Prod.mk.inj (Option.some.inj hcall)
      exact ⟨hdecided, rfl, List.forall_mem_singleton.mpr (.failed exception)⟩
  | cancel =>
      obtain ⟨rfl, rfl⟩ := Prod.mk.inj (Option.some.inj hcall)
      exact ⟨hdecided, rfl, List.forall_mem_singleton.mpr .cancelled⟩
  | await waiting =>
      obtain ⟨rfl, rfl⟩ := Prod.mk.inj (Option.some.inj hcall)
      exact ⟨⟨hdecided.first, hdecided.asked, hdecided.answers⟩, rfl,
        List.forall_mem_singleton.mpr trivial⟩

theorem Consistent.step (h : Consistent s) (hstep : program.machine.step s l = some t) :
    Consistent t := by
  cases Program.moves_of_step hstep with
  | @enter k call cell' as hidle hcall =>
      obtain ⟨hdecided, hstate, hnew⟩ := h.enter (k := k) hcall
      exact ⟨hdecided, forall_pending_enter hnew fun b hb => hstate ▸ h.fits b hb⟩
  | advance hat hrun =>
      obtain ⟨hdecided, hkept, hnew⟩ := h.decided.run (h.fits _ (pending_head hat)) (ran_of_run hrun)
      exact ⟨hdecided, forall_pending_become hat hnew fun b hb => (h.fits b hb).mono hkept⟩

theorem consistent_initial : Consistent (initial new) where
  decided := ⟨rfl, List.forall_mem_nil _, List.forall_mem_nil _⟩
  fits := fun a ha => absurd ha ((idle_initial new).not_pending a)

theorem consistent_of_exec {ls : List (Threads.Label Call Wake)}
    (hrun : program.machine.exec (initial new) ls = some t) : Consistent t :=
  Machine.invariant Consistent (fun _ _ _ hs hstep => hs.step hstep) ⟨ls, hrun⟩ consistent_initial

/-- What `get` makes of a state that has been asked for. -/
theorem Asks.get {state : TaskState} (h : Asks state) :
    (state.get = .got ↔ state.status = .succeeded) ∧
    (state.get = .threwCancelled ↔ state.status = .cancelled) ∧
    ∀ exception, state.get = .rethrew exception ↔
      state.status = .failed ∧ state.exception = some exception := by
  cases h <;> simp [TaskState.get]

/-- The first call of `finish` decides the task, and everyone who waits for it is told so:
but for timeouts, there is no answer before, and every `get` afterwards ends alike. -/
theorem answers_agree {ls : List (Threads.Label Call Wake)}
    (hrun : program.machine.exec (initial new) ls = some t) :
    t.shared.state = t.shared.asked.head?.getD .new ∧
    (∀ x ∈ t.shared.answers, Answered t.shared.state x.2) ∧
    (t.shared.state.status ≠ .pending →
      (t.shared.state.get = .got ↔ t.shared.state.status = .succeeded) ∧
      (t.shared.state.get = .threwCancelled ↔ t.shared.state.status = .cancelled) ∧
      ∀ exception, t.shared.state.get = .rethrew exception ↔
        t.shared.state.status = .failed ∧ t.shared.state.exception = some exception) := by
  have hdecided := (consistent_of_exec hrun).decided
  refine ⟨hdecided.first, hdecided.answers, fun hdone => ?_⟩
  obtain ⟨state, rest, hasked⟩ := List.exists_cons_of_ne_nil (hdecided.asked_ne_nil hdone)
  have hstate : t.shared.state = state := by
    rw [hdecided.first, hasked]
    rfl
  rw [hstate]
  exact (hdecided.asked state (hasked ▸ List.mem_cons_self)).get

/-- Thread 1 gets, thread 2 waits with a timeout; both sleep when thread 0 fails the task,
and thread 3 is too late to cancel it. -/
def failedTask : List (Threads.Label Call Wake) :=
  [.enter 1 (.await .get), .advance 1 .notified, .enter 2 (.await .waitFor), .advance 2 .notified,
    .advance 2 .timedOut, .advance 2 .notified, .enter 0 (.fail (ascii "e")),
    .enter 3 .cancel, .advance 0 .notified, .advance 3 .notified, .advance 0 .notified,
    .advance 1 .notified, .advance 1 .notified, .advance 1 .notified]

theorem answers_agree_failedTask :
    ∃ t, program.machine.exec (initial new) failedTask = some t ∧
      t.shared.answers = [(2, .answered false), (1, .rethrew (ascii "e"))] ∧
      t.shared.state.get = .rethrew (ascii "e") := by
  have hend : (program.machine.exec (initial new) failedTask).map (fun t =>
      (t.shared.answers, t.shared.state.status, t.shared.state.exception)) =
      some ([(2, .answered false), (1, .rethrew (ascii "e"))], .failed, some (ascii "e")) := by
    decide +kernel
  obtain ⟨t, hrun, hend⟩ := Option.map_eq_some_iff.mp hend
  obtain ⟨hanswers, hstate⟩ := Prod.mk.inj hend
  obtain ⟨hstatus, hexception⟩ := Prod.mk.inj hstate
  have hdone : t.shared.state.status ≠ .pending := by
    rw [hstatus]
    rintro ⟨⟩
  exact ⟨t, hrun, hanswers,
    (((answers_agree hrun).2.2 hdone).2.2 _).mpr ⟨hstatus, hexception⟩⟩

/-! ### Nobody sleeps for ever -/

/-- The longest that a section can keep its thread busy once the task is settled. -/
def weight : Section → ℕ
  | .settle _ | .notifyAll | .expire | .read => 1
  | .check _ => 2
  | .sleeping _ => 3

/-- A waiting call that has not been answered. -/
def isWaiting : Section → ℕ
  | .settle _ | .notifyAll => 0
  | .check _ | .sleeping _ | .expire | .read => 1

/-- The waiting call that a section is in. -/
def waitingOf : Section → Option Waiting
  | .settle _ | .notifyAll => none
  | .check waiting | .sleeping waiting => some waiting
  | .expire => some .waitFor
  | .read => some .get

/-- The answers of a thread are those to its waiting calls, but for the one it is in. -/
def Told (cell : TaskCell) (k : ℕ) (as : List Section) : Prop :=
  ∃ told, List.Forall₂ Waiting.Suits told (cell.answersOf k) ∧
    cell.waitsOf k = told ++ as.filterMap waitingOf

/-- Nobody sleeps over a task that is settled, unless a notification is to come. -/
structure Awaited (s : Threads TaskCell Section) : Prop where
  consistent : Consistent s
  short : ∀ k, (s.pending k).length ≤ 1
  sleeps : ∀ k, s.shared.asleep k = true → ∃ waiting, s.pending k = [.sleeping waiting]
  notified : s.shared.state.status ≠ .pending → (∃ k, s.shared.asleep k = true) →
    s.Pending .notifyAll
  counted : s.Balanced isWaiting fun cell m => cell.entered.length = cell.answers.length + m
  told : ∀ k, Told s.shared k (s.pending k)

theorem awaited_initial : Awaited (initial new) where
  consistent := consistent_initial
  short := fun _ => Nat.zero_le 1
  sleeps := fun _ h => by cases h
  notified := fun h => absurd rfl h
  counted := ⟨0, weighs_of_first fun _ _ => rfl, rfl⟩
  told := fun _ => ⟨[], .nil, rfl⟩

/-- What one section leaves its thread to do. -/
theorem Ran.length_le {a : Section} {cell' : TaskCell} {as : List Section}
    (h : Ran k cell a cell' as) : as.length ≤ 1 := by
  cases h with
  | @goesOn waiting _ => cases waiting <;> simp [goOn]
  | settlesNot _ | settles _ | notifyAll | fallsAsleep _ | isWoken _ | wakes _ | timesOut | expires
  | reads => simp

/-- A waiting call is still to be answered, or it has been. -/
theorem Ran.counted {a : Section} {cell' : TaskCell} {as : List Section} {m : ℕ}
    (h : Ran k cell a cell' as)
    (hcount : cell.entered.length = cell.answers.length + (isWaiting a + m)) :
    cell'.entered.length = cell'.answers.length + ((as.map isWaiting).sum + m) := by
  cases h with
  | @goesOn waiting _ => cases waiting <;> simp [goOn, isWaiting] at hcount ⊢ <;> omega
  | settlesNot _ | settles _ | notifyAll | fallsAsleep _ | isWoken _ | wakes _ | timesOut | expires
  | reads =>
      simp [isWaiting] at hcount ⊢
      omega

@[simp] theorem answersOf_answer (j : ℕ) (answer : Answer) :
    (cell.answer k answer).answersOf j = cell.answersOf j ++ if k = j then [answer] else [] := by
  by_cases hkj : k = j <;> simp [answersOf, hkj]

theorem Told.congr {cell cell' : TaskCell} {as as' : List Section} (h : Told cell k as)
    (hentered : cell'.entered = cell.entered) (hanswers : cell'.answers = cell.answers)
    (hsections : as'.filterMap waitingOf = as.filterMap waitingOf) : Told cell' k as' := by
  rw [Told, answersOf, waitsOf, hentered, hanswers, hsections]
  exact h

/-- The call that a section is in is given its answer. -/
theorem Told.answer {a : Section} (h : Told cell k [a]) {waiting : Waiting}
    (ha : waitingOf a = some waiting) {answer : Answer} (hsuits : waiting.Suits answer) :
    Told (cell.answer k answer) k [] := by
  obtain ⟨told, htold, hwaits⟩ := h
  rw [List.filterMap_cons_some ha, List.filterMap_nil] at hwaits
  refine ⟨told ++ [waiting], ?_, hwaits.trans (List.append_nil _).symm⟩
  rw [answersOf_answer, if_pos rfl]
  exact List.rel_append htold (.cons hsuits .nil)

/-- A section keeps its thread waiting, or gives it its answer. -/
theorem Ran.told {a : Section} {cell' : TaskCell} {as : List Section} (h : Ran k cell a cell' as)
    (htold : Told cell k [a]) : Told cell' k as := by
  cases h with
  | @goesOn waiting _ =>
      cases waiting with
      | wait => exact htold.answer rfl rfl
      | waitFor => exact htold.answer rfl ⟨true, rfl⟩
      | get => exact htold
  | settlesNot _ | settles _ | notifyAll | fallsAsleep _ | isWoken _ | wakes _ | timesOut =>
      exact htold.congr rfl rfl rfl
  | expires => exact htold.answer rfl ⟨_, rfl⟩
  | reads => exact htold.answer rfl ⟨_, rfl⟩

/-- The other threads are told nothing. -/
theorem Ran.told_of_ne {a : Section} {cell' : TaskCell} {as bs : List Section} {j : ℕ}
    (h : Ran k cell a cell' as) (hjk : j ≠ k) (htold : Told cell j bs) : Told cell' j bs := by
  have hanswer (answer : Answer) : Told (cell.answer k answer) j bs := by
    obtain ⟨told, hall, hwaits⟩ := htold
    refine ⟨told, ?_, hwaits⟩
    rw [answersOf_answer, if_neg (Ne.symm hjk), List.append_nil]
    exact hall
  cases h with
  | @goesOn waiting _ =>
      cases waiting with
      | wait | waitFor => exact hanswer _
      | get => exact htold
  | settlesNot _ | settles _ | notifyAll | fallsAsleep _ | isWoken _ | wakes _ | timesOut =>
      exact htold.congr rfl rfl rfl
  | expires | reads => exact hanswer _

/-- A call that is entered is one that waits for its answer, or none that waits. -/
theorem told_of_enter {call : Call} {cell' : TaskCell} {as : List Section} (j : ℕ) {bs : List Section}
    (hcall : TaskCell.enter k cell call = some (cell', as)) (htold : Told cell j bs)
    (hidle : j = k → bs = []) : Told cell' j (if j = k then as else bs) := by
  cases call with
  | succeed | fail | cancel =>
      obtain ⟨rfl, rfl⟩ := Prod.mk.inj (Option.some.inj hcall)
      split
      · rename_i hjk
        rw [hidle hjk] at htold
        exact htold.congr rfl rfl rfl
      · exact htold
  | await waiting =>
      obtain ⟨rfl, rfl⟩ := Prod.mk.inj (Option.some.inj hcall)
      obtain ⟨told, hall, hwaits⟩ := htold
      refine ⟨told, hall, ?_⟩
      by_cases hjk : j = k
      · subst hjk
        rw [hidle rfl, List.filterMap_nil, List.append_nil] at hwaits
        rw [if_pos rfl, ← hwaits]
        simp [waitsOf, waitingOf]
      · rw [if_neg hjk, ← hwaits]
        simp [waitsOf, Ne.symm hjk]

/-- Who sleeps after a section, if the thread that runs it slept only in its sleep. -/
theorem Ran.asleep {a : Section} {cell' : TaskCell} {as : List Section} (h : Ran k cell a cell' as)
    (hk : cell.asleep k = true → ∃ waiting, a = .sleeping waiting) :
    (∀ j ≠ k, cell'.asleep j = true → cell.asleep j = true) ∧
    (cell'.asleep k = true → ∃ waiting, as = [.sleeping waiting]) := by
  have hawake (hne : ∀ waiting, a ≠ .sleeping waiting) : cell.asleep k ≠ true := by
    intro hasleep
    obtain ⟨waiting, rfl⟩ := hk hasleep
    exact hne waiting rfl
  cases h with
  | settlesNot _ | settles _ | expires | reads =>
      exact ⟨fun _ _ hj => hj, fun hasleep => absurd hasleep (hawake (by rintro _ ⟨⟩))⟩
  | notifyAll => exact ⟨fun _ _ hj => absurd hj Bool.false_ne_true, fun hk => absurd hk Bool.false_ne_true⟩
  | goesOn _ =>
      rw [asleep_goOn]
      exact ⟨fun _ _ hj => hj, fun hasleep => absurd hasleep (hawake (by rintro _ ⟨⟩))⟩
  | @fallsAsleep waiting _ =>
      refine ⟨fun j hjk hj => ?_, fun _ => ⟨waiting, rfl⟩⟩
      rwa [asleep_setAsleep, if_neg hjk] at hj
  | isWoken awake =>
      exact ⟨fun _ _ hj => hj, fun hasleep => by cases hasleep.symm.trans awake⟩
  | wakes _ | timesOut =>
      refine ⟨fun j hjk hj => ?_, fun hasleep => ?_⟩
      · rwa [asleep_setAsleep, if_neg hjk] at hj
      · rw [asleep_setAsleep, if_pos rfl] at hasleep
        cases hasleep

/-- Sleepers over a settled task: it has been settled just now, and they will be notified,
or they were so before. -/
theorem Ran.notified {a : Section} {cell' : TaskCell} {as : List Section} (h : Ran k cell a cell' as)
    (hdone : cell'.state.status ≠ .pending) (hsleeper : ∃ j, cell'.asleep j = true) :
    .notifyAll ∈ as ∨
      cell.state.status ≠ .pending ∧ (∃ j, cell.asleep j = true) ∧ a ≠ .notifyAll := by
  have hwoken : (∃ j, (cell.setAsleep k false).asleep j = true) → ∃ j, cell.asleep j = true := by
    rintro ⟨j, hj⟩
    rw [asleep_setAsleep] at hj
    split at hj
    · cases hj
    · exact ⟨j, hj⟩
  cases h with
  | settles _ => exact Or.inl (List.mem_singleton_self _)
  | notifyAll =>
      obtain ⟨j, hj⟩ := hsleeper
      cases hj
  | settlesNot done => exact Or.inr ⟨isDone_iff.mp done, hsleeper, by rintro ⟨⟩⟩
  | goesOn done =>
      rw [asleep_goOn] at hsleeper
      exact Or.inr ⟨isDone_iff.mp done, hsleeper, by rintro ⟨⟩⟩
  | fallsAsleep pending => exact absurd (isDone_eq_false_iff.mp pending) hdone
  | isWoken _ | expires | reads => exact Or.inr ⟨hdone, hsleeper, by rintro ⟨⟩⟩
  | wakes _ | timesOut => exact Or.inr ⟨hdone, hwoken hsleeper, by rintro ⟨⟩⟩

theorem Awaited.step (h : Awaited s) (hstep : program.machine.step s l = some t) : Awaited t := by
  have hconsistent := h.consistent.step hstep
  have hcounted : t.Balanced isWaiting fun cell m =>
      cell.entered.length = cell.answers.length + m := by
    refine Program.balanced_step h.counted hstep (fun k call cell' as m hcall hm => ?_)
      (fun k a choice cell' as m _ hrun hm => (ran_of_run hrun).counted hm)
    cases call <;> obtain ⟨rfl, rfl⟩ := Prod.mk.inj (Option.some.inj hcall) <;>
      simp [isWaiting] at hm ⊢ <;> omega
  cases Program.moves_of_step hstep with
  | @enter k call cell' as hidle hcall =>
      have hframe : cell'.asleep = s.shared.asleep ∧ cell'.state = s.shared.state ∧ as.length ≤ 1 := by
        cases call <;> obtain ⟨rfl, rfl⟩ := Prod.mk.inj (Option.some.inj hcall) <;> simp
      obtain ⟨hasleep, hstate, hlength⟩ := hframe
      have hsleeps : ∀ j, cell'.asleep j = true → j ≠ k := by
        rintro j hj rfl
        obtain ⟨waiting, hat⟩ := h.sleeps j (hasleep ▸ hj)
        cases hidle.symm.trans hat
      refine ⟨hconsistent, fun j => ?_, fun j hj => ?_, fun hdone hsleeper => ?_, hcounted,
        fun j => ?_⟩
      · rw [pending_become]
        split
        · exact hlength
        · exact h.short j
      · rw [pending_become_of_ne (hsleeps j hj)]
        exact h.sleeps j (hasleep ▸ hj)
      · rw [shared_become] at hdone hsleeper
        rw [hasleep] at hsleeper
        exact (h.notified (hstate ▸ hdone) hsleeper).enter hidle
      · rw [shared_become, pending_become]
        exact told_of_enter j hcall (h.told j) fun hjk => hjk ▸ hidle
  | @advance k choice a rest cell' as hat hrun =>
      have hran := ran_of_run hrun
      have hrest : rest = [] := by
        have hshort := h.short k
        rw [hat, List.length_cons] at hshort
        exact List.eq_nil_of_length_eq_zero (by omega)
      subst hrest
      have hk : s.shared.asleep k = true → ∃ waiting, a = .sleeping waiting := by
        intro hasleep
        obtain ⟨waiting, hsleeping⟩ := h.sleeps k hasleep
        exact ⟨waiting, (List.cons.inj (hat.symm.trans hsleeping)).1⟩
      obtain ⟨hothers, hown⟩ := hran.asleep hk
      refine ⟨hconsistent, fun j => ?_, fun j hj => ?_, fun hdone hsleeper => ?_, hcounted,
        fun j => ?_⟩
      · rw [pending_become]
        split
        · rw [List.append_nil]
          exact hran.length_le
        · exact h.short j
      · by_cases hjk : j = k
        · subst hjk
          rw [pending_become_self, List.append_nil]
          exact hown hj
        · rw [pending_become_of_ne hjk]
          exact h.sleeps j (hothers j hjk hj)
      · rw [shared_become] at hdone hsleeper
        rcases hran.notified hdone hsleeper with hnew | ⟨hbefore, hslept, hne⟩
        · exact pending_become_of_mem hnew
        · exact ((h.notified hbefore hslept).become hat).resolve_left (Ne.symm hne)
      · have htold := h.told j
        rw [shared_become, pending_become]
        split
        · rename_i hjk
          rw [hjk, hat] at htold
          rw [hjk, List.append_nil]
          exact hran.told htold
        · rename_i hjk
          exact hran.told_of_ne hjk htold

theorem awaited_of_exec {ls : List (Threads.Label Call Wake)}
    (hrun : program.machine.exec (initial new) ls = some t) : Awaited t :=
  Machine.invariant Awaited (fun _ _ _ hs hstep => hs.step hstep) ⟨ls, hrun⟩ awaited_initial

/-- A settled task stays what it is. -/
theorem Consistent.state_eq (h : Consistent s) (hdone : s.shared.state.status ≠ .pending)
    (hstep : program.machine.step s l = some t) : t.shared.state = s.shared.state := by
  cases Program.moves_of_step hstep with
  | @enter k call cell' as hidle hcall => exact (h.enter (k := k) hcall).2.1
  | advance hat hrun =>
      exact (h.decided.run (h.fits _ (pending_head hat)) (ran_of_run hrun)).2.1 hdone

/-- Over a settled task every section takes its thread nearer to the end. -/
theorem Ran.weight_lt {a : Section} {cell' : TaskCell} {as : List Section}
    (h : Ran k cell a cell' as) (hdone : cell.state.status ≠ .pending) :
    (as.map weight).sum < weight a := by
  cases h with
  | settles pending | fallsAsleep pending => exact absurd (isDone_eq_false_iff.mp pending) hdone
  | @goesOn waiting _ => cases waiting <;> simp [goOn, weight]
  | settlesNot _ | notifyAll | isWoken _ | wakes _ | timesOut | expires | reads => simp [weight]

/-- While there is something to do about a settled task, some thread can do it without a
timeout or a chance awakening. -/
theorem Awaited.progress (h : Awaited s) (hdone : s.shared.state.status ≠ .pending)
    (hbusy : ¬s.Idle) : ∃ k v, program.machine.step s (.advance k .notified) = some v := by
  have hstep {k : ℕ} {a : Section} {rest : List Section} (hat : s.pending k = a :: rest)
      {r : TaskCell × List Section} (hrun : TaskCell.run k s.shared a .notified = some r) :
      ∃ k v, program.machine.step s (.advance k .notified) = some v :=
    ⟨k, _, Program.step_of_moves (.advance hat hrun)⟩
  by_cases hsleeper : ∃ k, s.shared.asleep k = true
  · obtain ⟨j, hj⟩ := h.notified hdone hsleeper
    cases hat : s.pending j with
    | nil =>
        rw [hat] at hj
        cases hj
    | cons a rest =>
        have hshort := h.short j
        rw [hat, List.length_cons] at hshort
        obtain rfl : rest = [] := List.eq_nil_of_length_eq_zero (by omega)
        rw [hat] at hj
        obtain rfl := List.mem_singleton.mp hj
        exact hstep hat rfl
  · obtain ⟨k, hk⟩ := not_forall.mp hbusy
    obtain ⟨a, rest, hat⟩ := List.exists_cons_of_ne_nil hk
    cases a with
    | settle _ | notifyAll | expire | read => exact hstep hat rfl
    | check waiting =>
        refine hstep hat (r := s.shared.goOn k waiting) ?_
        exact if_pos (isDone_iff.mpr hdone)
    | sleeping waiting =>
        refine hstep hat (r := (s.shared, [.check waiting])) ?_
        exact if_neg fun hasleep => hsleeper ⟨k, hasleep⟩

/-- Once the task is settled, no wait is missed: however the threads go on, there is a bound
on what they still do, some thread can go on until all have ended, and then every waiting
call of every thread has its own answer, of its own kind. -/
theorem waits_end {ls : List (Threads.Label Call Wake)}
    (hrun : program.machine.exec (initial new) ls = some t)
    (hdone : t.shared.state.status ≠ .pending) :
    ∃ bound, ∀ ls' u, (∀ l ∈ ls', l.goesOn = true) → program.machine.exec t ls' = some u →
      u.shared.state = t.shared.state ∧ ls'.length ≤ bound ∧
        (u.Idle ∧ u.shared.answers.length = u.shared.entered.length ∧
            (∀ k, List.Forall₂ Waiting.Suits (u.shared.waitsOf k) (u.shared.answersOf k)) ∨
          ∃ k v, program.machine.step u (.advance k .notified) = some v) := by
  have hawaited := awaited_of_exec hrun
  obtain ⟨n, hbelow⟩ := Program.exists_below_exec ((idle_initial new).below 0) hrun
  refine ⟨∑ k ∈ Finset.range n, ((t.pending k).map weight).sum, fun ls' u hls' hrun' => ?_⟩
  have hkept : ∀ s l v, (Awaited s ∧ s.shared.state = t.shared.state) →
      program.machine.step s l = some v → Awaited v ∧ v.shared.state = t.shared.state := by
    rintro s l v ⟨hs, hstate⟩ hstep
    exact ⟨hs.step hstep, (hs.consistent.state_eq (hstate ▸ hdone) hstep).trans hstate⟩
  obtain ⟨hu, hstate⟩ := Machine.invariant
    (fun s => Awaited s ∧ s.shared.state = t.shared.state) hkept ⟨ls', hrun'⟩ ⟨hawaited, rfl⟩
  obtain ⟨m', -, hbound⟩ := Program.length_add_weight_le (fun _ => 0)
    (fun s => Awaited s ∧ s.shared.state = t.shared.state) hkept
    (fun s k a choice cell' as hs _ _ hact => (ran_of_run hact).weight_lt (hs.2 ▸ hdone))
    ⟨hawaited, rfl⟩ hls' ⟨n, hbelow, rfl⟩ hrun'
  refine ⟨hstate, by omega, ?_⟩
  by_cases hidle : u.Idle
  · obtain ⟨m, hm, hcount⟩ := hu.counted
    have hzero : u.Weighs isWaiting 0 := ⟨0, hidle.below 0, Finset.sum_range_zero _⟩
    rw [hm.unique hzero, Nat.add_zero] at hcount
    refine Or.inl ⟨hidle, hcount.symm, fun k => ?_⟩
    obtain ⟨told, hall, hwaits⟩ := hu.told k
    rw [hidle k, List.filterMap_nil, List.append_nil] at hwaits
    rwa [hwaits]
  · exact Or.inr (hu.progress (hstate.symm ▸ hdone) hidle)

/-- Thread 1 sleeps in `get`, and thread 0 has settled the task but notified nobody yet. -/
def settledUnnotified : List (Threads.Label Call Wake) :=
  [.enter 1 (.await .get), .advance 1 .notified, .enter 0 .succeed, .advance 0 .notified]

theorem waits_end_settledUnnotified :
    ∃ t, program.machine.exec (initial new) settledUnnotified = some t ∧
      ∃ bound, ∀ ls' u, (∀ l ∈ ls', l.goesOn = true) → program.machine.exec t ls' = some u →
        u.shared.state = t.shared.state ∧ ls'.length ≤ bound ∧
          (u.Idle ∧ u.shared.answers.length = u.shared.entered.length ∧
              (∀ k, List.Forall₂ Waiting.Suits (u.shared.waitsOf k) (u.shared.answersOf k)) ∨
            ∃ k v, program.machine.step u (.advance k .notified) = some v) := by
  have hend : (program.machine.exec (initial new) settledUnnotified).map (fun t =>
      t.shared.state.status) = some .succeeded := by decide +kernel
  obtain ⟨t, hrun, hstatus⟩ := Option.map_eq_some_iff.mp hend
  refine ⟨t, hrun, waits_end hrun ?_⟩
  rw [hstatus]
  rintro ⟨⟩

end TaskCell

end Watchlist.Concurrency
