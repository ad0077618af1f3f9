import Watchlist.Concurrency.TaskAccounts

/-!
`condition_` of `AsyncEventLoop`. The worker is the only thread that waits on it: it is
blocked from when it has found its predicate false until somebody notifies, the wait times
out or it wakes for no reason, and then looks again. `enqueue_ready`, `enqueue_after` and
`emit_event` notify after they have unlocked `mutex_`, unless there was nothing to tell;
`stop` notifies when it has cancelled what it took from the lists, before it unlocks the
gate. Everything else is as it was: without the notifications, each step is one of the
loop or none.
-/

namespace Watchlist.Concurrency

open Transition Threads

structure NotifiedLoop where
  loop : AsyncEventLoop
  /-- the worker is blocked on `condition_` -/
  asleep : Bool

inductive NotifiedSection
  | plain (a : AsyncSection)
  /-- a stop that has closed the loop cancels these tasks, and then notifies -/
  | cancelling (tasks : List ℕ)
  | notify
  deriving DecidableEq

inductive NotifiedChoice
  | loop (choice : AsyncChoice)
  /-- the worker wakes without having been notified -/
  | wakesSpuriously
  deriving DecidableEq

namespace AsyncEventLoop

/-- The section waits on `condition_`. -/
def waits : AsyncSection → Bool
  | .awaitWork | .asleepUntil _ => true
  | _ => false

/-- The section is followed by `notify_one`. -/
def notifies (s : AsyncEventLoop) : AsyncSection → Bool
  | .enqueueReady _ | .enqueueAfter .. => s.accepting
  | .emit event => s.accepting && !(s.waitingFor event.name).isEmpty
  | _ => false

/-- The worker has found that it has to wait for a deadline. -/
def isAsleepUntil : AsyncSection → Bool
  | .asleepUntil _ => true
  | _ => false

end AsyncEventLoop

namespace NotifiedLoop

open AsyncEventLoop

def setLoop (s : NotifiedLoop) (loop : AsyncEventLoop) : NotifiedLoop := { s with loop := loop }

def runSection (deadlineOf : ℤ → ℤ → ℤ) (k : ℕ) (s : NotifiedLoop) :
    NotifiedSection → NotifiedChoice → Option (NotifiedLoop × List NotifiedSection)
  -- the two waits
  | .plain .awaitWork, choice =>
      if s.asleep then
        if choice = .wakesSpuriously then some ({ s with asleep := false }, [.plain .awaitWork])
        else none
      else
        match AsyncEventLoop.runSection deadlineOf k s.loop .awaitWork .proceed with
        | none => some ({ s with asleep := true }, [.plain .awaitWork])
        | some (loop, as) => some (⟨loop, as.any isAsleepUntil⟩, as.map .plain)
  | .plain (.asleepUntil deadline), choice =>
      if s.asleep then
        match choice with
        | .wakesSpuriously => some ({ s with asleep := false }, [.plain (.asleepUntil deadline)])
        | .loop .timesOut =>
            if deadline ≤ s.loop.now then
              (AsyncEventLoop.runSection deadlineOf k s.loop (.asleepUntil deadline) .timesOut).map
                fun r => (⟨r.1, false⟩, r.2.map .plain)
            else none
        | _ => none
      else if s.loop.wakes deadline then some (s, [.plain .awaitWork])
      else some ({ s with asleep := true }, [.plain (.asleepUntil deadline)])
  -- `stop`
  | .plain .close, _ =>
      (AsyncEventLoop.runSection deadlineOf k s.loop .close .proceed).map fun r =>
        (s.setLoop r.1,
          if s.loop.accepting then [.cancelling s.loop.cancelled] else r.2.map .plain)
  | .cancelling [], _ => some (s, [.notify, .plain (.cancelAll [])])
  | .cancelling (task :: tasks), _ =>
      some (s.setLoop (s.loop.settle task .cancel), [.cancelling tasks])
  | .notify, _ => some ({ s with asleep := false }, [])
  -- everything else
  | .plain a, .loop choice =>
      (AsyncEventLoop.runSection deadlineOf k s.loop a choice).map fun r =>
        (s.setLoop r.1, r.2.map .plain ++ if s.loop.notifies a then [.notify] else [])
  | .plain _, .wakesSpuriously => none

def enter (deadlineOf : ℤ → ℤ → ℤ) (k : ℕ) (s : NotifiedLoop) (call : AsyncCall) :
    Option (NotifiedLoop × List NotifiedSection) :=
  ((AsyncEventLoop.program deadlineOf).enter k s.loop call).map fun r =>
    (s.setLoop r.1, r.2.map .plain)

def program (deadlineOf : ℤ → ℤ → ℤ) :
    Program NotifiedLoop NotifiedSection AsyncCall NotifiedChoice :=
  ⟨enter deadlineOf, runSection deadlineOf⟩

def machine (deadlineOf : ℤ → ℤ → ℤ) : Machine (Threads NotifiedLoop NotifiedSection)
    (Threads.Label AsyncCall NotifiedChoice) :=
  (program deadlineOf).machine

def start (mode : AsyncEventLoop.ExecutionMode) (now : ℤ) : Threads NotifiedLoop NotifiedSection :=
  ⟨⟨AsyncEventLoop.initial mode now, false⟩,
    fun k => ((AsyncEventLoop.start mode now).pending k).map .plain⟩

variable {deadlineOf : ℤ → ℤ → ℤ} {k : ℕ} {s s' : NotifiedLoop} {a : NotifiedSection}
  {choice : NotifiedChoice} {as : List NotifiedSection}

/-! ### What a section can do -/

/-- The ways a section can come out. -/
inductive Does (deadlineOf : ℤ → ℤ → ℤ) (k : ℕ) (s : NotifiedLoop) (choice : NotifiedChoice) :
    NotifiedSection → NotifiedLoop → List NotifiedSection → Prop
  /-- the worker finds its predicate false, and is blocked -/
  | block {b : AsyncSection} (hwaits : waits b = true) (hawake : s.asleep = false)
      (hnothing : b = .awaitWork → s.loop.stopping = false ∧ s.loop.ready = [] ∧
        s.loop.delayed.top = none)
      (hasleep : ∀ deadline, b = .asleepUntil deadline → s.loop.wakes deadline = false) :
      Does deadlineOf k s choice (.plain b) { s with asleep := true } [.plain b]
  /-- the worker goes to sleep until the first deadline -/
  | sleep {d : DelayedTask} (hawake : s.asleep = false) (hrunning : s.loop.stopping = false)
      (hready : s.loop.ready = []) (hd : s.loop.delayed.top = some d)
      (hrun : AsyncEventLoop.runSection deadlineOf k s.loop .awaitWork .proceed =
        some (s.loop, [.asleepUntil d.time])) :
      Does deadlineOf k s choice (.plain .awaitWork) { s with asleep := true }
        [.plain (.asleepUntil d.time)]
  | wakeSpuriously {b : AsyncSection} (hwaits : waits b = true) (hasleep : s.asleep = true)
      (hchoice : choice = .wakesSpuriously) :
      Does deadlineOf k s choice (.plain b) { s with asleep := false } [.plain b]
  /-- the worker goes on after its wait -/
  | goOn {b : AsyncSection} {c : AsyncChoice} {loop : AsyncEventLoop} {bs : List AsyncSection}
      (hwaits : waits b = true) (hrun : AsyncEventLoop.runSection deadlineOf k s.loop b c = some (loop, bs))
      (hbs : bs.any isAsleepUntil = false) :
      Does deadlineOf k s choice (.plain b) ⟨loop, false⟩ (bs.map .plain)
  | close (hopen : s.loop.accepting = true) :
      Does deadlineOf k s choice (.plain .close)
        (s.setLoop { s.loop with
          accepting := false, stopping := true, ready := [], delayed := .empty, waiters := [] })
        [.cancelling s.loop.cancelled]
  | cancelled :
      Does deadlineOf k s choice (.cancelling []) s [.notify, .plain (.cancelAll [])]
  | cancel {task : ℕ} {tasks : List ℕ} :
      Does deadlineOf k s choice (.cancelling (task :: tasks))
        (s.setLoop (s.loop.settle task .cancel)) [.cancelling tasks]
  | notify : Does deadlineOf k s choice .notify { s with asleep := false } []
  | plain {b : AsyncSection} {c : AsyncChoice} {loop : AsyncEventLoop} {bs : List AsyncSection}
      (hwaits : waits b = false)
      (hclosed : b = .close → s.loop.accepting = false)
      (hchoice : choice = .loop c ∨ c = .proceed)
      (hrun : AsyncEventLoop.runSection deadlineOf k s.loop b c = some (loop, bs)) :
      Does deadlineOf k s choice (.plain b) (s.setLoop loop)
        (bs.map .plain ++ if s.loop.notifies b then [.notify] else [])

theorem does_awaitWork (h : runSection deadlineOf k s (.plain .awaitWork) choice = some (s', as)) :
    Does deadlineOf k s choice (.plain .awaitWork) s' as := by
  simp only [runSection] at h
  split at h
  · rename_i hasleep
    split at h
    · rename_i hchoice
      cases h
      exact .wakeSpuriously rfl hasleep hchoice
    · cases h
  · rename_i hawake
    have hawake' := Bool.eq_false_of_not_eq_true hawake
    split at h
    · rename_i hnone
      cases h
      refine .block rfl hawake' (fun _ => ?_) (by rintro deadline ⟨⟩)
      simp only [AsyncEventLoop.runSection] at hnone
      split at hnone
      · cases hnone
      · rename_i hrunning
        split at hnone
        · cases hnone
        · rename_i hready
          split at hnone
          · cases hnone
          · rename_i hdelayed
            exact ⟨Bool.eq_false_of_not_eq_true hrunning, List.getLast?_eq_none_iff.mp hready,
              hdelayed⟩
    · rename_i loop bs hrun
      cases h
      cases AsyncEventLoop.does_of_run hrun with
      | runEnds hstopping => exact .goOn rfl hrun rfl
      | takeReady hrunning htask => exact .goOn rfl hrun rfl
      | sleep hrunning hready hd => exact .sleep hawake' hrunning hready hd hrun
      | refuse hclosed ha => rcases ha with h | ⟨_, h⟩ | ⟨_, h⟩ <;> cases h

theorem does_asleepUntil {deadline : ℤ}
    (h : runSection deadlineOf k s (.plain (.asleepUntil deadline)) choice = some (s', as)) :
    Does deadlineOf k s choice (.plain (.asleepUntil deadline)) s' as := by
  simp only [runSection] at h
  split at h
  · rename_i hasleep
    split at h
    · cases h
      exact .wakeSpuriously rfl hasleep rfl
    · split at h
      · obtain ⟨⟨loop, bs⟩, hrun, heq⟩ := Option.map_eq_some_iff.mp h
        cases heq
        refine .goOn rfl hrun ?_
        cases AsyncEventLoop.does_of_run hrun with
        | wake => rfl
        | takeDelayed => rfl
        | refuse hclosed ha => rcases ha with h | ⟨_, h⟩ | ⟨_, h⟩ <;> cases h
      · cases h
    · cases h
  · rename_i hawake
    have hawake' := Bool.eq_false_of_not_eq_true hawake
    split at h
    · rename_i hwakes
      cases h
      have hrun : AsyncEventLoop.runSection deadlineOf k s.loop (.asleepUntil deadline) .proceed =
          some (s.loop, [.awaitWork]) := if_pos hwakes
      have hgo : Does deadlineOf k s choice (.plain (.asleepUntil deadline)) _ _ :=
        .goOn rfl hrun rfl
      rwa [← hawake'] at hgo
    · rename_i hwakes
      cases h
      refine .block rfl hawake' (by rintro ⟨⟩) ?_
      rintro _ ⟨rfl⟩
      exact Bool.eq_false_of_not_eq_true hwakes

theorem does_close (h : runSection deadlineOf k s (.plain .close) choice = some (s', as)) :
    Does deadlineOf k s choice (.plain .close) s' as := by
  simp only [runSection] at h
  obtain ⟨⟨loop, bs⟩, hrun, heq⟩ := Option.map_eq_some_iff.mp h
  obtain ⟨rfl, rfl⟩ := Prod.mk.inj heq
  cases AsyncEventLoop.does_of_run hrun with
  | close hopen =>
      rw [if_pos hopen]
      exact .close hopen
  | closeAgain hclosed =>
      have hplain : Does deadlineOf k s choice (.plain .close) _ _ :=
        .plain rfl (fun _ => hclosed) (Or.inr rfl) hrun
      have hnot : ¬s.loop.accepting = true := by
        rw [hclosed]
        exact Bool.false_ne_true
      rw [if_neg hnot]
      exact hplain
  | refuse hclosed ha => rcases ha with h | ⟨_, h⟩ | ⟨_, h⟩ <;> cases h

theorem runSection_plain {b : AsyncSection} (hwaits : waits b = false) (hclose : b ≠ .close)
    (c : AsyncChoice) :
    runSection deadlineOf k s (.plain b) (.loop c) =
      (AsyncEventLoop.runSection deadlineOf k s.loop b c).map fun r =>
        (s.setLoop r.1, r.2.map .plain ++ if s.loop.notifies b then [.notify] else []) := by
  cases b with
  | awaitWork => cases hwaits
  | asleepUntil deadline => cases hwaits
  | close => exact absurd rfl hclose
  | _ => rfl

theorem does_plain {b : AsyncSection} (hwaits : waits b = false) (hclose : b ≠ .close)
    (h : runSection deadlineOf k s (.plain b) choice = some (s', as)) :
    Does deadlineOf k s choice (.plain b) s' as := by
  cases choice with
  | loop c =>
      rw [runSection_plain hwaits hclose] at h
      obtain ⟨⟨loop, bs⟩, hrun, heq⟩ := Option.map_eq_some_iff.mp h
      obtain ⟨rfl, rfl⟩ := Prod.mk.inj heq
      exact .plain hwaits (fun hb => absurd hb hclose) (Or.inl rfl) hrun
  | wakesSpuriously =>
      cases b with
      | awaitWork => cases hwaits
      | asleepUntil deadline => cases hwaits
      | close => exact absurd rfl hclose
      | _ => cases h

theorem does_of_run (h : runSection deadlineOf k s a choice = some (s', as)) :
    Does deadlineOf k s choice a s' as := by
  cases a with
  | cancelling tasks =>
      cases tasks with
      | nil =>
          cases h
          exact .cancelled
      | cons task tasks =>
          cases h
          exact .cancel
  | notify =>
      cases h
      exact .notify
  | plain b =>
      cases b with
      | awaitWork => exact does_awaitWork h
      | asleepUntil deadline => exact does_asleepUntil h
      | close => exact does_close h
      | _ => exact does_plain rfl (by rintro ⟨⟩) h

theorem enter_eq {call : AsyncCall} (h : enter deadlineOf k s call = some (s', as)) :
    s' = s.setLoop (s.loop.enter call).1 ∧ as = (s.loop.enter call).2.map .plain ∧
      (AsyncEventLoop.program deadlineOf).enter k s.loop call = some (s.loop.enter call) := by
  obtain ⟨⟨loop, bs⟩, hcall, heq⟩ := Option.map_eq_some_iff.mp h
  obtain ⟨rfl, rfl⟩ := Prod.mk.inj heq
  obtain ⟨rfl, rfl⟩ := AsyncEventLoop.enter_eq hcall
  exact ⟨rfl, rfl, hcall⟩

/-! ### Without the notifications -/

/-- What the section is in the loop. -/
def inLoop : NotifiedSection → List AsyncSection
  | .plain a => [a]
  | .cancelling tasks => [.cancelAll tasks]
  | .notify => []

def unnotified (u : Threads NotifiedLoop NotifiedSection) : Threads AsyncEventLoop AsyncSection :=
  ⟨u.shared.loop, fun k => (u.pending k).flatMap inLoop⟩

theorem flatMap_inLoop_plain (bs : List AsyncSection) :
    (bs.map NotifiedSection.plain).flatMap inLoop = bs := by
  induction bs with
  | nil => rfl
  | cons b bs ih => rw [List.map_cons, List.flatMap_cons, ih]; rfl

theorem flatMap_inLoop_notify (bs : List AsyncSection) (notifies : Bool) :
    (bs.map NotifiedSection.plain ++ if notifies then [NotifiedSection.notify] else []).flatMap
      inLoop = bs := by
  rw [List.flatMap_append, flatMap_inLoop_plain]
  cases notifies <;> exact List.append_nil bs

variable {u v : Threads NotifiedLoop NotifiedSection} {rest : List NotifiedSection}

theorem unnotified_become (u : Threads NotifiedLoop NotifiedSection) (k : ℕ) (s' : NotifiedLoop)
    (as : List NotifiedSection) :
    unnotified (u.become k s' as) = (unnotified u).become k s'.loop (as.flatMap inLoop) := by
  simp only [unnotified, become, Threads.mk.injEq, true_and]
  funext j
  by_cases hjk : j = k
  · subst hjk
    rw [Function.update_self, Function.update_self]
  · rw [Function.update_of_ne hjk, Function.update_of_ne hjk]

theorem unnotified_start (mode : AsyncEventLoop.ExecutionMode) (now : ℤ) :
    unnotified (start mode now) = AsyncEventLoop.start mode now := by
  simp only [unnotified, start, flatMap_inLoop_plain]
  rfl

/-- What the loop has to do where the section is next. -/
theorem pending_unnotified (hat : u.pending k = a :: rest) :
    (unnotified u).pending k = inLoop a ++ rest.flatMap inLoop := by
  simp only [unnotified, hat, List.flatMap_cons]

/-- The loop stands still. -/
theorem unnotified_same (hat : u.pending k = a :: rest) (hs : s'.loop = u.shared.loop)
    (has : as.flatMap inLoop = inLoop a) : unnotified (u.become k s' (as ++ rest)) = unnotified u := by
  rw [unnotified_become, List.flatMap_append, has, ← pending_unnotified hat, hs]
  exact become_self (unnotified u) k

/-- The loop runs a section. -/
theorem unnotified_advance {b : AsyncSection} {c : AsyncChoice} {loop : AsyncEventLoop}
    {bs : List AsyncSection} (hat : u.pending k = a :: rest) (ha : inLoop a = [b])
    (hrun : AsyncEventLoop.runSection deadlineOf k u.shared.loop b c = some (loop, bs))
    (hs : s'.loop = loop) (has : as.flatMap inLoop = bs) :
    (AsyncEventLoop.machine deadlineOf).step (unnotified u) (.advance k c) =
      some (unnotified (u.become k s' (as ++ rest))) := by
  have hpending := pending_unnotified hat
  rw [ha, List.singleton_append] at hpending
  rw [unnotified_become, List.flatMap_append, has, hs]
  exact Program.step_of_moves (.advance hpending hrun)

theorem unnotified_step {l : Threads.Label AsyncCall NotifiedChoice}
    (h : (machine deadlineOf).step u l = some v) :
    unnotified v = unnotified u ∨
      ∃ l', (AsyncEventLoop.machine deadlineOf).step (unnotified u) l' = some (unnotified v) := by
  cases Program.moves_of_step h with
  | @enter k call s' as hidle hcall =>
      obtain ⟨rfl, rfl, hcall'⟩ := enter_eq hcall
      refine Or.inr ⟨.enter k call, ?_⟩
      rw [unnotified_become, flatMap_inLoop_plain]
      have hidle' : (unnotified u).pending k = [] := by
        simp only [unnotified, hidle, List.flatMap_nil]
      exact Program.step_of_moves (.enter hidle' hcall')
  | @advance k choice a rest s' as hat hact =>
      cases does_of_run hact with
      | block => exact Or.inl (unnotified_same hat rfl rfl)
      | sleep hawake hrunning hready hd hrun =>
          exact Or.inr ⟨_, unnotified_advance hat rfl hrun rfl rfl⟩
      | wakeSpuriously => exact Or.inl (unnotified_same hat rfl rfl)
      | goOn hwaits hrun hbs =>
          exact Or.inr ⟨_, unnotified_advance hat rfl hrun rfl (flatMap_inLoop_plain _)⟩
      | close hopen =>
          have hrun' : AsyncEventLoop.runSection deadlineOf k u.shared.loop .close .proceed =
              some _ := if_pos hopen
          exact Or.inr ⟨_, unnotified_advance hat rfl hrun' rfl rfl⟩
      | cancelled => exact Or.inl (unnotified_same hat rfl rfl)
      | @cancel task tasks =>
          have hrun' : AsyncEventLoop.runSection deadlineOf k u.shared.loop
              (.cancelAll (task :: tasks)) .proceed = some _ := rfl
          exact Or.inr ⟨_, unnotified_advance hat rfl hrun' rfl rfl⟩
      | notify => exact Or.inl (unnotified_same hat rfl rfl)
      | plain hwaits hclosed hchoice hrun =>
          exact Or.inr ⟨_, unnotified_advance hat rfl hrun rfl (flatMap_inLoop_notify _ _)⟩

/-- A run is a run of the loop. -/
theorem unnotified_exec {ls : List (Threads.Label AsyncCall NotifiedChoice)}
    (h : (machine deadlineOf).exec u ls = some v) :
    (AsyncEventLoop.machine deadlineOf).Reaches (unnotified u) (unnotified v) := by
  refine Machine.Reaches.map unnotified ?_ ⟨ls, h⟩
  intro u l v hstep
  rcases unnotified_step hstep with hsame | ⟨l', hl'⟩
  · rw [hsame]
    exact Machine.Reaches.refl _ _
  · exact ⟨[l'], by rw [Machine.exec_cons_of_step hl', Machine.exec_nil]⟩

end NotifiedLoop

end Watchlist.Concurrency
