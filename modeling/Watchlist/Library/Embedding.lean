import Watchlist.Library.Threads

/-!
Programs inside programs. When the states, sections, calls and choices of one program are
carried over to another so that it does the same with them, every run of the first is a
run of the second, and what holds of the second is seen in the first.
-/

namespace Transition

open Threads

/-- How a program is found in another. -/
structure Program.Embeds {σ α κ ε σ' α' κ' ε' : Type*} (P : Program σ α κ ε)
    (P' : Program σ' α' κ' ε') where
  state : σ → σ'
  toDo : α → α'
  call : κ → κ'
  choice : ε → ε'
  enter : ∀ k s c t as, P.enter k s c = some (t, as) →
    P'.enter k (state s) (call c) = some (state t, as.map toDo)
  run : ∀ k s a e t as, P.run k s a e = some (t, as) →
    P'.run k (state s) (toDo a) (choice e) = some (state t, as.map toDo)

namespace Program.Embeds

variable {σ α κ ε σ' α' κ' ε' : Type*} {P : Program σ α κ ε} {P' : Program σ' α' κ' ε'}
  (f : P.Embeds P')

def threads (s : Threads σ α) : Threads σ' α' :=
  ⟨f.state s.shared, fun k => (s.pending k).map f.toDo⟩

def label : Label κ ε → Label κ' ε'
  | .enter k c => .enter k (f.call c)
  | .advance k e => .advance k (f.choice e)

theorem threads_become (s : Threads σ α) (k : ℕ) (t : σ) (as : List α) :
    f.threads (s.become k t as) = (f.threads s).become k (f.state t) (as.map f.toDo) := by
  simp only [threads, become, Threads.mk.injEq, true_and]
  funext j
  by_cases hjk : j = k
  · subst hjk
    rw [Function.update_self, Function.update_self]
  · rw [Function.update_of_ne hjk, Function.update_of_ne hjk]

variable {f} {s t : Threads σ α}

theorem step {l : Label κ ε} (h : P.machine.step s l = some t) :
    P'.machine.step (f.threads s) (f.label l) = some (f.threads t) := by
  apply step_of_moves
  cases moves_of_step h with
  | @enter k c t as hidle hcall =>
      have hidle' : (f.threads s).pending k = [] := List.map_eq_nil_iff.mpr hidle
      rw [threads_become]
      exact .enter hidle' (f.enter k _ c t as hcall)
  | @advance k e a rest t as hat hrun =>
      have hat' : (f.threads s).pending k = f.toDo a :: rest.map f.toDo :=
        (congrArg (List.map f.toDo) hat).trans List.map_cons
      rw [threads_become, List.map_append]
      exact .advance hat' (f.run k _ a e t as hrun)

/-- Runs are carried over step by step. -/
theorem exec {ls : List (Label κ ε)} (h : P.machine.exec s ls = some t) :
    P'.machine.exec (f.threads s) (ls.map f.label) = some (f.threads t) := by
  induction ls generalizing s with
  | nil =>
      obtain rfl := Option.some.inj h
      rfl
  | cons l ls ih =>
      rw [Machine.exec_cons] at h
      obtain ⟨u, hu, hrest⟩ := Option.bind_eq_some_iff.mp h
      rw [List.map_cons, Machine.exec_cons_of_step (step hu)]
      exact ih hrest

/-! ### What is carried over does nothing else -/

/-- The other program does with what is carried over only what the first does. -/
structure Exact (f : P.Embeds P') : Prop where
  enter : ∀ k s c r, P'.enter k (f.state s) (f.call c) = some r →
    ∃ t as, P.enter k s c = some (t, as) ∧ r = (f.state t, as.map f.toDo)
  run : ∀ k s a e r, P'.run k (f.state s) (f.toDo a) (f.choice e) = some r →
    ∃ t as, P.run k s a e = some (t, as) ∧ r = (f.state t, as.map f.toDo)

theorem Exact.step_of {l : Label κ ε} {v : Threads σ' α'} (hf : f.Exact)
    (h : P'.machine.step (f.threads s) (f.label l) = some v) :
    ∃ t, P.machine.step s l = some t ∧ v = f.threads t := by
  cases l with
  | enter k c =>
      have hmoves : P'.Moves (f.threads s) (.enter k (f.call c)) v := moves_of_step h
      cases hmoves with
      | enter hidle hcall =>
          obtain ⟨t, as, henter, heq⟩ := hf.enter k _ c _ hcall
          obtain ⟨rfl, rfl⟩ := Prod.mk.inj heq
          refine ⟨s.become k t as, ?_, (threads_become f s k t as).symm⟩
          exact step_of_moves (.enter (List.map_eq_nil_iff.mp hidle) henter)
  | advance k e =>
      have hmoves : P'.Moves (f.threads s) (.advance k (f.choice e)) v := moves_of_step h
      cases hmoves with
      | advance hat hrun =>
          obtain ⟨a, rest, hsource, rfl, rfl⟩ := List.map_eq_cons_iff.mp hat
          obtain ⟨t, as, htook, heq⟩ := hf.run k _ a e _ hrun
          obtain ⟨rfl, rfl⟩ := Prod.mk.inj heq
          refine ⟨s.become k t (as ++ rest), ?_, ?_⟩
          · exact step_of_moves (.advance hsource htook)
          · rw [threads_become, List.map_append]

end Program.Embeds

end Transition
