import Watchlist.Library.Faulty

/-!
Programs cut into the queries that others may come between. A script asks one query
after the other and goes on with the answers; what a query does to the state is said
apart from it, as a program. Asked one right after the other, the queries are a program
again.

For the other case `rely` says what others may do to the state between two queries, and
`Ends` that the script then returns, whatever they do, provided that each query is asked
in a state that `suits` it; what its own queries do is within `guar`. `Ends` is closed
under sequencing, so it is proved query by query.
-/

namespace Faulty

inductive Script (Q : Type → Type) (ε α : Type) : Type 1
  | ret (a : α)
  | throw (e : ε)
  | ask {β : Type} (q : Q β) (rest : β → Script Q ε α)

namespace Script

variable {Q : Type → Type} {σ ε α β : Type}

protected def bind : Script Q ε α → (α → Script Q ε β) → Script Q ε β
  | .ret a, f => f a
  | .throw e, _ => .throw e
  | .ask q rest, f => .ask q fun b => (rest b).bind f

instance : Monad (Script Q ε) where
  pure := .ret
  bind := Script.bind

/-- Ask one query. -/
def query (q : Q α) : Script Q ε α := .ask q .ret

/-- Throw `e` unless the condition holds. -/
def require (c : Prop) [Decidable c] (e : ε) : Script Q ε PUnit := if c then .ret ⟨⟩ else .throw e

/-! ### Without interruption -/

section Run

variable (answer : ∀ β : Type, Q β → Program σ ε β)

/-- The queries one right after the other. -/
def run : Script Q ε α → Program σ ε α
  | .ret a => pure a
  | .throw e => Program.fail e
  | .ask q rest => answer _ q >>= fun b => (rest b).run

/-- Ask the next query. -/
def step : Script Q ε α → World σ → Script Q ε α × World σ
  | .ret a, w => (.ret a, w)
  | .throw e, w => (.throw e, w)
  | .ask q rest, w =>
      match answer _ q w with
      | (.ok b, w') => (rest b, w')
      | (.error e, w') => (.throw e, w')

@[simp] theorem run_pure (a : α) : (pure a : Script Q ε α).run answer = pure a := rfl

@[simp] theorem run_throw (e : ε) : (throw e : Script Q ε α).run answer = Program.fail e := rfl

@[simp] theorem run_query (q : Q α) : (query q : Script Q ε α).run answer = answer _ q := by
  funext w
  show (answer _ q >>= fun b => pure b) w = answer _ q w
  rcases h : answer _ q w with ⟨e | a, w'⟩
  · rw [Program.bind_of_error h]
  · rw [Program.bind_of_ok h]
    rfl

@[simp] theorem run_require (c : Prop) [Decidable c] (e : ε) :
    (require c e : Script Q ε PUnit).run answer = Program.require c e := by
  unfold require Program.require
  split <;> rfl

@[simp] theorem run_bind (p : Script Q ε α) (f : α → Script Q ε β) :
    (p >>= f).run answer = p.run answer >>= fun a => (f a).run answer := by
  induction p with
  | ret a => rfl
  | throw e => rfl
  | ask q rest ih =>
      funext w
      show (answer _ q >>= fun b => (rest b >>= f).run answer) w =
        ((answer _ q >>= fun b => (rest b).run answer) >>= fun a => (f a).run answer) w
      rcases h : answer _ q w with ⟨e | b, w'⟩
      · rw [Program.bind_of_error h, Program.bind_of_error (Program.bind_of_error h)]
      · rw [Program.bind_of_ok h, ih]
        -- the first query has been answered on both sides
        show Program.bind _ _ w' = Program.bind _ _ w
        rw [Program.bind, Program.bind, Program.bind_of_ok h]

@[simp] theorem run_ite (c : Prop) [Decidable c] (p q : Script Q ε α) :
    (if c then p else q).run answer = if c then p.run answer else q.run answer := by
  split <;> rfl

end Run

/-! ### With others between the queries -/

section Interference

variable (answer : ∀ β : Type, Q β → Program σ ε β) (rely guar : σ → σ → Prop)
  (suits : ∀ β : Type, Q β → σ → Prop)

def Ends (post : α → σ → Prop) : Script Q ε α → σ → Prop
  | .ret a, s => ∀ s', rely s s' → post a s'
  | .throw _, _ => False
  | .ask q rest, s => ∀ s', rely s s' → suits _ q s' → ∃ b s'',
      (answer _ q).Returns s' b s'' ∧ guar s' s'' ∧ (rest b).Ends post s''

variable {answer rely guar suits} {post : α → σ → Prop}

/-- What others do does not matter. -/
theorem Ends.stable (htrans : ∀ s s' s'', rely s s' → rely s' s'' → rely s s'')
    {p : Script Q ε α} {s s' : σ} (h : p.Ends answer rely guar suits post s) (hs : rely s s') :
    p.Ends answer rely guar suits post s' := by
  cases p with
  | ret a => exact fun s'' hs' => h s'' (htrans _ _ _ hs hs')
  | throw e => exact h
  | ask q rest => exact fun s'' hs' => h s'' (htrans _ _ _ hs hs')

theorem Ends.mono {post' : α → σ → Prop} (hpost : ∀ a s, post a s → post' a s) {p : Script Q ε α}
    {s : σ} (h : p.Ends answer rely guar suits post s) :
    p.Ends answer rely guar suits post' s := by
  induction p generalizing s with
  | ret a => exact fun s' hs => hpost a s' (h s' hs)
  | throw e => exact h
  | ask q rest ih =>
      intro s' hs hsuits
      obtain ⟨b, s'', hreturns, hguar, hrest⟩ := h s' hs hsuits
      exact ⟨b, s'', hreturns, hguar, ih b hrest⟩

/-- A query that suits the state is answered, and the rest ends. -/
theorem Ends.step (hrefl : ∀ s, rely s s) {γ : Type} {q : Q γ} {rest : γ → Script Q ε α} {s : σ}
    (h : (ask q rest).Ends answer rely guar suits post s) (hsuits : suits _ q s) :
    ∃ b s', (ask q rest).step answer ⟨s, []⟩ = (rest b, ⟨s', []⟩) ∧ guar s s' ∧
      (rest b).Ends answer rely guar suits post s' := by
  obtain ⟨b, s', hreturns, hguar, hrest⟩ := h s (hrefl s) hsuits
  refine ⟨b, s', ?_, hguar, hrest⟩
  rw [Script.step, show answer _ q ⟨s, []⟩ = (.ok b, ⟨s', []⟩) from hreturns]

/-- The rule for sequences. -/
theorem Ends.bind (hrefl : ∀ s, rely s s) {post' : β → σ → Prop} {p : Script Q ε α}
    {f : α → Script Q ε β} {s : σ} (h : p.Ends answer rely guar suits post s)
    (hf : ∀ a s', post a s' → (f a).Ends answer rely guar suits post' s') :
    (p >>= f).Ends answer rely guar suits post' s := by
  induction p generalizing s with
  | ret a => exact hf a s (h s (hrefl s))
  | throw e => exact h.elim
  | ask q rest ih =>
      intro s' hs hsuits
      obtain ⟨b, s'', hreturns, hguar, hrest⟩ := h s' hs hsuits
      exact ⟨b, s'', hreturns, hguar, ih b hrest⟩

theorem ends_pure {a : α} {s : σ} (h : ∀ s', rely s s' → post a s') :
    (pure a : Script Q ε α).Ends answer rely guar suits post s := h

theorem ends_require {c : Prop} [Decidable c] (hc : c) {e : ε} {s : σ} {post : PUnit → σ → Prop}
    (h : ∀ s', rely s s' → post ⟨⟩ s') :
    (require c e : Script Q ε PUnit).Ends answer rely guar suits post s := by
  rw [require, if_pos hc]
  exact h

theorem ends_query {q : Q α} {s : σ} (h : ∀ s', rely s s' → suits _ q s' → ∃ a s'',
    (answer _ q).Returns s' a s'' ∧ guar s' s'' ∧ ∀ s₃, rely s'' s₃ → post a s₃) :
    (query q : Script Q ε α).Ends answer rely guar suits post s := h

end Interference

end Script

end Faulty
