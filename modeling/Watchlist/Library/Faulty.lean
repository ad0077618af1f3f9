import Mathlib

/-!
Programs over a mutable state in which every statement may fail on its own.

A run is given the failures in advance: one flag for each statement that is
still to be issued, none left meaning that nothing fails any more. Quantifying
over the flags is then quantifying over every way the run can be interrupted. A
statement is all or nothing, and `transaction` makes a whole block so, which is
what `Atomic` says; `ReadOnly` is the stronger property of the blocks that only
look. Both are closed under sequencing, so a program inherits them from its
parts, and `bind_eq_ok` takes a run that returned apart again.
-/

namespace Faulty

universe u

/-- What a program runs in: the state, and which of the coming statements fail. -/
structure World (σ : Type*) where
  state : σ
  faults : List Bool

def Program (σ ε α : Type*) := World σ → Except ε α × World σ

namespace Program

variable {σ τ ε : Type*} {α β : Type u}

protected def pure (a : α) : Program σ ε α := fun w => (.ok a, w)

protected def bind (p : Program σ ε α) (f : α → Program σ ε β) : Program σ ε β := fun w =>
  match p w with
  | (.ok a, w') => f a w'
  | (.error e, w') => (.error e, w')

instance : Monad (Program σ ε) where
  pure := Program.pure
  bind := Program.bind

/-- Throw, leaving the state as it is. -/
def fail (e : ε) : Program σ ε α := fun w => (.error e, w)

/-- Return or throw as the computed result says. -/
def ofExcept : Except ε α → Program σ ε α
  | .ok a => pure a
  | .error e => fail e

/-- Throw `e` unless the condition holds. -/
def require (c : Prop) [Decidable c] (e : ε) : Program σ ε PUnit :=
  if c then pure ⟨⟩ else fail e

/-- Look at the state without issuing a statement. -/
def inspect (f : σ → α) : Program σ ε α := fun w => (.ok (f w.state), w)

/-- Change the state without issuing a statement. -/
def modify (f : σ → σ) : Program σ ε Unit := fun w => (.ok (), { w with state := f w.state })

/-- One statement: it fails with `failure` when its flag says so, and is
otherwise what `run` makes of the state. -/
def statement (failure : ε) (run : σ → Except ε (α × σ)) : Program σ ε α := fun w =>
  match w.faults with
  | true :: rest => (.error failure, { w with faults := rest })
  | faults =>
      match run w.state with
      | .ok (a, s) => (.ok a, ⟨s, faults.tail⟩)
      | .error e => (.error e, ⟨w.state, faults.tail⟩)

/-- A statement that only reads. -/
def query (failure : ε) (f : σ → α) : Program σ ε α :=
  statement failure (fun s => .ok (f s, s))

/-- A statement that only writes. -/
def command (failure : ε) (f : σ → Except ε σ) : Program σ ε Unit :=
  statement failure (fun s => (f s).map (fun s' => ((), s')))

/-- Begin, run the block, commit. A block that throws and a commit that fails
leave the state the block was entered in. -/
def transaction (failure : ε) (body : Program σ ε α) : Program σ ε α := fun w =>
  match query failure (fun _ => ()) w with
  | (.error e, w₁) => (.error e, w₁)
  | (.ok _, w₁) =>
      match body w₁ with
      | (.error e, w₂) => (.error e, { w₂ with state := w.state })
      | (.ok a, w₂) =>
          match query failure (fun _ => ()) w₂ with
          | (.error e, w₃) => (.error e, { w₃ with state := w.state })
          | (.ok _, w₃) => (.ok a, w₃)

/-- Run a program on one component of a larger state. -/
def zoom (get : τ → σ) (set : τ → σ → τ) (p : Program σ ε α) : Program τ ε α := fun w =>
  match p ⟨get w.state, w.faults⟩ with
  | (r, w') => (r, ⟨set w.state w'.state, w'.faults⟩)

/-! ### Taking a run apart -/

theorem bind_eq_ok {p : Program σ ε α} {f : α → Program σ ε β} {w w' : World σ} {b : β} :
    (p >>= f) w = (.ok b, w') ↔
      ∃ a w₁, p w = (.ok a, w₁) ∧ f a w₁ = (.ok b, w') := by
  change Program.bind p f w = _ ↔ _
  unfold Program.bind
  rcases h : p w with ⟨_ | a, w₁⟩ <;> simp

theorem bind_eq_error {p : Program σ ε α} {f : α → Program σ ε β} {w w' : World σ} {e : ε} :
    (p >>= f) w = (.error e, w') ↔
      p w = (.error e, w') ∨ ∃ a w₁, p w = (.ok a, w₁) ∧ f a w₁ = (.error e, w') := by
  change Program.bind p f w = _ ↔ _
  unfold Program.bind
  rcases h : p w with ⟨_ | a, w₁⟩ <;> simp

theorem bind_of_ok {p : Program σ ε α} {f : α → Program σ ε β} {w w₁ : World σ} {a : α}
    (h : p w = (.ok a, w₁)) : (p >>= f) w = f a w₁ := by
  change Program.bind p f w = _
  simp [Program.bind, h]

/-- A loop over one more value goes on from where it has returned. -/
theorem forM_concat_of_ok {γ : Type*} {f : γ → Program σ ε PUnit} {l : List γ} {c : γ}
    {w w₁ : World σ} {u : PUnit} (h : l.forM f w = (.ok u, w₁)) : (l ++ [c]).forM f w = f c w₁ := by
  induction l generalizing w with
  | nil =>
      have hw : w = w₁ := congrArg Prod.snd h
      subst hw
      show (f c >>= fun _ => pure ⟨⟩) w = f c w
      rcases hc : f c w with ⟨e | v, w'⟩
      · show Program.bind _ _ w = _
        simp only [Program.bind, hc]
      · rw [bind_of_ok hc]
        rfl
  | cons first rest ih =>
      obtain ⟨v, w₂, hfirst, hrest⟩ := bind_eq_ok.mp h
      exact (bind_of_ok hfirst).trans (ih hrest)

theorem bind_of_error {p : Program σ ε α} {f : α → Program σ ε β} {w w₁ : World σ} {e : ε}
    (h : p w = (.error e, w₁)) : (p >>= f) w = (.error e, w₁) := by
  change Program.bind p f w = _
  simp [Program.bind, h]

@[simp] theorem pure_apply (a : α) (w : World σ) :
    (pure a : Program σ ε α) w = (.ok a, w) := rfl

@[simp] theorem fail_apply (e : ε) (w : World σ) :
    (fail e : Program σ ε α) w = (.error e, w) := rfl

@[simp] theorem inspect_apply (f : σ → α) (w : World σ) :
    (inspect f : Program σ ε α) w = (.ok (f w.state), w) := rfl

@[simp] theorem modify_apply (f : σ → σ) (w : World σ) :
    (modify f : Program σ ε Unit) w = (.ok (), { w with state := f w.state }) := rfl

@[simp] theorem ofExcept_ok (a : α) : (ofExcept (.ok a) : Program σ ε α) = pure a := rfl

@[simp] theorem ofExcept_error (e : ε) :
    (ofExcept (.error e) : Program σ ε α) = fail e := rfl

theorem ofExcept_eq_ok {r : Except ε α} {w w' : World σ} {a : α} :
    ofExcept r w = (.ok a, w') ↔ r = .ok a ∧ w' = w := by
  cases r with
  | ok b => simp [eq_comm]
  | error e => simp

theorem require_eq_ok {c : Prop} [Decidable c] {e : ε} {w w' : World σ} {u : PUnit} :
    require c e w = (.ok u, w') ↔ c ∧ w' = w := by
  unfold require
  split <;> simp_all [eq_comm]

/-- What a statement that returned did. -/
theorem statement_eq_ok {failure : ε} {run : σ → Except ε (α × σ)} {w w' : World σ} {a : α}
    (h : statement failure run w = (.ok a, w')) : run w.state = .ok (a, w'.state) := by
  unfold statement at h
  split at h
  · simp at h
  · split at h
    · rename_i b s hrun
      simp only [Prod.mk.injEq, Except.ok.injEq] at h
      obtain ⟨rfl, rfl⟩ := h
      exact hrun
    · simp at h

theorem query_eq_ok {failure : ε} {f : σ → α} {w w' : World σ} {a : α}
    (h : query failure f w = (.ok a, w')) : a = f w.state ∧ w'.state = w.state := by
  have hrun := statement_eq_ok h
  simp only [Except.ok.injEq, Prod.mk.injEq] at hrun
  exact ⟨hrun.1.symm, hrun.2.symm⟩

theorem command_eq_ok {failure : ε} {f : σ → Except ε σ} {w w' : World σ} {u : Unit}
    (h : command failure f w = (.ok u, w')) : f w.state = .ok w'.state := by
  have hrun := statement_eq_ok h
  cases hf : f w.state with
  | error e => simp [hf, Except.map] at hrun
  | ok s => simpa [hf, Except.map] using hrun

/-- A transaction that returned is its block, run from the state it was entered in. -/
theorem transaction_eq_ok {failure : ε} {body : Program σ ε α} {w w' : World σ} {a : α}
    (h : transaction failure body w = (.ok a, w')) :
    ∃ w₁ w₂, w₁.state = w.state ∧ body w₁ = (.ok a, w₂) ∧ w'.state = w₂.state := by
  unfold transaction at h
  split at h
  · simp at h
  · rename_i w₁ hbegin
    split at h
    · simp at h
    · rename_i b w₂ hbody
      split at h
      · simp at h
      · rename_i w₃ hcommit
        simp only [Prod.mk.injEq, Except.ok.injEq] at h
        obtain ⟨rfl, rfl⟩ := h
        exact ⟨w₁, w₂, (query_eq_ok hbegin).2, hbody, (query_eq_ok hcommit).2⟩

/-! ### Programs that only look, and programs that are all or nothing -/

/-- However it ends, the state is unchanged. -/
def ReadOnly (p : Program σ ε α) : Prop := ∀ w, (p w).2.state = w.state

/-- When it throws, the state is unchanged. -/
def Atomic (p : Program σ ε α) : Prop :=
  ∀ w e w', p w = (.error e, w') → w'.state = w.state

theorem ReadOnly.atomic {p : Program σ ε α} (hp : p.ReadOnly) : p.Atomic := by
  intro w e w' h
  simpa [h] using hp w

theorem ReadOnly.of_eq {p : Program σ ε α} (hp : p.ReadOnly) {w w' : World σ}
    {r : Except ε α} (h : p w = (r, w')) : w'.state = w.state := by
  simpa [h] using hp w

theorem readOnly_pure (a : α) : (pure a : Program σ ε α).ReadOnly := fun _ => rfl

theorem readOnly_fail (e : ε) : (fail e : Program σ ε α).ReadOnly := fun _ => rfl

theorem readOnly_ofExcept (r : Except ε α) : (ofExcept r : Program σ ε α).ReadOnly := by
  cases r with
  | ok a => exact readOnly_pure a
  | error e => exact readOnly_fail e

theorem readOnly_require (c : Prop) [Decidable c] (e : ε) :
    (require c e : Program σ ε PUnit).ReadOnly := by
  unfold require
  split
  · exact readOnly_pure _
  · exact readOnly_fail e

theorem readOnly_inspect (f : σ → α) : (inspect f : Program σ ε α).ReadOnly := fun _ => rfl

theorem readOnly_bind {p : Program σ ε α} {f : α → Program σ ε β} (hp : p.ReadOnly)
    (hf : ∀ a, (f a).ReadOnly) : (p >>= f).ReadOnly := by
  intro w
  rcases h : p w with ⟨e | a, w₁⟩
  · rw [bind_of_error h]
    exact hp.of_eq h
  · rw [bind_of_ok h, hf a w₁]
    exact hp.of_eq h

theorem readOnly_statement {failure : ε} {run : σ → Except ε (α × σ)}
    (h : ∀ s a s', run s = .ok (a, s') → s' = s) : (statement failure run).ReadOnly := by
  intro w
  unfold statement
  split
  · rfl
  · split
    · rename_i a s hrun
      exact h _ a s hrun
    · rfl

theorem readOnly_query (failure : ε) (f : σ → α) : (query failure f).ReadOnly := by
  refine readOnly_statement fun s a s' h => ?_
  exact (Prod.mk.inj (Except.ok.inj h)).2.symm

theorem atomic_statement (failure : ε) (run : σ → Except ε (α × σ)) :
    (statement failure run).Atomic := by
  intro w e w' h
  unfold statement at h
  split at h
  · simp only [Prod.mk.injEq] at h
    rw [← h.2]
  · split at h
    · simp at h
    · simp only [Prod.mk.injEq] at h
      rw [← h.2]

theorem atomic_transaction (failure : ε) (body : Program σ ε α) :
    (transaction failure body).Atomic := by
  intro w e w' h
  unfold transaction at h
  split at h
  · rename_i e₁ w₁ hbegin
    simp only [Prod.mk.injEq] at h
    rw [← h.2]
    exact (readOnly_query failure _).of_eq hbegin
  · split at h
    · simp only [Prod.mk.injEq] at h
      rw [← h.2]
    · split at h
      · simp only [Prod.mk.injEq] at h
        rw [← h.2]
      · simp at h

/-- Looking first does not cost a program its atomicity. -/
theorem atomic_bind {p : Program σ ε α} {f : α → Program σ ε β} (hp : p.ReadOnly)
    (hf : ∀ a, (f a).Atomic) : (p >>= f).Atomic := by
  intro w e w' h
  rcases bind_eq_error.mp h with h | ⟨a, w₁, h₁, h₂⟩
  · exact hp.of_eq h
  · rw [hf a w₁ e w' h₂, hp.of_eq h₁]

theorem atomic_ite {c : Prop} [Decidable c] {p q : Program σ ε α} (hp : p.Atomic)
    (hq : q.Atomic) : (if c then p else q).Atomic := by
  split
  · exact hp
  · exact hq

theorem atomic_command (failure : ε) (f : σ → Except ε σ) : (command failure f).Atomic :=
  atomic_statement _ _

section Zoom

variable {get : τ → σ} {set : τ → σ → τ}

theorem zoom_eq {p : Program σ ε α} {w w' : World τ} {r : Except ε α}
    (h : zoom get set p w = (r, w')) :
    ∃ v, p ⟨get w.state, w.faults⟩ = (r, v) ∧ w' = ⟨set w.state v.state, v.faults⟩ := by
  rcases hp : p ⟨get w.state, w.faults⟩ with ⟨r', v⟩
  simp only [zoom, hp, Prod.mk.injEq] at h
  obtain ⟨rfl, rfl⟩ := h
  exact ⟨v, rfl, rfl⟩

theorem zoom_of_eq {p : Program σ ε α} {w : World τ} {r : Except ε α} {v : World σ}
    (h : p ⟨get w.state, w.faults⟩ = (r, v)) :
    zoom get set p w = (r, ⟨set w.state v.state, v.faults⟩) := by
  simp [zoom, h]

theorem readOnly_zoom (hset : ∀ t, set t (get t) = t) {p : Program σ ε α} (hp : p.ReadOnly) :
    (zoom get set p).ReadOnly := by
  intro w
  rcases h : zoom get set p w with ⟨r, w'⟩
  obtain ⟨v, hv, rfl⟩ := zoom_eq h
  have hstate : v.state = get w.state := hp.of_eq hv
  simp [hstate, hset]

theorem atomic_zoom (hset : ∀ t, set t (get t) = t) {p : Program σ ε α} (hp : p.Atomic) :
    (zoom get set p).Atomic := by
  intro w e w' h
  obtain ⟨v, hv, rfl⟩ := zoom_eq h
  have hstate : v.state = get w.state := hp _ _ _ hv
  simp [hstate, hset]

end Zoom

/-! ### What a program throws -/

/-- Whatever the program throws in this world has the property. -/
def OnlyThrows (E : ε → Prop) (p : Program σ ε α) (w : World σ) : Prop :=
  ∀ e w', p w = (.error e, w') → E e

section OnlyThrows

variable {E E' : ε → Prop}

theorem OnlyThrows.mono (h : ∀ e, E e → E' e) {p : Program σ ε α} {w : World σ}
    (hp : OnlyThrows E p w) : OnlyThrows E' p w :=
  fun e w' hrun => h e (hp e w' hrun)

theorem onlyThrows_pure (a : α) (w : World σ) : OnlyThrows E (pure a : Program σ ε α) w := by
  intro e w' h
  cases h

theorem onlyThrows_fail {e : ε} (h : E e) (w : World σ) :
    OnlyThrows E (fail e : Program σ ε α) w := by
  intro e' w' hrun
  obtain rfl := Except.error.inj (Prod.mk.inj hrun).1
  exact h

theorem onlyThrows_ofExcept {r : Except ε α} (h : ∀ e, r = .error e → E e) (w : World σ) :
    OnlyThrows E (ofExcept r) w := by
  cases r with
  | ok a => exact onlyThrows_pure a w
  | error e => exact onlyThrows_fail (h e rfl) w

theorem onlyThrows_require {c : Prop} [Decidable c] {e : ε} (h : ¬c → E e) (w : World σ) :
    OnlyThrows E (require c e) w := by
  unfold require
  split
  · exact onlyThrows_pure _ w
  · rename_i hc
    exact onlyThrows_fail (h hc) w

theorem OnlyThrows.bind {p : Program σ ε α} {f : α → Program σ ε β} {w : World σ}
    (hp : OnlyThrows E p w) (hf : ∀ a w₁, p w = (.ok a, w₁) → OnlyThrows E (f a) w₁) :
    OnlyThrows E (p >>= f) w := by
  intro e w' h
  rcases bind_eq_error.mp h with h | ⟨a, w₁, ha, h⟩
  · exact hp e w' h
  · exact hf a w₁ ha e w' h

theorem onlyThrows_statement {failure : ε} {run : σ → Except ε (α × σ)} {w : World σ}
    (hfailure : E failure) (h : ∀ e, run w.state = .error e → E e) :
    OnlyThrows E (statement failure run) w := by
  intro e w' hrun
  unfold statement at hrun
  split at hrun
  · obtain rfl := Except.error.inj (Prod.mk.inj hrun).1
    exact hfailure
  · split at hrun
    · cases hrun
    · rename_i e' he
      obtain rfl := Except.error.inj (Prod.mk.inj hrun).1
      exact h e' he

theorem onlyThrows_query {failure : ε} (hfailure : E failure) (f : σ → α) (w : World σ) :
    OnlyThrows E (query failure f) w :=
  onlyThrows_statement hfailure fun e h => by cases h

theorem onlyThrows_command {failure : ε} {f : σ → Except ε σ} {w : World σ}
    (hfailure : E failure) (h : ∀ e, f w.state = .error e → E e) :
    OnlyThrows E (command failure f) w := by
  refine onlyThrows_statement hfailure fun e he => h e ?_
  cases hf : f w.state with
  | ok s => simp [hf, Except.map] at he
  | error e' => simpa [hf, Except.map] using he

theorem onlyThrows_transaction {failure : ε} {body : Program σ ε α} {w : World σ}
    (hfailure : E failure) (h : ∀ w₁, w₁.state = w.state → OnlyThrows E body w₁) :
    OnlyThrows E (transaction failure body) w := by
  intro e w' hrun
  unfold transaction at hrun
  split at hrun
  · rename_i e' w₁ hbegin
    obtain rfl := Except.error.inj (Prod.mk.inj hrun).1
    exact onlyThrows_query hfailure _ w e' w₁ hbegin
  · rename_i u w₁ hbegin
    split at hrun
    · rename_i e' w₂ hbody
      obtain rfl := Except.error.inj (Prod.mk.inj hrun).1
      exact h w₁ (query_eq_ok hbegin).2 e' w₂ hbody
    · rename_i a w₂ _
      split at hrun
      · rename_i e' w₃ hcommit
        obtain rfl := Except.error.inj (Prod.mk.inj hrun).1
        exact onlyThrows_query hfailure _ w₂ e' w₃ hcommit
      · cases hrun

theorem onlyThrows_zoom {get : τ → σ} {set : τ → σ → τ} {p : Program σ ε α} {w : World τ}
    (h : OnlyThrows E p ⟨get w.state, w.faults⟩) : OnlyThrows E (zoom get set p) w := by
  intro e w' hrun
  obtain ⟨v, hv, -⟩ := zoom_eq hrun
  exact h e v hv

/-- A loop throws what one of its rounds throws. -/
theorem onlyThrows_forM {γ : Type*} {f : γ → Program σ ε PUnit} {l : List γ}
    (h : ∀ c ∈ l, ∀ w, OnlyThrows E (f c) w) (w : World σ) : OnlyThrows E (l.forM f) w := by
  induction l generalizing w with
  | nil => exact onlyThrows_pure _ w
  | cons c l ih =>
      obtain ⟨hc, hl⟩ := List.forall_mem_cons.mp h
      show OnlyThrows E (f c >>= fun _ => l.forM f) w
      exact (hc w).bind fun _ w₁ _ => ih hl w₁

end OnlyThrows

/-! ### Runs that nothing interrupts -/

/-- With no failures to come, `p` takes `s` to `s'` and returns `a`. -/
def Returns (p : Program σ ε α) (s : σ) (a : α) (s' : σ) : Prop :=
  p ⟨s, []⟩ = (.ok a, ⟨s', []⟩)

theorem returns_pure (a : α) (s : σ) : (pure a : Program σ ε α).Returns s a s := rfl

theorem returns_inspect (f : σ → α) (s : σ) :
    (inspect f : Program σ ε α).Returns s (f s) s := rfl

theorem returns_modify (f : σ → σ) (s : σ) :
    (modify f : Program σ ε Unit).Returns s () (f s) := rfl

theorem returns_query (failure : ε) (f : σ → α) (s : σ) :
    (query failure f).Returns s (f s) s := rfl

theorem returns_command {failure : ε} {f : σ → Except ε σ} {s s' : σ} (h : f s = .ok s') :
    (command failure f).Returns s () s' := by
  simp [Returns, command, statement, h, Except.map]

theorem returns_ofExcept {r : Except ε α} {a : α} (h : r = .ok a) (s : σ) :
    (ofExcept r : Program σ ε α).Returns s a s := by
  subst h
  rfl

theorem Returns.bind {p : Program σ ε α} {f : α → Program σ ε β} {s s₁ s₂ : σ} {a : α} {b : β}
    (hp : p.Returns s a s₁) (hf : (f a).Returns s₁ b s₂) : (p >>= f).Returns s b s₂ :=
  (bind_of_ok hp).trans hf

theorem returns_require {c : Prop} [Decidable c] (h : c) (e : ε) (s : σ) :
    (require c e : Program σ ε PUnit).Returns s ⟨⟩ s := by
  simp [Returns, require, h]

theorem Returns.unique {p : Program σ ε α} {s s₁ s₂ : σ} {a b : α}
    (h₁ : p.Returns s a s₁) (h₂ : p.Returns s b s₂) : a = b ∧ s₁ = s₂ := by
  have h := h₁.symm.trans h₂
  simpa using h

theorem Returns.transaction {failure : ε} {body : Program σ ε α} {s s' : σ} {a : α}
    (h : body.Returns s a s') : (transaction failure body).Returns s a s' := by
  have hbody : body ⟨s, []⟩ = (.ok a, ⟨s', []⟩) := h
  simp [Returns, Program.transaction, query, statement, hbody]

theorem Returns.zoom {get : τ → σ} {set : τ → σ → τ} {p : Program σ ε α} {t : τ} {a : α} {s' : σ}
    (h : p.Returns (get t) a s') : (zoom get set p).Returns t a (set t s') :=
  zoom_of_eq (w := ⟨t, []⟩) h

theorem Returns.map {p : Program σ ε α} {s s' : σ} {a : α} (h : p.Returns s a s') (f : α → β) :
    (f <$> p).Returns s (f a) s' := bind_of_ok h

/-- With no failures to come, `p` throws `e` and leaves `s` alone. -/
def Throws (p : Program σ ε α) (s : σ) (e : ε) : Prop :=
  p ⟨s, []⟩ = (.error e, ⟨s, []⟩)

theorem throws_ofExcept {r : Except ε α} {e : ε} (h : r = .error e) (s : σ) :
    (ofExcept r : Program σ ε α).Throws s e := by
  subst h
  rfl

theorem throws_command {failure e : ε} {f : σ → Except ε σ} {s : σ} (h : f s = .error e) :
    (command failure f).Throws s e := by
  simp [Throws, command, statement, h, Except.map]

theorem Throws.bind {p : Program σ ε α} {s : σ} {e : ε} (h : p.Throws s e)
    (f : α → Program σ ε β) : (p >>= f).Throws s e := bind_of_error h

/-- It throws after a part that returned and changed nothing. -/
theorem Returns.throws {p : Program σ ε α} {f : α → Program σ ε β} {s : σ} {a : α} {e : ε}
    (hp : p.Returns s a s) (hf : (f a).Throws s e) : (p >>= f).Throws s e :=
  (bind_of_ok hp).trans hf

theorem Throws.map {p : Program σ ε α} {s : σ} {e : ε} (h : p.Throws s e) (f : α → β) :
    (f <$> p).Throws s e := bind_of_error h

theorem Throws.zoom {get : τ → σ} {set : τ → σ → τ} (hset : ∀ t, set t (get t) = t)
    {p : Program σ ε α} {t : τ} {e : ε} (h : p.Throws (get t) e) :
    (zoom get set p).Throws t e := by
  have hzoom : Program.zoom get set p ⟨t, []⟩ = (.error e, ⟨set t (get t), []⟩) :=
    zoom_of_eq (w := ⟨t, []⟩) h
  rw [hset] at hzoom
  exact hzoom

/-! ### Checks -/

/-- A program that only looks, and that returns from a state without failures
whatever it returned there under some: a check that passed passes again. -/
structure Steady (p : Program σ ε α) : Prop where
  readOnly : p.ReadOnly
  again : ∀ w a w', p w = (.ok a, w') → p.Returns w.state a w.state

theorem steady_pure (a : α) : (pure a : Program σ ε α).Steady where
  readOnly := readOnly_pure a
  again := by
    intro w b w' h
    simp only [pure_apply, Prod.mk.injEq, Except.ok.injEq] at h
    obtain ⟨rfl, rfl⟩ := h
    rfl

theorem steady_fail (e : ε) : (fail e : Program σ ε α).Steady where
  readOnly := readOnly_fail e
  again := by
    intro w b w' h
    simp at h

theorem steady_require (c : Prop) [Decidable c] (e : ε) :
    (require c e : Program σ ε PUnit).Steady := by
  unfold require
  split
  · exact steady_pure _
  · exact steady_fail e

/-- A statement that does not write. -/
theorem steady_statement {failure : ε} {run : σ → Except ε (α × σ)}
    (h : ∀ s a s', run s = .ok (a, s') → s' = s) : (statement failure run).Steady where
  readOnly := readOnly_statement h
  again := by
    intro w a w' hrun
    have hstep := statement_eq_ok hrun
    have hsame := h _ _ _ hstep
    rw [hsame] at hstep
    simp [Returns, statement, hstep]

theorem steady_query (failure : ε) (f : σ → α) : (query failure f).Steady :=
  steady_statement fun _ _ _ h => (Prod.mk.inj (Except.ok.inj h)).2.symm

theorem steady_bind {p : Program σ ε α} {f : α → Program σ ε β} (hp : p.Steady)
    (hf : ∀ a, (f a).Steady) : (p >>= f).Steady where
  readOnly := readOnly_bind hp.readOnly fun a => (hf a).readOnly
  again := by
    intro w b w' h
    obtain ⟨a, w₁, ha, hb⟩ := bind_eq_ok.mp h
    have hagain := (hf a).again w₁ b w' hb
    rw [hp.readOnly.of_eq ha] at hagain
    exact (hp.again w a w₁ ha).bind hagain

end Program

end Faulty
