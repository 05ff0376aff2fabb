import RemoteUpdate.Event

/-!
# Runs of programs that log

What a program returns does not depend on what has been logged before. `Returns` says what a program
with state does, and `Ends` what a program does that may fail as well: both hold for every log, and both
say that the program is not aborted. A run is put together from the runs of its parts.
-/

namespace RemoteUpdate

variable {σ α β ε : Type}

/-- From state `s` the program returns `a` and leaves state `t`, whatever has been logged so far. -/
def Returns (x : StateT σ LogM α) (s : σ) (a : α) (t : σ) : Prop :=
  ∀ log, ∃ log', x s log = some ((a, t), log')

namespace Returns

variable {x : StateT σ LogM α} {f : α → StateT σ LogM β} {s t u : σ} {a a' : α} {b : β}

theorem pure (a : α) (s : σ) : Returns (Pure.pure a) s a s :=
  fun log => ⟨log, rfl⟩

theorem bind (h : Returns x s a t) (h' : Returns (f a) t b u) : Returns (x >>= f) s b u := by
  intro log
  obtain ⟨log₁, h₁⟩ := h log
  obtain ⟨log₂, h₂⟩ := h' log₁
  refine ⟨log₂, ?_⟩
  simp only [Bind.bind, StateT.bind, h₁, Option.bind_some]
  exact h₂

theorem get (s : σ) : Returns (MonadState.get : StateT σ LogM σ) s s s :=
  fun log => ⟨log, rfl⟩

theorem set (s t : σ) : Returns (MonadStateOf.set t : StateT σ LogM PUnit) s ⟨⟩ t :=
  fun log => ⟨log, rfl⟩

theorem modify (g : σ → σ) (s : σ) : Returns (modify g : StateT σ LogM PUnit) s ⟨⟩ (g s) :=
  fun log => ⟨log, rfl⟩

theorem emit (e : Event) (s : σ) :
    Returns (liftM (RemoteUpdate.emit e) : StateT σ LogM Unit) s () s :=
  fun log => ⟨log.push e, rfl⟩

theorem orAbort (a : α) (s : σ) :
    Returns (liftM (RemoteUpdate.orAbort (some a)) : StateT σ LogM α) s a s :=
  fun log => ⟨log, rfl⟩

/-- A program runs on a part of the state as it runs on its own. -/
theorem focus {τ : Type} {get : τ → σ} {set : σ → τ → τ} {whole : τ} (h : Returns x (get whole) a t) :
    Returns (RemoteUpdate.focus get set x) whole a (set t whole) := by
  intro log
  obtain ⟨log', h⟩ := h log
  refine ⟨log', ?_⟩
  show ((x (get whole)) log).bind _ = _
  rw [h]
  rfl

protected theorem discard (h : Returns x s a t) : Returns (discard x) s () t := by
  have hd : (discard x : StateT σ LogM Unit) = x >>= fun _ => Pure.pure () := by
    unfold discard
    rw [map_const, Function.comp_apply, map_eq_pure_bind]
  rw [hd]
  exact h.bind (pure () t)

theorem unique (h : Returns x s a t) (h' : Returns x s a' u) : a = a' ∧ t = u := by
  obtain ⟨_, h⟩ := h #[]
  obtain ⟨_, h'⟩ := h' #[]
  rw [h] at h'
  simp only [Option.some.injEq, Prod.mk.injEq] at h'
  exact h'.1

/-- What a run comes to can be computed. -/
theorem computed {γ : Type} {f : α → σ → γ} {c : γ} (h : Returns x s a t)
    (hc : ((x s #[]).map fun r => f r.1.1 r.1.2) = some c) : f a t = c := by
  obtain ⟨_, h⟩ := h #[]
  rw [h] at hc
  exact Option.some.inj hc

/-- What is decidable about the outcome of a run is found out by running it. -/
theorem tested {P : α → σ → Prop} [∀ a t, Decidable (P a t)] (h : Returns x s a t)
    (hP : ((x s #[]).map fun r => decide (P r.1.1 r.1.2)) = some true) : P a t :=
  of_decide_eq_true (h.computed (f := fun a t => decide (P a t)) hP)

end Returns

/-- From state `s` the program succeeds or fails with `r` and leaves state `t`. -/
def Ends (x : ExceptT ε (StateT σ LogM) α) (s : σ) (r : Except ε α) (t : σ) : Prop :=
  Returns x.run s r t

namespace Ends

variable {x : ExceptT ε (StateT σ LogM) α} {f : α → ExceptT ε (StateT σ LogM) β} {s t u : σ}
  {a : α} {e : ε} {r : Except ε β}

theorem pure (a : α) (s : σ) : Ends (Pure.pure a : ExceptT ε (StateT σ LogM) α) s (.ok a) s :=
  fun log => ⟨log, rfl⟩

theorem throw (e : ε) (s : σ) : Ends (throw e : ExceptT ε (StateT σ LogM) α) s (.error e) s :=
  fun log => ⟨log, rfl⟩

theorem bind (h : Ends x s (.ok a) t) (h' : Ends (f a) t r u) : Ends (x >>= f) s r u :=
  Returns.bind h h'

theorem bind_error (h : Ends x s (.error e) t) : Ends (x >>= f) s (.error e) t :=
  Returns.bind h (Returns.pure _ _)

theorem get (s : σ) : Ends (MonadState.get : ExceptT ε (StateT σ LogM) σ) s (.ok s) s :=
  fun log => ⟨log, rfl⟩

theorem modify (g : σ → σ) (s : σ) :
    Ends (modify g : ExceptT ε (StateT σ LogM) PUnit) s (.ok ⟨⟩) (g s) :=
  fun log => ⟨log, rfl⟩

theorem lift {x : StateT σ LogM α} (h : Returns x s a t) :
    Ends (liftM x : ExceptT ε (StateT σ LogM) α) s (.ok a) t := by
  intro log
  obtain ⟨log', h⟩ := h log
  refine ⟨log', ?_⟩
  show ((Except.ok <$> x : StateT σ LogM (Except ε α)) s) log = _
  simp [Functor.map, StateT.map, h]

theorem discard_ok (h : Ends x s (.ok a) t) : Ends (discard x) s (.ok ()) t := by
  rw [discard, map_const, Function.comp_apply, map_eq_pure_bind]
  exact h.bind (pure () t)

theorem discard_error (h : Ends x s (.error e) t) : Ends (discard x) s (.error e) t := by
  rw [discard, map_const, Function.comp_apply, map_eq_pure_bind]
  exact bind_error h

theorem tryCatch_ok {handle : ε → ExceptT ε (StateT σ LogM) α} (h : Ends x s (.ok a) t) :
    Ends (tryCatch x handle) s (.ok a) t := by
  unfold Ends
  rw [ExceptT.run_tryCatch]
  exact Returns.bind h (Returns.pure _ _)

theorem tryCatch_error {handle : ε → ExceptT ε (StateT σ LogM) α} {r : Except ε α}
    (h : Ends x s (.error e) t) (h' : Ends (handle e) t r u) : Ends (tryCatch x handle) s r u := by
  unfold Ends
  rw [ExceptT.run_tryCatch]
  exact Returns.bind h h'

end Ends

end RemoteUpdate
