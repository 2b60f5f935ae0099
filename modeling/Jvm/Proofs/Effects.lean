/-!
# Effects of steps

What holds of the state after a step, whether the step returns or throws. A
judgement about a step is put together from judgements about its parts, so that
what a function does is proved once and used wherever it is called.
-/

namespace Jvm

variable {ε σ α β : Type}

/-- A step from a state ends in one of two ways: it returns a value, or it throws.
Either condition is about what it gives and about the state it leaves. -/
def Ends (step : EStateM ε σ α) (state : σ) (returned : α → σ → Prop) (thrown : ε → σ → Prop) :
    Prop :=
  match step state with
  | .ok value after => returned value after
  | .error raised after => thrown raised after

section

variable {state : σ} {returned : α → σ → Prop} {thrown : ε → σ → Prop}

@[simp] theorem ends_pure {value : α} :
    Ends (pure value : EStateM ε σ α) state returned thrown ↔ returned value state :=
  Iff.rfl

@[simp] theorem ends_throw {raised : ε} :
    Ends (throw raised : EStateM ε σ α) state returned thrown ↔ thrown raised state :=
  Iff.rfl

@[simp] theorem ends_bind {step : EStateM ε σ β} {next : β → EStateM ε σ α} :
    Ends (step >>= next) state returned thrown ↔
      Ends step state (fun value after => Ends (next value) after returned thrown) thrown := by
  simp only [Ends, bind, EStateM.bind]
  cases step state <;> rfl

@[simp] theorem ends_get {returned : σ → σ → Prop} :
    Ends (get : EStateM ε σ σ) state returned thrown ↔ returned state state :=
  Iff.rfl

@[simp] theorem ends_set {after : σ} {returned : PUnit → σ → Prop} :
    Ends (set after : EStateM ε σ PUnit) state returned thrown ↔ returned ⟨⟩ after :=
  Iff.rfl

@[simp] theorem ends_modify {change : σ → σ} {returned : PUnit → σ → Prop} :
    Ends (modify change : EStateM ε σ PUnit) state returned thrown ↔
      returned ⟨⟩ (change state) :=
  Iff.rfl

@[simp] theorem ends_modifyGet {change : σ → α × σ} :
    Ends (modifyGet change : EStateM ε σ α) state returned thrown ↔
      returned (change state).1 (change state).2 :=
  Iff.rfl

/-- A weaker condition holds where a stronger one does. -/
theorem Ends.mono {step : EStateM ε σ α} {returned' : α → σ → Prop} {thrown' : ε → σ → Prop}
    (ends : Ends step state returned thrown)
    (onReturn : ∀ value after, returned value after → returned' value after)
    (onThrow : ∀ raised after, thrown raised after → thrown' raised after) :
    Ends step state returned' thrown' := by
  simp only [Ends] at ends ⊢
  split at ends
  next value after _ => exact onReturn value after ends
  next raised after _ => exact onThrow raised after ends

/-- Both of two conditions hold where each does. -/
theorem Ends.and {step : EStateM ε σ α} {returned' : α → σ → Prop} {thrown' : ε → σ → Prop}
    (left : Ends step state returned thrown) (right : Ends step state returned' thrown') :
    Ends step state (fun value after => returned value after ∧ returned' value after)
      fun raised after => thrown raised after ∧ thrown' raised after := by
  simp only [Ends] at left right ⊢
  cases ran : step state with
  | ok value after =>
      rw [ran] at left right
      exact ⟨left, right⟩
  | error raised after =>
      rw [ran] at left right
      exact ⟨left, right⟩

theorem ends_of_ok {step : EStateM ε σ α} {value : α} {after : σ}
    (ran : step state = .ok value after) (ends : Ends step state returned thrown) :
    returned value after := by
  simpa only [Ends, ran] using ends

theorem ends_of_error {step : EStateM ε σ α} {raised : ε} {after : σ}
    (ran : step state = .error raised after) (ends : Ends step state returned thrown) :
    thrown raised after := by
  simpa only [Ends, ran] using ends

theorem Ends.of_ok {step : EStateM ε σ α} {value : α} {after : σ}
    (ran : step state = .ok value after) (holds : returned value after) :
    Ends step state returned thrown := by
  simpa only [Ends, ran] using holds

theorem Ends.of_error {step : EStateM ε σ α} {raised : ε} {after : σ}
    (ran : step state = .error raised after) (holds : thrown raised after) :
    Ends step state returned thrown := by
  simpa only [Ends, ran] using holds

/-- What is known of a step under an assumption. -/
theorem ends_of_imp {assumed : Prop} {step : EStateM ε σ α}
    (ends : assumed → Ends step state returned fun _ _ => True) :
    Ends step state (fun value after => assumed → returned value after) fun _ _ => True := by
  simp only [Ends] at ends ⊢
  split
  next value after ran => exact fun holds => by simpa only [ran] using ends holds
  next => trivial

/-- A step ends as one that runs alike. -/
theorem ends_congr {step other : EStateM ε σ α} (same : step state = other state) :
    Ends step state returned thrown ↔ Ends other state returned thrown := by
  simp only [Ends, same]

/-- A step ends as it runs. -/
theorem ends_self (step : EStateM ε σ α) (state : σ) :
    Ends step state (fun value after => step state = .ok value after) fun _ _ => True := by
  simp only [Ends]
  split
  next ran => exact ran
  next => trivial

/-- Nothing is known of a step. -/
theorem ends_trivial (step : EStateM ε σ α) (state : σ) :
    Ends step state (fun _ _ => True) fun _ _ => True := by
  simp only [Ends]
  split <;> trivial

/-! ## Access to the state -/

theorem run_get (state : σ) : (get : EStateM ε σ σ) state = .ok state state := rfl

theorem run_modify (change : σ → σ) (state : σ) :
    (modify change : EStateM ε σ PUnit) state = .ok ⟨⟩ (change state) :=
  rfl

theorem run_modifyGet (change : σ → α × σ) (state : σ) :
    (modifyGet change : EStateM ε σ α) state = .ok (change state).1 (change state).2 :=
  rfl

/-- A step that returns is followed by what comes next. -/
theorem bind_of_ok {step : EStateM ε σ β} {next : β → EStateM ε σ α} {value : β} {after : σ}
    (ran : step state = .ok value after) : (step >>= next) state = next value after := by
  simp only [bind, EStateM.bind, ran]

/-- A step that ends in just one way runs so. -/
theorem eq_of_ends {step : EStateM ε σ α} {value : α} {after : σ}
    (ends : Ends step state (fun given left => given = value ∧ left = after) fun _ _ => False) :
    step state = .ok value after := by
  simp only [Ends] at ends
  split at ends
  next ran =>
      obtain ⟨rfl, rfl⟩ := ends
      exact ran
  next => exact ends.elim

/-- A step that cannot throw returns. -/
theorem Ends.exists_ok {step : EStateM ε σ α} (ends : Ends step state returned thrown)
    (never : ∀ raised after, ¬thrown raised after) :
    ∃ value after, step state = .ok value after ∧ returned value after := by
  simp only [Ends] at ends
  split at ends
  next value after ran => exact ⟨value, after, ran, ends⟩
  next raised after _ => exact (never raised after ends).elim

end

/-! ## What steps leave alone -/

/-- A step spares a part of the state: it is the same afterwards, however the step
ends. -/
def Spares {γ : Type} (part : σ → γ) (step : EStateM ε σ α) : Prop :=
  ∀ state, Ends step state (fun _ after => part after = part state)
    fun _ after => part after = part state

namespace Spares

variable {γ : Type} {part : σ → γ}

protected theorem pure (value : α) : Spares part (pure value : EStateM ε σ α) := fun _ => rfl

protected theorem throw (raised : ε) : Spares part (throw raised : EStateM ε σ α) := fun _ => rfl

protected theorem get : Spares part (get : EStateM ε σ σ) := fun _ => rfl

protected theorem modify {change : σ → σ} (spared : ∀ state, part (change state) = part state) :
    Spares part (modify change : EStateM ε σ PUnit) := spared

protected theorem modifyGet {change : σ → α × σ} (spared : ∀ state, part (change state).2 = part state) :
    Spares part (modifyGet change : EStateM ε σ α) := spared

protected theorem bind {step : EStateM ε σ β} {next : β → EStateM ε σ α} (first : Spares part step)
    (rest : ∀ value, Spares part (next value)) : Spares part (step >>= next) := by
  intro state
  rw [ends_bind]
  apply (first state).mono
  · intro value after same
    rw [← same]
    exact rest value after
  · exact fun _ _ same => same

end Spares

/-! ## How steps move the state -/

/-- A step moves the state along a relation, however it ends; what it returns
satisfies a further condition. -/
def Moves (related : σ → σ → Prop) (step : EStateM ε σ α) (state : σ)
    (returned : α → σ → Prop) : Prop :=
  Ends step state (fun value after => related state after ∧ returned value after)
    fun _ after => related state after

namespace Moves

variable {related : σ → σ → Prop} {state : σ} {returned : α → σ → Prop}

protected theorem pure {value : α} (stays : related state state) (holds : returned value state) :
    Moves related (pure value : EStateM ε σ α) state returned :=
  ⟨stays, holds⟩

protected theorem throw {raised : ε} (stays : related state state) :
    Moves related (throw raised : EStateM ε σ α) state returned :=
  stays

theorem throw_bind {raised : ε} {next : β → EStateM ε σ α} (stays : related state state) :
    Moves related (throw raised >>= next) state returned :=
  stays

protected theorem modify {change : σ → σ} {returned : PUnit → σ → Prop}
    (moves : related state (change state)) (holds : returned ⟨⟩ (change state)) :
    Moves related (modify change : EStateM ε σ PUnit) state returned :=
  ⟨moves, holds⟩

protected theorem modifyGet {change : σ → α × σ} (moves : related state (change state).2)
    (holds : returned (change state).1 (change state).2) :
    Moves related (modifyGet change : EStateM ε σ α) state returned :=
  ⟨moves, holds⟩

theorem of_ok {step : EStateM ε σ α} {value : α} {after : σ} (ran : step state = .ok value after)
    (moves : related state after) (holds : returned value after) :
    Moves related step state returned :=
  Ends.of_ok ran ⟨moves, holds⟩

theorem of_error {step : EStateM ε σ α} {raised : ε} {after : σ}
    (ran : step state = .error raised after) (moves : related state after) :
    Moves related step state returned :=
  Ends.of_error ran moves

theorem get_bind {next : σ → EStateM ε σ α}
    (rest : Moves related (next state) state returned) :
    Moves related (get >>= next) state returned :=
  rest

/-- Two steps move the state along relations of their own, one after the other. -/
theorem compose {early : σ → σ → Prop} (late : σ → σ → Prop) [Trans early late related]
    (weaker : ∀ before after, early before after → related before after)
    {step : EStateM ε σ β} {next : β → EStateM ε σ α} {between : β → σ → Prop}
    (first : Moves early step state between)
    (rest : ∀ value after, early state after → between value after →
      Moves late (next value) after returned) :
    Moves related (step >>= next) state returned := by
  rw [Moves, ends_bind]
  apply Ends.mono first
  · intro value middle reached
    apply Ends.mono (rest value middle reached.1 reached.2)
    · exact fun _ _ ended => ⟨Trans.trans reached.1 ended.1, ended.2⟩
    · exact fun _ _ ended => Trans.trans reached.1 ended
  · exact fun _ middle reached => weaker state middle reached

protected theorem bind [Trans related related related] {step : EStateM ε σ β}
    {next : β → EStateM ε σ α} {between : β → σ → Prop}
    (first : Moves related step state between)
    (rest : ∀ value after, related state after → between value after →
      Moves related (next value) after returned) :
    Moves related (step >>= next) state returned :=
  compose related (fun _ _ reached => reached) first rest

/-- What follows a step is judged by where the step began. -/
theorem bind_from {step : EStateM ε σ β} {next : β → EStateM ε σ α} {between : β → σ → Prop}
    (first : Moves related step state between)
    (rest : ∀ value after, related state after → between value after →
      Moves (fun _ => related state) (next value) after returned) :
    Moves related (step >>= next) state returned := by
  rw [Moves, ends_bind]
  exact Ends.mono first (fun value after reached => rest value after reached.1 reached.2)
    fun _ _ reached => reached

/-- Nothing follows a step that never returns. -/
theorem never_bind {step : EStateM ε σ β} {next : β → EStateM ε σ α}
    (never : Moves related step state fun _ _ => False) :
    Moves related (step >>= next) state returned := by
  rw [Moves, ends_bind]
  exact Ends.mono never (fun _ _ ended => ended.2.elim) fun _ _ ended => ended

theorem modify_bind [Trans related related related] {change : σ → σ}
    {next : PUnit → EStateM ε σ α} (moves : related state (change state))
    (rest : Moves related (next ⟨⟩) (change state) returned) :
    Moves related (modify change >>= next) state returned := by
  have first : Moves related (modify change : EStateM ε σ PUnit) state
      fun _ after => after = change state := ⟨moves, rfl⟩
  apply first.bind
  rintro - _ - rfl
  exact rest

theorem mono {step : EStateM ε σ α} {returned' : α → σ → Prop}
    (moves : Moves related step state returned)
    (weaker : ∀ value after, related state after → returned value after →
      returned' value after) :
    Moves related step state returned' :=
  Ends.mono moves (fun value after ended => ⟨ended.1, weaker value after ended.1 ended.2⟩)
    fun _ _ ended => ended

/-- What is known of a step otherwise goes with how it moves the state. -/
theorem and_ends {step : EStateM ε σ α} {returned' : α → σ → Prop} {thrown' : ε → σ → Prop}
    (moves : Moves related step state returned) (ends : Ends step state returned' thrown') :
    Moves related step state fun value after => returned value after ∧ returned' value after :=
  Ends.mono (Ends.and moves ends) (fun _ _ ended => ⟨ended.1.1, ended.1.2, ended.2⟩)
    fun _ _ ended => ended.1

/-- What a step returns, wherever it moves the state. -/
theorem ends {step : EStateM ε σ α} (moves : Moves related step state returned) :
    Ends step state returned fun _ _ => True :=
  Ends.mono moves (fun _ _ ended => ended.2) fun _ _ _ => trivial

theorem of_related {step : EStateM ε σ α} {related' : σ → σ → Prop}
    (moves : Moves related step state returned)
    (weaker : ∀ after, related state after → related' state after) :
    Moves related' step state returned :=
  Ends.mono moves (fun _ after ended => ⟨weaker after ended.1, ended.2⟩)
    fun _ after ended => weaker after ended

end Moves

/-- A step returns a value from a state, whatever state it leaves. -/
def Returns (step : EStateM ε σ α) (state : σ) (value : α) : Prop :=
  ∃ after, step state = .ok value after

theorem Returns.unique {step : EStateM ε σ α} {state : σ} {value other : α}
    (returns : Returns step state value) (too : Returns step state other) : value = other := by
  obtain ⟨after, ran⟩ := returns
  obtain ⟨last, ranToo⟩ := too
  cases ran.symm.trans ranToo
  rfl

/-! ## What steps overlook -/

/-- A step overlooks a change of the state: it does to a state that was changed what it does
to the state itself. Some states may be exempt; those that are not never turn into such. -/
def Overlooks (meant : σ → Prop) (change : σ → σ) (step : EStateM ε σ α) : Prop :=
  ∀ state, meant state → Ends step state
    (fun value after => meant after ∧ step (change state) = .ok value (change after))
    fun raised after => meant after ∧ step (change state) = .error raised (change after)

namespace Overlooks

variable {meant : σ → Prop} {change : σ → σ}

protected theorem pure (value : α) : Overlooks meant change (pure value : EStateM ε σ α) :=
  fun _ holds => ⟨holds, rfl⟩

protected theorem throw (raised : ε) : Overlooks meant change (throw raised : EStateM ε σ α) :=
  fun _ holds => ⟨holds, rfl⟩

protected theorem bind {step : EStateM ε σ β} {next : β → EStateM ε σ α}
    (first : Overlooks meant change step) (rest : ∀ value, Overlooks meant change (next value)) :
    Overlooks meant change (step >>= next) := by
  intro state holds
  have ended := first state holds
  simp only [Ends] at ended ⊢
  cases ran : step state with
  | ok value middle =>
      rw [ran] at ended
      have later := rest value middle ended.1
      simp only [Ends] at later
      simp only [bind, EStateM.bind, ran, ended.2]
      exact later
  | error raised after =>
      rw [ran] at ended
      simp only [bind, EStateM.bind, ran, ended.2]
      exact ⟨ended.1, trivial⟩

/-- What follows a look at the state does not see the change either. -/
theorem get_bind {next : σ → EStateM ε σ α}
    (blind : ∀ state, meant state → next (change state) = next state)
    (rest : ∀ state, meant state → Overlooks meant change (next state)) :
    Overlooks meant change (get >>= next) := by
  intro state holds
  have ended := rest state holds state holds
  rw [← blind state holds] at ended
  simp only [Ends] at ended ⊢
  simp only [bind, EStateM.bind, run_get]
  rw [← blind state holds]
  exact ended

protected theorem modify {update : σ → σ} (keeps : ∀ state, meant state → meant (update state))
    (same : ∀ state, meant state → update (change state) = change (update state)) :
    Overlooks meant change (modify update : EStateM ε σ PUnit) := by
  intro state holds
  refine ⟨keeps state holds, ?_⟩
  rw [← same state holds]
  rfl

protected theorem modifyGet {update : σ → α × σ}
    (keeps : ∀ state, meant state → meant (update state).2)
    (same : ∀ state, meant state →
      update (change state) = ((update state).1, change (update state).2)) :
    Overlooks meant change (modifyGet update : EStateM ε σ α) := by
  intro state holds
  refine ⟨keeps state holds, ?_⟩
  change (match update (change state) with | (value, after) => EStateM.Result.ok value after) = _
  rw [same state holds]

theorem eq_of_ok {step : EStateM ε σ α} (overlooks : Overlooks meant change step) {state after : σ}
    {value : α} (holds : meant state) (ran : step state = .ok value after) :
    meant after ∧ step (change state) = .ok value (change after) := by
  have ended := ends_of_ok ran (overlooks state holds)
  exact ended

theorem eq_of_error {step : EStateM ε σ α} (overlooks : Overlooks meant change step)
    {state after : σ} {raised : ε} (holds : meant state) (ran : step state = .error raised after) :
    meant after ∧ step (change state) = .error raised (change after) := by
  have ended := ends_of_error ran (overlooks state holds)
  exact ended

/-- A step returns from a state that was changed what it returns from the state itself. -/
theorem returns_iff {step : EStateM ε σ α} (overlooks : Overlooks meant change step) {state : σ}
    (holds : meant state) {value : α} :
    Returns step (change state) value ↔ Returns step state value := by
  cases ran : step state with
  | ok other after =>
      rw [Returns, Returns, ran, (overlooks.eq_of_ok holds ran).2]
      constructor
      · rintro ⟨_, ⟨⟩⟩
        exact ⟨after, rfl⟩
      · rintro ⟨_, ⟨⟩⟩
        exact ⟨change after, rfl⟩
  | error raised after =>
      rw [Returns, Returns, ran, (overlooks.eq_of_error holds ran).2]
      constructor
      · rintro ⟨_, ⟨⟩⟩
      · rintro ⟨_, ⟨⟩⟩

end Overlooks

-- steps are opened by the rules above, not by computing
attribute [irreducible] Ends

/-- Of two steps that may fail, both succeed where the whole does. -/
theorem Except.bind_eq_ok {ε α β : Type} {first : Except ε α} {next : α → Except ε β} {value : β} :
    first >>= next = .ok value ↔ ∃ between, first = .ok between ∧ next between = .ok value := by
  cases first with
  | error error =>
      refine ⟨fun failed => ?_, fun ⟨_, failed, _⟩ => ?_⟩
      · cases failed
      · cases failed
  | ok between =>
      refine ⟨fun succeeded => ⟨between, rfl, succeeded⟩, ?_⟩
      rintro ⟨_, ⟨⟩, succeeded⟩
      exact succeeded

end Jvm
