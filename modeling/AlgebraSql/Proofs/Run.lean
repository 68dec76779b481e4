import AlgebraSql.Convert.Statement
import Mathlib.Data.List.Forall2

/-!
# Runs — what a conversion gives and leaves behind, step by step.

`Gives` relates a conversion and the memory it starts from to its value and the memory it leaves, and
`Fails` to the complaint it ends with.  A sequence of steps is taken apart by one lemma for each
relation, so no proof has to open the monad.
-/

namespace AlgebraSql.Convert

variable {α β : Type}

/-! ## Steps without memory -/

/-- A sequence of pure steps gives a value exactly when each step does. -/
@[simp]
theorem bind_eq_ok_iff (x : Except Error α) (f : α → Except Error β) (b : β) :
    (x >>= f) = .ok b ↔ ∃ a, x = .ok a ∧ f a = .ok b := by
  cases x <;> simp [bind, Except.bind]

@[simp]
theorem pure_eq_ok_iff (a b : α) : (pure a : Except Error α) = .ok b ↔ a = b := by
  simp [pure, Except.pure]

theorem toOption_eq_some_iff (x : Except Error α) (a : α) : x.toOption = some a ↔ x = .ok a := by
  cases x <;> simp [Except.toOption]

/-- A check of every element of a list is passed exactly when each of them passes it. -/
theorem forM_eq_ok_iff (check : α → Except Error Unit) (as : List α) :
    as.forM check = .ok () ↔ ∀ a ∈ as, check a = .ok () := by
  induction as with
  | nil => simp [List.forM_eq_forM]
  | cons a as ih =>
    rw [List.forM_eq_forM] at ih
    simp only [List.forM_eq_forM, List.forM_cons, bind_eq_ok_iff, ih, List.forall_mem_cons]
    constructor
    · rintro ⟨⟨⟩, ha, has⟩
      exact ⟨ha, has⟩
    · rintro ⟨ha, has⟩
      exact ⟨(), ha, has⟩

/-- A pure step on every element of a list gives a value for each of them. -/
theorem mapM_eq_ok_iff (f : α → Except Error β) (as : List α) (bs : List β) :
    as.mapM f = .ok bs ↔ List.Forall₂ (fun a b => f a = .ok b) as bs := by
  induction as generalizing bs with
  | nil =>
    rw [List.mapM_nil, pure_eq_ok_iff]
    constructor
    · rintro rfl
      exact .nil
    · rintro ⟨⟩
      rfl
  | cons a as ih =>
    simp only [List.mapM_cons, bind_eq_ok_iff, pure_eq_ok_iff, ih]
    constructor
    · rintro ⟨b, hb, bs, hbs, rfl⟩
      exact .cons hb hbs
    · rintro (_ | ⟨hb, hbs⟩)
      exact ⟨_, hb, _, hbs, rfl⟩

/-- A pure step on every element gives a value in the place of each of them. -/
theorem getElem?_of_mapM {f : α → Except Error β} {as : List α} {bs : List β} (h : as.mapM f = .ok bs)
    {i : Nat} {a : α} (ha : as[i]? = some a) : ∃ b, bs[i]? = some b ∧ f a = .ok b := by
  rw [mapM_eq_ok_iff] at h
  obtain ⟨hi, rfl⟩ := List.getElem?_eq_some_iff.mp ha
  have hi' : i < bs.length := h.length_eq ▸ hi
  exact ⟨bs[i], by simp, (List.forall₂_iff_get.mp h).2 i hi hi'⟩

theorem head?_of_mapM {f : α → Except Error β} {as : List α} {bs : List β} (h : as.mapM f = .ok bs) {b : β}
    (hb : bs.head? = some b) : ∃ a, as.head? = some a ∧ f a = .ok b := by
  rw [mapM_eq_ok_iff] at h
  cases h with
  | nil => cases hb
  | @cons a _ _ _ ha => exact ⟨a, rfl, Option.some.inj hb ▸ ha⟩

theorem length_of_mapM {f : α → Except Error β} {as : List α} {bs : List β} (h : as.mapM f = .ok bs) :
    bs.length = as.length :=
  ((mapM_eq_ok_iff f as bs).mp h).length_eq.symm

/-- What every step gives has a property if each step gives it. -/
theorem forall_of_mapM {f : α → Except Error β} {as : List α} {bs : List β} {p : β → Prop}
    (h : as.mapM f = .ok bs) (hf : ∀ a ∈ as, ∀ b, f a = .ok b → p b) : ∀ b ∈ bs, p b := by
  rw [mapM_eq_ok_iff] at h
  induction h with
  | nil => simp
  | cons hb _ ih =>
    intro b hmem
    rcases List.mem_cons.mp hmem with rfl | hmem
    · exact hf _ (by simp) _ hb
    · exact ih (fun a ha => hf a (by simp [ha])) b hmem

namespace ConvertM

/-- The value or the complaint of a conversion that starts from `s`, and the memory it leaves. -/
def outcome (c : ConvertM α) (s : State) : Except Error α × State := c.run.run s

/-- From the memory `s`, `c` gives `a` and leaves `s'`. -/
def Gives (c : ConvertM α) (s : State) (a : α) (s' : State) : Prop := c.outcome s = (.ok a, s')

/-- From the memory `s`, `c` fails with `e`. -/
def Fails (c : ConvertM α) (s : State) (e : Error) : Prop := (c.outcome s).1 = .error e

/-! ## Single steps -/

theorem outcome_pure (a : α) (s : State) : (pure a : ConvertM α).outcome s = (.ok a, s) := rfl

theorem outcome_throw (e : Error) (s : State) :
    (throw e : ConvertM α).outcome s = (.error e, s) := rfl

theorem outcome_lift (x : Except Error α) (s : State) :
    (liftM x : ConvertM α).outcome s = (x, s) := rfl

theorem outcome_get (s : State) : (get : ConvertM State).outcome s = (.ok s, s) := rfl

theorem outcome_modify (f : State → State) (s : State) :
    (modify f : ConvertM PUnit).outcome s = (.ok ⟨⟩, f s) := rfl

/-- The outcome of a sequence: the second step runs only if the first one gives a value. -/
theorem outcome_bind (c : ConvertM α) (f : α → ConvertM β) (s : State) :
    (c >>= f).outcome s = match c.outcome s with
      | (.ok a, s') => (f a).outcome s'
      | (.error e, s') => (.error e, s') := by
  unfold outcome
  rw [ExceptT.run_bind, StateT.run_bind]
  rcases c.run.run s with ⟨a | a, s'⟩ <;> rfl

@[simp]
theorem gives_pure (a b : α) (s s' : State) : (pure a : ConvertM α).Gives s b s' ↔ a = b ∧ s = s' := by
  simp [Gives, outcome_pure]

@[simp]
theorem gives_throw (e : Error) (a : α) (s s' : State) : ¬(throw e : ConvertM α).Gives s a s' := by
  simp [Gives, outcome_throw]

@[simp]
theorem gives_lift (x : Except Error α) (a : α) (s s' : State) :
    (liftM x : ConvertM α).Gives s a s' ↔ x = .ok a ∧ s = s' := by
  simp [Gives, outcome_lift]

@[simp]
theorem gives_get (t s s' : State) : (get : ConvertM State).Gives s t s' ↔ s = t ∧ s = s' := by
  simp [Gives, outcome_get]

@[simp]
theorem gives_modify (f : State → State) (u : PUnit) (s s' : State) :
    (modify f : ConvertM PUnit).Gives s u s' ↔ f s = s' := by
  simp [Gives, outcome_modify]

@[simp]
theorem fails_pure (a : α) (s : State) (e : Error) : ¬(pure a : ConvertM α).Fails s e := by
  simp [Fails, outcome_pure]

@[simp]
theorem fails_lift (x : Except Error α) (s : State) (e : Error) :
    (liftM x : ConvertM α).Fails s e ↔ x = .error e := by
  simp [Fails, outcome_lift]

/-! ## Sequences -/

/-- A sequence gives a value exactly when each step does. -/
theorem gives_bind (c : ConvertM α) (f : α → ConvertM β) (s : State) (b : β) (s'' : State) :
    (c >>= f).Gives s b s'' ↔ ∃ a s', c.Gives s a s' ∧ (f a).Gives s' b s'' := by
  unfold Gives
  rw [outcome_bind]
  rcases c.outcome s with ⟨a | a, s'⟩ <;> simp [and_assoc]

/-- A sequence fails exactly when its first step does or what follows it does. -/
theorem fails_bind (c : ConvertM α) (f : α → ConvertM β) (s : State) (e : Error) :
    (c >>= f).Fails s e ↔ c.Fails s e ∨ ∃ a s', c.Gives s a s' ∧ (f a).Fails s' e := by
  unfold Gives Fails
  rw [outcome_bind]
  rcases c.outcome s with ⟨a | a, s'⟩ <;> simp [and_assoc]

/-- What each conversion of an element gives stands beside that element. -/
theorem forall₂_of_gives_mapM {f : α → ConvertM β} {p : α → β → Prop} {as : List α} {bs : List β}
    (hf : ∀ a ∈ as, ∀ s b s', (f a).Gives s b s' → p a b) {s s' : State}
    (h : (as.mapM f).Gives s bs s') : List.Forall₂ p as bs := by
  induction as generalizing bs s with
  | nil =>
    rw [List.mapM_nil, gives_pure] at h
    rw [← h.1]
    exact .nil
  | cons a as ih =>
    simp only [List.mapM_cons, gives_bind, gives_pure] at h
    obtain ⟨b, t, hb, cs, t', hcs, rfl, rfl⟩ := h
    exact .cons (hf a (by simp) s b t hb) (ih (fun c hc => hf c (by simp [hc])) hcs)

/-- Conversions of the elements of a list give one value for each of them. -/
theorem length_of_gives_mapM {f : α → ConvertM β} {as : List α} {bs : List β} {s s' : State}
    (h : (as.mapM f).Gives s bs s') : bs.length = as.length :=
  (forall₂_of_gives_mapM (p := fun _ _ => True) (fun _ _ _ _ _ _ => trivial) h).length_eq.symm

/-- A conversion gives at most one value and leaves one memory. -/
theorem Gives.unique {c : ConvertM α} {s s₁ s₂ : State} {a b : α} (h₁ : c.Gives s a s₁)
    (h₂ : c.Gives s b s₂) : a = b ∧ s₁ = s₂ := by
  unfold Gives at h₁ h₂
  rw [h₁] at h₂
  simpa using h₂

/-- The value of a conversion that starts without memory. -/
theorem value_eq_ok_iff (c : ConvertM α) (a : α) : c.value = .ok a ↔ ∃ s, c.Gives {} a s := by
  change (c.outcome {}).1 = .ok a ↔ ∃ s, c.outcome {} = (.ok a, s)
  rcases c.outcome {} with ⟨x, s⟩
  simp

/-- What is found in the value of a conversion is found in what it gives. -/
theorem exists_gives {c : ConvertM α} {f : α → Option β} {b : β} (h : c.value.toOption.bind f = some b) :
    ∃ a s, c.Gives {} a s ∧ f a = some b := by
  obtain ⟨a, ha, hb⟩ := Option.bind_eq_some_iff.mp h
  obtain ⟨s, hs⟩ := (value_eq_ok_iff c a).mp ((toOption_eq_some_iff _ _).mp ha)
  exact ⟨a, s, hs, hb⟩

/-- The complaint of a conversion that starts without memory. -/
theorem value_eq_error_iff (c : ConvertM α) (e : Error) : c.value = .error e ↔ c.Fails {} e := Iff.rfl

end ConvertM

end AlgebraSql.Convert
