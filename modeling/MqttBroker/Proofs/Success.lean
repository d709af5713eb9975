/-!
A computation that can fail gives a value only if each of its steps does.
-/

namespace MqttBroker

theorem bind_eq_ok {ε α β : Type} {first : Except ε α} {rest : α → Except ε β} {value : β} :
    (first >>= rest) = .ok value ↔ ∃ middle, first = .ok middle ∧ rest middle = .ok value := by
  cases first with
  | error failure => simp [Bind.bind, Except.bind]
  | ok middle => simp [Bind.bind, Except.bind]

theorem mapError_eq_ok {ε ε' α : Type} {change : ε → ε'} {first : Except ε α} {value : α} :
    first.mapError change = .ok value ↔ first = .ok value := by
  cases first with
  | error failure =>
      constructor
      · intro same
        cases same
      · intro same
        cases same
  | ok middle =>
      constructor
      · intro same
        cases same
        rfl
      · intro same
        cases same
        rfl

theorem guard_eq_ok {ε α β : Type} {refused : Prop} [Decidable refused] {failure : ε}
    {after : α → Except ε β} {rest : Except ε β} {value : β} :
    (if refused then throw failure >>= after else rest) = .ok value ↔
      ¬refused ∧ rest = .ok value := by
  by_cases is : refused
  · simp [is, Bind.bind, Except.bind, throw, throwThe, MonadExceptOf.throw]
  · simp [is]

theorem mapM_eq_pure {m : Type → Type} [Monad m] [LawfulMonad m] {α β : Type} {read : α → m β}
    {value : α → β} {l : List α} (reads : ∀ a ∈ l, read a = pure (value a)) :
    l.mapM read = pure (l.map value) := by
  induction l with
  | nil => rfl
  | cons a rest ih =>
      rw [List.mapM_cons, reads a (List.mem_cons_self ..),
        ih fun b member => reads b (List.mem_cons_of_mem a member), pure_bind, pure_bind,
        List.map_cons]

end MqttBroker
