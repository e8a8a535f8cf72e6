import AttributeIndex.Error

namespace AttributeIndex

variable {ε α β : Type}

@[simp]
theorem ok_bind (value : α) (next : α → Except ε β) : (Except.ok value >>= next) = next value :=
  rfl

@[simp]
theorem error_bind (failure : ε) (next : α → Except ε β) :
    (Except.error failure >>= next) = .error failure :=
  rfl

theorem bind_eq_ok {first : Except ε α} {next : α → Except ε β} {result : β} :
    (first >>= next) = .ok result ↔ ∃ value, first = .ok value ∧ next value = .ok result := by
  cases first with
  | ok value => simp
  | error failure => simp

theorem pure_eq_ok {value result : α} : (pure value : Except ε α) = .ok result ↔ value = result :=
  ⟨Except.ok.inj, congrArg _⟩

theorem map_eq_ok {change : α → β} {outcome : Except ε α} {answer : β} :
    outcome.map change = .ok answer ↔ ∃ found, outcome = .ok found ∧ change found = answer := by
  cases outcome with
  | error failure => simp [Except.map]
  | ok found => simp [Except.map]

theorem toOption_eq_some {result : Except ε α} {value : α} :
    result.toOption = some value ↔ result = .ok value := by
  cases result <;> simp [Except.toOption]

theorem Error.requireArgument_eq_ok {holds : Bool} {name condition : String} {done : Unit} :
    Error.requireArgument holds name condition = .ok done ↔ holds = true := by
  unfold Error.requireArgument
  cases holds <;> simp

theorem Error.requireFormat_eq_ok {holds : Bool} {name condition : String} {done : Unit} :
    Error.requireFormat holds name condition = .ok done ↔ holds = true := by
  unfold Error.requireFormat
  cases holds <;> simp

theorem Error.requireSetting_eq_ok {holds : Bool} {name condition : String} {done : Unit} :
    Error.requireSetting holds name condition = .ok done ↔ holds = true := by
  unfold Error.requireSetting
  cases holds <;> simp

end AttributeIndex
