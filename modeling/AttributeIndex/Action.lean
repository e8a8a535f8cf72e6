/-!
Fallible operations on a state.

An operation that fails still leaves a state behind, so the state is kept beside the outcome and not
inside its success. Operations on a component lift to operations on the whole.
-/

namespace AttributeIndex

/-- An operation on a state of type `σ` that answers `α` or fails with `ε`; either way the state it
leaves is part of the result. -/
abbrev Action (σ ε α : Type) := ExceptT ε (StateM σ) α

namespace Action

variable {σ τ ε δ α : Type}

def perform (action : Action σ ε α) (state : σ) : Except ε α × σ :=
  action state

def query (answer : σ → Except ε α) : Action σ ε α :=
  fun state => (answer state, state)

def update (change : σ → σ) : Action σ ε Unit :=
  fun state => (.ok (), change state)

def ofResult (result : Except ε α) : Action σ ε α :=
  fun state => (result, state)

def relating (relate : ε → δ) (action : Action σ ε α) : Action σ δ α :=
  fun state =>
    match action state with
    | (outcome, state) => (outcome.mapError relate, state)

def on (part : τ → σ) (replace : τ → σ → τ) (relate : ε → δ) (action : Action σ ε α) :
    Action τ δ α :=
  fun whole =>
    match action (part whole) with
    | (outcome, state) => (outcome.mapError relate, replace whole state)

def attempt (action : Action σ ε α) : Action σ δ (Except ε α) :=
  fun state =>
    match action state with
    | (outcome, state) => (.ok outcome, state)

def attemptAll : List (Action σ ε α) → Action σ δ (List (Except ε α))
  | [] => ofResult (.ok [])
  | action :: actions => do
    let outcome ← attempt action
    return outcome :: (← attemptAll actions)

def ignoring (action : Action σ ε α) : Action σ δ Unit :=
  fun state =>
    match action state with
    | (_, state) => (.ok (), state)

end Action

end AttributeIndex
