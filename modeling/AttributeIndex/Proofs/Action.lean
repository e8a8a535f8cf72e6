import AttributeIndex.Action

/-!
Operations by what they leave behind.

`Meets` speaks of one performance: a success answers and leaves a state as the first condition
demands, a failure as the second does. Each way to build an operation has one rule, so a composed
operation is taken apart by rewriting and the operations it calls are replaced by what is known of
them.
-/

namespace AttributeIndex.Action

variable {σ τ ε δ α β : Type}

def Meets (action : Action σ ε α) (state : σ) (ok : α → σ → Prop) (failed : ε → σ → Prop) :
    Prop :=
  match action state with
  | (.ok answer, after) => ok answer after
  | (.error failure, after) => failed failure after

variable {state : σ} {ok : α → σ → Prop} {failed : ε → σ → Prop}

theorem Meets.ok_of {action : Action σ ε α} (meets : action.Meets state ok failed) {answer : α}
    {after : σ} (performed : action state = (.ok answer, after)) : ok answer after := by
  rw [Meets, performed] at meets
  exact meets

theorem Meets.failed_of {action : Action σ ε α} (meets : action.Meets state ok failed)
    {failure : ε} {after : σ} (performed : action state = (.error failure, after)) :
    failed failure after := by
  rw [Meets, performed] at meets
  exact meets

theorem Meets.mono {action : Action σ ε α} {ok' : α → σ → Prop} {failed' : ε → σ → Prop}
    (meets : action.Meets state ok failed)
    (weakenOk : ∀ answer after, ok answer after → ok' answer after)
    (weakenFailed : ∀ failure after, failed failure after → failed' failure after) :
    action.Meets state ok' failed' := by
  unfold Meets at *
  split at meets
  · exact weakenOk _ _ meets
  · exact weakenFailed _ _ meets

theorem Meets.intro {action : Action σ ε α}
    (succeeds : ∀ answer after, action state = (.ok answer, after) → ok answer after)
    (fails : ∀ failure after, action state = (.error failure, after) → failed failure after) :
    action.Meets state ok failed := by
  unfold Meets
  cases performed : action state with
  | mk outcome after =>
    cases outcome with
    | ok answer => exact succeeds answer after performed
    | error failure => exact fails failure after performed

theorem Meets.and {action : Action σ ε α} {ok' : α → σ → Prop} {failed' : ε → σ → Prop}
    (meets : action.Meets state ok failed) (also : action.Meets state ok' failed') :
    action.Meets state (fun answer after => ok answer after ∧ ok' answer after)
      (fun failure after => failed failure after ∧ failed' failure after) :=
  .intro (fun _ _ performed => ⟨meets.ok_of performed, also.ok_of performed⟩)
    fun _ _ performed => ⟨meets.failed_of performed, also.failed_of performed⟩

theorem Meets.succeeds {action : Action σ ε α} (meets : action.Meets state ok fun _ _ => False) :
    ∃ answer after, action state = (.ok answer, after) ∧ ok answer after := by
  unfold Meets at meets
  split at meets
  · rename_i answer after performed
    exact ⟨answer, after, performed, meets⟩
  · exact meets.elim

theorem Meets.succeeds_unless {action : Action σ ε α} (meets : action.Meets state ok failed)
    (never : ∀ failure after, ¬failed failure after) :
    ∃ answer after, action state = (.ok answer, after) ∧ ok answer after :=
  (meets.mono (fun _ _ => id) never).succeeds

theorem Meets.left {action : Action σ ε α} {kept : σ → Prop}
    (meets : action.Meets state (fun _ => kept) fun _ => kept) : kept (action state).2 := by
  unfold Meets at meets
  split at meets
  · rename_i performed
    rw [performed]
    exact meets
  · rename_i performed
    rw [performed]
    exact meets

theorem meets_of_eq_ok {action : Action σ ε α} {answer : α} {after : σ}
    (performed : action state = (.ok answer, after)) (holds : ok answer after) :
    action.Meets state ok failed := by
  rw [Meets, performed]
  exact holds

theorem performed_of_outcome {action : Action σ ε α} {outcome : Except ε α}
    (answered : (action state).1 = outcome) : action state = (outcome, (action state).2) :=
  Prod.ext answered rfl

theorem Meets.eq_ok {action : Action σ ε α} {answer : α} {after : σ}
    (meets : action.Meets state (fun found left => found = answer ∧ left = after)
      fun _ _ => False) : action state = (.ok answer, after) := by
  obtain ⟨_, _, performed, rfl, rfl⟩ := meets.succeeds
  exact performed

theorem Meets.eq_error {action : Action σ ε α} {failure : ε} {after : σ}
    (meets : action.Meets state (fun _ _ => False)
      fun found left => found = failure ∧ left = after) : action state = (.error failure, after) := by
  unfold Meets at meets
  split at meets
  · exact meets.elim
  · rename_i performed
    obtain ⟨rfl, rfl⟩ := meets
    exact performed

theorem meets_pure {answer : α} :
    (pure answer : Action σ ε α).Meets state ok failed ↔ ok answer state :=
  Iff.rfl

theorem meets_throw {failure : ε} :
    (throw failure : Action σ ε α).Meets state ok failed ↔ failed failure state :=
  Iff.rfl

theorem bind_apply (first : Action σ ε β) (next : β → Action σ ε α) (state : σ) :
    (first >>= next) state =
      match first state with
      | (.ok answer, after) => next answer after
      | (.error failure, after) => (.error failure, after) := by
  simp only [bind, ExceptT.bind, ExceptT.mk, StateT.bind, ExceptT.bindCont]
  cases first state with
  | mk outcome after => cases outcome <;> rfl

theorem get_apply (state : σ) : (get : Action σ ε σ) state = (.ok state, state) :=
  rfl

theorem modify_apply (change : σ → σ) (state : σ) :
    (modify change : Action σ ε Unit) state = (.ok (), change state) :=
  rfl

theorem meets_bind {first : Action σ ε β} {next : β → Action σ ε α} :
    (first >>= next).Meets state ok failed ↔
      first.Meets state (fun answer after => (next answer).Meets after ok failed) failed := by
  have performed : (first >>= next) state =
      match first state with
      | (.ok answer, after) => next answer after
      | (.error failure, after) => (.error failure, after) := by
    simp only [bind, ExceptT.bind, ExceptT.mk, StateT.bind, ExceptT.bindCont]
    cases first state with
    | mk outcome after => cases outcome <;> rfl
  unfold Meets
  rw [performed]
  cases first state with
  | mk outcome after => cases outcome <;> exact Iff.rfl

theorem map_apply (change : β → α) (action : Action σ ε β) (state : σ) :
    (change <$> action) state = ((action state).1.map change, (action state).2) := by
  simp only [Functor.map, ExceptT.map, ExceptT.mk, bind, StateT.bind]
  cases action state with
  | mk outcome after => cases outcome <;> rfl

theorem left_map {kept : σ → Prop} {change : β → α} {action : Action σ ε β}
    (left : kept (action state).2) : kept ((change <$> action) state).2 := by
  rwa [map_apply]

theorem meets_map {change : β → α} {action : Action σ ε β} :
    (change <$> action).Meets state ok failed ↔
      action.Meets state (fun answer after => ok (change answer) after) failed := by
  unfold Meets
  rw [map_apply]
  cases action state with
  | mk outcome after => cases outcome <;> exact Iff.rfl

theorem meets_discard {ok : Unit → σ → Prop} {action : Action σ ε β} :
    (discard action : Action σ ε Unit).Meets state ok failed ↔
      action.Meets state (fun _ after => ok () after) failed :=
  meets_map

theorem meets_get {ok : σ → σ → Prop} :
    (get : Action σ ε σ).Meets state ok failed ↔ ok state state :=
  Iff.rfl

theorem meets_set {ok : Unit → σ → Prop} {after : σ} :
    (set after : Action σ ε Unit).Meets state ok failed ↔ ok () after :=
  Iff.rfl

theorem meets_modify {ok : Unit → σ → Prop} {change : σ → σ} :
    (modify change : Action σ ε Unit).Meets state ok failed ↔ ok () (change state) :=
  Iff.rfl

theorem meets_query {answer : σ → Except ε α} :
    (query answer).Meets state ok failed ↔
      match answer state with
      | .ok answer => ok answer state
      | .error failure => failed failure state := by
  unfold Meets query
  cases answer state <;> exact Iff.rfl

theorem meets_ofResult {result : Except ε α} :
    (ofResult result : Action σ ε α).Meets state ok failed ↔
      match result with
      | .ok answer => ok answer state
      | .error failure => failed failure state := by
  unfold Meets ofResult
  cases result <;> exact Iff.rfl

theorem meets_relating {relate : δ → ε} {action : Action σ δ α} :
    (relating relate action).Meets state ok failed ↔
      action.Meets state ok (fun failure after => failed (relate failure) after) := by
  unfold Meets relating
  cases action state with
  | mk outcome after => cases outcome <;> exact Iff.rfl

theorem on_apply (part : τ → σ) (replace : τ → σ → τ) (relate : ε → δ) (action : Action σ ε α)
    (whole : τ) :
    on part replace relate action whole =
      ((action (part whole)).1.mapError relate, replace whole (action (part whole)).2) :=
  rfl

theorem meets_on {whole : τ} {ok : α → τ → Prop} {failed : δ → τ → Prop} {part : τ → σ}
    {replace : τ → σ → τ} {relate : ε → δ} {action : Action σ ε α} :
    (on part replace relate action).Meets whole ok failed ↔
      action.Meets (part whole) (fun answer after => ok answer (replace whole after))
        (fun failure after => failed (relate failure) (replace whole after)) := by
  unfold Meets on
  cases action (part whole) with
  | mk outcome after => cases outcome <;> exact Iff.rfl

theorem meets_attempt {ok : Except ε α → σ → Prop} {failed : δ → σ → Prop}
    {action : Action σ ε α} :
    (attempt action : Action σ δ (Except ε α)).Meets state ok failed ↔
      action.Meets state (fun answer after => ok (.ok answer) after)
        (fun failure after => ok (.error failure) after) := by
  unfold Meets attempt
  cases action state with
  | mk outcome after => cases outcome <;> exact Iff.rfl

theorem meets_ignoring {ok : Unit → σ → Prop} {failed : δ → σ → Prop} {action : Action σ ε α} :
    (ignoring action : Action σ δ Unit).Meets state ok failed ↔
      action.Meets state (fun _ after => ok () after) (fun _ after => ok () after) := by
  unfold Meets ignoring
  cases action state with
  | mk outcome after => cases outcome <;> exact Iff.rfl

/-- Operations performed for each element of a list: `kept` holds before each of them, with the
elements still to come. -/
theorem meets_forM {ι : Type} {work : ι → Action σ ε Unit} (kept : List ι → σ → Prop)
    (step : ∀ element rest state, kept (element :: rest) state →
      (work element).Meets state (fun _ after => kept rest after) failed)
    (list : List ι) (start : kept list state) :
    (list.forM work).Meets state (fun _ after => kept [] after) failed := by
  induction list generalizing state with
  | nil => exact start
  | cons element rest ih =>
    show (work element >>= fun _ => rest.forM work).Meets state _ failed
    rw [meets_bind]
    exact (step element rest state start).mono (fun _ _ => ih) fun _ _ failing => failing

theorem marked_iff {action : Action σ ε α} {marked : σ → Bool} {broken : ε → σ → Prop}
    (marks : ∀ failure after, broken failure after → marked after = true)
    (moves : marked (action state).2 = marked state ∨
      ∃ failure, (action state).1 = .error failure ∧ broken failure (action state).2) :
    marked (action state).2 = true ↔
      marked state = true ∨
        ∃ failure after, action state = (.error failure, after) ∧ broken failure after := by
  constructor
  · intro marked
    rcases moves with same | ⟨failure, failed, left⟩
    · exact .inl (same.symm.trans marked)
    · exact .inr ⟨failure, _, Prod.ext failed rfl, left⟩
  · rintro (before | ⟨failure, after, performed, left⟩)
    · rcases moves with same | ⟨failure, -, left⟩
      · exact same.trans before
      · exact marks failure _ left
    · rw [performed]
      exact marks failure after left

theorem marked_foldl_iff {ι : Type} {perform : ι → Action σ ε Unit} {stands : σ → Prop}
    {marked : σ → Bool} {marker : ι} {marks : σ → Prop}
    (keeps : ∀ state call, stands state → stands (perform call state).2)
    (step : ∀ state call, stands state →
      (marked (perform call state).2 = true ↔ marked state = true ∨ call = marker ∧ marks state))
    (calls : List ι) (start : stands state) :
    marked (calls.foldl (fun state call => (perform call state).2) state) = true ↔
      marked state = true ∨ ∃ earlier later, calls = earlier ++ marker :: later ∧
        marks (earlier.foldl (fun state call => (perform call state).2) state) := by
  induction calls generalizing state with
  | nil => simp
  | cons call calls ih =>
    rw [List.foldl_cons, ih (keeps state call start), step state call start, or_assoc]
    refine or_congr_right ⟨?_, ?_⟩
    · rintro (⟨rfl, here⟩ | ⟨earlier, later, rfl, there⟩)
      · exact ⟨[], calls, rfl, here⟩
      · exact ⟨call :: earlier, later, rfl, there⟩
    · rintro ⟨earlier, later, same, found⟩
      cases earlier with
      | nil =>
        obtain ⟨rfl, rfl⟩ := List.cons.inj same
        exact .inl ⟨rfl, found⟩
      | cons first earlier =>
        obtain ⟨rfl, rfl⟩ := List.cons.inj same
        exact .inr ⟨earlier, later, rfl, found⟩

/-! ## Operations beside a change of the state -/

variable {change : σ → σ}

/-- The operation does the same after a change of the state, and leaves that change as it is. -/
def Commutes (change : σ → σ) (action : Action σ ε α) : Prop :=
  ∀ state, action (change state) = ((action state).1, change (action state).2)

theorem commutes_pure (answer : α) : Commutes change (pure answer : Action σ ε α) :=
  fun _ => rfl

theorem commutes_throw (failure : ε) : Commutes change (throw failure : Action σ ε α) :=
  fun _ => rfl

theorem commutes_bind {first : Action σ ε β} {next : β → Action σ ε α}
    (before : Commutes change first) (after : ∀ answer, Commutes change (next answer)) :
    Commutes change (first >>= next) := by
  intro state
  rw [bind_apply, bind_apply, before state]
  cases first state with
  | mk outcome left =>
    cases outcome with
    | ok answer => exact after answer left
    | error failure => rfl

theorem commutes_get_bind {next : σ → Action σ ε α}
    (same : ∀ state, next (change state) = next state)
    (after : ∀ state, Commutes change (next state)) : Commutes change (get >>= next) := by
  intro state
  rw [bind_apply, bind_apply, get_apply, get_apply]
  dsimp only
  rw [same]
  exact after state state

theorem commutes_query {answer : σ → Except ε α}
    (same : ∀ state, answer (change state) = answer state) : Commutes change (query answer) := by
  intro state
  rw [query, query, same]

end AttributeIndex.Action
