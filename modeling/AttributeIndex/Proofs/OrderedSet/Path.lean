import AttributeIndex.OrderedSet.Path

namespace AttributeIndex

variable {α : Type}

namespace Path

theorem beforeLast?_cons (side turn : Side) (path : Path) :
    beforeLast? side (turn :: path) =
      match beforeLast? side path with
      | some above => some (turn :: above)
      | none => if turn = side then some [] else none := by
  have rest : ∀ reversed : List Side,
      beforeLast? side (turn :: reversed.reverse) =
      match beforeLast? side reversed.reverse with
      | some above => some (turn :: above)
      | none => if turn = side then some [] else none := by
    -- The turn is looked for from the end, so the induction is on the reversed path.
    intro reversed
    simp only [beforeLast?, List.reverse_cons, List.reverse_reverse]
    induction reversed with
    | nil => by_cases same : turn = side <;> simp [same]
    | cons last others ih =>
      by_cases same : last = side
      · simp [same]
      · simp only [List.cons_append, List.dropWhile_cons, ne_eq, same, not_false_eq_true,
          decide_true, if_true]
        exact ih
  have turned := rest path.reverse
  rwa [List.reverse_reverse] at turned

end Path

namespace Tree

def toward : Side → Tree α → List α
  | .left, tree => tree.toList.reverse
  | .right, tree => tree.toList

def beyond (side : Side) : Tree α → Path → List α
  | leaf, _ => []
  | node left key balance right, [] => ((node left key balance right).child side).toward side
  | node left key balance right, turn :: path =>
    ((node left key balance right).child turn).beyond side path ++
      if turn = side then []
      else key :: ((node left key balance right).child side).toward side

theorem keyAt?_leaf (path : Path) : (leaf : Tree α).keyAt? path = none := by
  induction path with
  | nil => rfl
  | cons turn path ih => exact ih

theorem toward_opposite (side : Side) (tree : Tree α) :
    tree.toward side.opposite = (tree.toward side).reverse := by
  cases side with
  | left => exact (List.reverse_reverse _).symm
  | right => rfl

theorem toward_node (side : Side) (left : Tree α) (key : α) (balance : Int) (right : Tree α) :
    (node left key balance right).toward side =
      ((node left key balance right).child side.opposite).toward side ++
        key :: ((node left key balance right).child side).toward side := by
  cases side <;> simp [toward, toList, child, Side.opposite]

theorem toward_eq (side : Side) {tree : Tree α} {path : Path} {key : α}
    (found : tree.keyAt? path = some key) :
    tree.toward side =
      (tree.beyond side.opposite path).reverse ++ key :: tree.beyond side path := by
  induction path generalizing tree with
  | nil =>
    cases tree with
    | leaf => cases found
    | node left root balance right =>
      cases found
      rw [toward_node, beyond, beyond, toward_opposite, List.reverse_reverse]
  | cons turn path ih =>
    cases tree with
    | leaf => cases (keyAt?_leaf _).symm.trans found
    | node left root balance right =>
      have inner := @ih ((node left root balance right).child turn) found
      rw [toward_node, beyond, beyond]
      by_cases same : turn = side
      · subst same
        have different : turn ≠ turn.opposite := by cases turn <;> decide
        rw [if_pos rfl, if_neg different, inner, toward_opposite turn]
        simp
      · have opposite : turn = side.opposite := by
          cases turn <;> cases side <;> first | rfl | exact absurd rfl same
        subst opposite
        rw [if_neg same, if_pos rfl, inner]
        simp

theorem outermost?_spec (side : Side) (tree : Tree α) :
    match tree.outermost? side with
    | none => tree = leaf
    | some path => (∃ key, tree.keyAt? path = some key) ∧ tree.beyond side path = [] := by
  induction tree with
  | leaf => rfl
  | node left key balance right ihLeft ihRight =>
    -- The outermost node lies in the child on that side, or is the root if there is no child.
    have step : ∀ inner : Tree α, inner = (node left key balance right).child side →
        (match inner.outermost? side with
          | none => inner = leaf
          | some path => (∃ key, inner.keyAt? path = some key) ∧ inner.beyond side path = []) →
        (∃ first, (node left key balance right).keyAt?
            ((inner.outermost? side).elim [] (side :: ·)) = some first) ∧
          (node left key balance right).beyond side
            ((inner.outermost? side).elim [] (side :: ·)) = [] := by
      intro inner isChild found
      cases outermost : inner.outermost? side with
      | none =>
        rw [outermost] at found
        refine ⟨⟨key, rfl⟩, ?_⟩
        rw [Option.elim_none, beyond, ← isChild, found]
        cases side <;> rfl
      | some path =>
        rw [outermost] at found
        obtain ⟨⟨first, here⟩, nothing⟩ := found
        rw [isChild] at here nothing
        refine ⟨⟨first, here⟩, ?_⟩
        rw [Option.elim_some, beyond, nothing, if_pos rfl]
        rfl
    cases side with
    | left => exact step left rfl ihLeft
    | right => exact step right rfl ihRight

theorem neighbour?_cons {side turn : Side} {left right : Tree α} {key here : α} {balance : Int}
    {path : Path}
    (found : ((node left key balance right).child turn).keyAt? path = some here) :
    (node left key balance right).neighbour? side (turn :: path) =
      match ((node left key balance right).child turn).neighbour? side path with
      | some next => some (turn :: next)
      | none => if turn = side then none else some [] := by
  unfold neighbour?
  rw [descend]
  cases reached : ((node left key balance right).child turn).descend path with
  | leaf =>
    rw [keyAt?, reached] at found
    cases found
  | node innerLeft innerKey innerBalance innerRight =>
    dsimp only
    cases ((node innerLeft innerKey innerBalance innerRight).child side).outermost?
        side.opposite with
    | some inner => rfl
    | none =>
      dsimp only
      rw [Path.beforeLast?_cons]
      cases path.beforeLast? side.opposite with
      | some above => rfl
      | none => cases side <;> cases turn <;> rfl

def Steps (side : Side) (tree : Tree α) (path : Path) (key : α) : Option Path → Prop
  | none => tree.beyond side path = []
  | some next => ∃ other, tree.keyAt? next = some other ∧
      tree.beyond side path = other :: tree.beyond side next ∧
      tree.beyond side.opposite next = key :: tree.beyond side.opposite path

theorem steps_inner (side : Side) (left : Tree α) (key : α) (balance : Int) (right : Tree α) :
    (node left key balance right).Steps side [] key
      ((node left key balance right).neighbour? side []) := by
  have inner := outermost?_spec side.opposite ((node left key balance right).child side)
  rw [neighbour?]
  simp only [descend]
  cases outermost : ((node left key balance right).child side).outermost? side.opposite with
  | none =>
    rw [outermost] at inner
    show ((node left key balance right).child side).toward side = []
    rw [inner]
    cases side <;> rfl
  | some path =>
    rw [outermost] at inner
    obtain ⟨⟨other, here⟩, nothing⟩ := inner
    have different : side ≠ side.opposite := by cases side <;> decide
    refine ⟨other, here, ?_, ?_⟩
    · show ((node left key balance right).child side).toward side = _
      rw [toward_eq side here, nothing, List.nil_append, beyond, if_pos rfl, List.append_nil]
      rfl
    · rw [List.nil_append, beyond, beyond, nothing, if_neg different]
      rfl

theorem steps_root {side : Side} {path : Path} {key : α} {left : Tree α} {root : α} {balance : Int}
    {right : Tree α}
    (inside : ((node left root balance right).child side.opposite).keyAt? path = some key)
    (last : ((node left root balance right).child side.opposite).beyond side path = []) :
    (node left root balance right).Steps side (side.opposite :: path) key (some []) := by
  have different : side.opposite ≠ side := by cases side <;> decide
  refine ⟨root, rfl, ?_, ?_⟩
  · rw [beyond, beyond, last, if_neg different]
    rfl
  · rw [beyond, beyond, if_pos rfl, List.append_nil, toward_opposite, toward_eq side inside, last]
    simp

theorem neighbour?_spec {side : Side} {tree : Tree α} {path : Path} {key : α}
    (found : tree.keyAt? path = some key) :
    tree.Steps side path key (tree.neighbour? side path) := by
  induction path generalizing tree with
  | nil =>
    cases tree with
    | leaf => cases found
    | node left root balance right =>
      cases found
      exact steps_inner side left key balance right
  | cons turn path ih =>
    cases tree with
    | leaf => cases (keyAt?_leaf _).symm.trans found
    | node left root balance right =>
      have inside : ((node left root balance right).child turn).keyAt? path = some key := found
      have inner := @ih ((node left root balance right).child turn) inside
      rw [neighbour?_cons inside]
      cases step : ((node left root balance right).child turn).neighbour? side path with
      | some next =>
        rw [step] at inner
        obtain ⟨other, here, listed, back⟩ := inner
        refine ⟨other, here, ?_, ?_⟩
        · rw [beyond, beyond, listed]
          rfl
        · rw [beyond, beyond, back]
          rfl
      | none =>
        rw [step] at inner
        have last : ((node left root balance right).child turn).beyond side path = [] := inner
        by_cases same : turn = side
        · simp only [if_pos same]
          show (node left root balance right).beyond side (turn :: path) = []
          rw [beyond, last, if_pos same]
          rfl
        · simp only [if_neg same]
          obtain rfl : turn = side.opposite := by
            cases turn <;> cases side <;> first | rfl | exact absurd rfl same
          exact steps_root inside last

/-! ## Bounds -/

theorem mem_toward (side : Side) {tree : Tree α} {element : α} :
    element ∈ tree.toward side ↔ element ∈ tree.toList := by
  cases side with
  | left => exact List.mem_reverse
  | right => rfl

theorem bound?_node (meets : α → Bool) (side : Side) (left : Tree α) (key : α) (balance : Int)
    (right : Tree α) :
    (node left key balance right).bound? meets side =
      if meets key then
        some ((((node left key balance right).child side).bound? meets side).elim [] (side :: ·))
      else (((node left key balance right).child side.opposite).bound? meets side).map
        (side.opposite :: ·) := by
  cases side <;> cases met : meets key <;> simp [bound?, met, child, Side.opposite]

def Bounds (meets : α → Bool) (side : Side) (tree : Tree α) : Option Path → Prop
  | none => ∀ element ∈ tree.toList, meets element = false
  | some path => ∃ key, tree.keyAt? path = some key ∧ meets key = true ∧
      ∀ element ∈ tree.beyond side path, meets element = false

theorem bounds_beyond {meets : α → Bool} {side : Side} {left : Tree α} {key : α} {balance : Int}
    {right : Tree α} {search : Option Path} (met : meets key = true)
    (found : ((node left key balance right).child side).Bounds meets side search) :
    (node left key balance right).Bounds meets side (some (search.elim [] (side :: ·))) := by
  cases search with
  | none => exact ⟨key, rfl, met, fun element member => found element ((mem_toward side).1 member)⟩
  | some path =>
    obtain ⟨bound, here, holds, nothing⟩ := found
    refine ⟨bound, here, holds, ?_⟩
    rw [Option.elim_some, beyond, if_pos rfl, List.append_nil]
    exact nothing

theorem bounds_before {meets : α → Bool} {side : Side} {left : Tree α} {key : α} {balance : Int}
    {right : Tree α} {search : Option Path} (missed : meets key = false)
    (passed : ∀ element ∈ ((node left key balance right).child side).toList,
      meets element = false)
    (found : ((node left key balance right).child side.opposite).Bounds meets side search) :
    (node left key balance right).Bounds meets side (search.map (side.opposite :: ·)) := by
  cases search with
  | none =>
    intro element member
    have back : side.opposite.opposite = side := by cases side <;> rfl
    rw [← mem_toward side.opposite, toward_node, back] at member
    rcases List.mem_append.1 member with member | member
    · exact passed element ((mem_toward _).1 member)
    · rcases List.mem_cons.1 member with rfl | member
      · exact missed
      · exact found element ((mem_toward _).1 member)
  | some path =>
    obtain ⟨bound, here, holds, nothing⟩ := found
    refine ⟨bound, here, holds, fun element member => ?_⟩
    have turned : side.opposite ≠ side := by cases side <;> decide
    rw [beyond, if_neg turned] at member
    rcases List.mem_append.1 member with member | member
    · exact nothing element member
    · rcases List.mem_cons.1 member with rfl | member
      · exact missed
      · exact passed element ((mem_toward _).1 member)

theorem bound?_spec {meets : α → Bool} {side : Side} {tree : Tree α}
    (monotone : (tree.toward side.opposite).Pairwise fun first second =>
      meets first = true → meets second = true) :
    tree.Bounds meets side (tree.bound? meets side) := by
  -- The condition comes to hold once on the way to the other side, and holds from there on.
  induction tree with
  | leaf => simp [bound?, Bounds, toList]
  | node left key balance right ihLeft ihRight =>
    have back : side.opposite.opposite = side := by cases side <;> rfl
    rw [toward_node, back, List.pairwise_append, List.pairwise_cons] at monotone
    obtain ⟨nearer, ⟨onward, further⟩, across⟩ := monotone
    have inner : ∀ turn, (((node left key balance right).child turn).toward side.opposite).Pairwise
        (fun first second => meets first = true → meets second = true) →
        ((node left key balance right).child turn).Bounds meets side
          (((node left key balance right).child turn).bound? meets side) := by
      intro turn
      cases turn with
      | left => exact ihLeft
      | right => exact ihRight
    rw [bound?_node]
    cases met : meets key with
    | true =>
      rw [if_pos rfl]
      exact bounds_beyond met (inner side nearer)
    | false =>
      rw [if_neg Bool.false_ne_true]
      refine bounds_before met (fun element member => ?_) (inner side.opposite further)
      -- The child on this side comes before the key, where the condition does not hold yet.
      have reached := across element ((mem_toward side.opposite).2 member) key List.mem_cons_self
      simpa [met] using reached

end Tree

end AttributeIndex
