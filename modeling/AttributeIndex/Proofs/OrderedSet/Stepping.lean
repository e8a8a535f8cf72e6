import AttributeIndex.Proofs.OrderedSet.Position

namespace AttributeIndex.Tree

variable {α : Type}

/-! ## The paths of a tree -/

def paths : Tree α → List Path
  | leaf => []
  | node left _ _ right =>
    left.paths.map (Side.left :: ·) ++ [] :: right.paths.map (Side.right :: ·)

def pathsToward (side : Side) (tree : Tree α) : List Path :=
  match side with
  | .left => tree.paths.reverse
  | .right => tree.paths

theorem keyAt?_paths (tree : Tree α) : tree.paths.map tree.keyAt? = tree.toList.map some := by
  induction tree with
  | leaf => rfl
  | node left key balance right ihLeft ihRight =>
    have onLeft : (node left key balance right).keyAt? ∘ (Side.left :: ·) = left.keyAt? := rfl
    have onRight : (node left key balance right).keyAt? ∘ (Side.right :: ·) = right.keyAt? := rfl
    rw [paths, List.map_append, List.map_cons, List.map_map, List.map_map, onLeft, onRight, ihLeft,
      ihRight, toList, List.map_append, List.map_cons]
    rfl

theorem length_paths (tree : Tree α) : tree.paths.length = tree.toList.length := by
  simpa using congrArg List.length tree.keyAt?_paths

theorem mem_paths {tree : Tree α} {path : Path} :
    path ∈ tree.paths ↔ ∃ key, tree.keyAt? path = some key := by
  induction tree generalizing path with
  | leaf => simp [paths, keyAt?_leaf]
  | node left key balance right ihLeft ihRight =>
    rw [paths, List.mem_append, List.mem_cons, List.mem_map, List.mem_map]
    cases path with
    | nil => simp [keyAt?, descend, root?]
    | cons turn path =>
      cases turn with
      | left =>
        have inside : (node left key balance right).keyAt? (.left :: path) = left.keyAt? path := rfl
        rw [inside, ← ihLeft]
        simp
      | right =>
        have inside : (node left key balance right).keyAt? (.right :: path) = right.keyAt? path := rfl
        rw [inside, ← ihRight]
        simp

theorem nodup_paths (tree : Tree α) : tree.paths.Nodup := by
  induction tree with
  | leaf => exact .nil
  | node left key balance right ihLeft ihRight =>
    have extended : ∀ (turn : Side) {list : List Path}, list.Nodup → (list.map (turn :: ·)).Nodup :=
      fun turn _ nodup => List.pairwise_map.2
        (nodup.imp fun different same => different (List.tail_eq_of_cons_eq same))
    rw [paths, List.nodup_append, List.nodup_cons]
    refine ⟨extended .left ihLeft, ⟨by simp, extended .right ihRight⟩, ?_⟩
    simp only [List.mem_map, List.mem_cons]
    rintro _ ⟨path, -, rfl⟩ _ (rfl | ⟨other, -, rfl⟩) <;> simp

theorem getElem?_paths {tree : Tree α} {path : Path} {key : α} (found : tree.keyAt? path = some key) :
    tree.paths[(tree.beyond .left path).length]? = some path := by
  induction path generalizing tree with
  | nil =>
    cases tree with
    | leaf => cases found
    | node left root balance right =>
      have before : ((node left root balance right).beyond .left []).length = left.paths.length := by
        rw [length_paths]
        exact List.length_reverse
      rw [before, paths, List.getElem?_append_right (by simp)]
      simp
  | cons turn path ih =>
    cases tree with
    | leaf => cases (keyAt?_leaf _).symm.trans found
    | node left root balance right =>
      have inner := @ih ((node left root balance right).child turn) found
      cases turn with
      | left =>
        have before : ((node left root balance right).beyond .left (.left :: path)).length =
            (left.beyond .left path).length := by
          simp [beyond, child]
        have inside : (left.beyond .left path).length < left.paths.length :=
          (List.getElem?_eq_some_iff.1 inner).1
        rw [before, paths, List.getElem?_append_left (by simpa using inside), List.getElem?_map]
        exact congrArg (Option.map _) inner
      | right =>
        have before : ((node left root balance right).beyond .left (.right :: path)).length =
            left.paths.length + ((right.beyond .left path).length + 1) := by
          simp [beyond, child, toward, length_paths]
          omega
        rw [before, paths, List.getElem?_append_right (by simp), List.length_map,
          Nat.add_sub_cancel_left, List.getElem?_cons_succ, List.getElem?_map]
        exact congrArg (Option.map _) inner

theorem at_iff {tree : Tree α} {path : Path} {index : Nat} :
    tree.At path index ↔ tree.paths[index]? = some path := by
  constructor
  · rintro ⟨⟨key, found⟩, rfl⟩
    exact getElem?_paths found
  · intro here
    obtain ⟨key, found⟩ := mem_paths.1 (List.mem_of_getElem? here)
    have inside := (List.getElem?_eq_some_iff.1 here).1
    refine ⟨⟨key, found⟩, ?_⟩
    exact ((List.getElem?_inj inside tree.nodup_paths).1 (here.trans (getElem?_paths found).symm)).symm

theorem reaches_iff {tree : Tree α} {index : Nat} {path? : Option Path} :
    tree.Reaches index path? ↔ path? = tree.paths[index]? := by
  cases path? with
  | none => rw [eq_comm, List.getElem?_eq_none_iff, length_paths]; rfl
  | some path => rw [eq_comm]; exact at_iff

theorem pathsToward_opposite (side : Side) (tree : Tree α) :
    tree.pathsToward side.opposite = (tree.pathsToward side).reverse := by
  cases side with
  | left => exact (List.reverse_reverse _).symm
  | right => rfl

theorem getElem?_pathsToward_left {tree : Tree α} {index : Nat} (inside : index < tree.paths.length) :
    (tree.pathsToward .left)[tree.paths.length - 1 - index]? = tree.paths[index]? := by
  rw [pathsToward, List.getElem?_reverse (by omega)]
  congr 1
  omega

theorem mem_pathsToward {side : Side} {tree : Tree α} {path : Path} :
    path ∈ tree.pathsToward side ↔ ∃ key, tree.keyAt? path = some key := by
  rw [← mem_paths]
  cases side with
  | left => exact List.mem_reverse
  | right => rfl

theorem outermost?_eq (side : Side) (tree : Tree α) :
    tree.outermost? side.opposite = (tree.pathsToward side)[0]? := by
  cases side with
  | right => exact reaches_iff.1 tree.reaches_leftmost
  | left =>
    have reaches := tree.reaches_rightmost
    rw [← length_paths] at reaches
    cases count : tree.paths.length with
    | zero =>
      rw [count] at reaches
      have nothing : tree.outermost? .right = none := reaches
      simp [pathsToward, List.length_eq_zero_iff.1 count, nothing, Side.opposite]
    | succ last =>
      rw [count] at reaches
      have here := reaches_iff.1 reaches.2
      rw [← getElem?_pathsToward_left (by omega), count] at here
      simpa [Side.opposite] using here

theorem neighbour?_eq {side : Side} {tree : Tree α} {path : Path} {index : Nat}
    (here : (tree.pathsToward side)[index]? = some path) :
    tree.neighbour? side path = (tree.pathsToward side)[index + 1]? := by
  cases side with
  | right => exact reaches_iff.1 (at_iff.2 here).right
  | left =>
    have inside : index < tree.paths.length := by
      simpa [pathsToward] using (List.getElem?_eq_some_iff.1 here).1
    rw [pathsToward, List.getElem?_reverse inside] at here
    have reaches := (at_iff.2 here).left
    cases before : tree.paths.length - 1 - index with
    | zero =>
      rw [before] at reaches
      have nothing : tree.neighbour? .left path = none := reaches
      rw [nothing, eq_comm, List.getElem?_eq_none_iff, pathsToward, List.length_reverse]
      omega
    | succ count =>
      rw [before] at reaches
      have next := reaches_iff.1 reaches.2
      rw [next, ← getElem?_pathsToward_left (by omega)]
      congr 1
      omega

/-! ## Steps and walks -/

def walk (side : Side) (tree : Tree α) : (limit : Nat) → Path → List Path
  | 0, _ => []
  | limit + 1, path =>
    match tree.step side path with
    | (true, next) => path :: tree.walk side limit next
    | (false, _) => [path]

def walkThrough (side : Side) (tree : Tree α) (limit : Nat) : List Path :=
  (tree.outermost? side.opposite).elim [] (tree.walk side limit)

variable {side : Side} {tree : Tree α} {path next : Path} {index : Nat}

theorem step_of_lt (here : (tree.pathsToward side)[index]? = some path)
    (inside : index + 1 < (tree.pathsToward side).length) :
    tree.step side path = (true, (tree.pathsToward side)[index + 1]) := by
  rw [step, neighbour?_eq here, List.getElem?_eq_getElem inside]

theorem step_of_le (here : (tree.pathsToward side)[index]? = some path)
    (outside : (tree.pathsToward side).length ≤ index + 1) :
    tree.step side path = (false, path) := by
  rw [step, neighbour?_eq here, List.getElem?_eq_none outside]

theorem exists_of_step (stepped : tree.step side path = (true, next)) :
    ∃ index, (tree.pathsToward side)[index]? = some path ∧
      (tree.pathsToward side)[index + 1]? = some next := by
  have moved : tree.neighbour? side path = some next := by
    unfold step at stepped
    split at stepped
    · rename_i found
      cases stepped
      exact found
    · cases stepped
  have present : ∃ key, tree.keyAt? path = some key := by
    unfold neighbour? at moved
    unfold keyAt?
    split at moved
    · cases moved
    · rename_i reached
      rw [reached]
      exact ⟨_, rfl⟩
  obtain ⟨index, here⟩ := List.getElem?_of_mem (mem_pathsToward.2 present)
  exact ⟨index, here, (neighbour?_eq here).symm.trans moved⟩

theorem step_back (stepped : tree.step side path = (true, next)) :
    tree.step side.opposite next = (true, path) := by
  obtain ⟨index, here, there⟩ := exists_of_step stepped
  have inside := (List.getElem?_eq_some_iff.1 there).1
  -- Seen from the other end, the path is the one after the next.
  have mirrored : ∀ position, position < (tree.pathsToward side).length →
      (tree.pathsToward side.opposite)[(tree.pathsToward side).length - 1 - position]? =
        (tree.pathsToward side)[position]? := by
    intro position within
    rw [pathsToward_opposite, List.getElem?_reverse (by omega)]
    congr 1
    omega
  have arrived := (mirrored (index + 1) inside).trans there
  have back := (mirrored index (by omega)).trans here
  rw [show (tree.pathsToward side).length - 1 - index =
    (tree.pathsToward side).length - 1 - (index + 1) + 1 by omega] at back
  rw [step, neighbour?_eq arrived, back]

theorem walk_eq (limit : Nat) (here : (tree.pathsToward side)[index]? = some path) :
    tree.walk side limit path = ((tree.pathsToward side).drop index).take limit := by
  induction limit generalizing path index with
  | zero => rfl
  | succ limit ih =>
    obtain ⟨inside, rfl⟩ := List.getElem?_eq_some_iff.1 here
    rw [walk, List.drop_eq_getElem_cons inside, List.take_succ_cons]
    by_cases further : index + 1 < (tree.pathsToward side).length
    · rw [step_of_lt here further]
      exact congrArg _ (ih (List.getElem?_eq_getElem further))
    · rw [step_of_le here (Nat.not_lt.1 further), List.drop_eq_nil_iff.2 (Nat.not_lt.1 further),
        List.take_nil]

theorem walkThrough_eq (side : Side) (tree : Tree α) (limit : Nat) :
    tree.walkThrough side limit = (tree.pathsToward side).take limit := by
  rw [walkThrough, outermost?_eq]
  cases listed : (tree.pathsToward side)[0]? with
  | none =>
    have nothing := List.getElem?_eq_none_iff.1 listed
    simp [List.eq_nil_of_length_eq_zero (Nat.le_zero.1 nothing)]
  | some path => exact walk_eq limit listed

theorem keyAt?_pathsToward (side : Side) (tree : Tree α) :
    (tree.pathsToward side).map tree.keyAt? = (tree.toward side).map some := by
  cases side with
  | left => simp [pathsToward, toward, keyAt?_paths]
  | right => exact tree.keyAt?_paths

theorem nodup_pathsToward (side : Side) (tree : Tree α) : (tree.pathsToward side).Nodup := by
  cases side with
  | left => exact List.pairwise_reverse.2 (tree.nodup_paths.imp Ne.symm)
  | right => exact tree.nodup_paths

/-- Towards either side, a step from the node at an index leads to the next one, or stays at the last;
a step to the other side leads back. A walk from end to end meets the elements in order, and every
node of the tree once. -/
theorem step_exact (side : Side) (tree : Tree α) :
    (∀ index path, (tree.pathsToward side)[index]? = some path →
      tree.step side path =
        if inside : index + 1 < (tree.pathsToward side).length then
          (true, (tree.pathsToward side)[index + 1])
        else (false, path)) ∧
      (∀ path next, tree.step side path = (true, next) →
        tree.step side.opposite next = (true, path)) ∧
      (∀ limit, tree.walkThrough side limit = (tree.pathsToward side).take limit) ∧
      (tree.pathsToward side).map tree.keyAt? = (tree.toward side).map some ∧
      (tree.pathsToward side).Nodup ∧
      ∀ path, path ∈ tree.pathsToward side ↔ ∃ key, tree.keyAt? path = some key := by
  refine ⟨fun index path here => ?_, fun _ _ => step_back, tree.walkThrough_eq side,
    tree.keyAt?_pathsToward side, tree.nodup_pathsToward side, fun _ => mem_pathsToward⟩
  split
  · rename_i inside
    exact step_of_lt here inside
  · rename_i outside
    exact step_of_le here (Nat.not_lt.1 outside)

theorem step_exact_ascending :
    let tree : Tree Nat := .node (.node .leaf 1 0 (.node .leaf 2 0 (.node .leaf 2 0 .leaf))) 3 0 .leaf
    (tree.pathsToward .right)[2]? = some [.left, .right, .right] ∧
      tree.step .right [.left, .right, .right] = (true, []) ∧
      tree.step .left [] = (true, [.left, .right, .right]) ∧
      tree.step .right [] = (false, []) ∧
      (tree.walkThrough .right 4).map tree.keyAt? = [some 1, some 2, some 2, some 3] := by
  intro tree
  obtain ⟨steps, back, walk, _⟩ := step_exact .right tree
  have up : tree.step .right [.left, .right, .right] = (true, []) := steps 2 _ rfl
  exact ⟨rfl, up, back _ _ up, steps 3 [] rfl, by rw [walk]; rfl⟩

end AttributeIndex.Tree
