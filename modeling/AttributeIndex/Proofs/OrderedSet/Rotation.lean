import AttributeIndex.Proofs.OrderedSet.Balance

namespace AttributeIndex.Tree

variable {α : Type}

def Exact : Tree α → Prop
  | leaf => True
  | node left _ balance right => balance = right.height - left.height ∧ left.Exact ∧ right.Exact

def join (left : Tree α) (key : α) (right : Tree α) : Tree α :=
  node left key (right.height - left.height) right

variable {tree taller left right inner outer : Tree α} {root pivot key : α}
  {balance pivotBalance : Int}

@[simp]
theorem exact_join : (join left key right).Exact ↔ left.Exact ∧ right.Exact :=
  and_iff_right rfl

theorem Exact.eq_join (exact : (node left key balance right).Exact) :
    node left key balance right = join left key right := by
  rw [join, exact.1]

theorem Exact.mirror (exact : tree.Exact) : tree.mirror.Exact := by
  induction tree with
  | leaf => trivial
  | node left key balance right ihLeft ihRight =>
    obtain ⟨due, leftExact, rightExact⟩ := exact
    refine ⟨?_, ihRight rightExact, ihLeft leftExact⟩
    rw [height_mirror, height_mirror, due, Int.neg_sub]

theorem mirror_join (left : Tree α) (key : α) (right : Tree α) :
    (join left key right).mirror = join right.mirror key left.mirror := by
  simp only [join, Tree.mirror, height_mirror, Int.neg_sub]

/-! ## Single rotations -/

theorem rotateLeft_join (left : Tree α) (root : α) (inner : Tree α) (pivot : α) (outer : Tree α) :
    (join left root (join inner pivot outer)).rotateLeft =
      join (join left root inner) pivot outer := by
  simp only [join, rotateLeft, height, node.injEq, true_and, and_true]
  omega

theorem rotateRight_join (outer : Tree α) (pivot : α) (inner : Tree α) (root : α) (right : Tree α) :
    (join (join outer pivot inner) root right).rotateRight =
      join outer pivot (join inner root right) := by
  have turned := congrArg Tree.mirror
    (rotateLeft_join right.mirror root inner.mirror pivot outer.mirror)
  simpa only [mirror_rotateLeft, mirror_join, mirror_mirror] using turned

theorem Exact.rotateLeft_eq
    (exact : (node left root balance (node inner pivot pivotBalance outer)).Exact) :
    (node left root balance (node inner pivot pivotBalance outer)).rotateLeft =
      join (join left root inner) pivot outer := by
  rw [exact.eq_join, exact.2.2.eq_join, rotateLeft_join]

theorem Exact.rotateRight_eq
    (exact : (node (node outer pivot pivotBalance inner) root balance right).Exact) :
    (node (node outer pivot pivotBalance inner) root balance right).rotateRight =
      join outer pivot (join inner root right) := by
  rw [exact.eq_join, exact.2.1.eq_join, rotateRight_join]

theorem Exact.rotateLeft (exact : tree.Exact) : tree.rotateLeft.Exact := by
  rcases tree with _ | ⟨left, root, balance, _ | ⟨inner, pivot, pivotBalance, outer⟩⟩
  · exact exact
  · exact exact
  · obtain ⟨-, leftExact, -, innerExact, outerExact⟩ := id exact
    rw [exact.rotateLeft_eq, exact_join, exact_join]
    exact ⟨⟨leftExact, innerExact⟩, outerExact⟩

theorem Exact.rotateRight (exact : tree.Exact) : tree.rotateRight.Exact := by
  have turned := exact.mirror.rotateLeft.mirror
  rwa [mirror_rotateLeft, mirror_mirror] at turned

/-! ## Evening out -/

/-- What evening out a node yields whose sides differ by two levels. -/
structure Evened (taller tree : Tree α) : Prop where
  balanced : tree.rebalance.Balanced
  height_eq : tree.height = tree.rebalance.height + if taller.balance = 0 then 0 else 1
  even_iff : tree.rebalance.balance = 0 ↔ taller.balance ≠ 0

theorem balance_rebalance_of_even (key : α) (even : right.balance = 0)
    (taller : right.height = left.height + 2) : (node left key 2 right).rebalance.balance = -1 := by
  cases right with
  | leaf =>
    simp only [height] at taller
    omega
  | node inner pivot pivotBalance outer =>
    obtain rfl : pivotBalance = 0 := even
    rw [rebalance_single left key inner pivot outer (by decide) (by decide)]
    rfl

theorem evened_right (key : α) (leftBalanced : left.Balanced) (rightBalanced : right.Balanced)
    (taller : right.height = left.height + 2) : Evened right (node left key 2 right) := by
  obtain ⟨balanced, lowered, leveled⟩ := rebalance_right key leftBalanced rightBalanced taller
  by_cases even : right.balance = 0
  · have tilted := balance_rebalance_of_even key even taller
    exact ⟨balanced, by simpa [tilted, even] using lowered.symm, by simp [tilted, even]⟩
  · have settled := leveled even
    exact ⟨balanced, by simpa [settled, even] using lowered.symm, by simp [settled, even]⟩

theorem Evened.mirror (evened : Evened taller tree) : Evened taller.mirror tree.mirror where
  balanced := mirror_rebalance tree ▸ evened.balanced.mirror
  height_eq := by simpa [← mirror_rebalance] using evened.height_eq
  even_iff := by simpa [← mirror_rebalance] using evened.even_iff

theorem evened_left (key : α) (leftBalanced : left.Balanced) (rightBalanced : right.Balanced)
    (taller : left.height = right.height + 2) : Evened left (node left key (-2) right) := by
  have turned := evened_right key rightBalanced.mirror leftBalanced.mirror (by simpa using taller)
  simpa [Tree.mirror] using turned.mirror

theorem evened_of_apart (key : α) (leftBalanced : left.Balanced) (rightBalanced : right.Balanced)
    (due : balance = right.height - left.height) (apart : balance = -2 ∨ balance = 2) :
    Evened (if balance < 0 then left else right) (node left key balance right) := by
  rcases apart with rfl | rfl
  · rw [if_pos (by decide)]
    exact evened_left key leftBalanced rightBalanced (by omega)
  · rw [if_neg (by decide)]
    exact evened_right key leftBalanced rightBalanced (by omega)

theorem Evened.afterShrinkage_eq (evened : Evened taller tree)
    (apart : tree.balance = -2 ∨ tree.balance = 2) :
    afterShrinkage tree = (tree.rebalance, decide (taller.balance ≠ 0)) := by
  rw [afterShrinkage, if_neg (by omega), if_neg (by omega), Prod.mk.injEq, Bool.eq_iff_iff,
    beq_iff_eq, decide_eq_true_iff]
  exact ⟨rfl, evened.even_iff⟩

/-- A rotation regroups the three sides of a tree with right balances of any size, keeps its sequence
and leaves the balances right. Evening out a node whose sides differ by two levels leaves a balanced
tree with the same sequence; its height is the old one exactly if the taller side was even, else one
less, and this is what settling it after a removal reports. -/
theorem rotations_exact :
    (∀ (left inner outer : Tree α) (root pivot : α) (balance pivotBalance : Int),
      let tree := node left root balance (node inner pivot pivotBalance outer)
      tree.Exact → tree.rotateLeft = join (join left root inner) pivot outer ∧
        tree.rotateLeft.toList = tree.toList ∧ tree.rotateLeft.Exact) ∧
    (∀ (outer inner right : Tree α) (pivot root : α) (pivotBalance balance : Int),
      let tree := node (node outer pivot pivotBalance inner) root balance right
      tree.Exact → tree.rotateRight = join outer pivot (join inner root right) ∧
        tree.rotateRight.toList = tree.toList ∧ tree.rotateRight.Exact) ∧
    ∀ (left right : Tree α) (root : α) (balance : Int),
      let tree := node left root balance right
      let taller := if balance < 0 then left else right
      left.Balanced → right.Balanced → balance = right.height - left.height →
        balance = -2 ∨ balance = 2 →
          tree.rebalance.toList = tree.toList ∧ tree.rebalance.Balanced ∧
            tree.height = tree.rebalance.height + (if taller.balance = 0 then 0 else 1) ∧
            afterShrinkage tree = (tree.rebalance, decide (taller.balance ≠ 0)) := by
  refine ⟨?_, ?_, ?_⟩
  · intro left inner outer root pivot balance pivotBalance tree exact
    exact ⟨exact.rotateLeft_eq, toList_rotateLeft tree, exact.rotateLeft⟩
  · intro outer inner right pivot root pivotBalance balance tree exact
    exact ⟨exact.rotateRight_eq, toList_rotateRight tree, exact.rotateRight⟩
  · intro left right root balance tree taller leftBalanced rightBalanced due apart
    have evened : Evened taller tree := evened_of_apart root leftBalanced rightBalanced due apart
    exact ⟨toList_rebalance tree, evened.balanced, evened.height_eq, evened.afterShrinkage_eq apart⟩

theorem rotations_exact_steep :
    let steep : Tree Nat := node leaf 1 3 (node (node leaf 2 1 (node leaf 3 0 leaf)) 4 (-2) leaf)
    let bent : Tree Nat := node (node leaf 5 1 (node leaf 6 0 leaf)) 7 (-2) leaf
    let even : Tree Nat := node leaf 5 2 (node (node leaf 6 0 leaf) 7 0 (node leaf 8 0 leaf))
    steep.Exact ∧ steep.rotateLeft.Exact ∧
      steep.rotateLeft.preorder = [(4, -3), (1, 2), (2, 1), (3, 0)] ∧
      steep.rotateLeft.rotateRight = steep ∧ steep.rotateLeft.rotateRight.Exact ∧
      bent.rebalance.Balanced ∧ bent.height = bent.rebalance.height + 1 ∧
      even.rebalance.Balanced ∧ even.height = even.rebalance.height := by
  intro steep bent even
  obtain ⟨turnLeft, turnRight, evenOut⟩ := rotations_exact (α := Nat)
  have steepExact : steep.Exact :=
    ⟨rfl, trivial, rfl, ⟨rfl, trivial, rfl, trivial, trivial⟩, trivial⟩
  obtain ⟨-, -, turned⟩ := turnLeft _ _ _ _ _ _ _ steepExact
  obtain ⟨-, -, back⟩ := turnRight _ _ _ _ _ _ _ turned
  obtain ⟨-, bentBalanced, lowered, -⟩ := evenOut (node leaf 5 1 (node leaf 6 0 leaf)) leaf 7 (-2)
    (by simp [Balanced, height]) trivial rfl (.inl rfl)
  obtain ⟨-, evenBalanced, kept, -⟩ :=
    evenOut leaf (node (node leaf 6 0 leaf) 7 0 (node leaf 8 0 leaf)) 5 2
      trivial (by simp [Balanced, height]) rfl (.inr rfl)
  exact ⟨steepExact, turned, rfl, rfl, back, bentBalanced, lowered, evenBalanced, kept⟩

end AttributeIndex.Tree
