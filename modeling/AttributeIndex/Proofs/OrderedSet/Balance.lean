import AttributeIndex.Proofs.OrderedSet.Sequence
import Mathlib.Data.Nat.Size

namespace AttributeIndex.Tree

variable {α : Type}

/-- Every stored balance is the height of the right side less that of the left, and at most one. -/
def Balanced : Tree α → Prop
  | leaf => True
  | node left _ balance right =>
    balance = right.height - left.height ∧ -1 ≤ balance ∧ balance ≤ 1 ∧
      left.Balanced ∧ right.Balanced

/-! ## Mirror images -/

def mirror : Tree α → Tree α
  | leaf => leaf
  | node left key balance right => node right.mirror key (-balance) left.mirror

@[simp]
theorem mirror_mirror (tree : Tree α) : tree.mirror.mirror = tree := by
  induction tree <;> simp_all [mirror]

@[simp]
theorem height_mirror (tree : Tree α) : tree.mirror.height = tree.height := by
  induction tree <;> simp_all [mirror, height, Nat.max_comm]

@[simp]
theorem balance_mirror (tree : Tree α) : tree.mirror.balance = -tree.balance := by
  cases tree <;> simp [mirror, balance]

theorem Balanced.mirror {tree : Tree α} (balanced : tree.Balanced) : tree.mirror.Balanced := by
  induction tree with
  | leaf => trivial
  | node left key balance right ihLeft ihRight =>
    obtain ⟨exact, low, high, leftBalanced, rightBalanced⟩ := balanced
    refine ⟨?_, by omega, by omega, ihRight rightBalanced, ihLeft leftBalanced⟩
    simp only [height_mirror]
    omega

theorem mirror_rotateLeft (tree : Tree α) : tree.rotateLeft.mirror = tree.mirror.rotateRight := by
  rcases tree with _ | ⟨left, key, balance, _ | ⟨inner, pivot, pivotBalance, outer⟩⟩
  · rfl
  · rfl
  · simp only [rotateLeft, mirror, rotateRight, node.injEq, true_and, and_true]
    omega

theorem mirror_rotateRight (tree : Tree α) : tree.rotateRight.mirror = tree.mirror.rotateLeft := by
  have turned := congrArg mirror (mirror_rotateLeft tree.mirror)
  simpa using turned.symm

theorem mirror_rebalance (tree : Tree α) : tree.rebalance.mirror = tree.mirror.rebalance := by
  cases tree with
  | leaf => rfl
  | node left key balance right =>
    have turn : (node left key balance right).mirror = node right.mirror key (-balance) left.mirror :=
      rfl
    rw [turn, rebalance, rebalance]
    by_cases low : balance < -1
    · have lowMirror : ¬ -balance < -1 := by omega
      have highMirror : 1 < -balance := by omega
      simp only [low, lowMirror, highMirror, if_true, if_false, mirror_rotateRight, mirror,
        apply_ite mirror, mirror_rotateLeft, balance_mirror, Int.neg_neg_iff_pos]
    · by_cases high : 1 < balance
      · have lowMirror : -balance < -1 := by omega
        simp only [low, high, lowMirror, if_true, if_false, mirror_rotateRight, mirror,
          apply_ite mirror, mirror_rotateLeft, balance_mirror, Int.neg_pos]
      · have lowMirror : ¬ -balance < -1 := by omega
        have highMirror : ¬ 1 < -balance := by omega
        simp only [low, high, lowMirror, highMirror, if_false, mirror]

theorem rebalance_single (left : Tree α) (key : α) (inner : Tree α) (pivot : α)
    {pivotBalance : Int} (outer : Tree α) (low : 0 ≤ pivotBalance) (high : pivotBalance ≤ 1) :
    (node left key 2 (node inner pivot pivotBalance outer)).rebalance =
      node (node left key (1 - pivotBalance) inner) pivot (pivotBalance - 1) outer := by
  rw [rebalance, if_neg (by decide), if_pos (by decide), balance, if_neg (by omega), rotateLeft]
  simp only [node.injEq, true_and, and_true]
  omega

theorem rebalance_double (left : Tree α) (key : α) (lower : Tree α) (root : α) (rootBalance : Int)
    (upper : Tree α) (pivot : α) (outer : Tree α) :
    (node left key 2 (node (node lower root rootBalance upper) pivot (-1) outer)).rebalance =
      node (node left key (-max rootBalance 0) lower) root 0
        (node upper pivot (-min rootBalance 0) outer) := by
  rw [rebalance, if_neg (by decide), if_pos (by decide), balance, if_pos (by decide), rotateRight,
    rotateLeft]
  simp only [node.injEq, true_and, and_true]
  omega

structure Rebalanced (side : Int) (before after : Tree α) : Prop where
  balanced : after.Balanced
  height_eq : after.height + (if after.balance = 0 then 1 else 0) = before.height
  even : side ≠ 0 → after.balance = 0

theorem rebalance_right {left right : Tree α} (key : α) (leftBalanced : left.Balanced)
    (rightBalanced : right.Balanced) (taller : right.height = left.height + 2) :
    Rebalanced right.balance (node left key 2 right) (node left key 2 right).rebalance := by
  rcases right with _ | ⟨inner, pivot, pivotBalance, outer⟩
  · simp [height] at taller
  obtain ⟨exact, low, high, innerBalanced, outerBalanced⟩ := rightBalanced
  simp only [height] at taller
  by_cases outward : 0 ≤ pivotBalance
  · rw [rebalance_single _ _ _ _ _ outward high]
    constructor
    · simp only [Balanced, height, innerBalanced, outerBalanced, leftBalanced, and_true]
      omega
    · obtain rfl | rfl : pivotBalance = 0 ∨ pivotBalance = 1 := by omega
      · simp [height, balance]
        omega
      · simp [height, balance]
        omega
    · simp only [balance]
      omega
  · obtain rfl : pivotBalance = -1 := by omega
    rcases inner with _ | ⟨lower, root, rootBalance, upper⟩
    · simp [height] at exact
    obtain ⟨innerExact, innerLow, innerHigh, lowerBalanced, upperBalanced⟩ := innerBalanced
    simp only [height] at exact taller
    rw [rebalance_double]
    constructor
    · simp only [Balanced, height, lowerBalanced, upperBalanced, leftBalanced, outerBalanced,
        and_true]
      omega
    · simp only [height, balance, if_true]
      omega
    · simp [balance]

/-! ## Insertion -/

structure Grown (before : Tree α) (after : Insertion α) : Prop where
  balanced : after.tree.Balanced
  height_eq : after.tree.height = before.height + if after.grew then 1 else 0
  leans : after.grew = true → after.tree.balance = 0 → before = leaf

theorem mirror_afterGrowth (inserted grew : Bool) (tree : Tree α) :
    afterGrowth inserted grew tree.mirror =
      { afterGrowth inserted grew tree with tree := (afterGrowth inserted grew tree).tree.mirror } := by
  have even : -tree.balance = 0 ↔ tree.balance = 0 := by omega
  have leaning : -tree.balance = -1 ∨ -tree.balance = 1 ↔ tree.balance = -1 ∨ tree.balance = 1 := by
    omega
  simp only [afterGrowth, balance_mirror, even, leaning, ← mirror_rebalance]
  split
  · rfl
  · split
    · rfl
    · split <;> rfl

theorem Grown.mirror {before : Tree α} {after : Insertion α} (grown : Grown before after) :
    Grown before.mirror { after with tree := after.tree.mirror } where
  balanced := grown.balanced.mirror
  height_eq := by simpa using grown.height_eq
  leans rose even := by
    have even : after.tree.balance = 0 := by simpa using even
    rw [grown.leans rose even]
    rfl

theorem Grown.right {left right : Tree α} {root : α} {balance : Int} {after : Insertion α}
    (grown : Grown right after) (balanced : (node left root balance right).Balanced) :
    Grown (node left root balance right) (afterGrowth after.inserted after.grew
      (node left root (if after.grew then balance + 1 else balance) after.tree)) := by
  obtain ⟨tree, inserted, grew⟩ := after
  obtain ⟨treeBalanced, taller, leans⟩ := grown
  obtain ⟨exact, low, high, leftBalanced, -⟩ := balanced
  dsimp only at treeBalanced taller leans ⊢
  cases grew with
  | false =>
    rw [if_neg Bool.false_ne_true, Nat.add_zero] at taller
    refine ⟨⟨by simpa [taller] using exact, low, high, leftBalanced, treeBalanced⟩, ?_, by simp [afterGrowth]⟩
    simp [afterGrowth, height, taller]
  | true =>
    simp only [if_true] at taller ⊢
    obtain rfl | rfl | rfl : balance = -1 ∨ balance = 0 ∨ balance = 1 := by omega
    · refine ⟨⟨?_, by decide, by decide, leftBalanced, treeBalanced⟩, ?_, by simp [afterGrowth, Tree.balance]⟩
      · omega
      · simp [afterGrowth, Tree.balance, height]
        omega
    · refine ⟨⟨?_, by decide, by decide, leftBalanced, treeBalanced⟩, ?_, by simp [afterGrowth, Tree.balance]⟩
      · omega
      · simp [afterGrowth, Tree.balance, height]
        omega
    · have risen : right ≠ leaf := by
        rintro rfl
        simp only [height] at exact
        omega
      obtain ⟨settled, lowered, even⟩ :=
        rebalance_right root leftBalanced treeBalanced (by omega)
      rw [if_pos (even fun same => risen (leans rfl same))] at lowered
      simp only [height] at lowered
      refine ⟨settled, ?_, by simp [afterGrowth, Tree.balance]⟩
      simp [afterGrowth, Tree.balance, height]
      omega

theorem Grown.left {left right : Tree α} {root : α} {balance : Int} {after : Insertion α}
    (grown : Grown left after) (balanced : (node left root balance right).Balanced) :
    Grown (node left root balance right) (afterGrowth after.inserted after.grew
      (node after.tree root (if after.grew then balance - 1 else balance) right)) := by
  have turned := grown.mirror.right balanced.mirror
  have same : node right.mirror root (if after.grew then -balance + 1 else -balance) after.tree.mirror =
      (node after.tree root (if after.grew then balance - 1 else balance) right).mirror := by
    simp only [Tree.mirror, node.injEq, true_and, and_true]
    split <;> omega
  dsimp only at turned
  rw [same, mirror_afterGrowth] at turned
  have back := turned.mirror
  simp only [Tree.mirror, mirror_mirror, Int.neg_neg] at back
  exact back

theorem insert_grown (cmp : α → α → Ordering) (key : α) {tree : Tree α} (balanced : tree.Balanced) :
    Grown tree (tree.insert cmp key) := by
  induction tree with
  | leaf => exact ⟨by simp [insert, Balanced, height], rfl, fun _ _ => rfl⟩
  | node left root balance right ihLeft ihRight =>
    obtain ⟨-, -, -, leftBalanced, rightBalanced⟩ := id balanced
    rw [insert]
    cases cmp key root with
    | eq => exact ⟨balanced, rfl, by simp⟩
    | lt => exact (ihLeft leftBalanced).left balanced
    | gt => exact (ihRight rightBalanced).right balanced

/-! ## Removal -/

structure Shrunk (before : Tree α) (after : Tree α × Bool) : Prop where
  balanced : after.1.Balanced
  height_eq : after.1.height + (if after.2 then 1 else 0) = before.height

theorem mirror_afterShrinkage (tree : Tree α) :
    afterShrinkage tree.mirror = ((afterShrinkage tree).1.mirror, (afterShrinkage tree).2) := by
  have even : -tree.balance = 0 ↔ tree.balance = 0 := by omega
  have leaning : -tree.balance = -1 ∨ -tree.balance = 1 ↔ tree.balance = -1 ∨ tree.balance = 1 := by
    omega
  simp only [afterShrinkage, balance_mirror, even, leaning, ← mirror_rebalance]
  split
  · rfl
  · split
    · rfl
    · rw [Prod.mk.injEq, Bool.eq_iff_iff]
      simp

theorem Shrunk.mirror {before : Tree α} {after : Tree α × Bool} (shrunk : Shrunk before after) :
    Shrunk before.mirror (after.1.mirror, after.2) where
  balanced := shrunk.balanced.mirror
  height_eq := by simpa using shrunk.height_eq

theorem Shrunk.left {left right : Tree α} {root : α} {balance : Int} {after : Tree α × Bool}
    (shrunk : Shrunk left after) (key : α) (balanced : (node left root balance right).Balanced) :
    Shrunk (node left root balance right)
      (if after.2 then afterShrinkage (node after.1 key (balance + 1) right)
        else (node after.1 key balance right, false)) := by
  obtain ⟨shorter, reported⟩ := after
  obtain ⟨shorterBalanced, taller⟩ := shrunk
  obtain ⟨exact, low, high, -, rightBalanced⟩ := balanced
  dsimp only at shorterBalanced taller ⊢
  cases reported with
  | false =>
    rw [if_neg Bool.false_ne_true, Nat.add_zero] at taller
    refine ⟨⟨?_, low, high, shorterBalanced, rightBalanced⟩, ?_⟩
    · rw [taller, exact]
    · simp [height, taller]
  | true =>
    simp only [if_true] at taller ⊢
    obtain rfl | rfl | rfl : balance = -1 ∨ balance = 0 ∨ balance = 1 := by omega
    · refine ⟨⟨?_, by decide, by decide, shorterBalanced, rightBalanced⟩, ?_⟩
      · omega
      · simp [afterShrinkage, Tree.balance, height]
        omega
    · refine ⟨⟨?_, by decide, by decide, shorterBalanced, rightBalanced⟩, ?_⟩
      · omega
      · simp [afterShrinkage, Tree.balance, height]
        omega
    · obtain ⟨settled, lowered, -⟩ :=
        rebalance_right key shorterBalanced rightBalanced (by omega)
      have lowering : afterShrinkage (node shorter key 2 right) =
          ((node shorter key 2 right).rebalance,
            (node shorter key 2 right).rebalance.balance == 0) := rfl
      refine ⟨settled, ?_⟩
      simp only [height] at lowered
      simp only [Int.reduceAdd, lowering, beq_iff_eq, height]
      omega

theorem Shrunk.right {left right : Tree α} {root : α} {balance : Int} {after : Tree α × Bool}
    (shrunk : Shrunk right after) (key : α) (balanced : (node left root balance right).Balanced) :
    Shrunk (node left root balance right)
      (if after.2 then afterShrinkage (node left key (balance - 1) after.1)
        else (node left key balance after.1, false)) := by
  have turned := (shrunk.mirror.left key balanced.mirror).mirror
  have same : node after.1.mirror key (-balance + 1) left.mirror =
      (node left key (balance - 1) after.1).mirror := by
    simp only [Tree.mirror, node.injEq, true_and, and_true]
    omega
  rw [same, mirror_afterShrinkage] at turned
  cases reported : after.2 <;> simpa [Tree.mirror, reported] using turned

theorem takeFirst_shrunk {left right : Tree α} {key : α} {balance : Int}
    (balanced : (node left key balance right).Balanced) :
    Shrunk (node left key balance right) (takeFirst left key balance right).2 := by
  induction left generalizing key balance right with
  | leaf =>
    obtain ⟨-, -, -, -, rightBalanced⟩ := balanced
    exact ⟨rightBalanced, by simp [takeFirst, height, Nat.add_comm]⟩
  | node left root rootBalance inner ih _ =>
    obtain ⟨-, -, -, leftBalanced, -⟩ := id balanced
    have shrunk := (ih leftBalanced).left key balanced
    rw [takeFirst]
    revert shrunk
    rcases takeFirst left root rootBalance inner with ⟨first, shorter, _ | _⟩ <;> exact id

theorem withoutRoot_shrunk {left right : Tree α} {root : α} {balance : Int}
    (balanced : (node left root balance right).Balanced) :
    Shrunk (node left root balance right) (withoutRoot left balance right) := by
  obtain ⟨exact, low, high, leftBalanced, rightBalanced⟩ := id balanced
  cases left with
  | leaf => exact ⟨rightBalanced, by simp [withoutRoot, height, Nat.add_comm]⟩
  | node _ _ _ _ =>
    cases right with
    | leaf => exact ⟨leftBalanced, by simp [withoutRoot, height, Nat.add_comm]⟩
    | node inner next nextBalance outer =>
      have shrunk := (takeFirst_shrunk rightBalanced).right
        (takeFirst inner next nextBalance outer).1 balanced
      rw [withoutRoot]
      revert shrunk
      · rcases takeFirst inner next nextBalance outer with ⟨first, shorter, _ | _⟩ <;> exact id
      · simp

theorem erase_shrunk (cmp : α → α → Ordering) (key : α) {tree : Tree α} (balanced : tree.Balanced) :
    Shrunk tree ((tree.erase cmp key).tree, (tree.erase cmp key).shrunk) := by
  induction tree with
  | leaf => exact ⟨trivial, rfl⟩
  | node left root balance right ihLeft ihRight =>
    obtain ⟨-, -, -, leftBalanced, rightBalanced⟩ := id balanced
    rw [erase]
    cases cmp key root with
    | eq => exact withoutRoot_shrunk balanced
    | lt =>
      have shrunk := (ihLeft leftBalanced).left root balanced
      cases reported : (left.erase cmp key).shrunk <;> simpa [reported] using shrunk
    | gt =>
      have shrunk := (ihRight rightBalanced).right root balanced
      cases reported : (right.erase cmp key).shrunk <;> simpa [reported] using shrunk

theorem size_half (count : Nat) (positive : 0 < count) :
    Nat.size count = Nat.size (count / 2) + 1 ∧
      Nat.size (count - count / 2 - 1) ≤ Nat.size (count / 2) ∧
      Nat.size (count / 2) ≤ Nat.size (count - count / 2 - 1) + 1 := by
  have spelled : Nat.bit (count.testBit 0) (count / 2) = count := by
    have bits := Nat.bit_testBit_zero_shiftRight_one count
    rwa [Nat.shiftRight_one] at bits
  refine ⟨?_, Nat.size_le_size (by omega), ?_⟩
  · have positive : Nat.bit (count.testBit 0) (count / 2) ≠ 0 := by omega
    have bits := Nat.size_bit positive
    rwa [spelled] at bits
  · have below := Nat.lt_size_self (count - count / 2 - 1)
    rw [Nat.size_le, Nat.pow_succ]
    omega

theorem build_balanced (count : Nat) (keys : List α) (enough : count ≤ keys.length) :
    (build count keys).1.Balanced ∧ (build count keys).1.height = Nat.size count ∧
      (build count keys).2.1 = Nat.size count := by
  -- Both sides get about half of the keys, so the induction is a strong one.
  induction count using Nat.strongRecOn generalizing keys with
  | ind count ih =>
    rcases Nat.eq_zero_or_pos count with rfl | positive
    · rw [build, if_pos rfl]
      exact ⟨trivial, by simp [height], by simp⟩
    · obtain ⟨key, rest, more, -, built⟩ := build_node positive enough
      obtain ⟨whole, low, high⟩ := size_half count positive
      obtain ⟨leftBalanced, leftHigh, leftReported⟩ := ih (count / 2) (by omega) keys (by omega)
      obtain ⟨rightBalanced, rightHigh, rightReported⟩ :=
        ih (count - count / 2 - 1) (by omega) rest more
      rw [built, leftReported, rightReported]
      refine ⟨⟨?_, ?_, ?_, leftBalanced, rightBalanced⟩, ?_, ?_⟩
      · rw [leftHigh, rightHigh]
      · omega
      · omega
      · rw [height, leftHigh, rightHigh]
        omega
      · dsimp only
        omega

end AttributeIndex.Tree
