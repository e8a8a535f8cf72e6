import AttributeIndex.Proofs.OrderedSet.Balance

namespace AttributeIndex

namespace Tree

variable {α : Type}

/-- At every node the left side has as many nodes as the right one, or one more. -/
def Halved : Tree α → Prop
  | leaf => True
  | node left _ _ right =>
    right.size ≤ left.size ∧ left.size ≤ right.size + 1 ∧ left.Halved ∧ right.Halved

theorem size_build {count : Nat} {keys : List α} (enough : count ≤ keys.length) :
    (build count keys).1.size = count := by
  rw [← length_toList, (build_eq count keys enough).1, List.length_take]
  omega

theorem build_halved (count : Nat) (keys : List α) (enough : count ≤ keys.length) :
    (build count keys).1.Halved := by
  induction count using Nat.strongRecOn generalizing keys with
  | ind count ih =>
    rcases Nat.eq_zero_or_pos count with rfl | positive
    · rw [build, if_pos rfl]
      trivial
    · obtain ⟨key, rest, more, -, built⟩ := build_node positive enough
      have leftEnough : count / 2 ≤ keys.length := by omega
      rw [built]
      refine ⟨?_, ?_, ih _ (by omega) keys leftEnough, ih _ (by omega) rest more⟩
      · rw [size_build leftEnough, size_build more]
        omega
      · rw [size_build leftEnough, size_build more]
        omega

theorem size_eq_log2 {count : Nat} (positive : count ≠ 0) : Nat.size count = Nat.log2 count + 1 :=
  Nat.le_antisymm (Nat.size_le.2 Nat.lt_log2_self) (Nat.lt_size.2 (Nat.log2_self_le positive))

end Tree

namespace OrderedSet

variable {α : Type} {cmp : α → α → Ordering}

/-- A set can be built from a run exactly if every element is below all later ones. Its sequence is
the run, its balances are right, and its tree is cut in half at every node and no higher than needed. -/
theorem ofSorted_exact [Std.TransCmp cmp] (items : List α) :
    ((∃ set : OrderedSet α cmp, ofSorted items = .ok set) ↔
        items.Pairwise fun first second => cmp first second = .lt) ∧
      ∀ set : OrderedSet α cmp, ofSorted items = .ok set →
        set.toList = items ∧ set.size = items.length ∧ set.tree.size = items.length ∧
          set.tree.Balanced ∧ set.tree.Halved ∧
          (items ≠ [] → set.tree.height = Nat.log2 items.length + 1) := by
  constructor
  · constructor
    · rintro ⟨set, built⟩
      obtain ⟨ordered, listed⟩ := ofSorted_ok built
      exact listed ▸ ordered.ascending
    · exact ofSorted_of
  · intro set built
    obtain ⟨ordered, listed⟩ := ofSorted_ok built
    obtain ⟨balanced, high, -⟩ := Tree.build_balanced items.length items (Nat.le_refl _)
    have shape : set.tree = (Tree.build items.length items).1 := by
      unfold ofSorted at built
      split at built
      · cases built
      · cases built
        rfl
    rw [shape]
    refine ⟨listed, by rw [ordered.size_eq, listed], Tree.size_build (Nat.le_refl _), balanced,
      Tree.build_halved items.length items (Nat.le_refl _), fun nonempty => ?_⟩
    rw [high, Tree.size_eq_log2 (mt List.length_eq_zero_iff.1 nonempty)]

theorem ofSorted_exact_lastDigit :
    Std.TransCmp (compareOn fun number : Nat => number % 10) ∧
      ∃ set : OrderedSet Nat (compareOn fun number => number % 10),
        ofSorted [20, 11, 32, 13, 54, 5] = .ok set ∧ set.tree.Halved ∧ set.tree.Balanced ∧
          set.tree.height = 3 ∧
          set.tree.preorder = [(13, 0), (11, 0), (20, 0), (32, 0), (5, -1), (54, 0)] := by
  obtain ⟨accepted, shape⟩ := @ofSorted_exact Nat (compareOn fun n => n % 10) _ [20, 11, 32, 13, 54, 5]
  obtain ⟨set, built⟩ := accepted.2 (by decide)
  obtain ⟨-, -, -, balanced, halved, high⟩ := shape set built
  refine ⟨inferInstance, set, built, halved, balanced, (high (by decide)).trans (by decide), ?_⟩
  cases built
  decide +kernel

end OrderedSet

end AttributeIndex
