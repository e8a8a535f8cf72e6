import AttributeIndex.OrderedSet.Walk
import AttributeIndex.Proofs.OrderedSet.Path
import AttributeIndex.Proofs.OrderedSet.Sequence

namespace AttributeIndex.OrderedSet.Walk

variable {α : Type} {cmp : α → α → Ordering}

inductive Ahead : Walk α cmp → List α → Prop
  | beforeFirst {set : OrderedSet α cmp} : Ahead ⟨set, .beforeFirst⟩ set.toList
  | on {set : OrderedSet α cmp} {path : Path} {key : α} (found : set.keyAt? path = some key) :
    Ahead ⟨set, .on path⟩ (set.tree.beyond .right path)

def Advances (walk : Walk α cmp) : List α → Prop
  | [] => (Cursor.advance walk).1 = none
  | element :: others => ∃ next, Cursor.advance walk = (some (.ok element), next) ∧ Ahead next others

theorem advance_of_ahead {walk : Walk α cmp} {rest : List α} (ahead : Ahead walk rest) :
    Advances walk rest := by
  have landed : ∀ {walk : Walk α cmp} {path : Path} {element : α}, walk.isClosed = false →
      walk.ahead = .on path → walk.set.keyAt? path = some element →
      Cursor.advance walk = (some (.ok element), ⟨walk.set, .on path⟩) := by
    intro walk path element opened moved found
    simp only [Cursor.advance, Cursor.next, move, opened, Bool.false_eq_true, if_false, moved,
      isAvailable, Cursor.get, get, found]
  have ended : ∀ {walk : Walk α cmp}, walk.isClosed = false → walk.ahead = .afterLast →
      (Cursor.advance walk).1 = none := by
    intro walk opened moved
    simp only [Cursor.advance, Cursor.next, move, opened, Bool.false_eq_true, if_false, moved,
      isAvailable]
  cases ahead with
  | @beforeFirst set =>
    have first := Tree.outermost?_spec .left set.tree
    cases outermost : set.tree.outermost? .left with
    | none =>
      rw [outermost] at first
      rw [show set.toList = [] from congrArg Tree.toList first]
      apply ended rfl
      simp only [Walk.ahead, firstPath?, outermost, land]
    | some path =>
      rw [outermost] at first
      obtain ⟨⟨key, found⟩, nothing⟩ := first
      have listed : set.toList = key :: set.tree.beyond .right path := by
        have around := Tree.toward_eq .right found
        rw [show Side.right.opposite = .left from rfl, nothing] at around
        exact around
      rw [listed]
      refine ⟨_, landed rfl ?_ found, .on found⟩
      simp only [Walk.ahead, firstPath?, outermost, land]
  | @on set path key found =>
    have step := (Tree.neighbour?_spec found : Tree.Steps .right set.tree path key _)
    cases neighbour : set.tree.neighbour? .right path with
    | none =>
      rw [neighbour] at step
      rw [show set.tree.beyond .right path = [] from step]
      apply ended rfl
      simp only [Walk.ahead, successor?, neighbour, land]
    | some next =>
      rw [neighbour] at step
      obtain ⟨other, here, listed, _⟩ := step
      rw [listed]
      refine ⟨_, landed rfl ?_ here, .on here⟩
      simp only [Walk.ahead, successor?, neighbour, land]

theorem items_of_ahead {walk : Walk α cmp} {rest : List α} (ahead : Ahead walk rest) {limit : Nat}
    (enough : rest.length < limit) : (Cursor.items limit walk).1 = rest.map .ok := by
  induction rest generalizing walk limit with
  | nil =>
    cases limit with
    | zero => exact absurd enough (Nat.not_lt_zero _)
    | succ limit =>
      have step : (Cursor.advance walk).1 = none := advance_of_ahead ahead
      rw [Cursor.items]
      cases advanced : Cursor.advance walk with
      | mk item next =>
        rw [advanced] at step
        obtain rfl := step
        rfl
  | cons element others ih =>
    cases limit with
    | zero => exact absurd enough (Nat.not_lt_zero _)
    | succ limit =>
      obtain ⟨next, advanced, further⟩ := advance_of_ahead ahead
      rw [Cursor.items, advanced]
      dsimp only
      rw [ih further (Nat.lt_of_succ_lt_succ enough)]
      rfl

theorem rest_start {set : OrderedSet α cmp} (ordered : set.Ordered) :
    (Cursor.rest (start set)).1 = set.toList.map .ok := by
  apply items_of_ahead .beforeFirst
  show set.toList.length < set.size + 1
  rw [ordered.size_eq]
  exact Nat.lt_succ_self _

end AttributeIndex.OrderedSet.Walk
