import AttributeIndex.Proofs.OrderedSet.Guarded
import AttributeIndex.Proofs.OrderedSet.Walk
import AttributeIndex.Proofs.Table.Requests

namespace AttributeIndex

open AttributeIndex.Action

namespace Sequence

variable {α : Type}

/-- A position on a list: a gap with so many elements before it, an element, or none any more. -/
inductive Spot (cmp : α → α → Ordering) (list : List α)
  | gap (index : Fin (list.length + 1))
  | element (index : Fin list.length)
  | closed

namespace Spot

variable {cmp : α → α → Ordering} {list : List α}

def isAvailable : Spot cmp list → Bool
  | element _ => true
  | _ => false

def isClosed : Spot cmp list → Bool
  | closed => true
  | _ => false

def before (key : α) : Spot cmp list :=
  gap ⟨list.findIdx fun element => cmp element key != .lt,
    Nat.lt_succ_of_le List.findIdx_le_length⟩

def after (key : α) : Spot cmp list :=
  gap ⟨list.length - list.reverse.findIdx fun element => cmp element key != .gt,
    Nat.lt_succ_of_le (Nat.sub_le ..)⟩

def elementOr (index : Nat) (edge : Fin (list.length + 1)) : Spot cmp list :=
  if inside : index < list.length then element ⟨index, inside⟩ else gap edge

theorem elementOr_of_lt {index : Nat} {edge : Fin (list.length + 1)} (inside : index < list.length) :
    (elementOr index edge : Spot cmp list) = element ⟨index, inside⟩ :=
  dif_pos inside

theorem elementOr_of_le {index : Nat} {edge : Fin (list.length + 1)} (outside : list.length ≤ index) :
    (elementOr index edge : Spot cmp list) = gap edge :=
  dif_neg (Nat.not_lt.2 outside)

def elementBefore : (count : Nat) → Spot cmp list
  | 0 => gap 0
  | index + 1 => elementOr index 0

def ahead : Spot cmp list → Spot cmp list
  | gap index => elementOr index (Fin.last _)
  | element index => elementOr (index + 1) (Fin.last _)
  | closed => closed

def back : Spot cmp list → Spot cmp list
  | gap index => elementBefore index
  | element index => elementBefore index
  | closed => closed

def move (target : Spot cmp list → Spot cmp list) : Action (Spot cmp list) Error Bool :=
  fun spot =>
    if spot.isClosed then (.error (.closed OrderedSet.Walk.label), spot)
    else (.ok (target spot).isAvailable, target spot)

def wait (target : Spot cmp list) : Action (Spot cmp list) Error Unit :=
  fun spot =>
    if spot.isClosed then (.error (.closed OrderedSet.Walk.label), spot) else (.ok (), target)

def get : Spot cmp list → Except Error α
  | element index => .ok (list.get index)
  | gap _ => .error (.invalidPosition OrderedSet.Walk.label)
  | closed => .error (.closed OrderedSet.Walk.label)

instance : Cursor (Spot cmp list) α where
  isAvailable := isAvailable
  before key := wait (before key)
  after key := wait (after key)
  beforeFirst := wait (gap 0)
  afterLast := wait (gap (Fin.last _))
  first := move fun _ => elementOr 0 0
  last := move fun _ => elementBefore list.length
  previous := move back
  next := move ahead
  get := get
  isElementReused _ := true
  close := update fun _ => closed
  isClosed := isClosed
  extent _ := list.length

end Spot

end Sequence

open Sequence

/-! ## Paths and indices -/

namespace Tree

variable {α : Type} {tree : Tree α} {path : Path} {path? : Option Path} {index count : Nat}

structure At (tree : Tree α) (path : Path) (index : Nat) : Prop where
  exists_key : ∃ key, tree.keyAt? path = some key
  length_eq : (tree.beyond .left path).length = index

def Reaches (tree : Tree α) (index : Nat) : Option Path → Prop
  | none => tree.toList.length ≤ index
  | some path => tree.At path index

def ReachesBefore (tree : Tree α) : (count : Nat) → Option Path → Prop
  | 0, path? => path? = none
  | index + 1, path? => index < tree.toList.length ∧ tree.Reaches index path?

theorem toList_eq {key : α} (found : tree.keyAt? path = some key) :
    tree.toList = (tree.beyond .left path).reverse ++ key :: tree.beyond .right path :=
  toward_eq .right found

theorem At.keyAt?_eq (here : tree.At path index) : tree.keyAt? path = tree.toList[index]? := by
  obtain ⟨⟨key, found⟩, rfl⟩ := here
  rw [found, toList_eq found]
  simp

theorem At.lt (here : tree.At path index) : index < tree.toList.length := by
  obtain ⟨⟨key, found⟩, rfl⟩ := here
  simp [toList_eq found]

theorem At.right (here : tree.At path index) :
    tree.Reaches (index + 1) (tree.neighbour? .right path) := by
  obtain ⟨⟨key, found⟩, rfl⟩ := here
  have step : tree.Steps .right path key (tree.neighbour? .right path) := neighbour?_spec found
  cases neighbour : tree.neighbour? .right path with
  | none =>
    rw [neighbour] at step
    have nothing : tree.beyond .right path = [] := step
    simp [Reaches, toList_eq found, nothing]
  | some next =>
    rw [neighbour] at step
    obtain ⟨other, there, -, behind⟩ := step
    exact ⟨⟨other, there⟩, congrArg List.length behind⟩

theorem At.left (here : tree.At path index) :
    tree.ReachesBefore index (tree.neighbour? .left path) := by
  have inside := here.lt
  obtain ⟨⟨key, found⟩, rfl⟩ := here
  have step : tree.Steps .left path key (tree.neighbour? .left path) := neighbour?_spec found
  cases neighbour : tree.neighbour? .left path with
  | none =>
    rw [neighbour] at step
    have nothing : tree.beyond .left path = [] := step
    simp [ReachesBefore, nothing]
  | some next =>
    rw [neighbour] at step
    obtain ⟨other, there, listed, -⟩ := step
    rw [listed] at inside ⊢
    exact ⟨Nat.lt_of_succ_lt inside, ⟨other, there⟩, rfl⟩

theorem reaches_leftmost (tree : Tree α) : tree.Reaches 0 (tree.outermost? .left) := by
  have spec := outermost?_spec .left tree
  cases outermost : tree.outermost? .left with
  | none =>
    rw [outermost] at spec
    simp [Reaches, show tree = leaf from spec, toList]
  | some path =>
    rw [outermost] at spec
    exact ⟨spec.1, congrArg List.length spec.2⟩

theorem reaches_rightmost (tree : Tree α) :
    tree.ReachesBefore tree.toList.length (tree.outermost? .right) := by
  have spec := outermost?_spec .right tree
  cases outermost : tree.outermost? .right with
  | none =>
    rw [outermost] at spec
    simp [ReachesBefore, show tree = leaf from spec, toList]
  | some path =>
    rw [outermost] at spec
    obtain ⟨⟨key, found⟩, nothing⟩ := spec
    have length_eq : tree.toList.length = (tree.beyond .left path).length + 1 := by
      simp [toList_eq found, nothing]
    rw [length_eq]
    exact ⟨by omega, ⟨key, found⟩, rfl⟩

theorem reaches_bound {meets : α → Bool}
    (monotone : tree.toList.Pairwise fun first second => meets first = true → meets second = true) :
    tree.Reaches (tree.toList.findIdx meets) (tree.bound? meets .left) := by
  have spec : tree.Bounds meets .left (tree.bound? meets .left) := bound?_spec monotone
  cases bound : tree.bound? meets .left with
  | none =>
    rw [bound] at spec
    have nowhere : tree.toList.findIdx meets = tree.toList.length :=
      List.findIdx_eq_length.2 spec
    exact Nat.le_of_eq nowhere.symm
  | some path =>
    rw [bound] at spec
    obtain ⟨key, found, holds, before⟩ := spec
    refine ⟨⟨key, found⟩, ?_⟩
    have passed : (tree.beyond .left path).reverse.findIdx meets =
        (tree.beyond .left path).reverse.length :=
      List.findIdx_eq_length.2 fun element member => before element (List.mem_reverse.1 member)
    rw [toList_eq found, List.findIdx_append, passed, if_neg (Nat.lt_irrefl _)]
    simp [List.findIdx_cons, holds]

end Tree

namespace Sequence

variable {α : Type} {cmp : α → α → Ordering} {list : List α}

theorem length_sub_findIdx_reverse {meets : α → Bool}
    (monotone : list.Pairwise fun first second => meets first = true → meets second = true) :
    list.length - list.reverse.findIdx (fun element => !meets element) = list.findIdx meets := by
  induction list with
  | nil => rfl
  | cons head tail ih =>
    obtain ⟨onward, monotone⟩ := List.pairwise_cons.1 monotone
    have shorter := ih monotone
    rw [List.reverse_cons, List.findIdx_append, List.length_cons, List.length_reverse]
    cases met : meets head with
    | true =>
      have failing : tail.reverse.findIdx (fun element => !meets element) = tail.length := by
        rw [← List.length_reverse, List.findIdx_eq_length]
        intro element member
        simp [onward element (List.mem_reverse.1 member) met]
      have alone : [head].findIdx (fun element => !meets element) = 1 := by
        simp [List.findIdx_cons, met]
      have first : (head :: tail).findIdx meets = 0 := by simp [List.findIdx_cons, met]
      rw [failing, if_neg (Nat.lt_irrefl _), alone, first]
      omega
    | false =>
      have bound : tail.reverse.findIdx (fun element => !meets element) ≤ tail.reverse.length :=
        List.findIdx_le_length
      rw [List.length_reverse] at bound
      simp only [List.findIdx_cons, met, Bool.not_false, cond_true, cond_false]
      split <;> omega

theorem lt_or_gt [Std.TransCmp cmp] (ascending : Ascending cmp list) (target : α) :
    list.Pairwise fun lower upper => cmp target upper = .lt ∨ cmp target lower = .gt := by
  refine ascending.imp fun {lower upper} below => ?_
  cases order : cmp target lower with
  | gt => exact .inr rfl
  | lt => exact .inl (Std.TransCmp.lt_trans order below)
  | eq => exact .inl (Std.TransCmp.lt_of_eq_of_lt order below)

theorem ceiling_monotone [Std.TransCmp cmp] (ascending : Ascending cmp list) (key : α) :
    list.Pairwise fun first second => (cmp key first != .gt) = true → (cmp key second != .gt) = true := by
  refine (lt_or_gt ascending key).imp ?_
  rintro first second (past | short) reached
  · simp [past]
  · simp [short] at reached

theorem above_monotone [Std.TransCmp cmp] (ascending : Ascending cmp list) (key : α) :
    list.Pairwise fun first second => (cmp key first == .lt) = true → (cmp key second == .lt) = true := by
  refine (lt_or_gt ascending key).imp ?_
  rintro first second (past | short) reached
  · simp [past]
  · simp [short] at reached

end Sequence

/-! ## Walks -/

namespace OrderedSet

variable {α : Type} {cmp : α → α → Ordering} {set : OrderedSet α cmp}

theorem Ordered.reaches_before [Std.TransCmp cmp] (ordered : set.Ordered) (key : α) :
    set.tree.Reaches (set.toList.findIdx fun element => cmp element key != .lt)
      (set.ceiling? key) := by
  have reached := Tree.reaches_bound (ceiling_monotone ordered.ascending key)
  have turned : (fun element => cmp element key != .lt) = fun element => cmp key element != .gt := by
    funext element
    have swapped : cmp element key = (cmp key element).swap := Std.OrientedCmp.eq_swap
    rw [swapped]
    cases cmp key element <;> rfl
  rw [turned]
  exact reached

theorem Ordered.reaches_after [Std.TransCmp cmp] (ordered : set.Ordered) (key : α) :
    set.tree.Reaches
      (set.toList.length - set.toList.reverse.findIdx fun element => cmp element key != .gt)
      (set.above? key) := by
  have monotone := above_monotone ordered.ascending key
  have reached := Tree.reaches_bound monotone
  have turned : (fun element => cmp element key != .gt) = fun element => !(cmp key element == .lt) := by
    funext element
    have swapped : cmp element key = (cmp key element).swap := Std.OrientedCmp.eq_swap
    rw [swapped]
    cases cmp key element <;> rfl
  rw [turned, length_sub_findIdx_reverse monotone]
  exact reached

namespace Walk

/-- A gap with elements behind it is kept as the path of the first of them. -/
inductive Marks (set : OrderedSet α cmp) : Position → Spot cmp set.toList → Prop
  | beforeFirst : Marks set .beforeFirst (.gap 0)
  | afterLast : Marks set .afterLast (.gap (Fin.last _))
  | on {path : Path} {index : Fin set.toList.length} (here : set.tree.At path index) :
    Marks set (.on path) (.element index)
  | gap {path : Path} {index : Fin set.toList.length} (here : set.tree.At path index) :
    Marks set (.gap (some path)) (.gap index.castSucc)
  | behindAll : Marks set (.gap none) (.gap (Fin.last _))
  | closed : Marks set .closed .closed

structure Shows (set : OrderedSet α cmp) (walk : Walk α cmp) (spot : Spot cmp set.toList) : Prop where
  set_eq : walk.set = set
  marks : Marks set walk.position spot

variable {walk : Walk α cmp} {position : Position} {spot : Spot cmp set.toList}

theorem shows_start (set : OrderedSet α cmp) : Shows set (start set) (.gap 0) :=
  ⟨rfl, .beforeFirst⟩

theorem marks_land {path? : Option Path} {edge : Position} {index : Nat}
    {gap : Fin (set.toList.length + 1)} (reaches : set.tree.Reaches index path?)
    (waits : Marks set edge (.gap gap)) : Marks set (land path? edge) (.elementOr index gap) := by
  cases path? with
  | none =>
    have outside : set.toList.length ≤ index := reaches
    rw [Spot.elementOr_of_le outside]
    exact waits
  | some path =>
    have inside : index < set.toList.length := reaches.lt
    rw [Spot.elementOr_of_lt inside]
    exact .on reaches

theorem marks_landBefore {path? : Option Path} {edge : Position} {count : Nat}
    (reaches : set.tree.ReachesBefore count path?) (waits : count = 0 → Marks set edge (.gap 0)) :
    Marks set (land path? edge) (.elementBefore count) := by
  cases count with
  | zero =>
    rw [show path? = none from reaches]
    exact waits rfl
  | succ index =>
    have inside : index < set.toList.length := reaches.1
    obtain ⟨-, reaches⟩ := reaches
    cases path? with
    | none => exact absurd inside (Nat.not_lt.2 reaches)
    | some path =>
      rw [Spot.elementBefore, Spot.elementOr_of_lt inside]
      exact .on reaches

theorem Marks.bound {path? : Option Path} {index : Nat} (inside : index < set.toList.length + 1)
    (reaches : set.tree.Reaches index path?) : Marks set (.gap path?) (.gap ⟨index, inside⟩) := by
  cases path? with
  | none =>
    have last : (⟨index, inside⟩ : Fin (set.toList.length + 1)) = Fin.last _ :=
      Fin.ext (Nat.le_antisymm (Nat.le_of_lt_succ inside) reaches)
    rw [last]
    exact .behindAll
  | some path =>
    have here : set.tree.At path (⟨index, reaches.lt⟩ : Fin set.toList.length) := reaches
    exact .gap here

namespace Shows

theorem isAvailable_eq (shows : Shows set walk spot) : walk.isAvailable = spot.isAvailable := by
  obtain ⟨snapshot, position⟩ := walk
  obtain ⟨-, marks⟩ := shows
  cases marks <;> rfl

theorem isClosed_eq (shows : Shows set walk spot) : walk.isClosed = spot.isClosed := by
  obtain ⟨snapshot, position⟩ := walk
  obtain ⟨-, marks⟩ := shows
  cases marks <;> rfl

theorem get_eq (shows : Shows set walk spot) : walk.get = spot.get := by
  obtain ⟨snapshot, position⟩ := walk
  obtain ⟨rfl, marks⟩ := shows
  cases marks with
  | on here =>
    have found := here.keyAt?_eq
    rw [List.getElem?_eq_getElem here.lt] at found
    simp only [Walk.get, OrderedSet.keyAt?, found]
    rfl
  | _ => rfl

theorem wait_agree (shows : Shows set walk spot) {target : Walk α cmp → Position}
    {place : Spot cmp set.toList} (marks : Marks set (target walk) place) :
    Agree (Shows set) (Walk.wait target) (Spot.wait place) walk spot := by
  unfold Agree Walk.wait Spot.wait
  rw [shows.isClosed_eq]
  split
  · exact ⟨rfl, shows⟩
  · exact ⟨rfl, shows.set_eq, marks⟩

theorem move_agree (shows : Shows set walk spot) {target : Walk α cmp → Position}
    {place : Spot cmp set.toList → Spot cmp set.toList}
    (marks : walk.isClosed = false → Marks set (target walk) (place spot)) :
    Agree (Shows set) (Walk.move target) (Spot.move place) walk spot := by
  unfold Agree Walk.move Spot.move
  rw [← shows.isClosed_eq]
  split
  · exact ⟨rfl, shows⟩
  · rename_i opened
    have moved : Shows set { walk with position := target walk } (place spot) :=
      ⟨shows.set_eq, marks (by simpa using opened)⟩
    exact ⟨congrArg Except.ok moved.isAvailable_eq, moved⟩

theorem ahead_marks (shows : Shows set walk spot) (opened : walk.isClosed = false) :
    Marks set walk.ahead spot.ahead := by
  obtain ⟨snapshot, position⟩ := walk
  obtain ⟨rfl, marks⟩ := shows
  have ended : snapshot.tree.Reaches snapshot.toList.length none := Nat.le_refl _
  cases marks with
  | beforeFirst => exact marks_land (Tree.reaches_leftmost _) .afterLast
  | on here => exact marks_land here.right .afterLast
  | @gap path index here =>
    have there : snapshot.tree.Reaches index (some path) := here
    exact marks_land there .afterLast
  | afterLast => exact marks_land ended .afterLast
  | behindAll => exact marks_land ended .afterLast
  | closed => cases opened

theorem back_marks (shows : Shows set walk spot) (opened : walk.isClosed = false) :
    Marks set walk.back spot.back := by
  obtain ⟨snapshot, position⟩ := walk
  obtain ⟨rfl, marks⟩ := shows
  cases marks with
  | beforeFirst => exact .beforeFirst
  | on here => exact marks_landBefore here.left fun _ => .beforeFirst
  | gap here => exact marks_landBefore here.left fun _ => .beforeFirst
  | afterLast => exact marks_landBefore (Tree.reaches_rightmost _) fun _ => .beforeFirst
  | behindAll => exact marks_landBefore (Tree.reaches_rightmost _) fun _ => .beforeFirst
  | closed => cases opened

end Shows

theorem simulates [Std.TransCmp cmp] (ordered : set.Ordered) :
    Cursor.Simulates (Shows set) where
  isAvailable_eq shows := shows.isAvailable_eq
  before key shows := shows.wait_agree (by
    rw [shows.set_eq]
    exact .bound _ (ordered.reaches_before key))
  after key shows := shows.wait_agree (by
    rw [shows.set_eq]
    exact .bound _ (ordered.reaches_after key))
  beforeFirst shows := shows.wait_agree .beforeFirst
  afterLast shows := shows.wait_agree .afterLast
  first shows := shows.move_agree fun _ => by
    rw [shows.set_eq]
    exact marks_land (Tree.reaches_leftmost _) .beforeFirst
  last shows := shows.move_agree fun _ => by
    rw [shows.set_eq]
    refine marks_landBefore (Tree.reaches_rightmost _) fun empty => ?_
    have only : (0 : Fin (set.toList.length + 1)) = Fin.last _ := Fin.ext empty.symm
    rw [only]
    exact .afterLast
  previous shows := shows.move_agree shows.back_marks
  next shows := shows.move_agree shows.ahead_marks
  get_eq shows := shows.get_eq
  isElementReused_eq _ := rfl
  close shows := ⟨rfl, shows.set_eq, .closed⟩
  isClosed_eq shows := shows.isClosed_eq

/-- A fresh walk over a set that came from any changes answers every sequence of calls as a cursor on
the list of its elements does that starts in the first gap. -/
theorem outcomes_eq_spot [Std.TransCmp cmp] (changes : List (Change α))
    (steps : List (Cursor.Step α)) :
    let set : OrderedSet α cmp := empty.changeAll changes
    (outcomes Cursor.Step.perform steps (start set)).1 =
      (outcomes Cursor.Step.perform steps (Spot.gap 0 : Spot cmp set.toList)).1 := by
  intro set
  have ordered : set.Ordered := (sound_empty.changeAll changes).toOrdered
  exact ((simulates ordered).outcomes_agree (shows_start set) steps).1

theorem outcomes_eq_spot_turning :
    Std.TransCmp (compareOn fun number : Nat => number % 10) ∧
      let set : OrderedSet Nat (compareOn fun number => number % 10) :=
        empty.changeAll [.insert 13, .insert 5, .insert 21, .insert 27, .erase 31]
      (outcomes Cursor.Step.perform [.before 35, .previous, .get, .next, .after 95, .previous, .get,
        .next, .next, .get, .previous, .close, .next, .close] (start set)).1 =
        [.ok .done, .ok (.flag true), .ok (.element 13), .ok (.flag true), .ok .done,
          .ok (.flag true), .ok (.element 5), .ok (.flag true), .ok (.flag false),
          .error (.invalidPosition label), .ok (.flag true), .ok .done, .error (.closed label),
          .ok .done] :=
  ⟨inferInstance, (outcomes_eq_spot _ _).trans rfl⟩

end Walk

end OrderedSet

end AttributeIndex
