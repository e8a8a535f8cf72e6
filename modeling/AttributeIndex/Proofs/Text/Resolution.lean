import AttributeIndex.FileTree
import AttributeIndex.Proofs.Outcome
import AttributeIndex.Proofs.Text.FileName

namespace AttributeIndex

namespace FileName

def go (way : List String) (name : String) : List String :=
  if name = "" ∨ name = "." then way
  else if name = ".." then way.dropLast
  else way ++ [name]

/-- The names on the way to a path, which starts at the current directory if the path is relative. -/
def resolve (current : List String) (path : String) : List String :=
  (components path).foldl go (if isAbsolute path then [] else current)

/-! ## Joined paths -/

theorem splitSlashes_append (front rest : List Char) :
    splitSlashes (front ++ '/' :: rest) = splitSlashes front ++ splitSlashes rest := by
  induction front with
  | nil => rfl
  | cons char front ih =>
    rw [List.cons_append, splitSlashes, splitSlashes, ih]
    split
    · rfl
    · cases split : splitSlashes front with
      | nil => exact absurd split (splitSlashes_ne_nil front)
      | cons first pieces => rfl

theorem components_append_slash (front rest : String) :
    components (front ++ "/" ++ rest) = components front ++ components rest := by
  rw [components, String.toList_append, String.toList_append, List.append_assoc]
  exact (congrArg _ (splitSlashes_append ..)).trans List.map_append

theorem components_of_endsInSlash {directory : String} (slash : endsInSlash directory = true) :
    ∃ front, directory = front ++ "/" ∧ components directory = components front ++ [""] := by
  obtain ⟨front, whole⟩ := List.getLast?_eq_some_iff.1 (of_decide_eq_true slash)
  have cut : directory = String.ofList front ++ "/" := by
    apply String.toList_inj.1
    rw [whole, String.toList_append, String.toList_ofList]
    rfl
  have behind := components_append_slash (String.ofList front) ""
  rw [String.append_empty, ← cut] at behind
  exact ⟨String.ofList front, cut, behind⟩

theorem isAbsolute_append {directory : String} (nonempty : directory.isEmpty = false)
    (path : String) : isAbsolute (directory ++ path) = isAbsolute directory := by
  have letters : directory.toList ≠ [] := by simpa using nonempty
  rw [isAbsolute, isAbsolute, String.toList_append, List.head?_append_of_ne_nil _ letters]

theorem resolve_join {path : String} (relative : isAbsolute path = false) (current : List String)
    (directory : String) :
    resolve current (join directory path) =
      (components path).foldl go (resolve current directory) := by
  rw [join, if_neg (Bool.eq_false_iff.1 relative)]
  cases empty : directory.isEmpty with
  | true =>
    obtain rfl : directory = "" := by simpa using empty
    have here : resolve current "" = current := rfl
    rw [here, Bool.true_or, if_pos rfl, String.empty_append, resolve, relative]
    rfl
  | false =>
    cases slash : endsInSlash directory with
    | true =>
      -- The last component of the directory is empty, and the path takes its place.
      obtain ⟨front, cut, behind⟩ := components_of_endsInSlash slash
      have whole : components (directory ++ path) = components front ++ components path := by
        rw [cut, components_append_slash]
      rw [Bool.or_true, if_pos rfl, resolve, resolve, isAbsolute_append empty, whole, behind,
        List.foldl_append, List.foldl_append]
      rfl
    | false =>
      rw [Bool.or_false, if_neg Bool.false_ne_true, resolve, resolve, components_append_slash,
        List.foldl_append, String.append_assoc, isAbsolute_append empty]

theorem isAbsolute_of_plain {name : String} (plain : '/' ∉ name.toList) : isAbsolute name = false :=
  decide_eq_false fun first => plain (List.mem_of_mem_head? first)

theorem resolve_join_of_plain {name : String} (plain : '/' ∉ name.toList) (current : List String)
    (directory : String) :
    resolve current (join directory name) = go (resolve current directory) name := by
  rw [resolve_join (isAbsolute_of_plain plain), components_of_plain plain]
  rfl

end FileName

namespace FileTree

open FileName

def Place.way (place : Place) : List String :=
  (place.above.map (·.1)).reverse

theorem Place.way_enter {place inner : Place} {name : String} (named : name ≠ "")
    (entered : place.enter name = .ok inner) : inner.way = go place.way name := by
  unfold Place.enter at entered
  unfold go
  split at entered
  · rename_i here
    cases entered
    rw [if_pos (.inr here)]
  · rename_i other
    rw [if_neg (by simp [named, other])]
    split at entered
    · rename_i up
      cases entered
      rw [if_pos up]
      obtain ⟨entries, above⟩ := place
      cases above <;> simp [Place.ascend, Place.way]
    · rename_i down
      rw [if_neg down]
      obtain ⟨found, -, entered⟩ := bind_eq_ok.1 entered
      split at entered
      · cases entered
      · cases entered
      · cases entered
        simp [Place.descend, Place.way]

theorem Place.way_foldlM {names : List String} {place inner : Place} (named : "" ∉ names)
    (entered : names.foldlM Place.enter place = .ok inner) :
    inner.way = names.foldl go place.way := by
  induction names generalizing place with
  | nil =>
    cases entered
    rfl
  | cons name names ih =>
    obtain ⟨first, others⟩ := not_or.1 (mt List.mem_cons.2 named)
    rw [List.foldlM_cons] at entered
    obtain ⟨next, stepped, entered⟩ := bind_eq_ok.1 entered
    rw [ih others entered, Place.way_enter (Ne.symm first) stepped, List.foldl_cons]

theorem way_follow {tree : FileTree} {path : String} {place : Place}
    (followed : tree.follow path = .ok place) : place.way = resolve [] path := by
  obtain ⟨-, -, entered⟩ := bind_eq_ok.1 followed
  rw [Place.way_foldlM (by simp [names]) entered, names, List.foldl_filter, resolve, ite_self]
  apply List.foldl_ext
  intro way name _
  by_cases empty : name = "" <;> simp [empty, go]

end FileTree

end AttributeIndex
