import AttributeIndex.Text.FileName
import Mathlib.Data.List.Basic
import Mathlib.Data.List.TakeWhile
import Mathlib.Data.String.Basic

namespace AttributeIndex.FileName

def extension? (path : String) : Option String :=
  let name := (last path).toList
  if name = ['.', '.'] then none
  else
    match name.reverse.dropWhile (· ≠ '.') with
    | [] | ['.'] => none
    | _ => some (String.ofList (name.reverse.takeWhile (· ≠ '.')).reverse)

theorem splitSlashes_ne_nil (text : List Char) : splitSlashes text ≠ [] := by
  cases text with
  | nil => simp [splitSlashes]
  | cons char rest =>
    rw [splitSlashes]
    split
    · simp
    · split <;> simp

theorem eq_of_splitSlashes_eq {text piece : List Char} (alone : splitSlashes text = [piece]) :
    piece = text := by
  induction text generalizing piece with
  | nil =>
    simp only [splitSlashes, List.cons.injEq, and_true] at alone
    exact alone.symm
  | cons char rest ih =>
    rw [splitSlashes] at alone
    split at alone
    · exact absurd (List.cons.inj alone).2 (splitSlashes_ne_nil rest)
    · cases split : splitSlashes rest with
      | nil => exact absurd split (splitSlashes_ne_nil rest)
      | cons first pieces =>
        rw [split] at alone
        obtain ⟨rfl, rfl⟩ := List.cons.inj alone
        rw [ih split]

theorem getLastD_splitSlashes_suffix (text : List Char) :
    (splitSlashes text).getLastD [] <:+ text := by
  induction text with
  | nil => exact List.suffix_rfl
  | cons char rest ih =>
    cases split : splitSlashes rest with
    | nil => exact absurd split (splitSlashes_ne_nil rest)
    | cons first pieces =>
      rw [split] at ih
      rw [splitSlashes, split]
      split
      · exact ih.trans (List.suffix_cons char rest)
      · cases pieces with
        | nil =>
          rw [eq_of_splitSlashes_eq split]
          exact List.suffix_rfl
        | cons second pieces => exact ih.trans (List.suffix_cons char rest)

theorem last_suffix (path : String) : (last path).toList <:+ path.toList := by
  have text : (last path).toList = (splitSlashes path.toList).getLastD [] := by
    rw [last, components, List.getLastD_map]
    exact String.toList_ofList
  rw [text]
  exact getLastD_splitSlashes_suffix path.toList

theorem toList_withExtension (path extension : String) :
    ∃ front, path.toList = front ++ (last path).toList ∧
      (withExtension path extension).toList = front ++
        if stem (last path).toList = ['.'] then ['.', '.']
        else stem (last path).toList ++ '.' :: extension.toList := by
  obtain ⟨front, whole⟩ := last_suffix path
  refine ⟨front, whole.symm, ?_⟩
  have directory : path.toList.take (path.length - (last path).toList.length) = front := by
    rw [← String.length_toList, ← whole]
    simp
  rw [withExtension]
  simp only [directory]
  split <;> simp [List.append_assoc]

theorem dropWhile_reverse (front : List Char) {extension : List Char} (plain : '.' ∉ extension) :
    (front ++ '.' :: extension).reverse.dropWhile (· ≠ '.') = '.' :: front.reverse ∧
      (front ++ '.' :: extension).reverse.takeWhile (· ≠ '.') = extension.reverse := by
  have turned : (front ++ '.' :: extension).reverse =
      extension.reverse ++ '.' :: front.reverse := by simp
  have undotted : ∀ char ∈ extension.reverse, decide (char ≠ '.') = true := by
    intro char member
    simp only [ne_eq, decide_not, Bool.not_eq_true', decide_eq_false_iff_not]
    rintro rfl
    exact plain (List.mem_reverse.1 member)
  rw [turned, List.dropWhile_append_of_pos undotted, List.takeWhile_append_of_pos undotted]
  simp

theorem withExtension_ne {path extension : String} (plain : '.' ∉ extension.toList)
    (named : last path ≠ "..") (other : extension? path ≠ some extension) :
    withExtension path extension ≠ path := by
  intro same
  obtain ⟨front, whole, changed⟩ := toList_withExtension path extension
  rw [same, whole, List.append_cancel_left_eq] at changed
  have proper : (last path).toList ≠ ['.', '.'] := fun up => named (String.toList_inj.1 up)
  split at changed
  · exact proper changed
  · obtain ⟨dropped, taken⟩ := dropWhile_reverse (stem (last path).toList) plain
    rw [← changed] at dropped taken
    cases stemmed : (stem (last path).toList).reverse with
    | nil =>
      rw [stemmed] at dropped
      rw [stem, dropped] at stemmed
      have empty : (last path).toList = [] := List.reverse_eq_nil_iff.1 stemmed
      rw [empty] at changed
      simp at changed
    | cons char rest =>
      rw [stemmed] at dropped
      apply other
      rw [extension?, if_neg proper, dropped, taken]
      simp

theorem utf8ByteSize_of_toList {name : String} {text : List Char} (letters : name.toList = text) :
    name.utf8ByteSize = String.utf8Len text := by
  rw [← letters, ← String.utf8ByteSize_ofList, String.ofList_toList]

theorem utf8Len_replicate (count : Nat) : String.utf8Len (List.replicate count 'x') = count := by
  induction count with
  | zero => rfl
  | succ count ih =>
    rw [List.replicate_succ, String.utf8Len_cons, ih]
    rfl

/-! ## Single names -/

theorem splitSlashes_of_plain {text : List Char} (plain : '/' ∉ text) :
    splitSlashes text = [text] := by
  induction text with
  | nil => rfl
  | cons char rest ih =>
    obtain ⟨first, others⟩ := not_or.1 (mt List.mem_cons.2 plain)
    rw [splitSlashes, if_neg (Ne.symm first), ih others]

theorem dropWhile_reverse_of_undotted {text : List Char} (undotted : '.' ∉ text) :
    text.reverse.dropWhile (· ≠ '.') = [] := by
  rw [List.dropWhile_eq_nil_iff]
  intro char member
  have distinct : char ≠ '.' := fun same => undotted (same ▸ List.mem_reverse.1 member)
  simpa using distinct

variable {name : String} (plain : '/' ∉ name.toList)

include plain

theorem components_of_plain : components name = [name] := by
  rw [components, splitSlashes_of_plain plain]
  simp

theorem last_of_plain : last name = name := by
  rw [last, components_of_plain plain]
  rfl

theorem toList_withExtension_of_plain (undotted : '.' ∉ name.toList) (extension : String) :
    (withExtension name extension).toList = name.toList ++ '.' :: extension.toList := by
  have stem_eq : stem name.toList = name.toList := by
    rw [stem, dropWhile_reverse_of_undotted undotted]
  have other : name.toList ≠ ['.'] := fun dot => undotted (by simp [dot])
  obtain ⟨front, whole, changed⟩ := toList_withExtension name extension
  rw [last_of_plain plain] at whole changed
  have empty : front = [] := (List.append_cancel_right whole).symm
  rw [changed, empty, stem_eq, if_neg other, List.nil_append]

theorem extension?_of_plain (undotted : '.' ∉ name.toList) : extension? name = none := by
  have dropped := dropWhile_reverse_of_undotted undotted
  unfold extension?
  rw [last_of_plain plain, if_neg, dropped]
  exact fun up => undotted (by simp [up])

theorem endsInSlash_of_plain : endsInSlash name = false := by
  refine decide_eq_false fun last => plain ?_
  exact List.mem_of_getLast? last

end AttributeIndex.FileName
