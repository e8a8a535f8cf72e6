import AttributeIndex.Proofs.Log.Opening
import AttributeIndex.Proofs.Text.FileName
import AttributeIndex.Storage

namespace AttributeIndex

open LogTable

namespace FileTree

variable {tree : FileTree} {files : Files} {path : String}

theorem getLast?_names_of_up (up : FileName.last path = "..") : (names path).getLast? = some ".." := by
  rw [FileName.last, List.getLastD_eq_getLast?] at up
  cases last : (FileName.components path).getLast? with
  | none =>
    rw [last] at up
    exact absurd up (by decide)
  | some name =>
    rw [last, Option.getD_some] at up
    obtain ⟨front, whole⟩ := List.getLast?_eq_some_iff.1 last
    rw [names, whole, up, List.filter_append]
    exact List.getLast?_concat

theorem locate_of_up (up : FileName.last path = "..") :
    tree.locate path = (tree.follow path).map fun place => (place, none) := by
  have nameless : (some "..").filter (fun name => name ≠ "." && name ≠ "..") = none := by decide
  simp only [locate, follow, getLast?_names_of_up up, nameless]
  cases checkPath path with
  | error failure => rfl
  | ok done =>
    cases entered : (names path).foldlM Place.enter (Place.root tree) <;> simp [entered] <;> rfl

theorem not_located_of_up (up : FileName.last path = "..") :
    ∃ failure, tree.findFile path = .error failure ∧ tree.locateFile path = .error failure := by
  unfold findFile locateFile
  rw [locate_of_up up]
  cases tree.follow path with
  | error failure => exact ⟨failure, rfl, rfl⟩
  | ok place => exact ⟨.isADirectory, rfl, rfl⟩

/-! ## Single names in an empty tree -/

/-- A name that a file can have as far as its characters go. -/
structure Plain (name : String) : Prop where
  slashless : '/' ∉ name.toList
  proper : name ≠ "" ∧ name ≠ "." ∧ name ≠ ".."
  allowed : checkPath name = .ok ()

theorem plain_of_long {name : String} (slashless : '/' ∉ name.toList) (nulless : '\x00' ∉ name.toList)
    (long : 2 < name.toList.length) (short : name.utf8ByteSize ≤ 4095) : Plain name := by
  have other : ∀ brief : String, brief.toList.length ≤ 2 → name ≠ brief := by
    rintro brief bound rfl
    omega
  have fits : FileName.isTooLongPath name = false := decide_eq_false (by omega)
  refine ⟨slashless, ⟨other _ (by decide), other _ (by decide), other _ (by decide)⟩, ?_⟩
  simp [checkPath, fits, nulless]

theorem Plain.locate_eq {name : String} (plain : Plain name) (tree : FileTree) :
    tree.locate name = .ok (.root tree, some name) := by
  have alone : names name = [name] := by
    rw [names, FileName.components_of_plain plain.slashless]
    simp [plain.proper.1]
  simp only [locate, plain.allowed, alone]
  simp [plain.proper.2.1, plain.proper.2.2]

theorem Plain.found {name : String} (plain : Plain name) (short : FileName.isTooLong name = false)
    {content : Bytes} (stored : tree.entries.lookup name = some (.file content)) :
    tree.findFile name = .ok (.root tree, name, content) ∧
      tree.locateFile name = .ok (.root tree, name) := by
  have present : (Place.root tree).find? name = .ok (some (.file content)) := by
    simp [Place.find?, short, Place.root, stored]
  unfold findFile locateFile
  rw [plain.locate_eq]
  simp [FileName.endsInSlash_of_plain plain.slashless, present]
  exact ⟨rfl, rfl⟩

theorem Plain.missing {name : String} (plain : Plain name) (short : FileName.isTooLong name = false)
    (absent : tree.entries.lookup name = none) :
    tree.findFile name = .error .noSuchFile ∧ tree.locateFile name = .ok (.root tree, name) := by
  have nothing : (Place.root tree).find? name = .ok none := by
    simp [Place.find?, short, Place.root, absent]
  unfold findFile locateFile
  rw [plain.locate_eq]
  simp [FileName.endsInSlash_of_plain plain.slashless, nothing]
  exact ⟨rfl, rfl⟩

theorem Plain.located {name : String} (plain : Plain name) (short : FileName.isTooLong name = false) :
    empty.findFile name = .error .noSuchFile ∧ empty.locateFile name = .ok (.root empty, name) :=
  plain.missing short rfl

theorem Plain.refused {name : String} (plain : Plain name) (long : FileName.isTooLong name = true) :
    tree.findFile name = .error .nameTooLong ∧ tree.locateFile name = .error .nameTooLong := by
  have unasked : (Place.root tree).find? name = .error .nameTooLong := by
    simp [Place.find?, long]
  unfold findFile locateFile
  rw [plain.locate_eq]
  simp [FileName.endsInSlash_of_plain plain.slashless, unasked]

/-! ## What is lent -/

def lendMore (tree : FileTree) (files : Files) (path : String) : Files :=
  match tree.findFile path, tree.locateFile path with
  | .ok (_, _, content), _ => files.write path content
  | .error _, .ok _ => files
  | .error _, .error failure => files.refuse path failure

theorem lend_eq (tree : FileTree) (path : String) :
    tree.lend path = tree.lendMore (tree.lendMore .empty path) (siblingPath path) := by
  unfold lend logPaths
  rw [List.foldl_cons, List.foldl_cons, List.foldl_nil]
  unfold lendMore
  cases tree.findFile path <;> cases tree.locateFile path <;>
    cases tree.findFile (siblingPath path) <;> cases tree.locateFile (siblingPath path) <;> rfl

theorem refusals_lendMore_of_located {spot : Place × String}
    (located : tree.locateFile path = .ok spot) :
    (tree.lendMore files path).refusals = files.refusals := by
  unfold lendMore
  rw [located]
  cases tree.findFile path <;> rfl

theorem lendMore_of_refused {missing failure : IoError} (missed : tree.findFile path = .error missing)
    (refused : tree.locateFile path = .error failure) :
    tree.lendMore files path = files.refuse path failure := by
  rw [lendMore, missed, refused]

theorem find?_refusals_lendMore_of_ne {other : String} (distinct : other ≠ path) :
    (tree.lendMore files path).refusals.find? other = files.refusals.find? other := by
  unfold lendMore
  split
  · rfl
  · rfl
  · rw [Files.refuse, SortedMap.find?_insert, if_neg distinct]

theorem Plain.lend_empty (plain : Plain path) (short : FileName.isTooLong path = false)
    (beside : Plain (siblingPath path)) (room : FileName.isTooLong (siblingPath path) = false) :
    empty.lend path = .empty := by
  obtain ⟨missing, located⟩ := plain.located short
  obtain ⟨absent, free⟩ := beside.located room
  rw [lend_eq, lendMore, lendMore, missing, located, absent, free]

theorem Plain.lend_stored (plain : Plain path) (short : FileName.isTooLong path = false)
    (beside : Plain (siblingPath path)) (room : FileName.isTooLong (siblingPath path) = false)
    {content : Bytes} (stored : tree.entries.lookup path = some (.file content))
    (alone : tree.entries.lookup (siblingPath path) = none) :
    tree.lend path = Files.empty.write path content := by
  obtain ⟨found, -⟩ := plain.found short stored
  obtain ⟨absent, free⟩ := beside.missing room alone
  rw [lend_eq, lendMore, lendMore, found, absent, free]

theorem Plain.lend_empty_of_long (plain : Plain path) (short : FileName.isTooLong path = false)
    (beside : Plain (siblingPath path)) (long : FileName.isTooLong (siblingPath path) = true) :
    empty.lend path = Files.empty.refuse (siblingPath path) .nameTooLong := by
  obtain ⟨missing, located⟩ := plain.located short
  obtain ⟨absent, refused⟩ := beside.refused long
  rw [lend_eq, lendMore_of_refused absent refused, lendMore, missing, located]

theorem lend_empty_of_replicate {count : Nat} (low : 247 < count) (high : count ≤ 255)
    (letters : path.toList = List.replicate count 'x') :
    FileName.extension? path = none ∧ path ≠ siblingPath path ∧
      empty.lend path = Files.empty.refuse (siblingPath path) .nameTooLong := by
  have slashless : '/' ∉ path.toList := by simp [letters]
  have undotted : '.' ∉ path.toList := by simp [letters]
  have size : path.utf8ByteSize = count := by
    rw [FileName.utf8ByteSize_of_toList letters, FileName.utf8Len_replicate]
  have plain : Plain path :=
    plain_of_long slashless (by simp [letters]) (by simp [letters]; omega) (by omega)
  have behind : (siblingPath path).toList = List.replicate count 'x' ++ ".compact".toList := by
    rw [siblingPath, FileName.toList_withExtension_of_plain slashless undotted, letters]
    rfl
  have room : (siblingPath path).utf8ByteSize = count + 8 := by
    rw [FileName.utf8ByteSize_of_toList behind, String.utf8Len_append, FileName.utf8Len_replicate]
    rfl
  have plainSibling : Plain (siblingPath path) :=
    plain_of_long (by simp [behind]) (by simp [behind]) (by simp [behind]) (by omega)
  have distinct : path ≠ siblingPath path := by
    intro same
    rw [← same] at room
    omega
  exact ⟨FileName.extension?_of_plain slashless undotted, distinct,
    plain.lend_empty_of_long (decide_eq_false (by omega)) plainSibling (decide_eq_true (by omega))⟩

theorem granted_beside {spot : Place × String} (apart : siblingPath path ≠ path)
    (located : tree.locateFile (siblingPath path) = .ok spot) :
    (tree.lend path).refusals.find? (siblingPath path) = none := by
  rw [lend_eq, refusals_lendMore_of_located located, find?_refusals_lendMore_of_ne apart]
  rfl

theorem named_of_granted (granted : (tree.lend path).refusals.find? path = none) :
    FileName.last path ≠ ".." := by
  intro up
  obtain ⟨failure, missed, refused⟩ := @not_located_of_up tree path up
  rw [lend_eq, lendMore_of_refused missed refused] at granted
  by_cases same : path = siblingPath path
  · rw [← same, lendMore_of_refused missed refused, Files.refuse, SortedMap.find?_insert, if_pos rfl]
      at granted
    cases granted
  · rw [find?_refusals_lendMore_of_ne same, Files.refuse, SortedMap.find?_insert, if_pos rfl] at granted
    cases granted

end FileTree

end AttributeIndex
