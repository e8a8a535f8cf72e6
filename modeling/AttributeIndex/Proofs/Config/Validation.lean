import AttributeIndex.Config.Basic
import AttributeIndex.Proofs.Text.Resolution

namespace AttributeIndex.Config

open FileName

variable {config : Config} {directory : String}

theorem validate_eq_ok :
    config.validate = .ok () ↔ config.attributeId.isEmpty = false ∧
      isSubdirectoryName config.attributeId = true ∧ 0 < config.cacheSize ∧
      0 < config.duplicateLimit ∧ config.duplicateLimit ≤ maxDuplicateLimit := by
  simp [validate, bind_eq_ok, Error.requireSetting_eq_ok]

theorem plain_of_isSubdirectoryName {name : String} (accepted : isSubdirectoryName name = true) :
    '/' ∉ name.toList ∧ name ≠ ".." := by
  rw [isSubdirectoryName, Bool.and_eq_true, Bool.not_eq_true', List.any_eq_false, bne_iff_ne]
    at accepted
  exact ⟨fun slash => accepted.1 '/' slash rfl, accepted.2⟩

theorem resolve_join_attributeId (valid : config.validate = .ok ()) (current : List String)
    (directory : String) :
    resolve current (join directory config.attributeId) =
      if config.attributeId = "." then resolve current directory
      else resolve current directory ++ [config.attributeId] := by
  obtain ⟨named, accepted, -⟩ := validate_eq_ok.1 valid
  obtain ⟨plain, notUp⟩ := plain_of_isSubdirectoryName accepted
  have nonempty : config.attributeId ≠ "" := by simpa using named
  rw [resolve_join_of_plain plain, go, if_neg notUp]
  simp [nonempty]

/-- Resolved from any current directory, the directory of an index lies one level below the working
directory. -/
def Confined (config : Config) : Prop :=
  ∀ directory ∈ config.workingDirectory, ∀ path ∈ config.indexDirectory, ∀ current,
    ∃ name, resolve current path = resolve current directory ++ [name]

theorem indexDirectory_of_based (based : config.workingDirectory = some directory) :
    config.indexDirectory = some (join directory config.attributeId) := by
  rw [indexDirectory, based]
  rfl

theorem confined_iff (valid : config.validate = .ok ())
    (based : config.workingDirectory = some directory) :
    config.Confined ↔ config.attributeId ≠ "." := by
  constructor
  · intro confined dot
    obtain ⟨name, below⟩ := confined directory based _ (indexDirectory_of_based based) []
    rw [resolve_join_attributeId valid, if_pos dot] at below
    simpa using congrArg List.length below
  · intro proper base isBase path isPath current
    obtain rfl : base = directory := Option.some.inj (isBase.symm.trans based)
    obtain rfl : path = join base config.attributeId :=
      Option.some.inj (isPath.symm.trans (indexDirectory_of_based based))
    exact ⟨config.attributeId, by rw [resolve_join_attributeId valid, if_neg proper]⟩

/-- Accepted settings put the index into the entry of the working directory that has the name of the
attribute, and so one level below it, exactly if that name is not a single dot, which puts it into the
working directory itself. In a file tree this is where its path leads. Accepted settings with the same
working directory and other attributes always put their indices elsewhere. -/
theorem indexDirectory_exact (valid : config.validate = .ok ())
    (based : config.workingDirectory = some directory) :
    ∃ path, config.indexDirectory = some path ∧
      (∀ current, resolve current path =
        if config.attributeId = "." then resolve current directory
        else resolve current directory ++ [config.attributeId]) ∧
      (config.Confined ↔ config.attributeId ≠ ".") ∧
      (∀ (tree : FileTree) place, tree.follow path = .ok place → place.way = resolve [] path) ∧
      ∀ (other : Config) otherPath, other.validate = .ok () →
        other.workingDirectory = some directory → other.indexDirectory = some otherPath →
          other.attributeId ≠ config.attributeId →
            ∀ current, resolve current otherPath ≠ resolve current path := by
  refine ⟨_, indexDirectory_of_based based, fun current => resolve_join_attributeId valid current _,
    confined_iff valid based, fun _ _ => FileTree.way_follow, ?_⟩
  intro other otherPath otherValid otherBased isPath apart current same
  obtain rfl : otherPath = join directory other.attributeId :=
    Option.some.inj (isPath.symm.trans (indexDirectory_of_based otherBased))
  rw [resolve_join_attributeId otherValid, resolve_join_attributeId valid] at same
  split at same
  · rename_i otherDot
    split at same
    · rename_i dot
      exact apart (otherDot.trans dot.symm)
    · simpa using congrArg List.length same
  · split at same
    · simpa using congrArg List.length same
    · exact apart (List.cons.inj (List.append_cancel_left same)).1

theorem indexDirectory_exact_dots :
    let config : Config := { ofAttribute "..." with workingDirectory := some "/var/../dx/" }
    let other : Config := { ofAttribute "cn" with workingDirectory := some "/var/../dx/" }
    config.validate = .ok () ∧ other.validate = .ok () ∧
      ∃ path, config.indexDirectory = some path ∧ resolve ["home"] path = ["dx", "..."] ∧
        config.Confined ∧ ∀ otherPath, other.indexDirectory = some otherPath →
          ∀ current, resolve current otherPath ≠ resolve current path := by
  intro config other
  have valid : config.validate = .ok () := validate_eq_ok.2 (by decide)
  have otherValid : other.validate = .ok () := validate_eq_ok.2 (by decide)
  obtain ⟨path, isPath, resolved, confined, -, apart⟩ :=
    @indexDirectory_exact config "/var/../dx/" valid rfl
  exact ⟨valid, otherValid, path, isPath, (resolved ["home"]).trans (by decide),
    confined.2 (by decide),
    fun otherPath isOther => apart other otherPath otherValid rfl isOther (by decide)⟩

/-- The attribute that is named by a dot is accepted, and its index lies in the working directory. -/
theorem not_confined_of_dot :
    let config : Config := { ofAttribute "." with workingDirectory := some "w" }
    config.validate = .ok () ∧ config.indexDirectory = some "w/." ∧ resolve [] "w/." = ["w"] ∧
      ¬ config.Confined := by
  intro config
  have valid : config.validate = .ok () := validate_eq_ok.2 (by decide)
  exact ⟨valid, by decide, by decide, fun confined => (confined_iff valid rfl).1 confined rfl⟩

end AttributeIndex.Config
