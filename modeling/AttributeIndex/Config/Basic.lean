import AttributeIndex.Error
import AttributeIndex.Text.FileName

namespace AttributeIndex

structure Config where
  attributeId : String
  cacheSize : Nat
  duplicateLimit : Nat
  workingDirectory : Option String
  deriving DecidableEq, Repr

namespace Config

def defaultCacheSize : Nat := 1000

def defaultDuplicateLimit : Nat := 512

/-- The greatest limit accepted. The count in front of a set in a slot stays far below the number
that the first letters of a redirect would spell. -/
def maxDuplicateLimit : Nat := 1 <<< 24

def ofAttribute (attributeId : String) : Config :=
  ⟨attributeId, defaultCacheSize, defaultDuplicateLimit, none⟩

def indexDirectory (config : Config) : Option String :=
  config.workingDirectory.map fun directory => FileName.join directory config.attributeId

def isSubdirectoryName (attributeId : String) : Bool :=
  !attributeId.toList.any (fun char => char = '/' || char = '\\') && attributeId != ".."

def validate (config : Config) : Except Error Unit := do
  Error.requireSetting (!config.attributeId.isEmpty) "attribute_id"
    "!self.attribute_id.is_empty()"
  Error.requireSetting (isSubdirectoryName config.attributeId) "attribute_id"
    "!self.attribute_id.contains(['/', '\\\\']) && self.attribute_id != \"..\""
  Error.requireSetting (0 < config.cacheSize) "cache_size" "self.cache_size > 0"
  Error.requireSetting (0 < config.duplicateLimit) "duplicate_limit" "self.duplicate_limit > 0"
  Error.requireSetting (config.duplicateLimit ≤ maxDuplicateLimit) "duplicate_limit"
    "self.duplicate_limit <= MAX_DUPLICATE_LIMIT"

end Config

end AttributeIndex
