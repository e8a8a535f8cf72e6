import AttributeIndex.Error

namespace AttributeIndex

structure Redirect where
  recordId : UInt64
  deriving DecidableEq, Repr

namespace Redirect

instance : Ord Redirect :=
  ⟨fun left right => compare left.recordId right.recordId⟩

def size : Nat := 16

def tag : Bytes :=
  [0x72, 0x65, 0x64, 0x69, 0x72, 0x65, 0x63, 0x74]

def encode (redirect : Redirect) : Bytes :=
  tag ++ Bytes.ofUInt64 redirect.recordId

def hasForm (bytes : Bytes) : Bool :=
  bytes.length = size && bytes.take tag.length = tag

def decode (bytes : Bytes) : Except Error Redirect :=
  if hasForm bytes then .ok ⟨Bytes.toUInt64 (bytes.drop tag.length)⟩
  else .error (.malformedRedirect bytes)

@[simp]
theorem hasForm_encode (redirect : Redirect) : hasForm redirect.encode = true := by
  simp [hasForm, encode, size, tag]

@[simp]
theorem decode_encode (redirect : Redirect) : decode redirect.encode = .ok redirect := by
  rw [decode, if_pos (hasForm_encode redirect), encode, List.drop_left, Bytes.toUInt64_ofUInt64]

theorem encode_of_decode {bytes : Bytes} {redirect : Redirect}
    (decoded : decode bytes = .ok redirect) : redirect.encode = bytes := by
  unfold decode at decoded
  split at decoded
  · rename_i form
    obtain ⟨sized, tagged⟩ : bytes.length = size ∧ bytes.take tag.length = tag := by
      simpa [hasForm] using form
    cases decoded
    have eight : (bytes.drop tag.length).length = 8 := by
      rw [List.length_drop, sized]
      rfl
    have parts := List.take_append_drop tag.length bytes
    rw [tagged] at parts
    rw [encode, Bytes.ofUInt64_toUInt64 eight, parts]
  · contradiction

end Redirect

end AttributeIndex
