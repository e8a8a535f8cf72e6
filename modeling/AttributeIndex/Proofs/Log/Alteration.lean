import AttributeIndex.Proofs.Log.Opening

namespace AttributeIndex

open AttributeIndex.Frame

namespace Frame

theorem take_drop_append {bytes : Bytes} {start count : Nat} (within : start + count ≤ bytes.length)
    (rest : Bytes) : ((bytes ++ rest).drop start).take count = (bytes.drop start).take count := by
  rw [List.drop_append_of_le_length (by omega), List.take_append_of_le_length (by simp; omega)]

theorem announcedLength_append {bytes : Bytes} (whole : headerSize ≤ bytes.length) (rest : Bytes) :
    announcedLength (bytes ++ rest) = announcedLength bytes := by
  simp only [headerSize] at whole
  rw [announcedLength, announcedLength, take_drop_append (by omega), take_drop_append (by omega)]

end Frame

namespace LogTable

variable {path : String} {files : Files} {before after : List Frame} {frame : Frame} {altered : Bytes}

/-- The log is refused as damaged or opened as it is; no byte of its file is lost. -/
def KeepsFile (path : String) (files : Files) : Prop :=
  (∃ failure, openAt path files = (.error failure, files) ∧ failure.kind = .invalidData) ∨
    ∃ table, openAt path files = (.ok table, files) ∧ table.files = files

theorem keepsFile_of_frames (granted : files.refusals.find? path = none)
    (present : files.contents.find? path = some (encodeAll before))
    (fits : ∀ frame ∈ before, frame.Fits) : KeepsFile path files := by
  have parts : Parts (files.content path) before [] := by
    have whole := Parts.of_unfinished fits unfinished_nil
    rwa [List.append_nil, show encodeAll before = files.content path by
      rw [Files.content, present]; rfl] at whole
  have opens := openAt_of_unfinished granted parts unfinished_nil
  have same : (ofFrames path files before).files = files := files.write_content path _ present
  rw [same] at opens
  exact .inr ⟨_, opens, same⟩

section

variable (granted : files.refusals.find? path = none) (fits : ∀ other ∈ before ++ after, other.Fits)
  (size : altered.length = frame.length)
  (content_eq : files.content path = encodeAll before ++ (altered ++ encodeAll after))

include granted fits size content_eq

/-- Unless the log ends before the frame that is announced now, no byte is lost, if what is announced
has the length that the frame had. -/
theorem keepsFile_altered (finished : ¬Unfinished (altered ++ encodeAll after))
    (placed : ∀ other : Frame, other.Fits → other.encode <+: altered ++ encodeAll after →
      other.length = frame.length) : KeepsFile path files := by
  obtain ⟨first, last⟩ := List.forall_mem_append.1 fits
  by_cases continues : Continues (altered ++ encodeAll after)
  · obtain ⟨other, tail, fit, same⟩ := continues
    have length_eq := placed other fit ⟨tail, same.symm⟩
    -- The frame that is read now fills the place of the old one, so the log is whole frames again.
    obtain ⟨rfl, -⟩ := List.append_inj same (by rw [size, length_encode, length_eq])
    have whole : encodeAll before ++ (other.encode ++ encodeAll after) =
        encodeAll (before ++ other :: after) := by simp
    rw [whole] at content_eq
    have filled : files.content path ≠ [] := by
      rw [content_eq]
      intro empty
      have short := congrArg List.length empty
      have positive := other.length_pos
      simp at short
      omega
    have present := files.find?_of_content_ne_nil path filled
    rw [content_eq] at present
    exact keepsFile_of_frames granted present (by
      simpa [or_imp, forall_and] using ⟨first, fit, last⟩)
  · exact .inl ⟨_, openAt_of_damaged granted ⟨content_eq, first, continues⟩ finished, kind_damage _⟩

theorem keepsFile_of_announced (announced : announcedLength altered = frame.length) :
    KeepsFile path files := by
  have whole : headerSize ≤ altered.length := by
    rw [size, length, lengthOf]
    omega
  have told := announcedLength_append whole (encodeAll after)
  refine keepsFile_altered granted fits size content_eq ?_ fun other fit => ?_
  · rintro (short | ⟨-, short⟩)
    · simp at short
      omega
    · rw [told, announced] at short
      simp at short
      omega
  · rintro ⟨tail, same⟩
    rw [← announced, ← told, ← same, announcedLength_encode fit]

theorem openAt_altered :
    (announcedLength altered = frame.length → KeepsFile path files) ∧
      (¬Unfinished (altered ++ encodeAll after) →
        (∀ other : Frame, other.Fits → other.encode <+: altered ++ encodeAll after →
          other.length = frame.length) → KeepsFile path files) ∧
      (Unfinished (altered ++ encodeAll after) → ∃ table, openAt path files = (.ok table, table.files) ∧
        table.file = encodeAll before) := by
  refine ⟨keepsFile_of_announced granted fits size content_eq,
    keepsFile_altered granted fits size content_eq, fun unfinished => ?_⟩
  have parts : Parts (files.content path) before (altered ++ encodeAll after) := by
    rw [content_eq]
    exact .of_unfinished (List.forall_mem_append.1 fits).1 unfinished
  exact ⟨_, openAt_of_unfinished granted parts unfinished, Files.content_write _ _ _⟩

end

theorem openAt_altered_value :
    let first : Frame := ⟨.put, [1], [7]⟩
    let second : Frame := ⟨.put, [2], [8]⟩
    let altered := first.encode.set 10 9
    let files := Files.empty.write "t.tbl" (altered ++ second.encode)
    files.refusals.find? "t.tbl" = none ∧ altered.length = first.length ∧
      announcedLength altered = first.length ∧ KeepsFile "t.tbl" files := by
  intro first second altered files
  have fits : ∀ other ∈ [] ++ [second], other.Fits := by
    simpa using ⟨by decide, by decide⟩
  have size : altered.length = first.length := by simp [altered]
  have announced : announcedLength altered = first.length := by decide
  have content_eq : files.content "t.tbl" = encodeAll [] ++ (altered ++ encodeAll [second]) := by
    simp [files]
  exact ⟨rfl, size, announced, (openAt_altered rfl fits size content_eq).1 announced⟩

/-- With another length announced, the frames are cut off, the one that nobody touched included. -/
theorem openAt_cuts_altered_length :
    let first : Frame := ⟨.put, [1], [7]⟩
    let second : Frame := ⟨.put, [2], [8]⟩
    let altered := first.encode.set 5 1
    let files := Files.empty.write "t.tbl" (altered ++ second.encode)
    altered.length = first.length ∧
      ∃ table, openAt "t.tbl" files = (.ok table, table.files) ∧ table.file = [] := by
  intro first second altered files
  have size : altered.length = first.length := by simp [altered]
  have unfinished : Unfinished (altered ++ second.encode) := by
    refine .inr ⟨rfl, ?_⟩
    rw [announcedLength_append (by rw [size]; decide)]
    simp [size]
    decide
  have parts : Parts (files.content "t.tbl") [] (altered ++ second.encode) := by
    simpa [files] using Parts.of_unfinished (List.forall_mem_nil Fits) unfinished
  exact ⟨size, _, openAt_of_unfinished rfl parts unfinished, Files.content_write _ _ _⟩

end LogTable

end AttributeIndex
