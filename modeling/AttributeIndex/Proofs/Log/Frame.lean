import AttributeIndex.Log.Frame
import AttributeIndex.Proofs.Outcome
import Mathlib.Data.List.Basic

namespace AttributeIndex

namespace Bytes

theorem split?_append {front : Bytes} {count : Nat} (exact : front.length = count) (rest : Bytes) :
    split? count (front ++ rest) = some (front, rest) := by
  subst exact
  simp [split?_eq]

theorem split?_eq_none {count : Nat} {bytes : Bytes} :
    split? count bytes = none ↔ bytes.length < count := by
  simp [split?_eq]

end Bytes

theorem FrameOp.ofCode?_eq_some {code : UInt8} {op : FrameOp} :
    ofCode? code = some op ↔ code = op.code := by
  constructor
  · intro known
    unfold ofCode? at known
    split at known
    · obtain rfl := Option.some.inj known
      assumption
    · split at known
      · obtain rfl := Option.some.inj known
        assumption
      · cases known
  · rintro rfl
    exact ofCode?_code op

namespace Frame

structure Fits (frame : Frame) : Prop where
  key_le : frame.key.length ≤ maxFieldLength
  value_le : frame.value.length ≤ maxFieldLength

instance (frame : Frame) : Decidable frame.Fits :=
  decidable_of_iff (frame.key.length ≤ maxFieldLength ∧ frame.value.length ≤ maxFieldLength)
    ⟨fun ⟨key, value⟩ => ⟨key, value⟩, fun fits => ⟨fits.key_le, fits.value_le⟩⟩

theorem write_of_fits {frame : Frame} (fits : frame.Fits) : frame.write = .ok frame.encode := by
  simp [write, IoError.require, fits.key_le, fits.value_le]

theorem fits_of_write {frame : Frame} {bytes : Bytes} (written : frame.write = .ok bytes) :
    frame.Fits := by
  unfold write IoError.require at written
  by_cases short : frame.key.length ≤ maxFieldLength
  · by_cases small : frame.value.length ≤ maxFieldLength
    · exact ⟨short, small⟩
    · simp [short, small] at written
  · simp [short] at written

def header (op : FrameOp) (keyLength valueLength : Nat) : Bytes :=
  op.code :: Bytes.ofNat 4 keyLength ++ Bytes.ofNat 4 valueLength

@[simp]
theorem length_header (op : FrameOp) (keyLength valueLength : Nat) :
    (header op keyLength valueLength).length = headerSize := by
  simp [header, headerSize]

theorem encode_eq (frame : Frame) :
    frame.encode = header frame.op frame.key.length frame.value.length ++
      ((frame.key ++ frame.value) ++ Bytes.ofUInt64 (Checksum.ofBytes frame.content)) := by
  simp [encode, content, header]

theorem content_eq (frame : Frame) :
    frame.content = header frame.op frame.key.length frame.value.length ++
      (frame.key ++ frame.value) := by
  simp [content, header]

theorem length_pos (frame : Frame) : 0 < frame.length := by
  simp only [length, lengthOf, headerSize]
  omega

/-! ## What the header announces -/

def announcedOp? (bytes : Bytes) : Option FrameOp :=
  FrameOp.ofCode? (bytes.headD 0)

def announcedLength (bytes : Bytes) : Nat :=
  lengthOf (Bytes.toNat ((bytes.drop 1).take 4)) (Bytes.toNat ((bytes.drop 5).take 4))

def Unfinished (bytes : Bytes) : Prop :=
  bytes.length < headerSize ∨ (announcedOp? bytes).isSome ∧ bytes.length < announcedLength bytes

instance (bytes : Bytes) : Decidable (Unfinished bytes) :=
  inferInstanceAs (Decidable (_ ∨ _))

theorem toNat_length {length : Nat} (small : length ≤ maxFieldLength) :
    Bytes.toNat (Bytes.ofNat 4 length) = length := by
  rw [Bytes.toNat_ofNat]
  exact Nat.mod_eq_of_lt (by unfold maxFieldLength UInt32.size at small; omega)

theorem announcedOp?_header (op : FrameOp) (keyLength valueLength : Nat) (rest : Bytes) :
    announcedOp? (header op keyLength valueLength ++ rest) = some op :=
  FrameOp.ofCode?_code op

theorem announcedLength_header (op : FrameOp) {keyLength valueLength : Nat}
    (keySmall : keyLength ≤ maxFieldLength) (valueSmall : valueLength ≤ maxFieldLength)
    (rest : Bytes) :
    announcedLength (header op keyLength valueLength ++ rest) = lengthOf keyLength valueLength := by
  have key : ((header op keyLength valueLength ++ rest).drop 1).take 4 = Bytes.ofNat 4 keyLength := by
    simp [header, List.take_left']
  have value : ((header op keyLength valueLength ++ rest).drop 5).take 4 =
      Bytes.ofNat 4 valueLength := by
    simp [header, List.take_left']
  rw [announcedLength, key, value, toNat_length keySmall, toNat_length valueSmall]

theorem exists_header {bytes : Bytes} {op : FrameOp} (whole : headerSize ≤ bytes.length)
    (known : announcedOp? bytes = some op) :
    ∃ keyLength valueLength rest, keyLength ≤ maxFieldLength ∧ valueLength ≤ maxFieldLength ∧
      bytes = header op keyLength valueLength ++ rest := by
  obtain ⟨code, fields, rfl⟩ : ∃ code fields, bytes = code :: fields :=
    List.exists_cons_of_length_pos (by simp [headerSize] at whole; omega)
  obtain rfl : code = op.code := FrameOp.ofCode?_eq_some.1 known
  simp only [headerSize, List.length_cons, Nat.reduceLeDiff] at whole
  have keySize : (fields.take 4).length = 4 := by simp; omega
  have valueSize : ((fields.drop 4).take 4).length = 4 := by simp; omega
  have keySmall := Bytes.toNat_lt (fields.take 4)
  have valueSmall := Bytes.toNat_lt ((fields.drop 4).take 4)
  rw [keySize] at keySmall
  rw [valueSize] at valueSmall
  have keyBytes := Bytes.ofNat_toNat (fields.take 4)
  have valueBytes := Bytes.ofNat_toNat ((fields.drop 4).take 4)
  rw [keySize] at keyBytes
  rw [valueSize] at valueBytes
  refine ⟨_, _, (fields.drop 4).drop 4, Nat.le_pred_of_lt keySmall, Nat.le_pred_of_lt valueSmall, ?_⟩
  rw [header, keyBytes, valueBytes, List.cons_append, List.cons_append, List.append_assoc,
    List.take_append_drop, List.take_append_drop]

/-! ## Reading -/

theorem read_header (op : FrameOp) {keyLength valueLength : Nat}
    (keySmall : keyLength ≤ maxFieldLength) (valueSmall : valueLength ≤ maxFieldLength)
    (rest : Bytes) (remaining : Nat) :
    read (header op keyLength valueLength ++ rest) remaining =
      if remaining < lengthOf keyLength valueLength then .ok .torn
      else readBody op (header op keyLength valueLength) keyLength valueLength rest := by
  have key : ((header op keyLength valueLength).drop 1).take 4 = Bytes.ofNat 4 keyLength := by
    simp [header, List.take_left']
  have value : (header op keyLength valueLength).drop 5 = Bytes.ofNat 4 valueLength := by
    simp [header]
  have code : FrameOp.ofCode? ((header op keyLength valueLength).headD 0) = some op :=
    FrameOp.ofCode?_code op
  simp only [read, Bytes.split?_append (length_header op keyLength valueLength), code, key, value,
    toNat_length keySmall, toNat_length valueSmall]

theorem read_short {bytes : Bytes} (short : bytes.length < headerSize) (remaining : Nat) :
    read bytes remaining = .ok (if bytes.isEmpty then .ended else .torn) := by
  rw [read, Bytes.split?_eq_none.2 short]

theorem read_unknown {bytes : Bytes} (whole : headerSize ≤ bytes.length)
    (unknown : announcedOp? bytes = none) (remaining : Nat) :
    read bytes remaining = .error (.unknownOperation (bytes.headD 0)) := by
  have first : (bytes.take headerSize).headD 0 = bytes.headD 0 := by
    cases bytes <;> rfl
  rw [announcedOp?] at unknown
  simp only [read, Bytes.split?_eq, if_pos whole, first, unknown]

theorem readBody_fields (op : FrameOp) (header key value stored rest : Bytes)
    (eight : stored.length = checksumSize) :
    readBody op header key.length value.length (key ++ value ++ stored ++ rest) =
      if Checksum.ofBytes (header ++ (key ++ value)) = stored.toUInt64 then
        .ok (.frame ⟨op, key, value⟩ rest)
      else .error .checksumMismatch := by
  rw [readBody, List.append_assoc (key ++ value), Bytes.split?_append List.length_append]
  simp only [Bytes.split?_append eight, List.take_left, List.drop_left]

theorem exists_fields {keyLength valueLength : Nat} {bytes : Bytes}
    (enough : keyLength + valueLength + checksumSize ≤ bytes.length) :
    ∃ key value stored rest : Bytes, key.length = keyLength ∧ value.length = valueLength ∧
      stored.length = checksumSize ∧ bytes = key ++ value ++ stored ++ rest := by
  refine ⟨bytes.take keyLength, (bytes.drop keyLength).take valueLength,
    ((bytes.drop keyLength).drop valueLength).take checksumSize,
    ((bytes.drop keyLength).drop valueLength).drop checksumSize, ?_, ?_, ?_, ?_⟩
  · simp; omega
  · simp; omega
  · simp; omega
  · simp only [List.append_assoc, List.take_append_drop]

theorem readBody_short {op : FrameOp} {header : Bytes} {keyLength valueLength : Nat} {bytes : Bytes}
    (short : bytes.length < keyLength + valueLength + checksumSize) :
    readBody op header keyLength valueLength bytes = .error .unexpectedEnd := by
  rw [readBody, Bytes.split?_eq]
  by_cases body : keyLength + valueLength ≤ bytes.length
  · have stored : (bytes.drop (keyLength + valueLength)).length < checksumSize := by
      rw [List.length_drop]
      omega
    simp only [if_pos body, Bytes.split?_eq_none.2 stored]
  · rw [if_neg body]

theorem encode_of_checksum (op : FrameOp) {key value stored : Bytes}
    (eight : stored.length = checksumSize)
    (matched : Checksum.ofBytes (header op key.length value.length ++ (key ++ value)) =
      stored.toUInt64) (rest : Bytes) :
    header op key.length value.length ++ (key ++ value ++ stored ++ rest) =
      encode ⟨op, key, value⟩ ++ rest := by
  rw [encode_eq, content_eq, matched, Bytes.ofUInt64_toUInt64 eight]
  simp

theorem read_encode {frame : Frame} (fits : frame.Fits) (rest : Bytes) {remaining : Nat}
    (enough : frame.length ≤ remaining) :
    read (frame.encode ++ rest) remaining = .ok (.frame frame rest) := by
  have inside : ¬remaining < lengthOf frame.key.length frame.value.length := Nat.not_lt.2 enough
  rw [encode_eq, List.append_assoc, read_header _ fits.key_le fits.value_le, if_neg inside,
    readBody_fields _ _ _ _ _ _ (Bytes.length_ofUInt64 _), Bytes.toUInt64_ofUInt64, content_eq,
    if_pos rfl]

/-! ## What the bytes say -/

def Continues (bytes : Bytes) : Prop :=
  ∃ frame rest, Fits frame ∧ bytes = frame.encode ++ rest

theorem announcedLength_encode {frame : Frame} (fits : frame.Fits) (rest : Bytes) :
    announcedLength (frame.encode ++ rest) = frame.length := by
  rw [encode_eq, List.append_assoc, announcedLength_header _ fits.key_le fits.value_le, length]

theorem not_unfinished_encode {frame : Frame} (fits : frame.Fits) (rest : Bytes) :
    ¬Unfinished (frame.encode ++ rest) := by
  have announced := announcedLength_encode fits rest
  have size : (frame.encode ++ rest).length = frame.length + rest.length := by
    rw [List.length_append, length_encode]
  rintro (short | ⟨-, short⟩)
  · rw [size, length, lengthOf] at short
    omega
  · rw [size, announced] at short
    omega

theorem unfinished_take {frame : Frame} (fits : frame.Fits) {count : Nat}
    (inside : count < frame.length) : Unfinished (frame.encode.take count) := by
  have size : (frame.encode.take count).length = count := by
    simp
    omega
  rw [Unfinished, size]
  by_cases whole : headerSize ≤ count
  · have split : frame.encode.take count = header frame.op frame.key.length frame.value.length ++
        ((frame.key ++ frame.value) ++ Bytes.ofUInt64 (Checksum.ofBytes frame.content)).take
          (count - headerSize) := by
      rw [encode_eq, List.take_append, length_header, List.take_of_length_le (by simpa using whole)]
    refine .inr ⟨?_, ?_⟩
    · rw [split, announcedOp?_header]
      rfl
    · rwa [split, announcedLength_header _ fits.key_le fits.value_le]
  · exact .inl (Nat.not_le.1 whole)

theorem unfinished_nil : Unfinished [] :=
  .inl (by decide)

theorem read_unfinished {bytes : Bytes} (unfinished : Unfinished bytes) :
    read bytes bytes.length = .ok (if bytes.isEmpty then .ended else .torn) := by
  by_cases whole : headerSize ≤ bytes.length
  · rcases unfinished with short | ⟨known, short⟩
    · omega
    · obtain ⟨op, known⟩ := Option.isSome_iff_exists.1 known
      obtain ⟨keyLength, valueLength, fields, keySmall, valueSmall, rfl⟩ := exists_header whole known
      rw [announcedLength_header op keySmall valueSmall] at short
      rw [read_header op keySmall valueSmall, if_pos short]
      rfl
  · exact read_short (by omega) _

def damage (bytes : Bytes) : IoError :=
  match announcedOp? bytes with
  | none => .unknownOperation (bytes.headD 0)
  | some _ => .checksumMismatch

theorem kind_damage (bytes : Bytes) : (damage bytes).kind = .invalidData := by
  unfold damage
  split <;> rfl

theorem read_damaged {bytes : Bytes} (finished : ¬Unfinished bytes) (stops : ¬Continues bytes) :
    read bytes bytes.length = .error (damage bytes) := by
  obtain ⟨whole, enough⟩ := not_or.1 finished
  rw [Nat.not_lt] at whole
  rw [damage]
  cases known : announcedOp? bytes with
  | none => exact read_unknown whole known _
  | some op =>
    obtain ⟨keyLength, valueLength, fields, keySmall, valueSmall, rfl⟩ := exists_header whole known
    rw [announcedLength_header op keySmall valueSmall, known] at enough
    have inside : keyLength + valueLength + checksumSize ≤ fields.length := by
      simp [lengthOf] at enough
      omega
    obtain ⟨key, value, stored, rest, rfl, rfl, eight, rfl⟩ := exists_fields inside
    rw [read_header op keySmall valueSmall, if_neg fun short => enough ⟨rfl, short⟩,
      readBody_fields _ _ _ _ _ _ eight, if_neg fun matched => stops ?_]
    exact ⟨_, rest, ⟨keySmall, valueSmall⟩, encode_of_checksum op eight matched rest⟩

theorem encode_of_read {bytes : Bytes} {remaining : Nat} {frame : Frame} {rest : Bytes}
    (whole : read bytes remaining = .ok (.frame frame rest)) :
    frame.Fits ∧ frame.length ≤ remaining ∧ bytes = frame.encode ++ rest := by
  by_cases long : headerSize ≤ bytes.length
  · cases known : announcedOp? bytes with
    | none =>
      rw [read_unknown long known] at whole
      cases whole
    | some op =>
      obtain ⟨keyLength, valueLength, fields, keySmall, valueSmall, rfl⟩ := exists_header long known
      rw [read_header op keySmall valueSmall] at whole
      by_cases inside : remaining < lengthOf keyLength valueLength
      · rw [if_pos inside] at whole
        cases whole
      · rw [if_neg inside] at whole
        by_cases enough : keyLength + valueLength + checksumSize ≤ fields.length
        · obtain ⟨key, value, stored, left, rfl, rfl, eight, rfl⟩ := exists_fields enough
          rw [readBody_fields _ _ _ _ _ _ eight] at whole
          split at whole
          · rename_i matched
            cases whole
            exact ⟨⟨keySmall, valueSmall⟩, Nat.le_of_not_lt inside,
              encode_of_checksum op eight matched rest⟩
          · cases whole
        · rw [readBody_short (Nat.lt_of_not_le enough)] at whole
          cases whole
  · rw [read_short (Nat.lt_of_not_le long)] at whole
    cases empty : bytes.isEmpty <;> simp [empty] at whole

/-- Writing and reading undo each other: what is written of a frame reads back whatever follows it,
and is torn wherever it is cut; and what reads as a frame is what is written of it. -/
theorem read_exact :
    (∀ frame : Frame, frame.Fits ↔ ∃ bytes, frame.write = .ok bytes) ∧
      (∀ (frame : Frame) bytes, frame.write = .ok bytes → bytes.length = frame.length ∧
        (∀ rest remaining, frame.length ≤ remaining →
          read (bytes ++ rest) remaining = .ok (.frame frame rest)) ∧
        ∀ count, 0 < count → count < frame.length → read (bytes.take count) count = .ok .torn) ∧
      (∀ remaining, read [] remaining = .ok .ended) ∧
      ∀ bytes remaining frame rest, read bytes remaining = .ok (.frame frame rest) →
        ∃ front, frame.write = .ok front ∧ front.length = frame.length ∧ bytes = front ++ rest := by
  refine ⟨fun frame => ⟨fun fits => ⟨_, write_of_fits fits⟩, fun ⟨_, written⟩ =>
    fits_of_write written⟩, ?_, fun remaining => read_short (by decide) remaining, ?_⟩
  · intro frame bytes written
    have fits := fits_of_write written
    obtain rfl := Except.ok.inj ((write_of_fits fits).symm.trans written)
    refine ⟨frame.length_encode, fun rest _ => read_encode fits rest, fun count positive inside => ?_⟩
    have size : (frame.encode.take count).length = count := by simp; omega
    have torn := read_unfinished (unfinished_take fits inside)
    rwa [size, if_neg (by rw [List.isEmpty_iff, ← List.length_eq_zero_iff]; omega)] at torn
  · intro bytes remaining frame rest whole
    obtain ⟨fits, -, split⟩ := encode_of_read whole
    exact ⟨_, write_of_fits fits, frame.length_encode, split⟩

theorem read_exact_remove :
    ∃ bytes, write ⟨.remove, [1], []⟩ = .ok bytes ∧ bytes.length = 18 ∧
      read (bytes ++ [2, 0]) 30 = .ok (.frame ⟨.remove, [1], []⟩ [2, 0]) ∧
      read (bytes.take 17) 17 = .ok .torn := by
  obtain ⟨writes, reads, -, -⟩ := read_exact
  obtain ⟨bytes, written⟩ := (writes ⟨.remove, [1], []⟩).1 (by decide)
  obtain ⟨size, whole, cut⟩ := reads _ bytes written
  exact ⟨bytes, written, size, whole [2, 0] 30 (by decide), cut 17 (by decide) (by decide)⟩

/-! ## Whole logs -/

def encodeAll (frames : List Frame) : Bytes :=
  frames.flatMap encode

@[simp]
theorem encodeAll_nil : encodeAll [] = [] :=
  rfl

@[simp]
theorem encodeAll_cons (frame : Frame) (frames : List Frame) :
    encodeAll (frame :: frames) = frame.encode ++ encodeAll frames :=
  List.flatMap_cons

@[simp]
theorem encodeAll_append (frames more : List Frame) :
    encodeAll (frames ++ more) = encodeAll frames ++ encodeAll more :=
  List.flatMap_append

/-- A log cut into the frames at its front and what is left where no frame follows. -/
structure Parts (content : Bytes) (frames : List Frame) (rest : Bytes) : Prop where
  content_eq : content = encodeAll frames ++ rest
  fits : ∀ frame ∈ frames, frame.Fits
  stops : ¬Continues rest

theorem Parts.of_unfinished {frames : List Frame} {rest : Bytes} (fits : ∀ frame ∈ frames, frame.Fits)
    (unfinished : Unfinished rest) : Parts (encodeAll frames ++ rest) frames rest := by
  refine ⟨rfl, fits, ?_⟩
  rintro ⟨frame, tail, fit, rfl⟩
  exact not_unfinished_encode fit tail unfinished

theorem exists_parts (content : Bytes) : ∃ frames rest, Parts content frames rest := by
  by_cases continues : Continues content
  · obtain ⟨frame, later, fits, rfl⟩ := continues
    have shorter : later.length < (frame.encode ++ later).length := by
      have positive := frame.length_pos
      rw [List.length_append, length_encode]
      omega
    obtain ⟨frames, rest, parts⟩ := exists_parts later
    refine ⟨frame :: frames, rest, ?_, List.forall_mem_cons.2 ⟨fits, parts.fits⟩, parts.stops⟩
    rw [encodeAll_cons, List.append_assoc, ← parts.content_eq]
  · exact ⟨[], content, rfl, by simp, continues⟩
termination_by content.length

theorem readAll_encode {frame : Frame} (fits : frame.Fits) (rest : Bytes) :
    readAll (frame.encode ++ rest) (frame.encode ++ rest).length =
      (frame :: (readAll rest rest.length).1, (readAll rest rest.length).2) := by
  have whole := read_encode fits rest (Nat.le_add_right frame.length rest.length)
  have left : frame.length + rest.length - frame.length = rest.length := by omega
  rw [List.length_append, length_encode, readAll]
  split
  · rename_i found
    rw [whole] at found
    cases found
    rw [left]
  · rename_i other
    exact absurd whole (other frame rest)

theorem readAll_of_stops {rest : Bytes} (stops : ¬Continues rest) :
    readAll rest rest.length = ([], read rest rest.length) := by
  have ended : ∀ frame tail, read rest rest.length ≠ .ok (.frame frame tail) := by
    intro frame tail
    by_cases unfinished : Unfinished rest
    · rw [read_unfinished unfinished]
      cases rest.isEmpty <;> simp
    · rw [read_damaged unfinished stops]
      simp
  rw [readAll]
  split
  · rename_i found
    exact absurd found (ended _ _)
  · rfl

theorem Parts.readAll_eq {content : Bytes} {frames : List Frame} {rest : Bytes}
    (parts : Parts content frames rest) :
    readAll content content.length = (frames, read rest rest.length) := by
  obtain ⟨rfl, fits, stops⟩ := parts
  induction frames with
  | nil => exact readAll_of_stops stops
  | cons frame frames ih =>
    obtain ⟨first, others⟩ := List.forall_mem_cons.1 fits
    rw [encodeAll_cons, List.append_assoc, readAll_encode first, ih others]

end Frame

end AttributeIndex
