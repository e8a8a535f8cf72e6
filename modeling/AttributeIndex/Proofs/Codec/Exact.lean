import AttributeIndex.Proofs.Codec.Sets
import AttributeIndex.Proofs.OrderedSet.Guarded

namespace AttributeIndex

/-! ## Text -/

theorem Utf8.decode_eq_ok {text : String} {bytes : Bytes} :
    decode bytes = .ok text ↔ encode text = bytes := by
  have listed : bytes.toByteArray.data.toList = bytes := by
    rw [List.data_toByteArray]
  rw [decode, String.fromUTF8?]
  constructor
  · intro decoded
    split at decoded
    · rename_i found
      split at found
      · cases found
        cases decoded
        exact listed
      · cases found
    · cases decoded
  · rintro rfl
    have same : (encode text).toByteArray = text.toUTF8 := by
      apply ByteArray.ext
      rw [List.data_toByteArray, encode, Array.toArray_toList]
    rw [same, dif_pos (by rw [String.toUTF8_eq_toByteArray]; exact text.isValidUTF8)]
    rfl

namespace Codec

variable {α : Type}

def Exact (codec : Codec α) : Prop :=
  ∀ value bytes, codec.encode value = .ok bytes ↔ codec.decode bytes = .ok value

theorem Exact.faithful {codec : Codec α} (exact : codec.Exact) : codec.Faithful :=
  fun value bytes => (exact value bytes).1

theorem uint64_exact : uint64.Exact := by
  refine fun value bytes => ⟨uint64_faithful value bytes, fun decoded => ?_⟩
  simp only [uint64, bind_eq_ok, pure_eq_ok, Error.requireFormat_eq_ok, decide_eq_true_eq]
    at decoded
  obtain ⟨-, eight, rfl⟩ := decoded
  exact congrArg Except.ok (Bytes.ofUInt64_toUInt64 eight)

theorem bytes_exact : bytes.Exact :=
  fun _ _ => ⟨fun encoded => by cases encoded; rfl, fun decoded => by cases decoded; rfl⟩

theorem text_exact : text.Exact := by
  intro value bytes
  have read : Utf8.decode bytes = .ok value ↔ _ := Utf8.decode_eq_ok
  simp only [text, Except.ok.injEq, ← read]
  cases Utf8.decode bytes with
  | ok decoded => exact ⟨fun same => (by cases same; rfl), fun same => (by cases same; rfl)⟩
  | error fault => exact ⟨fun refused => (by cases refused), fun refused => (by cases refused)⟩

theorem redirect_exact : redirect.Exact := by
  intro value bytes
  simp only [redirect, Except.ok.injEq]
  refine ⟨?_, Redirect.encode_of_decode⟩
  rintro rfl
  exact Redirect.decode_encode value

section Elements

variable {codec : Codec α}

theorem takeNumber_eq_ok {bytes rest : Bytes} {number : Nat} :
    takeNumber bytes = .ok (number, rest) ↔
      number ≤ maxFieldLength ∧ bytes = Bytes.ofNat 4 number ++ rest := by
  refine ⟨fun taken => ?_, fun ⟨small, same⟩ => same ▸ takeNumber_append small rest⟩
  rw [takeNumber, Bytes.split?_eq] at taken
  split at taken
  · rename_i parts
    split at parts
    · rename_i long
      cases parts
      cases taken
      have four : (bytes.take 4).length = 4 := List.length_take_of_le long
      have small := Bytes.toNat_lt (bytes.take 4)
      have spelled := Bytes.ofNat_toNat (bytes.take 4)
      rw [four] at small spelled
      rw [spelled, List.take_append_drop]
      exact ⟨Nat.le_of_lt_succ small, rfl⟩
    · cases parts
  · cases taken

theorem decodeElements_succ {count : Nat} {bytes left : Bytes} {list : List α} :
    decodeElements codec (count + 1) bytes = .ok (list, left) ↔
      ∃ front value values rest, bytes = Bytes.ofNat 4 front.length ++ front ++ rest ∧
        front.length ≤ maxFieldLength ∧ codec.decode front = .ok value ∧
        decodeElements codec count rest = .ok (values, left) ∧ list = value :: values := by
  constructor
  · intro decoded
    rw [decodeElements, bind_eq_ok] at decoded
    obtain ⟨⟨length, behind⟩, taken, decoded⟩ := decoded
    obtain ⟨small, rfl⟩ := takeNumber_eq_ok.1 taken
    dsimp only at decoded
    rw [Bytes.split?_eq] at decoded
    split at decoded
    · cases decoded
    · rename_i front rest parts
      split at parts
      · rename_i long
        cases parts
        simp only [bind_eq_ok, pure_eq_ok, Prod.exists, Prod.mk.injEq] at decoded
        obtain ⟨value, read, values, left, others, rfl, rfl⟩ := decoded
        have sized : (behind.take length).length = length := List.length_take_of_le long
        refine ⟨_, value, values, _, ?_, sized.symm ▸ small, read, others, rfl⟩
        rw [sized, List.append_assoc, List.take_append_drop]
      · cases parts
  · rintro ⟨front, value, values, rest, rfl, short, read, others, rfl⟩
    have parts : (front ++ rest).split? front.length = some (front, rest) := by
      rw [Bytes.split?_eq, if_pos (by simp)]
      simp
    rw [decodeElements, List.append_assoc, takeNumber_append short, ok_bind]
    simp only [parts, read, others, ok_bind, pure_eq_ok]

theorem decodeElements_exact (exact : codec.Exact) {count : Nat} {bytes left : Bytes}
    {list : List α} :
    decodeElements codec count bytes = .ok (list, left) ↔
      count = list.length ∧ ∃ front, encodeElements codec list = .ok front ∧ bytes = front ++ left := by
  refine ⟨fun decoded => ⟨(length_decodeElements decoded).symm, ?_⟩, ?_⟩
  · induction count generalizing bytes list with
    | zero =>
      cases decoded
      exact ⟨[], rfl, rfl⟩
    | succ count ih =>
      obtain ⟨front, value, values, rest, rfl, short, read, others, rfl⟩ :=
        decodeElements_succ.1 decoded
      obtain ⟨tail, encodedTail, rfl⟩ := ih others
      have encoded := encodeElements_cons.2
        ⟨front, tail, (exact value front).2 read, short, encodedTail, rfl⟩
      exact ⟨_, encoded, (List.append_assoc ..).symm⟩
  · rintro ⟨rfl, front, encoded, rfl⟩
    exact decodeElements_append exact.faithful encoded left

theorem decodeElements_overlong {count more length : Nat} {bytes left behind : Bytes}
    {list : List α} (decoded : decodeElements codec count bytes = .ok (list, left))
    (taken : takeNumber left = .ok (length, behind)) (overlong : behind.length < length) :
    decodeElements codec (count + 1 + more) bytes =
      .error (.invalidFormat "len" "len <= rest.len()") := by
  induction count generalizing bytes list with
  | zero =>
    cases decoded
    have none : behind.split? length = none := by
      rw [Bytes.split?_eq, if_neg (by omega)]
    rw [Nat.zero_add, Nat.add_comm, decodeElements, taken, ok_bind]
    simp only [none]
    rfl
  | succ count ih =>
    obtain ⟨front, value, values, rest, rfl, short, read, others, rfl⟩ :=
      decodeElements_succ.1 decoded
    have parts : (front ++ rest).split? front.length = some (front, rest) := by
      rw [Bytes.split?_eq, if_pos (by simp)]
      simp
    rw [show count + 1 + 1 + more = (count + 1 + more) + 1 by omega, decodeElements,
      List.append_assoc, takeNumber_append short, ok_bind]
    simp only [parts, read, ih others, ok_bind, error_bind]

theorem encodeElements_injective (faithful : codec.Faithful) {left right : List α} {bytes : Bytes}
    (encodedLeft : encodeElements codec left = .ok bytes)
    (encodedRight : encodeElements codec right = .ok bytes) : left = right := by
  induction left generalizing right bytes with
  | nil =>
    cases encodedLeft
    have empty : 4 * right.length ≤ 0 := length_encodeElements encodedRight
    exact (List.eq_nil_of_length_eq_zero (by omega)).symm
  | cons value left ih =>
    obtain ⟨front, tail, encodedFront, short, encodedTail, rfl⟩ := encodeElements_cons.1 encodedLeft
    cases right with
    | nil => cases encodedRight
    | cons other right =>
      obtain ⟨front', tail', encodedFront', short', encodedTail', same⟩ :=
        encodeElements_cons.1 encodedRight
      have taken := takeNumber_append short (front ++ tail)
      rw [← List.append_assoc, same, List.append_assoc, takeNumber_append short'] at taken
      obtain ⟨sized, behind⟩ := Prod.mk.inj (Except.ok.inj taken)
      obtain ⟨rfl, rfl⟩ := List.append_inj behind sized
      cases (faithful value front' encodedFront).symm.trans (faithful other front' encodedFront')
      rw [ih encodedTail encodedTail']

end Elements

/-! ## Sets -/

section Sets

open OrderedSet Sequence

variable [Ord α] [Std.TransOrd α] {element : Codec α} (exact : element.Exact)
include exact

omit [Std.TransOrd α] in
theorem decode_set_exact {bytes : Bytes} {set : OrderedSet α compare} :
    element.set.decode bytes = .ok set ↔
      ∃ values elements, values.length ≤ maxFieldLength ∧
        encodeElements element values = .ok elements ∧
        bytes = Bytes.ofNat 4 values.length ++ elements ∧ ofSorted values = .ok set := by
  rw [decode_set_ok]
  constructor
  · rintro ⟨count, rest, values, counted, -, decoded, built⟩
    obtain ⟨rfl, front, encoded, rfl⟩ := (decodeElements_exact exact).1 decoded
    obtain ⟨small, rfl⟩ := takeNumber_eq_ok.1 counted
    rw [List.append_nil]
    exact ⟨values, front, small, encoded, rfl, built⟩
  · rintro ⟨values, elements, small, encoded, rfl, built⟩
    have long := length_encodeElements encoded
    have decoded := decodeElements_append exact.faithful encoded []
    rw [List.append_nil] at decoded
    exact ⟨values.length, elements, values, takeNumber_append small elements, by omega, decoded,
      built⟩

theorem exists_changes_of_decode {bytes : Bytes} {read : OrderedSet α compare}
    (decoded : element.set.decode bytes = .ok read) :
    (∃ changes, read = empty.changeAll changes) ∧ element.set.encode read = .ok bytes := by
  obtain ⟨values, elements, small, encoded, rfl, built⟩ := (decode_set_exact exact).1 decoded
  obtain ⟨ordered, listed⟩ := ofSorted_ok built
  refine ⟨⟨[.replace values], ?_⟩, ?_⟩
  · simp only [changeAll, List.foldl_cons, List.foldl_nil, change, built]
  · have sized : read.size = values.length := by rw [ordered.size_eq, listed]
    exact encode_set_ok.2 ⟨sized ▸ small, elements, listed ▸ encoded, by rw [sized]⟩

theorem accepted_iff {values : List α} {elements : Bytes} {count : Nat}
    (small : count ≤ maxFieldLength) (encoded : encodeElements element values = .ok elements) :
    (∃ read, element.set.decode (Bytes.ofNat 4 count ++ elements) = .ok read) ↔
      count = values.length ∧ Ascending compare values := by
  constructor
  · rintro ⟨read, decoded⟩
    obtain ⟨values', elements', small', encoded', same, built⟩ :=
      (decode_set_exact exact).1 decoded
    have taken := takeNumber_append small elements
    rw [same, takeNumber_append small'] at taken
    cases taken
    obtain rfl := encodeElements_injective exact.faithful encoded encoded'
    obtain ⟨ordered, rfl⟩ := ofSorted_ok built
    exact ⟨rfl, ordered.ascending⟩
  · rintro ⟨rfl, ascending⟩
    obtain ⟨read, built⟩ := ofSorted_of ascending
    exact ⟨read, (decode_set_exact exact).2 ⟨values, elements, small, encoded, rfl, built⟩⟩

omit [Std.TransOrd α] in
theorem eq_nil_of_accepted {front more : Bytes} {read longer : OrderedSet α compare}
    (decoded : element.set.decode front = .ok read)
    (extended : element.set.decode (front ++ more) = .ok longer) : more = [] := by
  obtain ⟨values, elements, small, encoded, rfl, -⟩ := (decode_set_exact exact).1 decoded
  obtain ⟨values', elements', small', encoded', same, -⟩ := (decode_set_exact exact).1 extended
  have taken := takeNumber_append small (elements ++ more)
  rw [← List.append_assoc, same, takeNumber_append small'] at taken
  obtain ⟨sized, rfl⟩ := Prod.mk.inj (Except.ok.inj taken)
  -- The same number of elements is read from both, and the longer one leaves `more`.
  have shorter := decodeElements_append exact.faithful encoded more
  have whole := decodeElements_append exact.faithful encoded' []
  rw [List.append_nil, sized, shorter] at whole
  cases whole
  rfl

/-- Of a set whose count, elements and lengths fit the format, an encoding is written and read back
as the same sequence in a balanced tree; what is read is the encoding of the set that was read, and
reading succeeds just on the encodings of the sets that changes can make. So no accepted byte string
continues another, and of a run of encoded elements neither a wrong count is accepted nor any order
but the ascending one. Elements are read from the front of the input, the bytes behind them are left,
and a length that reaches past the end is refused. -/
theorem set_exact :
    (∀ changes : List (Change α), let set : OrderedSet α compare := empty.changeAll changes
      element.Fits set.toList → ∃ bytes read, element.set.encode set = .ok bytes ∧
        element.set.decode bytes = .ok read ∧ read.toList = set.toList ∧ read.Sound) ∧
    (∀ bytes, (∃ read, element.set.decode bytes = .ok read) ↔
      ∃ changes, element.set.encode (empty.changeAll changes) = .ok bytes) ∧
    (∀ bytes read, element.set.decode bytes = .ok read → element.set.encode read = .ok bytes) ∧
    (∀ front more read longer, element.set.decode front = .ok read →
      element.set.decode (front ++ more) = .ok longer → more = []) ∧
    (∀ values elements count, encodeElements element values = .ok elements →
      count ≤ maxFieldLength →
        ((∃ read, element.set.decode (Bytes.ofNat 4 count ++ elements) = .ok read) ↔
          count = values.length ∧ Ascending compare values)) ∧
    ∀ count bytes values left, decodeElements element count bytes = .ok (values, left) →
      (∃ front, encodeElements element values = .ok front ∧ bytes = front ++ left) ∧
      ∀ length behind more, takeNumber left = .ok (length, behind) → behind.length < length →
        decodeElements element (count + 1 + more) bytes =
          .error (.invalidFormat "len" "len <= rest.len()") := by
  have sound : ∀ bytes read, element.set.decode bytes = .ok read → read.Sound := by
    intro bytes read decoded
    obtain ⟨⟨changes, rfl⟩, -⟩ := exists_changes_of_decode exact decoded
    exact sound_empty.changeAll changes
  have readsBack : ∀ changes bytes, element.set.encode (empty.changeAll changes) = .ok bytes →
      ∃ read, element.set.decode bytes = .ok read ∧ read.toList = (empty.changeAll changes).toList :=
    fun changes _ encoded =>
      decode_encode_set exact.faithful (sound_empty.changeAll changes).toOrdered encoded
  refine ⟨fun changes => ?_, fun bytes => ⟨?_, ?_⟩, fun bytes read decoded => ?_,
    fun front more read longer => eq_nil_of_accepted exact,
    fun values elements count encoded small => accepted_iff exact small encoded,
    fun count bytes values left decoded => ⟨?_, fun length behind more => ?_⟩⟩
  · intro set fits
    obtain ⟨bytes, encoded⟩ := (exists_encode_set (sound_empty.changeAll changes).toOrdered).2 fits
    obtain ⟨read, decoded, same⟩ := readsBack changes bytes encoded
    exact ⟨bytes, read, encoded, decoded, same, sound bytes read decoded⟩
  · rintro ⟨read, decoded⟩
    obtain ⟨⟨changes, rfl⟩, encoded⟩ := exists_changes_of_decode exact decoded
    exact ⟨changes, encoded⟩
  · rintro ⟨changes, encoded⟩
    obtain ⟨read, decoded, -⟩ := readsBack changes bytes encoded
    exact ⟨read, decoded⟩
  · exact (exists_changes_of_decode exact decoded).2
  · exact ((decodeElements_exact exact).1 decoded).2
  · exact decodeElements_overlong decoded

end Sets

theorem set_exact_descending :
    (uint64.Exact ∧ bytes.Exact ∧ text.Exact ∧ redirect.Exact) ∧
      (∃ read, text.set.decode [0, 0, 0, 2, 0, 0, 0, 2, 0x63, 0x6E, 0, 0, 0, 2, 0xC3, 0xBC] =
        .ok read) ∧
      ¬ ∃ read, text.set.decode [0, 0, 0, 2, 0, 0, 0, 2, 0xC3, 0xBC, 0, 0, 0, 2, 0x63, 0x6E] =
        .ok read := by
  refine ⟨⟨uint64_exact, bytes_exact, text_exact, redirect_exact⟩, ?_, fun accepted => ?_⟩
  · have ascending : Sequence.Ascending compare ["cn", "ü"] := List.pairwise_pair.2 (by decide)
    have accepts := (set_exact text_exact).2.2.2.2.1 ["cn", "ü"] _ 2 rfl (by decide)
    exact accepts.2 ⟨rfl, ascending⟩
  · have accepts := (set_exact text_exact).2.2.2.2.1 ["ü", "cn"] _ 2 rfl (by decide)
    exact absurd (List.pairwise_pair.1 (accepts.1 accepted).2) (by decide)

end Codec

end AttributeIndex
