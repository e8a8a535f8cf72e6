import AttributeIndex.Codec
import AttributeIndex.Proofs.OrderedSet.Sequence
import AttributeIndex.Proofs.Outcome
import AttributeIndex.SetTable.Opening

namespace AttributeIndex.Codec

variable {α : Type}

def Faithful (codec : Codec α) : Prop :=
  ∀ value bytes, codec.encode value = .ok bytes → codec.decode bytes = .ok value

def Accepts (codec : Codec α) (value : α) : Prop :=
  ∃ bytes, codec.encode value = .ok bytes ∧ bytes.length ≤ maxFieldLength

/-- The sequence can be written as a set: there are not too many elements, and each is accepted. -/
structure Fits (codec : Codec α) (list : List α) : Prop where
  length_le : list.length ≤ maxFieldLength
  accepts : ∀ value ∈ list, codec.Accepts value

theorem Fits.erase [Ord α] {codec : Codec α} {list : List α} (fits : codec.Fits list) (element : α) :
    codec.Fits (Sequence.erase compare element list) :=
  ⟨Nat.le_trans (List.length_filter_le _ _) fits.length_le,
    fun value member => fits.accepts value (Sequence.mem_erase.1 member).1⟩

theorem uint64_faithful : uint64.Faithful := by
  intro value bytes encoded
  cases encoded
  show (.ok (Bytes.ofUInt64 value).toUInt64 : Except Error UInt64) = .ok value
  rw [Bytes.toUInt64_ofUInt64]

theorem uint64_accepts (value : UInt64) : uint64.Accepts value :=
  ⟨Bytes.ofUInt64 value, rfl, by rw [Bytes.length_ofUInt64]; decide⟩

theorem nonzero_faithful : nonzero.Faithful := by
  intro value bytes encoded
  obtain ⟨_, _, written⟩ := bind_eq_ok.1 encoded
  exact uint64_faithful value bytes written

theorem bytes_faithful : bytes.Faithful := by
  intro value bytes encoded
  cases encoded
  rfl

/-! ## Elements -/

theorem takeNumber_append {number : Nat} (small : number ≤ maxFieldLength) (rest : Bytes) :
    takeNumber (Bytes.ofNat 4 number ++ rest) = .ok (number, rest) := by
  have spelled : Bytes.toNat (Bytes.ofNat 4 number) = number := by
    rw [Bytes.toNat_ofNat]
    exact Nat.mod_eq_of_lt (by unfold maxFieldLength UInt32.size at small; omega)
  rw [takeNumber, Bytes.split?_eq, if_pos (by simp)]
  simp only [List.take_left' (Bytes.length_ofNat 4 number),
    List.drop_left' (Bytes.length_ofNat 4 number), spelled]

theorem encodeElements_cons {codec : Codec α} {value : α} {list : List α} {bytes : Bytes} :
    encodeElements codec (value :: list) = .ok bytes ↔
      ∃ front tail, codec.encode value = .ok front ∧ front.length ≤ maxFieldLength ∧
        encodeElements codec list = .ok tail ∧
        bytes = Bytes.ofNat 4 front.length ++ front ++ tail := by
  simp only [encodeElements, bind_eq_ok, pure_eq_ok, Error.requireArgument_eq_ok,
    decide_eq_true_eq]
  constructor
  · rintro ⟨front, encodedFront, -, short, tail, encodedTail, rfl⟩
    exact ⟨front, tail, encodedFront, short, encodedTail, rfl⟩
  · rintro ⟨front, tail, encodedFront, short, encodedTail, rfl⟩
    exact ⟨front, encodedFront, (), short, tail, encodedTail, rfl⟩

theorem length_encodeElements {codec : Codec α} {list : List α} {bytes : Bytes}
    (encoded : encodeElements codec list = .ok bytes) : 4 * list.length ≤ bytes.length := by
  induction list generalizing bytes with
  | nil => exact Nat.zero_le _
  | cons value list ih =>
    obtain ⟨front, tail, -, -, encodedTail, rfl⟩ := encodeElements_cons.1 encoded
    have shorter := ih encodedTail
    simp
    omega

theorem exists_encodeElements {codec : Codec α} {list : List α} :
    (∃ bytes, encodeElements codec list = .ok bytes) ↔ ∀ value ∈ list, codec.Accepts value := by
  induction list with
  | nil => exact ⟨fun _ _ member => absurd member List.not_mem_nil, fun _ => ⟨[], rfl⟩⟩
  | cons value list ih =>
    rw [List.forall_mem_cons, ← ih]
    constructor
    · rintro ⟨bytes, encoded⟩
      obtain ⟨front, tail, encodedFront, short, encodedTail, -⟩ := encodeElements_cons.1 encoded
      exact ⟨⟨front, encodedFront, short⟩, tail, encodedTail⟩
    · rintro ⟨⟨front, encodedFront, short⟩, tail, encodedTail⟩
      exact ⟨_, encodeElements_cons.2 ⟨front, tail, encodedFront, short, encodedTail, rfl⟩⟩

theorem decodeElements_append {codec : Codec α} (faithful : codec.Faithful) {list : List α}
    {bytes : Bytes} (encoded : encodeElements codec list = .ok bytes) (rest : Bytes) :
    decodeElements codec list.length (bytes ++ rest) = .ok (list, rest) := by
  induction list generalizing bytes with
  | nil =>
    cases encoded
    rfl
  | cons value list ih =>
    obtain ⟨front, tail, encodedFront, short, encodedTail, rfl⟩ := encodeElements_cons.1 encoded
    have split : (front ++ (tail ++ rest)).split? front.length = some (front, tail ++ rest) := by
      rw [Bytes.split?_eq, if_pos (by simp)]
      simp
    rw [List.length_cons, decodeElements, List.append_assoc, List.append_assoc,
      takeNumber_append short, ok_bind]
    simp only [split, faithful _ _ encodedFront, ih encodedTail, ok_bind, pure_eq_ok]

theorem length_decodeElements {codec : Codec α} {count : Nat} {bytes left : Bytes} {list : List α}
    (decoded : decodeElements codec count bytes = .ok (list, left)) : list.length = count := by
  induction count generalizing bytes list with
  | zero =>
    cases decoded
    rfl
  | succ count ih =>
    rw [decodeElements, bind_eq_ok] at decoded
    obtain ⟨⟨length, rest⟩, -, decoded⟩ := decoded
    dsimp only at decoded
    cases split : rest.split? length with
    | none =>
      rw [split] at decoded
      cases decoded
    | some parts =>
      rw [split] at decoded
      simp only [bind_eq_ok, pure_eq_ok] at decoded
      obtain ⟨value, -, ⟨values, rest⟩, others, same⟩ := decoded
      cases same
      rw [List.length_cons, ih others]

/-! ## Sets -/

variable [Ord α] {codec : Codec α}

theorem encode_set_ok {set : OrderedSet α compare} {bytes : Bytes} :
    codec.set.encode set = .ok bytes ↔
      set.size ≤ maxFieldLength ∧ ∃ elements, encodeElements codec set.toList = .ok elements ∧
        bytes = Bytes.ofNat 4 set.size ++ elements := by
  simp only [Codec.set, bind_eq_ok, pure_eq_ok, Error.requireArgument_eq_ok, decide_eq_true_eq]
  constructor
  · rintro ⟨-, small, elements, encodedElements, rfl⟩
    exact ⟨small, elements, encodedElements, rfl⟩
  · rintro ⟨small, elements, encodedElements, rfl⟩
    exact ⟨(), small, elements, encodedElements, rfl⟩

theorem decode_set_ok {bytes : Bytes} {set : OrderedSet α compare} :
    codec.set.decode bytes = .ok set ↔
      ∃ count rest values, takeNumber bytes = .ok (count, rest) ∧ count ≤ rest.length / 4 ∧
        decodeElements codec count rest = .ok (values, []) ∧
        OrderedSet.ofSorted values = .ok set := by
  simp only [Codec.set, bind_eq_ok, Error.requireFormat_eq_ok, decide_eq_true_eq, Prod.exists]
  constructor
  · rintro ⟨count, rest, counted, -, enough, values, left, decoded, -, done, built⟩
    obtain rfl := List.isEmpty_iff.1 done
    split at built
    · rename_i sorted
      cases built
      exact ⟨count, rest, values, counted, enough, decoded, sorted⟩
    · cases built
  · rintro ⟨count, rest, values, counted, enough, decoded, built⟩
    exact ⟨count, rest, counted, (), enough, values, [], decoded, (), rfl, by rw [built]; rfl⟩

theorem exists_encode_set {set : OrderedSet α compare} (ordered : set.Ordered) :
    (∃ bytes, codec.set.encode set = .ok bytes) ↔ codec.Fits set.toList := by
  constructor
  · rintro ⟨bytes, encoded⟩
    obtain ⟨small, elements, encodedElements, -⟩ := encode_set_ok.1 encoded
    exact ⟨ordered.size_eq ▸ small, exists_encodeElements.1 ⟨elements, encodedElements⟩⟩
  · rintro ⟨small, accepts⟩
    obtain ⟨elements, encodedElements⟩ := exists_encodeElements.2 accepts
    exact ⟨_, encode_set_ok.2 ⟨ordered.size_eq ▸ small, elements, encodedElements, rfl⟩⟩

theorem size_of_decode {bytes : Bytes} {set : OrderedSet α compare}
    (decoded : codec.set.decode bytes = .ok set) : set.size = set.toList.length := by
  obtain ⟨-, -, values, -, -, -, built⟩ := decode_set_ok.1 decoded
  obtain ⟨-, rfl, counted⟩ := OrderedSet.ofSorted_eq built
  exact counted

theorem storedSize?_of_decode {bytes : Bytes} {set : OrderedSet α compare}
    (decoded : codec.set.decode bytes = .ok set) :
    SetTable.storedSize? bytes = some set.toList.length := by
  obtain ⟨count, rest, values, counted, enough, elements, built⟩ := decode_set_ok.1 decoded
  rw [(OrderedSet.ofSorted_eq built).2.1, length_decodeElements elements]
  rw [takeNumber] at counted
  rw [SetTable.storedSize?]
  cases split : bytes.split? 4 with
  | none =>
    rw [split] at counted
    cases counted
  | some parts =>
    rw [split] at counted
    cases counted
    rw [Bytes.split?_eq] at split
    split at split
    · rename_i long
      cases split
      rw [List.length_drop] at enough
      dsimp only at enough ⊢
      exact if_pos (by omega)
    · cases split

variable [Std.TransOrd α]

theorem ordered_of_decode {bytes : Bytes} {set : OrderedSet α compare}
    (decoded : codec.set.decode bytes = .ok set) : set.Ordered := by
  obtain ⟨-, -, values, -, -, -, built⟩ := decode_set_ok.1 decoded
  exact (OrderedSet.ofSorted_ok built).1

theorem decode_encode_set (faithful : codec.Faithful) {set : OrderedSet α compare}
    (ordered : set.Ordered) {bytes : Bytes} (encoded : codec.set.encode set = .ok bytes) :
    ∃ read, codec.set.decode bytes = .ok read ∧ read.toList = set.toList := by
  obtain ⟨small, elements, encodedElements, rfl⟩ := encode_set_ok.1 encoded
  obtain ⟨read, built⟩ := OrderedSet.ofSorted_of ordered.ascending
  have long := length_encodeElements encodedElements
  have enough : set.size ≤ elements.length / 4 := by
    rw [ordered.size_eq]
    omega
  have decodedElements := decodeElements_append faithful encodedElements []
  rw [List.append_nil, ← ordered.size_eq] at decodedElements
  refine ⟨read, decode_set_ok.2 ?_, (OrderedSet.ofSorted_ok built).2⟩
  exact ⟨set.size, elements, set.toList, takeNumber_append small elements, enough,
    decodedElements, built⟩

omit [Std.TransOrd α] in
theorem hasForm_encode_set {set : OrderedSet α compare} (ordered : set.Ordered) {bytes : Bytes}
    (encoded : codec.set.encode set = .ok bytes) : Redirect.hasForm bytes = false := by
  obtain ⟨small, elements, encodedElements, rfl⟩ := encode_set_ok.1 encoded
  have long := length_encodeElements encodedElements
  rw [← ordered.size_eq] at long
  refine Bool.eq_false_iff.2 fun form => ?_
  obtain ⟨sized, tagged⟩ : (Bytes.ofNat 4 set.size ++ elements).length = Redirect.size ∧
      (Bytes.ofNat 4 set.size ++ elements).take Redirect.tag.length = Redirect.tag := by
    simpa [Redirect.hasForm] using form
  have front : Bytes.ofNat 4 set.size = Redirect.tag.take 4 := by
    rw [← tagged, List.take_take]
    exact (List.take_left' (Bytes.length_ofNat 4 set.size)).symm
  have spelled : set.size % 256 ^ 4 = Bytes.toNat (Redirect.tag.take 4) := by
    rw [← front, Bytes.toNat_ofNat]
  have number : Bytes.toNat (Redirect.tag.take 4) = 1919247465 := by decide
  rw [List.length_append, Bytes.length_ofNat, Redirect.size] at sized
  rw [number] at spelled
  have below := Nat.mod_le set.size (256 ^ 4)
  omega

noncomputable def overlong : Bytes := List.replicate UInt32.size 0

theorem lt_length_overlong : maxFieldLength < overlong.length := by
  rw [overlong, List.length_replicate]
  decide

theorem encode_set_of_long {element : Bytes} (long : maxFieldLength < element.length) :
    bytes.set.encode (OrderedSet.empty.insert element).2 =
      .error (.invalidArgument "element" "bytes.len() <= MAX_PREFIXED_LEN") := by
  have refused : Error.requireArgument (element.length ≤ maxFieldLength) "element"
      "bytes.len() <= MAX_PREFIXED_LEN" =
        .error (.invalidArgument "element" "bytes.len() <= MAX_PREFIXED_LEN") := by
    rw [decide_eq_false (Nat.not_le.2 long)]
    rfl
  show (Error.requireArgument (element.length ≤ maxFieldLength) "element"
      "bytes.len() <= MAX_PREFIXED_LEN" >>= _) >>= _ = _
  rw [refused]
  rfl

end AttributeIndex.Codec
