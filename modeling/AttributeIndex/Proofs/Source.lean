import AttributeIndex.Source

namespace AttributeIndex.Delivery

def bytes : Delivery → Bytes
  | chunk bytes => bytes
  | interruption | failure _ => []

def content (source : List Delivery) : Bytes :=
  source.flatMap bytes

/-- Whether filling goes on after a delivery as long as bytes are wanted. -/
def Flows : Delivery → Prop
  | chunk bytes => bytes ≠ []
  | interruption => True
  | failure _ => False

variable {source : List Delivery} {wanted : Nat}

@[simp]
theorem content_nil : content [] = [] :=
  rfl

@[simp]
theorem content_chunk (bytes : Bytes) (source : List Delivery) :
    content (chunk bytes :: source) = bytes ++ content source :=
  rfl

@[simp]
theorem content_interruption (source : List Delivery) :
    content (interruption :: source) = content source :=
  rfl

/-! ## Single deliveries -/

@[simp]
theorem gather_zero (source : List Delivery) : gather 0 source = ([], none, source) := by
  cases source <;> rfl

@[simp]
theorem gather_nil (wanted : Nat) : gather wanted [] = ([], none, []) := by
  cases wanted <;> rfl

theorem gather_interruption (positive : 0 < wanted) :
    gather wanted (interruption :: source) = gather wanted source := by
  cases wanted with
  | zero => contradiction
  | succ wanted => rw [gather]

theorem gather_end (positive : 0 < wanted) :
    gather wanted (chunk [] :: source) = ([], none, source) := by
  cases wanted with
  | zero => contradiction
  | succ wanted => rw [gather]

theorem gather_failure (positive : 0 < wanted) (error : IoError) :
    gather wanted (failure error :: source) = ([], some error, failure error :: source) := by
  cases wanted with
  | zero => contradiction
  | succ wanted => rw [gather]

theorem gather_chunk {bytes : Bytes} (nonempty : bytes ≠ []) :
    gather wanted (chunk bytes :: source) =
      if bytes.length ≤ wanted then
        (bytes ++ (gather (wanted - bytes.length) source).1, (gather (wanted - bytes.length) source).2)
      else (bytes.take wanted, none, chunk (bytes.drop wanted) :: source) := by
  obtain ⟨byte, rest, rfl⟩ := List.exists_cons_of_ne_nil nonempty
  cases wanted with
  | zero => simp
  | succ wanted => simp [gather]

theorem gather_of_short (flows : ∀ delivery ∈ source, delivery.Flows)
    (short : (content source).length < wanted) (rest : List Delivery) :
    gather wanted (source ++ rest) =
      (content source ++ (gather (wanted - (content source).length) rest).1,
        (gather (wanted - (content source).length) rest).2) := by
  induction source generalizing wanted with
  | nil => simp
  | cons delivery source ih =>
    obtain ⟨first, others⟩ := List.forall_mem_cons.1 flows
    cases delivery with
    | chunk bytes =>
      rw [content_chunk, List.length_append] at short ⊢
      rw [List.cons_append, gather_chunk first, if_pos (by omega), ih others (by omega), Nat.sub_sub,
        List.append_assoc]
    | interruption =>
      rw [content_interruption] at short ⊢
      rw [List.cons_append, gather_interruption (by omega), ih others short]
    | failure error => exact first.elim

theorem gather_of_enough (flows : ∀ delivery ∈ source, delivery.Flows)
    (enough : wanted ≤ (content source).length) :
    ∃ left, (∀ delivery ∈ left, delivery.Flows) ∧ content left = (content source).drop wanted ∧
      ∀ rest, gather wanted (source ++ rest) = ((content source).take wanted, none, left ++ rest) := by
  induction source generalizing wanted with
  | nil =>
    obtain rfl : wanted = 0 := Nat.le_zero.1 enough
    exact ⟨[], flows, rfl, gather_zero⟩
  | cons delivery source ih =>
    obtain ⟨first, others⟩ := List.forall_mem_cons.1 flows
    cases delivery with
    | chunk bytes =>
      rw [content_chunk] at enough ⊢
      -- A chunk that ends where the wanted bytes do is used up, and nothing is wanted behind it.
      rcases Nat.lt_or_ge wanted bytes.length with inside | behind
      · refine ⟨chunk (bytes.drop wanted) :: source, List.forall_mem_cons.2 ⟨?_, others⟩, ?_, ?_⟩
        · exact mt List.drop_eq_nil_iff.1 (Nat.not_le.2 inside)
        · rw [content_chunk, List.drop_append_of_le_length (Nat.le_of_lt inside)]
        · intro rest
          rw [List.cons_append, gather_chunk first, if_neg (Nat.not_le.2 inside),
            List.take_append_of_le_length (Nat.le_of_lt inside), List.cons_append]
      · rw [List.length_append] at enough
        obtain ⟨left, flowing, unread, gathered⟩ :=
          @ih (wanted - bytes.length) others (by omega)
        refine ⟨left, flowing, ?_, fun rest => ?_⟩
        · rw [unread, List.drop_append, List.drop_eq_nil_iff.2 behind, List.nil_append]
        · rw [List.cons_append, gather_chunk first, if_pos behind, gathered, List.take_append,
            List.take_of_length_le behind]
    | interruption =>
      rw [content_interruption] at enough ⊢
      rcases Nat.eq_zero_or_pos wanted with rfl | positive
      · exact ⟨interruption :: source, flows, rfl, by simp⟩
      · obtain ⟨left, flowing, unread, gathered⟩ := ih others enough
        refine ⟨left, flowing, unread, fun rest => ?_⟩
        rw [List.cons_append, gather_interruption positive, gathered]
    | failure error => exact first.elim

variable {buffer : Bytes}

theorem fill_of_gather {gathered : Bytes} {error : Option IoError} {left : List Delivery}
    (gather_eq : gather buffer.length source = (gathered, error, left)) :
    fill buffer source =
      (error.elim (.ok gathered.length) .error, gathered ++ buffer.drop gathered.length, left) := by
  rw [fill, gather_eq]
  cases error <;> rfl

theorem fill_of_short {rest left : List Delivery} {error : Option IoError}
    (flows : ∀ delivery ∈ source, delivery.Flows)
    (short : (content source).length < buffer.length)
    (stops : gather (buffer.length - (content source).length) rest = ([], error, left)) :
    fill buffer (source ++ rest) =
      (error.elim (.ok (content source).length) .error,
        content source ++ buffer.drop (content source).length, left) := by
  apply fill_of_gather
  rw [gather_of_short flows short, stops, List.append_nil]

theorem fill_of_enough (flows : ∀ delivery ∈ source, delivery.Flows)
    (enough : buffer.length ≤ (content source).length) :
    ∃ left, (∀ delivery ∈ left, delivery.Flows) ∧
      content left = (content source).drop buffer.length ∧
      ∀ rest, fill buffer (source ++ rest) =
        (.ok buffer.length, (content source).take buffer.length, left ++ rest) := by
  obtain ⟨left, flowing, unread, gathered⟩ := gather_of_enough flows enough
  refine ⟨left, flowing, unread, fun rest => ?_⟩
  rw [fill_of_gather (gathered rest), List.length_take_of_le enough, List.drop_length,
    List.append_nil]
  rfl

/-- From a source that goes on delivering, the front of a buffer takes as many bytes as there are and
fit in, the rest of it stays, and the source keeps its other bytes. What stands behind the source is
looked at only if the buffer is not full: there a delivery of no bytes ends the filling, and so does a
failure, with the bytes before it stored. -/
theorem fill_exact (buffer : Bytes) (source : List Delivery)
    (flows : ∀ delivery ∈ source, delivery.Flows) :
    let count := min buffer.length (content source).length
    let filled := (content source).take count ++ buffer.drop count
    (∃ left, (∀ delivery ∈ left, delivery.Flows) ∧ content left = (content source).drop count ∧
        fill buffer source = (.ok count, filled, left) ∧
        (buffer.length ≤ (content source).length →
          ∀ rest, fill buffer (source ++ rest) = (.ok count, filled, left ++ rest))) ∧
      ((content source).length < buffer.length → ∀ rest,
        fill buffer (source ++ chunk [] :: rest) = (.ok count, filled, rest) ∧
          ∀ error, fill buffer (source ++ failure error :: rest) =
            (.error error, filled, failure error :: rest)) := by
  intro count filled
  rcases Nat.lt_or_ge (content source).length buffer.length with short | enough
  · have counted : count = (content source).length := Nat.min_eq_right (Nat.le_of_lt short)
    have stored : filled = content source ++ buffer.drop (content source).length := by
      simp only [filled, counted, List.take_length]
    rw [counted, stored]
    have wanting : 0 < buffer.length - (content source).length := Nat.sub_pos_of_lt short
    refine ⟨⟨[], by simp, by simp, ?_, fun enough => absurd short (Nat.not_lt.2 enough)⟩,
      fun _ rest => ⟨?_, fun error => ?_⟩⟩
    · simpa using fill_of_short flows short (gather_nil _)
    · exact fill_of_short flows short (gather_end wanting)
    · exact fill_of_short flows short (gather_failure wanting error)
  · have counted : count = buffer.length := Nat.min_eq_left enough
    have stored : filled = (content source).take buffer.length := by
      simp only [filled, counted, List.drop_length, List.append_nil]
    rw [counted, stored]
    obtain ⟨left, flowing, unread, filling⟩ := fill_of_enough flows enough
    refine ⟨⟨left, flowing, unread, ?_, fun _ => filling⟩,
      fun short => absurd short (Nat.not_lt.2 enough)⟩
    simpa using filling []

theorem fill_exact_pieces :
    let source := [interruption, chunk [1, 2], interruption, chunk [3, 4, 5]]
    let error := IoError.failed "disk full"
    (∀ delivery ∈ source, delivery.Flows) ∧
      (∃ left, content left = [4, 5] ∧ fill [9, 9, 9] source = (.ok 3, [1, 2, 3], left)) ∧
      fill [9, 9, 9, 9, 9, 9] (source ++ [chunk [], chunk [6]]) =
        (.ok 5, [1, 2, 3, 4, 5, 9], [chunk [6]]) ∧
      fill [9, 9, 9, 9, 9, 9] (source ++ [failure error, chunk [6]]) =
        (.error error, [1, 2, 3, 4, 5, 9], [failure error, chunk [6]]) := by
  intro source error
  have flows : ∀ delivery ∈ source, delivery.Flows := by simp [source, Flows]
  obtain ⟨⟨left, -, unread, filled, -⟩, -⟩ := fill_exact [9, 9, 9] source flows
  obtain ⟨-, stops⟩ := fill_exact [9, 9, 9, 9, 9, 9] source flows
  obtain ⟨ended, failed⟩ := stops (by decide) [chunk [6]]
  exact ⟨flows, ⟨left, unread, filled⟩, ended, failed error⟩

end AttributeIndex.Delivery
