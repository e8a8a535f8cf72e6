import AttributeIndex.Proofs.SetTable.Traversal

namespace AttributeIndex

inductive Request (D : Type)
  | put (key : Bytes) (element : D)
  | remove (key : Bytes) (element : D)
  | take (key : Bytes)
  | contains (key : Bytes) (element : D)
  | countOf (key : Bytes)
  | elements (key : Bytes)
  | firstElement (key : Bytes)
  | slots
  | sync

inductive Answer (D : Type)
  | done
  | flag (value : Bool)
  | number (value : Nat)
  | element (value : Option D)
  | set (value : Option (List D))
  | slots (value : List (Bytes × List D))
  deriving DecidableEq

namespace SetMap

variable {D : Type} [Ord D]

def answer (map : SetMap D) : Request D → Answer D
  | .put key element => .flag (!map.has key element)
  | .remove key element => .flag (map.has key element)
  | .take key => .set (map.find? key)
  | .contains key element => .flag (map.has key element)
  | .countOf key => .number (map.setOf key).length
  | .elements key => .set (map.find? key)
  | .firstElement key => .element (map.setOf key).head?
  | .slots => .slots map.entries
  | .sync => .done

def after (map : SetMap D) : Request D → SetMap D
  | .put key element => map.put key element
  | .remove key element => map.remove key element
  | .take key => map.take key
  | _ => map

end SetMap

namespace Request

variable {σ D : Type} [Ord D] [Table σ]

def perform : Request D → Action (SetTable σ D) Error (Answer D)
  | put key element => do return .flag (← SetTable.put key element)
  | remove key element => do return .flag (← SetTable.remove key element)
  | take key => do return .set ((← SetTable.take key).map OrderedSet.toList)
  | contains key element => do return .flag (← SetTable.contains key element)
  | countOf key => do return .number (← SetTable.countOf key)
  | elements key => do return .set ((← SetTable.elements key).map OrderedSet.toList)
  | firstElement key => do return .element (← SetTable.firstElement key)
  | slots => do return .slots ((← SetTable.slots).map fun entry => (entry.1, entry.2.toList))
  | sync => do
    SetTable.sync
    return .done

def isReading : Request D → Bool
  | put .. | remove .. | take .. => false
  | _ => true

end Request

theorem SetMap.after_of_isReading {D : Type} [Ord D] {map : SetMap D} {request : Request D}
    (reading : request.isReading = true) : map.after request = map := by
  cases request <;> first | rfl | cases reading

namespace SetTable

open Layout Observed

variable {σ D : Type} [Ord D]

/-- The layout stands for the map and has not given out more ids than allowed. -/
structure Models (codec : Codec D) (map : SetMap D) (ids : Nat) (layout : Layout D) : Prop where
  coherent : layout.Coherent
  counted : layout.Counted
  codec_eq : layout.codec = codec
  view_eq : layout.view = map
  nextId_le : layout.nextId.toNat ≤ ids

variable {codec : Codec D} {map : SetMap D} {ids : Nat}

theorem Models.settled {before after : Layout D} (models : Models codec map ids before)
    (settled : Settled before after) : Models codec map ids after where
  coherent := settled.coherent
  counted := by
    rw [Counted, settled.count_eq, settled.view_eq]
    exact models.counted
  codec_eq := settled.codec_eq.trans models.codec_eq
  view_eq := settled.view_eq.trans models.view_eq
  nextId_le := settled.nextId_eq ▸ models.nextId_le

theorem Models.later {layout : Layout D} (models : Models codec map ids layout) {more : Nat}
    (enough : ids ≤ more) : Models codec map more layout :=
  ⟨models.coherent, models.counted, models.codec_eq, models.view_eq,
    Nat.le_trans models.nextId_le enough⟩

theorem Numbers.le_succ {key : Bytes} {before after : Layout D} (numbers : Numbers key before after)
    (small : before.nextId.toNat ≤ ids) : after.nextId.toNat ≤ ids + 1 := by
  rcases numbers with same | ⟨-, next⟩
  · rw [same]
    omega
  · omega

theorem Models.stalled {key : Bytes} {before after : Layout D} (models : Models codec map ids before)
    (stalled : Stalled key before after) : Models codec map (ids + 1) after where
  coherent := stalled.coherent
  counted := by
    rw [Counted, stalled.count_eq, stalled.view_eq]
    exact models.counted
  codec_eq := stalled.codec_eq.trans models.codec_eq
  view_eq := stalled.view_eq.trans models.view_eq
  nextId_le := Numbers.le_succ stalled.numbers models.nextId_le

theorem Models.advanced {key : Bytes} {list : List D} {before after : Layout D}
    (models : Models codec map ids before) (advanced : Advanced key list before after) {more : Nat}
    (small : after.nextId.toNat ≤ more) : Models codec (map.store key list) more after where
  coherent := advanced.coherent
  counted := advanced.counted
  codec_eq := advanced.codec_eq.trans models.codec_eq
  view_eq := by rw [advanced.view_eq, models.view_eq]
  nextId_le := small

variable [Std.TransOrd D] [Table σ] [LawfulTable σ] {table : SetTable σ D} {fit : Prop}

theorem elements_models {key : Bytes} (models : Models codec map ids table.layout)
    (fits : fit → map.Fits codec) :
    Does (elements key) table fit
      (fun answer after => (answer.map OrderedSet.toList = map.find? key ∧
        ∀ set, answer = some set → set.Ordered) ∧ Settled table.layout after)
      (Settled table.layout) := by
  have viewFits : fit → table.layout.view.Fits table.layout.codec := by
    rw [models.view_eq, models.codec_eq]
    exact fits
  apply (elements_does models.coherent viewFits).mono
  · intro answer after ⟨_, settled, found, ordered⟩
    rw [models.view_eq] at found
    exact ⟨⟨found, ordered⟩, settled⟩
  · exact fun _ settled => settled

omit [Std.TransOrd D] in
theorem setOf_of_elements {key : Bytes} {answer : Option (OrderedSet D compare)}
    (found : answer.map OrderedSet.toList = map.find? key) :
    map.setOf key = (answer.getD .empty).toList := by
  rw [SetMap.setOf, ← found]
  cases answer with
  | none => rfl
  | some set => rfl

theorem contains_models {key : Bytes} {element : D} (models : Models codec map ids table.layout)
    (fits : fit → map.Fits codec) :
    Does (contains key element) table fit
      (fun answer after => answer = map.has key element ∧ Settled table.layout after)
      (Settled table.layout) := by
  apply does_bind (elements_models models fits)
  intro answer after _ ⟨⟨found, ordered⟩, settled⟩
  refine does_pure ⟨?_, settled⟩
  rw [SetMap.has, setOf_of_elements found]
  cases answer with
  | none => rfl
  | some set => exact OrderedSet.contains_eq (ordered set rfl) element

theorem countOf_models {key : Bytes} (models : Models codec map ids table.layout)
    (fits : fit → map.Fits codec) :
    Does (countOf key) table fit
      (fun answer after => answer = (map.setOf key).length ∧ Settled table.layout after)
      (Settled table.layout) := by
  apply does_bind (elements_models models fits)
  intro answer after _ ⟨⟨found, ordered⟩, settled⟩
  refine does_pure ⟨?_, settled⟩
  rw [setOf_of_elements found]
  cases answer with
  | none => rfl
  | some set => exact (ordered set rfl).size_eq

theorem firstElement_models {key : Bytes} (models : Models codec map ids table.layout)
    (fits : fit → map.Fits codec) :
    Does (firstElement key) table fit
      (fun answer after => answer = (map.setOf key).head? ∧ Settled table.layout after)
      (Settled table.layout) := by
  apply does_bind (elements_models models fits)
  intro answer after _ ⟨⟨found, _⟩, settled⟩
  refine does_pure ⟨?_, settled⟩
  rw [setOf_of_elements found]
  cases answer with
  | none => rfl
  | some set => exact OrderedSet.first?_eq set

theorem slots_models (models : Models codec map ids table.layout) (fits : fit → map.Fits codec) :
    Does slots table fit
      (fun answer after => answer.map (fun entry => (entry.1, entry.2.toList)) = map.entries ∧
        Settled table.layout after)
      (Settled table.layout) := by
  have viewFits : fit → table.layout.view.Fits table.layout.codec := by
    rw [models.view_eq, models.codec_eq]
    exact fits
  apply (slots_does models.coherent viewFits).mono
  · intro answer after ⟨settled, listed, _⟩
    rw [models.view_eq] at listed
    exact ⟨listed, settled⟩
  · exact fun _ settled => settled

theorem sync_models (models : Models codec map ids table.layout) (fits : fit → map.Fits codec) :
    Does sync table fit (fun _ => Settled table.layout) (Settled table.layout) := by
  have viewFits : fit → table.layout.view.Fits table.layout.codec := by
    rw [models.view_eq, models.codec_eq]
    exact fits
  apply (sync_does models.coherent viewFits).mono
  · exact fun _ _ ⟨settled, _⟩ => settled
  · exact fun _ settled => settled

theorem reading_does {request : Request D} (reading : request.isReading = true)
    (models : Models codec map ids table.layout) (fits : fit → map.Fits codec) :
    Does request.perform table fit
      (fun answer after => answer = map.answer request ∧ Models codec map ids after)
      (Models codec map ids) := by
  have kept : ∀ after, Settled table.layout after → Models codec map ids after :=
    fun _ => models.settled
  cases request with
  | put key element => cases reading
  | remove key element => cases reading
  | take key => cases reading
  | contains key element =>
    apply does_bind ((contains_models models fits).mono (fun _ _ done => done) kept)
    exact fun _ after _ ⟨same, settled⟩ => does_pure ⟨congrArg Answer.flag same, kept _ settled⟩
  | countOf key =>
    apply does_bind ((countOf_models models fits).mono (fun _ _ done => done) kept)
    exact fun _ after _ ⟨same, settled⟩ => does_pure ⟨congrArg Answer.number same, kept _ settled⟩
  | elements key =>
    apply does_bind ((elements_models models fits).mono (fun _ _ done => done) kept)
    exact fun _ after _ ⟨⟨found, _⟩, settled⟩ =>
      does_pure ⟨congrArg Answer.set found, kept _ settled⟩
  | firstElement key =>
    apply does_bind ((firstElement_models models fits).mono (fun _ _ done => done) kept)
    exact fun _ after _ ⟨same, settled⟩ => does_pure ⟨congrArg Answer.element same, kept _ settled⟩
  | slots =>
    apply does_bind ((slots_models models fits).mono (fun _ _ done => done) kept)
    exact fun _ after _ ⟨listed, settled⟩ => does_pure ⟨congrArg Answer.slots listed, kept _ settled⟩
  | sync =>
    apply does_bind ((sync_models models fits).mono (fun _ _ done => done) kept)
    exact fun _ after _ settled => does_pure ⟨rfl, kept _ settled⟩

theorem put_models {key : Bytes} {element : D} (models : Models codec map ids table.layout)
    (room : ids + 1 < 2 ^ 64) (fits : fit → (map.put key element).Fits codec) :
    Does (put key element) table fit
      (fun answer after => Reached table ∧ answer = (!map.has key element) ∧
        Models codec (map.put key element) (ids + 1) after ∧ Grown key element table.layout after)
      (fun after => Models codec map (ids + 1) after ∧ Stalled key table.layout after) := by
  have small := models.nextId_le
  have grows : fit → (table.layout.view.put key element).Fits table.layout.codec := by
    rw [models.view_eq, models.codec_eq]
    exact fits
  apply (put_does models.coherent models.counted grows (by omega)).mono
  · intro answer after ⟨reached, same, grown⟩
    have advanced := models.advanced grown.toAdvanced (Numbers.le_succ grown.numbers small)
    rw [models.view_eq] at same advanced
    exact ⟨reached, same, advanced, grown⟩
  · exact fun after stalled => ⟨models.stalled stalled, stalled⟩

theorem putSpare_models {key : Bytes} {element : D} (models : Models codec map ids table.layout)
    (room : ids + 1 < 2 ^ 64) (spare : table.layout.Spare key)
    (fits : fit → (map.put key element).Fits codec) :
    Does (put key element) table fit
      (fun _ after => Models codec (map.put key element) ids after ∧
        Grown key element table.layout after)
      (fun after => Models codec map ids after ∧ Stalled key table.layout after) := by
  have sameId : ∀ {after : Layout D}, Numbers key table.layout after →
      after.nextId.toNat ≤ ids := by
    intro after numbers
    obtain same | ⟨full, _⟩ := numbers
    · exact same ▸ models.nextId_le
    · exact absurd spare full
  apply (put_models models room fits).mono
  · intro _ after ⟨_, _, further, grown⟩
    exact ⟨⟨further.coherent, further.counted, further.codec_eq, further.view_eq,
      sameId grown.numbers⟩, grown⟩
  · intro after ⟨further, stalled⟩
    exact ⟨⟨further.coherent, further.counted, further.codec_eq, further.view_eq,
      sameId stalled.numbers⟩, stalled⟩

theorem remove_models {key : Bytes} {element : D} (models : Models codec map ids table.layout)
    (fits : fit → map.Fits codec) :
    Does (remove key element) table fit
      (fun answer after => Reached table ∧ answer = map.has key element ∧
        Models codec (map.remove key element) ids after ∧
        Shrunk key (Sequence.erase compare element (map.setOf key)) table.layout after)
      (fun after => Models codec map ids after ∧ Settled table.layout after) := by
  have viewFits : fit → table.layout.view.Fits table.layout.codec := by
    rw [models.view_eq, models.codec_eq]
    exact fits
  apply (remove_does models.coherent models.counted viewFits).mono
  · intro answer after ⟨reached, same, shrunk⟩
    have advanced := models.advanced shrunk.toAdvanced (shrunk.nextId_eq ▸ models.nextId_le)
    rw [models.view_eq] at same shrunk advanced
    exact ⟨reached, same, advanced, shrunk⟩
  · exact fun after settled => ⟨models.settled settled, settled⟩

theorem take_models {key : Bytes} (models : Models codec map ids table.layout)
    (fits : fit → map.Fits codec) :
    Does (take key) table fit
      (fun answer after => answer.map OrderedSet.toList = map.find? key ∧
        Models codec (map.take key) ids after)
      (Models codec map ids) := by
  have viewFits : fit → table.layout.view.Fits table.layout.codec := by
    rw [models.view_eq, models.codec_eq]
    exact fits
  apply (take_does models.coherent models.counted viewFits).mono
  · intro answer after ⟨_, found, shrunk⟩
    have advanced := models.advanced shrunk.toAdvanced (shrunk.nextId_eq ▸ models.nextId_le)
    rw [models.view_eq] at found
    exact ⟨found, advanced⟩
  · exact fun _ => models.settled

theorem perform_does (request : Request D) (models : Models codec map ids table.layout)
    (room : ids + 1 < 2 ^ 64) (fits : fit → map.Fits codec ∧ (map.after request).Fits codec) :
    Does request.perform table fit
      (fun answer after => answer = map.answer request ∧
        Models codec (map.after request) (ids + 1) after)
      (Models codec map (ids + 1)) := by
  have later : ∀ {map after}, Models codec map ids after → Models codec map (ids + 1) after :=
    fun models => models.later (Nat.le_succ ids)
  have mapFits : fit → map.Fits codec := fun fit => (fits fit).1
  cases reading : request.isReading with
  | true =>
    rw [SetMap.after_of_isReading reading]
    apply (reading_does reading models mapFits).mono
    · exact fun _ _ ⟨same, kept⟩ => ⟨same, later kept⟩
    · exact fun _ => later
  | false =>
    cases request with
    | put key element =>
      apply does_bind ((put_models models room fun fit => (fits fit).2).mono
        (fun _ _ done => done) fun _ left => left.1)
      exact fun _ _ _ ⟨_, same, further, _⟩ => does_pure ⟨congrArg Answer.flag same, further⟩
    | remove key element =>
      apply does_bind ((remove_models models mapFits).mono
        (fun _ _ done => done) fun _ left => later left.1)
      exact fun _ _ _ ⟨_, same, further, _⟩ => does_pure ⟨congrArg Answer.flag same, later further⟩
    | take key =>
      apply does_bind ((take_models models mapFits).mono (fun _ _ done => done) fun _ => later)
      exact fun _ _ _ ⟨found, further⟩ => does_pure ⟨congrArg Answer.set found, later further⟩
    | _ => cases reading

omit [Std.TransOrd D] [LawfulTable σ] in
theorem writeInline_of_refused {key : Bytes} {set : OrderedSet D compare} {failure : Error}
    (refused : table.codec.set.encode set = .error failure) :
    writeInline key set table = (.error failure, table) := by
  have unwritten : encodeSet set table = (.error failure, table) := Prod.ext refused rfl
  rw [writeInline, Action.bind_apply, unwritten]

omit [Std.TransOrd D] [LawfulTable σ] in
theorem put_of_refused {read : SetTable σ D} {key : Bytes} {element : D} {failure : Error}
    (opened : table.isClosed = false) (absent : readSlot key table = (.ok none, read))
    (refused : read.codec.set.encode (OrderedSet.empty.insert element).2 = .error failure) :
    put key element table = (.error failure, read) := by
  have passed : requireOpen table = (.ok (), table) := by
    rw [requireOpen, Action.bind_apply, Action.get_apply]
    dsimp only
    rw [opened]
    rfl
  rw [put, Action.bind_apply, passed]
  dsimp only
  rw [Action.bind_apply, absent]
  dsimp only
  rw [Action.bind_apply, writeInline_of_refused refused]

end SetTable

end AttributeIndex
