import AttributeIndex.Proofs.SetTable.Course

namespace AttributeIndex

open Observed

namespace Layout

variable {D : Type} [Ord D]

theorem Rearranged.withinLimit {before after : Layout D} (rearranged : Rearranged before after)
    (withinLimit : before.InlineWithinLimit) : after.InlineWithinLimit where
  positive := rearranged.limit_eq ▸ withinLimit.positive
  length_le key set slot := by
    rw [rearranged.limit_eq]
    exact withinLimit.length_le key set ((rearranged.slot?_eq key).symm.trans slot)

theorem Rearranged.spare {before after : Layout D} {key : Bytes}
    (rearranged : Rearranged before after) (spare : before.Spare key) : after.Spare key := by
  intro set slot
  rw [rearranged.limit_eq]
  exact spare set ((rearranged.slot?_eq key).symm.trans slot)

structure Advanced (key : Bytes) (list : List D) (before after : Layout D) : Prop where
  coherent : after.Coherent
  counted : after.Counted
  codec_eq : after.codec = before.codec
  limit_eq : after.limit = before.limit
  elsewhere : ∀ other, other ≠ key → after.slot? other = before.slot? other
  view_eq : after.view = before.view.store key list

theorem Changed.recount {key : Bytes} {list : List D} {before after : Layout D} {count : Nat}
    (changed : Changed key list before after) (coherent : after.Coherent) (counted : before.Counted)
    (recounted : count + (before.view.setOf key).length = before.count + list.length) :
    Advanced key list before { after with count } := by
  have stored := SetMap.total_store before.view key list
  refine ⟨⟨coherent.faithful, coherent.holds, coherent.distinct, coherent.issued, coherent.bounded,
    fun id cached found => ?_, coherent.filed⟩, ?_, changed.codec_eq, changed.limit_eq, changed.elsewhere,
    changed.view_eq⟩
  · have backs := coherent.backs id cached found
    exact ⟨backs.ordered, backs.owned, backs.clean⟩
  show count = after.view.total
  rw [changed.view_eq]
  rw [Counted] at counted
  omega

theorem Advanced.withinLimit {key : Bytes} {list : List D} {before after : Layout D}
    (advanced : Advanced key list before after) (withinLimit : before.InlineWithinLimit)
    (here : ∀ set, after.slot? key = some (.inline set) → set.toList.length ≤ before.limit) :
    after.InlineWithinLimit where
  positive := advanced.limit_eq ▸ withinLimit.positive
  length_le other set slot := by
    rw [advanced.limit_eq]
    by_cases same : other = key
    · exact here set (same ▸ slot)
    · exact withinLimit.length_le other set ((advanced.elsewhere other same).symm.trans slot)

theorem Advanced.spare {key other : Bytes} {list : List D} {before after : Layout D}
    (advanced : Advanced key list before after) (different : other ≠ key)
    (spare : before.Spare other) : after.Spare other := by
  intro set slot
  rw [advanced.limit_eq]
  exact spare set ((advanced.elsewhere other different).symm.trans slot)

end Layout

namespace SetTable

open Layout

variable {σ D : Type} [Ord D] [Std.TransOrd D]

theorem Settled.advanced {before after : Layout D} (settled : Settled before after)
    (coherent : before.Coherent) (counted : before.Counted) (key : Bytes) :
    Advanced key (before.view.setOf key) before after where
  coherent := settled.coherent
  counted := by
    rw [Counted, settled.count_eq, settled.view_eq]
    exact counted
  codec_eq := settled.codec_eq
  limit_eq := settled.limit_eq
  elsewhere other _ := settled.slot?_eq other
  view_eq := by rw [settled.view_eq, coherent.proper.store_setOf]

structure Stalled (key : Bytes) (before after : Layout D) : Prop extends Rearranged before after where
  coherent : after.Coherent
  numbers : Numbers key before after

omit [Std.TransOrd D] in
theorem Settled.stalled {before after : Layout D} (settled : Settled before after) (key : Bytes) :
    Stalled key before after :=
  ⟨settled.toRearranged, settled.coherent, .inl settled.nextId_eq⟩

variable [Table σ] [LawfulTable σ] {table : SetTable σ D} {fit : Prop}

omit [Table σ] [LawfulTable σ] in
theorem Settled.change {before middle changed : Layout D} {key : Bytes} {list : List D} {count : Nat}
    (settled : Settled before middle) (change : Change key list middle changed)
    (counted : before.Counted)
    (room : changed.nextId = middle.nextId ∨ before.nextId.toNat + 1 < 2 ^ 64)
    (recounted : count + (before.view.setOf key).length = before.count + list.length) :
    Advanced key list before { changed with count } := by
  rw [← settled.nextId_eq] at room
  obtain ⟨kept, changed⟩ := change.changed settled.coherent room
  exact (Changed.of_rearranged settled.toRearranged changed).recount kept counted recounted

omit [Std.TransOrd D] [Table σ] [LawfulTable σ] in
theorem Settled.numbers {before middle after : Layout D} {key : Bytes}
    (settled : Settled before middle) (numbers : Numbers key middle after) :
    Numbers key before after := by
  rw [Numbers, settled.nextId_eq] at numbers
  exact numbers.imp_right fun ⟨full, next⟩ =>
    ⟨fun spare => full (settled.toRearranged.spare spare), next⟩

theorem elements_does {key : Bytes} (coherent : table.layout.Coherent)
    (fits : fit → table.layout.view.Fits table.layout.codec) :
    Does (elements key) table fit
      (fun answer after => Reached table ∧ Settled table.layout after ∧
        answer.map OrderedSet.toList = table.layout.view.find? key ∧
        ∀ set, answer = some set → set.Ordered)
      (Settled table.layout) := by
  refine ((elements_moves coherent.cacheOrdered
    fun fit => ⟨coherent, fits fit⟩).settled coherent).mono ?_
    fun _ settled => settled
  rintro answer after ⟨settled, reached, found, ordered⟩
  refine ⟨reached, settled, ?_, ordered⟩
  rw [found, ← settled.coherent.find?_view, settled.view_eq]

/-! ## Changing -/

structure Grown (key : Bytes) (element : D) (before after : Layout D) : Prop extends
    Advanced key (Sequence.add compare element (before.view.setOf key)) before after where
  numbers : Numbers key before after
  withinLimit : before.InlineWithinLimit → after.InlineWithinLimit

theorem put_does {key : Bytes} {element : D} (coherent : table.layout.Coherent)
    (counted : table.layout.Counted)
    (fits : fit → (table.layout.view.put key element).Fits table.layout.codec)
    (room : table.layout.nextId.toNat + 1 < 2 ^ 64) :
    Does (put key element) table fit
      (fun answer after => Reached table ∧ answer = !table.layout.view.has key element ∧
        Grown key element table.layout after)
      (Stalled key table.layout) := by
  have stalls : ∀ after, Moves table.layout after → Stalled key table.layout after :=
    fun after moves => (Settled.of_moves coherent moves).stalled key
  refine ((put_tries coherent.cacheOrdered fun fit => ⟨coherent, fits fit⟩).mono ?_ stalls ?_).toDoes
    fun _ stalled => stalled
  · rintro answer after ⟨reached, middle, prepared, puts⟩
    have settled := Settled.of_moves coherent prepared.moves
    have room : middle.nextId.toNat + 1 < 2 ^ 64 := settled.nextId_eq ▸ room
    refine ⟨reached, ?_⟩
    cases puts with
    | idle present =>
      rw [settled.view_eq] at present
      have same : Sequence.add compare element (table.layout.view.setOf key) =
          table.layout.view.setOf key := if_pos present
      refine ⟨by rw [present]; rfl, ?_, .inl settled.nextId_eq, settled.withinLimit⟩
      rw [same]
      exact settled.advanced coherent counted key
    | @grown _ changed fresh change =>
      rw [settled.view_eq] at fresh change
      have more : (Sequence.add compare element (table.layout.view.setOf key)).length =
          (table.layout.view.setOf key).length +
            if table.layout.view.has key element then 0 else 1 := Sequence.length_add
      rw [fresh, if_neg Bool.false_ne_true] at more
      have counts : changed.count = table.layout.count := change.count_eq.trans settled.count_eq
      have advanced : Advanced key _ table.layout { changed with count := changed.count + 1 } :=
        settled.change change counted (.inr (settled.nextId_eq ▸ room)) (by omega)
      refine ⟨by rw [fresh]; rfl, advanced, settled.numbers (change.numbers room), fun withinLimit => ?_⟩
      refine advanced.withinLimit withinLimit fun set slot => ?_
      have listed := setOf_of_inline slot
      rw [advanced.view_eq, SetMap.setOf_store, if_pos rfl] at listed
      rw [← listed, ← settled.limit_eq]
      exact change.length_le (settled.withinLimit withinLimit) slot
  · rintro after ⟨middle, moves, orphan⟩
    have settled := Settled.of_moves coherent moves
    obtain ⟨kept, rearranged, numbers⟩ :=
      orphan.rearranged settled.coherent (settled.nextId_eq ▸ room)
    exact ⟨settled.toRearranged.trans rearranged, kept, settled.numbers numbers⟩

structure Shrunk (key : Bytes) (list : List D) (before after : Layout D) : Prop extends
    Advanced key list before after where
  nextId_eq : after.nextId = before.nextId
  inline : ∀ set, after.slot? key = some (.inline set) →
    ∃ old, before.slot? key = some (.inline old)

omit [Std.TransOrd D] in
theorem Shrunk.length_of_inline {key : Bytes} {list : List D} {before after : Layout D}
    (shrunk : Shrunk key list before after) (withinLimit : before.InlineWithinLimit)
    {set : OrderedSet D compare}
    (slot : after.slot? key = some (.inline set)) :
    set.toList = list ∧ (before.view.setOf key).length ≤ before.limit := by
  obtain ⟨old, inline⟩ := shrunk.inline set slot
  rw [setOf_of_inline inline]
  refine ⟨?_, withinLimit.length_le key old inline⟩
  rw [← setOf_of_inline slot, shrunk.view_eq, SetMap.setOf_store, if_pos rfl]

omit [Std.TransOrd D] in
theorem Shrunk.withinLimit {key : Bytes} {list : List D} {before after : Layout D}
    (shrunk : Shrunk key list before after) (withinLimit : before.InlineWithinLimit)
    (fewer : list.length ≤ (before.view.setOf key).length) : after.InlineWithinLimit := by
  refine shrunk.toAdvanced.withinLimit withinLimit fun set slot => ?_
  obtain ⟨same, short⟩ := shrunk.length_of_inline withinLimit slot
  rw [same]
  omega

omit [Std.TransOrd D] in
theorem Shrunk.spare {key : Bytes} {list : List D} {before after : Layout D}
    (shrunk : Shrunk key list before after) (withinLimit : before.InlineWithinLimit)
    (fewer : list.length < (before.view.setOf key).length) : after.Spare key := by
  intro set slot
  obtain ⟨same, short⟩ := shrunk.length_of_inline withinLimit slot
  rw [same, shrunk.limit_eq]
  omega

omit [Std.TransOrd D] in
theorem Shrunk.still_spare {key : Bytes} {list : List D} {before after : Layout D}
    (shrunk : Shrunk key list before after) (spare : before.Spare key)
    (fewer : list.length ≤ (before.view.setOf key).length) : after.Spare key := by
  intro set slot
  obtain ⟨old, inline⟩ := shrunk.inline set slot
  have short := spare old inline
  rw [setOf_of_inline inline] at fewer
  rw [← setOf_of_inline slot, shrunk.view_eq, SetMap.setOf_store, if_pos rfl, shrunk.limit_eq]
  omega

omit [Std.TransOrd D] [Table σ] [LawfulTable σ] in
theorem Settled.unfile {before middle after : Layout D} {key : Bytes} (settled : Settled before middle)
    (unfile : Unfile key middle after) : Settled before after := by
  obtain ⟨kept, rearranged, sameId⟩ := unfile.rearranged settled.coherent
  exact ⟨settled.toRearranged.trans rearranged, kept, sameId.trans settled.nextId_eq⟩

theorem remove_does {key : Bytes} {element : D} (coherent : table.layout.Coherent)
    (counted : table.layout.Counted) (fits : fit → table.layout.view.Fits table.layout.codec) :
    Does (remove key element) table fit
      (fun answer after => Reached table ∧ answer = table.layout.view.has key element ∧
        Shrunk key (Sequence.erase compare element (table.layout.view.setOf key)) table.layout after)
      (Settled table.layout) := by
  refine ((remove_tries coherent.cacheOrdered fun fit => ⟨coherent, fits fit⟩).mono ?_
    (fun _ => .of_moves coherent) ?_).toDoes fun _ settled => settled
  · rintro answer after ⟨reached, middle, prepared, removes⟩
    have settled := Settled.of_moves coherent prepared.moves
    refine ⟨reached, ?_⟩
    cases removes with
    | idle absent =>
      rw [settled.view_eq] at absent
      rw [Sequence.erase_eq_self absent]
      exact ⟨absent.symm, settled.advanced coherent counted key, settled.nextId_eq,
        fun set found => ⟨set, (settled.slot?_eq key).symm.trans found⟩⟩
    | @shrunk _ changed present change sameId inline =>
      rw [settled.view_eq] at present change
      have fewer := Sequence.length_erase (coherent.proper.ascending key) present
      have enough := SetMap.length_setOf_le_total table.layout.view key
      rw [← counted] at enough
      have counts : changed.count = table.layout.count := change.count_eq.trans settled.count_eq
      refine ⟨present.symm, settled.change change counted (.inl sameId) (by omega),
        sameId.trans settled.nextId_eq, fun set slot => ?_⟩
      obtain ⟨old, found⟩ := inline set slot
      exact ⟨old, (settled.slot?_eq key).symm.trans found⟩
  · rintro after ⟨middle, moves, unfile⟩
    exact (Settled.of_moves coherent moves).unfile unfile

theorem take_does {key : Bytes} (coherent : table.layout.Coherent)
    (counted : table.layout.Counted) (fits : fit → table.layout.view.Fits table.layout.codec) :
    Does (take key) table fit
      (fun answer after => Reached table ∧
        answer.map OrderedSet.toList = table.layout.view.find? key ∧
        Shrunk key [] table.layout after)
      (Settled table.layout) := by
  have found := coherent.find?_view key
  refine ((take_tries coherent.cacheOrdered fun fit => ⟨coherent, fits fit⟩).mono ?_
    (fun _ => .of_moves coherent) ?_).toDoes fun _ settled => settled
  · rintro answer after ⟨reached, middle, prepared, takes⟩
    have settled := Settled.of_moves coherent prepared.moves
    have still := settled.coherent.find?_view key
    rw [settled.view_eq] at still
    refine ⟨reached, ?_⟩
    cases takes with
    | idle vacant =>
      rw [settled.slot?_eq] at vacant
      rw [vacant] at found
      have advanced := settled.advanced coherent counted key
      rw [setOf_of_none vacant] at advanced
      exact ⟨found.symm, advanced, settled.nextId_eq,
        fun set inline => ⟨set, (settled.slot?_eq key).symm.trans inline⟩⟩
    | @taken _ changed set ordered held change sameId gone =>
      rw [held] at still
      have listed : table.layout.view.setOf key = set.toList := by
        rw [SetMap.setOf, still]
        rfl
      have enough := SetMap.length_setOf_le_total table.layout.view key
      rw [← counted, listed, ← ordered.size_eq] at enough
      have counts : changed.count = table.layout.count := change.count_eq.trans settled.count_eq
      refine ⟨still.symm, settled.change change counted (.inl sameId) ?_,
        sameId.trans settled.nextId_eq, fun other inline => ?_⟩
      · rw [listed, ← ordered.size_eq, List.length_nil]
        omega
      · cases gone.symm.trans inline
  · rintro after ⟨middle, moves, unfile⟩
    exact (Settled.of_moves coherent moves).unfile unfile

end SetTable

end AttributeIndex
