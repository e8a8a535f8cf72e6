import AttributeIndex.Proofs.SetTable.Placement

namespace AttributeIndex

open Observed
open SetTable (recordKey)

namespace Layout

variable {D : Type} [Ord D]

/-- Sets have moved, but the record of the key has not been written. -/
structure Prepared (key : Bytes) (before after : Layout D) : Prop where
  moves : Moves before after
  record : ∀ id, before.Leads key id →
    after.records.find? (recordKey id) = before.records.find? (recordKey id)

theorem Prepared.refl (key : Bytes) (layout : Layout D) : Prepared key layout layout :=
  ⟨.refl, fun _ _ => rfl⟩

theorem Prepared.trans {key : Bytes} {first second third : Layout D}
    (before : Prepared key first second) (after : Prepared key second third) :
    Prepared key first third where
  moves := before.moves.trans after.moves
  record id leads :=
    (after.record id (before.moves.alike.leads_iff.2 leads)).trans (before.record id leads)

theorem Prepared.of_vacant {key : Bytes} {before after : Layout D} (moves : Moves before after)
    (vacant : ∀ id, ¬ before.Leads key id) : Prepared key before after :=
  ⟨moves, fun id leads => absurd leads (vacant id)⟩

inductive Course (key : Bytes) : Layout D → Layout D → Prop
  | idle {layout : Layout D} : Course key layout layout
  | change {before changed : Layout D} {list : List D} (change : Change key list before changed)
      (count : Nat) : Course key before { changed with count }

inductive Puts (key : Bytes) (element : D) : Bool → Layout D → Layout D → Prop
  | idle {layout : Layout D} (present : layout.view.has key element = true) :
      Puts key element false layout layout
  | grown {before changed : Layout D} (fresh : before.view.has key element = false)
      (change : Change key (Sequence.add compare element (before.view.setOf key)) before changed) :
      Puts key element true before { changed with count := changed.count + 1 }

inductive Removes (key : Bytes) (element : D) : Bool → Layout D → Layout D → Prop
  | idle {layout : Layout D} (absent : layout.view.has key element = false) :
      Removes key element false layout layout
  | shrunk {before changed : Layout D} (present : before.view.has key element = true)
      (change : Change key (Sequence.erase compare element (before.view.setOf key)) before changed)
      (sameId : changed.nextId = before.nextId)
      (inline : ∀ set, changed.slot? key = some (.inline set) →
        ∃ old, before.slot? key = some (.inline old)) :
      Removes key element true before { changed with count := changed.count - 1 }

inductive Takes (key : Bytes) : Option (OrderedSet D compare) → Layout D → Layout D → Prop
  | idle {layout : Layout D} (vacant : layout.slot? key = none) : Takes key none layout layout
  | taken {before changed : Layout D} {set : OrderedSet D compare} (ordered : set.Ordered)
      (held : (before.slot? key).bind before.held? = some set.toList)
      (change : Change key [] before changed) (sameId : changed.nextId = before.nextId)
      (gone : changed.slot? key = none) :
      Takes key (some set) before { changed with count := changed.count - set.size }

variable {key : Bytes} {before after : Layout D}

theorem Puts.course {element : D} {answer : Bool} (puts : Puts key element answer before after) :
    Course key before after := by
  cases puts with
  | idle present => exact .idle
  | grown fresh change => exact .change change _

theorem Removes.course {element : D} {answer : Bool}
    (removes : Removes key element answer before after) : Course key before after := by
  cases removes with
  | idle absent => exact .idle
  | shrunk present change sameId inline => exact .change change _

theorem Takes.course {answer : Option (OrderedSet D compare)}
    (takes : Takes key answer before after) : Course key before after := by
  cases takes with
  | idle vacant => exact .idle
  | taken ordered held change sameId gone => exact .change change _

theorem Removes.nextId_eq {element : D} {answer : Bool}
    (removes : Removes key element answer before after) : after.nextId = before.nextId := by
  cases removes with
  | idle absent => rfl
  | shrunk present change sameId inline => exact sameId

theorem Takes.nextId_eq {answer : Option (OrderedSet D compare)}
    (takes : Takes key answer before after) : after.nextId = before.nextId := by
  cases takes with
  | idle vacant => rfl
  | taken ordered held change sameId gone => exact sameId

theorem setOf_of_cached {layout : Layout D} {id : UInt64} {cached : CachedSet D}
    (leads : layout.Leads key id) (found : layout.sets.find? id = some cached) :
    layout.view.setOf key = cached.set.toList := by
  rw [setOf_view, leads, Option.bind_some]
  exact congrArg (Option.getD · []) (current?_of_cached found)

structure Loaded (key : Bytes) (id : UInt64) (set : OrderedSet D compare) (layout : Layout D) :
    Prop where
  leads : layout.Leads key id
  cached : ∃ cached, layout.sets.find? id = some cached ∧ cached.set = set
  ordered : set.Ordered

theorem Loaded.setOf_eq {layout : Layout D} {id : UInt64} {set : OrderedSet D compare}
    (loaded : Loaded key id set layout) : layout.view.setOf key = set.toList := by
  obtain ⟨cached, found, rfl⟩ := loaded.cached
  exact setOf_of_cached loaded.leads found

theorem vacant_of_inline {layout : Layout D} {set : OrderedSet D compare}
    (slot : layout.slot? key = some (.inline set)) (id : UInt64) : ¬ layout.Leads key id := by
  intro leads
  cases slot.symm.trans leads

theorem vacant_of_none {layout : Layout D} (slot : layout.slot? key = none) (id : UInt64) :
    ¬ layout.Leads key id := by
  intro leads
  cases slot.symm.trans leads

end Layout

namespace SetTable

open Layout

structure Reached {σ D : Type} [Ord D] [Observed σ] (table : SetTable σ D) : Prop where
  isClosed_eq : table.isClosed = false
  primary : isOpen table.stores.primary = true

variable {σ D : Type} [Ord D] [Std.TransOrd D] [Table σ] [LawfulTable σ] {table : SetTable σ D}
  {fit : Prop}

omit [Std.TransOrd D] in
theorem openSlot_tries {α : Type} {key : Bytes}
    {next : Option (Slot D) → Action (SetTable σ D) Error α} {ok : α → Layout D → Prop}
    {failed half : Layout D → Prop} (coherent : fit → table.layout.Coherent)
    (unchanged : failed table.layout)
    (further : ∀ after, Reached table → isOpen after.stores.primary = true →
      after.layout = table.layout →
      Tries (next (table.layout.slot? key)) after fit ok failed half) :
    Tries (do requireOpen; next (← readSlot key)) table fit ok failed half := by
  refine tries_bind (requireOpen_does.tries.mono (fun _ _ done => done) ?_ fun _ => False.elim) ?_
  · rintro _ rfl
    exact unchanged
  intro _ opened quiet ⟨openedEq, same⟩
  rw [← same] at coherent
  refine tries_bind ((readSlot_does coherent).tries.mono (fun _ _ done => done) ?_
    fun _ => False.elim) ?_
  · rintro _ rfl
    exact same ▸ unchanged
  rintro _ after calm ⟨primary, rfl, still⟩
  rw [same]
  exact further after ⟨openedEq, quiet.primary_eq ▸ primary⟩ (calm.primary_eq.trans primary)
    (still.trans same)

theorem elements_moves {key : Bytes} (cache : table.layout.CacheOrdered)
    (sound : fit → table.layout.Sound) :
    Does (elements key) table fit
      (fun answer after => Moves table.layout after ∧ Reached table ∧
        answer.map OrderedSet.toList = (after.slot? key).bind after.held? ∧
        ∀ set, answer = some set → set.Ordered)
      (Moves table.layout) := by
  refine Tries.toDoes (?_ : Tries _ _ _ _ _ fun _ => False) fun _ => False.elim
  refine openSlot_tries (fun fit => (sound fit).coherent) .refl fun after reached _ same => ?_
  have stays : Moves table.layout after.layout := same ▸ .refl
  cases slot : table.layout.slot? key with
  | none =>
    refine (does_pure ⟨stays, reached, ?_, fun set none => by cases none⟩).tries
    rw [same, slot]
    rfl
  | some entry =>
    cases entry with
    | inline set =>
      refine (does_pure ⟨stays, reached, ?_, ?_⟩).tries
      · rw [same, slot]
        rfl
      · rintro _ ⟨⟩
        exact ordered_inline slot
    | overflow redirect =>
      rw [← same] at cache sound slot
      refine (does_map ((useOverflowSet_moves cache sound slot).mono ?_ fun _ => stays.trans)).tries
      rintro set last ⟨moves, -, cached, found, rfl⟩
      refine ⟨stays.trans moves, reached, ?_, ?_⟩
      · rw [moves.alike.slot?_eq, slot]
        exact (current?_of_cached found).symm
      · rintro _ ⟨⟩
        exact (moves.cacheOrdered cache).ordered _ cached found

/-! ## Changing -/

omit [Std.TransOrd D] in
theorem recount_does {α : Type} {answer : α} (recount : Nat → Nat) {failed : Layout D → Prop} :
    Does (do
      modify fun table : SetTable σ D => { table with count := recount table.count }
      return answer) table fit
      (fun given after => given = answer ∧
        after = { table.layout with count := recount table.layout.count }) failed := by
  have tally : Does (modify fun table : SetTable σ D => { table with count := recount table.count })
      table fit (fun _ after => after = { table.layout with count := recount table.layout.count })
      failed := does_modify ⟨⟨rfl, rfl, rfl, rfl⟩, rfl⟩ rfl
  exact does_bind tally fun _ after _ tallied => does_pure ⟨rfl, tallied⟩

/-- First sets move. Then the operation does something about the set of the key, or a failing store
call breaks it off there. -/
def Alters {α : Type} (key : Bytes) (action : Action (SetTable σ D) Error α) (table : SetTable σ D)
    (fit : Prop) (change : α → Layout D → Layout D → Prop) (broken : Layout D → Layout D → Prop) :
    Prop :=
  Tries action table fit
    (fun answer after => ∃ middle, Prepared key table.layout middle ∧ change answer middle after)
    (Moves table.layout)
    (fun after => ∃ middle, Moves table.layout middle ∧ broken middle after)

section Alters

variable {α β : Type} {key : Bytes} {change : α → Layout D → Layout D → Prop}
  {broken : Layout D → Layout D → Prop}

omit [Std.TransOrd D] in
theorem Tries.alters {action : Action (SetTable σ D) Error α}
    (tries : Tries action table fit (fun answer after => change answer table.layout after)
      (fun after => after = table.layout) (broken table.layout)) :
    Alters key action table fit change broken := by
  refine tries.mono (fun answer after done => ⟨table.layout, .refl key _, done⟩) ?_
    fun after lost => ⟨table.layout, .refl, lost⟩
  rintro _ rfl
  exact .refl

omit [Std.TransOrd D] in
theorem Does.alters {action : Action (SetTable σ D) Error α}
    (does : Does action table fit (fun answer after => change answer table.layout after)
      (fun after => after = table.layout)) : Alters key action table fit change broken :=
  does.tries.alters

omit [Std.TransOrd D] in
theorem alters_pure {answer : α} (done : change answer table.layout table.layout) :
    Alters key (pure answer) table fit change broken :=
  Does.alters (does_pure done)

omit [Std.TransOrd D] in
theorem alters_bind {first : Action (SetTable σ D) Error β}
    {next : β → Action (SetTable σ D) Error α} {ready : β → Layout D → Prop}
    (does : Does first table fit
      (fun answer after => Prepared key table.layout after ∧ ready answer after)
      (Moves table.layout))
    (further : ∀ answer after, Quiet table after → ready answer after.layout →
      Alters key (next answer) after fit change broken) :
    Alters key (first >>= next) table fit change broken := by
  refine tries_bind does.tries ?_
  rintro answer after quiet ⟨prepared, reached⟩
  refine (further answer after quiet reached).mono ?_ ?_ ?_
  · rintro _ _ ⟨middle, still, done⟩
    exact ⟨middle, prepared.trans still, done⟩
  · exact fun _ moves => prepared.moves.trans moves
  · rintro _ ⟨middle, moves, lost⟩
    exact ⟨middle, prepared.moves.trans moves, lost⟩

omit [Std.TransOrd D] in
theorem Alters.recounting {first : Action (SetTable σ D) Error β}
    {uncounted : β → Layout D → Layout D → Prop} (alters : Alters key first table fit uncounted broken)
    {answer : α} (recount : Nat → Nat)
    (counted : ∀ given middle changed, uncounted given middle changed →
      change answer middle { changed with count := recount changed.count }) :
    Alters key (do
      let _ ← first
      modify fun table : SetTable σ D => { table with count := recount table.count }
      return answer) table fit change broken := by
  refine tries_bind (alters.mono (fun _ _ done => done) (fun _ left => left) fun _ lost => lost) ?_
  rintro given placed _ ⟨middle, prepared, done⟩
  refine ((recount_does recount).mono ?_ fun _ left => left).tries
  rintro _ _ ⟨rfl, rfl⟩
  exact ⟨middle, prepared, counted given middle _ done⟩

omit [Std.TransOrd D] in
theorem openSlot_alters {next : Option (Slot D) → Action (SetTable σ D) Error α}
    (coherent : fit → table.layout.Coherent)
    (further : ∀ after, isOpen after.stores.primary = true → after.layout = table.layout →
      Alters key (next (after.layout.slot? key)) after fit change broken) :
    Tries (do requireOpen; next (← readSlot key)) table fit
      (fun answer after => Reached table ∧
        ∃ middle, Prepared key table.layout middle ∧ change answer middle after)
      (Moves table.layout)
      (fun after => ∃ middle, Moves table.layout middle ∧ broken middle after) := by
  refine openSlot_tries coherent .refl fun after reached opened same => ?_
  have alters := further after opened same
  rw [Alters, same] at alters
  exact alters.mono (fun _ _ done => ⟨reached, done⟩) (fun _ left => left) fun _ lost => lost

end Alters

section Places

variable {key : Bytes} {set : OrderedSet D compare}

theorem writeInline_changes (vacant : ∀ id, ¬ table.layout.Leads key id) (ordered : set.Ordered)
    (nonempty : set.toList ≠ []) (fits : fit → table.layout.codec.Fits set.toList)
    (small : table.layout.InlineWithinLimit → set.toList.length ≤ table.layout.limit) :
    Does (writeInline key set) table fit
      (fun _ after => Change key set.toList table.layout after ∧
        after.nextId = table.layout.nextId)
      (fun after => after = table.layout) := by
  refine (writeInline_does ordered fits).mono ?_ fun _ left => left
  rintro _ _ ⟨bytes, encoded, rfl⟩
  exact ⟨.write vacant ordered nonempty encoded small, rfl⟩

omit [Std.TransOrd D] in
theorem dropSlot_changes (vacant : ∀ id, ¬ table.layout.Leads key id) :
    Does (discard (onPrimary (Table.remove key))) table fit
      (fun _ after => Change key [] table.layout after ∧ after.nextId = table.layout.nextId ∧
        after.slot? key = none)
      (fun after => after = table.layout) := by
  refine dropSlot_does.mono ?_ fun _ left => left
  rintro _ _ rfl
  refine ⟨.drop vacant, rfl, ?_⟩
  rw [slot?_erase, if_pos rfl]

omit [Std.TransOrd D] in
theorem cacheDirty_changes {id : UInt64} {old : OrderedSet D compare} {failed : Layout D → Prop}
    (loaded : Loaded key id old table.layout) (ordered : set.Ordered) (nonempty : set.toList ≠ []) :
    Does (cacheDirty id set) table fit
      (fun _ after => Change key set.toList table.layout after ∧
        after.nextId = table.layout.nextId ∧ after.slot? key = table.layout.slot? key)
      failed := by
  obtain ⟨cached, found, -⟩ := loaded.cached
  refine cacheDirty_does.mono ?_ fun _ left => left
  rintro _ _ rfl
  exact ⟨.rewrite loaded.leads found ordered nonempty, rfl, rfl⟩

theorem useOverflowSet_loads {id : UInt64} (cache : table.layout.CacheOrdered)
    (sound : fit → table.layout.Sound) (leads : table.layout.Leads key id) :
    Does (useOverflowSet id) table fit
      (fun set after => Prepared key table.layout after ∧ Loaded key id set after)
      (Moves table.layout) := by
  refine (useOverflowSet_moves cache sound leads).mono ?_ fun _ left => left
  rintro _ after ⟨moves, record, cached, found, rfl⟩
  refine ⟨⟨moves, fun other also => ?_⟩, moves.alike.leads_iff.2 leads, ⟨cached, found, rfl⟩,
    (moves.cacheOrdered cache).ordered id cached found⟩
  cases leads.symm.trans also
  exact record

end Places

/-! ## Putting -/

section Put

variable {key : Bytes} {element : D} {set : OrderedSet D compare}

omit [Std.TransOrd D] in
theorem fits_add {layout : Layout D} (fits : (layout.view.put key element).Fits layout.codec) :
    layout.codec.Fits (Sequence.add compare element (layout.view.setOf key)) := by
  have larger := fits key
  rwa [SetMap.setOf_put, if_pos rfl] at larger

def Grows (key : Bytes) (element : D) (before changed : Layout D) : Prop :=
  before.view.has key element = false ∧
    Change key (Sequence.add compare element (before.view.setOf key)) before changed

omit [Std.TransOrd D] in
theorem Alters.grown {first : Action (SetTable σ D) Error Unit} {broken : Layout D → Layout D → Prop}
    (alters : Alters key first table fit (fun _ => Grows key element) broken) :
    Alters key (do
      first
      modify fun table : SetTable σ D => { table with count := table.count + 1 }
      return true) table fit (Puts key element) broken :=
  alters.recounting (· + 1) fun _ _ _ ⟨fresh, change⟩ => .grown fresh change

theorem writeLarger_alters {broken : Layout D → Layout D → Prop}
    (vacant : ∀ id, ¬ table.layout.Leads key id)
    (fresh : table.layout.view.has key element = false) (ordered : set.Ordered)
    (elements : set.toList = Sequence.add compare element (table.layout.view.setOf key))
    (fits : fit → (table.layout.view.put key element).Fits table.layout.codec)
    (small : table.layout.InlineWithinLimit → set.toList.length ≤ table.layout.limit) :
    Alters key (writeInline key set) table fit (fun _ => Grows key element) broken := by
  refine Does.alters ((writeInline_changes vacant ordered (elements ▸ Sequence.add_ne_nil)
    (fun fit => elements ▸ fits_add (fits fit)) small).mono ?_ fun _ left => left)
  rintro _ _ ⟨change, -⟩
  exact ⟨fresh, elements ▸ change⟩

theorem migrate_alters (cache : table.layout.CacheOrdered) (flushable : fit → table.layout.Flushable)
    (opened : isOpen table.stores.primary = true) {old : OrderedSet D compare}
    (slot : table.layout.slot? key = some (.inline old))
    (fresh : table.layout.view.has key element = false) (ordered : set.Ordered)
    (elements : set.toList = Sequence.add compare element (table.layout.view.setOf key))
    (fits : fit → (table.layout.view.put key element).Fits table.layout.codec)
    (outgrown : table.layout.limit < set.toList.length) :
    Alters key (migrate key set) table fit (fun _ => Grows key element) (Orphan key) := by
  have vacant := vacant_of_inline slot
  have full : ¬ table.layout.Spare key := by
    refine not_spare element slot ?_
    rwa [← setOf_of_inline slot, ← elements]
  refine (migrate_tries cache flushable opened vacant ordered (elements ▸ Sequence.add_ne_nil)
    (fun fit => elements ▸ fits_add (fits fit)) full).mono ?_ (fun _ left => left)
    fun _ lost => lost
  rintro _ after ⟨middle, moves, change⟩
  -- The moves made room for the set; the slot, and so the set, is what it was.
  have kept : middle.view.setOf key = table.layout.view.setOf key :=
    (setOf_of_inline ((moves.alike.slot?_eq key).trans slot)).trans (setOf_of_inline slot).symm
  refine ⟨middle, .of_vacant moves vacant, ?_, ?_⟩
  · rw [SetMap.has, kept]
    exact fresh
  · rwa [elements, ← kept] at change

omit [Std.TransOrd D] in
theorem cacheLarger_alters {id : UInt64} {old : OrderedSet D compare}
    {broken : Layout D → Layout D → Prop} (loaded : Loaded key id old table.layout)
    (fresh : table.layout.view.has key element = false) (ordered : set.Ordered)
    (elements : set.toList = Sequence.add compare element (table.layout.view.setOf key)) :
    Alters key (cacheDirty id set) table fit (fun _ => Grows key element) broken := by
  refine Does.alters ((cacheDirty_changes loaded ordered (elements ▸ Sequence.add_ne_nil)).mono ?_
    fun _ left => left)
  rintro _ _ ⟨change, -⟩
  exact ⟨fresh, elements ▸ change⟩

theorem insert_alters {grown : Action (SetTable σ D) Error Bool} {broken : Layout D → Layout D → Prop}
    (ordered : set.Ordered) (listed : table.layout.view.setOf key = set.toList)
    (further : table.layout.view.has key element = false → (set.insert element).2.Ordered →
      (set.insert element).2.toList = Sequence.add compare element (table.layout.view.setOf key) →
      Alters key grown table fit (Puts key element) broken) :
    Alters key (if (set.insert element).1 = true then grown else return false) table fit
      (Puts key element) broken := by
  -- An element that the set has already is not put, nor counted.
  have inserted := OrderedSet.inserted_insert ordered element
  have elements := OrderedSet.toList_insert ordered element
  rw [← listed] at inserted elements
  by_cases present : table.layout.view.has key element = true
  · rw [show (set.insert element).1 = false from inserted.trans (congrArg not present),
      if_neg Bool.false_ne_true]
    exact alters_pure (.idle present)
  · have fresh := Bool.eq_false_of_not_eq_true present
    rw [show (set.insert element).1 = true from inserted.trans (congrArg not fresh), if_pos rfl]
    exact further fresh (OrderedSet.ordered_insert ordered element) elements

theorem put_tries {key : Bytes} {element : D} (cache : table.layout.CacheOrdered)
    (sound : fit → table.layout.Coherent ∧
      (table.layout.view.put key element).Fits table.layout.codec) :
    Tries (put key element) table fit
      (fun answer after => Reached table ∧
        ∃ middle, Prepared key table.layout middle ∧ Puts key element answer middle after)
      (Moves table.layout)
      (fun after => ∃ middle, Moves table.layout middle ∧ Orphan key middle after) := by
  refine openSlot_alters (fun fit => (sound fit).1) fun after opened same => ?_
  rw [← same] at cache sound
  have fits : fit → (after.layout.view.put key element).Fits after.layout.codec :=
    fun fit => (sound fit).2
  have sound : fit → after.layout.Sound := fun fit => ⟨(sound fit).1, (sound fit).2.of_put⟩
  dsimp only
  cases slot : after.layout.slot? key with
  | none =>
    have listed := setOf_of_none slot
    have empty : (OrderedSet.empty : OrderedSet D compare).Ordered := OrderedSet.ordered_empty
    have fresh : after.layout.view.has key element = false := by
      rw [SetMap.has, listed]
      rfl
    have single : ((OrderedSet.empty : OrderedSet D compare).insert element).2.toList =
        Sequence.add compare element (after.layout.view.setOf key) := by
      rw [OrderedSet.toList_insert empty, listed]
      rfl
    refine (writeLarger_alters (vacant_of_none slot) fresh
      (OrderedSet.ordered_insert empty element) single fits fun withinLimit => ?_).grown
    rw [single, Sequence.length_add, listed]
    exact withinLimit.positive
  | some entry =>
    cases entry with
    | inline set =>
      refine insert_alters (ordered_inline slot) (setOf_of_inline slot) fun fresh larger elements => ?_
      refine tries_get_bind ?_
      have vacant := vacant_of_inline slot
      split
      · rename_i outgrown
        exact (migrate_alters cache (fun fit => (sound fit).flushable) opened slot fresh larger
          elements fits (larger.size_eq ▸ outgrown)).grown
      · rename_i small
        exact (writeLarger_alters vacant fresh larger elements fits
          fun _ => larger.size_eq ▸ Nat.le_of_not_lt small).grown
    | overflow redirect =>
      refine alters_bind (useOverflowSet_loads cache sound slot) fun set used quiet loaded => ?_
      refine insert_alters loaded.ordered loaded.setOf_eq fun fresh larger elements => ?_
      exact (cacheLarger_alters loaded fresh larger elements).grown

end Put

/-! ## Removing -/

section Remove

variable {key : Bytes} {element : D} {set : OrderedSet D compare}

structure Shrinks (key : Bytes) (element : D) (before changed : Layout D) : Prop where
  present : before.view.has key element = true
  change : Change key (Sequence.erase compare element (before.view.setOf key)) before changed
  sameId : changed.nextId = before.nextId
  inline : ∀ set, changed.slot? key = some (.inline set) →
    ∃ old, before.slot? key = some (.inline old)

omit [Std.TransOrd D] in
theorem Alters.shrunk {first : Action (SetTable σ D) Error Unit}
    {broken : Layout D → Layout D → Prop}
    (alters : Alters key first table fit (fun _ => Shrinks key element) broken) :
    Alters key (do
      first
      modify fun table : SetTable σ D => { table with count := table.count - 1 }
      return true) table fit (Removes key element) broken :=
  alters.recounting (· - 1) fun _ _ _ ⟨present, change, sameId, inline⟩ =>
    .shrunk present change sameId inline

omit [Std.TransOrd D] in
theorem fits_erase {layout : Layout D} (sound : layout.Sound) :
    layout.codec.Fits (Sequence.erase compare element (layout.view.setOf key)) := by
  have smaller := sound.fits.remove key element key
  rwa [SetMap.setOf_remove, if_pos rfl] at smaller

theorem writeSmaller_alters {old : OrderedSet D compare} {broken : Layout D → Layout D → Prop}
    (sound : fit → table.layout.Sound) (slot : table.layout.slot? key = some (.inline old))
    (present : table.layout.view.has key element = true) (ordered : set.Ordered)
    (elements : set.toList = Sequence.erase compare element (table.layout.view.setOf key))
    (nonempty : set.toList ≠ []) :
    Alters key (writeInline key set) table fit (fun _ => Shrinks key element) broken := by
  have fewer : set.toList.length ≤ old.toList.length := by
    rw [elements, setOf_of_inline slot]
    exact List.length_filter_le _ _
  refine Does.alters ((writeInline_changes (vacant_of_inline slot) ordered nonempty
    (fun fit => elements ▸ fits_erase (sound fit))
    fun withinLimit => fewer.trans (withinLimit.length_le key old slot)).mono ?_ fun _ left => left)
  rintro _ _ ⟨change, sameId⟩
  exact ⟨present, elements ▸ change, sameId, fun _ _ => ⟨old, slot⟩⟩

omit [Std.TransOrd D] in
theorem dropLast_alters {old : OrderedSet D compare} {broken : Layout D → Layout D → Prop}
    (slot : table.layout.slot? key = some (.inline old))
    (present : table.layout.view.has key element = true)
    (last : Sequence.erase compare element (table.layout.view.setOf key) = []) :
    Alters key (discard (onPrimary (Table.remove key))) table fit (fun _ => Shrinks key element)
      broken := by
  refine Does.alters ((dropSlot_changes (vacant_of_inline slot)).mono ?_ fun _ left => left)
  rintro _ after ⟨change, sameId, gone⟩
  refine ⟨present, last ▸ change, sameId, fun _ inline => ?_⟩
  cases gone.symm.trans inline

omit [Std.TransOrd D] in
theorem releaseLast_alters {id : UInt64} {old : OrderedSet D compare}
    (opened : isOpen table.stores.primary = true) (loaded : Loaded key id old table.layout)
    (present : table.layout.view.has key element = true)
    (last : Sequence.erase compare element (table.layout.view.setOf key) = []) :
    Alters key (release key id) table fit (fun _ => Shrinks key element) (Unfile key) := by
  obtain ⟨cached, found, -⟩ := loaded.cached
  refine Tries.alters ((release_tries opened loaded.leads found).mono ?_ (fun _ left => left)
    fun _ lost => lost)
  rintro _ after ⟨change, sameId, gone⟩
  refine ⟨present, last ▸ change, sameId, fun _ inline => ?_⟩
  cases gone.symm.trans inline

omit [Std.TransOrd D] in
theorem cacheSmaller_alters {id : UInt64} {old : OrderedSet D compare}
    {broken : Layout D → Layout D → Prop} (loaded : Loaded key id old table.layout)
    (present : table.layout.view.has key element = true) (ordered : set.Ordered)
    (elements : set.toList = Sequence.erase compare element (table.layout.view.setOf key))
    (nonempty : set.toList ≠ []) :
    Alters key (cacheDirty id set) table fit (fun _ => Shrinks key element) broken := by
  refine Does.alters ((cacheDirty_changes loaded ordered nonempty).mono ?_ fun _ left => left)
  rintro _ after ⟨change, sameId, sameSlot⟩
  refine ⟨present, elements ▸ change, sameId, fun _ inline => ?_⟩
  cases loaded.leads.symm.trans (sameSlot.symm.trans inline)

omit [Std.TransOrd D] in
theorem present_alters {wasThere : Bool} {shrunk : Action (SetTable σ D) Error Bool}
    {broken : Layout D → Layout D → Prop} (there : wasThere = table.layout.view.has key element)
    (further : table.layout.view.has key element = true →
      Alters key shrunk table fit (Removes key element) broken) :
    Alters key (if wasThere = true then shrunk else return false) table fit (Removes key element)
      broken := by
  cases wasThere with
  | false => exact alters_pure (.idle there.symm)
  | true => exact further there.symm

theorem remove_tries {key : Bytes} {element : D} (cache : table.layout.CacheOrdered)
    (sound : fit → table.layout.Sound) :
    Tries (remove key element) table fit
      (fun answer after => Reached table ∧
        ∃ middle, Prepared key table.layout middle ∧ Removes key element answer middle after)
      (Moves table.layout)
      (fun after => ∃ middle, Moves table.layout middle ∧ Unfile key middle after) := by
  refine openSlot_alters (fun fit => (sound fit).coherent) fun after opened same => ?_
  rw [← same] at cache sound
  dsimp only
  cases slot : after.layout.slot? key with
  | none =>
    refine alters_pure (.idle ?_)
    rw [SetMap.has, setOf_of_none slot]
    rfl
  | some entry =>
    cases entry with
    | inline set =>
      have ordered := ordered_inline slot
      have removed := OrderedSet.removed_erase ordered element
      have elements := OrderedSet.toList_erase ordered element
      have smaller := OrderedSet.ordered_erase ordered element
      rw [← setOf_of_inline slot] at removed elements
      refine present_alters removed fun present => ?_
      split
      · rename_i isEmpty
        exact (dropLast_alters slot present
          (elements ▸ (OrderedSet.isEmpty_iff smaller).1 isEmpty)).shrunk
      · rename_i remain
        exact (writeSmaller_alters sound slot present smaller elements
          fun empty => remain ((OrderedSet.isEmpty_iff smaller).2 empty)).shrunk
    | overflow redirect =>
      refine alters_bind (useOverflowSet_loads cache sound slot) fun set used quiet loaded => ?_
      have ordered := loaded.ordered
      have isThere := OrderedSet.contains_eq ordered element
      have elements := OrderedSet.toList_erase ordered element
      rw [← loaded.setOf_eq] at isThere elements
      refine present_alters isThere fun present => ?_
      -- The last element is told by the size, before anything is removed from the set.
      have fewer : (Sequence.erase compare element (used.layout.view.setOf key)).length + 1 =
          set.size := by
        rw [ordered.size_eq, ← loaded.setOf_eq]
        exact Sequence.length_erase (loaded.setOf_eq ▸ ordered.ascending) present
      split
      · rename_i single
        refine (releaseLast_alters (quiet.primary_eq.trans opened) loaded present ?_).shrunk
        apply List.eq_nil_of_length_eq_zero
        omega
      · rename_i several
        refine (cacheSmaller_alters loaded present (OrderedSet.ordered_erase ordered element)
          elements fun none => several ?_).shrunk
        rw [← fewer, ← elements, none]
        rfl

end Remove

section Take

variable {key : Bytes} {set : OrderedSet D compare}

structure Yields (key : Bytes) (set : OrderedSet D compare) (before changed : Layout D) : Prop where
  ordered : set.Ordered
  held : (before.slot? key).bind before.held? = some set.toList
  change : Change key [] before changed
  sameId : changed.nextId = before.nextId
  gone : changed.slot? key = none

omit [Std.TransOrd D] in
theorem Alters.yielded {first : Action (SetTable σ D) Error Unit}
    {broken : Layout D → Layout D → Prop}
    (alters : Alters key first table fit (fun _ => Yields key set) broken) :
    Alters key (do
      first
      modify fun table : SetTable σ D => { table with count := table.count - set.size }
      return some set) table fit (Takes key) broken :=
  alters.recounting (· - set.size) fun _ _ _ ⟨ordered, held, change, sameId, gone⟩ =>
    .taken ordered held change sameId gone

theorem dropSlot_yields {broken : Layout D → Layout D → Prop}
    (slot : table.layout.slot? key = some (.inline set)) :
    Alters key (discard (onPrimary (Table.remove key))) table fit (fun _ => Yields key set)
      broken := by
  refine Does.alters ((dropSlot_changes (vacant_of_inline slot)).mono ?_ fun _ left => left)
  rintro _ after ⟨change, sameId, gone⟩
  refine ⟨ordered_inline slot, ?_, change, sameId, gone⟩
  rw [slot]
  rfl

omit [Std.TransOrd D] in
theorem release_yields {id : UInt64} (opened : isOpen table.stores.primary = true)
    (loaded : Loaded key id set table.layout) :
    Alters key (release key id) table fit (fun _ => Yields key set) (Unfile key) := by
  obtain ⟨cached, found, rfl⟩ := loaded.cached
  refine Tries.alters ((release_tries opened loaded.leads found).mono ?_ (fun _ left => left)
    fun _ lost => lost)
  rintro _ after ⟨change, sameId, gone⟩
  refine ⟨loaded.ordered, ?_, change, sameId, gone⟩
  rw [loaded.leads, Option.bind_some]
  exact current?_of_cached found

theorem take_tries {key : Bytes} (cache : table.layout.CacheOrdered)
    (sound : fit → table.layout.Sound) :
    Tries (take key) table fit
      (fun answer after => Reached table ∧
        ∃ middle, Prepared key table.layout middle ∧ Takes key answer middle after)
      (Moves table.layout)
      (fun after => ∃ middle, Moves table.layout middle ∧ Unfile key middle after) := by
  refine openSlot_alters (fun fit => (sound fit).coherent) fun after opened same => ?_
  rw [← same] at cache sound
  cases slot : after.layout.slot? key with
  | none => exact alters_pure (.idle slot)
  | some entry =>
    cases entry with
    | inline set => exact (dropSlot_yields slot).yielded
    | overflow redirect =>
      refine alters_bind (useOverflowSet_loads cache sound slot) fun set used quiet loaded => ?_
      exact (release_yields (quiet.primary_eq.trans opened) loaded).yielded

end Take

end SetTable

end AttributeIndex
