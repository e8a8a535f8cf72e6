import AttributeIndex.Proofs.SetTable.Calls
import AttributeIndex.Proofs.SetTable.Slots

namespace AttributeIndex

open Observed

/-! ## Verdicts -/

namespace Codec

variable {D : Type}

def check (codec : Codec D) (list : List D) : Except Error Unit := do
  Error.requireArgument (list.length ≤ maxFieldLength) "tree" "tree.len() <= MAX_PREFIXED_LEN"
  discard (encodeElements codec list)

variable {codec : Codec D}

theorem check_of_fits {list : List D} (fits : codec.Fits list) : codec.check list = .ok () := by
  obtain ⟨elements, encoded⟩ := exists_encodeElements.2 fits.accepts
  rw [check, encoded, Error.requireArgument, decide_eq_true fits.length_le]
  rfl

variable [Ord D] {set : OrderedSet D compare}

theorem check_eq (ordered : set.Ordered) :
    codec.check set.toList = (codec.set.encode set).map fun _ => () := by
  rw [check, Codec.set, ← ordered.size_eq]
  dsimp only
  cases Error.requireArgument (set.size ≤ maxFieldLength) "tree" "tree.len() <= MAX_PREFIXED_LEN" with
  | error failure => rfl
  | ok fits => cases encodeElements codec set.toList <;> rfl

theorem fits_of_isOk {α β : Type} {first : Unit → α} {second : α → β} (ordered : set.Ordered)
    (passed : (((codec.check set.toList).map first).map second).isOk = true) :
    codec.Fits set.toList := by
  rw [check_eq ordered] at passed
  cases encoded : codec.set.encode set with
  | error failure => simp [encoded, Except.map, Except.isOk, Except.toBool] at passed
  | ok bytes => exact (exists_encode_set ordered).1 ⟨bytes, encoded⟩

def insertion (codec : Codec D) (list : List D) (element : D) : Except Error Bool :=
  if Sequence.has compare element list then .ok false
  else (codec.check (Sequence.add compare element list)).map fun _ => true

def removal (codec : Codec D) (list : List D) (element : D) : Except Error Bool :=
  if !Sequence.has compare element list then .ok false
  else if (Sequence.erase compare element list).isEmpty then .ok true
  else (codec.check (Sequence.erase compare element list)).map fun _ => true

theorem removal_of_fits {list : List D} (fits : codec.Fits list) (element : D) :
    codec.removal list element = .ok (Sequence.has compare element list) := by
  rw [removal, check_of_fits (fits.erase element)]
  cases Sequence.has compare element list with
  | false => rfl
  | true => simp [Except.map]

variable [Std.TransOrd D]

theorem insertion_eq (ordered : set.Ordered) (element : D) :
    codec.insertion set.toList element =
      if (set.insert element).1 then
        (codec.check (set.insert element).2.toList).map fun _ => true
      else .ok false := by
  rw [insertion, OrderedSet.inserted_insert ordered, OrderedSet.toList_insert ordered]
  cases Sequence.has compare element set.toList <;> rfl

theorem removal_eq (ordered : set.Ordered) (element : D) :
    codec.removal set.toList element =
      if !(set.erase element).1 then .ok false
      else if (set.erase element).2.isEmpty then .ok true
      else (codec.check (set.erase element).2.toList).map fun _ => true := by
  have empty : (Sequence.erase compare element set.toList).isEmpty = (set.erase element).2.isEmpty := by
    rw [Bool.eq_iff_iff, OrderedSet.isEmpty_iff (OrderedSet.ordered_erase ordered element),
      OrderedSet.toList_erase ordered, List.isEmpty_iff]
  rw [removal, OrderedSet.removed_erase ordered, OrderedSet.toList_erase ordered, empty]

theorem size_eq_one_iff (ordered : set.Ordered) {element : D}
    (present : (set.erase element).1 = true) :
    set.size = 1 ↔ (set.erase element).2.isEmpty = true := by
  have smaller := OrderedSet.ordered_erase ordered element
  rw [OrderedSet.removed_erase ordered] at present
  have fewer := Sequence.length_erase ordered.ascending present
  rw [OrderedSet.isEmpty_iff smaller, OrderedSet.toList_erase ordered, ← List.length_eq_zero_iff,
    ordered.size_eq]
  omega

end Codec

namespace Request

variable {D : Type} [Ord D]

def key? : Request D → Option Bytes
  | put key _ | remove key _ | take key | contains key _ | countOf key | elements key
  | firstElement key => some key
  | slots | sync => none

/-- The answer to a request about the key of a set. A change is refused if the codec refuses the set
that it would leave. -/
def verdict (codec : Codec D) (set? : Option (List D)) : Request D → Except Error (Answer D)
  | put _ element => (codec.insertion (set?.getD []) element).map .flag
  | remove _ element => (codec.removal (set?.getD []) element).map .flag
  | take _ | elements _ => .ok (.set set?)
  | contains _ element => .ok (.flag (Sequence.has compare element (set?.getD [])))
  | countOf _ => .ok (.number (set?.getD []).length)
  | firstElement _ => .ok (.element (set?.getD []).head?)
  | slots | sync => .ok .done

end Request

namespace SetTable

open Layout

variable {σ D : Type} [Ord D]

section Readings

variable [Observed σ]

def held (table : SetTable σ D) (id : UInt64) : Except Error (OrderedSet D compare) :=
  match table.sets.find? id with
  | some cached => .ok cached.set
  | none =>
    match (contents table.stores.overflow).find? (recordKey id) with
    | some bytes => table.codec.set.decode bytes
    | none => .error (.notFound (table.name ++ " overflow record " ++ toString id.toNat))

def reading (table : SetTable σ D) (key : Bytes) : Except Error (Option (OrderedSet D compare)) :=
  match table.layout.readSlot key with
  | .error failure => .error failure
  | .ok none => .ok none
  | .ok (some (.inline set)) => .ok (some set)
  | .ok (some (.overflow redirect)) => (table.held redirect.recordId).map some

def listing (table : SetTable σ D) (key : Bytes) : Except Error (Option (List D)) :=
  (table.reading key).map (·.map OrderedSet.toList)

def spares (table : SetTable σ D) (request : Request D) : Bool :=
  match request.key?.bind table.layout.slot? with
  | some (.overflow redirect) =>
    match table.held redirect.recordId with
    | .ok set => (request.verdict table.codec (some set.toList)).isOk
    | .error _ => true
  | _ => true

theorem spared {table : SetTable σ D} {request : Request D} (spares : table.spares request = true)
    {key : Bytes} (about : request.key? = some key) {id : UInt64} (leads : table.layout.Leads key id)
    {set : OrderedSet D compare} (isHeld : table.held id = .ok set) :
    (request.verdict table.codec (some set.toList)).isOk = true := by
  have slot : table.layout.slot? key = some (.overflow ⟨id⟩) := leads
  rw [SetTable.spares, about, Option.bind_some, slot] at spares
  simpa only [isHeld] using spares

structure Ready (table : SetTable σ D) : Prop where
  live : table.Live
  cacheOrdered : table.layout.CacheOrdered
  flushable : table.layout.Flushable

end Readings

end SetTable

/-! ## What keeps waiting sets fit to be written -/

namespace Layout

variable {D : Type} [Ord D] {key : Bytes} {list : List D} {before after : Layout D}

theorem Change.flushable (change : Change key list before after) (flushable : before.Flushable)
    (written : ∀ id cached, before.Leads key id → after.Leads key id →
      after.sets.find? id = some cached → before.codec.Fits cached.set.toList) :
    after.Flushable := by
  intro id cached found dirty
  cases change with
  | write | drop => exact flushable id cached found dirty
  | @rewrite _ changed _ set leads present ordered nonempty =>
    by_cases same : id = changed
    · rw [same] at found
      exact written changed cached leads leads found
    · rw [Lru.find?_modify, if_neg same] at found
      exact flushable id cached found dirty
  | migrate vacant ordered nonempty encoded notFull full =>
    rw [Lru.find?_insert notFull] at found
    split at found
    · cases found
      cases dirty
    · exact flushable id cached found dirty
  | release leads =>
    rw [Lru.find?_erase] at found
    split at found
    · cases found
    · exact flushable id cached found dirty

end Layout

namespace SetTable

open Layout

section Ready

variable {σ D : Type} [Ord D] [Observed σ] {table after : SetTable σ D}

theorem Ready.of_cache (ready : Ready table) (kept : Kept table after)
    (codec : after.codec = table.codec) (sets : after.sets = table.sets) : Ready after := by
  have located : ∀ id cached, after.sets.find? id = some cached → table.sets.find? id = some cached :=
    fun id cached found => sets ▸ found
  refine ⟨kept.live_iff.2 ready.live, ⟨?_, fun id cached found => ?_⟩, fun id cached found dirty => ?_⟩
  · show after.sets.Bounded
    rw [sets]
    exact ready.cacheOrdered.bounded
  · exact ready.cacheOrdered.ordered id cached (located id cached found)
  · show after.codec.Fits cached.set.toList
    rw [codec]
    exact ready.flushable id cached (located id cached found) dirty

theorem Ready.of_same (ready : Ready table) (kept : Kept table after)
    (same : after.layout = table.layout) : Ready after :=
  ready.of_cache kept (congrArg Layout.codec same) (congrArg Layout.sets same)

theorem Ready.moves [Std.TransOrd D] (ready : Ready table) (kept : Kept table after)
    (moves : Moves table.layout after.layout) : Ready after :=
  ⟨kept.live_iff.2 ready.live, moves.cacheOrdered ready.cacheOrdered, moves.flushable ready.flushable⟩

theorem Ready.change (ready : Ready table) {key : Bytes} {list : List D} (kept : Kept table after)
    (change : Change key list table.layout after.layout)
    (written : ∀ id cached, table.layout.Leads key id → after.layout.Leads key id →
      after.sets.find? id = some cached → table.codec.Fits cached.set.toList) : Ready after :=
  ⟨kept.live_iff.2 ready.live, change.cacheOrdered ready.cacheOrdered,
    change.flushable ready.flushable written⟩

theorem held_congr (kept : Kept table after) (same : after.layout = table.layout) (id : UInt64) :
    after.held id = table.held id := by
  have sets : after.sets = table.sets := congrArg Layout.sets same
  have records : contents after.stores.overflow = contents table.stores.overflow :=
    congrArg Layout.records same
  have codec : after.codec = table.codec := congrArg Layout.codec same
  rw [held, held, sets, records, codec, kept.name_eq]

theorem Ready.ordered_of_held [Std.TransOrd D] (ready : Ready table) {id : UInt64}
    {set : OrderedSet D compare} (isHeld : table.held id = .ok set) : set.Ordered := by
  rw [held] at isHeld
  split at isHeld
  · rename_i cached found
    cases isHeld
    exact ready.cacheOrdered.ordered id cached found
  · split at isHeld
    · exact Codec.ordered_of_decode isHeld
    · cases isHeld

theorem Ready.ordered_of_reading [Std.TransOrd D] (ready : Ready table) {key : Bytes}
    {set : OrderedSet D compare} (read : table.reading key = .ok (some set)) : set.Ordered := by
  rw [reading] at read
  split at read
  · cases read
  · cases read
  · rename_i inline slot
    cases read
    exact ordered_inline (slot?_of_readSlot slot)
  · rename_i redirect _
    cases isHeld : table.held redirect.recordId with
    | error failure => simp [isHeld, Except.map] at read
    | ok found =>
      obtain rfl : found = set := by simpa [isHeld, Except.map] using read
      exact ready.ordered_of_held isHeld

structure Opened (table after : SetTable σ D) : Prop extends Kept table after where
  ready : Ready after
  layout_eq : after.layout = table.layout

theorem Opened.codec_eq (opened : Opened table after) : after.codec = table.codec :=
  congrArg Layout.codec opened.layout_eq

end Ready

end SetTable

end AttributeIndex
