import AttributeIndex.Proofs.Index.Changes
import AttributeIndex.Proofs.Index.HalfClosed
import AttributeIndex.Proofs.Index.Opening
import AttributeIndex.Proofs.SetTable.Failures

namespace AttributeIndex.Index

open Observed

variable {σ V : Type}

inductive Call (V : Type)
  | ask (request : Request V)
  | rawForwardSlot (value : V)
  | close

namespace Call

def perform [Table σ] : Call V → Action (Index σ V) Error Unit
  | ask request => discard request.perform
  | rawForwardSlot value => discard (Index.rawForwardSlot value)
  | close => Index.close

def isReading : Call V → Bool
  | ask request => request.isReading
  | rawForwardSlot _ => true
  | close => false

end Call

def afterCalls [Table σ] (index : Index σ V) (calls : List (Call V)) : Index σ V :=
  calls.foldl (fun index call => (call.perform index).2) index

/-- The count is that of the maps, and whatever is read in between, a reading that succeeds answers as
the maps do. If what it asks is open, it comes out as the maps say unless a store call fails during it
or some set cannot be stored. -/
structure Shows [Table σ] [Observed σ] (name : String) (codec : Codec V) (maps : Maps)
    (index : Index σ V) : Prop where
  count_eq : index.count = maps.forward.total
  answers : ∀ earlier : List (Call V), (∀ call ∈ earlier, call.isReading = true) →
    ∀ request : Request V, request.isReading = true →
      ∀ answer after, request.perform (index.afterCalls earlier) = (.ok answer, after) →
        maps.answer name codec request = .ok answer
  succeeds : ∀ earlier : List (Call V), (∀ call ∈ earlier, call.isReading = true) →
    ∀ request : Request V, request.isReading = true →
      ∀ outcome after, request.perform (index.afterCalls earlier) = (outcome, after) →
        index.LiveFor request → maps.Fits → failures after = failures (index.afterCalls earlier) →
          outcome = maps.answer name codec request

variable [Table σ] [LawfulTable σ] {codec : Codec V} {maps : Maps} {ids : Nat} {index : Index σ V}
  {name : String}

theorem rawForwardSlot_does (value : V) (models : Models codec maps ids index) :
    Does (rawForwardSlot value) index (fun _ => False) (fun _ => Settled index) (Settled index) := by
  apply keyed_does models models.refl
  · exact fun _ _ => id
  · intro key _
    have settled : ∀ forward : SetTable σ UInt64, forward.layout = index.forward.layout →
        Settled index { index with forward } :=
      fun _ same => ⟨rfl, .of_eq models.forward.coherent same, .refl models.reverse.coherent⟩
    apply Action.Meets.mono (onForward_does (SetTable.rawSlot_does key) (fun _ => id) settled)
    · rintro _ _ ⟨quiet, forward, rfl, same⟩
      exact ⟨quiet, settled forward same⟩
    · exact fun _ _ left => left

theorem reading_meets {call : Call V} (reading : call.isReading = true)
    (models : Models codec maps ids index) (named : index.config.attributeId = name) :
    call.perform.Meets index (fun _ after => Settled index after ∧ Kept index after)
      (fun _ after => Settled index after ∧ Kept index after) := by
  cases call with
  | ask request =>
    apply Action.meets_discard.2
    apply Action.Meets.mono (reads_perform reading index models named)
    · exact fun _ _ ⟨quiet, _, settled⟩ => ⟨settled, quiet.toKept⟩
    · exact fun _ _ ⟨rough, settled⟩ => ⟨settled, rough.toKept⟩
  | rawForwardSlot value =>
    apply Action.meets_discard.2
    apply Action.Meets.mono (rawForwardSlot_does value models)
    · exact fun _ _ ⟨quiet, settled⟩ => ⟨settled, quiet.toKept⟩
    · exact fun _ _ ⟨rough, settled⟩ => ⟨settled, rough.toKept⟩
  | close => cases reading

theorem afterCalls_reading {calls : List (Call V)} (reading : ∀ call ∈ calls, call.isReading = true)
    (models : Models codec maps ids index) (named : index.config.attributeId = name) :
    Models codec maps ids (index.afterCalls calls) ∧ Kept index (index.afterCalls calls) := by
  induction calls generalizing index with
  | nil => exact ⟨models, .refl index⟩
  | cons call calls ih =>
    obtain ⟨first, others⟩ := List.forall_mem_cons.1 reading
    obtain ⟨settled, kept⟩ := (reading_meets first models named).left
    obtain ⟨reached, further⟩ := ih others (models.settled settled)
      ((congrArg Config.attributeId kept.config_eq).trans named)
    exact ⟨reached, kept.trans further⟩

theorem Models.shows (models : Models codec maps ids index)
    (named : index.config.attributeId = name) : Shows name codec maps index where
  count_eq := SetTable.count_eq models.forward
  answers earlier reading request asks answer after performed := by
    obtain ⟨still, kept⟩ := afterCalls_reading reading models named
    have named := (congrArg Config.attributeId kept.config_eq).trans named
    exact (Action.Meets.ok_of (reads_perform asks _ still named) performed).2.1
  succeeds earlier reading request asks outcome after performed live fits quiet := by
    obtain ⟨still, kept⟩ := afterCalls_reading reading models named
    have named := (congrArg Config.attributeId kept.config_eq).trans named
    cases outcome with
    | ok answer => exact (Action.Meets.ok_of (reads_perform asks _ still named) performed).2.1.symm
    | error failure =>
      by_contra different
      have more := reading_blames asks still named performed (kept.liveFor live)
        ⟨fits, fun same => different same.symm⟩
      omega

/-! ## Histories -/

structure Sound (name : String) (codec : Codec V) (ids : Nat) (index : Index σ V) : Prop where
  models : Models codec index.maps ids index
  storesOpen : index.StoresOpen
  named : index.config.attributeId = name

theorem Models.sound (models : Models codec maps ids index) (storesOpen : index.StoresOpen)
    (named : index.config.attributeId = name) : Sound name codec ids index :=
  ⟨models.maps_eq ▸ models, storesOpen, named⟩

theorem Sound.kept {after : Index σ V} (sound : Sound name codec ids index) (kept : Kept index after)
    (withinLimit : index.forward.layout.InlineWithinLimit → after.forward.layout.InlineWithinLimit)
    {more : Nat}
    (models : Models codec maps more after) : Sound name codec more after :=
  models.sound (kept.storesOpen withinLimit sound.storesOpen)
    ((congrArg Config.attributeId kept.config_eq).trans sound.named)

theorem close_sound (sound : Sound name codec ids index) :
    close.Meets index (fun _ after => Sound name codec ids after)
      (fun _ after => Sound name codec ids after) := by
  have models := sound.models
  rw [close, Action.meets_bind, Action.meets_get]
  split
  · exact sound
  · rw [Action.meets_bind, meets_onForward]
    apply (SetTable.close_meets models.forward.coherent fun impossible : False => impossible.elim).mono
    · intro _ forward ⟨_, settled, shut, _⟩
      have withinLimit := settled.withinLimit sound.storesOpen.withinLimit
      have shutOff : ∀ {reverse : SetTable σ Bytes} {isClosed : Bool},
          SetTable.Settled index.reverse.layout reverse.layout →
          Sound name codec ids { index with forward, reverse, isClosed } := by
        intro reverse isClosed further
        have same : Models codec index.maps ids { index with forward, reverse, isClosed } :=
          ⟨models.codec_eq, models.forward.settled settled, models.reverse.settled further⟩
        apply same.sound _ sound.named
        refine ⟨withinLimit, fun opened => ?_, fun opened => ?_⟩
        · cases shut.symm.trans opened
        · cases shut.symm.trans opened
      rw [Action.meets_bind, meets_onReverse]
      apply (SetTable.close_meets models.reverse.coherent
        fun impossible : False => impossible.elim).mono
      · exact fun _ _ ⟨_, further, _⟩ => shutOff further
      · exact fun _ _ ⟨_, _, further, _⟩ => shutOff further
    · intro _ forward ⟨_, _, settled, opened, _, overflow⟩
      have same : Models codec index.maps ids { index with forward } :=
        models.withForward (models.forward.settled settled)
      apply same.sound _ sound.named
      refine ⟨settled.withinLimit sound.storesOpen.withinLimit, fun _ => ?_,
        fun _ => sound.storesOpen.reverse opened⟩
      exact overflow.trans (sound.storesOpen.overflow opened)

theorem call_sound (call : Call V) (sound : Sound name codec ids index) (room : ids + 1 < 2 ^ 64) :
    Sound name codec (ids + 1) (call.perform index).2 := by
  have later : ∀ {after : Index σ V}, Sound name codec ids after → Sound name codec (ids + 1) after :=
    fun sound => ⟨sound.models.later (Nat.le_succ ids), sound.storesOpen, sound.named⟩
  cases call with
  | ask request =>
    apply Action.Meets.left
    apply Action.meets_discard.2
    apply Action.Meets.mono (perform_changes request sound.models sound.named room)
    · exact fun _ _ performed =>
        sound.kept performed.quiet.toKept performed.withinLimit performed.models
    · intro _ after undone
      obtain ⟨left, models, _⟩ := undone.models sound.storesOpen
      exact sound.kept (undone.kept sound.storesOpen)
        (fun _ => undone.withinLimit sound.storesOpen) models
  | rawForwardSlot value =>
    apply later
    obtain ⟨settled, kept⟩ := (reading_meets
      (rfl : (Call.rawForwardSlot value).isReading = true) sound.models sound.named).left
    exact sound.kept kept settled.forward.withinLimit (sound.models.settled settled)
  | close =>
    apply later
    exact (close_sound sound).left

theorem afterCalls_sound (calls : List (Call V)) (sound : Sound name codec ids index)
    (room : ids + calls.length < 2 ^ 64) :
    Sound name codec (ids + calls.length) (index.afterCalls calls) := by
  induction calls generalizing index ids with
  | nil => exact sound
  | cons call calls ih =>
    rw [List.length_cons] at room ⊢
    have step := call_sound call sound (by omega)
    have rest := ih step (by omega)
    rw [Nat.add_assoc, Nat.add_comm 1] at rest
    exact rest

/-! ## Failed changes -/

theorem openOver_sound {tables left : Tables σ} (empty : TablesEmpty tables)
    (allOpen : TablesOpen tables) {config : Config}
    (opening : openOver config codec tables = (.ok index, left)) :
    Sound config.attributeId codec 1 index := by
  have resumed := (openOver_meets empty.rests_forward empty.rests_reverse rfl rfl).ok_of opening
  have live := resumed.live allOpen
  obtain ⟨_, _, _, limited, _⟩ := Config.validate_eq_ok.1 resumed.valid
  apply resumed.models_empty.sound _ (congrArg Config.attributeId resumed.config_eq)
  refine ⟨⟨?_, fun key set slot => ?_⟩, fun _ => live.forward.overflow, fun _ => live.reverse⟩
  · exact resumed.forward.limit_eq ▸ limited
  · rw [Layout.slot?, resumed.forward.slots_eq] at slot
    cases slot

/-- A request that fails leaves both maps as they were, and so all that can be read, if at most one
store call fails during it, or none of the forward stores. Record ids have 64 bits, and the format of
stored sets limits how many elements a set has and how long they are. -/
theorem failed_request_undone {tables left : Tables σ} (empty : TablesEmpty tables)
    (allOpen : TablesOpen tables) {config : Config} {opened : Index σ V}
    (opening : openOver config codec tables = (.ok opened, left)) (history : List (Call V))
    (short : history.length + 2 < 2 ^ 64) (request : Request V) {failure : Error} {after : Index σ V}
    (failed : request.perform (opened.afterCalls history) = (.error failure, after))
    (setsFit : SetsFitFormat codec (opened.afterCalls history).maps request)
    (contained : Contained (opened.afterCalls history) after) :
    after.maps = (opened.afterCalls history).maps ∧
      ((opened.afterCalls history).maps.Agree → after.maps.Agree) ∧
      Kept (opened.afterCalls history) after ∧
      Shows config.attributeId codec (opened.afterCalls history).maps (opened.afterCalls history) ∧
      Shows config.attributeId codec (opened.afterCalls history).maps after := by
  have sound := afterCalls_sound history (openOver_sound empty allOpen opening) (by omega)
  have undone := (perform_changes request sound.models sound.named (by omega)).failed_of failed
  have kept := undone.kept sound.storesOpen
  obtain ⟨left, models, same⟩ := undone.models sound.storesOpen
  obtain rfl := same setsFit contained
  refine ⟨models.maps_eq, ?_, kept, sound.models.shows sound.named, ?_⟩
  · rw [models.maps_eq]
    exact fun agree => agree
  · exact models.shows ((congrArg Config.attributeId kept.config_eq).trans sound.named)

omit [Table σ] [LawfulTable σ] in
theorem setsFitFormat_dropEntry (fits : maps.Fits) (id : UInt64) :
    SetsFitFormat codec maps (.dropEntry id) :=
  ⟨fits, fits.forward.removeAll _ id, fits.reverse.store _ SetMap.fits_nil⟩

def overEmpty (codec : Codec V) (tables : Tables Unreliable) : Index Unreliable V where
  config := ⟨"cn", 1, 1, none⟩
  codec := codec
  forward := .overEmpty "cn.forward" .uint64 1 tables.forward
  reverse := .overEmpty "cn.reverse" .bytes 1 tables.reverse
  isClosed := false

def stubbornTables : Tables Unreliable where
  forward := {
    primary := (Unreliable.ofEntries .empty).setPlan .remove (.after 1)
    overflow := .ofEntries .empty }
  reverse := ⟨.ofEntries .empty, .ofEntries .empty⟩

def overStubborn : Index Unreliable UInt64 :=
  .overEmpty .uint64 stubbornTables

def twoValues : List (Call UInt64) :=
  [.ask (.add 5 10), .ask (.add 7 10)]

theorem failed_request_undone_dropEntry :
    ∃ left after, openOver ⟨"cn", 1, 1, none⟩ .uint64 stubbornTables = (.ok overStubborn, left) ∧
      Request.perform (.dropEntry 10) (overStubborn.afterCalls twoValues) =
        (.error (.io "cn.forward" (.failed "remove failed: disk full")), after) ∧
      SetsFitFormat .uint64 (overStubborn.afterCalls twoValues).maps (.dropEntry 10) ∧
      Contained (overStubborn.afterCalls twoValues) after ∧
      after.maps = (overStubborn.afterCalls twoValues).maps ∧
      ((overStubborn.afterCalls twoValues).maps.Agree → after.maps.Agree) ∧
      Kept (overStubborn.afterCalls twoValues) after ∧
      Shows "cn" .uint64 (overStubborn.afterCalls twoValues).maps
        (overStubborn.afterCalls twoValues) ∧
      Shows "cn" .uint64 (overStubborn.afterCalls twoValues).maps after := by
  have opening : openOver ⟨"cn", 1, 1, none⟩ .uint64 stubbornTables = (.ok overStubborn, _) := rfl
  have failed : Request.perform (.dropEntry 10) (overStubborn.afterCalls twoValues) =
      (.error (.io "cn.forward" (.failed "remove failed: disk full")), _) :=
    Prod.ext (by decide +kernel) rfl
  have forward : (overStubborn.afterCalls twoValues).maps.forward.entries =
      [(entryKey 5, [10]), (entryKey 7, [10])] := by decide +kernel
  have reverse : (overStubborn.afterCalls twoValues).maps.reverse.entries =
      [(entryKey 10, [entryKey 5, entryKey 7])] := by decide +kernel
  have shortSets : ∀ entry ∈ [(entryKey 5, [(10 : UInt64)]), (entryKey 7, [10])],
      entry.2.length ≤ Codec.maxFieldLength := by decide
  have shortKeys : ∀ key ∈ [entryKey 5, entryKey 7], key.length ≤ Codec.maxFieldLength := by decide
  have fits : (overStubborn.afterCalls twoValues).maps.Fits := by
    constructor
    · apply SetMap.fits_of_entries
      rw [forward]
      exact fun entry member => ⟨shortSets entry member, fun value _ => Codec.uint64_accepts value⟩
    · apply SetMap.fits_of_entries
      rw [reverse]
      intro entry member
      obtain rfl := List.mem_singleton.1 member
      exact ⟨by decide, fun key listed => ⟨key, rfl, shortKeys key listed⟩⟩
  have contained : Contained (overStubborn.afterCalls twoValues)
      (Request.perform (.dropEntry 10) (overStubborn.afterCalls twoValues)).2 :=
    .inr (by decide +kernel)
  exact ⟨_, _, opening, failed, setsFitFormat_dropEntry fits 10, contained,
    failed_request_undone ⟨rfl, rfl, rfl, rfl⟩ ⟨rfl, rfl, rfl, rfl⟩ opening twoValues (by decide) _
      failed (setsFitFormat_dropEntry fits 10) contained⟩

omit [LawfulTable σ] in
theorem add_of_refused {index : Index σ V} {value : V} {id : UInt64} {key : Bytes} {failure : Error}
    {forward : SetTable σ UInt64} {reverse : SetTable σ Bytes} (opened : index.isClosed = false)
    (encoded : index.codec.encode value = .ok key)
    (put : SetTable.put key id index.forward = (.ok true, forward))
    (refused : SetTable.put (entryKey id) key index.reverse = (.error failure, reverse)) :
    add value id index = (.error failure,
      { index with forward := (SetTable.remove key id forward).2, reverse }) := by
  have passed : requireOpen index = (.ok (), index) := by
    rw [requireOpen, Action.bind_apply, Action.get_apply]
    dsimp only
    rw [opened]
    rfl
  have keyed : encode value index = (.ok key, index) := Prod.ext encoded rfl
  have forwardPut : onForward (SetTable.put key id) index = (.ok true, { index with forward }) := by
    rw [onForward, Action.on_apply, put]
    rfl
  have reversePut : (Action.attempt (onReverse (SetTable.put (entryKey id) key)) :
      Action (Index σ V) Error _) { index with forward } =
        (.ok (.error failure), { index with forward, reverse }) := by
    rw [Action.attempt, onReverse, Action.on_apply, refused]
    rfl
  rw [add, Action.bind_apply, passed]
  dsimp only
  rw [Action.bind_apply, keyed]
  dsimp only
  rw [Action.bind_apply, forwardPut]
  dsimp only
  rw [Action.bind_apply, reversePut]
  rfl

def falteringTables : Tables Unreliable where
  -- Only the second slot asked for fails, which is when the pair is to be removed again.
  forward := {
    primary := (Unreliable.ofEntries .empty).setPlan .get ⟨(· == 1), 0⟩
    overflow := .ofEntries .empty }
  reverse := ⟨.ofEntries .empty, .ofEntries .empty⟩

def overFaltering : Index Unreliable Bytes :=
  .overEmpty .bytes falteringTables

def halfAdded (value : Bytes) : Index Unreliable Bytes :=
  { overFaltering with
    forward := (SetTable.remove value 10 (SetTable.put value 10 overFaltering.forward).2).2
    reverse := (SetTable.readSlot (entryKey 10) overFaltering.reverse).2 }

theorem add_overFaltering {value : Bytes} (long : Codec.maxFieldLength < value.length) :
    Request.perform (.add value 10) overFaltering =
      (.error (.invalidArgument "element" "bytes.len() <= MAX_PREFIXED_LEN"), halfAdded value) := by
  have put : SetTable.put value 10 overFaltering.forward = (.ok true, _) :=
    Action.performed_of_outcome rfl
  have absent : SetTable.readSlot (entryKey 10) overFaltering.reverse = (.ok none, _) :=
    Action.performed_of_outcome rfl
  have refused := SetTable.put_of_refused rfl absent (Codec.encode_set_of_long long)
  rw [Request.perform, Action.bind_apply, add_of_refused rfl rfl put refused]
  rfl

theorem failures_halfAdded (value : Bytes) :
    failures (halfAdded value) = failures overFaltering + 1 := by
  have primary : (halfAdded value).forward.stores.primary.plans =
      ⟨⟨(· == 1), 2⟩, .advance .never, .never, .never, .advance .never, .never, .never⟩ := rfl
  have overflow : (halfAdded value).forward.stores.overflow.plans =
      ⟨.advance .never, .never, .never, .never, .advance .never, .never, .never⟩ := rfl
  show (halfAdded value).forward.stores.primary.plans.failed +
      (halfAdded value).forward.stores.overflow.plans.failed +
    SetTable.failures (halfAdded []).reverse = _
  rw [primary, overflow]
  decide +kernel

def silentTables : Tables Unreliable where
  forward := ⟨.ofEntries .empty, .ofEntries .empty⟩
  -- One slot is told, to the first reading.
  reverse := {
    primary := (Unreliable.ofEntries .empty).setPlan .get (.after 1)
    overflow := .ofEntries .empty }

def overSilent : Index Unreliable UInt64 :=
  .overEmpty .uint64 silentTables

/-- A value that no set can hold stays in the forward map if it cannot be removed there again, and a
store that goes on failing fails the readings too. -/
theorem not_failed_request_undone :
    (∃ left after, openOver ⟨"cn", 1, 1, none⟩ .bytes falteringTables = (.ok overFaltering, left) ∧
      overFaltering.maps.Agree ∧
      Request.perform (.add Codec.overlong 10) overFaltering =
        (.error (.invalidArgument "element" "bytes.len() <= MAX_PREFIXED_LEN"), after) ∧
      failures after = failures overFaltering + 1 ∧
      overFaltering.count = 0 ∧ after.count = 1) ∧
    ∃ left before after, openOver ⟨"cn", 1, 1, none⟩ .uint64 silentTables = (.ok overSilent, left) ∧
      Request.perform (.reverseValues 10) overSilent = (.ok (.values []), before) ∧
      before.maps.Agree ∧
      Request.perform (.add 7 10) before =
        (.error (.io "cn.reverse" (.failed "get failed: disk full")), after) ∧
      SetTable.failures after.forward = SetTable.failures before.forward ∧
      (Request.perform (.reverseValues 10) after).1 =
        .error (.io "cn.reverse" (.failed "get failed: disk full")) := by
  constructor
  · exact ⟨_, _, rfl, Maps.agree_of_empty rfl rfl, add_overFaltering Codec.lt_length_overlong,
      failures_halfAdded _, rfl, rfl⟩
  · have read : Request.perform (.reverseValues 10) overSilent = (.ok (.values []), _) :=
      Action.performed_of_outcome (by decide +kernel)
    exact ⟨_, _, _, rfl, read, Maps.agree_of_empty (by decide +kernel) (by decide +kernel),
      Action.performed_of_outcome (by decide +kernel), by decide +kernel, by decide +kernel⟩

end AttributeIndex.Index
