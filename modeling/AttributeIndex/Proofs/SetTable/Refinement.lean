import AttributeIndex.Proofs.SetTable.Opening
import AttributeIndex.Proofs.SetTable.Requests

namespace AttributeIndex

open Observed

inductive Step (D : Type)
  | ask (request : Request D)
  | reopen (closing : Bool) (limit cacheSize : Nat)

namespace Step

variable {D : Type}

def Valid : Step D → Prop
  | ask _ => True
  | reopen _ limit cacheSize => 0 < limit ∧ 0 < cacheSize

end Step

namespace SetTable

variable {σ D : Type} [Ord D] [Table σ] [LawfulTable σ]

def openAgain (limit cacheSize : Nat) : Action (SetTable σ D) Error Unit := do
  let opened ← Action.query fun table =>
    (openOver table.name table.codec limit cacheSize
      ⟨Observed.reopen table.stores.primary, Observed.reopen table.stores.overflow⟩).1
  modify fun _ => opened

def reopen (closing : Bool) (limit cacheSize : Nat) : Action (SetTable σ D) Error Unit := do
  if closing then close else sync
  openAgain limit cacheSize

def step : Step D → Action (SetTable σ D) Error (Answer D)
  | .ask request => request.perform
  | .reopen closing limit cacheSize => do
    reopen closing limit cacheSize
    return .done

def run : List (Step D) → Action (SetTable σ D) Error (List (Answer D))
  | [] => return []
  | first :: rest => do
    let answer ← step first
    return answer :: (← run rest)

end SetTable

/-! ## The map -/

namespace SetMap

variable {D : Type} [Ord D]

def next (map : SetMap D) : Step D → SetMap D
  | .ask request => map.after request
  | .reopen .. => map

def reply (map : SetMap D) : Step D → Answer D
  | .ask request => map.answer request
  | .reopen .. => .done

def follow (map : SetMap D) (steps : List (Step D)) : SetMap D :=
  steps.foldl next map

def replies (map : SetMap D) : List (Step D) → List (Answer D)
  | [] => []
  | first :: rest => map.reply first :: (map.next first).replies rest

def FitsAlong (codec : Codec D) (map : SetMap D) (steps : List (Step D)) : Prop :=
  ∀ done, done <+: steps → (map.follow done).Fits codec

variable {codec : Codec D} {map : SetMap D} {first : Step D} {rest : List (Step D)}

theorem FitsAlong.here {steps : List (Step D)} (fits : map.FitsAlong codec steps) :
    map.Fits codec :=
  fits [] (List.nil_prefix ..)

theorem FitsAlong.tail (fits : map.FitsAlong codec (first :: rest)) :
    (map.next first).FitsAlong codec rest := by
  intro done front
  exact fits (first :: done) ((List.prefix_cons_inj first).2 front)

theorem total_next_le [Std.TransOrd D] (map : SetMap D) (step : Step D) :
    (map.next step).total ≤ map.total + 1 := by
  cases step with
  | reopen closing limit cacheSize => exact Nat.le_succ _
  | ask request =>
    cases request with
    | put key element =>
      have counted := total_put map key element
      have : (if map.has key element then 0 else 1) ≤ 1 := by split <;> omega
      show (map.put key element).total ≤ _
      omega
    | remove key element =>
      have stored := total_store map key (Sequence.erase compare element (map.setOf key))
      have shorter : (Sequence.erase compare element (map.setOf key)).length ≤
          (map.setOf key).length := List.length_filter_le _ _
      show (map.remove key element).total ≤ _
      rw [remove]
      omega
    | take key =>
      have stored := total_store map key []
      rw [List.length_nil] at stored
      show (map.take key).total ≤ _
      rw [take]
      omega
    | _ => exact Nat.le_succ _

theorem fitsAlong_of_length [Std.TransOrd D] (accepts : ∀ value, codec.Accepts value)
    {steps : List (Step D)} (short : map.total + steps.length ≤ Codec.maxFieldLength) :
    map.FitsAlong codec steps := by
  intro done front
  have grows : ∀ (map : SetMap D) (steps : List (Step D)),
      (map.follow steps).total ≤ map.total + steps.length := by
    intro map steps
    induction steps generalizing map with
    | nil => exact Nat.le_refl _
    | cons first rest ih =>
      have further := ih (map.next first)
      have step := total_next_le map first
      rw [List.length_cons]
      show ((map.next first).follow rest).total ≤ _
      omega
  intro key
  have total := grows map done
  have member := length_setOf_le_total (map.follow done) key
  have shorter := front.length_le
  exact ⟨by omega, fun value _ => accepts value⟩

end SetMap

/-! ## Tables over empty stores -/

namespace Layout

variable {D : Type} [Ord D]

def initial (codec : Codec D) : Layout D where
  codec := codec
  limit := 1
  slots := .empty
  records := .empty
  sets := .empty 1
  nextId := 1
  count := 0

theorem coherent_initial {codec : Codec D} (faithful : codec.Faithful) :
    (initial codec).Coherent where
  faithful := faithful
  holds _ _ found := by cases found
  distinct _ _ _ leads := by cases leads
  issued _ _ leads := by cases leads
  bounded := Lru.bounded_empty Nat.one_pos
  backs _ _ found := by cases found
  filed := ⟨Nat.one_pos, fun _ _ found => (by cases found), fun _ found => (by cases found)⟩

end Layout

namespace SetTable

open Layout

variable {σ D : Type} [Ord D] [Std.TransOrd D] [Table σ] [LawfulTable σ] {codec : Codec D}
  {map : SetMap D} {ids : Nat} {table : SetTable σ D}

omit [Std.TransOrd D] [Table σ] [LawfulTable σ] in
theorem failures_eq_zero [Observed σ] (never : NeverFails σ) (table : SetTable σ D) :
    failures table = 0 := by
  rw [failures, never, never]

omit [Std.TransOrd D] in
theorem Resumed.models {layout : Layout D} {limit : Nat} {stores : Stores σ}
    (resumed : Resumed layout limit stores table) (models : Models codec map ids layout) :
    Models codec map ids table.layout where
  coherent := resumed.coherent
  counted := resumed.counted
  codec_eq := resumed.codec_eq.trans models.codec_eq
  view_eq := resumed.view_eq.trans models.view_eq
  nextId_le := Nat.le_trans resumed.nextId_le models.nextId_le

omit [Std.TransOrd D] in
theorem Resumed.live {layout : Layout D} {limit : Nat} {stores : Stores σ}
    (resumed : Resumed layout limit stores table) (primary : isOpen stores.primary = true)
    (overflow : isOpen stores.overflow = true) : table.Live :=
  ⟨resumed.isClosed_eq, resumed.still.primary.isOpen_eq.trans primary,
    resumed.still.overflow.isOpen_eq.trans overflow⟩

structure Rests (layout : Layout D) (stores : Stores σ) : Prop where
  coherent : layout.Coherent
  uncached : ∀ id, layout.sets.find? id = none
  slots_eq : contents stores.primary = layout.slots
  records_eq : contents stores.overflow = layout.records

omit [Std.TransOrd D] [Table σ] [LawfulTable σ] in
theorem models_initial (faithful : codec.Faithful) : Models codec .empty 1 (Layout.initial codec) :=
  ⟨coherent_initial faithful, rfl, rfl, rfl, Nat.le_refl _⟩

omit [Std.TransOrd D] in
theorem rests_initial (faithful : codec.Faithful) {stores : Stores σ}
    (noSlots : contents stores.primary = .empty) (noRecords : contents stores.overflow = .empty) :
    Rests (Layout.initial codec) stores :=
  ⟨coherent_initial faithful, fun _ => Lru.find?_empty, noSlots, noRecords⟩

omit [Std.TransOrd D] in
theorem Rests.reopen {layout : Layout D} {stores : Stores σ} (rests : Rests layout stores) :
    Rests layout ⟨Observed.reopen stores.primary, Observed.reopen stores.overflow⟩ :=
  ⟨rests.coherent, rests.uncached, (LawfulTable.contents_reopen _).trans rests.slots_eq,
    (LawfulTable.contents_reopen _).trans rests.records_eq⟩

structure Stored (codec : Codec D) (map : SetMap D) (ids : Nat) (table : SetTable σ D) : Prop where
  codec_eq : table.codec = codec
  rests : ∃ layout, Models codec map ids layout ∧ Rests layout table.stores

theorem close_stores (never : NeverFails σ) (live : table.Live)
    (models : Models codec map ids table.layout) (fits : map.Fits codec) :
    close.Meets table (fun _ after => Stored codec map ids after) (fun _ _ => False) := by
  have viewFits : True → table.layout.view.Fits table.layout.codec := by
    rw [models.view_eq, models.codec_eq]
    exact fun _ => fits
  apply (close_meets models.coherent viewFits).mono
  · intro _ closed ⟨_, settled, _, uncached⟩
    exact ⟨settled.codec_eq.trans models.codec_eq, closed.layout, models.settled settled,
      settled.coherent, uncached live.isClosed_eq, rfl, rfl⟩
  · intro _ after ⟨_, blame, _⟩
    have more := blame live trivial
    rw [failures_eq_zero never, failures_eq_zero never] at more
    exact Nat.lt_irrefl 0 more

theorem sync_stores (never : NeverFails σ) (live : table.Live)
    (models : Models codec map ids table.layout) (fits : map.Fits codec) :
    sync.Meets table (fun _ after => Stored codec map ids after) (fun _ _ => False) := by
  have viewFits : True → table.layout.view.Fits table.layout.codec := by
    rw [models.view_eq, models.codec_eq]
    exact fun _ => fits
  apply Action.Meets.mono (sync_does models.coherent viewFits)
  · intro _ synced ⟨_, settled, clean⟩
    have forgotten :=
      Settled.of_moves settled.coherent (clean.moves_clear settled.coherent.cacheOrdered)
    exact ⟨settled.codec_eq.trans models.codec_eq, _, models.settled (settled.trans forgotten),
      forgotten.coherent, fun _ => Lru.find?_clear, rfl, rfl⟩
  · intro _ after ⟨rough, _⟩
    have more := rough.blame live trivial
    rw [failures_eq_zero never, failures_eq_zero never] at more
    exact Nat.lt_irrefl 0 more

omit [Std.TransOrd D] in
theorem openOver_never (never : NeverFails σ) {layout : Layout D} {stores : Stores σ}
    (rests : Rests layout stores) (primary : isOpen stores.primary = true)
    (overflow : isOpen stores.overflow = true) (name : String) {limit cacheSize : Nat}
    (limited : 0 < limit) (cached : 0 < cacheSize) :
    (openOver name layout.codec limit cacheSize).Meets stores
      (fun table _ => Resumed layout limit stores table) (fun _ _ => False) := by
  apply (openOver_meets name rests.coherent rests.uncached rests.slots_eq rests.records_eq limited
    cached).mono
  · exact fun _ _ resumed => resumed
  · exact fun _ _ faulted => Stores.not_faulted never primary overflow faulted

omit [Std.TransOrd D] in
theorem openAgain_meets (never : NeverFails σ) (stored : Stored codec map ids table)
    {limit cacheSize : Nat} (limited : 0 < limit) (cached : 0 < cacheSize) :
    (openAgain limit cacheSize).Meets table
      (fun _ after => after.Live ∧ Models codec map ids after.layout) (fun _ _ => False) := by
  have primary := LawfulTable.isOpen_reopen table.stores.primary
  have overflow := LawfulTable.isOpen_reopen table.stores.overflow
  obtain ⟨layout, models, rests⟩ := stored.rests
  have opens := openOver_never never rests.reopen primary overflow table.name limited cached
  rw [models.codec_eq] at opens
  obtain ⟨opened, _, performed, resumed⟩ := opens.succeeds
  rw [openAgain, Action.meets_bind, Action.meets_query, stored.codec_eq, performed]
  exact ⟨resumed.live primary overflow, resumed.models models⟩

theorem reopen_meets (never : NeverFails σ) (live : table.Live)
    (models : Models codec map ids table.layout) (fits : map.Fits codec) (closing : Bool)
    {limit cacheSize : Nat} (limited : 0 < limit) (cached : 0 < cacheSize) :
    (reopen closing limit cacheSize).Meets table
      (fun _ after => after.Live ∧ Models codec map ids after.layout) (fun _ _ => False) := by
  unfold reopen
  cases closing with
  | true =>
    rw [if_pos rfl, Action.meets_bind]
    exact (close_stores never live models fits).mono
      (fun _ _ stored => openAgain_meets never stored limited cached) fun _ _ => id
  | false =>
    rw [if_neg Bool.false_ne_true, Action.meets_bind]
    exact (sync_stores never live models fits).mono
      (fun _ _ stored => openAgain_meets never stored limited cached) fun _ _ => id

theorem step_meets (never : NeverFails σ) (live : table.Live)
    (models : Models codec map ids table.layout) (first : Step D) (valid : first.Valid)
    (fits : map.Fits codec) (nextFits : (map.next first).Fits codec) (room : ids + 1 < 2 ^ 64) :
    (step first).Meets table
      (fun answer after => answer = map.reply first ∧ after.Live ∧
        Models codec (map.next first) (ids + 1) after.layout)
      (fun _ _ => False) := by
  cases first with
  | ask request =>
    refine Action.Meets.mono (perform_does request models room fun _ : True => ⟨fits, nextFits⟩)
      ?_ ?_
    · intro answer after ⟨quiet, same, further⟩
      exact ⟨same, quiet.live_iff.2 live, further⟩
    · intro _ after ⟨rough, _⟩
      have more := rough.blame live trivial
      rw [failures_eq_zero never, failures_eq_zero never] at more
      omega
  | reopen closing limit cacheSize =>
    show Action.Meets (reopen closing limit cacheSize >>= fun _ => pure Answer.done) _ _ _
    rw [Action.meets_bind]
    refine (reopen_meets never live models fits closing valid.1 valid.2).mono ?_ fun _ _ => id
    intro _ after ⟨again, further⟩
    exact ⟨rfl, again, further.later (Nat.le_succ ids)⟩

theorem run_meets (never : NeverFails σ) (live : table.Live)
    (models : Models codec map ids table.layout) (steps : List (Step D))
    (valid : ∀ step ∈ steps, step.Valid) (fits : map.FitsAlong codec steps)
    (room : ids + steps.length < 2 ^ 64) :
    (run steps).Meets table
      (fun answers after => answers = map.replies steps ∧
        Models codec (map.follow steps) (ids + steps.length) after.layout)
      (fun _ _ => False) := by
  induction steps generalizing table map ids with
  | nil => exact ⟨rfl, models⟩
  | cons first rest ih =>
    obtain ⟨firstValid, restValid⟩ := List.forall_mem_cons.1 valid
    rw [List.length_cons] at room
    rw [run, Action.meets_bind]
    refine (step_meets never live models first firstValid fits.here fits.tail.here
      (by omega)).mono ?_ fun _ _ => id
    intro answer after ⟨same, again, further⟩
    rw [Action.meets_bind]
    refine (ih again further restValid fits.tail (by omega)).mono ?_ fun _ _ => id
    intro answers last ⟨others, reached⟩
    refine ⟨by rw [same, others]; rfl, reached.later ?_⟩
    rw [List.length_cons]
    omega

omit [Std.TransOrd D] in
theorem keyCount_eq (models : Models codec map ids table.layout) : table.keyCount = map.size := by
  rw [keyCount, LawfulTable.size_eq, ← models.view_eq, size_view]
  rfl

omit [Std.TransOrd D] in
theorem count_eq (models : Models codec map ids table.layout) : table.count = map.total := by
  rw [← models.view_eq]
  exact models.counted

/-- Over empty stores that never fail, every run of requests and reopenings gives the answers of a
map from keys to sets, with the right counts in the end. Record ids have 64 bits, so the run must not
be longer than that; and sets must not outgrow the format in which they are stored. -/
theorem run_eq_replies (never : NeverFails σ) (faithful : codec.Faithful) {stores : Stores σ}
    (noSlots : contents stores.primary = .empty) (noRecords : contents stores.overflow = .empty)
    (primary : isOpen stores.primary = true) (overflow : isOpen stores.overflow = true)
    (name : String) {limit cacheSize : Nat} (limited : 0 < limit) (cached : 0 < cacheSize)
    (steps : List (Step D)) (valid : ∀ step ∈ steps, step.Valid)
    (fits : SetMap.FitsAlong codec .empty steps) (short : steps.length + 1 < 2 ^ 64) :
    ∃ table left final,
      openOver name codec limit cacheSize stores = (.ok table, left) ∧
      run steps table = (.ok (SetMap.replies .empty steps), final) ∧
      final.count = (SetMap.follow .empty steps).total ∧
      final.keyCount = (SetMap.follow .empty steps).size := by
  have opens := openOver_never never (rests_initial faithful noSlots noRecords) primary overflow
    name limited cached
  obtain ⟨table, left, performed, resumed⟩ := opens.succeeds
  obtain ⟨_, final, ran, rfl, models⟩ := (run_meets never (resumed.live primary overflow)
    (resumed.models (models_initial faithful)) steps valid fits (by omega)).succeeds
  exact ⟨table, left, final, performed, ran, count_eq models, keyCount_eq models⟩

theorem run_eq_replies_moving :
    ∃ table left final,
      openOver "ids" .uint64 2 1 ⟨Volatile.empty, Volatile.empty⟩ = (.ok table, left) ∧
      run [.ask (.put [7] 5), .ask (.put [7] 3), .ask (.put [7] 4), .reopen false 1 1,
        .ask (.remove [7] 5), .ask (.remove [7] 9), .ask .slots] table =
        (.ok [.flag true, .flag true, .flag true, .done, .flag true, .flag false,
          .slots [([7], [3, 4])]], final) ∧
      final.count = 2 ∧ final.keyCount = 1 :=
  run_eq_replies Volatile.neverFails Codec.uint64_faithful rfl rfl rfl rfl "ids" (by decide)
    (by decide) _ (by simp [Step.Valid])
    (SetMap.fitsAlong_of_length Codec.uint64_accepts (by decide)) (by decide)

def overVolatile : SetTable Volatile Bytes where
  name := "ids"
  codec := .bytes
  limit := 2
  stores := ⟨.empty, .empty⟩
  sets := .empty 1
  nextId := 1
  headerDirty := false
  count := 0
  isClosed := false

theorem run_put_of_long {element : Bytes} (long : Codec.maxFieldLength < element.length) :
    (run [.ask (.put [7] element)] overVolatile).1 =
      .error (.invalidArgument "element" "bytes.len() <= MAX_PREFIXED_LEN") := by
  have absent : readSlot [7] overVolatile = (.ok none, overVolatile) := rfl
  have refused := put_of_refused rfl absent (Codec.encode_set_of_long long)
  have failed : step (.ask (.put [7] element)) overVolatile =
      (.error (.invalidArgument "element" "bytes.len() <= MAX_PREFIXED_LEN"), overVolatile) := by
    rw [step, Request.perform, Action.bind_apply, refused]
  rw [run, Action.bind_apply, failed]

/-- Every element has an encoding that decodes to it, but one too long for a stored set is refused;
and so is a limit of zero. -/
theorem not_run_eq_replies :
    Codec.bytes.Faithful ∧ (∀ element, ∃ bytes, Codec.bytes.encode element = .ok bytes) ∧
      openOver "ids" .bytes 2 1 ⟨Volatile.empty, Volatile.empty⟩ =
        (.ok overVolatile, overVolatile.stores) ∧
      (run [.ask (.put [7] Codec.overlong)] overVolatile).1 ≠
        .ok (SetMap.replies .empty [.ask (.put [7] Codec.overlong)]) ∧
      (run [.ask (.put [7] [5]), .reopen false 0 1] overVolatile).1 ≠
        .ok (SetMap.replies .empty [.ask (.put [7] [5]), .reopen false 0 1]) := by
  refine ⟨Codec.bytes_faithful, fun element => ⟨element, rfl⟩, rfl, ?_, ?_⟩
  · rw [run_put_of_long Codec.lt_length_overlong]
    exact nofun
  · have refused : (run [.ask (.put [7] [5]), .reopen false 0 1] overVolatile).1 =
        .error (.invalidArgument "duplicate_limit" "duplicate_limit > 0") := by decide +kernel
    rw [refused]
    exact nofun

end SetTable

end AttributeIndex
