import AttributeIndex.Proofs.SetTable.Verdicts

namespace AttributeIndex

open Observed

namespace SetTable

open Layout

/-! ## Outcomes -/

variable {σ D α β : Type} [Ord D] [Table σ] [LawfulTable σ] {table : SetTable σ D}

def Settles (action : Action (SetTable σ D) Error α) (table : SetTable σ D)
    (outcome : Except Error α) : Prop :=
  action.Meets table (fun answer after => Ready after ∧ outcome = .ok answer)
    (fun failure after => Ready after ∧ outcome = .error failure)

theorem settles_pure {answer : α} (ready : Ready table) :
    Settles (pure answer) table (.ok answer) :=
  ⟨ready, rfl⟩

theorem settles_bind {first : Action (SetTable σ D) Error β}
    {next : β → Action (SetTable σ D) Error α} {outcome : Except Error β}
    {later : β → Except Error α} (settles : Settles first table outcome)
    (further : ∀ answer after, Ready after → Settles (next answer) after (later answer)) :
    Settles (first >>= next) table (outcome >>= later) := by
  rw [Settles, Action.meets_bind]
  refine Action.Meets.mono settles ?_ ?_
  · rintro answer after ⟨ready, rfl⟩
    exact further answer after ready
  · rintro failure after ⟨ready, rfl⟩
    exact ⟨ready, rfl⟩

theorem Settles.outcome_eq {action : Action (SetTable σ D) Error α} {outcome : Except Error α}
    (settles : Settles action table outcome) : (action table).1 = outcome := by
  unfold Settles Action.Meets at settles
  split at settles
  · rename_i performed
    rw [performed, settles.2]
  · rename_i performed
    rw [performed, settles.2]

theorem Settles.ready {action : Action (SetTable σ D) Error α} {outcome : Except Error α}
    (settles : Settles action table outcome) : Ready (action table).2 :=
  (Action.Meets.mono settles (fun _ _ => And.left) fun _ _ => And.left).left

theorem Settles.listed {action : Action (SetTable σ D) Error β} {request : Request D} {key : Bytes}
    {outcome : Option (OrderedSet D compare) → Except Error β} {answer : β → Answer D}
    (settles : Settles action table (table.reading key >>= outcome))
    (same : ∀ set?, table.reading key = .ok set? →
      (outcome set?).map answer = request.verdict table.codec (set?.map OrderedSet.toList)) :
    Settles (do return answer (← action)) table (table.listing key >>= request.verdict table.codec) := by
  have answered : Settles (do return answer (← action)) table
      ((table.reading key >>= outcome) >>= fun found => .ok (answer found)) :=
    settles_bind settles fun _ _ => settles_pure
  rw [listing]
  cases read : table.reading key with
  | error failure =>
    rw [read] at answered
    exact answered
  | ok set? =>
    rw [read] at answered
    show Settles _ table (request.verdict table.codec (set?.map OrderedSet.toList))
    rw [← same set? read]
    cases found : outcome set? <;> rw [ok_bind, found] at answered <;> exact answered

theorem recount_settles (ready : Ready table) (recount : Nat → Nat) (answer : α) :
    Settles (do
      modify fun table : SetTable σ D => { table with count := recount table.count }
      return answer) table (.ok answer) := by
  rw [Settles, Action.meets_bind, Action.meets_modify, Action.meets_pure]
  exact ⟨ready.of_cache ⟨rfl, rfl, rfl, rfl⟩ rfl rfl, rfl⟩

theorem settles_recount {first : Action (SetTable σ D) Error Unit} {outcome : Except Error Unit}
    (settles : Settles first table outcome) (recount : Nat → Nat) (answer : α) :
    Settles (do
      first
      modify fun table : SetTable σ D => { table with count := recount table.count }
      return answer) table (outcome.map fun _ => answer) := by
  have counted := settles_bind settles fun _ after ready => recount_settles ready recount answer
  cases outcome <;> exact counted

theorem not_more (never : NeverFails σ) {before after : SetTable σ D} :
    ¬ failures before < failures after := by
  rw [failures_eq_zero never, failures_eq_zero never]
  exact Nat.lt_irrefl 0

theorem Does.unfailing (never : NeverFails σ) (live : table.Live)
    {action : Action (SetTable σ D) Error α} {ok : α → Layout D → Prop} {failed : Layout D → Prop}
    (does : Does action table True ok failed) :
    action.Meets table (fun answer after => Quiet table after ∧ ok answer after.layout)
      fun _ _ => False := by
  refine Action.Meets.mono does (fun _ _ done => done) ?_
  exact fun _ _ ⟨rough, _⟩ => not_more never (rough.blame live trivial)

omit [LawfulTable σ] [Table σ] in
theorem touch_outcome {id : UInt64} {cached : CachedSet D}
    (found : table.sets.find? id = some cached) :
    (do
      modify fun table : SetTable σ D => { table with sets := table.sets.touch id }
      match (← get).sets.find? id with
      | some cached => return cached.set
      | none => throw (.invalidOperation "overflow set cache") :
        Action (SetTable σ D) Error (OrderedSet D compare)).Meets table
      (fun set _ => cached.set = set) fun _ _ => False := by
  rw [Action.meets_bind, Action.meets_modify, Action.meets_bind, Action.meets_get]
  rw [Lru.find?_touch, found]
  rfl

section Steps

variable (never : NeverFails σ)
include never

theorem writeInline_settles {key : Bytes} {set : OrderedSet D compare} (ready : Ready table)
    (ordered : set.Ordered) : Settles (writeInline key set) table (table.codec.check set.toList) := by
  rw [Codec.check_eq ordered]
  refine (writeInline_meets key set).mono ?_ ?_
  · intro _ after ⟨quiet, _, bytes, encoded, written⟩
    have kept := ready.of_cache quiet.toKept (congrArg Layout.codec written) (congrArg Layout.sets written)
    exact ⟨kept, by rw [encoded]; rfl⟩
  · intro failure after ⟨kept, same, cause⟩
    have encoded := cause.resolve_right fun more => not_more never (more ready.live.primary)
    exact ⟨ready.of_same kept same, by rw [encoded]; rfl⟩

theorem dropSlot_settles {key : Bytes} (ready : Ready table) :
    Settles (discard (onPrimary (Table.remove key))) table (.ok ()) := by
  refine Action.Meets.mono (Does.unfailing never ready.live dropSlot_does) ?_ fun _ _ => False.elim
  intro _ after ⟨quiet, dropped⟩
  exact ⟨ready.of_cache quiet.toKept (congrArg Layout.codec dropped) (congrArg Layout.sets dropped), rfl⟩

theorem readRecord_meets {id : UInt64} (ready : Ready table)
    (absent : table.sets.find? id = none) :
    (readRecord id).Meets table
      (fun set after => Quiet table after ∧ after.layout = table.layout ∧ table.held id = .ok set)
      (fun failure _ => table.held id = .error failure) := by
  rw [readRecord, Action.meets_bind]
  refine Action.Meets.mono
    (Does.unfailing never ready.live (onOverflow_does (LawfulTable.get (recordKey id)))) ?_
    fun _ _ => False.elim
  intro answer after ⟨quiet, found, same⟩
  have same : after.layout = table.layout := same
  have codec : after.codec = table.codec := congrArg Layout.codec same
  rw [held, absent]
  cases located : (contents table.stores.overflow).find? (recordKey id) with
  | none =>
    obtain rfl : answer = none := found.trans located
    dsimp only
    rw [Action.meets_bind, Action.meets_get, Action.meets_throw, quiet.name_eq]
  | some bytes =>
    obtain rfl : answer = some bytes := found.trans located
    dsimp only
    rw [decodeSet, Action.meets_query, codec]
    cases table.codec.set.decode bytes with
    | ok set => exact ⟨quiet, same, rfl⟩
    | error failure => rfl

variable [Std.TransOrd D]

theorem useOverflowSet_outcome {id : UInt64} (ready : Ready table) :
    (useOverflowSet id).Meets table (fun set _ => table.held id = .ok set)
      (fun failure _ => table.held id = .error failure) := by
  rw [useOverflowSet, Action.meets_bind, Action.meets_get]
  dsimp only
  split
  · rename_i present
    obtain ⟨cached, found⟩ := Option.isSome_iff_exists.1 present
    refine (touch_outcome found).mono ?_ fun _ _ => False.elim
    rintro _ _ rfl
    rw [held, found]
  · rename_i missing
    have absent : table.sets.find? id = none := Option.not_isSome_iff_eq_none.1 missing
    rw [Action.meets_bind]
    refine (readRecord_meets never ready absent).mono ?_ fun _ _ refused => refused
    rintro set read ⟨quiet, same, isHeld⟩
    have ready := ready.of_same quiet.toKept same
    rw [Action.meets_bind]
    refine Action.Meets.mono (Does.unfailing never ready.live
      (makeRoom_moves ready.cacheOrdered fun _ => ready.flushable)) ?_ fun _ _ => False.elim
    rintro _ roomy ⟨_, _, room, _⟩
    rw [Action.meets_bind, cacheClean, Action.meets_modify]
    have found : ({ roomy with sets := roomy.sets.insert id ⟨set, false⟩ } : SetTable σ D).sets.find?
        id = some ⟨set, false⟩ := (Lru.find?_insert room id id _).trans (if_pos rfl)
    refine (touch_outcome found).mono ?_ fun _ _ => False.elim
    rintro _ _ rfl
    exact isHeld

theorem useOverflowSet_meets {key : Bytes} {id : UInt64} (ready : Ready table)
    (leads : table.layout.Leads key id) :
    (useOverflowSet id).Meets table
      (fun set after => Ready after ∧ table.held id = .ok set ∧ after.codec = table.codec ∧
        after.layout.Leads key id ∧ ∃ cached, after.sets.find? id = some cached ∧ cached.set = set)
      (fun failure after => Ready after ∧ table.held id = .error failure) := by
  have moved : Does (useOverflowSet id) table False _ _ :=
    useOverflowSet_moves ready.cacheOrdered False.elim leads
  refine ((useOverflowSet_outcome never ready).and moved).mono ?_ ?_
  · intro set after ⟨isHeld, quiet, moves, _, cached⟩
    exact ⟨ready.moves quiet.toKept moves, isHeld, moves.alike.codec_eq,
      moves.alike.leads_iff.2 leads, cached⟩
  · intro failure after ⟨isHeld, rough, moves⟩
    exact ⟨ready.moves rough.toKept moves, isHeld⟩

omit [Std.TransOrd D] in
theorem settles_of_reading {key : Bytes} {next : Option (Slot D) → Action (SetTable σ D) Error α}
    {later : Option (OrderedSet D compare) → Except Error α} (ready : Ready table)
    (vacant : ∀ after, Opened table after → after.layout.slot? key = none →
      Settles (next none) after (later none))
    (inline : ∀ set after, Opened table after → after.layout.slot? key = some (.inline set) →
      Settles (next (some (.inline set))) after (later (some set)))
    (moved : ∀ redirect after, Opened table after → after.layout.Leads key redirect.recordId →
      Settles (next (some (.overflow redirect))) after
        (table.held redirect.recordId >>= fun set => later (some set))) :
    Settles (do requireOpen; next (← readSlot key)) table (table.reading key >>= later) := by
  rw [Settles, Action.meets_bind]
  refine Action.Meets.mono (Does.unfailing never ready.live requireOpen_does) ?_
    fun _ _ => False.elim
  rintro _ opened ⟨quiet, _, same⟩
  rw [Action.meets_bind]
  refine (readSlot_meets key).mono ?_ ?_
  · rintro slot after ⟨calm, still, read⟩
    have kept := quiet.toKept.trans calm.toKept
    have layout := still.trans same
    have opened : Opened table after := ⟨kept, ready.of_same kept layout, layout⟩
    rw [same] at read
    have parsed := slot?_of_readSlot read
    rw [← layout] at parsed
    rw [reading, read]
    cases slot with
    | none => exact vacant after opened parsed
    | some entry =>
      cases entry with
      | inline set => exact inline set after opened parsed
      | overflow redirect =>
        have settles := moved redirect after opened parsed
        show Settles _ after ((table.held redirect.recordId).map some >>= later)
        cases isHeld : table.held redirect.recordId <;> rw [isHeld] at settles <;> exact settles
  · rintro failure after ⟨calm, still, cause⟩
    have opened : isOpen opened.stores.primary = true := quiet.primary_eq.trans ready.live.primary
    have read := cause.resolve_right fun more => not_more never (more opened)
    refine ⟨ready.of_same (quiet.toKept.trans calm) (still.trans same), ?_⟩
    rw [reading, ← same, read]
    rfl

theorem settles_of_held {key : Bytes} {redirect : Redirect} {after : SetTable σ D}
    {next : OrderedSet D compare → Action (SetTable σ D) Error α}
    {later : OrderedSet D compare → Except Error α} (opened : Opened table after)
    (leads : after.layout.Leads key redirect.recordId)
    (further : ∀ cached used, Ready used → used.codec = table.codec →
      used.layout.Leads key redirect.recordId →
      used.sets.find? redirect.recordId = some cached →
      table.held redirect.recordId = .ok cached.set →
      Settles (next cached.set) used (later cached.set)) :
    Settles (useOverflowSet redirect.recordId >>= next) after
      (table.held redirect.recordId >>= later) := by
  rw [Settles, Action.meets_bind]
  have isHeld := held_congr opened.toKept opened.layout_eq redirect.recordId
  refine (useOverflowSet_meets never opened.ready leads).mono ?_ ?_
  · rintro _ used ⟨ready, found, codec, stillLeads, cached, located, rfl⟩
    rw [isHeld] at found
    rw [found]
    exact further cached used ready (codec.trans opened.codec_eq) stillLeads located found
  · intro failure left ⟨ready, refused⟩
    rw [isHeld] at refused
    rw [refused]
    exact ⟨ready, rfl⟩

theorem migrate_outcome {key : Bytes} {set : OrderedSet D compare} (ready : Ready table) :
    (migrate key set).Meets table
      (fun _ _ => (table.codec.set.encode set).map (fun _ => ()) = .ok ())
      (fun failure _ => (table.codec.set.encode set).map (fun _ => ()) = .error failure) := by
  rw [migrate, Action.meets_bind]
  refine Action.Meets.mono (Does.unfailing never ready.live
    (makeRoom_moves ready.cacheOrdered fun _ => ready.flushable)) ?_ fun _ _ => False.elim
  rintro _ roomy ⟨quiet, moves, _⟩
  have ready := ready.moves quiet.toKept moves
  have codec : roomy.codec = table.codec := moves.alike.codec_eq
  rw [Action.meets_bind, Action.meets_get, Action.meets_bind]
  refine (writeRecord_meets roomy.nextId set).mono ?_ ?_
  · rintro _ written ⟨calm, bytes, encoded, _⟩
    have opened : isOpen written.stores.primary = true := calm.primary_eq.trans ready.live.primary
    rw [← codec, encoded, Action.meets_bind, Action.meets_modify, Action.meets_bind,
      Action.meets_attempt]
    refine (onPrimary_meets (LawfulTable.put key _)).mono (fun _ _ _ => rfl) ?_
    rintro _ _ ⟨_, _, more, _⟩
    exact absurd (more opened) (not_more never)
  · rintro failure _ ⟨_, _, cause⟩
    rw [← codec, cause.resolve_right fun more => not_more never (more ready.live)]
    rfl

theorem migrate_settles {key : Bytes} {set : OrderedSet D compare} (ready : Ready table)
    (vacant : ∀ id, ¬ table.layout.Leads key id) (ordered : set.Ordered)
    (nonempty : set.toList ≠ []) (full : ¬ table.layout.Spare key) :
    Settles (migrate key set) table (table.codec.check set.toList) := by
  rw [Codec.check_eq ordered]
  have tries : Tries (migrate key set) table False _ _ _ := migrate_tries ready.cacheOrdered False.elim
    ready.live.primary vacant ordered nonempty False.elim full
  refine ((migrate_outcome never ready).and tries).mono ?_ ?_
  · rintro _ after ⟨encoded, quiet, middle, moves, change⟩
    refine ⟨⟨quiet.live_iff.2 ready.live, change.cacheOrdered (moves.cacheOrdered ready.cacheOrdered),
      change.flushable (moves.flushable ready.flushable) fun id _ leads => ?_⟩, encoded⟩
    exact absurd (moves.alike.leads_iff.1 leads) (vacant id)
  · rintro failure after ⟨refused, rough, left⟩
    have moves := left.resolve_right fun half => not_more never half.2
    exact ⟨ready.moves rough.toKept moves, refused⟩

omit [Std.TransOrd D] in
theorem release_settles {key : Bytes} {id : UInt64} {cached : CachedSet D} (ready : Ready table)
    (leads : table.layout.Leads key id) (found : table.sets.find? id = some cached) :
    Settles (release key id) table (.ok ()) := by
  have tries : Tries (release key id) table True _ _ _ :=
    release_tries ready.live.primary leads found
  refine Action.Meets.mono tries ?_ ?_
  · intro _ after ⟨quiet, change, _, gone⟩
    refine ⟨ready.change quiet.toKept change fun id cached _ left => ?_, rfl⟩
    cases gone.symm.trans left
  · intro _ _ ⟨rough, _⟩
    exact absurd (rough.blame ready.live trivial) (not_more never)

/-! ## Requests -/

omit [Std.TransOrd D] never in
theorem cacheDirty_settles {key : Bytes} {id : UInt64} {cached : CachedSet D}
    {set : OrderedSet D compare} (ready : Ready table) (leads : table.layout.Leads key id)
    (found : table.sets.find? id = some cached) (ordered : set.Ordered) (nonempty : set.toList ≠ [])
    (fits : table.codec.Fits set.toList) : Settles (cacheDirty id set) table (.ok ()) := by
  rw [Settles, cacheDirty, Action.meets_modify]
  refine ⟨ready.change ⟨rfl, rfl, rfl, rfl⟩ (.rewrite leads found ordered nonempty) ?_, rfl⟩
  intro other kept otherLeads _ left
  cases leads.symm.trans otherLeads
  have here := (Lru.find?_modify table.sets id id fun _ => (⟨set, true⟩ : CachedSet D)).symm.trans left
  rw [if_pos rfl, found] at here
  cases here
  exact fits

theorem put_settles {key : Bytes} {element : D} (ready : Ready table)
    (spares : table.spares (.put key element) = true) :
    Settles (put key element) table (table.reading key >>= fun set? =>
      table.codec.insertion ((set?.map OrderedSet.toList).getD []) element) := by
  have placed : ∀ (set : OrderedSet D compare) after, Opened table after → set.Ordered → Settles (do
      writeInline key set
      modify fun table : SetTable σ D => { table with count := table.count + 1 }
      return true) after ((table.codec.check set.toList).map fun _ => true) := by
    intro set after opened ordered
    rw [← opened.codec_eq]
    exact settles_recount (writeInline_settles never opened.ready ordered) (· + 1) true
  refine settles_of_reading never ready (fun after opened _ =>
    placed _ after opened (OrderedSet.ordered_insert OrderedSet.ordered_empty element)) ?_ ?_
  · intro set after opened slot
    have ordered := ordered_inline slot
    have larger := OrderedSet.ordered_insert ordered element
    rw [Option.map_some, Option.getD_some, Codec.insertion_eq ordered]
    dsimp only
    split
    · rw [Settles, Action.meets_bind, Action.meets_get]
      split
      · rename_i outgrown
        have elements := OrderedSet.toList_insert ordered element
        have full : ¬ after.layout.Spare key :=
          not_spare element slot (elements ▸ larger.size_eq ▸ outgrown)
        rw [← opened.codec_eq]
        exact settles_recount (migrate_settles never opened.ready (vacant_of_inline slot) larger
          (elements ▸ Sequence.add_ne_nil) full) (· + 1) true
      · exact placed _ after opened larger
    · exact settles_pure opened.ready
  · intro redirect after opened leads
    refine settles_of_held never opened leads ?_
    intro cached used usedReady codec stillLeads located isHeld
    have ordered := usedReady.cacheOrdered.ordered _ cached located
    have larger := OrderedSet.ordered_insert ordered element
    have nonempty : (cached.set.insert element).2.toList ≠ [] :=
      OrderedSet.toList_insert ordered element ▸ Sequence.add_ne_nil
    -- Here the set is not encoded; that it could be is only known from `spares`.
    have passed := spared spares rfl (opened.layout_eq ▸ leads) isHeld
    rw [Request.verdict, Option.getD_some, Codec.insertion_eq ordered] at passed
    rw [Option.map_some, Option.getD_some, Codec.insertion_eq ordered]
    dsimp only
    split
    · rename_i isNew
      rw [if_pos isNew] at passed
      have fits := Codec.fits_of_isOk larger passed
      rw [Codec.check_of_fits fits]
      exact settles_recount (cacheDirty_settles usedReady stillLeads located larger nonempty
        (codec ▸ fits)) (· + 1) true
    · exact settles_pure usedReady

theorem remove_settles {key : Bytes} {element : D} (ready : Ready table)
    (spares : table.spares (.remove key element) = true) :
    Settles (remove key element) table (table.reading key >>= fun set? =>
      table.codec.removal ((set?.map OrderedSet.toList).getD []) element) := by
  refine settles_of_reading never ready (fun after opened _ => settles_pure opened.ready) ?_ ?_
  · intro set after opened slot
    have ordered := ordered_inline slot
    have smaller := OrderedSet.ordered_erase ordered element
    rw [Option.map_some, Option.getD_some, Codec.removal_eq ordered]
    dsimp only
    cases (set.erase element).1 with
    | false => exact settles_pure opened.ready
    | true =>
      simp only [Bool.not_true, Bool.false_eq_true, if_false, if_true]
      split
      · exact settles_recount (dropSlot_settles never opened.ready) (· - 1) true
      · rw [← opened.codec_eq]
        exact settles_recount (writeInline_settles never opened.ready smaller) (· - 1) true
  · intro redirect after opened leads
    refine settles_of_held never opened leads ?_
    intro cached used usedReady codec stillLeads located isHeld
    have ordered := usedReady.cacheOrdered.ordered _ cached located
    have smaller := OrderedSet.ordered_erase ordered element
    have passed := spared spares rfl (opened.layout_eq ▸ leads) isHeld
    rw [Request.verdict, Option.getD_some, Codec.removal_eq ordered] at passed
    rw [Option.map_some, Option.getD_some, Codec.removal_eq ordered]
    rw [OrderedSet.contains_eq ordered, ← OrderedSet.removed_erase ordered]
    cases present : (cached.set.erase element).1 with
    | false => exact settles_pure usedReady
    | true =>
      rw [present] at passed
      simp only [Bool.not_true, Bool.false_eq_true, if_false, if_true] at passed ⊢
      split
      · rename_i single
        rw [if_pos ((Codec.size_eq_one_iff ordered present).1 single)]
        exact settles_recount (release_settles never usedReady stillLeads located) (· - 1) true
      · rename_i several
        have nonempty := mt (Codec.size_eq_one_iff ordered present).2 several
        rw [if_neg nonempty] at passed ⊢
        have fits := Codec.fits_of_isOk smaller passed
        rw [Codec.check_of_fits fits]
        exact settles_recount (cacheDirty_settles usedReady stillLeads located smaller
          (mt (OrderedSet.isEmpty_iff smaller).2 nonempty) (codec ▸ fits)) (· - 1) true

theorem take_settles (key : Bytes) (ready : Ready table) :
    Settles (take key) table (table.reading key >>= .ok) := by
  refine settles_of_reading never ready (fun after opened _ => settles_pure opened.ready) ?_ ?_
  · intro set after opened slot
    exact settles_recount (dropSlot_settles never opened.ready) (· - set.size) (some set)
  · intro redirect after opened leads
    refine settles_of_held never opened leads ?_
    intro cached used usedReady codec stillLeads located isHeld
    exact settles_recount (release_settles never usedReady stillLeads located)
      (· - cached.set.size) (some cached.set)

theorem elements_settles (key : Bytes) (ready : Ready table) :
    Settles (elements key) table (table.reading key >>= .ok) := by
  refine settles_of_reading never ready (fun after opened _ => settles_pure opened.ready) ?_ ?_
  · intro set after opened slot
    exact settles_pure opened.ready
  · intro redirect after opened leads
    refine settles_of_held never opened leads ?_
    intro cached used usedReady codec stillLeads located isHeld
    exact settles_pure usedReady

theorem request_settles {request : Request D} {key : Bytes} (about : request.key? = some key)
    (ready : Ready table) (spares : table.spares request = true) :
    Settles request.perform table (table.listing key >>= request.verdict table.codec) := by
  have found : Settles (elements key) table (table.reading key) :=
    bind_pure (table.reading key) ▸ elements_settles never key ready
  have reads : ∀ {β : Type} (read : Option (OrderedSet D compare) → β),
      Settles (do return read (← elements key)) table
        (table.reading key >>= fun set? => .ok (read set?)) :=
    fun read => settles_bind found fun _ _ => settles_pure
  cases request with
  | put key element =>
    cases about
    exact (put_settles never ready spares).listed fun _ _ => rfl
  | remove key element =>
    cases about
    exact (remove_settles never ready spares).listed fun _ _ => rfl
  | take key =>
    cases about
    exact (take_settles never key ready).listed fun _ _ => rfl
  | contains key element =>
    cases about
    refine (reads _).listed fun set? read => ?_
    cases set? with
    | none => rfl
    | some set =>
      rw [Request.verdict, Option.map_some, Option.getD_some,
        ← OrderedSet.contains_eq (ready.ordered_of_reading read)]
      rfl
  | countOf key =>
    cases about
    refine (reads _).listed fun set? read => ?_
    cases set? with
    | none => rfl
    | some set =>
      show Except.ok (Answer.number set.size) = .ok (.number set.toList.length)
      rw [(ready.ordered_of_reading read).size_eq]
  | elements key =>
    cases about
    exact (elements_settles never key ready).listed fun _ _ => rfl
  | firstElement key =>
    cases about
    refine (reads _).listed fun set? read => ?_
    cases set? with
    | none => rfl
    | some set =>
      rw [Request.verdict, Option.map_some, Option.getD_some, ← OrderedSet.first?_eq]
      rfl
  | slots | sync => cases about

theorem sync_settles (ready : Ready table) : Settles sync table (.ok ()) := by
  refine Action.Meets.mono (Does.unfailing never ready.live
    (sync_moves ready.cacheOrdered fun _ => ready.flushable)) ?_ fun _ _ => False.elim
  intro _ after ⟨quiet, moves, _⟩
  exact ⟨ready.moves quiet.toKept moves, rfl⟩

theorem close_succeeds (ready : Ready table) :
    close.Meets table (fun _ after => after.isClosed = true) fun _ _ => False := by
  refine (close_moves ready.cacheOrdered fun _ : True => ready.flushable).mono ?_ ?_
  · intro _ after ⟨_, _, shut, _⟩
    exact shut
  · intro _ after ⟨_, blame, _⟩
    exact not_more never (blame ready.live trivial)

theorem request_ready (request : Request D) (ready : Ready table)
    (spares : table.spares request = true) : Ready (request.perform table).2 := by
  cases about : request.key? with
  | some key => exact (request_settles never about ready spares).ready
  | none =>
    cases request with
    | slots =>
      have moved : Does (slots : Action (SetTable σ D) Error _) table False _ _ :=
        slots_moves ready.cacheOrdered False.elim
      have still : (slots : Action (SetTable σ D) Error _).Meets table (fun _ => Ready)
          fun _ => Ready := by
        refine Action.Meets.mono moved ?_ ?_
        · exact fun _ _ ⟨quiet, moves, _⟩ => ready.moves quiet.toKept moves
        · exact fun _ _ ⟨rough, moves⟩ => ready.moves rough.toKept moves
      exact Action.left_map still.left
    | sync =>
      exact (settles_bind (sync_settles never ready) fun _ _ => settles_pure : Settles _ table
        (.ok () >>= fun _ => .ok (Answer.done : Answer D))).ready
    | _ => cases about

end Steps

end SetTable

end AttributeIndex
