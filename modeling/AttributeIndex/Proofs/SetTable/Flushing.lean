import AttributeIndex.Proofs.SetTable.Separation
import AttributeIndex.Proofs.SetTable.Settling

namespace AttributeIndex

open Observed

namespace SetTable

open Layout

section Calls

variable {σ D : Type} [Ord D] [Table σ] [LawfulTable σ] {table : SetTable σ D}

/-- Whether the call leaves no moved set that the codec refuses. -/
def sparesCall (table : SetTable σ D) : Call D → Bool
  | .ask request => table.spares request
  | .rawSlot _ | .close => true

def sparesAlong (table : SetTable σ D) : List (Call D) → Bool
  | [] => true
  | call :: calls => table.sparesCall call && (call.perform table).2.sparesAlong calls

structure Serves (codec : Codec D) (table : SetTable σ D) : Prop where
  codec_eq : table.codec = codec
  cacheOrdered : table.layout.CacheOrdered
  ready : table.isClosed = false → Ready table

variable {codec : Codec D} {name : String} {limit cacheSize : Nat} {stores left : Stores σ}
  {opened : SetTable σ D}

theorem serves_of_openOver
    (opening : openOver name codec limit cacheSize stores = (.ok opened, left)) :
    Serves codec opened := by
  obtain ⟨_, codec_eq, sets_eq, _, _, cached⟩ :=
    (openOver_browses name codec limit cacheSize stores).ok_of opening
  have live := ((openOver_reads name codec limit cacheSize stores).ok_of opening).live
  have cache : opened.layout.CacheOrdered := cacheOrdered_of_empty cached sets_eq
  refine ⟨codec_eq, cache, fun _ => ⟨live, cache, fun id _ found => ?_⟩⟩
  cases (uncached_of_empty sets_eq id).symm.trans found

variable [Std.TransOrd D] (never : NeverFails σ)
include never

theorem request_serves (request : Request D) (serves : Serves codec table)
    (spares : table.spares request = true) : Serves codec (request.perform table).2 := by
  have ran := (request_ran request serves.cacheOrdered).left
  have kept := (request_keeps request serves.cacheOrdered).left
  refine ⟨ran.codec_eq.trans serves.codec_eq, ran.cacheOrdered serves.cacheOrdered, fun opened => ?_⟩
  exact request_ready never request (serves.ready (kept.isClosed_eq.symm.trans opened)) spares

theorem call_serves (call : Call D) (serves : Serves codec table)
    (spares : table.sparesCall call = true) : Serves codec (call.perform table).2 := by
  cases call with
  | ask request => exact Action.left_map (request_serves never request serves spares)
  | rawSlot key =>
    have still : ∀ after : SetTable σ D, Kept table after → after.layout = table.layout →
        Serves codec after := fun after kept same =>
      ⟨(congrArg Layout.codec same).trans serves.codec_eq, same ▸ serves.cacheOrdered,
        fun opened => (serves.ready (kept.isClosed_eq.symm.trans opened)).of_same kept same⟩
    have same : (rawSlot key : Action (SetTable σ D) Error _).Meets table
        (fun _ => Serves codec) fun _ => Serves codec := by
      refine Action.Meets.mono (rawSlot_does key : Does _ _ False _ _) ?_ ?_
      · exact fun _ after ⟨quiet, same⟩ => still after quiet.toKept same
      · exact fun _ after ⟨rough, same⟩ => still after rough.toKept same
    exact Action.left_map same.left
  | close =>
    have ran := call_ran .close serves.cacheOrdered
    have shuts : close.Meets table (fun _ after => after.isClosed = true)
        fun _ after => after.isClosed = true := by
      refine (close_moves serves.cacheOrdered
        fun opened : table.isClosed = false => (serves.ready opened).flushable).mono ?_ ?_
      · exact fun _ _ ⟨_, _, shut, _⟩ => shut
      · intro _ after ⟨_, blame, _, opened, _⟩
        exact absurd (blame (serves.ready opened).live opened) (not_more never)
    refine ⟨ran.codec_eq.trans serves.codec_eq, ran.cacheOrdered serves.cacheOrdered, fun opened => ?_⟩
    cases opened.symm.trans shuts.left

theorem afterCalls_serves (calls : List (Call D)) (serves : Serves codec table)
    (spares : table.sparesAlong calls = true) : Serves codec (table.afterCalls calls) := by
  induction calls generalizing table with
  | nil => exact serves
  | cons call calls ih =>
    rw [sparesAlong, Bool.and_eq_true] at spares
    exact ih (call_serves never call serves spares.1) spares.2

/-! ## Coherent tables -/

omit never [Table σ] [LawfulTable σ] [Std.TransOrd D] in
theorem current?_eq_held [Observed σ] (table : SetTable σ D) (id : UInt64) :
    table.layout.current? id = (table.held id).toOption.map OrderedSet.toList := by
  rw [current?, stored?, held, layout]
  dsimp only
  cases table.sets.find? id with
  | some cached => rfl
  | none => cases (contents table.stores.overflow).find? (recordKey id) <;> rfl

omit never [Table σ] [LawfulTable σ] [Std.TransOrd D] in
theorem listing_eq [Observed σ] {table : SetTable σ D} (coherent : table.layout.Coherent)
    (key : Bytes) :
    table.listing key = .ok (table.layout.view.find? key) := by
  rw [coherent.find?_view, listing, reading]
  cases located : table.layout.slots.find? key with
  | none =>
    rw [Layout.readSlot, slot?, located]
    rfl
  | some bytes =>
    obtain ⟨slot, list, parsed, isHeld, -⟩ := coherent.holds key bytes located
    have read : table.layout.readSlot key = .ok (some slot) := by
      rw [slot?_eq_readSlot, Option.join_eq_some_iff, toOption_eq_some] at parsed
      exact parsed
    rw [read, parsed, Option.bind_some, isHeld]
    cases slot with
    | inline set =>
      cases isHeld
      rfl
    | overflow redirect =>
      have current : table.layout.current? redirect.recordId = some list := isHeld
      rw [current?_eq_held, Option.map_eq_some_iff] at current
      obtain ⟨set, found, rfl⟩ := current
      dsimp only
      rw [toOption_eq_some.1 found]
      rfl

omit never [Table σ] [LawfulTable σ] [Std.TransOrd D] in
theorem fits_of_held [Observed σ] {table : SetTable σ D} (coherent : table.layout.Coherent)
    (flushable : table.layout.Flushable) (fitted : table.layout.Fitted) {key : Bytes} {id : UInt64}
    (leads : table.layout.Leads key id) {set : OrderedSet D compare}
    (isHeld : table.held id = .ok set) : table.codec.Fits set.toList := by
  have current : table.layout.current? id = some set.toList := by
    rw [current?_eq_held, isHeld]
    rfl
  rw [current?] at current
  split at current
  · rename_i cached found
    rw [← Option.some.inj current]
    cases dirty : cached.dirty with
    | true => exact flushable id cached found dirty
    | false => exact fitted.stored key id _ leads ((coherent.backs id cached found).clean dirty)
  · exact fitted.stored key id _ leads current

omit never [Table σ] [LawfulTable σ] [Std.TransOrd D] in
theorem spares_of_fitted [Observed σ] {table : SetTable σ D} (coherent : table.layout.Coherent)
    (flushable : table.layout.Flushable) (fitted : table.layout.Fitted) {request : Request D}
    (noPut : ∀ key element, request ≠ .put key element) : table.spares request = true := by
  rw [spares]
  split
  · rename_i redirect located
    obtain ⟨key, about, leads⟩ := Option.bind_eq_some_iff.1 located
    split
    · rename_i set isHeld
      have fits := fits_of_held coherent flushable fitted leads isHeld
      cases request with
      | put key element => exact absurd rfl (noPut key element)
      | remove key element =>
        rw [Request.verdict, Option.getD_some, Codec.removal_of_fits fits]
        rfl
      | _ => rfl
    · rfl
  · rfl

omit never [Std.TransOrd D] in
theorem Resumed.fitted_of_initial
    (resumed : Resumed (Layout.initial codec) limit stores table) : table.layout.Fitted := by
  have noSlot : ∀ key, table.layout.slot? key = none := by
    intro key
    rw [slot?, resumed.slots_eq]
    rfl
  exact ⟨fun key _ slot => (by cases (noSlot key).symm.trans slot),
    fun key _ _ leads => (by cases (noSlot key).symm.trans leads)⟩

/-- Over stores that never fail, every flush succeeds and a request about one key has the outcome that
follows from the elements of that key, wherever they are, as long as no request leaves a moved set
that the codec refuses. Through one handle over stores that were empty, only putting can leave such a
set, and a request leaves the elements of all keys that it does not change. Record ids have 64 bits,
so there must be fewer calls. -/
theorem flushes_after (opening : openOver name codec limit cacheSize stores = (.ok opened, left))
    (history : List (Call D)) (sparing : opened.sparesAlong history = true)
    (unclosed : (opened.afterCalls history).isClosed = false) :
    (sync (opened.afterCalls history)).1 = .ok () ∧
      (close (opened.afterCalls history)).1 = .ok () ∧
      (∀ request key, request.key? = some key →
        (opened.afterCalls history).spares request = true →
        (request.perform (opened.afterCalls history)).1 =
          (opened.afterCalls history).listing key >>= request.verdict codec) ∧
      (codec.Faithful → contents stores.primary = .empty → contents stores.overflow = .empty →
        history.length + 2 < 2 ^ 64 → ∀ request : Request D,
          ((∀ key element, request ≠ .put key element) →
            (opened.afterCalls history).spares request = true) ∧
          ∀ key, request.changes? ≠ some key → ∃ list?,
            (opened.afterCalls history).listing key = .ok list? ∧
            (request.perform (opened.afterCalls history)).2.listing key = .ok list?) := by
  have serves := afterCalls_serves never history (serves_of_openOver opening) sparing
  have ready := serves.ready unclosed
  refine ⟨(sync_settles never ready).outcome_eq, ?_, fun request key about spares => ?_, ?_⟩
  · obtain ⟨_, _, performed, _⟩ := (close_succeeds never ready).succeeds
    rw [performed]
  · rw [← serves.codec_eq]
    exact (request_settles never about ready spares).outcome_eq
  · intro faithful noSlots noRecords short request
    have resumed := resumed_of_empty faithful noSlots noRecords opening
    have start := resumed.models (models_initial faithful)
    obtain ⟨map, models⟩ := afterCalls_models history start (by omega)
    have fitted := (afterCalls_persists history start (by omega)).fitted resumed.fitted_of_initial
    refine ⟨spares_of_fitted models.coherent ready.flushable fitted, fun key other => ?_⟩
    obtain ⟨next, onward, elsewhere⟩ := perform_beside request models (by omega)
    refine ⟨map.find? key, ?_, ?_⟩
    · rw [listing_eq models.coherent, models.view_eq]
    · rw [listing_eq onward.coherent, onward.view_eq, elsewhere key other]

end Calls

def refusing : List (Call UInt64) :=
  [.ask (.put [7] 1), .ask (.put [7] 2), .ask (.put [8] 3), .ask (.put [8] 0), .ask (.put [7] 5)]

theorem flushes_after_refusing :
    let opened : SetTable Volatile UInt64 := vacant "ids" .nonzero 1 1
    let table := opened.afterCalls refusing
    openOver "ids" .nonzero 1 1 opened.stores = (.ok opened, opened.stores) ∧
      opened.sparesAlong refusing = true ∧
      table.isClosed = false ∧
      (sync table).1 = .ok () ∧
      (close table).1 = .ok () ∧
      table.spares (.put [8] 0) = true ∧
      ((Request.put [8] 0).perform table).1 =
        table.listing [8] >>= (Request.put [8] 0).verdict .nonzero ∧
      table.spares (.remove [7] 2) = true ∧
      ∃ list?, table.listing [7] = .ok list? ∧
        ((Request.put [8] 0).perform table).2.listing [7] = .ok list? := by
  intro opened table
  have opening : openOver "ids" .nonzero 1 1 opened.stores = (.ok opened, opened.stores) := rfl
  have sparing : opened.sparesAlong refusing = true := by decide +kernel
  have unclosed : table.isClosed = false := by decide +kernel
  have spares : table.spares (.put [8] 0) = true := by decide +kernel
  obtain ⟨syncs, closes, answers, apart⟩ :=
    flushes_after Volatile.neverFails opening refusing sparing unclosed
  have beside := apart Codec.nonzero_faithful rfl rfl (by decide)
  refine ⟨opening, sparing, unclosed, syncs, closes, spares, answers _ [8] rfl spares, ?_, ?_⟩
  · exact (beside (.remove [7] 2)).1 (by simp)
  · exact (beside (.put [8] 0)).2 [7] (by simp [Request.changes?])

def deferring : List (Call UInt64) :=
  [.ask (.put [7] 1), .ask (.put [7] 2), .ask (.put [7] 0)]

/-- The put succeeds, unlike into the same set in its slot. Afterwards a flush fails, and so does a put
under another key if it needs the place in the cache. -/
theorem not_flushes_after_deferring :
    ((Request.put [7] 0).perform ((vacant "ids" .nonzero 1 4).afterCalls
        [.ask (.put [7] 1), .ask (.put [7] 2)])).1 = .ok (.flag true) ∧
      ((Request.put [7] 0).perform ((vacant "ids" .nonzero 2 4).afterCalls
        [.ask (.put [7] 1), .ask (.put [7] 2)])).1 =
          .error (.invalidArgument "value" "*value != 0") ∧
      (sync ((vacant "ids" .nonzero 1 4).afterCalls deferring)).1 =
        .error (.invalidArgument "value" "*value != 0") ∧
      (close ((vacant "ids" .nonzero 1 4).afterCalls deferring)).1 =
        .error (.invalidArgument "value" "*value != 0") ∧
      ((Request.put [8] 4).perform ((vacant "ids" .nonzero 1 1).afterCalls
        (deferring ++ [.ask (.put [8] 3)]))).1 = .error (.invalidArgument "value" "*value != 0") := by
  decide +kernel

end SetTable

end AttributeIndex
