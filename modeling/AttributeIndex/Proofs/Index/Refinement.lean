import AttributeIndex.Proofs.Index.Changes
import AttributeIndex.Proofs.Index.Opening
import AttributeIndex.Proofs.Index.Pairs

namespace AttributeIndex

namespace Index

open Observed

inductive Step (V : Type)
  | ask (request : Request V)
  | reopen (closing : Bool) (limit cacheSize : Nat)

namespace Step

variable {V : Type}

def Valid : Step V → Prop
  | ask _ => True
  | reopen _ limit cacheSize => 0 < limit ∧ limit ≤ Config.maxDuplicateLimit ∧ 0 < cacheSize

theorem Valid.validate {config : Config} {closing : Bool} {limit cacheSize : Nat}
    (allowed : (reopen closing limit cacheSize : Step V).Valid) (valid : config.validate = .ok ()) :
    ({ config with duplicateLimit := limit, cacheSize } : Config).validate = .ok () := by
  obtain ⟨named, subdirectory, -⟩ := Config.validate_eq_ok.1 valid
  obtain ⟨limited, bounded, cached⟩ := allowed
  exact Config.validate_eq_ok.2 ⟨named, subdirectory, cached, limited, bounded⟩

end Step

section

variable {σ V : Type} [Table σ] [Observed σ]

def openAgain (limit cacheSize : Nat) : Action (Index σ V) Error Unit := do
  let opened ← Action.query fun index =>
    (openOver { index.config with duplicateLimit := limit, cacheSize } index.codec
      (index.tables.map Observed.reopen)).1
  modify fun _ => opened

def reopen (closing : Bool) (limit cacheSize : Nat) : Action (Index σ V) Error Unit := do
  if closing then close else sync
  openAgain limit cacheSize

def step : Step V → Action (Index σ V) Error (Answer V)
  | .ask request => request.perform
  | .reopen closing limit cacheSize => do
    reopen closing limit cacheSize
    return .done

def run : List (Step V) → Action (Index σ V) Error (List (Except Error (Answer V)))
  | [] => return []
  | first :: rest => do
    let outcome ← Action.attempt (step first)
    return outcome :: (← run rest)

end

end Index

/-! ## The pairs -/

namespace Pairs

variable {V : Type} [DecidableEq V] {codec : Codec V} {name : String} {pairs : Pairs V}
  {first : Index.Step V} {rest : List (Index.Step V)}

def next (codec : Codec V) (pairs : Pairs V) : Index.Step V → Pairs V
  | .ask request => pairs.after codec request
  | .reopen .. => pairs

def follow (codec : Codec V) (pairs : Pairs V) (steps : List (Index.Step V)) : Pairs V :=
  steps.foldl (next codec) pairs

def Replies (name : String) (codec : Codec V) (pairs : Pairs V) :
    Index.Step V → Except Error (Index.Answer V) → Prop
  | .ask request => Answers name codec pairs request
  | .reopen .. => (· = .ok .done)

/-- Each step came to what the pairs demand that were there before it. -/
inductive Follows (name : String) (codec : Codec V) :
    Pairs V → List (Index.Step V) → List (Except Error (Index.Answer V)) → Prop
  | nil (pairs : Pairs V) : Follows name codec pairs [] []
  | cons {pairs : Pairs V} {first : Index.Step V} {rest : List (Index.Step V)}
      {outcome : Except Error (Index.Answer V)} {outcomes : List (Except Error (Index.Answer V))}
      (replied : Replies name codec pairs first outcome)
      (followed : Follows name codec (pairs.next codec first) rest outcomes) :
      Follows name codec pairs (first :: rest) (outcome :: outcomes)

def FitsAlong (codec : Codec V) (pairs : Pairs V) (steps : List (Index.Step V)) : Prop :=
  ∀ done, done <+: steps → (pairs.follow codec done).Fits codec

theorem FitsAlong.here {steps : List (Index.Step V)} (fits : pairs.FitsAlong codec steps) :
    pairs.Fits codec :=
  fits [] (List.nil_prefix ..)

theorem FitsAlong.tail (fits : pairs.FitsAlong codec (first :: rest)) :
    (pairs.next codec first).FitsAlong codec rest := by
  intro done front
  exact fits (first :: done) ((List.prefix_cons_inj first).2 front)

theorem card_next_le (codec : Codec V) (pairs : Pairs V) (step : Index.Step V) :
    (pairs.next codec step).card ≤ pairs.card + 1 := by
  cases step with
  | ask request => exact card_after_le codec pairs request
  | reopen closing limit cacheSize => exact Nat.le_succ _

theorem card_follow_le (codec : Codec V) (pairs : Pairs V) (steps : List (Index.Step V)) :
    (pairs.follow codec steps).card ≤ pairs.card + steps.length := by
  induction steps generalizing pairs with
  | nil => exact Nat.le_refl _
  | cons first rest ih =>
    have step := card_next_le codec pairs first
    have further := ih (pairs.next codec first)
    rw [List.length_cons]
    show ((pairs.next codec first).follow codec rest).card ≤ _
    omega

theorem fitsAlong_of_length (accepts : ∀ value, codec.Accepts value) {steps : List (Index.Step V)}
    (short : pairs.card + steps.length ≤ Codec.maxFieldLength) : pairs.FitsAlong codec steps := by
  intro done front
  have few := card_follow_le codec pairs done
  have shorter := front.length_le
  exact fits_of_card accepts (by omega)

end Pairs

namespace Index

open Observed

variable {σ V : Type} [Table σ] [LawfulTable σ] {codec : Codec V} {maps : Maps} {ids : Nat}
  {index : Index σ V} {config : Config}

omit [Table σ] [LawfulTable σ] in
theorem failures_eq_zero [Observed σ] (never : NeverFails σ) (index : Index σ V) :
    failures index = 0 := by
  rw [failures, SetTable.failures_eq_zero never, SetTable.failures_eq_zero never]

structure Stored (config : Config) (codec : Codec V) (maps : Maps) (ids : Nat)
    (index : Index σ V) : Prop where
  config_eq : index.config = config
  codec_eq : index.codec = codec
  forward : SetTable.Stored .uint64 maps.forward ids index.forward
  reverse : SetTable.Stored .bytes maps.reverse ids index.reverse

theorem close_stores (never : NeverFails σ) (live : index.Live)
    (models : Models codec maps ids index) (fits : maps.Fits) :
    close.Meets index (fun _ after => Stored index.config codec maps ids after)
      (fun _ _ => False) := by
  have opened : ¬ index.isClosed = true := by simp [live.isClosed_eq]
  rw [close, Action.meets_bind, Action.meets_get, if_neg opened, Action.meets_bind,
    meets_onForward]
  apply (SetTable.close_stores never live.forward models.forward fits.forward).mono
  · intro _ forward storedForward
    rw [Action.meets_bind, meets_onReverse]
    apply (SetTable.close_stores never live.reverse models.reverse fits.reverse).mono
    · exact fun _ reverse storedReverse => ⟨rfl, models.codec_eq, storedForward, storedReverse⟩
    · exact fun _ _ => False.elim
  · exact fun _ _ => False.elim

theorem sync_stores (never : NeverFails σ) (live : index.Live)
    (models : Models codec maps ids index) (fits : maps.Fits) :
    sync.Meets index (fun _ after => Stored index.config codec maps ids after)
      (fun _ _ => False) := by
  have opened : ¬ index.isClosed = true := by simp [live.isClosed_eq]
  rw [sync, Action.meets_bind, requireOpen, Action.meets_bind, Action.meets_get, if_neg opened,
    Action.meets_pure, Action.meets_bind, meets_onForward]
  apply (SetTable.sync_stores never live.forward models.forward fits.forward).mono
  · intro _ forward storedForward
    rw [meets_onReverse]
    apply (SetTable.sync_stores never live.reverse models.reverse fits.reverse).mono
    · exact fun _ reverse storedReverse => ⟨rfl, models.codec_eq, storedForward, storedReverse⟩
    · exact fun _ _ => False.elim
  · exact fun _ _ => False.elim

theorem openAgain_meets (never : NeverFails σ) (stored : Stored config codec maps ids index)
    {limit cacheSize : Nat}
    (valid : ({ config with duplicateLimit := limit, cacheSize } : Config).validate = .ok ()) :
    (openAgain limit cacheSize).Meets index
      (fun _ after => Models codec maps ids after ∧ after.Live ∧
        after.config = { config with duplicateLimit := limit, cacheSize }) (fun _ _ => False) := by
  have allOpen : TablesOpen (index.tables.map Observed.reopen) :=
    ⟨LawfulTable.isOpen_reopen _, LawfulTable.isOpen_reopen _, LawfulTable.isOpen_reopen _,
      LawfulTable.isOpen_reopen _⟩
  obtain ⟨forward, forwardModels, forwardRests⟩ := stored.forward.rests
  obtain ⟨reverse, reverseModels, reverseRests⟩ := stored.reverse.rests
  obtain ⟨opened, _, performed, resumed⟩ := (openOver_never never forwardRests.reopen
    reverseRests.reopen forwardModels.codec_eq reverseModels.codec_eq allOpen valid).succeeds
  rw [openAgain, Action.meets_bind, Action.meets_query, stored.config_eq, stored.codec_eq, performed]
  exact ⟨resumed.models forwardModels reverseModels, resumed.live allOpen, resumed.config_eq⟩

/-! ## Runs -/

structure Serves (name : String) (codec : Codec V) (pairs : Pairs V) (ids : Nat)
    (index : Index σ V) : Prop where
  models : Models codec index.maps ids index
  mirrors : pairs.Mirrors codec index.maps
  live : index.Live
  valid : index.config.validate = .ok ()
  named : index.config.attributeId = name

theorem Models.serves {name : String} {pairs : Pairs V} (models : Models codec maps ids index)
    (mirrors : pairs.Mirrors codec maps) (live : index.Live)
    (valid : index.config.validate = .ok ()) (named : index.config.attributeId = name) :
    Serves name codec pairs ids index :=
  ⟨models.maps_eq ▸ models, models.maps_eq ▸ mirrors, live, valid, named⟩

variable [DecidableEq V] {name : String} {pairs : Pairs V}

theorem ask_meets (never : NeverFails σ) (faithful : codec.Faithful)
    (serves : Serves name codec pairs ids index) (request : Request V) (fits : pairs.Fits codec)
    (nextFits : (pairs.after codec request).Fits codec) (room : ids + 1 < 2 ^ 64) :
    (Action.attempt request.perform : Action (Index σ V) Error _).Meets index
      (fun outcome after => pairs.Answers name codec request outcome ∧
        Serves name codec (pairs.after codec request) (ids + 1) after)
      (fun _ _ => False) := by
  have answered := serves.mirrors.answers faithful name request
  have mirrors := serves.mirrors.after faithful request
  have setsFit : SetsFitFormat codec index.maps request :=
    ⟨serves.mirrors.fits faithful fits, mirrors.fits faithful nextFits⟩
  have stays : ∀ {after : Index σ V}, Kept index after →
      Models codec (index.maps.after codec request) (ids + 1) after →
      Serves name codec (pairs.after codec request) (ids + 1) after := by
    intro after kept models
    apply models.serves mirrors (kept.live_iff.2 serves.live)
    · rw [kept.config_eq, serves.valid]
    · rw [kept.config_eq, serves.named]
  rw [Action.meets_attempt]
  apply Action.Meets.mono (perform_changes request serves.models serves.named room)
  · intro answer after performed
    rw [performed.answered] at answered
    exact ⟨answered, stays performed.quiet.toKept performed.models⟩
  · intro failure after undone
    obtain ⟨refused, kept, models⟩ | ⟨middle, more⟩ := undone.blame serves.live setsFit
    · rw [refused] at answered
      rw [← Maps.after_of_refused refused] at models
      exact ⟨answered, stays kept models⟩
    · rw [failures_eq_zero never, failures_eq_zero never] at more
      exact absurd more (Nat.lt_irrefl 0)

theorem reopen_meets (never : NeverFails σ) (faithful : codec.Faithful)
    (serves : Serves name codec pairs ids index) (fits : pairs.Fits codec) (closing : Bool)
    {limit cacheSize : Nat} (allowed : (Step.reopen closing limit cacheSize : Step V).Valid) :
    (reopen closing limit cacheSize).Meets index
      (fun _ after => Serves name codec pairs ids after) (fun _ _ => False) := by
  have mapsFit := serves.mirrors.fits faithful fits
  have opensAgain : ∀ (_ : Unit) (after : Index σ V),
      Stored index.config codec index.maps ids after →
      (openAgain limit cacheSize).Meets after (fun _ last => Serves name codec pairs ids last)
        (fun _ _ => False) := by
    intro _ after stored
    have valid := allowed.validate serves.valid
    apply (openAgain_meets never stored valid).mono
    · intro _ last ⟨models, live, config_eq⟩
      exact models.serves serves.mirrors live (config_eq ▸ valid)
        ((congrArg Config.attributeId config_eq).trans serves.named)
    · exact fun _ _ => False.elim
  unfold reopen
  cases closing with
  | true =>
    rw [if_pos rfl, Action.meets_bind]
    exact (close_stores never serves.live serves.models mapsFit).mono opensAgain
      fun _ _ => False.elim
  | false =>
    rw [if_neg Bool.false_ne_true, Action.meets_bind]
    exact (sync_stores never serves.live serves.models mapsFit).mono opensAgain
      fun _ _ => False.elim

theorem step_meets (never : NeverFails σ) (faithful : codec.Faithful)
    (serves : Serves name codec pairs ids index) (first : Step V) (allowed : first.Valid)
    (fits : pairs.Fits codec) (nextFits : (pairs.next codec first).Fits codec)
    (room : ids + 1 < 2 ^ 64) :
    (Action.attempt (step first) : Action (Index σ V) Error _).Meets index
      (fun outcome after => pairs.Replies name codec first outcome ∧
        Serves name codec (pairs.next codec first) (ids + 1) after)
      (fun _ _ => False) := by
  cases first with
  | ask request => exact ask_meets never faithful serves request fits nextFits room
  | reopen closing limit cacheSize =>
    rw [Action.meets_attempt]
    show Action.Meets (reopen closing limit cacheSize >>= fun _ => pure Answer.done) _ _ _
    rw [Action.meets_bind]
    apply (reopen_meets never faithful serves fits closing allowed).mono
    · intro _ after again
      exact ⟨rfl, again.models.later (Nat.le_succ ids), again.mirrors, again.live, again.valid,
        again.named⟩
    · exact fun _ _ => False.elim

theorem run_meets (never : NeverFails σ) (faithful : codec.Faithful)
    (serves : Serves name codec pairs ids index) (steps : List (Step V))
    (allowed : ∀ step ∈ steps, step.Valid) (fits : pairs.FitsAlong codec steps)
    (room : ids + steps.length < 2 ^ 64) :
    (run steps).Meets index
      (fun outcomes after => pairs.Follows name codec steps outcomes ∧
        Serves name codec (pairs.follow codec steps) (ids + steps.length) after)
      (fun _ _ => False) := by
  induction steps generalizing index pairs ids with
  | nil => exact ⟨.nil pairs, serves⟩
  | cons first rest ih =>
    obtain ⟨firstAllowed, restAllowed⟩ := List.forall_mem_cons.1 allowed
    rw [List.length_cons] at room
    rw [run, Action.meets_bind]
    apply (step_meets never faithful serves first firstAllowed fits.here fits.tail.here
      (by omega)).mono
    · intro outcome after ⟨replied, further⟩
      rw [Action.meets_bind]
      apply (ih further restAllowed fits.tail (by omega)).mono
      · intro outcomes last ⟨followed, reached⟩
        rw [Nat.add_assoc, Nat.add_comm 1] at reached
        exact ⟨.cons replied followed, reached⟩
      · exact fun _ _ => False.elim
    · exact fun _ _ => False.elim

/-- Over empty stores that never fail, every run of requests and reopenings comes to what a finite set
of pairs demands. Both tables hold these pairs in the end, and both count them. Record ids have 64
bits, so the run must not be longer than that; and the pairs must not outgrow the format in which sets
are stored. -/
theorem run_follows (never : NeverFails σ) (faithful : codec.Faithful) {tables : Tables σ}
    (empty : TablesEmpty tables) (allOpen : TablesOpen tables) (valid : config.validate = .ok ())
    (steps : List (Step V)) (allowed : ∀ step ∈ steps, step.Valid)
    (fits : Pairs.FitsAlong codec ∅ steps) (short : steps.length + 1 < 2 ^ 64) :
    ∃ index left outcomes final,
      openOver config codec tables = (.ok index, left) ∧
      run steps index = (.ok outcomes, final) ∧
      Pairs.Follows config.attributeId codec ∅ steps outcomes ∧
      Pairs.Mirrors codec (Pairs.follow codec ∅ steps) final.maps ∧
      final.count = (Pairs.follow codec ∅ steps).card ∧
      final.reverse.count = (Pairs.follow codec ∅ steps).card := by
  obtain ⟨index, left, performed, resumed⟩ := (openOver_never never empty.rests_forward
    empty.rests_reverse rfl rfl allOpen valid).succeeds
  have serves : Serves config.attributeId codec ∅ 1 index :=
    resumed.models_empty.serves Pairs.mirrors_empty (resumed.live allOpen)
      (resumed.config_eq ▸ valid) (congrArg Config.attributeId resumed.config_eq)
  obtain ⟨outcomes, final, ran, followed, reached⟩ :=
    (run_meets never faithful serves steps allowed fits (by omega)).succeeds
  have counted := reached.mirrors.total_eq faithful
  have alike := reached.mirrors.agree.total_eq reached.mirrors.forwardProper
    reached.mirrors.reverseProper
  refine ⟨index, left, outcomes, final, performed, ran, followed, reached.mirrors, ?_, ?_⟩
  · exact (SetTable.count_eq reached.models.forward).trans counted
  · exact (SetTable.count_eq reached.models.reverse).trans (alike.trans counted)

def volatileTables : Tables Volatile :=
  ⟨⟨.empty, .empty⟩, ⟨.empty, .empty⟩⟩

def reopenedTwice : List (Step UInt64) :=
  [.ask (.add 5 10), .ask (.add 5 11), .reopen true 2 1, .ask (.add 7 10), .ask (.lookup 5),
    .reopen false 1 3, .ask (.dropEntry 11), .ask (.reverseLookup 11), .ask .entries]

def twiceReopenedOutcomes : List (Except Error (Answer UInt64)) :=
  [.ok (.flag true), .ok (.flag true), .ok .done, .ok (.flag true), .ok (.ids [.ok 10, .ok 11]),
    .ok .done, .ok (.number 1), .error (.notFound "cn of entry 11"),
    .ok (.pairs [(5, 10), (7, 10)])]

theorem run_follows_reopenedTwice :
    ∃ index left final,
      openOver ⟨"cn", 1, 1, none⟩ .uint64 volatileTables = (.ok index, left) ∧
      run reopenedTwice index = (.ok twiceReopenedOutcomes, final) ∧
      Pairs.Follows "cn" .uint64 ∅ reopenedTwice twiceReopenedOutcomes ∧
      Pairs.Mirrors .uint64 (Pairs.follow .uint64 ∅ reopenedTwice) final.maps ∧
      final.count = 2 ∧ final.reverse.count = 2 := by
  have empty : TablesEmpty volatileTables := ⟨rfl, rfl, rfl, rfl⟩
  have valid : (⟨"cn", 1, 1, none⟩ : Config).validate = .ok () := rfl
  have allowed : ∀ step ∈ reopenedTwice, step.Valid := by
    simp [reopenedTwice, Step.Valid, Config.maxDuplicateLimit]
  have fits : Pairs.FitsAlong .uint64 ∅ reopenedTwice :=
    Pairs.fitsAlong_of_length Codec.uint64_accepts (by decide)
  obtain ⟨index, left, outcomes, final, opening, ran, followed, mirrors, counted, reversed⟩ :=
    run_follows Volatile.neverFails Codec.uint64_faithful empty ⟨rfl, rfl, rfl, rfl⟩ valid
      reopenedTwice allowed fits (by decide)
  have evaluated : (openOver ⟨"cn", 1, 1, none⟩ .uint64 volatileTables).1.map
      (fun index => (run reopenedTwice index).1) = .ok (.ok twiceReopenedOutcomes) := by
    decide +kernel
  rw [opening, Except.map, ran] at evaluated
  cases evaluated
  exact ⟨index, left, final, opening, ran, followed, mirrors, counted, reversed⟩

/-- No index can have a limit beyond the greatest one, so opening one again may be refused. -/
theorem not_follows_beyond_maxDuplicateLimit :
    ∃ index left final,
      openOver ⟨"cn", 1, 1, none⟩ .uint64 volatileTables = (.ok index, left) ∧
      run [.ask (.add 5 10), .reopen true 16777217 1] index =
        (.ok [.ok (.flag true), .error (.configuration "duplicate_limit"
          "self.duplicate_limit <= MAX_DUPLICATE_LIMIT")], final) ∧
      ¬ Pairs.Follows "cn" .uint64 ∅ [.ask (.add 5 10), .reopen true 16777217 1]
        [.ok (.flag true), .error (.configuration "duplicate_limit"
          "self.duplicate_limit <= MAX_DUPLICATE_LIMIT")] := by
  have empty : TablesEmpty volatileTables := ⟨rfl, rfl, rfl, rfl⟩
  have valid : (⟨"cn", 1, 1, none⟩ : Config).validate = .ok () := rfl
  obtain ⟨index, left, opening, _⟩ := (openOver_never Volatile.neverFails empty.rests_forward
    empty.rests_reverse rfl rfl ⟨rfl, rfl, rfl, rfl⟩ valid).succeeds
  have evaluated : (openOver ⟨"cn", 1, 1, none⟩ .uint64 volatileTables).1.map
      (fun index => (run [.ask (.add 5 10), .reopen true 16777217 1] index).1) =
        .ok (.ok [.ok (.flag true), .error (.configuration "duplicate_limit"
          "self.duplicate_limit <= MAX_DUPLICATE_LIMIT")]) := by
    decide +kernel
  rw [opening, Except.map] at evaluated
  refine ⟨index, left, _, opening, Prod.ext (Except.ok.inj evaluated) rfl, ?_⟩
  intro followed
  cases followed with
  | cons _ followed =>
    cases followed with
    | cons replied _ => cases replied

end Index

end AttributeIndex
