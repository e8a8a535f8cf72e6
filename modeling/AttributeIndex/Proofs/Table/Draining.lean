import AttributeIndex.Proofs.Table.Iteration

namespace AttributeIndex

open AttributeIndex.Action AttributeIndex.Sequence

namespace Cursor

variable {κ τ α : Type} {ask : α → Action τ Error Unit} {ahead : List α} {source : τ}

/-- The replies to so many calls if every element has to be asked for: one that does not come is asked
for again. -/
def tells (ask : α → Action τ Error Unit) :
    (count : Nat) → (ahead : List α) → (source : τ) → List (Option (Except Error α))
  | 0, _, _ => []
  | count + 1, [], source => none :: tells ask count [] source
  | count + 1, element :: rest, source =>
    match ask element source with
    | (.ok (), source) => some (.ok element) :: tells ask count rest source
    | (.error failure, source) =>
      some (.error failure) :: tells ask count (element :: rest) source

inductive Comes (ask : α → Action τ Error Unit) :
    (ahead : List α) → (source : τ) → (failed : Nat) → Prop
  | done {source : τ} : Comes ask [] source 0
  | element {element : α} {rest : List α} {source after : τ} {failed : Nat}
    (asked : ask element source = (.ok (), after)) (later : Comes ask rest after failed) :
    Comes ask (element :: rest) source failed
  | failure {element : α} {rest : List α} {source after : τ} {failure : Error} {failed : Nat}
    (asked : ask element source = (.error failure, after))
    (later : Comes ask (element :: rest) after failed) :
    Comes ask (element :: rest) source (failed + 1)

def isFailure : Option (Except Error α) → Bool
  | some (.error _) => true
  | _ => false

def failures (replies : List (Option (Except Error α))) : Nat :=
  replies.countP isFailure

@[simp] theorem failures_nil : failures ([] : List (Option (Except Error α))) = 0 :=
  rfl

@[simp] theorem failures_none (replies : List (Option (Except Error α))) :
    failures (none :: replies) = failures replies :=
  List.countP_cons_of_neg Bool.false_ne_true

@[simp] theorem failures_ok (element : α) (replies : List (Option (Except Error α))) :
    failures (some (.ok element) :: replies) = failures replies :=
  List.countP_cons_of_neg Bool.false_ne_true

@[simp] theorem failures_error (failure : Error) (replies : List (Option (Except Error α))) :
    failures (some (.error failure) :: replies) = failures replies + 1 :=
  List.countP_cons_of_pos rfl

theorem tells_nil (count : Nat) : tells ask count [] source = List.replicate count none := by
  induction count with
  | zero => rfl
  | succ count ih => exact congrArg (none :: ·) ih

theorem failures_tells_nil (count : Nat) : failures (tells ask count [] source) = 0 := by
  induction count with
  | zero => rfl
  | succ count ih => exact (failures_none _).trans ih

theorem none_mem_tells_iff (count : Nat) :
    none ∈ tells ask count ahead source ↔
      ahead.length + failures (tells ask count ahead source) < count := by
  -- After a failure the same element is asked for again, so the induction is on the calls.
  induction count generalizing ahead source with
  | zero => simp [tells]
  | succ count ih =>
    cases ahead with
    | nil =>
      rw [failures_tells_nil, tells_nil]
      simp
    | cons element rest =>
      rw [tells]
      cases ask element source with
      | mk outcome after =>
        cases outcome with
        | ok _ =>
          simp only [List.mem_cons, reduceCtorEq, false_or, ih, failures_ok, List.length_cons]
          omega
        | error failure =>
          simp only [List.mem_cons, reduceCtorEq, false_or, ih, failures_error, List.length_cons]
          omega

theorem comes_of_none_mem {count : Nat} (ended : none ∈ tells ask count ahead source) :
    Comes ask ahead source (failures (tells ask count ahead source)) := by
  induction count generalizing ahead source with
  | zero => cases ended
  | succ count ih =>
    cases ahead with
    | nil =>
      rw [failures_tells_nil]
      exact .done
    | cons element rest =>
      rw [tells] at ended ⊢
      cases asked : ask element source with
      | mk outcome after =>
        cases outcome with
        | ok _ =>
          simp only [asked, List.mem_cons, reduceCtorEq, false_or] at ended
          rw [failures_ok]
          exact .element asked (ih ended)
        | error failure =>
          simp only [asked, List.mem_cons, reduceCtorEq, false_or] at ended
          rw [failures_error]
          exact .failure asked (ih ended)

theorem Comes.failures_le {failed : Nat} (comes : Comes ask ahead source failed) (count : Nat) :
    failures (tells ask count ahead source) ≤ failed := by
  induction count generalizing ahead source failed with
  | zero => exact Nat.zero_le _
  | succ count ih =>
    cases comes with
    | done => exact Nat.le_of_eq (failures_tells_nil _)
    | element asked later =>
      rw [tells, asked, failures_ok]
      exact ih later
    | failure asked later =>
      rw [tells, asked, failures_error]
      exact Nat.succ_le_succ (ih later)

/-! ## Cursors -/

variable [Cursor κ α]

inductive Advanced (keeps : List α → τ → κ → Prop) (ask : α → Action τ Error Unit) :
    List α → τ → Option (Except Error α) × κ → Prop
  | ended {source : τ} {cursor : κ} (kept : keeps [] source cursor) :
    Advanced keeps ask [] source (none, cursor)
  | element {element : α} {rest : List α} {source after : τ} {cursor : κ}
    (asked : ask element source = (.ok (), after)) (kept : keeps rest after cursor) :
    Advanced keeps ask (element :: rest) source (some (.ok element), cursor)
  | failure {element : α} {rest : List α} {source after : τ} {failure : Error} {cursor : κ}
    (asked : ask element source = (.error failure, after))
    (kept : keeps (element :: rest) after cursor) :
    Advanced keeps ask (element :: rest) source (some (.error failure), cursor)

theorem advances_eq_tells {keeps : List α → τ → κ → Prop}
    (step : ∀ ahead source cursor, keeps ahead source cursor →
      Advanced keeps ask ahead source (advance cursor))
    (count : Nat) {cursor : κ} (stands : keeps ahead source cursor) :
    (advances count cursor).1 = tells ask count ahead source := by
  induction count generalizing ahead source cursor with
  | zero => rfl
  | succ count ih =>
    have advanced := step ahead source cursor stands
    unfold advances
    generalize advance cursor = performed at advanced
    cases advanced with
    | ended kept => exact congrArg (none :: ·) (ih kept)
    | element asked kept =>
      rw [tells, asked]
      exact congrArg _ (ih kept)
    | failure asked kept =>
      rw [tells, asked]
      exact congrArg _ (ih kept)

theorem advances_of_refused {failure : Error} {cursor : κ}
    (refused : advance cursor = (some (.error failure), cursor)) (count : Nat) :
    (advances count cursor).1 = List.replicate count (some (.error failure)) := by
  induction count with
  | zero => rfl
  | succ count ih =>
    unfold advances
    rw [refused, List.replicate_succ]
    exact congrArg _ ih

theorem Simulates.advances_agree {μ : Type} [Cursor μ α] {related : κ → μ → Prop}
    (simulates : Simulates related) {cursor : κ} {twin : μ} (twins : related cursor twin)
    (count : Nat) : (advances count cursor).1 = (advances count twin).1 := by
  induction count generalizing cursor twin with
  | zero => rfl
  | succ count ih =>
    obtain ⟨same, moved⟩ := simulates.advance_agree twins
    unfold advances
    exact List.cons_eq_cons.2 ⟨same, ih moved⟩

/-- The end is told after at most one item more than there are elements, one failure among them at
most. -/
def EndsSoon (elements : List α) (cursor : κ) : Prop :=
  ∃ count ≤ elements.length + 2,
    none ∈ (advances count cursor).1 ∧ failures (advances count cursor).1 ≤ 1

/-- How a cursor is drained that has the given ones of its elements before it and has to ask a source
for them. -/
structure Drained (elements ahead : List α) (ask : α → Action τ Error Unit) (source : τ)
    (label : String) (cursor : κ) : Prop where
  suffix : ahead <:+ elements
  closed : Cursor.isClosed cursor = true → ¬ EndsSoon elements cursor ∧ ∀ count,
    (advances count cursor).1 = List.replicate count (some (.error (.closed label)))
  opened : Cursor.isClosed cursor = false →
    (EndsSoon elements cursor ↔ ∃ failed ≤ 1, Comes ask ahead source failed) ∧
      ∀ count, (advances count cursor).1 = tells ask count ahead source

theorem endsSoon_iff {elements : List α} {cursor : κ} (suffix : ahead <:+ elements)
    (told : ∀ count, (advances count cursor).1 = tells ask count ahead source) :
    EndsSoon elements cursor ↔ ∃ failed ≤ 1, Comes ask ahead source failed := by
  constructor
  · rintro ⟨count, -, ended, few⟩
    rw [told] at ended few
    exact ⟨_, few, comes_of_none_mem ended⟩
  · rintro ⟨failed, few, comes⟩
    have short := suffix.length_le
    have rare := comes.failures_le (elements.length + 2)
    refine ⟨elements.length + 2, Nat.le_refl _, ?_, ?_⟩
    · rw [told, none_mem_tells_iff]
      omega
    · rw [told]
      exact Nat.le_trans rare few

theorem Drained.intro {elements : List α} {label : String} {cursor : κ} (suffix : ahead <:+ elements)
    (closed : Cursor.isClosed cursor = true → advance cursor = (some (.error (.closed label)), cursor))
    (opened : Cursor.isClosed cursor = false →
      ∀ count, (advances count cursor).1 = tells ask count ahead source) :
    Drained elements ahead ask source label cursor where
  suffix := suffix
  closed shut := by
    have refused := advances_of_refused (closed shut)
    refine ⟨?_, refused⟩
    rintro ⟨count, -, ended, -⟩
    rw [refused, List.mem_replicate] at ended
    cases ended.2
  opened open_ := ⟨endsSoon_iff suffix (opened open_), opened open_⟩

end Cursor

namespace Sequence.Spot

variable {α : Type} {cmp : α → α → Ordering} {list ahead : List α} {spot : Spot cmp list}

def grant (_ : α) : Action Unit Error Unit :=
  Action.ofResult (.ok ())

theorem comes_grant (ahead : List α) : Cursor.Comes grant ahead () 0 := by
  induction ahead with
  | nil => exact .done
  | cons element rest ih => exact .element rfl ih

structure Keeps (ahead : List α) (source : Unit) (spot : Spot cmp list) : Prop where
  opened : spot.isClosed = false
  rest_eq : ahead = list.drop spot.passed

theorem Keeps.advanced (keeps : Keeps ahead () spot) :
    Cursor.Advanced Keeps grant ahead () (Cursor.advance spot) := by
  obtain ⟨opened, rfl⟩ := keeps
  have moved : (Cursor.next : Action (Spot cmp list) Error Bool) spot =
      (.ok spot.ahead.isAvailable, spot.ahead) := by
    show move Spot.ahead spot = _
    rw [move, opened]
    rfl
  unfold Cursor.advance
  rw [moved, ahead_eq opened]
  by_cases inside : spot.passed < list.length
  · rw [elementOr_of_lt inside, List.drop_eq_getElem_cons inside]
    exact .element rfl ⟨rfl, rfl⟩
  · rw [elementOr_of_le (Nat.not_lt.1 inside), List.drop_of_length_le (Nat.not_lt.1 inside)]
    exact .ended ⟨rfl, List.drop_length.symm⟩

end Sequence.Spot

namespace OrderedSet.Walk

variable {α : Type} {cmp : α → α → Ordering} {set : OrderedSet α cmp} {walk : Walk α cmp}
  {spot : Spot cmp set.toList}

theorem advance_closed (shut : walk.isClosed = true) :
    Cursor.advance walk = (some (.error (.closed label)), walk) := by
  obtain ⟨set, position⟩ := walk
  cases position with
  | beforeFirst | afterLast | on | gap => cases shut
  | closed => rfl

theorem Shows.drained [Std.TransCmp cmp] (ordered : set.Ordered) (shows : Shows set walk spot) :
    Cursor.Drained set.toList (set.toList.drop spot.passed) Spot.grant () label walk := by
  refine .intro (List.drop_suffix _ _) advance_closed fun opened count => ?_
  rw [(simulates ordered).advances_agree shows]
  refine Cursor.advances_eq_tells (fun _ _ _ => Spot.Keeps.advanced) count ⟨?_, rfl⟩
  exact shows.isClosed_eq.symm.trans opened

end OrderedSet.Walk

/-! ## Scans -/

namespace Scan

variable {σ : Type} [Table σ] {entries : SortedMap Bytes Bytes} {valid : σ → Prop} {scan : Scan σ}
  {ahead : List Tuple} {source : σ}

def fetch (tuple : Tuple) : Action σ Error Unit := do
  let _ ← Action.relating (.io (label ++ " value load")) (Table.load tuple.key)

theorem fetch_of_loaded {tuple : Tuple} {value : Bytes} {after : σ}
    (loads : (Table.load tuple.key : Action σ IoError Bytes) source = (.ok value, after)) :
    fetch tuple source = (.ok (), after) := by
  rw [fetch, Action.bind_apply, Action.relating, loads]
  rfl

theorem fetch_of_failed {tuple : Tuple} {cause : IoError} {after : σ}
    (loads : (Table.load tuple.key : Action σ IoError Bytes) source = (.error cause, after)) :
    fetch tuple source = (.error (.io (label ++ " value load") cause), after) := by
  rw [fetch, Action.bind_apply, Action.relating, loads]
  rfl

structure Keeps (entries : SortedMap Bytes Bytes) (valid : σ → Prop) (ahead : List Tuple) (source : σ)
    (scan : Scan σ) : Prop where
  opened : scan.isClosed = false
  valid : valid scan.table
  table_eq : scan.table = source
  following_eq : following entries scan = ahead

theorem Keeps.advanced (serves : Serves entries valid)
    (keeps : Keeps entries valid ahead source scan) :
    Cursor.Advanced (Keeps entries valid) fetch ahead source (Cursor.advance scan) := by
  obtain ⟨opened, still, rfl, following_eq⟩ := keeps
  have advanced := advance_advanced serves still opened
  rw [following_eq] at advanced
  generalize Cursor.advance scan = performed at advanced
  cases advanced with
  | ends => exact .ended ⟨rfl, still, rfl, following_afterLast⟩
  | comes loads kept => exact .element (fetch_of_loaded loads) ⟨rfl, kept, rfl, following_on following_eq⟩
  | fails loads kept => exact .failure (fetch_of_failed loads) ⟨opened, kept, rfl, following_eq⟩

theorem drained (serves : Serves entries valid) (still : valid scan.table) :
    Cursor.Drained (tuplesOf entries) (following entries scan) fetch scan.table label scan := by
  refine .intro (following_suffix entries scan) advance_closed fun opened count => ?_
  have keeps : Keeps entries valid (following entries scan) scan.table scan :=
    ⟨opened, still, rfl, rfl⟩
  exact Cursor.advances_eq_tells (fun _ _ _ => Keeps.advanced serves) count keeps

end Scan

namespace Cursor

/-- However a cursor was moved, it is drained like this: if it is open it tells the elements that it
has before it, one failure for every load that fails, and then the end. The end comes soon exactly if
the cursor is open and its values come with one failure among them at most. -/
theorem drained_after {α : Type} {cmp : α → α → Ordering} [Std.TransCmp cmp]
    (changes : List (OrderedSet.Change α)) (turns : List (Step α)) {σ : Type} [Table σ]
    {entries : SortedMap Bytes Bytes} {valid : σ → Prop} (serves : Scan.Serves entries valid)
    {table : σ} (started : valid table) (steps : List (Step Tuple)) :
    let set : OrderedSet α cmp := OrderedSet.empty.changeAll changes
    let walk := (outcomes Step.perform turns (OrderedSet.Walk.start set)).2
    let scan := (outcomes Step.perform steps (Scan.start table)).2
    (∃ ahead, Drained set.toList ahead Spot.grant () OrderedSet.Walk.label walk ∧
      (walk.isClosed = false → EndsSoon set.toList walk)) ∧
    Drained (Scan.tuplesOf entries) (Scan.following entries scan) Scan.fetch scan.table Scan.label
      scan := by
  intro set walk scan
  constructor
  · have ordered : set.Ordered := (OrderedSet.sound_empty.changeAll changes).toOrdered
    obtain ⟨-, shows⟩ := (OrderedSet.Walk.simulates ordered).outcomes_agree
      (OrderedSet.Walk.shows_start set) turns
    have drained := shows.drained ordered
    refine ⟨_, drained, fun opened => ?_⟩
    obtain ⟨soon, -⟩ := drained.opened opened
    exact soon.2 ⟨0, Nat.zero_le 1, Spot.comes_grant _⟩
  · obtain ⟨-, shows⟩ := (Scan.simulates serves).outcomes_agree
      (⟨rfl, started, .beforeFirst⟩ :
        Scan.Shows entries valid (Scan.start table) (Scan.Ideal.start entries table)) steps
    exact Scan.drained serves shows.valid

theorem drained_after_failing_once :
    let set : OrderedSet Nat compare := OrderedSet.empty.changeAll [.insert 5, .insert 3]
    let walk := (outcomes Step.perform [.next] (OrderedSet.Walk.start set)).2
    let entries : SortedMap Bytes Bytes := .ofList [([1], [7]), ([2], [8])]
    let store : Unreliable := (Unreliable.ofEntries entries).setPlan .load ⟨(· == 1), 0⟩
    let scan := (outcomes Step.perform [] (Scan.start store)).2
    Scan.Serves entries (fun other : Unreliable => other.table.entries = entries) ∧
      (∃ ahead, Drained set.toList ahead Spot.grant () OrderedSet.Walk.label walk ∧
        EndsSoon set.toList walk) ∧
      Drained (Scan.tuplesOf entries) (Scan.following entries scan) Scan.fetch scan.table Scan.label
        scan ∧
      EndsSoon (Scan.tuplesOf entries) scan ∧
      (advances 4 scan).1 =
        [some (.ok ⟨[1], [7]⟩),
          some (.error (.io "table cursor value load" (.failed "load failed: disk full"))),
          some (.ok ⟨[2], [8]⟩), none] := by
  intro set walk entries store scan
  have serves : Scan.Serves entries fun other : Unreliable => other.table.entries = entries :=
    Scan.serves_of_lawful store
  have started : store.table.entries = entries := rfl
  obtain ⟨⟨ahead, walked, soon⟩, scanned⟩ :=
    @drained_after Nat compare inferInstance [.insert 5, .insert 3] [.next] _ _ _ _ serves _ started []
  have comes : Comes Scan.fetch (Scan.tuplesOf entries) store 1 :=
    .element rfl (.failure rfl (.element rfl .done))
  exact ⟨serves, ⟨ahead, walked, soon rfl⟩, scanned,
    (scanned.opened rfl).1.2 ⟨1, Nat.le_refl 1, comes⟩, by decide +kernel⟩

/-- The value of the only tuple never comes, so the failure is told again and again. -/
theorem not_endsSoon_beside_failing_load :
    let entries : SortedMap Bytes Bytes := .ofList [([1], [7])]
    let store : Unreliable := (Unreliable.ofEntries entries).setPlan .load (.after 0)
    (Scan.tuplesOf entries).length = 1 ∧
      (advances 3 (Scan.start store)).1 = List.replicate 3
        (some (.error (.io "table cursor value load" (.failed "load failed: disk full")))) ∧
      ¬ EndsSoon (Scan.tuplesOf entries) (Scan.start store) := by
  intro entries store
  refine ⟨rfl, by decide +kernel, ?_⟩
  unfold EndsSoon
  decide +kernel

end Cursor

end AttributeIndex
