import AttributeIndex.Proofs.Index.Failures
import AttributeIndex.Proofs.SetTable.Closing

namespace AttributeIndex.Index

open Observed

section States

variable {σ V : Type} [Observed σ]

def isSevered (index : Index σ V) : Bool :=
  index.forward.isSevered || index.reverse.isSevered

def Closable (index : Index σ V) : Prop :=
  index.isClosed = true ∨ index.forward.Closable ∧ index.reverse.Closable

structure Stands (index : Index σ V) : Prop where
  forward : SetTable.Stands index.forward
  reverse : SetTable.Stands index.reverse

def Severed [Table σ] (before after : Index σ V) (failure : Error) : Prop :=
  SetTable.Severed before.forward after.forward failure ∨
    SetTable.Severed before.reverse after.reverse failure

variable {before after : Index σ V}

theorem Kept.isSevered_eq (kept : Kept before after) : after.isSevered = before.isSevered := by
  rw [isSevered, isSevered, kept.forward.isSevered_eq, kept.reverse.isSevered_eq]

theorem Severed.isSevered_eq [Table σ] {failure : Error} (left : Severed before after failure) :
    after.isSevered = true := by
  rw [isSevered, Bool.or_eq_true]
  exact left.imp (·.isSevered_eq) (·.isSevered_eq)

end States

variable {σ V α β : Type} [Table σ] [LawfulTable σ] {index : Index σ V}

/-! ## Operations that close nothing -/

def Harmless (action : Action (Index σ V) Error α) : Prop :=
  ∀ index, Stands index → action.Meets index (fun _ after => Stands after ∧ Kept index after)
    fun _ after => Stands after ∧ Kept index after

theorem harmless_of_still {action : Action (Index σ V) Error α}
    (still : ∀ index, (action index).2 = index) : Harmless action := by
  intro index stands
  have same : ∀ {outcome after}, action index = (outcome, after) →
      Stands after ∧ Kept index after := by
    intro outcome after performed
    obtain rfl : after = index := (congrArg Prod.snd performed).symm.trans (still index)
    exact ⟨stands, .refl _⟩
  exact .intro (fun _ _ => same) fun _ _ => same

theorem harmless_bind {first : Action (Index σ V) Error β} {next : β → Action (Index σ V) Error α}
    (harmless : Harmless first) (further : ∀ answer, Harmless (next answer)) :
    Harmless (first >>= next) := by
  intro index stands
  rw [Action.meets_bind]
  refine (harmless index stands).mono ?_ fun _ _ => id
  intro answer middle ⟨still, kept⟩
  refine (further answer middle still).mono ?_ ?_
  · exact fun _ _ ⟨last, further⟩ => ⟨last, kept.trans further⟩
  · exact fun _ _ ⟨last, further⟩ => ⟨last, kept.trans further⟩

theorem harmless_attempt {action : Action (Index σ V) Error α} (harmless : Harmless action) :
    Harmless (Action.attempt action) :=
  fun index stands => Action.meets_attempt.2 (harmless index stands)

theorem harmless_ignoring {action : Action (Index σ V) Error α} (harmless : Harmless action) :
    Harmless (Action.ignoring action) :=
  fun index stands => Action.meets_ignoring.2 (harmless index stands)

theorem harmless_onForward {work : Action (SetTable σ UInt64) Error α}
    (harmless : SetTable.Harmless work) : Harmless (onForward work : Action (Index σ V) Error α) := by
  intro index stands
  rw [meets_onForward]
  refine (harmless index.forward stands.forward).mono ?_ ?_
  · exact fun _ _ ⟨still, kept⟩ => ⟨⟨still, stands.reverse⟩, rfl, rfl, rfl, kept, .refl _⟩
  · exact fun _ _ ⟨still, kept⟩ => ⟨⟨still, stands.reverse⟩, rfl, rfl, rfl, kept, .refl _⟩

theorem harmless_onReverse {work : Action (SetTable σ Bytes) Error α}
    (harmless : SetTable.Harmless work) : Harmless (onReverse work : Action (Index σ V) Error α) := by
  intro index stands
  rw [meets_onReverse]
  refine (harmless index.reverse stands.reverse).mono ?_ ?_
  · exact fun _ _ ⟨still, kept⟩ => ⟨⟨stands.forward, still⟩, rfl, rfl, rfl, .refl _, kept⟩
  · exact fun _ _ ⟨still, kept⟩ => ⟨⟨stands.forward, still⟩, rfl, rfl, rfl, .refl _, kept⟩

theorem harmless_requireOpen : Harmless (requireOpen : Action (Index σ V) Error Unit) := by
  refine harmless_of_still fun index => ?_
  rw [requireOpen, Action.bind_apply, Action.get_apply]
  dsimp only
  split <;> rfl

theorem harmless_keyed {value : V} {next : Bytes → Action (Index σ V) Error α}
    (further : ∀ key, Harmless (next key)) :
    Harmless (do
      requireOpen
      let key ← encode value
      next key) :=
  harmless_bind harmless_requireOpen fun _ =>
    harmless_bind (harmless_of_still fun _ => rfl) further

theorem harmless_forM {ι : Type} {work : ι → Action (Index σ V) Error Unit}
    (harmless : ∀ element, Harmless (work element)) (list : List ι) : Harmless (list.forM work) := by
  induction list with
  | nil => exact harmless_of_still fun _ => rfl
  | cons element rest ih => exact harmless_bind (harmless element) fun _ => ih

theorem harmless_forward {work : Action (SetTable σ UInt64) Error α}
    {answer : α → AttributeIndex.Answer UInt64} (request : AttributeIndex.Request UInt64)
    (same : request.perform = do return answer (← work)) :
    Harmless (onForward work : Action (Index σ V) Error α) :=
  harmless_onForward (SetTable.harmless_of_answered (same ▸ SetTable.request_harmless request))

theorem harmless_reverse {work : Action (SetTable σ Bytes) Error α}
    {answer : α → AttributeIndex.Answer Bytes} (request : AttributeIndex.Request Bytes)
    (same : request.perform = do return answer (← work)) :
    Harmless (onReverse work : Action (Index σ V) Error α) :=
  harmless_onReverse (SetTable.harmless_of_answered (same ▸ SetTable.request_harmless request))

theorem harmless_restoreForward (keys : List Bytes) (id : UInt64) :
    Harmless (restoreForward keys id : Action (Index σ V) Error Unit) :=
  harmless_forM (fun key => harmless_ignoring (harmless_forward (.put key id) rfl)) keys

theorem harmless_removeForward (id : UInt64) (removed keys : List Bytes) :
    Harmless (removeForward id removed keys : Action (Index σ V) Error (List Bytes)) := by
  induction keys generalizing removed with
  | nil => exact harmless_of_still fun _ => rfl
  | cons key keys ih =>
    refine harmless_bind (harmless_attempt (harmless_forward (.remove key id) rfl)) fun outcome => ?_
    match outcome with
    | .ok true => exact ih (removed ++ [key])
    | .ok false => exact ih removed
    | .error failure =>
      exact harmless_bind (harmless_restoreForward removed id) fun _ =>
        harmless_of_still fun _ => rfl

theorem add_harmless (value : V) (id : UInt64) :
    Harmless (add value id : Action (Index σ V) Error Bool) := by
  refine harmless_keyed fun key => ?_
  refine harmless_bind (harmless_forward (.put key id) rfl) fun added => ?_
  refine harmless_bind (harmless_attempt (harmless_reverse (.put (entryKey id) key) rfl))
    fun outcome => ?_
  match outcome, added with
  | .ok _, _ | .error _, false => exact harmless_of_still fun _ => rfl
  | .error _, true =>
    exact harmless_bind (harmless_ignoring (harmless_forward (.remove key id) rfl)) fun _ =>
      harmless_of_still fun _ => rfl

theorem remove_harmless (value : V) (id : UInt64) :
    Harmless (remove value id : Action (Index σ V) Error Bool) := by
  refine harmless_keyed fun key => ?_
  refine harmless_bind (harmless_forward (.remove key id) rfl) fun removed => ?_
  refine harmless_bind (harmless_attempt (harmless_reverse (.remove (entryKey id) key) rfl))
    fun outcome => ?_
  match outcome, removed with
  | .ok _, _ | .error _, false => exact harmless_of_still fun _ => rfl
  | .error _, true =>
    exact harmless_bind (harmless_restoreForward [key] id) fun _ => harmless_of_still fun _ => rfl

theorem dropEntry_harmless (id : UInt64) :
    Harmless (dropEntry id : Action (Index σ V) Error Nat) := by
  refine harmless_bind harmless_requireOpen fun _ => ?_
  refine harmless_bind (harmless_reverse (.elements (entryKey id)) rfl) fun keys? => ?_
  cases keys? with
  | none => exact harmless_of_still fun _ => rfl
  | some keys =>
    refine harmless_bind (harmless_removeForward id [] keys.toList) fun removed => ?_
    refine harmless_bind (harmless_attempt (harmless_reverse (.take (entryKey id)) rfl))
      fun outcome => ?_
    cases outcome with
    | ok _ => exact harmless_of_still fun _ => rfl
    | error failure =>
      exact harmless_bind (harmless_restoreForward removed id) fun _ =>
        harmless_of_still fun _ => rfl

theorem request_harmless (request : Request V) :
    Harmless (request.perform : Action (Index σ V) Error _) := by
  have answered : ∀ {β : Type} {action : Action (Index σ V) Error β} (answer : β → Answer V),
      Harmless action → Harmless (do return answer (← action)) :=
    fun _ harmless => harmless_bind harmless fun _ => harmless_of_still fun _ => rfl
  cases request with
  | add value id => exact answered _ (add_harmless value id)
  | remove value id => exact answered _ (remove_harmless value id)
  | dropEntry id => exact answered _ (dropEntry_harmless id)
  | lookup value =>
    refine answered _ (harmless_keyed fun key => ?_)
    exact harmless_bind (harmless_forward (.elements key) rfl) fun _ => harmless_of_still fun _ => rfl
  | has value id =>
    exact answered _ (harmless_keyed fun key => harmless_forward (.contains key id) rfl)
  | countOf value =>
    exact answered _ (harmless_keyed fun key => harmless_forward (.countOf key) rfl)
  | reverseLookup id =>
    refine answered _ (harmless_bind harmless_requireOpen fun _ => ?_)
    refine harmless_bind (harmless_reverse (.firstElement (entryKey id)) rfl) fun key? => ?_
    cases key? <;> exact harmless_of_still fun _ => rfl
  | reverseValues id =>
    refine answered _ (harmless_bind harmless_requireOpen fun _ => ?_)
    refine harmless_bind (harmless_reverse (.elements (entryKey id)) rfl) fun keys? => ?_
    cases keys? <;> exact harmless_of_still fun _ => rfl
  | entries =>
    refine answered _ (harmless_bind harmless_requireOpen fun _ => ?_)
    refine harmless_bind (harmless_forward .slots rfl) fun _ => ?_
    exact harmless_bind (harmless_of_still fun _ => rfl) fun _ => harmless_of_still fun _ => rfl
  | sync =>
    refine answered (fun _ => .done) (harmless_bind harmless_requireOpen fun _ => ?_)
    exact harmless_bind (harmless_forward .sync rfl) fun _ => harmless_reverse .sync rfl

/-! ## One close -/

inductive Closing (index : Index σ V) : Except Error Unit → Index σ V → Prop
  | idle (shut : index.isClosed = true) : Closing index (.ok ()) index
  | forward {failure : Error} {forward : SetTable σ UInt64} (unclosed : index.isClosed = false)
      (fails : SetTable.close index.forward = (.error failure, forward)) :
      Closing index (.error failure) { index with forward }
  | reverse {failure : Error} {forward : SetTable σ UInt64} {reverse : SetTable σ Bytes}
      (unclosed : index.isClosed = false)
      (closes : SetTable.close index.forward = (.ok (), forward))
      (fails : SetTable.close index.reverse = (.error failure, reverse)) :
      Closing index (.error failure) { index with forward, reverse }
  | done {forward : SetTable σ UInt64} {reverse : SetTable σ Bytes}
      (unclosed : index.isClosed = false)
      (closes : SetTable.close index.forward = (.ok (), forward))
      (closesToo : SetTable.close index.reverse = (.ok (), reverse)) :
      Closing index (.ok ()) { index with forward, reverse, isClosed := true }

omit [LawfulTable σ] in
theorem closing_close (index : Index σ V) : Closing index (close index).1 (close index).2 := by
  rw [close, Action.bind_apply, Action.get_apply]
  dsimp only
  split
  · exact .idle ‹_›
  · have unclosed := Bool.eq_false_of_not_eq_true ‹_›
    rw [Action.bind_apply, onForward, Action.on_apply]
    cases closes : SetTable.close index.forward with
    | mk outcome forward =>
      cases outcome with
      | error failure => exact .forward unclosed closes
      | ok done =>
        dsimp only [Except.mapError]
        rw [Action.bind_apply, onReverse, Action.on_apply]
        cases closesToo : SetTable.close index.reverse with
        | mk outcome reverse =>
          cases outcome with
          | error failure => exact .reverse unclosed closes closesToo
          | ok done => exact .done unclosed closes closesToo

theorem closable_iff_of_open (unclosed : index.isClosed = false) :
    index.Closable ↔ index.forward.Closable ∧ index.reverse.Closable := by
  rw [Closable, unclosed]
  exact or_iff_right Bool.false_ne_true

theorem close_eq_ok_iff (stands : Stands index) :
    (close index).1 = .ok () ↔ failures (close index).2 = failures index ∧ index.Closable := by
  have forwardCloses := SetTable.close_eq_ok_iff stands.forward
  have reverseCloses := SetTable.close_eq_ok_iff stands.reverse
  have closing := closing_close index
  generalize (close index).1 = outcome, (close index).2 = after at closing ⊢
  cases closing with
  | idle shut => exact ⟨fun _ => ⟨rfl, .inl shut⟩, fun _ => rfl⟩
  | forward unclosed fails =>
    rw [fails] at forwardCloses
    rw [closable_iff_of_open unclosed]
    refine ⟨nofun, fun ⟨counted, closable, _⟩ => ?_⟩
    cases forwardCloses.2 ⟨Nat.add_right_cancel counted, closable⟩
  | reverse unclosed closes fails =>
    rw [closes] at forwardCloses
    rw [fails] at reverseCloses
    rw [closable_iff_of_open unclosed]
    refine ⟨nofun, fun ⟨counted, _, closable⟩ => ?_⟩
    have same := (forwardCloses.1 rfl).1
    simp only [failures] at counted same
    cases reverseCloses.2 ⟨by dsimp only; omega, closable⟩
  | done unclosed closes closesToo =>
    rw [closes] at forwardCloses
    rw [closesToo] at reverseCloses
    rw [closable_iff_of_open unclosed]
    obtain ⟨counted, closable⟩ := forwardCloses.1 rfl
    obtain ⟨countedToo, closableToo⟩ := reverseCloses.1 rfl
    exact ⟨fun _ => ⟨congrArg₂ (· + ·) counted countedToo, closable, closableToo⟩, fun _ => rfl⟩

omit [LawfulTable σ] in
theorem isClosed_close (index : Index σ V) :
    (close index).2.isClosed = true ↔ (close index).1 = .ok () := by
  have closing := closing_close index
  generalize (close index).1 = outcome, (close index).2 = after at closing ⊢
  cases closing with
  | idle shut => exact iff_of_true shut rfl
  | forward unclosed | reverse unclosed =>
    exact ⟨fun shut => absurd (unclosed.symm.trans shut) Bool.false_ne_true, nofun⟩
  | done => exact iff_of_true rfl rfl

theorem closable_iff_of_failed (stands : Stands index) (closable : index.Closable) {failure : Error}
    {failed : Index σ V} (performed : close index = (.error failure, failed)) :
    failed.Closable ↔ ¬ Severed index failed failure := by
  have closing := closing_close index
  rw [performed] at closing
  cases closing with
  | forward unclosed fails =>
    obtain ⟨forward, reverse⟩ := (closable_iff_of_open unclosed).1 closable
    have again := SetTable.closable_iff_of_failed stands.forward forward fails
    refine Iff.trans (closable_iff_of_open (by exact unclosed)) ?_
    rw [again, Severed]
    exact ⟨fun ⟨whole, _⟩ => not_or.2 ⟨whole, (·.not_closable reverse)⟩,
      fun whole => ⟨(not_or.1 whole).1, reverse⟩⟩
  | reverse unclosed closes fails =>
    have shut := (SetTable.isClosed_close stands.forward).2 (by rw [closes])
    rw [closes] at shut
    have forward : SetTable.Closable _ := .inl shut
    have reverse := ((closable_iff_of_open unclosed).1 closable).2
    have again := SetTable.closable_iff_of_failed stands.reverse reverse fails
    refine Iff.trans (closable_iff_of_open (by exact unclosed)) ?_
    rw [again, Severed]
    exact ⟨fun ⟨_, whole⟩ => not_or.2 ⟨(·.not_closable forward), whole⟩,
      fun whole => ⟨forward, (not_or.1 whole).2⟩⟩

theorem close_isSevered (stands : Stands index) :
    (close index).2.isSevered = index.isSevered ∨
      ∃ failure, (close index).1 = .error failure ∧ Severed index (close index).2 failure := by
  have forwardMoves := SetTable.close_isSevered stands.forward
  have reverseMoves := SetTable.close_isSevered stands.reverse
  have closing := closing_close index
  generalize (close index).1 = outcome, (close index).2 = after at closing ⊢
  cases closing with
  | idle shut => exact .inl rfl
  | forward unclosed fails =>
    rw [fails] at forwardMoves
    refine forwardMoves.imp ?_ ?_
    · intro same
      exact congrArg (· || index.reverse.isSevered) same
    · rintro ⟨failure, same, left⟩
      exact ⟨failure, same, .inl left⟩
  | reverse unclosed closes fails =>
    rw [closes] at forwardMoves
    rw [fails] at reverseMoves
    have same := forwardMoves.resolve_right (by simp)
    refine reverseMoves.imp ?_ ?_
    · intro sameToo
      exact congrArg₂ (· || ·) same sameToo
    · rintro ⟨failure, failed, left⟩
      exact ⟨failure, failed, .inr left⟩
  | done unclosed closes closesToo =>
    rw [closes] at forwardMoves
    rw [closesToo] at reverseMoves
    exact .inl (congrArg₂ (· || ·) (forwardMoves.resolve_right (by simp))
      (reverseMoves.resolve_right (by simp)))

theorem close_stands (stands : Stands index) : Stands (close index).2 := by
  have forward := SetTable.close_stands stands.forward
  have reverse := SetTable.close_stands stands.reverse
  have closing := closing_close index
  generalize (close index).1 = outcome, (close index).2 = after at closing ⊢
  cases closing with
  | idle => exact stands
  | forward unclosed fails =>
    rw [fails] at forward
    exact ⟨forward, stands.reverse⟩
  | reverse unclosed closes fails =>
    rw [closes] at forward
    rw [fails] at reverse
    exact ⟨forward, reverse⟩
  | done unclosed closes closesToo =>
    rw [closes] at forward
    rw [closesToo] at reverse
    exact ⟨forward, reverse⟩

theorem call_stands (call : Call V) (stands : Stands index) :
    Stands (call.perform index).2 ∧ (call ≠ .close → Kept index (call.perform index).2) := by
  cases call with
  | ask request =>
    obtain ⟨still, kept⟩ := (request_harmless request index stands).left
    exact ⟨Action.left_map still, fun _ => Action.left_map kept⟩
  | rawForwardSlot value =>
    have harmless : Harmless (rawForwardSlot value : Action (Index σ V) Error _) :=
      harmless_keyed fun key => harmless_onForward (SetTable.rawSlot_harmless key)
    obtain ⟨still, kept⟩ := (harmless index stands).left
    exact ⟨Action.left_map still, fun _ => Action.left_map kept⟩
  | close => exact ⟨close_stands stands, fun noClose => absurd rfl noClose⟩

theorem afterCalls_stands (calls : List (Call V)) (stands : Stands index) :
    Stands (index.afterCalls calls) := by
  induction calls generalizing index with
  | nil => exact stands
  | cons call calls ih => exact ih (call_stands call stands).1

theorem call_isSevered_iff (call : Call V) (stands : Stands index) :
    (call.perform index).2.isSevered = true ↔ index.isSevered = true ∨
      call = .close ∧ ∃ failure failed, close index = (.error failure, failed) ∧
        Severed index failed failure := by
  cases call with
  | close =>
    rw [eq_self, true_and]
    exact Action.marked_iff (fun _ _ left => left.isSevered_eq) (close_isSevered stands)
  | _ =>
    rw [((call_stands _ stands).2 (by simp)).isSevered_eq]
    simp

theorem afterCalls_isSevered_iff (calls : List (Call V)) (stands : Stands index)
    (whole : index.isSevered = false) :
    (index.afterCalls calls).isSevered = true ↔
      ∃ earlier later, calls = earlier ++ .close :: later ∧
        ∃ failure failed, close (index.afterCalls earlier) = (.error failure, failed) ∧
          Severed (index.afterCalls earlier) failed failure := by
  refine (Action.marked_foldl_iff (fun _ call still => (call_stands call still).1)
    (fun _ call still => call_isSevered_iff call still) calls stands).trans (or_iff_right ?_)
  rw [whole]
  exact Bool.false_ne_true

/-! ## Opened indices -/

theorem openOver_stands {config : Config} {codec : Codec V} {tables left : Tables σ}
    {opened : Index σ V} (opening : openOver config codec tables = (.ok opened, left)) :
    Stands opened ∧ opened.isSevered = false := by
  have meets : (openOver config codec).Meets tables
      (fun opened _ => Stands opened ∧ opened.isSevered = false) fun _ _ => True := by
    rw [openOver, Action.meets_bind, Action.meets_ofResult]
    split
    · rw [Action.meets_bind, Action.meets_on]
      refine .intro (fun forward _ opening => ?_) fun _ _ _ => trivial
      obtain ⟨stands, whole⟩ := SetTable.openOver_stands opening
      rw [Action.meets_bind, Action.meets_on]
      refine .intro (fun reverse _ openingToo => ?_) fun _ _ _ => trivial
      obtain ⟨standsToo, wholeToo⟩ := SetTable.openOver_stands openingToo
      refine ⟨⟨stands, standsToo⟩, ?_⟩
      rw [isSevered, whole, wholeToo]
      rfl
    · trivial
  exact meets.ok_of opening

/-- What comes of closing an index after some calls, as for a table. -/
structure Closes (opened : Index σ V) (calls : List (Call V)) : Prop where
  succeeds : (close (opened.afterCalls calls)).1 = .ok () ↔
    failures (close (opened.afterCalls calls)).2 = failures (opened.afterCalls calls) ∧
      (opened.afterCalls calls).Closable
  marks : (close (opened.afterCalls calls)).2.isClosed = true ↔
    (close (opened.afterCalls calls)).1 = .ok ()
  again : ∀ failure failed, close (opened.afterCalls calls) = (.error failure, failed) →
    (opened.afterCalls calls).Closable → failures (close failed).2 = failures failed →
      ((close failed).1 = .ok () ↔ ¬ Severed (opened.afterCalls calls) failed failure)
  severed : (opened.afterCalls calls).isSevered = true ↔
    ∃ earlier later, calls = earlier ++ .close :: later ∧
      ∃ failure failed, close (opened.afterCalls earlier) = (.error failure, failed) ∧
        Severed (opened.afterCalls earlier) failed failure

theorem Stands.closes (stands : Stands index) (whole : index.isSevered = false)
    (calls : List (Call V)) : Closes index calls := by
  have reached := afterCalls_stands calls stands
  refine ⟨close_eq_ok_iff reached, isClosed_close _, ?_,
    afterCalls_isSevered_iff calls stands whole⟩
  intro failure failed performed closable quiet
  have left : Stands failed := by
    rw [← show (close (index.afterCalls calls)).2 = failed from congrArg Prod.snd performed]
    exact close_stands reached
  rw [close_eq_ok_iff left, ← closable_iff_of_failed reached closable performed]
  exact and_iff_right quiet

/-- A close that fails can be done again: if no store call fails then, it closes the table or index,
unless the one before has closed a primary store and failed at the overflow store beside it. Closing
what is severed like that always fails, and nothing else severs it. Sets that wait for their records
must be such that they can be encoded. -/
theorem closing_exact :
    (∀ {D : Type} [Ord D] [Std.TransOrd D] (name : String) (codec : Codec D) (limit cacheSize : Nat)
      (stores left : Stores σ) (opened : SetTable σ D),
      SetTable.openOver name codec limit cacheSize stores = (.ok opened, left) →
        ∀ calls : List (AttributeIndex.Call D), SetTable.Closes opened calls) ∧
    ∀ {V : Type} (config : Config) (codec : Codec V) (tables left : Tables σ) (opened : Index σ V),
      openOver config codec tables = (.ok opened, left) →
        ∀ calls : List (Call V), Closes opened calls := by
  constructor
  · intro D _ _ name codec limit cacheSize stores left opened opening
    obtain ⟨stands, whole⟩ := SetTable.openOver_stands opening
    exact stands.closes whole
  · intro V config codec tables left opened opening
    obtain ⟨stands, whole⟩ := openOver_stands opening
    exact stands.closes whole

def failingOnce (call : TableCall) (number : Nat) : Unreliable :=
  (Unreliable.ofEntries .empty).setPlan call ⟨(· == number), 0⟩

def overTables (limit : Nat) (tables : Tables Unreliable) : Index Unreliable UInt64 where
  config := ⟨"cn", 1, limit, none⟩
  codec := .uint64
  forward := .overEmpty "cn.forward" .uint64 limit tables.forward
  reverse := .overEmpty "cn.reverse" .bytes limit tables.reverse
  isClosed := false

def threePuts : List (AttributeIndex.Call UInt64) :=
  [.ask (.put [7] 1), .ask (.put [7] 2), .ask (.put [7] 3)]

def overUnwritten : SetTable Unreliable UInt64 :=
  .overEmpty "ids" .uint64 1 ⟨.ofEntries .empty, failingOnce .put 1⟩

def overUnsynced : Index Unreliable UInt64 :=
  overTables 2 ⟨⟨.ofEntries .empty, .ofEntries .empty⟩, failingOnce .sync 0, .ofEntries .empty⟩

theorem flushable_of_keys {D : Type} [Ord D] {table : SetTable Unreliable D}
    (uncached : table.sets.keys = []) : table.layout.Flushable := by
  intro id cached found
  have listed : id ∈ table.sets.keys := Lru.mem_keys.2 (Option.isSome_of_eq_some found)
  rw [uncached] at listed
  cases listed

theorem closing_exact_retried :
    let table := overUnwritten.afterCalls threePuts
    let failed := (SetTable.close table).2
    let index := overUnsynced.afterCalls twoValues
    let stopped := (close index).2
    SetTable.openOver "ids" .uint64 1 1 ⟨.ofEntries .empty, failingOnce .put 1⟩ =
        (.ok overUnwritten, overUnwritten.stores) ∧
      (SetTable.close table).1 = .error (.io "ids" (.failed "put failed: disk full")) ∧
      table.Closable ∧
      SetTable.failures (SetTable.close failed).2 = SetTable.failures failed ∧
      (SetTable.close failed).1 = .ok () ∧
      (SetTable.close failed).2.isClosed = true ∧
      (∃ left, openOver ⟨"cn", 1, 2, none⟩ .uint64
        ⟨⟨.ofEntries .empty, .ofEntries .empty⟩, failingOnce .sync 0, .ofEntries .empty⟩ =
          (.ok overUnsynced, left)) ∧
      (close index).1 = .error (.io "cn.reverse" (.failed "sync failed: disk full")) ∧
      index.Closable ∧
      failures (close stopped).2 = failures stopped ∧
      (close stopped).1 = .ok () ∧
      (close stopped).2.isClosed = true := by
  intro table failed index stopped
  obtain ⟨tables, indices⟩ := @closing_exact Unreliable _ _
  have opening : SetTable.openOver "ids" .uint64 1 1 ⟨.ofEntries .empty, failingOnce .put 1⟩ =
      (.ok overUnwritten, overUnwritten.stores) := rfl
  have openingToo : openOver ⟨"cn", 1, 2, none⟩ .uint64
      ⟨⟨.ofEntries .empty, .ofEntries .empty⟩, failingOnce .sync 0, .ofEntries .empty⟩ =
        (.ok overUnsynced, _) := rfl
  have fails : SetTable.close table =
      (.error (.io "ids" (.failed "put failed: disk full")), failed) :=
    Prod.ext (by decide +kernel) rfl
  have stops : close index =
      (.error (.io "cn.reverse" (.failed "sync failed: disk full")), stopped) :=
    Prod.ext (by decide +kernel) rfl
  have quiet : SetTable.failures (SetTable.close failed).2 = SetTable.failures failed := by
    decide +kernel
  have quietToo : failures (close stopped).2 = failures stopped := by decide +kernel
  have closable : table.Closable := by
    have resumed := SetTable.resumed_of_empty Codec.uint64_faithful rfl rfl opening
    obtain ⟨_, models⟩ := SetTable.afterCalls_models threePuts
      (resumed.models (SetTable.models_initial Codec.uint64_faithful)) (by decide)
    have entries : table.layout.view.entries = [([7], [1, 2, 3])] := by decide +kernel
    have fits : table.layout.view.Fits table.layout.codec := by
      rw [models.codec_eq]
      apply SetMap.fits_of_entries
      rw [entries]
      intro entry member
      obtain rfl := List.mem_singleton.1 member
      exact ⟨by decide, fun value _ => Codec.uint64_accepts value⟩
    exact .inr ⟨by decide +kernel, Layout.Sound.flushable ⟨models.coherent, fits⟩⟩
  have closableToo : index.Closable := by
    refine .inr ⟨.inr ⟨by decide +kernel, flushable_of_keys ?_⟩,
      .inr ⟨by decide +kernel, flushable_of_keys ?_⟩⟩
    · decide +kernel
    · decide +kernel
  have whole : ¬ SetTable.Severed table failed (.io "ids" (.failed "put failed: disk full")) := by
    intro left
    have severed := left.isSevered_eq
    revert severed
    decide +kernel
  have wholeToo : ¬ Severed index stopped (.io "cn.reverse" (.failed "sync failed: disk full")) := by
    intro left
    have severed := left.isSevered_eq
    revert severed
    decide +kernel
  have again := (tables "ids" .uint64 1 1 _ _ _ opening threePuts).again
  have closes := (again _ _ fails closable quiet).2 whole
  have againToo := (indices _ .uint64 _ _ _ openingToo twoValues).again
  have closesToo := (againToo _ _ stops closableToo quietToo).2 wholeToo
  refine ⟨opening, congrArg Prod.fst fails, closable, quiet, closes, ?_, ⟨_, openingToo⟩,
    congrArg Prod.fst stops, closableToo, quietToo, closesToo, ?_⟩
  · have marks := (tables "ids" .uint64 1 1 _ _ _ opening (threePuts ++ [.close])).marks
    rw [SetTable.afterCalls, List.foldl_append] at marks
    exact marks.2 closes
  · have marks := (indices _ .uint64 _ _ _ openingToo (twoValues ++ [.close])).marks
    rw [afterCalls, List.foldl_append] at marks
    exact marks.2 closesToo

/-- The overflow store of the only table, or of the forward one, cannot be closed at first. -/
theorem not_closing_exact_severed :
    let stores : Stores Unreliable := ⟨.ofEntries .empty, failingOnce .close 0⟩
    let table := (SetTable.overEmpty "ids" .uint64 1 stores).afterCalls threePuts
    let index := (overTables 1 ⟨stores, .ofEntries .empty, .ofEntries .empty⟩).afterCalls twoValues
    (SetTable.close table).1 = .error (.io "ids" (.failed "close failed: disk full")) ∧
      (SetTable.close (SetTable.close table).2).1 = .error (.io "ids" (.closed "memory")) ∧
      (SetTable.close (SetTable.close table).2).2.isClosed = false ∧
      SetTable.failures (SetTable.close (SetTable.close table).2).2 =
        SetTable.failures (SetTable.close table).2 ∧
      (close index).1 = .error (.io "cn.forward" (.failed "close failed: disk full")) ∧
      (close (close index).2).1 = .error (.io "cn.forward" (.closed "memory")) ∧
      (close (close index).2).2.isClosed = false ∧
      failures (close (close index).2).2 = failures (close index).2 := by
  decide +kernel

end AttributeIndex.Index
