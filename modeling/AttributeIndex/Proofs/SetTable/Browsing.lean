import AttributeIndex.Proofs.SetTable.Effect
import AttributeIndex.Proofs.Table.Scanning

namespace AttributeIndex

open Observed

namespace Stores

variable {σ : Type} [Observed σ]

structure Browsed (before after : Stores σ) : Prop where
  primary : Looked before.primary after.primary
  overflow : Looked before.overflow after.overflow

theorem Browsed.refl (stores : Stores σ) : Browsed stores stores :=
  ⟨.refl _, .refl _⟩

theorem Browsed.trans {first second third : Stores σ} (before : Browsed first second)
    (after : Browsed second third) : Browsed first third :=
  ⟨before.primary.trans after.primary, before.overflow.trans after.overflow⟩

end Stores

namespace SetTable

open Stores

variable {σ D : Type} [Ord D] [Table σ] [LawfulTable σ]

theorem headerNextId_browses (name : String) (stores : Stores σ) :
    (headerNextId name).Meets stores (fun _ => Browsed stores) fun _ => Browsed stores := by
  rw [headerNextId, Action.meets_bind, Stores.onOverflow, Action.meets_on]
  refine ((LawfulTable.get (recordKey headerId)).looks stores.overflow).mono ?_ ?_
  · intro header after looked
    cases header with
    | none => exact ⟨.refl _, looked⟩
    | some header =>
      dsimp only
      rw [Action.meets_bind, Action.meets_ofResult]
      split
      · exact ⟨.refl _, looked⟩
      · exact ⟨.refl _, looked⟩
  · exact fun _ _ looked => ⟨.refl _, looked⟩

theorem lastRecordId_looks (store : σ) :
    lastRecordId.Meets store (fun _ => Looked store) fun _ => Looked store := by
  rw [lastRecordId, Table.meets_scanning]
  refine (LawfulTable.beginScan.looks store).mono ?_ fun _ _ looked => looked
  intro _ begun looked
  rw [Action.meets_bind, Action.meets_relating]
  refine (Scan.move_looks _ _ _).mono ?_ fun _ _ further => looked.trans further
  intro moved after further
  have reached := looked.trans further
  cases moved with
  | false => exact reached
  | true =>
    rw [if_pos rfl, Action.meets_bind, Action.meets_query]
    split
    · split
      · exact reached
      · exact reached
    · exact reached

theorem storedSet_looks (name : String) (slot : Bytes) (store : σ) :
    (storedSet name slot).Meets store (fun _ => Looked store) fun _ => Looked store := by
  rw [storedSet]
  split
  · rw [Action.meets_bind, Action.meets_ofResult]
    cases Redirect.decode slot with
    | error failure => exact Looked.refl store
    | ok redirect =>
      dsimp only
      rw [Action.meets_relating]
      exact (LawfulTable.get (recordKey redirect.recordId)).looks store
  · exact Looked.refl store

theorem countFrom_browses (name : String) (limit : Nat) (scan : Scan σ) (overflow : σ) :
    (countFrom name limit).Meets (scan, overflow)
      (fun _ after => Browsed ⟨scan.table, overflow⟩ ⟨after.1.table, after.2⟩)
      (fun _ after => Browsed ⟨scan.table, overflow⟩ ⟨after.1.table, after.2⟩) := by
  induction limit generalizing scan overflow with
  | zero => exact Browsed.refl _
  | succ limit ih =>
    rw [countFrom, Action.meets_bind, Action.meets_on]
    refine (Scan.move_looks _ _ _).mono ?_ fun _ _ looked => ⟨looked, .refl _⟩
    intro moved after looked
    cases moved with
    | false => exact ⟨looked, .refl _⟩
    | true =>
      rw [if_pos rfl, Action.meets_bind, Action.meets_query]
      dsimp only
      cases Cursor.get after with
      | error failure => exact ⟨looked, .refl _⟩
      | ok slot =>
        dsimp only
        rw [Action.meets_bind, Action.meets_on]
        refine (storedSet_looks name slot.value overflow).mono ?_ fun _ _ seen => ⟨looked, seen⟩
        intro stored? left seen
        have reached : Browsed ⟨scan.table, overflow⟩ ⟨after.table, left⟩ := ⟨looked, seen⟩
        rw [Action.meets_bind]
        exact (ih after left).mono (fun _ _ => reached.trans) fun _ _ => reached.trans

theorem countStored_browses (name : String) (stores : Stores σ) :
    (countStored name).Meets stores (fun _ => Browsed stores) fun _ => Browsed stores := by
  have begins := LawfulTable.beginScan.looks stores.primary
  unfold Action.Meets at begins ⊢
  unfold countStored
  cases performed : (Table.beginScan : Action σ IoError Unit) stores.primary with
  | mk outcome begun =>
    rw [performed] at begins
    cases outcome with
    | error failure => exact ⟨begins, .refl _⟩
    | ok done =>
      have counts := countFrom_browses name (Table.size begun + 1) (Scan.start begun) stores.overflow
      have reached : Browsed stores ⟨begun, stores.overflow⟩ := ⟨begins, .refl _⟩
      unfold Action.Meets at counts
      dsimp only
      cases counting : countFrom name (Table.size begun + 1) (Scan.start begun, stores.overflow) with
      | mk outcome left =>
        rw [counting] at counts
        cases outcome with
        | error failure => exact reached.trans counts
        | ok count => exact reached.trans counts

theorem openOver_browses (name : String) (codec : Codec D) (limit cacheSize : Nat)
    (stores : Stores σ) :
    (openOver name codec limit cacheSize).Meets stores
      (fun table _ => Browsed stores table.stores ∧ table.codec = codec ∧
        table.sets = .empty cacheSize ∧ table.limit = limit ∧ 0 < limit ∧ 0 < cacheSize)
      (fun _ after => Browsed stores after) := by
  rw [openOver, Action.meets_bind, Action.meets_ofResult]
  by_cases limited : 0 < limit
  · simp only [limited, decide_true, Error.requireArgument, if_true]
    rw [Action.meets_bind, Action.meets_ofResult]
    by_cases cached : 0 < cacheSize
    · simp only [cached, decide_true, if_true]
      rw [Action.meets_bind]
      refine (headerNextId_browses name stores).mono ?_ fun _ _ browsed => browsed
      intro announced afterHeader browsed
      rw [Action.meets_bind, Stores.onOverflow, Action.meets_on]
      refine (lastRecordId_looks afterHeader.overflow).mono ?_ ?_
      · intro last? scanned looked
        have reached := browsed.trans
          (⟨.refl _, looked⟩ : Browsed afterHeader { afterHeader with overflow := scanned })
        rw [Action.meets_bind]
        refine (countStored_browses name _).mono ?_ fun _ _ => reached.trans
        intro count counted further
        rw [Action.meets_bind, Action.meets_get]
        exact ⟨reached.trans further, rfl, rfl, rfl, trivial, trivial⟩
      · exact fun _ scanned looked => browsed.trans ⟨.refl _, looked⟩
    · simp only [cached, decide_false]
      exact Browsed.refl stores
  · simp only [limited, decide_false, Error.requireArgument]
    exact Browsed.refl stores

end SetTable

end AttributeIndex
