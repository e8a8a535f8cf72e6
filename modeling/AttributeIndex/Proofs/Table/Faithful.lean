import AttributeIndex.Proofs.SortedMap
import AttributeIndex.Proofs.Table.Lawful
import AttributeIndex.Proofs.Table.Requests

namespace AttributeIndex

open AttributeIndex.Action Observed

namespace Volatile

variable {α : Type} {memory after : Volatile} {answer : α}

theorem of_whileOpen {work : SortedMap Bytes Bytes → α × SortedMap Bytes Bytes}
    (performed : whileOpen work memory = (.ok answer, after)) :
    memory.isClosed = false ∧ after.isClosed = false ∧ answer = (work memory.entries).1 ∧
      after.entries = (work memory.entries).2 := by
  cases shut : memory.isClosed with
  | true =>
    rw [whileOpen_of_closed shut] at performed
    cases performed
  | false =>
    rw [whileOpen_of_open shut] at performed
    cases performed
    exact ⟨rfl, shut, rfl, rfl⟩

theorem eq_of_whileOpen {read : SortedMap Bytes Bytes → α}
    (performed : whileOpen (fun entries => (read entries, entries)) memory = (.ok answer, after)) :
    after = memory := by
  obtain ⟨shut, still, -, same⟩ := of_whileOpen performed
  cases memory
  cases after
  cases shut
  cases still
  cases same
  rfl

end Volatile

namespace Table

variable {σ : Type} {valid : σ → Prop} {holds : σ → Volatile} {α : Type}

def Kept (valid : σ → Prop) (holds : σ → Volatile) (before after : σ) : Prop :=
  valid after ∧ holds after = holds before

def Mirrors (valid : σ → Prop) (holds : σ → Volatile) (call : Action σ IoError α)
    (model : Action Volatile IoError α) : Prop :=
  ∀ table, valid table → call.Meets table
    (fun answer after => valid after ∧ model (holds table) = (.ok answer, holds after))
    fun _ after => Kept valid holds table after

variable [Table σ]

/-- Tables that hold what `holds` says, as long as they are `valid`, and whose failing calls change
nothing. -/
structure Faithful (valid : σ → Prop) (holds : σ → Volatile) : Prop where
  get (key : Bytes) : Mirrors valid holds (Table.get key) (Table.get key)
  put (key value : Bytes) : Mirrors valid holds (Table.put key value) (Table.put key value)
  remove (key : Bytes) : Mirrors valid holds (Table.remove key) (Table.remove key)
  beginScan : Mirrors valid holds Table.beginScan Table.beginScan
  load (key : Bytes) (table : σ) : valid table →
    (Table.load key : Action σ IoError Bytes).Meets table (fun _ => Kept valid holds table)
      fun _ => Kept valid holds table
  sync : Mirrors valid holds Table.sync Table.sync
  close : Mirrors valid holds Table.close Table.close

omit [Table σ] in
theorem Mirrors.reads {call : Action σ IoError α} {read : SortedMap Bytes Bytes → α}
    (mirrors : Mirrors valid holds call (Volatile.whileOpen fun entries => (read entries, entries)))
    {table : σ} (start : valid table) :
    call.Meets table (fun _ => Kept valid holds table) fun _ => Kept valid holds table :=
  (mirrors table start).mono
    (fun _ _ ⟨still, performed⟩ => ⟨still, Volatile.eq_of_whileOpen performed⟩) fun _ _ kept => kept

namespace Faithful

variable (faithful : Faithful valid holds) {table : σ} (start : valid table)

include faithful start

theorem perform_scan (steps : List (Cursor.Step Tuple)) :
    Kept valid holds table
      ((Request.perform (.scan steps) : Action σ IoError Answer) table).2 := by
  refine perform_scan_keeps (faithful.beginScan.reads start).left ?_ steps
  intro key left ⟨still, same⟩
  have loaded := (faithful.load key left still).left
  exact ⟨loaded.1, loaded.2.trans same⟩

theorem perform (request : Request) :
    valid ((request.perform : Action σ IoError Answer) table).2 := by
  have called : ∀ {α : Type} {change : α → Answer} {call : Action σ IoError α} {model},
      Mirrors valid holds call model → valid ((change <$> call) table).2 := by
    intro α change call model mirrors
    rw [map_apply]
    exact ((mirrors table start).mono (fun _ _ done => done.1) fun _ _ kept => kept.1).left
  cases request with
  | get key => exact called (faithful.get key)
  | put key value => exact called (faithful.put key value)
  | remove key => exact called (faithful.remove key)
  | size => exact start
  | isEmpty => exact start
  | scan steps => exact (faithful.perform_scan start steps).1
  | sync => exact called faithful.sync
  | close => exact called faithful.close

end Faithful

variable [LawfulTable σ]

def observed (table : σ) : Volatile :=
  ⟨contents table, !isOpen table⟩

theorem kept_of_refused {before after : σ} (refused : Refused before after) :
    Kept (fun _ => True) observed before after :=
  ⟨trivial, by rw [observed, observed, refused.contents_eq, refused.isOpen_eq]⟩

theorem mirrors_of_obeys {call : Action σ IoError α}
    {does : SortedMap Bytes Bytes → α × SortedMap Bytes Bytes} (obeys : Obeys call does) :
    Mirrors (fun _ => True) observed call (Volatile.whileOpen does) := by
  intro table _
  refine (obeys table).mono ?_ fun _ _ => kept_of_refused
  rintro answer after ⟨opened, still, -, done⟩
  have shut : (observed table).isClosed = false := by simp [observed, opened]
  refine ⟨trivial, ?_⟩
  rw [Volatile.whileOpen_of_open shut]
  simp [observed, opened, still, ← done]

theorem faithful_of_lawful : Faithful (fun _ => True) (observed : σ → Volatile) where
  get key := mirrors_of_obeys (LawfulTable.get key)
  put key value := mirrors_of_obeys (LawfulTable.put key value)
  remove key := mirrors_of_obeys (LawfulTable.remove key)
  beginScan := mirrors_of_obeys LawfulTable.beginScan
  load key table _ := by
    refine (LawfulTable.load key table).mono ?_ fun _ _ => kept_of_refused
    rintro _ after ⟨-, same, still, -⟩
    exact ⟨trivial, by rw [observed, observed, same, still]⟩
  sync := mirrors_of_obeys LawfulTable.sync
  close table _ := by
    refine (LawfulTable.close table).mono ?_ fun _ _ => kept_of_refused
    rintro _ after ⟨same, shut, -⟩
    refine ⟨trivial, ?_⟩
    simp [Table.close, update, observed, same, shut]

end Table

end AttributeIndex
