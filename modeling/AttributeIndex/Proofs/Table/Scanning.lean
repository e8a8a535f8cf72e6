import AttributeIndex.Proofs.SortedMap
import AttributeIndex.Proofs.Table.Lawful
import AttributeIndex.Table.Scan

namespace AttributeIndex

open Observed

namespace Observed

variable {σ : Type} [Observed σ]

structure Unchanged (before after : σ) : Prop where
  contents_eq : contents after = contents before
  isOpen_eq : isOpen after = isOpen before
  failures_eq : failures after = failures before

theorem Unchanged.refl (store : σ) : Unchanged store store :=
  ⟨rfl, rfl, rfl⟩

theorem Unchanged.trans {first second third : σ} (before : Unchanged first second)
    (after : Unchanged second third) : Unchanged first third :=
  ⟨after.contents_eq.trans before.contents_eq, after.isOpen_eq.trans before.isOpen_eq,
    after.failures_eq.trans before.failures_eq⟩

theorem Unchanged.refused {first second third : σ} (before : Unchanged first second)
    (after : Refused second third) : Refused first third where
  contents_eq := after.contents_eq.trans before.contents_eq
  isOpen_eq := after.isOpen_eq.trans before.isOpen_eq
  counted := by
    rw [← before.failures_eq, ← before.isOpen_eq]
    exact after.counted

structure Looked (before after : σ) : Prop where
  contents_eq : contents after = contents before
  isOpen_eq : isOpen after = isOpen before
  failures_le : failures before ≤ failures after

theorem Looked.refl (store : σ) : Looked store store :=
  ⟨rfl, rfl, Nat.le_refl _⟩

theorem Looked.trans {first second third : σ} (before : Looked first second)
    (after : Looked second third) : Looked first third :=
  ⟨after.contents_eq.trans before.contents_eq, after.isOpen_eq.trans before.isOpen_eq,
    Nat.le_trans before.failures_le after.failures_le⟩

theorem Refused.looked {before after : σ} (refused : Refused before after) : Looked before after :=
  ⟨refused.contents_eq, refused.isOpen_eq, refused.failures_le⟩

theorem Obeys.looks {α : Type} {call : Action σ IoError α} {answer : SortedMap Bytes Bytes → α}
    (obeys : Obeys call fun entries => (answer entries, entries)) (store : σ) :
    call.Meets store (fun _ => Looked store) fun _ => Looked store := by
  refine (obeys store).mono ?_ fun _ _ => Refused.looked
  intro _ after ⟨opened, stays, counted, done⟩
  exact ⟨congrArg Prod.snd done, stays.trans opened.symm, Nat.le_of_eq counted.symm⟩

end Observed

namespace Scan

theorem move_looks {σ : Type} [Table σ] [LawfulTable σ]
    (find : List Bytes → Scan σ → Option Bytes) (edge : Position) (scan : Scan σ) :
    (move find edge).Meets scan (fun _ after => Looked scan.table after.table)
      fun _ after => Looked scan.table after.table := by
  have step : (move find edge) scan =
      if scan.isClosed then (.error (.closed label), scan)
      else land (find (Table.keys scan.table) scan) edge scan := rfl
  rw [Action.Meets, step]
  cases scan.isClosed with
  | true => exact Looked.refl scan.table
  | false =>
    rw [if_neg Bool.false_ne_true]
    cases find (Table.keys scan.table) scan with
    | none => exact Looked.refl scan.table
    | some key =>
      rw [land]
      have loads := LawfulTable.load key scan.table
      unfold Action.Meets at loads
      cases performed : (Table.load key : Action σ IoError Bytes) scan.table with
      | mk outcome table =>
        rw [performed] at loads
        cases outcome with
        | error failure => exact Refused.looked loads
        | ok value =>
          obtain ⟨_, kept, stays, counted⟩ := loads
          exact ⟨kept, stays, Nat.le_of_eq counted.symm⟩

theorem above?_append {passed rest : List (Bytes × Bytes)} {entry : Bytes × Bytes}
    (ascending : (passed ++ entry :: rest).Pairwise fun x y => compare x.1 y.1 = .lt) :
    above? ((passed ++ entry :: rest).map Prod.fst) entry.1 = rest.head?.map Prod.fst := by
  obtain ⟨-, later, below⟩ := List.pairwise_append.1 ascending
  have above := (List.pairwise_cons.1 later).1
  have skipped : (passed.map Prod.fst).find? (fun other => compare other entry.1 == .gt) = none := by
    rw [List.find?_eq_none]
    intro key member
    obtain ⟨other, present, rfl⟩ := List.mem_map.1 member
    simp [below other present entry (List.mem_cons_self ..)]
  rw [above?, List.map_append, List.find?_append, skipped, Option.none_or, List.map_cons,
    List.find?_cons_of_neg (by simp [Std.ReflCmp.compare_self])]
  cases rest with
  | nil => rfl
  | cons next rest =>
    have greater := Std.OrientedCmp.gt_of_lt (above next (List.mem_cons_self ..))
    rw [List.map_cons, List.find?_cons_of_pos (by simp [greater])]
    rfl

variable {σ : Type} [Observed σ]

inductive Stands (scan : Scan σ) : List (Bytes × Bytes) → Prop
  | start (position : scan.position = .beforeFirst) : Stands scan (contents scan.table).entries
  | on (position : scan.position = .onTuple) (passed rest : List (Bytes × Bytes))
    (entries : (contents scan.table).entries =
      passed ++ (scan.current.key, scan.current.value) :: rest) : Stands scan rest

theorem Stands.isClosed_eq {scan : Scan σ} {rest : List (Bytes × Bytes)}
    (stands : Stands scan rest) : scan.isClosed = false := by
  cases stands with
  | start position => rw [isClosed, position]
  | on position => rw [isClosed, position]

theorem Stands.ahead?_eq {scan : Scan σ} {rest : List (Bytes × Bytes)} (stands : Stands scan rest) :
    ahead? (contents scan.table).keys scan = rest.head?.map Prod.fst := by
  cases stands with
  | start position => rw [ahead?, position, SortedMap.keys, List.head?_map]
  | on position passed rest entries =>
    have ascending := (contents scan.table).sorted
    rw [entries] at ascending
    rw [ahead?, position, SortedMap.keys, entries]
    exact above?_append ascending

theorem Stands.suffix {scan : Scan σ} {rest : List (Bytes × Bytes)} (stands : Stands scan rest) :
    ∃ passed, (contents scan.table).entries = passed ++ rest := by
  cases stands with
  | start => exact ⟨[], rfl⟩
  | on _ passed rest entries =>
    exact ⟨passed ++ [(scan.current.key, scan.current.value)], by rw [entries]; simp⟩

theorem next_meets {σ : Type} [Table σ] [LawfulTable σ] {scan : Scan σ}
    {rest : List (Bytes × Bytes)} (stands : Stands scan rest) :
    (Cursor.next : Action (Scan σ) Error Bool).Meets scan
      (fun moved after => Unchanged scan.table after.table ∧
        match rest with
        | [] => moved = false
        | entry :: rest =>
          moved = true ∧ Cursor.get after = .ok ⟨entry.1, entry.2⟩ ∧ Stands after rest)
      (fun _ after => Refused scan.table after.table) := by
  have step : (Cursor.next : Action (Scan σ) Error Bool) scan =
      land (rest.head?.map Prod.fst) .afterLast scan := by
    show move ahead? .afterLast scan = _
    rw [move, stands.isClosed_eq, LawfulTable.keys_eq, stands.ahead?_eq]
    rfl
  rw [Action.Meets, step]
  cases rest with
  | nil => exact ⟨.refl _, rfl⟩
  | cons entry rest =>
    obtain ⟨passed, entries⟩ := stands.suffix
    have found : (contents scan.table).find? entry.1 = some entry.2 := by
      rw [SortedMap.find?_eq_some, entries]
      simp
    have loads := LawfulTable.load entry.1 scan.table
    rw [Action.Meets] at loads
    rw [List.head?_cons, Option.map_some, land]
    cases performed : (Table.load entry.1 : Action σ IoError Bytes) scan.table with
    | mk outcome table =>
      rw [performed] at loads
      cases outcome with
      | error failure => exact loads
      | ok value =>
        obtain ⟨same, kept, stays, counted⟩ := loads
        rw [found, Option.getD_some] at same
        refine ⟨⟨kept, stays, counted⟩, rfl, by rw [same]; rfl, ?_⟩
        exact .on rfl passed rest (by rw [same]; exact kept.symm ▸ entries)

end Scan

theorem Table.meets_scanning {σ ε α : Type} [Table σ] {relate : IoError → ε}
    {work : Action (Scan σ) ε α} {store : σ} {ok : α → σ → Prop} {failed : ε → σ → Prop} :
    (Table.scanning relate work).Meets store ok failed ↔
      (Table.beginScan : Action σ IoError Unit).Meets store
        (fun _ begun => work.Meets (Scan.start begun) (fun answer scan => ok answer scan.table)
          fun failure scan => failed failure scan.table)
        (fun failure after => failed (relate failure) after) := by
  unfold Action.Meets Table.scanning
  cases (Table.beginScan : Action σ IoError Unit) store with
  | mk outcome begun =>
    cases outcome with
    | error failure => exact Iff.rfl
    | ok done =>
      dsimp only
      cases work (Scan.start begun) with
      | mk outcome scan => cases outcome <;> exact Iff.rfl

end AttributeIndex
