import AttributeIndex.Proofs.Table.Position

namespace AttributeIndex

open AttributeIndex.Action AttributeIndex.Sequence

namespace Cursor

variable {κ α : Type} [Cursor κ α]

def advances : (count : Nat) → κ → List (Option (Except Error α)) × κ
  | 0, cursor => ([], cursor)
  | count + 1, cursor =>
    let (reply, cursor) := advance cursor
    let (replies, cursor) := advances count cursor
    (reply :: replies, cursor)

def received (replies : List (Option (Except Error α))) : List α :=
  replies.filterMap fun reply => reply.bind Except.toOption

end Cursor

namespace Scan

variable {σ : Type} {entries : SortedMap Bytes Bytes} {scan : Scan σ} {valid : σ → Prop}

def following (entries : SortedMap Bytes Bytes) (scan : Scan σ) : List Tuple :=
  (tuplesOf entries).filter fun tuple => scan.isAhead tuple.key

theorem isAhead_mono {first second : Bytes} (below : compare first second = .lt)
    (ahead : scan.isAhead first = true) : scan.isAhead second = true := by
  have above : ∀ anchor, compare first anchor = .gt → compare second anchor = .gt :=
    fun _ reached => Std.TransCmp.gt_trans (Std.OrientedCmp.gt_of_lt below) reached
  obtain ⟨table, position, current⟩ := scan
  cases position with
  | beforeFirst => rfl
  | afterLast | closed => cases ahead
  | onTuple =>
    simp only [isAhead, beq_iff_eq] at ahead ⊢
    exact above _ ahead
  | before anchor =>
    simp only [isAhead, bne_iff_ne] at ahead ⊢
    exact fun short => ahead (Std.TransCmp.lt_trans below short)
  | after anchor =>
    simp only [isAhead, beq_iff_eq] at ahead ⊢
    exact above _ ahead

theorem find?_isAhead : ahead? entries.keys scan = (following entries scan).head?.map Tuple.key := by
  rw [ahead?_eq, keys_eq, List.find?_map, following, List.head?_filter]
  rfl

theorem following_suffix (entries : SortedMap Bytes Bytes) (scan : Scan σ) :
    following entries scan <:+ tuplesOf entries := by
  cases ahead : following entries scan with
  | nil => exact List.nil_suffix
  | cons tuple rest =>
    obtain ⟨behind, after, split, -, reached, rfl⟩ := List.filter_eq_cons_iff.1 ahead
    have ascending := ascending_tuplesOf entries
    rw [split, ascending_append, ascending_cons] at ascending
    obtain ⟨-, ⟨below, -⟩, -⟩ := ascending
    have every : after.filter (fun other => scan.isAhead other.key) = after :=
      List.filter_eq_self.2 fun other member => isAhead_mono (below other member) reached
    rw [every, split]
    exact List.suffix_append behind _

theorem following_on {table : σ} {tuple : Tuple} {rest : List Tuple}
    (ahead : following entries scan = tuple :: rest) :
    following entries ⟨table, .onTuple, tuple⟩ = rest := by
  obtain ⟨behind, split⟩ := following_suffix entries scan
  rw [ahead] at split
  have ascending := ascending_tuplesOf entries
  rw [← split, ascending_append, ascending_cons] at ascending
  obtain ⟨-, ⟨below, -⟩, above⟩ := ascending
  have skipped : behind.filter (fun other => compare other.key tuple.key == .gt) = [] := by
    rw [List.filter_eq_nil_iff]
    intro other member
    have less : compare other.key tuple.key = .lt := above other member tuple List.mem_cons_self
    simp [less]
  have kept : rest.filter (fun other => compare other.key tuple.key == .gt) = rest := by
    rw [List.filter_eq_self]
    intro other member
    have less : compare tuple.key other.key = .lt := below other member
    simp [Std.OrientedCmp.gt_of_lt less]
  show (tuplesOf entries).filter (fun other => compare other.key tuple.key == .gt) = _
  rw [← split, List.filter_append, List.filter_cons, skipped, kept]
  simp

theorem following_afterLast {table : σ} {current : Tuple} :
    following entries ⟨table, .afterLast, current⟩ = [] :=
  List.filter_eq_nil_iff.2 fun _ _ => Bool.false_ne_true

variable [Table σ]

def Accounts (valid : σ → Prop) (entries : SortedMap Bytes Bytes) (before : Scan σ) :
    Option (Except Error Tuple) × Scan σ → Prop
  | (some (.ok tuple), after) =>
    valid after.table ∧ following entries before = tuple :: following entries after
  | (some (.error _), after) => valid after.table ∧ following entries after = following entries before
  | (none, after) => valid after.table ∧ following entries before = [] ∧ following entries after = []

inductive Advanced (valid : σ → Prop) (scan : Scan σ) :
    List Tuple → Option (Except Error Tuple) × Scan σ → Prop
  | ends : Advanced valid scan [] (none, { scan with position := .afterLast })
  | comes {tuple : Tuple} {rest : List Tuple} {table : σ}
      (loads : (Table.load tuple.key : Action σ IoError Bytes) scan.table = (.ok tuple.value, table))
      (still : valid table) :
      Advanced valid scan (tuple :: rest) (some (.ok tuple), ⟨table, .onTuple, tuple⟩)
  | fails {tuple : Tuple} {rest : List Tuple} {cause : IoError} {table : σ}
      (loads : (Table.load tuple.key : Action σ IoError Bytes) scan.table = (.error cause, table))
      (still : valid table) :
      Advanced valid scan (tuple :: rest)
        (some (.error (.io (label ++ " value load") cause)), { scan with table })

theorem advance_advanced (serves : Serves entries valid) (still : valid scan.table)
    (opened : scan.isClosed = false) :
    Advanced valid scan (following entries scan) (Cursor.advance scan) := by
  have step : (Cursor.next : Action (Scan σ) Error Bool) scan =
      land ((following entries scan).head?.map Tuple.key) .afterLast scan := by
    show move ahead? .afterLast scan = _
    rw [move, serves.keys_eq still, find?_isAhead, opened]
    rfl
  have landed := serves.landed still ((following entries scan).head?.map Tuple.key) .afterLast
  unfold Cursor.advance
  rw [step]
  generalize land ((following entries scan).head?.map Tuple.key) .afterLast scan = performed
    at landed ⊢
  cases ahead : following entries scan with
  | nil =>
    rw [ahead] at landed
    cases landed
    exact .ends
  | cons tuple rest =>
    have member : tuple ∈ tuplesOf entries :=
      (following_suffix entries scan).subset (ahead ▸ List.mem_cons_self)
    obtain ⟨index, inside, rfl⟩ := List.getElem_of_mem member
    have stored := find?_getElem inside
    rw [ahead] at landed
    cases landed with
    | fails loads kept => exact .fails loads kept
    | lands loads kept =>
      rw [stored] at loads ⊢
      exact .comes loads kept

theorem advance_closed (shut : scan.isClosed = true) :
    Cursor.advance scan = (some (.error (.closed label)), scan) := by
  obtain ⟨table, position, current⟩ := scan
  cases position with
  | beforeFirst | afterLast | onTuple | before | after => cases shut
  | closed => rfl

theorem advance_accounts (serves : Serves entries valid) (still : valid scan.table) :
    Accounts valid entries scan (Cursor.advance scan) := by
  cases shut : scan.isClosed with
  | true =>
    rw [advance_closed shut]
    exact ⟨still, rfl⟩
  | false =>
    have advanced := advance_advanced serves still shut
    generalize ahead : following entries scan = tuples at advanced
    generalize Cursor.advance scan = performed at advanced ⊢
    cases advanced with
    | ends => exact ⟨still, ahead, following_afterLast⟩
    | comes loads kept => exact ⟨kept, ahead.trans (congrArg _ (following_on ahead).symm)⟩
    | fails loads kept => exact ⟨kept, rfl⟩

theorem advances_account (serves : Serves entries valid) (still : valid scan.table) (count : Nat) :
    following entries scan = Cursor.received (Cursor.advances count scan).1 ++
        following entries (Cursor.advances count scan).2 ∧
      (none ∈ (Cursor.advances count scan).1 →
        following entries (Cursor.advances count scan).2 = []) := by
  induction count generalizing scan with
  | zero => exact ⟨rfl, fun member => by cases member⟩
  | succ count ih =>
    have accounts := advance_accounts serves still
    unfold Cursor.advances
    cases performed : Cursor.advance scan with
    | mk reply after =>
      rw [performed] at accounts
      cases reply with
      | none =>
        obtain ⟨kept, ended, nothing⟩ := accounts
        obtain ⟨others, -⟩ := ih kept
        rw [nothing] at others
        exact ⟨ended.trans others, fun _ => (List.append_eq_nil_iff.1 others.symm).2⟩
      | some outcome =>
        cases outcome with
        | error failure =>
          obtain ⟨kept, same⟩ := accounts
          obtain ⟨others, ended⟩ := ih kept
          exact ⟨same.symm.trans others, fun member => ended (by simpa using member)⟩
        | ok tuple =>
          obtain ⟨kept, ahead⟩ := accounts
          obtain ⟨others, ended⟩ := ih kept
          exact ⟨ahead.trans (congrArg (tuple :: ·) others),
            fun member => ended (by simpa using member)⟩

structure Stays (before after : Scan σ) : Prop where
  position_eq : after.position = before.position
  current_eq : after.current = before.current
  isAvailable_eq : after.isAvailable = before.isAvailable
  get_eq : after.get = before.get
  keys_eq : Table.keys after.table = Table.keys before.table
  ahead?_eq : ahead? (Table.keys after.table) after = ahead? (Table.keys before.table) before
  back?_eq : back? (Table.keys after.table) after = back? (Table.keys before.table) before

theorem stays_of_table {table : σ} (keys_eq : Table.keys table = Table.keys scan.table) :
    Stays scan { scan with table } :=
  ⟨rfl, rfl, rfl, rfl, keys_eq, congrArg (ahead? · scan) keys_eq, congrArg (back? · scan) keys_eq⟩

theorem move_stays (serves : Serves entries valid) (still : valid scan.table)
    (find : List Bytes → Scan σ → Option Bytes) (edge : Position) :
    (move find edge).Meets scan (fun _ _ => True) fun failure after =>
      Stays scan after ∧
        (scan.isClosed = true ∨ ∃ cause, failure = .io (label ++ " value load") cause) := by
  refine .intro (fun _ _ _ => trivial) fun failure after failed => ?_
  unfold move at failed
  cases shut : scan.isClosed with
  | true =>
    rw [shut] at failed
    cases failed
    exact ⟨stays_of_table rfl, .inl rfl⟩
  | false =>
    rw [shut, if_neg Bool.false_ne_true] at failed
    have landed := serves.landed still (find (Table.keys scan.table) scan) edge
    rw [failed] at landed
    generalize find (Table.keys scan.table) scan = found at landed
    cases landed with
    | fails loads kept =>
      have keys_eq := (serves.keys_eq kept).trans (serves.keys_eq still).symm
      exact ⟨stays_of_table keys_eq, .inr ⟨_, rfl⟩⟩

theorem refines_ideal (serves : Serves entries valid) {table : σ} (started : valid table)
    {steps : List (Cursor.Step Tuple)}
    (reached : (outcomes Cursor.Step.perform steps (start table)).2 = scan) :
    (outcomes Cursor.Step.perform steps (start table)).1 =
        (outcomes Cursor.Step.perform steps (Ideal.start entries table)).1 ∧
      ((∀ key table, valid table →
          ∃ value after, (Table.load key : Action σ IoError Bytes) table = (.ok value, after)) →
        (outcomes Cursor.Step.perform steps (start table)).1 =
          (outcomes Cursor.Step.perform steps
            (Ideal.start entries (Volatile.ofEntries entries))).1) ∧
      (∀ step ∈ ([Cursor.first, Cursor.last, Cursor.previous, Cursor.next] :
          List (Action (Scan σ) Error Bool)),
        step.Meets scan (fun _ _ => True) fun failure after => Stays scan after ∧
          (scan.isClosed = true ∨ ∃ cause, failure = .io (label ++ " value load") cause)) ∧
      ∀ count, following entries scan = Cursor.received (Cursor.advances count scan).1 ++
          following entries (Cursor.advances count scan).2 ∧
        (none ∈ (Cursor.advances count scan).1 →
          following entries (Cursor.advances count scan).2 = []) := by
  obtain ⟨replies, shows⟩ := (simulates serves).outcomes_agree
    (⟨rfl, started, .beforeFirst⟩ : Shows entries valid (start table) (Ideal.start entries table)) steps
  rw [reached] at shows
  refine ⟨replies, fun loads => ?_, ?_, advances_account serves shows.valid⟩
  · have memory := (Twins.simulates (matched_memory serves loads)).outcomes_agree
      (Twins.start ⟨started, rfl⟩) steps
    have served : Serves entries (fun other : Volatile => other.entries = entries) :=
      serves_of_lawful (Volatile.ofEntries entries)
    refine memory.1.trans ((simulates served).outcomes_agree ?_ steps).1
    exact ⟨rfl, rfl, .beforeFirst⟩
  · simp only [List.forall_mem_cons]
    have stays := move_stays serves shows.valid
    exact ⟨stays _ _, stays _ _, stays _ _, stays _ _, List.forall_mem_nil _⟩

theorem refines_ideal_failing :
    let entries : SortedMap Bytes Bytes := .ofList [([1], [7]), ([2], [8]), ([3], [])]
    let store : Unreliable :=
      ⟨.ofEntries entries, { Plans.never with load := ⟨fun call => call % 2 == 0, 0⟩ }⟩
    let failure : Error := .io (label ++ " value load") (.failed (TableCall.load.name ++ " failed: disk full"))
    (outcomes Cursor.Step.perform [.next, .get, .next, .get, .after ⟨[1], [0]⟩, .next, .isAvailable,
        .next, .get, .previous, .get, .previous, .get] (start store)).1 =
        [.error failure, .error (.invalidPosition label), .ok (.flag true), .ok (.element ⟨[1], [7]⟩),
          .ok .done, .error failure, .ok (.flag false), .ok (.flag true), .ok (.element ⟨[2], [8]⟩),
          .error failure, .ok (.element ⟨[2], [8]⟩), .ok (.flag true), .ok (.element ⟨[1], [7]⟩)] ∧
      Cursor.received (Cursor.advances 7 (start store)).1 = [⟨[1], [7]⟩, ⟨[2], [8]⟩, ⟨[3], []⟩] := by
  intro entries store failure
  have serves : Serves entries fun other : Unreliable => other.table.entries = entries :=
    serves_of_lawful store
  have started : store.table.entries = entries := rfl
  obtain ⟨replies, -⟩ := refines_ideal serves started rfl
  have fresh : (outcomes Cursor.Step.perform [] (start store)).2 = start store := rfl
  obtain ⟨-, -, -, account⟩ := refines_ideal serves started fresh
  obtain ⟨all, ended⟩ := account 7
  subst failure store entries
  refine ⟨replies.trans rfl, ?_⟩
  rw [ended (List.mem_of_getElem? (i := 6) rfl), List.append_nil] at all
  exact all.symm.trans rfl

end Scan

end AttributeIndex
