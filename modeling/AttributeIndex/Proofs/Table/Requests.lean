import AttributeIndex.Proofs.Action
import AttributeIndex.Table.Scan

namespace AttributeIndex

namespace Action

variable {σ τ ε δ α β ι : Type}

def outcomes (work : ι → Action σ ε α) : List ι → σ → List (Except ε α) × σ
  | [], state => ([], state)
  | first :: rest, state =>
    let (outcome, state) := work first state
    let (others, state) := outcomes work rest state
    (outcome :: others, state)

def Agree (related : σ → τ → Prop) (left : Action σ ε α) (right : Action τ ε α) (state : σ)
    (twin : τ) : Prop :=
  (left state).1 = (right twin).1 ∧ related (left state).2 (right twin).2

variable {related : σ → τ → Prop} {state : σ} {twin : τ}

theorem Agree.of_eq {left : Action σ ε α} {right : Action τ ε α} {outcome : Except ε α} {after : σ}
    {later : τ} (performed : left state = (outcome, after)) (answered : right twin = (outcome, later))
    (kept : related after later) : Agree related left right state twin := by
  unfold Agree
  rw [performed, answered]
  exact ⟨rfl, kept⟩

theorem Agree.map {left : Action σ ε α} {right : Action τ ε α} (change : α → β)
    (agree : Agree related left right state twin) :
    Agree related (change <$> left) (change <$> right) state twin := by
  unfold Agree at *
  rw [map_apply, map_apply]
  exact ⟨congrArg (·.map change) agree.1, agree.2⟩

theorem relating_apply (relate : δ → ε) (action : Action σ δ α) (state : σ) :
    relating relate action state = ((action state).1.mapError relate, (action state).2) :=
  rfl

theorem relating_map (relate : δ → ε) (change : α → β) (action : Action σ δ α) :
    relating relate (change <$> action) = change <$> relating relate action := by
  funext state
  rw [map_apply]
  unfold relating
  rw [map_apply]
  cases action state with
  | mk outcome after => cases outcome <;> rfl

theorem Agree.map_relating {left : Action σ ε α} {right : Action τ δ α} {relate : δ → ε}
    (change : α → β) (agree : Agree related left (relating relate right) state twin) :
    Agree related (change <$> left) (relating relate (change <$> right)) state twin := by
  rw [relating_map]
  exact agree.map change

theorem outcomes_agree {work : ι → Action σ ε α} {other : ι → Action τ ε α}
    (kept : List ι → σ → τ → Prop)
    (step : ∀ element rest state twin, kept (element :: rest) state twin →
      Agree (kept rest) (work element) (other element) state twin)
    (list : List ι) (start : kept list state twin) :
    (outcomes work list state).1 = (outcomes other list twin).1 ∧
      kept [] (outcomes work list state).2 (outcomes other list twin).2 := by
  induction list generalizing state twin with
  | nil => exact ⟨rfl, start⟩
  | cons element rest ih =>
    obtain ⟨same, later⟩ := step element rest state twin start
    obtain ⟨others, last⟩ := ih later
    exact ⟨congr (congrArg List.cons same) others, last⟩

end Action

open AttributeIndex.Action

/-! ## Cursors -/

namespace Cursor

inductive Step (α : Type)
  | isAvailable
  | before (element : α)
  | after (element : α)
  | beforeFirst
  | afterLast
  | first
  | last
  | previous
  | next
  | get
  | items (limit : Nat)
  | isElementReused
  | close
  | isClosed
  deriving DecidableEq, Repr

inductive Reply (α : Type)
  | done
  | flag (holds : Bool)
  | element (element : α)
  | items (items : List (Except Error α))

def Step.perform {κ α : Type} [Cursor κ α] : Step α → Action κ Error (Reply α)
  | isAvailable => query fun cursor => .ok (.flag (Cursor.isAvailable cursor))
  | before element => (fun _ => .done) <$> Cursor.before element
  | after element => (fun _ => .done) <$> Cursor.after element
  | beforeFirst => (fun _ => .done) <$> Cursor.beforeFirst
  | afterLast => (fun _ => .done) <$> Cursor.afterLast
  | first => .flag <$> Cursor.first
  | last => .flag <$> Cursor.last
  | previous => .flag <$> Cursor.previous
  | next => .flag <$> Cursor.next
  | get => .element <$> query Cursor.get
  | items limit => fun cursor =>
    let (elements, cursor) := Cursor.items limit cursor
    (.ok (.items elements), cursor)
  | isElementReused => query fun cursor => .ok (.flag (Cursor.isElementReused cursor))
  | close => (fun _ => .done) <$> Cursor.close
  | isClosed => query fun cursor => .ok (.flag (Cursor.isClosed cursor))

structure Simulates {κ μ α : Type} [Cursor κ α] [Cursor μ α] (related : κ → μ → Prop) : Prop where
  isAvailable_eq {cursor : κ} {twin : μ} : related cursor twin →
    Cursor.isAvailable cursor = Cursor.isAvailable twin
  before {cursor : κ} {twin : μ} (element : α) : related cursor twin →
    Agree related (Cursor.before element) (Cursor.before element) cursor twin
  after {cursor : κ} {twin : μ} (element : α) : related cursor twin →
    Agree related (Cursor.after element) (Cursor.after element) cursor twin
  beforeFirst {cursor : κ} {twin : μ} : related cursor twin →
    Agree related Cursor.beforeFirst Cursor.beforeFirst cursor twin
  afterLast {cursor : κ} {twin : μ} : related cursor twin →
    Agree related Cursor.afterLast Cursor.afterLast cursor twin
  first {cursor : κ} {twin : μ} : related cursor twin →
    Agree related Cursor.first Cursor.first cursor twin
  last {cursor : κ} {twin : μ} : related cursor twin →
    Agree related Cursor.last Cursor.last cursor twin
  previous {cursor : κ} {twin : μ} : related cursor twin →
    Agree related Cursor.previous Cursor.previous cursor twin
  next {cursor : κ} {twin : μ} : related cursor twin →
    Agree related Cursor.next Cursor.next cursor twin
  get_eq {cursor : κ} {twin : μ} : related cursor twin → Cursor.get cursor = Cursor.get twin
  isElementReused_eq {cursor : κ} {twin : μ} : related cursor twin →
    Cursor.isElementReused cursor = Cursor.isElementReused twin
  close {cursor : κ} {twin : μ} : related cursor twin →
    Agree related Cursor.close Cursor.close cursor twin
  isClosed_eq {cursor : κ} {twin : μ} : related cursor twin →
    Cursor.isClosed cursor = Cursor.isClosed twin

namespace Simulates

variable {κ μ α : Type} [Cursor κ α] [Cursor μ α] {related : κ → μ → Prop} {cursor : κ} {twin : μ}

theorem advance_agree (simulates : Simulates related) (twins : related cursor twin) :
    (advance cursor).1 = (advance twin).1 ∧ related (advance cursor).2 (advance twin).2 := by
  obtain ⟨same, moved⟩ := simulates.next twins
  unfold advance
  cases left : (Cursor.next : Action κ Error Bool) cursor with
  | mk outcome cursor =>
    cases right : (Cursor.next : Action μ Error Bool) twin with
    | mk reply twin =>
      rw [left, right] at same moved
      obtain rfl : outcome = reply := same
      match outcome with
      | .ok true => exact ⟨congrArg some (simulates.get_eq moved), moved⟩
      | .ok false => exact ⟨rfl, moved⟩
      | .error failure => exact ⟨rfl, moved⟩

theorem items_agree (simulates : Simulates related) (twins : related cursor twin) (limit : Nat) :
    (Cursor.items limit cursor).1 = (Cursor.items limit twin).1 ∧
      related (Cursor.items limit cursor).2 (Cursor.items limit twin).2 := by
  induction limit generalizing cursor twin with
  | zero => exact ⟨rfl, twins⟩
  | succ limit ih =>
    obtain ⟨same, moved⟩ := simulates.advance_agree twins
    unfold Cursor.items
    cases left : advance cursor with
    | mk item cursor =>
      cases right : advance twin with
      | mk reply twin =>
        rw [left, right] at same moved
        obtain rfl : item = reply := same
        match item with
        | none => exact ⟨rfl, moved⟩
        | some (.error failure) => exact ⟨rfl, moved⟩
        | some (.ok element) =>
          obtain ⟨others, last⟩ := ih moved
          exact ⟨congrArg (.ok element :: ·) others, last⟩

theorem perform_agree (simulates : Simulates related) (twins : related cursor twin)
    (step : Step α) :
    Agree related (step.perform : Action κ Error (Reply α)) step.perform cursor twin := by
  have asked : ∀ {answer : κ → Except Error (Reply α)} {reply : μ → Except Error (Reply α)},
      answer cursor = reply twin → Agree related (query answer) (query reply) cursor twin :=
    fun same => ⟨same, twins⟩
  cases step with
  | isAvailable => exact asked (by rw [simulates.isAvailable_eq twins])
  | before element => exact (simulates.before element twins).map _
  | after element => exact (simulates.after element twins).map _
  | beforeFirst => exact (simulates.beforeFirst twins).map _
  | afterLast => exact (simulates.afterLast twins).map _
  | first => exact (simulates.first twins).map _
  | last => exact (simulates.last twins).map _
  | previous => exact (simulates.previous twins).map _
  | next => exact (simulates.next twins).map _
  | get =>
    have same : Agree related (query Cursor.get) (query Cursor.get) cursor twin :=
      ⟨simulates.get_eq twins, twins⟩
    exact same.map _
  | items limit =>
    obtain ⟨same, moved⟩ := simulates.items_agree twins limit
    refine ⟨?_, moved⟩
    show Except.ok (Reply.items (Cursor.items limit cursor).1) = _
    rw [same]
    rfl
  | isElementReused => exact asked (by rw [simulates.isElementReused_eq twins])
  | close => exact (simulates.close twins).map _
  | isClosed => exact asked (by rw [simulates.isClosed_eq twins])

theorem outcomes_agree (simulates : Simulates related) (twins : related cursor twin)
    (steps : List (Step α)) :
    (outcomes Step.perform steps cursor).1 = (outcomes Step.perform steps twin).1 ∧
      related (outcomes Step.perform steps cursor).2 (outcomes Step.perform steps twin).2 :=
  Action.outcomes_agree (fun _ => related)
    (fun step _ _ _ twins => simulates.perform_agree twins step) steps twins

end Simulates

end Cursor

/-! ## Tables -/

namespace Table

inductive Request
  | get (key : Bytes)
  | put (key value : Bytes)
  | remove (key : Bytes)
  | size
  | isEmpty
  | scan (steps : List (Cursor.Step Tuple))
  | sync
  | close
  deriving DecidableEq, Repr

inductive Answer
  | done
  | flag (holds : Bool)
  | size (count : Nat)
  | value (value? : Option Bytes)
  | scanned (replies : List (Except Error (Cursor.Reply Tuple)))

def Request.perform {σ : Type} [Table σ] : Request → Action σ IoError Answer
  | get key => .value <$> Table.get key
  | put key value => (fun _ => .done) <$> Table.put key value
  | remove key => .flag <$> Table.remove key
  | size => query fun table => .ok (.size (Table.size table))
  | isEmpty => query fun table => .ok (.flag (Table.isEmpty table))
  | scan steps => scanning id fun scan =>
    let (replies, scan) := outcomes Cursor.Step.perform steps scan
    (.ok (.scanned replies), scan)
  | sync => (fun _ => .done) <$> Table.sync
  | close => (fun _ => .done) <$> Table.close

end Table

namespace Scan

variable {σ τ : Type}

structure Twins (related : σ → τ → Prop) (scan : Scan σ) (twin : Scan τ) : Prop where
  tables : related scan.table twin.table
  position_eq : scan.position = twin.position
  current_eq : scan.current = twin.current

variable {related : σ → τ → Prop} {table : σ} {other : τ} {scan : Scan σ} {twin : Scan τ}

namespace Twins

theorem start (tables : related table other) :
    Twins related (Scan.start table) (Scan.start other) :=
  ⟨tables, rfl, rfl⟩

theorem isClosed_eq (twins : Twins related scan twin) : scan.isClosed = twin.isClosed := by
  rw [isClosed, isClosed, twins.position_eq]

theorem wait_agree (twins : Twins related scan twin) (position : Position) :
    Agree (Twins related) (wait position) (wait position) scan twin := by
  unfold Agree wait
  rw [twins.isClosed_eq]
  split
  · exact ⟨rfl, twins⟩
  · exact ⟨rfl, twins.tables, rfl, twins.current_eq⟩

end Twins

variable [Table σ] [Table τ]

structure Matched (related : σ → τ → Prop) : Prop where
  keys_eq {table : σ} {other : τ} : related table other → Table.keys table = Table.keys other
  load {table : σ} {other : τ} (key : Bytes) : related table other →
    Agree related (Table.load key : Action σ IoError Bytes) (Table.load key) table other

namespace Twins

theorem land_agree (matched : Matched related) (twins : Twins related scan twin)
    (found : Option Bytes) (edge : Position) :
    Agree (Twins related) (land found edge) (land found edge) scan twin := by
  cases found with
  | none => exact ⟨rfl, twins.tables, rfl, twins.current_eq⟩
  | some key =>
    obtain ⟨same, kept⟩ := matched.load key twins.tables
    cases left : (Table.load key : Action σ IoError Bytes) scan.table with
    | mk outcome table =>
      cases right : (Table.load key : Action τ IoError Bytes) twin.table with
      | mk reply other =>
        rw [left, right] at same kept
        obtain rfl : outcome = reply := same
        unfold Agree land
        cases outcome with
        | ok value =>
          simp only [left, right]
          exact ⟨trivial, kept, rfl, rfl⟩
        | error failure =>
          simp only [left, right]
          exact ⟨trivial, kept, twins.position_eq, twins.current_eq⟩

theorem move_agree (matched : Matched related) (twins : Twins related scan twin)
    {find : List Bytes → Scan σ → Option Bytes} {seek : List Bytes → Scan τ → Option Bytes}
    (same : ∀ keys, find keys scan = seek keys twin) (edge : Position) :
    Agree (Twins related) (move find edge) (move seek edge) scan twin := by
  unfold Agree move
  rw [twins.isClosed_eq, matched.keys_eq twins.tables, same]
  split
  · exact ⟨rfl, twins⟩
  · exact twins.land_agree matched _ edge

theorem simulates (matched : Matched related) : Cursor.Simulates (Twins related) where
  isAvailable_eq twins := by
    simp only [Cursor.isAvailable, isAvailable, twins.position_eq]
  before _ twins := twins.wait_agree _
  after _ twins := twins.wait_agree _
  beforeFirst twins := twins.wait_agree _
  afterLast twins := twins.wait_agree _
  first twins := twins.move_agree matched (fun _ => rfl) _
  last twins := twins.move_agree matched (fun _ => rfl) _
  previous twins := twins.move_agree matched
    (fun _ => by rw [back?, back?, twins.position_eq, twins.current_eq]) _
  next twins := twins.move_agree matched
    (fun _ => by rw [ahead?, ahead?, twins.position_eq, twins.current_eq]) _
  get_eq twins := by
    simp only [Cursor.get, get, twins.position_eq, twins.current_eq]
  isElementReused_eq _ := rfl
  close twins := ⟨rfl, twins.tables, rfl, twins.current_eq⟩
  isClosed_eq twins := twins.isClosed_eq

end Twins

structure Alike (table : σ) (other : τ) : Prop where
  size_eq : Table.size table = Table.size other
  keys_eq : Table.keys table = Table.keys other
  loads : ∀ key, ∃ value, (Table.load key : Action σ IoError Bytes) table = (.ok value, table) ∧
    (Table.load key : Action τ IoError Bytes) other = (.ok value, other)

theorem Alike.matched (alike : Alike table other) :
    Matched fun (left : σ) (right : τ) => left = table ∧ right = other where
  keys_eq := by
    rintro _ _ ⟨rfl, rfl⟩
    exact alike.keys_eq
  load key same := by
    obtain ⟨value, left, right⟩ := alike.loads key
    rw [same.1, same.2]
    exact .of_eq left right ⟨rfl, rfl⟩

end Scan

namespace Table

variable {σ τ : Type} [Table σ] [Table τ]

theorem perform_scan_of_error {table after : σ} {failure : IoError}
    (begins : (beginScan : Action σ IoError Unit) table = (.error failure, after))
    (steps : List (Cursor.Step Tuple)) :
    (Request.perform (.scan steps) : Action σ IoError Answer) table = (.error failure, after) := by
  simp only [Request.perform, scanning, begins, id]

theorem perform_scan_of_ok {table begun : σ}
    (begins : (beginScan : Action σ IoError Unit) table = (.ok (), begun))
    (steps : List (Cursor.Step Tuple)) :
    (Request.perform (.scan steps) : Action σ IoError Answer) table =
      (.ok (.scanned (outcomes Cursor.Step.perform steps (Scan.start begun)).1),
        (outcomes Cursor.Step.perform steps (Scan.start begun)).2.table) := by
  simp only [Request.perform, scanning, begins]

theorem exists_perform_scan {table begun : σ} {other ready : τ}
    (begins : (beginScan : Action σ IoError Unit) table = (.ok (), begun))
    (starts : (beginScan : Action τ IoError Unit) other = (.ok (), ready))
    (alike : Scan.Alike begun ready) (steps : List (Cursor.Step Tuple)) :
    ∃ answer, (Request.perform (.scan steps) : Action σ IoError Answer) table = (.ok answer, begun) ∧
      (Request.perform (.scan steps) : Action τ IoError Answer) other = (.ok answer, ready) := by
  obtain ⟨replies, ended⟩ := (Scan.Twins.simulates alike.matched).outcomes_agree
    (Scan.Twins.start ⟨rfl, rfl⟩) steps
  have called := perform_scan_of_ok begins steps
  have answered := perform_scan_of_ok starts steps
  rw [ended.tables.1, replies] at called
  rw [ended.tables.2] at answered
  exact ⟨_, called, answered⟩

theorem perform_scan_agree {related : σ → τ → Prop} {table : σ} {other : τ}
    (matched : Scan.Matched related)
    (begins : Agree related (beginScan : Action σ IoError Unit) beginScan table other)
    (steps : List (Cursor.Step Tuple)) :
    Agree related (Request.perform (.scan steps) : Action σ IoError Answer)
      (Request.perform (.scan steps)) table other := by
  obtain ⟨same, kept⟩ := begins
  cases left : (beginScan : Action σ IoError Unit) table with
  | mk outcome begun =>
    cases right : (beginScan : Action τ IoError Unit) other with
    | mk reply ready =>
      rw [left, right] at same kept
      obtain rfl : outcome = reply := same
      cases outcome with
      | error failure =>
        exact .of_eq (perform_scan_of_error left steps) (perform_scan_of_error right steps) kept
      | ok done =>
        obtain ⟨replies, ended⟩ := (Scan.Twins.simulates matched).outcomes_agree
          (Scan.Twins.start kept) steps
        refine .of_eq (perform_scan_of_ok left steps) ?_ ended.tables
        rw [perform_scan_of_ok right steps, replies]

theorem perform_scan_keeps {kept : σ → Prop} {table : σ}
    (begun : kept ((beginScan : Action σ IoError Unit) table).2)
    (loads : ∀ key table, kept table → kept ((load key : Action σ IoError Bytes) table).2)
    (steps : List (Cursor.Step Tuple)) :
    kept ((Request.perform (.scan steps) : Action σ IoError Answer) table).2 := by
  let related := fun left right : σ => left = right ∧ kept left
  have matched : Scan.Matched related := by
    refine ⟨fun ⟨same, _⟩ => same ▸ rfl, ?_⟩
    rintro left _ key ⟨rfl, still⟩
    exact ⟨rfl, rfl, loads key left still⟩
  have begins : Agree related (beginScan : Action σ IoError Unit) beginScan table table :=
    ⟨rfl, rfl, begun⟩
  exact (perform_scan_agree matched begins steps).2.2

end Table

end AttributeIndex
