import CodeHive.Concurrency.Interleaving
import CodeHive.Go.Durations
import CodeHive.Go.Sync
import CodeHive.Orchestrator.Types

/-! # The database of the orchestrator

`internal/db` on PostgreSQL: three tables, each with its id as primary key. A table is missing until
it has been created; the database may refuse any statement, with a text of its own. What a
`TIMESTAMP` column gives back for the time that was written to it depends on its precision and on
time zones, and is a parameter. -/

namespace CodeHive.Orchestrator.Database

set_option autoImplicit false

open CodeHive.Concurrency.Interleaving CodeHive.Go.Sync CodeHive.Go.Durations
open CodeHive.Orchestrator.Types

/-! ### The tables -/

/-- A row of `execution_results`. -/
structure ResultRow where
  id : String
  stdout : String
  stderr : String
  exit_code : ℤ
  duration : String
  error : String
  status : String
  created_at : Time
  updated_at : Time

/-- A row of `execution_requests`. -/
structure RequestRow where
  id : String
  language : String
  code : String
  stdin : String
  timeout : ℤ
  memory_limit : ℤ
  created_at : Time

structure DB where
  /-- Whether `conn` is not `nil`. -/
  conn : Bool
  execution_requests : Option (Map RequestRow)
  execution_results : Option (Map ResultRow)
  workers : Option (Map WorkerStatus)

/-- A connection to a database without tables. -/
def New : DB := ⟨true, none, none, none⟩

/-- What PostgreSQL says of a table that is missing. -/
def missing (table : String) : String := "pq: relation \"" ++ table ++ "\" does not exist"

/-- A statement about a table, which may be refused. -/
def statement {α : Type} (name : String) (table : Option (Map α)) (refusal : Option String) :
    Except String (Map α) :=
  match refusal, table with
  | some text, _ => .error text
  | none, none => .error (missing name)
  | none, some rows => .ok rows

def notConnected : String := "database not connected"

/-! ### The statements -/

/-- `result.Duration.String()`, and the other columns as they are. -/
def rowOf (result : ExecutionResult) : ResultRow where
  id := result.ID
  stdout := result.Stdout
  stderr := result.Stderr
  exit_code := result.ExitCode
  duration := Duration.String result.Duration
  error := result.Error
  status := result.Status
  created_at := result.CreatedAt
  updated_at := result.UpdatedAt

/-- `INSERT … ON CONFLICT (id) DO UPDATE`; `created_at` is not among the columns that are set. -/
def upsertResult (rows : Map ResultRow) (row : ResultRow) : Map ResultRow :=
  rows.Store row.id
    { row with created_at := ((rows.Load row.id).map (·.created_at)).getD row.created_at }

/-- `SaveResult`. -/
def DB.SaveResult (db : DB) (result : ExecutionResult) (refusal : Option String) :
    Except String DB :=
  if db.conn then
    match statement "execution_results" db.execution_results refusal with
    | .error err => .error ("failed to save result: " ++ err)
    | .ok rows => .ok { db with execution_results := some (upsertResult rows (rowOf result)) }
  else .error notConnected

/-- `INSERT`, which fails where the id is there. -/
def insertRequest (rows : Map RequestRow) (row : RequestRow) : Except String (Map RequestRow) :=
  match rows.Load row.id with
  | some _ => .error
    "pq: duplicate key value violates unique constraint \"execution_requests_pkey\""
  | none => .ok (rows.Store row.id row)

def requestRow (req : ExecutionRequest) : RequestRow where
  id := req.ID
  language := req.Language
  code := req.Code
  stdin := req.Stdin
  timeout := req.Timeout
  memory_limit := req.MemoryLimit
  created_at := req.CreatedAt

/-- `SaveRequest`. -/
def DB.SaveRequest (db : DB) (req : ExecutionRequest) (refusal : Option String) :
    Except String DB :=
  if db.conn then
    match (statement "execution_requests" db.execution_requests refusal).bind
      fun rows => insertRequest rows (requestRow req) with
    | .error err => .error ("failed to save request: " ++ err)
    | .ok rows => .ok { db with execution_requests := some rows }
  else .error notConnected

/-- `UpsertWorker`. -/
def DB.UpsertWorker (db : DB) (w : WorkerStatus) (refusal : Option String) : Except String DB :=
  if db.conn then
    match statement "workers" db.workers refusal with
    | .error err => .error ("failed to upsert worker: " ++ err)
    | .ok rows => .ok { db with workers := some (rows.Store w.ID w) }
  else .error notConnected

/-- `CREATE TABLE IF NOT EXISTS`. -/
def create {α : Type} (table : Option (Map α)) : Option (Map α) := some (table.getD ∅)

/-- The three statements of `RunMigrations`, in their order. -/
def migrations : List (DB → DB) :=
  [fun db => { db with execution_requests := create db.execution_requests },
    fun db => { db with execution_results := create db.execution_results },
    fun db => { db with workers := create db.workers }]

/-- The statements are made until one is refused; those made before are not undone. -/
def migrate : List (DB → DB) → List (Option String) → DB → DB × Except String Unit
  | [], _, db => (db, .ok ())
  | _ :: _, some text :: _, db => (db, .error ("migration failed: " ++ text))
  | m :: ms, refusals, db => migrate ms refusals.tail (m db)

/-- `RunMigrations`. -/
def DB.RunMigrations (db : DB) (refusals : List (Option String)) : DB × Except String Unit :=
  if db.conn then migrate migrations refusals db else (db, .error notConnected)

section
variable (column : Time → Time) (scaled : Scaling)

/-- What `Scan` makes of a row, with `time.ParseDuration`; where it fails the duration is zero. -/
def resultOfRow (row : ResultRow) : ExecutionResult where
  ID := row.id
  Stdout := row.stdout
  Stderr := row.stderr
  ExitCode := row.exit_code
  Duration := (ParseDuration scaled row.duration).getD 0
  Error := row.error
  Status := row.status
  CreatedAt := column row.created_at
  UpdatedAt := column row.updated_at

/-- `GetResult`. -/
def DB.GetResult (db : DB) (id : String) (refusal : Option String) :
    Except String ExecutionResult :=
  if db.conn then
    match statement "execution_results" db.execution_results refusal with
    | .error err => .error ("failed to get result: " ++ err)
    | .ok rows =>
      match rows.Load id with
      | none => .error "result not found"
      | some row => .ok (resultOfRow column scaled row)
  else .error notConnected

end

/-! ### Runs -/

/-- What succeeds is seen. -/
inductive Event where
  | savedResult (result : ExecutionResult)
  | savedRequest (req : ExecutionRequest)
  | upserted (w : WorkerStatus)
  | migrated

inductive Label where
  | runMigrations (refusals : List (Option String))
  | saveResult (result : ExecutionResult) (refusal : Option String)
  | saveRequest (req : ExecutionRequest) (refusal : Option String)
  | upsertWorker (w : WorkerStatus) (refusal : Option String)

/-- What an operation leaves behind; where it fails, all is as before. -/
def outcome (db : DB) (e : Event) : Except String DB → DB × List Event
  | .ok db' => (db', [e])
  | .error _ => (db, [])

/-- **The database**, used by any number of goroutines: each statement is atomic. -/
def database : Automaton DB Label Event where
  step db
    | .runMigrations refusals =>
      some ((db.RunMigrations refusals).1,
        match (db.RunMigrations refusals).2 with
        | .ok _ => [.migrated]
        | .error _ => [])
    | .saveResult result refusal =>
      some (outcome db (.savedResult result) (db.SaveResult result refusal))
    | .saveRequest req refusal =>
      some (outcome db (.savedRequest req) (db.SaveRequest req refusal))
    | .upsertWorker w refusal => some (outcome db (.upserted w) (db.UpsertWorker w refusal))

/-! ### What the tables hold -/

def savedUnder (id : String) : Event → Option ExecutionResult
  | .savedResult r => if r.ID = id then some r else none
  | _ => none

def requestUnder (id : String) : Event → Option ExecutionRequest
  | .savedRequest req => if req.ID = id then some req else none
  | _ => none

def upsertedUnder (id : String) : Event → Option WorkerStatus
  | .upserted w => if w.ID = id then some w else none
  | _ => none

/-- The results saved under `id`, oldest first. -/
def savedFor (id : String) (es : List Event) : List ExecutionResult := es.filterMap (savedUnder id)

/-- The last of the results, with the `CreatedAt` of the first. -/
def merged (rs : List ExecutionResult) : Option ExecutionResult :=
  rs.getLast?.map fun last => { last with
    CreatedAt := (rs.head?.map (·.CreatedAt)).getD last.CreatedAt }

/-- An event of another kind leaves what is told of this kind. -/
theorem filterMap_other {α : Type} {f : Event → Option α} {e : Event} (h : f e = none)
    (es : List Event) : (es ++ [e]).filterMap f = es.filterMap f := by
  rw [List.filterMap_append, List.filterMap_cons_none h, List.filterMap_nil, List.append_nil]

theorem filterMap_own {α : Type} {f : Event → Option α} {e : Event} {x : α} (h : f e = some x)
    (es : List Event) : (es ++ [e]).filterMap f = es.filterMap f ++ [x] := by
  rw [List.filterMap_append, List.filterMap_cons_some h, List.filterMap_nil]

theorem eq_savedResult {id : String} {e : Event} {r : ExecutionResult}
    (h : savedUnder id e = some r) : e = .savedResult r := by
  cases e with
  | savedResult r' =>
    obtain ⟨-, heq⟩ := Option.ite_none_right_eq_some.mp h
    rw [Option.some.inj heq]
  | savedRequest req => cases h
  | upserted w => cases h
  | migrated => cases h

theorem merged_concat (rs : List ExecutionResult) (r : ExecutionResult) :
    merged (rs ++ [r]) =
      some { r with CreatedAt := ((merged rs).map (·.CreatedAt)).getD r.CreatedAt } := by
  unfold merged
  rw [List.getLast?_concat]
  cases rs with
  | nil => rfl
  | cons a rs => simp [List.getLast?_cons]

/-- **A table holds, for each id, the row that `spec` says**; where the table is missing, `spec` says
none. -/
def Holds {α : Type} (table : Option (Map α)) (spec : String → Option α) : Prop :=
  ∀ id, (table.getD ∅).Load id = spec id

section
variable {α : Type} {table : Option (Map α)} {spec spec' : String → Option α}

theorem Holds.create (h : Holds table spec) : Holds (create table) spec := h

theorem Holds.other (h : Holds table spec) (hspec : ∀ id, spec' id = spec id) :
    Holds table spec' := fun id => (h id).trans (hspec id).symm

theorem Holds.store {rows : Map α} (h : Holds (some rows) spec) {key : String} {row : α}
    (hspec : ∀ id, spec' id = if id = key then some row else spec id) :
    Holds (some (rows.Store key row)) spec' := by
  intro id
  rw [hspec, ← h id]
  exact Map.Load_Store rows key id row

end

/-- **What the tables hold** after the history `es`: the last result under each id, with the
creation time of the first; the one request; the last status of each worker. -/
structure Tables (es : List Event) (db : DB) : Prop where
  conn : db.conn = true
  results : Holds db.execution_results fun id => (merged (savedFor id es)).map rowOf
  requests : Holds db.execution_requests fun id =>
    ((es.filterMap (requestUnder id)).head?).map requestRow
  /-- No request is overwritten. -/
  once : ∀ id, (es.filterMap (requestUnder id)).length ≤ 1
  workers : Holds db.workers fun id => (es.filterMap (upsertedUnder id)).getLast?

section
variable {es : List Event} {db db' : DB}

theorem Tables.new : Tables [] New where
  conn := rfl
  results _ := rfl
  requests _ := rfl
  once _ := Nat.zero_le 1
  workers _ := rfl

theorem Tables.migrate (h : Tables es db) (refusals : List (Option String)) :
    Tables es (db.RunMigrations refusals).1 := by
  have hall : ∀ ms : List (DB → DB), (∀ m ∈ ms, ∀ db, Tables es db → Tables es (m db)) →
      ∀ refusals db, Tables es db → Tables es (Database.migrate ms refusals db).1 := by
    intro ms hms
    induction ms with
    | nil => exact fun _ _ h => h
    | cons m ms ih =>
      intro refusals db h
      obtain ⟨hm, hms⟩ := List.forall_mem_cons.mp hms
      cases refusals with
      | nil => exact ih hms [] (m db) (hm db h)
      | cons r rs =>
        cases r with
        | none => exact ih hms rs (m db) (hm db h)
        | some text => exact h
  unfold DB.RunMigrations
  rw [if_pos h.conn]
  refine hall migrations (fun m hm db h => ?_) refusals db h
  rcases List.mem_cons.mp hm with rfl | hm
  · exact ⟨h.conn, h.results, h.requests.create, h.once, h.workers⟩
  rcases List.mem_cons.mp hm with rfl | hm
  · exact ⟨h.conn, h.results.create, h.requests, h.once, h.workers⟩
  rcases List.mem_singleton.mp hm with rfl
  exact ⟨h.conn, h.results, h.requests, h.once, h.workers.create⟩

/-- A statement that succeeds has found its table. -/
theorem statement_ok {α : Type} {name : String} {table : Option (Map α)} {refusal : Option String}
    {rows : Map α} (h : statement name table refusal = .ok rows) : table = some rows := by
  unfold statement at h
  split at h
  · cases h
  · cases h
  · cases h; rfl

theorem bind_ok {α β : Type} {x : Except String α} {f : α → Except String β} {b : β}
    (h : x.bind f = .ok b) : ∃ a, x = .ok a ∧ f a = .ok b := by
  cases x with
  | error err => cases h
  | ok a => exact ⟨a, rfl, h⟩

theorem Tables.saveResult (h : Tables es db) {result : ExecutionResult} {refusal : Option String}
    (hs : db.SaveResult result refusal = .ok db') : Tables (es ++ [.savedResult result]) db' := by
  unfold DB.SaveResult at hs
  rw [if_pos h.conn] at hs
  split at hs
  · cases hs
  · next rows hrows =>
    cases hs
    have hres := h.results
    rw [statement_ok hrows] at hres
    have hload : rows.Load result.ID = (merged (savedFor result.ID es)).map rowOf :=
      hres result.ID
    refine ⟨h.conn, hres.store fun id => ?_, h.requests.other fun id => ?_,
      fun id => ?_, h.workers.other fun id => ?_⟩
    · show (merged (savedFor id (es ++ [.savedResult result]))).map rowOf = _
      by_cases hid : id = result.ID
      · subst hid
        rw [if_pos (show result.ID = (rowOf result).id from rfl), savedFor,
          filterMap_own (if_pos rfl), merged_concat]
        show _ = some { rowOf result with
          created_at := ((rows.Load result.ID).map fun row : ResultRow => row.created_at).getD
            result.CreatedAt }
        rw [hload]
        show _ = some { rowOf result with
          created_at := (((merged (savedFor result.ID es)).map rowOf).map
            fun row : ResultRow => row.created_at).getD result.CreatedAt }
        rw [Option.map_map]
        rfl
      · rw [if_neg (show ¬ id = (rowOf result).id from hid), savedFor,
          filterMap_other (if_neg (Ne.symm hid))]
        rfl
    · rw [filterMap_other rfl]
    · rw [filterMap_other rfl]
      exact h.once id
    · rw [filterMap_other rfl]

theorem Tables.saveRequest (h : Tables es db) {req : ExecutionRequest} {refusal : Option String}
    (hs : db.SaveRequest req refusal = .ok db') : Tables (es ++ [.savedRequest req]) db' := by
  unfold DB.SaveRequest at hs
  rw [if_pos h.conn] at hs
  split at hs
  · cases hs
  · next rows' hrows =>
    cases hs
    obtain ⟨rows, hst, hins⟩ := bind_ok hrows
    have hreq := h.requests
    rw [statement_ok hst] at hreq
    unfold insertRequest at hins
    split at hins
    · cases hins
    · next hnone =>
      cases hins
      have hfirst : es.filterMap (requestUnder req.ID) = [] := by
        have hload : rows.Load req.ID = _ := hreq req.ID
        rw [show rows.Load req.ID = none from hnone] at hload
        exact List.head?_eq_none_iff.mp (Option.map_eq_none_iff.mp hload.symm)
      refine ⟨h.conn, h.results.other fun id => ?_, hreq.store fun id => ?_, fun id => ?_,
        h.workers.other fun id => ?_⟩
      · rw [savedFor, filterMap_other rfl]
        rfl
      · by_cases hid : id = req.ID
        · subst hid
          rw [if_pos (show req.ID = (requestRow req).id from rfl), filterMap_own (if_pos rfl),
            hfirst]
          rfl
        · rw [if_neg (show ¬ id = (requestRow req).id from hid),
            filterMap_other (if_neg (Ne.symm hid))]
      · by_cases hid : id = req.ID
        · subst hid
          rw [filterMap_own (if_pos rfl), hfirst]
          exact Nat.le_refl 1
        · rw [filterMap_other (if_neg (Ne.symm hid))]
          exact h.once id
      · rw [filterMap_other rfl]

theorem Tables.upsertWorker (h : Tables es db) {w : WorkerStatus} {refusal : Option String}
    (hs : db.UpsertWorker w refusal = .ok db') : Tables (es ++ [.upserted w]) db' := by
  unfold DB.UpsertWorker at hs
  rw [if_pos h.conn] at hs
  split at hs
  · cases hs
  · next rows hrows =>
    cases hs
    have hw := h.workers
    rw [statement_ok hrows] at hw
    refine ⟨h.conn, h.results.other fun id => ?_, h.requests.other fun id => ?_, fun id => ?_,
      hw.store fun id => ?_⟩
    · rw [savedFor, filterMap_other rfl]
      rfl
    · rw [filterMap_other rfl]
    · rw [filterMap_other rfl]
      exact h.once id
    · by_cases hid : id = w.ID
      · subst hid
        rw [if_pos rfl, filterMap_own (if_pos rfl), List.getLast?_concat]
      · rw [if_neg hid, filterMap_other (if_neg (Ne.symm hid))]

theorem Tables.migrated (h : Tables es db) : Tables (es ++ [.migrated]) db where
  conn := h.conn
  results := h.results.other fun id => by rw [savedFor, filterMap_other rfl]; rfl
  requests := h.requests.other fun id => by rw [filterMap_other rfl]
  once id := by rw [filterMap_other rfl]; exact h.once id
  workers := h.workers.other fun id => by rw [filterMap_other rfl]

/-- Nothing is seen of an operation that fails. -/
theorem tables_outcome (h : Tables es db) {e : Event} {x : Except String DB}
    (hok : ∀ db', x = .ok db' → Tables (es ++ [e]) db') :
    Tables (es ++ (outcome db e x).2) (outcome db e x).1 := by
  cases x with
  | error err => exact (List.append_nil es).symm ▸ h
  | ok db' => exact hok db' rfl

theorem tables (h : Reaches database New es db) : Tables es db := by
  refine h.keeps .new fun es db l db' new _ ht hs => ?_
  cases l with
  | runMigrations refusals =>
    cases hs
    have hmig := ht.migrate refusals
    cases (db.RunMigrations refusals).2 with
    | ok _ => exact hmig.migrated
    | error _ => exact (List.append_nil es).symm ▸ hmig
  | saveResult result refusal =>
    obtain ⟨rfl, rfl⟩ := Prod.mk.inj (Option.some.inj hs)
    exact tables_outcome ht fun db' hdb => ht.saveResult hdb
  | saveRequest req refusal =>
    obtain ⟨rfl, rfl⟩ := Prod.mk.inj (Option.some.inj hs)
    exact tables_outcome ht fun db' hdb => ht.saveRequest hdb
  | upsertWorker w refusal =>
    obtain ⟨rfl, rfl⟩ := Prod.mk.inj (Option.some.inj hs)
    exact tables_outcome ht fun db' hdb => ht.upsertWorker hdb

/-! ### What is read back -/

section
variable {column : Time → Time} {scaled : Scaling}

/-- A result as the columns give it back. -/
def through (column : Time → Time) (r : ExecutionResult) : ExecutionResult :=
  { r with CreatedAt := column r.CreatedAt, UpdatedAt := column r.UpdatedAt }

/-- A `time.Duration` has 64 bits. -/
def Fits (r : ExecutionResult) : Prop := -2 ^ 63 ≤ r.Duration ∧ r.Duration < 2 ^ 63

theorem resultOfRow_rowOf (hscaled : Exact scaled) {r : ExecutionResult} (hr : Fits r) :
    resultOfRow column scaled (rowOf r) = through column r := by
  unfold resultOfRow
  rw [show (rowOf r).duration = Duration.String r.Duration from rfl,
    ParseDuration_String hscaled hr.1 hr.2]
  rfl

theorem fits_merged {rs : List ExecutionResult} (hrs : ∀ r ∈ rs, Fits r) {r : ExecutionResult}
    (hr : merged rs = some r) : Fits r := by
  obtain ⟨last, hlast, rfl⟩ := Option.map_eq_some_iff.mp hr
  exact hrs last (List.mem_of_getLast? hlast)

/-- What `GetResult` finds in a table of what has been saved. -/
theorem Tables.GetResult (ht : Tables es db) {rows : Map ResultRow}
    (htable : db.execution_results = some rows) (hscaled : Exact scaled)
    (hfits : ∀ r, .savedResult r ∈ es → Fits r) (id : String) :
    db.GetResult column scaled id none =
      match merged (savedFor id es) with
      | some r => .ok (through column r)
      | none => .error "result not found" := by
  have hload := ht.results id
  rw [htable] at hload
  have hrow : rows.Load id = (merged (savedFor id es)).map rowOf := hload
  unfold DB.GetResult
  rw [if_pos ht.conn, htable]
  show (match rows.Load id with
    | none => _
    | some row => _) = _
  rw [hrow]
  cases hm : merged (savedFor id es) with
  | none => rfl
  | some r =>
    refine congrArg Except.ok (resultOfRow_rowOf hscaled (fits_merged (fun r hr => ?_) hm))
    obtain ⟨e, he, hunder⟩ := List.mem_filterMap.mp hr
    exact hfits r (eq_savedResult hunder ▸ he)

/-- **What `GetResult` finds**, after every run of the database: the last result that was saved under
the id, with the creation time of the first; that the result is not there; or that its table is
not. -/
theorem get_after_saves (hscaled : Exact scaled) (h : Reaches database New es db)
    (hfits : ∀ r, .savedResult r ∈ es → Fits r) (id : String) :
    db.GetResult column scaled id none =
      if db.execution_results.isSome then
        match merged (savedFor id es) with
        | some r => .ok (through column r)
        | none => .error "result not found"
      else .error ("failed to get result: " ++ missing "execution_results") := by
  have ht := tables h
  cases htable : db.execution_results with
  | none =>
    unfold DB.GetResult
    rw [if_pos ht.conn, htable]
    rfl
  | some rows =>
    rw [ht.GetResult htable hscaled hfits]
    rfl

/-- `float64` arithmetic as it is where it is exact. -/
def exactly (f unit scale : ℕ) : ℕ := f * (unit / scale)

theorem exact_exactly : Exact exactly := fun _ _ _ _ _ _ => rfl

/-- A `TIMESTAMP` column rounds to microseconds. -/
def microseconds (t : Time) : Time := (t + 500) / 1000 * 1000

/-- A result that is saved twice under one id, in January 2026. -/
def first : ExecutionResult :=
  ⟨"a", "1", "", 0, 1500000, "", "completed", 1767225600123456789, 1767225600125000000⟩

def second : ExecutionResult :=
  ⟨"a", "2", "", 1, 3723004005006, "", "failed", 1767229200000000001, 1767232923004006007⟩

def twice : List Label := [.runMigrations [], .saveResult first none, .saveResult second none]

/-- The duration of the second, and what is written of it. -/
example : Duration.String second.Duration = "1h2m3.004005006s" := by decide +kernel

theorem get_after_saves_twice :
    (database.run New twice).map (fun x => x.1.GetResult microseconds exactly "a" none) =
      some (.ok ⟨"a", "2", "", 1, 3723004005006, "", "failed", 1767225600123457000,
        1767232923004006000⟩) := by
  obtain ⟨db, hdb, htable⟩ : ∃ db, database.run New twice = some (db, [.migrated,
      .savedResult first, .savedResult second]) ∧ db.execution_results.isSome :=
    ⟨_, rfl, rfl⟩
  rw [hdb]
  show some (db.GetResult microseconds exactly "a" none) = _
  rw [get_after_saves exact_exactly (reaches_of_run hdb) (fun r hr => ?_) "a", if_pos htable]
  · rfl
  · simp only [List.mem_cons, Event.savedResult.injEq, reduceCtorEq, List.not_mem_nil, or_false,
      false_or] at hr
    rcases hr with rfl | rfl <;> exact ⟨by decide, by decide⟩

end

end

end CodeHive.Orchestrator.Database
