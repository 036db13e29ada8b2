import CodeHive.Orchestrator.Database
import CodeHive.Orchestrator.StatusAnswers
import Mathlib.Data.List.Induction

/-! # Restarts of the API server

The orchestrator may be stopped, or die, in any state; the next process begins with empty maps and
a new dispatcher, on the same database. -/

namespace CodeHive.Orchestrator.Restarts

set_option autoImplicit false

open CodeHive.Concurrency.Interleaving CodeHive.Go.Sync CodeHive.Go.Durations
open CodeHive.Orchestrator.Types CodeHive.Orchestrator.Runner CodeHive.Orchestrator.ApiServer
open CodeHive.Orchestrator.Submissions CodeHive.Orchestrator.StatusAnswers
open CodeHive.Orchestrator.Database

/-! ### The rows of the database -/

/-- The processes so far, oldest first, each with the state in which it ended: what they did, and
the rows that are left. -/
inductive Lives : List History → Rows → Prop where
  | none : Lives [] ∅
  | life {hs : List History} {rows rows' : Rows} {n : ℕ} {es : History} {s : Server}
      (hl : Lives hs rows) (h : Reaches server (start n (some rows)) es s)
      (hdb : s.db = some rows') : Lives (hs ++ [es]) rows'

theorem Lives.rows {hs : List History} {rows : Rows} (h : Lives hs rows) :
    rows = (hs.flatten.filterMap savedOf).foldl Rows.SaveResult ∅ := by
  induction h with
  | none => rfl
  | @life hs rows rows' n es s hl hr hdb ih =>
    have hafter := (asked hr).rows
    rw [hdb, Option.map_some, Option.some.injEq] at hafter
    rw [hafter, rowsAfter, ih, ← List.foldl_append, ← List.filterMap_append, List.flatten_append,
      List.flatten_singleton]

/-- A submission is executed, and its result stored and saved. -/
def before : List ApiServer.Label :=
  submission 0 "a" ++ (execution 0 "1").map .runner ++ collection 0 ++ [.collector 0 false]

/-- The process that comes after is asked for it. -/
def after : List ApiServer.Label := [.status "GET" "a", .query 0 false]

end CodeHive.Orchestrator.Restarts
