import SystemsLab.Framework.OrderedSelect
import SystemsLab.Framework.Transition
import Mathlib.Data.Prod.Lex

/-!
# Keyset pagination over `activity_events`

The table orders its rows by a `timestamptz`, which counts microseconds. A page reaches the
client through node-postgres, which makes a `Date` of it, and the next cursor is made of what
the client has received.
-/

namespace SystemsLab.Pagination

/-- A JavaScript `Date`: milliseconds since 1970. -/
structure JsDate where
  ms : Int
  deriving DecidableEq, Repr

/-- How node-postgres reads a `timestamptz`, given in microseconds since 1970: the digits after
the milliseconds are lost. -/
def JsDate.ofTimestamptz (us : Int) : JsDate := ⟨us / 1000⟩

/-- How node-postgres writes a `Date` that is a query parameter. -/
def JsDate.toTimestamptz (date : JsDate) : Int := date.ms * 1000

/-- A row of `activity_events`. -/
structure ActivityEvent where
  id : Int
  publicId : String
  actorName : String
  action : String
  targetType : String
  targetId : String
  createdAt : Int
  deriving DecidableEq, Repr

/-- A row as `pool.query` returns it. Its type calls `created_at` a string, but it is a `Date`. -/
structure ActivityEventRow where
  id : Int
  publicId : String
  actorName : String
  action : String
  targetType : String
  targetId : String
  createdAt : JsDate
  deriving DecidableEq, Repr

structure Cursor where
  createdAt : JsDate
  id : Int
  deriving DecidableEq, Repr

/-- The order of `ORDER BY created_at, id`. -/
def ActivityEvent.key (event : ActivityEvent) : Int ×ₗ Int := toLex (event.createdAt,event.id)

def ActivityEvent.row (event : ActivityEvent) : ActivityEventRow where
  id := event.id
  publicId := event.publicId
  actorName := event.actorName
  action := event.action
  targetType := event.targetType
  targetId := event.targetId
  createdAt := .ofTimestamptz event.createdAt

def cursorFromRow (row : ActivityEventRow) : Cursor := ⟨row.createdAt,row.id⟩

/-- The tuple that `WHERE (created_at, id) > ($1, $2)` compares with. -/
def Cursor.key (cursor : Cursor) : Int ×ₗ Int :=
  toLex (cursor.createdAt.toTimestamptz,cursor.id)

/-- The table, with its primary key and the unique index on `public_id`. -/
structure ActivityEvents where
  rows : List ActivityEvent := []
  ids : (rows.map ActivityEvent.id).Nodup := by decide
  publicIds : (rows.map ActivityEvent.publicId).Nodup := by decide

/-- The rows of the page before node-postgres reads them. -/
def ActivityEvents.page (events : ActivityEvents) (cursor : Option Cursor) (limit : Nat) :
    List ActivityEvent :=
  match cursor with
  | none => selectOrdered (fun _ => true) ActivityEvent.key limit events.rows
  | some cursor =>
    selectOrdered (fun event => decide (cursor.key < event.key)) ActivityEvent.key limit events.rows

def runKeysetPage (events : ActivityEvents) (cursor : Option Cursor) (limit : Nat) :
    List ActivityEventRow :=
  (events.page cursor limit).map ActivityEvent.row

def ActivityEvents.insert (events : ActivityEvents) (event : ActivityEvent) :
    Option ActivityEvents :=
  if h : event.id ∉ events.rows.map ActivityEvent.id ∧
      event.publicId ∉ events.rows.map ActivityEvent.publicId then
    some {
      rows := events.rows ++ [event]
      ids := nodup_append_fresh events.ids h.1
      publicIds := nodup_append_fresh events.publicIds h.2 }
  else none

/-- `DELETE FROM activity_events WHERE id = …`. -/
def ActivityEvents.delete (events : ActivityEvents) (id : Int) : ActivityEvents where
  rows := events.rows.filter fun event => event.id ≠ id
  ids := events.ids.sublist (List.filter_sublist.map _)
  publicIds := events.publicIds.sublist (List.filter_sublist.map _)

/-- A client walks through the table page by page until a page comes back empty. `seen` are the
tables that its pages were read from. -/
structure KeysetWorld where
  events : ActivityEvents
  cursor : Option Cursor := none
  delivered : List ActivityEventRow := []
  finished : Bool := false
  seen : List ActivityEvents := []

inductive KeysetEvent
  | insert (event : ActivityEvent)
  | delete (id : Int)
  | fetch

/-- The client fetches a page, and keeps the cursor of its last row. -/
def KeysetWorld.fetch (limit : Nat) (w : KeysetWorld) : KeysetWorld :=
  let page := runKeysetPage w.events w.cursor limit
  { w with
    cursor := (page.getLast?.map cursorFromRow).or w.cursor
    delivered := w.delivered ++ page
    finished := page.isEmpty
    seen := w.seen ++ [w.events] }

def keysetStep (limit : Nat) (w : KeysetWorld) : KeysetEvent → Option KeysetWorld
  | .insert event => (w.events.insert event).map fun events => { w with events }
  | .delete id => some { w with events := w.events.delete id }
  | .fetch => if w.finished then none else some (w.fetch limit)

end SystemsLab.Pagination
