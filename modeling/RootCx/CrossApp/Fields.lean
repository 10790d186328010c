import RootCx.CrossApp.Grants
import RootCx.Lib.JsonValue
import Mathlib

/-! # The fields of an operation

The fields that an operation on another app reads and writes, as they are checked
against its grant, and the projection of its answer.
-/

namespace RootCx.CrossApp

open RootCx.Text

/-! ## The fields of a query -/

def PAGE_OPTION_KEYS : List Text :=
  ["where", "orderBy", "order", "limit", "offset"]

def logicalKeys : List Text := ["$and", "$or", "$not"]

mutual

def collectFilterFields : Json → List Text
  | .obj entries => collectEntryFields entries
  | _ => []

def collectEntryFields : List (Text × Json) → List Text
  | [] => []
  | (key, value) :: rest =>
    (if key.head? ≠ some '$' then [key]
      else if key ∈ logicalKeys then collectItemFields value
      else []) ++ collectEntryFields rest

/-- Under a logical operator, the items of an array or else the value itself. -/
def collectItemFields : Json → List Text
  | .arr items => collectListFields items
  | .obj entries => collectEntryFields entries
  | _ => []

def collectListFields : List Json → List Text
  | [] => []
  | item :: rest => collectFilterFields item ++ collectListFields rest

end

/-- `sort_unstable` and `dedup`. -/
def sortedFields (names : List Text) : List Text := names.dedup.insertionSort (· ≤ ·)

def queryFieldNames (whereClause : Option Json) (orderBy : Option Text) : List Text :=
  sortedFields ((whereClause.map collectFilterFields).getD [] ++ orderBy.toList)

/-! ## The fields of an operation -/

def objectKeys (object : List (Text × Json)) : List Text := object.map (·.1)

def remoteRecords (op : Text) (data : Json) : List Json :=
  if op = "create" ∨ op = "insert" then [data]
  else if op = "update" then (data.get "data").toList
  else if op = "bulk_create" then data.asArray.getD []
  else []

def remoteWrittenFields (op : Text) (data : Json) : List Text :=
  sortedFields (((remoteRecords op data).filterMap Json.asObject).flatMap objectKeys)

def usesQueryOptions (object : List (Text × Json)) : Bool := (objectKeys object).any (· ∈ PAGE_OPTION_KEYS)

def remoteRequestedFields (op : Text) (data : Json) : List Text :=
  match data.asObject with
  | none => []
  | some object =>
    if op = "findOne" ∨ op = "findAll" then objectKeys object
    else if op = "findPage" ∨ usesQueryOptions object then
      queryFieldNames (data.get "where") ((data.get "orderBy").bind Json.asStr)
    else objectKeys object

/-! ## The projection of an answer -/

def projectObject (fieldSnapshot : List Text) (object : List (Text × Json)) : List (Text × Json) :=
  object.filter (·.1 ∈ fieldSnapshot)

def projectRecord (fieldSnapshot : List Text) : Json → Json
  | .obj object => .obj (projectObject fieldSnapshot object)
  | record => record

def projectRecords (fieldSnapshot : List Text) : Json → Json
  | .arr rows => .arr (rows.map (projectRecord fieldSnapshot))
  | row => projectRecord fieldSnapshot row

/-- The rows of a page are under `data`, and the rest of the page stays as it is. -/
def projectQueryResult (fieldSnapshot : List Text) (result : Json) : Json :=
  match result.asObject, result.get "data" with
  | some object, some data => .obj (Json.insert "data" (projectRecords fieldSnapshot data) object)
  | some _, none => projectRecord fieldSnapshot result
  | none, _ => projectRecords fieldSnapshot result

end RootCx.CrossApp
