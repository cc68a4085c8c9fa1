import CqlDelta.Plan.Context

/-!
# Making a plan

While a plan is made its context is at hand, and is carried on from part to part. A created table
hands its draft over to the context, to be composed from there. Nothing follows a fault, but what
was handed over before it stays.
-/

namespace CqlDelta
namespace Plan

open Cql

/-- A key column without an identifier. -/
structure KeyFault where
  table : String
  column : String
deriving DecidableEq, Repr

/-- Something worth noting. -/
inductive Note where
  | legacyModel (version : String)
  | defaultKeyspace (type keyspace : String)
  | inconvertible (old new : String)
  | creatingTable (table : String)
  | planned (count : Nat)
deriving DecidableEq, Repr

/-- A step on the way to a plan. -/
inductive Event where
  | statement (statement : Statement)
  | handOver (draft : Draft)
  | note (note : Note)

/-- What is at hand while a plan is made. -/
structure Desk where
  context : Context
  notes : List Note := []

/-- Making something out of what is at hand, up to a fault. -/
abbrev Making (α : Type) := ExceptT KeyFault (StateM Desk) α

namespace Making

/-- Hands a draft over to the context. -/
def handOver (draft : Draft) : Making Unit :=
  modify fun desk => { desk with context := { desk.context with draft := draft } }

/-- Notes something. -/
def note (note : Note) : Making Unit :=
  modify fun desk => { desk with notes := desk.notes ++ [note] }

/-- The statements of a step. -/
def perform : Event → Making (List Statement)
  | .statement statement => return [statement]
  | .handOver draft => do
      handOver draft
      return []
  | .note fact => do
      note fact
      return []

/-- The statements of several parts, made one after another. -/
def inTurn : List (Making (List Statement)) → Making (List Statement)
  | [] => return []
  | part :: more => do
      let statements ← part
      let others ← inTurn more
      return statements ++ others

end Making
end Plan
end CqlDelta
