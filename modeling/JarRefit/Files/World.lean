import JarRefit.Files.Store
import JarRefit.Notice

/-!
# Runs

A run reads and changes a file store and reports what it does. A fault ends it and keeps the
store and the reports.
-/
namespace JarRefit.Files

/-- What a run works on. -/
structure World where
  store : Store
  /-- The reports, the last one first. -/
  reports : List Notice := []

/-- A run that may end with a fault. -/
abbrev Run (ε : Type) := EStateM ε World

namespace Run

variable {ε δ α : Type}

/-- Adds a report. -/
def report (notice : Notice) : Run ε Unit :=
  modify fun w => { w with reports := notice :: w.reports }

/-- Adds reports in order. -/
def reportAll (notices : List Notice) : Run ε Unit :=
  modify fun w => { w with reports := notices.reverse ++ w.reports }

/-- Reads from the store. -/
def read (fault : IoFault → ε) (f : Store → Except IoFault α) : Run ε α := fun w =>
  match f w.store with
  | .ok a => .ok a w
  | .error e => .error (fault e) w

/-- Changes the store and gives a value. -/
def ofStore (fault : IoFault → ε) (f : Store → Except IoFault (α × Store)) : Run ε α := fun w =>
  match f w.store with
  | .ok (a, store) => .ok a { w with store }
  | .error e => .error (fault e) w

/-- Changes the store. -/
def changeStore (fault : IoFault → ε) (f : Store → Except IoFault Store) : Run ε Unit := fun w =>
  match f w.store with
  | .ok store => .ok () { w with store }
  | .error e => .error (fault e) w

/-- Works on the store step by step. -/
def onStore (fault : IoFault → ε) (action : EStateM IoFault Store α) : Run ε α := fun w =>
  match action w.store with
  | .ok a store => .ok a { w with store }
  | .error e store => .error (fault e) { w with store }

/-- The same run with its faults seen as faults of another kind. -/
def mapFault (run : Run ε α) (f : ε → δ) : Run δ α := fun w =>
  match run w with
  | .ok a w => .ok a w
  | .error e w => .error (f e) w

end Run

end JarRefit.Files
