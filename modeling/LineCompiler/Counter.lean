/-!
# Counters

A counter gives the numbers 1, 2, 3 and so on.
-/

namespace LineCompiler

/-- A counter that has given `given` numbers. -/
structure Counter where
  given : Nat := 0
  deriving DecidableEq

/-- The next number, and the counter after it. -/
def Counter.next (counter : Counter) : Nat × Counter :=
  (counter.given + 1, ⟨counter.given + 1⟩)

/-- Asks counters for numbers, one after another; an order for a counter that is not there is left
out. -/
def Counter.serve (counters : List Counter) : List Nat → List Nat
  | [] => []
  | position :: orders =>
      match counters[position]? with
      | none => serve counters orders
      | some counter =>
          let (number, after) := counter.next
          number :: serve (counters.set position after) orders

end LineCompiler
