import PackedTuple.Customers

/-! # Command line

Prints the worked example.
-/

open PackedTuple

def main : IO UInt32 :=
  match Customers.lines with
  | .ok lines => do
      lines.forM IO.println
      pure 0
  | .error message => do
      IO.eprintln message
      pure 1
