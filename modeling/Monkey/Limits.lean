/-!
# Limits

Every recursion on a program or a value is bounded by a depth that is passed to it.
This is the depth that the command line and the sessions pass.
-/

namespace Monkey

/-- How deeply expressions, calls and values may nest. -/
def usualDepth : Nat := 600

end Monkey
