import Monkey.Run

/-!
# Reports

The texts in which complaints and stops are told to a user.

## Main definitions

* `Report.complaints` — the complaints of a parser, under a picture.
* `Report.stop` — what stopped an evaluation.
-/

namespace Monkey

namespace Report

/-- The picture above a list of complaints, line by line. -/
def picture : List String :=
  [ "            __,__",
    "   .--.  .-\"     \"-.  .--.",
    "  / .. \\/  .-. .-.  \\/ .. \\",
    " | |  '|  /   Y   \\  |'  | |",
    " | \\   \\  \\ 0 | 0 /  /   / |",
    "  \\ '- ,\\.-\"\"\"\"\"\"\"-./, -' /",
    "   ''-' /_   ^ ^   _\\ '-''",
    "       |  \\._   _./  |",
    "       \\   \\ '~' /   /",
    "        '._ '-=-' _.'",
    "           '-----'" ]

/-- Some messages of the parser under the picture, each on a line of its own. -/
def messages (ms : List String) : String :=
  "\n".intercalate
    (picture ++ ["", "Whoops! We ran into some monkey business here!", " parser errors:"] ++
      ms.map ("\t" ++ ·))

/-- The complaints of a parser under the picture. -/
def complaints (cs : List Complaint) : String :=
  messages (cs.map Complaint.message)

/-- The line that tells of a stop. -/
def stop (why : Stop) : String :=
  "Error: " ++ why.message ++ "\n"

end Report

end Monkey
