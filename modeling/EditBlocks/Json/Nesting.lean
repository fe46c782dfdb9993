import EditBlocks.Json.Reader
import EditBlocks.Json.Writer

/-!
# How far JSON can be nested

A value inside a value is read by a call inside a call, and it is written and
shown so as well. There is room for so many calls and no more, and how many
that is depends on what runs the program and on the calls around these. So
what there is no room for is given from outside (`Json.Nesting`), with what
the run is told then.

It need not be the same for all three. A value can be written that there is
no room to read again, from within more calls or because reading takes more
of them for each level; settings that hold such a value are saved without a
word and lost (`Settings.Keeps.saved`). Writing puts out the pieces of a text
as it goes, so of a value that it cannot finish the file holds the beginning.

What is asked is that there is room for texts in one mapping, which are all
the settings that a command line can save, and that the beginning of a text
which is left is not taken for a whole one.
-/

namespace EditBlocks

/-- A mapping of texts. -/
def Value.ofTexts (entries : List (Text × Text)) : Value :=
  .mapping (entries.map fun e => (.text e.1, .text e.2))

namespace Json

/-- **What there is no room for**, each with the message of it. -/
class Nesting where
  /-- To read a text. -/
  reading : Text → Option Text
  /-- To write a value; the first text is what has been written of it then. -/
  writing : Value → Option (Text × Text)
  /-- To show a value. -/
  showing : Value → Option Text
  /-- A mapping of texts can be read again. -/
  reading_ofTexts : ∀ entries, reading (write (.ofTexts entries)) = none
  /-- It can be written. -/
  writing_ofTexts : ∀ entries, writing (.ofTexts entries) = none
  /-- It can be shown. -/
  showing_ofTexts : ∀ entries, showing (.ofTexts entries) = none
  /-- What has been written is the beginning of the whole. -/
  prefix_of_writing : ∀ {v part message}, writing v = some (part, message) → part <+: write v
  /-- It has no value of its own. -/
  read_of_writing : ∀ {v part message}, writing v = some (part, message) →
    ∃ stop, read part = .error stop

end Json

end EditBlocks
