import EditBlocks.Text.Blank

/-!
# Edits

One instruction to change a file: put one text in the place of another. The
two texts are kept exactly, line boundaries included, and so is the path,
which nothing is asked of until it is resolved.

An edit whose search text is blank creates its file (`Edit.creates`). That is
the only thing that tells the two kinds of edits apart.
-/

namespace EditBlocks

/-- **A search/replace edit of one file.** -/
structure Edit where
  /-- The file that the edit names. -/
  path : Text
  /-- The text to find. -/
  search : Text
  /-- The text to put in its place. -/
  replacement : Text
deriving DecidableEq

namespace Edit

/-- **An edit creates its file** when there is nothing to search for but
white space. -/
def creates (e : Edit) : Bool := e.search.isBlank

end Edit

end EditBlocks
