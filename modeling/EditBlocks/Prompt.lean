import EditBlocks.Block.Marker

/-!
# The prompt

What teaches the format of edits: the instructions with one example block,
then the files, each in a code fence under its path, then further
instructions if there are any. A blank line stands between the parts.

The markers of the example are the ones that a response is read by
(`Marker.openingFor` and the others), so what is taught is what is
understood. A prompt can be read as a response itself.
-/

namespace EditBlocks.Prompt

/-- The path that the example names. -/
def examplePath : Text := "path/to/file.py"

/-- The example block of the instructions, line by line. -/
def exampleBlock : Text :=
  Marker.openingFor examplePath ++ "\n"
    ++ Marker.searchText ++ "\n"
    ++ "<exact lines currently in the file>\n"
    ++ Marker.dividerText ++ "\n"
    ++ "<lines to put in their place>\n"
    ++ Marker.replaceText ++ "\n"
    ++ Marker.closingText ++ "\n\n"

/-- **The instructions for writing edits.** -/
def instructions : Text :=
  "You are using the 'CodeChange' edit format. Wrap every change to a file in a tag naming " ++
  "the file, and inside it write one or more search/replace blocks:\n\n" ++
  exampleBlock ++
  "The search text must match the file exactly, including whitespace and indentation, and " ++
  "only its first occurrence is replaced. Blocks are applied in order, so a later block " ++
  "sees the result of earlier ones. To create a new file, leave the search section empty " ++
  "and put the whole file in the replace section."

/-- A file of the prompt: its path, and its contents in a code fence. -/
def fileSection (path contents : Text) : Text :=
  path ++ "\n" ++ Marker.fence ++ "\n" ++ contents ++ "\n" ++ Marker.fence

/-- **The prompt for a list of files**, with further instructions unless they
are empty. -/
def render (files : List (Text × Text)) (additional : Text) : Text :=
  Text.join "\n\n" (instructions :: files.map (fun (path, contents) => fileSection path contents)
    ++ if additional = [] then [] else [additional])

end EditBlocks.Prompt
