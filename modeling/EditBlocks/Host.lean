import EditBlocks.Disk.Nesting
import EditBlocks.Encoding.Codecs
import EditBlocks.Json.Nesting
import EditBlocks.Log
import EditBlocks.Yaml.Reader

/-!
# What runs the program

The program does some of its work by means that are not its own: it reads its
configuration by a library, it reports by another, it looks up codecs among
those that are there, and it has room for so many calls inside calls. A
`Host` is all of that together. What a run does depends on it in these places
and in no others.

All that is said of runs is said for any host. Where something is asked of it
that a host need not do – that a codec reads what it has written, that a
plain scalar stands for the same behind a key – it stands as a condition in
the statement. One host is there to run the program on and to see the
conditions met (`Host.usual`).

Each part is a class of its own, so that a definition or a lemma names no
more of the host than it needs: what is said of codecs holds whatever the
levels are, and what is said of paths holds whatever reads the configuration.
-/

namespace EditBlocks

/-- **What runs the program**: the codecs beside those that are modelled,
what reads a configuration file, the levels of records, and the room for
calls inside calls. -/
class Host extends Codecs, toDiskNesting : Disk.Nesting, toJsonNesting : Json.Nesting, Levels,
  Yaml.Reader

end EditBlocks
