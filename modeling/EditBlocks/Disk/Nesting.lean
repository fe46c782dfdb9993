import EditBlocks.Disk.Walk

/-!
# How far calls can be nested

Some of what is done on a disk is done by calls inside calls: the target of a
link is read while the link is, and a directory is made after the one above
it, each by a call of its own. A run has a stack for its calls, and the stack
has an end. How many of these calls there is room for depends on what runs
the program and on the calls that are around them, which are not the
program's own; so the numbers are given from outside (`Disk.Nesting`), and
all that is said of runs is said for any numbers.

What is nested further is not done, and the run is told so
(`DiskError.tooDeep`). With links that is the only end which some readings
have: a link above the top of the tree can be met again and again, each time
by another path.

Only the least is asked of the numbers. A path that the system can open is
read without them (`Disk.realPath_of_reach?`), because it follows no more
than `Disk.maxLinks`, and a directory can be made where the one above it is
there.
-/

namespace EditBlocks.Disk

/-- **The numbers of calls that there is room for**, one inside the other. -/
class Nesting where
  /-- How many links can be read, each in the target of the one before it. -/
  links : Nat
  /-- How many directories can be made, each above the one before it. -/
  directories : Nat
  /-- Links that the system follows can be read. -/
  maxLinks_lt_links : maxLinks < links
  /-- One directory can be made. -/
  directories_pos : 0 < directories

end EditBlocks.Disk
