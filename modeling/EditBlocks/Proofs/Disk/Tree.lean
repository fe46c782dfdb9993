import EditBlocks.Disk.Access
import EditBlocks.Disk.RealPath
import EditBlocks.Proofs.OrderedMap
import EditBlocks.Proofs.Path
import Mathlib.Data.List.Induction

/-!
# Disks that are trees

What every disk of a system satisfies, and what a `Disk` as a plain map does
not promise: whatever stands somewhere has a name and stands in a directory,
and the working directory is there (`Disk.IsTree`). So every place above one
where something stands is a directory, and none of them is a link.

It is asked for as a hypothesis, and not put into the type, because a disk is
also what a part of a system's tree is read into, entry by entry. It can be
decided, so that it is seen to hold of the disks in examples.
-/

namespace EditBlocks

/-- Whether a link's target could be a path. -/
def Node.isPlain : Node → Bool
  | .link target => '\x00' ∉ target
  | _ => true

/-- Whether a node is a link. -/
def Node.isLink : Node → Bool
  | .link _ => true
  | _ => false

namespace Disk

/-- **A disk that is a tree.** Every disk of a system is one, and everything
that a run does keeps it one. -/
structure IsTree (d : Disk) : Prop where
  /-- What stands somewhere stands under names. -/
  proper : ∀ e ∈ d.nodes.entries, e.1 ≠ [] ∧ Path.IsProper e.1
  /-- What stands somewhere stands in a directory. -/
  parent : ∀ e ∈ d.nodes.entries, d.node? e.1.dropLast = some .directory
  /-- No link's target holds a null character. -/
  plain : ∀ e ∈ d.nodes.entries, e.2.isPlain = true
  /-- The working directory is there. -/
  working : d.node? d.workingDir = some .directory

instance (d : Disk) : Decidable d.IsTree :=
  decidable_of_iff ((∀ e ∈ d.nodes.entries, e.1 ≠ [] ∧ Path.IsProper e.1)
      ∧ (∀ e ∈ d.nodes.entries, d.node? e.1.dropLast = some .directory)
      ∧ (∀ e ∈ d.nodes.entries, e.2.isPlain = true)
      ∧ d.node? d.workingDir = some .directory)
    ⟨fun h => ⟨h.1, h.2.1, h.2.2.1, h.2.2.2⟩, fun h => ⟨h.1, h.2, h.3, h.4⟩⟩

/-- The root is a directory. -/
@[simp] theorem node?_nil (d : Disk) : d.node? [] = some .directory := rfl

theorem mem_entries_of_node? {d : Disk} {place : Location} {node : Node} (hne : place ≠ [])
    (h : d.node? place = some node) : (place, node) ∈ d.nodes.entries := by
  rw [node?, if_neg hne] at h
  exact OrderedMap.mem_entries_of_get? h

namespace IsTree

variable {d : Disk}

theorem isProper (hd : d.IsTree) {place : Location} {node : Node} (h : d.node? place = some node) :
    Path.IsProper place := by
  by_cases hne : place = []
  · subst hne
    intro name hn
    cases hn
  · exact (hd.proper _ (mem_entries_of_node? hne h)).2

/-- What stands in a place makes that place's parent a directory. -/
theorem directory_of_node? (hd : d.IsTree) {place : Location} {node : Node}
    (h : d.node? place = some node) : d.node? place.dropLast = some .directory := by
  by_cases hne : place = []
  · subst hne
    rfl
  · exact hd.parent _ (mem_entries_of_node? hne h)

/-- **Every place above something is a directory**, by induction on how far
above it is. -/
theorem directory_of_prefix (hd : d.IsTree) {place above : Location} {node : Node}
    (h : d.node? place = some node) (hp : above <+: place) (hne : above ≠ place) :
    d.node? above = some .directory := by
  obtain ⟨rest, rfl⟩ := hp
  induction rest using List.reverseRecOn generalizing node with
  | nil => exact absurd (List.append_nil above).symm hne
  | append_singleton rest name ih =>
    have hparent := hd.directory_of_node? h
    rw [← List.append_assoc, List.dropLast_concat] at hparent
    by_cases hr : rest = []
    · subst hr
      rwa [List.append_nil] at hparent
    · exact ih hparent fun he => hr (by simpa using he)

theorem no_null_of_link (hd : d.IsTree) {place : Location} {target : Text}
    (h : d.node? place = some (.link target)) : '\x00' ∉ target := by
  by_cases hne : place = []
  · subst hne
    cases h
  · simpa [Node.isPlain] using hd.plain _ (mem_entries_of_node? hne h)

end IsTree

end Disk

end EditBlocks
