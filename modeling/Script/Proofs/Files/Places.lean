import Mathlib.Data.List.Dedup
import Mathlib.Data.List.Infix
import Mathlib.Data.List.Perm.Subperm
import Script.Proofs.Files.Components

/-!
# The places in a file tree

A file tree has finitely many real places: those it lists, the directory that relative paths start
from, and the directories on the way to them. What a path leads to, through links or not, is at one of
them, and can be read only if a file lies there.
-/

namespace Script.FileTree

variable {tree : FileTree} {location : Location} {path : String}

/-- The places that a tree lists, and the directory that relative paths start from. -/
def listed (tree : FileTree) : List Location := tree.current :: tree.nodes.map Prod.fst

/-- All locations where something lies, links aside. -/
def places (tree : FileTree) : List Location := (tree.listed.flatMap List.inits).dedup

/-- Whether a file lies at a location, and no directory. -/
def isFile (tree : FileTree) (location : Location) : Bool :=
  match tree.entry? location with
  | some (.file _) => true
  | _ => false

/-- All files. A link to a file is not another one. -/
def files (tree : FileTree) : List Location := tree.places.filter tree.isFile

theorem mem_places : location ∈ tree.places ↔ ∃ place ∈ tree.listed, location <+: place := by
  rw [places, List.mem_dedup, List.mem_flatMap]
  simp only [List.mem_inits]

/-- Something lies at the places and nowhere else. -/
theorem isSome_entry?_iff : (tree.entry? location).isSome ↔ location ∈ tree.places := by
  rw [mem_places]
  unfold entry? listed
  cases hlookup : tree.nodes.lookup location with
  | some node =>
    have hsome : (tree.nodes.lookup location).isSome := by rw [hlookup]; rfl
    obtain ⟨entry, hmem, heq⟩ := List.lookup_isSome_iff.1 hsome
    have hplace : location ∈ tree.nodes.map Prod.fst :=
      List.mem_map.2 ⟨entry, hmem, (eq_of_beq heq).symm⟩
    exact iff_of_true rfl ⟨location, List.mem_cons_of_mem _ hplace, List.prefix_rfl⟩
  | none => simp

theorem canonicalize_eq_ok_iff : tree.canonicalize path = .ok location ↔
    ∃ place, tree.locate path = .ok place ∧ (tree.node? place).isSome ∧ tree.real place = location := by
  unfold canonicalize
  cases tree.locate path with
  | error e => exact iff_of_false nofun fun ⟨_, hlocate, _⟩ => nomatch hlocate
  | ok place =>
    cases hnode : tree.node? place <;>
      simp [hnode, Bind.bind, Except.bind, pure, Except.pure, throw, throwThe, MonadExceptOf.throw]

/-- What a path leads to is at a place of the tree. -/
theorem mem_places_of_canonicalize (h : tree.canonicalize path = .ok location) :
    location ∈ tree.places := by
  obtain ⟨place, -, hnode, rfl⟩ := canonicalize_eq_ok_iff.1 h
  exact isSome_entry?_iff.1 hnode

/-- What can be read is a file. -/
theorem isFile_of_read {text : String} (h : tree.read path = .ok text)
    (hlocation : tree.canonicalize path = .ok location) : tree.isFile location := by
  obtain ⟨place, bytes, hlocate, hnode, -⟩ := locate_of_read h
  obtain ⟨place', hlocate', -, rfl⟩ := canonicalize_eq_ok_iff.1 hlocation
  obtain rfl := Except.ok.inj (hlocate.symm.trans hlocate')
  unfold isFile
  rw [← node?, hnode]

/-- Different files are not more than there are. -/
theorem length_le_files {locations : List Location} (hn : locations.Nodup)
    (h : ∀ location ∈ locations, tree.isFile location) :
    locations.length ≤ tree.files.length := by
  refine (List.subperm_of_subset hn fun location hmem => ?_).length_le
  refine List.mem_filter.2 ⟨isSome_entry?_iff.1 ?_, h location hmem⟩
  have hfile := h location hmem
  unfold isFile at hfile
  split at hfile
  · next heq => rw [heq]; rfl
  · cases hfile

end Script.FileTree
