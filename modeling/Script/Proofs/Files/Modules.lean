import Mathlib.Data.List.ModifyLast
import Script.Proofs.Files.Components
import Script.Stmt

/-!
# The files of modules

The file of a module lies below the directory of the file that imports it: the path of that
directory is followed by the segments of the module, and the last of them gets the extension. This
is so for segments that are plain names. A dot in the last one would be taken for an extension and
replaced, a slash at the front would lead away from the directory, and an empty segment would be
lost.
-/

namespace Script.Path

variable {front name path : List Char} {names : List (List Char)}

/-- A path that something can be written behind: it is empty or ends with a slash. -/
def Open (path : List Char) : Prop := path = [] ∨ path.getLast? = some '/'

instance : DecidablePred Open := fun path =>
  inferInstanceAs (Decidable (path = [] ∨ path.getLast? = some '/'))

/-- A path with a slash at the end, but for the empty path. -/
def opened (path : List Char) : List Char := if Open path then path else path ++ ['/']

/-- A name that is written without slashes and dots. -/
structure Plain (name : List Char) : Prop where
  ne_nil : name ≠ []
  slash : '/' ∉ name
  dot : '.' ∉ name

theorem Plain.not_open (h : Plain name) (front : List Char) : ¬Open (front ++ name) := by
  rintro (hnil | hlast)
  · exact h.ne_nil (List.append_eq_nil_iff.1 hnil).2
  · rw [List.getLast?_append_of_ne_nil _ h.ne_nil] at hlast
    exact h.slash (List.mem_of_getLast? hlast)

theorem open_opened (path : List Char) : Open (opened path) := by
  unfold opened
  split
  · assumption
  · exact .inr List.getLast?_concat

/-- Opening a path only adds to it. -/
theorem front_opened (path : List Char) : path <+: opened path := by
  unfold opened
  split
  · exact List.prefix_rfl
  · exact List.prefix_append ..

theorem Open.opened_eq (h : Open path) : opened path = path := if_pos h

theorem join_eq (h : path.head? ≠ some '/') (base : List Char) :
    join base path = opened base ++ path := by
  unfold join
  split
  · exact absurd rfl h
  · by_cases hopen : Open base
    · rw [hopen.opened_eq]
      exact if_pos hopen
    · rw [opened, if_neg hopen, List.append_assoc]
      exact if_neg hopen

theorem components_opened_append (base path : List Char) :
    components (opened base ++ path) = components base ++ components path := by
  unfold opened
  split
  · next hopen =>
    obtain rfl | hlast := hopen
    · rfl
    · obtain ⟨front, rfl⟩ := List.getLast?_eq_some_iff.1 hlast
      rw [List.append_assoc, List.singleton_append, components_append, components_append]
      show _ = components front ++ [] ++ components path
      rw [List.append_nil]
  · rw [List.append_assoc, List.singleton_append, components_append]

/-! ### Extensions -/

theorem splitExtension_of_plain (h : Plain name) : splitExtension name = (name, none) := by
  have hall : name.reverse.takeWhile (· ≠ '.') = name.reverse := by
    refine List.takeWhile_eq_self_iff.2 fun c hmem => decide_eq_true ?_
    rintro rfl
    exact h.dot (List.mem_reverse.1 hmem)
  unfold splitExtension
  rw [hall, List.reverse_reverse]
  exact if_pos (.inl rfl)

theorem Open.drop (h : Open path) (n : Nat) : Open (path.drop n) := by
  by_cases hlength : path.length ≤ n
  · exact .inl (List.drop_eq_nil_of_le hlength)
  · refine h.imp (fun hnil => by rw [hnil, List.drop_nil]) fun hlast => ?_
    rw [List.getLast?_drop, if_neg hlength, hlast]

theorem Open.append (hfront : Open front) (h : Open path) : Open (front ++ path) := by
  obtain rfl | hlast := h
  · rwa [List.append_nil]
  · exact .inr (by rw [List.getLast?_append, hlast, Option.some_or])

theorem Open.splitSlashes_append (h : Open front) (hname : '/' ∉ name) :
    ∃ before, splitSlashes (front ++ name) = before ++ [name] := by
  obtain rfl | hlast := h
  · exact ⟨[], splitSlashes_of_notMem hname⟩
  · obtain ⟨before, rfl⟩ := List.getLast?_eq_some_iff.1 hlast
    refine ⟨splitSlashes before, ?_⟩
    rw [List.append_assoc, List.singleton_append, Path.splitSlashes_append,
      splitSlashes_of_notMem hname]

/-- The head of a path does not reach into a plain name at its end. -/
theorem length_head_le (hopen : Open front) (hname : Plain name) :
    (head (front ++ name)).length ≤ front.length := by
  have hone (path : List Char) : (head path).length ≤ 1 := by
    unfold head
    split <;> decide
  cases front with
  | cons c front => exact (hone _).trans (Nat.le_add_left 1 front.length)
  | nil =>
    obtain ⟨c, cs, rfl⟩ := List.exists_cons_of_ne_nil hname.ne_nil
    have hslash : c ≠ '/' := fun hc => hname.slash (hc ▸ List.mem_cons_self)
    have hdot : c ≠ '.' := fun hc => hname.dot (hc ▸ List.mem_cons_self)
    simp [head, hslash, hdot]

theorem Plain.isName (h : Plain name) : Names name :=
  not_or.2 ⟨h.ne_nil, fun hdot => h.dot (hdot ▸ List.mem_cons_self)⟩

/-- A plain name at the end of a path is its last component. -/
theorem pieces_append (hopen : Open front) (hname : Plain name) : ∃ before,
    pieces (front ++ name) = before ++ [name] ∧
      head (front ++ name) ++ joinSlashes (before ++ [name]) = front ++ name := by
  have hdrop : (front ++ name).drop (head (front ++ name)).length =
      front.drop (head (front ++ name)).length ++ name :=
    List.drop_append_of_le_length (length_head_le hopen hname)
  obtain ⟨before, hsplit⟩ := (hopen.drop (head (front ++ name)).length).splitSlashes_append hname.slash
  refine ⟨before, ?_, ?_⟩
  · rw [pieces, hdrop, hsplit, trimPieces_concat, if_pos hname.isName]
  · rw [← hsplit, joinSlashes_splitSlashes, ← hdrop, head_append_drop]

/-- A path that ends with a plain name gets an extension behind it. -/
theorem withExtension_append (hopen : Open front) (hname : Plain name) (ext : List Char) :
    withExtension ext (front ++ name) = front ++ name ++ '.' :: ext := by
  obtain ⟨before, hpieces, hpath⟩ := pieces_append hopen hname
  have hfile : fileName? (front ++ name) = some name := by
    have hdots : name ≠ ['.', '.'] := fun heq => hname.dot (heq ▸ List.mem_cons_self)
    rw [fileName?, hpieces, List.getLast?_concat]
    simp [hdots]
  unfold withExtension setExtension
  rw [hfile, Option.bind_some, splitExtension_of_plain hname]
  dsimp only
  rw [splitExtension_of_plain hname, hpieces, List.dropLast_concat, hpath]

/-! ### Segments -/

theorem joinSlashes_concat (hne : names ≠ []) (name : List Char) :
    joinSlashes (names ++ [name]) = joinSlashes names ++ '/' :: name := by
  induction names with
  | nil => exact absurd rfl hne
  | cons first names ih =>
    cases names with
    | nil => simp [joinSlashes, List.intercalate_cons_cons]
    | cons next names =>
      have hrest := ih (List.cons_ne_nil _ _)
      unfold joinSlashes at hrest ⊢
      simp only [List.cons_append, List.intercalate_cons_cons] at hrest ⊢
      rw [hrest, List.append_assoc, List.append_assoc, List.append_assoc]

theorem not_open_joinSlashes (hne : names ≠ []) (h : ∀ name ∈ names, Plain name) :
    ¬Open (joinSlashes names) := by
  obtain ⟨front, last, rfl⟩ := (List.eq_nil_or_concat' names).resolve_left hne
  have hlast : Plain last := h last (by simp)
  by_cases hfront : front = []
  · rw [hfront, List.nil_append, joinSlashes, List.intercalate_singleton]
    exact hlast.not_open []
  · rw [joinSlashes_concat hfront, ← List.singleton_append, ← List.append_assoc]
    exact hlast.not_open _

/-- Names behind one another, each after a slash but for the first. -/
theorem joinSlashes_eq_opened (h : ∀ other ∈ names, Plain other) (name : List Char) :
    joinSlashes (names ++ [name]) = opened (joinSlashes names) ++ name := by
  by_cases hne : names = []
  · rw [hne, List.nil_append, joinSlashes, List.intercalate_singleton]
    rfl
  · rw [joinSlashes_concat hne, opened, if_neg (not_open_joinSlashes hne h), List.append_assoc]
    rfl

theorem head?_joinSlashes (h : ∀ name ∈ names, name ≠ [] ∧ '/' ∉ name) :
    (joinSlashes names).head? ≠ some '/' := by
  cases names with
  | nil => exact nofun
  | cons first names =>
    obtain ⟨hne, hslash⟩ := h first List.mem_cons_self
    obtain ⟨behind, heq⟩ := joinSlashes_front (List.prefix_append [first] names)
    rw [joinSlashes, List.intercalate_singleton, List.singleton_append] at heq
    rw [← heq, List.head?_append_of_ne_nil _ hne]
    exact fun hhead => hslash (List.mem_of_head? hhead)

/-- Going along plain names joins them. -/
theorem foldl_join (h : ∀ name ∈ names, Plain name) : names.foldl join [] = joinSlashes names := by
  induction names using List.reverseRecOn with
  | nil => rfl
  | append_singleton names name ih =>
    rw [List.forall_mem_append, List.forall_mem_singleton] at h
    rw [List.foldl_append, ih h.1, List.foldl_cons, List.foldl_nil, joinSlashes_eq_opened h.1]
    exact join_eq (fun hhead => h.2.slash (List.mem_of_head? hhead)) _

/-! ### The file of a module -/

/-- A module path of plain names, one at least. -/
structure IsModule (module : List String) : Prop where
  ne_nil : module ≠ []
  plain : ∀ segment ∈ module, Plain segment.toList

/-- What is written of a module behind the directory of the importing file: its segments, the last
one with the extension. -/
def fileNames (module : List String) : List String := module.modifyLast (· ++ ".vi")

variable {module other : List String}

theorem fileNames_concat (front : List String) (last : String) :
    fileNames (front ++ [last]) = front ++ [last ++ ".vi"] :=
  List.modifyLast_concat _ last front

theorem IsModule.eq_concat (h : IsModule module) : ∃ front last, module = front ++ [last] ∧
    (∀ segment ∈ front, Plain segment.toList) ∧ Plain last.toList := by
  obtain ⟨front, last, rfl⟩ := (List.eq_nil_or_concat' module).resolve_left h.ne_nil
  exact ⟨front, last, rfl, by simpa [or_imp, forall_and] using h.plain⟩

/-- What is written behind the directory are names, and none of them leads up. -/
theorem IsModule.downward (h : IsModule module) :
    ∀ name ∈ fileNames module, '/' ∉ name.toList ∧ Names name.toList ∧ name ≠ ".." := by
  obtain ⟨front, last, rfl, hfront, hlast⟩ := h.eq_concat
  rw [fileNames_concat, List.forall_mem_append, List.forall_mem_singleton]
  -- the extension tells the last name from what leads elsewhere
  have hext : 'v' ∈ (last ++ ".vi").toList := by
    rw [String.toList_append]
    exact List.mem_append_right _ (by decide)
  refine ⟨fun name hmem => ?_, ?_, not_or.2 ⟨?_, ?_⟩, ?_⟩
  · have hname := hfront name hmem
    exact ⟨hname.slash, hname.isName, fun heq => hname.dot (heq ▸ by decide)⟩
  · rw [String.toList_append, List.mem_append, not_or]
    exact ⟨hlast.slash, by decide⟩
  · exact List.ne_nil_of_mem hext
  · exact fun heq => absurd (heq ▸ hext) (by decide)
  · exact fun heq => absurd (heq ▸ hext) (by decide)

theorem IsModule.components_eq (h : IsModule module) :
    components (joinSlashes ((fileNames module).map String.toList)) =
      (fileNames module).map String.toList := by
  rw [components_joinSlashes (List.forall_mem_map.2 fun name hmem => (h.downward name hmem).1)]
  refine List.filter_eq_self.2 (List.forall_mem_map.2 fun name hmem => ?_)
  exact decide_eq_true (h.downward name hmem).2.1

theorem IsModule.steps_eq (h : IsModule module) :
    steps (joinSlashes ((fileNames module).map String.toList)) = fileNames module := by
  have hmap : (fileNames module).map String.toList ≠ [] := by
    obtain ⟨front, last, rfl, -⟩ := h.eq_concat
    simp [fileNames_concat]
  rw [steps, splitSlashes_joinSlashes hmap
    (List.forall_mem_map.2 fun name hmem => (h.downward name hmem).1), List.map_map]
  simp

/-- The path of a module's file: the directory of the importing file, and then the segments of the
module, the last one with the extension. -/
theorem IsModule.ofModule_eq (h : IsModule module) (importer : String) :
    (ofModule importer module).toList = opened (parent importer.toList) ++
      joinSlashes ((fileNames module).map String.toList) := by
  obtain ⟨front, last, rfl, hfront, hlast⟩ := h.eq_concat
  have hnames : ∀ name ∈ front.map String.toList, Plain name := List.forall_mem_map.2 hfront
  have hall : ∀ name ∈ front.map String.toList ++ [last.toList], Plain name :=
    List.forall_mem_append.2 ⟨hnames, List.forall_mem_singleton.2 hlast⟩
  have hrelative : (front ++ [last]).foldl (fun path piece => join path piece.toList) [] =
      joinSlashes (front.map String.toList ++ [last.toList]) := by
    rw [← List.foldl_map, List.map_append, List.map_singleton, foldl_join hall]
  have hhead := head?_joinSlashes fun name hmem => ⟨(hall name hmem).ne_nil, (hall name hmem).slash⟩
  have hopen : Open (opened (parent importer.toList) ++
      opened (joinSlashes (front.map String.toList))) :=
    (open_opened _).append (open_opened _)
  calc (ofModule importer (front ++ [last])).toList
      = withExtension ['v', 'i'] (opened (parent importer.toList) ++
          opened (joinSlashes (front.map String.toList)) ++ last.toList) := by
        rw [ofModule, hrelative, join_eq hhead, joinSlashes_eq_opened hnames, List.append_assoc,
          String.toList_ofList]
    _ = opened (parent importer.toList) ++
          (opened (joinSlashes (front.map String.toList)) ++ (last.toList ++ ".vi".toList)) := by
        rw [withExtension_append hopen hlast, List.append_assoc, List.append_assoc]
        rfl
    _ = opened (parent importer.toList) ++
          joinSlashes ((fileNames (front ++ [last])).map String.toList) := by
        rw [fileNames_concat, List.map_append, List.map_singleton, joinSlashes_eq_opened hnames,
          String.toList_append]

example : ofModule "src/main.vi" ["lib", "math"] = "src/lib/math.vi" := by decide

/-! ### Different modules -/

theorem fileNames_inj (h : IsModule module) (hother : IsModule other)
    (heq : fileNames module = fileNames other) : module = other := by
  obtain ⟨front, last, rfl, -⟩ := h.eq_concat
  obtain ⟨front', last', rfl, -⟩ := hother.eq_concat
  rw [fileNames_concat, fileNames_concat] at heq
  obtain ⟨rfl, hlast⟩ := List.append_inj' heq rfl
  rw [(String.append_left_inj ".vi").1 (List.singleton_inj.1 hlast)]

theorem dotted_inj (h : IsModule module) (hother : IsModule other) :
    dotted module = dotted other ↔ module = other := by
  have hsplit {path : List String} (h : IsModule path) :
      (dotted path).toList.splitOn '.' = path.map String.toList := by
    rw [dotted, String.toList_intercalate]
    refine List.splitOn_intercalate '.' (List.forall_mem_map.2 fun segment hmem => ?_)
      (mt List.map_eq_nil_iff.1 h.ne_nil)
    exact (h.plain segment hmem).dot
  refine ⟨fun heq => ?_, congrArg dotted⟩
  have hmap := hsplit h
  rw [heq, hsplit hother] at hmap
  exact (List.map_injective_iff.2 fun _ _ => String.toList_inj.1) hmap.symm

/-- Beside one file, different modules have different paths. -/
theorem ofModule_inj (h : IsModule module) (hother : IsModule other) (importer : String) :
    ofModule importer module = ofModule importer other ↔ module = other := by
  refine ⟨fun heq => fileNames_inj h hother ?_, congrArg (ofModule importer)⟩
  have htext := congrArg String.toList heq
  rw [h.ofModule_eq, hother.ofModule_eq] at htext
  have hsteps := congrArg steps (List.append_cancel_left htext)
  rwa [h.steps_eq, hother.steps_eq] at hsteps

end Script.Path

namespace Script.FileTree

open Script.Path

variable {tree : FileTree} {start location place : Location} {base path : List Char}
  {importer : String} {module : List String}

/-! ### Where a module lies -/

/-- What is written behind a directory is looked for from there. -/
theorem walk_opened_append (hbase : base ≠ [])
    (h : tree.walk start (steps (opened base ++ path)) = .ok location) :
    ∃ directory, tree.walk start (steps base) = .ok directory ∧
      tree.walk directory (steps path) = .ok location := by
  by_cases hopen : Open base
  · obtain ⟨front, rfl⟩ := List.getLast?_eq_some_iff.1 (hopen.resolve_left hbase)
    rw [hopen.opened_eq, List.append_assoc, List.singleton_append, walk_steps_append] at h
    obtain ⟨directory, hfront, hpath⟩ := h
    exact ⟨directory, walk_steps_append.2 ⟨directory, hfront, walk_nil_of_walk hpath⟩, hpath⟩
  · rw [opened, if_neg hopen, List.append_assoc, List.singleton_append] at h
    exact walk_steps_append.1 h

/-- A module that is found lies below the directory of the importing file. -/
theorem locate_ofModule (hmodule : IsModule module)
    (h : tree.locate (ofModule importer module) = .ok location) :
    ∃ directory, tree.directory importer = .ok directory ∧
      location = directory ++ fileNames module := by
  obtain ⟨-, hnul, hwalk⟩ := locate_eq_ok_iff.1 h
  rw [hmodule.ofModule_eq] at hnul hwalk
  have hdown {directory : Location} (hwalk : tree.walk directory
      (steps (joinSlashes ((fileNames module).map String.toList))) = .ok location) :
      location = directory ++ fileNames module := by
    rw [hmodule.steps_eq] at hwalk
    refine eq_append_of_walk (fun name hmem => ⟨?_, (hmodule.downward name hmem).2.2⟩) hwalk
    simpa using names_iff.1 (hmodule.downward name hmem).2.1
  by_cases hbase : parent importer.toList = []
  · refine ⟨tree.current, if_pos hbase, hdown ?_⟩
    have hhead := head?_joinSlashes (List.forall_mem_map.2 fun name hmem =>
      ⟨(not_or.1 (hmodule.downward name hmem).2.1).1, (hmodule.downward name hmem).1⟩)
    rw [hbase, Open.opened_eq (.inl rfl), List.nil_append, startOf, if_neg hhead] at hwalk
    exact hwalk
  · obtain ⟨directory, hdirectory, hpath⟩ := walk_opened_append hbase hwalk
    refine ⟨directory, ?_, hdown hpath⟩
    have hfront := (front_opened (parent importer.toList)).trans
      (List.prefix_append _ (joinSlashes ((fileNames module).map String.toList)))
    rw [FileTree.directory, if_neg hbase, locate_eq_ok_iff, String.toList_ofList,
      startOf_front hbase hfront]
    exact ⟨mt String.ofList_inj.1 hbase, fun hmem => hnul (hfront.subset hmem), hdirectory⟩

/-- Beside one file, different modules are found at different places. -/
theorem eq_of_locate_ofModule {other : List String} (hmodule : IsModule module)
    (hother : IsModule other) (h : tree.locate (ofModule importer module) = .ok location)
    (h' : tree.locate (ofModule importer other) = .ok location) : module = other := by
  obtain ⟨directory, hdirectory, hlocation⟩ := locate_ofModule hmodule h
  obtain ⟨directory', hdirectory', rfl⟩ := locate_ofModule hother h'
  obtain rfl := Except.ok.inj (hdirectory.symm.trans hdirectory')
  exact (fileNames_inj hother hmodule (List.append_cancel_left hlocation)).symm

end Script.FileTree

namespace Script

open Script.Path

/-- The file of a module lies below the directory of the file that imports it. -/
structure LiesBelow (importer : String) (module : List String) : Prop where
  /-- The directory of the importing file is followed by the segments in order, the last one with
  the extension, and nothing else. -/
  text : (ofModule importer module).toList = opened (parent importer.toList) ++
    joinSlashes ((fileNames module).map String.toList)
  /-- These take the place of the importing file's name. -/
  components (name : List Char) : (pieces importer.toList).getLast? = some name → ∃ outer,
    components importer.toList = outer ++ [name] ∧
      components (ofModule importer module).toList =
        outer ++ (fileNames module).map String.toList
  /-- Where the module is found, it is below the directory where the importing file is. -/
  location (tree : FileTree) (location : Location) :
    tree.locate (ofModule importer module) = .ok location → ∃ directory,
      tree.directory importer = .ok directory ∧ location = directory ++ fileNames module ∧
      ∀ place name, fileName? importer.toList = some name → tree.locate importer = .ok place →
        place = directory ++ [String.ofList name]
  /-- What is read as the module is the text of that file. -/
  read (tree : FileTree) (text : String) :
    tree.read (ofModule importer module) = .ok text → ∃ directory bytes,
      tree.directory importer = .ok directory ∧
        tree.node? (directory ++ fileNames module) = some (.file bytes) ∧
          String.fromUTF8? bytes = some text

theorem Path.IsModule.liesBelow {module : List String} (h : IsModule module) (importer : String) :
    LiesBelow importer module where
  text := h.ofModule_eq importer
  components name hname := by
    refine ⟨_, components_eq_concat hname, ?_⟩
    rw [h.ofModule_eq, components_opened_append, h.components_eq]
  location tree location hlocate := by
    obtain ⟨directory, hdirectory, hlocation⟩ := FileTree.locate_ofModule h hlocate
    exact ⟨directory, hdirectory, hlocation, fun place name hname hplace =>
      FileTree.locate_eq_concat hname hdirectory hplace⟩
  read tree text hread := by
    obtain ⟨location, bytes, hlocate, hnode, htext⟩ := FileTree.locate_of_read hread
    obtain ⟨directory, hdirectory, rfl⟩ := FileTree.locate_ofModule h hlocate
    exact ⟨directory, bytes, hdirectory, hnode, htext⟩

end Script
