import Mathlib.Data.List.DropRight
import Script.Files.Tree

/-!
# The components of a path

What a path goes through, in order: its pieces between slashes, without those that stand for
nothing. The components of a path are those of the directory that it lies in and its name behind
them. Going on along a path adds its components, and a name that has no extension gets one without
any other change to the path.
-/

namespace Script.Path

variable {path name piece : List Char} {pieces : List (List Char)}

/-! ### Splitting and joining -/

theorem splitSlashes_ne_nil (cs : List Char) : splitSlashes cs ≠ [] := by
  cases cs with
  | nil => exact List.cons_ne_nil _ _
  | cons c cs =>
    rw [splitSlashes]
    split
    · exact List.cons_ne_nil _ _
    · split <;> exact List.cons_ne_nil _ _

theorem splitSlashes_eq_splitOn (cs : List Char) : splitSlashes cs = cs.splitOn '/' := by
  induction cs with
  | nil => rfl
  | cons c cs ih =>
    rw [splitSlashes, List.splitOn_cons_eq_if_modifyHead, ← ih]
    simp only [beq_iff_eq]
    split
    · rfl
    · cases hcs : splitSlashes cs with
      | nil => exact absurd hcs (splitSlashes_ne_nil cs)
      | cons piece pieces => rfl

theorem splitSlashes_append (front rest : List Char) :
    splitSlashes (front ++ '/' :: rest) = splitSlashes front ++ splitSlashes rest := by
  simp only [splitSlashes_eq_splitOn, List.splitOn_append_cons_self]

theorem splitSlashes_of_notMem (h : '/' ∉ name) : splitSlashes name = [name] := by
  rw [splitSlashes_eq_splitOn, List.splitOn_eq_singleton h]

theorem joinSlashes_splitSlashes (cs : List Char) : joinSlashes (splitSlashes cs) = cs := by
  rw [splitSlashes_eq_splitOn, joinSlashes, List.intercalate_splitOn]

theorem splitSlashes_joinSlashes (hne : pieces ≠ []) (h : ∀ piece ∈ pieces, '/' ∉ piece) :
    splitSlashes (joinSlashes pieces) = pieces := by
  rw [splitSlashes_eq_splitOn, joinSlashes, List.splitOn_intercalate '/' h hne]

theorem notMem_of_mem_splitSlashes {cs : List Char} (h : piece ∈ splitSlashes cs) : '/' ∉ piece := by
  induction cs generalizing piece with
  | nil =>
    rw [List.mem_singleton.1 h]
    exact List.not_mem_nil
  | cons c cs ih =>
    rw [splitSlashes] at h
    split at h
    · obtain rfl | h := List.mem_cons.1 h
      · exact List.not_mem_nil
      · exact ih h
    · next hc =>
      split at h
      · next hnil => exact absurd hnil (splitSlashes_ne_nil cs)
      · next first others hcs =>
        obtain rfl | h := List.mem_cons.1 h
        · refine List.not_mem_cons_of_ne_of_not_mem (Ne.symm hc) (ih ?_)
          rw [hcs]
          exact List.mem_cons_self
        · refine ih ?_
          rw [hcs]
          exact List.mem_cons_of_mem first h

/-- The names of the places that a path comes by. -/
def steps (path : List Char) : List String := (splitSlashes path).map String.ofList

theorem steps_append (front rest : List Char) :
    steps (front ++ '/' :: rest) = steps front ++ steps rest := by
  rw [steps, splitSlashes_append, List.map_append, steps, steps]

/-! ### Components -/

/-- Whether a piece of a path names something. -/
def Names (piece : List Char) : Prop := ¬(piece = [] ∨ piece = ['.'])

instance : DecidablePred Names := fun piece => inferInstanceAs (Decidable (¬(piece = [] ∨ piece = ['.'])))

/-- What a path goes through. -/
def components (path : List Char) : List (List Char) := (splitSlashes path).filter (Names ·)

theorem components_append (front rest : List Char) :
    components (front ++ '/' :: rest) = components front ++ components rest := by
  rw [components, splitSlashes_append, List.filter_append, components, components]

theorem components_slash (rest : List Char) : components ('/' :: rest) = components rest :=
  components_append [] rest

theorem components_joinSlashes (h : ∀ piece ∈ pieces, '/' ∉ piece) :
    components (joinSlashes pieces) = pieces.filter (Names ·) := by
  cases pieces with
  | nil => rfl
  | cons first others => rw [components, splitSlashes_joinSlashes (List.cons_ne_nil _ _) h]

/-! ### The parts of a path -/

theorem head_append_drop (path : List Char) : head path ++ path.drop (head path).length = path := by
  unfold head
  split <;> rfl

theorem joinSlashes_front {more : List (List Char)} (h : pieces <+: more) :
    joinSlashes pieces <+: joinSlashes more := by
  induction pieces generalizing more with
  | nil => exact List.nil_prefix
  | cons piece pieces ih =>
    obtain ⟨others, rfl, hothers⟩ := List.cons_prefix_iff.1 h
    cases pieces with
    | nil =>
      cases others with
      | nil => exact List.prefix_rfl
      | cons other others =>
        simp only [joinSlashes, List.intercalate_singleton, List.intercalate_cons_cons,
          List.append_assoc]
        exact List.prefix_append ..
    | cons next pieces =>
      obtain ⟨others', rfl, -⟩ := List.cons_prefix_iff.1 hothers
      simp only [joinSlashes, List.intercalate_cons_cons, List.append_assoc]
      exact (List.prefix_append_right_inj piece).2
        ((List.prefix_append_right_inj ['/']).2 (ih hothers))

/-- The head of a path stands for nothing. -/
theorem components_head_append (h : pieces <+: splitSlashes (path.drop (head path).length)) :
    components (head path ++ joinSlashes pieces) = pieces.filter (Names ·) := by
  have hslash : ∀ piece ∈ pieces, '/' ∉ piece :=
    fun piece hmem => notMem_of_mem_splitSlashes (h.subset hmem)
  unfold head at h ⊢
  split at h
  · rw [List.singleton_append, components_slash, components_joinSlashes hslash]
  · cases pieces with
    | nil => rfl
    | cons piece pieces =>
      obtain ⟨rfl, hnil⟩ := List.cons_prefix_cons.1 h
      rw [List.prefix_nil.1 hnil]
      rfl
  · -- what comes behind the dot begins with a slash, so the first of its pieces is empty
    cases pieces with
    | nil => rfl
    | cons piece pieces =>
      obtain ⟨rfl, -⟩ := List.cons_prefix_cons.1 h
      cases pieces with
      | nil => rfl
      | cons next pieces =>
        have hjoin : ['.'] ++ joinSlashes ([] :: next :: pieces) =
            ['.'] ++ '/' :: joinSlashes (next :: pieces) := rfl
        rw [hjoin, components_append,
          components_joinSlashes fun piece hmem => hslash piece (List.mem_cons_of_mem [] hmem)]
        rfl
  · exact components_joinSlashes hslash

theorem trimPieces_concat (pieces : List (List Char)) (piece : List Char) :
    trimPieces (pieces ++ [piece]) = if Names piece then pieces ++ [piece] else trimPieces pieces := by
  split
  · next hnames =>
    exact List.rdropWhile_concat_neg _ pieces piece fun h => hnames (of_decide_eq_true h)
  · next hnot =>
    exact List.rdropWhile_concat_pos _ pieces piece (decide_eq_true (Decidable.not_not.1 hnot))

theorem trimPieces_front (pieces : List (List Char)) : trimPieces pieces <+: pieces :=
  List.rdropWhile_prefix _ pieces

theorem filter_trimPieces (pieces : List (List Char)) :
    (trimPieces pieces).filter (Names ·) = pieces.filter (Names ·) := by
  induction pieces using List.reverseRecOn with
  | nil => rfl
  | append_singleton pieces piece ih =>
    rw [trimPieces_concat]
    split
    · rfl
    · next hnot => rw [ih, List.filter_append, List.filter_singleton, decide_eq_false hnot]; simp

theorem names_of_trimPieces {pieces : List (List Char)}
    (h : (trimPieces pieces).getLast? = some name) : Names name := by
  induction pieces using List.reverseRecOn with
  | nil => cases h
  | append_singleton pieces piece ih =>
    rw [trimPieces_concat] at h
    split at h
    · next hpiece =>
      rw [List.getLast?_concat, Option.some.injEq] at h
      exact h ▸ hpiece
    · exact ih h

theorem components_eq_filter_pieces (path : List Char) :
    components path = (Path.pieces path).filter (Names ·) := by
  have hall : components (head path ++ joinSlashes _) = _ := components_head_append List.prefix_rfl
  rw [joinSlashes_splitSlashes, head_append_drop] at hall
  rw [hall, Path.pieces, filter_trimPieces]

theorem trimmed_front {front : List (List Char)} (h : Path.pieces path = front ++ [name]) :
    trimPieces front <+: splitSlashes (path.drop (head path).length) := by
  have hpieces : Path.pieces path <+: splitSlashes (path.drop (head path).length) :=
    trimPieces_front _
  rw [h] at hpieces
  exact (trimPieces_front front).trans ((List.prefix_append front [name]).trans hpieces)

/-- What is left of a path without its last component. -/
theorem parent_eq {front : List (List Char)} (h : Path.pieces path = front ++ [name]) :
    parent path = head path ++ joinSlashes (trimPieces front) := by
  unfold parent
  rw [h]
  split
  · next hnil => simp at hnil
  · next hcons => rw [← hcons, List.dropLast_concat]

/-- The directory of a path is written at its front. -/
theorem parent_front (path : List Char) : parent path <+: path := by
  cases hpieces : Path.pieces path using List.reverseRecOn with
  | nil =>
    unfold parent
    rw [hpieces]
    exact List.nil_prefix
  | append_singleton front name =>
    have hjoin := joinSlashes_front (trimmed_front hpieces)
    rw [joinSlashes_splitSlashes] at hjoin
    rw [parent_eq hpieces]
    calc head path ++ joinSlashes (trimPieces front)
        <+: head path ++ path.drop (head path).length := (List.prefix_append_right_inj _).2 hjoin
      _ = path := head_append_drop path

/-- The directory of an absolute path is written as one. -/
theorem head?_ne_of_parent_eq_nil (hname : (Path.pieces path).getLast? = some name)
    (h : parent path = []) : path.head? ≠ some '/' := by
  obtain ⟨front, hpieces⟩ := List.getLast?_eq_some_iff.1 hname
  rw [parent_eq hpieces, List.append_eq_nil_iff] at h
  intro hhead
  obtain ⟨rest, rfl⟩ := List.head?_eq_some_iff.1 hhead
  cases h.1

/-- A path goes through its directory to its last component. -/
theorem components_eq_concat (h : (Path.pieces path).getLast? = some name) :
    components path = components (parent path) ++ [name] := by
  obtain ⟨front, hpieces⟩ := List.getLast?_eq_some_iff.1 h
  have hname : Names name := names_of_trimPieces h
  rw [components_eq_filter_pieces, hpieces, parent_eq hpieces,
    components_head_append (trimmed_front hpieces), filter_trimPieces, List.filter_append,
    List.filter_singleton, decide_eq_true hname]
  rfl

end Script.Path

namespace Script.FileTree

open Script.Path

variable {tree : FileTree} {start location : Location} {path : List Char}

/-! ### Walks along components -/

/-- A walk along two paths goes through where the first one leads. -/
theorem walk_append {front rest : List String} : tree.walk start (front ++ rest) = .ok location ↔
    ∃ middle, tree.walk start front = .ok middle ∧ tree.walk middle rest = .ok location := by
  induction front generalizing start with
  | nil => simp [walk]
  | cons piece front ih =>
    rw [List.cons_append, walk, walk]
    split
    · simp
    · simp
    · split
      · exact ih
      · split
        · exact ih
        · split
          · simp
          · split
            · exact ih
            · simp

theorem walk_steps_append {front rest : List Char} :
    tree.walk start (steps (front ++ '/' :: rest)) = .ok location ↔
      ∃ middle, tree.walk start (steps front) = .ok middle ∧
        tree.walk middle (steps rest) = .ok location := by
  rw [steps_append, walk_append]

/-- A walk goes on only from a directory. -/
theorem node?_of_walk_cons {piece : String} {pieces : List String}
    (h : tree.walk start (piece :: pieces) = .ok location) : tree.node? start = some .directory := by
  rw [walk] at h
  split at h
  · cases h
  · cases h
  · assumption

/-- Where a walk goes on, nothing leads nowhere. -/
theorem walk_nil_of_walk {rest : List Char} (h : tree.walk start (steps rest) = .ok location) :
    tree.walk start (steps []) = .ok start := by
  obtain ⟨piece, pieces, hrest⟩ := List.exists_cons_of_ne_nil (splitSlashes_ne_nil rest)
  rw [steps, hrest, List.map_cons] at h
  show tree.walk start [""] = .ok start
  rw [walk, node?_of_walk_cons h]
  rfl

theorem names_iff {piece : List Char} :
    Names piece ↔ ¬(String.ofList piece = "" ∨ String.ofList piece = ".") := by
  show ¬(piece = [] ∨ piece = ['.']) ↔
    ¬(String.ofList piece = String.ofList [] ∨ String.ofList piece = String.ofList ['.'])
  rw [String.ofList_inj, String.ofList_inj]

/-- What stands for nothing can be left out of a walk that arrives. -/
theorem walk_filter {pieces : List (List Char)}
    (h : tree.walk start (pieces.map String.ofList) = .ok location) :
    tree.walk start ((pieces.filter (Names ·)).map String.ofList) = .ok location := by
  induction pieces generalizing start with
  | nil => exact h
  | cons piece pieces ih =>
    have hnode := node?_of_walk_cons h
    rw [List.map_cons, walk, hnode] at h
    dsimp only at h
    by_cases hpiece : Names piece
    · have hfilter : (piece :: pieces).filter (Names ·) = piece :: pieces.filter (Names ·) :=
        List.filter_cons_of_pos (decide_eq_true hpiece)
      rw [hfilter, List.map_cons, walk, hnode]
      rw [if_neg (names_iff.1 hpiece)] at h
      dsimp only
      rw [if_neg (names_iff.1 hpiece)]
      split at h
      · next hup => rw [if_pos hup, ih h]
      · next hup =>
        rw [if_neg hup]
        split at h
        · cases h
        · next hlength =>
          rw [if_neg hlength]
          split at h
          · next hnext => rw [if_pos hnext, ih h]
          · cases h
    · have hfilter : (piece :: pieces).filter (Names ·) = pieces.filter (Names ·) :=
        List.filter_cons_of_neg fun hnames => hpiece (of_decide_eq_true hnames)
      rw [hfilter]
      rw [if_pos (Decidable.not_not.1 fun hnot => hpiece (names_iff.2 hnot))] at h
      exact ih h

/-- A walk along a path that arrives goes along its components. -/
theorem walk_components (h : tree.walk start (steps path) = .ok location) :
    tree.walk start ((components path).map String.ofList) = .ok location :=
  walk_filter h

/-- Names that lead down one directory each. -/
theorem eq_append_of_walk {names : List String}
    (hnames : ∀ name ∈ names, ¬(name = "" ∨ name = ".") ∧ name ≠ "..")
    (h : tree.walk start names = .ok location) : location = start ++ names := by
  induction names generalizing start with
  | nil =>
    rw [List.append_nil]
    exact (Except.ok.inj h).symm
  | cons name names ih =>
    obtain ⟨⟨hname, hup⟩, hrest⟩ := List.forall_mem_cons.1 hnames
    rw [walk, node?_of_walk_cons h] at h
    dsimp only at h
    rw [if_neg hname, if_neg hup] at h
    split at h
    · cases h
    · split at h
      · rw [ih hrest h, List.append_assoc, List.singleton_append]
      · cases h

/-! ### Where a path leads -/

/-- Where a path starts. -/
def startOf (tree : FileTree) (path : List Char) : Location :=
  if path.head? = some '/' then [] else tree.current

/-- The front of a path starts where the path does. -/
theorem startOf_front {front : List Char} (hne : front ≠ []) (h : front <+: path) :
    tree.startOf front = tree.startOf path := by
  obtain ⟨rest, rfl⟩ := h
  rw [startOf, startOf, List.head?_append_of_ne_nil _ hne]

theorem locate_eq_ok_iff {path : String} : tree.locate path = .ok location ↔
    path ≠ "" ∧ '\x00' ∉ path.toList ∧
      tree.walk (tree.startOf path.toList) (steps path.toList) = .ok location := by
  unfold locate
  split
  · next hempty => exact iff_of_false nofun fun h => h.1 hempty
  · next hempty =>
    split
    · next hnul => exact iff_of_false nofun fun h => h.2.1 (List.contains_iff_mem.1 hnul)
    · next hnul =>
      exact ⟨fun h => ⟨hempty, fun hmem => hnul (List.contains_iff_mem.2 hmem), h⟩,
        fun h => h.2.2⟩

/-- What is read is the text of the file that the path leads to. -/
theorem locate_of_read {path text : String} (h : tree.read path = .ok text) :
    ∃ location bytes, tree.locate path = .ok location ∧
      tree.node? location = some (.file bytes) ∧ String.fromUTF8? bytes = some text := by
  unfold read at h
  split at h
  · cases h
  · cases hlocate : tree.locate path with
    | error e => rw [hlocate] at h; cases h
    | ok location =>
      rw [hlocate] at h
      simp only [Bind.bind, Except.bind] at h
      split at h
      · cases h
      · cases h
      · next bytes hnode =>
        split at h
        · next text' htext => exact ⟨location, bytes, rfl, hnode, (Except.ok.inj h) ▸ htext⟩
        · cases h

/-- The location of the directory that a path lies in. -/
def directory (tree : FileTree) (path : String) : Except ReadError Location :=
  if parent path.toList = [] then .ok tree.current
  else tree.locate (String.ofList (parent path.toList))

/-- A file lies in the directory of its path. -/
theorem locate_eq_concat {file : String} {name : List Char} {directory place : Location}
    (hname : fileName? file.toList = some name) (hdirectory : tree.directory file = .ok directory)
    (h : tree.locate file = .ok place) : place = directory ++ [String.ofList name] := by
  obtain ⟨hlast, hup⟩ := Option.filter_eq_some_iff.1 hname
  obtain ⟨-, -, hwalk⟩ := locate_eq_ok_iff.1 h
  have hcomponents := walk_components hwalk
  rw [components_eq_concat hlast, List.map_append, walk_append] at hcomponents
  obtain ⟨middle, hmiddle, hplace⟩ := hcomponents
  have hparent : tree.walk (tree.startOf file.toList)
      ((components (parent file.toList)).map String.ofList) = .ok directory := by
    unfold FileTree.directory at hdirectory
    split at hdirectory
    · next hbase =>
      rw [startOf, if_neg (head?_ne_of_parent_eq_nil hlast hbase), hbase]
      exact hdirectory
    · next hbase =>
      obtain ⟨-, -, hwalk⟩ := locate_eq_ok_iff.1 hdirectory
      rw [String.toList_ofList, startOf_front hbase (parent_front _)] at hwalk
      exact walk_components hwalk
  rw [hmiddle] at hparent
  obtain rfl := Except.ok.inj hparent
  refine eq_append_of_walk (List.forall_mem_singleton.2 ⟨?_, ?_⟩) hplace
  · exact names_iff.1 (names_of_trimPieces hlast)
  · exact fun heq => of_decide_eq_true hup (String.ofList_inj.1 heq)

end Script.FileTree
