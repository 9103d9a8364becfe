import Script.Proofs.Token.Layout
import Script.Stmt

/-!
# Places in a program

Where a program and its parts stand in its text, as a tree of spans. The parts of a node are its
expressions, statements, blocks and type names, and the operator of a unary or binary expression,
all from left to right. Of a type only the place of its name is kept, which is an empty span.

Spans of trees that follow one another, with the parts of each inside of it, make a row. Going from
the tokens of a phrase to its tree keeps a row: neighbours are taken together to one node, and some
of them are forgotten.
-/

namespace Script

/-- A span with the spans of its parts. -/
inductive Places where
  | node (span : Span) (parts : List Places)

namespace Places

def span : Places → Span
  | node span _ => span

def parts : Places → List Places
  | node _ parts => parts

/-- A tree itself, or what stands at any depth inside of it. -/
inductive HasNode : Places → Places → Prop
  | self (tree : Places) : HasNode tree tree
  | part {tree part node : Places} : part ∈ tree.parts → HasNode part node → HasNode tree node

end Places

/-- The place behind some of the characters of a text. -/
def Position.In (source file : String) (p : Position) : Prop :=
  ∃ before after, source.toList = before ++ after ∧ p = .behind file before

theorem Position.in_behind {source file : String} {before : List Char} (after : List Char)
    (h : before ++ after = source.toList) : (Position.behind file before).In source file :=
  ⟨before, after, h.symm, rfl⟩

/-- Counters of 32 bits for bytes and lines reach to the end of the text. -/
structure FitsCounters (source : String) : Prop where
  bytes : source.utf8ByteSize < UInt32.size
  lines : 1 + source.toList.count '\n' < UInt32.size

theorem FitsCounters.of_in {source file : String} {p : Position} (h : FitsCounters source)
    (hp : p.In source file) : p.offset < UInt32.size ∧ 1 ≤ p.line ∧ p.line < UInt32.size := by
  obtain ⟨before, after, hsource, rfl⟩ := hp
  have hbytes : (Position.behind file before).offset ≤ source.utf8ByteSize := by
    have hle := offset_behind_le file before after
    rwa [← hsource, Position.behind, Position.behind, String.ofList_toList] at hle
  have hlines : before.count '\n' ≤ source.toList.count '\n' := by
    rw [hsource, List.count_append]
    exact Nat.le_add_right ..
  have hline : (Position.behind file before).line = 1 + before.count '\n' := rfl
  exact ⟨Nat.lt_of_le_of_lt hbytes h.bytes, by omega, by have := h.lines; omega⟩

/-- What the span of a node says: it begins and ends in the text, in this order, and its parts
stand one behind the other inside of it. -/
structure Places.Sound (source file : String) (tree : Places) : Prop where
  start_in : tree.span.start.In source file
  stop_in : tree.span.stop.In source file
  start_le_stop : tree.span.start.offset ≤ tree.span.stop.offset
  inside : ∀ part ∈ tree.parts, tree.span.start.offset ≤ part.span.start.offset ∧
    part.span.stop.offset ≤ tree.span.stop.offset
  in_order : tree.parts.Pairwise fun a b => a.span.stop.offset ≤ b.span.start.offset

/-! ### Trees of programs -/

def Token.places (token : Token) : Places := .node token.span []

def Operator.places (operator : Operator α) : Places := .node operator.span []

mutual

def Expr.places : Expr → Places
  | .number _ span | .string _ span | .boolean _ span | .symbol _ span => .node span []
  | .list elements span => .node span (Expr.placesAll elements)
  | .binary left operator right span =>
    .node span [Expr.places left, operator.places, Expr.places right]
  | .unary operator operand span => .node span [operator.places, Expr.places operand]
  | .call callee arguments span => .node span (Expr.places callee :: Expr.placesAll arguments)
  | .index target position span => .node span [Expr.places target, Expr.places position]

def Expr.placesAll : List Expr → List Places
  | [] => []
  | expr :: exprs => Expr.places expr :: Expr.placesAll exprs

end

def TypeExpr.places (type : TypeExpr) : Places := .node ⟨type.position, type.position⟩ []

def Parameter.places (p : Parameter) : List Places := p.ascription.toList.map TypeExpr.places

mutual

def Stmt.places : Stmt → Places
  | .expression value span => .node span [value.places]
  | .importNames _ _ span => .node span []
  | .declaration _ _ _ ascription value span =>
    .node span (ascription.toList.map TypeExpr.places ++ [value.places])
  | .reassignment _ value span => .node span [value.places]
  | .conditional branch => Conditional.places branch
  | .loop condition body span => .node span [condition.places, Block.places body]
  | .function _ parameters returns body span =>
    .node span (parameters.flatMap Parameter.places ++ returns.toList.map TypeExpr.places ++
      [Block.places body])
  | .returnValue value span => .node span (value.toList.map Expr.places)

def Conditional.places : Conditional → Places
  | .mk condition body otherwise span =>
    .node span (condition.places :: Block.places body :: Otherwise.places otherwise)

def Otherwise.places : Otherwise → List Places
  | .nothing => []
  | .block body => [Block.places body]
  | .conditional branch => [Conditional.places branch]

def Block.places : Block → Places
  | .mk statements span => .node span (Stmt.placesAll statements)

def Stmt.placesAll : List Stmt → List Places
  | [] => []
  | stmt :: stmts => Stmt.places stmt :: Stmt.placesAll stmts

end

theorem Expr.placesAll_eq_map (exprs : List Expr) : placesAll exprs = exprs.map places := by
  induction exprs with
  | nil => rw [placesAll, List.map_nil]
  | cons expr exprs ih => rw [placesAll, ih, List.map_cons]

theorem Stmt.placesAll_eq_map (stmts : List Stmt) : placesAll stmts = stmts.map places := by
  induction stmts with
  | nil => rw [placesAll, List.map_nil]
  | cons stmt stmts ih => rw [placesAll, ih, List.map_cons]

@[simp]
theorem Token.span_places (token : Token) : token.places.span = token.span :=
  rfl

@[simp]
theorem Expr.span_places (e : Expr) : e.places.span = e.span := by
  cases e <;> rfl

@[simp]
theorem Conditional.span_places (branch : Conditional) : branch.places.span = branch.span := by
  cases branch
  rfl

@[simp]
theorem Block.span_places (body : Block) : body.places.span = body.span := by
  cases body
  rfl

@[simp]
theorem Stmt.span_places (st : Stmt) : st.places.span = st.span := by
  cases st with
  | conditional branch => exact branch.span_places
  | _ => rfl

namespace Places

/-! ### Rows -/

/-- Trees that follow one another between two offsets, and in each of them its parts; `P` holds of
where all of them begin and end. -/
inductive Row (P : Position → Prop) : Nat → List Places → Nat → Prop
  | nil {lo hi : Nat} : lo ≤ hi → Row P lo [] hi
  | cons {lo hi : Nat} {span : Span} {parts trees : List Places} : P span.start → P span.stop →
    lo ≤ span.start.offset → Row P span.start.offset parts span.stop.offset →
    Row P span.stop.offset trees hi → Row P lo (node span parts :: trees) hi

namespace Row

variable {P : Position → Prop} {lo hi : Nat} {tree : Places} {trees : List Places}

theorem le (h : Row P lo trees hi) : lo ≤ hi := by
  induction h with
  | nil hle => exact hle
  | cons _ _ hle _ _ ihParts ihTrees => exact Nat.le_trans hle (Nat.le_trans ihParts ihTrees)

theorem mono {lo' hi' : Nat} (h : Row P lo trees hi) (hlo : lo' ≤ lo) (hhi : hi ≤ hi') :
    Row P lo' trees hi' := by
  induction h generalizing lo' hi' with
  | nil hle => exact .nil (Nat.le_trans hlo (Nat.le_trans hle hhi))
  | cons hstart hstop hle hparts _ _ ih =>
    exact .cons hstart hstop (Nat.le_trans hlo hle) hparts (ih (Nat.le_refl _) hhi)

theorem append_iff {before after : List Places} :
    Row P lo (before ++ after) hi ↔ ∃ mid, Row P lo before mid ∧ Row P mid after hi := by
  constructor
  · intro h
    induction before generalizing lo with
    | nil => exact ⟨lo, .nil (Nat.le_refl _), h⟩
    | cons tree before ih =>
      cases h with
      | cons hstart hstop hle hparts h =>
        obtain ⟨mid, hbefore, hafter⟩ := ih h
        exact ⟨mid, .cons hstart hstop hle hparts hbefore, hafter⟩
  · rintro ⟨mid, hbefore, hafter⟩
    induction hbefore with
    | nil hle => exact hafter.mono hle (Nat.le_refl _)
    | cons hstart hstop hle hparts _ _ ih => exact .cons hstart hstop hle hparts (ih hafter)

/-- Some of the trees may be left out. -/
theorem sublist {others : List Places} (h : Row P lo trees hi) (hsub : others.Sublist trees) :
    Row P lo others hi := by
  induction hsub generalizing lo with
  | slnil => exact h
  | cons tree _ ih =>
    cases h with
    | cons _ _ hle hparts h => exact (ih h).mono (Nat.le_trans hle hparts.le) (Nat.le_refl _)
  | cons_cons tree _ ih =>
    cases h with
    | cons hstart hstop hle hparts h => exact .cons hstart hstop hle hparts (ih h)

theorem inside (h : Row P lo trees hi) :
    ∀ tree ∈ trees, lo ≤ tree.span.start.offset ∧ tree.span.stop.offset ≤ hi := by
  induction h with
  | nil => exact nofun
  | cons _ _ hle hparts hrest _ ih =>
    refine List.forall_mem_cons.2 ⟨⟨hle, hrest.le⟩, fun tree hmem => ?_⟩
    have htree := ih tree hmem
    exact ⟨Nat.le_trans hle (Nat.le_trans hparts.le htree.1), htree.2⟩

theorem in_order (h : Row P lo trees hi) :
    trees.Pairwise fun a b => a.span.stop.offset ≤ b.span.start.offset := by
  induction h with
  | nil => exact .nil
  | cons _ _ _ _ hrest _ ih =>
    exact List.pairwise_cons.2 ⟨fun tree hmem => (hrest.inside tree hmem).1, ih⟩

theorem of_mem (h : Row P lo trees hi) (hmem : tree ∈ trees) : Row P lo [tree] hi :=
  h.sublist (List.singleton_sublist.2 hmem)

/-- Whatever stands in a row makes a row with its own parts. -/
theorem node_of_hasNode {found : Places} (h : Row P lo [tree] hi) (hnode : tree.HasNode found) :
    P found.span.start ∧ P found.span.stop ∧
      Row P found.span.start.offset found.parts found.span.stop.offset := by
  induction hnode generalizing lo hi with
  | self =>
    cases h with
    | cons hstart hstop _ hparts _ => exact ⟨hstart, hstop, hparts⟩
  | part hmem _ ih =>
    cases h with
    | cons _ _ _ hparts _ => exact ih (hparts.of_mem hmem)

theorem sound {source file : String} {found : Places}
    (h : Row (Position.In source file) lo [tree] hi) (hnode : tree.HasNode found) :
    found.Sound source file := by
  obtain ⟨hstart, hstop, hparts⟩ := h.node_of_hasNode hnode
  exact ⟨hstart, hstop, hparts.le, hparts.inside, hparts.in_order⟩

end Row

/-! ### Going from one row to another -/

/-- Wherever the first trees make a row, the others do. -/
def Regroups (trees others : List Places) : Prop :=
  ∀ (P : Position → Prop) (lo hi : Nat), Row P lo trees hi → Row P lo others hi

namespace Regroups

variable {trees others : List Places}

theorem refl (trees : List Places) : Regroups trees trees :=
  fun _ _ _ h => h

theorem trans {last : List Places} (h : Regroups trees others) (h' : Regroups others last) :
    Regroups trees last :=
  fun P lo hi hrow => h' P lo hi (h P lo hi hrow)

theorem append {trees' others' : List Places} (h : Regroups trees others)
    (h' : Regroups trees' others') : Regroups (trees ++ trees') (others ++ others') := by
  intro P lo hi hrow
  obtain ⟨mid, hbefore, hafter⟩ := Row.append_iff.1 hrow
  exact Row.append_iff.2 ⟨mid, h P lo mid hbefore, h' P mid hi hafter⟩

theorem cons (tree : Places) (h : Regroups trees others) :
    Regroups (tree :: trees) (tree :: others) :=
  append (refl [tree]) h

theorem of_sublist (h : others.Sublist trees) : Regroups trees others :=
  fun _ _ _ hrow => hrow.sublist h

theorem drop (tree : Places) (h : Regroups trees others) : Regroups (tree :: trees) others :=
  (of_sublist (List.sublist_cons_self ..)).trans h

/-- A node around a single one, with the same span. -/
theorem alone {tree : Places} (h : Regroups trees [tree]) :
    Regroups trees [node tree.span [tree]] := by
  intro P lo hi htrees
  cases h P lo hi htrees with
  | cons hstart hstop hle hparts hend =>
    have hinside := Row.cons hstart hstop (Nat.le_refl _) hparts (.nil (Nat.le_refl _))
    exact .cons hstart hstop hle hinside hend

/-- Trees are taken together to a node that reaches from the first to the last, with some of them as
its parts. -/
theorem group (first : Places) (between : List Places) (last : Places) {parts : List Places}
    (hparts : parts.Sublist (first :: (between ++ [last])))
    (h : Regroups trees (first :: (between ++ [last]))) :
    Regroups trees [node ⟨first.span.start, last.span.stop⟩ parts] := by
  intro P lo hi htrees
  have hrow := h P lo hi htrees
  obtain ⟨_, hfirst, hrest⟩ := Row.append_iff.1 (show Row P lo ([first] ++ _) hi from hrow)
  obtain ⟨_, hbetween, hlast⟩ := Row.append_iff.1 hrest
  cases hfirst with
  | @cons _ mid span _ _ hstart hstop hle hfirst hmid =>
    cases hlast with
    | cons hstart' hstop' hle' hlast hend =>
      have hbetween' := hbetween.mono hmid.le (Nat.le_refl _)
      have hall : Row P span.start.offset (node span _ :: (between ++ [node _ _])) _ :=
        .cons hstart hstop (Nat.le_refl _) hfirst
          (Row.append_iff.2 ⟨_, hbetween',
            .cons hstart' hstop' hle' hlast (.nil (Nat.le_refl _))⟩)
      exact .cons hstart hstop' hle (hall.sublist hparts) hend

end Regroups

end Places

end Script
