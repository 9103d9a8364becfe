import Mathlib.Data.List.Find
import Mathlib.Data.List.Nodup
import Mathlib.Logic.Function.Basic
import Script.Proofs.Scope.Operations

/-!
# Reusing numbers goes unseen

An arena gives the number of a released scope to the next scope created. Whoever holds numbers
cannot tell it from an arena in which every scope has a number of its own for ever, as long as a
scope is released only when no live scope is inside of it, and a released number is left alone until
it is handed out again. The two arenas are asked the same, each by its own numbers, and the numbers
handed out for the same request correspond to each other.
-/

namespace Script

/-- The scope with the number of its parent replaced. -/
def Scope.relink (ρ : ScopeId → ScopeId) (s : Scope) : Scope :=
  { s with parent := s.parent.map ρ }

theorem Scope.relink_insert (ρ : ScopeId → ScopeId) (s : Scope) (name : String)
    (binding : Binding) :
    (s.relink ρ).insert name binding = (s.insert name binding).relink ρ :=
  rfl

namespace Arena

/-- Creates a scope under a number that no scope has had before. -/
def extend (a : Arena) (parent : Option ScopeId) : ScopeId × Arena :=
  (a.slots.size, { a with slots := a.slots.push (some (.empty parent)) })

/-- What an arena can be asked. -/
inductive Request where
  | create (outer : Option ScopeId)
  | release (id : ScopeId)
  | liveCount
  | parent (id : ScopeId)
  | lookup (id : ScopeId) (name : String)
  | lookupLocal (id : ScopeId) (name : String)
  | isBound (id : ScopeId) (name : String) (recursive : Bool)
  | declare (id : ScopeId) (name : Identifier) (value : Value) (constant : Bool)
  | bindParameter (id : ScopeId) (name : String) (value : Value)
  | reassign (id : ScopeId) (name : String) (value : Value)

inductive Answer where
  | created (id : ScopeId)
  | released
  | count (n : Nat)
  | parent (result : Except Cause (Option ScopeId))
  | value (result : Except Cause Value)
  | ownValue (result : Except Cause (Option Value))
  | isBound (result : Except Cause Bool)
  | declared (warning : Option Warning) (result : Except Cause Declared)
  | changed (result : Except Cause Unit)

/-- The answer by other numbers. -/
def Answer.map (ρ : ScopeId → ScopeId) : Answer → Answer
  | created id => .created (ρ id)
  | parent result => .parent (result.map (Option.map ρ))
  | answer => answer

/-- The scopes created for the same request correspond to each other. -/
def Answer.pair (ρ : ScopeId → ScopeId) : Answer → Answer → ScopeId → ScopeId
  | created id, created id' => Function.update ρ id id'
  | _, _ => ρ

/-- The answer to a change that fails or gives the arena it leads to. -/
def attempt (a : Arena) : Except Cause Arena → Answer × Arena
  | .ok b => (.changed (.ok ()), b)
  | .error cause => (.changed (.error cause), a)

/-- The answer to a declaration. -/
def attemptDeclare (a : Arena) : Option Warning × Except Cause (Declared × Arena) → Answer × Arena
  | (warning, .ok (declared, b)) => (.declared warning (.ok declared), b)
  | (warning, .error cause) => (.declared warning (.error cause), a)

namespace Request

/-- The request by other numbers. -/
def map (ρ : ScopeId → ScopeId) : Request → Request
  | create outer => .create (outer.map ρ)
  | release id => .release (ρ id)
  | liveCount => .liveCount
  | parent id => .parent (ρ id)
  | lookup id name => .lookup (ρ id) name
  | lookupLocal id name => .lookupLocal (ρ id) name
  | isBound id name recursive => .isBound (ρ id) name recursive
  | declare id name value constant => .declare (ρ id) name value constant
  | bindParameter id name value => .bindParameter (ρ id) name value
  | reassign id name value => .reassign (ρ id) name value

/-- The answer of an arena, and the arena afterwards. How scopes are created is left open. -/
def serve (make : Arena → Option ScopeId → ScopeId × Arena) (a : Arena) : Request → Answer × Arena
  | create outer => (.created (make a outer).1, (make a outer).2)
  | release id => (.released, a.release id)
  | liveCount => (.count a.liveCount, a)
  | parent id => (.parent (a.parent id), a)
  | lookup id name => (.value (a.lookup id name), a)
  | lookupLocal id name => (.ownValue (a.lookupLocal id name), a)
  | isBound id name recursive => (.isBound (a.isBound id name recursive), a)
  | declare id name value constant => a.attemptDeclare (a.declare id name value constant)
  | bindParameter id name value => a.attempt (a.bindParameter id name value)
  | reassign id name value => a.attempt (a.reassign id name value)

/-- Whether a request goes by the rules: only live scopes are named, and a scope is released only
when no live scope is inside of it. A scope that has been released may be released again. -/
def Allowed (a : Arena) : Request → Prop
  | create outer => ∀ id ∈ outer, a.isLive id
  | release id => id < a.slots.size ∧ ∀ other, a.link? other ≠ some (some id)
  | liveCount => True
  | parent id | lookup id _ | lookupLocal id _ | isBound id _ _ | declare id _ _ _
  | bindParameter id _ _ | reassign id _ _ => a.isLive id

end Request

/-- The arena after some requests. -/
def serveAll (a : Arena) (requests : List Request) : Arena :=
  requests.foldl (fun a request => (request.serve create a).2) a

/-- All the requests go by the rules, each when it is made. -/
def Disciplined (a : Arena) : List Request → Prop
  | [] => True
  | request :: requests => request.Allowed a ∧ (request.serve create a).2.Disciplined requests

/-- The answers of an arena that reuses numbers, and of one that does not, to the same requests. The
first are given by the numbers of the second. -/
def answers (a b : Arena) (ρ : ScopeId → ScopeId) : List Request → List (Answer × Answer)
  | [] => []
  | request :: requests =>
    let (answer, a') := request.serve create a
    let (answer', b') := (request.map ρ).serve extend b
    let ρ' := answer.pair ρ answer'
    (answer.map ρ', answer') :: answers a' b' ρ' requests

/-- The arena `b` has the scopes of `a` under the numbers that `ρ` gives them, and no others. From
every scope of `a` a chain leads outward. -/
structure Mirrors (ρ : ScopeId → ScopeId) (a b : Arena) : Prop where
  tidy : a.Tidy
  lt_size : ∀ id < a.slots.size, ρ id < b.slots.size
  scopes : ∀ id < a.slots.size, b.get? (ρ id) = (a.get? id).map (Scope.relink ρ)
  injective : ∀ id other, a.isLive id → a.isLive other → ρ id = ρ other → id = other
  chain : ∀ id, a.isLive id → ∃ ids, Chain a id ids ∧ ids.Nodup
  liveCount : b.liveCount = a.liveCount

/-! ### How many scopes are live -/

theorem lt_size_of_isLive {a : Arena} {id : ScopeId} (h : a.isLive id) : id < a.slots.size := by
  obtain ⟨scope, hscope⟩ := isLive_iff.1 h
  exact lt_size_of_get? hscope

theorem liveCount_extend (a : Arena) (parent : Option ScopeId) :
    (a.extend parent).2.liveCount = a.liveCount + 1 := by
  simp [extend, liveCount]

theorem liveCount_create {a : Arena} (h : a.Tidy) (parent : Option ScopeId) :
    (a.create parent).2.liveCount = a.liveCount + 1 := by
  cases hfree : a.free with
  | nil => simp [create, hfree, liveCount]
  | cons id free =>
    obtain ⟨hlt, hdead⟩ := (h.mem_free id).1 (by simp [hfree])
    have hslot : a.slots[id] = none := by simpa [get?, hlt] using hdead
    simp [create, hfree, liveCount, Array.setIfInBounds, hlt, Array.countP_set, hslot]

theorem liveCount_release {a : Arena} {id : ScopeId} (h : a.isLive id) :
    (a.release id).liveCount = a.liveCount - 1 := by
  have hlt := lt_size_of_isLive h
  have hslot : a.slots[id].isSome := by simpa [isLive, get?, hlt] using h
  simp [release, h, liveCount, Array.setIfInBounds, hlt, Array.countP_set, hslot]

/-! ### Creating and releasing scopes -/

theorem get?_extend (a : Arena) (parent : Option ScopeId) (id : ScopeId) :
    (a.extend parent).2.get? id =
      if id = (a.extend parent).1 then some (.empty parent) else a.get? id := by
  rw [extend, get?, Array.getElem?_push]
  split <;> rfl

theorem size_create_le {a : Arena} {parent : Option ScopeId} {id : ScopeId}
    (h : id < (a.create parent).2.slots.size) : id < a.slots.size ∨ id = (a.create parent).1 := by
  cases hfree : a.free with
  | nil =>
    simp only [create, hfree, Array.size_push] at h ⊢
    exact Nat.lt_succ_iff_lt_or_eq.1 h
  | cons first free =>
    simp only [create, hfree, Array.size_setIfInBounds] at h
    exact .inl h

theorem size_release (a : Arena) (id : ScopeId) : (a.release id).slots.size = a.slots.size := by
  unfold release
  split
  · exact Array.size_setIfInBounds
  · rfl

theorem release_of_not_isLive {a : Arena} {id : ScopeId} (h : ¬a.isLive id) : a.release id = a :=
  if_neg h

theorem link?_release (a : Arena) (id other : ScopeId) :
    (a.release id).link? other = if other = id then none else a.link? other := by
  rw [link?, get?_release]
  split <;> rfl

/-- A chain goes on where it went when a scope is released that no scope is inside of. -/
theorem Chain.release {a : Arena} {id other : ScopeId} {ids : List ScopeId} (hc : Chain a other ids)
    (hne : other ≠ id) (hinner : ∀ other, a.link? other ≠ some (some id)) :
    Chain (a.release id) other ids := by
  induction hc with
  | last hlast => exact .last (by rw [link?_release, if_neg hne, hlast])
  | link hlink _ ih =>
    refine .link (by rw [link?_release, if_neg hne, hlink]) (ih ?_)
    rintro rfl
    exact hinner _ hlink

/-! ### What corresponds -/

namespace Mirrors

variable {ρ : ScopeId → ScopeId} {a b : Arena} {id : ScopeId} {ids : List ScopeId}

theorem empty (ρ : ScopeId → ScopeId) : Mirrors ρ empty empty where
  tidy := tidy_empty
  lt_size _ h := nomatch h
  scopes _ h := nomatch h
  injective id _ h := by simp [isLive] at h
  chain id h := by simp [isLive] at h
  liveCount := rfl

theorem get? (h : Mirrors ρ a b) (hlive : a.isLive id) :
    b.get? (ρ id) = (a.get? id).map (Scope.relink ρ) :=
  h.scopes id (lt_size_of_isLive hlive)

theorem scope (h : Mirrors ρ a b) (hlive : a.isLive id) :
    ∃ scope, a.get? id = some scope ∧ b.get? (ρ id) = some (scope.relink ρ) := by
  obtain ⟨scope, hscope⟩ := isLive_iff.1 hlive
  exact ⟨scope, hscope, by rw [h.get? hlive, hscope, Option.map_some]⟩

theorem isLive (h : Mirrors ρ a b) (hid : id < a.slots.size) :
    b.isLive (ρ id) = a.isLive id := by
  rw [Arena.isLive, h.scopes id hid, Option.isSome_map, Arena.isLive]

theorem link? (h : Mirrors ρ a b) (hlive : a.isLive id) :
    b.link? (ρ id) = (a.link? id).map (Option.map ρ) := by
  rw [Arena.link?, Arena.link?, h.get? hlive, Option.map_map, Option.map_map]
  rfl

theorem binding? (h : Mirrors ρ a b) (hlive : a.isLive id) (name : String) :
    b.binding? name (ρ id) = a.binding? name id := by
  obtain ⟨scope, hscope, hscope'⟩ := h.scope hlive
  rw [Arena.binding?, Arena.binding?, hscope, hscope']
  rfl

theorem chain_map (h : Mirrors ρ a b) (hc : Chain a id ids) : Chain b (ρ id) (ids.map ρ) := by
  have hlink {id : ScopeId} {parent : Option ScopeId} (hid : a.link? id = some parent) :
      b.link? (ρ id) = some (parent.map ρ) := by
    rw [h.link? (by rw [isLive_eq_isSome_link?, hid]; rfl), hid, Option.map_some]
  induction hc with
  | last hlast => exact .last (hlink hlast)
  | link hnext _ ih => exact .link (hlink hnext) ih

theorem nodup_map (h : Mirrors ρ a b) (hc : Chain a id ids) (hn : ids.Nodup) :
    (ids.map ρ).Nodup :=
  List.Nodup.map_on (fun id hmem other hmem' =>
    h.injective id other (hc.isLive_of_mem hmem) (hc.isLive_of_mem hmem')) hn

/-- A walk outward goes along chains that correspond, and meets the same bindings. -/
theorem walk (h : Mirrors ρ a b) (hlive : a.isLive id) :
    ∃ ids, Chain a id ids ∧ Chain b (ρ id) (ids.map ρ) ∧ ids.length ≤ a.walkBound ∧
      (ids.map ρ).length ≤ b.walkBound ∧
      ∀ name, ∀ id ∈ ids, b.binding? name (ρ id) = a.binding? name id := by
  obtain ⟨ids, hc, hn⟩ := h.chain id hlive
  have hc' := h.chain_map hc
  exact ⟨ids, hc, hc', hc.length_le_walkBound hn, hc'.length_le_walkBound (h.nodup_map hc hn),
    fun name _ hmem => h.binding? (hc.isLive_of_mem hmem) name⟩

/-! ### The same answers -/

theorem parent (h : Mirrors ρ a b) (hlive : a.isLive id) :
    b.parent (ρ id) = (a.parent id).map (Option.map ρ) := by
  obtain ⟨scope, hscope, hscope'⟩ := h.scope hlive
  simp [Arena.parent, Arena.scope, hscope, hscope', Scope.relink, Bind.bind, Except.bind,
    Pure.pure, Except.pure, Except.map]

theorem lookup (h : Mirrors ρ a b) (hlive : a.isLive id) (name : String) :
    b.lookup (ρ id) name = a.lookup id name := by
  obtain ⟨ids, hc, hc', hbound, hbound', hbinding⟩ := h.walk hlive
  have hfound : (ids.map ρ).findSome? (b.binding? name) = ids.findSome? (a.binding? name) := by
    have hmap : (ids.map ρ).map (b.binding? name) = ids.map (a.binding? name) := by
      simpa using hbinding name
    rw [← Function.id_comp (b.binding? name), ← Function.id_comp (a.binding? name),
      ← List.findSome?_map, ← List.findSome?_map, hmap]
  rw [Arena.lookup, Arena.lookup, hc.find?_eq name hbound, hc'.find?_eq name hbound', hfound]

theorem lookupLocal (h : Mirrors ρ a b) (hlive : a.isLive id) (name : String) :
    b.lookupLocal (ρ id) name = a.lookupLocal id name := by
  obtain ⟨scope, hscope, hscope'⟩ := h.scope hlive
  simp [Arena.lookupLocal, Arena.scope, hscope, hscope', Scope.relink, Scope.get?]

theorem isBound (h : Mirrors ρ a b) (hlive : a.isLive id) (name : String) (recursive : Bool) :
    b.isBound (ρ id) name recursive = a.isBound id name recursive := by
  rw [Arena.isBound, Arena.isBound]
  cases recursive with
  | true =>
    obtain ⟨ids, hc, hc', hbound, hbound', hbinding⟩ := h.walk hlive
    have hholds : (ids.map ρ).any (fun id => (b.binding? name id).isSome) =
        ids.any fun id => (a.binding? name id).isSome := by
      rw [Bool.eq_iff_iff]
      simp only [List.any_map, List.any_eq_true, Function.comp]
      exact exists_congr fun id => and_congr_right fun hmem => by rw [hbinding name id hmem]
    rw [if_pos rfl, if_pos rfl, hc.holdsOutward_eq name hbound, hc'.holdsOutward_eq name hbound',
      hholds]
  | false =>
    obtain ⟨scope, hscope, hscope'⟩ := h.scope hlive
    have hholds : (scope.relink ρ).holds name = scope.holds name := rfl
    simp only [holdsOutward, Arena.scope, hscope, hscope', hholds, Bind.bind, Except.bind,
      Bool.false_eq_true, if_false]
    cases hparent : scope.parent <;> simp [Scope.relink, hparent]

theorem assignmentTarget (h : Mirrors ρ a b) (hlive : a.isLive id) (name : String) :
    b.assignmentTarget name b.walkBound none (ρ id) =
      (a.assignmentTarget name a.walkBound none id).map (Option.map ρ) := by
  obtain ⟨ids, hc, hc', hbound, hbound', hbinding⟩ := h.walk hlive
  have hconstant : (ids.map ρ).any (fun id => (b.binding? name id).any (·.constant)) =
      ids.any fun id => (a.binding? name id).any (·.constant) := by
    rw [Bool.eq_iff_iff]
    simp only [List.any_map, List.any_eq_true, Function.comp]
    exact exists_congr fun id => and_congr_right fun hmem => by rw [hbinding name id hmem]
  have hfound : (ids.map ρ).find? (fun id => (b.binding? name id).isSome) =
      (ids.find? fun id => (a.binding? name id).isSome).map ρ := by
    rw [List.find?_map]
    exact congrArg _ (List.find?_congr fun id hmem => by rw [Function.comp, hbinding name id hmem])
  rw [hc.assignmentTarget_eq name hbound, hc'.assignmentTarget_eq name hbound', hconstant, hfound]
  split <;> rfl

/-! ### Binding names -/

/-- A scope that is changed in both arenas but for its parent. -/
theorem set (h : Mirrors ρ a b) {scope : Scope} (hscope : a.get? id = some scope) (name : String)
    (binding : Binding) :
    Mirrors ρ (a.set id (scope.insert name binding))
      (b.set (ρ id) ((scope.relink ρ).insert name binding)) := by
  have hlive : a.isLive id := isLive_iff.2 ⟨scope, hscope⟩
  have hid := lt_size_of_isLive hlive
  have hlive' : b.isLive (ρ id) := by rwa [h.isLive hid]
  have hshape : SameShape a (a.set id (scope.insert name binding)) :=
    sameShape_set hscope name binding
  have hshape' : SameShape b (b.set (ρ id) ((scope.relink ρ).insert name binding)) :=
    sameShape_set (by rw [h.get? hlive, hscope, Option.map_some]) name binding
  have hsize : (a.set id (scope.insert name binding)).slots.size = a.slots.size := by
    simp [Arena.set]
  have hlives (other : ScopeId) : (a.set id (scope.insert name binding)).isLive other =
      a.isLive other := isLive_congr hshape.link? other
  refine ⟨hshape.tidy h.tidy, ?_, ?_, ?_, ?_, ?_⟩
  · intro other hlt
    rw [hsize] at hlt
    simpa [Arena.set] using h.lt_size other hlt
  · intro other hlt
    rw [hsize] at hlt
    rw [get?_set hlive, get?_set hlive']
    by_cases hother : other = id
    · simp [hother, Scope.relink_insert]
    · rw [if_neg hother, if_neg, h.scopes other hlt]
      intro heq
      have hother' : a.isLive other := by
        rwa [← h.isLive hlt, heq]
      exact hother (h.injective other id hother' hlive heq)
  · intro first second hfirst hsecond
    rw [hlives] at hfirst hsecond
    exact h.injective first second hfirst hsecond
  · intro other hother
    rw [hlives] at hother
    obtain ⟨ids, hc, hn⟩ := h.chain other hother
    exact ⟨ids, hc.congr hshape.link?, hn⟩
  · rw [hshape.liveCount_eq, hshape'.liveCount_eq, h.liveCount]

theorem bind (h : Mirrors ρ a b) (hlive : a.isLive id) (name : String) (value : Value)
    (constant : Bool) :
    ∃ a' b', a.bind id name value constant = .ok a' ∧ b.bind (ρ id) name value constant = .ok b' ∧
      Mirrors ρ a' b' := by
  obtain ⟨scope, hscope, hscope'⟩ := h.scope hlive
  refine ⟨_, _, ?_, ?_, h.set hscope name ⟨value.promote, constant⟩⟩
  · simp [Arena.bind, Arena.scope, hscope, Bind.bind, Except.bind, Pure.pure, Except.pure]
  · simp [Arena.bind, Arena.scope, hscope', Bind.bind, Except.bind, Pure.pure, Except.pure]

theorem reassign (h : Mirrors ρ a b) (hlive : a.isLive id) (name : String) (value : Value) :
    (∃ cause, a.reassign id name value = .error cause ∧
      b.reassign (ρ id) name value = .error cause) ∨
    ∃ a' b', a.reassign id name value = .ok a' ∧ b.reassign (ρ id) name value = .ok b' ∧
      Mirrors ρ a' b' := by
  have htarget := h.assignmentTarget hlive name
  unfold Arena.reassign
  split
  · exact .inl ⟨_, rfl, rfl⟩
  · rcases ha : a.assignmentTarget name a.walkBound none id with cause | (_ | target)
    · exact .inl ⟨cause, rfl, by rw [htarget, ha]; rfl⟩
    · exact .inl ⟨.variableNotDeclared name, rfl, by rw [htarget, ha]; rfl⟩
    · obtain ⟨ids, hc, hn⟩ := h.chain id hlive
      have hmem := hc.mem_of_assignmentTarget hn ha
      obtain ⟨scope, hscope, hscope'⟩ := h.scope (hc.isLive_of_mem hmem)
      have hget : (scope.relink ρ).get? name = scope.get? name := rfl
      have hset := h.set hscope name ⟨value.promote, false⟩
      simp only [htarget, ha, Except.map, Option.map_some, Arena.scope, hscope, hscope', hget,
        Bind.bind, Except.bind, Pure.pure, Except.pure]
      cases scope.get? name with
      | none => exact .inr ⟨_, _, rfl, rfl, hset⟩
      | some binding =>
        dsimp only
        cases (DeclaredType.exactly binding.value.typeOf).check value with
        | error cause => exact .inl ⟨cause, rfl, rfl⟩
        | ok _ => exact .inr ⟨_, _, rfl, rfl, hset⟩

/-! ### New scopes and old ones -/

/-- What is not the new scope keeps its number, also as a parent. -/
theorem relink_update (h : Mirrors ρ a b) (fresh fresh' : ScopeId) (hfresh : ¬a.isLive fresh)
    {scope : Scope} (hscope : a.get? id = some scope) :
    scope.relink (Function.update ρ fresh fresh') = scope.relink ρ := by
  have hparent : ∀ outer ∈ scope.parent, a.isLive outer := by
    intro outer houter
    obtain ⟨ids, hc, -⟩ := h.chain id (isLive_iff.2 ⟨scope, hscope⟩)
    have hlink : a.link? id = some (some outer) := link?_eq_some.2 ⟨scope, hscope, houter⟩
    cases hc with
    | last hlast => rw [hlink] at hlast; cases hlast
    | link hnext hrest =>
      rw [hlink] at hnext
      cases hnext
      exact hrest.isLive_of_mem hrest.self_mem
  have hmap : scope.parent.map (Function.update ρ fresh fresh') = scope.parent.map ρ := by
    refine Option.map_congr fun outer houter => Function.update_of_ne ?_ _ _
    rintro rfl
    exact hfresh (hparent outer houter)
  rw [Scope.relink, hmap, Scope.relink]

theorem create (h : Mirrors ρ a b) {outer : Option ScopeId} (houter : ∀ id ∈ outer, a.isLive id) :
    Mirrors (Function.update ρ (a.create outer).1 (b.extend (outer.map ρ)).1)
      (a.create outer).2 (b.extend (outer.map ρ)).2 := by
  have hget := get?_create h.tidy outer
  have hlink := link?_create h.tidy outer
  have hchain {id : ScopeId} {ids : List ScopeId} (hc : Chain a id ids) := hc.create h.tidy outer
  have hnew : ¬a.isLive (a.create outer).1 := by
    rw [Arena.isLive, get?_create_self h.tidy, Option.isSome_none]
    exact Bool.false_ne_true
  have hold {id : ScopeId} (hlive : (a.create outer).2.isLive id) (hne : id ≠ (a.create outer).1) :
      a.isLive id := by
    rwa [Arena.isLive, hget, if_neg hne] at hlive
  have hne {id : ScopeId} (hlive : a.isLive id) : id ≠ (a.create outer).1 :=
    fun heq => hnew (heq ▸ hlive)
  have hsize {id : ScopeId} (hlt : id < (a.create outer).2.slots.size)
      (hne : id ≠ (a.create outer).1) : id < a.slots.size :=
    (size_create_le hlt).resolve_right hne
  refine ⟨h.tidy.create outer, ?_, ?_, ?_, ?_, ?_⟩
  · intro id hlt
    rw [extend, Array.size_push]
    by_cases hid : id = (a.create outer).1
    · rw [hid, Function.update_self]
      exact Nat.lt_succ_self _
    · rw [Function.update_of_ne hid]
      exact Nat.lt_succ_of_lt (h.lt_size id (hsize hlt hid))
  · intro id hlt
    rw [get?_extend, hget]
    by_cases hid : id = (a.create outer).1
    · have hmap : outer.map (Function.update ρ (a.create outer).1 (b.extend (outer.map ρ)).1) =
          outer.map ρ :=
        Option.map_congr fun id hmem => Function.update_of_ne (hne (houter id hmem)) _ _
      rw [hid, Function.update_self, if_pos rfl, if_pos rfl, Option.map_some, Scope.relink,
        Scope.empty, Scope.empty, hmap]
    · have hlt := hsize hlt hid
      have hne' : ρ id ≠ (b.extend (outer.map ρ)).1 := (h.lt_size id hlt).ne
      rw [Function.update_of_ne hid, if_neg hid, if_neg hne', h.scopes id hlt]
      exact Option.map_congr fun scope hscope => (h.relink_update _ _ hnew hscope).symm
  · intro first second hfirst hsecond heq
    have hfresh {id : ScopeId} (hlive : a.isLive id) : ρ id ≠ (b.extend (outer.map ρ)).1 :=
      (h.lt_size id (lt_size_of_isLive hlive)).ne
    by_cases hid : first = (a.create outer).1 <;> by_cases hid' : second = (a.create outer).1
    · rw [hid, hid']
    · rw [hid, Function.update_self, Function.update_of_ne hid'] at heq
      exact absurd heq.symm (hfresh (hold hsecond hid'))
    · rw [hid', Function.update_self, Function.update_of_ne hid] at heq
      exact absurd heq (hfresh (hold hfirst hid))
    · rw [Function.update_of_ne hid, Function.update_of_ne hid'] at heq
      exact h.injective first second (hold hfirst hid) (hold hsecond hid') heq
  · intro id hlive
    by_cases hid : id = (a.create outer).1
    · subst hid
      cases outer with
      | none => exact ⟨[_], .last (by rw [hlink, if_pos rfl]), List.nodup_singleton _⟩
      | some outer =>
        obtain ⟨ids, hc, hn⟩ := h.chain outer (houter outer rfl)
        refine ⟨_, .link (by rw [hlink, if_pos rfl]) (hchain hc), List.nodup_cons.2 ⟨?_, hn⟩⟩
        exact fun hmem => hnew (hc.isLive_of_mem hmem)
    · obtain ⟨ids, hc, hn⟩ := h.chain id (hold hlive hid)
      exact ⟨ids, hchain hc, hn⟩
  · rw [liveCount_create h.tidy, liveCount_extend, h.liveCount]

theorem release (h : Mirrors ρ a b) (hid : id < a.slots.size)
    (hinner : ∀ other, a.link? other ≠ some (some id)) :
    Mirrors ρ (a.release id) (b.release (ρ id)) := by
  have hlives {other : ScopeId} (hlive : (a.release id).isLive other) :
      other ≠ id ∧ a.isLive other := by
    rw [Arena.isLive, get?_release] at hlive
    split at hlive
    · cases hlive
    · next hne => exact ⟨hne, hlive⟩
  refine ⟨h.tidy.release id, ?_, ?_, ?_, ?_, ?_⟩
  · intro other hlt
    rw [size_release] at hlt ⊢
    exact h.lt_size other hlt
  · intro other hlt
    rw [size_release] at hlt
    rw [get?_release, get?_release]
    by_cases hother : other = id
    · simp [hother]
    · rw [if_neg hother, h.scopes other hlt]
      split
      · next heq =>
        cases hget : a.get? other with
        | none => rfl
        | some scope =>
          have hlive : a.isLive other := isLive_iff.2 ⟨scope, hget⟩
          have hlive' : a.isLive id := by
            rw [← h.isLive hid, ← heq, h.isLive hlt]
            exact hlive
          exact absurd (h.injective other id hlive hlive' heq) hother
      · rfl
  · intro first second hfirst hsecond
    exact h.injective first second (hlives hfirst).2 (hlives hsecond).2
  · intro other hother
    obtain ⟨hne, hlive⟩ := hlives hother
    obtain ⟨ids, hc, hn⟩ := h.chain other hlive
    exact ⟨ids, hc.release hne hinner, hn⟩
  · by_cases hlive : a.isLive id
    · have hlive' : b.isLive (ρ id) := by rwa [h.isLive hid]
      rw [liveCount_release hlive, liveCount_release hlive', h.liveCount]
    · rw [release_of_not_isLive hlive, release_of_not_isLive (by rwa [h.isLive hid]), h.liveCount]

/-- Both arenas give the same answer to a request, and correspond to each other again. -/
theorem serve (h : Mirrors ρ a b) {request : Request} (hallowed : request.Allowed a) :
    let answer := (request.serve Arena.create a).1
    let answer' := ((request.map ρ).serve extend b).1
    answer' = answer.map (answer.pair ρ answer') ∧
      Mirrors (answer.pair ρ answer') (request.serve Arena.create a).2
        ((request.map ρ).serve extend b).2 := by
  cases request with
  | create outer =>
    refine ⟨?_, h.create hallowed⟩
    simp [Request.serve, Request.map, Answer.map, Answer.pair]
  | release id => exact ⟨rfl, h.release hallowed.1 hallowed.2⟩
  | liveCount => exact ⟨congrArg Answer.count h.liveCount, h⟩
  | parent id => exact ⟨congrArg Answer.parent (h.parent hallowed), h⟩
  | lookup id name => exact ⟨congrArg Answer.value (h.lookup hallowed name), h⟩
  | lookupLocal id name => exact ⟨congrArg Answer.ownValue (h.lookupLocal hallowed name), h⟩
  | isBound id name recursive =>
    exact ⟨congrArg Answer.isBound (h.isBound hallowed name recursive), h⟩
  | declare id name value constant =>
    obtain ⟨a', b', ha, hb, hbind⟩ := h.bind hallowed name.name value constant
    simp only [Request.serve, Request.map, Arena.declare, h.isBound hallowed, ha, hb]
    rcases a.isBound id name.name true with cause | (_ | _)
    · exact ⟨rfl, h⟩
    · exact ⟨rfl, hbind⟩
    · exact ⟨rfl, hbind⟩
  | bindParameter id name value =>
    obtain ⟨a', b', ha, hb, hbind⟩ := h.bind hallowed name value false
    simp only [Request.serve, Request.map, Arena.bindParameter, ha, hb]
    exact ⟨rfl, hbind⟩
  | reassign id name value =>
    simp only [Request.serve, Request.map]
    obtain ⟨cause, ha, hb⟩ | ⟨a', b', ha, hb, hset⟩ := h.reassign hallowed name value
    · rw [ha, hb]
      exact ⟨rfl, h⟩
    · rw [ha, hb]
      exact ⟨rfl, hset⟩

theorem answers (h : Mirrors ρ a b) {requests : List Request} (hd : a.Disciplined requests) :
    ∀ answer ∈ a.answers b ρ requests, answer.2 = answer.1 := by
  induction requests generalizing ρ a b with
  | nil => exact List.forall_mem_nil _
  | cons request requests ih =>
    obtain ⟨hallowed, hd⟩ := hd
    obtain ⟨hanswer, hserve⟩ := h.serve hallowed
    rw [Arena.answers, List.forall_mem_cons]
    exact ⟨hanswer, ih hserve hd⟩

end Mirrors

/-! ### Chains that stay -/

theorem sameShape_attempt {a : Arena} {result : Except Cause Arena}
    (h : ∀ b, result = .ok b → SameShape a b) : SameShape a (a.attempt result).2 := by
  cases result with
  | ok b => exact h b rfl
  | error cause => exact .refl a

theorem sameShape_attemptDeclare (a : Arena) (id : ScopeId) (name : Identifier) (value : Value)
    (constant : Bool) :
    SameShape a (a.attemptDeclare (a.declare id name value constant)).2 := by
  rcases hdeclare : a.declare id name value constant with ⟨warning, cause | ⟨declared, b⟩⟩
  · exact .refl a
  · have hshape : SameShape a b :=
      sameShape_declare (by rw [hdeclare])
    exact hshape

/-- A request that goes by the rules keeps the chain of every scope that stays live. -/
theorem Chain.serve {a : Arena} (ht : a.Tidy) {request : Request} (hallowed : request.Allowed a)
    {id : ScopeId} (hlive : (request.serve Arena.create a).2.isLive id) {ids : List ScopeId}
    (hc : Chain a id ids) : Chain (request.serve Arena.create a).2 id ids := by
  cases request with
  | create outer => exact hc.create ht outer
  | release released =>
    refine hc.release ?_ hallowed.2
    rintro rfl
    simp [Request.serve, isLive, get?_release] at hlive
  | declare scope name value constant =>
    exact hc.congr (sameShape_attemptDeclare a scope name value constant).link?
  | bindParameter scope name value =>
    exact hc.congr (sameShape_attempt fun b hb => sameShape_bind hb).link?
  | reassign scope name value =>
    exact hc.congr (sameShape_attempt fun b hb => sameShape_reassign hb).link?
  | _ => exact hc

/-- Requests that go by the rules go by them after the first few, in an arena that some other arena
still mirrors. -/
theorem Mirrors.serveAll {ρ : ScopeId → ScopeId} {a b : Arena} (h : Mirrors ρ a b)
    {before after : List Request} (hd : a.Disciplined (before ++ after)) :
    (a.serveAll before).Disciplined after ∧ ∃ ρ b, Mirrors ρ (a.serveAll before) b := by
  induction before generalizing ρ a b with
  | nil => exact ⟨hd, ρ, b, h⟩
  | cons request before ih =>
    obtain ⟨-, hserve⟩ := h.serve hd.1
    exact ih hserve hd.2

/-- An arena that reuses the numbers of released scopes gives the answers of one that never reuses a
number, to all requests that go by the rules. While a scope is live its chain stays as it is, and a
new scope takes the place of no live one and holds nothing. -/
theorem recycling_unseen {requests : List Request} (h : empty.Disciplined requests) :
    (∀ answer ∈ empty.answers empty id requests, answer.2 = answer.1) ∧
      ∀ before request after, requests = before ++ request :: after →
        let a := empty.serveAll before
        let a' := (request.serve create a).2
        (∀ id, a'.isLive id → ∀ ids, Chain a id ids → Chain a' id ids) ∧
          ∀ outer, request = .create outer →
            a.get? (a.create outer).1 = none ∧
              a'.get? (a.create outer).1 = some (.empty outer) := by
  refine ⟨(Mirrors.empty id).answers h, ?_⟩
  rintro before request after rfl
  obtain ⟨hd, ρ, b, hmirrors⟩ := (Mirrors.empty id).serveAll h
  refine ⟨fun id hlive ids hc => hc.serve hmirrors.tidy hd.1 hlive, ?_⟩
  rintro outer rfl
  refine ⟨get?_create_self hmirrors.tidy outer, ?_⟩
  rw [Request.serve, get?_create hmirrors.tidy, if_pos rfl]

/-- A name is bound in a scope, which is released; the next scope is asked for the name. -/
def successor : List Request :=
  [.create none, .create (some 0), .declare 1 ⟨"x", 1⟩ (.boolean true) false, .release 1,
    .create (some 0), .lookup 1 "x", .parent 1]

/-- The number 1 goes to both scopes in one arena, to the first only in the other, and neither finds
the name in the second scope. -/
theorem recycling_unseen_successor :
    empty.Disciplined successor ∧
      (∀ answer ∈ empty.answers empty id successor, answer.2 = answer.1) ∧
      (empty.answers empty id successor).map Prod.snd =
        [.created 0, .created 1, .declared none (.ok .fresh), .released, .created 2,
          .value (.error (.variableNotDeclared "x")), .parent (.ok (some 0))] := by
  have hd : empty.Disciplined successor := by
    have houter {a : Arena} (h : a.isLive 0) : ∀ id ∈ some 0, a.isLive id :=
      fun _ hmem => Option.some.inj hmem ▸ h
    refine ⟨nofun, houter rfl, rfl, ⟨by decide, ?_⟩, houter rfl, rfl, rfl, trivial⟩
    rintro (_ | _ | other) <;> nofun
  exact ⟨hd, (recycling_unseen hd).1, by rfl⟩

end Arena

end Script
