import Mathlib.Data.List.Perm.Subperm
import Script.Proofs.Scope.Slots

/-!
# Chains of scopes

The scopes that a walk outward goes through form a chain: every one is live, and each names the next
as its parent. On a chain the walks of an arena say what they look for, and the bound they are given
plays no part; no operation comes to a scope that is not live.

An arena is linked from a scope when the chain from there meets no scope twice, ends at the root and
leaves no live scope out. Only the parent links of the live scopes matter for that, and no binding
changes them.
-/

namespace Script.Arena

/-- The parent link of a live scope. -/
def link? (a : Arena) (id : ScopeId) : Option (Option ScopeId) :=
  (a.get? id).map (·.parent)

/-- The scopes that a walk outward from a scope goes through. -/
inductive Chain (a : Arena) : ScopeId → List ScopeId → Prop
  | last {id : ScopeId} : a.link? id = some none → Chain a id [id]
  | link {id parent : ScopeId} {ids : List ScopeId} :
    a.link? id = some (some parent) → Chain a parent ids → Chain a id (id :: ids)

/-- The chain from `active` is a list without repetition of exactly the live scopes, and ends at the
root. -/
def Linked (a : Arena) (active : ScopeId) : Prop :=
  ∃ ids, Chain a active ids ∧ ids.Nodup ∧ ids.getLast? = some root ∧
    ∀ id, a.isLive id ↔ id ∈ ids

/-- What a scope itself binds a name to. -/
def binding? (a : Arena) (name : String) (id : ScopeId) : Option Binding :=
  (a.get? id).bind (·.get? name)

theorem link?_eq_some {a : Arena} {id : ScopeId} {parent : Option ScopeId} :
    a.link? id = some parent ↔ ∃ scope, a.get? id = some scope ∧ scope.parent = parent :=
  Option.map_eq_some_iff

theorem isLive_eq_isSome_link? (a : Arena) (id : ScopeId) : a.isLive id = (a.link? id).isSome := by
  simp [isLive, link?]

theorem isLive_congr {a b : Arena} (h : ∀ id, b.link? id = a.link? id) (id : ScopeId) :
    b.isLive id = a.isLive id := by
  rw [isLive_eq_isSome_link?, isLive_eq_isSome_link?, h]

namespace Chain

variable {a b : Arena} {id : ScopeId} {ids : List ScopeId}

theorem congr (h : ∀ id, b.link? id = a.link? id) (hc : Chain a id ids) : Chain b id ids := by
  induction hc with
  | last hlast => exact .last (by rw [h, hlast])
  | link hlink _ ih => exact .link (by rw [h, hlink]) ih

theorem self_mem (hc : Chain a id ids) : id ∈ ids := by
  cases hc <;> simp

theorem isLive_of_mem (hc : Chain a id ids) {other : ScopeId} (h : other ∈ ids) :
    a.isLive other := by
  induction hc with
  | last hlast =>
    rw [List.mem_singleton.1 h, isLive_eq_isSome_link?, hlast]
    rfl
  | link hlink _ ih =>
    obtain rfl | h := List.mem_cons.1 h
    · rw [isLive_eq_isSome_link?, hlink]
      rfl
    · exact ih h

/-- From every scope of a chain the rest of it is a chain again. -/
theorem suffix_of_mem (hc : Chain a id ids) {other : ScopeId} (h : other ∈ ids) :
    ∃ rest, Chain a other rest ∧ rest <:+ ids := by
  induction hc with
  | last hlast =>
    obtain rfl := List.mem_singleton.1 h
    exact ⟨_, .last hlast, List.suffix_rfl⟩
  | link hlink hrest ih =>
    obtain rfl | h := List.mem_cons.1 h
    · exact ⟨_, .link hlink hrest, List.suffix_rfl⟩
    · obtain ⟨rest, hchain, hsuffix⟩ := ih h
      exact ⟨rest, hchain, hsuffix.trans (List.suffix_cons ..)⟩

theorem unique (hc : Chain a id ids) {others : List ScopeId} (hc' : Chain a id others) :
    others = ids := by
  induction hc generalizing others with
  | last hlast =>
    cases hc' with
    | last => rfl
    | link hlink => cases hlast.symm.trans hlink
  | link hlink _ ih =>
    cases hc' with
    | last hlast => cases hlast.symm.trans hlink
    | link hlink' hrest =>
      cases hlink.symm.trans hlink'
      rw [ih hrest]

/-- A chain ends, so it does not come back to a scope. -/
theorem nodup (hc : Chain a id ids) : ids.Nodup := by
  induction hc with
  | last => simp
  | link hlink hrest ih =>
    refine List.nodup_cons.2 ⟨fun hmem => ?_, ih⟩
    obtain ⟨rest, hagain, hsuffix⟩ := hrest.suffix_of_mem hmem
    have hlength := hsuffix.length_le
    rw [(Chain.link hlink hrest).unique hagain, List.length_cons] at hlength
    omega

theorem length_le_walkBound (hc : Chain a id ids) (h : ids.Nodup) : ids.length ≤ a.walkBound := by
  have hsub : ids ⊆ List.range a.slots.size := fun other hmem => by
    obtain ⟨scope, hscope⟩ := isLive_iff.1 (hc.isLive_of_mem hmem)
    exact List.mem_range.2 (lt_size_of_get? hscope)
  have hle := (List.subperm_of_subset h hsub).length_le
  rw [List.length_range] at hle
  exact Nat.le_succ_of_le hle

/-! ### Walks along a chain -/

theorem find?_eq (hc : Chain a id ids) (name : String) {bound : Nat} (h : ids.length ≤ bound) :
    a.find? name bound id = .ok (ids.findSome? (a.binding? name)) := by
  induction hc generalizing bound with
  | last hlast =>
    obtain ⟨scope, hscope, hparent⟩ := link?_eq_some.1 hlast
    obtain ⟨bound, rfl⟩ : ∃ n, bound = n + 1 := ⟨bound - 1, by simp at h; omega⟩
    cases hget : scope.get? name <;>
      simp [find?, Arena.scope, binding?, hscope, hparent, hget, Bind.bind, Except.bind]
  | @link _ _ ids hlink _ ih =>
    obtain ⟨scope, hscope, hparent⟩ := link?_eq_some.1 hlink
    obtain ⟨bound, rfl⟩ : ∃ n, bound = n + 1 := ⟨bound - 1, by simp at h; omega⟩
    have hbound : ids.length ≤ bound := by simpa using h
    cases hget : scope.get? name <;>
      simp [find?, Arena.scope, binding?, hscope, hparent, hget, Bind.bind, Except.bind, ih hbound]

theorem holdsOutward_eq (hc : Chain a id ids) (name : String) {bound : Nat}
    (h : ids.length ≤ bound) :
    a.holdsOutward name bound id = .ok (ids.any fun id => (a.binding? name id).isSome) := by
  induction hc generalizing bound with
  | last hlast =>
    obtain ⟨scope, hscope, hparent⟩ := link?_eq_some.1 hlast
    obtain ⟨bound, rfl⟩ : ∃ n, bound = n + 1 := ⟨bound - 1, by simp at h; omega⟩
    cases hget : scope.get? name <;>
      simp [holdsOutward, Arena.scope, Scope.holds, binding?, hscope, hparent, hget,
        Bind.bind, Except.bind, Pure.pure, Except.pure]
  | @link _ _ ids hlink _ ih =>
    obtain ⟨scope, hscope, hparent⟩ := link?_eq_some.1 hlink
    obtain ⟨bound, rfl⟩ : ∃ n, bound = n + 1 := ⟨bound - 1, by simp at h; omega⟩
    have hbound : ids.length ≤ bound := by simpa using h
    cases hget : scope.get? name <;>
      simp [holdsOutward, Arena.scope, Scope.holds, binding?, hscope, hparent, hget,
        Bind.bind, Except.bind, Pure.pure, Except.pure, ih hbound]

theorem assignmentTarget_eq (hc : Chain a id ids) (name : String) {bound : Nat}
    (h : ids.length ≤ bound) (nearest : Option ScopeId) :
    a.assignmentTarget name bound nearest id =
      if ids.any fun id => (a.binding? name id).any (·.constant) then
        .error (.constReassignment name)
      else .ok (nearest.or (ids.find? fun id => (a.binding? name id).isSome)) := by
  induction hc generalizing bound nearest with
  | last hlast =>
    obtain ⟨scope, hscope, hparent⟩ := link?_eq_some.1 hlast
    obtain ⟨bound, rfl⟩ : ∃ n, bound = n + 1 := ⟨bound - 1, by simp at h; omega⟩
    rcases hget : scope.get? name with _ | ⟨value, _ | _⟩ <;>
      simp [assignmentTarget, Arena.scope, binding?, hscope, hparent, hget, Bind.bind, Except.bind]
  | @link _ _ ids hlink _ ih =>
    obtain ⟨scope, hscope, hparent⟩ := link?_eq_some.1 hlink
    obtain ⟨bound, rfl⟩ : ∃ n, bound = n + 1 := ⟨bound - 1, by simp at h; omega⟩
    have hbound : ids.length ≤ bound := by simpa using h
    rcases hget : scope.get? name with _ | ⟨value, _ | _⟩ <;>
      simp [assignmentTarget, Arena.scope, binding?, hscope, hparent, hget, Bind.bind, Except.bind,
        ih hbound]

end Chain

end Script.Arena
