import Script.Proofs.Eval.Isolation
import Script.Proofs.Eval.Provenance.Modules

/-!
# What equality says in a run

Equality knows a function by its number and a native by its name. In a program all functions that
are compared are from the library or were made before, each with a number of its own, so those that
are equal are one and the same. Of the natives two have one name.
-/

namespace Script

open Lockstep Machine

/-! ### Numbers -/

/-- The functions in a library have numbers of their own, which no function has that was made. -/
structure Library.Apart (library : Library) (events : List Event) : Prop where
  injOn : library.functions.InjOn UserFunction.id
  apart : ∀ f ∈ library.functions, ∀ g, .made g ∈ events → f.id ≠ g.id

theorem Library.id_mem_numbers {library : Library} {f : UserFunction}
    (h : f ∈ library.functions) : f.id ∈ library.numbers := by
  have hmentions {value : Value} (h : value.Holds f) : value.Mentions f.id := by
    induction h with
    | self => exact .function rfl
    | item hmem _ ih => exact .item hmem ih
  obtain ⟨module, exports, hmodule, entry, hmem, hf⟩ := h
  exact ⟨module, exports, hmodule, entry, hmem, hmentions hf⟩

theorem Library.notMem_standard (f : UserFunction) : f ∉ Library.standard.functions := fun hf => by
  have hid := Library.id_mem_numbers hf
  rwa [Library.numbers_standard] at hid

theorem Library.apart_standard (events : List Event) : Library.standard.Apart events :=
  ⟨fun f hf => absurd hf (notMem_standard f), fun f hf => absurd hf (notMem_standard f)⟩

theorem Moment.Numbered.injOn {library : Library} {x : Moment} (hx : x.Numbered)
    (h : library.Apart x.events) : (x.functions library).InjOn UserFunction.id := by
  rintro f (hf | hf) g (hg | hg) hid
  · exact h.injOn hf hg hid
  · exact absurd hid (h.apart f hf g hg)
  · exact absurd hid.symm (h.apart g hg f hf)
  · have hsymm : Std.Symm fun later earlier : Event =>
        ∀ f g, later = .made f → earlier = .made g → f.id ≠ g.id :=
      ⟨fun _ _ h f g hf hg => (h g f hg hf).symm⟩
    by_contra hne
    exact hx.distinct.forall hf hg (fun heq => hne (Event.made.inj heq)) f g rfl rfl hid

/-- What a primitive does is one thing at most. -/
theorem Primitive.next {own : Set String} {m n : Machine} (h : Primitive own m n) :
    m.now.Next n.now := by
  cases h with
  | wrote _ | warned _ | bound _ _ | reassigned _ =>
    rw [now_step]
    exact .quiet rfl rfl
  | boundGlobal _ =>
    rw [now_stepWith, now_step]
    exact .done _ rfl rfl
  | returned htype hcheck =>
    rw [now_stepWith]
    exact .done _ rfl (.inl ⟨⟨_, htype, DeclaredType.accepts_of_check hcheck⟩, rfl⟩)
  | inferred htype =>
    rw [now_stepWith]
    exact .done _ rfl (.inr ⟨htype, rfl⟩)
  | made hid =>
    rw [now_stepWith]
    exact .done _ rfl ⟨hid, rfl⟩
  | raised cause =>
    rw [now_raise]
    exact .quiet rfl rfl

theorem Machine.numbered_quiet {m : Machine} (hm : m.now.Numbered)
    {calls : List UserFunction → List UserFunction} {f : State → State}
    (hf : (f m.toState).world.inferred = m.world.inferred) : (m.stepWith calls f).now.Numbered := by
  have hnext : m.now.Next (m.stepWith calls f).now := by
    rw [now_stepWith]
    exact .quiet rfl hf
  exact hnext.numbered hm

theorem guarded_numbered : Guarded (fun m => m.now.Numbered) fun _ _ _ => True where
  refl := trivial
  trans _ _ := trivial
  mono _ _ := trivial
  primitive hm h := ⟨h.next.numbered hm, trivial⟩
  enterScope hm := numbered_quiet hm rfl
  leaveScope _ hn _ := ⟨numbered_quiet hn rfl, trivial⟩
  enterCall hm _ := numbered_quiet hm rfl
  leaveCall _ hn _ := ⟨numbered_quiet hn rfl, trivial⟩

theorem numbered_evaluate {ctx : Context} {fuel : Nat} {expr : Expr} {m n : Machine} {value : Value}
    (hm : m.now.Numbered) (h : evaluate (callFunction ctx fuel) expr m = .ok value n) :
    n.now.Numbered := by
  have hlawful : (alone (fun m => m.now.Numbered) fun _ _ _ => True).LawfulTopLevels :=
    guarded_numbered.lawful
  have hcall : (alone (fun m => m.now.Numbered) fun _ _ _ => True).Calls
      (callFunction ctx fuel) (callFunction ctx fuel) :=
    hlawful.callFunction rfl rfl fuel
  exact Run.after_of_ok h ▸ (hlawful.evaluate hcall expr m m ⟨rfl, hm⟩).after.1

theorem Reachable.numbered {ctx : Context} {m : Machine} (h : Reachable ctx m) :
    m.now.Numbered := by
  obtain ⟨m₀, hidle, hmem⟩ := h
  exact (hidle.consistent _ hmem).2

/-! ### Operands -/

section

variable {ctx : Context} {m n k : Machine} {fuel : Nat} {file : String} {left right : Expr}
  {value other : Value}

/-- In the values of two operands a number stands for one function. -/
theorem Reachable.agrees (h : Reachable ctx m)
    (hleft : evaluate (callFunction { ctx with file } fuel) left m = .ok value n)
    (hright : evaluate (callFunction { ctx with file } fuel) right n = .ok other k)
    (hlibrary : ctx.library.Apart k.now.events) : value.Agrees other := by
  have hcall := grounded_callFunction ctx.library { ctx with file } fuel
  obtain ⟨hn, hvalue⟩ := (grounds_evaluate hcall left h.grounded).of_eq_ok hleft
  obtain ⟨hk, hother⟩ := (grounds_evaluate hcall right hn.grounded).of_eq_ok hright
  have hnumbered := numbered_evaluate (numbered_evaluate h.numbered hleft) hright
  exact (hvalue.mono hk.functions).agrees hother (hnumbered.injOn hlibrary)

theorem evaluate_operation {call : Caller} {operator : Operator BinaryOp} {op : Operation}
    (hoperator : operator.op = .operation op) (span : Span) :
    evaluate call (.binary left operator right span) m = .ok value k ↔
      ∃ first n second, evaluate call left m = .ok first n ∧ evaluate call right n = .ok second k ∧
        op.apply operator.text first.promote second.promote = .ok value := by
  rw [evaluate_of_operation hoperator]
  constructor
  · intro h
    obtain ⟨first, n, hleft, h⟩ := Run.bind_eq_ok.1 h
    obtain ⟨second, _, hright, h⟩ := Run.bind_eq_ok.1 h
    obtain ⟨happly, rfl⟩ := Run.ofExcept_eq_ok.1 h
    exact ⟨first, n, second, hleft, hright, happly⟩
  · rintro ⟨first, n, second, hleft, hright, happly⟩
    exact Run.bind_eq_ok.2 ⟨first, n, hleft, Run.bind_eq_ok.2 ⟨second, k, hright,
      Run.ofExcept_eq_ok.2 ⟨happly, rfl⟩⟩⟩

end

/-- Equality is an equivalence of all values. Promoting a value, or an item somewhere inside of it,
changes no answer. Equal values are of one type, and their texts are the same, by themselves and as
items of a list, if a number stands for one function in both. In a program it does: between values
that are compared there are not two functions of one number. -/
theorem Value.equals_congruence :
    (∀ value : Value, value.equals value) ∧
    (∀ value other : Value, value.equals other → other.equals value) ∧
    (∀ first second third : Value, first.equals second → second.equals third →
      first.equals third) ∧
    (∀ value promoted other : Value, value.Promotes promoted →
      promoted.equals other = value.equals other ∧ other.equals promoted = other.equals value) ∧
    (∀ value other : Value, value.equals other → value.typeOf = other.typeOf ∧
      (value.Agrees other → value.display = other.display ∧ ∀ before after,
        (list (before ++ value :: after)).display = (list (before ++ other :: after)).display)) ∧
    ∀ (ctx : Context) (m : Machine), Reachable ctx m → ∀ fuel file left right value n other k,
      evaluate (callFunction { ctx with file } fuel) left m = .ok value n →
      evaluate (callFunction { ctx with file } fuel) right n = .ok other k →
      ctx.library.Apart k.now.events → value.Agrees other := by
  refine ⟨fun value => ?_, fun value other h => ?_, fun first second third h h' => ?_,
    fun value promoted other h => ?_, fun value other h => ?_, ?_⟩
  · exact (equals_iff _ _).2 rfl
  · rw [equals_iff] at h ⊢
    exact h.symm
  · rw [equals_iff] at h h' ⊢
    exact h.trans h'
  · have hkey := h.key_eq
    exact ⟨Bool.eq_iff_iff.2 (by rw [equals_iff, equals_iff, hkey]),
      Bool.eq_iff_iff.2 (by rw [equals_iff, equals_iff, hkey])⟩
  · have hkey := (equals_iff _ _).1 h
    refine ⟨typeOf_of_key hkey, fun hagrees => ⟨display_eq hagrees hkey, fun before after => ?_⟩⟩
    simp only [display_list, List.map_append, List.map_cons, displayItem_eq hagrees hkey]
  · exact fun ctx m h fuel file left right value n other k => h.agrees

/-- A list in a list with a thin number in it, and the same with the number promoted. -/
theorem Value.equals_congruence_of_nested :
    let seven : Integer := ⟨7, by decide, by decide⟩
    let value : Value := .list [.list [.thin (.integer seven)], .string "7"]
    let promoted : Value := .list [.list [.integer seven], .string "7"]
    value.Promotes promoted ∧ value.equals promoted ∧ value.display = promoted.display := by
  intro seven value promoted
  have hpromotes : value.Promotes promoted :=
    .item [] [.string "7"] (.item [] [] (.self (.thin (.integer seven))))
  have hagrees : value.Agrees promoted :=
    Over.agrees (K := ∅) (by simp [value]) (by simp [promoted]) fun f hf => hf.elim
  obtain ⟨hrefl, -, -, hpromoted, htexts, -⟩ := equals_congruence
  have hequals : value.equals promoted := (hpromoted value promoted value hpromotes).2 ▸ hrefl value
  exact ⟨hpromotes, hequals, ((htexts value promoted hequals).2 hagrees).1⟩

/-- Where the values of two operands that are equal have a function, by themselves or as items of
lists, they have the same function there, or else the two natives of one name. -/
theorem Reachable.equal_functions {ctx : Context} {m k : Machine} (h : Reachable ctx m)
    {fuel : Nat} {file : String} {left right : Expr} {operator : Operator BinaryOp} {span : Span}
    (hoperator : operator.op = .operation .equals)
    (hequal : evaluate (callFunction { ctx with file } fuel) (.binary left operator right span) m =
      .ok (.boolean true) k)
    (hlibrary : ctx.library.Apart k.now.events) :
    ∃ value n other, evaluate (callFunction { ctx with file } fuel) left m = .ok value n ∧
      evaluate (callFunction { ctx with file } fuel) right n = .ok other k ∧
      ∀ path f, value.at? path = some f → f.typeOf = .function →
        ∃ g, other.at? path = some g ∧ (f = g ∨ f.Namesakes g) := by
  obtain ⟨value, n, other, hleft, hright, happly⟩ := (evaluate_operation hoperator span).1 hequal
  refine ⟨value, n, other, hleft, hright, fun path f hf hfunction => ?_⟩
  have hequals : value.equals other := by
    have hpromoted : value.promote.equals other.promote := by simpa [Operation.apply] using happly
    rwa [Value.equals_iff, Value.key_promote, Value.key_promote, ← Value.equals_iff] at hpromoted
  exact Value.exists_function_of_equals (h.agrees hleft hright hlibrary) hequals hf hfunction

/-- Whether a run gives the value `true`. -/
def Run.isTrue (x : Run Value) (m : Machine) : Bool :=
  match x m with
  | .ok (.boolean b) _ => b
  | _ => false

theorem Run.ok_of_isTrue {x : Run Value} {m : Machine} (h : x.isTrue m) :
    ∃ n, x m = .ok (.boolean true) n := by
  unfold isTrue at h
  split at h
  · next b n hok =>
    subst h
    exact ⟨n, hok⟩
  · cases h

/-- The expression `left == right` for two names. -/
def Expr.sameNames (left right : String) : Expr :=
  .binary (.symbol left default) ⟨.operation .equals, "==", default⟩ (.symbol right default) default

theorem Reachable.equal_functions_of_lists :
    let ctx : Context := ⟨"main.vi", false, 200, .standard, .empty⟩
    let source := "fn f() \x7b return 1; \x7d fn main(files) \x7b \x7d " ++
      "let left = [1, f]; let right = [1, f];"
    let m := (execute 8 ctx source (.first ctx (.empty none))).2
    Reachable ctx m ∧ ∃ k value n other,
      evaluate (callFunction ctx 8) (.sameNames "left" "right") m = .ok (.boolean true) k ∧
      evaluate (callFunction ctx 8) (.symbol "left" default) m = .ok value n ∧
      evaluate (callFunction ctx 8) (.symbol "right" default) n = .ok other k ∧
      ∀ f, value.at? [1] = some f → f.typeOf = .function →
        ∃ g, other.at? [1] = some g ∧ (f = g ∨ f.Namesakes g) := by
  intro ctx source m
  have h : Reachable ctx m := ((Idle.first _).executed 8 source).reachable
  obtain ⟨k, hequal⟩ := Run.ok_of_isTrue (m := m)
    (x := evaluate (callFunction ctx 8) (.sameNames "left" "right")) (by decide +kernel)
  obtain ⟨value, n, other, hleft, hright, hfunctions⟩ :=
    h.equal_functions rfl hequal (Library.apart_standard _)
  exact ⟨h, k, value, n, other, hequal, hleft, hright, hfunctions [1]⟩

/-- The natives `len` of lists and of strings count as equal, but only the latter takes a string. -/
theorem Reachable.equal_functions_apart :
    let ctx : Context := ⟨"main.vi", false, 200, .standard, .empty⟩
    let source := "import len from std.list; let first = len; import len from std.string; " ++
      "fn main(files) \x7b \x7d"
    let m := (execute 4 ctx source (.first ctx (.empty none))).2
    let call := callFunction ctx 4
    let applied (f : String) : Expr := .call (.symbol f default) [.string "abc" default] default
    Reachable ctx m ∧ (evaluate call (.sameNames "first" "len")).isTrue m ∧
      (evaluate call (applied "first")).succeeds m = false ∧
      (evaluate call (applied "len")).succeeds m = true :=
  ⟨((Idle.first _).executed 4 _).reachable, by decide +kernel, by decide +kernel,
    by decide +kernel⟩

end Script
