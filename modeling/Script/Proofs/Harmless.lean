import Script.Proofs.Refusals

/-!
# Harmless refusals

What a program can be blamed for is never fatal. Here that is said of every computation on values:
operators, types, arguments and imported names may refuse what they are given, and none of these
refusals is a fault of the interpreter. Only the sink and the scopes are left to look at after that.
-/

namespace Script

/-- A refusal, if it is one, is not fatal. -/
abbrev Harmless (result : Except Cause α) : Prop :=
  RefusedAs (fun cause => cause.kind ≠ .fatal) result

theorem RefusedAs.harmless {result : Except Cause α} (h : RefusedAs Cause.Plain result) :
    Harmless result :=
  h.mono fun _ hplain => hplain.2

/-- What a write that failed has left. -/
def Sink.Refused (s : Sink) : Prop :=
  ∃ (before : Sink) (text : String), before.write text = (s, false)

theorem DeclaredType.harmless_check (declared : DeclaredType) (value : Value) :
    Harmless (declared.check value) :=
  (declared.plain_check value).harmless

theorem Value.harmless_condition (value : Value) : Harmless value.condition :=
  value.plain_condition.harmless

theorem Value.harmless_asIndex (value : Value) : Harmless value.asIndex :=
  value.plain_asIndex.harmless

theorem Value.harmless_get (value : Value) (index : Integer) : Harmless (value.get index) :=
  (value.plain_get index).harmless

theorem Operation.harmless_apply (op : Operation) (symbol : String) (left right : Value) :
    Harmless (op.apply symbol left right) :=
  op.refused_apply (fun _ h => h.2) (fun _ _ => nofun) left right

theorem UnaryOp.harmless_apply (op : UnaryOp) (symbol : String) (value : Value) :
    Harmless (op.apply symbol value) :=
  op.refused_apply (fun _ h => h.2) (fun _ _ => nofun) value

theorem UserFunction.harmless_checkArguments (f : UserFunction) (arguments : List Value) :
    Harmless (f.checkArguments arguments) :=
  (f.plain_checkArguments arguments).harmless

theorem Native.harmless_result (f : Native) (arguments : List Value) :
    Harmless (f.result arguments) :=
  (f.plain_result arguments).harmless

/-- Only `print` has a fatal failure, and only when the sink refuses what it writes. -/
theorem Native.call_error {f : Native} {arguments : List Value} {sink sink' : Sink} {cause : Cause}
    (h : f.call arguments sink = (.error cause, sink')) (hfatal : cause.kind = .fatal) :
    cause = writeFailed ∧ sink'.Refused := by
  have hrest (hresult : (f.result arguments, sink) = (.error cause, sink')) :
      cause = writeFailed ∧ sink'.Refused :=
    absurd hfatal (f.harmless_result arguments cause (congrArg Prod.fst hresult))
  cases f with
  | print =>
    unfold call at h
    dsimp only at h
    split at h
    · cases h
    · next hwrite =>
      simp only [Prod.mk.injEq, Except.error.injEq] at h
      obtain ⟨rfl, rfl⟩ := h
      exact ⟨rfl, sink, _, hwrite⟩
  | _ => exact hrest h

theorem harmless_findNames {module : String} {find : String → Except Cause (Option Value)}
    (hfind : ∀ name, Harmless (find name)) (names : List Identifier) :
    Harmless (findNames module find names) :=
  refused_findNames (fun _ => nofun) hfind names

theorem harmless_findInLibrary (ctx : Context) (module : String) (names : List Identifier) :
    Harmless (findInLibrary ctx module names) :=
  (plain_findInLibrary ctx module names).harmless

end Script
