import Cpplox.Vm.Session
import Cpplox.Vm.TwinInstructions

namespace Cpplox

open Data

/-! Twin machines are made, load a compiled source, and start it alike. -/

variable {N : Type} {pairing : Addresses} {vm twinVm : VM N} {platform twinPlatform : Platform N}

theorem Object.Twin.kind {object twinObject : Object N} (twin : object.Twin pairing twinObject) :
    object.kind = twinObject.kind := by
  cases twin <;> rfl

namespace VM.Paired

theorem intern (paired : VM.Paired pairing vm twinVm) (chars : Text) :
    Together VM.Paired (fun later ptr twinPtr => later.pairs ptr twinPtr) pairing
      (intern platform chars)
      (Cpplox.intern twinPlatform chars) vm twinVm :=
  paired.together (.get chars) (.get chars)
    (paired.twins.intern paired.interned paired.twinInterned chars)

theorem make (paired : VM.Paired pairing vm twinVm) {object twinObject : Object N}
    (twin : object.Twin pairing twinObject) (other : object.kind ≠ .string) :
    Together VM.Paired (fun later ptr twinPtr => later.pairs ptr twinPtr) pairing (make platform object)
      (Cpplox.make twinPlatform twinObject) vm twinVm :=
  paired.together (.make other) (.make (twin.kind ▸ other)) (paired.twins.make twin)

variable {made twinMade : List Ptr}

theorem loadConstant (paired : VM.Paired pairing vm twinVm)
    (same : List.Forall₂ pairing.pairs made twinMade)
    (constant : Constant N) :
    Together VM.Paired Value.Twin pairing (loadConstant platform made constant)
      (Cpplox.loadConstant twinPlatform twinMade constant) vm twinVm := by
  cases constant with
  | number value => exact .pure paired (.number value)
  | string chars =>
      exact (paired.intern chars).bind fun _ _ _ _ _ _ interned pair => .pure interned (.string pair)
  | function index =>
      simp only [Cpplox.loadConstant]
      rcases some_or_none (alike_getElem? same index) with ⟨_, _, found, twinFound, pair⟩ |
        ⟨none, twinNone⟩
      · simp only [found, twinFound]
        exact .pure paired (.function pair)
      · simp only [none, twinNone]
        exact .throw _ paired

theorem loadConstants (paired : VM.Paired pairing vm twinVm)
    (same : List.Forall₂ pairing.pairs made twinMade)
    (constants : List (Constant N)) :
    Together VM.Paired (fun later => List.Forall₂ (Value.Twin later)) pairing
      (loadConstants platform made constants)
      (Cpplox.loadConstants twinPlatform twinMade constants) vm twinVm := by
  induction constants generalizing pairing vm twinVm with
  | nil => exact .pure paired .nil
  | cons constant rest ih =>
      refine (paired.loadConstant same constant).bind fun _ _ _ _ _ le loaded value => ?_
      refine (ih loaded (same.imp le)).bind fun _ _ _ _ _ twinLe others values => ?_
      exact .pure others (.cons (value.mono twinLe) values)

theorem loadTokens (paired : VM.Paired pairing vm twinVm) (tokens : List (SourceMapToken Text)) :
    Together VM.Paired (fun later => List.Forall₂ (SourceMapToken.Twin later)) pairing
      (loadTokens platform tokens) (Cpplox.loadTokens twinPlatform tokens) vm twinVm := by
  induction tokens generalizing pairing vm twinVm with
  | nil => exact .pure paired .nil
  | cons token rest ih =>
      refine (paired.intern token.lexeme).bind fun _ _ _ _ _ _ interned lexeme => ?_
      refine (ih interned).bind fun _ _ _ _ _ twinLe others tokens => ?_
      exact .pure others (.cons ⟨twinLe _ _ lexeme, rfl⟩ tokens)

theorem loadFunction (paired : VM.Paired pairing vm twinVm)
    (same : List.Forall₂ pairing.pairs made twinMade)
    (function : Function (Constant N) Text) :
    Together VM.Paired (fun later ptr twinPtr => later.pairs ptr twinPtr) pairing
      (loadFunction platform made function)
      (Cpplox.loadFunction twinPlatform twinMade function) vm twinVm := by
  refine (paired.intern function.name).bind fun _ _ _ _ _ le named name => ?_
  refine (named.loadConstants (same.imp le) _).bind fun _ _ _ _ _ twinLe loaded constants => ?_
  refine (loaded.loadTokens _).bind fun _ _ _ _ _ later mapped tokens => ?_
  refine mapped.make (.function ?_) (by simp [Object.kind])
  exact ⟨later _ _ (twinLe _ _ name), rfl, rfl, constants.imp fun _ _ value => value.mono later, tokens⟩

theorem loadAll (paired : VM.Paired pairing vm twinVm) (same : List.Forall₂ pairing.pairs made twinMade)
    (functions : List (Function (Constant N) Text)) :
    Together VM.Paired (fun later => List.Forall₂ later.pairs) pairing
      (loadAll platform made functions) (Cpplox.loadAll twinPlatform twinMade functions) vm twinVm := by
  induction functions generalizing pairing vm twinVm made twinMade with
  | nil => exact .pure paired same
  | cons function rest ih =>
      refine (paired.loadFunction same function).bind fun _ _ _ _ _ le loaded pair => ?_
      exact ih loaded (List.rel_append (same.imp le) (.cons pair .nil))

theorem start (paired : VM.Paired pairing vm twinVm) {function twinFunction : Ptr}
    (pair : pairing.pairs function twinFunction) :
    Together VM.Paired (fun _ _ _ => True) pairing (start platform function)
      (Cpplox.start twinPlatform twinFunction) vm twinVm := by
  refine .bind (paired.make (.closure ?_) (by simp [Object.kind])) fun _ _ _ _ _ _ made closure => ?_
  · exact ⟨pair, .nil, .nil⟩
  · exact .modify le_rfl (made.withFrames (.cons ⟨closure, rfl, rfl⟩ made.twins.callFrames))

theorem initial : VM.Paired Pairing.nothing ({} : VM N) {} where
  twins := ⟨fun _ _ none => none.elim, .nil, .nil, .nil, rfl, rfl⟩
  interned := interned_initial
  twinInterned := interned_initial

theorem construct (paired : VM.Paired pairing vm twinVm) :
    Together VM.Paired (fun _ _ _ => True) pairing (construct platform)
      (Cpplox.construct twinPlatform) vm twinVm := by
  refine paired.together follows_construct follows_construct ?_
  refine (paired.intern _).bindFrom (fun _ _ _ reached => reached.twins) fun _ _ _ _ _ _ named name =>
    ?_
  refine (named.twins.make .nativeFn).bind fun _ _ _ _ _ le made native => ?_
  exact .modify le_rfl (made.withGlobal (le _ _ name) (.nativeFn native))

theorem swap (paired : VM.Paired pairing vm twinVm) : VM.Paired pairing.swap twinVm vm :=
  ⟨paired.twins.swap, paired.twinInterned, paired.interned⟩

end VM.Paired

end Cpplox
