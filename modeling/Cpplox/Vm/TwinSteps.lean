import Cpplox.Vm.Elementary
import Cpplox.Vm.Interleaving
import Cpplox.Vm.Twins

namespace Cpplox

open Data

/-! What twin machines do together. -/

variable {N : Type} {pairing later : Addresses} {vm twinVm : VM N} {platform twinPlatform : Platform N}
  {ptr twinPtr : Ptr} {value twinValue : Value N} {object twinObject : Object N}

/-- Both machines get through it, or throw the same, and are twins afterwards. -/
abbrev Alongside (pairing : Addresses) (one two : VmM N Unit) (vm twinVm : VM N) : Prop :=
  Together VM.Twins (fun _ _ _ => True) pairing one two vm twinVm

/-- Both machines come to pointers that are paired. -/
abbrev Points (pairing : Addresses) (one two : VmM N Ptr) (vm twinVm : VM N) : Prop :=
  Together VM.Twins (fun later ptr twinPtr => later.pairs ptr twinPtr) pairing one two vm twinVm

namespace VM.Twins

theorem withStack (twins : VM.Twins pairing vm twinVm) {stack twinStack : List (Value N)}
    (same : List.Forall₂ (Value.Twin pairing) stack twinStack) :
    VM.Twins pairing { vm with stack } { twinVm with stack := twinStack } :=
  { twins with stack := same }

theorem push (twins : VM.Twins pairing vm twinVm) (twin : value.Twin pairing twinValue) :
    Alongside pairing (push value) (Cpplox.push twinValue) vm twinVm :=
  .modify le_rfl (twins.withStack (.cons twin twins.stack))

theorem erase (twins : VM.Twins pairing vm twinVm) (count : Nat) :
    Alongside pairing (erase count) (Cpplox.erase count) vm twinVm := by
  refine .get ?_
  rw [twins.stack.length_eq]
  split
  · exact .set le_rfl (twins.withStack (List.forall₂_drop count twins.stack))
  · exact .throw _ twins

theorem replace (twins : VM.Twins pairing vm twinVm) (depth : Nat)
    (twin : value.Twin pairing twinValue) :
    Alongside pairing (replace depth value) (Cpplox.replace depth twinValue) vm twinVm :=
  .modify le_rfl (twins.withStack (alike_set twins.stack depth twin))

/-- A write to the slot of a local or of an open upvalue. -/
theorem writeSlot (twins : VM.Twins pairing vm twinVm) (index : Nat)
    (twin : value.Twin pairing twinValue) :
    Alongside pairing
      (if index < vm.stack.length then set { vm with stack := setSlot vm.stack index value }
        else throw .outOfRange)
      (if index < twinVm.stack.length then
          set { twinVm with stack := setSlot twinVm.stack index twinValue }
        else throw .outOfRange) vm twinVm := by
  rw [twins.stack.length_eq]
  split
  · exact .set le_rfl (twins.withStack (alike_setSlot twins.stack index twin))
  · exact .throw _ twins

theorem alone (twins : VM.Twins pairing vm twinVm) (gone : vm.gcHeap.valueAt ptr = none) (other : Ptr) :
    ¬ pairing.pairs ptr other := by
  intro pair
  obtain ⟨object, _, found, -⟩ := twins.objects ptr other pair
  rw [gone] at found
  cases found

theorem live (twins : VM.Twins pairing vm twinVm) (pair : pairing.pairs ptr twinPtr) :
    vm.gcHeap.Live ptr := by
  obtain ⟨object, _, found, -⟩ := twins.objects ptr twinPtr pair
  exact GcHeap.valueAt_isSome.mp ⟨object, found⟩

/-- A write through pointers that are paired. -/
theorem setObject (twins : VM.Twins pairing vm twinVm) (pair : pairing.pairs ptr twinPtr)
    (twin : object.Twin pairing twinObject) :
    Alongside pairing (setObject ptr object) (Cpplox.setObject twinPtr twinObject) vm twinVm := by
  refine .modify le_rfl { twins with objects := fun one two paired => ?_ }
  simp only [GcHeap.valueAt_update (twins.live pair), GcHeap.valueAt_update (twins.swap.live pair),
    Pairing.eq_iff paired pair]
  split
  · exact ⟨object, twinObject, rfl, rfl, twin⟩
  · exact twins.objects one two paired

/-- Twin objects without a partner, old or new, become partners. -/
theorem join (twins : VM.Twins pairing vm twinVm) {gcHeap twinGcHeap : GcHeap (Object N)}
    {internedStrings twinInternedStrings : InternedStrings} {nMade twinNMade : Nat}
    {alone : ∀ other, ¬ pairing.pairs ptr other} {twinAlone : ∀ other, ¬ pairing.pairs other twinPtr}
    (keeps : ∀ other object, vm.gcHeap.valueAt other = some object → gcHeap.valueAt other = some object)
    (twinKeeps : ∀ other object, twinVm.gcHeap.valueAt other = some object →
      twinGcHeap.valueAt other = some object)
    (found : gcHeap.valueAt ptr = some object)
    (twinFound : twinGcHeap.valueAt twinPtr = some twinObject)
    (twin : object.Twin pairing twinObject) :
    VM.Twins (pairing.join ptr twinPtr alone twinAlone) { vm with gcHeap, internedStrings, nMade }
      { twinVm with
        gcHeap := twinGcHeap, internedStrings := twinInternedStrings, nMade := twinNMade } := by
  have le := Pairing.le_join alone twinAlone
  refine { twins with
    objects := ?_, stack := twins.stack.imp fun _ _ same => same.mono le
    callFrames := twins.callFrames.imp fun _ _ same => same.mono le
    globals := twins.globals.imp le fun _ _ same => same.mono le }
  rintro one two (pair | ⟨rfl, rfl⟩)
  · obtain ⟨old, twinOld, there, twinThere, same⟩ := twins.objects one two pair
    exact ⟨old, twinOld, keeps _ _ there, twinKeeps _ _ twinThere, same.mono le⟩
  · exact ⟨object, twinObject, found, twinFound, twin.mono le⟩

theorem make (twins : VM.Twins pairing vm twinVm) (twin : object.Twin pairing twinObject) :
    Points pairing (make platform object) (Cpplox.make twinPlatform twinObject) vm twinVm := by
  have alone : ∀ other, ¬ pairing.pairs (vm.fresh platform) other := twins.alone valueAt_fresh
  have twinAlone : ∀ other, ¬ pairing.pairs other (twinVm.fresh twinPlatform) :=
    twins.swap.alone valueAt_fresh
  exact .returns (Pairing.le_join alone twinAlone) (run_make object) (run_make twinObject)
    (twins.join (fun _ _ there => valueAt_made_of there) (fun _ _ there => valueAt_made_of there)
      ((valueAt_made object _).trans (if_pos rfl))
      ((valueAt_made twinObject _).trans (if_pos rfl)) twin)
    Pairing.join_pairs

/-- More may be on the heaps than before. -/
theorem grow (twins : VM.Twins pairing vm twinVm) {gcHeap twinGcHeap : GcHeap (Object N)}
    {internedStrings twinInternedStrings : InternedStrings} {nMade twinNMade : Nat}
    (keeps : ∀ other object, vm.gcHeap.valueAt other = some object → gcHeap.valueAt other = some object)
    (twinKeeps : ∀ other object, twinVm.gcHeap.valueAt other = some object →
      twinGcHeap.valueAt other = some object) :
    VM.Twins pairing { vm with gcHeap, internedStrings, nMade }
      { twinVm with
        gcHeap := twinGcHeap, internedStrings := twinInternedStrings, nMade := twinNMade } := by
  refine { twins with objects := fun one two pair => ?_ }
  obtain ⟨old, twinOld, there, twinThere, same⟩ := twins.objects one two pair
  exact ⟨old, twinOld, keeps _ _ there, twinKeeps _ _ twinThere, same⟩

end VM.Twins

/-- `get` returns the one string with the characters, which is new or was there before. -/
theorem intern_grows (interned : vm.Interned) (platform : Platform N) (chars : Text) :
    ∃ ptr gcHeap internedStrings nMade,
      intern platform chars vm = .ok ptr { vm with gcHeap, internedStrings, nMade } ∧
      gcHeap.valueAt ptr = some (.string chars) ∧
      (∀ other object, vm.gcHeap.valueAt other = some object → gcHeap.valueAt other = some object) ∧
      (∀ other, vm.Holds other chars → other = ptr) ∧
      ∀ object, vm.gcHeap.valueAt ptr = some object → object = .string chars := by
  cases known : lookup vm.internedStrings.stringsByChars chars with
  | some ptr =>
      have holds := (interned.tables.byChars chars ptr).mp known
      refine ⟨ptr, vm.gcHeap, vm.internedStrings, vm.nMade, run_intern_known known, holds,
        fun _ _ there => there, fun other there => (interned.ptr_eq_iff there holds).mpr rfl, ?_⟩
      intro object there
      exact Option.some.inj (there.symm.trans holds)
  | none =>
      refine ⟨_, _, _, _, run_intern_new known, (valueAt_made _ _).trans (if_pos rfl),
        fun _ _ there => valueAt_made_of there, fun other there => ?_, fun object there => ?_⟩
      · rw [(interned.tables.byChars chars other).mpr there] at known
        cases known
      · rw [valueAt_fresh] at there
        cases there

namespace VM.Twins

/-- Twins find the same string, whether it is new in one of them or in both. -/
theorem intern (twins : VM.Twins pairing vm twinVm) (interned : vm.Interned)
    (twinInterned : twinVm.Interned) (chars : Text) :
    Points pairing (intern platform chars) (Cpplox.intern twinPlatform chars) vm twinVm := by
  obtain ⟨ptr, gcHeap, strings, nMade, runs, found, keeps, unique, before⟩ :=
    intern_grows interned platform chars
  obtain ⟨twinPtr, twinGcHeap, twinStrings, twinNMade, twinRuns, twinFound, twinKeeps, twinUnique,
    twinBefore⟩ :=
    intern_grows twinInterned twinPlatform chars
  -- a string with a partner was there before, and so was its partner
  have known : ∀ other, pairing.pairs ptr other → other = twinPtr := by
    intro other pair
    obtain ⟨object, twinObject, there, twinThere, same⟩ := twins.objects ptr other pair
    obtain rfl := before object there
    cases same
    exact twinUnique other twinThere
  have twinKnown : ∀ other, pairing.pairs other twinPtr → other = ptr := by
    intro other pair
    obtain ⟨object, twinObject, there, twinThere, same⟩ := twins.objects other twinPtr pair
    obtain rfl := twinBefore twinObject twinThere
    cases same
    exact unique other there
  by_cases paired : pairing.pairs ptr twinPtr
  · exact .returns le_rfl runs twinRuns (twins.grow keeps twinKeeps) paired
  · have alone : ∀ other, ¬ pairing.pairs ptr other := fun other pair =>
      paired (known other pair ▸ pair)
    have twinAlone : ∀ other, ¬ pairing.pairs other twinPtr := fun other pair =>
      paired (twinKnown other pair ▸ pair)
    exact .returns (Pairing.le_join alone twinAlone) runs twinRuns
      (twins.join keeps twinKeeps found twinFound (.string chars)) Pairing.join_pairs

theorem setUpvalueValue (twins : VM.Twins pairing vm twinVm) (pair : pairing.pairs ptr twinPtr)
    (twin : value.Twin pairing twinValue) :
    Alongside pairing (setUpvalueValue ptr value)
      (Cpplox.setUpvalueValue twinPtr twinValue) vm twinVm := by
  refine .looks (twins.getUpvalue pair) twins fun _ _ same => ?_
  cases same with
  | open_ index => exact .get (twins.writeSlot index twin)
  | closed => exact twins.setObject pair (.upvalue (.closed twin))

theorem closeUpvalue (twins : VM.Twins pairing vm twinVm) (pair : pairing.pairs ptr twinPtr) :
    Alongside pairing (closeUpvalue ptr) (Cpplox.closeUpvalue twinPtr) vm twinVm :=
  .looks (twins.upvalueValue pair) twins fun _ _ twin => twins.setObject pair (.upvalue (.closed twin))

/-- The operands are taken off and a result is put on. -/
theorem eraseAndPush (twins : VM.Twins pairing vm twinVm) (count : Nat)
    (twin : value.Twin pairing twinValue) :
    Alongside pairing (do Cpplox.erase count; Cpplox.push value)
      (do Cpplox.erase count; Cpplox.push twinValue) vm twinVm :=
  (twins.erase count).andThen fun _ _ _ le reached => reached.push (twin.mono le)

variable {token twinToken : SourceMapToken Ptr} {kind what : Text} {name twinName : Ptr}

theorem fails (twins : VM.Twins pairing vm twinVm) (twin : token.Twin pairing twinToken) (what : Text) :
    Alongside pairing (Cpplox.throwAt token what) (Cpplox.throwAt twinToken what) vm twinVm :=
  (twins.throwAt twin what).together twins

theorem failsUndefined (twins : VM.Twins pairing vm twinVm) (twin : token.Twin pairing twinToken)
    (kind : Text)
    (pair : pairing.pairs name twinName) :
    Alongside pairing (Cpplox.throwUndefined token kind name)
      (Cpplox.throwUndefined twinToken kind twinName)
      vm twinVm :=
  (twins.throwUndefined twin kind pair).together twins

end VM.Twins

structure VM.Paired (pairing : Addresses) (vm twinVm : VM N) : Prop where
  twins : VM.Twins pairing vm twinVm
  interned : vm.Interned
  twinInterned : twinVm.Interned

variable {A B : Type} {values : Addresses → A → B → Prop} {one : VmM N A} {two : VmM N B}

/-- What twins do together keeps their strings interned when it is an interleaving. -/
theorem VM.Paired.together (paired : VM.Paired pairing vm twinVm) (follows : Follows platform one vm)
    (twinFollows : Follows twinPlatform two twinVm)
    (goes : Together VM.Twins values pairing one two vm twinVm) :
    Together VM.Paired values pairing one two vm twinVm := by
  have kept := follows.interned paired.interned
  have twinKept := twinFollows.interned paired.twinInterned
  cases goes with
  | returns le returned twinReturned reached same =>
      rw [final_ok returned] at kept
      rw [final_ok twinReturned] at twinKept
      exact .returns le returned twinReturned ⟨reached, kept, twinKept⟩ same
  | throws le thrown twinThrown reached =>
      rw [final_error thrown] at kept
      rw [final_error twinThrown] at twinKept
      exact .throws le thrown twinThrown ⟨reached, kept, twinKept⟩

end Cpplox
