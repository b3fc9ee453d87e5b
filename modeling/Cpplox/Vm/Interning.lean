import Cpplox.Vm.Outcome
import Mathlib.Logic.Relation

namespace Cpplox

open Data

/-! Interned strings under any interleaving of `get`, allocations, writes and collections. -/

variable {N : Type}

inductive Kind where
  | boundMethod | class_ | closure | function | instance_ | nativeFn | string | upvalue
deriving DecidableEq, Repr

def Object.kind : Object N → Kind
  | boundMethod _ => .boundMethod
  | class_ _ => .class_
  | closure _ => .closure
  | function _ => .function
  | instance_ _ => .instance_
  | nativeFn => .nativeFn
  | string _ => .string
  | upvalue _ => .upvalue

/-- The tables are those of the strings that `holds` says are there. -/
structure InternedStrings.Describes (strings : InternedStrings) (holds : Ptr → Text → Prop) :
    Prop where
  byChars : ∀ chars ptr, lookup strings.stringsByChars chars = some ptr ↔ holds ptr chars
  byPtr : ∀ ptr other, lookup strings.stringsByPtr ptr = some other ↔
    other = ptr ∧ ∃ chars, holds ptr chars

/-- A live string, and what it reads. -/
def VM.Holds (vm : VM N) (ptr : Ptr) (chars : Text) : Prop :=
  vm.gcHeap.valueAt ptr = some (.string chars)

structure VM.Interned (vm : VM N) : Prop where
  ready : vm.gcHeap.ReadyToCollect
  waiting : vm.gcHeap.grayWorklist = []
  tables : vm.internedStrings.Describes vm.Holds

/-- One step of an interleaving.  Strings are only made by `get`, and they are const:
writes go to other objects, each of which keeps its kind.  A collection has any roots. -/
inductive Interleaves (platform : Platform N) : VM N → VM N → Prop where
  | get (vm : VM N) (chars : Text) : Interleaves platform vm (final (intern platform chars) vm)
  | make (vm : VM N) {object : Object N} (other : object.kind ≠ .string) :
      Interleaves platform vm (final (make platform object) vm)
  | write {vm : VM N} {ptr : Ptr} {old object : Object N} : vm.gcHeap.valueAt ptr = some old →
      object.kind = old.kind → old.kind ≠ .string →
      Interleaves platform vm (final (setObject ptr object) vm)
  | collect (vm : VM N) (stack : List (Value N)) (onMarkRoots : List (List Ptr))
      {gcHeap : GcHeap (Object N)} {internedStrings : InternedStrings} :
      GcHeap.collectGarbage (Object.traceRefs stack) platform.controlBlockSize onMarkRoots
        [InternedStrings.onDestroy] (fun _ strings => strings) vm.gcHeap vm.internedStrings =
          (gcHeap, internedStrings) →
      Interleaves platform vm { vm with gcHeap, internedStrings }
  | elsewhere {vm laterVm : VM N} : laterVm.gcHeap = vm.gcHeap →
      laterVm.internedStrings = vm.internedStrings → Interleaves platform vm laterVm

variable {platform : Platform N} {vm laterVm : VM N} {ptr : Ptr} {chars : Text}

theorem fresh_not_live (platform : Platform N) (vm : VM N) :
    ¬ vm.gcHeap.Live (platform.allocate vm.nMade (vm.gcHeap.allPtrs.map (·.ptr))) := by
  rintro ⟨block, member, same⟩
  exact platform.allocate_fresh vm.nMade _ (List.mem_map.mpr ⟨block, member, same⟩)

/-- What `make` leaves. -/
def VM.fresh (platform : Platform N) (vm : VM N) : Ptr :=
  platform.allocate vm.nMade (vm.gcHeap.allPtrs.map (·.ptr))

def VM.made (platform : Platform N) (object : Object N) (vm : VM N) : VM N :=
  { vm with
    gcHeap := vm.gcHeap.make platform.controlBlockSize (vm.fresh platform) object
    nMade := vm.nMade + 1 }

theorem run_make (object : Object N) :
    make platform object vm = .ok (vm.fresh platform) (vm.made platform object) := rfl

theorem valueAt_made (object : Object N) (other : Ptr) :
    (vm.made platform object).gcHeap.valueAt other =
      if other = vm.fresh platform then some object else vm.gcHeap.valueAt other :=
  GcHeap.valueAt_make (fresh_not_live platform vm)

theorem valueAt_fresh : vm.gcHeap.valueAt (vm.fresh platform) = none := by
  cases found : vm.gcHeap.valueAt (vm.fresh platform) with
  | none => rfl
  | some object => exact absurd (GcHeap.valueAt_isSome.mp ⟨object, found⟩) (fresh_not_live platform vm)

theorem InternedStrings.Describes.congr {strings : InternedStrings} {holds other : Ptr → Text → Prop}
    (describes : strings.Describes holds) (same : ∀ ptr chars, other ptr chars ↔ holds ptr chars) :
    strings.Describes other :=
  ⟨fun chars ptr => (describes.byChars chars ptr).trans (same ptr chars).symm, fun ptr found =>
    (describes.byPtr ptr found).trans (and_congr_right fun _ => exists_congr fun chars =>
      (same ptr chars).symm)⟩

theorem VM.Interned.made (interned : vm.Interned) {object : Object N}
    (other : object.kind ≠ .string) : (vm.made platform object).Interned := by
  refine ⟨GcHeap.make_readyToCollect interned.ready (fresh_not_live platform vm) _,
    interned.waiting, interned.tables.congr fun ptr chars => ?_⟩
  simp only [VM.Holds, valueAt_made]
  split
  next same =>
      rw [same, valueAt_fresh]
      refine iff_of_false ?_ nofun
      rintro ⟨⟩
      exact other rfl
  next => rfl

theorem VM.Interned.withObject (interned : vm.Interned) {old object : Object N}
    (found : vm.gcHeap.valueAt ptr = some old) (same : object.kind = old.kind)
    (other : old.kind ≠ .string) : (final (setObject ptr object) vm).Interned := by
  refine ⟨GcHeap.update_readyToCollect interned.ready, interned.waiting,
    interned.tables.congr fun place chars => ?_⟩
  have there := GcHeap.valueAt_update (GcHeap.valueAt_isSome.mp ⟨old, found⟩) object place
  simp only [VM.Holds, setObject, final_modify, there]
  split
  next here =>
      rw [here, found]
      refine iff_of_false ?_ ?_
      · rintro ⟨⟩
        exact other same.symm
      · rintro ⟨⟩
        exact other rfl
  next => rfl

/-- What `get` leaves when no string has the characters. -/
def VM.withString (platform : Platform N) (chars : Text) (vm : VM N) : VM N :=
  { vm.made platform (.string chars) with internedStrings :=
    { stringsByChars := assign vm.internedStrings.stringsByChars chars (vm.fresh platform)
      stringsByPtr := assign vm.internedStrings.stringsByPtr (vm.fresh platform)
        (vm.fresh platform) } }

theorem run_intern_new (missing : lookup vm.internedStrings.stringsByChars chars = none) :
    intern platform chars vm = .ok (vm.fresh platform) (vm.withString platform chars) :=
  VmM.bind_ok.mpr ⟨vm, vm, rfl, by simp only [missing]; rfl⟩

theorem run_intern_known (found : lookup vm.internedStrings.stringsByChars chars = some ptr) :
    intern platform chars vm = .ok ptr vm :=
  VmM.bind_ok.mpr ⟨vm, vm, rfl, by simp only [found]; rfl⟩

theorem valueAt_withString (other : Ptr) :
    (vm.withString platform chars).gcHeap.valueAt other =
      if other = vm.fresh platform then some (.string chars) else vm.gcHeap.valueAt other :=
  valueAt_made (.string chars) other

/-- `get` returns a live string with the characters. -/
theorem VM.Interned.intern (interned : vm.Interned) (platform : Platform N) (chars : Text) :
    ∃ ptr after, intern platform chars vm = .ok ptr after ∧ after.Interned ∧
      after.Holds ptr chars := by
  cases found : lookup vm.internedStrings.stringsByChars chars with
  | some ptr =>
      exact ⟨ptr, vm, run_intern_known found, interned,
        (interned.tables.byChars chars ptr).mp found⟩
  | none =>
      have unheld (ptr : Ptr) : ¬ vm.Holds ptr chars := fun holds => by
        rw [(interned.tables.byChars chars ptr).mpr holds] at found
        cases found
      have holds (ptr : Ptr) (other : Text) : (vm.withString platform chars).Holds ptr other ↔
          ptr = vm.fresh platform ∧ other = chars ∨ vm.Holds ptr other := by
        simp only [VM.Holds, valueAt_withString]
        split
        next same =>
            subst same
            rw [valueAt_fresh]
            simp [eq_comm]
        next different => simp [different]
      refine ⟨_, _, run_intern_new found, ⟨GcHeap.make_readyToCollect interned.ready
        (fresh_not_live platform vm) _, interned.waiting, ⟨fun other ptr => ?_, fun ptr target => ?_⟩⟩,
        (holds _ _).mpr (.inl ⟨rfl, rfl⟩)⟩
      · rw [holds]
        simp only [withString, lookup_assign]
        split
        next same =>
            subst same
            simp [unheld, eq_comm]
        next different => simp [different, interned.tables.byChars]
      · simp only [holds]
        simp only [withString, lookup_assign]
        split
        next same =>
            subst same
            simp only [Option.some.injEq, true_and]
            exact ⟨fun here => ⟨here.symm, chars, .inl rfl⟩, fun here => here.1.symm⟩
        next different => simp [different, interned.tables.byPtr]

theorem InternedStrings.Describes.onDestroy {strings : InternedStrings} {holds : Ptr → Text → Prop}
    (describes : strings.Describes holds) {block : ControlBlock (Object N)}
    (value : ∀ chars, holds block.ptr chars ↔ block.value = .string chars) :
    (InternedStrings.onDestroy block strings).Describes fun ptr chars =>
      holds ptr chars ∧ ptr ≠ block.ptr := by
  unfold InternedStrings.onDestroy
  cases found : lookup strings.stringsByPtr block.ptr with
  | none =>
      refine describes.congr fun ptr chars => and_iff_left_of_imp ?_
      rintro here rfl
      rw [(describes.byPtr block.ptr block.ptr).mpr ⟨rfl, chars, here⟩] at found
      cases found
  | some other =>
      obtain ⟨-, chars, here⟩ := (describes.byPtr block.ptr other).mp found
      have isString := (value chars).mp here
      simp only [isString]
      refine ⟨fun name ptr => ?_, fun ptr target => ?_⟩
      · rw [lookup_eraseKey]
        split
        next same =>
            subst same
            refine iff_of_false (Option.some_ne_none _).symm ?_
            rintro ⟨there, different⟩
            refine different ?_
            have first := (describes.byChars name ptr).mpr there
            rw [(describes.byChars name block.ptr).mpr here] at first
            exact (Option.some.inj first).symm
        next different =>
            rw [describes.byChars]
            refine (and_iff_left_of_imp ?_).symm
            rintro there rfl
            have := (value name).mp there
            rw [isString] at this
            cases this
            exact different rfl
      · rw [lookup_eraseKey]
        split
        next same =>
            subst same
            refine iff_of_false (Option.some_ne_none _).symm ?_
            rintro ⟨-, -, -, different⟩
            exact different rfl
        next different => simp [describes.byPtr, different]

theorem InternedStrings.Describes.onDestroyAll {removed : List (ControlBlock (Object N))}
    {strings : InternedStrings} {holds : Ptr → Text → Prop} (describes : strings.Describes holds)
    (values : ∀ block ∈ removed, ∀ chars, holds block.ptr chars ↔ block.value = .string chars)
    (distinct : (removed.map (·.ptr)).Nodup) :
    (removed.foldl (GcHeap.onDestroy [InternedStrings.onDestroy]) strings).Describes
      fun ptr chars => holds ptr chars ∧ ptr ∉ removed.map (·.ptr) := by
  induction removed generalizing strings holds with
  | nil => exact describes.congr fun ptr chars => by simp
  | cons block rest ih =>
      obtain ⟨notThere, distinct⟩ := List.nodup_cons.mp distinct
      obtain ⟨value, values⟩ := List.forall_mem_cons.mp values
      refine (ih (describes.onDestroy value) (fun other member chars => ?_) distinct).congr
        fun ptr chars => by simp [and_assoc]
      have different : other.ptr ≠ block.ptr := fun same =>
        notThere (List.mem_map.mpr ⟨other, member, same⟩)
      rw [← values other member chars]
      exact and_iff_left different

theorem VM.Interned.collect (interned : vm.Interned) {stack : List (Value N)}
    {onMarkRoots : List (List Ptr)} {gcHeap : GcHeap (Object N)} {internedStrings : InternedStrings}
    (collects : GcHeap.collectGarbage (Object.traceRefs stack) platform.controlBlockSize onMarkRoots
      [InternedStrings.onDestroy] (fun _ strings => strings) vm.gcHeap vm.internedStrings =
        (gcHeap, internedStrings)) : ({ vm with gcHeap, internedStrings } : VM N).Interned := by
  obtain ⟨removed, after, runs, ready, waiting, distinct, values, kept, -⟩ :=
    GcHeap.collectGarbage_contents (Object.traceRefs stack) platform.controlBlockSize onMarkRoots
      [InternedStrings.onDestroy] (fun _ strings => strings) vm.internedStrings interned.ready
  rw [collects] at runs
  obtain ⟨rfl, strings⟩ := Prod.mk.inj runs
  have same : removed.foldl (fun strings (_ : ControlBlock (Object N)) => strings)
      (removed.foldl (GcHeap.onDestroy [InternedStrings.onDestroy]) vm.internedStrings) =
      removed.foldl (GcHeap.onDestroy [InternedStrings.onDestroy]) vm.internedStrings :=
    List.foldl_fixed _
  rw [same] at strings
  refine ⟨ready, waiting, ?_⟩
  subst strings
  refine (interned.tables.onDestroyAll (fun block member chars => ?_) distinct).congr
    fun ptr chars => kept ptr _
  simp [VM.Holds, values block member]

/-- The invariant is kept by every step. -/
theorem Interleaves.interned (interleaves : Interleaves platform vm laterVm) (interned : vm.Interned) :
    laterVm.Interned := by
  cases interleaves with
  | get chars =>
      obtain ⟨ptr, after, runs, kept, -⟩ := interned.intern platform chars
      rw [final_ok runs]
      exact kept
  | make other => exact interned.made other
  | write found same other => exact interned.withObject found same other
  | collect _ _ collects => exact interned.collect collects
  | elsewhere heap strings =>
      refine ⟨heap ▸ interned.ready, heap ▸ interned.waiting, ?_⟩
      rw [strings]
      exact interned.tables.congr fun ptr chars => by rw [VM.Holds, VM.Holds, heap]

theorem interned_initial : ({} : VM N).Interned :=
  ⟨GcHeap.empty_readyToCollect, rfl, fun chars ptr => by simp [VM.Holds], fun ptr other => by
    simp [VM.Holds]⟩

/-- Any number of steps. -/
abbrev Evolves (platform : Platform N) : VM N → VM N → Prop :=
  Relation.ReflTransGen (Interleaves platform)

theorem Evolves.interned (reaches : Evolves platform vm laterVm) (interned : vm.Interned) :
    laterVm.Interned := by
  induction reaches with
  | refl => exact interned
  | tail _ last ih => exact last.interned ih

/-- Pointers to live strings are equal exactly when the strings are. -/
theorem VM.Interned.ptr_eq_iff (interned : vm.Interned) {ptr other : Ptr} {chars text : Text}
    (here : vm.Holds ptr chars) (there : vm.Holds other text) : ptr = other ↔ chars = text := by
  constructor
  · rintro rfl
    rw [VM.Holds, here] at there
    cases there
    rfl
  · rintro rfl
    have first := (interned.tables.byChars chars ptr).mpr here
    rw [(interned.tables.byChars chars other).mpr there] at first
    exact (Option.some.inj first).symm

theorem lookup_isSome {K V : Type} [DecidableEq K] {entries : List (K × V)} {key : K} :
    (lookup entries key).isSome ↔ key ∈ entries.map Prod.fst := by
  induction entries with
  | nil => simp
  | cons entry rest ih =>
      obtain ⟨found, value⟩ := entry
      rw [lookup_cons]
      split
      next same => simp [same]
      next different => simp [ih, Ne.symm different]

/-- A name is found in a map exactly when a key reads the same. -/
theorem VM.Interned.lookup_iff {V : Type} (interned : vm.Interned) {entries : List (Ptr × V)}
    (here : vm.Holds ptr chars) :
    (lookup entries ptr).isSome ↔ ∃ key ∈ entries.map Prod.fst, vm.Holds key chars := by
  rw [lookup_isSome]
  constructor
  · exact fun member => ⟨ptr, member, here⟩
  · rintro ⟨key, member, there⟩
    rwa [(interned.ptr_eq_iff here there).mpr rfl]

end Cpplox
