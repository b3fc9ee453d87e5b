import Cpplox.Vm.Declarations
import Cpplox.Vm.Iterations
import Cpplox.Vm.Throws

namespace Cpplox

open Structured Data

/-! Method tables: what a class declaration put into them, and nothing else. -/

variable {N : Type} {platform : Platform N} {activation : Activation N} {vm after : VM N} {instr : Instr}
  {ptr : Ptr}

/-- A class declaration as far as it got: what its superclass mapped when it was inherited,
and its methods, the latest first. -/
structure Declaration where
  klass : Ptr
  inherited : List (Ptr × Ptr) := []
  methods : List (Ptr × Ptr) := []
deriving Repr

/-- The latest method of a name in the body, else what the superclass had. -/
def Declaration.table (declaration : Declaration) (name : Ptr) : Option Ptr :=
  (lookup declaration.methods name).or (lookup declaration.inherited name)

/-- The declaration that may still go on, and those that have finished, the latest first. -/
structure Declarations where
  current : Option Declaration := none
  finished : List Declaration := []
deriving Repr

namespace Declarations

def all (declared : Declarations) : List Declaration := declared.current.toList ++ declared.finished

/-- The latest declaration of a class; the address of a class that is gone may be given out
again. -/
def of (declared : Declarations) (ptr : Ptr) : Option Declaration :=
  declared.all.find? fun declaration => declaration.klass = ptr

/-- The current declaration has finished: it never changes again. -/
def finish (declared : Declarations) : Declarations := { finished := declared.all }

def extend (declared : Declarations) (change : Declaration → Declaration) : Declarations :=
  { declared with current := declared.current.map change }

end Declarations

/-- The methods of a class on top of the stack. -/
def VM.inherited (vm : VM N) : List (Ptr × Ptr) :=
  match vm.stack with
  | .class_ parent :: _ =>
      match vm.gcHeap.valueAt parent with
      | some (.class_ klass) => klass.methods
      | _ => []
  | _ => []

/-- A closure on top of the stack, under a name. -/
def VM.namedMethod (vm : VM N) (chunk : Chunk (Value N) Ptr) (index : Nat) : List (Ptr × Ptr) :=
  match vm.stack, chunk.constants[index]? with
  | .closure closure :: _, some (.string name) => [(name, closure)]
  | _, _ => []

/-- What an instruction declares, read off the state in which it is executed.  The current
declaration has ended at the latest where an instruction is executed that cannot belong to one. -/
def Declarations.next (platform : Platform N) (vm : VM N) (fetched : Fetched N) (declared : Declarations) :
    Declarations :=
  match fetched.instr with
  | .operand .class_ _ => { current := some { klass := vm.fresh platform }, finished := declared.all }
  | .simple .inherit => declared.extend fun declaration =>
      { declaration with inherited := insertAll declaration.inherited vm.inherited }
  | .operand .method index => declared.extend fun declaration =>
      { declaration with
        methods := vm.namedMethod fetched.activation.chunk index ++ declaration.methods }
  | .operand .getLocal _ | .operand .getUpvalue _ | .operand .getGlobal _ | .closure _ _ | .jump _ _ =>
      declared
  | _ => declared.finish

def Declarations.observe (platform : Platform N) (vm : VM N) (declared : Declarations) : Declarations :=
  match vm.fetch? with
  | some fetched => declared.next platform vm fetched
  | none => declared

/-- The class of the current declaration. -/
def Declarations.open_ (declared : Declarations) : Option Ptr := declared.current.map (·.klass)

theorem Declarations.open_extend (declared : Declarations) {change : Declaration → Declaration}
    (same : ∀ declaration, (change declaration).klass = declaration.klass) :
    (declared.extend change).open_ = declared.open_ := by
  cases declared with
  | mk current finished => cases current <;> simp [open_, extend, same]

variable [Number N] {declared : Declarations} {fetched : Fetched N}

/-- What is known of the class that is being declared stays known of it. -/
theorem Effect.of_next {before next : Declaring}
    (effect : Effect platform fetched.activation vm fetched.instr after)
    (steps : before.Steps fetched.instr next) (holds : before.Of declared.open_ vm.stack) :
    next.Of (declared.next platform vm fetched).open_ after.stack := by
  obtain ⟨instr, size, activation⟩ := fetched
  refine effect.of steps holds (fun index same => ?_) fun other known => ?_
  · simp only at same
    subst same
    rfl
  · simp only at other steps
    cases steps with
    | class_ => exact absurd rfl (other _)
    | superclass opcode => rcases opcode with rfl | rfl | rfl <;> rfl
    | inherit => exact declared.open_extend fun _ => rfl
    | closure => rfl
    | method => exact declared.open_extend fun _ => rfl
    | other => exact absurd rfl known

theorem lookup_insertNew {K V : Type} [DecidableEq K] (entries : List (K × V)) (key other : K) (value : V) :
    lookup (insertNew entries key value) other =
      (lookup entries other).or (if key = other then some value else none) := by
  rw [insertNew]
  split
  next found =>
      by_cases same : key = other
      · obtain ⟨old, there⟩ := Option.isSome_iff_exists.mp found
        simp [← same, there]
      · simp [same]
  next => rw [lookup_append, lookup_cons, lookup_nil]

theorem lookup_insertAll {K V : Type} [DecidableEq K] (entries others : List (K × V)) (key : K) :
    lookup (insertAll entries others) key = (lookup entries key).or (lookup others key) := by
  induction others generalizing entries with
  | nil => simp [insertAll]
  | cons entry rest ih =>
      have first := ih (insertNew entries entry.1 entry.2)
      rw [lookup_insertNew, Option.or_assoc] at first
      refine Eq.trans first (congrArg _ ?_)
      rw [show entry :: rest = (entry.1, entry.2) :: rest from rfl, lookup_cons]
      split <;> rfl

/-- Every live class maps names as its declaration says. -/
def GcHeap.Tables (heap : GcHeap (Object N)) (declared : Declarations) : Prop :=
  ∀ ptr klass, heap.valueAt ptr = some (.class_ klass) →
    ∃ declaration, declared.of ptr = some declaration ∧
      ∀ name, lookup klass.methods name = declaration.table name

namespace Declarations

omit [Number N] in
theorem of_current {declaration : Declaration} (current : declared.current = some declaration) :
    declared.of declaration.klass = some declaration := by
  simp [of, all, current]

theorem of_extend {declaration : Declaration} (current : declared.current = some declaration)
    {change : Declaration → Declaration} (same : (change declaration).klass = declaration.klass) :
    (declared.extend change).of ptr =
      if declaration.klass = ptr then some (change declaration) else declared.of ptr := by
  by_cases here : declaration.klass = ptr <;> simp [of, all, extend, current, same, here]

omit [Number N] in
/-- Other instructions declare nothing. -/
theorem all_next (declared : Declarations) (other : fetched.instr.writesClass = false)
    (old : ∀ index, fetched.instr ≠ .operand .class_ index) :
    (declared.next platform vm fetched).all = declared.all := by
  unfold next
  split
  next index same => exact absurd same (old index)
  next same =>
      rw [same] at other
      cases other
  next same =>
      rw [same] at other
      cases other
  all_goals simp [finish, all]

end Declarations

/-- A class is as it was, or it is the one an instruction has just made. -/
theorem Effect.class_cases (effect : Effect platform activation vm instr after)
    (other : instr.writesClass = false) {klass : Class}
    (found : after.gcHeap.valueAt ptr = some (.class_ klass)) :
    (vm.gcHeap.valueAt ptr = some (.class_ klass) ∧ ptr ≠ vm.fresh platform) ∨
      ptr = vm.fresh platform ∧ klass.methods = [] ∧ ∃ index, instr = .operand .class_ index := by
  cases before : vm.gcHeap.valueAt ptr with
  | none =>
      obtain ⟨empty, index, same, -⟩ := effect.new before found
      subst same
      cases effect with
      | class_ => exact .inr ⟨(new_of_made before found).1, empty, index, rfl⟩
  | some object =>
      refine .inl ⟨?_, ?_⟩
      · obtain ⟨later, there, becomes⟩ := effect.extends ptr object before
        rw [found] at there
        cases there
        cases becomes with
        | same => rfl
        | class_ =>
            rw [effect.keepsClass other before] at found
            cases found
            rfl
      · rintro rfl
        rw [valueAt_fresh] at before
        cases before

/-- An instruction that writes no class leaves every table as it was declared. -/
theorem Effect.tables_other (effect : Effect platform fetched.activation vm fetched.instr after)
    (tables : vm.gcHeap.Tables declared) (other : fetched.instr.writesClass = false) :
    after.gcHeap.Tables (declared.next platform vm fetched) := by
  intro ptr klass found
  by_cases declares : ∃ index, fetched.instr = .operand .class_ index
  · obtain ⟨index, declares⟩ := declares
    have next : (declared.next platform vm fetched).all = { klass := vm.fresh platform } :: declared.all := by
      simp [Declarations.next, declares, Declarations.all]
    rcases effect.class_cases other found with ⟨old, different⟩ | ⟨rfl, empty, -⟩
    · obtain ⟨declaration, there, same⟩ := tables ptr klass old
      refine ⟨declaration, ?_, same⟩
      rw [Declarations.of, next, List.find?_cons_of_neg (by simpa using Ne.symm different)]
      exact there
    · refine ⟨{ klass := vm.fresh platform }, ?_, fun name => ?_⟩
      · rw [Declarations.of, next, List.find?_cons_of_pos (by simp)]
      · rw [empty]
        rfl
  · have next : (declared.next platform vm fetched).all = declared.all :=
      declared.all_next other fun index same => declares ⟨index, same⟩
    rcases effect.class_cases other found with ⟨old, -⟩ | ⟨-, -, made⟩
    · obtain ⟨declaration, there, same⟩ := tables ptr klass old
      exact ⟨declaration, by rw [Declarations.of, next]; exact there, same⟩
    · exact absurd made declares

omit [Number N] in
/-- The class that is being declared is the only one whose table is written. -/
theorem GcHeap.Tables.write (tables : vm.gcHeap.Tables declared) {declaration : Declaration}
    (current : declared.current = some declaration) {klass written : Class}
    (there : vm.gcHeap.valueAt declaration.klass = some (.class_ klass))
    {change : Declaration → Declaration} (same : (change declaration).klass = declaration.klass)
    (writes : (∀ name, lookup klass.methods name = declaration.table name) →
      ∀ name, lookup written.methods name = (change declaration).table name) :
    (vm.updated declaration.klass (.class_ written)).gcHeap.Tables (declared.extend change) := by
  intro ptr other found
  rw [valueAt_updated there] at found
  rw [Declarations.of_extend current same]
  by_cases here : declaration.klass = ptr
  · rw [if_pos here.symm] at found
    cases found
    obtain ⟨known, first, table⟩ := tables _ _ there
    rw [Declarations.of_current current] at first
    cases first
    exact ⟨_, if_pos here, writes table⟩
  · rw [if_neg (Ne.symm here)] at found
    rw [if_neg here]
    exact tables ptr other found

theorem Effect.tables {known after_ : Declaring}
    (effect : Effect platform fetched.activation vm fetched.instr after)
    (tables : vm.gcHeap.Tables declared) (steps : known.Steps fetched.instr after_)
    (holds : known.Of declared.open_ vm.stack) :
    after.gcHeap.Tables (declared.next platform vm fetched) := by
  cases writes : fetched.instr.writesClass with
  | false => exact effect.tables_other tables writes
  | true =>
      obtain ⟨instr, size, activation⟩ := fetched
      cases steps with
      | class_ => cases writes
      | superclass opcode => rcases opcode with rfl | rfl | rfl <;> cases writes
      | closure => cases writes
      | inherit =>
          generalize same : vm.stack = stack at holds
          cases holds with
          | superclass is =>
              obtain ⟨declaration, current, rfl⟩ := Option.map_eq_some_iff.mp is
              cases effect with
              | computes _ computes => cases computes
              | @inherit parent child rest parentClass childClass stack isParent isChild =>
                  obtain ⟨rfl, rest⟩ := List.cons.inj (same.symm.trans stack)
                  cases rest
                  have inherited : vm.inherited = parentClass.methods := by
                    simp only [VM.inherited, stack, isParent]
                  refine tables.write current isChild rfl fun table name => ?_
                  simp only [Declaration.table, inherited, lookup_insertAll]
                  rw [← Option.or_assoc]
                  exact congrArg (Option.or · _) (table name)
      | @method _ index =>
          generalize same : vm.stack = stack at holds
          cases holds with
          | method is =>
              obtain ⟨declaration, current, rfl⟩ := Option.map_eq_some_iff.mp is
              cases effect with
              | @method _ name closure owner rest klass stack named isClass =>
                  obtain ⟨top, rest⟩ := List.cons.inj (same.symm.trans stack)
                  cases rest
                  have method : vm.namedMethod activation.chunk index = [(name, closure)] := by
                    simp only [VM.namedMethod, stack, named]
                  refine tables.write current isClass rfl fun table other => ?_
                  simp only [Declaration.table, method, List.singleton_append, lookup_assign, lookup_cons]
                  by_cases here : other = name
                  · simp [here]
                  · rw [if_neg here, if_neg (Ne.symm here)]
                    exact table other
      | other no =>
          cases instr with
          | simple opcode => cases opcode <;> simp_all [Instr.writesClass, Instr.extendsClass]
          | operand opcode index => cases opcode <;> simp_all [Instr.writesClass, Instr.extendsClass]
          | _ => cases writes

omit [Number N] in
/-- Classes that were there before keep what was declared. -/
theorem GcHeap.Tables.old {heap later : GcHeap (Object N)} (tables : heap.Tables declared)
    (classes : ∀ ptr klass, later.valueAt ptr = some (.class_ klass) →
      heap.valueAt ptr = some (.class_ klass)) : later.Tables declared :=
  fun ptr klass found => tables ptr klass (classes ptr klass found)

structure VM.Tabled (vm : VM N) (declared : Declarations) : Prop where
  builds : ∀ frame callers, vm.callFrames = frame :: callers →
    ∃ closure program function known, frame.Knows vm.gcHeap closure program function known ∧
      known.Of declared.open_ vm.stack
  tables : vm.gcHeap.Tables declared

theorem VM.Tabled.idle (idle : vm.callFrames = []) (tables : vm.gcHeap.Tables declared) :
    vm.Tabled declared := by
  refine ⟨fun frame callers frames => ?_, tables⟩
  rw [idle] at frames
  cases frames

/-- The innermost activation of a later machine. -/
theorem VM.Tabled.running {frame : Frame} {callers : List Frame} {closure : Closure} {program : Program N}
    {function : LoweredFunction N} {known : Declaring} (tables : after.gcHeap.Tables declared)
    (extends_ : vm.gcHeap.Extends after.gcHeap) (frames : after.callFrames = frame :: callers)
    (knows : frame.Knows vm.gcHeap closure program function known)
    (holds : known.Of declared.open_ after.stack) : after.Tabled declared := by
  refine ⟨fun top rest split => ?_, tables⟩
  obtain ⟨rfl, rfl⟩ := List.cons.inj (frames.symm.trans split)
  obtain ⟨other, knows⟩ := knows.extend extends_
  exact ⟨other, program, function, known, knows, holds⟩

/-- Nothing is being declared in an activation that was waiting for a call. -/
theorem VM.Tabled.ended {callers : List Frame} (tables : after.gcHeap.Tables declared)
    (extends_ : vm.gcHeap.Extends after.gcHeap) (frames : after.callFrames = callers)
    (others : ∀ caller ∈ callers, ∃ closure program function,
      caller.Knows vm.gcHeap closure program function .nothing) : after.Tabled declared := by
  cases callers with
  | nil => exact .idle frames tables
  | cons caller rest =>
      obtain ⟨closure, program, function, knows⟩ := others caller List.mem_cons_self
      exact .running tables extends_ frames knows .nothing

theorem step_tabled {result : Unit} (loaded : vm.Loaded) (declares : vm.Declares)
    (tabled : vm.Tabled declared) (steps : step platform vm = .ok result after) :
    after.Tabled (Declarations.observe platform vm declared) := by
  rcases step_ok steps with ⟨idle, rfl⟩ | ⟨frame, callers, live, object, frames, here, outcome⟩
  · have none : after.fetch? = none := by simp [VM.fetch?, idle]
    rw [Declarations.observe, none]
    exact tabled
  have others := declares.callers frame callers frames
  rcases outcome with ⟨atEnd, rfl⟩ | ⟨fetched, fetches, effect⟩
  · have none : vm.fetch? = none := by
      rw [VM.fetch?_cons frames]
      cases found : vm.fetchFrom frame with
      | none => rfl
      | some fetched =>
          obtain ⟨_, _, fetches⟩ := VM.fetchFrom_some.mp found
          have decodes := fetches.decodes
          obtain rfl := Object.closure.inj (Option.some.inj (here.live.symm.trans fetches.runs.live))
          obtain rfl := Object.function.inj (Option.some.inj (here.code.symm.trans fetches.runs.code))
          rw [atEnd, List.drop_length] at decodes
          cases decodes
    rw [Declarations.observe, none]
    exact .ended tabled.tables (.refl vm.gcHeap) rfl others
  · have found : vm.fetch? = some fetched :=
      (VM.fetch?_cons frames).trans (VM.fetchFrom_some.mpr ⟨_, _, fetches⟩)
    rw [Declarations.observe, found]
    obtain ⟨closure, program, function, known, knows, holds⟩ := tabled.builds frame callers frames
    have extends_ : vm.gcHeap.Extends after.gcHeap := effect.extends
    -- the iterator was moved before the instruction: nothing else is different
    change after.Tabled (declared.next platform (vm.advanced frame callers fetched.size) fetched)
    cases knows.goes loaded fetches effect with
    | falls typed laterFrames next_ =>
        exact .running (effect.tables tabled.tables typed holds) extends_ laterFrames next_ (effect.of_next typed holds)
    | calls called laterFrames next_ callee =>
        have tables := effect.tables_other tabled.tables (by rw [called]; rfl)
        exact .running tables (.refl after.gcHeap) laterFrames callee .nothing
    | returns returned laterFrames =>
        have tables := effect.tables_other tabled.tables (by rw [returned]; rfl)
        exact .ended tables extends_ laterFrames others
    | jumps jumped stack laterFrames next_ =>
        have tables := effect.tables_other tabled.tables (by rw [jumped]; rfl)
        have same : (declared.next platform (vm.advanced frame callers fetched.size) fetched).open_ =
            declared.open_ := by
          simp only [Declarations.next, jumped]
        exact .running tables extends_ laterFrames next_ (same ▸ stack ▸ holds)

omit [Number N] in
theorem GcHeap.Tables.made {object : Object N} (tables : vm.gcHeap.Tables declared)
    (other : ∀ klass, object ≠ .class_ klass) : (vm.made platform object).gcHeap.Tables declared := by
  refine tables.old fun ptr klass found => ?_
  rcases made_old found with old | same
  · exact old
  · exact absurd same.symm (other klass)

omit [Number N] in
theorem intern_tables {chars : Text} (interns : intern platform chars vm = .ok ptr after)
    (tables : vm.gcHeap.Tables declared) : after.gcHeap.Tables declared := by
  rcases intern_ok.mp interns with ⟨-, rfl⟩ | ⟨-, -, rfl⟩
  · exact tables
  · exact tables.made (by simp)

omit [Number N] in
theorem VM.Loads.tables (loads : vm.Loads after) (tables : vm.gcHeap.Tables declared) :
    after.gcHeap.Tables declared := by
  refine tables.old fun ptr klass found => ?_
  rcases loads.old ptr _ found with old | same | same
  · exact old
  · cases same
  · cases same

theorem collect_tabled {result : Unit} (sound : vm.Sound) (tabled : vm.Tabled declared)
    (collects : collect platform vm = .ok result after) : after.Tabled declared := by
  obtain ⟨gcHeap, internedStrings, rfl, kept⟩ := collect_ok sound.interned collects
  refine ⟨fun frame callers frames => ?_, tabled.tables.old fun ptr klass found => ((kept ptr _).mp found).1⟩
  obtain ⟨closure, program, function, known, knows, holds⟩ := tabled.builds frame callers frames
  have frames : vm.callFrames = frame :: callers := frames
  have found := (kept frame.closure _).mpr
    ⟨knows.live, kept_frame vm (frames ▸ List.mem_cons_self)⟩
  exact ⟨closure, program, function, known,
    ⟨found, knows.of.collected sound.interned collects found, knows.arrives⟩, holds⟩

theorem between_tabled (sound : vm.Sound) (tabled : vm.Tabled declared) (between : Between platform vm after) :
    after.Tabled declared := by
  have laterSound := between_sound sound between
  cases between with
  | scan frames interns =>
      exact .idle ((intern_callFrames interns).trans frames) (intern_tables interns tabled.tables)
  | refuse frames loads =>
      have loads := (loadAll_ok sound.interned sound.typed (by simp) loads).1
      exact .idle (loads.callFrames.trans frames) (loads.tables tabled.tables)
  | @run loaded _ _ _ _ root _ frames _ loads starts =>
      have loads := (loadAll_ok sound.interned sound.typed (by simp) loads).1
      obtain rfl := start_ok.mp starts
      have live : (loaded.made platform (.closure { function := root })).gcHeap.valueAt
          (loaded.fresh platform) = some (.closure { function := root }) := by rw [valueAt_made, if_pos rfl]
      obtain ⟨program, lowered, of⟩ := laterSound.loaded _ _ live
      exact .running ((loads.tables tabled.tables).made (by simp)) (.refl _) rfl (of.knows _ live) .nothing
  | collect _ collects => exact collect_tabled sound tabled collects
  | throw fails =>
      obtain ⟨frame, callers, _, _, fetched, _, -, count, -, middle, rfl⟩ := step_error fails
      refine .idle rfl ?_
      rcases middle with rfl | ⟨name, interns⟩
      · exact tabled.tables
      · have advanced : (vm.advanced frame callers fetched.size).gcHeap.Tables declared := tabled.tables
        have tables := intern_tables interns advanced
        exact tables

theorem Attains.tabled (reaches : Attains platform (Declarations.observe platform) {} vm declared) :
    vm.Tabled declared := by
  induction reaches with
  | construct constructs =>
      obtain ⟨name, named, interns, rfl⟩ := construct_ok constructs
      refine .idle (intern_callFrames interns) ((intern_tables interns fun ptr klass found => ?_).made (by simp))
      rw [GcHeap.valueAt_empty] at found
      cases found
  | step reached steps ih => exact step_tabled reached.sound.loaded reached.declares ih steps
  | between reached between ih => exact between_tabled reached.sound ih between

/-- In every state of a session, the method table of every class maps each name to the latest
method of that name in the class body, else to what the superclass mapped it to when the class
was declared, and nothing else: no other instruction, call or collection ever changes it. -/
theorem method_tables {klass : Class} (reaches : Attains platform (Declarations.observe platform) {} vm declared)
    (there : vm.gcHeap.valueAt ptr = some (.class_ klass)) :
    ∃ declaration, declared.of ptr = some declaration ∧
      ∀ name, lookup klass.methods name = declaration.table name :=
  reaches.tabled.tables ptr klass there

/-- A class overrides one method and inherits another. -/
theorem method_tables_inherited :
    let source := "class A { f() {} g() {} } class B < A { f() {} }".toList
    let vm : VM Int := demonstrate Platform.above 60 source 15
    ∃ declared declaration, Attains Platform.above (Declarations.observe Platform.above) {} vm declared ∧
      declared.of 131072 = some declaration ∧
      declaration.table 4 = some 262144 ∧ declaration.table 16 = some 65536 := by
  intro source vm
  obtain ⟨declared, reaches⟩ : ∃ declared, Attains _ (Declarations.observe Platform.above) {} vm declared :=
    attains_demonstrate (Declarations.observe Platform.above) {}
      (show (compile 60 source : Except Error (List (Function (Constant Int) Text))).isOk = true by
        decide +kernel)
      (show thrown (do
        construct Platform.above
        runFor Platform.above (functionsOf 60 source) 15) ({} : VM Int) = none by decide +kernel)
  have reads : thrown (do
      let klass ← getClass 131072
      if klass.methods = [(4, 262144), (16, 65536)] then return else throw .undefined) vm = none := by
    decide +kernel
  clear_value vm
  obtain ⟨klass, same, found, holds⟩ := VmM.bind_ok.mp (run_of_thrown reads)
  obtain ⟨rfl, there⟩ := getClass_ok.mp found
  obtain ⟨declaration, of, table⟩ := method_tables reaches there
  split at holds
  next methods =>
      rw [methods] at table
      exact ⟨declared, declaration, reaches, of, (table 4).symm, (table 16).symm⟩
  next => cases holds

end Cpplox
