import Cpplox.Compiler.Scope
import Cpplox.Memory
import Cpplox.Data.Map
import Cpplox.Data.BackFirst

namespace Cpplox

open Data

/-! The values and heap objects of the virtual machine. -/

/-- `Dynamic_type_value`. -/
inductive Value (N : Type) where
  | nil
  | bool (value : Bool)
  | number (value : N)
  | boundMethod (ptr : Ptr)
  | class_ (ptr : Ptr)
  | closure (ptr : Ptr)
  | function (ptr : Ptr)
  | instance_ (ptr : Ptr)
  | nativeFn (ptr : Ptr)
  | string (ptr : Ptr)
deriving DecidableEq, Repr

namespace Value

variable {N : Type}

/-- `==` of the variant: the same alternative, doubles as doubles, pointers as
addresses. -/
def equal [Number N] : Value N → Value N → Bool
  | nil, nil => true
  | bool left, bool right => left = right
  | number left, number right => Number.equal left right
  | boundMethod left, boundMethod right => left = right
  | class_ left, class_ right => left = right
  | closure left, closure right => left = right
  | function left, function right => left = right
  | instance_ left, instance_ right => left = right
  | nativeFn left, nativeFn right => left = right
  | string left, string right => left = right
  | _, _ => false

/-- `Is_truthy_visitor`. -/
def isTruthy : Value N → Bool
  | nil => false
  | bool value => value
  | _ => true

/-- What `Mark_objects_visitor` marks. -/
def refs : Value N → List Ptr
  | nil | bool _ | number _ => []
  | boundMethod ptr | class_ ptr | closure ptr | function ptr | instance_ ptr | nativeFn ptr
  | string ptr => [ptr]

end Value

instance {N : Type} [Number N] : Constants (Value N) Ptr Ptr where
  equal := Value.equal
  string := .string
  function := .function

structure BoundMethod where
  instance_ : Ptr
  method : Ptr

structure Class where
  name : Ptr
  methods : List (Ptr × Ptr) := []

structure Closure where
  function : Ptr
  upvalues : List Ptr := []
  openUpvalues : List Ptr := []

structure Instance (N : Type) where
  klass : Ptr
  fields : List (Ptr × Value N) := []

/-- Open upvalues refer to a slot of the machine's stack. -/
inductive Upvalue (N : Type) where
  | open_ (stackIndex : Nat)
  | closed (value : Value N)

abbrev HeapFunction (N : Type) := Function (Value N) Ptr

inductive Object (N : Type) where
  | boundMethod (boundMethod : BoundMethod)
  | class_ (klass : Class)
  | closure (closure : Closure)
  | function (function : HeapFunction N)
  | instance_ (inst : Instance N)
  | nativeFn
  | string (chars : Text)
  | upvalue (upvalue : Upvalue N)

namespace Upvalue

variable {N : Type}

/-- `value()`, where the stack is kept back first; `none` when `at` throws. -/
def value? (stack : List (Value N)) : Upvalue N → Option (Value N)
  | open_ stackIndex => slot? stack stackIndex
  | closed value => some value

end Upvalue

namespace Object

variable {N : Type}

/-- The `trace_refs_trait` specialisations.  An open upvalue traces the stack slot it
refers to. -/
def traceRefs (stack : List (Value N)) : Object N → List Ptr
  | boundMethod bound => [bound.instance_, bound.method]
  | class_ klass => klass.name :: klass.methods.flatMap fun (key, method) => [key, method]
  | closure made => made.function :: (made.upvalues ++ made.openUpvalues)
  | function compiled =>
      compiled.name :: (compiled.chunk.constants.flatMap Value.refs ++
        compiled.chunk.sourceMapTokens.map (·.lexeme))
  | instance_ inst => inst.klass :: inst.fields.flatMap fun (key, field) => key :: field.refs
  | nativeFn => []
  | string _ => []
  | upvalue captured => ((captured.value? stack).map Value.refs).getD []

/-- An open upvalue whose slot is not on the stack: tracing it throws. -/
def isDangling (stack : List (Value N)) : Object N → Bool
  | upvalue captured => (captured.value? stack).isNone
  | _ => false

end Object

/-- The two tables of `Interned_strings`. -/
structure InternedStrings where
  stringsByChars : List (Text × Ptr) := []
  stringsByPtr : List (Ptr × Ptr) := []

/-- The callback in `on_destroy_ptr`. -/
def InternedStrings.onDestroy {N : Type} (block : ControlBlock (Object N))
    (strings : InternedStrings) : InternedStrings :=
  match lookup strings.stringsByPtr block.ptr with
  | none => strings
  | some _ =>
      { stringsByChars := match block.value with
          | .string chars => eraseKey strings.stringsByChars chars
          | _ => strings.stringsByChars
        stringsByPtr := eraseKey strings.stringsByPtr block.ptr }

/-- What the machine takes from its surroundings: the addresses the allocator gives
out, the sizes of control blocks, and the readings of the clock. -/
structure Platform (N : Type) where
  allocate : Nat → List Ptr → Ptr
  allocate_fresh : ∀ (count : Nat) (live : List Ptr), allocate count live ∉ live
  controlBlockSize : Object N → Nat
  clock : Nat → N

end Cpplox
