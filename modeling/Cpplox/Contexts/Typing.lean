import Cpplox.Ast.Assemble
import Cpplox.Tracking.Captures

namespace Cpplox

open Structured Data

/-! What is on the stack above the base of an activation at each instruction. -/

namespace Instr

/-- How many values an instruction takes from the stack.  One that reads the top and
leaves it there takes it and puts it back. -/
def pops : Instr → Nat
  | simple opcode =>
      match opcode with
      | .pop | .closeUpvalue | .not_ | .negate | .print | .return_ => 1
      | .equal | .greater | .less | .add | .subtract | .multiply | .divide => 2
      | _ => 0
  | operand opcode index =>
      match opcode with
      | .setLocal | .setGlobal | .setUpvalue | .defineGlobal | .getProperty | .method => 1
      | .setProperty | .getSuper => 2
      | .call => index + 1
      | _ => 0
  | _ => 0

/-- How many values it leaves in their place; the result of a call is the one that is
there when the call has returned. -/
def pushes : Instr → Nat
  | simple opcode =>
      match opcode with
      | .nil | .true_ | .false_ | .equal | .greater | .less | .add | .subtract | .multiply
      | .divide | .not_ | .negate | .inherit => 1
      | _ => 0
  | operand opcode _ =>
      match opcode with
      | .defineGlobal | .method => 0
      | _ => 1
  | closure _ _ => 1
  | _ => 0

end Instr

/-- A temporary value, or a variable the compiler tracks. -/
inductive Slot where
  | temporary
  | variable_ (isCaptured : Bool)
deriving DecidableEq, Repr

/-- The slots of an activation, back first; `ended` is after its last `return_`. -/
inductive Context where
  | live (slots : List Slot)
  | ended

/-- What the code of a function is checked against. -/
structure Surroundings (N : Type) where
  kind : FunctionKind
  entryHeight : Nat
  captures : List TrackedUpvalue
  constants : List (Constant N)
  functions : List (LoweredFunction N)

/-- The local at an index waits for its value. -/
def Emission.waitsFor (emission : Emission) (index : Nat) : Bool :=
  match emission.scopes with
  | { locals := tracked :: rest, .. } :: _ => !tracked.initialized && index = rest.length
  | _ => false

/-- The locals tracked about the current function. -/
def localsOf : List FunctionScope → List TrackedLocal
  | [] => []
  | scope :: _ => scope.locals

namespace Surroundings

variable {N : Type}

/-- The slot below the locals of a function expression holds the callee, which is not
tracked. -/
def callee (around : Surroundings N) : List Slot :=
  if around.kind = .expression then [.temporary] else []

def slotsOf (locals : List TrackedLocal) : List Slot :=
  (locals.filter (·.initialized)).map fun tracked => .variable_ tracked.isCaptured

/-- The slots with a number of temporaries above the variables. -/
def slots (around : Surroundings N) (temporaries : Nat) (locals : List TrackedLocal) : List Slot :=
  List.replicate temporaries .temporary ++ (slotsOf locals ++ around.callee)

/-- The slots agree with what is tracked; the flags are those at the end of each scope. -/
def Stands (around : Surroundings N) (scopes : List FunctionScope) (temporaries : Nat)
    (slots : List Slot) : Prop :=
  ∃ locals, Captures (localsOf scopes) locals ∧ slots = around.slots temporaries locals

/-- What a capture of a new closure refers to.  A closure at the very beginning of the
initializer of a local is pushed where that local will be. -/
def Captured (around : Surroundings N) (slots : List Slot) (emission : Emission) :
    TrackedUpvalue → Prop
  | .upvalueIndex index =>
      index ≤ slots.length ∧
      (index = slots.length ↔ around.kind ≠ .expression ∧ emission.leading = true ∧
        emission.waitsFor index = true) ∧
      (around.kind ≠ .expression → emission.waitsFor index = false →
        slot? slots index = some (.variable_ true))
  | .upUpvalueIndex index => index < around.captures.length

/-- The operands of an instruction refer to something of the right kind. -/
def Refers (around : Surroundings N) (slots : List Slot) (emission : Emission) : Prop :=
  match emission.instr with
  | .simple opcode => opcode.shape = .simple
  | .operand opcode index =>
      match opcode with
      | .constant => (∃ value, around.constants[index]? = some (.number value)) ∨
          ∃ chars, around.constants[index]? = some (.string chars)
      | .getLocal | .setLocal => index < slots.length ∧
          ∃ tracked, slot? (localsOf emission.scopes) index = some tracked ∧
            tracked.initialized = true ∧
            ∀ name, emission.occurrence = some name → tracked.name = name
      | .getUpvalue | .setUpvalue => index < around.captures.length
      | .getGlobal | .defineGlobal | .setGlobal | .getProperty | .setProperty | .getSuper
      | .class_ | .method => ∃ chars, around.constants[index]? = some (.string chars) ∧
          ∀ name, emission.occurrence = some name → chars = name
      | .call => True
      | _ => False
  | .closure constant captures =>
      (∃ position function, around.constants[constant]? = some (.function position) ∧
        around.functions[position]? = some function ∧ function.captures = captures) ∧
      ∀ capture ∈ captures, around.Captured slots emission capture
  | _ => False

/-- What an instruction does to the slots.  Only `closeUpvalue` and `return_` take a
captured variable from the stack, and none takes what was there on entry but `return_`. -/
structure Executes (around : Surroundings N) (before : List Slot) (emission : Emission)
    (after : Context) : Prop where
  stands : ∃ temporaries, around.Stands emission.scopes temporaries before
  effect : ∃ taken rest, before = taken ++ rest ∧ taken.length = emission.instr.pops ∧
    around.entryHeight ≤ rest.length ∧
    (emission.instr ≠ .simple .closeUpvalue → .variable_ true ∉ taken) ∧
    (after = .live (List.replicate emission.instr.pushes .temporary ++ rest) ∨
      emission.instr = .simple .return_ ∧ after = .ended)
  refers : around.Refers before emission

/-- A conditional jump finds its condition on top of the stack. -/
def Tests (around : Surroundings N) (slots : List Slot) (tag : JumpTag) : Prop :=
  (∃ rest, slots = .temporary :: rest ∧ around.entryHeight ≤ rest.length) ∧
    ∃ temporaries, around.Stands tag.scopes temporaries slots

def Passes (around : Surroundings N) (slots : List Slot) (tag : JumpTag) : Prop :=
  ∃ temporaries, around.Stands tag.scopes temporaries slots

end Surroundings

namespace Context

/-- The top slot may become another one unless it is captured. -/
inductive Le : Context → Context → Prop
  | refl (context : Context) : Le context context
  | top {top other : Slot} {rest : List Slot} : top ≠ .variable_ true →
      Le (.live (top :: rest)) (.live (other :: rest))

theorem Le.trans {first second third : Context} (one : Le first second) (two : Le second third) :
    Le first third := by
  cases one with
  | refl => exact two
  | top free =>
      cases two with
      | refl => exact .top free
      | top => exact .top free

/-- The top of the stack becomes a variable, or the slot of a placeholder becomes a
temporary again. -/
inductive Marked : Context → Mark → Context → Prop
  | tracked {tracked : TrackedLocal} {isCaptured : Bool} {rest : List Slot} :
      Marked (.live (.temporary :: rest)) (.tracked tracked)
        (.live (.variable_ isCaptured :: rest))
  | untracked {rest : List Slot} :
      Marked (.live (.variable_ false :: rest)) .untracked (.live (.temporary :: rest))

theorem Marked.le {before after : Context} {mark : Mark} (marked : Marked before mark after) :
    Le before after := by
  cases marked <;> exact .top (by simp)

end Context

/-- The typing of the code of a function. -/
def Surroundings.typing {N : Type} (around : Surroundings N) :
    Typing Emission JumpTag Mark Context where
  instr before emission after := ∃ slots, before = .live slots ∧
    around.Executes slots emission after
  condition context tag := ∃ slots, context = .live slots ∧ around.Tests slots tag
  passes context tag := ∃ slots, context = .live slots ∧ around.Passes slots tag
  mark := Context.Marked
  le := Context.Le
  le_refl := .refl
  le_trans := .trans
  mark_le := Context.Marked.le

namespace LoweredFunction

variable {N : Type}

/-- The callee or the receiver and the arguments; the root script begins with nothing. -/
def entryHeight (function : LoweredFunction N) : Nat :=
  if function.kind = .script then 0 else function.arity + 1

def surroundings (function : LoweredFunction N) (functions : List (LoweredFunction N)) :
    Surroundings N where
  kind := function.kind
  entryHeight := function.entryHeight
  captures := function.captures
  constants := function.constants
  functions := functions

/-- Where the code of a function ends: a script falls off its end with nothing on the
stack, other functions return. -/
def exit (function : LoweredFunction N) : Context :=
  if function.kind = .script then .live [] else .ended

/-- The code of a function is typed, from its parameters to its end. -/
structure Certified (function : LoweredFunction N) (functions : List (LoweredFunction N)) : Prop where
  filled : function.code.Filled layout
  returns : function.kind ≠ .script → ∃ front emission, function.flats = front ++ [.plain emission] ∧
    emission.instr = .simple .return_
  typed : ∃ locals : List TrackedLocal, (∀ tracked ∈ locals, tracked.initialized = true) ∧
    ((function.surroundings functions).slots 0 locals).length = function.entryHeight ∧
    Typed (function.surroundings functions).typing
      (.live ((function.surroundings functions).slots 0 locals)) function.code function.exit

end LoweredFunction

end Cpplox
