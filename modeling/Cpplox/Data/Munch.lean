import Mathlib.Data.List.TakeWhile
import Mathlib.Tactic.Common

namespace Cpplox.Data

/-! Maximal munch: a text divided into elements of a grammar, each the longest prefix that
matches at its position. -/

variable {A K : Type}

/-- `lexeme` begins `lexeme ++ rest`, and nothing longer there matches. -/
structure Munches (grammar : K → List A → Prop) (kind : K) (lexeme rest : List A) : Prop where
  inGrammar : grammar kind lexeme
  longest : ∀ {other longer}, grammar other longer → longer <+: lexeme ++ rest →
    longer.length ≤ lexeme.length

/-- `text` begins with the elements, one after the other, and goes on with `rest`. -/
inductive Divides (grammar : K → List A → Prop) : List A → List (K × List A) → List A → Prop where
  | done (rest : List A) : Divides grammar rest [] rest
  | munch {kind lexeme text elements rest} : Munches grammar kind lexeme text →
      Divides grammar text elements rest →
      Divides grammar (lexeme ++ text) ((kind, lexeme) :: elements) rest

/-- No prefix matches. -/
def Stuck (grammar : K → List A → Prop) (text : List A) : Prop :=
  ∀ kind lexeme, lexeme <+: text → ¬ grammar kind lexeme

/-- A lexeme has one kind. -/
def OneKind (grammar : K → List A → Prop) : Prop :=
  ∀ kind other lexeme, grammar kind lexeme → grammar other lexeme → kind = other

variable {grammar : K → List A → Prop} {kind : K} {lexeme text rest : List A}

theorem Munches.single (munches : Munches grammar kind lexeme text) :
    Divides grammar (lexeme ++ text) [(kind, lexeme)] text :=
  .munch munches (.done text)

theorem Divides.append {middle : List A} {elements more : List (K × List A)}
    (first : Divides grammar text elements middle) (last : Divides grammar middle more rest) :
    Divides grammar text (elements ++ more) rest := by
  induction first with
  | done => exact last
  | munch munches _ ih => exact .munch munches (ih last)

/-- The elements are consecutive parts of the text. -/
theorem Divides.text_eq {elements : List (K × List A)} (divides : Divides grammar text elements rest) :
    text = (elements.map Prod.snd).flatten ++ rest := by
  induction divides with
  | done => rfl
  | munch _ _ ih =>
      rw [ih]
      simp

theorem Munches.not_stuck (munches : Munches grammar kind lexeme text) :
    ¬ Stuck grammar (lexeme ++ text) :=
  fun stuck => stuck kind lexeme (List.prefix_append _ _) munches.inGrammar

theorem Munches.unique {other : K} {longer after : List A}
    (kinds : OneKind grammar)
    (munches : Munches grammar kind lexeme text) (also : Munches grammar other longer after)
    (same : lexeme ++ text = longer ++ after) :
    kind = other ∧ lexeme = longer ∧ text = after := by
  have below := munches.longest also.inGrammar (same ▸ List.prefix_append longer after)
  have above := also.longest munches.inGrammar (same ▸ List.prefix_append lexeme text)
  obtain ⟨rfl, rfl⟩ := List.append_inj same (Nat.le_antisymm above below)
  exact ⟨kinds _ _ _ munches.inGrammar also.inGrammar, rfl, rfl⟩

/-- A division that can go no further is the only one. -/
theorem Divides.unique {elements others : List (K × List A)} {stop : List A}
    (kinds : OneKind grammar)
    (divides : Divides grammar text elements rest) (also : Divides grammar text others stop)
    (stuck : Stuck grammar rest) (stopped : Stuck grammar stop) :
    elements = others ∧ rest = stop := by
  induction divides generalizing others with
  | done rest =>
      cases also with
      | done => exact ⟨rfl, rfl⟩
      | munch munches _ => exact absurd stuck munches.not_stuck
  | @munch kind lexeme text elements rest munches _ ih =>
      generalize whole : lexeme ++ text = here at also
      cases also with
      | done => exact absurd (whole ▸ stopped) munches.not_stuck
      | munch alsoMunches alsoRest =>
          obtain ⟨rfl, rfl, rfl⟩ := munches.unique kinds alsoMunches whole
          obtain ⟨rfl, rfl⟩ := ih alsoRest stuck
          exact ⟨rfl, rfl⟩

theorem prefix_takeWhile {member : A → Bool} {word : List A} (begins : word <+: text)
    (members : ∀ element ∈ word, member element) : word <+: text.takeWhile member := by
  obtain ⟨after, rfl⟩ := begins
  rw [List.takeWhile_append_of_pos members]
  exact List.prefix_append _ _

theorem length_le_takeWhile {member : A → Bool} {word : List A} (begins : word <+: text)
    (members : ∀ element ∈ word, member element) :
    word.length ≤ (text.takeWhile member).length :=
  (prefix_takeWhile begins members).length_le

/-- The text behind a `takeWhile` ends or begins with no member. -/
theorem head_dropWhile {member : A → Bool} {head : A} {tail : List A}
    (drops : text.dropWhile member = head :: tail) : member head = false := by
  have := List.head?_dropWhile_not member text
  rw [drops] at this
  simpa using this

end Cpplox.Data
