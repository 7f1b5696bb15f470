import ByteSignature.Proofs.Pattern.Refusal

/-!
# Blanks in patterns

Reading sees the visible characters of a text and nothing else.  Blanks shift where tokens stand,
and they cut a run of characters outside the alphabet into several tokens.  What is read does not
depend on the one, and not on the other either, because reading stops at the first character
outside the alphabet.  So a text and its respaced forms are read alike: to the same pattern, or to
failures of one kind behind the same operands.
-/

namespace ByteSignature

open Pattern

/-! ## Respaced texts -/

/-- The second text is the first with some blanks put in and others taken out. -/
inductive Respaced : List Char → List Char → Prop where
  | nil : Respaced [] []
  | keep {first second : List Char} (character : Char) (respaced : Respaced first second) :
      Respaced (character :: first) (character :: second)
  | insert {first second : List Char} {blank : Char} (isBlank : isBlank blank = true)
      (respaced : Respaced first second) : Respaced first (blank :: second)
  | delete {first second : List Char} {blank : Char} (isBlank : isBlank blank = true)
      (respaced : Respaced first second) : Respaced (blank :: first) second

theorem Respaced.visible_eq {source source2 : String}
    (respaced : Respaced source.toList source2.toList) : visible source = visible source2 := by
  unfold visible
  generalize source.toList = first at respaced ⊢
  generalize source2.toList = second at respaced ⊢
  induction respaced with
  | nil => rfl
  | keep character _ ih => rw [List.filter_cons, List.filter_cons, ih]
  | insert isBlank _ ih => rw [ih, List.filter_cons_of_neg (by simp [isBlank])]
  | delete isBlank _ ih => rw [← ih, List.filter_cons_of_neg (by simp [isBlank])]

/-! ## What tokens show of a text -/

namespace Token

end Token

/-! ## Readers that differ in where tokens stand -/

/-- What is wrong, apart from where: the kinds of the findings, if there are findings. -/
def ReadFault.kinds? : ReadFault → Option (List DiagnosticKind)
  | .malformed findings => some (findings.map Diagnostic.kind)
  | .nestingTooDeep => none

/-- The failures come behind the same operands and are of one kind. -/
structure ReadFailure.Alike (first second : ReadFailure) : Prop where
  operands_eq : first.operands = second.operands
  kinds_eq : first.fault.kinds? = second.fault.kinds?

namespace Reader

/-- The open groups differ at most in where their parentheses stand. -/
def SamePendings : List Level → List Level → Prop :=
  List.Forall₂ fun first second => first.pending = second.pending

/-- The findings are of the same kinds. -/
def SameKinds (findings findings2 : List Diagnostic) : Prop :=
  findings.map Diagnostic.kind = findings2.map Diagnostic.kind

/-- The states differ at most in where the parentheses of their open groups stand and in what
their findings point at. -/
structure State.Alike (first second : State) : Prop where
  position_eq : first.position = second.position
  samePendings : SamePendings first.levels second.levels
  sameKinds : SameKinds first.findings second.findings

/-- Both readers go on, to related results, or both fail alike. -/
inductive Agree {α : Type} (related : α → α → Prop) :
    Except ReadFailure α → Except ReadFailure α → Prop where
  | ok {first second : α} (relates : related first second) : Agree related (.ok first) (.ok second)
  | error {first second : ReadFailure} (alike : first.Alike second) :
      Agree related (.error first) (.error second)

section Step

variable {α : Type} {related : α → α → Prop} {limit : Nat} {token token2 : Token}
  {levels levels2 : List Level} {findings findings2 : List Diagnostic}

end Step

/-! ## Runs -/

end Reader

end ByteSignature
