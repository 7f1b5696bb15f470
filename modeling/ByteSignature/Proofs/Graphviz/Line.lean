import ByteSignature.Graphviz
import ByteSignature.Proofs.Table.Text
import ByteSignature.Proofs.Text.Lines
import Mathlib.Data.List.Infix

/-!
# The lines of a drawing

Between its first and its last lines, a drawing says line by line where to start, which states
accept, and which edges there are.  Every line says one of these things and can be told from all
others: a number ends at the first character that is not a digit, the label of an edge is what
remains between two fixed texts, and labels tell their bytes.
-/

namespace ByteSignature

/-! ## Numbers and labels -/

namespace Text

theorem decimal_injective : Function.Injective decimal := by
  intro number number2 eq
  have values := congrArg digitsValue? eq
  simpa using values

/-- A number is told from what stands behind it. -/
theorem decimal_append_inj {number number2 : Nat} {character character2 : Char}
    {rest rest2 : List Char} (notDigit : character.isDigit = false)
    (notDigit2 : character2.isDigit = false)
    (eq : decimal number ++ character :: rest = decimal number2 ++ character2 :: rest2) :
    number = number2 ∧ character :: rest = character2 :: rest2 := by
  have digits {number : Nat} {character : Char} {rest : List Char}
      (notDigit : character.isDigit = false) :
      (decimal number ++ character :: rest).takeWhile Char.isDigit = decimal number := by
    rw [List.takeWhile_append_of_pos fun _ => isDigit_of_mem_decimal,
      List.takeWhile_cons_of_neg (by simp [notDigit]), List.append_nil]
  have numbers : decimal number = decimal number2 := by
    rw [← digits notDigit, eq, digits notDigit2]
  rw [numbers] at eq
  exact ⟨decimal_injective numbers, List.append_cancel_left eq⟩

/-- A number begins with a digit. -/
theorem cons_ne_decimal_append {character : Char} (notDigit : character.isDigit = false)
    (number : Nat) (rest rest2 : List Char) : character :: rest ≠ decimal number ++ rest2 := by
  intro eq
  cases digits : decimal number with
  | nil => exact Nat.toDigits_ne_nil digits
  | cons digit later =>
      have isDigit := isDigit_of_mem_decimal (digits ▸ List.mem_cons_self : digit ∈ decimal number)
      rw [digits, List.cons_append, List.cons.injEq] at eq
      rw [← eq.1, notDigit] at isDigit
      cases isDigit

theorem notMem_decimal {character : Char} (notDigit : character.isDigit = false) (number : Nat) :
    character ∉ decimal number := by
  intro digitMem
  rw [isDigit_of_mem_decimal digitMem] at notDigit
  cases notDigit

end Text

theorem Symbol.spell_injective : Function.Injective spell := by
  intro symbol symbol2 eq
  have read := congrArg Table.readSymbol eq
  rw [Table.readSymbol_spell, Table.readSymbol_spell] at read
  exact Except.ok.inj read

theorem Symbol.length_spell (symbol : UInt8) :
    (spell symbol).length = 1 ∨ (spell symbol).length = 4 := by
  rw [spell]
  split
  · exact .inl rfl
  · exact .inr rfl

namespace Graphviz

open Text

theorem toList_symbolLabel (symbol : UInt8) :
    (symbolLabel symbol).toList = if symbol = 0x22 then ['\\', '"'] else Symbol.spell symbol := by
  rw [symbolLabel]
  split
  · rfl
  · exact Symbol.toList_format symbol

/-- The label of an edge tells the byte. -/
theorem symbolLabel_injective : Function.Injective symbolLabel := by
  intro symbol symbol2 eq
  have spelled := congrArg String.toList eq
  rw [toList_symbolLabel, toList_symbolLabel] at spelled
  have notQuote (symbol : UInt8) : Symbol.spell symbol ≠ ['\\', '"'] := by
    intro isQuote
    have length_eq := congrArg List.length isQuote
    rcases Symbol.length_spell symbol with one | four
    · rw [one] at length_eq
      cases length_eq
    · rw [four] at length_eq
      cases length_eq
  split at spelled
  · rename_i isQuote
    split at spelled
    · rename_i isQuote2
      exact isQuote.trans isQuote2.symm
    · exact absurd spelled.symm (notQuote symbol2)
  · split at spelled
    · exact absurd spelled (notQuote symbol)
    · exact Symbol.spell_injective spelled

/-- No byte has the label of silent edges. -/
theorem symbolLabel_ne_epsilon (symbol : UInt8) : symbolLabel symbol ≠ "ε" := by
  intro eq
  have spelled := congrArg String.toList eq
  rw [toList_symbolLabel] at spelled
  split at spelled
  · have length_eq := congrArg List.length spelled
    cases length_eq
  · rw [Symbol.spell] at spelled
    split at spelled
    · rename_i plain
      have most := (Symbol.isPlain_iff.mp plain).2.1
      have isEpsilon : Char.ofNat symbol.toNat = 'ε' := (List.cons.inj spelled).1
      rw [← Symbol.toNat_plain plain, isEpsilon] at most
      exact absurd most (by decide)
    · have length_eq := congrArg List.length spelled
      cases length_eq

theorem edgeLabel_injective : Function.Injective edgeLabel := by
  intro label label2 eq
  cases label with
  | epsilon =>
      cases label2 with
      | epsilon => rfl
      | symbol byte => exact absurd eq.symm (symbolLabel_ne_epsilon byte)
  | symbol byte =>
      cases label2 with
      | epsilon => exact absurd eq (symbolLabel_ne_epsilon byte)
      | symbol byte2 => rw [symbolLabel_injective eq]

theorem notMem_edgeLabel_of_isBlank {character : Char} (blank : isBlank character = true)
    (label : Label) : character ∉ (edgeLabel label).toList := by
  have notBlank : ∀ other ∈ (edgeLabel label).toList, isBlank other = false := by
    cases label with
    | epsilon => exact List.forall_mem_singleton.mpr rfl
    | symbol byte =>
        rw [edgeLabel, toList_symbolLabel]
        split
        · exact List.forall_mem_cons.mpr ⟨rfl, List.forall_mem_singleton.mpr rfl⟩
        · exact (Symbol.isWord_spell byte).2
  intro characterMem
  rw [notBlank character characterMem] at blank
  cases blank

/-! ## What a line says -/

/-- What a line of a drawing says. -/
inductive Item where
  | start (id : Nat)
  | accepting (id : Nat)
  | edge (source target : Nat) (label : Label)
  deriving DecidableEq, Repr

namespace Item

/-- The line that says it. -/
def text : Item → String
  | start id => "  start -> " ++ toString id ++ ";"
  | accepting id => "  " ++ toString id ++ " [shape=doublecircle];"
  | edge source target label =>
      "  " ++ toString source ++ " -> " ++ toString target ++
        " [label=\"" ++ edgeLabel label ++ "\"];"

/-- It says that there is an edge. -/
def isEdge : Item → Bool
  | edge _ _ _ => true
  | _ => false

theorem startLine_eq (id : Nat) : startLine id = (start id).text ++ "\n" := by
  have stop : ";\n" = ";" ++ "\n" := rfl
  rw [startLine, stop, ← String.append_assoc, text]

theorem acceptingLine_eq (id : Nat) : acceptingLine id = (accepting id).text ++ "\n" := by
  have stop : " [shape=doublecircle];\n" = " [shape=doublecircle];" ++ "\n" := rfl
  rw [acceptingLine, stop, ← String.append_assoc, text]

theorem edgeLine_eq (source target : Nat) (label : Label) :
    edgeLine source target (edgeLabel label) = (edge source target label).text ++ "\n" := by
  have stop : "\"];\n" = "\"];" ++ "\n" := rfl
  rw [edgeLine, stop, ← String.append_assoc, text]

/-! ## Telling lines apart -/

theorem toList_text_start (id : Nat) : (start id).text.toList =
    ' ' :: ' ' :: 's' :: (['t', 'a', 'r', 't', ' ', '-', '>', ' '] ++ (decimal id ++ [';'])) := by
  simp [text, decimal]

theorem toList_text_accepting (id : Nat) : (accepting id).text.toList =
    ' ' :: ' ' :: (decimal id ++ ' ' :: '[' :: "shape=doublecircle];".toList) := by
  simp [text, decimal]

theorem toList_text_edge (source target : Nat) (label : Label) :
    (edge source target label).text.toList =
      ' ' :: ' ' :: (decimal source ++ ' ' :: '-' :: '>' :: ' ' :: (decimal target ++
        ' ' :: ("[label=\"".toList ++ ((edgeLabel label).toList ++ ['"', ']', ';'])))) := by
  simp [text, decimal]

theorem text_start_ne_accepting (id id2 : Nat) : (start id).text ≠ (accepting id2).text := by
  intro eq
  have characters := congrArg String.toList eq
  rw [toList_text_start, toList_text_accepting] at characters
  simp only [List.cons.injEq, true_and] at characters
  exact cons_ne_decimal_append (by decide) _ _ _ characters

theorem text_start_ne_edge (id source target : Nat) (label : Label) :
    (start id).text ≠ (edge source target label).text := by
  intro eq
  have characters := congrArg String.toList eq
  rw [toList_text_start, toList_text_edge] at characters
  simp only [List.cons.injEq, true_and] at characters
  exact cons_ne_decimal_append (by decide) _ _ _ characters

theorem text_accepting_ne_edge (id source target : Nat) (label : Label) :
    (accepting id).text ≠ (edge source target label).text := by
  intro eq
  have characters := congrArg String.toList eq
  rw [toList_text_accepting, toList_text_edge] at characters
  simp only [List.cons.injEq, true_and] at characters
  -- Behind the number there is a bracket in the one line and an arrow in the other.
  have behind := (decimal_append_inj (by decide) (by decide) characters).2
  simp at behind

/-- Every line says one thing. -/
theorem text_injective : Function.Injective text := by
  intro item item2 eq
  have characters := congrArg String.toList eq
  cases item with
  | start id =>
      cases item2 with
      | start id2 =>
          simp only [toList_text_start, List.cons.injEq, true_and, List.append_cancel_left_eq]
            at characters
          rw [(decimal_append_inj (by decide) (by decide) characters).1]
      | accepting id2 => exact absurd eq (text_start_ne_accepting _ _)
      | edge source2 target2 label2 => exact absurd eq (text_start_ne_edge _ _ _ _)
  | accepting id =>
      cases item2 with
      | start id2 => exact absurd eq.symm (text_start_ne_accepting _ _)
      | accepting id2 =>
          simp only [toList_text_accepting, List.cons.injEq, true_and] at characters
          rw [(decimal_append_inj (by decide) (by decide) characters).1]
      | edge source2 target2 label2 => exact absurd eq (text_accepting_ne_edge _ _ _ _)
  | edge source target label =>
      cases item2 with
      | start id2 => exact absurd eq.symm (text_start_ne_edge _ _ _ _)
      | accepting id2 => exact absurd eq.symm (text_accepting_ne_edge _ _ _ _)
      | edge source2 target2 label2 =>
          simp only [toList_text_edge, List.cons.injEq, true_and] at characters
          obtain ⟨rfl, behindSource⟩ := decimal_append_inj (by decide) (by decide) characters
          simp only [List.cons.injEq, true_and] at behindSource
          obtain ⟨rfl, behindTarget⟩ := decimal_append_inj (by decide) (by decide) behindSource
          simp only [List.cons.injEq, true_and, List.append_cancel_left_eq,
            List.append_cancel_right_eq] at behindTarget
          rw [edgeLabel_injective (String.toList_inj.mp behindTarget)]

/-- A line has no line end. -/
theorem notMem_text {character : Char} (ends : character = '\n' ∨ character = '\r') (item : Item) :
    character ∉ item.text.toList := by
  have noDigit (number : Nat) : character ∉ decimal number := by
    apply notMem_decimal
    rcases ends with rfl | rfl <;> rfl
  have noLabel (label : Label) : character ∉ (edgeLabel label).toList := by
    apply notMem_edgeLabel_of_isBlank
    rcases ends with rfl | rfl <;> rfl
  cases item with
  | start id =>
      rcases ends with rfl | rfl <;> simp [toList_text_start, noDigit]
  | accepting id =>
      rcases ends with rfl | rfl <;> simp [toList_text_accepting, noDigit]
  | edge source target label =>
      rcases ends with rfl | rfl <;> simp [toList_text_edge, noDigit, noLabel]

/-- What is said line by line makes lines of its own, whatever follows. -/
theorem lines_flatMap_text_append (items : List Item) (rest : List Char) :
    lines ((items.flatMap fun item => item.text.toList ++ ['\n']) ++ rest) =
      (items.map fun item => item.text.toList) ++ lines rest := by
  induction items with
  | nil => rfl
  | cons item items ih =>
      have alone : lines (item.text.toList ++ ['\n']) = [item.text.toList] :=
        lines_append_lineEnd (item.notMem_text (.inl rfl)) (item.notMem_text (.inr rfl)) .feed
      rw [List.flatMap_cons, List.append_assoc, List.map_cons, List.cons_append, ← ih]
      exact (lines_append_lineEnd_append _ _ .feed).trans (congrArg (· ++ _) alone)

end Item

/-! ## Labelled lines -/

/-- The line has a label. -/
def isLabelled (line : List Char) : Bool :=
  decide (['[', 'l', 'a', 'b', 'e', 'l', '=', '"'] <:+: line)

theorem isLabelled_eq_false {line : List Char} (notQuoted : '"' ∉ line) :
    isLabelled line = false := by
  rw [isLabelled, decide_eq_false_iff_not]
  intro isInfix
  exact notQuoted (isInfix.subset (by decide))

/-- The labelled lines are those of edges. -/
theorem isLabelled_text (item : Item) : isLabelled item.text.toList = item.isEdge := by
  have noDigit (number : Nat) : '"' ∉ decimal number := notMem_decimal (by decide) number
  cases item with
  | start id =>
      apply isLabelled_eq_false
      simp [Item.toList_text_start, noDigit]
  | accepting id =>
      apply isLabelled_eq_false
      simp [Item.toList_text_accepting, noDigit]
  | edge source target label =>
      refine decide_eq_true ⟨' ' :: ' ' :: (decimal source ++ ' ' :: '-' :: '>' :: ' ' ::
        (decimal target ++ [' '])), (edgeLabel label).toList ++ ['"', ']', ';'], ?_⟩
      simp [Item.toList_text_edge]

end Graphviz

end ByteSignature
