import BlockVerilog.Proofs.Number.LongNumeral
import BlockVerilog.Proofs.Number.Shortest
import BlockVerilog.Proofs.Pass.Running

/-!
Numbers that are converted to sized literals.

A number reaches its literal as the text of a double. So the literal says the shortest numeral that
is rounded to the same double as the one on the node, which is another number where digits are lost.
-/

namespace BlockVerilog

open Numeral Text Pass

/-- The radix that a kind of expression converts to. -/
def Radix.ofKind? : String → Option Radix
  | "decimal_binary_return" => some .binary
  | "decimal_hexa_return" => some .hex
  | "decimal_octal_return" => some .octal
  | _ => none

/-- A node that converts the numeral of another node to a sized literal. -/
def Graph.ConvertsNumeral (g : Graph) (id : NodeId) (radix : Radix) (text : String) : Prop :=
  ∃ node child constant, g.get? id = some node ∧ node.enabled = true ∧
    Radix.ofKind? node.kind = some radix ∧ node.values.target? "number" = some child ∧
    g.get? child = some constant ∧ constant.enabled = true ∧ constant.kind = "math_number" ∧
    constant.fields.get? "NUM" = some (.text text)

theorem Radix.get?_of_ofKind? {kind : String} {radix : Radix}
    (known : Radix.ofKind? kind = some radix) :
    HandlerTable.builtin.get? kind = some (Handlers.sizedValue radix) := by
  unfold Radix.ofKind? at known
  split at known <;> cases known <;>
    exact HandlerTable.get?_builtin (by simp [Handlers.builtin])

theorem isPlain_toDigits (n : Nat) : IsPlain (trim (Nat.toDigits 10 n)) n := by
  have digits : IsDigits (Nat.toDigits 10 n) :=
    ⟨Nat.toDigits_ne_nil, fun _ => Nat.isDigit_of_mem_toDigits (by decide) (Nat.le_refl _)⟩
  rw [digits.trim]
  exact .bare digits.1 (read?_toDigits (by decide) (by decide) n)

/-- What a numeral on a node is printed as. -/
theorem numberExpression_of_digits {text : String} {n : Nat} (digits : IsDigits text.toList)
    (writes : read? 10 text.toList = some n) (small : n < 2 ^ 128) :
    ∃ m, Handlers.numberExpression (some (.text text)) =
        Handlers.atom (String.ofList (Nat.toDigits 10 m)) ∧ IsShortest n m := by
  have read : FieldValue.asNumber? (.text text) = some (Binary64.ofNat n) := by
    rw [FieldValue.asNumber?, digits.trim]
    exact IsPlain.parseNumber_eq (.bare digits.1 writes)
  have positive : (Binary64.ofNat n).isFinite = true ∧ (Binary64.ofNat n).isNegative = false := by
    obtain ⟨mantissa, exponent, rounds, _⟩ := Binary64.ofRatio_whole small
    rw [Binary64.ofNat, rounds]
    exact ⟨rfl, rfl⟩
  obtain ⟨m, written, shortest⟩ := exists_text_ofNat small
  refine ⟨m, ?_, shortest⟩
  rw [Handlers.numberExpression, Option.bind_some, read, Option.filter_some, if_pos positive.1]
  dsimp only
  rw [positive.2, if_neg Bool.false_ne_true, written, Handlers.atom]

namespace Generator

variable {gen : Generator} {id : NodeId} {radix : Radix} {text : String} {n : Nat}

theorem shown_atom (visible : text ≠ "") (required : Precedence) :
    shown required (some (Handlers.atom text)) = some text := by
  have bare : parenthesize text .atomic required = text := by cases required <;> rfl
  rw [Handlers.atom, shown, if_neg visible, bare]

/-- A numeral is converted by way of the text of its double. -/
theorem expression_of_numeral (builtin : gen.table = .builtin)
    (converts : gen.graph.ConvertsNumeral id radix text) (digits : IsDigits text.toList)
    (writes : read? 10 text.toList = some n) (small : n < 2 ^ 128) (depth : Nat) :
    ∃ m, IsShortest n m ∧ (gen.engine (depth + 2)).expression id =
      pure (some (Handlers.atom (sizedLiteral radix (String.ofList (Nat.toDigits 10 m))))) := by
  obtain ⟨node, child, constant, found, on, kind, plugged, foundToo, onToo, isNumber, field⟩ :=
    converts
  obtain ⟨m, printed, shortest⟩ := numberExpression_of_digits digits writes small
  have visible : String.ofList (Nat.toDigits 10 m) ≠ "" := fun nothing =>
    Nat.toDigits_ne_nil (String.ofList_injective nothing)
  have registered : gen.table.get? node.kind = some (Handlers.sizedValue radix) := by
    rw [builtin]
    exact Radix.get?_of_ofKind? kind
  have registeredToo : gen.table.get? constant.kind = some Handlers.number := by
    rw [builtin, isNumber]
    exact HandlerTable.get?_builtin (by simp [Handlers.builtin])
  have number : (gen.engine (depth + 1)).expression child =
      pure (some (Handlers.atom (String.ofList (Nat.toDigits 10 m)))) := by
    rw [engine_succ]
    change gen.expressionAt _ child = _
    rw [expressionAt_of_registered foundToo onToo registeredToo]
    simp only [Generator.run, Generator.site, field, printed, pure_bind]
  refine ⟨m, shortest, ?_⟩
  rw [engine_succ]
  change gen.expressionAt _ id = _
  rw [expressionAt_of_registered found on registered]
  simp only [Site.valueOr, Script.value_bind, Generator.run, Generator.site, value_eq found,
    plugged, heldExpression, number, pure_bind, shown_atom visible, Option.getD_some,
    Script.done_bind, Script.pure_eq_done]

theorem sizedLiteral_toDigits (radix : Radix) (m : Nat) :
    if m < 2 ^ 128 then IsSized radix m (sizedLiteral radix (String.ofList (Nat.toDigits 10 m)))
    else sizedLiteral radix (String.ofList (Nat.toDigits 10 m)) = dontCare radix :=
  sizedLiteral_of_plain (by rw [String.toList_ofList]; exact isPlain_toDigits m) radix

/-- A numeral below `2 ^ 128` that is converted gives the literal of the shortest number with its
double, where that is below the bound too. It is the number itself if that is below `2 ^ 53`, or has
no more than fifteen digits in front of zeros. -/
theorem numeral_converted (builtin : gen.table = .builtin)
    (converts : gen.graph.ConvertsNumeral id radix text) (digits : IsDigits text.toList)
    (writes : read? 10 text.toList = some n) (small : n < 2 ^ 128) (depth : Nat)
    (state : PassState) :
    ∃ literal m, ((gen.engine (depth + 2)).expression id).outcome state =
        (.ok (some (literal, .atomic)), state) ∧
      IsShortest n m ∧
      (if m < 2 ^ 128 then IsSized radix m literal else literal = dontCare radix) ∧
      (n < 2 ^ 53 → m = n) ∧ ∀ c k, c < 10 ^ 15 → n = c * 10 ^ k → m = n := by
  obtain ⟨m, shortest, printed⟩ :=
    expression_of_numeral builtin converts digits writes small depth
  refine ⟨_, m, by rw [printed]; rfl, shortest, sizedLiteral_toDigits radix m,
    shortest.eq_of_lt, ?_⟩
  rintro c k few rfl
  exact shortest.eq_of_few_digits small few

/-- The largest number of sixty-four bits, as a hexadecimal literal. -/
def allOnes : Generator where
  graph :=
    { nodes := #[
        { Node.blank "decimal_hexa_return" .expression with
          values := .ofList [("number", some 1)] },
        { Node.blank "math_number" .expression with
          key := "mask", fields := .ofList [("NUM", .text "18446744073709551615")] }]
      vars := [] }
  table := .builtin
  config := .standard

theorem allOnes_converts :
    allOnes.graph.ConvertsNumeral 0 .hex "18446744073709551615" ∧
      IsDigits "18446744073709551615".toList ∧
      read? 10 "18446744073709551615".toList = some (2 ^ 64 - 1) := by
  refine ⟨⟨_, 1, _, rfl, rfl, rfl, rfl, rfl, rfl, rfl, rfl⟩, ?_, by decide⟩
  exact ⟨by decide, List.all_eq_true.mp (by decide)⟩

theorem allOnes_converted :
    (allOnes.table = .builtin ∧ allOnes.graph.ConvertsNumeral 0 .hex "18446744073709551615") ∧
      ∃ literal m, ((allOnes.engine 2).expression 0).outcome (.initial .standard) =
          (.ok (some (literal, .atomic)), .initial .standard) ∧ IsShortest (2 ^ 64 - 1) m ∧
        if m < 2 ^ 128 then IsSized .hex m literal else literal = dontCare .hex := by
  obtain ⟨converts, digits, writes⟩ := allOnes_converts
  obtain ⟨literal, m, printed, shortest, sized, _⟩ :=
    numeral_converted rfl converts digits writes (by decide) 0 (.initial .standard)
  exact ⟨⟨rfl, converts⟩, literal, m, printed, shortest, sized⟩

/-- A mask of sixty-four bits becomes the literal of a number with sixty-five. -/
theorem allOnes_changed :
    ¬ ∀ (gen : Generator) (id : NodeId) (radix : Radix) (text : String) (n : Nat)
        (state : PassState), gen.table = .builtin → gen.graph.ConvertsNumeral id radix text →
      IsDigits text.toList → read? 10 text.toList = some n → n < 2 ^ 128 →
      ∃ literal, (gen.whole.expression id).outcome state =
        (.ok (some (literal, .atomic)), state) ∧ IsSized radix n literal := by
  intro claimed
  obtain ⟨converts, digits, writes⟩ := allOnes_converts
  obtain ⟨literal, printed, sized⟩ := claimed allOnes 0 .hex _ _ (.initial .standard) rfl
    converts digits writes (by decide)
  obtain ⟨m, shortest, converted⟩ := expression_of_numeral rfl converts digits writes (by decide) 0
  have ran := congrArg (fun c => outcome c (.initial .standard)) converted
  obtain rfl : sizedLiteral .hex (String.ofList (Nat.toDigits 10 m)) = literal := by
    cases ran.symm.trans printed
    rfl
  have zeros : 10 ^ 3 ∣ m := shortest.fewest 18446744073709552000 3 (by decide +kernel) (by decide)
  have given := sizedLiteral_toDigits .hex m
  split at given
  next => exact absurd (sized.unique given ▸ zeros) (by decide)
  next =>
    rw [given] at sized
    exact not_isSized_dontCare _ _ sized

end Generator

end BlockVerilog
