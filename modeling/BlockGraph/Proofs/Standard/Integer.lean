import BlockGraph.Proofs.Decimal.Whole
import BlockGraph.Proofs.Standard.Expression

/-!
# Integer literals

The value of an integer literal is a number of any kind. The literal of an `Int` is the text of the number, and so is
that of a `Nat`, but for numbers below zero, which are refused with a warning (`outputAt_integer`). Nothing checks that
the number is whole, so the output is the text of an integer, or absent with a warning, just when the number is whole or
refused (`integer_literal_iff`). Fractions, infinities and what is not a number are written as they are
(`fraction_in_int_literal`).
-/

namespace BlockGraph

namespace Compiler

open Standard

variable {c : Compiler} {node block : String} {x : Float} {marks : List Socket}

/-- The text of a number as an integer literal of a block, or why there is none. -/
def integerText (marks : List Socket) (node block : String) (x : Float) : Except String String :=
  if ⟨node, "result"⟩ ∈ marks then .error (Error.cycleDetected node "result").message
  else if block = "LiteralNat" ∧ x < 0 then .error ("Nat literal " ++ Decimal.display x ++ " is negative")
  else .ok (Decimal.display x)

/-- What a literal gives and reports: its text without an event, or a refusal with a warning. -/
def literalResult (node block : String) : Except String String → Option Value × List Event
  | .ok text => (some (.text text), [])
  | .error message => (none, [.warning node block "result" message])

theorem OverStandard.integer_schema (hc : c.OverStandard) (hblock : c.graph.blockName? node = some block)
    (hinteger : block = "LiteralInt" ∨ block = "LiteralNat") (hmark : ⟨node, "result"⟩ ∉ marks) (x : Float) :
    ∃ t write, c.schema node = .ok (literalSchema block t write) ∧
      write (.number x) = integerText marks node block x := by
  obtain ⟨t, ht⟩ := hc.types
  rw [integerText, if_neg hmark]
  obtain rfl | rfl := hinteger
  · refine ⟨t.int, plainLiteral, schema_of_block hblock (ht ▸ rfl), ?_⟩
    rw [if_neg (by simp)]
    rfl
  · refine ⟨t.nat, natLiteral, schema_of_block hblock (ht ▸ rfl), ?_⟩
    by_cases hx : x < 0
    · rw [if_pos ⟨rfl, hx⟩]
      exact if_pos hx
    · rw [if_neg fun h => hx h.2]
      exact if_neg hx

theorem observe_literal (hc : c.OverStandard) {t : Ty} {write : LiteralText} {v : Value}
    (hschema : c.schema node = .ok (literalSchema block t write))
    (hvalue : c.storedControl node "value" = .ok (some v)) (n : Nat) (hmark : ⟨node, "result"⟩ ∉ marks) :
    (outputAt (n + 1) c ⟨node, "result"⟩).observe marks =
      some (.ok (literalResult node block (write v)).1, (literalResult node block (write v)).2) := by
  rw [observe_outputAt, hc.traceAt_eq hschema rfl rfl n hmark]
  simp only [literalCallback, Program.readings_get (readTrace_literal hc hschema hvalue)]
  cases write v with
  | ok text => rfl
  | error message => rfl

theorem outputAt_integer (hc : c.OverStandard) (hblock : c.graph.blockName? node = some block)
    (hinteger : block = "LiteralInt" ∨ block = "LiteralNat")
    (hcontrol : c.graph.control? node "value" = some (.number x)) {n : Nat} (hn : 0 < n) (s : Session) :
    outputAt n c ⟨node, "result"⟩ s =
      some (.ok (literalResult node block (integerText s.inProgress node block x)).1,
        s.raise (literalResult node block (integerText s.inProgress node block x)).2) := by
  obtain ⟨n, rfl⟩ := Nat.exists_eq_add_one_of_ne_zero hn.ne'
  have hvalue : c.storedControl node "value" = .ok (some (.number x)) := by
    rw [storedControl, hcontrol]
    rfl
  rw [c.framed_outputAt (n + 1) ⟨node, "result"⟩ s]
  by_cases hmark : ⟨node, "result"⟩ ∈ s.inProgress
  · obtain ⟨t, write, hschema, -⟩ := hc.integer_schema hblock hinteger List.not_mem_nil x
    rw [integerText, if_pos hmark, observe_outputAt, traceAt, property_eq_ok_iff.mpr ⟨hschema, rfl⟩]
    dsimp only
    rw [if_pos hmark]
    rfl
  · obtain ⟨t, write, hschema, hwrite⟩ := hc.integer_schema hblock hinteger hmark x
    rw [observe_literal hc hschema hvalue n hmark, hwrite]
    rfl

/-- The output is the text of an integer, or it is absent with a warning on it. -/
def IntegerOrRefused (node block : String) (r : Option Value × List Event) : Prop :=
  (r.1 = none ∧ ∃ message, .warning node block "result" message ∈ r.2) ∨
    ∃ text, r.1 = some (.text text) ∧ Decimal.IsInteger (block == "LiteralInt") text

theorem integerOrRefused_error (message : String) :
    IntegerOrRefused node block (literalResult node block (.error message)) :=
  .inl ⟨rfl, message, List.mem_singleton_self _⟩

theorem integerOrRefused_ok {text : String} :
    IntegerOrRefused node block (literalResult node block (.ok text)) ↔
      Decimal.IsInteger (block == "LiteralInt") text := by
  constructor
  · rintro (⟨hnone, -⟩ | ⟨text', htext, hinteger⟩)
    · cases hnone
    · cases htext
      exact hinteger
  · exact fun h => .inr ⟨text, rfl, h⟩

theorem isInteger_display (hinteger : block = "LiteralInt" ∨ block = "LiteralNat")
    (hrefused : ¬ (block = "LiteralNat" ∧ x < 0)) :
    Decimal.IsInteger (block == "LiteralInt") (Decimal.display x) ↔ Decimal.IsWhole x := by
  rw [Decimal.isInteger_display_iff]
  refine ⟨fun ⟨i, hi, _⟩ => ⟨i, hi⟩, fun ⟨i, hi⟩ => ⟨i, hi, ?_⟩⟩
  obtain rfl | rfl := hinteger
  · exact .inl rfl
  · refine .inr (not_lt.mp fun hneg => hrefused ⟨rfl, ?_⟩)
    exact Decimal.lt_zero_of_value? hi (by exact_mod_cast hneg)

/-- **An integer literal is an integer just when its number is whole.** The output of a literal of a number is absent
with a warning when it is being computed already, and when it is a `Nat` below zero. Otherwise it is the text of the
number, without an event, and that is the text of an integer when the number is whole only. -/
theorem integer_literal_iff (c : Compiler) (hc : c.OverStandard) (hblock : c.graph.blockName? node = some block)
    (hinteger : block = "LiteralInt" ∨ block = "LiteralNat")
    (hcontrol : c.graph.control? node "value" = some (.number x)) (n : Nat) (hn : 0 < n) (s : Session) :
    ∃ r es, outputAt n c ⟨node, "result"⟩ s = some (.ok r, s.raise es) ∧
      (r, es) = literalResult node block (integerText s.inProgress node block x) ∧
      (IntegerOrRefused node block (r, es) ↔
        ⟨node, "result"⟩ ∈ s.inProgress ∨ (block = "LiteralNat" ∧ x < 0) ∨ Decimal.IsWhole x) := by
  refine ⟨_, _, outputAt_integer hc hblock hinteger hcontrol hn s, rfl, ?_⟩
  rw [Prod.mk.eta, integerText]
  by_cases hmark : ⟨node, "result"⟩ ∈ s.inProgress
  · rw [if_pos hmark]
    exact iff_of_true (integerOrRefused_error _) (.inl hmark)
  · rw [if_neg hmark]
    by_cases hrefused : block = "LiteralNat" ∧ x < 0
    · rw [if_pos hrefused]
      exact iff_of_true (integerOrRefused_error _) (.inr (.inl hrefused))
    · rw [if_neg hrefused, integerOrRefused_ok, isInteger_display hinteger hrefused]
      exact ⟨fun h => .inr (.inr h), fun h => (h.resolve_left hmark).resolve_left hrefused⟩

theorem depth_pos (c : Compiler) : 0 < c.depth := Nat.mul_pos (Nat.succ_pos _) (Nat.succ_pos _)

def numberLiteral (block : String) (x : Float) : Compiler where
  graph := ⟨[(Node.new "n" block).withControl "value" (.number x)], [], {}⟩
  catalog := builtinCatalog
  registry := .empty
  compileKey := motokoKey

theorem overStandard_numberLiteral (block : String) (x : Float) : (numberLiteral block x).OverStandard :=
  ⟨catalog_builtin, rfl, rfl, rfl⟩

/-- A whole number far below zero is an integer literal. -/
theorem integer_literal_iff_large :
    (numberLiteral "LiteralInt" (-1e20)).OverStandard ∧ Decimal.IsWhole (-1e20) ∧
      (numberLiteral "LiteralInt" (-1e20)).output "n" "result" {} =
        some (.ok (some (.text "-100000000000000000000")), {}) ∧
      IntegerOrRefused "n" "LiteralInt" (some (.text "-100000000000000000000"), []) := by
  have hc := overStandard_numberLiteral "LiteralInt" (-1e20)
  have hblock : (numberLiteral "LiteralInt" (-1e20)).graph.blockName? "n" = some "LiteralInt" := rfl
  have hcontrol : (numberLiteral "LiteralInt" (-1e20)).graph.control? "n" "value" = some (.number (-1e20)) := rfl
  have htext : integerText [] "n" "LiteralInt" (-1e20) = .ok "-100000000000000000000" := by
    have hdisplay : Decimal.display (-1e20) = "-100000000000000000000" := by decide +kernel
    rw [integerText, if_neg List.not_mem_nil, if_neg (by simp), hdisplay]
  have hwhole : Decimal.IsWhole (-1e20) :=
    ⟨-100000000000000000000, Decimal.Binary.whole?_eq_some_iff.mp (by decide +kernel)⟩
  obtain ⟨r, es, houtput, hresult, hiff⟩ :=
    integer_literal_iff _ hc hblock (.inl rfl) hcontrol _ (depth_pos (numberLiteral "LiteralInt" (-1e20))) {}
  rw [htext] at hresult
  cases hresult
  exact ⟨hc, hwhole, houtput, hiff.mpr (.inr (.inr hwhole))⟩

/-- A fraction is written as an `Int`, and there is no warning. -/
theorem fraction_in_int_literal :
    (numberLiteral "LiteralInt" 2.5).OverStandard ∧
      (numberLiteral "LiteralInt" 2.5).output "n" "result" {} = some (.ok (some (.text "2.5")), {}) ∧
      ¬ IntegerOrRefused "n" "LiteralInt" (some (.text "2.5"), []) := by
  have hc := overStandard_numberLiteral "LiteralInt" 2.5
  have hblock : (numberLiteral "LiteralInt" 2.5).graph.blockName? "n" = some "LiteralInt" := rfl
  have hcontrol : (numberLiteral "LiteralInt" 2.5).graph.control? "n" "value" = some (.number 2.5) := rfl
  have htext : integerText [] "n" "LiteralInt" 2.5 = .ok "2.5" := by
    have hdisplay : Decimal.display 2.5 = "2.5" := by decide +kernel
    rw [integerText, if_neg List.not_mem_nil, if_neg (by simp), hdisplay]
  have houtput := outputAt_integer hc hblock (.inl rfl) hcontrol (depth_pos (numberLiteral "LiteralInt" 2.5)) {}
  rw [htext] at houtput
  refine ⟨hc, houtput, fun h => ?_⟩
  exact Decimal.not_isInteger_of_mem (c := '.') (by simp) rfl (by decide) (integerOrRefused_ok.mp h)

end Compiler

end BlockGraph
