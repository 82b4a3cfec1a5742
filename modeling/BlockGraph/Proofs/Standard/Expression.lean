import BlockGraph.Proofs.Standard.Blocks

/-!
# Standard expressions

Literals and operators of the standard catalog make up expressions. What the graph says at a node unfolds to a tree
(`Unfolds`), in which shared nodes are repeated and connections that are not read do not occur. Where the nodes that
are reached are well formed and there are no cycles (`IsExpression`), there is exactly one such tree, and its
`Expr.render` is the output (`output_expression`), by induction along dependencies (`IsExpression.alone`).
-/

namespace BlockGraph

namespace Standard

/-- What a block of an expression does. -/
inductive Form where
  | literal (write : LiteralText)
  | unary (op : String)
  | binary (op : String)

def form? : String → Option Form
  | "LiteralBool" => some (.literal plainLiteral)
  | "LiteralInt" => some (.literal plainLiteral)
  | "LiteralNat" => some (.literal natLiteral)
  | "LiteralFloat" => some (.literal floatLiteral)
  | "LiteralText" => some (.literal textLiteral)
  | "LiteralChar" => some (.literal charLiteral)
  | "And" => some (.binary "and")
  | "Or" => some (.binary "or")
  | "Not" => some (.unary "not")
  | "Add" => some (.binary "+")
  | "Subtract" => some (.binary "-")
  | "Multiply" => some (.binary "*")
  | "Concat" => some (.binary "#")
  | _ => none

def Form.operands : Form → List String
  | .literal _ => []
  | .unary _ => ["value"]
  | .binary _ => ["a", "b"]

/-- A value with its text as a literal. -/
structure Literal where
  write : LiteralText
  value : Value
  text : String
  accepted : write value = .ok text

inductive Expr where
  | literal (l : Literal)
  | control (v : Value)
  | unary (op : String) (a : Expr)
  | binary (op : String) (a b : Expr)

def Expr.render : Expr → String
  | .literal l => l.text
  | .control v => v.display
  | .unary op a => "(" ++ op ++ " " ++ a.render ++ ")"
  | .binary op a b => "(" ++ a.render ++ " " ++ op ++ " " ++ b.render ++ ")"

/-- The schemas of the blocks of a form. -/
inductive Form.Describes : Form → Schema → Prop
  | literal (name : String) (t : Ty) (write : LiteralText) : Describes (.literal write) (literalSchema name t write)
  | unary (name category op : String) {t : Ty} (ht : t.isReversed = false) :
    Describes (.unary op) (unarySchema name category op t)
  | binary (name category op : String) {t : Ty} (ht : t.isReversed = false) :
    Describes (.binary op) (binarySchema name category op t)

theorem Types.describes (t : Types) {block : String} {form : Form} (h : form? block = some form) :
    ∃ schema, (⟨t.schemas⟩ : Catalog).get? block = some schema ∧ form.Describes schema := by
  have hbool := t.forward t.bool (by simp)
  have hint := t.forward t.int (by simp)
  have htext := t.forward t.text (by simp)
  unfold form? at h
  split at h <;> cases h
  · exact ⟨_, rfl, .literal ..⟩
  · exact ⟨_, rfl, .literal ..⟩
  · exact ⟨_, rfl, .literal ..⟩
  · exact ⟨_, rfl, .literal ..⟩
  · exact ⟨_, rfl, .literal ..⟩
  · exact ⟨_, rfl, .literal ..⟩
  · exact ⟨_, rfl, .binary _ _ _ hbool⟩
  · exact ⟨_, rfl, .binary _ _ _ hbool⟩
  · exact ⟨_, rfl, .unary _ _ _ hbool⟩
  · exact ⟨_, rfl, .binary _ _ _ hint⟩
  · exact ⟨_, rfl, .binary _ _ _ hint⟩
  · exact ⟨_, rfl, .binary _ _ _ hint⟩
  · exact ⟨_, rfl, .binary _ _ _ htext⟩

namespace Form.Describes

variable {form : Form} {schema : Schema} {key : String}

theorem operand (h : form.Describes schema) (hkey : key ∈ form.operands) :
    ∃ p, schema.prop? key = some p ∧ p.IsOperand := by
  cases h with
  | literal name t write => cases hkey
  | unary name category op ht =>
    obtain rfl : key = "value" := List.mem_singleton.mp hkey
    exact ⟨_, rfl, rfl, rfl, ht⟩
  | binary name category op ht =>
    obtain rfl | rfl : key = "a" ∨ key = "b" := by simpa [operands] using hkey
    · exact ⟨_, rfl, rfl, rfl, ht⟩
    · exact ⟨_, rfl, rfl, rfl, ht⟩

theorem mem_operands {p : Property} (h : form.Describes schema) (hprop : schema.prop? key = some p)
    (hinput : p.direction = .input) : key ∈ form.operands := by
  have hkey := Schema.key_of_prop? hprop
  have hp := List.mem_of_find?_eq_some hprop
  subst hkey
  cases h with
  | literal name t write =>
    obtain rfl | rfl := by simpa [literalSchema] using hp
    · cases hinput
    · cases hinput
  | unary name category op ht =>
    obtain rfl | rfl := by simpa [unarySchema, splitSchema] using hp
    · cases hinput
    · exact List.mem_singleton_self _
  | binary name category op ht =>
    obtain rfl | rfl | rfl := by simpa [binarySchema, splitSchema] using hp
    · cases hinput
    · exact List.mem_cons_self
    · exact List.mem_cons_of_mem _ List.mem_cons_self

end Form.Describes

end Standard

namespace Compiler

open Standard

variable {c : Compiler} {node key : String}

def formAt (c : Compiler) (node : String) : Option Form := (c.graph.blockName? node).bind form?

/-- A place of a graph where an expression stands. -/
inductive Place where
  | result (node : String)
  | operand (node key : String)

/-- The expression that the graph shows at a place. -/
inductive Unfolds (c : Compiler) : Place → Expr → Prop
  | literal {node : String} {l : Literal} (hform : c.formAt node = some (.literal l.write))
      (hvalue : c.storedControl node "value" = .ok (some l.value)) : Unfolds c (.result node) (.literal l)
  | unary {node op : String} {a : Expr} (hform : c.formAt node = some (.unary op))
      (ha : Unfolds c (.operand node "value") a) : Unfolds c (.result node) (.unary op a)
  | binary {node op : String} {a b : Expr} (hform : c.formAt node = some (.binary op))
      (ha : Unfolds c (.operand node "a") a) (hb : Unfolds c (.operand node "b") b) :
      Unfolds c (.result node) (.binary op a b)
  | connected {node key peer : String} {rest : List Socket} {e : Expr}
      (hpeers : c.graph.peers node .input key = ⟨peer, "result"⟩ :: rest) (hpeer : Unfolds c (.result peer) e) :
      Unfolds c (.operand node key) e
  | control {node key : String} {v : Value} (hpeers : c.graph.peers node .input key = [])
      (hvalue : c.storedControl node key = .ok (some v)) : Unfolds c (.operand node key) (.control v)

/-- An operand is connected first to a result, or it has a control. -/
def OperandAt (c : Compiler) (node key : String) : Prop :=
  match c.graph.peers node .input key with
  | peer :: _ => peer.key = "result"
  | [] => ∃ v, c.storedControl node key = .ok (some v)

/-- The node is a literal with a control that it can write, or an operator with all its operands. -/
def WellFormedAt (c : Compiler) (node : String) : Prop :=
  match c.formAt node with
  | none => False
  | some (.literal write) => ∃ v text, c.storedControl node "value" = .ok (some v) ∧ write v = .ok text
  | some form => ∀ key ∈ form.operands, c.OperandAt node key

/-- The nodes that the result is computed from are well formed, and there are no cycles among them. -/
structure IsExpression (c : Compiler) (node : String) : Prop where
  acyclic : c.AcyclicFrom ⟨node, "result"⟩
  wellFormed : ∀ x, Relation.ReflTransGen c.DependsOn ⟨node, "result"⟩ x → c.WellFormedAt x.node

/-! ### One tree -/

theorem Unfolds.unique {place : Place} {e e' : Expr} (h : c.Unfolds place e) (h' : c.Unfolds place e') : e' = e := by
  induction h generalizing e' with
  | @literal node l hform hvalue =>
    cases h' with
    | @literal _ l' hform' hvalue' =>
      obtain ⟨write, value, text, accepted⟩ := l
      obtain ⟨write', value', text', accepted'⟩ := l'
      have hwrite : write' = write := by simpa [hform] using hform'.symm
      have hsame : value' = value := by simpa [hvalue] using hvalue'.symm
      subst hwrite hsame
      have htext : text' = text := Except.ok.inj (accepted'.symm.trans accepted)
      subst htext
      rfl
    | unary hform' _ => simp [hform] at hform'
    | binary hform' _ _ => simp [hform] at hform'
  | unary hform _ ih =>
    cases h' with
    | literal hform' _ => simp [hform] at hform'
    | unary hform' ha' =>
      have hop := hform.symm.trans hform'
      cases hop
      rw [ih ha']
    | binary hform' _ _ => simp [hform] at hform'
  | binary hform _ _ iha ihb =>
    cases h' with
    | literal hform' _ => simp [hform] at hform'
    | unary hform' _ => simp [hform] at hform'
    | binary hform' ha' hb' =>
      have hop := hform.symm.trans hform'
      cases hop
      rw [iha ha', ihb hb']
  | connected hpeers _ ih =>
    cases h' with
    | connected hpeers' hpeer' =>
      have hsame := hpeers.symm.trans hpeers'
      cases hsame
      exact ih hpeer'
    | control hpeers' _ => simp [hpeers] at hpeers'
  | control hpeers hvalue =>
    cases h' with
    | connected hpeers' _ => simp [hpeers] at hpeers'
    | control _ hvalue' =>
      have hsame := hvalue.symm.trans hvalue'
      cases hsame
      rfl

/-! ### Its text is the output -/

theorem OverStandard.describes (hc : c.OverStandard) {form : Form} (h : c.formAt node = some form) :
    ∃ schema, c.schema node = .ok schema ∧ form.Describes schema := by
  obtain ⟨t, ht⟩ := hc.types
  obtain ⟨block, hblock, hform⟩ := Option.bind_eq_some_iff.mp h
  obtain ⟨schema, hget, hschema⟩ := t.describes hform
  exact ⟨schema, schema_of_block hblock (ht ▸ hget), hschema⟩

theorem readTrace_of_operandAt {schema : Schema} {p : Property} (hschema : c.schema node = .ok schema)
    (hprop : schema.prop? key = some p) (hp : p.IsOperand) (hoperand : c.OperandAt node key)
    (hpeers : ∀ peer rest, c.graph.peers node .input key = peer :: rest → peer.key = "result" →
      ∃ e, c.Unfolds (.result peer.node) e ∧ c.alone peer = some (.ok (some (.text e.render)), [])) :
    ∃ e v, c.Unfolds (.operand node key) e ∧ Value.textOf (some v) = e.render ∧
      c.readTrace c.alone node schema key = some (.ok (some v), []) := by
  rw [c.readTrace_operand hschema hprop hp, operandTrace]
  rw [OperandAt] at hoperand
  cases hcase : c.graph.peers node .input key with
  | nil =>
    rw [hcase] at hoperand
    obtain ⟨v, hv⟩ := hoperand
    refine ⟨.control v, v, .control hcase hv, rfl, ?_⟩
    simp [hv, missing]
  | cons peer rest =>
    rw [hcase] at hoperand
    obtain ⟨e, hunfolds, halone⟩ := hpeers peer rest hcase hoperand
    obtain ⟨peer, pin⟩ := peer
    obtain rfl : pin = "result" := hoperand
    refine ⟨e, .text e.render, .connected hcase hunfolds, rfl, ?_⟩
    simp [halone, missing]

theorem consults_of_peers {schema : Schema} {p : Property} {peer : Socket} {rest : List Socket}
    (hschema : c.schema node = .ok schema) (hprop : schema.prop? key = some p) (hp : p.IsOperand)
    (hpeers : c.graph.peers node .input key = peer :: rest) : c.Consults node peer := by
  have hkey := Schema.key_of_prop? hprop
  refine ⟨schema, key, p, hschema, hprop, hp.input, ?_⟩
  simp [c.consulted_operand hp, hkey, hpeers]

theorem readTrace_literal (hc : c.OverStandard) {outputs : Socket → Traced (Outcome (Option Value))} {name : String}
    {t : Ty} {write : LiteralText} {v : Value} (hschema : c.schema node = .ok (literalSchema name t write))
    (hvalue : c.storedControl node "value" = .ok (some v)) :
    c.readTrace outputs node (literalSchema name t write) "value" = some (.ok (some v), []) := by
  rw [c.readTrace_control hschema rfl rfl, hvalue]
  simp [Except.map, hc.postProcess, missing]

theorem traceAt_literal (hc : c.OverStandard) {name : String} {t : Ty} {l : Literal}
    (hschema : c.schema node = .ok (literalSchema name t l.write))
    (hvalue : c.storedControl node "value" = .ok (some l.value)) (n : Nat) {marks : List Socket}
    (hmark : ⟨node, "result"⟩ ∉ marks) :
    traceAt (n + 1) c marks ⟨node, "result"⟩ = some (.ok (some (.text l.text)), []) := by
  rw [hc.traceAt_eq hschema rfl rfl n hmark]
  simp only [literalCallback, Program.readings_get (readTrace_literal hc hschema hvalue), l.accepted]
  rfl

section

variable (hc : c.OverStandard) (hacyclic : c.AcyclicFrom ⟨node, "result"⟩) {name category op : String} {t : Ty}

include hc hacyclic

theorem alone_unary {a : Option Value} (hschema : c.schema node = .ok (unarySchema name category op t))
    (ha : c.readTrace c.alone node (unarySchema name category op t) "value" = some (.ok a, [])) :
    c.alone ⟨node, "result"⟩ = some (.ok (some (.text ("(" ++ op ++ " " ++ Value.textOf a ++ ")"))), []) := by
  rw [hc.alone_eq hschema rfl rfl hacyclic]
  simp only [unaryCallback, Program.getText, Program.readings_get ha]
  rfl

theorem alone_binary {a b : Option Value} (hschema : c.schema node = .ok (binarySchema name category op t))
    (ha : c.readTrace c.alone node (binarySchema name category op t) "a" = some (.ok a, []))
    (hb : c.readTrace c.alone node (binarySchema name category op t) "b" = some (.ok b, [])) :
    c.alone ⟨node, "result"⟩ =
      some (.ok (some (.text ("(" ++ Value.textOf a ++ " " ++ op ++ " " ++ Value.textOf b ++ ")"))), []) := by
  rw [hc.alone_eq hschema rfl rfl hacyclic]
  simp only [binaryCallback, Program.getText, Program.readings_get ha, Program.readings_get hb]
  rfl

end

theorem IsExpression.alone_eq (hc : c.OverStandard) (h : c.IsExpression node) :
    ∃ e, c.Unfolds (.result node) e ∧ c.alone ⟨node, "result"⟩ = some (.ok (some (.text e.render)), []) := by
  refine AcyclicFrom.induction (motive := fun x => x.key = "result" →
    (∀ y, Relation.ReflTransGen c.DependsOn x y → c.WellFormedAt y.node) →
    ∃ e, c.Unfolds (.result x.node) e ∧ c.alone x = some (.ok (some (.text e.render)), []))
    ?_ h.acyclic rfl h.wellFormed
  rintro ⟨node, key⟩ hacyclic ih hkey hreached
  obtain rfl : key = "result" := hkey
  have hat := hreached _ .refl
  rw [WellFormedAt] at hat
  cases hform : c.formAt node with
  | none =>
    rw [hform] at hat
    exact hat.elim
  | some form =>
    rw [hform] at hat
    obtain ⟨schema, hschema, hdescribes⟩ := hc.describes hform
    -- the induction is along connections, so an operand with a control needs none of it
    have hread : ∀ key ∈ form.operands, c.OperandAt node key → ∃ e v, c.Unfolds (.operand node key) e ∧
        Value.textOf (some v) = e.render ∧ c.readTrace c.alone node schema key = some (.ok (some v), []) := by
      intro key hkey hoperand
      obtain ⟨p, hprop, hp⟩ := hdescribes.operand hkey
      refine readTrace_of_operandAt hschema hprop hp hoperand fun peer rest hpeers hresult => ?_
      have hdepends : c.DependsOn ⟨node, "result"⟩ peer := consults_of_peers hschema hprop hp hpeers
      exact ih peer hdepends hresult fun y hy => hreached y (.head hdepends hy)
    cases hdescribes with
    | literal name t write =>
      obtain ⟨v, text, hv, htext⟩ := hat
      let l : Literal := ⟨write, v, text, htext⟩
      exact ⟨.literal l, .literal hform hv, traceAt_literal hc (l := l) hschema hv _ List.not_mem_nil⟩
    | unary name category op ht =>
      obtain ⟨a, va, ha, hva, hreada⟩ := hread "value" (by simp [Form.operands]) (hat _ (by simp [Form.operands]))
      refine ⟨.unary op a, .unary hform ha, ?_⟩
      rw [alone_unary hc hacyclic hschema hreada, hva, Expr.render]
    | binary name category op ht =>
      obtain ⟨a, va, ha, hva, hreada⟩ := hread "a" (by simp [Form.operands]) (hat _ (by simp [Form.operands]))
      obtain ⟨b, vb, hb, hvb, hreadb⟩ := hread "b" (by simp [Form.operands]) (hat _ (by simp [Form.operands]))
      refine ⟨.binary op a b, .binary hform ha hb, ?_⟩
      rw [alone_binary hc hacyclic hschema hreada hreadb, hva, hvb, Expr.render]

theorem IsExpression.of_operands (hc : c.OverStandard) (form : Form) (hform : c.formAt node = some form)
    (hat : c.WellFormedAt node)
    (h : ∀ key ∈ form.operands, ∀ peer rest, c.graph.peers node .input key = peer :: rest →
      ∃ other, peer = ⟨other, "result"⟩ ∧ c.IsExpression other) : c.IsExpression node := by
  obtain ⟨schema, hschema, hdescribes⟩ := hc.describes hform
  have hdepends : ∀ y, c.DependsOn ⟨node, "result"⟩ y → ∃ other, y = ⟨other, "result"⟩ ∧ c.IsExpression other := by
    rintro y ⟨found, key, p, hfound, hprop, hinput, hy⟩
    obtain rfl : schema = found := Except.ok.inj (hschema.symm.trans hfound)
    have hkey := hdescribes.mem_operands hprop hinput
    obtain ⟨q, hq, hoperand⟩ := hdescribes.operand hkey
    obtain rfl : q = p := Option.some.inj (hq.symm.trans hprop)
    have hqkey := Schema.key_of_prop? hprop
    rw [c.consulted_operand hoperand, hqkey] at hy
    cases hpeers : c.graph.peers node .input key with
    | nil => simp [hpeers] at hy
    | cons peer rest =>
      obtain rfl : y = peer := by simpa [hpeers] using hy
      exact h key hkey y rest hpeers
  constructor
  · refine AcyclicFrom.of_dependsOn fun y hy => ?_
    obtain ⟨other, rfl, hother⟩ := hdepends y hy
    exact hother.acyclic
  · intro x hx
    rcases Relation.ReflTransGen.cases_head hx with rfl | ⟨y, hy, hyx⟩
    · exact hat
    · obtain ⟨other, rfl, hother⟩ := hdepends y hy
      exact hother.wellFormed x hyx

/-- **An expression is compiled to the text of its tree.** -/
theorem output_expression (c : Compiler) (hc : c.OverStandard) (node : String) (h : c.IsExpression node) :
    ∃ e, c.Unfolds (.result node) e ∧ (∀ e', c.Unfolds (.result node) e' → e' = e) ∧
      ∀ s : Session, s.inProgress = [] → c.output node "result" s = some (.ok (some (.text e.render)), s) := by
  obtain ⟨e, hunfolds, halone⟩ := h.alone_eq hc
  refine ⟨e, hunfolds, fun e' he' => hunfolds.unique he', fun s hs => ?_⟩
  rw [output_of_alone halone hs]
  simp [Session.raise]

/-! ### Conditions -/

/-- The negation of a disjunction, whose first operand uses one literal twice. A connection against the others into
an operand that is connected already is not read. -/
def conditions : Compiler where
  graph :=
    ⟨[(Node.new "flag" "LiteralBool").withControl "value" (.boolean true), .new "both" "And",
        (Node.new "any" "Or").withControl "b" (.boolean false), .new "none" "Not"],
      [⟨"flag", "result", "both", "a"⟩, ⟨"flag", "result", "both", "b"⟩, ⟨"none", "result", "both", "b"⟩,
        ⟨"both", "result", "any", "a"⟩, ⟨"any", "result", "none", "value"⟩], {}⟩
  catalog := builtinCatalog
  registry := .empty
  compileKey := motokoKey

theorem overStandard_conditions : conditions.OverStandard := ⟨catalog_builtin, rfl, rfl, rfl⟩

theorem isExpression_conditions : conditions.IsExpression "none" := by
  have hflag : conditions.IsExpression "flag" := by
    refine .of_operands overStandard_conditions (.literal plainLiteral) rfl ⟨.bool true, "true", rfl, rfl⟩ ?_
    intro key hkey
    cases hkey
  have hboth : conditions.IsExpression "both" := by
    refine .of_operands overStandard_conditions (.binary "and") rfl ?_ ?_
    · exact List.forall_mem_cons.mpr ⟨rfl, List.forall_mem_singleton.mpr rfl⟩
    · refine List.forall_mem_cons.mpr ⟨?_, List.forall_mem_singleton.mpr ?_⟩
      · intro peer rest h
        cases h
        exact ⟨"flag", rfl, hflag⟩
      · intro peer rest h
        cases h
        exact ⟨"flag", rfl, hflag⟩
  have hany : conditions.IsExpression "any" := by
    refine .of_operands overStandard_conditions (.binary "or") rfl ?_ ?_
    · exact List.forall_mem_cons.mpr ⟨rfl, List.forall_mem_singleton.mpr ⟨.bool false, rfl⟩⟩
    · refine List.forall_mem_cons.mpr ⟨?_, List.forall_mem_singleton.mpr ?_⟩
      · intro peer rest h
        cases h
        exact ⟨"both", rfl, hboth⟩
      · intro peer rest h
        cases h
  refine .of_operands overStandard_conditions (.unary "not") rfl ?_ ?_
  · exact List.forall_mem_singleton.mpr rfl
  · refine List.forall_mem_singleton.mpr ?_
    intro peer rest h
    cases h
    exact ⟨"any", rfl, hany⟩

/-- The negated disjunction, with its literal written twice. -/
theorem output_expression_conditions :
    conditions.OverStandard ∧ conditions.IsExpression "none" ∧
      conditions.output "none" "result" {} = some (.ok (some (.text "(not ((true and true) or false))")), {}) := by
  refine ⟨overStandard_conditions, isExpression_conditions, ?_⟩
  obtain ⟨e, -, hunique, houtput⟩ :=
    output_expression conditions overStandard_conditions "none" isExpression_conditions
  let flag : Literal := ⟨plainLiteral, .bool true, "true", rfl⟩
  have hflag : conditions.Unfolds (.result "flag") (.literal flag) := .literal rfl rfl
  have hboth : conditions.Unfolds (.result "both") (.binary "and" (.literal flag) (.literal flag)) :=
    .binary rfl (.connected rfl hflag) (.connected rfl hflag)
  have hany : conditions.Unfolds (.result "any")
      (.binary "or" (.binary "and" (.literal flag) (.literal flag)) (.control (.bool false))) :=
    .binary rfl (.connected rfl hboth) (.control rfl rfl)
  have htree := hunique _ (.unary rfl (.connected rfl hany))
  rw [houtput {} rfl, ← htree]
  rfl

end Compiler

end BlockGraph
