import InstallPolicy.Proofs.Document.Cursor
import InstallPolicy.Proofs.Document.Disjoint

/-!
What a document takes from its input.

Every node takes four bytes or more, so an input bounds the nodes that can be read from it, and a
number of elements above that of the bytes left cannot be met. To refuse such a number early is
therefore no more than to refuse it, and reading by position stays within the input all the way.
-/

namespace InstallPolicy.Document

open Reader Input

variable {α : Type}

/-! ### Bytes for each node -/

lemma four_mul_length_nodes_le (above : ℕ) (f : Formula) :
    4 * (f.nodes above).length ≤ (nodeBytes f).length := by
  induction f generalizing above with
  | atom a => exact four_le_length_nodeBytes (.atom a)
  | compound c fs ih =>
    have hchildren : 4 * (fs.flatMap (Formula.nodes (above + 1))).length ≤
        (fs.flatMap nodeBytes).length := mul_length_flatMap_le fun f hf => ih f hf (above + 1)
    rw [Formula.nodes, Formula.nodesOf_eq, nodeBytes, nodesBytes_eq]
    simp only [List.length_cons, List.length_append, countBytes, Bytes.length_littleEndian]
    omega

lemma length_formulaDocument (f : Formula) :
    4 * (f.nodes 0).length + 1 ≤ (formulaDocument f).length :=
  Nat.succ_le_succ (four_mul_length_nodes_le 0 f)

lemma length_ruleListDocument (rs : List Rule) :
    5 * rs.length + 9 ≤ (ruleListDocument rs).length := by
  have hrules := mul_length_le_flatMap fun r (_ : r ∈ rs) =>
    show 5 ≤ (ruleBytes r).length from Nat.succ_le_succ (four_le_length_nodeBytes r.formula)
  simp only [ruleListDocument, magic, countBytes, List.length_append, List.length_cons,
    List.length_nil, Bytes.length_littleEndian]
  omega

/-! ### Nodes by position -/

lemma follows_node {above : ℕ} (h : above ≤ maxDepth) :
    Cursor.Follows (readNode count above (maxDepth - above))
      (readNode count above (maxDepth - above)) :=
  Cursor.Follows.parametric.readNode Cursor.Follows.parametric.count (Nat.add_sub_cancel' h)

/-- A node that is read takes its own bytes, and the position stays in the input. -/
lemma position_readNode {input : Bytes} {position position' above : ℕ} {f : Formula}
    (hposition : position ≤ input.length) (habove : above ≤ maxDepth)
    (h : (readNode count above (maxDepth - above) : Cursor Formula) input position =
      .ok (.ok (f, position'))) :
    position' = position + (nodeBytes f).length ∧ position' ≤ input.length := by
  have hlevels : above + (maxDepth - above) = maxDepth := Nat.add_sub_cancel' habove
  have hfollows := follows_node habove
  cases hr : (readNode count above (maxDepth - above) : Reader Formula) (input.drop position) with
  | error e =>
    rw [hfollows.error hposition hr] at h
    exact nomatch Except.ok.inj h
  | ok p =>
    obtain ⟨g, rest⟩ := p
    obtain ⟨q, -, hq, rfl, hc⟩ := hfollows.ok hposition hr
    rw [hc] at h
    obtain ⟨rfl, rfl⟩ := Prod.mk.inj (Except.ok.inj (Except.ok.inj h))
    obtain ⟨-, hdrop⟩ := takes_node counts_count hlevels hr
    have hlength := congrArg List.length hdrop
    rw [List.length_append, List.length_drop, List.length_drop] at hlength
    omega

/-! ### The early check of counts -/

section

variable {count count' : Reader ℕ}

/-- What one reader accepts, another one accepts that reads it back from its bytes. -/
lemma run_of_takes {r r' : Reader α} {P : α → Prop} {written : α → Bytes} (h : Takes r P written)
    (h' : ∀ v, P v → Reads r' (written v) (.ok v)) {b : Bytes} {v : α} (hv : r.run b = .ok v) :
    r'.run b = .ok v := by
  obtain ⟨hP, rfl⟩ := h.run hv
  exact (h' v hP).run

lemma accepted_formula (h : Counts count) (h' : Counts count') {b : Bytes} {f : Formula}
    (hf : (readFormulaDocument count).run b = .ok f) :
    (readFormulaDocument count').run b = .ok f := by
  refine run_of_takes (takes_formulaDocument h) (fun f hP => ?_) hf
  have hreads := reads_formulaDocument h' (fitsFields_of_violation? hP.2)
  rwa [check_node (Nat.zero_add maxDepth) hP.1 hP.2] at hreads

lemma accepted_rule (h : Counts count) (h' : Counts count') {b : Bytes} {r : Rule}
    (hr : (readRuleDocument count).run b = .ok r) : (readRuleDocument count').run b = .ok r := by
  refine run_of_takes (takes_ruleDocument h) (fun r hP => ?_) hr
  have hreads := reads_ruleDocument h' (fitsFields_of_violation? hP.2)
  rwa [check_rule hP.1 hP.2] at hreads

lemma accepted_rules (h : Counts count) (h' : Counts count') {b : Bytes} {rs : List Rule}
    (hrs : (readRuleListDocument count).run b = .ok rs) :
    (readRuleListDocument count').run b = .ok rs := by
  refine run_of_takes (takes_ruleListDocument h) (fun rs hP => ?_) hrs
  have hreads := reads_ruleListDocument h' hP.1 fun r hr => fitsFields_of_violation? (hP.2 r hr).2
  rwa [mapM_eq_ok fun r hr => check_rule (hP.2 r hr).1 (hP.2 r hr).2] at hreads

end

/-! ### Decoders -/

/-- On every input a decoder says what comes of reading by position, without a breach, and it
accepts what is accepted when numbers of elements are not compared with the bytes left. -/
structure StaysWithin (decode : Bytes → Except DecodeError α) (byPosition : Cursor α)
    (unguarded : Reader α) : Prop where
  byPosition : ∀ b, byPosition.run b = .ok (decode b)
  unguarded : ∀ b v, unguarded.run b = .ok v ↔ decode b = .ok v

/-- **Decoders stay within their input.** Read by position, no input leads to a position beyond its
end, to a part that it does not have or to a node below too many compounds, be it accepted or
refused. A node takes four bytes at least for each of its nodes, which bounds what can come of an
input, and without the early check of counts the same inputs would be accepted. -/
theorem decoders_stay_within :
    StaysWithin decodeFormula (readFormulaDocument count) (readFormulaDocument (Input.number 4)) ∧
    StaysWithin decodeRule (readRuleDocument count) (readRuleDocument (Input.number 4)) ∧
    StaysWithin decodeRules (readRuleListDocument count) (readRuleListDocument (Input.number 4)) ∧
    (∀ input position above, position ≤ input.length → above ≤ maxDepth →
      let node : Cursor Formula := readNode count above (maxDepth - above)
      (∃ x, node input position = .ok x) ∧
      ∀ f position', node input position = .ok (.ok (f, position')) →
        position + 4 * (f.nodes 0).length ≤ position' ∧ position' ≤ input.length) ∧
    (∀ b f, decodeFormula b = .ok f → 4 * (f.nodes 0).length + 1 ≤ b.length) ∧
    ∀ b rs, decodeRules b = .ok rs → 5 * rs.length + 9 ≤ b.length := by
  have h := Cursor.Follows.parametric
  refine ⟨⟨fun b => ?_, fun b f => ?_⟩, ⟨fun b => ?_, fun b r => ?_⟩, ⟨fun b => ?_, fun b rs => ?_⟩,
    fun input position above hposition habove => ⟨?_, fun f position' hnode => ?_⟩,
    fun b f hf => ?_, fun b rs hrs => ?_⟩
  · exact (h.readFormulaDocument h.count).run b
  · exact ⟨accepted_formula counts_number counts_count, accepted_formula counts_count counts_number⟩
  · exact (h.readRuleDocument h.count).run b
  · exact ⟨accepted_rule counts_number counts_count, accepted_rule counts_count counts_number⟩
  · exact (h.readRuleListDocument h.count).run b
  · exact ⟨accepted_rules counts_number counts_count, accepted_rules counts_count counts_number⟩
  · exact (follows_node habove).exists_ok hposition
  · obtain ⟨rfl, hle⟩ := position_readNode hposition habove hnode
    exact ⟨Nat.add_le_add_left (four_mul_length_nodes_le 0 f) position, hle⟩
  · obtain ⟨-, rfl⟩ := (takes_formulaDocument counts_count).run hf
    exact length_formulaDocument f
  · obtain ⟨-, rfl⟩ := (takes_ruleListDocument counts_count).run hrs
    exact length_ruleListDocument rs

/-- A negation is read by position from behind the version and takes eight bytes at least. A number
of children far above what is left is refused without a breach, with the check and without it, and a
rule list of one rule has no byte to spare. -/
theorem decoders_stay_within_hostile :
    let negation : Bytes := [1, 3, 2, 1, 0, 0, 0, 2, 5, 0, 1]
    let hostile : Bytes := [1, 3, 0, 255, 255, 255, 255]
    let list : Bytes := [65, 73, 82, 76, 1, 1, 0, 0, 0, 0, 2, 5, 0, 1]
    let rules : List Rule := [⟨.preInstalled, .deny⟩]
    (∃ position', (readNode count 0 maxDepth : Cursor Formula) negation 1 =
        .ok (.ok (.negate .preInstalled, position')) ∧ 1 + 4 * 2 ≤ position' ∧ position' ≤ 11) ∧
    Cursor.run (readFormulaDocument count) hostile = .ok (.error (.truncated 4294967295 0)) ∧
    (∀ f, Reader.run (readFormulaDocument (Input.number 4)) hostile ≠ .ok f) ∧
    decodeRules list = .ok rules ∧ 5 * rules.length + 9 ≤ list.length := by
  intro negation hostile list rules
  obtain ⟨⟨hrun, hunguarded⟩, -, -, hnode, -, hlist⟩ := decoders_stay_within
  have hread : (readNode count 0 maxDepth : Reader Formula) (negation.drop 1) =
    .ok (.negate .preInstalled, []) := rfl
  obtain ⟨position', -, -, -, hc⟩ := (follows_node (Nat.zero_le _)).ok (by decide) hread
  have hrefused : decodeFormula hostile = .error (.truncated 4294967295 0) := rfl
  have hrules : decodeRules list = .ok rules := rfl
  refine ⟨⟨position', hc, ?_⟩, ?_, fun f hf => ?_, hrules, hlist list rules hrules⟩
  · exact (hnode negation 1 0 (by decide) (by decide)).2 _ _ hc
  · rw [hrun, hrefused]
  · exact nomatch hrefused.symm.trans ((hunguarded hostile f).1 hf)

end InstallPolicy.Document
