/-
Files without diagnostics. Main statement: no node of a file that is read without a diagnostic lacks a
part that is always reported, and where the types behind "new" and "instanceof" are plain none lacks any
part that the grammar asks for. The types of parameters are among these parts.
-/
import JavaNames.Proofs.Progress.Unit
import JavaNames.Proofs.Reading.Typed
import JavaNames.Proofs.Silence.Declaration
import JavaNames.Proofs.Tree.Parsed

namespace JavaNames

/-! ## Parents -/

namespace Tree.Whole

variable {plain : Prop} {tree tree' : Tree}

theorem of_shape (h : tree.Whole plain) (hs : tree'.shape = tree.shape) : tree'.Whole plain := by
  intro id node hn
  obtain ⟨parent, hn'⟩ := node?_of_shape hs hn
  exact h id { node with parent := parent } hn'

/-- No node loses a part when the nodes are told their parents. -/
theorem linkParents (h : tree.Whole plain) (root : NodeId) : (tree.linkParents root).Whole plain := by
  refine (rel_linkFrom (Q := fun t t' => t'.children = t.children ∧ t.Whole plain)
    (fun _ _ hq => hq.1) (fun t t' parent child hq => ?_) ⟨rfl, h⟩ _ _).2
  have ht := shape_setParent t parent child
  have ht' := shape_setParent t' parent child
  exact ⟨by rw [children_of_shape ht', children_of_shape ht, hq.1], hq.2.of_shape ht⟩

end Tree.Whole

namespace Grammar

/-! ## Readers with enough steps -/

/-- Readers that report the next token, whatever is to be read. -/
def Parse.refusing : Readers := fun _ => do
  unexpected
  return none

theorem tells_refusing (source : List Token) : Tells source Parse.refusing :=
  fun _ => Honest.told Honest.unexpected fun _ => Honest.unreached

theorem tells_readersOver {source : List Token} {last : Readers} (h : Tells source last) (n : Nat) :
    Tells source (Parse.readersOver last n) := by
  induction n with
  | zero => exact h
  | succ n ih => exact tells_rule ih

/-! ## Files -/

namespace Honest

variable {source : List Token} {known : Prop} {P : List Token → Prop}

theorem importName : Honest source known P Parse.importName anything := by
  refine seq advance fun _ => seq (accepted _) fun isStatic => seq qualifiedName fun name => ?_
  refine seq (accepted _) fun _ => ?_
  extract_lets rest
  have hrest (name : String) (P : List Token → Prop) : Honest source known P (rest name) anything :=
    seq (require _) fun _ => done
  exact ite (fun _ => seq (require _) fun _ => now (hrest _ _)) fun _ => now (hrest _ _)

theorem packageName : Honest source known P Parse.packageName anything := by
  refine seq skipAnnotations fun _ => seq (accepted _) fun _ => ite (fun _ => ?_) fun _ => done
  exact seq qualifiedName fun _ => seq (require _) fun _ => done

theorem contents {r : Readers} (h : Tells source r) :
    Honest source known P (Parse.contents r) anything := by
  refine iterate (fun found => ?_) fun _ _ _ => trivial
  rw [Parse.contentsRound_eq]
  refine look fun _ => seq aborted fun _ => ite (fun _ => done) fun _ => seq position fun before => ?_
  refine seq (Q := anything) ?_ fun found => seq position fun _ =>
    ite (fun _ => seq advance fun _ => done) fun _ => done
  refine isAt (seq importName fun _ => done) (seq (accepted _) fun _ => ite (fun _ => done) fun _ => ?_)
  refine seq (Q := anything) ?_ fun type => done
  refine seq offset fun start => seq (modifiers _) fun set => look fun _ => ?_
  refine ite (fun _ => ?_) fun _ => ?_
  · exact any (typeDeclaration h start set)
  · exact told unexpected fun _ => done

end Honest

/-- What is read of a file in silence, before its root is added, lacks no part. -/
theorem whole_of_quiet {input : Input} {s t : State} {parts : Option String × Parse.Contents}
    {source : List Token} (hb : source.length < input.budget)
    (hrun : (Parse.parts.run input).run s = (parts, t)) (hq : t.Quiet) (hw : s.Whole source) :
    t.Whole source := by
  -- readers that refuse in the end tell what they miss, and a file cannot tell them from its own
  have hreaders := tells_readersOver (tells_refusing source) (8 * input.budget)
  have hparts : Honest source True anywhere
      (Parse.partsWith (Parse.readersOver Parse.refusing (8 * input.budget))) anything :=
    .seq .packageName fun package => .seq (.contents hreaders) fun found => .done
  have htold := hparts input s hb
  have hs : s.tokens.length < input.budget := Nat.lt_of_le_of_lt hw.tokens.length_le hb
  rw [run_partsWith _ hs hs (by omega), hrun] at htold
  exact ((htold hq).2 trivial hw trivial).1

/-- A file that is read without a diagnostic lacks no part that is always reported. Where the types behind
"new" and "instanceof" are plain, it lacks no part at all that the grammar asks for. Of the parameters
only those of lambdas may be without a type. -/
theorem parse_whole {file text : String} {unit : SyntaxUnit} (h : parse file text = .ok unit)
    (hd : unit.diagnostics = []) :
    unit.tree.Whole (hasPlainTypes (Token.scan file text).tokens) ∧ unit.tree.Typed := by
  refine ⟨?_, typed_of_parse h⟩
  rcases hrun : (Parse.parts.run (.ofText file text)).run (.ofText file text) with ⟨parts, t⟩
  rw [parse, ofTokens_eq hrun] at h
  split at h
  · cases h
  · rename_i hnone
    cases h
    have hquiet : t.Quiet := ⟨by simpa using hd, hnone⟩
    have hstart : (State.ofText file text).Whole (Token.scan file text).tokens := by
      refine ⟨List.suffix_refl _, fun id node hn => ?_⟩
      simp [State.ofText, State.start, Tree.empty, Tree.node?] at hn
    have hwhole := whole_of_quiet (Nat.lt_succ_self _) hrun hquiet hstart
    have hroot : Payload.Whole (hasPlainTypes (Token.scan file text).tokens) .compilationUnit
        ((Input.ofText file text).root parts) := trivial
    exact (hwhole.nodes.add hroot _ _).linkParents _

/-- A modifier and an annotation in front of a type behind "instanceof", and type arguments behind "new". -/
theorem parse_whole_creation : ∃ unit,
    parse "A.java" "class A \x7b A a = b instanceof final @B C ? new <D> A(c) : (A) d; \x7d" =
        .ok unit ∧
      unit.diagnostics = [] ∧ unit.tree.Whole True ∧ unit.tree.Typed := by
  obtain ⟨unit, h, hd⟩ := exists_unit (show (parse "A.java"
    "class A \x7b A a = b instanceof final @B C ? new <D> A(c) : (A) d; \x7d").toOption.any
      (fun unit => unit.diagnostics.isEmpty) = true by decide +kernel)
  have hplain : hasPlainTypes (Token.scan "A.java"
      "class A \x7b A a = b instanceof final @B C ? new <D> A(c) : (A) d; \x7d").tokens = true := by
    decide +kernel
  have hwhole := parse_whole h (List.isEmpty_iff.1 hd)
  rw [hplain, eq_self] at hwhole
  exact ⟨unit, h, List.isEmpty_iff.1 hd, hwhole⟩

/-- Whether it is a test of "instanceof" without a type. -/
def isUntypedTest : Payload → Bool
  | .instanceOf _ none => true
  | _ => false

/-- A type that breaks off at a sign of comparison, as if that opened its arguments, is missing behind
"instanceof", and nothing is reported. -/
theorem missing_instanceOf : ∃ unit,
    parse "A.java" "class A \x7b boolean f = a instanceof B < 1; \x7d" = .ok unit ∧
      unit.diagnostics = [] ∧ ∃ id expression, unit.tree.Reaches unit.root id ∧
        unit.tree.payloadAt? (some id) = some (.instanceOf expression none) := by
  obtain ⟨unit, h, ht⟩ := exists_unit (show (parse "A.java"
    "class A \x7b boolean f = a instanceof B < 1; \x7d").toOption.any (fun unit =>
      unit.diagnostics.isEmpty && (unit.tree.descendants unit.root).any fun id =>
        (unit.tree.payloadAt? (some id)).any isUntypedTest) = true by decide +kernel)
  rw [Bool.and_eq_true, List.any_eq_true] at ht
  obtain ⟨hd, id, hid, hp⟩ := ht
  have hsound := sound_of_parse h
  have hreach := (Tree.mem_descendants hsound.wellFormed hsound.root_lt).1 hid
  obtain ⟨payload, hpayload, htest⟩ := (Option.any_eq_true _ _).1 hp
  unfold isUntypedTest at htest
  split at htest
  · exact ⟨unit, h, List.isEmpty_iff.1 hd, id, _, hreach, hpayload⟩
  · cases htest

end Grammar

end JavaNames
