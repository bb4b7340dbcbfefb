/-
What the messages about a file say. The arguments of a message are put into its template one after the
other, and the last of them is often taken from the file, which may spell placeholders, braces and
digits. Main statement: nothing that is spelled in a file changes a message. It is always the template of
its rule with each argument, as it is spelled, in the place of its placeholder.
-/
import JavaNames.Proofs.Analysis.Settings
import JavaNames.Proofs.Reading.Reported
import JavaNames.Proofs.Text.Template

namespace JavaNames

open Diagnostic (Piece DigitFree render substitute)

/-! ## The templates of the rules -/

namespace Rule

/-- How many arguments the message of a rule has. -/
def arity : Rule → Nat
  | expectedToken => 2
  | _ => 1

/-- The message of a rule in pieces. -/
def pieces : Rule → List Piece
  | unexpectedToken => [.text "Unexpected token '".toList, .hole 0, .text "'.".toList]
  | expectedToken =>
    [.text "'".toList, .hole 0, .text "' expected, found '".toList, .hole 1, .text "'.".toList]
  | unterminatedLiteral => [.text "Unterminated ".toList, .hole 0, .text " literal.".toList]
  | unsupportedSyntax => [.hole 0, .text " is not supported.".toList]
  | duplicateDeclaration =>
    [.text "Duplicate declaration of '".toList, .hole 0, .text "' in the same scope.".toList]
  | unresolvedName =>
    [.text "Cannot resolve name '".toList, .hole 0, .text "' to a variable or field.".toList]
  | selfReference =>
    [.text "Variable '".toList, .hole 0, .text "' is referenced in its own initializer.".toList]

theorem render_pieces (rule : Rule) : render rule.pieces = rule.template.toList := by
  cases rule <;> decide +kernel

theorem plain_pieces (rule : Rule) : ∀ piece ∈ rule.pieces, piece.Plain := by
  cases rule <;> decide +kernel

theorem lt_arity_of_hole {rule : Rule} {number : Nat} (h : .hole number ∈ rule.pieces) :
    number < rule.arity := by
  cases rule <;> simp [pieces] at h <;> simp [arity] <;> omega

end Rule

/-! ## What a diagnostic says -/

/-- A diagnostic is the message of a rule with its arguments: it has the number and the severity of the
rule, and its text is the template with all arguments in the places of their placeholders at once. -/
structure Diagnostic.States (diagnostic : Diagnostic) (rule : Rule) (arguments : List String) : Prop where
  code : diagnostic.code = rule.code
  severity : diagnostic.severity = rule.severity
  text : diagnostic.text = String.ofList (substitute arguments rule.template.toList)

/-- What a rule says is not changed by what its last argument spells. -/
theorem Diagnostic.states_ofRule (rule : Rule) (arguments : List String)
    (hl : arguments.length = rule.arity)
    (ha : ∀ argument ∈ arguments.dropLast, DigitFree argument.toList) (file : String)
    (start length : Nat) : (ofRule rule file start length arguments).States rule arguments := by
  refine ⟨rfl, rfl, ?_⟩
  change fill rule.template arguments = _
  rw [fill, ← rule.render_pieces, fillFrom_eq_substitute rule.plain_pieces ?_ ha]
  intro number hn
  rw [hl]
  exact Rule.lt_arity_of_hole hn

theorem Diagnostic.states_of_one {rule : Rule} (h : rule.arity = 1) (argument file : String)
    (start length : Nat) : (ofRule rule file start length [argument]).States rule [argument] :=
  states_ofRule rule [argument] h.symm (fun _ hm => absurd hm List.not_mem_nil) file start length

theorem TokenKind.digitFree_text (kind : TokenKind) : DigitFree kind.text.toList := by
  cases kind with
  | unknown => decide +kernel
  | endOfFile => decide +kernel
  | identifier => decide +kernel
  | literal kind => cases kind <;> decide +kernel
  | mark mark => cases mark <;> decide +kernel
  | keyword keyword => cases keyword <;> decide +kernel

/-! ## Spelling -/

namespace Token

/-- What is said about the spelling of a text with these tokens: that a comment or a literal is not
closed, or that no token begins with a character. -/
inductive Spelling (tokens : List Token) : Rule → List String → Prop
  | comment : Spelling tokens .unterminatedLiteral ["comment"]
  | string : Spelling tokens .unterminatedLiteral ["string"]
  | character : Spelling tokens .unterminatedLiteral ["character"]
  | textBlock : Spelling tokens .unterminatedLiteral ["text block"]
  | unexpected {token : Token} : token ∈ tokens → Spelling tokens .unexpectedToken [token.text]

theorem Spelling.mono {tokens more : List Token} {rule : Rule} {arguments : List String}
    (h : Spelling tokens rule arguments) (hm : tokens ⊆ more) : Spelling more rule arguments := by
  cases h with
  | comment => exact .comment
  | string => exact .string
  | character => exact .character
  | textBlock => exact .textBlock
  | unexpected ht => exact .unexpected (hm ht)

theorem Spelling.states {tokens : List Token} {rule : Rule} {arguments : List String}
    (h : Spelling tokens rule arguments) (file : String) (start length : Nat) :
    (Diagnostic.ofRule rule file start length arguments).States rule arguments := by
  cases h <;> exact Diagnostic.states_of_one rfl _ file start length

/-- A literal that is not closed is a string, a character or a text block. -/
theorem spelling_of_unterminated {c : Char} {rest : List Char} {what : String}
    (h : (lexeme c rest).defect = some (.unterminated what)) (tokens : List Token) :
    Spelling tokens .unterminatedLiteral [what] := by
  have hquoted {kind : LiteralKind} {word : String} {opening : List Char} {quoted : Quoted}
      (hq : (quotedLexeme kind word opening quoted).defect = some (.unterminated what)) :
      word = what := by
    rw [quotedLexeme] at hq
    dsimp only at hq
    split at hq
    · cases hq
    · cases hq
      rfl
  unfold lexeme at h
  split at h
  · cases h
  split at h
  · cases h
  split at h
  · split at h
    · rw [← hquoted h]
      exact .textBlock
    · rw [← hquoted h]
      exact .string
  split at h
  · rw [← hquoted h]
    exact .character
  split at h <;> cases h

/-- What finding the tokens of a text says about its spelling. -/
theorem states_of_mem_scanFrom (file : String) (offset : Nat) (cs : List Char) :
    ∀ diagnostic ∈ (scanFrom file offset cs).diagnostics, ∃ rule arguments,
      Spelling (scanFrom file offset cs).tokens rule arguments ∧ diagnostic.States rule arguments := by
  have hcomment {tokens : List Token} {stop : Nat} {comment : Option (List Char)}
      {diagnostic : Diagnostic} (h : diagnostic ∈ (comment.map (unclosedComment file stop)).toList) :
      ∃ rule arguments, Spelling tokens rule arguments ∧ diagnostic.States rule arguments := by
    obtain ⟨_, -, rfl⟩ := Option.map_eq_some_iff.1 (Option.mem_toList.1 h)
    have hspelling : Spelling tokens .unterminatedLiteral ["comment"] := .comment
    exact ⟨_, _, hspelling, hspelling.states _ _ _⟩
  fun_induction scanFrom file offset cs with
  | case1 offset cs => exact fun _ => hcomment
  | case2 offset cs space start unclosed c rest hrest found token behind ih =>
    intro diagnostic h
    rcases List.mem_append.1 h with h | h
    · rcases List.mem_append.1 h with h | h
      · exact hcomment h
      · obtain ⟨defect, hdefect, rfl⟩ := Option.map_eq_some_iff.1 (Option.mem_toList.1 h)
        cases defect with
        | unexpected =>
          have hspelling : Spelling (token :: behind.tokens) .unexpectedToken [token.text] :=
            .unexpected List.mem_cons_self
          exact ⟨_, _, hspelling, hspelling.states _ _ _⟩
        | unterminated what =>
          have hspelling := spelling_of_unterminated hdefect (token :: behind.tokens)
          exact ⟨_, _, hspelling, hspelling.states _ _ _⟩
    · obtain ⟨rule, arguments, hspelling, hstates⟩ := ih diagnostic h
      exact ⟨rule, arguments, hspelling.mono (List.subset_cons_self _ _), hstates⟩

end Token

/-! ## Syntax -/

namespace Grammar

theorem Telling.states {token : Token} {rule : Rule} {arguments : List String}
    (h : Telling token rule arguments) (file : String) (start length : Nat) :
    (Diagnostic.ofRule rule file start length arguments).States rule arguments := by
  cases h with
  | expected kind =>
    refine Diagnostic.states_ofRule .expectedToken _ rfl ?_ file start length
    exact List.forall_mem_singleton.2 kind.digitFree_text
  | unexpected => exact Diagnostic.states_of_one rfl _ file start length
  | pattern => exact Diagnostic.states_of_one rfl _ file start length
  | typePattern => exact Diagnostic.states_of_one rfl _ file start length

/-- What a reader has said, beside what was given, is about tokens that it has come to. -/
structure Said (input : Input) (tokens : List Token) (given : List Diagnostic) (s : State) : Prop where
  left : s.tokens = tokens.drop s.consumed
  told : ∀ diagnostic ∈ s.diagnostics, diagnostic ∈ given ∨
    ∃ token ∈ tokens ++ [.endOfFile input.stop], ∃ rule arguments, Telling token rule arguments ∧
      diagnostic = input.diagnostic rule token.start token.stop arguments

namespace Said

variable {input : Input} {tokens : List Token} {given : List Diagnostic} {s : State}

theorem advance (h : Said input tokens given s) : Said input tokens given s.advance := by
  cases hts : s.tokens with
  | nil =>
    rw [State.advance, hts]
    exact h
  | cons token rest =>
    have hleft : rest = tokens.drop (s.consumed + 1) := by
      rw [← List.tail_drop, ← h.left, hts, List.tail_cons]
    rw [State.advance, hts]
    exact ⟨hleft, h.told⟩

theorem report (h : Said input tokens given s) {token : Token}
    (ht : token = s.tokens.headD (.endOfFile input.stop)) {rule : Rule} {arguments : List String}
    (hr : Telling token rule arguments) :
    Said input tokens given (s.report (input.diagnostic rule token.start token.stop arguments)) := by
  refine ⟨h.left, fun diagnostic hd => ?_⟩
  rcases Array.mem_push.1 hd with hd | rfl
  · exact h.told diagnostic hd
  · exact .inr ⟨token, ht ▸ Reported.headD_mem h.left, rule, arguments, hr, rfl⟩

theorem invariant (input : Input) (tokens : List Token) (given : List Diagnostic) (ρ : Renaming)
    (input' : Input) : Invariant ρ input input' fun s _ _ => Said input tokens given s where
  weaker _ h := h
  mark _ h := h
  advance _ h := h.advance
  report _ _ _ _ hr ht h := h.report ht hr
  enter _ _ h := ⟨h.left, h.told⟩
  leave h := ⟨h.left, h.told⟩
  refuse _ _ h := ⟨h.left, h.told⟩
  word _ _ _ _ h := ⟨h.advance.left, h.advance.told⟩
  nameUse _ _ _ _ _ h := ⟨h.advance.left, h.advance.told⟩
  typeNode _ _ _ _ _ _ _ _ h := ⟨h.left, h.told⟩
  replace _ _ _ _ _ h := ⟨h.left, h.told⟩
  finish _ _ _ _ _ h := ⟨h.left, h.told⟩

end Said

/-- What is said about a file that has been read is what finding its tokens has said, or it is about a
token of it or its end. -/
theorem telling_of_parse {file text : String} {unit : SyntaxUnit} (h : parse file text = .ok unit) :
    ∀ diagnostic ∈ unit.diagnostics, diagnostic ∈ (Token.scan file text).diagnostics ∨
      ∃ token ∈ (Token.scan file text).tokens ++ [.endOfFile text.utf8ByteSize], ∃ rule arguments,
        Telling token rule arguments ∧ diagnostic.start = token.start ∧
          diagnostic.States rule arguments := by
  have hstart : Said (.ofText file text) (Token.scan file text).tokens
      (Token.scan file text).diagnostics (.ofText file text) :=
    ⟨rfl, fun diagnostic hd => .inl (List.mem_toArray.1 hd)⟩
  obtain ⟨t, parts, hread, -, -, -, hd⟩ :=
    Invariant.of_parse h (Said.invariant _ _ _ .id _) [] hstart
  intro diagnostic hm
  rw [hd] at hm
  rcases hread.told diagnostic (Array.mem_toList_iff.1 hm) with hgiven | htold
  · exact .inl hgiven
  · obtain ⟨token, ht, rule, arguments, htelling, rfl⟩ := htold
    exact .inr ⟨token, ht, rule, arguments, htelling, rfl, htelling.states _ _ _⟩

end Grammar

/-! ## Names -/

namespace BoundUnit

theorem states_duplicate (unit : BoundUnit) (symbol : Symbol) (existing : SymbolId) :
    (unit.duplicate symbol existing).start = symbol.position ∧
      (unit.duplicate symbol existing).States .duplicateDeclaration [symbol.name] := by
  have hstates := Diagnostic.states_of_one (show Rule.duplicateDeclaration.arity = 1 from rfl)
    symbol.name unit.file symbol.position symbol.name.utf8ByteSize
  rw [duplicate]
  split
  · exact ⟨rfl, hstates⟩
  · exact ⟨rfl, hstates.code, hstates.severity, hstates.text⟩

/-- What is said while names are bound is about symbols. -/
theorem Moves.states {options : BindOptions} {unit unit' : BoundUnit} (h : unit.Moves options unit')
    (hs : ∀ diagnostic ∈ unit.diagnostics, ∃ symbol ∈ unit.symbols,
      diagnostic.start = symbol.position ∧ diagnostic.States .duplicateDeclaration [symbol.name]) :
    ∀ diagnostic ∈ unit'.diagnostics, ∃ symbol ∈ unit'.symbols,
      diagnostic.start = symbol.position ∧ diagnostic.States .duplicateDeclaration [symbol.name] := by
  induction h with
  | stay => exact hs
  | scope => assumption
  | @node _ scope _ _ _ ih =>
    cases scope with
    | none => exact ih
    | some _ => exact ih
  | @declare next scope declaring symbol _ _ ih =>
    rw [symbols_withDeclared]
    have hgrow : ∀ diagnostic ∈ next.diagnostics, ∃ other ∈ next.symbols.push symbol,
        diagnostic.start = other.position ∧ diagnostic.States .duplicateDeclaration [other.name] := by
      intro diagnostic hd
      obtain ⟨other, ho, hstates⟩ := ih diagnostic hd
      exact ⟨other, Array.mem_push_of_mem _ ho, hstates⟩
    rcases diagnostics_withDeclared next options scope declaring symbol with hsame | ⟨-, existing, hpush⟩
    · rwa [hsame]
    · rw [hpush]
      intro diagnostic hd
      rcases Array.mem_push.1 hd with hd | rfl
      · exact hgrow diagnostic hd
      · exact ⟨symbol, Array.mem_push_self, states_duplicate _ symbol existing⟩

end BoundUnit

theorem Tree.states_of_bind {tree : Tree} {root : Link} {file : String} {options : BindOptions}
    {bound : BoundUnit} (h : tree.bind root file options = .ok bound) :
    ∀ diagnostic ∈ bound.diagnostics, ∃ symbol ∈ bound.symbols,
      diagnostic.start = symbol.position ∧ diagnostic.States .duplicateDeclaration [symbol.name] := by
  obtain ⟨id, hmoves⟩ := Tree.moves_of_bind h
  exact hmoves.states fun _ hd => absurd hd (Array.not_mem_empty _)

namespace Analysis

open Grammar (SyntaxUnit)

/-- What is said about the use of a name is that it has no meaning, or a meaning that it helps to make. -/
theorem states_of_useDiagnostic? {syntaxUnit : SyntaxUnit} {bound : BoundUnit} {only : Bool}
    {use : BoundUnit.Use} {diagnostic : Diagnostic}
    (h : useDiagnostic? syntaxUnit bound only use = some diagnostic) :
    ∃ node name, syntaxUnit.tree.node? use.node = some node ∧
      syntaxUnit.tree.name? use.node = some name ∧ diagnostic.start = node.start ∧
      diagnostic.States (if use.symbol.isNone then .unresolvedName else .selfReference) [name] := by
  unfold useDiagnostic? at h
  split at h
  · rename_i node name hnode hname
    cases hs : use.symbol with
    | none =>
      rw [hs] at h
      obtain rfl := Option.some.inj h
      exact ⟨node, name, hnode, hname, rfl, Diagnostic.states_of_one rfl name _ _ _⟩
    | some symbol =>
      rw [hs] at h
      dsimp only at h
      split at h
      · obtain rfl := Option.some.inj h
        exact ⟨node, name, hnode, hname, rfl, Diagnostic.states_of_one rfl name _ _ _⟩
      · cases h
  · cases h

/-- A report holds what is said about the syntax of a file and about its symbols, unless only names
without a meaning are asked for, and what is said about the uses of its names. -/
theorem mem_diagnostics {syntaxUnit : SyntaxUnit} {bound : BoundUnit} {uses : List BoundUnit.Use}
    {only : Bool} {diagnostic : Diagnostic} :
    diagnostic ∈ diagnostics syntaxUnit bound uses only ↔
      only = false ∧ (diagnostic ∈ syntaxUnit.diagnostics ∨ diagnostic ∈ bound.diagnostics) ∨
        ∃ use ∈ uses, useDiagnostic? syntaxUnit bound only use = some diagnostic := by
  rw [diagnostics, List.mem_mergeSort, List.mem_append, List.mem_filterMap]
  cases only <;> simp

/-- No message is changed by what a file spells. In the messages about the spelling of a file, its
syntax, its symbols and the uses of its names, each argument stands as it is spelled in the place of its
placeholder, and nothing is put in anywhere else. -/
theorem messages_verbatim (file text : String) :
    (∀ diagnostic ∈ (Token.scan file text).diagnostics, ∃ rule arguments,
      Token.Spelling (Token.scan file text).tokens rule arguments ∧
        diagnostic.States rule arguments) ∧
    (∀ unit, Grammar.parse file text = .ok unit →
      ∀ diagnostic ∈ unit.diagnostics, diagnostic ∈ (Token.scan file text).diagnostics ∨
        ∃ token ∈ (Token.scan file text).tokens ++ [.endOfFile text.utf8ByteSize], ∃ rule arguments,
          Grammar.Telling token rule arguments ∧ diagnostic.start = token.start ∧
            diagnostic.States rule arguments) ∧
    (∀ options unit bound, bindSource file text options = .ok (unit, bound) →
      ∀ diagnostic ∈ bound.diagnostics, ∃ symbol ∈ bound.symbols,
        diagnostic.start = symbol.position ∧
          diagnostic.States .duplicateDeclaration [symbol.name]) ∧
    ∀ options report, analyze file text options = .ok report →
      ∃ unit bound, bindSource file text options.bind = .ok (unit, bound) ∧
        ∀ diagnostic ∈ report.diagnostics,
          diagnostic ∈ unit.diagnostics ∨ diagnostic ∈ bound.diagnostics ∨
            ∃ use ∈ bound.resolveUses unit.tree, ∃ node name,
              unit.tree.node? use.node = some node ∧ unit.tree.name? use.node = some name ∧
                diagnostic.start = node.start ∧ diagnostic.States
                  (if use.symbol.isNone then .unresolvedName else .selfReference) [name] := by
  refine ⟨Token.states_of_mem_scanFrom file 0 text.toList, ?_, ?_, ?_⟩
  · exact fun unit h => Grammar.telling_of_parse h
  · exact fun options unit bound h => Tree.states_of_bind (bindSource_eq_ok.1 h).2
  · intro options report h
    obtain ⟨unit, bound, hs, rfl⟩ := analyze_eq_ok.1 h
    refine ⟨unit, bound, hs, fun diagnostic hd => ?_⟩
    rcases mem_diagnostics.1 hd with ⟨-, hd | hd⟩ | ⟨use, hu, hd⟩
    · exact .inl hd
    · exact .inr (.inl hd)
    · exact .inr (.inr ⟨use, hu, states_of_useDiagnostic? hd⟩)

/-- A string that spells two placeholders, a sign that no token begins with, a field that is declared
twice and a name without a meaning. -/
theorem messages_verbatim_placeholders : ∃ (unit : SyntaxUnit) (bound : BoundUnit) (report : FileReport),
    Grammar.parse "A.java" "class A \x7b int x \"\x7b1\x7d\x7b0\x7d\"; int x = y; # \x7d" = .ok unit ∧
    analyze "A.java" "class A \x7b int x \"\x7b1\x7d\x7b0\x7d\"; int x = y; # \x7d" {} = .ok report ∧
    (∃ diagnostic ∈ unit.diagnostics,
      diagnostic.text = "';' expected, found '\"\x7b1\x7d\x7b0\x7d\"'.") ∧
    (∀ diagnostic ∈ unit.diagnostics, ∃ rule arguments, diagnostic.States rule arguments) ∧
    (∀ diagnostic ∈ bound.diagnostics, ∃ name, diagnostic.States .duplicateDeclaration [name]) ∧
    ∀ diagnostic ∈ report.diagnostics, ∃ rule arguments, diagnostic.States rule arguments := by
  obtain ⟨unit, bound, hp, hb, htest⟩ := Grammar.exists_bound_of (show ((Grammar.parse "A.java"
    "class A \x7b int x \"\x7b1\x7d\x7b0\x7d\"; int x = y; # \x7d").toOption.any fun unit =>
      (unit.tree.bind unit.root "A.java" {}).toOption.any fun _ =>
        unit.diagnostics.any fun diagnostic =>
          diagnostic.text = "';' expected, found '\"\x7b1\x7d\x7b0\x7d\"'.") = true by decide +kernel)
  obtain ⟨hspelling, hsyntax, hsymbols, hreport⟩ := messages_verbatim "A.java"
    "class A \x7b int x \"\x7b1\x7d\x7b0\x7d\"; int x = y; # \x7d"
  have hs := bindSource_eq_ok.2 ⟨hp, hb⟩
  obtain ⟨diagnostic, hd, htext⟩ := List.any_eq_true.1 htest
  have hunit : ∀ diagnostic ∈ unit.diagnostics, ∃ rule arguments, diagnostic.States rule arguments := by
    intro diagnostic hd
    rcases hsyntax unit hp diagnostic hd with hd | ⟨_, -, rule, arguments, -, -, hstates⟩
    · obtain ⟨rule, arguments, -, hstates⟩ := hspelling diagnostic hd
      exact ⟨rule, arguments, hstates⟩
    · exact ⟨rule, arguments, hstates⟩
  have hbound : ∀ diagnostic ∈ bound.diagnostics,
      ∃ name, diagnostic.States .duplicateDeclaration [name] := by
    intro diagnostic hd
    obtain ⟨symbol, -, -, hstates⟩ := hsymbols {} unit bound hs diagnostic hd
    exact ⟨symbol.name, hstates⟩
  have ha : analyze "A.java" "class A \x7b int x \"\x7b1\x7d\x7b0\x7d\"; int x = y; # \x7d" {} =
      .ok (report unit bound {}) := analyze_eq_ok.2 ⟨unit, bound, hs, rfl⟩
  refine ⟨unit, bound, report unit bound {}, hp, ha, ⟨diagnostic, hd, of_decide_eq_true htext⟩, hunit,
    hbound, fun diagnostic hd => ?_⟩
  obtain ⟨unit', bound', hs', hall⟩ := hreport {} _ ha
  obtain ⟨rfl, rfl⟩ := Prod.mk.inj (Except.ok.inj (hs.symm.trans hs'))
  rcases hall diagnostic hd with hd | hd | ⟨use, -, node, name, -, -, -, hstates⟩
  · exact hunit diagnostic hd
  · obtain ⟨name, hstates⟩ := hbound diagnostic hd
    exact ⟨_, _, hstates⟩
  · exact ⟨_, _, hstates⟩

end Analysis

end JavaNames
