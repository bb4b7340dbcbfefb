/-
What is said about a file that is read, in its order. A reader tells something about no other token than
the one that it has come to, and it never goes back. Main statement: the diagnostics of a file are those for
its spelling, in the order of the text, and then those for its syntax, each at the start of a token and none
in front of the one before it.
-/
import JavaNames.Proofs.Reading.Unit
import JavaNames.Proofs.Token.Defect
import JavaNames.Proofs.Token.Tick
import JavaNames.Proofs.Tree.Parsed

namespace JavaNames

/-- A diagnostic is about a token: it starts with it and is as long, or one byte at the end of a file. -/
def Diagnostic.IsAbout (diagnostic : Diagnostic) (token : Token) : Prop :=
  diagnostic.start = token.start ∧ diagnostic.length = max (token.stop - token.start) 1

namespace Grammar

/-! ## What a reader has told -/

/-- What a reader has told, behind what was given: it is about tokens that the reader has come to, in
their order. -/
structure Reported (input : Input) (tokens : List Token) (given : List Diagnostic) (s : State) : Prop where
  left : s.tokens = tokens.drop s.consumed
  told : ∃ told, s.diagnostics.toList = given ++ told ∧
    told.Pairwise (fun one later => one.start ≤ later.start) ∧
    ∀ diagnostic ∈ told, diagnostic.start ≤ s.offset input ∧
      ∃ token ∈ tokens ++ [.endOfFile input.stop], diagnostic.IsAbout token

namespace Reported

variable {input : Input} {tokens : List Token} {given : List Diagnostic} {s : State}

/-- The next token starts at the tick behind those that have been read. -/
theorem offset_eq (h : s.tokens = tokens.drop s.consumed) :
    s.offset input = Token.tick input.stop tokens (2 * s.consumed + 1) := by
  rw [State.offset, h, Token.tick_start]

/-- The next token is one of the file, or the end of it. -/
theorem headD_mem (h : s.tokens = tokens.drop s.consumed) :
    s.tokens.headD (.endOfFile input.stop) ∈ tokens ++ [.endOfFile input.stop] := by
  cases hts : s.tokens with
  | nil => exact List.mem_append_right _ (List.mem_singleton_self _)
  | cons token rest =>
    have htoken : token ∈ tokens.drop s.consumed := by
      rw [← h, hts]
      exact List.mem_cons_self
    exact List.mem_append_left _ (List.mem_of_mem_drop htoken)

/-- A reader does not go back. -/
theorem advance (ho : Token.Ordered input.stop 0 tokens) (h : Reported input tokens given s) :
    Reported input tokens given s.advance := by
  have hleft : s.advance.tokens = tokens.drop s.advance.consumed := by
    cases hts : s.tokens with
    | nil =>
      rw [State.advance, hts]
      exact h.left
    | cons token rest => rw [State.advance, hts, ← List.tail_drop, ← h.left, hts, List.tail_cons]
  have hread : s.consumed ≤ s.advance.consumed ∧ s.advance.diagnostics = s.diagnostics := by
    unfold State.advance
    split
    · exact ⟨Nat.le_refl _, rfl⟩
    · exact ⟨Nat.le_succ _, rfl⟩
  have hoffset : s.offset input ≤ s.advance.offset input := by
    rw [offset_eq h.left, offset_eq hleft]
    exact ho.tick_mono (by omega)
  obtain ⟨told, hd, hrising, habout⟩ := h.told
  refine ⟨hleft, told, by rw [hread.2, hd], hrising, fun diagnostic hm => ?_⟩
  exact ⟨Nat.le_trans (habout diagnostic hm).1 hoffset, (habout diagnostic hm).2⟩

/-- A reader tells something about the next token. -/
theorem report (h : Reported input tokens given s) {token : Token}
    (ht : token = s.tokens.headD (.endOfFile input.stop)) (rule : Rule) (arguments : List String) :
    Reported input tokens given (s.report (input.diagnostic rule token.start token.stop arguments)) := by
  obtain ⟨told, hd, hrising, habout⟩ := h.told
  have hstart : token.start = s.offset input := by rw [ht, State.offset]
  refine ⟨h.left, told ++ [input.diagnostic rule token.start token.stop arguments], ?_, ?_, ?_⟩
  · rw [← List.append_assoc, ← hd]
    exact Array.toList_push
  · refine List.pairwise_append.2 ⟨hrising, List.pairwise_singleton _ _, fun diagnostic hm later hl => ?_⟩
    obtain rfl := List.mem_singleton.1 hl
    exact Nat.le_trans (habout diagnostic hm).1 (Nat.le_of_eq hstart.symm)
  · refine List.forall_mem_append.2 ⟨habout, List.forall_mem_singleton.2 ⟨Nat.le_of_eq hstart, ?_⟩⟩
    exact ⟨token, ht ▸ headD_mem h.left, rfl, rfl⟩

/-- Reading tells things in the order of the tokens. -/
theorem invariant (ho : Token.Ordered input.stop 0 tokens) (ρ : Renaming) (input' : Input) :
    Invariant ρ input input' fun s _ _ => Reported input tokens given s where
  weaker _ h := h
  mark _ h := h
  advance _ h := h.advance ho
  report _ rule arguments _ _ ht h := h.report ht rule arguments
  enter _ _ h := ⟨h.left, h.told⟩
  leave h := ⟨h.left, h.told⟩
  refuse _ _ h := ⟨h.left, h.told⟩
  word _ _ _ _ h := ⟨(h.advance ho).left, (h.advance ho).told⟩
  nameUse _ _ _ _ _ h := ⟨(h.advance ho).left, (h.advance ho).told⟩
  typeNode _ _ _ _ _ _ _ _ h := ⟨h.left, h.told⟩
  replace _ _ _ _ _ h := ⟨h.left, h.told⟩
  finish _ _ _ _ _ h := ⟨h.left, h.told⟩

end Reported

/-! ## Whole files -/

/-- What is said about a file comes in the order of the text, first about its spelling and then about its
syntax. A diagnostic is at least one byte long and starts between two characters. Those for the spelling
start one behind the other and end inside the text; those for the syntax are about tokens, the end of the
file being one, and none starts in front of the one before it. -/
theorem parse_tells {file text : String} {unit : SyntaxUnit} (h : parse file text = .ok unit) :
    ∃ told, unit.diagnostics = (Token.scan file text).diagnostics ++ told ∧
      (∀ diagnostic ∈ unit.diagnostics, 1 ≤ diagnostic.length ∧
        diagnostic.start ≤ text.utf8ByteSize ∧ String.Pos.Raw.IsValid text ⟨diagnostic.start⟩) ∧
      (Token.scan file text).diagnostics.Pairwise (fun one later => one.start < later.start) ∧
      (∀ diagnostic ∈ (Token.scan file text).diagnostics,
        diagnostic.start + diagnostic.length ≤ text.utf8ByteSize) ∧
      told.Pairwise (fun one later => one.start ≤ later.start) ∧
      ∀ diagnostic ∈ told,
        ∃ token ∈ (Token.scan file text).tokens ++ [.endOfFile text.utf8ByteSize],
          diagnostic.IsAbout token := by
  obtain ⟨hwithin, hspelling⟩ := Token.told_scanFrom file 0 text.toList
  have hstart : Reported (.ofText file text) (Token.scan file text).tokens
      (Token.scan file text).diagnostics (.ofText file text) :=
    ⟨rfl, [], (List.append_nil _).symm, .nil, fun _ hm => absurd hm List.not_mem_nil⟩
  obtain ⟨t, parts, hread, -, -, -, hd⟩ := Invariant.of_parse h
    (Reported.invariant (Token.ordered_scan file text) .id _) [] hstart
  obtain ⟨told, htold, hrising, habout⟩ := hread.told
  rw [← hd] at htold
  refine ⟨told, htold, fun diagnostic hm => ?_, hspelling, fun diagnostic hm => ?_, hrising, ?_⟩
  · have hplace : 1 ≤ diagnostic.length ∧ String.Pos.Raw.IsValid text ⟨diagnostic.start⟩ := by
      rcases List.mem_append.1 (htold ▸ hm) with hm | hm
      · exact ⟨(hwithin diagnostic hm).length_pos, (hwithin diagnostic hm).bounds.1⟩
      · obtain ⟨-, token, ht, hs, hl⟩ := habout diagnostic hm
        rw [hs, hl]
        exact ⟨Nat.le_max_right _ _, (Token.standsIn_scan_end file text token ht).start⟩
    exact ⟨hplace.1, hplace.2.le_rawEndPos, hplace.2⟩
  · exact (hwithin diagnostic hm).bounds.2
  · exact fun diagnostic hm => (habout diagnostic hm).2

/-- A sign that no token begins with, a missing value and a body without its end are told in this order. -/
theorem parse_tells_unfinished : ∃ unit, parse "A.java" "class A \x7b int x = ; int # y;" = .ok unit ∧
    ∃ told, unit.diagnostics =
        (Token.scan "A.java" "class A \x7b int x = ; int # y;").diagnostics ++ told ∧
      told.Pairwise (fun one later => one.start ≤ later.start) ∧
      ∀ diagnostic ∈ told, ∃ token ∈ (Token.scan "A.java" "class A \x7b int x = ; int # y;").tokens ++
        [.endOfFile "class A \x7b int x = ; int # y;".utf8ByteSize], diagnostic.IsAbout token := by
  obtain ⟨unit, h⟩ := exists_ok (show (parse "A.java"
    "class A \x7b int x = ; int # y;").isOk = true by decide +kernel)
  obtain ⟨told, hd, -, -, -, hrising, habout⟩ := parse_tells h
  exact ⟨unit, h, told, hd, hrising, habout⟩

end Grammar

end JavaNames
