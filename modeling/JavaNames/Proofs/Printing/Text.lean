/-
What is written for an expression is scanned as the tokens that are read: a space ends every word, and
the signs of an operator come apart one by one where they would join with no other.
-/
import JavaNames.Proofs.Printing.Calm
import JavaNames.Proofs.Token.Order
import JavaNames.Proofs.Token.Step

namespace JavaNames.Grammar

open JavaNames.Token
open JavaNames.Text (byteCount byteCount_nil utf8ByteSize_ofList)

/-! ## Single words -/

/-- What stands behind a word: a space or nothing. -/
def EndsWord (rest : List Char) : Prop := ∀ c ∈ rest.head?, c = ' '

/-- A word is scanned as the token that it is, where certain characters follow. -/
structure Word.ScansBefore (word : Word) (rest : List Char) : Prop where
  gap : gap (word.text.toList ++ rest) = ⟨[], word.text.toList ++ rest, none⟩
  lexeme : ∃ c cs, word.text.toList = c :: cs ∧
    lexeme c (cs ++ rest) = ⟨word.kind, c :: cs, rest, none⟩

/-- A word is scanned as the token that it is. -/
def Word.Spelled (word : Word) : Prop := ∀ rest, EndsWord rest → word.ScansBefore rest

theorem scanFrom_word {word : Word} {rest : List Char} (h : word.ScansBefore rest) (file : String)
    (offset : Nat) :
    scanFrom file offset (word.text.toList ++ rest) =
      ⟨word.token offset :: (scanFrom file (offset + word.text.utf8ByteSize) rest).tokens,
        (scanFrom file (offset + word.text.utf8ByteSize) rest).diagnostics⟩ := by
  obtain ⟨c, cs, hcs, hlex⟩ := h.lexeme
  have hgap := h.gap
  have hsize : byteCount (c :: cs) = word.text.utf8ByteSize := by
    rw [← utf8ByteSize_ofList, ← hcs, String.ofList_toList]
  rw [hcs, List.cons_append] at hgap ⊢
  rw [scanFrom_cons file offset (congrArg Gap.rest hgap), hgap, hlex]
  simp only [byteCount_nil, Nat.add_zero, hsize]
  rw [← hcs, String.ofList_toList]
  rfl

/-! ## Words in a row -/

open Expression

/-- Words without space between them are scanned one after the other, in front of certain
characters. -/
def TouchingScanBefore : List Word → List Char → Prop
  | [], _ => True
  | word :: words, rest =>
    word.ScansBefore ((touchingText words).toList ++ rest) ∧ TouchingScanBefore words rest

theorem scanFrom_touching {words : List Word} {rest : List Char}
    (h : TouchingScanBefore words rest) (file : String) (offset : Nat) :
    scanFrom file offset ((touchingText words).toList ++ rest) =
      ⟨touching offset words ++ (scanFrom file (offset + extent words) rest).tokens,
        (scanFrom file (offset + extent words) rest).diagnostics⟩ := by
  induction words generalizing offset with
  | nil => rfl
  | cons word words ih =>
    rw [touchingText, String.toList_append, List.append_assoc, scanFrom_word h.1, ih h.2, extent,
      Nat.add_assoc]
    rfl

theorem scanFrom_spaced {words : Words}
    (h : ∀ word ∈ words, ∀ rest, EndsWord rest → TouchingScanBefore word rest) (file : String)
    (offset : Nat) : scanFrom file offset (spacedText words).toList = ⟨spaced offset words, []⟩ := by
  induction words generalizing offset with
  | nil => exact scanFrom_end file offset
  | cons word words ih =>
    have hword := h word List.mem_cons_self
    cases words with
    | nil =>
      have hscan := scanFrom_touching (hword [] (by simp [EndsWord])) file offset
      rw [List.append_nil, scanFrom_end] at hscan
      exact hscan
    | cons next words =>
      have hscan := scanFrom_touching
        (hword (' ' :: (spacedText (next :: words)).toList) (by simp [EndsWord])) file offset
      rw [scanFrom_blank file _ rfl, ih (fun w hw => h w (List.mem_cons_of_mem _ hw))] at hscan
      rw [spacedText, String.toList_append, String.toList_append, List.append_assoc]
      exact hscan

/-! ## Marks -/

theorem spelled_ofMark (mark : Mark) : (Word.ofMark mark).Spelled := by
  -- the first character decides, but a slash has to see that no comment starts
  intro rest hr
  cases rest with
  | nil =>
    cases mark
    case slash => exact ⟨gap_slash [] (by simp), '/', [], rfl, rfl⟩
    case slashAssign => exact ⟨gap_slash ['='] (by simp), '/', ['='], rfl, rfl⟩
    all_goals exact ⟨gap_cons (by decide) rfl _, _, _, rfl, rfl⟩
  | cons c rest =>
    obtain rfl : c = ' ' := hr c rfl
    cases mark
    case slash => exact ⟨gap_slash (' ' :: rest) (by simp), '/', [], rfl, rfl⟩
    case slashAssign => exact ⟨gap_slash ('=' :: ' ' :: rest) (by simp), '/', ['='], rfl, rfl⟩
    all_goals exact ⟨gap_cons (by decide) rfl _, _, _, rfl, rfl⟩

/-- A greater-than sign does not join with another. -/
theorem scansBefore_greater (rest : List Char) : (Word.ofMark .greater).ScansBefore ('>' :: rest) :=
  ⟨gap_cons (by decide) rfl _, '>', [], rfl, rfl⟩

theorem touchingScanBefore_single {word : Word} (h : word.Spelled) {rest : List Char}
    (hr : EndsWord rest) : TouchingScanBefore [word] rest :=
  ⟨h rest hr, trivial⟩

theorem BinaryOperator.scans (operator : BinaryOperator) {rest : List Char} (hr : EndsWord rest) :
    TouchingScanBefore (operator.marks.map .ofMark) rest := by
  have hlast := spelled_ofMark .greater rest hr
  cases operator
  case shiftRight => exact ⟨scansBefore_greater _, hlast, trivial⟩
  case shiftRightZero => exact ⟨scansBefore_greater _, scansBefore_greater _, hlast, trivial⟩
  all_goals exact touchingScanBefore_single (spelled_ofMark _) hr

theorem AssignmentOperator.scans (operator : AssignmentOperator) {rest : List Char}
    (hr : EndsWord rest) : TouchingScanBefore (operator.marks.map .ofMark) rest := by
  have hlast := spelled_ofMark .greaterEqual rest hr
  cases operator
  case shiftRight => exact ⟨scansBefore_greater _, hlast, trivial⟩
  case shiftRightZero => exact ⟨scansBefore_greater _, scansBefore_greater _, hlast, trivial⟩
  all_goals exact touchingScanBefore_single (spelled_ofMark _) hr

/-! ## Names and keywords -/

theorem takeWhile_of_endsWord {rest : List Char} (h : EndsWord rest) :
    rest.takeWhile continuesIdentifier = [] ∧ rest.dropWhile continuesIdentifier = rest := by
  cases rest with
  | nil => exact ⟨rfl, rfl⟩
  | cons c rest =>
    obtain rfl : c = ' ' := h c rfl
    exact ⟨rfl, rfl⟩

/-- What starts and goes on as an identifier does is scanned as one word. -/
theorem spelled_of_startsIdentifier {text : String} {c : Char} {cs : List Char}
    (ht : text.toList = c :: cs) (hc : startsIdentifier c)
    (hcs : cs.all continuesIdentifier) : Word.Spelled ⟨wordKind text, text⟩ := by
  intro rest hr
  obtain ⟨htake, hdrop⟩ := takeWhile_of_endsWord hr
  have hcontinues := List.all_eq_true.1 hcs
  refine ⟨?_, c, cs, ht, ?_⟩
  · rw [ht, List.cons_append, gap_of_startsIdentifier hc]
  · unfold lexeme
    rw [if_pos hc, List.takeWhile_append_of_pos hcontinues, List.dropWhile_append_of_pos hcontinues,
      htake, hdrop, List.append_nil, ← ht]
    dsimp only
    rw [String.ofList_toList]

theorem spelled_this : Word.Spelled ⟨.keyword .thisKw, Keyword.thisKw.spelling⟩ := by
  have hchars : Keyword.thisKw.spelling.toList = 't' :: ['h', 'i', 's'] := rfl
  have hkind : wordKind Keyword.thisKw.spelling = .keyword .thisKw := rfl
  rw [← hkind]
  exact spelled_of_startsIdentifier hchars rfl rfl

/-! ## Whole expressions -/

/-- A word is one token, or else an operator. -/
inductive IsWord : List Word → Prop
  | single (word : Word) : IsWord [word]
  | binary (operator : BinaryOperator) : IsWord (operator.marks.map .ofMark)
  | assignment (operator : AssignmentOperator) : IsWord (operator.marks.map .ofMark)

/-- Words each of which is one token or an operator. -/
def AreWords (words : Words) : Prop := ∀ word ∈ words, IsWord word

namespace AreWords

variable {word : List Word} {words others : Words}

theorem cons (h : IsWord word) (hw : AreWords words) : AreWords (word :: words) :=
  List.forall_mem_cons.2 ⟨h, hw⟩

theorem token {word : Word} (hw : AreWords words) : AreWords ([word] :: words) :=
  hw.cons (.single word)

theorem one {word : Word} : AreWords [[word]] := token nofun

theorem append (hw : AreWords words) (ho : AreWords others) : AreWords (words ++ others) :=
  List.forall_mem_append.2 ⟨hw, ho⟩

end AreWords

mutual

theorem areWords_words : (expression : Expression) → AreWords expression.words
  | .name _ | .literal _ _ | .this => .one
  | .parenthesized inner => .token ((areWords_words inner).append .one)
  | .field receiver _ => (areWords_words receiver).append (.token .one)
  | .trail _ operand => (areWords_words operand).append .one
  | .call _ arguments => .token (.token (areWords_argumentWords arguments))
  | .invoke receiver _ arguments =>
    (areWords_words receiver).append (.token (.token (.token (areWords_argumentWords arguments))))
  | .index array place =>
    (areWords_words array).append (.token ((areWords_words place).append .one))
  | .lead _ operand => .token (areWords_words operand)
  | .binary operator left right =>
    (areWords_words left).append ((areWords_words right).cons (.binary operator))
  | .conditional condition whenTrue whenFalse =>
    (areWords_words condition).append
      (.token ((areWords_words whenTrue).append (.token (areWords_words whenFalse))))
  | .assignment operator left right =>
    (areWords_words left).append ((areWords_words right).cons (.assignment operator))

theorem areWords_argumentWords : (expressions : List Expression) →
    AreWords (argumentWords expressions)
  | [] => .one
  | expression :: others => (areWords_words expression).append (areWords_otherWords others)

theorem areWords_otherWords : (expressions : List Expression) → AreWords (otherWords expressions)
  | [] => .one
  | expression :: others => .token ((areWords_words expression).append (areWords_otherWords others))

end

/-- A word that is the same wherever it stands: a mark or "this". -/
def Word.IsFixed (word : Word) : Prop :=
  (∃ mark, word = .ofMark mark) ∨ word = ⟨.keyword .thisKw, Keyword.thisKw.spelling⟩

theorem Word.IsFixed.spelled {word : Word} (h : word.IsFixed) : word.Spelled := by
  rcases h with ⟨mark, rfl⟩ | rfl
  · exact spelled_ofMark mark
  · exact spelled_this

/-- The names and literals of an expression are scanned as such. -/
def Expression.Spelled (expression : Expression) : Prop :=
  ∀ word ∈ expression.words.flatten, ¬word.IsFixed → word.Spelled

/-- What is written for an expression is scanned as its tokens. -/
theorem scan_text {expression : Expression} (h : expression.Spelled) (file : String) :
    scan file expression.text = ⟨expression.tokens, []⟩ := by
  refine scanFrom_spaced (fun word hw rest hr => ?_) file 0
  cases areWords_words expression word hw with
  | single word =>
    refine touchingScanBefore_single ?_ hr
    rcases Classical.em word.IsFixed with hf | hf
    · exact hf.spelled
    · exact h word (List.mem_flatten.2 ⟨_, hw, List.mem_singleton_self _⟩) hf
  | binary operator => exact operator.scans hr
  | assignment operator => exact operator.scans hr

end JavaNames.Grammar
