/-
Tokens that stand apart. A token that is without a defect is read from its own characters, whatever
blank stands behind it: nothing that is read ahead for it, a digit after a point or a letter after a
number, is a blank. Main statement: the tokens of a text that is scanned without a diagnostic, written
with blanks between them, are scanned as the same tokens.
-/
import JavaNames.Proofs.Token.Step

namespace JavaNames.Token

open JavaNames.Text

/-! ## Blanks -/

/-- The characters that separate tokens, as a list. -/
def blanks : List Char := [' ', '\t', '\n', '\r', '\x0c']

theorem mem_blanks {c : Char} (hc : isSpace c) : c ∈ blanks := by
  simpa [isSpace, blanks, or_assoc] using hc

/-- What may stand behind a token: a blank or nothing. -/
def Delimits (cs : List Char) : Prop := ∀ c ∈ cs.head?, isSpace c

section

variable {p : Char → Bool} (hp : blanks.all fun c => !p c)

include hp

theorem not_of_isSpace {c : Char} (hc : isSpace c) : p c = false := by
  simpa using List.all_eq_true.1 hp c (mem_blanks hc)

theorem not_isSpace_of {c : Char} (hc : p c) : isSpace c = false :=
  Bool.eq_false_iff.2 fun hs => Bool.eq_false_iff.1 (not_of_isSpace hp hs) hc

/-- A run of characters that holds no blank ends in front of what delimits it. -/
theorem Delimits.takeWhile {cs : List Char} (h : Delimits cs) :
    cs.takeWhile p = [] ∧ cs.dropWhile p = cs := by
  cases cs with
  | nil => exact ⟨rfl, rfl⟩
  | cons c rest =>
    have hc := not_of_isSpace hp (h c rfl)
    exact ⟨List.takeWhile_cons_of_neg (by simp [hc]), List.dropWhile_cons_of_neg (by simp [hc])⟩

/-- A part of a text begins, in front of what delimits it, as the text does or else with a blank. -/
theorem Delimits.head_append {front cs behind : List Char} (h : Delimits behind)
    (hf : front <+: cs) (hcs : cs.head?.any p = false) : (front ++ behind).head?.any p = false := by
  cases front with
  | nil =>
    cases behind with
    | nil => rfl
    | cons c rest => exact not_of_isSpace hp (h c rfl)
  | cons c front =>
    obtain ⟨rest, rfl⟩ := hf
    exact hcs

end

/-! ## Words and numbers -/

theorem splitNumber_of_delimits {behind : List Char} (h : Delimits behind) (run : List Char) :
    splitNumber run behind = ([], behind) := by
  cases behind with
  | nil => rfl
  | cons c rest =>
    have hc := h c rfl
    have hother : c ≠ '.' ∧ c ≠ '+' ∧ c ≠ '-' := by
      have := mem_blanks hc
      refine ⟨?_, ?_, ?_⟩ <;> rintro rfl <;> revert this <;> decide
    rw [splitNumber, if_neg (by simp [not_of_isSpace (p := isWordChar) rfl hc]),
      if_neg (by simp [hother.1]), if_neg (by simp [hother.2])]

/-- A number ends where it did in front of what delimits it. -/
theorem splitNumber_delimited {behind : List Char} (h : Delimits behind) (run cs : List Char) :
    splitNumber run ((splitNumber run cs).1 ++ behind) = ((splitNumber run cs).1, behind) := by
  fun_induction splitNumber run cs with
  | case1 run => exact splitNumber_of_delimits h run
  | case2 run c rest hw ih => rw [List.cons_append, splitNumber, if_pos hw, ih]
  | case3 run c rest hw hdot ih =>
    have hletter : ((splitNumber [] rest).1 ++ behind).head?.any Char.isAlpha = false :=
      h.head_append (by decide) ⟨_, splitNumber_append [] rest⟩ (by simp_all)
    rw [List.cons_append, splitNumber, if_neg hw, if_pos (by simp_all), ih]
  | case4 run c rest hw hdot hsign ih =>
    have hdot' : ¬(c = '.' && !((splitNumber [] rest).1 ++ behind).head?.any Char.isAlpha) := by
      have hc : c = '+' ∨ c = '-' := by
        simp only [Bool.and_eq_true, Bool.or_eq_true, decide_eq_true_eq] at hsign
        exact hsign.1
      rcases hc with rfl | rfl <;> simp
    rw [List.cons_append, splitNumber, if_neg hw, if_neg hdot', if_pos hsign, ih]
  | case5 run => exact splitNumber_of_delimits h run

/-! ## Quoted literals -/

/-- What does not begin with a backslash and another character, and is no backslash, does not begin
with a backslash. -/
theorem ne_backslash {c : Char} {rest : List Char} (h1 : c = '\\' → rest = [] → False)
    (h2 : ∀ d behind, c = '\\' → rest = d :: behind → False) : c ≠ '\\' := by
  rintro rfl
  cases rest with
  | nil => exact h1 rfl rfl
  | cons d behind => exact h2 d behind rfl rfl

theorem quotedLine_cons (quote : Char) {c : Char} (hc : c ≠ '\\') (cs : List Char) :
    quotedLine quote (c :: cs) =
      if c = '\n' then ⟨[], c :: cs, false⟩
      else if c = quote then ⟨[c], cs, true⟩
      else (quotedLine quote cs).prepend [c] := by
  rw [quotedLine]
  · exact fun h => absurd h hc
  · exact fun _ _ h => absurd h hc

/-- A closed literal ends where it did, whatever stands behind it. -/
theorem quotedLine_closed {quote : Char} {cs : List Char} (h : (quotedLine quote cs).closed)
    (behind : List Char) :
    quotedLine quote ((quotedLine quote cs).inside ++ behind) =
      ⟨(quotedLine quote cs).inside, behind, true⟩ := by
  fun_induction quotedLine quote cs with
  | case1 => cases h
  | case2 => cases h
  | case3 c rest ih =>
    have := ih h
    simp only [Quoted.inside_prepend, List.cons_append, List.nil_append]
    rw [quotedLine, this]
    rfl
  | case4 => cases h
  | case5 rest h1 h2 hn =>
    rw [List.cons_append, quotedLine_cons quote (ne_backslash h1 h2), if_neg hn, if_pos rfl]
    rfl
  | case6 c rest h1 h2 hn hq ih =>
    have := ih h
    simp only [Quoted.inside_prepend, List.cons_append, List.nil_append]
    rw [quotedLine_cons quote (ne_backslash h1 h2), if_neg hn, if_neg hq, this]
    rfl

theorem quotedBlock_cons {c : Char} {cs : List Char} (hc : c ≠ '\\')
    (hq : ∀ more, c :: cs ≠ '"' :: '"' :: '"' :: more) :
    quotedBlock (c :: cs) = (quotedBlock cs).prepend [c] := by
  rw [quotedBlock]
  · exact fun h => absurd h hc
  · exact fun _ _ h => absurd h hc
  · rintro more rfl rfl
    exact hq more rfl

/-- What is read as a string does not begin as a text block in front of what delimits it. -/
theorem quotedLine_ne_opening {rest behind : List Char} (hb : Delimits behind)
    (hne : ∀ inside, rest ≠ '"' :: '"' :: inside) (inside : List Char) :
    (quotedLine '"' rest).inside ++ behind ≠ '"' :: '"' :: inside := by
  intro heq
  have hpre : (quotedLine '"' rest).inside <+: rest := ⟨_, quotedLine_append '"' rest⟩
  by_cases hq : rest.head?.any (· == '"') = false
  · have := hb.head_append (by decide) hpre hq
    rw [heq] at this
    cases this
  · match rest with
    | [] => simp at hq
    | d :: rest =>
      obtain rfl : d = '"' := by simpa using hq
      rw [quotedLine_cons '"' (by decide), if_neg (by decide), if_pos rfl] at heq
      cases heq
      cases hb '"' rfl

/-- A closed text block is at least as long as its closing quotes. -/
theorem length_quotedBlock {cs : List Char} (h : (quotedBlock cs).closed) :
    3 ≤ (quotedBlock cs).inside.length := by
  fun_induction quotedBlock cs with
  | case1 => cases h
  | case2 => cases h
  | case3 c rest ih =>
    have := ih h
    simp only [Quoted.inside_prepend, List.length_append]
    omega
  | case4 => exact Nat.le_refl 3
  | case5 c rest _ _ _ ih =>
    have := ih h
    simp only [Quoted.inside_prepend, List.length_append]
    omega

/-- A closed text block ends where it did, whatever stands behind it. -/
theorem quotedBlock_closed {cs : List Char} (h : (quotedBlock cs).closed) (behind : List Char) :
    quotedBlock ((quotedBlock cs).inside ++ behind) = ⟨(quotedBlock cs).inside, behind, true⟩ := by
  fun_induction quotedBlock cs with
  | case1 => cases h
  | case2 => cases h
  | case3 c rest ih =>
    have := ih h
    simp only [Quoted.inside_prepend, List.cons_append, List.nil_append]
    rw [quotedBlock, this]
    rfl
  | case4 => rfl
  | case5 c rest h1 h2 h3 ih =>
    have hinside := ih h
    have hlong : 3 ≤ (quotedBlock rest).inside.length := length_quotedBlock h
    have happend := quotedBlock_append rest
    simp only [Quoted.inside_prepend, List.cons_append, List.nil_append]
    rw [quotedBlock_cons (ne_backslash h1 h2), hinside]
    · rfl
    -- the closing quotes are still to come, so that the next two characters are the same
    · intro more heq
      match hi : (quotedBlock rest).inside with
      | a :: b :: _ =>
        rw [hi] at happend heq
        cases heq
        exact h3 _ rfl happend.symm
      | [] | [_] => simp [hi] at hlong

/-! ## Marks -/

/-- What holds no blank does not go over what delimits a token. -/
theorem isPrefixOf_append {word : List Char} (hw : ∀ c ∈ word, isSpace c = false)
    (front : List Char) {behind : List Char} (h : Delimits behind) :
    word.isPrefixOf (front ++ behind) = word.isPrefixOf front := by
  induction word generalizing front with
  | nil => rfl
  | cons c word ih =>
    obtain ⟨hc, hw⟩ := List.forall_mem_cons.1 hw
    cases front with
    | cons d front => exact congrArg (c == d && ·) (ih hw front)
    | nil =>
      cases behind with
      | nil => rfl
      | cons b rest =>
        have hb : c ≠ b := by
          rintro rfl
          cases hc.symm.trans (h c rfl)
        simp [List.isPrefixOf, hb]

theorem not_isSpace_of_mem_spelling (mark : Mark) : ∀ c ∈ mark.spelling.toList, isSpace c = false := by
  have hall : mark.spelling.toList.all fun c => isSpace c == false := by cases mark <;> decide
  simpa using hall

/-- The mark that a text begins with is the same without what delimits it. -/
theorem leading?_append (front : List Char) {behind : List Char} (h : Delimits behind) :
    Mark.leading? (front ++ behind) = Mark.leading? front := by
  unfold Mark.leading?
  simp only [isPrefixOf_append (not_isSpace_of_mem_spelling _) front h]

theorem leading?_spelling (mark : Mark) : Mark.leading? mark.spelling.toList = some mark := by
  cases mark <;> rfl

/-! ## Tokens -/

/-- What begins no number does not begin one in front of what delimits it. -/
theorem not_opensNumber {c : Char} {front rest behind : List Char} (hb : Delimits behind)
    (hf : front <+: rest) (hn : ¬(c.isDigit || (c = '.' && rest.head?.any Char.isDigit))) :
    ¬(c.isDigit || (c = '.' && (front ++ behind).head?.any Char.isDigit)) := by
  simp only [Bool.or_eq_true, Bool.and_eq_true, decide_eq_true_eq, not_or, not_and,
    Bool.not_eq_true] at hn ⊢
  exact ⟨hn.1, fun hc => hb.head_append (by decide) hf (hn.2 hc)⟩

/-- A number begins in front of what delimits it as it does before more characters. -/
theorem opensNumber {c : Char} {rest : List Char} (behind : List Char)
    (hn : c.isDigit || (c = '.' && rest.head?.any Char.isDigit)) :
    c.isDigit || (c = '.' &&
      ((splitNumber (if c = '.' then [] else [c]) rest).1 ++ behind).head?.any Char.isDigit) := by
  simp only [Bool.or_eq_true, Bool.and_eq_true, decide_eq_true_eq] at hn ⊢
  refine hn.imp_right fun ⟨hc, hd⟩ => ⟨hc, ?_⟩
  cases rest with
  | nil => cases hd
  | cons d rest =>
    have hw : isWordChar d := by
      simp only [isWordChar, Char.isAlphanum, Bool.or_eq_true]
      exact .inl (.inr hd)
    rw [splitNumber, if_pos hw]
    exact hd

/-- A token without a defect is read from its characters alone, in front of anything that delimits
it. -/
theorem lexeme_delimited {c : Char} {rest : List Char} (hd : (lexeme c rest).defect = none)
    {behind : List Char} (hb : Delimits behind) :
    ∃ more, more <+: rest ∧ (lexeme c rest).chars = c :: more ∧
      lexeme c (more ++ behind) = ⟨(lexeme c rest).kind, c :: more, behind, none⟩ := by
  revert hd
  fun_cases lexeme c rest with
  | case1 rest hc =>
    refine fun _ => ⟨_, List.takeWhile_prefix _, rfl, ?_⟩
    obtain ⟨htake, hdrop⟩ := hb.takeWhile (p := continuesIdentifier) rfl
    have hword := List.all_eq_true.1 (List.all_takeWhile (p := continuesIdentifier) (l := rest))
    unfold lexeme
    rw [if_pos hc, List.takeWhile_append_of_pos hword, List.dropWhile_append_of_pos hword, htake,
      hdrop, List.append_nil]
  | case2 rest hc hn =>
    refine fun _ => ⟨_, ⟨_, splitNumber_append _ rest⟩, rfl, ?_⟩
    unfold lexeme
    rw [if_neg hc, if_pos (opensNumber behind hn), splitNumber_delimited hb]
  | case3 hc hq inside hn =>
    intro hd
    have hclosed : (quotedBlock inside).closed := by
      simpa [quotedLexeme] using hd
    subst hq
    have hpre : '"' :: '"' :: (quotedBlock inside).inside <+: '"' :: '"' :: inside :=
      ⟨_, congrArg ('"' :: '"' :: ·) (quotedBlock_append inside)⟩
    refine ⟨_, hpre, rfl, ?_⟩
    unfold lexeme
    rw [if_neg hc, if_neg (not_opensNumber hb hpre hn), if_pos rfl]
    simp only [List.cons_append, quotedBlock_closed hclosed]
    rfl
  | case4 rest hc hn hq hne =>
    intro hd
    have hclosed : (quotedLine '"' rest).closed := by
      simpa [quotedLexeme] using hd
    subst hq
    have hpre : (quotedLine '"' rest).inside <+: rest := ⟨_, quotedLine_append '"' rest⟩
    refine ⟨_, hpre, rfl, ?_⟩
    unfold lexeme
    rw [if_neg hc, if_neg (not_opensNumber hb hpre hn), if_pos rfl]
    split
    · rename_i heq
      exact absurd heq (quotedLine_ne_opening hb hne _)
    · rw [quotedLine_closed hclosed]
      rfl
  | case5 rest hc hn hq hq' =>
    intro hd
    have hclosed : (quotedLine '\'' rest).closed := by
      simpa [quotedLexeme] using hd
    subst hq'
    have hpre : (quotedLine '\'' rest).inside <+: rest := ⟨_, quotedLine_append '\'' rest⟩
    refine ⟨_, hpre, rfl, ?_⟩
    unfold lexeme
    rw [if_neg hc, if_neg (not_opensNumber hb hpre hn), if_neg hq, if_pos rfl,
      quotedLine_closed hclosed]
    rfl
  | case6 rest hc hn hq hq' mark hm =>
    intro _
    have hpre := List.take_prefix (mark.spelling.toList.length - 1) rest
    have hspelling := spelling_of_leading? hm
    have hleading := leading?_append (c :: rest.take (mark.spelling.toList.length - 1)) hb
    rw [hspelling, leading?_spelling, ← hspelling, List.cons_append] at hleading
    refine ⟨_, hpre, rfl, ?_⟩
    unfold lexeme
    rw [if_neg hc, if_neg (not_opensNumber hb hpre hn), if_neg hq, if_neg hq', hleading]
    have hlength : (rest.take (mark.spelling.toList.length - 1)).length =
        mark.spelling.toList.length - 1 :=
      Nat.eq_sub_of_add_eq (congrArg List.length hspelling)
    dsimp only
    rw [List.take_left' hlength, List.drop_left' hlength]
  | case7 => rintro ⟨⟩

/-- Behind a gap stands no blank and no comment. -/
theorem rest_gap {cs rest : List Char} {c : Char} (h : (gap cs).rest = c :: rest) :
    isSpace c = false ∧ (c = '/' → rest.head?.any (fun d => d == '/' || d == '*') = false) := by
  fun_induction gap cs with
  | case1 => cases h
  | case2 _ ih => exact ih h
  | case3 _ _ _ _ ih => exact ih h
  | case4 => cases h
  | case5 _ _ _ _ _ ih => exact ih h
  | case6 c' rest' hline hcomment hs =>
    cases h
    refine ⟨Bool.eq_false_iff.2 hs, ?_⟩
    rintro rfl
    cases rest with
    | nil => rfl
    | cons d rest =>
      refine Bool.eq_false_iff.2 fun hd => ?_
      simp only [List.head?_cons, Option.any_some, Bool.or_eq_true, beq_iff_eq] at hd
      rcases hd with rfl | rfl
      · exact hline rest rfl rfl
      · exact hcomment rest rfl rfl

/-- A token that stands behind a gap has no gap in front of it where it begins a text. -/
theorem gap_delimited {cs rest front behind : List Char} {c : Char}
    (h : (gap cs).rest = c :: rest) (hf : front <+: rest) (hb : Delimits behind) :
    gap (c :: (front ++ behind)) = ⟨[], c :: (front ++ behind), none⟩ := by
  obtain ⟨hs, hcomment⟩ := rest_gap h
  by_cases hc : c = '/'
  · have hhead := hb.head_append (by decide) hf (hcomment hc)
    subst hc
    refine gap_slash _ fun d hd => ?_
    rw [show (front ++ behind).head? = some d from hd] at hhead
    simpa using hhead
  · exact gap_cons hc hs _

/-! ## Identifiers -/

/-- There is no blank in an identifier. -/
theorem not_isSpace_of_lexeme {c : Char} {rest : List Char}
    (hk : (lexeme c rest).kind = .identifier) :
    ∀ d ∈ (lexeme c rest).chars, isSpace d = false := by
  revert hk
  fun_cases lexeme c rest with
  | case1 rest hc =>
    refine fun _ => List.forall_mem_cons.2 ⟨not_isSpace_of (p := startsIdentifier) rfl hc, ?_⟩
    exact fun d hd => not_isSpace_of (p := continuesIdentifier) rfl
      (List.all_eq_true.1 List.all_takeWhile d hd)
  | case2 | case3 | case4 | case5 | case6 | case7 => rintro ⟨⟩

theorem not_isSpace_of_scanFrom (file : String) (offset : Nat) (cs : List Char) :
    ∀ token ∈ (scanFrom file offset cs).tokens, token.kind = .identifier →
      ∀ c ∈ token.text.toList, isSpace c = false := by
  fun_induction scanFrom file offset cs with
  | case1 => exact fun _ hm => absurd hm List.not_mem_nil
  | case2 offset cs space start unclosed c rest _ found token behind ih =>
    refine List.forall_mem_cons.2 ⟨fun hk => ?_, ih⟩
    rw [String.toList_ofList]
    exact not_isSpace_of_lexeme hk

theorem not_isSpace_of_scan (file source : String) :
    ∀ token ∈ (scan file source).tokens, token.kind = .identifier →
      ∀ c ∈ token.text.toList, isSpace c = false :=
  not_isSpace_of_scanFrom file 0 source.toList

/-! ## Spaced tokens -/

/-- Characters that tokens are written with: the text of each, with blanks between two of them, and
perhaps with blanks in front of the first and behind the last. -/
inductive Spaced : List Token → List Char → Prop
  | nil {blanks : List Char} : (∀ c ∈ blanks, isSpace c) → Spaced [] blanks
  | token {token : Token} {tokens : List Token} {blanks cs : List Char} :
    (∀ c ∈ blanks, isSpace c) → (tokens ≠ [] → ∃ c ∈ cs.head?, isSpace c) → Spaced tokens cs →
    Spaced (token :: tokens) (blanks ++ (token.text.toList ++ cs))

/-- What a token is, wherever it stands. -/
def symbol (token : Token) : TokenKind × String := (token.kind, token.text)

theorem Spaced.delimits {tokens : List Token} {cs : List Char} (h : Spaced tokens cs)
    (hne : tokens ≠ [] → ∃ c ∈ cs.head?, isSpace c) : Delimits cs := by
  intro c hc
  cases h with
  | nil hb => exact hb c (List.mem_of_mem_head? hc)
  | token =>
    obtain ⟨d, hd, hs⟩ := hne (List.cons_ne_nil _ _)
    rwa [Option.mem_unique hc hd]

theorem scanFrom_blanks (file : String) (offset : Nat) {blanks : List Char}
    (h : ∀ c ∈ blanks, isSpace c) (rest : List Char) :
    scanFrom file offset (blanks ++ rest) = scanFrom file (offset + byteCount blanks) rest := by
  induction blanks generalizing offset with
  | nil => rfl
  | cons c blanks ih =>
    obtain ⟨hc, h⟩ := List.forall_mem_cons.1 h
    rw [List.cons_append, scanFrom_blank file offset hc, ih _ h, byteCount_cons, Nat.add_assoc]

/-- What is written with the tokens of a text is scanned as the same tokens, at any place. -/
theorem scanFrom_of_spaced (file other : String) (offset : Nat) (cs : List Char) :
    (scanFrom file offset cs).diagnostics = [] → ∀ text,
      Spaced (scanFrom file offset cs).tokens text → ∀ place,
        (scanFrom other place text).diagnostics = [] ∧
          (scanFrom other place text).tokens.map symbol =
            (scanFrom file offset cs).tokens.map symbol := by
  fun_induction scanFrom file offset cs with
  | case1 =>
    intro _ text h place
    cases h with
    | nil hb =>
      rw [← List.append_nil text, scanFrom_blanks other place hb, scanFrom_end]
      exact ⟨rfl, rfl⟩
  | case2 offset cs space start unclosed c rest hrest found token behind ih =>
    intro hquiet text h place
    simp only [List.append_eq_nil_iff, Option.toList_eq_nil_iff, Option.map_eq_none_iff] at hquiet
    obtain ⟨⟨-, hdefect⟩, hbehind⟩ := hquiet
    cases h with
    | @token _ _ blanks cs' hb hne hspaced =>
      have hdelimits := hspaced.delimits hne
      obtain ⟨more, hpre, hchars, hlex⟩ := lexeme_delimited hdefect hdelimits
      have hgap := gap_delimited hrest hpre hdelimits
      have htext : token.text.toList = c :: more := by
        rw [← hchars, String.toList_ofList]
      rw [scanFrom_blanks other place hb, htext, List.cons_append,
        scanFrom_cons other _ (congrArg Gap.rest hgap), hgap, hlex]
      obtain ⟨hnone, hsame⟩ := ih hbehind cs' hspaced _
      have hsymbol : (found.kind, String.ofList (c :: more)) = symbol token := by
        rw [← hchars]
        rfl
      exact ⟨hnone, List.cons_eq_cons.2 ⟨hsymbol, hsame⟩⟩

/-- The tokens of a text are scanned as they are, whatever blanks are written between them: without
a diagnostic, and with the same kinds and texts. -/
theorem scan_of_spaced (file other : String) {source text : String}
    (hquiet : (scan file source).diagnostics = [])
    (h : Spaced (scan file source).tokens text.toList) :
    (scan other text).diagnostics = [] ∧
      (scan other text).tokens.map symbol = (scan file source).tokens.map symbol :=
  scanFrom_of_spaced file other 0 source.toList hquiet text.toList h 0

/-- Two numbers that touch the sign between them are scanned as they are with room around the sign. -/
theorem scan_of_spaced_sum :
    (scan "Sum.java" "1.+.5").diagnostics = [] ∧
      Spaced (scan "Sum.java" "1.+.5").tokens "\n1. +\t.5 ".toList ∧
      (scan "Room.java" "\n1. +\t.5 ").diagnostics = [] ∧
      (scan "Room.java" "\n1. +\t.5 ").tokens.map symbol =
        (scan "Sum.java" "1.+.5").tokens.map symbol := by
  have hquiet : (scan "Sum.java" "1.+.5").diagnostics = [] := by decide +kernel
  have htokens : (scan "Sum.java" "1.+.5").tokens =
      [⟨.literal .number, 0, 2, "1."⟩, ⟨.mark .plus, 2, 3, "+"⟩, ⟨.literal .number, 3, 5, ".5"⟩] := by
    decide +kernel
  have hspaced : Spaced (scan "Sum.java" "1.+.5").tokens "\n1. +\t.5 ".toList := by
    rw [htokens]
    have hend : Spaced [] [' '] := .nil (by simp [isSpace])
    have hthird : Spaced [⟨.literal .number, 3, 5, ".5"⟩] ['\t', '.', '5', ' '] :=
      .token (show ∀ c ∈ ['\t'], isSpace c by simp [isSpace]) (fun hne => absurd rfl hne) hend
    have hsecond : Spaced [⟨.mark .plus, 2, 3, "+"⟩, ⟨.literal .number, 3, 5, ".5"⟩]
        [' ', '+', '\t', '.', '5', ' '] :=
      .token (show ∀ c ∈ [' '], isSpace c by simp [isSpace]) (fun _ => ⟨'\t', rfl, rfl⟩) hthird
    exact .token (show ∀ c ∈ ['\n'], isSpace c by simp [isSpace]) (fun _ => ⟨' ', rfl, rfl⟩) hsecond
  exact ⟨hquiet, hspaced, scan_of_spaced "Sum.java" "Room.java" hquiet hspaced⟩

end JavaNames.Token
