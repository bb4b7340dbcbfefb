/-
Where string and character literals end. A character is escaped behind an odd number of backslashes.
Main statement: a literal ends with its first quote that is not escaped, or else it has none, ends in
front of a line feed or at the end of the text, and is reported once; no line feed stands in it, except
for one that is escaped.
-/
import JavaNames.Proofs.Token.Single
import JavaNames.Proofs.Token.Spacing

namespace JavaNames.Token

open JavaNames.Text

/-! ## Escapes -/

/-- The number of backslashes at the end of some characters. -/
def backslashes (cs : List Char) : Nat := (cs.reverse.takeWhile (· = '\\')).length

/-- What stands behind these characters is escaped. -/
def Escapes (cs : List Char) : Prop := backslashes cs % 2 = 1

/-- A character stands among others and is not escaped. -/
def Unescaped (c : Char) (cs : List Char) : Prop :=
  ∃ front behind, cs = front ++ c :: behind ∧ ¬Escapes front

theorem not_escapes_nil : ¬Escapes [] := by
  unfold Escapes backslashes
  simp

theorem escapes_backslash : Escapes ['\\'] := by
  unfold Escapes backslashes
  simp

theorem backslashes_le (cs : List Char) : backslashes cs ≤ cs.length := by
  have := (List.takeWhile_sublist (· = '\\') (l := cs.reverse)).length_le
  rwa [List.length_reverse] at this

/-- A backslash in front of others counts where there is nothing else between it and the end. -/
theorem backslashes_cons (c : Char) (cs : List Char) :
    backslashes (c :: cs) =
      backslashes cs + if c = '\\' ∧ backslashes cs = cs.length then 1 else 0 := by
  unfold backslashes
  rw [List.reverse_cons, List.takeWhile_append, List.length_reverse]
  by_cases hall : (cs.reverse.takeWhile (· = '\\')).length = cs.length
  · have hsame : cs.reverse.takeWhile (· = '\\') = cs.reverse := by
      apply (List.takeWhile_prefix _).eq_of_length
      rw [hall, List.length_reverse]
    by_cases hc : c = '\\' <;> simp [hc, hsame]
  · simp [hall]

/-- A character other than a backslash changes nothing for what stands behind it. -/
theorem escapes_cons {c : Char} (hc : c ≠ '\\') (cs : List Char) :
    Escapes (c :: cs) ↔ Escapes cs := by
  unfold Escapes
  simp [backslashes_cons, hc]

/-- Behind a backslash and the character that it escapes it is as at the start. -/
theorem escapes_pair (c : Char) (cs : List Char) : Escapes ('\\' :: c :: cs) ↔ Escapes cs := by
  have hle := backslashes_le cs
  unfold Escapes
  rw [backslashes_cons, backslashes_cons, List.length_cons]
  -- the first of the two counts only where the second does
  by_cases hc : c = '\\' ∧ backslashes cs = cs.length
  · rw [if_pos hc, if_pos ⟨rfl, by omega⟩]
    omega
  · rw [if_neg hc, if_neg (by omega)]
    simp

theorem not_unescaped_nil (c : Char) : ¬Unescaped c [] := by
  rintro ⟨front, behind, hcs, -⟩
  simp at hcs

theorem unescaped_cons {c d : Char} (hd : d ≠ '\\') (cs : List Char) :
    Unescaped c (d :: cs) ↔ d = c ∨ Unescaped c cs := by
  constructor
  · rintro ⟨front, behind, hcs, hfront⟩
    cases front with
    | nil => exact .inl (List.cons.inj hcs).1
    | cons e front =>
      obtain ⟨rfl, rfl⟩ := List.cons.inj hcs
      exact .inr ⟨front, behind, rfl, mt (escapes_cons hd front).2 hfront⟩
  · rintro (rfl | ⟨front, behind, rfl, hfront⟩)
    · exact ⟨[], cs, rfl, not_escapes_nil⟩
    · exact ⟨d :: front, behind, rfl, mt (escapes_cons hd front).1 hfront⟩

theorem unescaped_pair {c : Char} (hc : c ≠ '\\') (d : Char) (cs : List Char) :
    Unescaped c ('\\' :: d :: cs) ↔ Unescaped c cs := by
  constructor
  · rintro ⟨front, behind, hcs, hfront⟩
    match front with
    | [] => exact absurd (List.cons.inj hcs).1.symm hc
    | [e] =>
      obtain rfl := (List.cons.inj hcs).1
      exact absurd escapes_backslash hfront
    | e :: e' :: front =>
      simp only [List.cons_append, List.cons.injEq] at hcs
      obtain ⟨rfl, rfl, rfl⟩ := hcs
      exact ⟨front, behind, rfl, mt (escapes_pair d front).2 hfront⟩
  · rintro ⟨front, behind, rfl, hfront⟩
    exact ⟨'\\' :: d :: front, behind, rfl, mt (escapes_pair d front).1 hfront⟩

theorem not_unescaped_backslash {c : Char} (hc : c ≠ '\\') : ¬Unescaped c ['\\'] := by
  rintro ⟨front, behind, hcs, -⟩
  obtain ⟨-, rfl, -⟩ : front = [] ∧ c = '\\' ∧ behind = [] := by
    simpa [List.append_eq_singleton_iff] using hcs.symm
  exact hc rfl

/-! ## The end of a literal -/

/-- No line feed stands in a literal that is not escaped. -/
theorem not_unescaped_lineFeed (quote : Char) (cs : List Char) :
    ¬Unescaped '\n' (quotedLine quote cs).inside := by
  fun_induction quotedLine quote cs with
  | case1 => exact not_unescaped_nil '\n'
  | case2 => exact not_unescaped_backslash (by decide)
  | case3 c rest ih => exact mt (unescaped_pair (by decide : '\n' ≠ '\\') c _).1 ih
  | case4 => exact not_unescaped_nil '\n'
  | case5 rest h1 h2 hn =>
    rw [unescaped_cons (ne_backslash h1 h2)]
    exact fun h => h.elim hn (not_unescaped_nil '\n')
  | case6 c rest h1 h2 hn _ ih =>
    change ¬Unescaped '\n' (c :: (quotedLine quote rest).inside)
    rw [unescaped_cons (ne_backslash h1 h2)]
    exact fun h => h.elim hn ih

/-- A literal is closed by its first quote that is not escaped. -/
theorem exists_of_closed {quote : Char} (hb : quote ≠ '\\') {cs : List Char}
    (h : (quotedLine quote cs).closed) :
    ∃ body, (quotedLine quote cs).inside = body ++ [quote] ∧ ¬Escapes body ∧
      ¬Unescaped quote body := by
  fun_induction quotedLine quote cs with
  | case1 => cases h
  | case2 => cases h
  | case3 c rest ih =>
    obtain ⟨body, hbody, he, hu⟩ := ih h
    refine ⟨'\\' :: c :: body, ?_, mt (escapes_pair c body).1 he, mt (unescaped_pair hb c body).1 hu⟩
    rw [Quoted.inside_prepend, hbody]
    rfl
  | case4 => cases h
  | case5 => exact ⟨[], rfl, not_escapes_nil, not_unescaped_nil quote⟩
  | case6 c rest h1 h2 _ hne ih =>
    have hc := ne_backslash h1 h2
    obtain ⟨body, hbody, he, hu⟩ := ih h
    refine ⟨c :: body, ?_, mt (escapes_cons hc body).1 he, ?_⟩
    · rw [Quoted.inside_prepend, hbody]
      rfl
    · rw [unescaped_cons hc]
      exact fun h => h.elim hne hu

/-- A literal that is not closed has no quote that is not escaped. It ends in front of a line feed or
with the text. -/
theorem ending_of_not_closed {quote : Char} (hb : quote ≠ '\\') {cs : List Char}
    (h : ¬(quotedLine quote cs).closed) :
    ¬Unescaped quote (quotedLine quote cs).inside ∧
      ∀ c ∈ (quotedLine quote cs).rest.head?, c = '\n' := by
  fun_induction quotedLine quote cs with
  | case1 => exact ⟨not_unescaped_nil quote, by simp⟩
  | case2 => exact ⟨not_unescaped_backslash hb, by simp⟩
  | case3 c rest ih =>
    obtain ⟨hu, hend⟩ := ih h
    exact ⟨mt (unescaped_pair hb c _).1 hu, hend⟩
  | case4 => exact ⟨not_unescaped_nil quote, by simp⟩
  | case5 => exact absurd rfl h
  | case6 c rest h1 h2 _ hne ih =>
    obtain ⟨hu, hend⟩ := ih h
    refine ⟨?_, hend⟩
    change ¬Unescaped quote (c :: (quotedLine quote rest).inside)
    rw [unescaped_cons (ne_backslash h1 h2)]
    exact fun h => h.elim hne hu

/-! ## Literals in a text -/

/-- The quote of a literal that should end on its line, and what messages call the literal. -/
def quoting? : LiteralKind → Option (Char × String)
  | .string => some ('"', "string")
  | .character => some ('\'', "character")
  | .number | .textBlock => none

/-- What is read as a literal in quotes begins with the quote. -/
theorem lexeme_of_quoting? {c : Char} {rest : List Char} {kind : LiteralKind} {quote : Char}
    {what : String} (hk : (lexeme c rest).kind = .literal kind)
    (hq : quoting? kind = some (quote, what)) :
    c = quote ∧ lexeme c rest = quotedLexeme kind what [quote] (quotedLine quote rest) := by
  revert hk
  fun_cases lexeme c rest with
  | case1 _ word =>
    intro hk
    unfold wordKind at hk
    split at hk <;> cases hk
  | case2 | case3 =>
    intro hk
    cases hk
    cases hq
  | case4 _ _ _ hc =>
    intro hk
    cases hk
    cases hq
    exact ⟨hc, rfl⟩
  | case5 _ _ _ _ hc =>
    intro hk
    cases hk
    cases hq
    exact ⟨hc, rfl⟩
  | case6 | case7 =>
    intro hk
    cases hk

/-- A string or character literal of a text ends with its first quote that is not escaped, and then
nothing is said about it. Or else no such quote stands in it, it ends in front of a line feed or with
the text, and the one diagnostic that starts at it spans it. No line feed stands in it that is not
escaped. -/
theorem quoted_scan {file source : String} {token : Token}
    (ht : token ∈ (scan file source).tokens) {kind : LiteralKind} {quote : Char} {what : String}
    (hk : token.kind = .literal kind) (hq : quoting? kind = some (quote, what)) :
    ∃ before inside behind, source.toList = before ++ quote :: (inside ++ behind) ∧
      token.start = byteCount before ∧ token.stop = token.start + byteCount (quote :: inside) ∧
      token.text = String.ofList (quote :: inside) ∧
      ¬Unescaped '\n' inside ∧
      ((∃ body, inside = body ++ [quote] ∧ ¬Escapes body ∧ ¬Unescaped quote body ∧
          ∀ diagnostic ∈ (scan file source).diagnostics, diagnostic.start ≠ token.start) ∨
        (¬Unescaped quote inside ∧ (∀ c ∈ behind.head?, c = '\n') ∧
          (scan file source).diagnostics.filter (·.start = token.start) =
            [.ofRule .unterminatedLiteral file token.start (token.stop - token.start) [what]])) := by
  have hb : quote ≠ '\\' := by
    rintro rfl
    cases kind <;> cases hq
  obtain ⟨before, c, rest, hsource, htoken, htold, -⟩ :=
    exists_lexeme_scanFrom file 0 source.toList token ht
  obtain ⟨rfl, hfound⟩ := lexeme_of_quoting? (by rw [← hk, htoken]; rfl) hq
  rw [hfound] at htoken htold
  refine ⟨before, (quotedLine c rest).inside, (quotedLine c rest).rest, ?_, ?_, ?_, ?_,
    not_unescaped_lineFeed c rest, ?_⟩
  · rw [quotedLine_append, hsource]
  · rw [htoken]
    exact Nat.zero_add _
  · rw [htoken]
    rfl
  · rw [htoken]
    rfl
  by_cases hclosed : (quotedLine c rest).closed
  · left
    obtain ⟨body, hbody, he, hu⟩ := exists_of_closed hb hclosed
    have hnone : (quotedLexeme kind what [c] (quotedLine c rest)).defect = none := if_pos hclosed
    rw [hnone] at htold
    refine ⟨body, hbody, he, hu, fun diagnostic hd hstart => ?_⟩
    exact List.filter_eq_nil_iff.1 htold diagnostic hd (decide_eq_true hstart)
  · right
    obtain ⟨hu, hend⟩ := ending_of_not_closed hb hclosed
    have hsome : (quotedLexeme kind what [c] (quotedLine c rest)).defect = some (.unterminated what) :=
      if_neg hclosed
    rw [hsome] at htold
    exact ⟨hu, hend, htold⟩

/-- A character literal that the line does not close, behind a string with an escaped quote. -/
theorem quoted_scan_character :
    ⟨.literal .character, 4, 6, "'x"⟩ ∈ (scan "A.java" "\"\\\"\"'x\n'").tokens ∧
      ∃ before inside behind,
        "\"\\\"\"'x\n'".toList = before ++ '\'' :: (inside ++ behind) ∧
        4 = byteCount before ∧ 6 = 4 + byteCount ('\'' :: inside) ∧
        "'x" = String.ofList ('\'' :: inside) ∧ ¬Unescaped '\n' inside ∧
        ((∃ body, inside = body ++ ['\''] ∧ ¬Escapes body ∧ ¬Unescaped '\'' body ∧
            ∀ diagnostic ∈ (scan "A.java" "\"\\\"\"'x\n'").diagnostics, diagnostic.start ≠ 4) ∨
          (¬Unescaped '\'' inside ∧ (∀ c ∈ behind.head?, c = '\n') ∧
            (scan "A.java" "\"\\\"\"'x\n'").diagnostics.filter (·.start = 4) =
              [.ofRule .unterminatedLiteral "A.java" 4 (6 - 4) ["character"]])) := by
  have hmem : ⟨.literal .character, 4, 6, "'x"⟩ ∈ (scan "A.java" "\"\\\"\"'x\n'").tokens := by
    decide +kernel
  exact ⟨hmem, quoted_scan hmem rfl rfl⟩

/-- A line feed behind a backslash does not end a string: the next line is read as part of it. -/
theorem lineFeed_mem_string :
    ∃ token ∈ (scan "A.java" "\"a\\\nb\"").tokens,
      token.kind = .literal .string ∧ '\n' ∈ token.text.toList := by
  have htokens : (scan "A.java" "\"a\\\nb\"").tokens =
      [⟨.literal .string, 0, 6, "\"a\\\nb\""⟩] := by
    decide +kernel
  rw [htokens]
  exact ⟨_, List.mem_singleton_self _, rfl, by decide⟩

end JavaNames.Token
