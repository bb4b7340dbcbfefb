/-
The tokens of a text tile it. Between two of them stands nothing but blanks and whole comments; only
the last comment of a text may lack its end, and then it is reported. With the end of the file as the last
one, the tokens of a text cover it from its start to its end, each on whole characters, and a keyword or a
mark with the characters that it is written with.
-/
import JavaNames.Proofs.Token.Order
import JavaNames.Proofs.Token.Step

namespace JavaNames

namespace TokenKind

/-- Whether every token of a kind is written alike. -/
def isFixed : TokenKind → Bool
  | mark _ | keyword _ => true
  | _ => false

end TokenKind

namespace Token

open JavaNames.Text

/-! ## What stands between tokens -/

/-- What ends a comment that may go over several lines. -/
abbrev closing : List Char := ['*', '/']

/-- Blanks and whole comments: one with its line feed, or one with the first closing behind it. -/
inductive Trivia : List Char → Prop
  | nil : Trivia []
  | blank {c : Char} {cs : List Char} : isSpace c → Trivia cs → Trivia (c :: cs)
  | line {inside cs : List Char} : '\n' ∉ inside → Trivia cs →
    Trivia ('/' :: '/' :: (inside ++ '\n' :: cs))
  | comment {inside cs : List Char} : ¬closing <:+: inside ++ ['*'] → Trivia cs →
    Trivia ('/' :: '*' :: (inside ++ closing ++ cs))

/-- What may stand between the last token and the end of a text, and the comment in it that nothing
closes. -/
inductive Ending : List Char → Option (List Char) → Prop
  | whole {cs : List Char} : Trivia cs → Ending cs none
  | line {cs inside : List Char} : Trivia cs → '\n' ∉ inside →
    Ending (cs ++ '/' :: '/' :: inside) none
  | comment {cs inside : List Char} : Trivia cs → ¬closing <:+: inside →
    Ending (cs ++ '/' :: '*' :: inside) (some ('/' :: '*' :: inside))

namespace Trivia

theorem append {cs others : List Char} (h : Trivia cs) (ho : Trivia others) :
    Trivia (cs ++ others) := by
  induction h with
  | nil => exact ho
  | blank hc _ ih => exact .blank hc ih
  | line hi _ ih => simpa using ih.line hi
  | comment hi _ ih => simpa using ih.comment hi

theorem ending {cs others : List Char} {unclosed : Option (List Char)} (h : Trivia cs)
    (he : Ending others unclosed) : Ending (cs ++ others) unclosed := by
  cases he with
  | whole ho => exact .whole (h.append ho)
  | line ho hi =>
    rw [← List.append_assoc]
    exact .line (h.append ho) hi
  | comment ho hi =>
    rw [← List.append_assoc]
    exact .comment (h.append ho) hi

end Trivia

/-! ## Gaps -/

/-- A line ends with its line feed or with the text. -/
theorem splitLine_cases (cs : List Char) :
    (∃ inside, '\n' ∉ inside ∧ (splitLine cs).1 = inside ++ ['\n']) ∨
      '\n' ∉ (splitLine cs).1 ∧ (splitLine cs).2 = [] := by
  fun_induction splitLine cs with
  | case1 => exact .inr ⟨List.not_mem_nil, rfl⟩
  | case2 rest => exact .inl ⟨[], List.not_mem_nil, rfl⟩
  | case3 c rest hc ih =>
    rcases ih with ⟨inside, hi, hline⟩ | ⟨hi, hrest⟩
    · exact .inl ⟨c :: inside, by simpa [hi] using Ne.symm hc, by rw [hline]; rfl⟩
    · exact .inr ⟨by simpa [hi] using Ne.symm hc, hrest⟩

theorem not_closing_of_splitComment? {cs : List Char} (h : splitComment? cs = none) :
    ¬closing <:+: cs := by
  fun_induction splitComment? cs with
  | case1 => simp
  | case2 => cases h
  | case3 c rest hne ih =>
    rw [List.infix_cons_iff]
    rintro (hc | hc)
    · obtain ⟨more, hmore⟩ := hc
      obtain ⟨rfl, rfl⟩ := List.cons.inj hmore
      exact hne _ rfl rfl
    · exact ih (Option.map_eq_none_iff.1 h) hc

/-- A comment ends with the first closing in it. -/
theorem exists_of_splitComment? {cs inside behind : List Char}
    (h : splitComment? cs = some (inside, behind)) :
    ∃ body, inside = body ++ closing ∧ ¬closing <:+: body ++ ['*'] := by
  fun_induction splitComment? cs generalizing inside behind with
  | case1 => cases h
  | case2 rest =>
    cases h
    exact ⟨[], rfl, by simp [List.infix_cons_iff]⟩
  | case3 c rest hne ih =>
    obtain ⟨⟨more, behind'⟩, hmore, he⟩ := Option.map_eq_some_iff.1 h
    cases he
    obtain ⟨body, rfl, hbody⟩ := ih hmore
    refine ⟨c :: body, rfl, ?_⟩
    have hrest := append_of_splitComment? hmore
    rw [List.cons_append, List.infix_cons_iff]
    rintro (hc | hc)
    · cases body with
      | nil => simp at hc
      | cons d body =>
        obtain ⟨more, hmore⟩ := hc
        cases hmore
        exact hne _ rfl (by rw [← hrest]; rfl)
    · exact hbody hc

/-- In front of a token nothing but blanks and whole comments is skipped. -/
theorem trivia_gap {cs : List Char} (h : (gap cs).rest ≠ []) :
    Trivia (gap cs).skipped ∧ (gap cs).unclosed = none := by
  fun_induction gap cs with
  | case1 => exact absurd rfl h
  | case2 rest ih =>
    obtain ⟨ht, hu⟩ := ih h
    refine ⟨?_, hu⟩
    rcases splitLine_cases rest with ⟨inside, hi, hline⟩ | ⟨-, hnil⟩
    · rw [Gap.skipped_prepend, hline]
      simpa using ht.line hi
    · refine absurd ?_ h
      rw [Gap.rest_prepend, hnil, gap]
  | case3 rest inside behind hs ih =>
    obtain ⟨ht, hu⟩ := ih h
    obtain ⟨body, rfl, hbody⟩ := exists_of_splitComment? hs
    exact ⟨ht.comment hbody, hu⟩
  | case4 rest hs => exact absurd rfl h
  | case5 c rest _ _ hc ih =>
    obtain ⟨ht, hu⟩ := ih h
    exact ⟨ht.blank hc, hu⟩
  | case6 c rest _ _ hc => exact ⟨.nil, rfl⟩

/-- Behind the last token a comment may lack its end. -/
theorem ending_gap {cs : List Char} (h : (gap cs).rest = []) :
    Ending (gap cs).skipped (gap cs).unclosed := by
  fun_induction gap cs with
  | case1 => exact .whole .nil
  | case2 rest ih =>
    rcases splitLine_cases rest with ⟨inside, hi, hline⟩ | ⟨hi, hnil⟩
    · have hwhole := (Trivia.nil.line hi).ending (ih h)
      rw [Gap.skipped_prepend, hline]
      simpa using hwhole
    · have hline := Trivia.nil.ending (.line .nil hi)
      rw [hnil, gap, Gap.skipped_prepend, List.append_nil]
      simpa using hline
  | case3 rest inside behind hs ih =>
    obtain ⟨body, rfl, hbody⟩ := exists_of_splitComment? hs
    have hwhole := (Trivia.nil.comment hbody).ending (ih h)
    simpa using hwhole
  | case4 rest hs => exact .comment .nil (not_closing_of_splitComment? hs)
  | case5 c rest _ _ hc ih => exact (Trivia.nil.blank hc).ending (ih h)
  | case6 => cases h

/-! ## Fixed spellings -/

/-- A word that is a keyword is written as the keyword is. -/
theorem text_wordKind {word : String} (h : (wordKind word).isFixed) :
    word = (wordKind word).text := by
  unfold wordKind at h ⊢
  split at h
  · rename_i keyword hk
    exact (Keyword.spelling_of_ofText? hk).symm
  · cases h

/-- A keyword and a mark are written in one way. -/
theorem text_lexeme {c : Char} {rest : List Char} (h : (lexeme c rest).kind.isFixed) :
    String.ofList (lexeme c rest).chars = (lexeme c rest).kind.text := by
  revert h
  fun_cases lexeme c rest with
  | case1 hc word => exact fun h => text_wordKind h
  | case6 _ _ _ _ _ mark hm =>
    exact fun _ => (congrArg String.ofList (spelling_of_leading? hm)).trans String.ofList_toList
  | _ => rintro ⟨⟩

/-! ## Tilings -/

/-- Tokens cover the characters that stand at an offset: before each there are blanks and whole
comments, and the end of the file comes last. -/
inductive Tiles : Nat → List Char → List Token → Option (List Char) → Prop
  | last {offset : Nat} {cs : List Char} {unclosed : Option (List Char)} : Ending cs unclosed →
    Tiles offset cs [.endOfFile (offset + byteCount cs)] unclosed
  | token {offset : Nat} {space chars behind : List Char} {token : Token} {rest : List Token}
    {unclosed : Option (List Char)} : Trivia space → chars ≠ [] → token.kind ≠ .endOfFile →
    token.start = offset + byteCount space → token.stop = token.start + byteCount chars →
    token.text = String.ofList chars → (token.kind.isFixed → token.text = token.kind.text) →
    Tiles token.stop behind rest unclosed →
    Tiles offset (space ++ (chars ++ behind)) (token :: rest) unclosed

/-- A token stands in a text: it starts and stops between two characters, and its text is what stands
there. -/
structure StandsIn (source : String) (token : Token) : Prop where
  start : String.Pos.Raw.IsValid source ⟨token.start⟩
  stop : String.Pos.Raw.IsValid source ⟨token.stop⟩
  text : slice? source token.start token.stop = some token.text

theorem Tiles.standsIn {offset : Nat} {cs : List Char} {tokens : List Token}
    {unclosed : Option (List Char)} (h : Tiles offset cs tokens unclosed) {before : List Char}
    (ho : offset = byteCount before) :
    ∀ token ∈ tokens, token.StandsIn (String.ofList (before ++ cs)) := by
  induction h generalizing before with
  | @last offset cs unclosed he =>
    intro token ht
    rw [List.mem_singleton.1 ht, ho, endOfFile, ← byteCount_append]
    have hvalid := isValid_byteCount (before ++ cs) []
    have hslice := slice?_append (before ++ cs) [] []
    simp only [List.append_nil, byteCount_nil, Nat.add_zero] at hvalid hslice
    exact ⟨hvalid, hvalid, hslice⟩
  | @token offset space chars behind token rest unclosed _ _ _ hstart hstop htext _ _ ih =>
    have hs : token.start = byteCount (before ++ space) := by
      rw [hstart, ho, byteCount_append]
    have ht : token.stop = byteCount (before ++ space ++ chars) := by
      rw [hstop, hs, ← byteCount_append]
    have hall : before ++ (space ++ (chars ++ behind)) = before ++ space ++ chars ++ behind := by
      simp only [List.append_assoc]
    rw [hall]
    refine List.forall_mem_cons.2 ⟨⟨?_, ?_, ?_⟩, ih ht⟩
    · rw [hs, List.append_assoc]
      exact isValid_byteCount _ _
    · rw [ht]
      exact isValid_byteCount _ _
    · rw [hstop, hs, htext]
      exact slice?_append _ _ _

/-- What is scanned tiles the characters, and a comment without an end is reported. -/
theorem exists_tiles_scanFrom (file : String) (offset : Nat) (cs : List Char) :
    ∃ unclosed, Tiles offset cs
        ((scanFrom file offset cs).tokens ++ [.endOfFile (offset + byteCount cs)]) unclosed ∧
      ∀ comment ∈ unclosed, unclosedComment file (offset + byteCount cs) comment ∈
        (scanFrom file offset cs).diagnostics := by
  fun_induction scanFrom file offset cs with
  | case1 offset cs space start unclosed hrest =>
    have hskipped : (gap cs).skipped = cs := by
      rw [← List.append_nil (gap cs).skipped, ← show (gap cs).rest = [] from hrest, gap_append]
    have hending := ending_gap hrest
    rw [hskipped] at hending
    refine ⟨_, .last hending, fun comment hcomment => ?_⟩
    have hunclosed : space.unclosed = some comment := hcomment
    simp [unclosed, hunclosed, start, space, hskipped]
  | case2 offset cs space start unclosed c rest hrest found token behind ih =>
    have hcs : cs = space.skipped ++ (found.chars ++ found.rest) := by
      rw [lexeme_append, ← hrest, gap_append]
    have hstop : token.stop + byteCount found.rest = offset + byteCount cs := by
      rw [hcs, byteCount_append, byteCount_append]
      simp only [token, start]
      omega
    obtain ⟨unclosed', htiles, hreported⟩ := ih
    have hspace : (gap cs).rest ≠ [] := by
      rw [show (gap cs).rest = c :: rest from hrest]
      exact List.cons_ne_nil _ _
    obtain ⟨htrivia, -⟩ := trivia_gap hspace
    rw [hstop] at htiles hreported
    refine ⟨unclosed', ?_, fun comment hc => List.mem_append_right _ (hreported comment hc)⟩
    have htoken : Tiles offset (space.skipped ++ (found.chars ++ found.rest))
        (token :: (behind.tokens ++ [.endOfFile (offset + byteCount cs)])) unclosed' :=
      .token htrivia (chars_lexeme_ne_nil c rest) (kind_lexeme_ne c rest) rfl rfl rfl text_lexeme
        htiles
    exact (congrArg (Tiles offset · _ _) hcs).mpr htoken

/-- The tokens of a text and the end of the file tile the text, and a comment without an end is
reported. -/
theorem exists_tiles_scan (file source : String) :
    ∃ unclosed, Tiles 0 source.toList
        ((scan file source).tokens ++ [.endOfFile source.utf8ByteSize]) unclosed ∧
      ∀ comment ∈ unclosed,
        unclosedComment file source.utf8ByteSize comment ∈ (scan file source).diagnostics := by
  have hsize : 0 + byteCount source.toList = source.utf8ByteSize := by
    rw [Nat.zero_add, ← utf8ByteSize_ofList, String.ofList_toList]
  have htiles := exists_tiles_scanFrom file 0 source.toList
  rwa [hsize] at htiles

/-- The tokens of a text and its end stand in it. -/
theorem standsIn_scan_end (file source : String) :
    ∀ token ∈ (scan file source).tokens ++ [.endOfFile source.utf8ByteSize],
      token.StandsIn source := by
  obtain ⟨unclosed, htiles, -⟩ := exists_tiles_scan file source
  have hstands := htiles.standsIn (show 0 = byteCount [] from rfl)
  rwa [List.nil_append, String.ofList_toList] at hstands

theorem standsIn_scan (file source : String) :
    ∀ token ∈ (scan file source).tokens, token.StandsIn source :=
  fun token ht => standsIn_scan_end file source token (List.mem_append_left _ ht)

end Token

end JavaNames
