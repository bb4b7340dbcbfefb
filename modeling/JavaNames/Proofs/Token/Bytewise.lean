/-
The byte scanner reads what the reader of characters reads. From a place between two characters it takes
the same token, stops behind it and reports the same. A number looks back from its start, which does no
harm: no digit stands directly behind a token that ends with a word character. Main statement: a text below
the limit of a word is scanned byte by byte to its end, and its tokens tile it.
-/
import JavaNames.Proofs.Token.Passing
import JavaNames.Proofs.Token.Tiling

namespace JavaNames.Token

open JavaNames.Text

namespace Bytewise

/-- What the reading of a token comes to. -/
def passedLexeme (file : String) (offset : Nat) (found : Lexeme) : TokenKind × Passed :=
  let stop := offset + byteCount found.chars
  let token : Token := ⟨found.kind, offset, stop, String.ofList found.chars⟩
  (found.kind, ⟨stop, (found.defect.map (defectDiagnostic file token)).toList⟩)

namespace Cut

variable {source : String} {before cs rest inside : List Char} {c : Char} {offset : Nat}

/-! ## One token -/

theorem continuesIdentifier_of_starts {c : Char} (hc : startsIdentifier c) : continuesIdentifier c := by
  unfold startsIdentifier at hc
  unfold continuesIdentifier
  split at hc
  · rw [if_pos ‹_›]
    simp only [Char.isAlphanum, Bool.or_eq_true, decide_eq_true_eq] at hc ⊢
    tauto
  · rw [if_neg ‹_›, hc, Bool.true_or]

theorem word? (file : String) (hc : startsIdentifier c) (h : Cut source before (c :: rest) offset) :
    Bytewise.word? source offset = some (passedLexeme file offset (lexeme c rest)) := by
  have hword : (c :: rest).takeWhile continuesIdentifier = c :: rest.takeWhile continuesIdentifier :=
    List.takeWhile_cons_of_pos (continuesIdentifier_of_starts hc)
  have hsplit : Cut source before ((c :: rest).takeWhile continuesIdentifier ++
      (c :: rest).dropWhile continuesIdentifier) offset := by
    rwa [List.takeWhile_append_dropWhile]
  rw [Bytewise.word?, h.wordStop?, lexeme.eq_def, if_pos hc]
  dsimp only [Option.bind_eq_bind, Option.bind_some]
  rw [hsplit.slice?, hword]
  rfl

theorem number? (hdigit : c.isDigit || (c = '.' && rest.head?.any Char.isDigit))
    (hedge : c.isDigit → Edge before) (h : Cut source before (c :: rest) offset) :
    Bytewise.numberStop? source offset =
      some (offset + byteCount (c :: (splitNumber (if c = '.' then [] else [c]) rest).1)) := by
  by_cases hpoint : c = '.'
  · subst hpoint
    have hrest : ¬rest.head?.any Char.isAlpha := by
      rw [Bool.or_eq_true, Bool.and_eq_true, Option.any_eq_true] at hdigit
      rcases hdigit with hdigit | ⟨-, d, hd, hdigit⟩
      · cases hdigit
      · rw [hd, Option.any_some, not_isAlpha_of_isDigit hdigit]
        exact Bool.false_ne_true
    obtain ⟨front, run, rfl, hrun⟩ := exists_run before
    have hnumber : splitNumber run ('.' :: rest) =
        ('.' :: (splitNumber [] rest).1, (splitNumber [] rest).2) := by
      rw [splitNumber, if_neg (by decide), if_pos (by simp [hrest])]
    rw [h.numberStop? hrun, hnumber, if_pos rfl]
  · have hc : c.isDigit := by simpa [hpoint] using hdigit
    have hword : isWordChar c := by simp [isWordChar, Char.isAlphanum, hc]
    have hcut : Cut source (before ++ [].reverse) (c :: rest) offset := by
      rwa [List.reverse_nil, List.append_nil]
    rw [hcut.numberStop? ⟨List.forall_mem_nil _, hedge hc⟩, splitNumber, if_pos hword, if_neg hpoint]

/-- A quoted literal stops where the reading of it does, but not beyond the end of the text. -/
theorem quotedPassed (file what : String) (kind : LiteralKind) (hsize : source.utf8ByteSize < UInt32.size)
    {opening : List Char} {quoted : Quoted} {reached : Nat × Bool} (hopening : 0 < byteCount opening)
    (h : Reaches source (offset + byteCount opening) quoted reached) :
    (TokenKind.literal kind, Bytewise.quotedPassed file source what offset reached) =
      passedLexeme file offset (quotedLexeme kind what opening quoted) := by
  obtain ⟨stop, closed⟩ := reached
  obtain ⟨rfl, hstop, hinside⟩ := h
  have hcount : offset + byteCount (opening ++ quoted.inside) =
      offset + byteCount opening + byteCount quoted.inside := by
    rw [byteCount_append, Nat.add_assoc]
  rw [passedLexeme]
  dsimp only [quotedLexeme] at hstop hinside ⊢
  rw [hcount]
  cases hclosed : quoted.closed with
  | true =>
    rw [Nat.min_eq_left (hinside hclosed)] at hstop
    rw [Bytewise.quotedPassed, hstop]
    rfl
  | false =>
    have hle : offset + byteCount opening + byteCount quoted.inside < UInt32.size :=
      hstop ▸ Nat.lt_of_le_of_lt (Nat.min_le_right _ _) hsize
    rw [Bytewise.quotedPassed, hstop, failure_of_lt (by omega) hle]
    rfl

theorem byteCount_of_isAscii (hcs : cs.all isAscii) : byteCount cs = cs.length := by
  induction cs with
  | nil => rfl
  | cons c cs ih =>
    rw [List.all_cons, Bool.and_eq_true] at hcs
    rw [byteCount_cons, utf8Size_of_isAscii hcs.1, ih hcs.2, List.length_cons, Nat.add_comm]

theorem isAscii_spelling (mark : Mark) : mark.spelling.toList.all isAscii := by
  cases mark <;> rfl

/-- A character that starts nothing is one unknown token. -/
theorem unknown (file : String) (hsize : source.utf8ByteSize < UInt32.size)
    (h : Cut source before (c :: rest) offset) :
    (TokenKind.unknown, Passed.mk (offset + c.utf8Size)
        [failure file .unexpectedToken offset (offset + c.utf8Size) [c.toString]]) =
      passedLexeme file offset ⟨.unknown, [c], rest, some .unexpected⟩ := by
  have hstop := Nat.lt_of_le_of_lt h.cons.le_size hsize
  rw [failure_of_lt (Nat.lt_add_of_pos_right c.utf8Size_pos) hstop]
  rfl

theorem mark (file : String) (hsize : source.utf8ByteSize < UInt32.size) (hc : isAscii c)
    (h : Cut source before (c :: rest) offset) :
    Bytewise.mark file source c offset = passedLexeme file offset
      (match Mark.leading? (c :: rest) with
      | some mark =>
        let length := mark.spelling.toList.length - 1
        ⟨.mark mark, c :: rest.take length, rest.drop length, none⟩
      | none => ⟨.unknown, [c], rest, some .unexpected⟩) := by
  have hfind : (Mark.all.find? fun mark => Bytewise.standsAt source mark.spelling.toList offset) =
      Mark.leading? (c :: rest) :=
    congrArg Mark.all.find? (funext fun mark => h.standsAt (isAscii_spelling mark))
  rw [Bytewise.mark, hfind]
  cases hmark : Mark.leading? (c :: rest) with
  | some mark =>
    dsimp only
    rw [passedLexeme]
    dsimp only
    rw [spelling_of_leading? hmark, byteCount_of_isAscii (isAscii_spelling mark)]
    rfl
  | none =>
    dsimp only
    rw [← h.unknown file hsize, utf8Size_of_isAscii hc]

/-- No mark begins with a character beyond ASCII. -/
theorem leading?_foreign (hc : isAscii c = false) : Mark.leading? (c :: rest) = none := by
  cases hmark : Mark.leading? (c :: rest) with
  | none => rfl
  | some mark =>
    have hspelling := isAscii_spelling mark
    rw [← spelling_of_leading? hmark, List.all_cons, hc] at hspelling
    cases hspelling

theorem foreign? (file : String) (hsize : source.utf8ByteSize < UInt32.size) (hc : isAscii c = false)
    (h : Cut source before (c :: rest) offset) :
    Bytewise.foreign? file source offset = some (passedLexeme file offset (lexeme c rest)) := by
  have hstarts : startsIdentifier c = isForeignLetter c := by
    rw [startsIdentifier, hc, if_neg Bool.false_ne_true]
  rw [Bytewise.foreign?, h.charAt?]
  dsimp only [Option.bind_eq_bind, Option.bind_some, List.head?_cons, Option.getD_some]
  by_cases hletter : isForeignLetter c
  · rw [if_pos hletter]
    exact h.word? file (hstarts.trans hletter)
  · have hnumber : ¬(c.isDigit || (decide (c = '.') && rest.head?.any Char.isDigit)) = true := by
      have hdigit := eq_false_of_foreign (fun _ => isAscii_of_isDigit) hc
      simp [hdigit, ne_of_isAscii hc (show isAscii '.' from rfl)]
    rw [if_neg hletter, lexeme.eq_def, hstarts, if_neg hletter, if_neg hnumber,
      if_neg (ne_of_isAscii hc rfl), if_neg (ne_of_isAscii hc rfl), leading?_foreign hc]
    exact congrArg some (h.unknown file hsize)

theorem string? (file : String) (hsize : source.utf8ByteSize < UInt32.size)
    (h : Cut source before ('"' :: rest) offset) :
    Bytewise.string? file source offset = some (passedLexeme file offset (lexeme '"' rest)) := by
  have hquotes := h.standsAt (show ['"', '"', '"'].all isAscii from rfl)
  have hinside := h.consAscii (show isAscii '"' from rfl)
  rw [lexeme.eq_def, if_neg (by decide), if_neg (by simp), if_pos rfl]
  split
  · obtain ⟨reached, hreached, hends⟩ := ((hinside.consAscii rfl).consAscii rfl).blockStop?
    rw [Bytewise.string?, hquotes, if_pos (by simp)]
    dsimp only [Option.bind_eq_bind, Option.bind_some]
    rw [hreached]
    exact congrArg some (quotedPassed file _ _ hsize (by decide) hends)
  · rename_i hblock
    obtain ⟨reached, hreached, hends⟩ := hinside.lineStop? (show isAscii '"' from rfl)
    rw [Bytewise.string?, hquotes, if_neg]
    · dsimp only [Option.bind_eq_bind, Option.bind_some]
      rw [hreached]
      exact congrArg some (quotedPassed file _ _ hsize (by decide) hends)
    · intro hprefix
      obtain ⟨inside, hinside⟩ := List.isPrefixOf_iff_prefix.1 hprefix
      cases hinside
      exact hblock inside rfl

/-- A token starts, stops and is reported byte by byte as character by character. -/
theorem lexeme? (file : String) (hsize : source.utf8ByteSize < UInt32.size)
    (hedge : c.isDigit → Edge before) (h : Cut source before (c :: rest) offset) :
    Bytewise.lexeme? file source offset = some (passedLexeme file offset (lexeme c rest)) := by
  cases hascii : isAscii c with
  | false =>
    obtain ⟨b, hb, hb'⟩ := h.firstByte_foreign hascii
    have hword : ¬(b.isAlpha || b = '_' || b = '$') = true := by
      have halpha := eq_false_of_foreign (fun _ => isAscii_of_isAlpha) hb'
      simp [halpha, ne_of_isAscii hb' (show isAscii '_' from rfl),
        ne_of_isAscii hb' (show isAscii '$' from rfl)]
    have hnumber : ¬(b.isDigit || (b = '.' && (byte? source (offset + 1)).any Char.isDigit)) = true := by
      have hdigit := eq_false_of_foreign (fun _ => isAscii_of_isDigit) hb'
      simp [hdigit, ne_of_isAscii hb' (show isAscii '.' from rfl)]
    rw [Bytewise.lexeme?, hb]
    dsimp only
    rw [if_neg hword, if_neg hnumber, if_neg (ne_of_isAscii hb' rfl), if_neg (ne_of_isAscii hb' rfl),
      if_neg (Bool.eq_false_iff.1 hb')]
    exact h.foreign? file hsize hascii
  | true =>
    have hstarts : startsIdentifier c = (c.isAlpha || c = '_' || c = '$') := by
      rw [startsIdentifier, hascii, if_pos rfl]
    have hnext : (byte? source (offset + 1)).any Char.isDigit = rest.head?.any Char.isDigit :=
      (h.consAscii hascii).any_byte? fun _ => isAscii_of_isDigit
    rw [Bytewise.lexeme?, h.byte?_ascii hascii]
    dsimp only
    rw [← hstarts, hnext]
    split
    · exact h.word? file ‹_›
    rename_i hword
    split
    · rename_i hnumber
      dsimp only [Option.bind_eq_bind, Option.bind_some]
      rw [h.number? hnumber hedge, lexeme.eq_def, if_neg hword, if_pos hnumber]
      rfl
    rename_i hnumber
    split
    · rename_i hquote
      subst hquote
      exact h.string? file hsize
    rename_i hstring
    split
    · rename_i hquote
      subst hquote
      obtain ⟨reached, hreached, hends⟩ := (h.consAscii hascii).lineStop? (show isAscii '\'' from rfl)
      dsimp only [Option.bind_eq_bind, Option.bind_some]
      rw [hreached, lexeme.eq_def, if_neg hword, if_neg hnumber, if_neg hstring, if_pos rfl]
      exact congrArg some (quotedPassed file _ _ hsize (by decide) hends)
    rename_i hcharacter
    rw [lexeme.eq_def, if_neg hword, if_neg hnumber, if_neg hstring, if_neg hcharacter]
    exact congrArg some (h.mark file hsize hascii)

end Cut

/-! ## Numbers stand apart -/

section

variable {cs : List Char}

theorem edge_of_trivia (h : Trivia cs) : Edge cs := by
  induction h with
  | nil => exact .nil
  | @blank c cs hc _ ih =>
    refine ih.cons (Bool.eq_false_iff.2 ?_)
    simp only [isSpace, Bool.or_eq_true, decide_eq_true_eq] at hc
    rcases hc with (((rfl | rfl) | rfl) | rfl) | rfl <;> decide
  | @line inside cs _ _ ih =>
    exact .append ('/' :: '/' :: inside) (List.cons_ne_nil _ _) (ih.cons rfl)
  | @comment inside cs _ _ ih =>
    rw [List.append_assoc]
    exact .append ('/' :: '*' :: inside) (List.cons_ne_nil _ _) ((ih.cons rfl).append ['*'] (List.cons_ne_nil _ _))

/-- A gap leaves no digit directly behind a word character. -/
theorem edge_gap {before rest : List Char} {c : Char} (hedge : ∀ d ∈ cs.head?, d.isDigit → Edge before)
    (hrest : (gap cs).rest = c :: rest) (hdigit : c.isDigit) : Edge (before ++ (gap cs).skipped) := by
  have hne : (gap cs).rest ≠ [] := by
    rw [hrest]
    exact List.cons_ne_nil c rest
  by_cases hskipped : (gap cs).skipped = []
  · have hcs : cs = c :: rest := by
      rw [← hrest, ← List.nil_append (gap cs).rest, ← hskipped, gap_append]
    rw [hskipped, List.append_nil]
    exact hedge c (by rw [hcs]; rfl) hdigit
  · exact (edge_of_trivia (trivia_gap hne).1).append before hskipped

/-- Behind a number stands no word character. -/
theorem not_isWordChar_splitNumber (run cs : List Char) :
    ∀ d ∈ (splitNumber run cs).2.head?, isWordChar d = false := by
  fun_induction splitNumber run cs with
  | case1 => simp
  | case5 run c rest hc => simpa using hc
  | _ => assumption

/-- In front of a digit a quoted literal ends with its quote. -/
theorem edge_quotedLine {quote : Char} (hquote : isWordChar quote = false) (cs : List Char) :
    ∀ d ∈ (quotedLine quote cs).rest.head?, d.isDigit →
      (quotedLine quote cs).inside ≠ [] ∧ Edge (quotedLine quote cs).inside := by
  fun_induction quotedLine quote cs with
  | case1 => simp
  | case2 => simp
  | case3 c rest ih =>
    intro d hd hdigit
    obtain ⟨hne, hedge⟩ := ih d hd hdigit
    exact ⟨List.cons_ne_nil _ _, hedge.append ['\\', c] hne⟩
  | case4 => simp
  | case5 => exact fun _ _ _ => ⟨List.cons_ne_nil _ _, .singleton hquote⟩
  | case6 c rest _ _ _ _ ih =>
    intro d hd hdigit
    obtain ⟨hne, hedge⟩ := ih d hd hdigit
    exact ⟨List.cons_ne_nil _ _, hedge.append [c] hne⟩

theorem edge_quotedBlock (cs : List Char) :
    ∀ d ∈ (quotedBlock cs).rest.head?, d.isDigit →
      (quotedBlock cs).inside ≠ [] ∧ Edge (quotedBlock cs).inside := by
  fun_induction quotedBlock cs with
  | case1 => simp
  | case2 => simp
  | case3 c rest ih =>
    intro d hd hdigit
    obtain ⟨hne, hedge⟩ := ih d hd hdigit
    exact ⟨List.cons_ne_nil _ _, hedge.append ['\\', c] hne⟩
  | case4 => exact fun _ _ _ => ⟨List.cons_ne_nil _ _, by simp [Edge, isWordChar]⟩
  | case5 c rest _ _ _ ih =>
    intro d hd hdigit
    obtain ⟨hne, hedge⟩ := ih d hd hdigit
    exact ⟨List.cons_ne_nil _ _, hedge.append [c] hne⟩

/-- A digit does not stand directly behind a token that ends with a word character. -/
theorem edge_lexeme (c : Char) (rest : List Char) :
    ∀ d ∈ (lexeme c rest).rest.head?, d.isDigit → Edge (lexeme c rest).chars := by
  fun_cases lexeme c rest with
  | case1 hc word =>
    intro d hd hdigit
    have hstops := List.head?_dropWhile_not continuesIdentifier rest
    rw [show (rest.dropWhile continuesIdentifier).head? = some d from hd] at hstops
    dsimp only at hstops
    rw [continuesIdentifier, if_pos (isAscii_of_isDigit hdigit)] at hstops
    simp [Char.isAlphanum, hdigit] at hstops
  | case2 hc hnumber number =>
    intro d hd hdigit
    have hword := not_isWordChar_splitNumber _ _ d hd
    simp [isWordChar, Char.isAlphanum, hdigit] at hword
  | case3 hc hnumber inside =>
    intro d hd hdigit
    obtain ⟨hne, hedge⟩ := edge_quotedBlock inside d hd hdigit
    exact hedge.append _ hne
  | case4 =>
    intro d hd hdigit
    obtain ⟨hne, hedge⟩ := edge_quotedLine rfl rest d hd hdigit
    exact hedge.append _ hne
  | case5 =>
    intro d hd hdigit
    obtain ⟨hne, hedge⟩ := edge_quotedLine rfl rest d hd hdigit
    exact hedge.append _ hne
  | case6 _ _ _ _ _ mark hm =>
    intro d _ _
    have hspelling : Edge mark.spelling.toList := by cases mark <;> simp [Edge, Mark.spelling, isWordChar]
    dsimp only
    rwa [spelling_of_leading? hm]
  | case7 =>
    rename_i hc _ _ hnumber _
    intro d _ _
    refine .singleton (Bool.eq_false_iff.2 fun hword => ?_)
    unfold startsIdentifier at hc
    rw [if_pos (isAscii_of_isWordChar hword)] at hc
    simp [isWordChar, Char.isAlphanum] at hword hc hnumber
    rcases hword with (hword | hword) | hword
    · exact Bool.false_ne_true (hc.1.1.symm.trans hword)
    · exact Bool.false_ne_true (hnumber.1.symm.trans hword)
    · exact hc.1.2 hword

end

/-! ## All tokens -/

/-- The token between two offsets below the limit of a word is what stands there. -/
theorem tokenBetween_of_slice? {source text : String} {start stop : Nat} (hstop : stop < UInt32.size)
    (h : slice? source start stop = some text) (kind : TokenKind) :
    tokenBetween source kind start stop = ⟨kind, start, stop, text⟩ := by
  have hle : start ≤ stop := by
    unfold slice? at h
    split at h
    · exact (‹_ ∧ _›).1
    · cases h
  rw [tokenBetween, narrow_of_lt hstop, narrow_of_lt (Nat.lt_of_le_of_lt hle hstop), slice, h]
  rfl

/-- The rest of a text is scanned byte by byte as character by character. -/
theorem Cut.scanFrom? (file : String) {source : String} {before cs : List Char} {offset : Nat}
    (hsize : source.utf8ByteSize < UInt32.size) (hedge : ∀ d ∈ cs.head?, d.isDigit → Edge before)
    (h : Cut source before cs offset) :
    Bytewise.scanFrom? file source offset = some
      ⟨(scanFrom file offset cs).tokens ++ [.endOfFile source.utf8ByteSize],
        (scanFrom file offset cs).diagnostics⟩ := by
  fun_induction scanFrom file offset cs generalizing before with
  | case1 offset cs space start unclosed =>
    rename_i hrest
    have hskipped : space.skipped = cs := by
      rw [← List.append_nil space.skipped, ← hrest, gap_append]
    have hstart : start = source.utf8ByteSize := by
      rw [h.size, ← hskipped]
    have hlast : Bytewise.lexeme? file source start = some (.endOfFile, ⟨source.utf8ByteSize, []⟩) := by
      rw [hstart, Bytewise.lexeme?, h.finish.byte?_nil]
    have hslice := h.finish.slice? []
    rw [Bytewise.scanFrom?, h.skipGap? file hsize]
    dsimp only [Option.bind_eq_bind, Option.bind_some]
    rw [show (passedGap file offset (gap cs)).stop = start from rfl, hlast]
    dsimp only [Option.bind_eq_bind, Option.bind_some]
    rw [if_pos rfl, hstart, tokenBetween_of_slice? hsize hslice, List.append_nil]
    rfl
  | case2 offset cs space start unclosed c rest hrest found token behind =>
    rename_i ih
    have hcs : cs = space.skipped ++ (c :: rest) := by
      rw [← hrest, gap_append]
    have hspace : Cut source (before ++ space.skipped) (c :: rest) start := append _ (by rwa [← hcs])
    have hsplit : Cut source (before ++ space.skipped) (found.chars ++ found.rest) start := by
      rwa [lexeme_append]
    have hfound := hsplit.append found.chars
    have hedge' : c.isDigit → Edge (before ++ space.skipped) := edge_gap hedge hrest
    have hbehind : Bytewise.scanFrom? file source token.stop = some _ :=
      ih (fun d hd hdigit => (edge_lexeme c rest d hd hdigit).append _ (chars_lexeme_ne_nil c rest)) hfound
    have hstop := Nat.lt_of_le_of_lt hfound.le_size hsize
    have hless : source.utf8ByteSize - token.stop < source.utf8ByteSize - offset := by
      have hpos : start < token.stop :=
        Nat.lt_add_of_pos_right (byteCount_pos (chars_lexeme_ne_nil c rest))
      have hle : offset ≤ start := Nat.le_add_right _ _
      have hlt := hspace.lt_size
      omega
    have hlexeme : Bytewise.lexeme? file source start = some (found.kind, ⟨token.stop, _⟩) :=
      hspace.lexeme? file hsize hedge'
    rw [Bytewise.scanFrom?, h.skipGap? file hsize]
    dsimp only [Option.bind_eq_bind, Option.bind_some]
    rw [show (passedGap file offset (gap cs)).stop = start from rfl, hlexeme]
    dsimp only [Option.bind_some]
    rw [if_neg (kind_lexeme_ne c rest), if_pos hless, hbehind, tokenBetween_of_slice? hstop (hsplit.slice? _)]
    rfl

/-- Below the limit of a word the bytes of a text give the tokens and the diagnostics that its characters
give, and the end of the file. -/
theorem scan?_eq (file : String) {source : String} (hsize : source.utf8ByteSize < UInt32.size) :
    scan? file source = some
      ⟨(scan file source).tokens ++ [.endOfFile source.utf8ByteSize], (scan file source).diagnostics⟩ :=
  (Cut.start source).scanFrom? file hsize fun _ _ _ => .nil

end Bytewise

/-- A text below the limit of a word is scanned byte by byte to its end. Its tokens, the end of the file
among them, tile the text: in front of each stand blanks and whole comments only, and in front of the end
perhaps a comment without an end, which is reported. Each stands on whole characters of the text, and what
it covers is its text. They are the tokens of the characters of the text, which stand one behind the other,
and the end of the file, and what is reported is the same. -/
theorem scan_tiles (file : String) {source : String} (hsize : source.utf8ByteSize < UInt32.size) :
    ∃ found, Bytewise.scan? file source = some found ∧
      (∃ unclosed, Tiles 0 source.toList found.tokens unclosed ∧
        ∀ comment ∈ unclosed, unclosedComment file source.utf8ByteSize comment ∈ found.diagnostics) ∧
      (∀ token ∈ found.tokens, token.StandsIn source ∧ token.stop < UInt32.size) ∧
      found.tokens = (scan file source).tokens ++ [.endOfFile source.utf8ByteSize] ∧
      Ordered source.utf8ByteSize 0 (scan file source).tokens ∧
      found.diagnostics = (scan file source).diagnostics := by
  refine ⟨_, Bytewise.scan?_eq file hsize, exists_tiles_scan file source, fun token ht => ?_, rfl,
    ordered_scan file source, rfl⟩
  have hstands := standsIn_scan_end file source token ht
  obtain ⟨before, behind, hsource, hstop⟩ := exists_of_isValid hstands.stop
  refine ⟨hstands, Nat.lt_of_le_of_lt ?_ hsize⟩
  rw [hstop, hsource, utf8ByteSize_ofList, byteCount_append]
  exact Nat.le_add_right _ _

/-- The byte behind a backslash may be the first of a longer character: a string goes on inside of it. -/
theorem scan_tiles_escape :
    "\"\\é".utf8ByteSize < UInt32.size ∧
      ∃ found, Bytewise.scan? "A.java" "\"\\é" = some found ∧
        (∃ unclosed, Tiles 0 "\"\\é".toList found.tokens unclosed ∧
          ∀ comment ∈ unclosed, unclosedComment "A.java" 4 comment ∈ found.diagnostics) ∧
        (∀ token ∈ found.tokens, token.StandsIn "\"\\é" ∧ token.stop < UInt32.size) ∧
        found.tokens = [⟨.literal .string, 0, 4, "\"\\é"⟩, .endOfFile 4] ∧
        Ordered 4 0 [⟨.literal .string, 0, 4, "\"\\é"⟩] ∧
        found.diagnostics = [.ofRule .unterminatedLiteral "A.java" 0 4 ["string"]] := by
  have hsize : "\"\\é".utf8ByteSize < UInt32.size := by decide
  have htokens : (scan "A.java" "\"\\é").tokens = [⟨.literal .string, 0, 4, "\"\\é"⟩] := by
    decide +kernel
  have hdiagnostics : (scan "A.java" "\"\\é").diagnostics =
      [.ofRule .unterminatedLiteral "A.java" 0 4 ["string"]] := by
    decide +kernel
  have htiles := scan_tiles "A.java" hsize
  rw [htokens, hdiagnostics] at htiles
  exact ⟨hsize, htiles⟩

end JavaNames.Token
