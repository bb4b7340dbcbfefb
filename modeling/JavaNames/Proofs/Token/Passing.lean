/-
The loops of the byte scanner. From a place between two characters each of them stops where the reader of
characters does, and reports the same: at blanks and comments, words, numbers and quoted literals. A number
looks back over the word characters in front of it. Behind a backslash a quoted literal goes on inside of a
character, whose other bytes it passes over one by one.
-/
import JavaNames.Proofs.Token.Cut
import JavaNames.Proofs.Token.Step

namespace JavaNames.Token.Bytewise

open JavaNames.Text

theorem failure_of_lt {start stop : Nat} (hlt : start < stop) (hstop : stop < UInt32.size) (file : String)
    (rule : Rule) (arguments : List String) :
    failure file rule start stop arguments = .ofRule rule file start (stop - start) arguments := by
  rw [failure, Nat.max_eq_left hlt, narrow_of_lt (by omega), narrow_of_lt (by omega)]

/-- What the passing over a gap comes to. -/
def passedGap (file : String) (offset : Nat) (gap : Gap) : Passed :=
  let stop := offset + byteCount gap.skipped
  ⟨stop, (gap.unclosed.map (unclosedComment file stop)).toList⟩

theorem passedGap_prepend (file : String) (offset : Nat) (cs : List Char) (gap : Gap) :
    passedGap file offset (gap.prepend cs) = passedGap file (offset + byteCount cs) gap := by
  simp only [passedGap, Gap.skipped_prepend, Gap.unclosed_prepend, byteCount_append, Nat.add_assoc]

/-! ## Runs of word characters -/

/-- No word character stands at the end of a text. -/
def Edge (cs : List Char) : Prop := ∀ c ∈ cs.getLast?, isWordChar c = false

theorem Edge.nil : Edge [] := nofun

theorem Edge.append {cs : List Char} (front : List Char) (hne : cs ≠ []) (h : Edge cs) :
    Edge (front ++ cs) := by
  unfold Edge
  rwa [List.getLast?_append_of_ne_nil front hne]

theorem Edge.cons {c : Char} {cs : List Char} (hc : isWordChar c = false) (h : Edge cs) :
    Edge (c :: cs) := by
  cases cs with
  | nil => simpa [Edge] using hc
  | cons d cs => exact append [c] (List.cons_ne_nil d cs) h

theorem Edge.singleton {c : Char} (hc : isWordChar c = false) : Edge [c] := cons hc .nil

/-- The word characters in front of a place, last first, are these and no more. -/
structure Run (before run : List Char) : Prop where
  word : ∀ c ∈ run, isWordChar c
  edge : Edge before

theorem Run.snoc {before run : List Char} {c : Char} (hrun : Run before run) (hc : isWordChar c) :
    Run before (c :: run) :=
  ⟨List.forall_mem_cons.2 ⟨hc, hrun.word⟩, hrun.edge⟩

/-- In front of every place stands a run of word characters. -/
theorem exists_run (before : List Char) : ∃ front run, before = front ++ run.reverse ∧ Run front run := by
  induction before using List.reverseRecOn with
  | nil => exact ⟨[], [], rfl, nofun, nofun⟩
  | append_singleton before c ih =>
    cases hc : isWordChar c with
    | true =>
      obtain ⟨front, run, rfl, hrun⟩ := ih
      exact ⟨front, c :: run, by rw [List.reverse_cons, List.append_assoc], hrun.snoc hc⟩
    | false => exact ⟨before ++ [c], [], by simp, nofun, by simp [Edge, hc]⟩

namespace Cut

variable {source : String} {before cs rest inside : List Char} {c : Char} {offset : Nat}

/-! ## Blanks and comments -/

theorem le_size (h : Cut source before cs offset) : offset ≤ source.utf8ByteSize :=
  h.size ▸ Nat.le_add_right _ _

theorem search? (h : Cut source before cs offset) (text : List Char) :
    Bytewise.search? source text offset = some ((find? source text offset).map (· - offset)) := by
  rw [Bytewise.search?, if_pos h.le_size]

/-- Behind the first line feed, or at the end of the text, a line ends. -/
theorem lineStop (h : Cut source before cs offset) :
    ((find? source ['\n'] offset).map (· + 1)).getD source.utf8ByteSize =
      offset + byteCount (splitLine cs).1 := by
  fun_induction splitLine cs generalizing before offset with
  | case1 =>
    rw [h.find?_nil (by simp) rfl, h.size]
    rfl
  | case2 rest =>
    rw [h.find?_cons (by simp) rfl, if_pos (by simp)]
    rfl
  | case3 c rest hc ih =>
    rw [h.find?_cons (by simp) rfl, if_neg (by simp [Ne.symm hc]), ih h.cons, byteCount_cons,
      Nat.add_assoc]

theorem find?_closing_cons (h : Cut source before (c :: rest) offset)
    (hne : ∀ behind, c = '*' → rest = '/' :: behind → False) :
    find? source ['*', '/'] offset = find? source ['*', '/'] (offset + c.utf8Size) := by
  rw [h.find?_cons (by simp) rfl, if_neg]
  intro hclosing
  obtain ⟨behind, hbehind⟩ := List.isPrefixOf_iff_prefix.1 hclosing
  cases hbehind
  exact hne behind rfl rfl

theorem commentStop_none (h : Cut source before cs offset) (hc : splitComment? cs = none) :
    find? source ['*', '/'] offset = none := by
  fun_induction splitComment? cs generalizing before offset with
  | case1 => rw [h.find?_nil (by simp) rfl]
  | case2 => cases hc
  | case3 c rest hne ih =>
    rw [h.find?_closing_cons hne]
    exact ih h.cons (Option.map_eq_none_iff.1 hc)

theorem commentStop_some {behind : List Char} (h : Cut source before cs offset)
    (hc : splitComment? cs = some (inside, behind)) :
    ∃ found, find? source ['*', '/'] offset = some found ∧ found + 2 = offset + byteCount inside := by
  fun_induction splitComment? cs generalizing before offset inside behind with
  | case1 => cases hc
  | case2 rest =>
    cases hc
    refine ⟨offset, ?_, rfl⟩
    rw [h.find?_cons (by simp) rfl, if_pos (by simp)]
  | case3 c rest hne ih =>
    obtain ⟨⟨more, behind'⟩, hmore, he⟩ := Option.map_eq_some_iff.1 hc
    cases he
    obtain ⟨found, hfound, hstop⟩ := ih h.cons hmore
    refine ⟨found, (h.find?_closing_cons hne).trans hfound, ?_⟩
    rw [hstop, byteCount_cons, Nat.add_assoc]

/-- A comment without an end goes on to the end of the text and is reported. -/
theorem skipGap?_unclosed (file : String) (hsize : source.utf8ByteSize < UInt32.size)
    (hc : splitComment? rest = none) (h : Cut source before ('/' :: '*' :: rest) offset) :
    Bytewise.skipGap? file source offset =
      some (passedGap file offset ⟨'/' :: '*' :: rest, [], some ('/' :: '*' :: rest)⟩) := by
  have hslash := h.consAscii rfl
  have hinside := hslash.consAscii rfl
  have hnone : Bytewise.skipGap? file source source.utf8ByteSize = some ⟨source.utf8ByteSize, []⟩ := by
    rw [Bytewise.skipGap?, if_neg h.finish.not_lt_size]
  have hstart : source.utf8ByteSize - byteCount ('/' :: '*' :: rest) = offset :=
    Nat.sub_eq_of_eq_add h.size
  have hlength : source.utf8ByteSize - offset = byteCount ('/' :: '*' :: rest) :=
    Nat.sub_eq_of_eq_add' h.size
  rw [Bytewise.skipGap?, loop_of_byte? (h.byte?_ascii rfl), hslash.byte?_ascii rfl,
    if_neg (by decide), if_neg (by decide), if_pos (by decide), hinside.search?,
    hinside.commentStop_none hc]
  dsimp only [Option.bind_eq_bind, Option.bind_some, passedGap]
  rw [hnone, ← h.size, failure_of_lt h.lt_size hsize, Option.map_some, unclosedComment, hstart, hlength]
  rfl

/-- In front of what is no blank and begins no comment a gap ends. -/
theorem skipGap?_stop (file : String) (hspace : ¬isSpace c)
    (hline : ∀ behind, c = '/' → rest = '/' :: behind → False)
    (hblock : ∀ behind, c = '/' → rest = '*' :: behind → False)
    (h : Cut source before (c :: rest) offset) :
    Bytewise.skipGap? file source offset = some ⟨offset, []⟩ := by
  rw [Bytewise.skipGap?]
  cases hascii : isAscii c with
  | true =>
    have hnext (d : Char) (hd : isAscii d) (hne : ∀ behind, c = '/' → rest = d :: behind → False) :
        ¬(decide (c = '/') && decide (byte? source (offset + 1) = some d)) = true := by
      rw [Bool.and_eq_true, decide_eq_true_eq, decide_eq_true_eq,
        (h.consAscii hascii).byte?_eq_some_iff hd]
      rintro ⟨hslash, hd⟩
      obtain ⟨behind, hbehind⟩ := List.head?_eq_some_iff.1 hd
      exact hne behind hslash hbehind
    rw [loop_of_byte? (h.byte?_ascii hascii), if_neg hspace, if_neg (hnext '/' rfl hline),
      if_neg (hnext '*' rfl hblock)]
    rfl
  | false =>
    obtain ⟨b, hb, hb'⟩ := h.firstByte_foreign hascii
    have hspace' : isSpace b = false := eq_false_of_foreign (fun _ => isAscii_of_isSpace) hb'
    have hslash : b ≠ '/' := ne_of_isAscii hb' rfl
    rw [loop_of_byte? hb, if_neg (Bool.eq_false_iff.1 hspace'), if_neg (by simp [hslash]),
      if_neg (by simp [hslash])]
    rfl

theorem skipGap? (file : String) (hsize : source.utf8ByteSize < UInt32.size)
    (h : Cut source before cs offset) :
    Bytewise.skipGap? file source offset = some (passedGap file offset (gap cs)) := by
  fun_induction gap cs generalizing before offset with
  | case1 =>
    rw [Bytewise.skipGap?, if_neg h.not_lt_size]
    rfl
  | case2 rest ih =>
    have hslash := h.consAscii rfl
    have hline : ((find? source ['\n'] offset).map (· + 1)).getD source.utf8ByteSize =
        offset + byteCount ('/' :: '/' :: (splitLine rest).1) := by
      simpa [splitLine] using h.lineStop
    have hbehind : Cut source _ (splitLine rest).2
        (offset + byteCount ('/' :: '/' :: (splitLine rest).1)) :=
      append _ (by rwa [List.cons_append, List.cons_append, splitLine_append])
    rw [Bytewise.skipGap?, loop_of_byte? (h.byte?_ascii rfl), hslash.byte?_ascii rfl,
      if_neg (by decide), if_pos (by decide), h.search?, passedGap_prepend, ← ih hbehind, ← hline]
    cases hfound : find? source ['\n'] offset with
    | none => rfl
    | some found =>
      have hstop : offset + (found - offset) = found := Nat.add_sub_cancel' (le_of_find? hfound)
      exact congrArg (fun stop => Bytewise.skipGap? file source (stop + 1)) hstop
  | case3 rest inside behind hs ih =>
    have hslash := h.consAscii rfl
    have hinside := hslash.consAscii rfl
    obtain ⟨found, hfound, hstop⟩ := hinside.commentStop_some hs
    have hbehind : Cut source _ behind (offset + byteCount ('/' :: '*' :: inside)) :=
      append _ (by rwa [List.cons_append, List.cons_append, append_of_splitComment? hs])
    rw [Bytewise.skipGap?, loop_of_byte? (h.byte?_ascii rfl), hslash.byte?_ascii rfl,
      if_neg (by decide), if_neg (by decide), if_pos (by decide), hinside.search?, hfound,
      Option.map_some, passedGap_prepend, ← ih hbehind]
    refine congrArg (Bytewise.skipGap? file source) ?_
    have hle := le_of_find? hfound
    rw [byteCount_cons, byteCount_cons, show '/'.utf8Size = 1 from rfl, show '*'.utf8Size = 1 from rfl]
    omega
  | case4 rest hs => exact h.skipGap?_unclosed file hsize hs
  | case5 c rest _ _ hc ih =>
    have hascii := isAscii_of_isSpace hc
    rw [Bytewise.skipGap?, loop_of_byte? (h.byte?_ascii hascii),
      if_pos hc, ih (h.consAscii hascii), passedGap_prepend, byteCount_cons, byteCount_nil,
      utf8Size_of_isAscii hascii]
  | case6 c rest hline hblock hc => exact h.skipGap?_stop file hc hline hblock

/-! ## Words -/

theorem wordStop? (h : Cut source before cs offset) :
    Bytewise.wordStop? source offset =
      some (offset + byteCount (cs.takeWhile continuesIdentifier)) := by
  induction cs generalizing before offset with
  | nil =>
    rw [Bytewise.wordStop?, if_neg h.not_lt_size]
    rfl
  | cons c rest ih =>
    rw [Bytewise.wordStop?, List.takeWhile_cons, continuesIdentifier]
    cases hc : isAscii c with
    | true =>
      rw [loop_of_byte? (h.byte?_ascii hc), if_pos rfl]
      split
      · rw [ih (h.consAscii hc), byteCount_cons, utf8Size_of_isAscii hc, Nat.add_assoc]
      · rfl
    | false =>
      obtain ⟨b, hb, hb'⟩ := h.firstByte_foreign hc
      have hword : ¬(b.isAlphanum || b = '_' || b = '$') = true := by
        have halphanum := eq_false_of_foreign (fun _ => isAscii_of_isAlphanum) hb'
        simp [halphanum, ne_of_isAscii hb' (show isAscii '_' from rfl),
          ne_of_isAscii hb' (show isAscii '$' from rfl)]
      rw [loop_of_byte? hb, if_neg Bool.false_ne_true, if_neg hword, if_neg (Bool.eq_false_iff.1 hb'),
        h.charAt?]
      dsimp only [Option.bind_eq_bind, Option.bind_some, List.head?_cons]
      split
      · rw [ih h.cons, byteCount_cons, Nat.add_assoc]
      · rfl

/-! ## Numbers -/

variable {run : List Char}

/-- The place in front of the last character that was passed. -/
theorem back (h : Cut source (before ++ [c]) cs offset) :
    Cut source before (c :: cs) (byteCount before) ∧ offset = byteCount before + c.utf8Size :=
  ⟨⟨by rw [h.toList, List.append_assoc, List.singleton_append], rfl⟩,
    by rw [h.offset, byteCount_append, byteCount_cons, byteCount_nil, Nat.add_zero]⟩

/-- In front of a place where no word character stands there is no byte or one that is none. -/
theorem lastByte? (h : Cut source before cs offset) (hedge : Edge before) :
    offset = 0 ∧ before = [] ∨
      ∃ start b, offset = start + 1 ∧ byte? source start = some b ∧ isWordChar b = false := by
  rcases List.eq_nil_or_concat' before with rfl | ⟨front, c, rfl⟩
  · exact .inl ⟨h.offset, rfl⟩
  obtain ⟨hback, hoffset⟩ := h.back
  cases hascii : isAscii c with
  | true =>
    rw [utf8Size_of_isAscii hascii] at hoffset
    exact .inr ⟨_, c, hoffset, hback.byte?_ascii hascii, hedge c (by simp)⟩
  | false =>
    have hpos := c.utf8Size_pos
    obtain ⟨b, hb, hb'⟩ := hback.byte?_foreign hascii (i := c.utf8Size - 1) (by omega)
    exact .inr ⟨_, b, by omega, hb, eq_false_of_foreign (fun _ => isAscii_of_isWordChar) hb'⟩

theorem runStart? (hrun : Run before run) (h : Cut source (before ++ run.reverse) cs offset) :
    Bytewise.runStart? source offset = some (byteCount before) := by
  induction run generalizing cs offset with
  | nil =>
    rw [List.reverse_nil, List.append_nil] at h
    rcases h.lastByte? hrun.edge with ⟨rfl, rfl⟩ | ⟨start, b, hoffset, hb, hword⟩
    · rfl
    · subst hoffset
      simp [Bytewise.runStart?, hb, hword, ← h.offset]
  | cons c run ih =>
    obtain ⟨hc, hword⟩ := List.forall_mem_cons.1 hrun.word
    have hascii := isAscii_of_isWordChar hc
    rw [List.reverse_cons, ← List.append_assoc] at h
    obtain ⟨hback, hoffset⟩ := h.back
    rw [utf8Size_of_isAscii hascii] at hoffset
    rw [hoffset, Bytewise.runStart?, hback.byte?_ascii hascii]
    dsimp only [Option.bind_eq_bind, Option.bind_some]
    rw [if_pos hc, ih ⟨hword, hrun.edge⟩ (hback.offset ▸ hback)]

/-- Behind more than a zero the run tells on its own whether it begins as a hexadecimal number does. -/
theorem isHex? {last : Char} (hrun : Run before (last :: run)) (hzero : last ≠ '0')
    (h : Cut source (before ++ (last :: run).reverse) cs offset) :
    Bytewise.isHex? source offset = some (opensHex (last :: run)) := by
  rw [Bytewise.isHex?, h.runStart? hrun, opensHex]
  have hstart : Cut source before ((last :: run).reverse ++ cs) (byteCount before) :=
    ⟨by rw [h.toList, List.append_assoc], rfl⟩
  have hword : ∀ c ∈ (last :: run).reverse, isAscii c := fun c hc =>
    isAscii_of_isWordChar (hrun.word c (List.mem_reverse.1 hc))
  have hlast : (last :: run).reverse.getLast? = some last := by
    rw [List.getLast?_reverse, List.head?_cons]
  generalize (last :: run).reverse = front at hstart hword hlast
  dsimp only [Option.bind_eq_bind, Option.bind_some]
  match front with
  | [] => cases hlast
  | [c] =>
    obtain rfl : c = last := Option.some.inj hlast
    rw [List.singleton_append] at hstart
    rw [hstart.byte?_ascii (hword c List.mem_cons_self)]
    simp [hzero]
  | c :: d :: rest =>
    obtain ⟨hc, hrest⟩ := List.forall_mem_cons.1 hword
    have hd := hrest d List.mem_cons_self
    rw [List.cons_append, List.cons_append] at hstart
    rw [hstart.byte?_ascii hc, (hstart.consAscii hc).byte?_ascii hd]
    by_cases hc0 : c = '0'
    · subst hc0
      simp
    · simp [hc0]

theorem isExponentSign? (hrun : Run before run) (h : Cut source (before ++ run.reverse) cs offset)
    (c : Char) :
    Bytewise.isExponentSign? source c offset = some ((c = '+' || c = '-') && opensExponent run) := by
  rw [Bytewise.isExponentSign?]
  cases hsign : (decide (c = '+') || decide (c = '-')) with
  | false => rfl
  | true =>
    rw [Bool.true_and, Bool.true_and]
    cases run with
    | nil =>
      rw [List.reverse_nil, List.append_nil] at h
      rcases h.lastByte? hrun.edge with ⟨rfl, -⟩ | ⟨start, b, rfl, hb, hword⟩
      · rfl
      · have hmark : ¬(((b = 'e' ∨ b = 'E') ∨ b = 'p') ∨ b = 'P') := by
          rintro (((rfl | rfl) | rfl) | rfl) <;> cases hword
        rw [if_pos (by simp), Nat.add_sub_cancel, hb]
        simp [hmark, opensExponent]
    | cons d run =>
      have hcut := h
      rw [List.reverse_cons, ← List.append_assoc] at hcut
      obtain ⟨hback, hoffset⟩ := hcut.back
      have hascii := isAscii_of_isWordChar (hrun.word d List.mem_cons_self)
      rw [utf8Size_of_isAscii hascii] at hoffset
      have hlast : byte? source (offset - 1) = some d := by
        rw [hoffset, Nat.add_sub_cancel, hback.byte?_ascii hascii]
      rw [if_pos (by simp [hoffset]), hlast, opensExponent]
      dsimp only [Option.bind_eq_bind, Option.bind_some]
      cases hmark : (decide (d = 'e') || decide (d = 'E') || decide (d = 'p') || decide (d = 'P')) with
      | false => rfl
      | true =>
        have hzero : d ≠ '0' := by
          rintro rfl
          cases hmark
        rw [if_pos rfl, h.isHex? hrun hzero]
        rfl

/-- A number goes on over the characters that `splitNumber` takes. -/
theorem numberStop?_cons (hrun : Run before run)
    (h : Cut source (before ++ run.reverse) (c :: rest) offset) :
    Bytewise.numberStop? source offset =
      if isWordChar c || (c = '.' && !rest.head?.any Char.isAlpha) ||
          ((c = '+' || c = '-') && opensExponent run)
      then Bytewise.numberStop? source (offset + 1) else some offset := by
  rw [Bytewise.numberStop?]
  cases hascii : isAscii c with
  | true =>
    have hcut := h.consAscii hascii
    have hnext : ((decide (c = '.') && !(byte? source (offset + 1)).any Char.isDigit) &&
        (byte? source (offset + 1)).any Char.isAlpha) = (c = '.' && rest.head?.any Char.isAlpha) := by
      rw [hcut.any_byte? fun _ => isAscii_of_isDigit, hcut.any_byte? fun _ => isAscii_of_isAlpha]
      cases rest with
      | nil => simp
      | cons d rest =>
        rw [List.head?_cons, Option.any_some, Option.any_some]
        cases hd : d.isDigit with
        | true => simp [not_isAlpha_of_isDigit hd]
        | false => simp
    rw [loop_of_byte? (h.byte?_ascii hascii), h.isExponentSign? hrun]
    dsimp only [Option.bind_eq_bind, Option.bind_some]
    rw [hnext]
    by_cases hpoint : c = '.'
    · subst hpoint
      cases rest.head?.any Char.isAlpha <;> simp [show isWordChar '.' = false from rfl]
    · simp [hpoint]
  | false =>
    obtain ⟨b, hb, hb'⟩ := h.firstByte_foreign hascii
    have hstops {d : Char} (hd : isAscii d = false) :
        isWordChar d = false ∧ d ≠ '.' ∧ d ≠ '+' ∧ d ≠ '-' :=
      ⟨eq_false_of_foreign (fun _ => isAscii_of_isWordChar) hd, ne_of_isAscii hd rfl,
        ne_of_isAscii hd rfl, ne_of_isAscii hd rfl⟩
    rw [loop_of_byte? hb, h.isExponentSign? hrun]
    simp [hstops hascii, hstops hb']

theorem numberStop? (hrun : Run before run) (h : Cut source (before ++ run.reverse) cs offset) :
    Bytewise.numberStop? source offset = some (offset + byteCount (splitNumber run cs).1) := by
  -- behind a point or a sign the run of word characters begins anew
  have hanew {before rest : List Char} {offset : Nat} {c : Char} (hascii : isAscii c)
      (hc : isWordChar c = false) (h : Cut source before (c :: rest) offset) :
      Run (before ++ [c]) [] ∧ Cut source (before ++ [c] ++ [].reverse) rest (offset + 1) :=
    ⟨⟨nofun, by simp [Edge, hc]⟩, by simpa using h.consAscii hascii⟩
  fun_induction splitNumber run cs generalizing before offset with
  | case1 run =>
    rw [Bytewise.numberStop?, if_neg h.not_lt_size]
    rfl
  | case2 run c rest hc ih =>
    have hascii := isAscii_of_isWordChar hc
    have hnext : Cut source (before ++ (c :: run).reverse) rest (offset + 1) := by
      rw [List.reverse_cons, ← List.append_assoc]
      exact h.consAscii hascii
    rw [h.numberStop?_cons hrun, if_pos (by simp [hc]), ih (hrun.snoc hc) hnext, byteCount_cons,
      utf8Size_of_isAscii hascii, Nat.add_assoc]
  | case3 run c rest hc hpoint ih =>
    have hascii : isAscii c := by
      obtain ⟨hc, -⟩ := Bool.and_eq_true_iff.1 hpoint
      rw [of_decide_eq_true hc]
      rfl
    obtain ⟨hrun', hnext⟩ := hanew hascii (Bool.eq_false_iff.2 hc) h
    rw [h.numberStop?_cons hrun, if_pos (by simp [hpoint]), ih hrun' hnext, byteCount_cons,
      utf8Size_of_isAscii hascii, Nat.add_assoc]
  | case4 run c rest hc hpoint hsign ih =>
    have hascii : isAscii c := by
      obtain ⟨hc, -⟩ := Bool.and_eq_true_iff.1 hsign
      simp only [Bool.or_eq_true, decide_eq_true_eq] at hc
      rcases hc with rfl | rfl <;> rfl
    obtain ⟨hrun', hnext⟩ := hanew hascii (Bool.eq_false_iff.2 hc) h
    rw [h.numberStop?_cons hrun, if_pos (by rw [hsign, Bool.or_true]), ih hrun' hnext, byteCount_cons,
      utf8Size_of_isAscii hascii, Nat.add_assoc]
  | case5 run c rest hc hpoint hsign =>
    rw [h.numberStop?_cons hrun, if_neg (by simp [hc, hpoint, hsign])]
    rfl

/-! ## Quoted literals -/

/-- What is reached from an offset on is the end of a quoted literal. It lies beyond the end of the text
only where nothing closes the literal, which then ends with the text. -/
structure Reaches (source : String) (offset : Nat) (quoted : Quoted) (reached : Nat × Bool) : Prop where
  closed : reached.2 = quoted.closed
  stop : min reached.1 source.utf8ByteSize = offset + byteCount quoted.inside
  inside : quoted.closed → reached.1 ≤ source.utf8ByteSize

theorem Reaches.prepend {quoted : Quoted} {reached : Nat × Bool}
    (h : Reaches source (offset + byteCount inside) quoted reached) :
    Reaches source offset (quoted.prepend inside) reached :=
  ⟨h.closed, by rw [h.stop, Quoted.inside_prepend, byteCount_append, Nat.add_assoc], h.inside⟩

/-- A reading that passes over each byte of a character beyond ASCII passes over any character, once it is
behind the first byte. -/
theorem pass_one {β : Type} {f : Nat → β}
    (hf : ∀ o b, byte? source o = some b → isAscii b = false → f o = f (o + 1))
    (h : Cut source before (c :: rest) offset) : f (offset + 1) = f (offset + c.utf8Size) := by
  cases hc : isAscii c with
  | true => rw [utf8Size_of_isAscii hc]
  | false => exact pass hf h hc c.utf8Size_pos

theorem pass_cons {β : Type} {f : Nat → β}
    (hf : ∀ o b, byte? source o = some b → isAscii b = false → f o = f (o + 1))
    (h : Cut source before (c :: rest) offset) (hascii : isAscii c → f offset = f (offset + 1)) :
    f offset = f (offset + c.utf8Size) := by
  cases hc : isAscii c with
  | true => rw [utf8Size_of_isAscii hc, hascii hc]
  | false => exact pass hf h hc (Nat.zero_le _)

theorem ne_backslash (hlast : c = '\\' → rest = [] → False)
    (hescape : ∀ d behind, c = '\\' → rest = d :: behind → False) : c ≠ '\\' := by
  intro hc
  cases rest with
  | nil => exact hlast hc rfl
  | cons d behind => exact hescape d behind hc rfl

theorem lineStop?_foreign {quote b : Char} (hquote : isAscii quote) (hb : byte? source offset = some b)
    (hb' : isAscii b = false) :
    Bytewise.lineStop? source quote offset = Bytewise.lineStop? source quote (offset + 1) := by
  rw [Bytewise.lineStop?, loop_of_byte? hb,
    if_neg (ne_of_isAscii hb' rfl), if_neg (ne_of_isAscii hb' rfl), if_neg (ne_of_isAscii hb' hquote)]

theorem lineStop? {quote : Char} (hquote : isAscii quote) (h : Cut source before cs offset) :
    ∃ reached, Bytewise.lineStop? source quote offset = some reached ∧
      Reaches source offset (quotedLine quote cs) reached := by
  fun_induction quotedLine quote cs generalizing before offset with
  | case1 =>
    refine ⟨(offset, false), ?_, rfl, Nat.min_eq_left h.le_size, (absurd · Bool.false_ne_true)⟩
    rw [Bytewise.lineStop?, if_neg h.not_lt_size]
  | case2 =>
    refine ⟨(offset + 2, false), ?_, rfl, ?_, (absurd · Bool.false_ne_true)⟩
    · rw [Bytewise.lineStop?, loop_of_byte? (h.byte?_ascii rfl)]
      have hend : ¬offset + 2 < source.utf8ByteSize := Nat.not_lt.2 (h.size ▸ Nat.le_succ (offset + 1))
      rw [if_pos rfl, Bytewise.lineStop?, if_neg hend]
    · rw [h.size]
      exact Nat.min_eq_right (Nat.le_succ _)
  | case3 c rest ih =>
    have hescaped := h.consAscii (show isAscii '\\' from rfl)
    obtain ⟨reached, hreached, hends⟩ := ih hescaped.cons
    have hcount : offset + byteCount ['\\', c] = offset + 1 + c.utf8Size :=
      (Nat.add_assoc offset 1 c.utf8Size).symm
    refine ⟨reached, ?_, Reaches.prepend (hcount ▸ hends)⟩
    rw [Bytewise.lineStop?, loop_of_byte? (h.byte?_ascii rfl), ← hreached,
      if_pos rfl]
    exact hescaped.pass_one fun o b hb hb' => lineStop?_foreign hquote hb hb'
  | case4 rest hslash hescape =>
    refine ⟨(offset, false), ?_, rfl, Nat.min_eq_left h.le_size, (absurd · Bool.false_ne_true)⟩
    rw [Bytewise.lineStop?, loop_of_byte? (h.byte?_ascii rfl)]
    rfl
  | case5 rest hslash hescape hline =>
    have hbehind := h.consAscii hquote
    refine ⟨(offset + 1, true), ?_, rfl, ?_, fun _ => hbehind.le_size⟩
    · have hne := ne_backslash hslash hescape
      rw [Bytewise.lineStop?, loop_of_byte? (h.byte?_ascii hquote),
        if_neg hne, if_neg hline, if_pos rfl]
      rfl
    · rw [byteCount_cons, utf8Size_of_isAscii hquote]
      exact Nat.min_eq_left hbehind.le_size
  | case6 c rest hslash hescape hline hclose ih =>
    have hne := ne_backslash hslash hescape
    obtain ⟨reached, hreached, hends⟩ := ih h.cons
    refine ⟨reached, ?_, Reaches.prepend hends⟩
    rw [← hreached]
    refine pass_cons (fun o b hb hb' => lineStop?_foreign hquote hb hb') h fun hc => ?_
    rw [Bytewise.lineStop?, loop_of_byte? (h.byte?_ascii hc),
      if_neg hne, if_neg hline, if_neg hclose]

theorem blockStop?_foreign {b : Char} (hb : byte? source offset = some b) (hb' : isAscii b = false) :
    Bytewise.blockStop? source offset = Bytewise.blockStop? source (offset + 1) := by
  have hquote : b ≠ '"' := ne_of_isAscii hb' rfl
  rw [Bytewise.blockStop?, loop_of_byte? hb,
    if_neg (ne_of_isAscii hb' rfl), if_neg (by simp [Bytewise.standsAt, hb, hquote])]

theorem blockStop? (h : Cut source before cs offset) :
    ∃ reached, Bytewise.blockStop? source offset = some reached ∧
      Reaches source offset (quotedBlock cs) reached := by
  fun_induction quotedBlock cs generalizing before offset with
  | case1 =>
    refine ⟨(offset, false), ?_, rfl, Nat.min_eq_left h.le_size, (absurd · Bool.false_ne_true)⟩
    rw [Bytewise.blockStop?, if_neg h.not_lt_size]
  | case2 =>
    refine ⟨(offset + 2, false), ?_, rfl, ?_, (absurd · Bool.false_ne_true)⟩
    · rw [Bytewise.blockStop?, loop_of_byte? (h.byte?_ascii rfl)]
      have hend : ¬offset + 2 < source.utf8ByteSize := Nat.not_lt.2 (h.size ▸ Nat.le_succ (offset + 1))
      rw [if_pos rfl, Bytewise.blockStop?, if_neg hend]
    · rw [h.size]
      exact Nat.min_eq_right (Nat.le_succ _)
  | case3 c rest ih =>
    have hescaped := h.consAscii (show isAscii '\\' from rfl)
    obtain ⟨reached, hreached, hends⟩ := ih hescaped.cons
    have hcount : offset + byteCount ['\\', c] = offset + 1 + c.utf8Size :=
      (Nat.add_assoc offset 1 c.utf8Size).symm
    refine ⟨reached, ?_, Reaches.prepend (hcount ▸ hends)⟩
    rw [Bytewise.blockStop?, loop_of_byte? (h.byte?_ascii rfl), ← hreached,
      if_pos rfl]
    exact hescaped.pass_one fun o b hb hb' => blockStop?_foreign hb hb'
  | case4 rest =>
    have hbehind := ((h.consAscii rfl).consAscii rfl).consAscii rfl
    refine ⟨(offset + 3, true), ?_, rfl, ?_, fun _ => hbehind.le_size⟩
    · rw [Bytewise.blockStop?, loop_of_byte? (h.byte?_ascii rfl),
        if_neg (by decide), if_pos (by rw [h.standsAt rfl]; simp)]
      rfl
    · exact Nat.min_eq_left hbehind.le_size
  | case5 c rest hslash hescape hclose ih =>
    have hne := ne_backslash hslash hescape
    obtain ⟨reached, hreached, hends⟩ := ih h.cons
    refine ⟨reached, ?_, Reaches.prepend hends⟩
    rw [← hreached]
    refine pass_cons (fun o b hb hb' => blockStop?_foreign hb hb') h fun hc => ?_
    rw [Bytewise.blockStop?, loop_of_byte? (h.byte?_ascii hc),
      if_neg hne, if_neg]
    rw [h.standsAt rfl]
    intro hquotes
    obtain ⟨behind, hbehind⟩ := List.isPrefixOf_iff_prefix.1 hquotes
    cases hbehind
    exact hclose behind rfl rfl

end Cut

end JavaNames.Token.Bytewise
