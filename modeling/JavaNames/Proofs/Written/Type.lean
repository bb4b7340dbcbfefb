/-
Types as they are written: primitive types and names, with type arguments, dimensions and annotations,
and types that are joined by ampersands. Main statement: the lookahead for a type leaves what stands
behind the type, whatever that is, and takes all of an intersection in front of a closing parenthesis.
-/
import JavaNames.Proofs.Written.Annotation

namespace JavaNames.Grammar

/-! ## Tokens of types -/

/-- Annotations. The group of arguments of each is short enough to be looked past. -/
inductive Annotations : List Token → Prop
  | nil : Annotations []
  | cons {tokens rest : List Token} : Annotation tokens → tokens.length ≤ maxGroup →
    Annotations rest → Annotations (tokens ++ rest)

/-- Pairs of brackets, with annotations in front of each. -/
inductive Dimensions : List Token → Prop
  | nil : Dimensions []
  | cons {notes rest : List Token} {opening closing : Token} : Annotations notes →
    opening.kind = .mark .openBracket → closing.kind = .mark .closeBracket → Dimensions rest →
    Dimensions (notes ++ opening :: closing :: rest)

/-- The parts that types are written in. -/
inductive TypePart where
  | type
  /-- A type without annotations in front. -/
  | bare
  /-- Names with their type arguments, joined by dots. -/
  | names
  /-- A list of type arguments, if there is one. -/
  | arguments
  /-- Type arguments, joined by commas. -/
  | list
  | argument

/-- The tokens of a part of a type. -/
inductive TypeTokens : TypePart → List Token → Prop
  | annotated {notes tokens : List Token} : Annotations notes → TypeTokens .bare tokens →
    TypeTokens .type (notes ++ tokens)
  | primitive {first : Token} {dimensions : List Token} : first.kind.isPrimitiveType →
    Dimensions dimensions → TypeTokens .bare (first :: dimensions)
  | named {names dimensions : List Token} : TypeTokens .names names → Dimensions dimensions →
    TypeTokens .bare (names ++ dimensions)
  | name {first : Token} {arguments : List Token} : first.kind = .identifier →
    TypeTokens .arguments arguments → TypeTokens .names (first :: arguments)
  | qualified {first dot : Token} {arguments notes names : List Token} : first.kind = .identifier →
    TypeTokens .arguments arguments → dot.kind = .mark .dot → Annotations notes →
    TypeTokens .names names → TypeTokens .names (first :: (arguments ++ dot :: (notes ++ names)))
  | plain : TypeTokens .arguments []
  | generic {opening closing : Token} {inside : List Token} : opening.kind = .mark .less →
    TypeTokens .list inside → closing.kind = .mark .greater →
    TypeTokens .arguments (opening :: (inside ++ [closing]))
  | last {tokens : List Token} : TypeTokens .argument tokens → TypeTokens .list tokens
  | cons {comma : Token} {tokens rest : List Token} : TypeTokens .argument tokens →
    comma.kind = .mark .comma → TypeTokens .list rest → TypeTokens .list (tokens ++ comma :: rest)
  | exact {tokens : List Token} : TypeTokens .type tokens → TypeTokens .argument tokens
  | wildcard {notes : List Token} {question : Token} : Annotations notes →
    question.kind = .mark .question → TypeTokens .argument (notes ++ [question])
  | bounded {notes tokens : List Token} {question bound : Token} : Annotations notes →
    question.kind = .mark .question →
    bound.kind = .keyword .extendsKw ∨ bound.kind = .keyword .superKw → TypeTokens .type tokens →
    TypeTokens .argument (notes ++ question :: bound :: tokens)

/-- Types that are joined by ampersands. -/
inductive Intersection : List Token → Prop
  | last {tokens : List Token} : TypeTokens .type tokens → Intersection tokens
  | cons {ampersand : Token} {tokens rest : List Token} : TypeTokens .type tokens →
    ampersand.kind = .mark .ampersand → Intersection rest →
    Intersection (tokens ++ ampersand :: rest)

/-! ## Looking past groups -/

/-- Tokens whose parentheses have their partners take up their number of the budget, and leave as many
groups open as there were. -/
theorem closeGroup?_of_balanced {inside : List Token} (h : Balanced inside) (budget : Nat) {depth : Nat}
    (hd : 0 < depth) (rest : List Token) :
    closeGroup? budget depth (inside ++ rest) = closeGroup? (budget - inside.length) depth rest := by
  induction h generalizing budget depth rest with
  | nil => rfl
  | @token token more hend hopen hclose _ ih =>
    cases budget with
    | zero => simp [closeGroup?]
    | succ budget =>
      simp only [List.cons_append, closeGroup?, List.length_cons, Nat.add_sub_add_right]
      exact ih budget hd rest
  | @group opening closing inside more hopening _ hclosing _ ih ih' =>
    cases budget with
    | zero => simp [closeGroup?]
    | succ budget =>
      have hlength : budget + 1 - (opening :: (inside ++ closing :: more)).length =
          budget - inside.length - 1 - more.length := by
        simp only [List.length_cons, List.length_append]
        omega
      rw [hlength, List.cons_append, List.append_assoc, List.cons_append]
      simp only [closeGroup?, hopening]
      rw [ih budget (Nat.succ_pos depth)]
      cases budget - inside.length with
      | zero => simp [closeGroup?]
      | succ budget =>
        have hdepth : ¬depth + 1 ≤ 1 := by omega
        simp only [closeGroup?, hclosing, if_neg hdepth, Nat.add_sub_cancel]
        exact ih' budget hd rest

/-- A group is left behind, unless it is too long. -/
theorem afterGroup?_of_balanced {opening closing : Token} {inside : List Token}
    (ho : opening.kind = .mark .openParen) (h : Balanced inside)
    (hc : closing.kind = .mark .closeParen) (rest : List Token) :
    afterGroup? (opening :: (inside ++ closing :: rest)) =
      if inside.length < maxGroup then some rest else none := by
  simp only [afterGroup?, closeGroup?, ho]
  rw [closeGroup?_of_balanced h maxGroup Nat.one_pos]
  split
  · obtain ⟨budget, hb⟩ : ∃ budget, maxGroup - inside.length = budget + 1 :=
      ⟨maxGroup - inside.length - 1, by omega⟩
    rw [hb]
    simp [closeGroup?, hc]
  · rw [Nat.sub_eq_zero_of_le (by omega)]
    simp [closeGroup?]

/-! ## Looking past annotations -/

/-- What stands behind annotations and is no part of them. -/
structure BehindAnnotations (tokens : List Token) : Prop extends BehindAnnotation tokens where
  atSign : headKind tokens ≠ .mark .atSign

theorem afterDottedNames_of_dotted {dotted : List Token} (h : Dotted dotted) {rest : List Token}
    (hr : headKind rest ≠ .mark .dot) : afterDottedNames (dotted ++ rest) = rest := by
  induction h with
  | nil =>
    rw [List.nil_append]
    unfold afterDottedNames
    split
    · exact if_neg fun h => hr h.1
    · rfl
  | @cons dot name more hdot hname _ ih =>
    simp only [List.cons_append, afterDottedNames, hdot, hname, and_self, if_true]
    exact ih

theorem afterAnnotations?_of_atSign {tokens : List Token} (h : headKind tokens ≠ .mark .atSign) :
    afterAnnotations? tokens = some tokens := by
  unfold afterAnnotations?
  split
  · exact if_neg fun hs => h hs.1
  · rfl

theorem Annotation.headKind_append {tokens : List Token} (h : Annotation tokens) (rest : List Token) :
    headKind (tokens ++ rest) = .mark .atSign := by
  obtain ⟨hsign, -, -, -⟩ := h
  exact hsign

/-- An annotation is left behind. -/
theorem afterAnnotations?_of_annotation {tokens : List Token} (h : Annotation tokens)
    (hlength : tokens.length ≤ maxGroup) {rest : List Token} (hr : BehindAnnotation rest) :
    afterAnnotations? (tokens ++ rest) = afterAnnotations? rest := by
  obtain @⟨sign, name, dotted, arguments, hsign, hname, hdotted, harguments⟩ := h
  have hdot : headKind (arguments ++ rest) ≠ .mark .dot := by
    cases harguments with
    | none => exact hr.dot
    | group hopening => simp [headKind, hopening]
  have hnames : afterDottedNames (dotted ++ (arguments ++ rest)) = arguments ++ rest :=
    afterDottedNames_of_dotted hdotted hdot
  rw [List.cons_append, List.cons_append, List.append_assoc, afterAnnotations?,
    if_pos ⟨hsign, hname⟩, hnames]
  cases harguments with
  | none => rw [List.nil_append, if_neg hr.openParen]
  | @group opening closing inside hopening hinside hclosing =>
    have hgroup : afterGroup? (opening :: (inside ++ [closing]) ++ rest) = some rest := by
      have hshort : inside.length < maxGroup := by
        simp only [List.length_cons, List.length_append] at hlength
        omega
      rw [List.cons_append, List.append_assoc, List.singleton_append,
        afterGroup?_of_balanced hopening hinside hclosing, if_pos hshort]
    rw [if_pos (by simpa [headKind] using hopening)]
    split
    · rename_i behind hbehind
      obtain rfl : rest = behind := Option.some.inj (hgroup.symm.trans hbehind)
      rfl
    · rename_i hnone
      cases hgroup.symm.trans hnone

theorem afterAnnotations?_of_annotations {notes : List Token} (h : Annotations notes)
    {rest : List Token} (hr : BehindAnnotations rest) :
    afterAnnotations? (notes ++ rest) = some rest := by
  induction h with
  | nil => exact afterAnnotations?_of_atSign hr.atSign
  | @cons tokens more hnote hlength hmore ih =>
    -- behind an annotation stands another one or what is none
    have hbehind : BehindAnnotation (more ++ rest) := by
      cases hmore with
      | nil => exact hr.toBehindAnnotation
      | cons hnext =>
        constructor <;> (rw [List.append_assoc, hnext.headKind_append]; simp)
    rw [List.append_assoc, afterAnnotations?_of_annotation hnote hlength hbehind, ih]

/-! ## Looking past types -/

/-- What may stand behind a type. -/
inductive BehindType : List Token → Prop
  | closeParen {token : Token} {rest : List Token} : token.kind = .mark .closeParen →
    BehindType (token :: rest)
  | ampersand {token : Token} {rest : List Token} : token.kind = .mark .ampersand →
    BehindType (token :: rest)
  | comma {token : Token} {rest : List Token} : token.kind = .mark .comma →
    BehindType (token :: rest)
  | greater {token : Token} {rest : List Token} : token.kind = .mark .greater →
    BehindType (token :: rest)

/-- What stands behind names and does not go on with them. -/
structure BehindNames (tokens : List Token) : Prop where
  less : headKind tokens ≠ .mark .less
  dot : headKind tokens ≠ .mark .dot

theorem BehindType.names {rest : List Token} (h : BehindType rest) : BehindNames rest := by
  cases h <;> constructor <;> simp [headKind, *]

theorem BehindType.annotations {rest : List Token} (h : BehindType rest) :
    BehindAnnotations rest := by
  cases h <;> exact ⟨⟨by simp [headKind, *], by simp [headKind, *]⟩, by simp [headKind, *]⟩

/-- Where no brackets come next, what comes next closes the type. -/
theorem dimensionsFrom?_of_closed {depth : Nat} {tokens : List Token}
    (hat : headKind tokens ≠ .mark .atSign) (hopen : headKind tokens ≠ .mark .openBracket) :
    dimensionsFrom? depth tokens = closeFrom? depth tokens := by
  have hannotations := afterAnnotations?_of_atSign hat
  rw [dimensionsFrom?]
  split
  · rename_i h
    cases hannotations.symm.trans h
  · rename_i opening closing more h
    obtain rfl := Option.some.inj (hannotations.symm.trans h)
    exact if_neg fun hbrackets => hopen hbrackets.1
  · rfl

/-- Behind all dimensions stands what closes the type. -/
theorem dimensionsFrom?_of_dimensions {dimensions : List Token} (h : Dimensions dimensions)
    (depth : Nat) {rest : List Token} (hr : BehindType rest) :
    dimensionsFrom? depth (dimensions ++ rest) = closeFrom? depth rest := by
  induction h with
  | nil => exact dimensionsFrom?_of_closed hr.annotations.atSign (by cases hr <;> simp [headKind, *])
  | @cons notes more opening closing hnotes hopening hclosing _ ih =>
    have hbehind : BehindAnnotations (opening :: closing :: (more ++ rest)) :=
      ⟨⟨by simp [headKind, hopening], by simp [headKind, hopening]⟩, by simp [headKind, hopening]⟩
    have hannotations := afterAnnotations?_of_annotations hnotes hbehind
    rw [List.append_assoc, List.cons_append, List.cons_append, dimensionsFrom?]
    split
    · rename_i h
      cases hannotations.symm.trans h
    · rename_i h
      cases hannotations.symm.trans h
      rw [if_pos ⟨hopening, hclosing⟩, ih]
    · rename_i hnone h
      exact (hnone _ _ _ (Option.some.inj (h.symm.trans hannotations))).elim

/-- Where neither a name nor type arguments come next, the dimensions do. -/
theorem qualifiedFrom?_of_behindNames {depth : Nat} {tokens : List Token}
    (h : headKind tokens ≠ .mark .dot) : qualifiedFrom? depth tokens = dimensionsFrom? depth tokens := by
  cases tokens with
  | nil => rw [qualifiedFrom?]
  | cons first rest =>
    rw [qualifiedFrom?]
    exact if_neg h

/-- A dot, annotations and a name are left behind. -/
theorem qualifiedFrom?_of_dot {depth : Nat} {dot first : Token} {notes rest : List Token}
    (hd : dot.kind = .mark .dot) (hn : Annotations notes) (hf : first.kind = .identifier) :
    qualifiedFrom? depth (dot :: (notes ++ first :: rest)) = namedFrom? depth rest := by
  have hbehind : BehindAnnotations (first :: rest) :=
    ⟨⟨by simp [headKind, hf], by simp [headKind, hf]⟩, by simp [headKind, hf]⟩
  have hannotations := afterAnnotations?_of_annotations hn hbehind
  rw [qualifiedFrom?, if_pos hd]
  split
  · rename_i h
    cases hannotations.symm.trans h
  · rename_i h
    cases hannotations.symm.trans h
  · rename_i h
    cases hannotations.symm.trans h
    exact if_pos hf

theorem namedFrom?_of_plain {depth : Nat} {tokens : List Token} (h : headKind tokens ≠ .mark .less) :
    namedFrom? depth tokens = qualifiedFrom? depth tokens := by
  cases tokens with
  | nil => rw [namedFrom?]
  | cons first rest =>
    rw [namedFrom?]
    exact if_neg h

/-- What starts a type behind its annotations. -/
def startsType (kind : TokenKind) : Prop := kind.isPrimitiveType ∨ kind = .identifier

theorem startsType.behindAnnotations {first : Token} (h : startsType first.kind) (rest : List Token) :
    BehindAnnotations (first :: rest) := by
  refine ⟨⟨?_, ?_⟩, ?_⟩
  all_goals
    intro hk
    change first.kind = _ at hk
    rw [hk] at h
    simp [startsType, TokenKind.isPrimitiveType] at h

theorem typeFrom?_of_some {depth : Nat} {first : Token} {tokens rest : List Token}
    (h : afterAnnotations? tokens = some (first :: rest)) :
    typeFrom? depth tokens =
      if first.kind.isPrimitiveType then dimensionsFrom? depth rest
      else if first.kind = .identifier then namedFrom? depth rest
      else none := by
  rw [typeFrom?]
  split
  · rename_i h'
    cases h.symm.trans h'
  · rename_i h'
    cases h.symm.trans h'
  · rename_i h'
    cases h.symm.trans h'
    rfl

theorem argumentFrom?_of_some {depth : Nat} {first : Token} {tokens rest : List Token}
    (h : afterAnnotations? tokens = some (first :: rest)) :
    argumentFrom? depth tokens =
      if first.kind = .mark .question then
        match headKind rest with
        | .keyword .extendsKw | .keyword .superKw => typeFrom? (depth + 1) (rest.drop 1)
        | _ => closeFrom? (depth + 1) rest
      else typeFrom? (depth + 1) (first :: rest) := by
  rw [argumentFrom?]
  split
  · rename_i h'
    cases h.symm.trans h'
  · rename_i h'
    cases h.symm.trans h'
  · rename_i h'
    cases h.symm.trans h'
    rfl

theorem Annotations.headKind_append {notes : List Token} (h : Annotations notes) (rest : List Token) :
    headKind (notes ++ rest) = .mark .atSign ∨ headKind (notes ++ rest) = headKind rest := by
  cases h with
  | nil => exact .inr rfl
  | cons hnote => exact .inl (by rw [List.append_assoc, hnote.headKind_append])

/-! ## All parts -/

/-- What the lookahead does with a part of a type: it leaves the part behind and goes on with what may
stand there. -/
def LookedPast : TypePart → List Token → Prop
  | .type, tokens => ∃ notes first more, tokens = notes ++ first :: more ∧ Annotations notes ∧
    startsType first.kind ∧ ∀ depth rest, BehindType rest →
      typeFrom? depth (first :: (more ++ rest)) = closeFrom? depth rest
  | .bare, tokens => ∃ first more, tokens = first :: more ∧ startsType first.kind ∧
    ∀ depth rest, BehindType rest →
      typeFrom? depth (first :: (more ++ rest)) = closeFrom? depth rest
  | .names, tokens => ∃ first more, tokens = first :: more ∧ first.kind = .identifier ∧
    ∀ depth rest, BehindNames rest → namedFrom? depth (more ++ rest) = dimensionsFrom? depth rest
  | .arguments, tokens => ∀ depth rest, headKind rest ≠ .mark .less →
    namedFrom? depth (tokens ++ rest) = qualifiedFrom? depth rest
  | .list, tokens => ∀ depth closing rest, closing.kind = .mark .greater →
    headKind (tokens ++ closing :: rest) ≠ .mark .greater ∧
      argumentFrom? depth (tokens ++ closing :: rest) = qualifiedFrom? depth rest
  | .argument, tokens => ∀ depth rest, BehindType rest →
    headKind (tokens ++ rest) ≠ .mark .greater ∧
      argumentFrom? depth (tokens ++ rest) = closeFrom? (depth + 1) rest

theorem startsType.ne {kind : TokenKind} (h : startsType kind) (mark : Mark) : kind ≠ .mark mark := by
  rintro rfl
  simp [startsType, TokenKind.isPrimitiveType] at h

theorem LookedPast.type {tokens rest : List Token} (h : LookedPast .type tokens) (depth : Nat)
    (hr : BehindType rest) : typeFrom? depth (tokens ++ rest) = closeFrom? depth rest := by
  obtain ⟨notes, first, more, rfl, hnotes, hfirst, hlook⟩ := h
  have hbehind := hfirst.behindAnnotations (more ++ rest)
  rw [List.append_assoc, List.cons_append,
    typeFrom?_of_some (afterAnnotations?_of_annotations hnotes hbehind),
    ← typeFrom?_of_some (afterAnnotations?_of_atSign hbehind.atSign), hlook depth rest hr]

theorem Dimensions.behindNames {dimensions rest : List Token} (h : Dimensions dimensions)
    (hr : BehindType rest) : BehindNames (dimensions ++ rest) := by
  cases h with
  | nil => exact hr.names
  | @cons notes more opening closing hnotes hopening hclosing hmore =>
    have hhead := hnotes.headKind_append (opening :: closing :: (more ++ rest))
    rw [List.append_assoc, List.cons_append, List.cons_append]
    rcases hhead with hhead | hhead
    · constructor <;> simp [hhead]
    · constructor <;> (rw [hhead]; simp [headKind, hopening])

/-- A question mark is left behind, perhaps with a word and a type. -/
theorem question_of_annotations {notes : List Token} {question : Token} (hn : Annotations notes)
    (hq : question.kind = .mark .question) (depth : Nat) (rest : List Token) :
    headKind (notes ++ question :: rest) ≠ .mark .greater ∧
      argumentFrom? depth (notes ++ question :: rest) =
        match headKind rest with
        | .keyword .extendsKw | .keyword .superKw => typeFrom? (depth + 1) (rest.drop 1)
        | _ => closeFrom? (depth + 1) rest := by
  have hbehind : BehindAnnotations (question :: rest) :=
    ⟨⟨by simp [headKind, hq], by simp [headKind, hq]⟩, by simp [headKind, hq]⟩
  constructor
  · rcases hn.headKind_append (question :: rest) with hhead | hhead
    · simp [hhead]
    · rw [hhead]
      simp [headKind, hq]
  · rw [argumentFrom?_of_some (afterAnnotations?_of_annotations hn hbehind), if_pos hq]

theorem TypeTokens.lookedPast {part : TypePart} {tokens : List Token} (h : TypeTokens part tokens) :
    LookedPast part tokens := by
  induction h with
  | annotated hnotes _ ih =>
    obtain ⟨first, more, rfl, hfirst, hlook⟩ := ih
    exact ⟨_, first, more, rfl, hnotes, hfirst, hlook⟩
  | @primitive first dimensions hfirst hdimensions =>
    have hstarts : startsType first.kind := .inl hfirst
    refine ⟨first, dimensions, rfl, hstarts, fun depth rest hr => ?_⟩
    have hbehind := hstarts.behindAnnotations (dimensions ++ rest)
    rw [typeFrom?_of_some (afterAnnotations?_of_atSign hbehind.atSign), if_pos hfirst,
      dimensionsFrom?_of_dimensions hdimensions depth hr]
  | @named names dimensions _ hdimensions ih =>
    obtain ⟨first, more, rfl, hfirst, hlook⟩ := ih
    have hstarts : startsType first.kind := .inr hfirst
    have hprimitive : ¬first.kind.isPrimitiveType := by simp [hfirst, TokenKind.isPrimitiveType]
    refine ⟨first, more ++ dimensions, rfl, hstarts, fun depth rest hr => ?_⟩
    have hbehind := hstarts.behindAnnotations (more ++ dimensions ++ rest)
    rw [typeFrom?_of_some (afterAnnotations?_of_atSign hbehind.atSign), if_neg hprimitive,
      if_pos hfirst, List.append_assoc, hlook depth _ (hdimensions.behindNames hr),
      dimensionsFrom?_of_dimensions hdimensions depth hr]
  | @name first arguments hfirst _ ih =>
    refine ⟨first, arguments, rfl, hfirst, fun depth rest hr => ?_⟩
    rw [ih depth rest hr.less, qualifiedFrom?_of_behindNames hr.dot]
  | @qualified first dot arguments notes names hfirst _ hdot hnotes _ ih ih' =>
    obtain ⟨next, more, rfl, hnext, hlook⟩ := ih'
    refine ⟨first, _, rfl, hfirst, fun depth rest hr => ?_⟩
    have hless : headKind (dot :: (notes ++ next :: (more ++ rest))) ≠ .mark .less := by
      simp [headKind, hdot]
    rw [List.append_assoc, List.cons_append, List.append_assoc, List.cons_append,
      ih depth _ hless, qualifiedFrom?_of_dot hdot hnotes hnext, hlook depth rest hr]
  | plain => exact fun depth rest h => namedFrom?_of_plain h
  | @generic opening closing inside hopening _ hclosing ih =>
    intro depth rest _
    obtain ⟨hhead, hlist⟩ := ih depth closing rest hclosing
    rw [List.cons_append, List.append_assoc, List.singleton_append, namedFrom?, if_pos hopening,
      if_neg hhead, hlist]
  | last _ ih =>
    intro depth closing rest hclosing
    obtain ⟨hhead, hargument⟩ := ih depth (closing :: rest) (.greater hclosing)
    refine ⟨hhead, ?_⟩
    rw [hargument, closeFrom?, hclosing]
  | @cons comma tokens more _ hcomma _ ih ih' =>
    intro depth closing rest hclosing
    obtain ⟨hhead, hargument⟩ := ih depth (comma :: (more ++ closing :: rest)) (.comma hcomma)
    obtain ⟨-, hlist⟩ := ih' depth closing rest hclosing
    rw [List.append_assoc, List.cons_append]
    refine ⟨hhead, ?_⟩
    rw [hargument, closeFrom?, hcomma]
    exact hlist
  | exact _ ih =>
    intro depth rest hr
    obtain ⟨notes, first, more, rfl, hnotes, hfirst, hlook⟩ := ih
    have hbehind := hfirst.behindAnnotations (more ++ rest)
    rw [List.append_assoc, List.cons_append]
    constructor
    · rcases hnotes.headKind_append (first :: (more ++ rest)) with hhead | hhead
      · simp [hhead]
      · rw [hhead]
        exact hfirst.ne _
    · rw [argumentFrom?_of_some (afterAnnotations?_of_annotations hnotes hbehind),
        if_neg (hfirst.ne _), hlook (depth + 1) rest hr]
  | @wildcard notes question hnotes hquestion =>
    intro depth rest hr
    obtain ⟨hhead, hlook⟩ := question_of_annotations hnotes hquestion depth rest
    rw [List.append_assoc, List.singleton_append]
    refine ⟨hhead, hlook.trans ?_⟩
    cases hr <;> simp [headKind, *]
  | @bounded notes tokens question bound hnotes hquestion hbound _ ih =>
    intro depth rest hr
    obtain ⟨hhead, hlook⟩ :=
      question_of_annotations hnotes hquestion depth (bound :: (tokens ++ rest))
    rw [List.append_assoc, List.cons_append, List.cons_append]
    refine ⟨hhead, hlook.trans ?_⟩
    rcases hbound with hbound | hbound <;> simp [headKind, hbound, ih.type (depth + 1) hr]

/-- A type is left behind by the lookahead, and nothing else. -/
theorem afterType?_of_type {tokens rest : List Token} (h : TypeTokens .type tokens)
    (hr : BehindType rest) : afterType? (tokens ++ rest) = some rest := by
  rw [afterType?, h.lookedPast.type 0 hr, closeFrom?]

/-! ## Intersections -/

/-- The first type of an intersection is left behind, and then the others. -/
theorem exists_of_intersection {tokens rest : List Token} (h : Intersection tokens)
    (hr : headKind rest = .mark .closeParen) :
    ∃ behind, afterType? (tokens ++ rest) = some behind ∧ afterIntersection? behind = some rest ∧
      afterAlternatives behind = rest := by
  obtain ⟨closing, rest, rfl, hclosing⟩ : ∃ closing more, rest = closing :: more ∧
      closing.kind = .mark .closeParen := by
    cases rest with
    | nil => cases hr
    | cons closing more => exact ⟨closing, more, rfl, hr⟩
  induction h with
  | last h =>
    refine ⟨_, afterType?_of_type h (.closeParen hclosing), ?_, ?_⟩
    · rw [afterIntersection?, if_neg (by simp [hclosing])]
    · rw [afterAlternatives, if_neg (by simp [hclosing])]
  | @cons ampersand tokens more h hampersand _ ih =>
    obtain ⟨behind, hlook, hintersection, halternatives⟩ := ih
    rw [List.append_assoc, List.cons_append]
    refine ⟨_, afterType?_of_type h (.ampersand hampersand), ?_, ?_⟩
    · rw [afterIntersection?, if_pos hampersand]
      split
      · rename_i h'
        cases hlook.symm.trans h'
        exact hintersection
      · rename_i h'
        cases hlook.symm.trans h'
    · rw [afterAlternatives, if_pos (.inr hampersand)]
      split
      · rename_i h'
        cases hlook.symm.trans h'
        exact halternatives
      · rename_i h'
        cases hlook.symm.trans h'

/-! ## Parentheses in types -/

theorem Balanced.append {tokens more : List Token} (h : Balanced tokens) (hm : Balanced more) :
    Balanced (tokens ++ more) := by
  induction h with
  | nil => exact hm
  | token hend hopen hclose _ ih => exact .token hend hopen hclose ih
  | group hopening hinside hclosing _ _ ih =>
    rw [List.cons_append, List.append_assoc, List.cons_append]
    exact .group hopening hinside hclosing ih

/-- Whether a kind is neither a parenthesis nor the end of the file. -/
def isPlain : TokenKind → Bool
  | .endOfFile | .mark .openParen | .mark .closeParen => false
  | _ => true

theorem Balanced.cons {token : Token} {rest : List Token} {kind : TokenKind} (hk : token.kind = kind)
    (hp : isPlain kind) (h : Balanced rest) : Balanced (token :: rest) := by
  subst hk
  refine .token ?_ ?_ ?_ h
  all_goals
    intro hk
    rw [hk] at hp
    cases hp

theorem Dotted.balanced {dotted : List Token} (h : Dotted dotted) : Balanced dotted := by
  induction h with
  | nil => exact .nil
  | cons hdot hname _ ih => exact .cons hdot rfl (.cons hname rfl ih)

theorem Annotation.balanced {tokens : List Token} (h : Annotation tokens) : Balanced tokens := by
  obtain ⟨hsign, hname, hdotted, harguments⟩ := h
  refine .cons hsign rfl (.cons hname rfl (hdotted.balanced.append ?_))
  cases harguments with
  | none => exact .nil
  | group hopening hinside hclosing => exact .group hopening hinside hclosing .nil

theorem Annotations.balanced {notes : List Token} (h : Annotations notes) : Balanced notes := by
  induction h with
  | nil => exact .nil
  | cons hnote _ _ ih => exact hnote.balanced.append ih

theorem Dimensions.balanced {dimensions : List Token} (h : Dimensions dimensions) :
    Balanced dimensions := by
  induction h with
  | nil => exact .nil
  | cons hnotes hopening hclosing _ ih =>
    exact hnotes.balanced.append (.cons hopening rfl (.cons hclosing rfl ih))

theorem startsType.balanced {first : Token} {rest : List Token} (hf : startsType first.kind)
    (h : Balanced rest) : Balanced (first :: rest) := by
  refine .token ?_ (hf.ne _) (hf.ne _) h
  intro hk
  rw [hk] at hf
  simp [startsType, TokenKind.isPrimitiveType] at hf

theorem TypeTokens.balanced {part : TypePart} {tokens : List Token} (h : TypeTokens part tokens) :
    Balanced tokens := by
  induction h with
  | annotated hnotes _ ih => exact hnotes.balanced.append ih
  | primitive hfirst hdimensions => exact startsType.balanced (.inl hfirst) hdimensions.balanced
  | named _ hdimensions ih => exact ih.append hdimensions.balanced
  | name hfirst _ ih => exact .cons hfirst rfl ih
  | qualified hfirst _ hdot hnotes _ ih ih' =>
    exact .cons hfirst rfl (ih.append (.cons hdot rfl (hnotes.balanced.append ih')))
  | plain => exact .nil
  | generic hopening _ hclosing ih => exact .cons hopening rfl (ih.append (.cons hclosing rfl .nil))
  | last _ ih => exact ih
  | cons _ hcomma _ ih ih' => exact ih.append (.cons hcomma rfl ih')
  | exact _ ih => exact ih
  | wildcard hnotes hquestion => exact hnotes.balanced.append (.cons hquestion rfl .nil)
  | bounded hnotes hquestion hbound _ ih =>
    refine hnotes.balanced.append (.cons hquestion rfl ?_)
    rcases hbound with hbound | hbound <;> exact .cons hbound rfl ih

theorem Intersection.balanced {tokens : List Token} (h : Intersection tokens) : Balanced tokens := by
  induction h with
  | last h => exact h.balanced
  | cons h hampersand _ ih => exact h.balanced.append (.cons hampersand rfl ih)

end JavaNames.Grammar
