/-
Casts as they are written: a type in parentheses and an operand. Main statement: the reader of expressions
takes them for casts, and reads the operand as it reads it on its own.
-/
import JavaNames.Proofs.Printing.Inverse
import JavaNames.Proofs.Written.Operand
import JavaNames.Proofs.Written.Type

namespace JavaNames

/-- A store with a node for a type, which spans certain tokens. -/
def Tree.addType (tree : Tree) (text : String) (type : List Token) (hne : type ≠ []) : Tree :=
  let start := (type.head hne).start
  let stop := (type.getLast hne).stop
  tree.add .typeReference start stop (.typeReference (Text.spaced (Text.slice text start stop)))

namespace Grammar

/-! ## Expressions of one operand -/

section

variable {input : Input} {s s' : State}

/-- What is read as a unary expression to the end of the tokens is the whole expression. -/
theorem run_expression_of_unary {link : Link} (hb : s.tokens.length < input.budget)
    (hl : isLambda s.tokens = false) (htooDeep : s.tooDeep = none) (hroom : s.depth < maxNesting)
    (h : ((input.readers .unary).run input).run s.enter = (link, s')) (hsome : link.isSome)
    (hend : s'.tokens = []) :
    ((input.readers .expression).run input).run s = (link, s'.leave) := by
  have hfinal : Final s'.tokens := hend ▸ .of_isCloser rfl
  have hbinary : ((input.readers (.binary 0)).run input).run s.enter = (link, s') := by
    have hfirst : s.enter.tokens.length < input.budget := hb
    refine (run_readers hfirst _).trans ((run_binary _ 0 h hsome).trans ?_)
    exact run_iterate_of_last (Nat.zero_lt_of_lt hb)
      (run_operatorRound_of_bounded _ _ _ _ hfinal.bounded)
  have hconditional := run_conditional_of_binary hbinary hsome hfinal.question
  refine (run_readers hb _).trans ?_
  exact run_expression_of_room htooDeep hroom hl hconditional hfinal.assignment

/-- Where a cast comes next, it is read. -/
theorem run_unary_of_cast (r : Readers) (p : Parse Link) {link : Link}
    (hk : headKind s.tokens = .mark .openParen) (hcast : isCast s.tokens)
    (htooDeep : s.tooDeep = none) (hroom : s.depth < maxNesting)
    (h : ((Parse.cast r).run input).run s.enter = (link, s')) :
    ((Parse.unary r p).run input).run s = (link, s'.leave) := by
  have hinside (q : Parse Link) (hq : (q.run input).run s.enter = (link, s')) :
      ((Parse.nested q).run input).run s = (some link, s'.leave) :=
    run_nested_of_room htooDeep hroom hq
  refine (run_bind (hinside _ ?_)).trans rfl
  have hk' : headKind s.enter.tokens = .mark .openParen := hk
  have hcast' : isCast s.enter.tokens := hcast
  rw [run_offset, Parse.kind, run_look, hk']
  dsimp only
  rw [run_look, if_pos hcast', h]

end

/-- What an expression is read as from some tokens. -/
def Parse.expressionAlone (file text : String) (tokens : List Token) : Link × State :=
  (wholeExpression.run (.ofTokens file text tokens)).run (.start tokens [])

/-- An operand of a cast is an expression, too. -/
theorem IsOperand.expressionAlone_eq {file text : String} {tokens : List Token}
    (h : IsOperand file text tokens) :
    Parse.expressionAlone file text tokens = Parse.operandAlone file text tokens 0 := by
  let input := Input.ofTokens file text tokens
  have hb : (State.start tokens []).tokens.length < input.budget := Nat.lt_succ_self _
  have hexpression : Parse.expressionAlone file text tokens =
      ((input.readers .expression).run input).run (.start tokens []) := rfl
  have hoperand (levels : Nat) : Parse.operandAlone file text tokens levels =
      (((if isLambda tokens then Parse.lambda input.readers else input.readers .unary).run input).run
        ((State.start tokens []).deeper levels)) := rfl
  rw [hexpression]
  by_cases hl : isLambda tokens
  · rw [hoperand, if_pos hl]
    refine (run_readers hb _).trans ?_
    change ((Parse.expression input.readers).run input).run _ = _
    rw [Parse.expression, run_look]
    exact congrArg (fun p : Parse Link => (p.run input).run (.start tokens [])) (if_pos hl)
  · have hunary := h.alone_eq (Nat.le_succ 1)
    rw [hoperand 1, if_neg hl] at hunary
    have hroom : (State.start tokens []).depth < maxNesting := show 0 < maxNesting by decide
    refine (run_expression_of_unary hb (Bool.eq_false_iff.2 hl) rfl hroom hunary ?_ ?_).trans ?_
    · have hsome := h.isSome
      rwa [h.alone_eq (Nat.le_refl 2)] at hsome
    · have hend := h.toEnd
      rwa [h.alone_eq (Nat.le_refl 2)] at hend
    · rfl

/-! ## Looking ahead -/

/-- A type in parentheses in front of other tokens. -/
def castTokens (opening closing : Token) (type operand : List Token) : List Token :=
  opening :: (type ++ closing :: operand)

/-- Types and operands between which nothing but a cast may stand: the type is primitive, or the operand
starts neither with a sign that may stand between operands nor with a primitive type. -/
def Castable (type operand : List Token) : Prop :=
  (headKind type).isPrimitiveType ∨
    isSign (headKind operand) = false ∧ (headKind operand).isPrimitiveType = false

theorem Intersection.ne_nil {type : List Token} (h : Intersection type) : type ≠ [] := by
  have hne {tokens : List Token} (h : TypeTokens .type tokens) : tokens ≠ [] := by
    obtain ⟨_, hbare⟩ := h
    cases hbare with
    | primitive => simp
    | named hnames => cases hnames <;> simp
  cases h with
  | last h => exact hne h
  | cons => simp

theorem headKind_append {tokens : List Token} (h : tokens ≠ []) (rest : List Token) :
    headKind (tokens ++ rest) = headKind tokens := by
  cases tokens with
  | nil => exact absurd rfl h
  | cons => rfl

section

variable {opening closing : Token} {type operand : List Token} (ho : opening.kind = .mark .openParen)
  (ht : Intersection type) (hc : closing.kind = .mark .closeParen) (hs : StartsOperand operand)

include ht hc hs

include ho in
theorem isLambda_castTokens : isLambda (castTokens opening closing type operand) = false := by
  have hopen : headKind (castTokens opening closing type operand) = .mark .openParen := ho
  have harrow : headKind operand ≠ .mark .arrow := by
    intro harrow
    have hk : startsCastOperand (headKind operand) ∨ isSign (headKind operand) ∨
        (headKind operand).isPrimitiveType := by
      cases hs with
      | plain h => exact .inl h
      | sign h => exact .inr (.inl h)
      | type h => exact .inr (.inr h)
    rw [harrow] at hk
    rcases hk with h | h | h <;> cases h
  rw [isLambda, hopen]
  dsimp only
  rw [castTokens, afterGroup?_of_balanced ho ht.balanced hc]
  split
  · exact decide_eq_false harrow
  · rfl

theorem isCast_castTokens (h : Castable type operand) :
    isCast (castTokens opening closing type operand) := by
  have hclosing : headKind (closing :: operand) = .mark .closeParen := hc
  obtain ⟨behind, hlook, hintersection, -⟩ := exists_of_intersection ht hclosing
  have hcast : isCast (castTokens opening closing type operand) =
      (headKind (closing :: operand) = .mark .closeParen &&
        ((headKind (type ++ closing :: operand)).isPrimitiveType ||
          startsCastOperand (headKind operand))) := by
    have hbehind : (afterType? ((castTokens opening closing type operand).drop 1)).bind
        afterIntersection? = some (closing :: operand) := by
      change (afterType? (type ++ closing :: operand)).bind _ = _
      rw [hlook]
      exact hintersection
    rw [isCast, hbehind]
    rfl
  rw [hcast, headKind_append ht.ne_nil]
  simp only [hclosing, decide_true, Bool.true_and, Bool.or_eq_true]
  rcases h with hprimitive | ⟨hsign, hplain⟩
  · exact .inl hprimitive
  · cases hs with
    | plain h => exact .inr h
    | sign h => exact absurd h (Bool.eq_false_iff.1 hsign)
    | type h => exact absurd h (Bool.eq_false_iff.1 hplain)

end

/-! ## Reading casts -/

theorem State.lastStop_advanceBy {s : State} {front behind : List Token} (hne : front ≠ [])
    (h : s.tokens = front ++ behind) :
    (s.advanceBy front.length).lastStop = (front.getLast hne).stop := by
  induction front generalizing s with
  | nil => exact absurd rfl hne
  | cons first front ih =>
    have htokens : s.advance.tokens = front ++ behind := tokens_advance h
    cases front with
    | nil => rw [List.length_singleton, advanceBy, advanceBy, State.advance, h]; rfl
    | cons second front =>
      rw [List.getLast_cons (List.cons_ne_nil _ _)]
      exact ih _ htokens

/-- A type in front of a parenthesis is read to its end, into a node that spans it. -/
theorem exists_of_typeReference (input : Input) {s : State} {type rest : List Token}
    (ht : Intersection type) (hts : s.tokens = type ++ rest) (hr : headKind rest = .mark .closeParen) :
    ∃ t, ((Parse.typeReference true).run input).run s = (some s.tree.size, t) ∧ t.tokens = rest ∧
      s.Kept t ∧ t.tree = s.tree.addType input.text type ht.ne_nil := by
  obtain ⟨behind, hlook, -, halternatives⟩ := exists_of_intersection ht hr
  have hstart : s.offset input = (type.head ht.ne_nil).start := by
    rw [State.offset, hts]
    cases type with
    | nil => exact absurd rfl ht.ne_nil
    | cons => rfl
  have hto : ((Parse.advanceTo rest).run input).run s = ((), s.advanceBy type.length) := by
    have hlength : s.tokens.length - rest.length = type.length := by simp [hts]
    rw [Parse.advanceTo, run_look, hlength]
    exact run_advanceBy type.length pure s
  have hnode (t : State) (start : Nat) : ((Parse.typeNode start).run input).run t =
      (some t.tree.size, t.add .typeReference start t.lastStop
        (.typeReference (Text.spaced (Text.slice input.text start t.lastStop)))) := rfl
  rw [Parse.typeReference, run_offset, run_look, hts, hlook]
  dsimp only
  rw [if_pos rfl, halternatives, run_bind hto, hnode, State.tree_advanceBy]
  refine ⟨_, rfl, State.tokens_advanceBy_length hts,
    ((State.Kept.refl s).advanceBy _).add _ _ _ _, ?_⟩
  simp only [State.add, State.tree_advanceBy, State.lastStop_advanceBy ht.ne_nil hts, hstart,
    Tree.addType]

/-- A cast that is read from all of its tokens: in front of its node stand one for the type, which spans
the tokens of the type, and those that the operand is read into on its own. -/
structure IsCastOf (text : String) (opening : Token) (type : List Token) (hne : type ≠ [])
    (operand cast : Link × State) : Prop where
  toEnd : cast.2.tokens = []
  quiet : cast.2.Quiet
  tree : cast.2.tree = ((Tree.empty.addType text type hne).append operand.2.tree).add .cast
    opening.start (max operand.2.lastStop opening.start) (.cast (some 0) (Link.shift 1 operand.1))
  link : cast.1 = some (1 + operand.2.tree.size)
  isSome : operand.1.isSome

section

variable {file text : String} {opening closing : Token} {type operand : List Token}
  (ho : opening.kind = .mark .openParen) (ht : Intersection type)
  (hc : closing.kind = .mark .closeParen) (h : IsOperand file text operand)

include ht hc h

/-- Where a cast is read, it is read as one. -/
theorem exists_of_cast {budget : Nat} (hb : operand.length < budget) {s : State}
    (hs : s = (State.start (castTokens opening closing type operand) []).deeper 2) :
    ∃ cast, ((Parse.cast (Parse.readersTo (8 * budget))).run
        { Input.ofTokens file text operand with budget }).run s = cast ∧
      IsCastOf text opening type ht.ne_nil (Parse.operandAlone file text operand 2) cast := by
  have htokens : s.tokens = opening :: (type ++ closing :: operand) := by rw [hs]; rfl
  have hoffset (input : Input) : s.offset input = opening.start := by rw [State.offset, htokens]; rfl
  have hclosing : headKind (closing :: operand) = .mark .closeParen := hc
  -- the states in front of the parenthesis that closes, and behind it
  obtain ⟨t, htype, hleft, hkept, htree⟩ := exists_of_typeReference
    { Input.ofTokens file text operand with budget } ht (State.tokens_advance htokens) hclosing
  replace hkept := ((State.Kept.refl s).advance.trans hkept).advance
  replace htree : t.advance.tree = Tree.empty.addType text type ht.ne_nil := by
    rw [State.tree_advance, htree, State.tree_advance, hs]
    rfl
  have hoperand := h.run_behind hb (State.tokens_advance hleft)
    (hkept.depth.trans (by rw [hs]; rfl)) (hkept.tooDeep.trans (by rw [hs]; rfl))
  have hnone : s.advance.tree.size = 0 := by rw [State.tree_advance, hs]; rfl
  rw [Parse.cast_eq, run_offset, run_advance, run_bind htype,
    run_bind (run_require (hleft ▸ hclosing)), run_bind hoperand, hoffset, hnone]
  refine ⟨_, rfl, h.toEnd, ⟨?_, h.quiet.2⟩, ?_, ?_, h.isSome⟩
  · change t.advance.diagnostics ++ _ = #[]
    rw [hkept.diagnostics, h.quiet.1, hs]
    rfl
  · change (t.advance.tree.append _).add _ _ _ (.cast _ (Link.shift t.advance.tree.size _)) = _
    rw [htree]
    rfl
  · change some (t.advance.tree.append _).size = _
    rw [htree, Tree.size_append]
    rfl

include ho in
/-- A type in parentheses in front of an operand is read as a cast of what the operand is read as. -/
theorem expressionAlone_castTokens (hs : Castable type operand) :
    IsCastOf text opening type ht.ne_nil (Parse.expressionAlone file text operand)
      (Parse.expressionAlone file text (castTokens opening closing type operand)) := by
  obtain ⟨input, hinput⟩ : ∃ input, input =
    Input.ofTokens file text (castTokens opening closing type operand) := ⟨_, rfl⟩
  obtain ⟨s, hstart⟩ : ∃ s, s = State.start (castTokens opening closing type operand) [] := ⟨_, rfl⟩
  have htokens : s.tokens = castTokens opening closing type operand := by rw [hstart]; rfl
  have htooDeep : s.tooDeep = none := by rw [hstart]; rfl
  have hdepth : s.depth = 0 := by rw [hstart]; rfl
  have hb : s.tokens.length < input.budget := by
    rw [htokens, hinput]
    exact Nat.lt_succ_self _
  have hshort : operand.length < input.budget := by
    rw [hinput]
    simp only [Input.ofTokens, castTokens, List.length_cons, List.length_append]
    omega
  -- a unary expression inside of the expression, and the cast inside of that
  obtain ⟨cast, hcast, hof⟩ := exists_of_cast ht hc h hshort (s := s.deeper 2) (by rw [hstart])
  have hunary : ((input.readers .unary).run input).run s.enter = (cast.1, cast.2.leave) := by
    have hroom : s.enter.depth < maxNesting := by
      change s.depth + 1 < maxNesting
      rw [hdepth]
      decide
    refine (run_readers (s := s.enter) hb _).trans
      (run_unary_of_cast _ _ ?_ ?_ htooDeep hroom ?_)
    · change headKind s.tokens = _
      rw [htokens]
      exact ho
    · change isCast s.tokens
      rw [htokens]
      exact isCast_castTokens ht hc h.startsOperand hs
    · rw [hinput] at hcast ⊢
      exact hcast
  have hexpression : ((input.readers .expression).run input).run s =
      (cast.1, cast.2.leave.leave) := by
    have hroom : s.depth < maxNesting := by
      rw [hdepth]
      decide
    refine run_expression_of_unary hb ?_ htooDeep hroom hunary (by rw [hof.link]; rfl) hof.toEnd
    rw [htokens]
    exact isLambda_castTokens ho ht hc h.startsOperand
  have hwhole : Parse.expressionAlone file text (castTokens opening closing type operand) =
      (cast.1, cast.2.leave.leave) := by
    rw [← hexpression, hinput, hstart]
    rfl
  rw [hwhole, h.expressionAlone_eq]
  rw [h.alone_eq (Nat.le_refl 2)] at hof
  exact ⟨hof.toEnd, hof.quiet, hof.tree, hof.link, hof.isSome⟩

end

namespace IsCastOf

variable {text : String} {opening : Token} {type : List Token} {hne : type ≠ []}
  {operand cast : Link × State} (h : IsCastOf text opening type hne operand cast)

include h

/-- In front of the node of the cast, which is the last one, the store is that of the parts. -/
theorem node?_of_lt {id : NodeId} (hid : id < 1 + operand.2.tree.size) : cast.2.tree.node? id =
    ((Tree.empty.addType text type hne).append operand.2.tree).node? id := by
  rw [h.tree]
  refine Tree.node?_add_of_lt _ _ _ _ _ ?_
  rwa [Tree.size_append]

/-- The type spans its tokens. -/
theorem node?_type : ∃ spelling, cast.2.tree.node? 0 = some ⟨.typeReference,
    (type.head hne).start, (type.getLast hne).stop, none, .typeReference spelling⟩ := by
  rw [h.node?_of_lt (Nat.add_pos_left Nat.one_pos _), Tree.node?_append_of_lt _ _ Nat.one_pos]
  exact ⟨_, rfl⟩

/-- The nodes of the operand are those that it is read into on its own, behind that of the type. -/
theorem node?_operand {id : NodeId} (hid : id < operand.2.tree.size) :
    cast.2.tree.node? (1 + id) = (operand.2.tree.node? id).map (Node.shift 1) := by
  rw [h.node?_of_lt (Nat.add_lt_add_left hid 1)]
  exact Tree.node?_append _ _ id

theorem children_operand {id : NodeId} (hid : id < operand.2.tree.size) :
    cast.2.tree.children (1 + id) = (operand.2.tree.children id).map (1 + ·) := by
  have hnode := h.node?_operand hid
  cases hn : operand.2.tree.node? id with
  | none => rw [Tree.children, Tree.children, hnode, hn]; rfl
  | some node =>
    rw [hn] at hnode
    rw [Tree.children_eq hnode, Tree.children_eq hn, Node.children_shift]

end IsCastOf

/-- The tokens of `(M<A[]> & B) () -> c()`, apart. -/
def sampleType : List Token :=
  [⟨.identifier, 1, 2, "M"⟩, ⟨.mark .less, 2, 3, "<"⟩, ⟨.identifier, 3, 4, "A"⟩,
    ⟨.mark .openBracket, 4, 5, "["⟩, ⟨.mark .closeBracket, 5, 6, "]"⟩, ⟨.mark .greater, 6, 7, ">"⟩,
    ⟨.mark .ampersand, 8, 9, "&"⟩, ⟨.identifier, 10, 11, "B"⟩]

/-- The tokens of the lambda of `(M<A[]> & B) () -> c()`. -/
def sampleLambda : List Token :=
  [⟨.mark .openParen, 13, 14, "("⟩, ⟨.mark .closeParen, 14, 15, ")"⟩, ⟨.mark .arrow, 16, 18, "->"⟩,
    ⟨.identifier, 19, 20, "c"⟩, ⟨.mark .openParen, 20, 21, "("⟩, ⟨.mark .closeParen, 21, 22, ")"⟩]

theorem intersection_sampleType : Intersection sampleType := by
  have hbrackets : Dimensions ((sampleType.drop 3).take 2) :=
    @Dimensions.cons [] [] _ _ .nil rfl rfl .nil
  have harray : TypeTokens .bare ((sampleType.drop 2).take 3) :=
    @TypeTokens.named [_] _ (.name rfl .plain) hbrackets
  have hlist : TypeTokens .list ((sampleType.drop 2).take 3) :=
    .last (.exact (@TypeTokens.annotated [] _ .nil harray))
  have hnames : TypeTokens .names (sampleType.take 6) :=
    .name rfl (@TypeTokens.generic _ ⟨.mark .greater, 6, 7, ">"⟩ _ rfl hlist rfl)
  have hfirst : TypeTokens .type (sampleType.take 6) :=
    @TypeTokens.annotated [] _ .nil (@TypeTokens.named _ [] hnames .nil)
  have hsecond : TypeTokens .type (sampleType.drop 7) :=
    @TypeTokens.annotated [] _ .nil (@TypeTokens.named [_] [] (.name rfl .plain) .nil)
  exact @Intersection.cons ⟨.mark .ampersand, 8, 9, "&"⟩ _ _ hfirst rfl (.last hsecond)

/-- A lambda behind an intersection of types. -/
theorem expressionAlone_castTokens_lambda :
    IsCastOf "(M<A[]> & B) () -> c()" ⟨.mark .openParen, 0, 1, "("⟩ sampleType
      intersection_sampleType.ne_nil
      (Parse.expressionAlone "A.java" "(M<A[]> & B) () -> c()" sampleLambda)
      (Parse.expressionAlone "A.java" "(M<A[]> & B) () -> c()"
        (castTokens ⟨.mark .openParen, 0, 1, "("⟩ ⟨.mark .closeParen, 11, 12, ")"⟩ sampleType
          sampleLambda)) :=
  expressionAlone_castTokens rfl intersection_sampleType rfl
    ⟨by decide +kernel, by decide +kernel, by decide +kernel⟩ (.inr ⟨rfl, rfl⟩)

/-- The tokens of the literal of `(Object) int.class`. -/
def sampleClassLiteral : List Token :=
  [⟨.keyword .intKw, 9, 12, "int"⟩, ⟨.mark .dot, 12, 13, "."⟩, ⟨.keyword .classKw, 13, 18, "class"⟩]

/-- A type in parentheses in front of a class literal of a primitive type is not taken for a cast. -/
theorem not_isCastOf_sampleClassLiteral :
    ∃ ht : Intersection [⟨.identifier, 1, 7, "Object"⟩],
      IsOperand "A.java" "(Object) int.class" sampleClassLiteral ∧
        isSign (headKind sampleClassLiteral) = false ∧
        ¬IsCastOf "(Object) int.class" ⟨.mark .openParen, 0, 1, "("⟩ _ ht.ne_nil
          (Parse.expressionAlone "A.java" "(Object) int.class" sampleClassLiteral)
          (Parse.expressionAlone "A.java" "(Object) int.class"
            (castTokens ⟨.mark .openParen, 0, 1, "("⟩ ⟨.mark .closeParen, 7, 8, ")"⟩
              [⟨.identifier, 1, 7, "Object"⟩] sampleClassLiteral)) := by
  have ht : Intersection [⟨.identifier, 1, 7, "Object"⟩] :=
    .last (@TypeTokens.annotated [] _ .nil (@TypeTokens.named [_] [] (.name rfl .plain) .nil))
  refine ⟨ht, ⟨by decide +kernel, by decide +kernel, by decide +kernel⟩, rfl, fun h => ?_⟩
  exact absurd h.toEnd (by decide +kernel)

end Grammar

end JavaNames
