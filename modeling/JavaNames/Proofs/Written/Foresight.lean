/-
What is seen ahead is read. A lookahead and the reader that goes by it look for a type on their own, the
one among the tokens and the other to make a node of it. Main statement: where a lookahead has seen a
declaration of variables, a cast or the variable of a for-each loop, the reader finds the type up to
where the lookahead has seen it end, and what has to follow it, and reports nothing about them.
-/
import JavaNames.Proofs.Written.Operand

namespace JavaNames.Grammar

/-! ## Reading on -/

/-- Reading has gone on from a state: the nodes and the diagnostics that were there still are. -/
structure State.Precedes (s s' : State) : Prop where
  tree : s.tree.Extends s'.tree
  diagnostics : ∃ more, s'.diagnostics = s.diagnostics ++ more

namespace State.Precedes

variable {s s' s'' : State}

theorem refl (s : State) : s.Precedes s := ⟨.refl _, #[], by simp⟩

theorem trans (h : s.Precedes s') (h' : s'.Precedes s'') : s.Precedes s'' := by
  obtain ⟨more, hmore⟩ := h.diagnostics
  obtain ⟨others, hothers⟩ := h'.diagnostics
  exact ⟨h.tree.trans h'.tree, more ++ others, by rw [hothers, hmore, Array.append_assoc]⟩

theorem add (h : s.Precedes s') (kind : NodeKind) (start stop : Nat) (payload : Payload) :
    s.Precedes (s'.add kind start stop payload) :=
  ⟨h.tree.trans (.add _ _ _ _ _), h.diagnostics⟩

end State.Precedes

/-- The state without the nodes and the diagnostics. -/
def State.bare (s : State) : State := { s with consumed := 0, tree := .empty, diagnostics := #[] }

theorem State.behind_bare (s : State) : s.bare.behind s = s := by
  simp [bare, behind]

section

variable {α β : Type} {input : Input}

/-- A reader that does not depend on what has been read keeps it. -/
theorem Shifts.precedes {s : State} {f : α → β} {p : Parse α} {q : Parse β} (h : Shifts s f p q) :
    s.Precedes ((q.run input).run s).2 := by
  have hrun := h input s.bare
  rw [s.behind_bare] at hrun
  rw [hrun]
  refine ⟨fun id node hn => ?_, _, rfl⟩
  rwa [← Tree.node?_append_of_lt _ _ (Tree.lt_size_of_node? hn)] at hn

theorem Shifts.exists_run (input : Input) {s : State} {f : α → β} {p : Parse α} {q : Parse β}
    (h : Shifts s f p q) : ∃ b s', (q.run input).run s = (b, s') ∧ s.Precedes s' :=
  ⟨_, _, rfl, h.precedes⟩

/-- A list that is collected goes on with what it has begun with. -/
theorem exists_collected {step : Parse (Link × Bool)}
    (h : ∀ s : State, s.Precedes ((step.run input).run s).2) (bound : Nat) (links : List Link)
    (s : State) : ∃ more s', ((Parse.iterateAtMost (fun links => do
      let (link, again) ← step
      return (if link.isSome then links ++ [link] else links, again)) bound links).run input).run s =
        (links ++ more, s') ∧ s.Precedes s' := by
  induction bound generalizing links s with
  | zero => exact ⟨[], s, by rw [List.append_nil]; rfl, .refl s⟩
  | succ bound ih =>
    obtain ⟨⟨⟨link, again⟩, t⟩, hstep⟩ : ∃ x, (step.run input).run s = x := ⟨_, rfl⟩
    have hs : s.Precedes t := by simpa [hstep] using h s
    obtain ⟨found, hfound⟩ : ∃ found,
        (if link.isSome then links ++ [link] else links) = links ++ found := by
      cases link with
      | none => exact ⟨[], (List.append_nil _).symm⟩
      | some id => exact ⟨[some id], rfl⟩
    rw [Parse.iterateAtMost, bind_assoc, run_bind hstep, pure_bind, hfound]
    cases again with
    | false => exact ⟨found, t, rfl, hs⟩
    | true =>
      obtain ⟨more, t', hmore, ht⟩ := ih (links ++ found) t
      exact ⟨found ++ more, t', by rw [← List.append_assoc]; exact hmore, hs.trans ht⟩

/-- The first node that is collected stands first. -/
theorem exists_of_collect {step : Parse (Link × Bool)}
    (h : ∀ s : State, s.Precedes ((step.run input).run s).2) (hb : 0 < input.budget) {s t : State}
    {first : NodeId} {again : Bool} (hstep : (step.run input).run s = ((some first, again), t)) :
    ∃ more s', ((Parse.collect step).run input).run s = (some first :: more, s') ∧ t.Precedes s' := by
  obtain ⟨n, hn⟩ : ∃ n, input.budget = n + 1 := ⟨input.budget - 1, by omega⟩
  change ∃ more s', ((Parse.iterateAtMost _ input.budget []).run input).run s = _ ∧ _
  rw [hn, Parse.iterateAtMost, bind_assoc, run_bind hstep, pure_bind]
  cases again with
  | false => exact ⟨[], t, rfl, .refl t⟩
  | true => exact exists_collected h n [some first] t

end

/-! ## Types and names -/

/-- From one state to another a type and a name are read, each into a node: the type as far as it is seen
ahead, and the token behind it. Nothing is reported. -/
structure ReadsTypeAndName (input : Input) (s s' : State) (type name : NodeId) : Prop where
  read : ∃ t, ((Parse.typeReference false).run input).run s = (some type, t) ∧
    (Parse.identifier.run input).run t = (some name, s')
  kept : s.Kept s'
  type : ∃ text, s'.tree.Holds (some type) .typeReference (.typeReference text)
  name : ∃ token, afterType? s.tokens = some (token :: s'.tokens) ∧
    s'.tree.Holds (some name) .identifier (.name token.text)

section

variable (input : Input) {s : State} {rest : List Token}

/-- Where a type has been seen, it is read as far as it has been seen. -/
theorem exists_of_afterType? (allowAlternatives : Bool) (h : afterType? s.tokens = some rest) :
    ∃ t, ((Parse.typeReference allowAlternatives).run input).run s = (some s.tree.size, t) ∧
      t.tokens = (if allowAlternatives then afterAlternatives rest else rest) ∧ s.Kept t ∧
      ∃ text, t.tree.Holds (some s.tree.size) .typeReference (.typeReference text) := by
  obtain ⟨left, hleft⟩ : ∃ left, (if allowAlternatives then afterAlternatives rest else rest) = left :=
    ⟨_, rfl⟩
  have hsuffix : left <:+ s.tokens := by
    have hrest := (beyond_of_afterType? h).1
    rw [← hleft]
    split
    · exact (suffix_afterAlternatives rest).trans hrest
    · exact hrest
  have hto : ((Parse.advanceTo left).run input).run s =
      ((), s.advanceBy (s.tokens.length - left.length)) := by
    rw [Parse.advanceTo, run_look]
    exact run_advanceBy _ pure s
  have hnode (t : State) (start : Nat) : ((Parse.typeNode start).run input).run t =
      (some t.tree.size, t.add .typeReference start t.lastStop
        (.typeReference (Text.spaced (Text.slice input.text start t.lastStop)))) := rfl
  rw [Parse.typeReference, run_offset, run_look, h]
  dsimp only
  rw [hleft, run_bind hto, hnode, State.tree_advanceBy]
  refine ⟨_, rfl, ?_, ((State.Kept.refl s).advanceBy _).add _ _ _ _, ?_⟩
  · exact (s.tokens_advanceBy _).trans (List.suffix_iff_eq_drop.1 hsuffix).symm
  · exact ⟨_, .of_add (s.tree_advanceBy _) _ _ _ _⟩

theorem run_identifier {token : Token} (ht : s.tokens = token :: rest)
    (hk : token.kind = .identifier) : (Parse.identifier.run input).run s =
      (some s.tree.size, s.advance.add .identifier token.start token.stop (.name token.text)) := by
  obtain ⟨ts, consumed, lastStop, tree, diagnostics, depth, tooDeep⟩ := s
  obtain ⟨kind, start, stop, text⟩ := token
  obtain rfl : ts = _ := ht
  obtain rfl : kind = _ := hk
  rfl

/-- Where a type and a name behind it have been seen, they are read. -/
theorem exists_readsTypeAndName (h : afterType? s.tokens = some rest)
    (hk : headKind rest = .identifier) :
    ∃ s' type name, ReadsTypeAndName input s s' type name ∧ s'.tokens = rest.drop 1 := by
  obtain ⟨t, htype, htokens, hkept, text, hholds⟩ := exists_of_afterType? input false h
  cases rest with
  | nil => cases hk
  | cons token rest =>
    have hname := run_identifier input (s := t) htokens hk
    have hadd : t.Kept (t.advance.add .identifier token.start token.stop (.name token.text)) :=
      (State.Kept.refl t).advance.add _ _ _ _
    have hrest : t.advance.tokens = rest := State.tokens_advance htokens
    refine ⟨_, _, _, ⟨⟨t, htype, hname⟩, hkept.trans hadd, ⟨text, hholds.mono hadd.tree⟩, token, ?_⟩,
      hrest⟩
    exact ⟨by rw [h, ← hrest]; rfl, .of_add t.tree_advance _ _ _ _⟩

end

/-! ## Local variables -/

section

variable {input : Input} (steps : Nat) {s t : State}

/-- A declarator of which the name has been read gets a node. -/
theorem exists_of_declaratorRound {name : NodeId}
    (hname : (Parse.identifier.run input).run s = (some name, t)) :
    ∃ first value again t', ((Parse.declaratorRound (Parse.readersTo steps)).run input).run s =
        ((some first, again), t') ∧ t.Precedes t' ∧
      t'.tree.Holds (some first) .variableDeclarator (.declarator (some name) value) := by
  rw [Parse.declaratorRound, run_offset, run_bind hname, if_neg (by simp)]
  obtain ⟨_, t₁, hskip, h₁⟩ := Shifts.exists_run input (s := t) .skipDimensions
  obtain ⟨hasValue, t₂, haccept, h₂⟩ := Shifts.exists_run input (s := t₁) (.accept (.mark .assign))
  rw [run_bind hskip, run_bind haccept]
  replace h₂ := h₁.trans h₂
  extract_lets rest
  have hrest (initializer : Link) (u : State) (hu : t.Precedes u) :
      ∃ first value again t', ((rest initializer).run input).run u = ((some first, again), t') ∧
        t.Precedes t' ∧
        t'.tree.Holds (some first) .variableDeclarator (.declarator (some name) value) := by
    obtain ⟨declarator, hd⟩ : ∃ declarator, declarator =
      u.add .variableDeclarator (s.offset input) (max u.lastStop (s.offset input))
        (.declarator (some name) initializer) := ⟨_, rfl⟩
    have hadd : u.Precedes declarator := hd ▸ (State.Precedes.refl u).add _ _ _ _
    obtain ⟨again, t', hcomma, h'⟩ := Shifts.exists_run input (s := declarator) (.accept (.mark .comma))
    refine ⟨u.tree.size, initializer, again, t', ?_, (hu.trans hadd).trans h', .mono ?_ h'.tree⟩
    · have hfinish : ((Parse.finish .variableDeclarator (s.offset input)
          (.declarator (some name) initializer)).run input).run u =
            (some u.tree.size, declarator) := by
        rw [hd]
        rfl
      exact (run_bind hfinish).trans ((run_bind hcomma).trans rfl)
    · rw [hd]
      exact .add _ _ _ _ _
  cases hasValue with
  | false =>
    rw [if_neg (by simp)]
    exact hrest none t₂ h₂
  | true =>
    obtain ⟨value, t₃, hvalue, h₃⟩ :=
      (Shifts.variableInitializer (shifting_readersTo t₂ steps)).exists_run input
    rw [if_pos rfl, run_bind hvalue]
    exact hrest value t₃ (h₂.trans h₃)

/-- A declaration of variables is read: a type and a name, and then what follows them. The node that is
given has the type, and its first declarator has the name. -/
def ReadsVariables (input : Input) (s : State) (set : Modifiers) (result : Link × State) : Prop :=
  ∃ t type name, ReadsTypeAndName input s t type name ∧ t.Precedes result.2 ∧
    ∃ first others value,
      result.2.tree.Holds result.1 .localVariableStatement
        (.variables set (some type) (some first :: others)) ∧
      result.2.tree.Holds (some first) .variableDeclarator (.declarator (some name) value)

theorem readsVariables (hb : 0 < input.budget) (h : isLocalVariable s.tokens) (start : Nat)
    (set : Modifiers) : ReadsVariables input s set
      (((Parse.localVariables (Parse.readersTo steps) start set).run input).run s) := by
  obtain ⟨rest, hseen, hk⟩ : ∃ rest, afterType? s.tokens = some rest ∧ headKind rest = .identifier := by
    unfold isLocalVariable at h
    split at h
    · cases h
    · next rest hrest =>
      rw [Bool.and_eq_true] at h
      exact ⟨rest, hrest, of_decide_eq_true h.1⟩
  obtain ⟨t, type, name, hreads, -⟩ := exists_readsTypeAndName input hseen hk
  obtain ⟨u, htype, hname⟩ := hreads.read
  obtain ⟨first, value, again, t', hround, ht', hfirst⟩ := exists_of_declaratorRound steps hname
  obtain ⟨others, t'', hcollect, ht''⟩ := exists_of_collect (fun s =>
    (Shifts.declaratorRound (shifting_readersTo s steps)).precedes) hb hround
  have hrun : ((Parse.localVariables (Parse.readersTo steps) start set).run input).run s =
      (some t''.tree.size, t''.add .localVariableStatement start (max t''.lastStop start)
        (.variables set (some type) (some first :: others))) := by
    rw [Parse.localVariables, run_bind htype, if_neg (by simp), Parse.declarators, run_bind hcollect]
    rfl
  rw [hrun]
  refine ⟨t, type, name, hreads, (ht'.trans ht'').add _ _ _ _, first, others, value, .add _ _ _ _ _, ?_⟩
  exact (hfirst.mono ht''.tree).mono (.add _ _ _ _ _)

end

/-! ## Casts -/

/-- Behind an intersection that ends at a parenthesis, nothing more is read of a type that may have
alternatives. -/
theorem afterAlternatives_of_afterIntersection? {tokens rest : List Token}
    (h : afterIntersection? tokens = some rest) (hr : headKind rest = .mark .closeParen) :
    afterAlternatives tokens = rest := by
  fun_induction afterIntersection? tokens with
  | case1 =>
    cases h
    cases hr
  | case2 sign more hs behind hb ih =>
    rw [afterAlternatives, if_pos (.inr hs)]
    split
    · next other ho =>
      cases hb.symm.trans ho
      exact ih h
    · next hn => cases hb.symm.trans hn
  | case3 => cases h
  | case4 sign more hs =>
    cases h
    have hclose : sign.kind = .mark .closeParen := hr
    rw [afterAlternatives, if_neg (by simp [hclose])]

section

variable {input : Input} (steps : Nat) {s : State}

/-- A cast is read: a type up to where the lookahead sees it end, at a parenthesis, and without a
diagnostic; that parenthesis; and then the operand. -/
def ReadsCast (input : Input) (s : State) (result : Link × State) : Prop :=
  ∃ t type, ((Parse.typeReference true).run input).run s.advance = (some type, t) ∧
    (afterType? s.advance.tokens).bind afterIntersection? = some t.tokens ∧
    headKind t.tokens = .mark .closeParen ∧ s.Kept t ∧
    (∃ text, t.tree.Holds (some type) .typeReference (.typeReference text)) ∧
    ((Parse.require (.mark .closeParen)).run input).run t = ((), t.advance) ∧
    t.advance.Precedes result.2 ∧
    ∃ operand, result.2.tree.Holds result.1 .cast (.cast (some type) operand)

theorem readsCast (h : isCast s.tokens) :
    ReadsCast input s (((Parse.cast (Parse.readersTo steps)).run input).run s) := by
  have htokens : s.advance.tokens = s.tokens.drop 1 := s.tokens_advanceBy 1
  obtain ⟨rest, hseen, hclose⟩ : ∃ rest,
      (afterType? s.advance.tokens).bind afterIntersection? = some rest ∧
        headKind rest = .mark .closeParen := by
    unfold isCast at h
    rw [← htokens] at h
    split at h
    · cases h
    · next rest hrest =>
      rw [Bool.and_eq_true] at h
      exact ⟨rest, hrest, of_decide_eq_true h.1⟩
  obtain ⟨behind, htype, hintersection⟩ := Option.bind_eq_some_iff.1 hseen
  obtain ⟨t, hread, hleft, hkept, hholds⟩ := exists_of_afterType? input true htype
  rw [if_pos rfl, afterAlternatives_of_afterIntersection? hintersection hclose] at hleft
  subst hleft
  obtain ⟨operand, u, hoperand, hu⟩ :=
    (Shifts.operand (shifting_readersTo t.advance steps)).exists_run input
  have hrun : ((Parse.cast (Parse.readersTo steps)).run input).run s =
      (some u.tree.size, u.add .cast (s.offset input) (max u.lastStop (s.offset input))
        (.cast (some s.advance.tree.size) operand)) := by
    rw [Parse.cast_eq, run_offset, run_advance, run_bind hread, run_bind (run_require hclose),
      run_bind hoperand]
    rfl
  rw [hrun]
  exact ⟨t, _, hread, hseen, hclose, ((State.Kept.refl s).advance).trans hkept, hholds,
    run_require hclose, hu.add _ _ _ _, operand, .add _ _ _ _ _⟩

end

/-! ## Loops -/

section

variable {input : Input} (steps : Nat) {s : State}

/-- A for-each loop is read: a type and a name, of which a node for the variable is made, the colon behind
them, without a diagnostic; and then the rest of the loop. -/
def ReadsForEach (input : Input) (s : State) (set : Modifiers) (result : Link × State) : Prop :=
  ∃ t type name, ReadsTypeAndName input s t type name ∧ headKind t.tokens = .mark .colon ∧
    ∃ u element, t.Kept u ∧ u.tokens = t.tokens ∧
      ((Parse.require (.mark .colon)).run input).run u = ((), u.advance) ∧
      u.advance.Precedes result.2 ∧
      result.2.tree.Holds (some element) .parameter (.parameter set (some type) (some name) false) ∧
      ∃ iterable statement, result.2.tree.Holds result.1 .forEachStatement
        (.forEach (some element) iterable statement)

theorem readsForEach (h : isForEachVariable s.tokens) (start variableStart : Nat)
    (set : Modifiers) : ReadsForEach input s set
      (((Parse.forEach (Parse.readersTo steps) start variableStart set).run input).run s) := by
  obtain ⟨rest, hseen, hk, hcolon⟩ : ∃ rest, afterType? s.tokens = some rest ∧
      headKind rest = .identifier ∧ headKind (rest.drop 1) = .mark .colon := by
    unfold isForEachVariable at h
    split at h
    · cases h
    · next rest hrest =>
      rw [Bool.and_eq_true] at h
      exact ⟨rest, hrest, of_decide_eq_true h.1, of_decide_eq_true h.2⟩
  obtain ⟨t, type, name, hreads, htokens⟩ := exists_readsTypeAndName input hseen hk
  obtain ⟨u₀, htype, hname⟩ := hreads.read
  rw [← htokens] at hcolon
  obtain ⟨u, hu⟩ : ∃ u, u = t.add .parameter variableStart (max t.lastStop variableStart)
    (.parameter set (some type) (some name) false) := ⟨_, rfl⟩
  have hkept : t.Kept u := hu ▸ (State.Kept.refl t).add _ _ _ _
  have hcolon' : headKind u.tokens = .mark .colon := by
    rw [hu]
    exact hcolon
  have hfinish : ((Parse.finish .parameter variableStart
      (.parameter set (some type) (some name) false)).run input).run t = (some t.tree.size, u) := by
    rw [hu]
    rfl
  have hreaders (s : State) := shifting_readersTo s steps
  obtain ⟨iterable, u₁, hiterable, h₁⟩ := (hreaders u.advance .expression).exists_run input
  obtain ⟨_, u₂, hclose, h₂⟩ := Shifts.exists_run input (s := u₁) (.require (.mark .closeParen))
  obtain ⟨statement, u₃, hstatement, h₃⟩ := (hreaders u₂ .statement).exists_run input
  have hrun : ((Parse.forEach (Parse.readersTo steps) start variableStart set).run input).run s =
      (some u₃.tree.size, u₃.add .forEachStatement start (max u₃.lastStop start)
        (.forEach (some t.tree.size) iterable statement)) := by
    rw [Parse.forEach, run_bind htype, run_bind hname, run_bind hfinish,
      run_bind (run_require hcolon'), run_bind hiterable, run_bind hclose, run_bind hstatement]
    rfl
  have hfinal := ((h₁.trans h₂).trans h₃).add .forEachStatement start (max u₃.lastStop start)
    (.forEach (some t.tree.size) iterable statement)
  rw [hrun]
  refine ⟨t, type, name, hreads, hcolon, u, t.tree.size, hkept, by rw [hu]; rfl, run_require hcolon',
    hfinal, ?_, iterable, statement, .add _ _ _ _ _⟩
  refine .mono ?_ ((State.Kept.refl u).advance.tree.trans hfinal.tree)
  rw [hu]
  exact .add _ _ _ _ _

end

/-! ## All three -/

/-- Lookaheads keep their word, whatever the tokens. Where one has seen a declaration of variables, the
reader gives a node for it with a type and a first declarator with a name; where one has seen a cast, the
type is read as far as the parenthesis that the lookahead has found, which is read, too; and where one has
seen the variable of a for-each loop, it gets a type and a name, and the colon is found. Nothing is
reported for any of these. -/
theorem reads_as_seen (file text : String) (tokens : List Token) (steps : Nat) (s : State) :
    (isLocalVariable s.tokens → ∀ start set, ReadsVariables (.ofTokens file text tokens) s set
      (((Parse.localVariables (Parse.readersTo steps) start set).run
        (.ofTokens file text tokens)).run s)) ∧
    (isCast s.tokens → ReadsCast (.ofTokens file text tokens) s
      (((Parse.cast (Parse.readersTo steps)).run (.ofTokens file text tokens)).run s)) ∧
    (isForEachVariable s.tokens → ∀ start variableStart set,
      ReadsForEach (.ofTokens file text tokens) s set
        (((Parse.forEach (Parse.readersTo steps) start variableStart set).run
          (.ofTokens file text tokens)).run s)) :=
  ⟨readsVariables steps (Nat.succ_pos _), readsCast steps, readsForEach steps⟩

/-- The three constructs, each as a lookahead sees it at the beginning of a text. -/
theorem reads_as_seen_ofText :
    ReadsVariables (.ofText "A.java" "@N List<? extends A[]> x, y = 1;")
      (.ofText "A.java" "@N List<? extends A[]> x, y = 1;") .none
      (((Parse.localVariables (Parse.readersTo 64) 0 .none).run
        (.ofText "A.java" "@N List<? extends A[]> x, y = 1;")).run
          (.ofText "A.java" "@N List<? extends A[]> x, y = 1;")) ∧
    ReadsCast (.ofText "A.java" "(A & B<C>) x") (.ofText "A.java" "(A & B<C>) x")
      (((Parse.cast (Parse.readersTo 64)).run (.ofText "A.java" "(A & B<C>) x")).run
        (.ofText "A.java" "(A & B<C>) x")) ∧
    ReadsForEach (.ofText "A.java" "int[] x : xs) f(x);") (.ofText "A.java" "int[] x : xs) f(x);")
      .none (((Parse.forEach (Parse.readersTo 64) 0 0 .none).run
        (.ofText "A.java" "int[] x : xs) f(x);")).run (.ofText "A.java" "int[] x : xs) f(x);")) :=
  ⟨(reads_as_seen _ _ _ 64 _).1 (by decide +kernel) 0 .none,
    (reads_as_seen _ _ _ 64 _).2.1 (by decide +kernel),
    (reads_as_seen _ _ _ 64 _).2.2 (by decide +kernel) 0 0 .none⟩

end JavaNames.Grammar
