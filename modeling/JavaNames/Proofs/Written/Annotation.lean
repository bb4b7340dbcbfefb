/-
Annotations as they are written: a sign, a name, and perhaps arguments in which every parenthesis has its
partner. Main statement: the reader skips all of an annotation and nothing behind it, in silence.
-/
import JavaNames.Proofs.Printing.Steps

namespace JavaNames.Grammar

/-! ## Tokens of annotations -/

/-- Tokens in which every parenthesis has its partner. -/
inductive Balanced : List Token → Prop
  | nil : Balanced []
  | token {token : Token} {rest : List Token} : token.kind ≠ .endOfFile →
    token.kind ≠ .mark .openParen → token.kind ≠ .mark .closeParen → Balanced rest →
    Balanced (token :: rest)
  | group {opening closing : Token} {inside rest : List Token} : opening.kind = .mark .openParen →
    Balanced inside → closing.kind = .mark .closeParen → Balanced rest →
    Balanced (opening :: (inside ++ closing :: rest))

/-- Names, each behind a dot. -/
inductive Dotted : List Token → Prop
  | nil : Dotted []
  | cons {dot name : Token} {rest : List Token} : dot.kind = .mark .dot → name.kind = .identifier →
    Dotted rest → Dotted (dot :: name :: rest)

/-- The arguments of an annotation, if it has any. -/
inductive Arguments : List Token → Prop
  | none : Arguments []
  | group {opening closing : Token} {inside : List Token} : opening.kind = .mark .openParen →
    Balanced inside → closing.kind = .mark .closeParen →
    Arguments (opening :: (inside ++ [closing]))

/-- An annotation. -/
inductive Annotation : List Token → Prop
  | mk {sign name : Token} {dotted arguments : List Token} : sign.kind = .mark .atSign →
    name.kind = .identifier → Dotted dotted → Arguments arguments →
    Annotation (sign :: name :: (dotted ++ arguments))

/-- What stands behind an annotation and is no part of it. -/
structure BehindAnnotation (tokens : List Token) : Prop where
  dot : headKind tokens ≠ .mark .dot
  openParen : headKind tokens ≠ .mark .openParen

/-! ## States behind tokens -/

theorem State.advanceBy_add (s : State) (n m : Nat) :
    s.advanceBy (n + m) = (s.advanceBy n).advanceBy m := by
  induction n generalizing s with
  | zero => rw [Nat.zero_add, advanceBy]
  | succ n ih => rw [Nat.succ_add, advanceBy, advanceBy, ih]

theorem State.tokens_advanceBy_length {s : State} {front behind : List Token}
    (h : s.tokens = front ++ behind) : (s.advanceBy front.length).tokens = behind := by
  rw [tokens_advanceBy, h, List.drop_left]

theorem State.length_advanceBy_lt {s : State} {budget : Nat} (h : s.tokens.length < budget) (n : Nat) :
    (s.advanceBy n).tokens.length < budget := by
  rw [tokens_advanceBy, List.length_drop]
  omega

/-! ## Skipping -/

section

variable {input : Input}

section

variable (input) {s : State} {token : Token} {rest : List Token} (ht : s.tokens = token :: rest)

include ht

/-- A round over a group takes a token; it counts the parentheses, and the last one that closes ends the
group. -/
theorem run_groupRound (hk : token.kind ≠ .endOfFile) (depth : Nat) :
    ((Parse.groupRound .openParen .closeParen depth).run input).run s =
      (if token.kind = .mark .openParen then (depth + 1, true)
        else if token.kind = .mark .closeParen then (depth - 1, decide (depth > 1))
        else (depth, true), s.advance) := by
  have hhead : headKind s.tokens = token.kind := headKind_of_cons ht
  rw [Parse.groupRound, Parse.kind, run_look, hhead, if_neg hk, run_advance]
  split
  · rfl
  · split <;> rfl

end

/-- Inside of a group everything is taken whose parentheses have their partners. -/
theorem run_groupRounds {inside : List Token} (h : Balanced inside) {depth : Nat} (hd : 0 < depth)
    {s : State} {behind : List Token} (hs : s.tokens = inside ++ behind)
    (hb : s.tokens.length < input.budget) :
    ((Parse.iterate (Parse.groupRound .openParen .closeParen) depth).run input).run s =
      ((Parse.iterate (Parse.groupRound .openParen .closeParen) depth).run input).run
        (s.advanceBy inside.length) := by
  have hforward := fun (t depth : Nat) => Forward.groupRound (t := t) .openParen .closeParen depth
  induction h generalizing s depth behind with
  | nil => rfl
  | @token token rest hend hopen hclose _ ih =>
    have hround := run_groupRound input hs hend depth
    rw [if_neg hopen, if_neg hclose] at hround
    rw [run_iterate_of_again hb hforward hround]
    exact ih hd (State.tokens_advance hs) (State.length_advanceBy_lt hb 1)
  | @group opening closing inside rest hopening _ hclosing _ ih ih' =>
    have hround := run_groupRound input hs (by rw [hopening]; simp) depth
    rw [if_pos hopening] at hround
    have hs' : s.advance.tokens = inside ++ (closing :: (rest ++ behind)) := by
      rw [State.tokens_advance hs]
      simp
    have hb' : s.advance.tokens.length < input.budget := State.length_advanceBy_lt hb 1
    have hinside := State.tokens_advanceBy_length hs'
    have hb'' := State.length_advanceBy_lt hb' inside.length
    -- one more is open inside of the inner group, so that its end does not end the outer one
    have hround' := run_groupRound input hinside (by rw [hclosing]; simp) (depth + 1)
    rw [if_neg (by rw [hclosing]; simp), if_pos hclosing, Nat.add_sub_cancel,
      decide_eq_true (by omega)] at hround'
    have hrest := State.tokens_advance hinside
    have hlength : (opening :: (inside ++ closing :: rest)).length =
        1 + inside.length + (1 + rest.length) := by
      simp only [List.length_cons, List.length_append]
      omega
    rw [run_iterate_of_again hb hforward hround, ih (Nat.succ_pos depth) hs' hb',
      run_iterate_of_again hb'' hforward hround',
      ih' hd hrest (State.length_advanceBy_lt hb'' 1), hlength, State.advanceBy_add,
      State.advanceBy_add, State.advanceBy_add]
    rfl

/-- The arguments of an annotation are skipped, and nothing behind them. -/
theorem run_skipGroup {opening closing : Token} {inside behind : List Token} {s : State}
    (hopening : opening.kind = .mark .openParen) (hinside : Balanced inside)
    (hclosing : closing.kind = .mark .closeParen)
    (hs : s.tokens = opening :: (inside ++ [closing]) ++ behind)
    (hb : s.tokens.length < input.budget) :
    ((Parse.skipGroup .openParen .closeParen).run input).run s =
      ((), s.advanceBy (opening :: (inside ++ [closing])).length) := by
  have hforward := fun (t depth : Nat) => Forward.groupRound (t := t) .openParen .closeParen depth
  have hround := run_groupRound input hs (by rw [hopening]; simp) 0
  rw [if_pos hopening] at hround
  have hs' : s.advance.tokens = inside ++ (closing :: behind) := by
    rw [State.tokens_advance hs]
    simp
  have hb' : s.advance.tokens.length < input.budget := State.length_advanceBy_lt hb 1
  have hbehind := State.tokens_advanceBy_length hs'
  have hlast := run_groupRound input hbehind (by rw [hclosing]; simp) 1
  rw [if_neg (by rw [hclosing]; simp), if_pos hclosing] at hlast
  have hloop : ((Parse.iterate (Parse.groupRound .openParen .closeParen) 0).run input).run s =
      (0, (s.advance.advanceBy inside.length).advance) := by
    rw [run_iterate_of_again hb hforward hround, run_groupRounds hinside Nat.one_pos hs' hb']
    exact run_iterate_of_last (Nat.zero_lt_of_lt hb) hlast
  rw [Parse.skipGroup, run_bind hloop, List.length_cons, List.length_append, List.length_singleton,
    State.advanceBy, State.advanceBy_add]
  rfl

/-- The names of a qualified name are read, and nothing behind them. -/
theorem run_dottedNames {dotted : List Token} (h : Dotted dotted) {s : State} {behind : List Token}
    (hs : s.tokens = dotted ++ behind) (hbehind : headKind behind ≠ .mark .dot)
    (hb : s.tokens.length < input.budget) (text : String) :
    ∃ text', ((Parse.iterate Parse.dottedNameRound text).run input).run s =
      (text', s.advanceBy dotted.length) := by
  induction h generalizing s text with
  | nil =>
    obtain rfl : s.tokens = behind := hs
    refine ⟨text, run_iterate_of_last (Nat.zero_lt_of_lt hb) ?_⟩
    rw [Parse.dottedNameRound, run_look, if_neg (by simp [hbehind])]
    rfl
  | @cons dot name rest hdot hname _ ih =>
    have hround : ∃ text', ((Parse.dottedNameRound text).run input).run s =
        ((text', true), s.advanceBy 2) := by
      have hnext : (headKind s.tokens = .mark .dot && kindAt 1 s.tokens = .identifier) = true := by
        rw [hs]
        simp [headKind, kindAt, hdot, hname]
      rw [Parse.dottedNameRound, run_look, if_pos hnext]
      exact ⟨_, rfl⟩
    obtain ⟨text', hround⟩ := hround
    have hs' : (s.advanceBy 2).tokens = rest ++ behind := by
      rw [State.tokens_advanceBy, hs]
      rfl
    obtain ⟨text'', hrest⟩ := ih hs' (State.length_advanceBy_lt hb 2) text'
    refine ⟨text'', ?_⟩
    rw [run_iterate_of_again hb (fun _ => Forward.dottedNameRound) hround, hrest]
    rfl

/-- An annotation is skipped, and nothing behind it. -/
theorem run_skipAnnotation {tokens behind : List Token} (h : Annotation tokens) {s : State}
    (hs : s.tokens = tokens ++ behind) (hbehind : BehindAnnotation behind)
    (hb : s.tokens.length < input.budget) :
    ((Parse.skipAnnotation.run input).run s) = ((), s.advanceBy tokens.length) := by
  obtain @⟨sign, name, dotted, arguments, -, hname, hdotted, harguments⟩ := h
  have hs' : s.advance.tokens = name :: (dotted ++ (arguments ++ behind)) := by
    rw [State.tokens_advance hs]
    simp
  have hdot : headKind (arguments ++ behind) ≠ .mark .dot := by
    cases harguments with
    | none => exact hbehind.dot
    | group hopening => simp [headKind, hopening]
  have hdots := State.tokens_advance hs'
  have hb' : s.advance.advance.tokens.length < input.budget := State.length_advanceBy_lt hb 2
  obtain ⟨text, hnames⟩ := run_dottedNames hdotted hdots hdot hb' name.text
  have hqualified : ((Parse.qualifiedName.run input).run s.advance) =
      (text, s.advance.advance.advanceBy dotted.length) := by
    have hhead : headKind s.advance.tokens = .identifier := by
      rw [headKind_of_cons hs', hname]
    have htoken : ((Parse.token.run input).run s.advance) = (name, s.advance) := by
      change (s.advance.tokens.headD _, s.advance) = _
      rw [hs']
      rfl
    rw [Parse.qualifiedName, run_isAt, if_pos (decide_eq_true hhead), run_bind htoken, run_advance,
      hnames]
  rw [Parse.skipAnnotation, run_advance, run_bind hqualified, run_isAt]
  have hs'' := State.tokens_advanceBy_length hdots
  have hb'' := State.length_advanceBy_lt hb' dotted.length
  cases harguments with
  | none =>
    rw [if_neg, List.append_nil]
    · rfl
    · rw [hs'']
      simpa using hbehind.openParen
  | @group opening closing inside hopening hinside hclosing =>
    rw [if_pos, run_skipGroup hopening hinside hclosing hs'' hb'']
    · rw [← State.advanceBy_add, ← List.length_append]
      rfl
    · rw [hs'']
      simp [headKind, hopening]

end

end JavaNames.Grammar
