/-
What is written in front of a type declaration: modifiers and annotations in any order. Main statement:
the reader takes all of them, stops at the declaration, and gives the modifiers among them as a set, so
that their order does not matter. The word "sealed" is taken for a modifier in front of a keyword only.
-/
import JavaNames.Proofs.Written.Annotation
import Mathlib.Data.List.ReduceOption

namespace JavaNames

/-! ## Sets of modifiers -/

namespace Modifiers

theorem insert_comm (set : Modifiers) (a b : Modifier) :
    (set.insert a).insert b = (set.insert b).insert a := by
  simp only [insert, BitVec.or_assoc]
  rw [BitVec.or_comm (BitVec.twoPow 14 a.index)]

theorem foldl_insert_perm {members members' : List Modifier} (h : members.Perm members')
    (set : Modifiers) : members.foldl insert set = members'.foldl insert set :=
  h.foldl_eq' (fun a _ b _ set => insert_comm set a b) set

end Modifiers

namespace Grammar

/-! ## Headings -/

/-- The keyword of a modifier that the declaration of a type may have. -/
def typeKeyword? : Modifier → Option Keyword
  | .publicMod => some .publicKw
  | .protectedMod => some .protectedKw
  | .privateMod => some .privateKw
  | .staticMod => some .staticKw
  | .finalMod => some .finalKw
  | .abstractMod => some .abstractKw
  | .strictfpMod => some .strictfpKw
  | _ => none

/-- The tokens of a modifier of a type declaration or, where there is none, of an annotation. -/
inductive Written : Option Modifier → List Token → Prop
  | keyword {modifier : Modifier} {keyword : Keyword} {token : Token} :
    typeKeyword? modifier = some keyword → token.kind = .keyword keyword →
    Written (some modifier) [token]
  | sealed {token : Token} : token.kind = .identifier → token.text = "sealed" →
    Written (some .sealedMod) [token]
  | nonSealed {non minus word : Token} : non.kind = .identifier → non.text = "non" →
    minus.kind = .mark .minus → word.kind = .identifier → word.text = "sealed" →
    Written (some .nonSealedMod) [non, minus, word]
  | attached {tokens : List Token} : Annotation tokens → Written none tokens

/-- The tokens of modifiers and annotations in front of others. A keyword stands directly behind
"sealed". -/
inductive Heading (behind : List Token) : List (Option Modifier) → List Token → Prop
  | nil : Heading behind [] []
  | cons {item : Option Modifier} {items : List (Option Modifier)} {front rest : List Token} :
    Written item front → (item = some .sealedMod → (headKind (rest ++ behind)).isKeyword) →
    Heading behind items rest → Heading behind (item :: items) (front ++ rest)

/-- The declaration of a class, an interface, an enum or an annotation type begins here. -/
def Declares (tokens : List Token) : Prop :=
  headKind tokens ∈ [.keyword .classKw, .keyword .interfaceKw, .keyword .enumKw] ∨
    headKind tokens = .mark .atSign ∧ kindAt 1 tokens = .keyword .interfaceKw

/-! ## What comes next -/

/-- What may stand behind a part of a heading. -/
structure Follows (tokens : List Token) : Prop extends BehindAnnotation tokens where
  instanceof : headKind tokens ≠ .keyword .instanceofKw

theorem Declares.follows {tokens : List Token} (h : Declares tokens) : Follows tokens := by
  simp only [Declares, List.mem_cons, List.not_mem_nil, or_false] at h
  refine ⟨⟨?_, ?_⟩, ?_⟩ <;> rcases h with (h | h | h) | ⟨h, -⟩ <;> rw [h] <;> simp

theorem Written.follows {item : Option Modifier} {tokens : List Token} (h : Written item tokens)
    (rest : List Token) : Follows (tokens ++ rest) := by
  cases h with
  | @keyword modifier keyword token hm hk =>
    have hne : keyword ≠ .instanceofKw := by
      rintro rfl
      cases modifier <;> cases hm
    refine ⟨⟨?_, ?_⟩, ?_⟩ <;> simp [headKind, hk, hne]
  | sealed hk _ => refine ⟨⟨?_, ?_⟩, ?_⟩ <;> simp [headKind, hk]
  | nonSealed hk => refine ⟨⟨?_, ?_⟩, ?_⟩ <;> simp [headKind, hk]
  | attached ha =>
    obtain ⟨hsign⟩ := ha
    refine ⟨⟨?_, ?_⟩, ?_⟩ <;> simp [headKind, hsign]

theorem Heading.follows {behind : List Token} {items : List (Option Modifier)} {tokens : List Token}
    (h : Heading behind items tokens) (hd : Declares behind) : Follows (tokens ++ behind) := by
  cases h with
  | nil => exact hd.follows
  | cons hw =>
    rw [List.append_assoc]
    exact hw.follows _

/-! ## Reading -/

/-- A set with what is written, if that is a modifier. -/
def Modifiers.with (set : Modifiers) (item : Option Modifier) : Modifiers :=
  item.elim set set.insert

section

variable {input : Input} {s : State} {behind : List Token}

/-- A modifier is found by its first tokens. -/
theorem modifierAt?_of_written {modifier : Modifier} {front : List Token}
    (h : Written (some modifier) front)
    (hnext : modifier = .sealedMod → (headKind behind).isKeyword) (hb : Follows behind) :
    modifierAt? true (front ++ behind) = some (modifier, front.length) := by
  cases h with
  | @keyword modifier keyword token hm hk =>
    cases modifier <;> cases hm <;> simp [modifierAt?, hk]
  | sealed hk ht => simp [modifierAt?, hk, ht, hnext, hb.instanceof]
  | nonSealed hk ht hminus hword htext =>
    simp [modifierAt?, hk, ht, hminus, isWord, headKind, headText, hword, htext]

/-- No annotation begins where a modifier does. -/
theorem isAnnotation_of_written {modifier : Modifier} {front : List Token}
    (h : Written (some modifier) front) : isAnnotation (front ++ behind) = false := by
  cases h with
  | keyword _ hk => simp [headKind, isAnnotation, hk]
  | sealed hk => simp [headKind, isAnnotation, hk]
  | nonSealed hk => simp [headKind, isAnnotation, hk]

/-- A round takes the modifier or the annotation that comes next. -/
theorem run_modifierRound {item : Option Modifier} {front : List Token} (h : Written item front)
    (hs : s.tokens = front ++ behind)
    (hnext : item = some .sealedMod → (headKind behind).isKeyword) (hbehind : Follows behind)
    (hb : s.tokens.length < input.budget) (set : Modifiers) :
    ((Parse.modifierRound true set).run input).run s =
      ((Modifiers.with set item, true), s.advanceBy front.length) := by
  cases item with
  | none =>
    obtain ha : Annotation front := by
      cases h with
      | attached ha => exact ha
    have hannotation : isAnnotation s.tokens = true := by
      obtain ⟨hsign, hname⟩ := ha
      rw [hs]
      simp [headKind, kindAt, isAnnotation, hsign, hname]
    have hskip := run_skipAnnotation ha hs hbehind.toBehindAnnotation hb
    rw [Parse.modifierRound, run_look, if_pos hannotation, run_bind hskip]
    rfl
  | some modifier =>
    have hannotation : ¬ isAnnotation s.tokens = true := by
      rw [hs, isAnnotation_of_written h]
      simp
    have hmodifier := modifierAt?_of_written h (fun hm => hnext (congrArg some hm)) hbehind
    rw [← hs] at hmodifier
    rw [Parse.modifierRound, run_look, if_neg hannotation, run_look, hmodifier]
    dsimp only
    rw [run_advanceBy]
    rfl

/-- In front of a declaration there is no further round. -/
theorem run_modifierRound_of_declares (hd : Declares s.tokens) (set : Modifiers) :
    ((Parse.modifierRound true set).run input).run s = ((set, false), s) := by
  have hannotation : ¬ isAnnotation s.tokens = true := by
    simp only [Declares, List.mem_cons, List.not_mem_nil, or_false] at hd
    rcases hd with h | ⟨h, h'⟩
    · rcases h with h | h | h <;> simp [h, isAnnotation]
    · simp [h, h', isAnnotation]
  have hmodifier : modifierAt? true s.tokens = none := by
    cases ht : s.tokens with
    | nil => rfl
    | cons token rest =>
      have hk : headKind s.tokens = token.kind := headKind_of_cons ht
      simp only [Declares, hk, List.mem_cons, List.not_mem_nil, or_false] at hd
      rcases hd with (h | h | h) | ⟨h, -⟩ <;> simp [modifierAt?, h]
  rw [Parse.modifierRound, run_look, if_neg hannotation, run_look, hmodifier]
  rfl

/-- The rounds over a heading take all of it. -/
theorem run_modifierRounds {items : List (Option Modifier)} {tokens : List Token}
    (h : Heading behind items tokens) (hd : Declares behind) (hs : s.tokens = tokens ++ behind)
    (hb : s.tokens.length < input.budget) (set : Modifiers) :
    ((Parse.iterate (Parse.modifierRound true) set).run input).run s =
      (items.reduceOption.foldl Modifiers.insert set, s.advanceBy tokens.length) := by
  induction h generalizing s set with
  | nil =>
    obtain rfl : s.tokens = behind := hs
    exact run_iterate_of_last (Nat.zero_lt_of_lt hb) (run_modifierRound_of_declares hd set)
  | @cons item items front rest hw hnext hrest ih =>
    rw [List.append_assoc] at hs
    have hround := run_modifierRound hw hs hnext (hrest.follows hd) hb set
    have hforward := fun (t : Nat) set => Forward.modifierRound (t := t) true set
    rw [run_iterate_of_again hb hforward hround, ih (State.tokens_advanceBy_length hs)
      (State.length_advanceBy_lt hb _), List.length_append, State.advanceBy_add]
    cases item <;> rfl

/-- Modifiers and annotations are read up to the declaration behind them, in silence. What is given is
the set of the modifiers, and in whatever order they are written, it is the same. -/
theorem run_modifiers_of_perm {items items' : List (Option Modifier)} {tokens : List Token}
    (hp : items'.Perm items) (h : Heading behind items' tokens) (hd : Declares behind)
    (hs : s.tokens = tokens ++ behind) (hb : s.tokens.length < input.budget) :
    ∃ s', ((Parse.modifiers true).run input).run s = (Modifiers.ofList items.reduceOption, s') ∧
      s' = s.advanceBy tokens.length ∧ s'.tokens = behind ∧ s'.diagnostics = s.diagnostics := by
  have hset : Modifiers.ofList items.reduceOption = Modifiers.ofList items'.reduceOption :=
    Modifiers.foldl_insert_perm (hp.symm.filterMap id) .none
  have hrun := run_modifierRounds h hd hs hb .none
  have hkept := (State.Kept.refl s).advanceBy tokens.length
  refine ⟨s.advanceBy tokens.length, ?_, rfl, State.tokens_advanceBy_length hs, hkept.diagnostics⟩
  rw [hset]
  exact hrun

/-- The tokens of `sealed public @A(())`. -/
def sampleHeading : List Token :=
  [⟨.identifier, 0, 6, "sealed"⟩, ⟨.keyword .publicKw, 7, 13, "public"⟩, ⟨.mark .atSign, 14, 15, "@"⟩,
    ⟨.identifier, 15, 16, "A"⟩, ⟨.mark .openParen, 16, 17, "("⟩, ⟨.mark .openParen, 17, 18, "("⟩,
    ⟨.mark .closeParen, 18, 19, ")"⟩, ⟨.mark .closeParen, 19, 20, ")"⟩]

/-- An annotation with arguments among modifiers, in front of a class. -/
theorem run_modifiers_of_perm_class :
    let start : State :=
      ⟨sampleHeading ++ [⟨.keyword .classKw, 21, 26, "class"⟩], 0, 0, .empty, #[], 0, none⟩
    ∃ s', ((Parse.modifiers true).run ⟨"A.java", "sealed public @A(()) class", 26, 10⟩).run start =
        (Modifiers.ofList [.publicMod, .sealedMod], s') ∧ s' = start.advanceBy sampleHeading.length ∧
      s'.tokens = [⟨.keyword .classKw, 21, 26, "class"⟩] ∧ s'.diagnostics = #[] := by
  intro start
  have harguments : Arguments (sampleHeading.drop 4) :=
    .group rfl (.group rfl .nil rfl .nil) rfl
  have hannotation : Written none (sampleHeading.drop 2) :=
    .attached (.mk rfl rfl .nil harguments)
  have hpublic : Written (some .publicMod) [⟨.keyword .publicKw, 7, 13, "public"⟩] :=
    .keyword rfl rfl
  have hheading : Heading [⟨.keyword .classKw, 21, 26, "class"⟩]
      [some .sealedMod, some .publicMod, none] sampleHeading :=
    .cons (.sealed rfl rfl) (fun _ => rfl) (.cons hpublic nofun (.cons hannotation nofun .nil))
  have hperm : [some Modifier.sealedMod, some .publicMod, none].Perm
      [some .publicMod, none, some .sealedMod] := by decide
  exact run_modifiers_of_perm hperm hheading (.inl (by decide)) rfl (by decide)

/-- Where an annotation stands behind "sealed", the word is not taken for a modifier. -/
theorem run_modifiers_sealed_attached :
    let tokens : List Token := [⟨.identifier, 0, 6, "sealed"⟩, ⟨.mark .atSign, 7, 8, "@"⟩,
      ⟨.identifier, 8, 9, "A"⟩, ⟨.keyword .classKw, 10, 15, "class"⟩]
    Written (some .sealedMod) (tokens.take 1) ∧ Written none ((tokens.drop 1).take 2) ∧
      Declares (tokens.drop 3) ∧
      ((Parse.modifiers true).run ⟨"A.java", "sealed @A class", 15, 5⟩).run
          ⟨tokens, 0, 0, .empty, #[], 0, none⟩ =
        (Modifiers.none, ⟨tokens, 0, 0, .empty, #[], 0, none⟩) := by
  intro tokens
  have hannotation : Annotation ((tokens.drop 1).take 2) := .mk rfl rfl .nil .none
  exact ⟨.sealed rfl rfl, .attached hannotation, .inl (by decide), rfl⟩

end

end Grammar

end JavaNames
