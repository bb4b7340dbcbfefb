/-
Sources that differ in spelling only. Two lists of tokens are alike when they have the same kinds,
when a renaming takes the identifiers of one to those of the other, and when they agree on which
tokens stand directly behind a greater-than sign.

Main statement: looking ahead decides the same on both, and what it leaves is alike again.
-/
import JavaNames.Grammar.Declaration
import Mathlib.Data.Option.Basic
import Mathlib.Logic.Equiv.Basic

namespace JavaNames

/-! ## Renamings -/

/-- The identifiers that have a meaning of their own in some places. -/
def contextualWords : List String := ["record", "yield", "sealed", "non"]

/-- A renaming of identifiers keeps different names apart and the words with a meaning as they are. -/
structure Renaming where
  rename : String → String
  injective : Function.Injective rename
  keeps : ∀ word ∈ contextualWords, rename word = word

namespace Renaming

/-- The renaming that changes nothing. -/
def id : Renaming := ⟨fun name => name, fun _ _ h => h, fun _ _ => rfl⟩

theorem map_rename_id (name : Option String) : name.map Renaming.id.rename = name :=
  Option.map_id'

/-- The renaming that swaps two names. -/
def swap (a b : String) (ha : a ∉ contextualWords) (hb : b ∉ contextualWords) : Renaming where
  rename := Equiv.swap a b
  injective := (Equiv.swap a b).injective
  keeps _ hw :=
    Equiv.swap_apply_of_ne_of_ne (fun he => ha (he ▸ hw)) (fun he => hb (he ▸ hw))

theorem rename_eq_iff (ρ : Renaming) {word : String} (h : word ∈ contextualWords) (name : String) :
    ρ.rename name = word ↔ name = word := by
  constructor
  · intro hn
    exact ρ.injective (hn.trans (ρ.keeps word h).symm)
  · rintro rfl
    exact ρ.keeps _ h

end Renaming

namespace Grammar

/-! ## Tokens -/

/-- Lists of tokens that differ in spelling only. -/
inductive Alike (ρ : Renaming) : List Token → List Token → Prop
  | nil : Alike ρ [] []
  | cons {token token' : Token} {rest rest' : List Token} (kind : token'.kind = token.kind)
    (name : token.kind = .identifier → token'.text = ρ.rename token.text)
    (joined : token.kind = .mark .greater →
      (rest'.head?.map (·.start) = some token'.stop ↔ rest.head?.map (·.start) = some token.stop))
    (tail : Alike ρ rest rest') : Alike ρ (token :: rest) (token' :: rest')

/-- Whether two lists of tokens differ in spelling only. -/
def alike (ρ : Renaming) : List Token → List Token → Bool
  | [], [] => true
  | token :: rest, token' :: rest' =>
    token'.kind = token.kind && (token.kind ≠ .identifier || token'.text = ρ.rename token.text) &&
      (token.kind ≠ .mark .greater || decide (rest'.head?.map (·.start) = some token'.stop) =
        decide (rest.head?.map (·.start) = some token.stop)) &&
      alike ρ rest rest'
  | _, _ => false

theorem alike_iff {ρ : Renaming} {ts ts' : List Token} : alike ρ ts ts' ↔ Alike ρ ts ts' := by
  induction ts generalizing ts' with
  | nil =>
    cases ts' with
    | nil => exact ⟨fun _ => .nil, fun _ => rfl⟩
    | cons token' rest' => exact ⟨fun h => absurd h Bool.false_ne_true, fun h => by cases h⟩
  | cons token rest ih =>
    cases ts' with
    | nil => exact ⟨fun h => absurd h Bool.false_ne_true, fun h => by cases h⟩
    | cons token' rest' =>
      simp only [alike, Bool.and_eq_true, Bool.or_eq_true, decide_eq_true_eq, ih, ne_eq,
        ← imp_iff_not_or, decide_eq_decide]
      constructor
      · rintro ⟨⟨⟨hk, hname⟩, hjoined⟩, htail⟩
        exact .cons hk hname hjoined htail
      · intro h
        cases h with
        | cons hk hname hjoined htail => exact ⟨⟨⟨hk, hname⟩, hjoined⟩, htail⟩

instance (ρ : Renaming) (ts ts' : List Token) : Decidable (Alike ρ ts ts') :=
  decidable_of_iff _ alike_iff

/-- Options that are both empty or both hold lists of tokens that are alike. -/
abbrev AlikeAfter (ρ : Renaming) : Option (List Token) → Option (List Token) → Prop :=
  Option.Rel (Alike ρ)

namespace Alike

variable {ρ : Renaming} {ts ts' : List Token}

theorem refl (ts : List Token) : Alike .id ts ts := by
  induction ts with
  | nil => exact .nil
  | cons t ts ih => exact .cons rfl (fun _ => rfl) (fun _ => Iff.rfl) ih

theorem length_eq (h : Alike ρ ts ts') : ts'.length = ts.length := by
  induction h with
  | nil => rfl
  | cons _ _ _ _ ih => simp [ih]

theorem drop (h : Alike ρ ts ts') (n : Nat) : Alike ρ (ts.drop n) (ts'.drop n) := by
  induction n generalizing ts ts' with
  | zero => exact h
  | succ n ih =>
    cases h with
    | nil => exact .nil
    | cons _ _ _ rest => exact ih rest

@[grind →]
theorem headKind_eq (h : Alike ρ ts ts') : headKind ts' = headKind ts := by
  cases h with
  | nil => rfl
  | cons kind _ _ _ => exact kind

theorem kindAt_eq (h : Alike ρ ts ts') (n : Nat) : kindAt n ts' = kindAt n ts :=
  (h.drop n).headKind_eq

theorem headText_eq (h : Alike ρ ts ts') (hk : headKind ts = .identifier) :
    headText ts' = ρ.rename (headText ts) := by
  cases h with
  | nil => simp [headKind] at hk
  | cons _ name _ _ => exact name hk

theorem isWord_eq (h : Alike ρ ts ts') (word : String) (hw : word ∈ contextualWords) :
    isWord word ts' = isWord word ts := by
  unfold isWord
  rw [h.headKind_eq]
  by_cases hk : headKind ts = .identifier
  · simp [hk, h.headText_eq hk, ρ.rename_eq_iff hw]
  · simp [hk]

/-! ## Groups and annotations -/

theorem closeGroup? (h : Alike ρ ts ts') (budget depth : Nat) :
    AlikeAfter ρ (Grammar.closeGroup? budget depth ts) (Grammar.closeGroup? budget depth ts') := by
  induction budget generalizing depth ts ts' with
  | zero => cases h <;> exact .none
  | succ budget ih =>
    cases h with
    | nil => exact .none
    | cons kind _ _ rest =>
      simp only [Grammar.closeGroup?, kind]
      split
      · exact .none
      · exact ih rest _
      · split
        · exact .some rest
        · exact ih rest _
      · exact ih rest _

theorem afterGroup? (h : Alike ρ ts ts') :
    AlikeAfter ρ (Grammar.afterGroup? ts) (Grammar.afterGroup? ts') :=
  h.closeGroup? _ _

theorem afterDottedNames (h : Alike ρ ts ts') :
    Alike ρ (Grammar.afterDottedNames ts) (Grammar.afterDottedNames ts') := by
  induction hn : ts.length using Nat.strongRecOn generalizing ts ts' with
  | ind n ih =>
    cases h with
    | nil => exact .nil
    | cons kind name joined rest =>
      cases rest with
      | nil => exact .cons kind name joined .nil
      | cons kind' name' joined' rest' =>
        simp only [Grammar.afterDottedNames, kind, kind']
        split
        · exact ih _ (by simp only [← hn, List.length_cons]; omega) rest' rfl
        · exact .cons kind name joined (.cons kind' name' joined' rest')

theorem afterAnnotations? (h : Alike ρ ts ts') :
    AlikeAfter ρ (Grammar.afterAnnotations? ts) (Grammar.afterAnnotations? ts') := by
  induction hn : ts.length using Nat.strongRecOn generalizing ts ts' with
  | ind n ih =>
    cases h with
    | nil =>
      unfold Grammar.afterAnnotations?
      exact .some .nil
    | cons kind name joined rest =>
      cases rest with
      | nil =>
        unfold Grammar.afterAnnotations?
        exact .some (.cons kind name joined .nil)
      | @cons _ _ more more' kind' name' joined' rest' =>
        rw [Grammar.afterAnnotations?.eq_def, Grammar.afterAnnotations?.eq_def]
        simp only [kind, kind', rest'.afterDottedNames.headKind_eq]
        have hl := length_afterDottedNames_le more
        simp only [List.length_cons] at hn
        split
        · split
          · cases hg : Grammar.afterGroup? (Grammar.afterDottedNames more) with
            | none =>
              have := rest'.afterDottedNames.afterGroup?
              rw [hg] at this
              generalize Grammar.afterGroup? (Grammar.afterDottedNames more') = o at this ⊢
              cases this
              exact .none
            | some behind =>
              have := rest'.afterDottedNames.afterGroup?
              have hb := length_lt_of_afterGroup? hg
              rw [hg] at this
              generalize Grammar.afterGroup? (Grammar.afterDottedNames more') = o at this ⊢
              cases this with
              | some hr => exact ih _ (by omega) hr rfl
          · exact ih _ (by omega) rest'.afterDottedNames rfl
        · exact .some (.cons kind name joined (.cons kind' name' joined' rest'))

/-! ## Types -/

/-- A lookahead decides alike on at most `n` tokens. -/
private def Decides (ρ : Renaming) (n : Nat) (look : Nat → List Token → Option (List Token)) :
    Prop :=
  ∀ d ts ts', ts.length ≤ n → Alike ρ ts ts' → AlikeAfter ρ (look d ts) (look d ts')

/-- Looking at the parts of a type of at most `n` tokens decides alike. -/
private structure Types (ρ : Renaming) (n : Nat) : Prop where
  type : Decides ρ n typeFrom?
  named : Decides ρ n namedFrom?
  qualified : Decides ρ n qualifiedFrom?
  dimensions : Decides ρ n dimensionsFrom?
  close : Decides ρ n closeFrom?
  argument : Decides ρ n argumentFrom?

section

variable {n : Nat} (ih : ∀ m < n, Types ρ m)

include ih

private theorem decides_close : Decides ρ n closeFrom? := by
  intro d ts ts' hn h
  rw [closeFrom?.eq_def, closeFrom?.eq_def]
  cases d with
  | zero => exact .some h
  | succ outer =>
    cases h with
    | nil => exact .none
    | @cons _ _ more _ kind _ _ tail =>
      simp only [List.length_cons] at hn
      simp only [kind]
      split
      · exact (ih more.length (by omega)).argument _ _ _ (Nat.le_refl _) tail
      · exact (ih more.length (by omega)).qualified _ _ _ (Nat.le_refl _) tail
      · exact .none

private theorem decides_dimensions : Decides ρ n dimensionsFrom? := by
  intro d ts ts' hn h
  have whole := decides_close ih d _ _ hn h
  have ha := h.afterAnnotations?
  rw [dimensionsFrom?.eq_def, dimensionsFrom?.eq_def]
  generalize hb : Grammar.afterAnnotations? ts = o at ha ⊢
  generalize Grammar.afterAnnotations? ts' = o' at ha ⊢
  cases ha with
  | none => exact .none
  | some hr =>
    have hlen := length_le_of_afterAnnotations? hb
    cases hr with
    | nil => exact whole
    | cons kind _ _ tail =>
      cases tail with
      | nil => exact whole
      | @cons _ _ more _ kind' _ _ tail' =>
        simp only [List.length_cons] at hlen
        simp only [kind, kind']
        split
        · exact (ih more.length (by omega)).dimensions _ _ _ (Nat.le_refl _) tail'
        · exact whole

private theorem decides_qualified : Decides ρ n qualifiedFrom? := by
  intro d ts ts' hn h
  have whole := decides_dimensions ih d _ _ hn h
  rw [qualifiedFrom?.eq_def, qualifiedFrom?.eq_def]
  cases h with
  | nil => exact whole
  | @cons _ _ more more' kind _ _ tail =>
    simp only [kind]
    split
    · have ha := tail.afterAnnotations?
      generalize hb : Grammar.afterAnnotations? more = o at ha ⊢
      generalize Grammar.afterAnnotations? more' = o' at ha ⊢
      cases ha with
      | none => exact .none
      | some hr =>
        have hlen := length_le_of_afterAnnotations? hb
        cases hr with
        | nil => exact whole
        | @cons _ _ behind _ kind' _ _ tail' =>
          simp only [List.length_cons] at hlen hn
          simp only [kind']
          split
          · exact (ih behind.length (by omega)).named _ _ _ (Nat.le_refl _) tail'
          · exact whole
    · exact whole

private theorem decides_named : Decides ρ n namedFrom? := by
  intro d ts ts' hn h
  have whole := decides_qualified ih d _ _ hn h
  rw [namedFrom?.eq_def, namedFrom?.eq_def]
  cases h with
  | nil => exact whole
  | @cons _ _ more _ kind _ _ tail =>
    simp only [List.length_cons] at hn
    simp only [kind, tail.headKind_eq]
    split
    · split
      · exact (ih (more.drop 1).length (by simp only [List.length_drop]; omega)).qualified
          _ _ _ (Nat.le_refl _) (tail.drop 1)
      · exact (ih more.length (by omega)).argument _ _ _ (Nat.le_refl _) tail
    · exact whole

private theorem decides_type : Decides ρ n typeFrom? := by
  intro d ts ts' hn h
  have ha := h.afterAnnotations?
  rw [typeFrom?.eq_def, typeFrom?.eq_def]
  generalize hb : Grammar.afterAnnotations? ts = o at ha ⊢
  generalize Grammar.afterAnnotations? ts' = o' at ha ⊢
  cases ha with
  | none => exact .none
  | some hr =>
    have hlen := length_le_of_afterAnnotations? hb
    cases hr with
    | nil => exact .none
    | cons kind _ _ tail =>
      simp only [List.length_cons] at hlen
      simp only [kind]
      split
      · exact decides_dimensions ih _ _ _ (by omega) tail
      · split
        · exact decides_named ih _ _ _ (by omega) tail
        · exact .none

private theorem decides_argument : Decides ρ n argumentFrom? := by
  intro d ts ts' hn h
  have ha := h.afterAnnotations?
  rw [argumentFrom?.eq_def, argumentFrom?.eq_def]
  generalize hb : Grammar.afterAnnotations? ts = o at ha ⊢
  generalize Grammar.afterAnnotations? ts' = o' at ha ⊢
  cases ha with
  | none => exact .none
  | some hr =>
    have hlen := length_le_of_afterAnnotations? hb
    cases hr with
    | nil => exact .none
    | cons kind name joined tail =>
      simp only [List.length_cons] at hlen
      simp only [kind, tail.headKind_eq]
      split
      · split
        · exact decides_type ih _ _ _ (by simp only [List.length_drop]; omega) (tail.drop 1)
        · exact decides_type ih _ _ _ (by simp only [List.length_drop]; omega) (tail.drop 1)
        · exact decides_close ih _ _ _ (by omega) tail
      · exact decides_type ih _ _ _ (by simp only [List.length_cons]; omega)
          (.cons kind name joined tail)

end

private theorem types (ρ : Renaming) (n : Nat) : Types ρ n := by
  induction n using Nat.strongRecOn with
  | ind n ih =>
    -- the order is that in which the lookaheads call each other without taking a token
    exact ⟨decides_type ih, decides_named ih, decides_qualified ih, decides_dimensions ih,
      decides_close ih, decides_argument ih⟩

theorem afterType? (h : Alike ρ ts ts') :
    AlikeAfter ρ (Grammar.afterType? ts) (Grammar.afterType? ts') :=
  (types ρ ts.length).type _ _ _ (Nat.le_refl _) h

theorem afterAlternatives (h : Alike ρ ts ts') :
    Alike ρ (Grammar.afterAlternatives ts) (Grammar.afterAlternatives ts') := by
  induction hn : ts.length using Nat.strongRecOn generalizing ts ts' with
  | ind n ih =>
    cases h with
    | nil =>
      unfold Grammar.afterAlternatives
      exact .nil
    | @cons _ _ more more' kind name joined tail =>
      rw [Grammar.afterAlternatives.eq_def, Grammar.afterAlternatives.eq_def]
      simp only [kind]
      split
      · have ha := tail.afterType?
        generalize hb : Grammar.afterType? more = o at ha ⊢
        generalize Grammar.afterType? more' = o' at ha ⊢
        cases ha with
        | none => exact .cons kind name joined tail
        | some hr =>
          have hlen := length_lt_of_afterType? hb
          simp only [List.length_cons] at hn
          exact ih _ (by omega) hr rfl
      · exact .cons kind name joined tail

theorem afterIntersection? (h : Alike ρ ts ts') :
    AlikeAfter ρ (Grammar.afterIntersection? ts) (Grammar.afterIntersection? ts') := by
  induction hn : ts.length using Nat.strongRecOn generalizing ts ts' with
  | ind n ih =>
    cases h with
    | nil =>
      unfold Grammar.afterIntersection?
      exact .some .nil
    | @cons _ _ more more' kind name joined tail =>
      rw [Grammar.afterIntersection?.eq_def, Grammar.afterIntersection?.eq_def]
      simp only [kind]
      split
      · have ha := tail.afterType?
        generalize hb : Grammar.afterType? more = o at ha ⊢
        generalize Grammar.afterType? more' = o' at ha ⊢
        cases ha with
        | none => exact .none
        | some hr =>
          have hlen := length_lt_of_afterType? hb
          simp only [List.length_cons] at hn
          exact ih _ (by omega) hr rfl
      · exact .some (.cons kind name joined tail)

/-! ## Modifiers -/

theorem modifierAt?_eq (h : Alike ρ ts ts') (allowDefault : Bool) :
    modifierAt? allowDefault ts' = modifierAt? allowDefault ts := by
  cases h with
  | nil => rfl
  | @cons token token' more more' kind name joined tail =>
    have sealed : "sealed" ∈ contextualWords := by decide
    have hs : token.kind = .identifier → (token'.text = "sealed" ↔ token.text = "sealed") :=
      fun hk => by rw [name hk, ρ.rename_eq_iff (by decide)]
    have hn : token.kind = .identifier → (token'.text = "non" ↔ token.text = "non") :=
      fun hk => by rw [name hk, ρ.rename_eq_iff (by decide)]
    simp only [modifierAt?, kind, tail.headKind_eq, (tail.drop 1).isWord_eq "sealed" sealed]
    split <;> simp_all

theorem isAnnotation_eq (h : Alike ρ ts ts') : isAnnotation ts' = isAnnotation ts := by
  unfold isAnnotation
  rw [h.headKind_eq, h.kindAt_eq]

theorem startsLocalModifiers_eq (h : Alike ρ ts ts') :
    Parse.startsLocalModifiers ts' = Parse.startsLocalModifiers ts := by
  simp only [Parse.startsLocalModifiers, h.headKind_eq, h.kindAt_eq]

/-! ## Declarations and statements -/

theorem isTypeDeclaration_eq (h : Alike ρ ts ts') :
    isTypeDeclaration ts' = isTypeDeclaration ts := by
  simp only [isTypeDeclaration, isRecordDeclaration, h.headKind_eq, h.kindAt_eq,
    h.isWord_eq "record" (by decide)]

theorem isInitializer_eq (h : Alike ρ ts ts') :
    Parse.isInitializer ts' = Parse.isInitializer ts := by
  simp only [Parse.isInitializer, h.headKind_eq, h.kindAt_eq]

theorem isYield_eq (h : Alike ρ ts ts') : isYield ts' = isYield ts := by
  simp only [isYield, h.kindAt_eq, h.isWord_eq "yield" (by decide)]

theorem isLocalVariable_eq (h : Alike ρ ts ts') : isLocalVariable ts' = isLocalVariable ts := by
  unfold isLocalVariable
  have ha := h.afterType?
  generalize Grammar.afterType? ts = o at ha ⊢
  generalize Grammar.afterType? ts' = o' at ha ⊢
  cases ha with
  | none => rfl
  | some hr => simp only [hr.headKind_eq, hr.kindAt_eq]

theorem isForEachVariable_eq (h : Alike ρ ts ts') :
    isForEachVariable ts' = isForEachVariable ts := by
  unfold isForEachVariable
  have ha := h.afterType?
  generalize Grammar.afterType? ts = o at ha ⊢
  generalize Grammar.afterType? ts' = o' at ha ⊢
  cases ha with
  | none => rfl
  | some hr => simp only [hr.headKind_eq, hr.kindAt_eq]

theorem afterQualifier (h : Alike ρ ts ts') :
    Alike ρ (Grammar.afterQualifier ts) (Grammar.afterQualifier ts') := by
  induction hn : ts.length using Nat.strongRecOn generalizing ts ts' with
  | ind n ih =>
    cases h with
    | nil => exact .nil
    | cons kind name joined tail =>
      cases tail with
      | nil => exact .cons kind name joined .nil
      | cons kind' name' joined' tail' =>
        simp only [Grammar.afterQualifier, kind, kind']
        split
        · exact ih _ (by simp only [← hn, List.length_cons]; omega) tail' rfl
        · exact .cons kind name joined (.cons kind' name' joined' tail')

theorem isReceiver_eq (h : Alike ρ ts ts') : isReceiver ts' = isReceiver ts := by
  unfold isReceiver
  have ha := h.afterType?
  generalize Grammar.afterType? ts = o at ha ⊢
  generalize Grammar.afterType? ts' = o' at ha ⊢
  cases ha with
  | none => rfl
  | some hr => simp only [hr.afterQualifier.headKind_eq]

/-! ## Expressions -/

theorem isLambda_eq (h : Alike ρ ts ts') : isLambda ts' = isLambda ts := by
  unfold isLambda
  rw [h.headKind_eq, h.kindAt_eq]
  have ha := h.afterGroup?
  generalize Grammar.afterGroup? ts = o at ha ⊢
  generalize Grammar.afterGroup? ts' = o' at ha ⊢
  cases ha with
  | none => rfl
  | some hr => simp only [Option.any_some, hr.headKind_eq]

theorem isCast_eq (h : Alike ρ ts ts') : isCast ts' = isCast ts := by
  unfold isCast
  rw [h.kindAt_eq]
  have ha := (h.drop 1).afterType?
  generalize Grammar.afterType? (ts.drop 1) = o at ha ⊢
  generalize Grammar.afterType? (ts'.drop 1) = o' at ha ⊢
  cases ha with
  | none => rfl
  | some hr =>
    simp only [Option.bind_some]
    have hi := hr.afterIntersection?
    generalize Grammar.afterIntersection? _ = o at hi ⊢
    generalize Grammar.afterIntersection? _ = o' at hi ⊢
    cases hi with
    | none => rfl
    | some hr' => simp only [hr'.headKind_eq, hr'.kindAt_eq]

theorem joinedGreater_eq {first first' : Token} (h : Alike ρ (first :: ts) (first' :: ts'))
    (hg : first.kind = .mark .greater) : joinedGreater first' ts' = joinedGreater first ts := by
  cases h with
  | cons kind name joined tail =>
    cases tail with
    | nil => rfl
    | @cons second second' more more' kind₂ name₂ joined₂ tail₂ =>
      have h₁ : second'.start = first'.stop ↔ second.start = first.stop := by
        simpa using joined hg
      cases tail₂ with
      | nil => simp [joinedGreater, touches, kind₂, h₁]
      | @cons third third' _ _ kind₃ _ _ _ =>
        by_cases hs : second.kind = .mark .greater
        · have h₂ : third'.start = second'.stop ↔ third.start = second.stop := by
            simpa using joined₂ hs
          simp [joinedGreater, touches, kind₂, kind₃, h₁, h₂]
        · simp [joinedGreater, touches, kind₂, h₁, hs]

theorem binaryOperator?_eq (h : Alike ρ ts ts') : binaryOperator? ts' = binaryOperator? ts := by
  cases h with
  | nil => rfl
  | cons kind name joined tail =>
    simp only [binaryOperator?, kind]
    split
    any_goals rfl
    next hg => rw [(Alike.cons kind name joined tail).joinedGreater_eq hg]

theorem assignmentOperator?_eq (h : Alike ρ ts ts') :
    assignmentOperator? ts' = assignmentOperator? ts := by
  cases h with
  | nil => rfl
  | cons kind name joined tail =>
    simp only [assignmentOperator?, kind]
    split
    · rfl
    · split
      next hg => rw [(Alike.cons kind name joined tail).joinedGreater_eq hg]
      · rfl

end Alike

end Grammar

end JavaNames
