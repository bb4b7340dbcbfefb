/-
How far the lookaheads look. What one of them leaves is a tail of the tokens that it started with, so
that it never looks behind the end of the file; behind a group, a type and the arguments of a type the
tail is shorter. The lookahead for a type is one run over nested lists of arguments, and each list has
an end of its own in it.
-/
import JavaNames.Grammar.Lookahead

namespace JavaNames.Grammar

/-! ## Places behind -/

/-- What is left behind at least one token. -/
def Beyond (rest tokens : List Token) : Prop := rest <:+ tokens ∧ rest.length < tokens.length

namespace Beyond

variable {rest more tokens : List Token}

theorem of_suffix (h : rest <:+ tokens) (token : Token) : Beyond rest (token :: tokens) :=
  ⟨h.trans (List.suffix_cons _ _), Nat.lt_succ_of_le h.length_le⟩

theorem cons (h : Beyond rest tokens) (token : Token) : Beyond rest (token :: tokens) :=
  of_suffix h.1 token

theorem suffix_trans (h : Beyond rest more) (hm : more <:+ tokens) : Beyond rest tokens :=
  ⟨h.1.trans hm, Nat.lt_of_lt_of_le h.2 hm.length_le⟩

end Beyond

/-! ## Groups -/

theorem beyond_of_closeGroup? {budget depth : Nat} {tokens rest : List Token}
    (h : closeGroup? budget depth tokens = some rest) : Beyond rest tokens := by
  fun_induction closeGroup? budget depth tokens with
  | case1 => cases h
  | case2 => cases h
  | case3 => cases h
  | case4 _ _ token _ _ ih => exact (ih h).cons token
  | case5 _ _ token _ _ _ =>
    cases h
    exact .of_suffix (List.suffix_refl _) token
  | case6 _ _ token _ _ _ ih => exact (ih h).cons token
  | case7 _ _ token _ _ _ _ ih => exact (ih h).cons token

theorem beyond_of_afterGroup? {tokens rest : List Token} (h : afterGroup? tokens = some rest) :
    Beyond rest tokens :=
  beyond_of_closeGroup? h

/-- The lookahead for the end of a group with a count that is checked: none when a group is closed
while none is open. -/
def closeGroupChecked? : Nat → Nat → List Token → Option (Option (List Token))
  | 0, _, _ => some none
  | _, _, [] => some none
  | budget + 1, depth, token :: rest =>
    match token.kind with
    | .endOfFile => some none
    | .mark .openParen => closeGroupChecked? budget (depth + 1) rest
    | .mark .closeParen =>
      match depth with
      | 0 => none
      | 1 => some (some rest)
      | outer + 2 => closeGroupChecked? budget (outer + 1) rest
    | _ => closeGroupChecked? budget depth rest

theorem closeGroupChecked?_eq {budget depth : Nat} {tokens : List Token} (h : 0 < depth) :
    closeGroupChecked? budget depth tokens = some (closeGroup? budget depth tokens) := by
  fun_induction closeGroup? budget depth tokens with
  | case1 => rfl
  | case2 => simp [closeGroupChecked?]
  | case3 _ _ _ _ hk => simp [closeGroupChecked?, hk]
  | case4 _ _ _ _ hk ih => simpa [closeGroupChecked?, hk] using ih (Nat.succ_pos _)
  | case5 _ depth _ _ hk hd =>
    obtain rfl : depth = 1 := by omega
    simp [closeGroupChecked?, hk]
  | case6 _ depth _ _ hk hd ih =>
    obtain ⟨outer, rfl⟩ : ∃ outer, depth = outer + 2 := ⟨depth - 2, by omega⟩
    simpa [closeGroupChecked?, hk] using ih (Nat.succ_pos _)
  | case7 _ _ _ _ _ _ _ ih => simpa [closeGroupChecked?] using ih h

/-- From an opening parenthesis the count of the open groups never goes below zero. -/
theorem closeGroupChecked?_of_openParen {tokens : List Token}
    (h : headKind tokens = .mark .openParen) :
    closeGroupChecked? (maxGroup + 1) 0 tokens = some (afterGroup? tokens) := by
  cases tokens with
  | nil => cases h
  | cons token rest =>
    simp only [headKind] at h
    simp only [closeGroupChecked?, afterGroup?, closeGroup?, h]
    exact closeGroupChecked?_eq (Nat.succ_pos _)

/-! ## Annotations -/

theorem suffix_afterDottedNames (tokens : List Token) : afterDottedNames tokens <:+ tokens := by
  fun_induction afterDottedNames tokens with
  | case1 dot name rest _ ih => exact ih.trans ⟨[dot, name], rfl⟩
  | case2 => exact List.suffix_refl _
  | case3 => exact List.suffix_refl _

theorem suffix_of_afterAnnotations? {tokens rest : List Token}
    (h : afterAnnotations? tokens = some rest) : rest <:+ tokens := by
  fun_induction afterAnnotations? tokens with
  | case1 sign name more _ _ behind hb ih =>
    have hgroup := (beyond_of_afterGroup? hb).1.trans (suffix_afterDottedNames more)
    exact ((ih h).trans hgroup).trans ⟨[sign, name], rfl⟩
  | case2 => cases h
  | case3 sign name more _ _ ih =>
    exact ((ih h).trans (suffix_afterDottedNames more)).trans ⟨[sign, name], rfl⟩
  | case4 =>
    cases h
    exact List.suffix_refl _
  | case5 =>
    cases h
    exact List.suffix_refl _

/-! ## Modifiers -/

theorem width_pos_of_modifierAt? {allowDefault : Bool} {ts : List Token} {modifier : Modifier}
    {width : Nat} (h : modifierAt? allowDefault ts = some (modifier, width)) : 0 < width := by
  cases ts with
  | nil => cases h
  | cons token rest =>
    simp only [modifierAt?] at h
    split at h <;> grind

theorem length_drop_lt_of_modifierAt? {allowDefault : Bool} {ts : List Token} {modifier : Modifier}
    {width : Nat} (h : modifierAt? allowDefault ts = some (modifier, width)) :
    (ts.drop width).length < ts.length := by
  have hpos := width_pos_of_modifierAt? h
  cases ts with
  | nil => cases h
  | cons token rest =>
    rw [List.length_drop, List.length_cons]
    omega

/-! ## Types -/

/-- The parts of a type among at most `n` tokens. Each is left at a place of its own, from where the
lookahead goes on with what may follow it; behind the arguments of a type these are its other names. -/
private structure Splits (n : Nat) : Prop where
  type : ∀ d ts r, ts.length ≤ n → typeFrom? d ts = some r →
    ∃ behind, Beyond behind ts ∧ closeFrom? d behind = some r
  named : ∀ d ts r, ts.length ≤ n → namedFrom? d ts = some r →
    ∃ behind, behind <:+ ts ∧ closeFrom? d behind = some r
  qualified : ∀ d ts r, ts.length ≤ n → qualifiedFrom? d ts = some r →
    ∃ behind, behind <:+ ts ∧ closeFrom? d behind = some r
  dimensions : ∀ d ts r, ts.length ≤ n → dimensionsFrom? d ts = some r →
    ∃ behind, behind <:+ ts ∧ closeFrom? d behind = some r
  close : ∀ d ts r, ts.length ≤ n → closeFrom? (d + 1) ts = some r →
    ∃ behind, Beyond behind ts ∧ qualifiedFrom? d behind = some r
  argument : ∀ d ts r, ts.length ≤ n → argumentFrom? d ts = some r →
    ∃ behind, Beyond behind ts ∧ qualifiedFrom? d behind = some r

section

variable {n : Nat} (ih : ∀ m < n, Splits m)

include ih

private theorem splits_close {d : Nat} {ts r : List Token} (hn : ts.length ≤ n)
    (h : closeFrom? (d + 1) ts = some r) :
    ∃ behind, Beyond behind ts ∧ qualifiedFrom? d behind = some r := by
  rw [closeFrom?.eq_def] at h
  cases ts with
  | nil => cases h
  | cons token rest =>
    simp only at h
    split at h
    · obtain ⟨behind, hb, hq⟩ := (ih rest.length hn).argument _ _ _ (Nat.le_refl _) h
      exact ⟨behind, hb.cons token, hq⟩
    · exact ⟨rest, .of_suffix (List.suffix_refl _) token, h⟩
    · cases h

private theorem splits_dimensions {d : Nat} {ts r : List Token} (hn : ts.length ≤ n)
    (h : dimensionsFrom? d ts = some r) :
    ∃ behind, behind <:+ ts ∧ closeFrom? d behind = some r := by
  rw [dimensionsFrom?.eq_def] at h
  split at h
  · cases h
  · rename_i opening closing more ha
    have hsuffix := suffix_of_afterAnnotations? ha
    have hlength := hsuffix.length_le
    simp only [List.length_cons] at hlength
    split at h
    · obtain ⟨behind, hb, hc⟩ := (ih more.length (by omega)).dimensions _ _ _ (Nat.le_refl _) h
      exact ⟨behind, (hb.trans ⟨[opening, closing], rfl⟩).trans hsuffix, hc⟩
    · exact ⟨ts, List.suffix_refl _, h⟩
  · exact ⟨ts, List.suffix_refl _, h⟩

private theorem splits_qualified {d : Nat} {ts r : List Token} (hn : ts.length ≤ n)
    (h : qualifiedFrom? d ts = some r) :
    ∃ behind, behind <:+ ts ∧ closeFrom? d behind = some r := by
  rw [qualifiedFrom?.eq_def] at h
  split at h
  · exact splits_dimensions ih hn h
  · rename_i dot more
    split at h
    · split at h
      · cases h
      · exact splits_dimensions ih hn h
      · rename_i name names ha
        have hsuffix := suffix_of_afterAnnotations? ha
        have hlength := hsuffix.length_le
        simp only [List.length_cons] at hlength hn
        split at h
        · obtain ⟨behind, hb, hc⟩ := (ih names.length (by omega)).named _ _ _ (Nat.le_refl _) h
          have htail := (hb.trans (List.suffix_cons _ _)).trans hsuffix
          exact ⟨behind, htail.trans (List.suffix_cons _ _), hc⟩
        · exact splits_dimensions ih (by simpa using hn) h
    · exact splits_dimensions ih hn h

/-- The names of a type go on behind its arguments. -/
private theorem splits_named {d : Nat} {ts r : List Token} (hn : ts.length ≤ n)
    (h : namedFrom? d ts = some r) :
    ∃ behind, behind <:+ ts ∧ closeFrom? d behind = some r := by
  rw [namedFrom?.eq_def] at h
  split at h
  · exact splits_qualified ih hn h
  · rename_i first more
    split at h
    · simp only [List.length_cons] at hn
      split at h
      · have hlength : (more.drop 1).length < n := by
          simp only [List.length_drop]
          omega
        obtain ⟨behind, hb, hc⟩ := (ih _ hlength).qualified _ _ _ (Nat.le_refl _) h
        exact ⟨behind, (hb.trans (List.drop_suffix _ _)).trans (List.suffix_cons _ _), hc⟩
      · obtain ⟨mid, hmid, hq⟩ := (ih more.length hn).argument _ _ _ (Nat.le_refl _) h
        obtain ⟨behind, hb, hc⟩ := (ih mid.length (Nat.lt_trans hmid.2 hn)).qualified _ _ _
          (Nat.le_refl _) hq
        exact ⟨behind, (hb.trans hmid.1).trans (List.suffix_cons _ _), hc⟩
    · exact splits_qualified ih hn h

private theorem splits_type {d : Nat} {ts r : List Token} (hn : ts.length ≤ n)
    (h : typeFrom? d ts = some r) : ∃ behind, Beyond behind ts ∧ closeFrom? d behind = some r := by
  rw [typeFrom?.eq_def] at h
  split at h
  · cases h
  · cases h
  · rename_i first more ha
    have hsuffix := suffix_of_afterAnnotations? ha
    have hlength := hsuffix.length_le
    simp only [List.length_cons] at hlength
    have rest := ih more.length (by omega)
    split at h
    · obtain ⟨behind, hb, hc⟩ := rest.dimensions _ _ _ (Nat.le_refl _) h
      exact ⟨behind, (Beyond.of_suffix hb first).suffix_trans hsuffix, hc⟩
    · split at h
      · obtain ⟨behind, hb, hc⟩ := rest.named _ _ _ (Nat.le_refl _) h
        exact ⟨behind, (Beyond.of_suffix hb first).suffix_trans hsuffix, hc⟩
      · cases h

/-- A type inside of arguments, and what closes the list that it stands in. -/
private theorem splits_typeClosed {d : Nat} {ts r : List Token} (hn : ts.length ≤ n)
    (h : typeFrom? (d + 1) ts = some r) :
    ∃ behind, Beyond behind ts ∧ qualifiedFrom? d behind = some r := by
  obtain ⟨mid, hmid, hc⟩ := splits_type ih hn h
  obtain ⟨behind, hb, hq⟩ := splits_close ih (Nat.le_trans (Nat.le_of_lt hmid.2) hn) hc
  exact ⟨behind, hb.suffix_trans hmid.1, hq⟩

private theorem splits_argument {d : Nat} {ts r : List Token} (hn : ts.length ≤ n)
    (h : argumentFrom? d ts = some r) :
    ∃ behind, Beyond behind ts ∧ qualifiedFrom? d behind = some r := by
  rw [argumentFrom?.eq_def] at h
  split at h
  · cases h
  · cases h
  · rename_i first more ha
    have hsuffix := suffix_of_afterAnnotations? ha
    have hlength := hsuffix.length_le
    simp only [List.length_cons] at hlength
    have hbound (bounds : List Token) (hs : bounds <:+ more)
        (hf : typeFrom? (d + 1) bounds = some r) :
        ∃ behind, Beyond behind ts ∧ qualifiedFrom? d behind = some r := by
      have hle := hs.length_le
      obtain ⟨behind, hb, hq⟩ := splits_typeClosed ih (by omega) hf
      exact ⟨behind, ((hb.suffix_trans hs).cons first).suffix_trans hsuffix, hq⟩
    split at h
    · split at h
      · exact hbound _ (List.drop_suffix _ _) h
      · exact hbound _ (List.drop_suffix _ _) h
      · obtain ⟨behind, hb, hq⟩ := splits_close ih (by omega) h
        exact ⟨behind, (hb.cons first).suffix_trans hsuffix, hq⟩
    · obtain ⟨behind, hb, hq⟩ := splits_typeClosed ih (by simpa using Nat.le_trans hlength hn) h
      exact ⟨behind, hb.suffix_trans hsuffix, hq⟩

end

private theorem splits (n : Nat) : Splits n := by
  induction n using Nat.strongRecOn with
  | ind n ih =>
    exact ⟨fun _ _ _ hn h => splits_type ih hn h, fun _ _ _ hn h => splits_named ih hn h,
      fun _ _ _ hn h => splits_qualified ih hn h, fun _ _ _ hn h => splits_dimensions ih hn h,
      fun _ _ _ hn h => splits_close ih hn h, fun _ _ _ hn h => splits_argument ih hn h⟩

theorem closeFrom?_zero (tokens : List Token) : closeFrom? 0 tokens = some tokens := by
  rw [closeFrom?.eq_def]

theorem beyond_of_afterType? {tokens rest : List Token} (h : afterType? tokens = some rest) :
    Beyond rest tokens := by
  obtain ⟨behind, hb, hc⟩ := (splits _).type _ _ _ (Nat.le_refl _) h
  rw [closeFrom?_zero] at hc
  cases hc
  exact hb

/-- Behind the name of a type, the arguments end in front of the place at which the lookahead goes on
with the other names of that type. -/
theorem exists_beyond_of_namedFrom? {depth : Nat} {sign : Token} {tokens rest : List Token}
    (hk : sign.kind = .mark .less) (h : namedFrom? depth (sign :: tokens) = some rest) :
    ∃ behind, Beyond behind (sign :: tokens) ∧ qualifiedFrom? depth behind = some rest := by
  rw [namedFrom?.eq_def] at h
  simp only [hk, if_true] at h
  split at h
  · exact ⟨tokens.drop 1, .of_suffix (List.drop_suffix _ _) sign, h⟩
  · obtain ⟨behind, hb, hq⟩ := (splits _).argument _ _ _ (Nat.le_refl _) h
    exact ⟨behind, hb.cons sign, hq⟩

/-! ## Types in a row -/

theorem suffix_afterAlternatives (tokens : List Token) : afterAlternatives tokens <:+ tokens := by
  fun_induction afterAlternatives tokens with
  | case1 => exact List.suffix_refl _
  | case2 sign rest _ behind hb ih =>
    exact ih.trans ((beyond_of_afterType? hb).cons sign).1
  | case3 => exact List.suffix_refl _
  | case4 => exact List.suffix_refl _

theorem suffix_of_afterIntersection? {tokens rest : List Token}
    (h : afterIntersection? tokens = some rest) : rest <:+ tokens := by
  fun_induction afterIntersection? tokens with
  | case1 =>
    cases h
    exact List.suffix_refl _
  | case2 sign more _ behind hb ih =>
    exact (ih h).trans ((beyond_of_afterType? hb).cons sign).1
  | case3 => cases h
  | case4 =>
    cases h
    exact List.suffix_refl _

end JavaNames.Grammar
