/-
What a reader reports. Spelling and syntax have rules of their own, and neither finding the tokens of a
text nor reading them reports any other. Main statement: the diagnostics of a file that has been read
are all for broken rules of its spelling or its syntax.
-/
import JavaNames.Proofs.Reading.Unit

namespace JavaNames

/-! ## Rules and their numbers -/

theorem Rule.code_injective : Function.Injective Rule.code := fun rule rule' h =>
  Option.some.inj (by rw [← ofCode?_code rule, h, ofCode?_code])

/-- A diagnostic for a broken rule of the spelling or the syntax. -/
def Diagnostic.IsSyntactic (diagnostic : Diagnostic) : Prop :=
  ∃ rule : Rule, rule.isSyntactic ∧ diagnostic.code = rule.code

namespace Diagnostic

theorem isSyntactic_ofRule {rule : Rule} (h : rule.isSyntactic) (file : String) (start length : Nat)
    (arguments : List String) : (ofRule rule file start length arguments).IsSyntactic :=
  ⟨rule, h, rfl⟩

theorem IsSyntactic.code_ne {diagnostic : Diagnostic} (h : diagnostic.IsSyntactic) {rule : Rule}
    (hr : rule.isSyntactic = false) : diagnostic.code ≠ rule.code := by
  obtain ⟨broken, hb, hc⟩ := h
  intro hcode
  obtain rfl := Rule.code_injective (hc.symm.trans hcode)
  rw [hr] at hb
  exact absurd hb Bool.false_ne_true

end Diagnostic

/-! ## Spelling -/

namespace Token

theorem isSyntactic_defectDiagnostic (file : String) (token : Token) (defect : Defect) :
    (defectDiagnostic file token defect).IsSyntactic := by
  cases defect with
  | unexpected => exact Diagnostic.isSyntactic_ofRule rfl _ _ _ _
  | unterminated what => exact Diagnostic.isSyntactic_ofRule rfl _ _ _ _

theorem isSyntactic_of_mem_scanFrom (file : String) (offset : Nat) (cs : List Char) :
    ∀ diagnostic ∈ (scanFrom file offset cs).diagnostics, diagnostic.IsSyntactic := by
  have hcomment {stop : Nat} {comment : Option (List Char)} {diagnostic : Diagnostic}
      (h : diagnostic ∈ (comment.map (unclosedComment file stop)).toList) :
      diagnostic.IsSyntactic := by
    obtain ⟨_, -, rfl⟩ := Option.map_eq_some_iff.1 (Option.mem_toList.1 h)
    exact Diagnostic.isSyntactic_ofRule rfl _ _ _ _
  fun_induction scanFrom file offset cs with
  | case1 offset cs => exact fun _ => hcomment
  | case2 offset cs space start unclosed c rest hrest found token behind ih =>
    intro diagnostic h
    rcases List.mem_append.1 h with h | h
    · rcases List.mem_append.1 h with h | h
      · exact hcomment h
      · obtain ⟨defect, -, rfl⟩ := Option.map_eq_some_iff.1 (Option.mem_toList.1 h)
        exact isSyntactic_defectDiagnostic file token defect
    · exact ih diagnostic h

end Token

/-! ## Syntax -/

namespace Grammar

/-- All diagnostics of a reader's state are for broken rules of the spelling or the syntax. -/
def State.OnlySyntactic (s : State) : Prop :=
  ∀ diagnostic ∈ s.diagnostics, diagnostic.IsSyntactic

theorem State.OnlySyntactic.advance {s : State} (h : s.OnlySyntactic) :
    s.advance.OnlySyntactic := by
  unfold State.advance
  split
  · exact h
  · exact h

/-- Reading reports nothing but broken rules of syntax. -/
theorem State.OnlySyntactic.invariant (ρ : Renaming) (input input' : Input) :
    Invariant ρ input input' fun s _ _ => s.OnlySyntactic where
  weaker _ h := h
  mark _ h := h
  advance _ h := h.advance
  report _ _ _ _ hr _ h := fun diagnostic hd => by
    rcases Array.mem_push.1 hd with hd | rfl
    · exact h diagnostic hd
    · exact Diagnostic.isSyntactic_ofRule hr.isSyntactic _ _ _ _
  enter _ _ h := h
  leave h := h
  refuse _ _ h := h
  word _ _ _ _ h := h.advance
  nameUse _ _ _ _ _ h := h.advance
  typeNode _ _ _ _ _ _ _ _ h := h
  replace _ _ _ _ _ h := h
  finish _ _ _ _ _ h := h

/-- What is said about a file that has been read is about its spelling or its syntax. -/
theorem isSyntactic_of_parse {file text : String} {unit : SyntaxUnit}
    (h : parse file text = .ok unit) :
    ∀ diagnostic ∈ unit.diagnostics, diagnostic.IsSyntactic := by
  have hstart : (State.ofText file text).OnlySyntactic := fun diagnostic hd =>
    Token.isSyntactic_of_mem_scanFrom file 0 text.toList diagnostic (List.mem_toArray.1 hd)
  obtain ⟨t, parts, hread, -, -, -, hd⟩ :=
    Invariant.of_parse h (State.OnlySyntactic.invariant .id _ _) [] hstart
  intro diagnostic hm
  rw [hd] at hm
  exact hread diagnostic (Array.mem_toList_iff.1 hm)

end Grammar

end JavaNames
