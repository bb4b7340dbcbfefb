/-
What the readers of the grammar do with the nodes that they have in hand. `Reads` is a system of rules
for two readers that run side by side over lists of tokens that are alike: it says which nodes and
offsets are in hand before and after, in the order of the source. A node leaves the hand when another
node takes it in or when it is dropped, and it does not come back; a node that is made comes in once.

A derivation is made once for every reader; what the trees look like and that spelling does not matter
are then read off the rules, one case for each rule.
-/
import JavaNames.Grammar.Unit
import JavaNames.Proofs.Reading.Alike
import JavaNames.Proofs.Reading.Role

namespace JavaNames

/-! ## Payloads -/

/-- Whether a payload is a name. -/
def Payload.isName : Payload → Bool
  | .name _ => true
  | _ => false

/-- Payloads with the same links that differ in spelling only. -/
inductive Payload.Alike (ρ : Renaming) : Payload → Payload → Prop
  | same {p : Payload} (h : p.isName = false) : Alike ρ p p
  | name (n : String) : Alike ρ (.name n) (.name (ρ.rename n))
  | compilationUnit {f f' : String} {p p' : Option String} {is is' : List String}
    (types : List Link) : Alike ρ (.compilationUnit f p is types) (.compilationUnit f' p' is' types)
  | jump {l l' : Option String} : Alike ρ (.jump l) (.jump l')
  | labeled {l l' : String} (body : Link) : Alike ρ (.labeled l body) (.labeled l' body)
  | literal {t t' : String} : Alike ρ (.literal t) (.literal t')
  | self {q q' : Option String} : Alike ρ (.self q) (.self q')
  | fieldAccess (e : Link) {n n' : String} : Alike ρ (.fieldAccess e n) (.fieldAccess e n')
  | methodCall (receiver : Link) {n n' : String} (arguments : List Link) :
    Alike ρ (.methodCall receiver n arguments) (.methodCall receiver n' arguments)
  | methodReference (e : Link) {n n' : String} :
    Alike ρ (.methodReference e n) (.methodReference e n')
  | typeReference {t t' : String} : Alike ρ (.typeReference t) (.typeReference t')

theorem Payload.Alike.links_eq {ρ : Renaming} {p p' : Payload} (h : p.Alike ρ p')
    (kind : NodeKind) : p'.links kind = p.links kind := by
  cases h <;> rfl

/-! ## Rules of the syntax -/

/-- The rules about the tokens and the syntax of a file; the others are about its names. -/
def Rule.isSyntactic : Rule → Bool
  | unexpectedToken | expectedToken | unterminatedLiteral | unsupportedSyntax => true
  | duplicateDeclaration | unresolvedName | selfReference => false

/-! ## Reports -/

namespace Grammar

/-- What a reader says about the token that it has come to, with the arguments of the message: that it
was not expected, that a token of another kind was, or that something is not supported there. -/
inductive Telling (token : Token) : Rule → List String → Prop
  | unexpected : Telling token .unexpectedToken [token.shown]
  | expected (kind : TokenKind) : Telling token .expectedToken [kind.text, token.shown]
  | pattern : Telling token .unsupportedSyntax ["Pattern matching in instanceof"]
  | typePattern : Telling token .unsupportedSyntax ["Type patterns in case labels"]

theorem Telling.isSyntactic {token : Token} {rule : Rule} {arguments : List String}
    (h : Telling token rule arguments) : rule.isSyntactic := by
  cases h <;> rfl

/-! ## What is in hand -/

/-- Something in hand: an offset of either source at which a node may start; a node with the part it
can play and by how many nested constructs more it was surrounded when it was read; or only that so
many nested constructs more could be entered. -/
inductive Item where
  | mark (offset offset' : Nat)
  | piece (id : NodeId) (role : Role) (level : Nat)
  | room (level : Nat)

/-- An item seen from outside the nested construct in which it was read. -/
def Item.outside : Item → Item
  | mark o o' => mark o o'
  | piece id role level => piece id role (level + 1)
  | room level => room (level + 1)

/-- The nodes of some links, all in one part. -/
def pieces (role : Role) (level : Nat) (links : List Link) : List Item :=
  links.filterMap fun link => link.map fun id => .piece id role level

section

variable (role : Role) (level : Nat)

@[simp] theorem pieces_nil : pieces role level [] = [] := rfl

@[simp] theorem pieces_none (links : List Link) :
    pieces role level (none :: links) = pieces role level links := rfl

@[simp] theorem pieces_some (id : NodeId) (links : List Link) :
    pieces role level (some id :: links) = .piece id role level :: pieces role level links := rfl

theorem pieces_append (links more : List Link) :
    pieces role level (links ++ more) = pieces role level links ++ pieces role level more :=
  List.filterMap_append

theorem map_outside_pieces (links : List Link) :
    (pieces role level links).map Item.outside = pieces role (level + 1) links := by
  simp [pieces, List.map_filterMap, Item.outside, Function.comp_def]

end

/-- The nodes of the groups of a payload. -/
def groupPieces (groups : List Group) : List Item :=
  groups.flatMap fun group => pieces group.role group.level group.links

@[simp] theorem groupPieces_nil : groupPieces [] = [] := rfl

@[simp] theorem groupPieces_cons (group : Group) (groups : List Group) :
    groupPieces (group :: groups) =
      pieces group.role group.level group.links ++ groupPieces groups := rfl

/-- What is in hand with the parts of a construct that is entered before it is read, and of which the
node is made outside again. -/
@[simp] def rooms : NodeKind → List Item
  | .block | .lambda | .classDeclaration | .interfaceDeclaration | .enumDeclaration
  | .recordDeclaration | .annotationTypeDeclaration => [.room 1]
  | _ => []

/-- The hand after items are dropped and the others play a part that they can play, too. Where room is
left does not depend on what is read next to it. -/
inductive Weaker : List Item → List Item → Prop
  | nil : Weaker [] []
  | keep (item : Item) {H H' : List Item} : Weaker H H' → Weaker (item :: H) (item :: H')
  | drop (item : Item) {H H' : List Item} : Weaker H H' → Weaker (item :: H) H'
  | change {r r' : Role} {l l' : Nat} (id : NodeId) {H H' : List Item} :
    Role.Within r l r' l' → Weaker H H' → Weaker (.piece id r l :: H) (.piece id r' l' :: H')
  | behind (item : Item) (level : Nat) {H H' : List Item} : Weaker H H' →
    Weaker (.room level :: item :: H) (item :: .room level :: H')

namespace Weaker

theorem refl (H : List Item) : Weaker H H := by
  induction H with
  | nil => exact .nil
  | cons item H ih => exact .keep item ih

theorem of_eq {H H' : List Item} (h : H = H') : Weaker H H' := h ▸ refl H

theorem append {H H' R R' : List Item} (h : Weaker H H') (hr : Weaker R R') :
    Weaker (H ++ R) (H' ++ R') := by
  induction h with
  | nil => exact hr
  | keep item _ ih => exact .keep item ih
  | drop item _ ih => exact .drop item ih
  | change id hw _ ih => exact .change id hw ih
  | behind item level _ ih => exact .behind item level ih

theorem empty (H : List Item) : Weaker H [] := by
  induction H with
  | nil => exact .nil
  | cons item H ih => exact .drop item ih

theorem pieces {r r' : Role} {l l' : Nat} (h : Role.Within r l r' l') (links : List Link) :
    Weaker (pieces r l links) (Grammar.pieces r' l' links) := by
  induction links with
  | nil => exact .nil
  | cons link links ih =>
    cases link with
    | none => exact ih
    | some id => exact .change id h ih

end Weaker

/-! ## Rules -/

/-- What is known of the tokens to come in the first of two lists. -/
abbrev Known := List Token → Prop

/-- An offset is the one at which the next token starts. -/
def StartsAt (offset : Nat) (tokens : List Token) : Prop :=
  ∀ first ∈ tokens.head?, first.start = offset

/-- The two results are the same value with a property, and these items are in hand. -/
def gives {α : Type} (P : α → Prop) (f : α → List Item) : α → α → List Item → Prop :=
  fun a b L => a = b ∧ P a ∧ L = f a

/-- The results are the same link, which plays a part. -/
abbrev one (role : Role) : Link → Link → List Item → Prop :=
  gives (fun _ => True) fun link => pieces role 0 [link]

/-- The results are the same list of links to nodes that play a part. -/
abbrev many (role : Role) : List Link → List Link → List Item → Prop :=
  gives (fun links => ∀ link ∈ links, link.isSome) fun links => pieces role 0 links

/-- The results are the same, and nothing is in hand. -/
abbrev same {α : Type} : α → α → List Item → Prop := gives (fun _ => True) fun _ => []

/-- The results differ in spelling, and nothing is in hand. -/
abbrev spelled {α β : Type} : α → β → List Item → Prop := fun _ _ L => L = []

/-- The results of nested constructs: both are refused, or both are read. -/
def inside {α β : Type} (G : α → β → List Item → Prop) :
    Option α → Option β → List Item → Prop
  | none, none, L => L = []
  | some a, some b, L => ∃ M, G a b M ∧ L = M.map Item.outside
  | _, _, _ => False

/-- Two readers make the same moves: what they know of the tokens to come, what is in hand before,
and what is in hand with their results. -/
inductive Reads (ρ : Renaming) : {α β : Type} → Known → List Item → Parse α → Parse β →
    (α → β → List Item → Prop) → Prop
  | ret {α β : Type} {known : Known} {H : List Item} {a : α} {b : β}
    {G : α → β → List Item → Prop} : G a b H → Reads ρ known H (pure a) (pure b) G
  | seq {α β γ δ : Type} {known : Known} {H : List Item} {p : Parse α} {q : Parse β}
    {k : α → Parse γ} {l : β → Parse δ} {F : α → β → List Item → Prop}
    {G : γ → δ → List Item → Prop} : Reads ρ known H p q F →
    (∀ a b L, F a b L → Reads ρ (fun _ => True) L (k a) (l b) G) →
    Reads ρ known H (p >>= k) (q >>= l) G
  | frame {α β : Type} {known : Known} (R : List Item) {H : List Item} {p : Parse α} {q : Parse β}
    {G : α → β → List Item → Prop} : Reads ρ known H p q G →
    Reads ρ known (R ++ H) p q fun a b L => ∃ M, G a b M ∧ L = R ++ M
  | weaken {α β : Type} {known : Known} {H H' : List Item} {p : Parse α} {q : Parse β}
    {G : α → β → List Item → Prop} : Weaker H H' → Reads ρ known H' p q G → Reads ρ known H p q G
  | post {α β : Type} {known : Known} {H : List Item} {p : Parse α} {q : Parse β}
    {F G : α → β → List Item → Prop} : Reads ρ known H p q F →
    (∀ a b L, F a b L → ∃ M, Weaker L M ∧ G a b M) → Reads ρ known H p q G
  | know {α β : Type} {known known' : Known} {H : List Item} {p : Parse α} {q : Parse β}
    {G : α → β → List Item → Prop} : (∀ ts, known ts → known' ts) → Reads ρ known' H p q G →
    Reads ρ known H p q G
  | view {α β γ δ : Type} {known : Known} {H : List Item} {f : List Token → α} {g : List Token → β}
    {k : α → Parse γ} {l : β → Parse δ} {G : γ → δ → List Item → Prop} (P : α → β → Prop) :
    (∀ ts ts', known ts → Alike ρ ts ts' → P (f ts) (g ts')) →
    (∀ a b, P a b → Reads ρ (fun ts => known ts ∧ f ts = a) H (k a) (l b) G) →
    Reads ρ known H (Parse.look f >>= k) (Parse.look g >>= l) G
  | token {γ δ : Type} {known : Known} {H : List Item} {k : Token → Parse γ} {l : Token → Parse δ}
    {G : γ → δ → List Item → Prop} :
    (∀ t t', t'.kind = t.kind → (t.kind = .identifier → t'.text = ρ.rename t.text) →
      Reads ρ known H (k t) (l t') G) →
    Reads ρ known H (Parse.token >>= k) (Parse.token >>= l) G
  | offset {γ δ : Type} {known : Known} {H : List Item} {k : Nat → Parse γ} {l : Nat → Parse δ}
    {G : γ → δ → List Item → Prop} :
    (∀ o o', Reads ρ (fun ts => known ts ∧ StartsAt o ts) (H ++ [.mark o o']) (k o) (l o') G) →
    Reads ρ known H (Parse.offset >>= k) (Parse.offset >>= l) G
  | position {γ δ : Type} {known : Known} {H : List Item} {k : Nat → Parse γ} {l : Nat → Parse δ}
    {G : γ → δ → List Item → Prop} : (∀ n, Reads ρ known H (k n) (l n) G) →
    Reads ρ known H (Parse.position >>= k) (Parse.position >>= l) G
  | aborted {γ δ : Type} {known : Known} {H : List Item} {k : Bool → Parse γ} {l : Bool → Parse δ}
    {G : γ → δ → List Item → Prop} : (∀ b, Reads ρ known H (k b) (l b) G) →
    Reads ρ known H (Parse.aborted >>= k) (Parse.aborted >>= l) G
  | nameAt {γ δ : Type} {known : Known} {H : List Item} {k : Option String → Parse γ}
    {l : Option String → Parse δ} {G : γ → δ → List Item → Prop} (link : Link) :
    (∀ n, Reads ρ known H (k n) (l (n.map ρ.rename)) G) →
    Reads ρ known H (Parse.nameAt link >>= k) (Parse.nameAt link >>= l) G
  | nodeText {known : Known} (link : Link) :
    Reads ρ known [] (Parse.nodeText link) (Parse.nodeText link) spelled
  | readers {γ δ : Type} {known : Known} {H : List Item} {k : Readers → Parse γ}
    {l : Readers → Parse δ} {G : γ → δ → List Item → Prop} :
    (∀ n, Reads ρ known H (k (Parse.readersTo n)) (l (Parse.readersTo n)) G) →
    Reads ρ known H (Parse.readers >>= k) (Parse.readers >>= l) G
  | advance {known : Known} : Reads ρ known [] Parse.advance Parse.advance same
  | report {known : Known} (rule : Rule) (arguments arguments' : Token → List String) :
    (∀ token, Telling token rule (arguments token)) →
    Reads ρ known [] (Parse.token >>= fun t => Parse.report rule t.start t.stop (arguments t))
      (Parse.token >>= fun t => Parse.report rule t.start t.stop (arguments' t)) same
  | nested {α β : Type} {known : Known} {p : Parse α} {q : Parse β}
    {G : α → β → List Item → Prop} : Reads ρ known [.room 0] p q G →
    Reads ρ known [] (Parse.nested p) (Parse.nested q) (inside G)
  | iterate {σ τ : Type} {known : Known} {H : List Item} {step : σ → Parse (σ × Bool)}
    {step' : τ → Parse (τ × Bool)} {I : σ → τ → List Item → Prop} {a : σ} {b : τ} :
    (∀ a b L, I a b L →
      Reads ρ (fun _ => True) L (step a) (step' b) fun x y M => x.2 = y.2 ∧ I x.1 y.1 M) →
    I a b H → Reads ρ known H (Parse.iterate step a) (Parse.iterate step' b) I
  | word {known : Known} : (∀ ts, known ts → headKind ts = .identifier) →
    Reads ρ known [] Parse.word Parse.word (one .name)
  | typeNode {known : Known} {rest rest' : List Token} (o o' : Nat) : Alike ρ rest rest' →
    (∀ ts, known ts → rest.length < ts.length ∧ StartsAt o ts) →
    Reads ρ known [.mark o o'] (do Parse.advanceTo rest; Parse.typeNode o)
      (do Parse.advanceTo rest'; Parse.typeNode o')
      (gives (fun link => link.isSome) fun link => pieces .type 0 [link])
  | toTypeReference {known : Known} (link : Link) :
    Reads ρ known (pieces .operand 0 [link]) (Parse.toTypeReference link)
      (Parse.toTypeReference link) fun _ _ L => L = pieces .operand 0 [link]
  | nameOrCall {known : Known} {r r' : Readers} {o o' : Nat} :
    (∀ ts, known ts → headKind ts = .identifier ∧ StartsAt o ts) →
    Reads ρ (fun _ => True) [] (Parse.arguments r) (Parse.arguments r') (many .expression) →
    Reads ρ known [.mark o o'] (Parse.nameOrCall r o) (Parse.nameOrCall r' o') (one .operand)
  | finish {known : Known} {kind : NodeKind} {o o' : Nat} {payload payload' : Payload}
    {groups : List Group} : kind.isName = false → payload.groups kind = some groups →
    (∀ group ∈ groups, group.Filled) → payload.Alike ρ payload' →
    Reads ρ known (.mark o o' :: (rooms kind ++ groupPieces groups)) (Parse.finish kind o payload)
      (Parse.finish kind o' payload') fun link link' L =>
        link' = link ∧ link.isSome ∧ L = .mark o o' :: pieces (payload.role kind) 0 [link]

namespace Reads

variable {ρ : Renaming} {α β γ δ : Type} {known : Known} {H L : List Item}

/-! ## Sequences -/

/-- A reader that starts with nothing in hand, and then another. -/
theorem bind {p : Parse α} {q : Parse β} {k : α → Parse γ} {l : β → Parse δ}
    {F : α → β → List Item → Prop} {G : γ → δ → List Item → Prop} (hp : Reads ρ known [] p q F)
    (hk : ∀ a b L, F a b L → Reads ρ (fun _ => True) (H ++ L) (k a) (l b) G) :
    Reads ρ known H (p >>= k) (q >>= l) G := by
  have framed := hp.frame H
  rw [List.append_nil] at framed
  refine .seq framed ?_
  rintro a b _ ⟨M, hM, rfl⟩
  exact hk a b M hM

/-- A reader that gives the same result on both sides, and then another. -/
theorem next {p q : Parse α} {k : α → Parse γ} {l : α → Parse δ} {P : α → Prop}
    {f : α → List Item} {G : γ → δ → List Item → Prop} (hp : Reads ρ known [] p q (gives P f))
    (hk : ∀ a, P a → Reads ρ (fun _ => True) (H ++ f a) (k a) (l a) G) :
    Reads ρ known H (p >>= k) (q >>= l) G := by
  refine bind hp ?_
  rintro a _ _ ⟨rfl, ha, rfl⟩
  exact hk a ha

/-- A reader that brings nothing in hand, and then another. -/
theorem skip {p q : Parse α} {k : α → Parse γ} {l : α → Parse δ} {G : γ → δ → List Item → Prop}
    (hp : Reads ρ known [] p q same) (hk : ∀ a, Reads ρ (fun _ => True) H (k a) (l a) G) :
    Reads ρ known H (p >>= k) (q >>= l) G := by
  refine next hp fun a _ => ?_
  rw [List.append_nil]
  exact hk a

/-- A reader that gives a text only, and then another. -/
theorem spell {p : Parse α} {q : Parse β} {k : α → Parse γ} {l : β → Parse δ}
    {G : γ → δ → List Item → Prop} (hp : Reads ρ known [] p q spelled)
    (hk : ∀ a b, Reads ρ (fun _ => True) H (k a) (l b) G) :
    Reads ρ known H (p >>= k) (q >>= l) G := by
  refine bind hp ?_
  rintro a b _ rfl
  rw [List.append_nil]
  exact hk a b

/-- A reader that uses the last items in hand. -/
theorem holding {p : Parse α} {q : Parse β} {k : α → Parse γ} {l : β → Parse δ} (R : List Item)
    {F : α → β → List Item → Prop} {G : γ → δ → List Item → Prop} (hp : Reads ρ known H p q F)
    (hk : ∀ a b L, F a b L → Reads ρ (fun _ => True) (R ++ L) (k a) (l b) G) :
    Reads ρ known (R ++ H) (p >>= k) (q >>= l) G := by
  refine .seq (hp.frame R) ?_
  rintro a b _ ⟨M, hM, rfl⟩
  exact hk a b M hM

/-! ## Branches -/

theorem ite {c : Prop} [Decidable c] {p p' : Parse α} {q q' : Parse β}
    {G : α → β → List Item → Prop} (ht : c → Reads ρ known H p q G)
    (he : ¬c → Reads ρ known H p' q' G) :
    Reads ρ known H (if c then p else p') (if c then q else q') G := by
  split
  · exact ht ‹_›
  · exact he ‹_›

/-- Two readers, one of which is chosen, and what follows either of them. -/
theorem choose {c : Prop} [Decidable c] {p p' q q' : Parse α} {k : α → Parse γ} {l : α → Parse δ}
    {P : α → Prop} {f : α → List Item} {G : γ → δ → List Item → Prop}
    (ht : c → Reads ρ known [] p q (gives P f)) (he : ¬c → Reads ρ known [] p' q' (gives P f))
    (hk : ∀ a, P a → Reads ρ (fun _ => True) (H ++ f a) (k a) (l a) G) :
    Reads ρ known H (if c then p >>= k else p' >>= k) (if c then q >>= l else q' >>= l) G :=
  ite (fun hc => next (ht hc) hk) fun hc => next (he hc) hk

/-! ## Results -/

/-- A reader that gives a value and what is in hand with it. -/
theorem give {a : α} {P : α → Prop} {f : α → List Item} (ha : P a) (hH : Weaker H (f a)) :
    Reads ρ known H (pure a) (pure a) (gives P f) :=
  .weaken hH (.ret ⟨rfl, ha, rfl⟩)

/-- Values that are passed on. -/
theorem now {a : α} {b : β} {k : α → Parse γ} {l : β → Parse δ} {G : γ → δ → List Item → Prop}
    (h : Reads ρ (fun _ => True) H (k a) (l b) G) :
    Reads ρ known H (pure a >>= k) (pure b >>= l) G := by
  refine bind (F := fun x y L => x = a ∧ y = b ∧ L = []) (.ret ⟨rfl, rfl, rfl⟩) ?_
  rintro _ _ _ ⟨rfl, rfl, rfl⟩
  rwa [List.append_nil]

section

variable {kind : NodeKind} {o o' : Nat} {payload payload' : Payload} {groups : List Group}
  {role : Role}

/-- The node that takes in what is in hand since an offset, with the offset kept in hand. -/
theorem kept (hk : kind.isName = false) (hg : payload.groups kind = some groups)
    (hf : ∀ group ∈ groups, group.Filled) (ha : payload.Alike ρ payload')
    (hH : Weaker H (.mark o o' :: (rooms kind ++ groupPieces groups))) (hr : Role.Within (payload.role kind) 0 role 0) :
    Reads ρ known H (Parse.finish kind o payload) (Parse.finish kind o' payload')
      (gives (fun link => link.isSome) fun link => .mark o o' :: pieces role 0 [link]) := by
  refine .weaken hH (.post (.finish hk hg hf ha) ?_)
  rintro link _ _ ⟨rfl, hs, rfl⟩
  exact ⟨_, .keep _ (.pieces hr _), rfl, hs, rfl⟩

/-- The node that takes in what is in hand since an offset, where it must be there. -/
theorem madeSome (hk : kind.isName = false) (hg : payload.groups kind = some groups)
    (hf : ∀ group ∈ groups, group.Filled) (ha : payload.Alike ρ payload')
    (hH : Weaker H (.mark o o' :: (rooms kind ++ groupPieces groups))) (hr : Role.Within (payload.role kind) 0 role 0) :
    Reads ρ known H (Parse.finish kind o payload) (Parse.finish kind o' payload')
      (gives (fun link => link.isSome) fun link => pieces role 0 [link]) := by
  refine .post (kept hk hg hf ha hH hr) ?_
  rintro link _ _ ⟨rfl, hs, rfl⟩
  exact ⟨_, .drop _ (.refl _), rfl, hs, rfl⟩

/-- The node that takes in what is in hand since an offset. -/
theorem made (hk : kind.isName = false) (hg : payload.groups kind = some groups)
    (hf : ∀ group ∈ groups, group.Filled) (ha : payload.Alike ρ payload')
    (hH : Weaker H (.mark o o' :: (rooms kind ++ groupPieces groups))) (hr : Role.Within (payload.role kind) 0 role 0) :
    Reads ρ known H (Parse.finish kind o payload) (Parse.finish kind o' payload') (one role) := by
  refine .post (madeSome hk hg hf ha hH hr) ?_
  rintro link _ _ ⟨rfl, -, rfl⟩
  exact ⟨_, .refl _, rfl, trivial, rfl⟩

end

/-- A reader that keeps the room which its construct has taken. -/
theorem roomy {p q : Parse α} {P : α → Prop} {f : α → List Item}
    (hp : Reads ρ known [] p q (gives P f)) :
    Reads ρ known [.room 0] p q (gives P fun a => .room 0 :: f a) := by
  refine .post (hp.frame [.room 0]) ?_
  rintro a _ _ ⟨_, ⟨rfl, ha, rfl⟩, rfl⟩
  exact ⟨_, .refl _, rfl, ha, rfl⟩

/-- The results of nested constructs that are the same on both sides. -/
theorem nestedSame {p q : Parse α} {P : α → Prop} {f : α → List Item}
    (hp : Reads ρ known [.room 0] p q (gives P f)) :
    Reads ρ known [] (Parse.nested p) (Parse.nested q)
      (gives (fun o => ∀ a ∈ o, P a) fun o => (o.toList.flatMap f).map Item.outside) := by
  refine .post (.nested hp) ?_
  rintro (_ | a) (_ | b) L hL
  · exact ⟨[], .of_eq hL, rfl, by simp, rfl⟩
  · exact hL.elim
  · exact hL.elim
  · obtain ⟨M, ⟨rfl, ha, rfl⟩, rfl⟩ := hL
    exact ⟨_, .refl _, rfl, by simpa using ha, by simp⟩

/-- A nested construct that gives one link, outside of which its nesting counts. -/
theorem joined {p q : Parse Link} {r r' : Role} (hp : Reads ρ known [] p q (one r))
    (hr : Role.Within r 1 r' 0) :
    Reads ρ known [] (do return (← Parse.nested p).join) (do return (← Parse.nested q).join)
      (one r') := by
  refine next (nestedSame (.weaken (.drop _ .nil) hp)) ?_
  rintro (_ | link) -
  · exact give trivial .nil
  · exact give trivial (by simpa [map_outside_pieces] using Weaker.pieces hr [link])

/-- The same results with nothing said about them. -/
theorem any {p q : Parse α} {P : α → Prop} {f : α → List Item}
    (h : Reads ρ known H p q (gives P f)) :
    Reads ρ known H p q (gives (fun _ => True) f) := by
  refine .post h ?_
  rintro a _ _ ⟨rfl, -, rfl⟩
  exact ⟨_, .refl _, rfl, trivial, rfl⟩

/-- The same link without the offset in front of it. -/
theorem unmarked {p q : Parse Link} {o o' : Nat} {role : Role}
    (h : Reads ρ known H p q
      (gives (fun _ => True) fun link => .mark o o' :: pieces role 0 [link])) :
    Reads ρ known H p q (one role) := by
  refine .post h ?_
  rintro link _ _ ⟨rfl, -, rfl⟩
  exact ⟨_, .drop _ (.refl _), rfl, trivial, rfl⟩

/-- The same result in another part. -/
theorem inPart {p q : Parse Link} {r r' : Role} (hp : Reads ρ known H p q (one r))
    (h : Role.Within r 0 r' 0) : Reads ρ known H p q (one r') := by
  refine .post hp ?_
  rintro a _ _ ⟨rfl, -, rfl⟩
  exact ⟨_, .pieces h [a], rfl, trivial, rfl⟩

end Reads

end Grammar

end JavaNames
