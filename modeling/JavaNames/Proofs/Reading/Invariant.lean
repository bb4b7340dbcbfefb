/-
Reading a property off the rules. A relation between two states and what is in hand that every single
move keeps is kept by readers that make the same moves. What else is in hand, in front of what a reader
knows of, stays as it is; the levels there are counted from the outside of the file, so that entering a
nested construct changes nothing for it.
-/
import JavaNames.Proofs.Reading.Rules
import JavaNames.Proofs.Tree.Store
import Mathlib.Logic.Function.Iterate

namespace JavaNames

/-! ## Trees that are alike -/

/-- Nodes that differ in place and spelling only. -/
structure Node.Alike (ρ : Renaming) (node node' : Node) : Prop where
  kind : node'.kind = node.kind
  parent : node'.parent = node.parent
  payload : node.payload.Alike ρ node'.payload

/-- Trees whose nodes differ in place and spelling only. -/
structure Tree.Alike (ρ : Renaming) (tree tree' : Tree) : Prop where
  size : tree'.size = tree.size
  nodes : ∀ {id : NodeId} {node : Node}, tree.node? id = some node →
    ∃ node', tree'.node? id = some node' ∧ node.Alike ρ node'

namespace Tree.Alike

variable {ρ : Renaming} {tree tree' : Tree} {payload payload' : Payload}

theorem none (h : tree.Alike ρ tree') {id : NodeId} (hn : tree.node? id = none) :
    tree'.node? id = none := by
  rw [node?_eq_none] at hn ⊢
  rwa [h.size]

theorem add {kind : NodeKind} {o o' stop stop' : Nat} (h : tree.Alike ρ tree')
    (hp : payload.Alike ρ payload') :
    (tree.add kind o stop payload).Alike ρ (tree'.add kind o' stop' payload') := by
  refine ⟨by simp [h.size], fun {id node} hn => ?_⟩
  rw [node?_add] at hn ⊢
  rw [h.size]
  split
  · rw [if_pos ‹_›] at hn
    cases hn
    exact ⟨_, rfl, rfl, rfl, hp⟩
  · rw [if_neg ‹_›] at hn
    exact h.nodes hn

theorem replace (id : NodeId) (kind : NodeKind) (h : tree.Alike ρ tree')
    (hp : payload.Alike ρ payload') :
    (tree.replace id kind payload).Alike ρ (tree'.replace id kind payload') := by
  refine ⟨by simp [h.size], fun {other node} hn => ?_⟩
  rw [node?_replace] at hn ⊢
  split
  · rw [if_pos ‹_›, Option.map_eq_some_iff] at hn
    obtain ⟨old, ho, rfl⟩ := hn
    obtain ⟨old', ho', ha⟩ := h.nodes ho
    exact ⟨{ old' with kind := kind, payload := payload' }, by rw [ho']; rfl, rfl, ha.parent, hp⟩
  · rw [if_neg ‹_›] at hn
    exact h.nodes hn

theorem name?_eq (h : tree.Alike ρ tree') (id : NodeId) :
    tree'.name? id = (tree.name? id).map ρ.rename := by
  unfold name?
  cases hn : tree.node? id with
  | none => rw [h.none hn]; rfl
  | some node =>
    obtain ⟨node', hn', ha⟩ := h.nodes hn
    obtain ⟨kind, start, stop, parent, payload⟩ := node
    obtain ⟨kind', start', stop', parent', payload'⟩ := node'
    obtain ⟨rfl, rfl, hp⟩ := ha
    rw [hn']
    cases hp with
    | name n => by_cases hk : kind'.isName <;> simp [hk]
    | same hp => cases payload <;> simp_all [Payload.isName]
    | _ => rfl

theorem nameOf?_eq (h : tree.Alike ρ tree') (link : Link) :
    tree'.nameOf? link = (tree.nameOf? link).map ρ.rename := by
  cases link with
  | none => rfl
  | some id => exact h.name?_eq id

end Tree.Alike

/-! ## States that are alike -/

namespace Grammar

/-- The offset at which the next token starts. -/
def State.offset (input : Input) (s : State) : Nat := (s.tokens.headD (.endOfFile input.stop)).start

/-- The state with one more diagnostic. -/
def State.report (s : State) (diagnostic : Diagnostic) : State :=
  { s with diagnostics := s.diagnostics.push diagnostic }

/-- The state inside a nested construct. -/
def State.enter (s : State) : State := { s with depth := s.depth + 1 }

/-- The state outside the nested construct that it is in. -/
def State.leave (s : State) : State := { s with depth := s.depth - 1 }

/-- The state after the nesting has passed the limit at an offset. -/
def State.refuse (s : State) (offset : Nat) : State := { s with tooDeep := some offset }

/-- The state with one more node. -/
def State.add (s : State) (kind : NodeKind) (start stop : Nat) (payload : Payload) : State :=
  { s with tree := s.tree.add kind start stop payload }

/-- The state with another node in place of one. -/
def State.replace (s : State) (id : NodeId) (kind : NodeKind) (payload : Payload) : State :=
  { s with tree := s.tree.replace id kind payload }

/-- Two states that readers which make the same moves can be in at the same time. -/
structure State.Alike (ρ : Renaming) (s s' : State) : Prop where
  tokens : Grammar.Alike ρ s.tokens s'.tokens
  consumed : s'.consumed = s.consumed
  depth : s'.depth = s.depth
  tooDeep : s'.tooDeep.isSome = s.tooDeep.isSome
  tree : s.tree.Alike ρ s'.tree

/-! ## What is in hand, seen from outside -/

/-- An item seen from outside of a number of nested constructs. -/
def Item.above (depth : Nat) : Item → Item
  | mark o o' => mark o o'
  | piece id role level => piece id role (level + depth)
  | room level => room (level + depth)

theorem Item.above_outside (depth : Nat) (item : Item) :
    item.outside.above depth = item.above (depth + 1) := by
  cases item with
  | mark o o' => rfl
  | piece id role level => simp [outside, above]; omega
  | room level => simp [outside, above]; omega

theorem map_above_outside (depth : Nat) (H : List Item) :
    (H.map Item.outside).map (Item.above depth) = H.map (Item.above (depth + 1)) := by
  simp [Item.above_outside]

theorem map_above_pieces (depth : Nat) (role : Role) (level : Nat) (links : List Link) :
    (pieces role level links).map (Item.above depth) = pieces role (level + depth) links := by
  simp [pieces, List.map_filterMap, Item.above, Function.comp_def]

end Grammar

theorem Role.Within.add {r r' : Role} {l l' : Nat} (h : Role.Within r l r' l') (depth : Nat) :
    Role.Within r (l + depth) r' (l' + depth) := by
  induction h with
  | outwards h ih => exact .outwards (by rwa [Nat.add_right_comm] at ih)
  | counted level => rw [Nat.add_right_comm]; exact .counted _
  | statementCounted level => rw [Nat.add_right_comm]; exact .statementCounted _
  | trans _ _ ih ih' => exact .trans ih ih'
  | _ => constructor

namespace Grammar

theorem Weaker.above {H H' : List Item} (h : Weaker H H') (depth : Nat) :
    Weaker (H.map (Item.above depth)) (H'.map (Item.above depth)) := by
  induction h with
  | nil => exact .nil
  | keep item _ ih => exact .keep _ ih
  | drop item _ ih => exact .drop _ ih
  | change id hw _ ih => exact .change id (hw.add depth) ih
  | behind item level _ ih => exact .behind _ _ ih

/-! ## Invariants -/

/-- The diagnostic for a range of bytes. -/
abbrev Input.diagnostic (input : Input) (rule : Rule) (start stop : Nat) (arguments : List String) :
    Diagnostic :=
  .ofRule rule input.file start (max (stop - start) 1) arguments

/-- A relation between two states and what is in hand that every move keeps. -/
structure Invariant (ρ : Renaming) (input input' : Input) (I : State → State → List Item → Prop) :
    Prop where
  weaker {s s' : State} {H H' : List Item} : Weaker H H' → I s s' H → I s s' H'
  mark {s s' : State} {H : List Item} : s.Alike ρ s' → I s s' H →
    I s s' (H ++ [.mark (s.offset input) (s'.offset input')])
  advance {s s' : State} {H : List Item} : s.Alike ρ s' → I s s' H → I s.advance s'.advance H
  report {s s' : State} {H : List Item} {t : Token} (t' : Token) (rule : Rule)
    (arguments arguments' : List String) : Telling t rule arguments →
    t = s.tokens.headD (.endOfFile input.stop) → I s s' H →
    I (s.report (input.diagnostic rule t.start t.stop arguments))
      (s'.report (input'.diagnostic rule t'.start t'.stop arguments')) H
  enter {s s' : State} {H : List Item} : s.tooDeep = none → s.depth < maxNesting →
    I s s' H → I s.enter s'.enter (H ++ [.room s.enter.depth])
  leave {s s' : State} {H : List Item} : I s s' H → I s.leave s'.leave H
  refuse {s s' : State} {H : List Item} : s.tooDeep = none → maxNesting ≤ s.depth →
    I s s' H → I (s.refuse (s.offset input)) (s'.refuse (s'.offset input')) H
  word {s s' : State} {H : List Item} {t t' : Token} {rest rest' : List Token} :
    s.Alike ρ s' → s.tokens = t :: rest → s'.tokens = t' :: rest' → t.kind = .identifier →
    I s s' H →
    I (s.advance.add .identifier t.start t.stop (.name t.text))
      (s'.advance.add .identifier t'.start t'.stop (.name t'.text))
      (H ++ [.piece s.tree.size .name s.depth])
  nameUse {s s' : State} {H : List Item} {t t' : Token} {rest rest' : List Token} (o' : Nat) :
    s.Alike ρ s' → s.tokens = t :: rest → s'.tokens = t' :: rest' → t.kind = .identifier →
    I s s' (H ++ [.mark t.start o']) →
    I (s.advance.add .nameExpression t.start (max t.stop t.start) (.name t.text))
      (s'.advance.add .nameExpression o' (max t'.stop o') (.name t'.text))
      (H ++ [.piece s.tree.size .operand s.depth])
  typeNode {r s s' : State} {H : List Item} {t : Token} {rest : List Token} (r' : State) (o' : Nat)
    (text text' : String) : r.tokens = t :: rest → I r r' (H ++ [.mark t.start o']) →
    r.consumed < s.consumed → s.Alike ρ s' → I s s' (H ++ [.mark t.start o']) →
    I (s.add .typeReference t.start s.lastStop (.typeReference text))
      (s'.add .typeReference o' s'.lastStop (.typeReference text'))
      (H ++ [.piece s.tree.size .type s.depth])
  replace {s s' : State} {H : List Item} (id : NodeId) (level : Nat) (text text' : String) :
    s.Alike ρ s' → I s s' (H ++ [.piece id .operand level]) →
    I (s.replace id .typeReference (.typeReference text))
      (s'.replace id .typeReference (.typeReference text')) (H ++ [.piece id .operand level])
  finish {s s' : State} {H : List Item} {kind : NodeKind} {o o' : Nat} {payload payload' : Payload}
    {groups : List Group} : s.Alike ρ s' → kind.isName = false →
    payload.groups kind = some groups → (∀ group ∈ groups, group.Filled) →
    payload.Alike ρ payload' →
    I s s' (H ++ .mark o o' :: (rooms kind ++ groupPieces groups).map (Item.above s.depth)) →
    I (s.add kind o (max s.lastStop o) payload) (s'.add kind o' (max s'.lastStop o') payload')
      (H ++ [.mark o o', .piece s.tree.size (payload.role kind) s.depth])

/-- What holds of the results of two readers and the states after them. -/
structure After {α β : Type} (ρ : Renaming) (I : State → State → List Item → Prop) (depth : Nat)
    (R M : List Item) (G : α → β → List Item → Prop) (x : α × State) (y : β × State) : Prop where
  result : G x.1 y.1 M
  depth_eq : x.2.depth = depth
  alike : x.2.Alike ρ y.2
  invariant : I x.2 y.2 (R ++ M.map (Item.above depth))

/-- Two readers keep an invariant, whatever else is in hand in front of what they know of. -/
def Keeps {α β : Type} (ρ : Renaming) (input input' : Input) (I : State → State → List Item → Prop)
    (known : Known) (H : List Item) (p : Parse α) (q : Parse β) (G : α → β → List Item → Prop) :
    Prop :=
  ∀ (s s' : State) (R : List Item), s.Alike ρ s' → known s.tokens →
    I s s' (R ++ H.map (Item.above s.depth)) →
    ∃ M, After ρ I s.depth R M G ((p.run input).run s) ((q.run input').run s')

/-! ## The moves keep an invariant -/

theorem Alike.exists_identifier {ρ : Renaming} {ts ts' : List Token} (h : Alike ρ ts ts')
    (hk : headKind ts = .identifier) : ∃ t rest, ts = t :: rest ∧ ∃ t' rest', ts' = t' :: rest' ∧
      t.kind = .identifier ∧ t'.text = ρ.rename t.text := by
  cases h with
  | nil => exact absurd hk nofun
  | cons _ name _ _ => exact ⟨_, _, rfl, _, _, rfl, hk, name hk⟩

theorem State.Alike.advance {ρ : Renaming} {s s' : State} (h : s.Alike ρ s') :
    s.advance.Alike ρ s'.advance := by
  obtain ⟨tokens, consumed, depth, tooDeep, tree⟩ := h
  obtain ⟨ts, _⟩ := s
  obtain ⟨ts', _⟩ := s'
  cases tokens with
  | nil => exact ⟨.nil, consumed, depth, tooDeep, tree⟩
  | cons _ _ _ tail => exact ⟨tail, congrArg (· + 1) consumed, depth, tooDeep, tree⟩

theorem State.Alike.add {ρ : Renaming} {s s' : State} {kind : NodeKind} {o o' stop stop' : Nat}
    {payload payload' : Payload} (h : s.Alike ρ s') (hp : payload.Alike ρ payload') :
    (s.add kind o stop payload).Alike ρ (s'.add kind o' stop' payload') :=
  ⟨h.tokens, h.consumed, h.depth, h.tooDeep, h.tree.add hp⟩

@[simp] theorem State.depth_advance (s : State) : s.advance.depth = s.depth := by
  unfold State.advance
  split <;> rfl

@[simp] theorem State.tree_advance (s : State) : s.advance.tree = s.tree := by
  unfold State.advance
  split <;> rfl

theorem State.startsAt_offset (s : State) (input : Input) : StartsAt (s.offset input) s.tokens := by
  intro first hfirst
  rw [State.offset]
  cases hts : s.tokens <;> simp_all

theorem State.tokens_advance {s : State} {t : Token} {rest : List Token} (h : s.tokens = t :: rest) :
    s.advance.tokens = rest := by
  simp [State.advance, h]

namespace Keeps

variable {ρ : Renaming} {input input' : Input} {I : State → State → List Item → Prop}
  {α β γ δ : Type} {known : Known} {H : List Item}

theorem ret {a : α} {b : β} {G : α → β → List Item → Prop} (h : G a b H) :
    Keeps ρ input input' I known H (pure a) (pure b) G :=
  fun _ _ _ ha _ hI => ⟨H, h, rfl, ha, hI⟩

theorem seq {p : Parse α} {q : Parse β} {k : α → Parse γ} {l : β → Parse δ}
    {F : α → β → List Item → Prop} {G : γ → δ → List Item → Prop}
    (hp : Keeps ρ input input' I known H p q F)
    (hk : ∀ a b L, F a b L → Keeps ρ input input' I (fun _ => True) L (k a) (l b) G) :
    Keeps ρ input input' I known H (p >>= k) (q >>= l) G := by
  intro s s' R ha hs hI
  obtain ⟨L, hF, hd, halike, hinv⟩ := hp s s' R ha hs hI
  obtain ⟨M, hM⟩ := hk _ _ L hF _ _ R halike trivial (hd ▸ hinv)
  rw [hd] at hM
  exact ⟨M, hM⟩

theorem frame (R : List Item) {p : Parse α} {q : Parse β} {G : α → β → List Item → Prop}
    (h : Keeps ρ input input' I known H p q G) :
    Keeps ρ input input' I known (R ++ H) p q fun a b L => ∃ M, G a b M ∧ L = R ++ M := by
  intro s s' S ha hs hI
  rw [List.map_append, ← List.append_assoc] at hI
  obtain ⟨M, hG, hd, halike, hinv⟩ := h s s' _ ha hs hI
  refine ⟨R ++ M, ⟨M, hG, rfl⟩, hd, halike, ?_⟩
  rwa [List.map_append, ← List.append_assoc]

/-- A reader that only asks for something. -/
theorem ask {ask : Parse γ} {ask' : Parse δ} {k : γ → Parse α} {l : δ → Parse β}
    {G : α → β → List Item → Prop} {a : Input → State → γ} {b : Input → State → δ}
    (h : ∀ input s, (ask.run input).run s = (a input s, s))
    (h' : ∀ input s, (ask'.run input).run s = (b input s, s))
    (hk : ∀ s s', s.Alike ρ s' → known s.tokens →
      Keeps ρ input input' I (fun ts => ts = s.tokens) H (k (a input s)) (l (b input' s')) G) :
    Keeps ρ input input' I known H (ask >>= k) (ask' >>= l) G := by
  intro s s' R ha hs hI
  have hrun : ((ask >>= k).run input).run s = ((k (a input s)).run input).run s := by
    rw [ReaderT.run_bind, StateT.run_bind, h]
    rfl
  have hrun' : ((ask' >>= l).run input').run s' = ((l (b input' s')).run input').run s' := by
    rw [ReaderT.run_bind, StateT.run_bind, h']
    rfl
  rw [hrun, hrun']
  exact hk s s' ha hs s s' R ha rfl hI

variable (J : Invariant ρ input input' I)

include J in
theorem weaken {H' : List Item} {p : Parse α} {q : Parse β} {G : α → β → List Item → Prop}
    (hw : Weaker H H') (h : Keeps ρ input input' I known H' p q G) :
    Keeps ρ input input' I known H p q G :=
  fun s s' R ha hs hI => h s s' R ha hs (J.weaker ((Weaker.refl R).append (hw.above s.depth)) hI)

include J in
theorem post {p : Parse α} {q : Parse β} {F G : α → β → List Item → Prop}
    (h : Keeps ρ input input' I known H p q F)
    (hw : ∀ a b L, F a b L → ∃ M, Weaker L M ∧ G a b M) :
    Keeps ρ input input' I known H p q G := by
  intro s s' R ha hs hI
  obtain ⟨L, hF, hd, halike, hinv⟩ := h s s' R ha hs hI
  obtain ⟨M, hLM, hG⟩ := hw _ _ L hF
  exact ⟨M, hG, hd, halike, J.weaker ((Weaker.refl R).append (hLM.above _)) hinv⟩

theorem know {known' : Known} {p : Parse α} {q : Parse β} {G : α → β → List Item → Prop}
    (hk : ∀ ts, known ts → known' ts) (h : Keeps ρ input input' I known' H p q G) :
    Keeps ρ input input' I known H p q G :=
  fun s s' R ha hs hI => h s s' R ha (hk _ hs) hI

theorem view {f : List Token → γ} {g : List Token → δ} {k : γ → Parse α} {l : δ → Parse β}
    {G : α → β → List Item → Prop} (P : γ → δ → Prop)
    (hf : ∀ ts ts', known ts → Grammar.Alike ρ ts ts' → P (f ts) (g ts'))
    (hk : ∀ a b, P a b → Keeps ρ input input' I (fun ts => known ts ∧ f ts = a) H (k a) (l b) G) :
    Keeps ρ input input' I known H (Parse.look f >>= k) (Parse.look g >>= l) G := by
  refine ask (a := fun _ s => f s.tokens) (b := fun _ s => g s.tokens) (fun _ _ => rfl)
    (fun _ _ => rfl) fun s s' ha hs => ?_
  exact know (fun ts hts => by subst hts; exact ⟨hs, rfl⟩) (hk _ _ (hf _ _ hs ha.tokens))

theorem token {k : Token → Parse α} {l : Token → Parse β} {G : α → β → List Item → Prop}
    (hk : ∀ t t', t'.kind = t.kind → (t.kind = .identifier → t'.text = ρ.rename t.text) →
      Keeps ρ input input' I known H (k t) (l t') G) :
    Keeps ρ input input' I known H (Parse.token >>= k) (Parse.token >>= l) G := by
  refine ask (a := fun input s => s.tokens.headD (.endOfFile input.stop))
    (b := fun input s => s.tokens.headD (.endOfFile input.stop)) (fun _ _ => rfl)
    (fun _ _ => rfl) fun s s' ha hs => ?_
  have halike := ha.tokens
  refine know (fun ts hts => hts ▸ hs) (hk _ _ ?_ ?_) <;>
    generalize s.tokens = ts at halike <;> generalize s'.tokens = ts' at halike <;>
    cases halike with
    | nil => first | rfl | exact nofun
    | cons kind name _ _ => assumption

include J in
theorem offset {k : Nat → Parse α} {l : Nat → Parse β} {G : α → β → List Item → Prop}
    (hk : ∀ o o', Keeps ρ input input' I (fun ts => known ts ∧ StartsAt o ts) (H ++ [.mark o o'])
      (k o) (l o') G) :
    Keeps ρ input input' I known H (Parse.offset >>= k) (Parse.offset >>= l) G := by
  intro s s' R ha hs hI
  refine hk (s.offset input) (s'.offset input') s s' R ha ⟨hs, s.startsAt_offset input⟩ ?_
  rw [List.map_append, ← List.append_assoc]
  exact J.mark ha hI

theorem position {k : Nat → Parse α} {l : Nat → Parse β} {G : α → β → List Item → Prop}
    (hk : ∀ n, Keeps ρ input input' I known H (k n) (l n) G) :
    Keeps ρ input input' I known H (Parse.position >>= k) (Parse.position >>= l) G := by
  refine ask (a := fun _ s => s.consumed) (b := fun _ s => s.consumed) (fun _ _ => rfl)
    (fun _ _ => rfl) fun s s' ha hs => ?_
  rw [ha.consumed]
  exact know (fun ts hts => hts ▸ hs) (hk _)

theorem aborted {k : Bool → Parse α} {l : Bool → Parse β} {G : α → β → List Item → Prop}
    (hk : ∀ b, Keeps ρ input input' I known H (k b) (l b) G) :
    Keeps ρ input input' I known H (Parse.aborted >>= k) (Parse.aborted >>= l) G := by
  refine ask (a := fun _ s => s.tooDeep.isSome) (b := fun _ s => s.tooDeep.isSome) (fun _ _ => rfl)
    (fun _ _ => rfl) fun s s' ha hs => ?_
  rw [ha.tooDeep]
  exact know (fun ts hts => hts ▸ hs) (hk _)

theorem nameAt {k : Option String → Parse α} {l : Option String → Parse β}
    {G : α → β → List Item → Prop} (link : Link)
    (hk : ∀ n, Keeps ρ input input' I known H (k n) (l (n.map ρ.rename)) G) :
    Keeps ρ input input' I known H (Parse.nameAt link >>= k) (Parse.nameAt link >>= l) G := by
  refine ask (a := fun _ s => s.tree.nameOf? link) (b := fun _ s => s.tree.nameOf? link)
    (fun _ _ => rfl) (fun _ _ => rfl) fun s s' ha hs => ?_
  rw [ha.tree.nameOf?_eq]
  exact know (fun ts hts => hts ▸ hs) (hk _)

theorem run_nodeText (link : Link) (input : Input) (s : State) :
    (((Parse.nodeText link).run input).run s).2 = s := by
  have hbind (f : Input → Option Node → Parse String) :
      (((do f (← read) (← Parse.nodeAt link)).run input).run s) =
        ((f input (s.tree.at? link)).run input).run s := rfl
  refine (congrArg Prod.snd (hbind _)).trans ?_
  cases s.tree.at? link <;> rfl

theorem nodeText (link : Link) :
    Keeps ρ input input' I known [] (Parse.nodeText link) (Parse.nodeText link) spelled := by
  intro s s' R ha hs hI
  refine ⟨[], rfl, ?_, ?_, ?_⟩
  · rw [run_nodeText]
  · rwa [run_nodeText, run_nodeText]
  · rwa [run_nodeText, run_nodeText]

theorem readers (hb : input'.budget = input.budget) {k : Readers → Parse α} {l : Readers → Parse β}
    {G : α → β → List Item → Prop}
    (hk : ∀ n, Keeps ρ input input' I known H (k (Parse.readersTo n)) (l (Parse.readersTo n)) G) :
    Keeps ρ input input' I known H (Parse.readers >>= k) (Parse.readers >>= l) G := by
  intro s s' R ha hs hI
  have h := hk (8 * input.budget) s s' R ha hs hI
  rw [show (((Parse.readers >>= l).run input').run s') =
    ((l (Parse.readersTo (8 * input'.budget))).run input').run s' from rfl, hb]
  exact h

include J in
theorem advance :
    Keeps ρ input input' I known [] Parse.advance Parse.advance same :=
  fun s _ _ ha _ hI =>
    ⟨[], ⟨rfl, trivial, rfl⟩, s.depth_advance, ha.advance, J.advance ha hI⟩

include J in
theorem report (rule : Rule) (arguments arguments' : Token → List String)
    (hr : ∀ token, Telling token rule (arguments token)) :
    Keeps ρ input input' I known []
      (Parse.token >>= fun t => Parse.report rule t.start t.stop (arguments t))
      (Parse.token >>= fun t => Parse.report rule t.start t.stop (arguments' t)) same :=
  fun _ _ _ ha _ hI => ⟨[], ⟨rfl, trivial, rfl⟩, rfl,
    ⟨ha.tokens, ha.consumed, ha.depth, ha.tooDeep, ha.tree⟩, J.report _ rule _ _ (hr _) rfl hI⟩

theorem run_enter (input : Input) (s : State) : (Parse.enter.run input).run s =
    if s.tooDeep.isSome then (false, s)
    else if maxNesting ≤ s.depth then (false, s.refuse (s.offset input))
    else (true, s.enter) := rfl

theorem run_nested (p : Parse α) (input : Input) (s : State) :
    ((Parse.nested p).run input).run s =
      if s.tooDeep.isSome then (none, s)
      else if maxNesting ≤ s.depth then (none, s.refuse (s.offset input))
      else (some ((p.run input).run s.enter).1, ((p.run input).run s.enter).2.leave) := by
  rw [Parse.nested, ReaderT.run_bind, StateT.run_bind, run_enter]
  split
  · rfl
  · split <;> rfl

include J in
theorem nested {p : Parse α} {q : Parse β} {G : α → β → List Item → Prop}
    (h : Keeps ρ input input' I known [.room 0] p q G) :
    Keeps ρ input input' I known [] (Parse.nested p) (Parse.nested q) (inside G) := by
  intro s s' R ha hs hI
  rw [run_nested, run_nested, ha.tooDeep, ha.depth]
  split
  · exact ⟨[], rfl, rfl, ha, hI⟩
  · have hnone : s.tooDeep = none := Option.not_isSome_iff_eq_none.1 ‹_›
    split
    · exact ⟨[], rfl, rfl, ⟨ha.tokens, ha.consumed, ha.depth, rfl, ha.tree⟩, J.refuse hnone ‹_› hI⟩
    · have henter : I s.enter s'.enter (R ++ [Item.room 0].map (Item.above s.enter.depth)) := by
        rw [List.map_nil, List.append_nil] at hI
        simpa [Item.above] using J.enter hnone (Nat.not_le.1 ‹_›) hI
      have halike : s.enter.Alike ρ s'.enter :=
        ⟨ha.tokens, ha.consumed, congrArg (· + 1) ha.depth, ha.tooDeep, ha.tree⟩
      obtain ⟨M, hG, hd, hafter, hinv⟩ := h s.enter s'.enter R halike hs henter
      refine ⟨M.map Item.outside, ⟨M, hG, rfl⟩, congrArg (· - 1) hd, ?_, ?_⟩
      · exact ⟨hafter.tokens, hafter.consumed, congrArg (· - 1) hafter.depth, hafter.tooDeep, hafter.tree⟩
      · rw [map_above_outside]
        exact J.leave hinv

theorem iterate {σ τ : Type} (hb : input'.budget = input.budget) {step : σ → Parse (σ × Bool)}
    {step' : τ → Parse (τ × Bool)} {P : σ → τ → List Item → Prop} {a : σ} {b : τ}
    (h : ∀ a b L, P a b L → Keeps ρ input input' I (fun _ => True) L (step a) (step' b)
      fun x y M => x.2 = y.2 ∧ P x.1 y.1 M) (hP : P a b H) :
    Keeps ρ input input' I known H (Parse.iterate step a) (Parse.iterate step' b) P := by
  have bounded (bound : Nat) : ∀ a b L, P a b L → Keeps ρ input input' I (fun _ => True) L
      (Parse.iterateAtMost step bound a) (Parse.iterateAtMost step' bound b) P := by
    induction bound with
    | zero => exact fun a b L hL => ret hL
    | succ bound ih =>
      intro a b L hL
      refine seq (h a b L hL) ?_
      rintro ⟨x, again⟩ ⟨y, _⟩ M ⟨rfl, hM⟩
      dsimp only
      split
      · exact ih x y M hM
      · exact ret hM
  intro s s' R ha hs hI
  change ∃ M, After ρ I s.depth R M P (((Parse.iterateAtMost step input.budget a).run input).run s)
    (((Parse.iterateAtMost step' input'.budget b).run input').run s')
  rw [hb]
  exact bounded input.budget a b H hP s s' R ha trivial hI

include J in
theorem word (h : ∀ ts, known ts → headKind ts = .identifier) :
    Keeps ρ input input' I known [] Parse.word Parse.word (one .name) := by
  intro s s' R ha hs hI
  obtain ⟨t, rest, hts, t', rest', hts', ht, htext⟩ := ha.tokens.exists_identifier (h _ hs)
  have hrun : (Parse.word.run input).run s =
      (some s.tree.size, s.advance.add .identifier t.start t.stop (.name t.text)) := by
    rw [State.advance, hts]
    change (some s.advance.tree.size, s.advance.add .identifier (s.tokens.headD _).start
      (s.tokens.headD _).stop (.name (s.tokens.headD _).text)) = _
    rw [State.advance, hts]
    rfl
  have hrun' : (Parse.word.run input').run s' =
      (some s'.tree.size, s'.advance.add .identifier t'.start t'.stop (.name t'.text)) := by
    rw [State.advance, hts']
    change (some s'.advance.tree.size, s'.advance.add .identifier (s'.tokens.headD _).start
      (s'.tokens.headD _).stop (.name (s'.tokens.headD _).text)) = _
    rw [State.advance, hts']
    rfl
  rw [hrun, hrun']
  refine ⟨pieces .name 0 [some s.tree.size], ⟨?_, trivial, rfl⟩, s.depth_advance, ?_, ?_⟩
  · rw [ha.tree.size]
  · exact ha.advance.add (htext ▸ .name _)
  · rw [map_above_pieces, Nat.zero_add]
    rw [List.map_nil, List.append_nil] at hI
    exact J.word ha hts hts' ht hI

theorem run_advanceBy (n : Nat) (input : Input) (s : State) :
    ((Parse.advanceBy n).run input).run s = ((), State.advance^[n] s) := by
  induction n generalizing s with
  | zero => rfl
  | succ n ih => exact ih s.advance

theorem run_advanceTo (rest : List Token) (input : Input) (s : State) :
    ((Parse.advanceTo rest).run input).run s =
      ((), State.advance^[s.tokens.length - rest.length] s) :=
  run_advanceBy _ input s

include J in
/-- Reading a number of tokens. -/
theorem advanced {s s' : State} (n : Nat) (ha : s.Alike ρ s') (hI : I s s' H) :
    (State.advance^[n] s).depth = s.depth ∧ (State.advance^[n] s).Alike ρ (State.advance^[n] s') ∧
      I (State.advance^[n] s) (State.advance^[n] s') H := by
  induction n generalizing s s' with
  | zero => exact ⟨rfl, ha, hI⟩
  | succ n ih =>
    rw [← s.depth_advance]
    exact ih ha.advance (J.advance ha hI)

theorem consumed_le_advanced (s : State) (n : Nat) : s.consumed ≤ (State.advance^[n] s).consumed := by
  induction n generalizing s with
  | zero => exact Nat.le_refl _
  | succ n ih =>
    refine Nat.le_trans ?_ (ih s.advance)
    unfold State.advance
    split
    · exact Nat.le_refl _
    · exact Nat.le_succ _

include J in
theorem typeNode {rest rest' : List Token} (o o' : Nat) (hrest : Grammar.Alike ρ rest rest')
    (h : ∀ ts, known ts → rest.length < ts.length ∧ StartsAt o ts) :
    Keeps ρ input input' I known [.mark o o'] (do Parse.advanceTo rest; Parse.typeNode o)
      (do Parse.advanceTo rest'; Parse.typeNode o')
      (gives (fun link => link.isSome) fun link => pieces .type 0 [link]) := by
  intro s s' R ha hs hI
  obtain ⟨hlt, hstart⟩ := h _ hs
  obtain ⟨t, more, hts⟩ := List.exists_cons_of_length_pos (Nat.zero_lt_of_lt hlt)
  obtain rfl : t.start = o := hstart t (by rw [hts]; rfl)
  obtain ⟨n, hn⟩ := Nat.exists_eq_succ_of_ne_zero (Nat.sub_ne_zero_of_lt hlt)
  -- at least the first token of the type has been read when its node is made
  have hread : s.consumed < (State.advance^[n + 1] s).consumed := by
    refine Nat.lt_of_lt_of_le ?_ (consumed_le_advanced s.advance n)
    rw [State.advance, hts]
    exact Nat.lt_succ_self _
  obtain ⟨hdepth, halike, hinv⟩ := advanced J (n + 1) ha hI
  rw [ReaderT.run_bind, StateT.run_bind, run_advanceTo, ReaderT.run_bind, StateT.run_bind,
    run_advanceTo, ha.tokens.length_eq, hrest.length_eq, hn]
  refine ⟨pieces .type 0 [some (State.advance^[n + 1] s).tree.size], ⟨?_, rfl, rfl⟩, hdepth,
    halike.add .typeReference, ?_⟩
  · exact congrArg some halike.tree.size.symm
  · rw [map_above_pieces, Nat.zero_add, ← hdepth]
    exact J.typeNode s' o' _ _ hts hI hread halike hinv

/-- Nothing happens where there is no node. -/
theorem run_toTypeReference (id : NodeId) (input : Input) (s : State) :
    ((Parse.toTypeReference (some id)).run input).run s =
      match s.tree.node? id with
      | none => ((), s)
      | some node => ((), s.replace id .typeReference (.typeReference
          (Text.unspaced (Text.slice input.text node.start (max node.stop s.lastStop))))) := by
  change ((((match s.tree.node? id with
    | none => (pure () : Parse Unit)
    | some node => _).run input).run s)) = _
  split <;> rfl

include J in
theorem toTypeReference (link : Link) :
    Keeps ρ input input' I known (pieces .operand 0 [link]) (Parse.toTypeReference link)
      (Parse.toTypeReference link) fun _ _ L => L = pieces .operand 0 [link] := by
  intro s s' R ha hs hI
  refine ⟨pieces .operand 0 [link], ?_⟩
  cases link with
  | none => exact ⟨rfl, rfl, ha, hI⟩
  | some id =>
    rw [run_toTypeReference, run_toTypeReference]
    cases hn : s.tree.node? id with
    | none =>
      rw [ha.tree.none hn]
      exact ⟨rfl, rfl, ha, hI⟩
    | some node =>
      obtain ⟨node', hn', -⟩ := ha.tree.nodes hn
      rw [hn']
      refine ⟨rfl, rfl, ?_, ?_⟩
      · exact ⟨ha.tokens, ha.consumed, ha.depth, ha.tooDeep, ha.tree.replace _ _ .typeReference⟩
      · exact J.replace id _ _ _ ha hI

include J in
theorem finish {kind : NodeKind} {o o' : Nat} {payload payload' : Payload} {groups : List Group}
    (hk : kind.isName = false) (hg : payload.groups kind = some groups)
    (hf : ∀ group ∈ groups, group.Filled) (hp : payload.Alike ρ payload') :
    Keeps ρ input input' I known (.mark o o' :: (rooms kind ++ groupPieces groups))
      (Parse.finish kind o payload)
      (Parse.finish kind o' payload') fun link link' L =>
        link' = link ∧ link.isSome ∧ L = .mark o o' :: pieces (payload.role kind) 0 [link] := by
  intro s s' R ha hs hI
  refine ⟨_, ⟨congrArg some ha.tree.size, rfl, rfl⟩, rfl, ha.add hp, ?_⟩
  rw [List.map_cons, map_above_pieces, Nat.zero_add]
  exact J.finish ha hk hg hf hp hI

theorem run_nameOrCall (input : Input) (r : Readers) (o : Nat) {s : State} {t : Token}
    {rest : List Token} (hts : s.tokens = t :: rest) :
    ((Parse.nameOrCall r o).run input).run s =
      if headKind rest = .mark .openParen then
        ((Parse.arguments r >>= fun links =>
          Parse.finish .methodCall o (.methodCall none t.text links)).run input).run s.advance
      else (some s.tree.size, s.advance.add .nameExpression o (max t.stop o) (.name t.text)) := by
  obtain ⟨ts, consumed, lastStop, tree, diagnostics, depth, tooDeep⟩ := s
  obtain rfl : ts = t :: rest := hts
  change (((if decide (headKind rest = .mark .openParen) = true then _ else _ : Parse Link).run
    input).run _) = _
  by_cases h : headKind rest = .mark .openParen
  · rw [if_pos h, if_pos (decide_eq_true h)]
    rfl
  · rw [if_neg h, if_neg (by simpa using h)]
    rfl

include J in
theorem nameOrCall {r r' : Readers} {o o' : Nat}
    (h : ∀ ts, known ts → headKind ts = .identifier ∧ StartsAt o ts)
    (harguments : Keeps ρ input input' I (fun _ => True) [] (Parse.arguments r) (Parse.arguments r')
      (many .expression)) :
    Keeps ρ input input' I known [.mark o o'] (Parse.nameOrCall r o) (Parse.nameOrCall r' o')
      (one .operand) := by
  intro s s' R ha hs hI
  obtain ⟨hk, hstart⟩ := h _ hs
  obtain ⟨t, rest, hts, t', rest', hts', ht, htext⟩ := ha.tokens.exists_identifier hk
  obtain rfl : t.start = o := hstart t (by simp [hts])
  have hcall : Keeps ρ input input' I (fun _ => True) [.mark t.start o']
      (Parse.arguments r >>= fun links =>
        Parse.finish .methodCall t.start (.methodCall none t.text links))
      (Parse.arguments r' >>= fun links =>
        Parse.finish .methodCall o' (.methodCall none t'.text links)) (one .operand) := by
    refine seq (frame [.mark t.start o'] harguments) ?_
    rintro links _ _ ⟨_, ⟨rfl, -, rfl⟩, rfl⟩
    refine post J (weaken J (.of_eq ?_) (finish J rfl rfl ?_ (.methodCall _ _))) ?_
    · simp
    · simp [Group.Filled]
    · rintro link _ _ ⟨rfl, -, rfl⟩
      exact ⟨_, .drop _ (.refl _), rfl, trivial, rfl⟩
  rw [run_nameOrCall input r _ hts, run_nameOrCall input' r' _ hts']
  have hrest := ha.advance.tokens
  rw [State.tokens_advance hts, State.tokens_advance hts'] at hrest
  rw [hrest.headKind_eq]
  split
  · have h := hcall s.advance s'.advance R ha.advance trivial (by simpa using J.advance ha hI)
    rwa [s.depth_advance] at h
  · refine ⟨pieces .operand 0 [some s.tree.size], ⟨?_, trivial, rfl⟩, s.depth_advance, ?_, ?_⟩
    · exact congrArg some ha.tree.size.symm
    · exact ha.advance.add (htext ▸ .name _)
    · rw [map_above_pieces, Nat.zero_add]
      exact J.nameUse o' ha hts hts' ht hI

end Keeps

/-! ## Soundness -/

/-- Readers that make the same moves keep every invariant. -/
theorem Reads.keeps {ρ : Renaming} {input input' : Input} {I : State → State → List Item → Prop}
    (J : Invariant ρ input input' I) (hb : input'.budget = input.budget) {α β : Type}
    {known : Known} {H : List Item} {p : Parse α} {q : Parse β} {G : α → β → List Item → Prop}
    (h : Reads ρ known H p q G) : Keeps ρ input input' I known H p q G := by
  induction h with
  | ret h => exact .ret h
  | seq _ _ ihp ihk => exact .seq ihp ihk
  | frame R _ ih => exact .frame R ih
  | weaken hw _ ih => exact .weaken J hw ih
  | post _ hw ih => exact .post J ih hw
  | know hk _ ih => exact .know hk ih
  | view P hf _ ih => exact .view P hf ih
  | token _ ih => exact .token ih
  | offset _ ih => exact .offset J ih
  | position _ ih => exact .position ih
  | aborted _ ih => exact .aborted ih
  | nameAt link _ ih => exact .nameAt link ih
  | nodeText link => exact .nodeText link
  | readers _ ih => exact .readers hb ih
  | advance => exact .advance J
  | report rule arguments arguments' hr => exact .report J rule arguments arguments' hr
  | nested _ ih => exact .nested J ih
  | iterate _ hI ih => exact .iterate hb ih hI
  | word h => exact .word J h
  | typeNode o o' hrest h => exact .typeNode J o o' hrest h
  | toTypeReference link => exact .toTypeReference J link
  | nameOrCall h _ ih => exact .nameOrCall J h ih
  | finish hk hg hf hp => exact .finish J hk hg hf hp

end Grammar

end JavaNames
