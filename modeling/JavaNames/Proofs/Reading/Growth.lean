/-
The nodes that are built while a source is read are well-formed trees, and what a reader has in hand
are roots among them, one behind the other.
-/
import JavaNames.Proofs.Reading.Invariant
import JavaNames.Proofs.Token.Order
import JavaNames.Proofs.Tree.Form

namespace JavaNames.Grammar

/-! ## Places of items -/

/-- Where an item stands; room stands nowhere. -/
def Item.place? : Item → Option Tree.Place
  | mark o _ => some (.inr o)
  | piece id _ _ => some (.inl id)
  | room _ => none

@[simp] theorem Item.place?_above (depth : Nat) (item : Item) :
    (item.above depth).place? = item.place? := by
  cases item <;> rfl

/-- Where the items in hand stand. -/
def places (H : List Item) : List Tree.Place := H.filterMap Item.place?

theorem places_append (H K : List Item) : places (H ++ K) = places H ++ places K :=
  List.filterMap_append

theorem places_mark (o o' : Nat) (H : List Item) : places (.mark o o' :: H) = .inr o :: places H :=
  rfl

theorem places_map_above (depth : Nat) (H : List Item) :
    places (H.map (Item.above depth)) = places H := by
  rw [places, List.filterMap_map]
  exact congrArg (List.filterMap · H) (funext (Item.place?_above depth))

theorem mem_places_of_mem {H : List Item} {item : Item} {x : Tree.Place} (h : item ∈ H)
    (hx : item.place? = some x) : x ∈ places H :=
  List.mem_filterMap.2 ⟨item, h, hx⟩

theorem Weaker.places {H H' : List Item} (h : Weaker H H') :
    (places H').Sublist (Grammar.places H) := by
  induction h with
  | nil => exact .slnil
  | keep item _ ih => cases item <;> first | exact ih.cons_cons _ | exact ih
  | drop item _ ih => cases item <;> first | exact ih.cons _ | exact ih
  | change id _ _ ih => exact ih.cons_cons _
  | behind item level _ ih => cases item <;> first | exact ih.cons_cons _ | exact ih

theorem Weaker.mem_mark {H H' : List Item} (h : Weaker H H') {o o' : Nat} (hm : .mark o o' ∈ H') :
    .mark o o' ∈ H := by
  induction h with
  | nil => exact hm
  | keep item _ ih => exact (List.mem_cons.1 hm).elim (fun he => he ▸ .head _) fun hm => .tail _ (ih hm)
  | drop item _ ih => exact .tail _ (ih hm)
  | change id _ _ ih => exact (List.mem_cons.1 hm).elim nofun fun hm => .tail _ (ih hm)
  | behind item level _ ih =>
    rcases List.mem_cons.1 hm with rfl | hm
    · exact .tail _ (.head _)
    · exact .tail _ (.tail _ (ih ((List.mem_cons.1 hm).resolve_left nofun)))

/-- A node that is still in hand was there before, maybe in another part. -/
theorem Weaker.mem_piece {H H' : List Item} (h : Weaker H H') {id : NodeId} {r' : Role} {l' : Nat}
    (hm : .piece id r' l' ∈ H') : ∃ r l, .piece id r l ∈ H ∧ Role.Within r l r' l' := by
  induction h with
  | nil => exact absurd hm List.not_mem_nil
  | keep item _ ih =>
    rcases List.mem_cons.1 hm with rfl | hm
    · exact ⟨r', l', .head _, .refl _ _⟩
    · obtain ⟨r, l, hr, hw⟩ := ih hm
      exact ⟨r, l, .tail _ hr, hw⟩
  | drop item _ ih =>
    obtain ⟨r, l, hr, hw⟩ := ih hm
    exact ⟨r, l, .tail _ hr, hw⟩
  | change other hw _ ih =>
    rcases List.mem_cons.1 hm with he | hm
    · cases he
      exact ⟨_, _, .head _, hw⟩
    · obtain ⟨r, l, hr, hw⟩ := ih hm
      exact ⟨r, l, .tail _ hr, hw⟩
  | behind item level _ ih =>
    rcases List.mem_cons.1 hm with rfl | hm
    · exact ⟨r', l', .tail _ (.head _), .refl _ _⟩
    · obtain ⟨r, l, hr, hw⟩ := ih ((List.mem_cons.1 hm).resolve_left nofun)
      exact ⟨r, l, .tail _ (.tail _ hr), hw⟩

theorem mem_pieces {role : Role} {level : Nat} {links : List Link} {item : Item} :
    item ∈ pieces role level links ↔ ∃ id, some id ∈ links ∧ item = .piece id role level := by
  simp only [pieces, List.mem_filterMap, Option.map_eq_some_iff]
  constructor
  · rintro ⟨_, hl, id, rfl, rfl⟩
    exact ⟨id, hl, rfl⟩
  · rintro ⟨id, hl, rfl⟩
    exact ⟨_, hl, id, rfl, rfl⟩

theorem mem_groupPieces {groups : List Group} {group : Group} (hg : group ∈ groups) {id : NodeId}
    (h : some id ∈ group.links) : .piece id group.role group.level ∈ groupPieces groups :=
  List.mem_flatMap.2 ⟨group, hg, mem_pieces.2 ⟨id, h, rfl⟩⟩

/-- What is in hand of a node that is a part of a construct. -/
theorem mem_parts (kind : NodeKind) (depth : Nat) {groups : List Group} {group : Group}
    (hg : group ∈ groups) {id : NodeId} (h : some id ∈ group.links) :
    .piece id group.role (group.level + depth) ∈
      (rooms kind ++ groupPieces groups).map (Item.above depth) :=
  List.mem_map.2 ⟨_, List.mem_append_right _ (mem_groupPieces hg h), rfl⟩

theorem places_groupPieces (groups : List Group) :
    places (groupPieces groups) = (Group.ids groups).map Sum.inl := by
  have h (group : Group) : (pieces group.role group.level group.links).filterMap Item.place? =
      (group.links.filterMap id).map Sum.inl := by
    simp only [pieces, List.filterMap_filterMap, List.map_filterMap]
    congr 1
    funext link
    cases link <;> rfl
  simp only [places, groupPieces, Group.ids, List.filterMap_flatMap, List.map_flatMap, h]

/-- The parts of a construct stand where its nodes do. -/
theorem places_parts (kind : NodeKind) (groups : List Group) (depth : Nat) :
    places ((rooms kind ++ groupPieces groups).map (Item.above depth)) =
      (Group.ids groups).map Sum.inl := by
  rw [places_map_above, places_append, places_groupPieces]
  cases kind <;> rfl

/-! ## Growth -/

/-- The nodes of a state are well-formed trees, and what is in hand are roots that stand, one behind
the other, in front of the next token. -/
structure Grows (input : Input) (s : State) (H : List Item) : Prop where
  tokens : Token.Ordered input.stop s.lastStop s.tokens
  wellFormed : s.tree.WellFormed
  unlinked : s.tree.Unlinked
  marks : ∀ {o o' : Nat}, .mark o o' ∈ H → o ≤ s.offset input
  held : ∀ {id : NodeId} {role : Role} {level : Nat}, .piece id role level ∈ H → s.tree.Free id ∧
    (∃ node, s.tree.node? id = some node ∧ role.admits node.kind) ∧
    ∀ span ∈ s.tree.span? id, span.2 ≤ s.lastStop
  apart : (places H).Pairwise s.tree.Apart

namespace Grows

variable {input : Input} {s : State} {H : List Item}

theorem lastStop_le_offset (h : Token.Ordered input.stop s.lastStop s.tokens) :
    s.lastStop ≤ s.offset input := by
  unfold State.offset
  generalize s.tokens = ts at h
  cases h with
  | nil h => exact h
  | cons h _ _ => exact h

theorem offset_advance_le (h : Token.Ordered input.stop s.lastStop s.tokens) :
    s.offset input ≤ s.advance.offset input := by
  obtain ⟨ts, consumed, lastStop, tree, diagnostics, depth, tooDeep⟩ := s
  cases h with
  | nil => exact Nat.le_refl _
  | cons _ ht hrest =>
    have := lastStop_le_offset
      (s := State.advance ⟨_ :: _, consumed, lastStop, tree, diagnostics, depth, tooDeep⟩) hrest
    simp only [State.offset, State.advance, List.headD_cons] at this ⊢
    omega

/-- Nothing in hand reaches behind the start of the next token. -/
theorem ends (h : Grows input s H) {x : Tree.Place} (hx : x ∈ places H) :
    ∀ span ∈ s.tree.spanOf x, span.2 ≤ s.offset input := by
  obtain ⟨item, hitem, hplace⟩ := List.mem_filterMap.1 hx
  intro span hspan
  cases item with
  | mark o o' =>
    cases hplace
    cases hspan
    exact h.marks hitem
  | piece id role level =>
    cases hplace
    exact Nat.le_trans ((h.held hitem).2.2 span hspan) (lastStop_le_offset h.tokens)
  | room => cases hplace

theorem weaker {H' : List Item} (hw : Weaker H H') (h : Grows input s H) : Grows input s H' := by
  refine ⟨h.tokens, h.wellFormed, h.unlinked, fun hm => h.marks (hw.mem_mark hm), fun hm => ?_,
    h.apart.sublist hw.places⟩
  obtain ⟨r, l, hm, hr⟩ := hw.mem_piece hm
  obtain ⟨hfree, ⟨node, hn, hk⟩, hspan⟩ := h.held hm
  exact ⟨hfree, ⟨node, hn, hr.admits hk⟩, hspan⟩

theorem mark (h : Grows input s H) (o' : Nat) :
    Grows input s (H ++ [.mark (s.offset input) o']) := by
  refine ⟨h.tokens, h.wellFormed, h.unlinked, fun hm => ?_, fun hm => ?_, ?_⟩
  · rcases List.mem_append.1 hm with hm | hm
    · exact h.marks hm
    · cases List.mem_singleton.1 hm
      exact Nat.le_refl _
  · rcases List.mem_append.1 hm with hm | hm
    · exact h.held hm
    · cases List.mem_singleton.1 hm
  · rw [places_append, List.pairwise_append]
    refine ⟨h.apart, List.pairwise_singleton _ _, fun x hx y hy => ⟨fun a ha b hb => ?_, ?_⟩⟩
    · cases List.mem_singleton.1 hy
      cases hb
      exact h.ends hx a ha
    · cases List.mem_singleton.1 hy
      exact fun _ _ => nofun

theorem room (h : Grows input s H) (level : Nat) : Grows input s (H ++ [.room level]) := by
  have hfront {item : Item} (hm : item ∈ H ++ [.room level]) (hne : item ≠ .room level) :
      item ∈ H := (List.mem_append.1 hm).resolve_right fun hm => hne (List.mem_singleton.1 hm)
  refine ⟨h.tokens, h.wellFormed, h.unlinked, fun hm => h.marks (hfront hm nofun),
    fun hm => h.held (hfront hm nofun), ?_⟩
  rw [places_append, show places [.room level] = [] from rfl, List.append_nil]
  exact h.apart

theorem advance (h : Grows input s H) : Grows input s.advance H := by
  have hoffset := offset_advance_le h.tokens
  obtain ⟨ts, consumed, lastStop, tree, diagnostics, depth, tooDeep⟩ := s
  obtain ⟨htokens, hform, hunlinked, hmarks, hheld, hapart⟩ := h
  cases htokens with
  | nil hle => exact ⟨.nil hle, hform, hunlinked, hmarks, hheld, hapart⟩
  | cons hstart ht hrest =>
    refine ⟨hrest, hform, hunlinked, fun hm => Nat.le_trans (hmarks hm) hoffset, fun hm => ?_, hapart⟩
    obtain ⟨hfree, hnode, hspan⟩ := hheld hm
    refine ⟨hfree, hnode, fun span hs => Nat.le_trans (hspan span hs) ?_⟩
    exact Nat.le_trans hstart (Nat.le_of_lt ht)

theorem lt_size (h : Grows input s H) {id : NodeId} {role : Role} {level : Nat}
    (hm : .piece id role level ∈ H) : id < s.tree.size := by
  obtain ⟨-, ⟨node, hn, -⟩, -⟩ := h.held hm
  exact Tree.lt_size_of_node? hn

theorem lt_size_of_place (h : Grows input s H) {id : NodeId} (hm : .inl id ∈ places H) :
    id < s.tree.size := by
  obtain ⟨item, hitem, hplace⟩ := List.mem_filterMap.1 hm
  cases item with
  | mark => cases hplace
  | piece =>
    cases hplace
    exact h.lt_size hitem
  | room => cases hplace

theorem free_of_place (h : Grows input s H) {id : NodeId} (hm : .inl id ∈ places H) :
    s.tree.Free id := by
  obtain ⟨item, hitem, hplace⟩ := List.mem_filterMap.1 hm
  cases item with
  | mark => cases hplace
  | piece =>
    cases hplace
    exact (h.held hitem).1
  | room => cases hplace

section

variable {K : List Item} {o o' : Nat} (h : Grows input s (H ++ .mark o o' :: K)) (kind : NodeKind)
  (stop : Nat) (payload : Payload)

include h

theorem spanOf_add {x : Tree.Place} (hx : x ∈ places H) :
    (s.tree.add kind o stop payload).spanOf x = s.tree.spanOf x := by
  refine Tree.spanOf_add (fun id he => h.lt_size_of_place ?_) _ _ _ _
  rw [places_append, ← he]
  exact List.mem_append_left _ hx

/-- A node leaves in hand what stands in front of it, if its children are what stands behind. -/
theorem held_add {groups : List Group} (hg : payload.groups kind = some groups)
    (hK : places K = (Group.ids groups).map Sum.inl) {id : NodeId} {role : Role}
    {level : Nat} (hm : .piece id role level ∈ H) :
    (s.tree.add kind o stop payload).Free id ∧
      (∃ node, (s.tree.add kind o stop payload).node? id = some node ∧ role.admits node.kind) ∧
      ∀ span ∈ (s.tree.add kind o stop payload).span? id, span.2 ≤ s.lastStop := by
  obtain ⟨hf, ⟨node, hn, hk⟩, hs⟩ := h.held (List.mem_append_left _ hm)
  have hplace : .inl id ∈ places H := mem_places_of_mem hm rfl
  have hapart := h.apart
  rw [places_append, places_mark, hK, List.pairwise_append] at hapart
  obtain ⟨-, -, hacross⟩ := hapart
  refine ⟨hf.add (fun hc => ?_) _ _, ⟨node, ?_, hk⟩, ?_⟩
  · rw [(Payload.children_perm_groups hg).mem_iff] at hc
    exact (hacross _ hplace _ (.tail _ (List.mem_map_of_mem hc))).ne id rfl rfl
  · exact (Tree.node?_add_of_lt _ _ _ _ _ (Tree.lt_size_of_node? hn)).trans hn
  · have he : (s.tree.add kind o stop payload).span? id = s.tree.span? id :=
      h.spanOf_add kind stop payload hplace
    rw [he]
    exact hs

/-- A node stands behind what is in front of the offset at which it starts. -/
theorem apart_add (role : Role) (level : Nat) :
    List.Pairwise (s.tree.add kind o stop payload).Apart
      (places (H ++ [.mark o o', .piece s.tree.size role level])) := by
  have hspan {x : Tree.Place} (hx : x ∈ places H) :=
    h.spanOf_add kind stop payload hx
  have hapart := h.apart
  rw [places_append, places_mark, List.pairwise_append] at hapart
  obtain ⟨hapartH, -, hacross⟩ := hapart
  rw [places_append, List.pairwise_append]
  refine ⟨hapartH.imp_of_mem fun ha hb hab => hab.of_spans (hspan ha) (hspan hb), ?_,
    fun x hx y hy => ?_⟩
  · refine List.pairwise_pair.2 ⟨fun a ha b hb => ?_, fun _ => nofun⟩
    cases ha
    obtain ⟨-, rfl⟩ := (Tree.mem_span? (Tree.node?_add_self _ _ _ _ _)).1 hb
    exact Nat.le_refl _
  · have hmark := hacross x hx (.inr o) (.head _)
    rcases List.mem_cons.1 hy with rfl | hy
    · exact hmark.of_spans (hspan hx) rfl
    · cases List.mem_singleton.1 hy
      refine ⟨fun a ha b hb => ?_, fun id he hid => ?_⟩
      · obtain ⟨-, rfl⟩ := (Tree.mem_span? (Tree.node?_add_self _ _ _ _ _)).1 hb
        rw [hspan hx] at ha
        exact hmark.before a ha (o, o) rfl
      · cases hid
        refine Nat.lt_irrefl s.tree.size (h.lt_size_of_place ?_)
        rw [places_append, ← he]
        exact List.mem_append_left _ hx

end

/-- A new node takes in what is in hand behind an offset and comes in hand itself. -/
theorem add {K : List Item} {o o' : Nat} (h : Grows input s (H ++ .mark o o' :: K)) {kind : NodeKind}
    {stop : Nat} {payload : Payload} {groups : List Group} {role : Role} (level : Nat)
    (hg : payload.groups kind = some groups) (ht : s.tree.Takes s.tree.size o stop groups)
    (hK : places K = (Group.ids groups).map Sum.inl)
    (hw : kind.isName → o < stop) (hstop : o < stop → stop ≤ s.lastStop) (hr : role.admits kind) :
    Grows input (s.add kind o stop payload)
      (H ++ [.mark o o', .piece s.tree.size role level]) := by
  have hfree (child : NodeId) (hc : child ∈ Group.ids groups) : s.tree.Free child := by
    refine h.free_of_place ?_
    rw [places_append, places_mark, hK]
    exact List.mem_append_right _ (.tail _ (List.mem_map_of_mem hc))
  have hform := h.wellFormed.add hg ht hfree hw
  refine ⟨h.tokens, hform, fun {id node} hn => ?_, fun hm => ?_, fun {id r l} hm => ?_,
    h.apart_add kind stop payload role level⟩
  · change (s.tree.add kind o stop payload).node? id = some node at hn
    rw [Tree.node?_add] at hn
    split at hn
    · cases hn
      rfl
    · exact h.unlinked hn
  · refine h.marks ((List.mem_append.1 hm).elim (List.mem_append_left _) fun hm => ?_)
    rcases List.mem_cons.1 hm with he | hm
    · cases he
      exact List.mem_append_right _ (.head _)
    · cases List.mem_singleton.1 hm
  · rcases List.mem_append.1 hm with hm | hm
    · exact h.held_add kind stop payload hg hK hm
    · cases List.mem_singleton.1 ((List.mem_cons.1 hm).resolve_left nofun)
      refine ⟨hform.free_last (by simp), ⟨_, Tree.node?_add_self _ _ _ _ _, hr⟩, fun span hs => ?_⟩
      obtain ⟨hlt, rfl⟩ := (Tree.mem_span? (Tree.node?_add_self _ _ _ _ _)).1 hs
      exact hstop hlt

/-- A new node without children. -/
theorem addLeaf {o o' : Nat} (h : Grows input s (H ++ [.mark o o'])) {kind : NodeKind} {stop : Nat}
    {payload : Payload} {role : Role} (level : Nat) (hg : payload.groups kind = some [])
    (hw : kind.isName → o < stop) (hstop : o < stop → stop ≤ s.lastStop) (hr : role.admits kind) :
    Grows input (s.add kind o stop payload) (H ++ [.piece s.tree.size role level]) :=
  (h.add level hg (.nil _ _ _ _) rfl hw hstop hr).weaker ((Weaker.refl H).append (.drop _ (.refl _)))

/-- A name is a node that covers one token. -/
theorem addName {o' : Nat} {t : Token} {rest : List Token} (hts : s.tokens = t :: rest)
    (h : Grows input s (H ++ [.mark t.start o'])) {kind : NodeKind} {stop : Nat} {payload : Payload}
    {role : Role} (level : Nat) (hg : payload.groups kind = some []) (hstop : stop = max t.stop t.start)
    (hr : role.admits kind) :
    Grows input (s.advance.add kind t.start stop payload) (H ++ [.piece s.tree.size role level]) := by
  have htokens := h.tokens
  rw [hts] at htokens
  have ht : t.start < t.stop := by cases htokens; assumption
  rw [hstop, Nat.max_eq_left (Nat.le_of_lt ht)]
  have hadvance := h.advance
  have hlast : s.advance.lastStop = t.stop := by simp [State.advance, hts]
  rw [← s.tree_advance]
  exact hadvance.addLeaf level hg (fun _ => ht) (fun _ => Nat.le_of_eq hlast.symm) hr

theorem replace {id : NodeId} {level : Nat} (h : Grows input s (H ++ [.piece id .operand level]))
    (text : String) : Grows input (s.replace id .typeReference (.typeReference text))
      (H ++ [.piece id .operand level]) := by
  obtain ⟨hfree, ⟨node, hn, -⟩, -⟩ := h.held (List.mem_append_right _ (.head _))
  have hform : (s.tree.replace id .typeReference (.typeReference text)).WellFormed :=
    h.wellFormed.replace hfree rfl rfl
  have hspan (x : Tree.Place) : (s.replace id .typeReference (.typeReference text)).tree.spanOf x =
      s.tree.spanOf x := by
    cases x with
    | inr o => rfl
    | inl other =>
      change ((s.tree.replace id _ _).node? other).bind _ = (s.tree.node? other).bind _
      rw [Tree.node?_replace]
      split
      · rw [Option.bind_map]
        rfl
      · rfl
  refine ⟨h.tokens, hform, fun {other node} hn => ?_, h.marks, fun {other r l} hm => ?_, ?_⟩
  · change (s.tree.replace id _ _).node? other = some node at hn
    rw [Tree.node?_replace] at hn
    split at hn
    · rw [Option.map_eq_some_iff] at hn
      obtain ⟨old, hold, rfl⟩ := hn
      have hparent := h.unlinked hold
      exact hparent
    · exact h.unlinked hn
  · obtain ⟨hf, ⟨inner, hi, hk⟩, hs⟩ := h.held hm
    have he : (s.replace id .typeReference (.typeReference text)).tree.span? other =
      s.tree.span? other := hspan (.inl other)
    refine ⟨fun parent => ?_, ?_, by rw [he]; exact hs⟩
    · change other ∉ (s.tree.replace id _ _).children parent
      rw [Tree.children_replace hn]
      split
      · exact List.not_mem_nil
      · exact hf parent
    · rcases List.mem_append.1 hm with hm | hm
      · have hne : id ≠ other := by
          have hapart := h.apart
          rw [places_append, List.pairwise_append] at hapart
          rintro rfl
          exact (hapart.2.2 _ (mem_places_of_mem hm rfl) _ (.head _)).ne id rfl rfl
        exact ⟨inner, (Tree.node?_replace_of_ne _ _ _ hne).trans hi, hk⟩
      · cases List.mem_singleton.1 hm
        exact ⟨_, Tree.node?_replace_self _ _ _ hn, rfl⟩
  · exact h.apart.imp fun hab => hab.of_spans (hspan _) (hspan _)

/-- What is in hand behind an offset can be taken in by a node that starts there. -/
theorem takes {o o' level stop : Nat} {kind : NodeKind} {groups : List Group}
    (hf : ∀ group ∈ groups, group.Filled) (hstop : s.lastStop ≤ stop)
    (h : Grows input s
      (H ++ .mark o o' :: (rooms kind ++ groupPieces groups).map (Item.above level))) :
    s.tree.Takes s.tree.size o stop groups := by
  have hmem {id : NodeId} {group : Group} (hg : group ∈ groups) (hid : some id ∈ group.links) :
      .piece id group.role (group.level + level) ∈
        H ++ .mark o o' :: (rooms kind ++ groupPieces groups).map (Item.above level) :=
    List.mem_append_right _ (.tail _ (mem_parts kind level hg hid))
  have hapart := h.apart
  rw [places_append, places_mark, places_parts, List.pairwise_append, List.pairwise_cons] at hapart
  obtain ⟨-, ⟨hmark, hpieces⟩, -⟩ := hapart
  refine ⟨hf, fun group hg child hc => ?_, hpieces, fun child hc span hs => ?_⟩
  · obtain ⟨-, hnode, -⟩ := h.held (hmem hg hc)
    exact ⟨h.lt_size (hmem hg hc), hnode⟩
  · obtain ⟨group, hg, hlink⟩ := Group.mem_ids.1 hc
    obtain ⟨-, -, hend⟩ := h.held (hmem hg hlink)
    refine ⟨?_, Nat.le_trans (hend span hs) hstop⟩
    exact (hmark (.inl child) (List.mem_map_of_mem hc)).before (o, o) rfl span hs

theorem finish {kind : NodeKind} {o o' : Nat} {payload : Payload} {groups : List Group}
    (hk : kind.isName = false) (hg : payload.groups kind = some groups)
    (hf : ∀ group ∈ groups, group.Filled)
    (h : Grows input s
      (H ++ .mark o o' :: (rooms kind ++ groupPieces groups).map (Item.above s.depth))) :
    Grows input (s.add kind o (max s.lastStop o) payload)
      (H ++ [.mark o o', .piece s.tree.size (payload.role kind) s.depth]) := by
  exact h.add s.depth hg (h.takes hf (Nat.le_max_left _ _)) (places_parts kind groups s.depth)
    (by simp [hk]) (by omega) (payload.admits_role kind)

/-- Diagnostics and nesting do not count. -/
theorem congr {t : State} (h : Grows input s H) (htokens : t.tokens = s.tokens)
    (hlast : t.lastStop = s.lastStop) (htree : t.tree = s.tree) : Grows input t H := by
  obtain ⟨ts, consumed, lastStop, tree, diagnostics, depth, tooDeep⟩ := t
  cases htokens
  cases hlast
  cases htree
  exact ⟨h.tokens, h.wellFormed, h.unlinked, h.marks, h.held, h.apart⟩

/-- Reading keeps the nodes well-formed. -/
theorem invariant (ρ : Renaming) (input input' : Input) :
    Invariant ρ input input' fun s _ H => Grows input s H where
  weaker := .weaker
  mark _ h := h.mark _
  advance _ h := h.advance
  report _ _ _ _ _ _ h := h.congr rfl rfl rfl
  enter {s _ _} _ _ h := (h.congr (t := s.enter) rfl rfl rfl).room _
  leave h := h.congr rfl rfl rfl
  refuse _ _ h := h.congr rfl rfl rfl
  word {s _ H t} _ _ _ ha hts _ _ h := by
    have hstart : s.offset input = t.start := by simp [State.offset, hts]
    have hmark := h.mark 0
    have ht : t.start ≤ t.stop := by
      have htokens := h.tokens
      rw [hts] at htokens
      cases htokens
      omega
    rw [hstart] at hmark
    exact hmark.addName hts _ rfl (Nat.max_eq_left ht).symm rfl
  nameUse _ _ hts _ _ h := h.addName hts _ rfl rfl rfl
  typeNode _ _ _ _ _ _ _ _ h := h.addLeaf _ rfl nofun (fun _ => Nat.le_refl _) rfl
  replace _ _ _ _ _ h := h.replace _
  finish _ hk hg hf _ h := h.finish hk hg hf

end Grows

end JavaNames.Grammar
