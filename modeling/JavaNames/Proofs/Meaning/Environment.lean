/-
What the names of a tree mean, without scopes and places. An environment of frames is handed down the
tree: a construct puts a frame around what is inside it, either with all its names at once, or empty, and
then the frame grows while the statements inside are passed from left to right.
-/
import JavaNames.Scope.Symbol
import JavaNames.Tree.Basic

namespace JavaNames

/-! ## Environments -/

/-- What a name stands for: the node that declares it, the kind of the declaration, and the construct
that owns it. -/
structure Meaning where
  declaration : NodeId
  kind : SymbolKind
  owner : Link
deriving DecidableEq

/-- The names of one construct in the order of their declarations. -/
abbrev Frame := List (String × Meaning)

/-- The first declaration of a name counts. -/
def Frame.meaning? (frame : Frame) (name : String) : Option Meaning :=
  (frame.find? fun entry => entry.1 = name).map (·.2)

/-- The frames around a place, the innermost first. -/
abbrev Environment := List Frame

namespace Environment

/-- The innermost frame that has a name decides what it means. -/
def meaning? : Environment → String → Option Meaning
  | [], _ => none
  | frame :: outer, name => (Frame.meaning? frame name).or (meaning? outer name)

/-- The environment with more names in its innermost frame. A name that the frame has already is not
replaced, for the first one counts. -/
def grow : Environment → Frame → Environment
  | [], _ => []
  | frame :: outer, names => (frame ++ names) :: outer

end Environment

/-! ## Passing a tree -/

/-- A use of a name and what it means. -/
abbrev Answer := NodeId × Option Meaning

/-- What passing a part of a tree does: it answers what the names there mean, and it may make the
environment grow. -/
abbrev Pass := Environment → List Answer × Environment

namespace Pass

/-- Nothing is passed. -/
def nothing : Pass := fun env => ([], env)

/-- The use of a name. -/
def use (id : NodeId) (name : String) : Pass := fun env => ([(id, env.meaning? name)], env)

/-- The declaration of names. -/
def declare (names : Frame) : Pass := fun env => ([], env.grow names)

/-- One part after another. -/
def andThen (first second : Pass) : Pass := fun env =>
  ((first env).1 ++ (second (first env).2).1, (second (first env).2).2)

/-- Some nodes from left to right. -/
def all (pass : NodeId → Pass) : List NodeId → Pass
  | [] => nothing
  | id :: ids => (pass id).andThen (all pass ids)

/-- Some links from left to right. -/
def each (pass : NodeId → Pass) (links : List Link) : Pass := all pass (links.filterMap fun link => link)

/-- A part that stands in a frame of its own. -/
def within (frame : Frame) (inner : Pass) : Pass := fun env => ((inner (frame :: env)).1, env)

end Pass

/-! ## Declarations -/

/-- The node of the name that a payload declares. -/
def Payload.declaredName : Payload → Link
  | .enumConstant n _ _ | .declarator n _ | .parameter _ _ n _ | .resource _ _ n _ => n
  | _ => none

namespace Tree

variable (tree : Tree)

/-- The name that a node declares; none where the source lacks it. -/
def declares (kind : SymbolKind) (owner link : Link) : Frame :=
  match (tree.payloadAt? link).bind Payload.declaredName with
  | none => []
  | some id => ((tree.name? id).map fun name => (name, ⟨id, kind, owner⟩)).toList

/-- The fields that a member declares. -/
def fields (owner link : Link) : Frame :=
  match tree.kindAt? link, tree.payloadAt? link with
  | some .fieldDeclaration, some (.variables _ _ declarators) =>
    declarators.flatMap (tree.declares .field owner)
  | _, _ => []

/-! ## The meaning of a tree -/

/-- Where a node stands: the construct that owns what is declared there, and directly inside a record,
the components of the record. -/
structure Setting where
  owner : Link
  components : List Link

/-- Inside a construct that owns what is declared there. -/
def Setting.inside (id : NodeId) : Setting := ⟨some id, []⟩

/-- Passes a node and at most `depth` levels of its subtree. -/
def pass : Nat → Setting → NodeId → Pass
  | 0, _, _ => .nothing
  | depth + 1, setting, id =>
    match tree.node? id with
    | none => .nothing
    | some node =>
      let links := node.payload.links node.kind
      match node.payload with
      | .name name => if node.kind = .nameExpression then .use id name else .nothing
      | .typeDeclaration _ _ components constants members =>
        let frame := components.flatMap (tree.declares .recordComponentField (some id)) ++
          constants.flatMap (tree.declares .field (some id)) ++ members.flatMap (tree.fields (some id))
        .within frame (.each (pass depth ⟨some id, components⟩) links)
      | .enumConstant name arguments (some members) =>
        (Pass.each (pass depth setting) (name :: arguments)).andThen
          (.within (members.flatMap (tree.fields (some id)))
            (.each (pass depth (.inside id)) members))
      | .objectCreation outer type arguments (some members) =>
        (Pass.each (pass depth setting) (outer :: type :: arguments)).andThen
          (.within (members.flatMap (tree.fields (some id)))
            (.each (pass depth (.inside id)) members))
      | .method _ _ _ parameters _ _ =>
        let frame :=
          if node.kind = .compactConstructorDeclaration then
            setting.components.flatMap (tree.declares .recordComponentParameter (some id))
          else parameters.flatMap (tree.declares .formalParameter (some id))
        .within frame (.each (pass depth (.inside id)) links)
      | .lambda parameters _ =>
        .within (parameters.flatMap (tree.declares .formalParameter (some id)))
          (.each (pass depth (.inside id)) links)
      | .initializer _ _ => .each (pass depth (.inside id)) links
      | .catchClause parameter _ =>
        .within (tree.declares .exceptionParameter (some id) parameter) (.each (pass depth setting) links)
      | .forEach element iterable statement =>
        let frame := tree.declares .localVariable (some id) element
        (Pass.within frame (.each (pass depth setting) [element])).andThen
          ((Pass.each (pass depth setting) [iterable]).andThen
            (.within frame (.each (pass depth setting) [statement])))
      | .block _ | .forLoop _ _ _ _ | .switchBody _ => .within [] (.each (pass depth setting) links)
      | .variables _ _ _ =>
        -- a variable is named in front of its initializer, and a type names nothing
        if node.kind = .localVariableStatement then
          .each (fun child =>
            (Pass.declare (tree.declares .localVariable setting.owner (some child))).andThen
              (pass depth setting child)) links
        else .each (pass depth setting) links
      | .tryCatch (some resources) tryBlock clauses finallyBlock =>
        (Pass.within [] (.each (pass depth setting) [some resources, tryBlock])).andThen
          (.each (pass depth setting) (clauses ++ [finallyBlock]))
      | .resourceList _ =>
        -- a resource is named behind its initializer
        .each (fun resource =>
          (pass depth setting resource).andThen
            (.declare (tree.declares .resourceVariable (some id) (some resource)))) links
      | _ => .each (pass depth setting) links

/-- What the uses of names in a tree mean, in the order of the source. -/
def meanings (root : NodeId) : List Answer := (tree.pass (tree.size + 1) ⟨none, []⟩ root []).1

end Tree

end JavaNames
