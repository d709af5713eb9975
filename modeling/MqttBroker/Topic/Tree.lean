import MqttBroker.Topic.Basic

/-!
The topic tree: values bound to topic patterns, stored level by level. A node holds the values
bound to the pattern that ends there, so the patterns selecting a topic name are found by
walking down its segments.
-/

namespace MqttBroker

/-- Sibling nodes of a topic tree: the edge to the first node, its values, the nodes below it,
and the siblings after it. -/
inductive Branches (α : Type)
  | nil
  | node (edge : Level) (values : List α) (below : Branches α) (next : Branches α)

namespace Branches

variable {α : Type} [DecidableEq α]

def chain (value : α) : Level → List Level → Branches α
  | edge, [] => .node edge [value] .nil .nil
  | edge, next :: path => .node edge [] (chain value next path) .nil

def insert (value : α) : Branches α → Level → List Level → Branches α
  | .nil, edge, path => chain value edge path
  | .node e values below next, edge, path =>
    if e = edge then
      match path with
      | [] => .node e (values.insert value) below next
      | first :: rest => .node e values (insert value below first rest) next
    else .node e values below (insert value next edge path)

def contains (value : α) : Branches α → Level → List Level → Bool
  | .nil, _, _ => false
  | .node e values below next, edge, path =>
    if e = edge then
      match path with
      | [] => decide (value ∈ values)
      | first :: rest => contains value below first rest
    else contains value next edge path

def keep (edge : Level) (values : List α) (below next : Branches α) : Branches α :=
  match values, below with
  | [], .nil => next
  | _, _ => .node edge values below next

def remove (value : α) : Branches α → Level → List Level → Branches α
  | .nil, _, _ => .nil
  | .node e values below next, edge, path =>
    if e = edge then
      match path with
      | [] => keep e (values.erase value) below next
      | first :: rest => keep e values (remove value below first rest) next
    else .node e values below (remove value next edge path)

def clear (value : α) : Branches α → Branches α
  | .nil => .nil
  | .node e values below next => keep e (values.erase value) (clear value below) (clear value next)

def count (value : α) : Branches α → Nat
  | .nil => 0
  | .node _ values below next => values.count value + count value below + count value next

def follows (first : Bool) (edge : Level) (segment : String) : Bool :=
  match edge with
  | .single => !(first && Level.hidden segment)
  | .blank => segment = ""
  | .metadata text => first && Level.hidden segment && segment = text
  | .normal text => !(first && Level.hidden segment) && segment ≠ "" && segment = text
  | .multi => false

/-- What a node contributes to the values found for the segments, where `deeper` finds values below
it. -/
def here (first : Bool) (edge : Level) (values : List α) (deeper : List String → List α)
    (segments : List String) : List α :=
  match edge, segments with
  | .multi, _ => if first && segments.head?.any Level.hidden then [] else values
  | _, [] => []
  | _, segment :: rest =>
    if follows first edge segment then (if rest.isEmpty then values else []) ++ deeper rest else []

/-- The values bound to patterns that select the segments, found from sibling nodes that are at
the top of the tree or not. -/
def find (first : Bool) : Branches α → List String → List α
  | .nil, _ => []
  | .node edge values below next, segments =>
    here first edge values (find false below) segments ++ find first next segments

def valuesSize : Branches α → Nat
  | .nil => 0
  | .node _ values below next => values.length + valuesSize below + valuesSize next

def nodesSize : Branches α → Nat
  | .nil => 0
  | .node _ _ below next => 1 + nodesSize below + nodesSize next

end Branches

/-- A topic tree: values bound to the pattern without levels, and the nodes below the root. -/
structure TopicTree (α : Type) where
  root : List α := []
  branches : Branches α := .nil

namespace TopicTree

variable {α : Type} [DecidableEq α]

def contains (tree : TopicTree α) (pattern : Topic) (value : α) : Bool :=
  match pattern.levels with
  | [] => decide (value ∈ tree.root)
  | edge :: path => tree.branches.contains value edge path

def insert (tree : TopicTree α) (pattern : Topic) (value : α) : TopicTree α × Bool :=
  let inserted := match pattern.levels with
    | [] => { tree with root := tree.root.insert value }
    | edge :: path => { tree with branches := tree.branches.insert value edge path }
  (inserted, !tree.contains pattern value)

def remove (tree : TopicTree α) (pattern : Topic) (value : α) : TopicTree α × Bool :=
  let removed := match pattern.levels with
    | [] => { tree with root := tree.root.erase value }
    | edge :: path => { tree with branches := tree.branches.remove value edge path }
  (removed, tree.contains pattern value)

def clear (tree : TopicTree α) (value : α) : TopicTree α × Nat :=
  ({ root := tree.root.erase value, branches := tree.branches.clear value },
   tree.root.count value + tree.branches.count value)

def find (tree : TopicTree α) (name : String) : List α :=
  (tree.branches.find true (Text.splitAll '/' name)).eraseDups

def valuesSize (tree : TopicTree α) : Nat := tree.root.length + tree.branches.valuesSize

def nodesSize (tree : TopicTree α) : Nat := tree.branches.nodesSize

def isEmpty (tree : TopicTree α) : Bool :=
  match tree.root, tree.branches with
  | [], .nil => true
  | _, _ => false

end TopicTree

end MqttBroker
