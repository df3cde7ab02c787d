import CachedViews.Registry.Path
import CachedViews.Sorted.Map
import CachedViews.Sorted.Set

/-!
Embed specifications as trees. A node names the properties kept at its level and has
a subtree for each property that is expanded further.
-/
namespace CachedViews

inductive EmbedTree where
  | node (fields : SortedSet String) (children : List (String × EmbedTree))

namespace EmbedTree

def fields : EmbedTree → SortedSet String
  | node fields _ => fields

def children : EmbedTree → List (String × EmbedTree)
  | node _ children => children

def leaf : EmbedTree := node {} []

instance : Inhabited EmbedTree := ⟨leaf⟩

def child? (tree : EmbedTree) (field : String) : Option EmbedTree :=
  Entries.get? field tree.children

def keepsAll (tree : EmbedTree) : Bool := tree.fields.contains Path.wildcard

def keeps (tree : EmbedTree) (field : String) : Bool :=
  tree.keepsAll || tree.fields.contains field

/-- Adds one path. Nothing is expanded below its last segment or below a wildcard. -/
def insert : List String → EmbedTree → EmbedTree
  | [], tree => tree
  | segment :: rest, node fields children =>
    if rest = [] ∨ segment = Path.wildcard then node (fields.insert segment) children
    else
      let below := (Entries.get? segment children).getD leaf
      node (fields.insert segment) (Entries.insert segment (insert rest below) children)

/-- A root keeps all properties of its own entity. -/
def root : EmbedTree := node (SortedSet.ofList [Path.wildcard]) []

def ofPaths (paths : List String) : EmbedTree :=
  paths.foldl (fun tree path => insert (Path.segments path) tree) root

end EmbedTree

end CachedViews
