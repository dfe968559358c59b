import Mathlib

/-!
# Walking a devicetree

`Devicetree::Walk` (`lib/devicetree/devicetree.cc`) visits the nodes of the
tree in document order.  The pre-order visitor sees each node with its path
from the root and its properties, and answers whether the node's subtree is
of interest; the children of a node it refuses are walked without any visit.
The post-order visitor sees every node the pre-order visitor saw, after its
children.

This module states that walk on the decoded tree.  A node is identified by
its address, the child indices from the root: the `Node` object that
`NodePath::back()` points to lives while its subtree is walked, and no other
node of the walk shares it then.
-/

namespace Zircon.Devicetree

/-- A devicetree node: its name, its properties in order, and its children. -/
inductive DtTree where
  | node (name : String) (props : List (String × List UInt8)) (children : List DtTree)
  deriving Repr

/-- What the visitors are given for a node. -/
structure NodeVisit where
  /-- The child indices from the root to the node. -/
  pos : List ℕ
  /-- `NodePath`: the names from the root to the node. -/
  path : List String
  props : List (String × List UInt8)
  deriving DecidableEq, Repr

section

variable {σ ε : Type} (pre : σ → NodeVisit → Except ε (σ × Bool))
  (post : σ → NodeVisit → Except ε σ)

mutual

/-- `WalkSubtree`: `visit` says whether the node is visited at all. -/
def walkSubtree (pos : List ℕ) (path : List String) (visit : Bool) : DtTree → σ → Except ε σ
  | .node name props children, s => do
    let here : NodeVisit := ⟨pos, path ++ [name], props⟩
    let (s, visitChildren) ← if visit then pre s here else pure (s, false)
    let s ← walkChildren pos (path ++ [name]) visitChildren 0 children s
    if visit then post s here else pure s

/-- The loop of `WalkSubtree` over the children, the `i`-th first. -/
def walkChildren (pos : List ℕ) (path : List String) (visit : Bool) :
    ℕ → List DtTree → σ → Except ε σ
  | _, [], s => pure s
  | i, t :: ts, s => do
    let s ← walkSubtree (pos ++ [i]) path visit t s
    walkChildren pos path visit (i + 1) ts s

end

/-- `Devicetree::Walk` from the root. -/
def walk (t : DtTree) (s : σ) : Except ε σ :=
  walkSubtree pre post [] [] true t s

end

end Zircon.Devicetree
