import UltraOS.Base.Fault
import UltraOS.Library.ColoredTree

/-!
# The intrusive red-black tree of `Common/RedBlackTree.h`

The source links nodes by `parent`, `left` and `right` pointers and keeps a super root, a node without a value
whose `left` and `right` cache the ends of the tree and whose null `parent` is how `is_null()` recognises it. The
model is a heap from addresses to live nodes, the root pointer, the cached ends and the size. An access through a
pointer that is not a live node is a fault. Loops take fuel from the size of the tree, and `emplace` takes the
address of the new node, which is not that of a live one in the runs of `Run.lean`.
-/

namespace UltraOS.RedBlackTree

open ColoredTree (Color Side)

/-- A `ValueNode*`. The super root is the one node that is not on the heap. -/
inductive NodePtr where
  | null
  | superRoot
  | node (address : Nat)
  deriving DecidableEq

structure ValueNode (V : Type) where
  parent : NodePtr := .null
  left : NodePtr := .null
  right : NodePtr := .null
  color : Color := .red
  value : V

def ValueNode.child {V : Type} (n : ValueNode V) : Side → NodePtr
  | .left => n.left
  | .right => n.right

def ValueNode.setChild {V : Type} (n : ValueNode V) : Side → NodePtr → ValueNode V
  | .left, p => { n with left := p }
  | .right, p => { n with right := p }

/-- The `Traits` of a tree. The value comparator is always the key comparator, a strict weak order, on
extracted keys. -/
structure Traits (K V : Type) where
  less : K → K → Bool
  extractKey : V → K
  allowDuplicates : Bool
  less_irrefl : ∀ a, less a a = false
  less_trans : ∀ a b c, less a b = true → less b c = true → less a c = true
  less_split : ∀ a b c, less a c = true → less a b = true ∨ less b c = true

def Traits.valueLess {K V : Type} (traits : Traits K V) (l r : V) : Bool :=
  traits.less (traits.extractKey l) (traits.extractKey r)

/-- The members of `class RedBlackTree`, with the heap of live nodes. -/
structure State (V : Type) where
  nodes : Nat → Option (ValueNode V)
  root : NodePtr
  superLeft : NodePtr
  superRight : NodePtr
  size : Nat

def State.empty (V : Type) : State V where
  nodes := fun _ => none
  root := .null
  superLeft := .null
  superRight := .null
  size := 0

namespace State

variable {K V : Type} (traits : Traits K V) (t : State V)

/-! ### Memory -/

/-- The node a pointer refers to, where the access needs a whole `ValueNode`. -/
def read : NodePtr → Run (ValueNode V)
  | .node address =>
    match t.nodes address with
    | some n => .ok n
    | none => .error .badPointer
  | _ => .error .badPointer

def write : NodePtr → ValueNode V → Run (State V)
  | .node address, n =>
    if (t.nodes address).isSome then
      .ok { t with nodes := Function.update t.nodes address (some n) }
    else .error .badPointer
  | _, _ => .error .badPointer

/-- `node->parent`; the super root has the three links but is not a `ValueNode`. -/
def parent : NodePtr → Run NodePtr
  | .superRoot => .ok .null
  | p => do return (← t.read p).parent

def child (d : Side) : NodePtr → Run NodePtr
  | .superRoot => .ok (if d = .left then t.superLeft else t.superRight)
  | p => do return (← t.read p).child d

def left (p : NodePtr) : Run NodePtr := t.child .left p

def right (p : NodePtr) : Run NodePtr := t.child .right p

def color (p : NodePtr) : Run Color := do return (← t.read p).color

def value (p : NodePtr) : Run V := do return (← t.read p).value

def setParent (p q : NodePtr) : Run (State V) := do t.write p { (← t.read p) with parent := q }

def setChild (d : Side) (p q : NodePtr) : Run (State V) := do
  t.write p ((← t.read p).setChild d q)

def setLeft (p q : NodePtr) : Run (State V) := t.setChild .left p q

def setRight (p q : NodePtr) : Run (State V) := t.setChild .right p q

def setColor (p : NodePtr) (c : Color) : Run (State V) := do
  t.write p { (← t.read p) with color := c }

def setParentIfAny (p q : NodePtr) : Run (State V) := if p = .null then .ok t else t.setParent p q

def delete : NodePtr → Run (State V)
  | .node address => do
    let _ ← t.read (.node address)
    return { t with nodes := Function.update t.nodes address none }
  | _ => .error .badPointer

def fuel : Nat := t.size + 4

/-! ### Node predicates -/

def isNull (p : NodePtr) : Run Bool := do return (← t.parent p) == .null

def isLeftChild (p : NodePtr) : Run Bool := do
  let parent ← t.parent p
  if parent = .null then pure true
  else if ← t.isNull parent then pure true
  else pure ((← t.left parent) == p)

def isRightChild (p : NodePtr) : Run Bool := do return !(← t.isLeftChild p)

def isChildOn (d : Side) (p : NodePtr) : Run Bool :=
  match d with
  | .left => t.isLeftChild p
  | .right => t.isRightChild p

def grandparent (p : NodePtr) : Run NodePtr := do
  let parent ← t.parent p
  if parent = .null then pure .null
  else if ← t.isNull parent then pure .null
  else t.parent parent

def aunt (p : NodePtr) : Run NodePtr := do
  let grandparent ← t.grandparent p
  if grandparent = .null then pure .null
  else
    let parent ← t.parent p
    assert (parent != .null) "parent != nullptr"
    if ← t.isLeftChild parent then t.right grandparent else t.left grandparent

/-- The colour a pointer stands for: a null leaf is black. -/
def colorOf : NodePtr → Run Color
  | .null => .ok .black
  | p => t.color p

def leftChildColor (p : NodePtr) : Run Color := do t.colorOf (← t.left p)

def rightChildColor (p : NodePtr) : Run Color := do t.colorOf (← t.right p)

def isAuntRed (p : NodePtr) : Run Bool := do return (← t.colorOf (← t.aunt p)) == .red

inductive Position where
  | leftLeft
  | leftRight
  | rightLeft
  | rightRight

def positionWithRespectToGrandparent (p : NodePtr) : Run Position := do
  let leftChild ← t.isLeftChild p
  let parent ← t.parent p
  assert (parent != .null) "parent != nullptr"
  if ← t.isLeftChild parent then pure (if leftChild then .leftLeft else .leftRight)
  else pure (if leftChild then .rightLeft else .rightRight)

def sibling (p : NodePtr) : Run NodePtr := do
  let parent ← t.parent p
  assert (parent != .null) "parent != nullptr"
  if ← t.isLeftChild p then t.right parent else t.left parent

/-! ### In-order neighbours -/

/-- `while (node->left) node = node->left;`, and the same to the right. -/
def endFrom (d : Side) : Nat → NodePtr → Run NodePtr
  | 0, _ => .error .outOfFuel
  | fuel + 1, node => do
    let next ← t.child d node
    if next = .null then pure node else endFrom d fuel next

/-- `while (!parent->is_null() && node->is_right_child())` climb, and the same for the left. -/
def climb (d : Side) : Nat → NodePtr → NodePtr → Run NodePtr
  | 0, _, _ => .error .outOfFuel
  | fuel + 1, node, parent => do
    if ← t.isNull parent then pure parent
    else if ← t.isChildOn d node then climb d fuel parent (← t.parent parent)
    else pure parent

def inorderNeighborOf (d : Side) (node : NodePtr) : Run NodePtr := do
  assert (node != .null) "node != nullptr"
  assert (!(← t.isNull node)) "!node->is_null()"
  let next ← t.child d node
  if next = .null then t.climb d t.fuel node (← t.parent node)
  else t.endFrom d.other t.fuel next

def inorderSuccessorOf (node : NodePtr) : Run NodePtr := t.inorderNeighborOf .right node

def inorderPredecessorOf (node : NodePtr) : Run NodePtr := t.inorderNeighborOf .left node

def increment (node : NodePtr) : Run NodePtr := do
  assert (node != .null && !(← t.isNull node)) "m_node && !m_node->is_null()"
  t.inorderSuccessorOf node

/-- `ConstTreeIterator::operator--`; below `end()` is the cached right end. -/
def decrement (node : NodePtr) : Run NodePtr := do
  assert (node != .null) "m_node != nullptr"
  if ← t.isNull node then t.right node else t.inorderPredecessorOf node

def leftMostNode : NodePtr := if t.size = 0 then .superRoot else t.superLeft

def rightMostNode : NodePtr := if t.size = 0 then .superRoot else t.superRight

/-! ### Rotations -/

/-- The link from above: the parent's child pointer, or the root pointer. -/
def relink (parent node child : NodePtr) : Run (State V) := do
  if parent ≠ .superRoot then
    if ← t.isLeftChild node then t.setLeft parent child else t.setRight parent child
  else pure { t with root := child }

/-- A rotation that takes `node` down to the given side and its other child up. -/
def rotate (d : Side) (node : NodePtr) : Run (State V) := do
  assert (node != .null) "node != nullptr"
  assert (!(← t.isNull node)) "!node->is_null()"
  let parent ← t.parent node
  let rising ← t.child d.other node
  let t ← t.setChild d.other node (← t.child d rising)
  let t ← t.setParentIfAny (← t.child d.other node) node
  let t ← t.setParent rising parent
  let t ← t.relink parent node rising
  let t ← t.setChild d rising node
  t.setParent node rising

def rotateLeft (node : NodePtr) : Run (State V) := t.rotate .left node

def rotateRight (node : NodePtr) : Run (State V) := t.rotate .right node

/-! ### Insertion -/

/-- The `LEFT_LEFT` and `RIGHT_RIGHT` arms of the switch: recolour, then rotate the grandparent. -/
def fixOuter (node grandparent : NodePtr) : Run (State V) := do
  let t ← t.setColor grandparent .red
  let t ← t.setColor (← t.parent node) .black
  t.setColor node .red

/-- The switch of `fix_insertion_violations_if_needed`, taken when the aunt is black. -/
def fixBlackAunt (node grandparent : NodePtr) : Run (State V) := do
  match ← t.positionWithRespectToGrandparent node with
  | .leftRight => do
    let t ← t.rotateLeft (← t.parent node)
    let node ← t.left node
    let t ← t.fixOuter node grandparent
    t.rotateRight grandparent
  | .leftLeft => do
    let t ← t.fixOuter node grandparent
    t.rotateRight grandparent
  | .rightLeft => do
    let t ← t.rotateRight (← t.parent node)
    let node ← t.right node
    let t ← t.fixOuter node grandparent
    t.rotateLeft grandparent
  | .rightRight => do
    let t ← t.fixOuter node grandparent
    t.rotateLeft grandparent

/-- The recolouring of `fix_insertion_violations_if_needed`, taken when the aunt is red. -/
def fixRedAunt (grandparent : NodePtr) : Run (State V) := do
  assert (grandparent != .null) "grandparent != nullptr"
  let t ← (if grandparent ≠ t.root then t.setColor grandparent .red else pure t)
  let t ← t.setColor (← t.left grandparent) .black
  t.setColor (← t.right grandparent) .black

def fixInsertionLoop : Nat → State V → NodePtr → Run (State V)
  | 0, _, _ => .error .outOfFuel
  | fuel + 1, t, node => do
    if ← t.isNull node then pure t
    else if node = t.root then pure t
    else if (← t.color (← t.parent node)) = .black then pure t
    else if (← t.color node) = .black then pure t
    else
      let grandparent ← t.grandparent node
      let auntRed ← t.isAuntRed node
      let t ← (if auntRed then t.fixRedAunt grandparent else t.fixBlackAunt node grandparent)
      assert (grandparent != .null) "node != nullptr"
      fixInsertionLoop fuel t grandparent

def fixInsertionViolationsIfNeeded (node : NodePtr) : Run (State V) := do
  assert (node != .null) "node != nullptr"
  assert (!(← t.isNull node)) "!node->is_null()"
  fixInsertionLoop t.fuel t node

def findLoop (key : K) : Nat → NodePtr → Run NodePtr
  | 0, _ => .error .outOfFuel
  | fuel + 1, current =>
    if current = .null then .ok .superRoot
    else do
      let currentKey := traits.extractKey (← t.value current)
      if traits.less currentKey key then findLoop key fuel (← t.right current)
      else if traits.less key currentKey then findLoop key fuel (← t.left current)
      else pure current

def findNode (key : K) : Run NodePtr := if t.size = 0 then .ok .superRoot else t.findLoop traits key t.fuel t.root

/-- The loop of `lower_bound_node`. The result is the last node that was not less than the key. -/
def lowerBoundLoop (key : K) : Nat → (node result : NodePtr) → Run NodePtr
  | 0, _, _ => .error .outOfFuel
  | fuel + 1, node, result =>
    if node = .null then .ok result
    else do
      if traits.less (traits.extractKey (← t.value node)) key then
        lowerBoundLoop key fuel (← t.right node) result
      else lowerBoundLoop key fuel (← t.left node) node

def lowerBoundNode (key : K) : Run NodePtr :=
  if t.size = 0 then .ok .superRoot else t.lowerBoundLoop traits key t.fuel t.root .superRoot

def isSmallerThanLeft (value : V) : Run Bool :=
  if t.superLeft = .null then .ok true
  else do return traits.valueLess value (← t.value t.superLeft)

def isGreaterThanRight (value : V) : Run Bool :=
  if t.superRight = .null then .ok true
  else do return traits.valueLess (← t.value t.superRight) value

/-- The part of `emplace` that keeps the cached ends, before the descent. -/
def updateEnds (newNode : NodePtr) (value : V) : Run (State V) := do
  let smallerThanLeft ← t.isSmallerThanLeft traits value
  let t := if smallerThanLeft then { t with superLeft := newNode } else t
  let greaterThanRight ← t.isGreaterThanRight traits value
  let t := if greaterThanRight then { t with superRight := newNode } else t
  if !smallerThanLeft && !greaterThanRight then
    let smallest ← t.value t.superLeft
    let t := if !traits.valueLess smallest value then { t with superLeft := newNode } else t
    let greatest ← t.value t.superRight
    pure (if !traits.valueLess value greatest then { t with superRight := newNode } else t)
  else pure t

/-- The descent of `emplace`: values equal to the new one are passed on their left. -/
def attachLoop (newNode : NodePtr) (value : V) : Nat → NodePtr → Run (State V)
  | 0, _ => .error .outOfFuel
  | fuel + 1, current => do
    if traits.valueLess (← t.value current) value then
      let right ← t.right current
      if right = .null then
        let t ← t.setRight current newNode
        t.setParent newNode current
      else attachLoop newNode value fuel right
    else
      let left ← t.left current
      if left = .null then
        let t ← t.setLeft current newNode
        t.setParent newNode current
      else attachLoop newNode value fuel left

/-- What `emplace` does once the value is known to be inserted. -/
def emplaceNew (address : Nat) (value : V) : Run (State V) := do
  let newNode : NodePtr := .node address
  let t := { t with nodes := Function.update t.nodes address (some { value := value }) }
  let t ← t.updateEnds traits newNode value
  if t.root = .null then
    let t := { t with root := newNode }
    let t ← t.setParent t.root .superRoot
    let t ← t.setColor t.root .black
    pure { t with size := 1 }
  else
    let t ← t.attachLoop traits newNode value t.fuel t.root
    let t ← t.fixInsertionViolationsIfNeeded newNode
    pure { t with size := t.size + 1 }

def emplace (address : Nat) (value : V) : Run (State V × NodePtr × Bool) := do
  if !traits.allowDuplicates then
    let location ← t.findNode traits (traits.extractKey value)
    if location ≠ .superRoot then pure (t, location, false)
    else pure (← t.emplaceNew traits address value, .node address, true)
  else pure (← t.emplaceNew traits address value, .node address, true)

/-! ### Removal -/

/-- The part of `swap_node_with_successor` for `successor_parent == node`. -/
def swapAdjacent (node successor : NodePtr) : Run (State V) := do
  let nodeParent ← t.parent node
  let nodeRight ← t.right node
  let nodeLeft ← t.left node
  let nodeColor ← t.color node
  let nodeIsLeftChild ← t.isLeftChild node
  let successorRight ← t.right successor
  let successorLeft ← t.left successor
  let successorColor ← t.color successor
  let successorIsLeftChild ← t.isLeftChild successor
  let n ← t.read node
  let t ← t.write node { n with
    parent := successor, right := successorRight, left := successorLeft, color := successorColor }
  let m ← t.read successor
  let t ← t.write successor { m with
    parent := nodeParent
    right := if successorIsLeftChild then nodeRight else node
    left := if successorIsLeftChild then node else nodeLeft
    color := nodeColor }
  let t ← t.setParentIfAny successorRight node
  let t ← (if node ≠ t.root then
      if nodeIsLeftChild then t.setLeft nodeParent successor else t.setRight nodeParent successor
    else pure t)
  t.setParentIfAny nodeLeft successor

/-- The part of `swap_node_with_successor` for `node->parent == successor`. -/
def swapReversed (node successor : NodePtr) : Run (State V) := do
  let nodeRight ← t.right node
  let nodeLeft ← t.left node
  let nodeColor ← t.color node
  let nodeIsLeftChild ← t.isLeftChild node
  let successorParent ← t.parent successor
  let successorRight ← t.right successor
  let successorLeft ← t.left successor
  let successorColor ← t.color successor
  let successorIsLeftChild ← t.isLeftChild successor
  let n ← t.read node
  let t ← t.write node { n with
    parent := successorParent
    right := if nodeIsLeftChild then successorRight else successor
    left := if nodeIsLeftChild then successor else successorLeft
    color := successorColor }
  let m ← t.read successor
  let t ← t.write successor { m with
    parent := node, right := nodeRight, left := nodeLeft, color := nodeColor }
  let t ← t.setParentIfAny nodeRight node
  let t ← t.setParentIfAny nodeLeft node
  let t ← (if successor ≠ t.root then
      if successorIsLeftChild then t.setLeft successorParent node
      else t.setRight successorParent node
    else pure t)
  t.setParentIfAny successorLeft node

/-- The part of `swap_node_with_successor` for two nodes that are not parent and child. -/
def swapDistant (node successor : NodePtr) : Run (State V) := do
  let nodeParent ← t.parent node
  let nodeRight ← t.right node
  let nodeLeft ← t.left node
  let nodeColor ← t.color node
  let nodeIsLeftChild ← t.isLeftChild node
  let successorParent ← t.parent successor
  let successorRight ← t.right successor
  let successorLeft ← t.left successor
  let successorColor ← t.color successor
  let successorIsLeftChild ← t.isLeftChild successor
  let n ← t.read node
  let t ← t.write node { n with
    parent := successorParent, right := successorRight, left := successorLeft
    color := successorColor }
  let m ← t.read successor
  let t ← t.write successor { m with
    parent := nodeParent, right := nodeRight, left := nodeLeft, color := nodeColor }
  let t ← t.setParentIfAny successorRight node
  let t ← (if successorIsLeftChild then t.setLeft successorParent node
    else t.setRight successorParent node)
  let t ← t.setParentIfAny nodeRight successor
  let t ← t.setParentIfAny nodeLeft successor
  if node ≠ t.root then
    if nodeIsLeftChild then t.setLeft nodeParent successor else t.setRight nodeParent successor
  else pure t

def swapNodeWithSuccessor (node successor : NodePtr) : Run (State V) := do
  assert (node != .null) "node != nullptr"
  assert (!(← t.isNull node)) "!node->is_null()"
  assert (successor != .null) "successor != nullptr"
  assert (!(← t.isNull successor)) "!successor->is_null()"
  let nodeParent ← t.parent node
  let successorParent ← t.parent successor
  let t ← (if successorParent = node then t.swapAdjacent node successor
    else if nodeParent = successor then t.swapReversed node successor
    else t.swapDistant node successor)
  pure (if node = t.root then { t with root := successor } else t)

def fixDoubleBlack : Nat → State V → NodePtr → Run (State V)
  | 0, _, _ => .error .outOfFuel
  | fuel + 1, t, node => do
    assert (node != .null) "node != nullptr"
    assert (!(← t.isNull node)) "!node->is_null()"
    -- case 1
    if node = t.root then t.setColor node .black
    else do
    let parent ← t.parent node
    assert (parent != .null) "node->parent != nullptr"
    let sibling ← t.sibling node
    let siblingColor ← t.colorOf sibling
    let siblingLeftChildColor ← (if sibling = .null then pure .black
      else t.leftChildColor sibling)
    let siblingRightChildColor ← (if sibling = .null then pure .black
      else t.rightChildColor sibling)
    let parentColor ← t.color parent
    let isLeftChild ← t.isLeftChild node
    -- case 2
    if parentColor = .black ∧ siblingColor = .red ∧ siblingLeftChildColor = .black ∧
        siblingRightChildColor = .black then do
      let t ← t.setColor parent .red
      let t ← t.setColor sibling .black
      let t ← (if isLeftChild then t.rotateLeft parent else t.rotateRight parent)
      fixDoubleBlack fuel t node
    -- case 3
    else if parentColor = .black ∧ siblingColor = .black ∧ siblingLeftChildColor = .black ∧
        siblingRightChildColor = .black then do
      let t ← (if sibling = .null then pure t else t.setColor sibling .red)
      let t ← t.setColor node .black
      fixDoubleBlack fuel t parent
    -- case 4
    else if parentColor = .red ∧ siblingColor = .black ∧ siblingLeftChildColor = .black ∧
        siblingRightChildColor = .black then do
      let t ← t.setColor parent .black
      let t ← (if sibling = .null then pure t else t.setColor sibling .red)
      t.setColor node .black
    -- case 5, node on the left
    else if isLeftChild ∧ siblingColor = .black ∧ siblingLeftChildColor = .red ∧
        siblingRightChildColor = .black then do
      let t ← t.setColor sibling .red
      let t ← t.setColor (← t.left sibling) .black
      let t ← t.rotateRight sibling
      fixDoubleBlack fuel t node
    -- case 5, node on the right
    else if ¬ isLeftChild ∧ siblingColor = .black ∧ siblingLeftChildColor = .black ∧
        siblingRightChildColor = .red then do
      let t ← t.setColor sibling .red
      let t ← t.setColor (← t.right sibling) .black
      let t ← t.rotateLeft sibling
      fixDoubleBlack fuel t node
    -- case 6, node on the left
    else if isLeftChild ∧ siblingColor = .black ∧ siblingRightChildColor = .red then do
      let t ← t.setColor sibling (← t.color parent)
      let t ← t.setColor parent .black
      let t ← t.setColor (← t.right sibling) .black
      let t ← t.setColor node .black
      t.rotateLeft parent
    -- case 6, node on the right
    else if ¬ isLeftChild ∧ siblingColor = .black ∧ siblingLeftChildColor = .red then do
      let t ← t.setColor sibling (← t.color parent)
      let t ← t.setColor parent .black
      let t ← t.setColor (← t.left sibling) .black
      let t ← t.setColor node .black
      t.rotateRight parent
    else .error (.assertion "!\"Bug! Couldn't match a case for node :(\"")

def fixRemovalViolationsIfNeeded (child : NodePtr) (deletedNodeColor : Color) : Run (State V) := do
  let childColor ← t.colorOf child
  if childColor = .red ∨ deletedNodeColor = .red then
    if child = .null then pure t else t.setColor child .black
  else fixDoubleBlack t.fuel t child

/-- The branch of `remove_node` for a node with at most one child. -/
def removeShallow (node child : NodePtr) : Run (State V) := do
  if node = t.root then
    let t ← t.delete node
    let t := { t with root := child }
    if child = .null then pure { t with size := 0 }
    else
      let t ← t.setParent child .superRoot
      let t ← t.setColor child .black
      pure { t with size := 1 }
  else
    let parent ← t.parent node
    let color ← t.color node
    let isLeftChild ← t.isLeftChild node
    if child = .null then
      -- the node stays linked as a black null leaf until the violations are fixed
      let t ← t.setColor node .black
      let t := { t with size := t.size - 1 }
      let t ← t.fixRemovalViolationsIfNeeded node color
      let parent ← t.parent node
      let isLeftChild ← t.isLeftChild node
      let t ← (if isLeftChild then t.setLeft parent .null else t.setRight parent .null)
      t.delete node
    else
      let t ← (if isLeftChild then t.setLeft parent child else t.setRight parent child)
      let t ← t.setParent child parent
      let t ← t.delete node
      let t := { t with size := t.size - 1 }
      t.fixRemovalViolationsIfNeeded child color

/-- `remove_node`. The recursive call, on a node swapped with its successor, has no left child, so
two levels are all there ever are. -/
def removeNode : Nat → State V → NodePtr → Run (State V)
  | 0, _, _ => .error .outOfFuel
  | fuel + 1, t, node => do
    if node = .null then pure t
    else
      assert (!(← t.isNull node)) "!node->is_null()"
      let left ← t.left node
      let right ← t.right node
      if left ≠ .null ∧ right ≠ .null then
        let t ← t.swapNodeWithSuccessor node (← t.inorderSuccessorOf node)
        removeNode fuel t node
      else t.removeShallow node (if left = .null then right else left)

/-- The part of `remove(ConstIterator)` that keeps the cached ends, before the removal. -/
def retractEnds (node : NodePtr) : Run (State V) := do
  if node = t.root ∧ t.size = 1 then pure { t with superLeft := .null, superRight := .null }
  else if node = t.leftMostNode then
    let successor ← t.inorderSuccessorOf node
    pure { t with superLeft := successor }
  else if node = t.rightMostNode then
    let predecessor ← t.inorderPredecessorOf node
    pure { t with superRight := predecessor }
  else pure t

def removeIterator (node : NodePtr) : Run (State V) := do
  assert (node != .null && node != .superRoot) "node && node != super_root_as_value_node()"
  let t ← t.retractEnds node
  removeNode t.fuel t node

def removeKey (key : K) : Run (State V) := do
  let node ← t.findNode traits key
  if node = .superRoot then pure t else t.removeIterator node

end State

end UltraOS.RedBlackTree
