import Mathlib.Data.Rat.Floor

/-! # The layout of a forest

`web-portal/src/utils/treeLayout.js` with rationals in place of floating-point numbers. A path is
kept as its strokes, not as their text.
-/

namespace SpecterComs.TreeLayout

structure Options where
  siblingGap : ℚ := 16
  subtreeGap : ℚ := 24
  levelGap : ℚ := 48
  stub : ℚ := 14
  deriving DecidableEq, Repr

structure Size where
  w : ℚ
  h : ℚ
  deriving DecidableEq, Repr

/-- The left and the right contour of a subtree in one row. -/
structure Row where
  left : ℚ
  right : ℚ
  deriving DecidableEq, Repr

/-- The contours of a subtree: row 0 is its own box, and below it is a row for each deeper level. -/
structure Contour where
  top : Row
  lower : List Row
  deriving DecidableEq, Repr

def Contour.rows (c : Contour) : List Row :=
  c.top :: c.lower

def Row.shift (offset : ℚ) (r : Row) : Row where
  left := offset + r.left
  right := offset + r.right

structure Sub (Id : Type) where
  id : Id
  subs : List (Sub Id)
  offsets : List ℚ
  contour : Contour

variable {Id : Type}

/-! ## Siblings -/

/-- The rooms that the rows of two contours ask for, where those have the same depth. -/
def needs (gap : ℚ) (a b : List Row) : List ℚ :=
  List.zipWith (fun ra rb => ra.right - rb.left + gap) a b

def separation (a b : Contour) (opt : Options) : ℚ :=
  (needs opt.subtreeGap a.lower b.lower).foldl max (a.top.right - b.top.left + opt.siblingGap)

/-- The push of subtree `i` by subtree `j`, spread over those in between. -/
def spread (pos : List ℚ) (j i : ℕ) (push : ℚ) : List ℚ :=
  pos.mapIdx fun k p =>
    if k = i then p + push
    else if j < k ∧ k < i then p + push * (k - j) / (i - j)
    else p

/-- The clashes of subtree `i` with the first `j` ones, from the right to the left. -/
def clear (need : ℕ → ℕ → ℚ) (i : ℕ) : ℕ → List ℚ → List ℚ
  | 0, pos => pos
  | j + 1, pos =>
      let push := pos.getD j 0 + need j i - pos.getD i 0
      clear need i j (if 0 < push then spread pos j i push else pos)

def placeNext (need : ℕ → ℕ → ℚ) (pos : List ℚ) (i : ℕ) : List ℚ :=
  clear need i (i - 1) (pos ++ [pos.getD (i - 1) 0 + need (i - 1) i])

/-- What subtree `i` needs from subtree `j`. Both are always there. -/
def needBetween (subs : List (Sub Id)) (opt : Options) (j i : ℕ) : ℚ :=
  match subs[j]?, subs[i]? with
  | some a, some b => separation a.contour b.contour opt
  | _, _ => 0

def placeSiblings (subs : List (Sub Id)) (opt : Options) : List ℚ :=
  (List.range' 1 (subs.length - 1)).foldl (placeNext (needBetween subs opt)) [0]

/-! ## Subtrees -/

def mergeRows : List Row → List Row → List Row
  | [], rows => rows
  | rows, [] => rows
  | a :: as, b :: bs =>
      { left := if b.left < a.left then b.left else a.left
        right := if b.right > a.right then b.right else a.right } :: mergeRows as bs

/-- The rows from 1 on of the contours of the parent. -/
def mergeContours (subs : List (Sub Id)) (offsets : List ℚ) : List Row :=
  (subs.zip offsets).foldl
    (fun rows s => mergeRows rows (s.1.contour.rows.map (Row.shift s.2))) []

def centred (pos : List ℚ) : List ℚ :=
  let mid := (pos.getD 0 0 + pos.getD (pos.length - 1) 0) / 2
  pos.map fun p => p - mid

/-- A node once the subtrees of its children are laid out. -/
def parentSub (sizeOf : Id → Size) (opt : Options) (id : Id) (subs : List (Sub Id)) : Sub Id :=
  let w := (sizeOf id).w
  let offsets := if subs.isEmpty then [] else centred (placeSiblings subs opt)
  { id := id
    subs := subs
    offsets := offsets
    contour := { top := { left := -w / 2, right := w / 2 }, lower := mergeContours subs offsets } }

/-- An error that is thrown, or a recursion that goes deeper than the model follows it. -/
inductive Halt
  | error (message : String)
  | deep
  deriving DecidableEq, Repr

variable [DecidableEq Id] [ToString Id]

/-- The subtree of a node, and the nodes seen with it in `seen`. -/
def layoutSubtree (childrenOf : Id → List Id) (sizeOf : Id → Size) (opt : Options) :
    ℕ → Id → StateT (List Id) (Except Halt) (Sub Id)
  | 0, _ => throw .deep
  | depth + 1, id => do
      if id ∈ (← get) then
        throw (.error s!"treeLayout: cycle at node {id}")
      modify (id :: ·)
      let subs ← (childrenOf id).mapM (layoutSubtree childrenOf sizeOf opt depth)
      return parentSub sizeOf opt id subs

/-! ## The forest -/

structure Placed (Id : Type) where
  id : Id
  cx : ℚ
  depth : ℕ
  deriving DecidableEq, Repr

mutual

def walk : Sub Id → ℚ → ℕ → List (Placed Id)
  | ⟨id, subs, offsets, _⟩, cx, depth => ⟨id, cx, depth⟩ :: walkAll subs offsets cx (depth + 1)

def walkAll : List (Sub Id) → List ℚ → ℚ → ℕ → List (Placed Id)
  | s :: subs, offset :: offsets, cx, depth =>
      walk s (cx + offset) depth ++ walkAll subs offsets cx depth
  | _, _, _, _ => []

end

structure Node (Id : Type) where
  id : Id
  depth : ℕ
  w : ℚ
  h : ℚ
  cx : ℚ
  x : ℤ
  y : ℚ
  deriving DecidableEq, Repr

/-- A command of a connector: a move, a vertical or a horizontal line. -/
inductive Stroke
  | M (x : ℤ) (y : ℚ)
  | V (y : ℚ)
  | H (x : ℤ)
  deriving DecidableEq, Repr

structure Layout (Id : Type) where
  nodes : List (Node Id)
  byId : Id → Option (Node Id)
  width : ℤ
  height : ℚ
  paths : List (List Stroke)

/-- `Math.round`: halves go up. -/
def round (q : ℚ) : ℤ :=
  ⌊q + 1 / 2⌋

/-- The height of the rows with another box. -/
def raiseRow (sizeOf : Id → Size) (rowH : List ℚ) (p : Placed Id) : List ℚ :=
  let h := (sizeOf p.id).h
  if p.depth < rowH.length then rowH.set p.depth (max (rowH.getD p.depth 0) h)
  else rowH ++ [max 0 h]

/-- The tops of the rows, and of one more. -/
def rowTops (opt : Options) (topPad : ℚ) (rowH : List ℚ) : List ℚ :=
  rowH.scanl (fun top h => top + h + opt.levelGap) topPad

/-- A map that is filled with the nodes in their order. -/
def lookup (nodes : List (Node Id)) (id : Id) : Option (Node Id) :=
  nodes.reverse.find? fun n => n.id = id

/-- The connectors from a parent, or from the rail over the roots. -/
def family (parent : Option (ℤ × ℚ)) (railY : ℚ) (kids : List (Node Id)) : List Stroke :=
  let xs := kids.map fun k => round k.cx
  let rail := [.M (xs.min?.getD 0) railY, .H (xs.max?.getD 0)]
  let start :=
    match parent with
    | none => rail
    | some (parentX, parentBottom) =>
        [.M parentX parentBottom, .V railY] ++
          if 1 < kids.length then rail
          else if xs.head? = some parentX then [] else xs.head?.toList.map .H
  start ++ kids.flatMap fun k => [.M (round k.cx) railY, .V k.y]

/-- The nodes of a map. A property of one that is not there cannot be read. -/
def getAll (byId : Id → Option (Node Id)) (ids : List Id) : Except Halt (List (Node Id)) :=
  ids.mapM fun id =>
    match byId id with
    | some n => .ok n
    | none => .error (.error "Cannot read properties of undefined (reading 'cx')")

def connectors (roots : List Id) (childrenOf : Id → List Id) (opt : Options) (topPad : ℚ)
    (rowTop : List ℚ) (nodes : List (Node Id)) : Except Halt (List (List Stroke)) := do
  let byId := lookup nodes
  let top ←
    if 1 < roots.length then do
      let kids ← getAll byId roots
      pure [family none (topPad - opt.stub) kids]
    else pure []
  let paths ← (nodes.filter fun n => !(childrenOf n.id).isEmpty).mapM fun n => do
    let kids ← getAll byId (childrenOf n.id)
    pure (family (some (round n.cx, n.y + n.h)) (rowTop.getD (n.depth + 1) 0 - opt.stub) kids)
  return top ++ paths

/-- The node of a box once the leftmost edge is at 0. -/
def nodeOf (sizeOf : Id → Size) (rowTop : List ℚ) (minX : ℚ) (p : Placed Id) : Node Id :=
  let w := (sizeOf p.id).w
  let cx := p.cx - minX
  { id := p.id, depth := p.depth, w := w, h := (sizeOf p.id).h, cx := cx,
    x := round (cx - w / 2), y := rowTop.getD p.depth 0 }

/-- The layout from the boxes of the walk on. -/
def arrange (roots : List Id) (childrenOf : Id → List Id) (sizeOf : Id → Size) (opt : Options)
    (placed : List (Placed Id)) : Except Halt (Layout Id) := do
  let rowH := placed.foldl (raiseRow sizeOf) []
  let topPad := if 1 < roots.length then opt.stub + 2 else 0
  let rowTop := rowTops opt topPad rowH
  let minX := (placed.map fun p => p.cx - (sizeOf p.id).w / 2).min?.getD 0
  let maxX := (placed.map fun p => p.cx + (sizeOf p.id).w / 2).max?.getD 0
  let nodes := placed.map (nodeOf sizeOf rowTop minX)
  let paths ← connectors roots childrenOf opt topPad rowTop nodes
  let height :=
    if rowH.isEmpty then 0 else rowTop.getD (rowH.length - 1) 0 + rowH.getD (rowH.length - 1) 0
  return { nodes := nodes, byId := lookup nodes, width := ⌈maxX - minX⌉, height := height,
           paths := paths }

def layoutTree (depth : ℕ) (roots : List Id) (childrenOf : Id → List Id) (sizeOf : Id → Size)
    (opt : Options) : Except Halt (Layout Id) := do
  let (rootSubs, _) ← (roots.mapM (layoutSubtree childrenOf sizeOf opt depth)).run []
  let rootPos := if rootSubs.isEmpty then [] else placeSiblings rootSubs opt
  arrange roots childrenOf sizeOf opt (walkAll rootSubs rootPos 0 0)

/-! ## The check -/

/-- `toFixed(1)`. -/
def toFixed (q : ℚ) : String :=
  let n := ⌊|q| * 10 + 1 / 2⌋
  (if q < 0 then "-" else "") ++ toString (n / 10) ++ "." ++ toString (n % 10)

/-- The room between two boxes. -/
def gapBetween (a b : Node Id) : ℚ :=
  (b.cx - b.w / 2) - (a.cx + a.w / 2)

def rowProblems (minGap : ℚ) (depth : ℕ) (row : List (Node Id)) : List String :=
  let sorted := row.mergeSort fun a b => a.cx ≤ b.cx
  (sorted.consecutivePairs.filter fun p => gapBetween p.1 p.2 < minGap - 1 / 100).map fun p =>
    s!"depth {depth}: {p.1.id} and {p.2.id} only {toFixed (gapBetween p.1 p.2)}px apart"

def centreProblems (n : Node Id) (kids : List (Option (Node Id))) :
    Except Halt (List String) :=
  match kids.head?, kids.getLast? with
  | none, _ => .ok []
  | some (some first), some (some last) =>
      let mid := (first.cx + last.cx) / 2
      if |mid - n.cx| > 1 / 100 then
        .ok [s!"{n.id} centre {toFixed n.cx} ≠ child midpoint {toFixed mid}"]
      else .ok []
  | _, _ => .error (.error "Cannot read properties of undefined (reading 'cx')")

def checkTreeLayout (layout : Layout Id) (childrenOf : Id → List Id)
    (minGap : ℚ := ({} : Options).siblingGap) : Except Halt (List String) := do
  let depths := (layout.nodes.map Node.depth).eraseDups
  let apart := depths.flatMap fun d =>
    rowProblems minGap d (layout.nodes.filter fun n => n.depth = d)
  let centres ← layout.nodes.mapM fun n =>
    centreProblems n ((childrenOf n.id).map layout.byId)
  return apart ++ centres.flatten

end SpecterComs.TreeLayout
