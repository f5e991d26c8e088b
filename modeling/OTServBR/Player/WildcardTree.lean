import OTServBR.Lib.RoseTree

/-! # Names of players by their beginning

The names of the players online form a tree with a character at every branch. A
node is a break point when a name ends there. A search follows its query and
then the only child of each node, and takes the first node without children for
the end of a name; that works because a name that is removed takes along every
node that no other name needs.
-/

namespace OTServBR.Wildcard

/-- The character that leads to a node, and its break point. -/
structure Mark where
  ch : UInt8
  breakpoint : Bool

/-- The children are those of the map, in any order; the character of the root is not used. -/
abbrev WildcardTreeNode := RoseTree Mark

inductive ReturnValue
  | NOERROR
  | NAMEISTOOAMBIGUOUS
  | PLAYERWITHTHISNAMEISNOTONLINE
  deriving DecidableEq

namespace WildcardTreeNode

/-- The root of the names. -/
def root : WildcardTreeNode := .node ⟨0, false⟩ []

def getChild (n : WildcardTreeNode) (ch : UInt8) : Option WildcardTreeNode :=
  n.children.find? fun c => c.label.ch = ch

def setBreakpoint (n : WildcardTreeNode) (breakpoint : Bool) : WildcardTreeNode :=
  .node { n.label with breakpoint := breakpoint } n.children

/-- What happens to a child through its pointer. -/
def updateChild (n : WildcardTreeNode) (ch : UInt8) (f : WildcardTreeNode → WildcardTreeNode) :
    WildcardTreeNode :=
  .node n.label (n.children.map fun c => if c.label.ch = ch then f c else c)

def eraseChild (n : WildcardTreeNode) (ch : UInt8) : WildcardTreeNode :=
  .node n.label (n.children.filter fun c => c.label.ch ≠ ch)

def addChild (n : WildcardTreeNode) (ch : UInt8) (breakp : Bool) : WildcardTreeNode :=
  match n.getChild ch with
  | some child =>
    if breakp && !child.label.breakpoint then n.updateChild ch fun c => setBreakpoint c true
    else n
  | none => .node n.label (n.children ++ [.node ⟨ch, breakp⟩ []])

/-- For a text that is not empty. -/
def insert : List UInt8 → WildcardTreeNode → WildcardTreeNode
  | [], n => n
  | [ch], n => n.addChild ch true
  | ch :: str, n => (n.addChild ch false).updateChild ch (insert str)

/-- The way down to the end of the text and back up to the first node that stays; `none` when
the way down ends early. -/
def remove? : List UInt8 → WildcardTreeNode → Option WildcardTreeNode
  | [], n => some (setBreakpoint n false)
  | ch :: str, n =>
    match n.getChild ch with
    | none => none
    | some child =>
      match remove? str child with
      | none => none
      | some child =>
        if !child.children.isEmpty || child.label.breakpoint then
          some (n.updateChild ch fun _ => child)
        else some (n.eraseChild ch)

def remove (str : List UInt8) (n : WildcardTreeNode) : WildcardTreeNode := (remove? str n).getD n

/-- The first loop of a search. -/
def descend (n : WildcardTreeNode) : List UInt8 → Option WildcardTreeNode
  | [] => some n
  | pos :: query =>
    match n.getChild pos with
    | none => none
    | some child => descend child query

theorem descend_cons (n : WildcardTreeNode) (pos : UInt8) (query : List UInt8) :
    n.descend (pos :: query) = match n.getChild pos with
      | none => none
      | some child => child.descend query := rfl

/-- The second loop of a search. -/
def follow : WildcardTreeNode → List UInt8 → ReturnValue × List UInt8
  | .node _ [], result => (.NOERROR, result)
  | .node m [child], result =>
    if m.breakpoint then (.NAMEISTOOAMBIGUOUS, result)
    else follow child (result ++ [child.label.ch])
  | .node _ (_ :: _ :: _), result => (.NAMEISTOOAMBIGUOUS, result)

/-- What is returned, and the result where the search sets it. -/
def findOne (n : WildcardTreeNode) (query : List UInt8) : ReturnValue × List UInt8 :=
  match n.descend query with
  | none => (.PLAYERWITHTHISNAMEISNOTONLINE, [])
  | some n => n.follow query

end WildcardTreeNode

end OTServBR.Wildcard
