import OTServBR.Lib.TreeCode

/-! # Tree files

A file of items or of the map is an identifier and a tree of nodes. The parser
runs over the bytes once, with the nodes that are open on a stack, and leaves
in every node where its properties begin and end. They are unescaped only when
they are asked for.
-/

namespace OTServBR

namespace OTB

def ESCAPE : UInt8 := 0xFD
def START : UInt8 := 0xFE
def END : UInt8 := 0xFF

/-- What a node has besides its children. The iterators are offsets into the file. -/
structure NodeData where
  type : UInt8
  propsBegin : ℕ
  propsEnd : ℕ := 0
  deriving DecidableEq, Repr

abbrev Node := RoseTree NodeData

namespace Node

def setPropsEnd (it : ℕ) : Node → Node
  | .node d l => .node { d with propsEnd := it } l

/-- The properties end at the first child, or at the end of a node that has none. -/
def endProps (it : ℕ) (n : Node) : Node := if n.children = [] then n.setPropsEnd it else n

def emplaceBack (child : Node) : Node → Node
  | .node d l => .node d (l ++ [child])

variable {d : NodeData} {l : List Node} {it : ℕ} {child : Node}

@[simp] theorem endProps_leaf :
    endProps it (.node d []) = .node { d with propsEnd := it } [] := rfl

@[simp] theorem endProps_of_ne (h : l ≠ []) : endProps it (.node d l) = .node d l := if_neg h

@[simp] theorem emplaceBack_node : emplaceBack child (.node d l) = .node d (l ++ [child]) := rfl

end Node

/-- A pointer to a node of the tree, as the way down to it. -/
abbrev NodePtr := List ℕ

/-- The tree so far and the nodes that are open, the innermost first. -/
structure Parse where
  root : Node
  parseStack : List NodePtr

namespace Parse

variable (p : Parse) (it : ℕ)

/-- The case of `START`; it throws where no node is open. -/
def openNode (type : UInt8) : Option Parse :=
  match p.parseStack with
  | [] => none
  | currentNode :: _ =>
    let root := p.root.modify currentNode (Node.endProps it)
    let back := match root.get? currentNode with
      | some n => n.children.length
      | none => 0
    some
      { root := root.modify currentNode
          (Node.emplaceBack (.node { type, propsBegin := it + 2 } []))
        parseStack := (currentNode ++ [back]) :: p.parseStack }

/-- The case of `END`. -/
def closeNode : Option Parse :=
  match p.parseStack with
  | [] => none
  | currentNode :: parseStack =>
    some { root := p.root.modify currentNode (Node.endProps it), parseStack }

end Parse

/-- The loop over the bytes from an offset on. -/
def parseNodes : List UInt8 → ℕ → Parse → Option Parse
  | [], _, p => some p
  | byte :: rest, it, p =>
    if byte = START then
      match rest with
      | [] => none
      | type :: rest => (p.openNode it type).bind (parseNodes rest (it + 2))
    else if byte = END then (p.closeNode it).bind (parseNodes rest (it + 1))
    else if byte = ESCAPE then
      match rest with
      | [] => none
      | _ :: rest => parseNodes rest (it + 2) p
    else parseNodes rest (it + 1) p

abbrev Identifier := Vector UInt8 4

def wildcard : Identifier := #v[0, 0, 0, 0]

/-- The constructor of a loader: the contents it goes on with. -/
def load (fileContents : List UInt8) (acceptedIdentifier : Identifier) : Option (List UInt8) :=
  let fileIdentifier := fileContents.take 4
  if fileContents.length ≤ 7 then none
  else if fileIdentifier ≠ acceptedIdentifier.toList ∧ fileIdentifier ≠ wildcard.toList then none
  else some fileContents

/-- The tree of a file, or none where it throws. A loader has more bytes than the pattern here
asks for. -/
def parseTree (fileContents : List UInt8) : Option Node :=
  match fileContents.drop 4 with
  | byte :: type :: rest =>
    if byte ≠ START then none
    else
      (parseNodes rest 6 ⟨.node { type, propsBegin := 6 } [], [[]]⟩).bind fun p =>
        if p.parseStack = [] then some p.root else none
  | _ => none

/-- `copy_if` of the bytes that are not a mark of an escape. -/
def copyProps : Bool → List UInt8 → List UInt8
  | _, [] => []
  | lastEscaped, byte :: rest =>
    let lastEscaped := byte = ESCAPE && !lastEscaped
    if lastEscaped then copyProps lastEscaped rest else byte :: copyProps lastEscaped rest

def getProps (fileContents : List UInt8) (node : NodeData) : Option (List UInt8) :=
  let size := node.propsEnd - node.propsBegin
  if size = 0 then none
  else some (copyProps false ((fileContents.drop node.propsBegin).take size))

/-- The marks of the format. -/
def code : TreeCode UInt8 where
  start := START
  stop := END
  escape := ESCAPE
  start_ne_stop := by decide
  start_ne_escape := by decide
  stop_ne_escape := by decide

section Parse

variable {rest : List UInt8} {byte type : UInt8} {it : ℕ} {p q : Parse}

theorem parseNodes_start : parseNodes (START :: type :: rest) it p =
    (p.openNode it type).bind (parseNodes rest (it + 2)) := by
  simp [parseNodes]

theorem parseNodes_end : parseNodes (END :: rest) it p =
    (p.closeNode it).bind (parseNodes rest (it + 1)) := by
  have hne : END ≠ START := by decide
  cases rest <;> simp [parseNodes, hne]

theorem parseNodes_escape : parseNodes (ESCAPE :: byte :: rest) it p =
    parseNodes rest (it + 2) p := by
  have hstart : ESCAPE ≠ START := by decide
  have hend : ESCAPE ≠ END := by decide
  simp [parseNodes, hstart, hend]

theorem parseNodes_plain (h : ¬code.Special byte) : parseNodes (byte :: rest) it p =
    parseNodes rest (it + 1) p := by
  obtain ⟨hstart, hend, hescape⟩ : byte ≠ START ∧ byte ≠ END ∧ byte ≠ ESCAPE := by
    simpa [TreeCode.Special, code] using h
  cases rest <;> simp [parseNodes, hstart, hend, hescape]

/-! ## Any bytes -/

theorem Parse.length_openNode (h : p.openNode it type = some q) :
    ∃ d, p.parseStack.length = d + 1 ∧ q.parseStack.length = d + 2 := by
  unfold openNode at h
  split at h
  · cases h
  · next currentNode stack hstack =>
    cases h
    exact ⟨stack.length, by rw [hstack]; rfl, by rw [List.length_cons, hstack]; rfl⟩

theorem Parse.length_closeNode (h : p.closeNode it = some q) :
    p.parseStack.length = q.parseStack.length + 1 := by
  unfold closeNode at h
  split at h
  · cases h
  · next currentNode stack hstack =>
    cases h
    rw [hstack]
    rfl

/-- Where the loop gets through from some open nodes to none, as many marks close more than is
opened. -/
theorem closes_of_parseNodes (h : parseNodes rest it p = some q) (hq : q.parseStack = []) :
    TreeCode.Closes p.parseStack.length (code.marks rest) := by
  induction rest using code.induct generalizing it p with
  | nil =>
    obtain rfl := Option.some.inj h
    rw [hq]
    rfl
  | lone_start => simp [parseNodes, code] at h
  | start type rest ih =>
    rw [show code.start = START from rfl, parseNodes_start, Option.bind_eq_some_iff] at h
    obtain ⟨p', hopen, h⟩ := h
    obtain ⟨d, hp, hp'⟩ := Parse.length_openNode hopen
    rw [code.marks_start, hp]
    exact (hp' ▸ ih h).opens
  | stop rest ih =>
    rw [show code.stop = END from rfl, parseNodes_end, Option.bind_eq_some_iff] at h
    obtain ⟨p', hclose, h⟩ := h
    rw [code.marks_stop, Parse.length_closeNode hclose]
    exact (ih h).closes
  | lone_escape => 
    have hstart : ESCAPE ≠ START := by decide
    have hend : ESCAPE ≠ END := by decide
    simp [parseNodes, code, hstart, hend] at h
  | escape byte rest ih =>
    rw [show code.escape = ESCAPE from rfl, parseNodes_escape] at h
    rw [code.marks_escape]
    exact ih h
  | plain byte rest hplain ih =>
    rw [parseNodes_plain hplain] at h
    rw [code.marks_plain hplain]
    exact ih h

theorem parseTree_matched {fileContents : List UInt8} {root : Node}
    (h : parseTree fileContents = some root) :
    ∃ u, TreeCode.Matched u ∧
      code.marks (fileContents.drop 4) = .opens :: (u ++ [.closes]) := by
  unfold parseTree at h
  split at h
  · next byte type rest hdrop =>
    split_ifs at h with hbyte
    · rw [not_not] at hbyte
      rw [Option.bind_eq_some_iff] at h
      obtain ⟨p, hp, h⟩ := h
      split_ifs at h with hstack
      obtain ⟨u, hu, hmarks⟩ := TreeCode.closes_one_iff.mp (closes_of_parseNodes hp hstack)
      refine ⟨u, hu, ?_⟩
      rw [hdrop, hbyte, show START = code.start from rfl, code.marks_start, hmarks]
  · cases h

/-! ## The pointers on the stack -/

theorem get?_back (n c : Node) :
    RoseTree.get? [n.children.length] (Node.emplaceBack c n) = some c := by
  cases n with
  | node d l => simp [RoseTree.get?]

/-- The pointers lead to nodes, each from above the one before it. So none of them leads into the
vector of children that grows, which is the one of the innermost node. -/
structure Parse.Sound (p : Parse) : Prop where
  above : p.parseStack.Pairwise fun q r => ∃ s, s ≠ [] ∧ q = r ++ s
  found : ∀ q ∈ p.parseStack, (p.root.get? q).isSome

/-- A change at a node leaves the nodes above it where they are. -/
theorem isSome_get?_modify {root : Node} {q s : NodePtr} {f : Node → Node}
    (h : (root.get? q).isSome) : ((root.modify (q ++ s) f).get? q).isSome := by
  rw [RoseTree.modify_append, RoseTree.get?_modify, Option.isSome_map]
  exact h

theorem Parse.Sound.closeNode (hp : p.Sound) (h : p.closeNode it = some q) : q.Sound := by
  unfold Parse.closeNode at h
  split at h
  · cases h
  · next currentNode stack hstack =>
    cases h
    obtain ⟨habove, hfound⟩ := hp
    rw [hstack, List.pairwise_cons] at habove
    refine ⟨habove.2, fun q hq => ?_⟩
    obtain ⟨s, -, rfl⟩ := habove.1 q hq
    exact isSome_get?_modify (hfound q (by rw [hstack]; exact List.mem_cons_of_mem _ hq))

theorem Parse.Sound.openNode (hp : p.Sound) (h : p.openNode it type = some q) : q.Sound := by
  unfold Parse.openNode at h
  split at h
  · cases h
  · next currentNode stack hstack =>
    obtain ⟨habove, hfound⟩ := hp
    rw [hstack] at habove hfound
    have hcurrent : ∀ r ∈ currentNode :: stack, ∃ s, currentNode = r ++ s := by
      intro r hr
      rcases List.mem_cons.mp hr with rfl | hr
      · exact ⟨[], (List.append_nil r).symm⟩
      · obtain ⟨s, -, hs⟩ := (List.pairwise_cons.mp habove).1 r hr
        exact ⟨s, hs⟩
    obtain ⟨n, hn⟩ := Option.isSome_iff_exists.mp (hfound currentNode (by simp))
    have hended : (p.root.modify currentNode (Node.endProps it)).get? currentNode =
        some (Node.endProps it n) := by
      rw [RoseTree.get?_modify, hn]
      rfl
    cases h
    refine ⟨?_, fun r hr => ?_⟩
    · rw [hstack]
      refine List.pairwise_cons.mpr ⟨fun r hr => ?_, habove⟩
      obtain ⟨s, hs⟩ := hcurrent r hr
      exact ⟨s ++ [_], by simp, by rw [hs, List.append_assoc]⟩
    · rw [hstack] at hr
      rcases List.mem_cons.mp hr with rfl | hr
      · rw [RoseTree.get?_append, RoseTree.get?_modify, hended]
        exact Option.isSome_of_eq_some (get?_back _ _)
      · obtain ⟨s, hs⟩ := hcurrent r hr
        have hr' := isSome_get?_modify (s := s) (f := Node.endProps it) (hfound r hr)
        rw [← hs] at hr'
        have hr'' := isSome_get?_modify (s := s)
          (f := Node.emplaceBack (.node { type, propsBegin := it + 2 } [])) hr'
        rw [← hs] at hr''
        exact hr''

/-- So it is through the whole loop. -/
theorem Parse.Sound.parseNodes (hp : p.Sound) (h : parseNodes rest it p = some q) : q.Sound := by
  induction rest using code.induct generalizing it p with
  | nil =>
    obtain rfl := Option.some.inj h
    exact hp
  | lone_start => simp [OTB.parseNodes, code] at h
  | start type rest ih =>
    rw [show code.start = START from rfl, parseNodes_start, Option.bind_eq_some_iff] at h
    obtain ⟨p', hopen, h⟩ := h
    exact ih (hp.openNode hopen) h
  | stop rest ih =>
    rw [show code.stop = END from rfl, parseNodes_end, Option.bind_eq_some_iff] at h
    obtain ⟨p', hclose, h⟩ := h
    exact ih (hp.closeNode hclose) h
  | lone_escape =>
    have hstart : ESCAPE ≠ START := by decide
    have hend : ESCAPE ≠ END := by decide
    simp [OTB.parseNodes, code, hstart, hend] at h
  | escape byte rest ih =>
    rw [show code.escape = ESCAPE from rfl, parseNodes_escape] at h
    exact ih hp h
  | plain byte rest hplain ih =>
    rw [parseNodes_plain hplain] at h
    exact ih hp h

/-! ## The bytes of a tree -/

mutual

/-- The nodes that a tree is parsed to from an offset on. -/
def place (it : ℕ) : RoseTree (UInt8 × List UInt8) → Node
  | .node (type, props) l =>
    let propsEnd := it + 2 + (code.escaped props).length
    .node { type, propsBegin := it + 2, propsEnd } (placeList propsEnd l)

def placeList (it : ℕ) : List (RoseTree (UInt8 × List UInt8)) → List Node
  | [] => []
  | t :: l => place it t :: placeList (it + (code.encode t).length) l

end

theorem parseNodes_escaped (props : List UInt8) :
    parseNodes (code.escaped props ++ rest) it p =
      parseNodes rest (it + (code.escaped props).length) p := by
  induction props generalizing it with
  | nil => rfl
  | cons byte props ih =>
    rw [TreeCode.escaped]
    split_ifs with h
    · rw [List.cons_append, List.cons_append, show code.escape = ESCAPE from rfl,
        parseNodes_escape, ih, List.length_cons, List.length_cons]
      congr 1
      omega
    · rw [List.cons_append, parseNodes_plain h, ih, List.length_cons]
      congr 1
      omega

/-- A node after the children that follow from an offset on. -/
def adopt (n : Node) : ℕ → List (RoseTree (UInt8 × List UInt8)) → Node
  | _, [] => n
  | it, t :: l => adopt (Node.emplaceBack (place it t) (Node.endProps it n))
      (it + (code.encode t).length) l

theorem adopt_of_ne {d : NodeData} {cs : List Node} (hcs : cs ≠ []) (it : ℕ)
    (l : List (RoseTree (UInt8 × List UInt8))) :
    adopt (.node d cs) it l = .node d (cs ++ placeList it l) := by
  induction l generalizing cs it with
  | nil => rw [adopt, placeList, List.append_nil]
  | cons t l ih =>
    rw [adopt, Node.endProps_of_ne hcs, Node.emplaceBack_node, ih (by simp), placeList,
      List.append_assoc, List.singleton_append]

/-- The properties of a node end where its children begin, also where it has none. -/
theorem endProps_adopt (d : NodeData) (it : ℕ) (l : List (RoseTree (UInt8 × List UInt8))) :
    Node.endProps (it + (code.encodeList l).length) (adopt (.node d []) it l) =
      .node { d with propsEnd := it } (placeList it l) := by
  cases l with
  | nil => rfl
  | cons t l =>
    rw [adopt, Node.endProps_leaf, Node.emplaceBack_node, adopt_of_ne (by simp),
      Node.endProps_of_ne (by simp), placeList, List.nil_append, List.singleton_append]

/-- The nodes of a tree become a child of the innermost open node. -/
def Adopts (t : RoseTree (UInt8 × List UInt8)) : Prop :=
  ∀ (rest : List UInt8) (it : ℕ) (root n : Node) (ptr : NodePtr) (stack : List NodePtr),
    root.get? ptr = some n →
    parseNodes (code.encode t ++ rest) it ⟨root, ptr :: stack⟩ =
      parseNodes rest (it + (code.encode t).length)
        ⟨root.modify ptr fun n => Node.emplaceBack (place it t) (Node.endProps it n), ptr :: stack⟩

theorem parseNodes_encodeList {l : List (RoseTree (UInt8 × List UInt8))}
    (hl : ∀ t ∈ l, Adopts t) {root n : Node} {ptr : NodePtr} {stack : List NodePtr}
    (h : root.get? ptr = some n) :
    parseNodes (code.encodeList l ++ rest) it ⟨root, ptr :: stack⟩ =
      parseNodes rest (it + (code.encodeList l).length)
        ⟨root.modify ptr fun n => adopt n it l, ptr :: stack⟩ := by
  induction l generalizing it root n with
  | nil =>
    have hid : (root.modify ptr fun n => adopt n it []) = root := RoseTree.modify_id ptr root
    rw [hid]
    rfl
  | cons t l ih =>
    have hnext := RoseTree.get?_modify ptr
      (fun n => Node.emplaceBack (place it t) (Node.endProps it n)) root
    rw [h] at hnext
    rw [TreeCode.encodeList, List.append_assoc, hl t (by simp) _ _ _ _ _ _ h,
      ih (fun t ht => hl t (by simp [ht])) hnext, RoseTree.modify_modify, List.length_append,
      Nat.add_assoc]
    rfl

theorem modify_back (n c : Node) (f : Node → Node) :
    RoseTree.modify [n.children.length] f (Node.emplaceBack c n) =
      Node.emplaceBack (f c) n := by
  cases n with
  | node d l =>
    have hback : ∀ l : List Node, (l ++ [c]).modify l.length f = l ++ [f c] := by
      intro l
      induction l with
      | nil => rfl
      | cons b l ih => exact congrArg (b :: ·) ih
    exact congrArg (RoseTree.node d) (hback l)

/-- A node that is opened, filled and closed again becomes a child. -/
theorem parseNodes_node {root n : Node} {ptr : NodePtr} {stack : List NodePtr}
    (h : root.get? ptr = some n) {inner : List UInt8} {f : Node → Node}
    (hinner : ∀ (root : Node) (child : NodePtr) (c : Node), root.get? child = some c →
      parseNodes (inner ++ END :: rest) (it + 2) ⟨root, child :: ptr :: stack⟩ =
        parseNodes (END :: rest) (it + 2 + inner.length)
          ⟨root.modify child f, child :: ptr :: stack⟩) :
    parseNodes (START :: type :: (inner ++ END :: rest)) it ⟨root, ptr :: stack⟩ =
      parseNodes rest (it + 2 + inner.length + 1)
        ⟨root.modify ptr fun n => Node.emplaceBack
          (Node.endProps (it + 2 + inner.length) (f (.node { type, propsBegin := it + 2 } [])))
          (Node.endProps it n), ptr :: stack⟩ := by
  have hended : (root.modify ptr (Node.endProps it)).get? ptr = some (Node.endProps it n) := by
    rw [RoseTree.get?_modify, h]
    rfl
  have hopen : Parse.openNode ⟨root, ptr :: stack⟩ it type =
      some ⟨(root.modify ptr (Node.endProps it)).modify ptr
        (Node.emplaceBack (.node { type, propsBegin := it + 2 } [])),
        (ptr ++ [(Node.endProps it n).children.length]) :: ptr :: stack⟩ := by
    simp only [Parse.openNode, hended]
  have hchild : ((root.modify ptr (Node.endProps it)).modify ptr
      (Node.emplaceBack (.node { type, propsBegin := it + 2 } []))).get?
        (ptr ++ [(Node.endProps it n).children.length]) =
      some (.node { type, propsBegin := it + 2 } []) := by
    rw [RoseTree.get?_append, RoseTree.get?_modify, hended]
    exact get?_back _ _
  rw [parseNodes_start, hopen, Option.bind_some, hinner _ _ _ hchild, parseNodes_end,
    Parse.closeNode, Option.bind_some]
  congr 2
  simp only [RoseTree.modify_append, RoseTree.modify_modify]
  exact RoseTree.modify_congr h (by simp only [Function.comp_apply, modify_back])

/-- What a node has between its type and its end is parsed as its properties and children. -/
theorem parseNodes_inner {props : List UInt8} {l : List (RoseTree (UInt8 × List UInt8))}
    (hl : ∀ t ∈ l, Adopts t) {root n : Node} {ptr : NodePtr} {stack : List NodePtr}
    (h : root.get? ptr = some n) :
    parseNodes ((code.escaped props ++ code.encodeList l) ++ END :: rest) it
        ⟨root, ptr :: stack⟩ =
      parseNodes (END :: rest) (it + (code.escaped props ++ code.encodeList l).length)
        ⟨root.modify ptr fun n => adopt n (it + (code.escaped props).length) l,
          ptr :: stack⟩ := by
  rw [List.append_assoc, parseNodes_escaped, parseNodes_encodeList hl h, List.length_append,
    Nat.add_assoc]

theorem encode_node (props : List UInt8) (l : List (RoseTree (UInt8 × List UInt8))) :
    code.encode (.node (type, props) l) ++ rest =
      START :: type :: ((code.escaped props ++ code.encodeList l) ++ END :: rest) := by
  simp [TreeCode.encode, code]

theorem length_encode_node (props : List UInt8) (l : List (RoseTree (UInt8 × List UInt8))) :
    (code.encode (.node (type, props) l)).length =
      2 + (code.escaped props ++ code.encodeList l).length + 1 := by
  simp only [TreeCode.encode, List.length_cons, List.length_append, List.length_nil]
  omega

theorem adopts (t : RoseTree (UInt8 × List UInt8)) : Adopts t := by
  induction t with
  | node a l ih =>
    obtain ⟨type, props⟩ := a
    intro rest it root n ptr stack h
    have hf : ∀ n, Node.emplaceBack (place it (.node (type, props) l)) (Node.endProps it n) =
        Node.emplaceBack (Node.endProps (it + 2 + (code.escaped props ++ code.encodeList l).length)
          (adopt (.node { type, propsBegin := it + 2 } []) (it + 2 + (code.escaped props).length)
            l)) (Node.endProps it n) := by
      intro n
      rw [List.length_append, ← Nat.add_assoc, endProps_adopt, place]
    rw [encode_node, parseNodes_node h fun root child c hc => parseNodes_inner ih hc,
      length_encode_node, funext hf]
    congr 1
    omega

/-! ## Reading the properties -/

theorem copyProps_escaped (props : List UInt8) : copyProps false (code.escaped props) = props := by
  induction props with
  | nil => rfl
  | cons byte props ih =>
    rw [TreeCode.escaped]
    split_ifs with h
    · rw [show code.escape = ESCAPE from rfl]
      simp [copyProps, ih]
    · have hescape : byte ≠ ESCAPE := fun heq => h (Or.inr (Or.inr heq))
      simp [copyProps, ih, hescape]

theorem escaped_eq_nil_iff {props : List UInt8} : code.escaped props = [] ↔ props = [] := by
  cases props with
  | nil => exact Iff.rfl
  | cons byte props =>
    rw [TreeCode.escaped]
    split_ifs <;> simp

/-- The properties of a node, where it has any. -/
def known (props : List UInt8) : Option (List UInt8) := if props = [] then none else some props

theorem getProps_escaped {before after props : List UInt8} (h : before.length = it) :
    getProps (before ++ (code.escaped props ++ after))
      ⟨type, it, it + (code.escaped props).length⟩ = known props := by
  subst h
  simp only [getProps, Nat.add_sub_cancel_left, List.length_eq_zero_iff, escaped_eq_nil_iff, known,
    List.drop_left, List.take_left, copyProps_escaped]

/-- What a tree holds, as it can be read from a node. -/
def contents (t : RoseTree (UInt8 × List UInt8)) : RoseTree (UInt8 × Option (List UInt8)) :=
  t.map fun a => (a.1, known a.2)

/-- What can be read of the nodes of a file. -/
def readTree (fileContents : List UInt8) (root : Node) : RoseTree (UInt8 × Option (List UInt8)) :=
  root.map fun node => (node.type, getProps fileContents node)

theorem map_readTree_placeList {l : List (RoseTree (UInt8 × List UInt8))}
    (hl : ∀ t ∈ l, ∀ (before after : List UInt8),
      readTree (before ++ (code.encode t ++ after)) (place before.length t) = contents t)
    (before after : List UInt8) :
    (placeList before.length l).map (readTree (before ++ (code.encodeList l ++ after))) =
      l.map contents := by
  induction l generalizing before with
  | nil => rfl
  | cons t l ih =>
    have hnext := ih (fun t ht => hl t (by simp [ht])) (before ++ code.encode t)
    rw [List.length_append, List.append_assoc] at hnext
    rw [placeList, TreeCode.encodeList, List.map_cons, List.map_cons, List.append_assoc, hnext,
      hl t (by simp)]

theorem readTree_place (t : RoseTree (UInt8 × List UInt8)) (before after : List UInt8) :
    readTree (before ++ (code.encode t ++ after)) (place before.length t) = contents t := by
  induction t generalizing before after with
  | node a l ih =>
    obtain ⟨type, props⟩ := a
    have hprops : before ++ (code.encode (.node (type, props) l) ++ after) =
        (before ++ [START, type]) ++
          (code.escaped props ++ (code.encodeList l ++ END :: after)) := by
      simp [encode_node]
    have hchildren : before ++ (code.encode (.node (type, props) l) ++ after) =
        (before ++ START :: type :: code.escaped props) ++
          (code.encodeList l ++ END :: after) := by
      simp [encode_node]
    have hlength : before.length + 2 + (code.escaped props).length =
        (before ++ START :: type :: code.escaped props).length := by
      simp only [List.length_append, List.length_cons]
      omega
    rw [place, readTree, contents, RoseTree.map_node, RoseTree.map_node]
    congr 1
    · rw [hprops]
      exact congrArg (Prod.mk type) (getProps_escaped (by simp))
    · rw [hlength, hchildren]
      exact map_readTree_placeList ih _ _

theorem parseTree_encode (identifier : Identifier) (t : RoseTree (UInt8 × List UInt8)) :
    parseTree (identifier.toList ++ code.encode t) = some (place 4 t) := by
  cases t with
  | node a l =>
    obtain ⟨type, props⟩ := a
    have hdrop : (identifier.toList ++ code.encode (.node (type, props) l)).drop 4 =
        START :: type :: ((code.escaped props ++ code.encodeList l) ++ [END]) := by
      rw [List.drop_left' (by simp), ← encode_node, List.append_nil]
    have hrun : parseNodes ((code.escaped props ++ code.encodeList l) ++ [END]) 6
        ⟨.node { type, propsBegin := 6 } [], [[]]⟩ =
          some ⟨place 4 (.node (type, props) l), []⟩ := by
      rw [parseNodes_inner (fun t _ => adopts t) rfl, parseNodes_end, Parse.closeNode,
        Option.bind_some, parseNodes, RoseTree.modify, RoseTree.modify, List.length_append,
        ← Nat.add_assoc, endProps_adopt, place]
    simp only [parseTree, hdrop, hrun]
    rfl

theorem encodeList_eq_nil_iff {l : List (RoseTree (UInt8 × List UInt8))} :
    code.encodeList l = [] ↔ l = [] := by
  cases l with
  | nil => exact ⟨fun _ => rfl, fun _ => rfl⟩
  | cons t l =>
    cases t
    simp [TreeCode.encodeList, TreeCode.encode]

/-- The only tree that no loader takes is a root with nothing in it. -/
theorem load_encode_eq_none_iff (identifier : Identifier) (t : RoseTree (UInt8 × List UInt8)) :
    load (identifier.toList ++ code.encode t) identifier = none ↔
      ∃ type, t = .node (type, []) [] := by
  obtain ⟨⟨type, props⟩, l⟩ := t
  have hshort : (identifier.toList ++ code.encode (.node (type, props) l)).length ≤ 7 ↔
      props = [] ∧ l = [] := by
    rw [List.length_append, Vector.length_toList, length_encode_node, ← escaped_eq_nil_iff,
      ← encodeList_eq_nil_iff, ← List.append_eq_nil_iff, ← List.length_eq_zero_iff]
    omega
  have hid : (identifier.toList ++ code.encode (.node (type, props) l)).take 4 =
      identifier.toList := List.take_left' (by simp)
  simp only [load, hid, ne_eq, not_true, false_and, if_false, hshort]
  split_ifs with h
  · obtain ⟨rfl, rfl⟩ := h
    exact ⟨fun _ => ⟨type, rfl⟩, fun _ => rfl⟩
  · constructor
    · intro hsome
      cases hsome
    · rintro ⟨type', heq⟩
      cases heq
      exact absurd ⟨rfl, rfl⟩ h

/-- Every tree is read back from the bytes it is written as, with the properties of every node,
whatever its types are. Of any other bytes, those that do not throw are the marks of one tree:
outside of escapes everything that starts is ended, and all of it inside the first node. -/
theorem parseTree_exact :
    (∀ (identifier : Identifier) (t : RoseTree (UInt8 × List UInt8)), ∃ root,
      parseTree (identifier.toList ++ code.encode t) = some root ∧
        readTree (identifier.toList ++ code.encode t) root = contents t) ∧
    ∀ fileContents : List UInt8, parseTree fileContents = none ∨
      ∃ u, TreeCode.Matched u ∧ code.marks (fileContents.drop 4) = .opens :: (u ++ [.closes]) := by
  constructor
  · intro identifier t
    have h := readTree_place t identifier.toList []
    rw [List.append_nil, Vector.length_toList] at h
    exact ⟨place 4 t, parseTree_encode identifier t, h⟩
  · intro fileContents
    cases h : parseTree fileContents with
    | none => exact Or.inl rfl
    | some root => exact Or.inr (parseTree_matched h)

end Parse

end OTB

end OTServBR
