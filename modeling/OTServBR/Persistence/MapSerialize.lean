import Mathlib.Data.List.Induction
import OTServBR.Item.Tree
import OTServBR.Persistence.Framing

/-! # House items

`saveItem` writes an item with its attributes, smuggles the children of a
container in as the last attribute and closes every level with a zero byte.
`loadItem` reads it back into a container or a tile. Children are written in
reverse and pushed to the front, so their order is restored.
-/

namespace OTServBR

namespace MapSerialize

open PropWriteStream PropStream

section Save

variable (types : Items)

/-- The count that announces the children. -/
def containerItems (i : Item) (n : ℕ) : Str :=
  if i.cls.isContainer then AttrTypes.containerItems.toUInt8 :: write 4 n else []

mutual

def saveItem : ItemTree → Str
  | .node i l =>
    write 2 i.id.toNat ++ (i.serializeAttr types ++ (containerItems i l.length ++
      ((if i.cls.isContainer then saveReversed l else []) ++ [0])))

/-- The children of a container from the last to the first. -/
def saveReversed : List ItemTree → Str
  | [] => []
  | t :: l => saveReversed l ++ saveItem t

end

end Save

/-- The cylinder an item is loaded into. A container under construction and a container on a tile
have no tile of their own; a tile holds its items in order. -/
inductive Cylinder
  | container
  | tile (items : List ItemTree)

/-- What a load does to its cylinder: an item is passed to `internalAddThing`, or a stationary
item of the tile is changed (and passed to `transformItem` after), or nothing stays. -/
inductive Effect
  | none
  | added (t : ItemTree)
  | updated (t : ItemTree)

/-- `Container::internalAddThing` pushes to the front. -/
def Effect.pushFront : Effect → List ItemTree → List ItemTree
  | .added t, l => t :: l
  | _, l => l

structure LoadItem where
  ok : Bool
  effect : Effect
  stream : Str

structure LoadContainer where
  ok : Bool
  itemlist : List ItemTree
  stream : Str

/-- The loop over `serializationCount`, then the byte that ends the attributes. -/
def loadContainer (loadItem : Str → LoadItem) : ℕ → List ItemTree → Str → LoadContainer
  | 0, itemlist, s =>
    match read 1 s with
    | .error s => ⟨false, itemlist, s⟩
    | .ok (endAttr, s) => ⟨endAttr == 0, itemlist, s⟩
  | serializationCount + 1, itemlist, s =>
    let r := loadItem s
    if r.ok then
      loadContainer loadItem serializationCount (r.effect.pushFront itemlist) r.stream
    else ⟨false, itemlist, r.stream⟩

/-- The contents of an item whose attributes have been read, where it is a container. -/
def loadContents (loadItem : Str → LoadItem) (r : Item.Unserialized) (itemlist : List ItemTree) :
    LoadContainer :=
  if r.item.cls.isContainer then loadContainer loadItem r.serializationCount itemlist r.stream
  else ⟨true, itemlist, r.stream⟩

namespace Cylinder

variable (types : Items)

/-- Whether a new item is created for an id read from the stream. -/
def creates (parent : Cylinder) (id : UInt16) : Bool :=
  match parent with
  | container => true
  | tile _ => (types.getItemType id).moveable || (types.getItemType id).isCarpet

/-- The stationary item of the tile that a stored item stands for. -/
def findItem (parent : Cylinder) (id : UInt16) : Option ItemTree :=
  match parent with
  | container => none
  | tile items => items.find? fun t =>
      t.label.id == id || ((types.getItemType id).isDoor && t.label.cls == .door) ||
        ((types.getItemType id).isBed && t.label.cls == .bed)

/-- The items of a tile have the classes of their types, and no door or bed is a container. -/
def WellFormed : Cylinder → Prop
  | container => True
  | tile items =>
    (∀ t ∈ items, t.label.cls = Item.classOf (types.getItemType t.label.id)) ∧
      ∀ id, ((types.getItemType id).isDoor || (types.getItemType id).isBed) = true →
        (types.getItemType id).isContainer = false

end Cylinder

section Load

variable (env : AttrEnv) (types : Items)

/-- `loadItem` down to a depth of nesting. -/
def loadItemFuel : ℕ → Cylinder → Str → LoadItem
  | 0, _, s => ⟨false, .none, s⟩
  | fuel + 1, parent, s =>
    match read 2 s with
    | .error s => ⟨false, .none, s⟩
    | .ok (n, s) =>
      let id := UInt16.ofNat n
      let child := loadItemFuel fuel .container
      if parent.creates types id then
        match Item.createItem types id with
        | none => ⟨true, .none, s⟩
        | some item =>
          let r := item.unserializeAttr env types s
          if !r.ok then ⟨false, .none, r.stream⟩
          else
            let c := loadContents child r []
            ⟨c.ok, if c.ok then .added (.node r.item c.itemlist) else .none, c.stream⟩
      else
        match parent.findItem types id with
        | some (.node item itemlist) =>
          let r := item.unserializeAttr env types s
          -- a failure is only logged here, and the stream stays where it stopped
          if !r.ok then ⟨true, .updated (.node r.item itemlist), r.stream⟩
          else
            let c := loadContents child r itemlist
            ⟨c.ok, .updated (.node r.item c.itemlist), c.stream⟩
        | none =>
          -- the map changed since the last save: read the attributes into a dummy
          match Item.createItem types id with
          | none => ⟨true, .none, s⟩
          | some dummy =>
            let c := loadContents child (dummy.unserializeAttr env types s) []
            ⟨c.ok, .none, c.stream⟩

/-- Every level of nesting takes bytes of the stream, so its length bounds the depth. -/
def loadItem (parent : Cylinder) (s : Str) : LoadItem :=
  loadItemFuel env types (s.length + 1) parent s

end Load

/-! ## Fuel -/

section Fuel

variable {env : AttrEnv} {types : Items}

/-- The loop asks for items of streams that are no longer than its own. -/
theorem loadContainer_congr {c d : Str → LoadItem} (n : ℕ) (itemlist : List ItemTree) {s : Str}
    (h : ∀ s', s'.length ≤ s.length → c s' = d s')
    (hc : ∀ s', (c s').ok = true → (c s').stream.length ≤ s'.length) :
    loadContainer c n itemlist s = loadContainer d n itemlist s := by
  induction n generalizing itemlist s with
  | zero => rfl
  | succ n ih =>
    unfold loadContainer
    rw [← h s le_rfl]
    dsimp only
    split
    · next hok => exact ih _ fun s' hs' => h s' (hs'.trans (hc s hok))
    · rfl

theorem length_loadContainer {c : Str → LoadItem}
    (hc : ∀ s, (c s).ok = true → (c s).stream.length ≤ s.length) (n : ℕ)
    (itemlist : List ItemTree) (s : Str)
    (hok : (loadContainer c n itemlist s).ok = true) :
    (loadContainer c n itemlist s).stream.length ≤ s.length := by
  induction n generalizing itemlist s with
  | zero =>
    revert hok
    unfold loadContainer
    cases hr : read 1 s with
    | error s' =>
      intro hok
      cases hok
    | ok p =>
      have := length_of_read hr
      intro _
      dsimp only
      omega
  | succ n ih =>
    revert hok
    unfold loadContainer
    dsimp only
    split
    · next h => exact fun hok => (ih _ _ hok).trans (hc s h)
    · intro hok
      cases hok

/-- The contents of an item take children from a stream that has not grown. -/
theorem length_loadContents {c : Str → LoadItem}
    (hc : ∀ s, (c s).ok = true → (c s).stream.length ≤ s.length) (i : Item) (s : Str)
    (itemlist : List ItemTree) (hr : (i.unserializeAttr env types s).ok = true)
    (hok : (loadContents c (i.unserializeAttr env types s) itemlist).ok = true) :
    (loadContents c (i.unserializeAttr env types s) itemlist).stream.length ≤ s.length := by
  have hs : (i.unserializeAttr env types s).stream.length ≤ s.length := by
    rcases Item.length_unserializeAttr env types i s with ⟨h, -⟩ | h
    · rw [h] at hr
      cases hr
    · exact h
  revert hok
  unfold loadContents
  split
  · exact fun hok => (length_loadContainer hc _ _ _ hok).trans hs
  · exact fun _ => hs

variable (env types) in
theorem loadContents_congr {c d : Str → LoadItem} (i : Item) {s : Str} (itemlist : List ItemTree)
    (h : ∀ s', s'.length ≤ s.length → c s' = d s')
    (hc : ∀ s', (c s').ok = true → (c s').stream.length ≤ s'.length) :
    loadContents c (i.unserializeAttr env types s) itemlist =
      loadContents d (i.unserializeAttr env types s) itemlist := by
  unfold loadContents
  rcases Item.length_unserializeAttr env types i s with ⟨-, h0⟩ | hs
  · rw [h0]
    rfl
  · rw [loadContainer_congr _ itemlist (fun s' hs' => h s' (hs'.trans hs)) hc]

/-- A successful load into a container never lengthens the stream. -/
theorem length_loadItemFuel (f : ℕ) (s : Str)
    (hok : (loadItemFuel env types f .container s).ok = true) :
    (loadItemFuel env types f .container s).stream.length ≤ s.length := by
  induction f generalizing s with
  | zero => cases hok
  | succ f ih =>
    revert hok
    unfold loadItemFuel
    cases hr : read 2 s with
    | error s' =>
      intro hok
      cases hok
    | ok p =>
      have hl := length_of_read hr
      simp only [Cylinder.creates, if_true]
      cases Item.createItem types (UInt16.ofNat p.1) with
      | none =>
        intro _
        dsimp only
        omega
      | some item =>
        dsimp only
        cases hu : (item.unserializeAttr env types p.2).ok with
        | false =>
          intro hok
          cases hok
        | true =>
          intro hok
          have := length_loadContents (fun s hs => ih s hs) item p.2 [] hu hok
          simp only [Bool.not_true, Bool.false_eq_true, if_false]
          omega

/-- The depth of a load is bounded by the length of its stream. -/
theorem loadItemFuel_congr {f g : ℕ} (parent : Cylinder) {s : Str} (hf : s.length < f)
    (hg : s.length < g) :
    loadItemFuel env types f parent s = loadItemFuel env types g parent s := by
  induction f generalizing g parent s with
  | zero => omega
  | succ f ih =>
    cases g with
    | zero => omega
    | succ g =>
      unfold loadItemFuel
      cases hr : read 2 s with
      | error s' => rfl
      | ok p =>
        have hl := length_of_read hr
        have hcongr := fun (i : Item) itemlist =>
          loadContents_congr env types i itemlist
            (fun s' (hs' : s'.length ≤ p.2.length) =>
              @ih g .container s' (by omega) (by omega))
            (length_loadItemFuel f)
        simp only [hcongr]

end Fuel

/-! ## Well-framed trees -/

/-- The trees whose bytes end where the reader ends: no depot locker, no blank custom value, no
container whose size exceeds its 32-bit count. -/
def Framed : ItemTree → Prop :=
  RoseTree.All fun i l => i.cls ≠ .depotLocker ∧ i.writesBlank = false ∧ l.length < 2 ^ 32

/-- A load of the bytes of `t` into `parent` that takes them all and leaves `rest`: what is
created has the shape of `t`, a stationary item of the tile gets the children of `t` before its
own, and a stationary item that the tile lacks is dropped. -/
def Restores (types : Items) (parent : Cylinder) (t : ItemTree) (rest : Str) (r : LoadItem) :
    Prop :=
  r.ok = true ∧ r.stream = rest ∧
    if parent.creates types t.label.id then
      ∃ t', r.effect = .added t' ∧ ItemTree.shape t' = ItemTree.shape t
    else match parent.findItem types t.label.id with
      | some found => ∃ t', r.effect = .updated t' ∧ t'.label.id = found.label.id ∧
          t'.children.map ItemTree.shape = (t.children ++ found.children).map ItemTree.shape
      | none => r.effect = .none

section Proofs

variable {env : AttrEnv} {types : Items}

theorem saveReversed_append (l m : List ItemTree) :
    saveReversed types (l ++ m) = saveReversed types m ++ saveReversed types l := by
  induction l with
  | nil => simp [saveReversed]
  | cons t l ih => simp [saveReversed, ih]

theorem saveReversed_concat (l : List ItemTree) (t : ItemTree) :
    saveReversed types (l ++ [t]) = saveItem types t ++ saveReversed types l := by
  simp [saveReversed_append, saveReversed]

variable (types) in
/-- A child takes fewer bytes than its container. -/
theorem length_saveItem_lt {i : Item} {l : List ItemTree} (hc : i.cls.isContainer = true)
    {t : ItemTree} (ht : t ∈ l) :
    (saveItem types t).length < (saveItem types (.node i l)).length := by
  have hl : (saveItem types t).length ≤ (saveReversed types l).length := by
    obtain ⟨l₁, l₂, rfl⟩ := List.append_of_mem ht
    simp only [saveReversed_append, saveReversed, List.length_append]
    omega
  rw [saveItem, if_pos hc]
  simp only [List.length_append, List.length_cons]
  omega

/-- The bytes of an item after its id. -/
def saved (types : Items) (i : Item) (l : List ItemTree) (rest : Str) : Str :=
  i.serializeAttr types ++ (containerItems i l.length ++
    ((if i.cls.isContainer then saveReversed types l else []) ++ 0 :: rest))

theorem saveItem_append (i : Item) (l : List ItemTree) (rest : Str) :
    saveItem types (.node i l) ++ rest = write 2 i.id.toNat ++ saved types i l rest := by
  simp [saveItem, saved]

/-! ## One item -/

section Item

variable {i k : Item} {l : List ItemTree}

variable (env types) in
/-- An object of the saved class reads the attributes, and the contents start where they end. -/
theorem unserializeAttr_saved (hk : k.cls = i.cls) (hd : i.cls ≠ .depotLocker)
    (hlen : i.getAttributes.getCustomAttributeMap.length < 256 ^ 8) (hb : i.writesBlank = false)
    (rest : Str) :
    ∃ r, k.unserializeAttr env types (saved types i l rest) = r ∧ r.ok = true ∧
      r.item.id = k.id ∧ ∀ child itemlist, loadContents child r itemlist =
        if i.cls.isContainer then
          loadContainer child (l.length % 2 ^ 32) itemlist (saveReversed types l ++ 0 :: rest)
        else ⟨true, itemlist, rest⟩ := by
  obtain ⟨j, hj, -, ej⟩ := Item.transparent_serializeAttr env types hlen hb k hk
    (containerItems i l.length ++
      ((if i.cls.isContainer then saveReversed types l else []) ++ 0 :: rest))
  have hjc : j.cls = i.cls := hj.cls.trans hk
  refine ⟨_, ej, ?_⟩
  cases hc : i.cls.isContainer with
  | false =>
    simp only [containerItems, hc, Bool.false_eq_true, if_false, List.nil_append,
      Item.unserializeAttr_zero]
    refine ⟨trivial, hj.id, fun child itemlist => ?_⟩
    simp [loadContents, hjc, hc]
  | true =>
    have hread : ∀ s, Item.readAttr env types j .containerItems (write 4 l.length ++ s) =
        .finish j (l.length % 256 ^ 4) s := by
      intro s
      have hr : Item.readAttr env types j .containerItems (write 4 l.length ++ s) =
          Item.readContainerItems j (write 4 l.length ++ s) := by
        cases hcls : i.cls <;> simp_all [ItemClass.isContainer, Item.readAttr]
      rw [hr, Item.readContainerItems, read_write]
    simp only [containerItems, hc, if_true, List.cons_append, Item.unserializeAttr_cons, hread]
    refine ⟨trivial, hj.id, fun child itemlist => ?_⟩
    simp [loadContents, hjc, hc]

/-- Reading succeeds only on an item that is no depot locker and writes no blank value. -/
theorem of_unserializeAttr_saved (hk : k.cls = i.cls)
    (hlen : i.getAttributes.getCustomAttributeMap.length < 256 ^ 8) {rest : Str}
    (h : (k.unserializeAttr env types (saved types i l rest)).ok = true) :
    i.cls ≠ .depotLocker ∧ i.writesBlank = false := by
  have hb : i.writesBlank = false := by
    cases hb : i.writesBlank with
    | false => rfl
    | true =>
      have := Item.rejected_serializeAttr env types hlen hb k hk
        (containerItems i l.length ++ ((if i.cls.isContainer then saveReversed types l else []) ++ 0 :: rest))
      rw [saved, this] at h
      cases h
  refine ⟨fun hd => ?_, hb⟩
  obtain ⟨j, hj, -, ej⟩ := Item.transparent_serializeAttr env types hlen hb k hk
    (containerItems i l.length ++
      ((if i.cls.isContainer then saveReversed types l else []) ++ 0 :: rest))
  have hjc : j.cls = .depotLocker := (hj.cls.trans hk).trans hd
  have hc : i.cls.isContainer = true := by rw [hd]; rfl
  -- the locker has no case for the count of its children
  have hread : ∀ s, Item.readAttr env types j .containerItems s = .error j s := by
    intro s
    simp [Item.readAttr, hjc, Item.baseReadAttr]
  rw [saved, ej] at h
  simp only [containerItems, hc, if_true, List.cons_append, Item.unserializeAttr_cons,
    hread] at h
  cases h

end Item

/-! ## The children of a container -/

/-- Children that are read exactly end up in front, in their order. -/
theorem loadContainer_saveReversed {child : Str → LoadItem} {l : List ItemTree}
    (h : ∀ t ∈ l, ∀ rest, ∃ t', child (saveItem types t ++ rest) = ⟨true, .added t', rest⟩ ∧
      ItemTree.shape t' = ItemTree.shape t) (itemlist : List ItemTree) (rest : Str) :
    ∃ l', loadContainer child l.length itemlist (saveReversed types l ++ 0 :: rest) =
        ⟨true, l' ++ itemlist, rest⟩ ∧ l'.map ItemTree.shape = l.map ItemTree.shape := by
  induction l using List.reverseRecOn generalizing itemlist with
  | nil => exact ⟨[], by simp [saveReversed, loadContainer, read_cons], rfl⟩
  | append_singleton l t ih =>
    obtain ⟨t', ht, hs⟩ := h t (by simp) (saveReversed types l ++ 0 :: rest)
    obtain ⟨l', hl, hls⟩ := ih (fun u hu => h u (by simp [hu])) (t' :: itemlist)
    refine ⟨l' ++ [t'], ?_, by simp [hls, hs]⟩
    rw [saveReversed_concat, List.append_assoc, List.length_append, List.length_singleton,
      loadContainer, ht]
    simpa [Effect.pushFront] using hl

/-- Every turn of the loop adds at most one item. -/
theorem itemlist_loadContainer (child : Str → LoadItem) (n : ℕ) (itemlist : List ItemTree)
    (s : Str) :
    ∃ l', (loadContainer child n itemlist s).itemlist = l' ++ itemlist ∧ l'.length ≤ n := by
  induction n generalizing itemlist s with
  | zero =>
    refine ⟨[], ?_, le_rfl⟩
    unfold loadContainer
    split <;> rfl
  | succ n ih =>
    unfold loadContainer
    dsimp only
    split
    · obtain ⟨l', hl, hlen⟩ := ih ((child s).effect.pushFront itemlist) (child s).stream
      cases he : (child s).effect with
      | added t =>
        rw [he] at hl
        exact ⟨l' ++ [t], by rw [hl]; simp [Effect.pushFront], by simp; omega⟩
      | none => rw [he] at hl; exact ⟨l', hl, by omega⟩
      | updated t => rw [he] at hl; exact ⟨l', hl, by omega⟩
    · exact ⟨[], rfl, by simp⟩

/-- If the loop restores the shapes of all children, then each child was well framed. -/
theorem of_loadContainer_saveReversed {child : Str → LoadItem} {l : List ItemTree}
    (exact : ∀ t ∈ l, Framed t → ∀ rest, ∃ t', child (saveItem types t ++ rest) =
      ⟨true, .added t', rest⟩ ∧ ItemTree.shape t' = ItemTree.shape t)
    (framed : ∀ t ∈ l, ∀ rest t', (child (saveItem types t ++ rest)).ok = true →
      (child (saveItem types t ++ rest)).effect = .added t' → ItemTree.shape t' = ItemTree.shape t → Framed t)
    {itemlist l' : List ItemTree} {rest : Str}
    (ok : (loadContainer child l.length itemlist (saveReversed types l ++ rest)).ok = true)
    (hl : (loadContainer child l.length itemlist (saveReversed types l ++ rest)).itemlist =
      l' ++ itemlist) (hs : l'.map ItemTree.shape = l.map ItemTree.shape) :
    ∀ t ∈ l, Framed t := by
  induction l using List.reverseRecOn generalizing itemlist l' with
  | nil => simp
  | append_singleton l t ih =>
    have hlen' : l'.length = l.length + 1 := by
      simpa using congrArg List.length hs
    rw [saveReversed_concat, List.append_assoc, List.length_append, List.length_singleton,
      loadContainer] at ok hl
    generalize hr : child (saveItem types t ++ (saveReversed types l ++ rest)) = r at ok hl
    have hok : r.ok = true := by
      by_contra h
      simp [h] at ok
    rw [if_pos hok] at ok hl
    obtain ⟨l'', hl'', hlen⟩ := itemlist_loadContainer child l.length
      (r.effect.pushFront itemlist) r.stream
    -- a turn that adds nothing leaves the list too short
    obtain ⟨t', he⟩ : ∃ t', r.effect = .added t' := by
      cases he : r.effect with
      | added t' => exact ⟨t', rfl⟩
      | none | updated _ =>
        rw [hl'', he] at hl
        have := congrArg List.length hl
        simp only [Effect.pushFront, List.length_append] at this
        omega
    rw [he] at hl'' hl ok
    have hsplit : l' = l'' ++ [t'] := by
      rw [hl''] at hl
      have : (l'' ++ [t']) ++ itemlist = l' ++ itemlist := by simpa [Effect.pushFront] using hl
      exact (List.append_cancel_right this).symm
    have hshape : l''.map ItemTree.shape = l.map ItemTree.shape ∧ ItemTree.shape t' = ItemTree.shape t := by
      rw [hsplit, List.map_append, List.map_append] at hs
      have := List.append_inj' hs rfl
      simpa using this
    have ht : Framed t := framed t (by simp) _ t' (by rw [hr]; exact hok)
      (by rw [hr]; exact he) hshape.2
    obtain ⟨t'', ht'', -⟩ := exact t (by simp) ht (saveReversed types l ++ rest)
    have hstream : r.stream = saveReversed types l ++ rest := by
      rw [← hr, ht'']
    rw [hstream] at ok hl''
    have hrest := ih (fun u hu => exact u (by simp [hu])) (fun u hu => framed u (by simp [hu]))
      ok hl'' hshape.1
    intro u hu
    rcases List.mem_append.mp hu with hu | hu
    · exact hrest u hu
    · obtain rfl := List.mem_singleton.mp hu
      exact ht

/-! ## Whole trees -/

/-- A load into a container that restores a tree returns it with the rest of the stream. -/
theorem Restores.eq_added {t : ItemTree} {rest : Str} {r : LoadItem}
    (h : Restores types .container t rest r) :
    ∃ t', r = ⟨true, .added t', rest⟩ ∧ ItemTree.shape t' = ItemTree.shape t := by
  obtain ⟨ok, hs, t', he, hshape⟩ := h
  exact ⟨t', by rw [← ok, ← hs, ← he], hshape⟩

variable (env) in
/-- The contents of a well-framed item are restored in front of what its object holds already. -/
theorem loadContents_saved {child : Str → LoadItem} {i k : Item} {l : List ItemTree}
    (hk : k.cls = i.cls) (hw : ItemTree.WellFormed types (.node i l)) (hf : Framed (.node i l))
    (h : i.cls.isContainer = true → ∀ t ∈ l, ∀ rest, ∃ t',
      child (saveItem types t ++ rest) = ⟨true, .added t', rest⟩ ∧ ItemTree.shape t' = ItemTree.shape t)
    (rest : Str) :
    ∃ r, k.unserializeAttr env types (saved types i l rest) = r ∧ r.ok = true ∧
      r.item.id = k.id ∧ ∀ itemlist, ∃ l',
        loadContents child r itemlist = ⟨true, l' ++ itemlist, rest⟩ ∧
        l'.map ItemTree.shape = l.map ItemTree.shape := by
  obtain ⟨⟨hd, hb, hsize⟩, -⟩ := hf
  obtain ⟨⟨-, -, hlen, hleaf⟩, -⟩ := hw
  obtain ⟨r, er, ok, hid, hc⟩ := unserializeAttr_saved env types hk hd hlen hb rest
  refine ⟨r, er, ok, hid, fun itemlist => ?_⟩
  rw [hc]
  cases hcont : i.cls.isContainer with
  | false => exact ⟨[], rfl, by rw [hleaf hcont]⟩
  | true =>
    rw [if_pos rfl, Nat.mod_eq_of_lt hsize]
    exact loadContainer_saveReversed (h hcont) itemlist rest

theorem read_saveItem (i : Item) (l : List ItemTree) (rest : Str) :
    read 2 (saveItem types (.node i l) ++ rest) = .ok (i.id.toNat, saved types i l rest) := by
  have hid : i.id.toNat % 256 ^ 2 = i.id.toNat := Nat.mod_eq_of_lt (UInt16.toNat_lt i.id)
  rw [saveItem_append, read_write, hid]

theorem classOf_door {it : ItemType} (hd : it.isDoor = true) (hc : it.isContainer = false) :
    Item.classOf it = .door := by
  have ht : it.type = .door := by simpa [ItemType.isDoor] using hd
  simp [Item.classOf, hc, ItemType.isDepot, ItemType.isRewardChest, ItemType.isTeleport,
    ItemType.isMagicField, ItemType.isDoor, ht]

theorem classOf_bed {it : ItemType} (hb : it.isBed = true) (hc : it.isContainer = false) :
    Item.classOf it = .bed := by
  have ht : it.type = .bed := by simpa [ItemType.isBed] using hb
  simp [Item.classOf, hc, ItemType.isDepot, ItemType.isRewardChest, ItemType.isTeleport,
    ItemType.isMagicField, ItemType.isDoor, ItemType.isTrashHolder, ItemType.isMailbox,
    ItemType.isBed, ht]

/-- A stationary item found on a tile has the class of the stored type. -/
theorem cls_of_findItem {parent : Cylinder} (hp : parent.WellFormed types) {id : UInt16}
    {found : ItemTree} (h : parent.findItem types id = some found) :
    found.label.cls = Item.classOf (types.getItemType id) := by
  cases parent with
  | container => cases h
  | tile items =>
    obtain ⟨hcls, hgroup⟩ := hp
    have hmem := List.mem_of_find?_eq_some h
    have hcond := List.find?_some h
    simp only [Bool.or_eq_true, Bool.and_eq_true, beq_iff_eq] at hcond
    rcases hcond with (hid | ⟨hdoor, hc⟩) | ⟨hbed, hc⟩
    · rw [hcls found hmem, hid]
    · rw [hc, classOf_door hdoor (hgroup id (by rw [hdoor]; rfl))]
    · rw [hc, classOf_bed hbed (hgroup id (by rw [hbed, Bool.or_true]))]

/-- Loading the bytes of a well-framed tree restores it, whatever follows them. -/
theorem restores_loadItemFuel {t : ItemTree} (hw : ItemTree.WellFormed types t) (hf : Framed t) {f : ℕ}
    (hlen : (saveItem types t).length ≤ f) {parent : Cylinder} (hp : parent.WellFormed types)
    (rest : Str) :
    Restores types parent t rest (loadItemFuel env types f parent (saveItem types t ++ rest)) := by
  induction t using RoseTree.induct generalizing f parent rest with
  | node i l ih =>
    obtain _ | f := f
    · simp [saveItem, write] at hlen
    have hw' := hw
    have hf' := hf
    obtain ⟨⟨hcls, ⟨c, hcreate, hcid⟩, -, -⟩, hwl⟩ := hw'
    obtain ⟨-, hfl⟩ := hf'
    have hchild : i.cls.isContainer = true → ∀ t ∈ l, ∀ rest, ∃ t',
        loadItemFuel env types f .container (saveItem types t ++ rest) =
          ⟨true, .added t', rest⟩ ∧ ItemTree.shape t' = ItemTree.shape t := by
      intro hc t ht rest
      have hlt := length_saveItem_lt types hc ht
      exact (ih t ht (hwl t ht) (hfl t ht) (by omega)
        (show Cylinder.WellFormed types .container from trivial) rest).eq_added
    have hccls : c.cls = i.cls := (Item.cls_of_createItem hcreate).trans hcls.symm
    by_cases hcr : parent.creates types i.id = true
    · obtain ⟨r, er, ok, hid, hc⟩ := loadContents_saved env hccls hw hf hchild rest
      obtain ⟨l', hl', hs⟩ := hc []
      have heq : loadItemFuel env types (f + 1) parent (saveItem types (.node i l) ++ rest) =
          ⟨true, .added (.node r.item (l' ++ [])), rest⟩ := by
        rw [loadItemFuel, read_saveItem]
        simp [hcr, hcreate, er, ok, hl']
      rw [heq]
      refine ⟨rfl, rfl, ?_⟩
      rw [RoseTree.label_node, if_pos hcr]
      refine ⟨_, rfl, ?_⟩
      rw [ItemTree.shape_node, ItemTree.shape_node, List.append_nil, hid, hcid, hs]
    · cases hfind : parent.findItem types i.id with
      | some found =>
        obtain ⟨k, itemlist⟩ := found
        have hk : k.cls = i.cls := (cls_of_findItem hp hfind).trans hcls.symm
        obtain ⟨r, er, ok, hid, hc⟩ := loadContents_saved env hk hw hf hchild rest
        obtain ⟨l', hl', hs⟩ := hc itemlist
        have heq : loadItemFuel env types (f + 1) parent (saveItem types (.node i l) ++ rest) =
            ⟨true, .updated (.node r.item (l' ++ itemlist)), rest⟩ := by
          rw [loadItemFuel, read_saveItem]
          simp [hcr, hfind, er, ok, hl']
        rw [heq]
        refine ⟨rfl, rfl, ?_⟩
        simp only [RoseTree.label_node, hfind]
        rw [if_neg hcr]
        exact ⟨_, rfl, hid, by simp [hs]⟩
      | none =>
        obtain ⟨r, er, -, -, hc⟩ := loadContents_saved env hccls hw hf hchild rest
        obtain ⟨l', hl', -⟩ := hc []
        have heq : loadItemFuel env types (f + 1) parent (saveItem types (.node i l) ++ rest) =
            ⟨true, .none, rest⟩ := by
          rw [loadItemFuel, read_saveItem]
          simp [hcr, hfind, hcreate, er, hl']
        rw [heq]
        refine ⟨rfl, rfl, ?_⟩
        simp only [RoseTree.label_node, hfind]
        rw [if_neg hcr]
        trivial

/-- A load into a container that restores the shape of a tree shows that it was well framed. -/
theorem framed_of_loadItemFuel {t : ItemTree} (hw : ItemTree.WellFormed types t) {f : ℕ}
    (hlen : (saveItem types t).length ≤ f) {rest : Str} {t' : ItemTree}
    (ok : (loadItemFuel env types f .container (saveItem types t ++ rest)).ok = true)
    (he : (loadItemFuel env types f .container (saveItem types t ++ rest)).effect = .added t')
    (hs : ItemTree.shape t' = ItemTree.shape t) : Framed t := by
  induction t using RoseTree.induct generalizing f rest t' with
  | node i l ih =>
    obtain _ | f := f
    · simp [saveItem, write] at hlen
    have hw' := hw
    obtain ⟨⟨hcls, ⟨c, hcreate, hcid⟩, hcustom, hleaf⟩, hwl⟩ := hw'
    have hccls : c.cls = i.cls := (Item.cls_of_createItem hcreate).trans hcls.symm
    rw [loadItemFuel, read_saveItem] at ok he
    simp only [UInt16.ofNat_toNat, Cylinder.creates, if_true, hcreate] at ok he
    cases hok : (c.unserializeAttr env types (saved types i l rest)).ok with
    | false => simp [hok] at ok
    | true =>
      obtain ⟨hd, hb⟩ := of_unserializeAttr_saved hccls hcustom hok
      obtain ⟨r, er, -, -, hc⟩ := unserializeAttr_saved env types hccls hd hcustom hb rest
      rw [er] at hok
      simp only [er, hok, hc, Bool.not_true, Bool.false_eq_true, if_false] at ok he
      cases hcont : i.cls.isContainer with
      | false =>
        obtain rfl := hleaf hcont
        exact .node ⟨hd, hb, by simp⟩ (by simp)
      | true =>
        simp only [hcont, if_true] at ok he
        rw [if_pos ok] at he
        obtain rfl := Effect.added.inj he
        rw [ItemTree.shape_node, ItemTree.shape_node] at hs
        have hs := RoseTree.node.inj hs
        obtain ⟨l', hl', hcount⟩ := itemlist_loadContainer
          (loadItemFuel env types f .container) (l.length % 2 ^ 32) []
          (saveReversed types l ++ 0 :: rest)
        have hsize : l.length < 2 ^ 32 := by
          have hll := congrArg List.length hs.2
          rw [hl'] at hll
          simp only [List.append_nil, List.length_map] at hll
          have := Nat.mod_lt l.length (show 0 < 2 ^ 32 by norm_num)
          omega
        rw [Nat.mod_eq_of_lt hsize] at ok hl' hs
        refine .node ⟨hd, hb, hsize⟩ (of_loadContainer_saveReversed ?_ ?_ ok hl' ?_)
        · intro t ht hft rest
          have hlt := length_saveItem_lt types hcont ht
          exact (restores_loadItemFuel (hwl t ht) hft (by omega)
        (show Cylinder.WellFormed types .container from trivial)
            rest).eq_added
        · intro t ht rest t' ok he hs
          have hlt := length_saveItem_lt types hcont ht
          exact ih t ht (hwl t ht) (by omega) ok he hs
        · rw [hl', List.append_nil] at hs
          exact hs.2

end Proofs

/-- A locker of the depots and a bag that holds plain items. -/
def lockerTypes : Items where
  items id :=
    if id == 2589 then { id := 2589, group := .container, type := .depot }
    else if id == 1987 then { id := 1987, group := .container, moveable := true }
    else if id == 2666 then { id := 2666, moveable := true }
    else {}
  reverseItemMap _ := none

def noEnv : AttrEnv where
  getNameByGuid _ := []
  addUniqueItem _ := true

end MapSerialize

end OTServBR
