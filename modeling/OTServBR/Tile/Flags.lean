import Mathlib
import OTServBR.Tile.Exchange

/-! # Flags of a tile

Flags of blocking properties are reset only when no other item has the
property, so they always agree with the items. Flags of the other features
are reset with the first item that leaves, so they agree exactly along the
runs in which no such item leaves one of its kind behind.
-/

namespace OTServBR

namespace Tile

variable {types : Items} {t : Tile}

/-! ## Single flags -/

section Bits

variable {c : Bool} {flag g flags : TileFlags}

theorem hasFlag_setFlagIf :
    hasFlag flag (setFlagIf c g flags) = (hasFlag flag flags || c && hasFlag flag g) := by
  have hor : (flags ||| g) &&& flag = (flags &&& flag) ||| (g &&& flag) := by
    ext k
    simp [Bool.and_or_distrib_right]
  unfold hasFlag setFlagIf
  cases c with
  | false => simp
  | true =>
    rw [if_pos rfl, hor, Bool.true_and, Bool.eq_iff_iff]
    simp only [bne_iff_ne, Bool.or_eq_true, ne_eq, BitVec.ofNat_eq_ofNat, BitVec.or_eq_zero_iff,
      Decidable.not_and_iff_not_or_not]

/-- What is reset outside a mask leaves the mask. -/
theorem and_not_and (h : flag &&& g = 0) : flags &&& ~~~ g &&& flag = flags &&& flag := by
  refine BitVec.eq_of_getLsbD_eq fun k hk => ?_
  have hbit : (flag.getLsbD k && g.getLsbD k) = false := by
    rw [← BitVec.getLsbD_and, h]
    exact BitVec.getLsbD_zero
  simp only [BitVec.getLsbD_and, BitVec.getLsbD_not, hk, decide_true, Bool.true_and]
  revert hbit
  cases flag.getLsbD k <;> cases g.getLsbD k <;> simp

/-- A reset of other flags leaves a flag. -/
theorem hasFlag_resetFlagIf_of_disjoint (h : flag &&& g = 0) :
    hasFlag flag (resetFlagIf c g flags) = hasFlag flag flags := by
  unfold hasFlag resetFlagIf
  split
  · rw [and_not_and h]
  · rfl

theorem hasFlag_resetFlagIf_self :
    hasFlag flag (resetFlagIf c flag flags) = (hasFlag flag flags && !c) := by
  unfold hasFlag resetFlagIf
  cases c with
  | false => simp
  | true =>
    have hand : flags &&& ~~~ flag &&& flag = 0 := by
      ext k
      simp
    simp [hand]

theorem hasFlag_of_disjoint (h : flag &&& g = 0) : hasFlag flag g = false := by
  rw [hasFlag, BitVec.and_comm, h]
  rfl

theorem hasFlag_self (h : flag ≠ 0) : hasFlag flag flag = true := by
  rwa [hasFlag, BitVec.and_self, bne_iff_ne]

/-- The bits of a floor change lie below the other flags. -/
theorem hasFlag_floorChange (floorChange : UInt8) (h : flag &&& 0xFF = 0) :
    hasFlag flag (floorChange.toBitVec.setWidth 32) = false := by
  refine hasFlag_of_disjoint (BitVec.eq_of_getLsbD_eq fun k hk => ?_)
  have hbit : (flag.getLsbD k && (0xFF : TileFlags).getLsbD k) = false := by
    rw [← BitVec.getLsbD_and, h]
    exact BitVec.getLsbD_zero
  rw [BitVec.getLsbD_and, BitVec.getLsbD_setWidth]
  by_cases hlow : k < 8
  · have hmask : (0xFF : TileFlags).getLsbD k = true := by
      interval_cases k <;> rfl
    rw [hmask, Bool.and_true] at hbit
    rw [hbit, Bool.false_and]
    exact BitVec.getLsbD_zero.symm
  · rw [BitVec.getLsbD_of_ge floorChange.toBitVec k (by omega), Bool.and_false, Bool.and_false]
    exact BitVec.getLsbD_zero.symm

end Bits

/-! ## The features of an item -/

/-- The flags of properties that block. -/
inductive BlockingFlag
  | blockSolid | immovableBlockSolid | blockPath | noFieldBlockPath | immovableNoFieldBlockPath
  deriving DecidableEq, Repr

namespace BlockingFlag

def mask : BlockingFlag → TileFlags
  | blockSolid => TileState.blockSolid
  | immovableBlockSolid => TileState.immovableBlockSolid
  | blockPath => TileState.blockPath
  | noFieldBlockPath => TileState.noFieldBlockPath
  | immovableNoFieldBlockPath => TileState.immovableNoFieldBlockPath

def prop : BlockingFlag → ItemProperty
  | blockSolid => .blockSolid
  | immovableBlockSolid => .immovableBlockSolid
  | blockPath => .blockPath
  | noFieldBlockPath => .noFieldBlockPath
  | immovableNoFieldBlockPath => .immovableNoFieldBlockPath

end BlockingFlag

/-- The flags of the other features, without the floor change. -/
inductive FeatureFlag
  | teleport | magicField | mailbox | trashHolder | bed | depot | supportsHangable
  deriving DecidableEq, Repr

namespace FeatureFlag

def mask : FeatureFlag → TileFlags
  | teleport => TileState.teleport
  | magicField => TileState.magicField
  | mailbox => TileState.mailbox
  | trashHolder => TileState.trashHolder
  | bed => TileState.bed
  | depot => TileState.depot
  | supportsHangable => TileState.supportsHangable

/-- Whether an item has the feature. -/
def test (types : Items) (f : FeatureFlag) (i : Item) : Bool :=
  match f with
  | teleport => i.cls == .teleport
  | magicField => i.cls == .magicField
  | mailbox => i.cls == .mailbox
  | trashHolder => i.cls == .trashHolder
  | bed => i.cls == .bed
  | depot => i.cls == .depotLocker
  | supportsHangable => i.hasProperty types .supportHangable

end FeatureFlag

theorem hasFlag_setTileFlags_blocking (f : BlockingFlag) (i : Item) (flags : TileFlags) :
    hasFlag f.mask (setTileFlags types i flags) =
      (hasFlag f.mask flags || i.hasProperty types f.prop) := by
  cases f <;> simp (disch := decide) only [setTileFlags, hasFlag_setFlagIf, BlockingFlag.mask,
    BlockingFlag.prop, hasFlag_floorChange, hasFlag_of_disjoint, hasFlag_self, Bool.and_false,
    Bool.and_true, Bool.or_false]

theorem hasFlag_setTileFlags_feature (f : FeatureFlag) (i : Item) (flags : TileFlags) :
    hasFlag f.mask (setTileFlags types i flags) = (hasFlag f.mask flags || f.test types i) := by
  cases f <;> simp (disch := decide) only [setTileFlags, hasFlag_setFlagIf, FeatureFlag.mask,
    FeatureFlag.test, hasFlag_floorChange, hasFlag_of_disjoint, hasFlag_self, Bool.and_false,
    Bool.and_true, Bool.or_false]

theorem hasFlag_resetTileFlags_blocking (f : BlockingFlag) (i : Item)
    (others : ItemProperty → Bool) (flags : TileFlags) :
    hasFlag f.mask (resetTileFlags types i others flags) =
      (hasFlag f.mask flags && !(i.hasProperty types f.prop && !others f.prop)) := by
  cases f <;> simp (disch := decide) only [resetTileFlags, BlockingFlag.mask, BlockingFlag.prop,
    hasFlag_resetFlagIf_of_disjoint, hasFlag_resetFlagIf_self]

theorem hasFlag_resetTileFlags_feature (f : FeatureFlag) (i : Item)
    (others : ItemProperty → Bool) (flags : TileFlags) :
    hasFlag f.mask (resetTileFlags types i others flags) =
      (hasFlag f.mask flags && !f.test types i) := by
  cases f <;> simp (disch := decide) only [resetTileFlags, FeatureFlag.mask, FeatureFlag.test,
    hasFlag_resetFlagIf_of_disjoint, hasFlag_resetFlagIf_self]

/-! ## Blocking flags -/

variable {t' : Tile} {taken given : Option TileItem} {others : ItemProperty → Bool}
  {flags : TileFlags}

theorem hasFlag_exchangeFlags_blocking (f : BlockingFlag) :
    hasFlag f.mask (exchangeFlags types taken given others flags) =
      ((hasFlag f.mask flags &&
        !(taken.any (·.item.hasProperty types f.prop) && !others f.prop)) ||
          given.any (·.item.hasProperty types f.prop)) := by
  cases taken <;> cases given <;>
    simp [exchangeFlags, hasFlag_setTileFlags_blocking, hasFlag_resetTileFlags_blocking]

/-- A blocking flag says whether some item has the property. -/
def Blocks (types : Items) (t : Tile) (f : BlockingFlag) : Prop :=
  hasFlag f.mask t.flags = t.has (·.hasProperty types f.prop)

theorem Exchange.blocks (h : Exchange types t t' taken given)
    (hrefs : (t.allItems.map (·.ref)).Nodup) {f : BlockingFlag} (hf : t.Blocks types f) :
    t'.Blocks types f := by
  obtain ⟨others, hstay, hothers, hflags⟩ := h.flags
  replace hstay := hstay f.prop
  replace hothers := hothers f.prop
  unfold Blocks at hf ⊢
  rw [hflags, hasFlag_exchangeFlags_blocking, hf, h.has _ fun i n => rfl,
    has_eq_of_mem hrefs h.mem]
  -- What stays keeps the flag, and the reset is told of nothing else but the new item.
  revert hstay hothers
  cases t.hasBut taken (·.hasProperty types f.prop) <;> cases others f.prop <;>
    cases taken.any (·.item.hasProperty types f.prop) <;>
    cases given.any (·.item.hasProperty types f.prop) <;> simp

/-- Along any run from a tile without items, a blocking flag is set if and only if some item on
the tile has the property. -/
theorem blockingFlags_run (types : Items) (flags : TileFlags)
    (hclear : ∀ f : BlockingFlag, hasFlag f.mask flags = false) (ops : List Op)
    (hruns : Runs types Admissible { flags := flags } ops) (f : BlockingFlag) :
    let t := run types { flags := flags } ops
    hasFlag f.mask t.flags = true ↔ ∃ i ∈ t.allItems, i.item.hasProperty types f.prop = true := by
  have hrun : ∀ {ops : List Op} {t : Tile}, Indexed types False t → t.Blocks types f →
      Runs types Admissible t ops → (run types t ops).Blocks types f := by
    intro ops
    induction ops with
    | nil => exact fun _ hf _ => hf
    | cons op ops ih =>
      intro t h hf hruns
      obtain ⟨hop, hops⟩ := hruns
      exact ih (h.apply hop False.elim) ((h.exchange hop).blocks h.refs hf) hops
  have hempty : Blocks types { flags := flags } f := hclear f
  intro t
  rw [show hasFlag f.mask t.flags = t.has _ from hrun (indexed_empty flags) hempty hruns, has,
    List.any_eq_true]

/-! ## Flags of features -/

def floorBit (types : Items) (b : Fin 7) (i : Item) : Bool :=
  (i.getType types).floorChange.toBitVec.getLsbD b

/-- The bits of the floor change. -/
def floorFlags (flags : TileFlags) : TileFlags := flags &&& TileState.floorChange

/-- Every flag of a feature says whether some item has the feature, and every bit of the floor
change whether some item has the bit. -/
structure Agrees (types : Items) (t : Tile) : Prop where
  feature : ∀ f : FeatureFlag, hasFlag f.mask t.flags = t.has (f.test types)
  floor : ∀ b : Fin 7, t.flags.getLsbD b = t.has (floorBit types b)

/-- An item that goes leaves none of its kind behind, unless the one that comes is of the kind.
When it had a floor change, the bits of the others are bits of the new one; when it had none, a
new one brings no bit that the others do not have, unless they have none at all. -/
def LeavesNone (types : Items) (t : Tile) (op : Op) : Prop :=
  (∀ f : FeatureFlag, (t.taken types op).any (fun i => f.test types i.item) = true →
    (t.given types op).any (fun i => f.test types i.item) = true ∨
      t.hasBut (t.taken types op) (f.test types) = false) ∧
  if (t.taken types op).any (fun i => (i.item.getType types).floorChange != 0) then
    ∀ b, t.hasBut (t.taken types op) (floorBit types b) = true →
      (t.given types op).any (fun i => floorBit types b i.item) = true
  else
    (∃ b, t.hasBut (t.taken types op) (floorBit types b) = true) →
      ∀ b, (t.given types op).any (fun i => floorBit types b i.item) = true →
        t.hasBut (t.taken types op) (floorBit types b) = true

theorem hasFlag_exchangeFlags_feature (f : FeatureFlag) :
    hasFlag f.mask (exchangeFlags types taken given others flags) =
      ((hasFlag f.mask flags && !taken.any (fun i => f.test types i.item)) ||
          given.any (fun i => f.test types i.item)) := by
  cases taken <;> cases given <;>
    simp [exchangeFlags, hasFlag_setTileFlags_feature, hasFlag_resetTileFlags_feature]

section Floor

variable {c : Bool} {g : TileFlags}

theorem floorFlags_setFlagIf (h : TileState.floorChange &&& g = 0) :
    floorFlags (setFlagIf c g flags) = floorFlags flags := by
  unfold floorFlags setFlagIf
  split
  · rw [BitVec.and_comm, BitVec.and_or_distrib_left, h, BitVec.and_comm]
    exact BitVec.or_zero
  · rfl

theorem floorFlags_resetFlagIf (h : TileState.floorChange &&& g = 0) :
    floorFlags (resetFlagIf c g flags) = floorFlags flags := by
  unfold floorFlags resetFlagIf
  split
  · exact and_not_and h
  · rfl

theorem floorFlags_setTileFlags (i : Item) : floorFlags (setTileFlags types i flags) =
    if floorFlags flags = 0 then
      floorFlags ((i.getType types).floorChange.toBitVec.setWidth 32)
    else floorFlags flags := by
  have hhas : hasFlag TileState.floorChange flags = (floorFlags flags != 0) := rfl
  simp (disch := decide) only [setTileFlags, floorFlags_setFlagIf]
  rw [hhas]
  by_cases hzero : floorFlags flags = 0
  · rw [if_pos hzero, hzero, bne_self_eq_false, Bool.not_false, Bool.true_and]
    by_cases hfloor : (i.getType types).floorChange = 0
    · rw [hfloor]
      exact hzero
    · rw [bne_iff_ne.2 hfloor]
      unfold floorFlags at hzero ⊢
      rw [setFlagIf, if_pos rfl, BitVec.and_comm, BitVec.and_or_distrib_left,
        BitVec.and_comm _ flags, hzero, BitVec.and_comm]
      exact BitVec.zero_or
  · rw [if_neg hzero, bne_iff_ne.2 hzero]
    rfl

theorem floorFlags_resetTileFlags (i : Item) : floorFlags (resetTileFlags types i others flags) =
    if (i.getType types).floorChange != 0 then 0 else floorFlags flags := by
  simp (disch := decide) only [resetTileFlags, floorFlags_resetFlagIf]
  unfold floorFlags resetFlagIf
  split
  · ext k
    simp
  · rfl

end Floor

/-- The floor change after an exchange. -/
theorem floorFlags_exchangeFlags :
    floorFlags (exchangeFlags types taken given others flags) =
      if taken.any (fun i => (i.item.getType types).floorChange != 0) = true ∨ floorFlags flags = 0
      then given.elim 0 fun i =>
        floorFlags ((i.item.getType types).floorChange.toBitVec.setWidth 32)
      else floorFlags flags := by
  have htaken : floorFlags
      (taken.elim flags fun i => resetTileFlags types i.item others flags) =
        if taken.any (fun i => (i.item.getType types).floorChange != 0) then 0
        else floorFlags flags := by
    cases taken with
    | none => rfl
    | some i => exact floorFlags_resetTileFlags i.item
  have hgiven : ∀ flags, floorFlags
      (given.elim flags fun i => setTileFlags types i.item flags) =
        if floorFlags flags = 0 then given.elim 0 fun i =>
          floorFlags ((i.item.getType types).floorChange.toBitVec.setWidth 32)
        else floorFlags flags := by
    intro flags
    cases given with
    | none =>
      split
      · next hzero => exact hzero
      · rfl
    | some i => exact floorFlags_setTileFlags i.item
  unfold exchangeFlags
  rw [hgiven, htaken]
  by_cases hfloor : taken.any (fun i => (i.item.getType types).floorChange != 0) = true
  · rw [if_pos hfloor, if_pos rfl, if_pos (.inl hfloor)]
  · simp only [hfloor, false_or, Bool.false_eq_true, if_false]

theorem getLsbD_floorFlags (b : Fin 7) : (floorFlags flags).getLsbD b = flags.getLsbD b := by
  have hmask : TileState.floorChange.getLsbD b = true := by
    revert b
    decide
  rw [floorFlags, BitVec.getLsbD_and, hmask, Bool.and_true]

theorem floorFlags_eq_zero_iff : floorFlags flags = 0 ↔ ∀ b : Fin 7, flags.getLsbD b = false := by
  constructor
  · intro h b
    rw [← getLsbD_floorFlags, h]
    exact BitVec.getLsbD_zero
  · intro h
    refine BitVec.eq_of_getLsbD_eq fun k hk => ?_
    by_cases hlow : k < 7
    · exact (getLsbD_floorFlags ⟨k, hlow⟩).trans ((h ⟨k, hlow⟩).trans BitVec.getLsbD_zero.symm)
    · have hmask : TileState.floorChange.getLsbD k = false := by
        interval_cases k <;> rfl
      rw [floorFlags, BitVec.getLsbD_and, hmask, Bool.and_false]
      exact BitVec.getLsbD_zero.symm

/-- A bit of the floor change after an exchange. -/
theorem getLsbD_exchangeFlags (b : Fin 7) :
    (exchangeFlags types taken given others flags).getLsbD b =
      if taken.any (fun i => (i.item.getType types).floorChange != 0) = true ∨ floorFlags flags = 0
      then given.any (fun i => floorBit types b i.item)
      else flags.getLsbD b := by
  rw [← getLsbD_floorFlags, floorFlags_exchangeFlags]
  split
  · cases given with
    | none => exact BitVec.getLsbD_zero
    | some i =>
      rw [Option.elim_some, getLsbD_floorFlags, BitVec.getLsbD_setWidth, Option.any_some,
        decide_eq_true (by omega), Bool.true_and]
      rfl
  · exact getLsbD_floorFlags b

theorem floorBit_of_eq_zero {i : Item} (h : (i.getType types).floorChange = 0) (b : Fin 7) :
    floorBit types b i = false := by
  rw [floorBit, h]
  exact BitVec.getLsbD_zero

section Agrees

variable {op : Op} (h : Exchange types t t' (t.taken types op) (t.given types op))
  (hrefs : (t.allItems.map (·.ref)).Nodup) (hagrees : t.Agrees types)

include h hrefs hagrees

theorem Exchange.feature_iff (f : FeatureFlag) : hasFlag f.mask t'.flags = t'.has (f.test types) ↔
    ((t.taken types op).any (fun i => f.test types i.item) = true →
      (t.given types op).any (fun i => f.test types i.item) = true ∨
        t.hasBut (t.taken types op) (f.test types) = false) := by
  obtain ⟨others, -, -, hflags⟩ := h.flags
  have hfree : CountFree (f.test types) := by
    intro i n
    cases f <;> rfl
  rw [hflags, hasFlag_exchangeFlags_feature, hagrees.feature, h.has _ hfree,
    has_eq_of_mem hrefs h.mem]
  cases t.hasBut (t.taken types op) (f.test types) <;>
    cases (t.taken types op).any (fun i => f.test types i.item) <;>
    cases (t.given types op).any (fun i => f.test types i.item) <;> simp

theorem Exchange.floor_iff : (∀ b : Fin 7, t'.flags.getLsbD b = t'.has (floorBit types b)) ↔
    if (t.taken types op).any (fun i => (i.item.getType types).floorChange != 0) then
      ∀ b, t.hasBut (t.taken types op) (floorBit types b) = true →
        (t.given types op).any (fun i => floorBit types b i.item) = true
    else
      (∃ b, t.hasBut (t.taken types op) (floorBit types b) = true) →
        ∀ b, (t.given types op).any (fun i => floorBit types b i.item) = true →
          t.hasBut (t.taken types op) (floorBit types b) = true := by
  obtain ⟨others, -, -, hflags⟩ := h.flags
  have hafter : ∀ b, t'.has (floorBit types b) =
      ((t.given types op).any (fun i => floorBit types b i.item) ||
        t.hasBut (t.taken types op) (floorBit types b)) := fun b => h.has _ fun i n => rfl
  simp only [hflags, getLsbD_exchangeFlags, hafter]
  by_cases hfloor :
      (t.taken types op).any (fun i => (i.item.getType types).floorChange != 0) = true
  · simp only [hfloor, true_or, if_true]
    refine forall_congr' fun b => ?_
    cases (t.given types op).any (fun i => floorBit types b i.item) <;> simp
  have hbefore : ∀ b : Fin 7,
      t.flags.getLsbD b = t.hasBut (t.taken types op) (floorBit types b) := by
    intro b
    have hnone : (t.taken types op).any (fun i => floorBit types b i.item) = false := by
      cases htaken : t.taken types op with
      | none => rfl
      | some i =>
        rw [htaken] at hfloor
        exact floorBit_of_eq_zero (by simpa using hfloor) b
    rw [hagrees.floor, has_eq_of_mem hrefs h.mem, hnone, Bool.false_or]
  simp only [hfloor, false_or, Bool.false_eq_true, if_false, floorFlags_eq_zero_iff, hbefore]
  split
  · next hzero => simp [hzero]
  · next hsome =>
    have hex : ∃ b, t.hasBut (t.taken types op) (floorBit types b) = true := by
      simpa using hsome
    simp only [hex, true_imp_iff]
    refine forall_congr' fun b => ?_
    cases (t.given types op).any (fun i => floorBit types b i.item) <;> simp

end Agrees

/-- One operation keeps the agreement exactly when it leaves none behind. -/
theorem Exchange.agrees_iff {op : Op}
    (h : Exchange types t t' (t.taken types op) (t.given types op))
    (hrefs : (t.allItems.map (·.ref)).Nodup) (hagrees : t.Agrees types) :
    t'.Agrees types ↔ t.LeavesNone types op := by
  constructor
  · intro h'
    exact ⟨fun f => (h.feature_iff hrefs hagrees f).1 (h'.feature f),
      (h.floor_iff hrefs hagrees).1 h'.floor⟩
  · rintro ⟨hfeature, hfloor⟩
    exact ⟨fun f => (h.feature_iff hrefs hagrees f).2 (hfeature f),
      (h.floor_iff hrefs hagrees).2 hfloor⟩

theorem agrees_run_iff {ops : List Op} (h : Indexed types False t) (hagrees : t.Agrees types)
    (hruns : Runs types Admissible t ops) :
    (∀ k, (run types t (ops.take k)).Agrees types) ↔ Runs types (LeavesNone types) t ops := by
  induction ops generalizing t with
  | nil =>
    constructor
    · exact fun _ => trivial
    · intro _ k
      rw [List.take_nil]
      exact hagrees
  | cons op ops ih =>
    obtain ⟨hop, hops⟩ := hruns
    have hstep := (h.exchange hop).agrees_iff h.refs hagrees
    constructor
    · intro hall
      have hnext : (t.apply types op).Agrees types := hall 1
      refine ⟨hstep.1 hnext, (ih (h.apply hop False.elim) hnext hops).1 fun k => ?_⟩
      exact hall (k + 1)
    · rintro ⟨hcond, hrest⟩ k
      cases k with
      | zero => exact hagrees
      | succ k => exact (ih (h.apply hop False.elim) (hstep.2 hcond) hops).2 hrest k

/-- Along a run from a tile without items, the flags of features agree with the items in every
state exactly when no step leaves one of its kind behind. -/
theorem featureFlags_run (types : Items) (flags : TileFlags)
    (hfeature : ∀ f : FeatureFlag, hasFlag f.mask flags = false)
    (hfloor : ∀ b : Fin 7, flags.getLsbD b = false) (ops : List Op)
    (hruns : Runs types Admissible { flags := flags } ops) :
    (∀ k, (run types { flags := flags } (ops.take k)).Agrees types) ↔
      Runs types (LeavesNone types) { flags := flags } ops :=
  agrees_run_iff (indexed_empty flags) ⟨hfeature, hfloor⟩ hruns

theorem admissible_templeRun : Runs templeTypes Admissible {} templeRun :=
  ⟨by decide, by decide, by decide, by decide, by decide, by decide, trivial⟩

theorem blockingFlags_temple :
    let t := run templeTypes {} templeRun
    hasFlag TileState.blockSolid t.flags = true ↔
      ∃ i ∈ t.allItems, i.item.hasProperty templeTypes .blockSolid = true :=
  blockingFlags_run templeTypes 0 (fun f => by cases f <;> rfl) templeRun admissible_templeRun
    .blockSolid

theorem featureFlags_temple :
    (∀ k, (run templeTypes {} (templeRun.take k)).Agrees templeTypes) ↔
      Runs templeTypes (LeavesNone templeTypes) {} templeRun :=
  featureFlags_run templeTypes 0 (fun f => by cases f <;> rfl) (by decide) templeRun
    admissible_templeRun

/-- Two teleports come and one of them leaves. -/
def teleportRun : List Op :=
  [.addThing (.item (teleport 1)), .addThing (.item (teleport 2)),
    .removeThing (.item (teleport 1)) 1]

theorem teleport_flag_lost : ¬ ∀ (types : Items) (ops : List Op),
    Runs types Admissible {} ops → (run types {} ops).Agrees types := by
  intro hall
  have hruns : Runs templeTypes Admissible {} teleportRun :=
    ⟨by decide, by decide, by decide, trivial⟩
  exact absurd ((hall templeTypes teleportRun hruns).feature .teleport) (by decide)

end Tile

end OTServBR
