import Mathlib.Data.List.Nodup
import OTServBR.Lib.Run
import OTServBR.View.Sight

/-! # Known creatures

The server remembers which creatures it has described to the client, up to 1300
of them, and describes others in full. With the description it tells the client
which one to forget. Both know the same creatures as long as the one that is
forgotten is not the one that is described.
-/

namespace OTServBR.ProtocolGame

/-- A call of `checkCreatureAsKnown` with what it finds: the creatures of the game, where the
player stands, and the order in which an unordered set is scanned. -/
structure Call where
  id : ℕ
  getCreatureByID : ℕ → Option Creature
  myPos : Position
  scan : List ℕ → List ℕ := fun l => l
  scan_perm : ∀ l, (scan l).Perm l := by exact fun l => .refl l

/-- The head of what `AddCreature` sends: a creature that the client knows (0x62), or one that
it gets to know while it forgets another one (0x61). -/
inductive Packet
  | known (id : ℕ)
  | unknown (remove id : ℕ)
  deriving DecidableEq, Repr

def Call.canSee (c : Call) (id : ℕ) : Bool := canSeeCreature c.myPos (c.getCreatureByID id)

/-- The set after the call, and `removedKnown` if the creature was not known. -/
def checkCreatureAsKnown (knownCreatureSet : List ℕ) (c : Call) : List ℕ × Option ℕ :=
  if c.id ∈ knownCreatureSet then (knownCreatureSet, none)
  else
    let set := c.scan (c.id :: knownCreatureSet)
    if set.length > 1300 then
      match set.find? fun i => !c.canSee i with
      | some i => (set.erase i, some i)
      | none =>
        match set with
        | i :: j :: _ =>
          let removedKnown := if i = c.id then j else i
          (set.erase removedKnown, some removedKnown)
        | _ => (set, some 0)
    else (set, some 0)

def addCreature (id : ℕ) : Option ℕ → Packet
  | none => .known id
  | some remove => .unknown remove id

/-- The creatures that a client knows after a packet. -/
def read (client : List ℕ) : Packet → List ℕ
  | .known _ => client
  | .unknown remove id => id :: if remove = 0 then client else client.filter (· ≠ remove)

structure Session where
  knownCreatureSet : List ℕ := []
  client : List ℕ := []
  /-- What was sent last. -/
  packet : Option Packet := none

def Session.describe (s : Session) (c : Call) : Session :=
  let r := checkCreatureAsKnown s.knownCreatureSet c
  let packet := addCreature c.id r.2
  { knownCreatureSet := r.1, client := read s.client packet, packet := some packet }

/-! ## One table on both sides -/

/-- The client knows what the server takes for known. -/
structure Session.Synced (s : Session) : Prop where
  mirror : ∀ i, i ∈ s.client ↔ i ∈ s.knownCreatureSet
  known : ∀ i, s.packet = some (.known i) → i ∈ s.client
  kept : ∀ remove i, s.packet = some (.unknown remove i) → i ∈ s.knownCreatureSet
  size : s.knownCreatureSet.length ≤ 1300

/-- If the set is full, the first creature out of sight is neither the new one nor one with the
id 0, and if all are in sight, the first other one has not the id 0. -/
def Spares (s : Session) (c : Call) : Prop :=
  c.id ∉ s.knownCreatureSet → 1300 ≤ s.knownCreatureSet.length →
    let set := c.scan (c.id :: s.knownCreatureSet)
    set.find? (fun i => !c.canSee i) ≠ some c.id ∧ set.find? (fun i => !c.canSee i) ≠ some 0 ∧
      (set.find? (fun i => !c.canSee i) = none → set.find? (· ≠ c.id) ≠ some 0)

/-- The set holds every id once, and no more than 1300. -/
structure Session.Bounded (s : Session) : Prop where
  nodup : s.knownCreatureSet.Nodup
  size : s.knownCreatureSet.length ≤ 1300

variable {s : Session} {c : Call}

theorem check_known (h : c.id ∈ s.knownCreatureSet) :
    checkCreatureAsKnown s.knownCreatureSet c = (s.knownCreatureSet, none) := if_pos h

theorem check_room (h : c.id ∉ s.knownCreatureSet) (hroom : s.knownCreatureSet.length < 1300) :
    checkCreatureAsKnown s.knownCreatureSet c =
      (c.scan (c.id :: s.knownCreatureSet), some 0) := by
  rw [checkCreatureAsKnown, if_neg h]
  dsimp only
  rw [if_neg]
  rw [(c.scan_perm _).length_eq, List.length_cons]
  omega

/-- A full set loses the creature that the client is told to forget. -/
theorem check_full (hs : s.Bounded) (h : c.id ∉ s.knownCreatureSet)
    (hfull : 1300 ≤ s.knownCreatureSet.length) :
    ∃ removedKnown, removedKnown ∈ c.scan (c.id :: s.knownCreatureSet) ∧
      checkCreatureAsKnown s.knownCreatureSet c =
        ((c.scan (c.id :: s.knownCreatureSet)).erase removedKnown, some removedKnown) ∧
      (removedKnown ≠ c.id ∧ removedKnown ≠ 0 ↔ Spares s c) := by
  have hlength : (c.scan (c.id :: s.knownCreatureSet)).length = s.knownCreatureSet.length + 1 :=
    (c.scan_perm _).length_eq
  have hnodup : (c.scan (c.id :: s.knownCreatureSet)).Nodup :=
    (c.scan_perm _).nodup_iff.mpr (List.nodup_cons.mpr ⟨h, hs.nodup⟩)
  rw [checkCreatureAsKnown, if_neg h, Spares]
  generalize c.scan (c.id :: s.knownCreatureSet) = set at *
  dsimp only
  rw [if_pos (by omega)]
  simp only [h, hfull, not_false_eq_true, forall_const]
  cases hfind : set.find? fun i => !c.canSee i with
  | some i =>
    refine ⟨i, List.mem_of_find?_eq_some hfind, rfl, ?_⟩
    simp
  | none =>
    match set, hlength with
    | [], hlength => cases hlength
    | [i], hlength =>
      rw [List.length_singleton] at hlength
      omega
    | i :: j :: rest, _ =>
      refine ⟨if i = c.id then j else i, ?_, rfl, ?_⟩
      · split <;> simp
      · split
        · next hi =>
          have hj : j ≠ c.id := by
            rintro rfl
            exact (List.nodup_cons.mp hnodup).1 (hi ▸ List.mem_cons_self)
          simp [hi, hj]
        · next hi => simp [hi]

/-- The set after a call, when the creature was not known. -/
theorem describe_unknown (hs : s.Bounded) (h : c.id ∉ s.knownCreatureSet) :
    ∃ remove, (s.describe c).packet = some (.unknown remove c.id) ∧
      (s.describe c).client =
        (c.id :: if remove = 0 then s.client else s.client.filter (· ≠ remove)) ∧
      ((s.knownCreatureSet.length < 1300 ∧ remove = 0 ∧
        (s.describe c).knownCreatureSet.Perm (c.id :: s.knownCreatureSet)) ∨
      (1300 ≤ s.knownCreatureSet.length ∧ (remove ≠ c.id ∧ remove ≠ 0 ↔ Spares s c) ∧
        remove ∈ c.id :: s.knownCreatureSet ∧
        (s.describe c).knownCreatureSet.Perm ((c.id :: s.knownCreatureSet).erase remove))) := by
  rw [Session.describe]
  rcases Nat.lt_or_ge s.knownCreatureSet.length 1300 with hroom | hfull
  · rw [check_room h hroom]
    exact ⟨0, rfl, rfl, .inl ⟨hroom, rfl, c.scan_perm _⟩⟩
  · obtain ⟨remove, hmem, hcheck, hspares⟩ := check_full hs h hfull
    rw [hcheck]
    exact ⟨remove, rfl, rfl, .inr ⟨hfull, hspares, (c.scan_perm _).mem_iff.mp hmem,
      (c.scan_perm _).erase remove⟩⟩

theorem describe_known (h : c.id ∈ s.knownCreatureSet) :
    s.describe c = { s with packet := some (.known c.id) } := by
  rw [Session.describe, check_known h]
  rfl

namespace Session.Bounded

theorem describe (h : s.Bounded) : (s.describe c).Bounded := by
  by_cases hc : c.id ∈ s.knownCreatureSet
  · rw [describe_known hc]
    exact ⟨h.nodup, h.size⟩
  have hnodup : (c.id :: s.knownCreatureSet).Nodup := List.nodup_cons.mpr ⟨hc, h.nodup⟩
  obtain ⟨remove, -, -, ⟨hroom, -, hperm⟩ | ⟨-, -, hmem, hperm⟩⟩ := describe_unknown h hc
  · refine ⟨hperm.nodup_iff.mpr hnodup, ?_⟩
    rw [hperm.length_eq]
    exact hroom
  · refine ⟨hperm.nodup_iff.mpr (hnodup.erase remove), ?_⟩
    rw [hperm.length_eq, List.length_erase_of_mem hmem]
    exact h.size

/-- A description keeps both sides alike exactly if it spares the new creature. -/
theorem synced_describe_iff (h : s.Bounded) (hs : s.Synced) :
    (s.describe c).Synced ↔ Spares s c := by
  by_cases hc : c.id ∈ s.knownCreatureSet
  · refine iff_of_true ?_ fun hnew => absurd hc hnew
    rw [describe_known hc]
    refine ⟨hs.mirror, fun i hi => ?_, nofun, hs.size⟩
    cases hi
    exact (hs.mirror c.id).mpr hc
  have hnodup : (c.id :: s.knownCreatureSet).Nodup := List.nodup_cons.mpr ⟨hc, h.nodup⟩
  obtain ⟨remove, hpacket, hclient, ⟨hroom, rfl, hperm⟩ | ⟨-, hspares, hmem, hperm⟩⟩ :=
    describe_unknown h hc
  · refine iff_of_true ⟨fun i => ?_, fun i hi => ?_, fun r i hi => ?_, h.describe.size⟩
      fun _ hfull => absurd hroom (Nat.not_lt.mpr hfull)
    · rw [hclient, if_pos rfl, hperm.mem_iff, List.mem_cons, List.mem_cons, hs.mirror]
    · rw [hpacket] at hi
      cases hi
    · rw [hpacket] at hi
      cases hi
      exact hperm.mem_iff.mpr List.mem_cons_self
  · rw [← hspares]
    constructor
    · intro hsync
      have hkept := hsync.kept remove c.id hpacket
      rw [hperm.mem_iff, hnodup.mem_erase_iff] at hkept
      have hne : remove ≠ c.id := hkept.1.symm
      refine ⟨hne, ?_⟩
      rintro rfl
      have hclient' : 0 ∈ (s.describe c).client := by
        rw [hclient, if_pos rfl]
        exact List.mem_cons_of_mem _ ((hs.mirror 0).mpr (List.mem_of_ne_of_mem hne hmem))
      rw [hsync.mirror, hperm.mem_iff] at hclient'
      exact hnodup.not_mem_erase hclient'
    · rintro ⟨hne, hzero⟩
      have hid : c.id ∈ (s.describe c).knownCreatureSet := by
        rw [hperm.mem_iff, hnodup.mem_erase_iff]
        exact ⟨hne.symm, List.mem_cons_self⟩
      refine ⟨fun i => ?_, fun i hi => ?_, fun r i hi => ?_, h.describe.size⟩
      · rw [hclient, if_neg hzero, hperm.mem_iff, hnodup.mem_erase_iff, List.mem_cons,
          List.mem_filter, decide_eq_true_iff, List.mem_cons, hs.mirror]
        constructor
        · rintro (rfl | ⟨hi, hir⟩)
          · exact ⟨hne.symm, .inl rfl⟩
          · exact ⟨hir, .inr hi⟩
        · rintro ⟨hir, rfl | hi⟩
          · exact .inl rfl
          · exact .inr ⟨hi, hir⟩
      · rw [hpacket] at hi
        cases hi
      · rw [hpacket] at hi
        cases hi
        exact hid

end Session.Bounded

/-- In every state of a session both sides know the same creatures, exactly if every call spares
the creature that it describes. -/
theorem synced_iff_spares (l : List Call) :
    (∀ n, ((l.take n).foldl Session.describe {}).Synced) ↔
      Run.Steps Session.describe Spares {} l := by
  have hempty : ({} : Session).Synced := ⟨fun i => .rfl, nofun, nofun, Nat.zero_le _⟩
  exact Run.forall_take_iff (I := Session.Bounded) (fun _ _ h _ => h.describe)
    (fun _ _ h hs => h.synced_describe_iff hs) ⟨List.nodup_nil, Nat.zero_le _⟩ hempty

/-- The creatures with the ids from 1 to 1301 come into view one after the other; all of them
stand beside the player, who cannot see the last one. -/
def crowd (i : ℕ) : Call where
  id := i + 1
  getCreatureByID i := some { position := ⟨100, 100, 7⟩, isSeen := i ≠ 1301 }
  myPos := ⟨101, 100, 7⟩

theorem crowd_room (n : ℕ) (hn : n ≤ 1300) :
    (((List.range n).map crowd).foldl Session.describe {}).knownCreatureSet =
      ((List.range n).map (· + 1)).reverse := by
  induction n with
  | zero => rfl
  | succ n ih =>
    have hset := ih (Nat.le_of_succ_le hn)
    rw [List.range_succ, List.map_append, List.foldl_append, List.map_append, List.reverse_append]
    generalize ((List.range n).map crowd).foldl Session.describe {} = s at hset
    have hnew : (crowd n).id ∉ s.knownCreatureSet := by
      simp [hset, crowd]
    have hroom : s.knownCreatureSet.length < 1300 := by
      rw [hset, List.length_reverse, List.length_map, List.length_range]
      exact hn
    rw [List.map_singleton, List.foldl_cons, List.foldl_nil, Session.describe,
      check_room hnew hroom, hset]
    rfl

theorem not_synced_crowd :
    ¬ ∀ n, ((((List.range 1301).map crowd).take n).foldl Session.describe {}).Synced := by
  intro hsynced
  have hbefore := hsynced 1300
  have hafter := hsynced 1301
  have hset := crowd_room 1300 le_rfl
  rw [← List.map_take, List.take_range] at hbefore hafter
  rw [min_eq_left (by omega)] at hbefore
  rw [min_self, List.range_succ, List.map_append, List.foldl_append] at hafter
  generalize ((List.range 1300).map crowd).foldl Session.describe {} = s at *
  have hlength : s.knownCreatureSet.length = 1300 := by
    rw [hset, List.length_reverse, List.length_map, List.length_range]
  have hbounded : s.Bounded := by
    refine ⟨?_, Nat.le_of_eq hlength⟩
    rw [hset, List.nodup_reverse]
    exact List.nodup_range.map fun _ _ h => Nat.succ.inj h
  have hnew : (crowd 1300).id ∉ s.knownCreatureSet := by
    simp [hset, crowd]
  -- The scan comes to the new creature first.
  refine ((hbounded.synced_describe_iff hbefore).mp hafter hnew (Nat.le_of_eq hlength.symm)).1 ?_
  exact List.find?_cons_of_pos rfl

end OTServBR.ProtocolGame
