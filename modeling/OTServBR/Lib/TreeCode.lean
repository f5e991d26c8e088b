import OTServBR.Lib.RoseTree

/-! # Trees in a row

A tree is written as its nodes in order, each between an opening and a closing
mark. A node starts with one letter that may be anything; its payload follows
with the letters that could be taken for marks escaped, and then its children.
What a text has of marks is read without building the tree.
-/

/-- The letters with a meaning of their own. -/
structure TreeCode (α : Type) where
  start : α
  stop : α
  escape : α
  start_ne_stop : start ≠ stop
  start_ne_escape : start ≠ escape
  stop_ne_escape : stop ≠ escape

namespace TreeCode

inductive Mark
  | opens
  | closes
  deriving DecidableEq, Repr

/-- Every mark that opens is matched by one that closes. -/
inductive Matched : List Mark → Prop
  | nil : Matched []
  | wrap {u v : List Mark} : Matched u → Matched v → Matched (.opens :: u ++ .closes :: v)

/-- Matched but for so many marks that close what was open before. -/
def Closes : ℕ → List Mark → Prop
  | 0, w => w = []
  | d + 1, w => ∃ u v, Matched u ∧ w = u ++ .closes :: v ∧ Closes d v

theorem Closes.opens {d : ℕ} {w : List Mark} (h : Closes (d + 2) w) :
    Closes (d + 1) (.opens :: w) := by
  obtain ⟨u, v, hu, rfl, u', v', hu', rfl, hv'⟩ := h
  exact ⟨.opens :: u ++ .closes :: u', v', .wrap hu hu', by simp, hv'⟩

theorem Closes.closes {d : ℕ} {w : List Mark} (h : Closes d w) :
    Closes (d + 1) (.closes :: w) :=
  ⟨[], w, .nil, rfl, h⟩

theorem closes_one_iff {w : List Mark} : Closes 1 w ↔ ∃ u, Matched u ∧ w = u ++ [.closes] := by
  constructor
  · rintro ⟨u, v, hu, rfl, rfl⟩
    exact ⟨u, hu, rfl⟩
  · rintro ⟨u, hu, rfl⟩
    exact ⟨u, [], hu, rfl, rfl⟩

variable {α : Type} [DecidableEq α] (c : TreeCode α)

def Special (a : α) : Prop := a = c.start ∨ a = c.stop ∨ a = c.escape

instance : DecidablePred c.Special := fun _ => inferInstanceAs (Decidable (_ ∨ _ ∨ _))

def escaped : List α → List α
  | [] => []
  | a :: l => if c.Special a then c.escape :: a :: escaped l else a :: escaped l

mutual

def encode : RoseTree (α × List α) → List α
  | .node (a, payload) l => c.start :: a :: (c.escaped payload ++ (encodeList l ++ [c.stop]))

def encodeList : List (RoseTree (α × List α)) → List α
  | [] => []
  | t :: l => encode t ++ encodeList l

end

/-- The marks of a text. The letter after an opening mark and the one after an escape are
none. -/
def marks : List α → List Mark
  | [] => []
  | a :: l =>
    if a = c.start then
      match l with
      | [] => [.opens]
      | _ :: l => .opens :: marks l
    else if a = c.stop then .closes :: marks l
    else if a = c.escape then
      match l with
      | [] => []
      | _ :: l => marks l
    else marks l

theorem marks_start (a : α) (l : List α) : c.marks (c.start :: a :: l) = .opens :: c.marks l := by
  simp [marks]

theorem marks_stop (l : List α) : c.marks (c.stop :: l) = .closes :: c.marks l := by
  cases l <;> simp [marks, c.start_ne_stop.symm]

theorem marks_escape (a : α) (l : List α) : c.marks (c.escape :: a :: l) = c.marks l := by
  simp [marks, c.start_ne_escape.symm, c.stop_ne_escape.symm]

theorem marks_plain {a : α} (h : ¬c.Special a) (l : List α) : c.marks (a :: l) = c.marks l := by
  unfold Special at h
  rw [not_or, not_or] at h
  cases l <;> simp [marks, h.1, h.2.1, h.2.2]

/-- A text is read mark by mark. -/
@[elab_as_elim]
theorem induct {motive : List α → Prop} (nil : motive []) (lone_start : motive [c.start])
    (start : ∀ a l, motive l → motive (c.start :: a :: l))
    (stop : ∀ l, motive l → motive (c.stop :: l)) (lone_escape : motive [c.escape])
    (escape : ∀ a l, motive l → motive (c.escape :: a :: l))
    (plain : ∀ a l, ¬c.Special a → motive l → motive (a :: l)) (l : List α) : motive l := by
  induction hn : l.length using Nat.strong_induction_on generalizing l with
  | h n ih =>
    subst hn
    rcases l with _ | ⟨a, _ | ⟨b, l⟩⟩
    · exact nil
    · by_cases ha : c.Special a
      · rcases ha with rfl | rfl | rfl
        · exact lone_start
        · exact stop [] nil
        · exact lone_escape
      · exact plain a [] ha nil
    · have hl : motive l := ih _ (by simp) l rfl
      have hbl : motive (b :: l) := ih _ (by simp) (b :: l) rfl
      by_cases ha : c.Special a
      · rcases ha with rfl | rfl | rfl
        · exact start b l hl
        · exact stop _ hbl
        · exact escape b l hl
      · exact plain a _ ha hbl

end TreeCode
