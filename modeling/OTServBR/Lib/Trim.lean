import Mathlib.Data.List.DropRight
import Mathlib.Data.List.TakeWhile

/-! # Trimming

What a predicate drops from both ends of a list. Smaller drops made before do
not change it, and a list is its own trim when none of its ends would be
dropped.
-/

namespace Trim

variable {α β : Type*} {p q : α → Bool} {a b l : List α}

def trim (p : α → Bool) (l : List α) : List α := (l.dropWhile p).rdropWhile p

/-- Neither end would be dropped. -/
structure Bare (p : α → Bool) (l : List α) : Prop where
  head : ∀ c ∈ l.head?, p c = false
  last : ∀ c ∈ l.getLast?, p c = false

theorem rdropWhile_append (hb : ∀ c ∈ b, p c = true) :
    (a ++ b).rdropWhile p = a.rdropWhile p := by
  rw [List.rdropWhile, List.reverse_append, List.dropWhile_append_of_pos, List.rdropWhile]
  simpa using hb

theorem trim_append_left (ha : ∀ c ∈ a, p c = true) : trim p (a ++ l) = trim p l := by
  rw [trim, List.dropWhile_append_of_pos ha, trim]

theorem trim_append_right (hb : ∀ c ∈ b, p c = true) : trim p (l ++ b) = trim p l := by
  rw [trim, List.dropWhile_append]
  split_ifs with hnil
  · rw [List.dropWhile_eq_nil_iff.mpr hb, trim, List.isEmpty_iff.mp hnil]
  · rw [rdropWhile_append hb, trim]

theorem trim_dropWhile (hqp : ∀ c, q c = true → p c = true) :
    trim p (l.dropWhile q) = trim p l := by
  have hl : trim p (l.takeWhile q ++ l.dropWhile q) = trim p (l.dropWhile q) :=
    trim_append_left fun c hc => hqp c (List.mem_takeWhile_imp hc)
  rw [← hl, List.takeWhile_append_dropWhile]

theorem trim_rdropWhile (hqp : ∀ c, q c = true → p c = true) :
    trim p (l.rdropWhile q) = trim p l := by
  have hl : trim p (l.rdropWhile q ++ l.rtakeWhile q) = trim p (l.rdropWhile q) :=
    trim_append_right fun c hc => hqp c (List.mem_rtakeWhile_imp hc)
  rw [← hl, List.rdropWhile_append_rtakeWhile]

theorem Bare.trim_eq (h : Bare p l) : trim p l = l := by
  have hleft : l.dropWhile p = l := by
    cases l with
    | nil => rfl
    | cons c l => rw [List.dropWhile_cons_of_neg (by simpa using h.head c rfl)]
  rw [trim, hleft, List.rdropWhile_eq_self_iff]
  intro hnil hlast
  exact Bool.noConfusion ((h.last _ (List.getLast?_eq_some_getLast hnil)).symm.trans hlast)

theorem bare_trim (p : α → Bool) (l : List α) : Bare p (trim p l) where
  head c hc := by
    have hhead := List.head?_dropWhile_not p l
    have hprefix : (trim p l).head? = (l.dropWhile p).head? := by
      obtain ⟨rest, hrest⟩ := List.rdropWhile_prefix p (l.dropWhile p)
      have hsome : (trim p l).head? = some c := hc
      rw [← hrest, List.head?_append, ← trim, hsome, Option.some_or]
    rw [← hprefix, Option.mem_def.mp hc] at hhead
    simpa using hhead
  last c hc := by
    have hne : trim p l ≠ [] := by
      rintro hnil
      rw [hnil] at hc
      cases hc
    have hlast := List.rdropWhile_last_not p (l.dropWhile p) hne
    rw [Option.mem_def, List.getLast?_eq_some_getLast hne, Option.some_inj] at hc
    rw [← hc]
    exact Bool.eq_false_iff.mpr hlast

theorem trim_map {f : β → α} (l : List β) : trim p (l.map f) = (trim (p ∘ f) l).map f := by
  rw [trim, List.dropWhile_map, List.rdropWhile, ← List.map_reverse, List.dropWhile_map,
    ← List.map_reverse]
  rfl

end Trim
