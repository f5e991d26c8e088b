import Mathlib

/-! # Things in custody

Places hold lists of things, and every thing knows the place that holds it. A
thing is found by its key at the place it knows and moves to the front of
another one. A list of different things moves there one by one, and whatever is
not on the list stays where it is.
-/

namespace OTServBR

/-- Places, what they hold and what the things know. -/
structure Custody (P K A : Type) where
  held : P → List A
  parent : K → Option P

namespace Custody

variable {P K A : Type} {key : A → K}

/-- What a place holds knows the place, and no place holds two things under one key. -/
structure Coherent (key : A → K) (c : Custody P K A) : Prop where
  parent : ∀ p, ∀ a ∈ c.held p, c.parent (key a) = some p
  nodup : ∀ p, ((c.held p).map key).Nodup

namespace Coherent

variable {c : Custody P K A} (h : c.Coherent key)

include h

theorem place_eq {p q : P} {a b : A} (ha : a ∈ c.held p) (hb : b ∈ c.held q)
    (hkey : key a = key b) : p = q := by
  have hp := h.parent p a ha
  rw [hkey, h.parent q b hb] at hp
  exact (Option.some.inj hp).symm

theorem eq_of_key {p q : P} {a b : A} (ha : a ∈ c.held p) (hb : b ∈ c.held q)
    (hkey : key a = key b) : a = b := by
  obtain rfl := h.place_eq ha hb hkey
  exact List.inj_on_of_nodup_map (h.nodup p) ha hb hkey

/-- What is held at different places has different keys. -/
theorem nodup_flatMap {ι : Type} {is : List ι} {g : ι → List A} (place : ι → P)
    (his : (is.map place).Nodup) (hnd : ∀ i ∈ is, ((g i).map key).Nodup)
    (hg : ∀ i ∈ is, g i ⊆ c.held (place i)) : ((is.flatMap g).map key).Nodup := by
  rw [List.map_flatMap, List.nodup_flatMap]
  refine ⟨hnd, (List.pairwise_map.1 his).imp_of_mem ?_⟩
  intro i j hi hj hne k hki hkj
  obtain ⟨a, ha, rfl⟩ := List.mem_map.1 hki
  obtain ⟨b, hb, hkey⟩ := List.mem_map.1 hkj
  exact hne (h.place_eq (hg i hi ha) (hg j hj hb) hkey.symm)

end Coherent

variable [DecidableEq P] [DecidableEq K]

/-- What the places hold when one of them has given a key away. -/
def rest (key : A → K) (c : Custody P K A) (p : P) (k : K) : P → List A :=
  Function.update c.held p ((c.held p).filter (key · != k))

/-- Take a thing from a place and put it in front of another one. -/
def transfer (key : A → K) (dst : P) (c : Custody P K A) (p : P) (a : A) : Custody P K A where
  held := Function.update (c.rest key p (key a)) dst (a :: c.rest key p (key a) dst)
  parent := Function.update c.parent (key a) (some dst)

section Move

variable {dst p : P} {c : Custody P K A} {a : A}

omit [DecidableEq P] in
theorem find?_held (h : c.Coherent key) (ha : a ∈ c.held p) :
    (c.held p).find? (key · == key a) = some a := by
  cases hfind : (c.held p).find? (key · == key a) with
  | none => simpa using List.find?_eq_none.1 hfind a ha
  | some b =>
    have hkey : key b = key a := by simpa using List.find?_some hfind
    exact congrArg some (h.eq_of_key (List.mem_of_find?_eq_some hfind) ha hkey)

theorem rest_eq (h : c.Coherent key) (ha : a ∈ c.held p) (q : P) :
    c.rest key p (key a) q = (c.held q).filter (key · != key a) := by
  by_cases hq : q = p
  · subst hq
    exact Function.update_self ..
  · refine (Function.update_of_ne hq ..).trans (List.filter_eq_self.2 fun b hb => ?_).symm
    have hne : key b ≠ key a := fun hkey => hq (h.place_eq hb ha hkey)
    simpa using hne

theorem held_transfer_self (hp : p ≠ dst) :
    (c.transfer key dst p a).held dst = a :: c.held dst := by
  have hdst : c.rest key p (key a) dst = c.held dst := Function.update_of_ne hp.symm ..
  exact (Function.update_self ..).trans (congrArg (a :: ·) hdst)

theorem held_transfer_of_ne (h : c.Coherent key) (ha : a ∈ c.held p) {q : P} (hq : q ≠ dst) :
    (c.transfer key dst p a).held q = (c.held q).filter (key · != key a) :=
  (Function.update_of_ne hq ..).trans (rest_eq h ha q)

theorem parent_transfer {k : K} (hne : k ≠ key a) :
    (c.transfer key dst p a).parent k = c.parent k := Function.update_of_ne hne ..

theorem parent_transfer_self : (c.transfer key dst p a).parent (key a) = some dst :=
  Function.update_self ..

theorem coherent_transfer (h : c.Coherent key) (ha : a ∈ c.held p) (hp : p ≠ dst) :
    (c.transfer key dst p a).Coherent key := by
  have hnot : ∀ b ∈ c.held dst, key b ≠ key a := fun b hb hkey => hp (h.place_eq ha hb hkey.symm)
  constructor
  · intro q b hb
    by_cases hq : q = dst
    · subst hq
      rw [held_transfer_self hp] at hb
      rcases List.mem_cons.1 hb with rfl | hb
      · exact parent_transfer_self
      · rw [parent_transfer (hnot b hb), h.parent q b hb]
    · rw [held_transfer_of_ne h ha hq] at hb
      obtain ⟨hb, hne⟩ := List.mem_filter.1 hb
      rw [parent_transfer (by simpa using hne), h.parent q b hb]
  · intro q
    by_cases hq : q = dst
    · subst hq
      rw [held_transfer_self hp, List.map_cons, List.nodup_cons]
      refine ⟨fun hmem => ?_, h.nodup q⟩
      obtain ⟨b, hb, hkey⟩ := List.mem_map.1 hmem
      exact hnot b hb hkey
    · rw [held_transfer_of_ne h ha hq]
      exact (h.nodup q).sublist (List.filter_sublist.map key)

/-- Steps that move one thing each take a list of different things to one place; everything else
stays where it is. -/
theorem foldlM_transfer {σ : Type} (custody : σ → Custody P K A) {f : σ → A → Option σ}
    {ok : σ → Prop} (hok : ∀ s, ok s → (custody s).Coherent key)
    (hf : ∀ s p a, ok s → p ≠ dst → a ∈ (custody s).held p →
      ∃ s', f s a = some s' ∧ ok s' ∧ custody s' = (custody s).transfer key dst p a)
    {s : σ} (h : ok s) {as : List A} (hnd : (as.map key).Nodup)
    (has : ∀ a ∈ as, ∃ p, p ≠ dst ∧ a ∈ (custody s).held p) :
    ∃ s', as.foldlM f s = some s' ∧ ok s' ∧
      (custody s').held dst = as.reverse ++ (custody s).held dst ∧
      ∀ q, q ≠ dst → (custody s').held q = ((custody s).held q).filter (key · ∉ as.map key) := by
  induction as generalizing s with
  | nil => exact ⟨s, rfl, h, rfl, fun q _ => by simp⟩
  | cons a as ih =>
    obtain ⟨hnot, hnd⟩ := List.nodup_cons.1 hnd
    obtain ⟨p, hp, ha⟩ := has a List.mem_cons_self
    obtain ⟨s₁, hstep, h₁, heq⟩ := hf s p a h hp ha
    have hrest := fun q (hq : q ≠ dst) => held_transfer_of_ne (hok s h) ha hq
    have has₁ : ∀ b ∈ as, ∃ q, q ≠ dst ∧ b ∈ (custody s₁).held q := by
      intro b hb
      obtain ⟨q, hq, hbq⟩ := has b (List.mem_cons_of_mem a hb)
      have hne : key b ≠ key a := fun hkey => hnot (hkey ▸ List.mem_map_of_mem hb)
      refine ⟨q, hq, ?_⟩
      rw [heq, hrest q hq]
      exact List.mem_filter.2 ⟨hbq, by simpa using hne⟩
    obtain ⟨s', hrun, h', hdst', hrest'⟩ := ih h₁ hnd has₁
    refine ⟨s', ?_, h', ?_, fun q hq => ?_⟩
    · rw [List.foldlM_cons, hstep]
      exact hrun
    · rw [hdst', heq, held_transfer_self hp, List.reverse_cons, List.append_assoc,
        List.singleton_append]
    · rw [hrest' q hq, heq, hrest q hq, List.filter_filter]
      refine List.filter_congr fun b _ => ?_
      rw [Bool.eq_iff_iff]
      simp only [List.map_cons, List.mem_cons, Bool.and_eq_true, decide_eq_true_eq, bne_iff_ne]
      tauto

end Move

end Custody

end OTServBR
