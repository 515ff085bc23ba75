import Mathlib.Data.List.Induction
import Mathlib.Data.List.Nodup

/-! What several modules use about lists: the place of an element in lists that are put
together, elements of which there is one at most, and sequences of fallible steps. -/

namespace FactTypes

/-- An element of two lists put together stands in the first one, or behind all of it. -/
theorem split_append {α : Type} {front back before after : List α} {a : α}
    (h : front ++ back = before ++ a :: after) :
    (∃ rest, front = before ++ a :: rest) ∨
      ∃ rest, before = front ++ rest ∧ back = rest ++ a :: after := by
  rcases List.append_eq_append_iff.1 h with ⟨rest, hbefore, hback⟩ | ⟨rest, hfront, hback⟩
  · exact Or.inr ⟨rest, hbefore, hback⟩
  · cases rest with
    | nil => exact Or.inr ⟨[], by rw [hfront, List.append_nil, List.append_nil], hback.symm⟩
    | cons b rest =>
      obtain ⟨rfl, -⟩ := List.cons.inj hback
      exact Or.inl ⟨rest, hfront⟩

/-- An element of several lists put together stands in one of them, behind all that come
    from the earlier ones. -/
theorem split_flatMap {α β : Type} {f : β → List α} {bs : List β} {before after : List α}
    {a : α} (h : bs.flatMap f = before ++ a :: after) :
    ∃ front b back inner rest, bs = front ++ b :: back ∧ f b = inner ++ a :: rest ∧
      before = front.flatMap f ++ inner := by
  induction bs generalizing before with
  | nil => exact absurd h.symm (by simp)
  | cons b bs ih =>
    rw [List.flatMap_cons] at h
    rcases split_append h with ⟨rest, hfirst⟩ | ⟨outer, hbefore, hlater⟩
    · exact ⟨[], b, bs, before, rest, rfl, hfirst, rfl⟩
    · obtain ⟨front, b', back, inner, rest, rfl, hb', rfl⟩ := ih hlater
      refine ⟨b :: front, b', back, inner, rest, rfl, hb', ?_⟩
      rw [hbefore, List.flatMap_cons, List.append_assoc]

/-- Where some element of a list meets a condition, there is a last one that does. -/
theorem exists_split_last {α : Type} {condition : α → Prop} {l : List α}
    (hsome : ∃ a ∈ l, condition a) :
    ∃ before a after, l = before ++ a :: after ∧ condition a ∧ ∀ b ∈ after, ¬condition b := by
  induction l using List.reverseRecOn with
  | nil =>
    obtain ⟨a, ha, -⟩ := hsome
    exact absurd ha List.not_mem_nil
  | append_singleton l b ih =>
    by_cases hb : condition b
    · exact ⟨l, b, [], rfl, hb, fun c hc => absurd hc List.not_mem_nil⟩
    · have hearlier : ∃ a ∈ l, condition a := by
        obtain ⟨a, ha, hmeets⟩ := hsome
        rcases List.mem_append.1 ha with ha | ha
        · exact ⟨a, ha, hmeets⟩
        · exact absurd (List.mem_singleton.1 ha ▸ hmeets) hb
      obtain ⟨before, a, after, rfl, hmeets, hafter⟩ := ih hearlier
      refine ⟨before, a, after ++ [b], by simp, hmeets, fun c hc => ?_⟩
      rcases List.mem_append.1 hc with hc | hc
      · exact hafter c hc
      · exact List.mem_singleton.1 hc ▸ hb

/-- Lists put together have no repetition when none of them has one and no two
    places share an element. -/
theorem nodup_flatMap_of_places {α β : Type} {as : List α} {f : α → List β}
    (hnodup : ∀ a ∈ as, (f a).Nodup)
    (happart : ∀ (i j : Nat) a b x, as[i]? = some a → as[j]? = some b → x ∈ f a → x ∈ f b → i = j) :
    (as.flatMap f).Nodup := by
  rw [List.nodup_flatMap]
  refine ⟨hnodup, List.pairwise_iff_getElem.2 ?_⟩
  intro i j hi hj hij
  refine List.disjoint_left.2 fun x hxi hxj => ?_
  have heq := happart i j as[i] as[j] x (List.getElem?_eq_getElem hi) (List.getElem?_eq_getElem hj)
    hxi hxj
  omega

/-- A list without repetition whose elements are all equal has one at most. -/
theorem length_le_one_of_eq {α : Type} {l : List α} (hnodup : l.Nodup)
    (heq : ∀ a ∈ l, ∀ b ∈ l, a = b) : l.length ≤ 1 := by
  match l with
  | [] => exact Nat.zero_le 1
  | [_] => exact Nat.le_refl 1
  | a :: b :: rest =>
    have hsame : a = b := heq a (by simp) b (by simp)
    exact absurd (hsame ▸ List.mem_cons_self) (List.nodup_cons.1 hnodup).1

/-- Where one element at most meets a condition, it is the one that is found. -/
theorem find?_eq_some_iff_of_unique {α : Type} {l : List α} {condition : α → Bool}
    (hunique : ∀ a ∈ l, ∀ b ∈ l, condition a = true → condition b = true → a = b) {a : α} :
    l.find? condition = some a ↔ a ∈ l ∧ condition a = true := by
  constructor
  · intro hfound
    exact ⟨List.mem_of_find?_eq_some hfound, List.find?_some hfound⟩
  · rintro ⟨ha, hmeets⟩
    obtain ⟨b, hb⟩ := Option.isSome_iff_exists.1 (List.find?_isSome.2 ⟨a, ha, hmeets⟩)
    rw [hb, hunique b (List.mem_of_find?_eq_some hb) a ha (List.find?_some hb) hmeets]

/-- The steps behind those that succeed go on from what these came to. -/
theorem foldlM_append_of_ok {α β ε : Type} {f : β → α → Except ε β} {front back : List α}
    {b b' : β} (hfront : front.foldlM f b = .ok b') :
    (front ++ back).foldlM f b = back.foldlM f b' := by
  rw [List.foldlM_append, hfront]
  rfl

/-- A sequence of fallible steps fails at the first step that does. -/
theorem foldlM_eq_error_iff {α β ε : Type} {f : β → α → Except ε β} {as : List α} {b : β}
    {e : ε} :
    as.foldlM f b = .error e ↔ ∃ front a back b', as = front ++ a :: back ∧
      front.foldlM f b = .ok b' ∧ f b' a = .error e := by
  induction as generalizing b with
  | nil =>
    refine iff_of_false (fun h => nomatch h) ?_
    rintro ⟨front, a, back, -, hsplit, -⟩
    exact absurd hsplit.symm (by simp)
  | cons a rest ih =>
    rw [List.foldlM_cons]
    cases hfirst : f b a with
    | error e' =>
      constructor
      · intro he
        exact ⟨[], a, rest, b, rfl, rfl, hfirst.trans he⟩
      · rintro ⟨front, a', back, b', hsplit, hfront, he⟩
        cases front with
        | nil =>
          obtain ⟨rfl, rfl⟩ := List.cons.inj hsplit
          obtain rfl := Except.ok.inj hfront
          exact hfirst.symm.trans he
        | cons x front =>
          obtain ⟨rfl, rfl⟩ := List.cons.inj hsplit
          rw [List.foldlM_cons, hfirst] at hfront
          cases hfront
    | ok b₁ =>
      refine Iff.trans (ih (b := b₁)) ?_
      constructor
      · rintro ⟨front, a', back, b', rfl, hfront, he⟩
        exact ⟨a :: front, a', back, b', rfl, by rw [List.foldlM_cons, hfirst]; exact hfront, he⟩
      · rintro ⟨front, a', back, b', hsplit, hfront, he⟩
        cases front with
        | nil =>
          obtain ⟨rfl, rfl⟩ := List.cons.inj hsplit
          obtain rfl := Except.ok.inj hfront
          cases hfirst.symm.trans he
        | cons x front =>
          obtain ⟨rfl, rfl⟩ := List.cons.inj hsplit
          rw [List.foldlM_cons, hfirst] at hfront
          exact ⟨front, a', back, b', rfl, hfront, he⟩

end FactTypes
