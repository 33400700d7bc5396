import Mathlib.Tactic.Tauto
import TopicSchema.Source

namespace TopicSchema.Schema

def fresh (seen : List String) : List (TypeKind × String) → List (TypeKind × String)
  | [] => []
  | r :: rs => if r.2 ∈ seen then fresh seen rs else r :: fresh (seen ++ [r.2]) rs

def after (seen : List String) (rs : List (TypeKind × String)) : List String :=
  seen ++ (fresh seen rs).map Prod.snd

lemma after_cons_of_mem {seen : List String} {r : TypeKind × String} (h : r.2 ∈ seen)
    (rs : List (TypeKind × String)) : after seen (r :: rs) = after seen rs := by
  rw [after, fresh, if_pos h, after]

lemma after_cons_of_not_mem {seen : List String} {r : TypeKind × String} (h : r.2 ∉ seen)
    (rs : List (TypeKind × String)) : after seen (r :: rs) = after (seen ++ [r.2]) rs := by
  rw [after, fresh, if_neg h, after, List.append_assoc, List.map_cons, List.singleton_append]

lemma fresh_append (seen : List String) (rs ss : List (TypeKind × String)) :
    fresh seen (rs ++ ss) = fresh seen rs ++ fresh (after seen rs) ss := by
  induction rs generalizing seen with
  | nil => simp [fresh, after]
  | cons r rs ih =>
    rw [List.cons_append, fresh, fresh]
    split
    · next h => rw [ih, after_cons_of_mem h]
    · next h => rw [ih, after_cons_of_not_mem h, List.cons_append]

lemma after_append (seen : List String) (rs ss : List (TypeKind × String)) :
    after seen (rs ++ ss) = after (after seen rs) ss := by
  rw [after, fresh_append, List.map_append, ← List.append_assoc]
  rfl

lemma mem_fresh {seen : List String} {rs : List (TypeKind × String)} {r : TypeKind × String} :
    r ∈ fresh seen rs ↔ r.2 ∉ seen ∧ rs.find? (·.2 = r.2) = some r := by
  induction rs generalizing seen with
  | nil => simp [fresh]
  | cons s rs ih =>
    rw [fresh]
    by_cases hs : s.2 = r.2
    · rw [List.find?_cons_of_pos (by simp [hs])]
      split
      · next hm =>
        rw [ih]
        constructor
        · rintro ⟨hr, _⟩
          exact absurd (hs ▸ hm) hr
        · rintro ⟨hr, _⟩
          exact absurd (hs ▸ hm) hr
      · next hm =>
        rw [List.mem_cons, ih]
        constructor
        · rintro (rfl | ⟨hr, _⟩)
          · exact ⟨hm, rfl⟩
          · simp [hs] at hr
        · rintro ⟨_, h⟩
          exact Or.inl (Option.some.inj h).symm
    · rw [List.find?_cons_of_neg (by simpa using hs)]
      split
      · exact ih
      · rw [List.mem_cons, ih]
        constructor
        · rintro (rfl | ⟨hr, h⟩)
          · exact absurd rfl hs
          · exact ⟨fun hm => hr (List.mem_append_left _ hm), h⟩
        · rintro ⟨hr, h⟩
          refine Or.inr ⟨?_, h⟩
          rw [List.mem_append, List.mem_singleton]
          rintro (hm | he)
          · exact hr hm
          · exact hs he.symm

lemma mem_map_fresh {seen : List String} {rs : List (TypeKind × String)} {t : String} :
    t ∈ (fresh seen rs).map Prod.snd ↔ t ∉ seen ∧ t ∈ rs.map Prod.snd := by
  constructor
  · intro h
    obtain ⟨r, hr, rfl⟩ := List.mem_map.mp h
    obtain ⟨hs, hf⟩ := mem_fresh.mp hr
    exact ⟨hs, List.mem_map_of_mem (List.mem_of_find?_eq_some hf)⟩
  · rintro ⟨hs, ht⟩
    obtain ⟨r, hr, rfl⟩ := List.mem_map.mp ht
    obtain ⟨q, hq⟩ := Option.isSome_iff_exists.mp
      (List.find?_isSome.mpr ⟨r, hr, by simp⟩ : (rs.find? (·.2 = r.2)).isSome)
    have he : q.2 = r.2 := by simpa using List.find?_some hq
    exact List.mem_map.mpr ⟨q, mem_fresh.mpr ⟨he ▸ hs, he ▸ hq⟩, he⟩

lemma mem_after {seen : List String} {rs : List (TypeKind × String)} {t : String} :
    t ∈ after seen rs ↔ t ∈ seen ∨ t ∈ rs.map Prod.snd := by
  rw [after, List.mem_append, mem_map_fresh]
  tauto

lemma nodup_fresh (seen : List String) (rs : List (TypeKind × String)) :
    ((fresh seen rs).map Prod.snd).Nodup := by
  induction rs generalizing seen with
  | nil => exact List.nodup_nil
  | cons r rs ih =>
    rw [fresh]
    split
    · exact ih seen
    · rw [List.map_cons, List.nodup_cons]
      refine ⟨?_, ih _⟩
      intro h
      exact (mem_map_fresh.mp h).1 (by simp)

end TopicSchema.Schema
