import Mathlib.Data.List.Nodup

/-!
# Lists of entries that are known by a key

**Search.**  A list is searched for an element that no other can be taken for: the only one that
meets the test (`find_of_unique`), or the one with a key, where keys are distinct (`find_of_key`).

**Order of use.**  A table that forgets its oldest entries keeps them in a list, the least recently
used one first.  Using an entry moves it to the end (`Lru.touch`).
-/

namespace OVS

open List

/-! ## Search -/

section Search

variable {α κ : Type*} {l : List α} {a : α}

/-- The search finds an element that is the only one to meet its condition. -/
lemma find_of_unique {p : α → Bool} (ha : a ∈ l) (hp : p a = true)
    (h : ∀ b ∈ l, p b = true → b = a) : l.find? p = some a := by
  cases hfind : l.find? p with
  | none => exact absurd hp (find?_eq_none.1 hfind a ha)
  | some b => rw [h b (mem_of_find?_eq_some hfind) (find?_some hfind)]

/-- With distinct keys the search for a key finds the element that has it. -/
lemma find_of_key [DecidableEq κ] {key : α → κ} (h : (l.map key).Nodup) (ha : a ∈ l) :
    (l.find? fun b => key b = key a) = some a :=
  find_of_unique ha (by simp) fun _ hb hkey =>
    inj_on_of_nodup_map h hb ha (by simpa using hkey)

end Search

/-! ## Order of use -/

namespace Lru

variable {α κ : Type} [DecidableEq κ]

/-- Put an entry at the end of the list, and take out the one that has its key. -/
def touch (key : α → κ) (l : List α) (x : α) : List α :=
  l.eraseP (fun y => key y = key x) ++ [x]

variable {key : α → κ} {l : List α} {x y : α}

/-- Moving an element to the end adds no element but that one. -/
lemma mem_touch (h : y ∈ touch key l x) : y ∈ l ∨ y = x := by
  rcases mem_append.mp h with h | h
  · exact .inl (mem_of_mem_eraseP h)
  · exact .inr (mem_singleton.mp h)

lemma mem_map_touch {β : Type} {f : α → β} {b : β} (h : b ∈ (touch key l x).map f) :
    b ∈ l.map f ∨ b = f x := by
  obtain ⟨y, hy, rfl⟩ := mem_map.mp h
  rcases mem_touch hy with hy | rfl
  · exact .inl (mem_map_of_mem hy)
  · exact .inr rfl

/-- The keys after a move are those before it with one of them at the end. -/
lemma map_touch (key : α → κ) (l : List α) (x : α) :
    (touch key l x).map key = (l.map key).erase (key x) ++ [key x] := by
  rw [touch, map_append, erase_eq_eraseP', eraseP_map]
  rfl

/-- Where the entry that is taken out is. -/
lemma exists_touch_eq (h : l.find? (fun y => key y = key x) = some y) :
    ∃ pre post, l = pre ++ y :: post ∧ touch key l x = pre ++ post ++ [x] := by
  obtain ⟨hy, pre, post, rfl, hpre⟩ := find?_eq_some_iff_append.1 h
  refine ⟨pre, post, rfl, ?_⟩
  rw [touch, eraseP_append_right _ (by simpa using hpre),
    eraseP_cons_of_pos (p := fun y => key y = key x) hy]

/-- An entry that is there is only moved. -/
lemma perm_map_touch (h : key x ∈ l.map key) : ((touch key l x).map key).Perm (l.map key) := by
  rw [map_touch]
  exact perm_append_comm.trans (perm_cons_erase h).symm

/-- Keys stay unique. -/
lemma nodup_touch (h : (l.map key).Nodup) : ((touch key l x).map key).Nodup := by
  rw [map_touch]
  exact (h.erase _).append (nodup_singleton _) (by simpa using h.not_mem_erase)

/-- Two keys that single out the same entry. -/
lemma touch_congr {κ' : Type} [DecidableEq κ'] {key' : α → κ'}
    (h : ∀ y ∈ l, key y = key x ↔ key' y = key' x) : touch key l x = touch key' l x := by
  rw [touch]
  congr 1
  induction l with
  | nil => rfl
  | cons z l ih =>
    simp only [eraseP_cons, h z mem_cons_self]
    rw [ih fun y hy => h y (mem_cons_of_mem z hy)]

end Lru

end OVS
