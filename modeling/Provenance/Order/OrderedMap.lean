/-
Finite maps, kept in the order of their keys.

A map is the list of its entries with keys in order, each key once. As with sets, two maps that
answer every look-up alike are equal (`OrderedMap.ext`).
-/
import Provenance.Order.Coded

set_option autoImplicit false

namespace Provenance

open Coded (Before)

/-- A finite map: its entries in the order of their keys, each key once. -/
structure OrderedMap (κ β : Type) [Coded κ] where
  /-- The entries, first key to last. -/
  toList : List (κ × β)
  /-- Every key comes before those that follow it. -/
  sorted : toList.Pairwise fun p q => Before p.1 q.1

namespace OrderedMap

variable {κ β : Type} [Coded κ]

theorem toList_injective {m n : OrderedMap κ β} (h : m.toList = n.toList) : m = n := by
  cases m; cases n; simpa using h

instance [DecidableEq κ] [DecidableEq β] : DecidableEq (OrderedMap κ β) := fun m n =>
  decidable_of_iff (m.toList = n.toList) ⟨toList_injective, fun h => h ▸ rfl⟩

/-! ## Operations -/

def empty : OrderedMap κ β := ⟨[], .nil⟩

instance : EmptyCollection (OrderedMap κ β) := ⟨empty⟩

instance : Inhabited (OrderedMap κ β) := ⟨empty⟩

def size (m : OrderedMap κ β) : Nat := m.toList.length

/-- The entry of a key in an ordered list of entries. -/
def lookup (k : κ) : List (κ × β) → Option β
  | [] => none
  | (l, b) :: rest =>
    if Before k l then none else if Before l k then lookup k rest else some b

/-- What the map holds for a key. -/
def get? (m : OrderedMap κ β) (k : κ) : Option β := lookup k m.toList

/-- Puts an entry at its place in an ordered list, in place of an entry with its key. -/
def insertInto (k : κ) (b : β) : List (κ × β) → List (κ × β)
  | [] => [(k, b)]
  | (l, c) :: rest =>
    if Before k l then (k, b) :: (l, c) :: rest
    else if Before l k then (l, c) :: insertInto k b rest
    else (k, b) :: rest

theorem fst_of_mem_insertInto {k : κ} {b : β} {l : List (κ × β)} {p : κ × β}
    (h : p ∈ insertInto k b l) : p.1 = k ∨ p ∈ l := by
  induction l with
  | nil => exact .inl (by simp [insertInto] at h; simp [h])
  | cons q rest ih =>
    obtain ⟨l, c⟩ := q
    rw [insertInto] at h
    split at h
    · rcases List.mem_cons.1 h with h | h
      · exact .inl (by simp [h])
      · exact .inr h
    · split at h
      · rcases List.mem_cons.1 h with h | h
        · exact .inr (by simp [h])
        · exact (ih h).imp_right (List.mem_cons_of_mem _)
      · rcases List.mem_cons.1 h with h | h
        · exact .inl (by simp [h])
        · exact .inr (List.mem_cons_of_mem _ h)

theorem sorted_insertInto {k : κ} {b : β} {l : List (κ × β)}
    (h : l.Pairwise fun p q => Before p.1 q.1) :
    (insertInto k b l).Pairwise fun p q => Before p.1 q.1 := by
  induction l with
  | nil => simp [insertInto]
  | cons q rest ih =>
    obtain ⟨l, c⟩ := q
    obtain ⟨hl, hr⟩ := List.pairwise_cons.1 h
    rw [insertInto]
    split
    · rename_i hkl
      exact List.pairwise_cons.2 ⟨fun p hp => by
        rcases List.mem_cons.1 hp with rfl | hp
        · exact hkl
        · exact hkl.trans (hl p hp), h⟩
    · rename_i hkl
      split
      · rename_i hlk
        exact List.pairwise_cons.2 ⟨fun p hp => by
          rcases fst_of_mem_insertInto hp with e | hp
          · exact e ▸ hlk
          · exact hl p hp, ih hr⟩
      · rename_i hlk
        have e : k = l := Coded.eq_of_not_before hkl hlk
        exact List.pairwise_cons.2 ⟨fun p hp => e ▸ hl p hp, hr⟩

/-- The map with one entry set. -/
def insert (m : OrderedMap κ β) (k : κ) (b : β) : OrderedMap κ β :=
  ⟨insertInto k b m.toList, sorted_insertInto m.sorted⟩

/-- The map of some entries, of which a later one with the same key counts. -/
def ofList (l : List (κ × β)) : OrderedMap κ β := l.foldl (fun m p => m.insert p.1 p.2) empty

/-! ## Look-up -/

@[simp] theorem get?_empty (k : κ) : (∅ : OrderedMap κ β).get? k = none := rfl

theorem lookup_insertInto_self (k : κ) (b : β) (l : List (κ × β)) :
    lookup k (insertInto k b l) = some b := by
  induction l with
  | nil => simp [insertInto, lookup, Before.irrefl]
  | cons q rest ih =>
    obtain ⟨l, c⟩ := q
    rw [insertInto]
    split
    · simp [lookup, Before.irrefl]
    · rename_i hkl
      split
      · rename_i hlk
        simp [lookup, hkl, hlk, ih]
      · simp [lookup, Before.irrefl]

theorem lookup_insertInto_of_ne {j k : κ} (b : β) (l : List (κ × β)) (h : j ≠ k) :
    lookup j (insertInto k b l) = lookup j l := by
  induction l with
  | nil =>
    by_cases hjk : Before j k
    · simp [insertInto, lookup, hjk]
    · by_cases hkj : Before k j
      · simp [insertInto, lookup, hjk, hkj]
      · exact absurd (Coded.eq_of_not_before hjk hkj) h
  | cons q rest ih =>
    obtain ⟨l, c⟩ := q
    by_cases hkl : Before k l
    · rw [insertInto, if_pos hkl]
      by_cases hjk : Before j k
      · simp [lookup, hjk, hjk.trans hkl]
      · by_cases hkj : Before k j
        · simp [lookup, hjk, hkj]
        · exact absurd (Coded.eq_of_not_before hjk hkj) h
    · by_cases hlk : Before l k
      · simp only [insertInto, if_neg hkl, if_pos hlk, lookup, ih]
      · have e : k = l := Coded.eq_of_not_before hkl hlk
        subst e
        rw [insertInto, if_neg hkl, if_neg hlk]
        by_cases hjk : Before j k
        · simp [lookup, hjk]
        · by_cases hkj : Before k j
          · simp [lookup, hjk, hkj]
          · exact absurd (Coded.eq_of_not_before hjk hkj) h

@[simp] theorem get?_insert_self (m : OrderedMap κ β) (k : κ) (b : β) :
    (m.insert k b).get? k = some b := lookup_insertInto_self k b m.toList

theorem get?_insert_of_ne (m : OrderedMap κ β) {j k : κ} (b : β) (h : j ≠ k) :
    (m.insert k b).get? j = m.get? j := lookup_insertInto_of_ne b m.toList h

/-! ## Maps are what they answer -/

/-- A key that comes before every key of a list has no entry in it. -/
theorem lookup_eq_none {k : κ} {l : List (κ × β)} (h : ∀ p ∈ l, Before k p.1) :
    lookup k l = none := by
  cases l with
  | nil => rfl
  | cons q rest =>
    obtain ⟨l, c⟩ := q
    rw [lookup, if_pos (h (l, c) List.mem_cons_self)]

theorem lookup_cons_self (k : κ) (b : β) (l : List (κ × β)) :
    lookup k ((k, b) :: l) = some b := by
  simp [lookup, Before.irrefl]

/-- Behind its first entry an ordered list answers as before, except for the first key. -/
theorem lookup_tail {j k : κ} {b : β} {l : List (κ × β)} (h : ∀ p ∈ l, Before k p.1)
    (hj : j ≠ k) : lookup j l = lookup j ((k, b) :: l) := by
  rw [lookup]
  by_cases hjk : Before j k
  · rw [if_pos hjk]
    exact lookup_eq_none fun p hp => hjk.trans (h p hp)
  · by_cases hkj : Before k j
    · rw [if_neg hjk, if_pos hkj]
    · exact absurd (Coded.eq_of_not_before hjk hkj) hj

/-- Ordered lists that answer every look-up alike are equal. -/
theorem eq_of_lookup_eq {l m : List (κ × β)} (hl : l.Pairwise fun p q => Before p.1 q.1)
    (hm : m.Pairwise fun p q => Before p.1 q.1) (h : ∀ k, lookup k l = lookup k m) : l = m := by
  induction l generalizing m with
  | nil =>
    cases m with
    | nil => rfl
    | cons q m =>
      obtain ⟨j, c⟩ := q
      have e := h j
      rw [lookup_cons_self] at e
      cases e
  | cons p l ih =>
    obtain ⟨k, b⟩ := p
    obtain ⟨hkl, hl'⟩ := List.pairwise_cons.1 hl
    cases m with
    | nil =>
      have e := h k
      rw [lookup_cons_self] at e
      cases e
    | cons q m =>
      obtain ⟨j, c⟩ := q
      obtain ⟨hjm, hm'⟩ := List.pairwise_cons.1 hm
      have hk := h k
      have hj := h j
      rw [lookup_cons_self] at hk hj
      -- the first keys agree, for the smaller one would be missing on the other side
      have hkj : ¬ Before k j := fun hkj => by
        rw [lookup, if_pos hkj] at hk
        cases hk
      have hjk : ¬ Before j k := fun hjk => by
        rw [lookup, if_pos hjk] at hj
        cases hj
      obtain rfl := Coded.eq_of_not_before hkj hjk
      rw [lookup_cons_self] at hk
      obtain rfl := Option.some.inj hk
      have htail : ∀ i, lookup i l = lookup i m := fun i => by
        by_cases hi : i = k
        · rw [hi, lookup_eq_none hkl, lookup_eq_none hjm]
        · rw [lookup_tail hkl hi, lookup_tail hjm hi, h i]
      rw [ih hl' hm' htail]

/-- Two maps that answer every look-up alike are equal. -/
theorem ext {m n : OrderedMap κ β} (h : ∀ k, m.get? k = n.get? k) : m = n :=
  toList_injective (eq_of_lookup_eq m.sorted n.sorted h)

/-! ## One entry after another -/

/-- Of two entries for one key the second counts. -/
theorem insert_insert (m : OrderedMap κ β) (k : κ) (b c : β) :
    (m.insert k b).insert k c = m.insert k c := by
  refine ext fun j => ?_
  by_cases h : j = k
  · rw [h, get?_insert_self, get?_insert_self]
  · rw [get?_insert_of_ne _ c h, get?_insert_of_ne _ b h, get?_insert_of_ne _ c h]

/-- Setting an entry to what it is changes nothing. -/
theorem insert_of_get?_eq_some {m : OrderedMap κ β} {k : κ} {b : β} (h : m.get? k = some b) :
    m.insert k b = m := by
  refine ext fun j => ?_
  by_cases hj : j = k
  · rw [hj, get?_insert_self, h]
  · rw [get?_insert_of_ne _ b hj]

/-- Entries of different keys may be set in any order. -/
theorem insert_comm (m : OrderedMap κ β) {j k : κ} (h : j ≠ k) (b c : β) :
    (m.insert j b).insert k c = (m.insert k c).insert j b := by
  refine ext fun i => ?_
  by_cases hj : i = j
  · rw [hj, get?_insert_of_ne _ c h, get?_insert_self, get?_insert_self]
  · by_cases hk : i = k
    · rw [hk, get?_insert_self, get?_insert_of_ne _ b h.symm, get?_insert_self]
    · rw [get?_insert_of_ne _ c hk, get?_insert_of_ne _ b hj, get?_insert_of_ne _ b hj,
        get?_insert_of_ne _ c hk]

end OrderedMap

end Provenance
