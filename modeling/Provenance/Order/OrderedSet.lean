/-
Finite sets, kept in order.

A set is the list of its members in the order of their codes, each once. The order is part of the
type, so two sets with the same members are equal (`OrderedSet.ext`) and a set is written the same
way however it was built.

The file holds the operations and, for each, the one lemma that says what it does to membership.
-/
import Provenance.Order.Coded

set_option autoImplicit false

namespace Provenance

open Coded (Before)

/-- A finite set: its members in order, each once. -/
structure OrderedSet (α : Type) [Coded α] where
  /-- The members, first to last. -/
  toList : List α
  /-- Every member comes before those that follow it. -/
  sorted : toList.Pairwise Before

namespace OrderedSet

variable {α : Type} [Coded α]

theorem toList_injective {s t : OrderedSet α} (h : s.toList = t.toList) : s = t := by
  cases s; cases t; simpa using h

instance [DecidableEq α] : DecidableEq (OrderedSet α) := fun s t =>
  decidable_of_iff (s.toList = t.toList) ⟨toList_injective, fun h => h ▸ rfl⟩

instance : Membership α (OrderedSet α) := ⟨fun s a => a ∈ s.toList⟩

theorem mem_def {a : α} {s : OrderedSet α} : a ∈ s ↔ a ∈ s.toList := Iff.rfl

instance [DecidableEq α] (a : α) (s : OrderedSet α) : Decidable (a ∈ s) :=
  inferInstanceAs (Decidable (a ∈ s.toList))

/-! ## Operations -/

def empty : OrderedSet α := ⟨[], .nil⟩

instance : EmptyCollection (OrderedSet α) := ⟨empty⟩

instance : Inhabited (OrderedSet α) := ⟨empty⟩

def singleton (a : α) : OrderedSet α := ⟨[a], List.pairwise_singleton _ a⟩

def isEmpty (s : OrderedSet α) : Bool := s.toList.isEmpty

def size (s : OrderedSet α) : Nat := s.toList.length

/-- Puts an element at its place in an ordered list, unless it is there. -/
def insertInto (a : α) : List α → List α
  | [] => [a]
  | b :: rest =>
    if Before a b then a :: b :: rest
    else if Before b a then b :: insertInto a rest
    else b :: rest

theorem mem_insertInto {a c : α} {l : List α} : c ∈ insertInto a l ↔ c = a ∨ c ∈ l := by
  induction l with
  | nil => simp [insertInto]
  | cons b rest ih =>
    rw [insertInto]
    split
    · simp
    · split
      · simp only [List.mem_cons, ih]
        exact or_left_comm
      · rename_i h k
        have hab : a = b := Coded.eq_of_not_before h k
        simp [hab]

theorem sorted_insertInto {a : α} {l : List α} (h : l.Pairwise Before) :
    (insertInto a l).Pairwise Before := by
  induction l with
  | nil => simp [insertInto]
  | cons b rest ih =>
    obtain ⟨hb, hr⟩ := List.pairwise_cons.1 h
    rw [insertInto]
    split
    · rename_i hab
      exact List.pairwise_cons.2 ⟨fun c hc => by
        rcases List.mem_cons.1 hc with rfl | hc
        · exact hab
        · exact hab.trans (hb c hc), h⟩
    · split
      · rename_i hba
        exact List.pairwise_cons.2 ⟨fun c hc => by
          rcases mem_insertInto.1 hc with rfl | hc
          · exact hba
          · exact hb c hc, ih hr⟩
      · exact h

def insert (a : α) (s : OrderedSet α) : OrderedSet α :=
  ⟨insertInto a s.toList, sorted_insertInto s.sorted⟩

/-- The set without one element. -/
def erase (s : OrderedSet α) (a : α) : OrderedSet α :=
  ⟨s.toList.filter fun b => Before a b ∨ Before b a, s.sorted.filter _⟩

/-- All members of both sets. -/
def union (s t : OrderedSet α) : OrderedSet α := t.toList.foldl (fun u a => u.insert a) s

instance : Union (OrderedSet α) := ⟨union⟩

def ofList (l : List α) : OrderedSet α := l.foldl (fun u a => u.insert a) empty

/-- The set of the images of all members. -/
def image {β : Type} [Coded β] (f : α → β) (s : OrderedSet α) : OrderedSet β :=
  ofList (s.toList.map f)

/-! ## Membership -/

@[simp] theorem not_mem_empty (a : α) : ¬ a ∈ (∅ : OrderedSet α) := List.not_mem_nil

@[simp] theorem mem_singleton {a b : α} : a ∈ singleton b ↔ a = b := List.mem_singleton

@[simp] theorem mem_insert {a b : α} {s : OrderedSet α} : b ∈ s.insert a ↔ b = a ∨ b ∈ s :=
  mem_insertInto

@[simp] theorem mem_erase {a b : α} {s : OrderedSet α} : b ∈ s.erase a ↔ b ∈ s ∧ b ≠ a := by
  show b ∈ s.toList.filter _ ↔ _
  rw [List.mem_filter, mem_def]
  refine and_congr_right fun _ => ?_
  rw [decide_eq_true_iff]
  exact ⟨fun h e => h.elim (fun h => h.ne e.symm) (fun h => h.ne e), fun h =>
    Decidable.byContradiction fun k =>
      h (Coded.eq_of_not_before (fun h' => k (.inr h')) fun h' => k (.inl h'))⟩

theorem mem_foldl_insert {l : List α} {s : OrderedSet α} {a : α} :
    a ∈ l.foldl (fun u b => u.insert b) s ↔ a ∈ s ∨ a ∈ l := by
  induction l generalizing s with
  | nil => simp
  | cons b rest ih => simp [ih, or_assoc, or_comm (a := a = b)]

@[simp] theorem mem_union {s t : OrderedSet α} {a : α} : a ∈ s ∪ t ↔ a ∈ s ∨ a ∈ t :=
  mem_foldl_insert

@[simp] theorem mem_ofList {l : List α} {a : α} : a ∈ ofList l ↔ a ∈ l := by
  rw [ofList, mem_foldl_insert]
  exact or_iff_right List.not_mem_nil

@[simp] theorem mem_image {β : Type} [Coded β] {f : α → β} {s : OrderedSet α} {b : β} :
    b ∈ s.image f ↔ ∃ a ∈ s, f a = b := by
  rw [image, mem_ofList, List.mem_map]
  rfl

theorem isEmpty_iff {s : OrderedSet α} : s.isEmpty ↔ s = ∅ := by
  rw [isEmpty, List.isEmpty_iff]
  exact ⟨fun h => toList_injective h, fun h => h ▸ rfl⟩

/-- Two ordered lists with the same elements are the same list. -/
theorem eq_of_mem_iff {l m : List α} (hl : l.Pairwise Before) (hm : m.Pairwise Before)
    (h : ∀ a, a ∈ l ↔ a ∈ m) : l = m := by
  induction l generalizing m with
  | nil =>
    cases m with
    | nil => rfl
    | cons b m => exact absurd ((h b).2 (List.mem_cons_self ..)) List.not_mem_nil
  | cons a l ih =>
    cases m with
    | nil => exact absurd ((h a).1 (List.mem_cons_self ..)) List.not_mem_nil
    | cons b m =>
      obtain ⟨ha, hl⟩ := List.pairwise_cons.1 hl
      obtain ⟨hb, hm'⟩ := List.pairwise_cons.1 hm
      have hab : a = b := by
        rcases List.mem_cons.1 ((h a).1 (List.mem_cons_self ..)) with e | hma
        · exact e
        · rcases List.mem_cons.1 ((h b).2 (List.mem_cons_self ..)) with e | hlb
          · exact e.symm
          · exact absurd (hb a hma) (ha b hlb).asymm
      subst hab
      rw [ih hl hm' fun c => ?_]
      constructor
      · intro hc
        rcases List.mem_cons.1 ((h c).1 (List.mem_cons_of_mem _ hc)) with e | hcm
        · exact absurd e.symm (ha c hc).ne
        · exact hcm
      · intro hc
        rcases List.mem_cons.1 ((h c).2 (List.mem_cons_of_mem _ hc)) with e | hcl
        · exact absurd e.symm (hb c hc).ne
        · exact hcl

/-- Sets with the same members are the same set. -/
theorem ext {s t : OrderedSet α} (h : ∀ a, a ∈ s ↔ a ∈ t) : s = t :=
  toList_injective (eq_of_mem_iff s.sorted t.sorted h)

end OrderedSet

end Provenance
