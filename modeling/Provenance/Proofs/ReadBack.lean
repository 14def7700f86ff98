/-
Values that are read back from what is written about them.

What a writer says about a value is read back as the value (`ReadsBack`), as long as the levels of
nesting suffice. Records are read back field by field (`Fills`), variants by their name, and lists
item by item. So a reader and a writer that name their fields and variants alike belong together,
and that they do is seen from their definitions.
-/
import Provenance.Interchange.Read
import Provenance.Interchange.Write
import Provenance.Proofs.PrintedText

set_option autoImplicit false

namespace Provenance

open Json (Problem)

/-! ## Nesting -/

namespace Json

mutual

/-- How many lists and objects are around the innermost value. -/
def depth : Json → Nat
  | array items => itemsDepth items + 1
  | object members => membersDepth members + 1
  | null | bool _ | integer _ | real _ | string _ => 0

def itemsDepth : List Json → Nat
  | [] => 0
  | item :: rest => max item.depth (itemsDepth rest)

def membersDepth : List (String × Json) → Nat
  | [] => 0
  | (_, value) :: rest => max value.depth (membersDepth rest)

end

theorem depth_le_itemsDepth {l : List Json} {j : Json} (h : j ∈ l) :
    j.depth ≤ itemsDepth l := by
  induction l with
  | nil => cases h
  | cons first l ih =>
    rw [itemsDepth]
    rcases List.mem_cons.1 h with rfl | h
    · exact Nat.le_max_left _ _
    · exact Nat.le_trans (ih h) (Nat.le_max_right _ _)

end Json

/-- With levels enough for a value, a reader reads it as something. -/
def ReadsBack {α : Type} (read : Nat → Document → Read α) (j : Json) (a : α) : Prop :=
  ∀ levels, j.depth ≤ levels → read levels (Document.ofJson j) = .ok a

section Readers

variable {α σ : Type}

theorem ReadsBack.plain {read : Document → Read α} {j : Json} {a : α}
    (h : read (Document.ofJson j) = .ok a) : ReadsBack (fun _ => read) j a :=
  fun _ _ => h

theorem ReadsBack.map {β : Type} {read : Nat → Document → Read α} {j : Json} {a : α} (f : α → β)
    (h : ReadsBack read j a) : ReadsBack (fun levels d => (read levels d).map f) j (f a) := by
  intro levels hlevels
  show (read levels (Document.ofJson j)).map f = _
  rw [h levels hlevels]
  rfl

/-! ## Lists and variants -/

theorem Items.readAll_ofJson {write : α → Json} {read : Nat → Document → Read α} {l : List α}
    (h : ∀ a ∈ l, ReadsBack read (write a) a) {levels : Nat}
    (hlevels : Json.itemsDepth (l.map write) ≤ levels) :
    (Items.ofJson (l.map write)).readAll (read levels) = .ok l := by
  induction l with
  | nil => rfl
  | cons a l ih =>
    obtain ⟨ha, hl⟩ := List.forall_mem_cons.1 h
    rw [List.map_cons, Json.itemsDepth] at hlevels
    rw [List.map_cons, Items.ofJson, Items.readAll, ha levels (by omega), ih hl (by omega)]
    rfl

theorem ReadsBack.list {write : α → Json} {read : Nat → Document → Read α} {l : List α}
    (h : ∀ a ∈ l, ReadsBack read (write a) a) :
    ReadsBack (fun levels => Document.readList levels read) (.array (l.map write)) l := by
  intro levels hlevels
  rw [Json.depth] at hlevels
  obtain ⟨levels, rfl⟩ : ∃ n, levels = n + 1 := ⟨levels - 1, by omega⟩
  exact Items.readAll_ofJson h (by omega)

variable {variant? : String → Option (Variant α)} {name : String} {a : α}

theorem ReadsBack.unit (h : variant? name = some (.unit a)) :
    ReadsBack (fun levels d => d.readVariant levels variant?) (.string name) a := by
  intro levels _
  simp only [Document.ofJson, Document.readVariant, bind, Except.bind, h]

theorem ReadsBack.holding {read : Nat → Document → Read α} {content : Json}
    (h : variant? name = some (.holding read)) (hread : ReadsBack read content a) :
    ReadsBack (fun levels d => d.readVariant levels variant?) (.variant name content) a := by
  intro levels hlevels
  simp only [Json.variant, Json.depth, Json.membersDepth, Nat.max_zero] at hlevels
  obtain ⟨levels, rfl⟩ : ∃ n, levels = n + 1 := ⟨levels - 1, by omega⟩
  have hcontent : read levels (Document.ofJson content) = .ok a := hread levels (by omega)
  simp only [Json.variant, Document.ofJson, Members.ofJson, Document.readVariant, Document.descend,
    bind, Except.bind, h, hcontent]
  rfl

/-! ## Records -/

/-- Fields read the members of their names one after the other, none of them being set before. -/
inductive Fills : List (Field σ) → List (String × Json) → σ → σ → Prop where
  | nil (draft : σ) : Fills [] [] draft draft
  | cons {field : Field σ} {fields : List (Field σ)} {value : Json}
      {members : List (String × Json)} {draft next last : σ} (hset : field.isSet draft = false)
      (hread : ∀ levels, value.depth ≤ levels →
        field.read levels (Document.ofJson value) draft = .ok next)
      (rest : Fills fields members next last) :
      Fills (field :: fields) ((field.name, value) :: members) draft last

theorem Fills.readFields {all fields : List (Field σ)} {members : List (String × Json)}
    {draft last : σ} (h : Fills fields members draft last)
    (hall : ∀ field ∈ fields, all.find? (fun other => other.name == field.name) = some field)
    {levels : Nat} (hlevels : Json.membersDepth members ≤ levels) :
    (Members.ofJson members).readFields all levels draft = .ok last := by
  induction h with
  | nil draft => rfl
  | cons hset hread rest ih =>
    -- the field is looked up among all fields, also those that were filled before
    obtain ⟨hfield, hall⟩ := List.forall_mem_cons.1 hall
    rw [Json.membersDepth] at hlevels
    rw [Members.ofJson, Members.readFields, hfield]
    dsimp only
    rw [if_neg (by rw [hset]; exact Bool.false_ne_true), hread levels (by omega)]
    exact ih hall (by omega)

theorem Fills.orDefault {field : Field σ} {fields : List (Field σ)}
    {members : List (String × Json)} {draft last : σ}
    (h : Fills (field :: fields) members draft last) :
    Fills (field.orDefault :: fields) members draft last := by
  cases h with
  | cons hset hread rest => exact Fills.cons hset hread rest

theorem Fills.nested {β : Type} {name : String} {get : σ → Option β} {set : β → σ → σ}
    {read : Nat → Document → Read β} {fields : List (Field σ)} {value : Json} {b : β}
    {members : List (String × Json)} {draft last : σ} (hread : ReadsBack read value b)
    (hget : get draft = none) (rest : Fills fields members (set b draft) last) :
    Fills (.nested name get set read :: fields) ((name, value) :: members) draft last := by
  have hset : (Field.nested name get set read).isSet draft = false := by
    show (get draft).isSome = false
    rw [hget]
    rfl
  refine Fills.cons hset (fun levels hlevels => ?_) rest
  show (read levels (Document.ofJson value)).map _ = _
  rw [hread levels hlevels]
  rfl

theorem Fills.plain {β : Type} {name : String} {get : σ → Option β} {set : β → σ → σ}
    {read : Document → Read β} {fields : List (Field σ)} {value : Json} {b : β}
    {members : List (String × Json)} {draft last : σ}
    (hread : read (Document.ofJson value) = .ok b) (hget : get draft = none)
    (rest : Fills fields members (set b draft) last) :
    Fills (.plain name get set read :: fields) ((name, value) :: members) draft last :=
  Fills.nested (ReadsBack.plain hread) hget rest

/-- Among fields of different names each is found under its own. -/
theorem find?_name {fields : List (Field σ)} (h : (fields.map (·.name)).Nodup) :
    ∀ field ∈ fields, fields.find? (fun other => other.name == field.name) = some field := by
  induction fields with
  | nil => exact fun _ hfield => nomatch hfield
  | cons first fields ih =>
    rw [List.map_cons, List.nodup_cons] at h
    rintro field (_ | ⟨_, hfield⟩)
    · exact List.find?_cons_of_pos (beq_self_eq_true first.name)
    · rw [List.find?_cons_of_neg, ih h.2 field hfield]
      intro hname
      exact h.1 (beq_iff_eq.1 hname ▸ List.mem_map_of_mem hfield)

/-- A record is read back if its fields fill the draft that it is made of. -/
theorem ReadsBack.record {fields : List (Field σ)} {members : List (String × Json)}
    {empty draft : σ} {finish : σ → Option α} {a : α} (h : Fills fields members empty draft)
    (hnames : (fields.map (·.name)).Nodup) (hfinish : finish draft = some a) :
    ReadsBack (fun levels d => d.readRecord levels fields empty finish) (.object members) a := by
  intro levels hlevels
  rw [Json.depth] at hlevels
  obtain ⟨levels, rfl⟩ : ∃ n, levels = n + 1 := ⟨levels - 1, by omega⟩
  have hdraft : (Members.ofJson members).readFields fields levels empty = .ok draft :=
    h.readFields (find?_name hnames) (by omega)
  simp only [Document.ofJson, Document.readRecord, Document.descend, bind, Except.bind, hdraft,
    hfinish]

end Readers

/-! ## Plain values -/

/-- A number that an index can hold. -/
def IsIndex (n : Nat) : Prop := n < Nat.pow 2 Document.indexBits

instance (n : Nat) : Decidable (IsIndex n) :=
  inferInstanceAs (Decidable (n < Nat.pow 2 Document.indexBits))

namespace Document

theorem readInt_ofJson {least greatest i : Int} (h : least ≤ i ∧ i ≤ greatest) :
    (ofJson (.integer i)).readInt least greatest = .ok i :=
  if_pos h

theorem readNat_ofJson {bits n : Nat} (h : n < Nat.pow 2 bits) :
    (ofJson (.natural n)).readNat bits = .ok n := by
  have hn : (0 : Int) ≤ n ∧ (n : Int) ≤ wordCount bits - 1 :=
    ⟨Int.natCast_nonneg n, Int.le_sub_one_of_lt (Int.ofNat_lt.2 h)⟩
  unfold readNat Json.natural
  rw [readInt_ofJson hn]
  rfl

theorem readSigned_ofJson {bits : Nat} {i : Int}
    (h : -wordCount (bits - 1) ≤ i ∧ i < wordCount (bits - 1)) :
    (ofJson (.integer i)).readSigned bits = .ok i :=
  readInt_ofJson ⟨h.1, Int.le_sub_one_of_lt h.2⟩

theorem readIndex_ofJson {n : Nat} (h : IsIndex n) : (ofJson (.natural n)).readIndex = .ok n :=
  readNat_ofJson h

theorem readInt32_ofJson (i : Int32) : (ofJson (.integer i.toInt)).readInt32 = .ok i := by
  unfold readInt32
  rw [readSigned_ofJson ⟨i.le_toInt, i.toInt_lt⟩]
  exact congrArg Except.ok (Int32.ofInt_toInt i)

theorem readInt16_ofJson (i : Int16) : (ofJson (.integer i.toInt)).readInt16 = .ok i := by
  unfold readInt16
  rw [readSigned_ofJson ⟨i.le_toInt, i.toInt_lt⟩]
  exact congrArg Except.ok (Int16.ofInt_toInt i)

theorem readInt64_ofJson (i : Int64) : (ofJson (.integer i.toInt)).readInt64 = .ok i := by
  unfold readInt64
  rw [readSigned_ofJson ⟨i.le_toInt, i.toInt_lt⟩]
  exact congrArg Except.ok (Int64.ofInt_toInt i)

theorem readUInt16_ofJson (n : UInt16) : (ofJson (.natural n.toNat)).readUInt16 = .ok n := by
  unfold readUInt16
  rw [readNat_ofJson n.toNat_lt]
  exact congrArg Except.ok (UInt16.ofNat_toNat)

theorem readUInt8_ofJson (n : UInt8) : (ofJson (.natural n.toNat)).readUInt8 = .ok n := by
  unfold readUInt8
  rw [readNat_ofJson n.toNat_lt]
  exact congrArg Except.ok (UInt8.ofNat_toNat)

theorem readOptional_ofJson (text : Option String) :
    readOptional readString (ofJson (.optional .string text)) = .ok text := by
  cases text <;> rfl

end Document

theorem readsBack_naturals {l : List Nat} (h : ∀ n ∈ l, IsIndex n) :
    ReadsBack Document.readIndices (.naturals l) l :=
  .list fun n hn => .plain (Document.readIndex_ofJson (h n hn))

end Provenance
