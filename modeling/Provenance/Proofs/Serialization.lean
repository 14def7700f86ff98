/-
Writing a class and loading it again.

Every type, constant, operand, instruction, handler, method and class is read back from what is
written about it, and the text of the writing is read as it was meant. So loading what was written
gives the class itself, or refuses its first fault (`Class.load_toJson`).

Two kinds of values are left out. The text of a floating constant tells it only up to rounding, and
natural numbers that no index can hold are not read.
-/
import Provenance.Interchange.Load
import Provenance.Proofs.Loading
import Provenance.Proofs.ReadBack

set_option autoImplicit false

namespace Provenance

/-! ## Types -/

theorem JType.allToJson_eq_map (l : List JType) : JType.allToJson l = l.map JType.toJson := by
  induction l with
  | nil => rfl
  | cons t l ih => rw [JType.allToJson, ih, List.map_cons]

/-- A type is read back with fuel for its nesting. -/
theorem JType.readsBack_within {fuel : Nat} : ∀ t : JType, t.toJson.depth < fuel →
    ReadsBack (JType.readWithin fuel) t.toJson t := by
  induction fuel with
  | zero => exact fun _ h => absurd h (Nat.not_lt_zero _)
  | succ fuel ih =>
    -- types inside another are at least one level down, so less fuel suffices for them
    intro t hfuel
    cases t with
    | void | boolean | char | byte | short | int | float | long | double | null | returnAddress =>
      exact .unit rfl
    | object name => exact .holding rfl (.map _ (.plain rfl))
    | array element =>
      simp only [JType.toJson, Json.variant, Json.depth, Json.membersDepth, Nat.max_zero] at hfuel
      exact .holding rfl (.map _ (ih element (by omega)))
    | method arguments result =>
      simp only [JType.toJson, Json.variant, Json.depth, Json.membersDepth, Nat.max_zero,
        JType.allToJson_eq_map] at hfuel
      rw [JType.toJson, JType.allToJson_eq_map]
      have harguments : ∀ t ∈ arguments, ReadsBack (JType.readWithin fuel) t.toJson t := by
        intro t ht
        have hdepth := Json.depth_le_itemsDepth (List.mem_map_of_mem (f := JType.toJson) ht)
        exact ih t (by omega)
      exact .holding rfl (.record
        (.nested (.list harguments) rfl (.nested (ih result (by omega)) rfl (.nil _)))
        (show ["arguments", "ret"].Nodup by decide) rfl)

theorem JType.readsBack (t : JType) : ReadsBack JType.read t.toJson t := fun levels hlevels =>
  t.readsBack_within (Nat.lt_succ_of_le hlevels) levels hlevels

/-! ## What a text tells exactly -/

/-- A number with a point, which a text tells only up to rounding. -/
def Constant.IsFloating : Constant → Prop
  | .float _ | .double _ => True
  | _ => False

instance : DecidablePred Constant.IsFloating := fun value =>
  match value with
  | .float _ | .double _ => isTrue trivial
  | .int _ | .long _ | .string _ | .type _ | .methodHandle .. | .dynamic .. => isFalse id

namespace Operand

/-- The operand is a floating constant. -/
def IsFloating : Operand → Prop
  | constant value => value.IsFloating
  | _ => False

instance : DecidablePred IsFloating := fun operand =>
  match operand with
  | constant value => inferInstanceAs (Decidable value.IsFloating)
  | none | int _ | var _ | increment .. | type _ | field .. | method .. | invokeDynamic ..
  | jump _ | tableSwitch .. | lookupSwitch .. | newArrays .. => isFalse id

/-- Targets are indices. -/
def Fits (operand : Operand) : Prop := ∀ target ∈ operand.jumpTargets, IsIndex target

instance : DecidablePred Fits := fun operand =>
  inferInstanceAs (Decidable (∀ target ∈ operand.jumpTargets, IsIndex target))

end Operand

def Instruction.Fits (i : Instruction) : Prop := IsIndex i.index ∧ i.operand.Fits

instance : DecidablePred Instruction.Fits := fun i =>
  inferInstanceAs (Decidable (IsIndex i.index ∧ i.operand.Fits))

def Handler.Fits (h : Handler) : Prop := IsIndex h.start ∧ IsIndex h.stop ∧ IsIndex h.entry

instance : DecidablePred Handler.Fits := fun h =>
  inferInstanceAs (Decidable (IsIndex h.start ∧ IsIndex h.stop ∧ IsIndex h.entry))

/-- All sizes, indices and targets in a method are ones that an index can hold. -/
structure Method.Fits (m : Method) : Prop where
  maxLocals : IsIndex m.maxLocals
  maxStack : IsIndex m.maxStack
  instructions : ∀ i ∈ m.instructions, i.Fits
  handlers : ∀ h ∈ m.handlers, h.Fits

/-! ## Constants and operands -/

theorem Constant.readsBack {value : Constant} (h : ¬ value.IsFloating) :
    ReadsBack Constant.read value.toJson value := by
  cases value with
  | int value => exact .holding rfl (.map _ (.plain (Document.readInt32_ofJson value)))
  | long value => exact .holding rfl (.map _ (.plain (Document.readInt64_ofJson value)))
  | float value => exact absurd trivial h
  | double value => exact absurd trivial h
  | string value => exact .holding rfl (.map _ (.plain rfl))
  | type value => exact .holding rfl (.map _ value.readsBack)
  | methodHandle owner name descriptor =>
    exact .holding rfl
      (.record (.plain rfl rfl (.plain rfl rfl (.plain rfl rfl (.nil _)))) (by decide) rfl)
  | dynamic name descriptor =>
    exact .holding rfl (.record (.plain rfl rfl (.plain rfl rfl (.nil _))) (by decide) rfl)

theorem Operand.readsBack {operand : Operand} (hfloating : ¬ operand.IsFloating)
    (hfits : operand.Fits) : ReadsBack Operand.read operand.toJson operand := by
  cases operand with
  | none => exact .unit rfl
  | int value => exact .holding rfl (.map _ (.plain (Document.readInt32_ofJson value)))
  | var index => exact .holding rfl (.map _ (.plain (Document.readUInt16_ofJson index)))
  | increment index amount =>
    exact .holding rfl (.record (.plain (Document.readUInt16_ofJson index) rfl
      (.plain (Document.readInt16_ofJson amount) rfl (.nil _))) (by decide) rfl)
  | type name => exact .holding rfl (.map _ (.plain rfl))
  | field owner name descriptor =>
    exact .holding rfl
      (.record (.plain rfl rfl (.plain rfl rfl (.plain rfl rfl (.nil _)))) (by decide) rfl)
  | method owner name descriptor ofInterface =>
    exact .holding rfl (.record
      (.plain rfl rfl (.plain rfl rfl (.plain rfl rfl (.plain rfl rfl (.nil _)))))
      (by decide) rfl)
  | invokeDynamic name descriptor =>
    exact .holding rfl (.record (.plain rfl rfl (.plain rfl rfl (.nil _))) (by decide) rfl)
  | constant value => exact .holding rfl (.map _ (Constant.readsBack hfloating))
  | jump target =>
    have htarget : IsIndex target := hfits target (List.mem_singleton.2 rfl)
    exact .holding rfl (.map _ (.plain (Document.readIndex_ofJson htarget)))
  | tableSwitch low high otherwise targets =>
    obtain ⟨hotherwise, htargets⟩ := List.forall_mem_cons.1 hfits
    exact .holding rfl (.record (.plain (Document.readInt32_ofJson low) rfl
      (.plain (Document.readInt32_ofJson high) rfl
      (.plain (Document.readIndex_ofJson hotherwise) rfl
      (.nested (readsBack_naturals htargets) rfl (.nil _))))) (by decide) rfl)
  | lookupSwitch otherwise keys targets =>
    obtain ⟨hotherwise, htargets⟩ := List.forall_mem_cons.1 hfits
    exact .holding rfl (.record (.plain (Document.readIndex_ofJson hotherwise) rfl
      (.nested (.list fun key _ => .plain (Document.readInt32_ofJson key)) rfl
      (.nested (readsBack_naturals htargets) rfl (.nil _)))) (by decide) rfl)
  | newArrays descriptor dimensions =>
    exact .holding rfl (.record (.plain rfl rfl
      (.plain (Document.readUInt8_ofJson dimensions) rfl (.nil _))) (by decide) rfl)

/-! ## Opcodes -/

namespace Opcode

/-- The number that the letters of the name make. -/
def nameKey (op : Opcode) : Nat :=
  (capitalizeWords true op.mnemonic.toList).foldl (fun key c => 128 * key + c.toNat) 0

-- The kernel compares two numbers at once, and two names letter by letter.
theorem find?_nameKey :
    ∀ op ∈ all, all.find? (fun other => (nameKey other).beq (nameKey op)) = some op := by
  decide +kernel

theorem nameKey_injective {op other : Opcode} (h : nameKey op = nameKey other) : op = other := by
  have hop := find?_nameKey op (mem_all op)
  rw [h, find?_nameKey other (mem_all other)] at hop
  exact (Option.some.inj hop).symm

theorem name_injective {op other : Opcode} (h : op.name = other.name) : op = other := by
  apply nameKey_injective
  unfold nameKey
  rw [String.ofList_injective h]

/-- An opcode is found under its name. -/
theorem ofName?_name (op : Opcode) : ofName? op.name = some op := by
  cases hfind : ofName? op.name with
  | none => exact absurd (beq_self_eq_true op.name) (List.find?_eq_none.1 hfind op (mem_all op))
  | some other =>
    have hname := List.find?_some hfind
    rw [name_injective (beq_iff_eq.1 hname)]

theorem readsBack (op : Opcode) : ReadsBack Opcode.read (.string op.name) op :=
  .unit (by rw [ofName?_name]; rfl)

end Opcode

/-! ## Methods and classes -/

theorem Instruction.readsBack {i : Instruction} (hfloating : ¬ i.operand.IsFloating)
    (hfits : i.Fits) : ReadsBack Instruction.read i.toJson i :=
  .record (.plain (Document.readIndex_ofJson hfits.1) rfl
    (.nested i.opcode.readsBack rfl
    (.nested (Operand.readsBack hfloating hfits.2) rfl (.nil _)))) (by decide) rfl

theorem Handler.readsBack {h : Handler} (hfits : h.Fits) :
    ReadsBack Handler.read h.toJson h :=
  .record (.plain (Document.readIndex_ofJson hfits.1) rfl
    (.plain (Document.readIndex_ofJson hfits.2.1) rfl
    (.plain (Document.readIndex_ofJson hfits.2.2) rfl
    (.plain (Document.readOptional_ofJson h.catchType) rfl (.nil _))))) (by decide) rfl

theorem MethodAccess.readsBack (access : MethodAccess) :
    ReadsBack MethodAccess.read access.toJson access :=
  .record (.plain (Document.readUInt16_ofJson access.bits) rfl (.nil _)) (by decide) rfl

theorem Method.readsBack {m : Method} (hfloating : ∀ i ∈ m.instructions, ¬ i.operand.IsFloating)
    (hfits : m.Fits) : ReadsBack Method.read m.toJson m :=
  .record (.plain rfl rfl (.plain rfl rfl (.plain rfl rfl
    (.orDefault (.nested m.access.readsBack rfl
    (.plain (Document.readIndex_ofJson hfits.maxLocals) rfl
    (.plain (Document.readIndex_ofJson hfits.maxStack) rfl
    (.nested (.list fun i hi =>
      Instruction.readsBack (hfloating i hi) (hfits.instructions i hi)) rfl
    (.orDefault (.nested (.list fun h hh => Handler.readsBack (hfits.handlers h hh)) rfl
    (.nil _))))))))))) (by decide) rfl

theorem Class.readsBack {c : Class}
    (hfloating : ∀ m ∈ c.methods, ∀ i ∈ m.instructions, ¬ i.operand.IsFloating)
    (hfits : ∀ m ∈ c.methods, m.Fits) : ReadsBack Class.read c.toJson c :=
  .record (.plain rfl rfl
    (.nested (.list fun m hm => Method.readsBack (hfloating m hm) (hfits m hm)) rfl (.nil _)))
    (by decide) rfl

/-! ## The numbers in a text -/

namespace Json

theorem allExact_map {α : Type} {write : α → Json} {l : List α} (h : ∀ a ∈ l, (write a).IsExact) :
    AllExact (l.map write) := by
  induction l with
  | nil => exact trivial
  | cons a l ih =>
    obtain ⟨ha, hl⟩ := List.forall_mem_cons.1 h
    exact ⟨ha, ih hl⟩

theorem natural_isExact {n : Nat} (h : IsIndex n) : (natural n).IsExact := by
  refine ⟨Int.le_trans ?_ (Int.natCast_nonneg n), Int.ofNat_lt.2 h⟩
  decide

theorem naturals_isExact {l : List Nat} (h : ∀ n ∈ l, IsIndex n) : (naturals l).IsExact :=
  allExact_map fun n hn => natural_isExact (h n hn)

theorem integer_isExact {bits : Nat} (hbits : bits ≤ 63) {i : Int}
    (h : -Document.wordCount bits ≤ i ∧ i < Document.wordCount bits) : (integer i).IsExact := by
  have hcount : Document.wordCount bits ≤ Document.wordCount 63 :=
    Int.ofNat_le.2 (Nat.pow_le_pow_right (by decide) hbits)
  have hgreatest : Document.wordCount 63 ≤ Document.wordCount 64 := by decide
  exact ⟨Int.le_trans (Int.neg_le_neg hcount) h.1,
    Int.lt_of_lt_of_le h.2 (Int.le_trans hcount hgreatest)⟩

theorem optional_isExact (text : Option String) : (optional string text).IsExact := by
  cases text <;> exact trivial

end Json

mutual

theorem JType.isExact_toJson : (t : JType) → t.toJson.IsExact
  | .void | .boolean | .char | .byte | .short | .int | .float | .long | .double | .null
  | .returnAddress => trivial
  | .object _ => ⟨trivial, trivial⟩
  | .array element => ⟨element.isExact_toJson, trivial⟩
  | .method arguments result =>
    ⟨⟨JType.allExact_allToJson arguments, result.isExact_toJson, trivial⟩, trivial⟩

theorem JType.allExact_allToJson : (l : List JType) → Json.AllExact (JType.allToJson l)
  | [] => trivial
  | t :: l => ⟨t.isExact_toJson, JType.allExact_allToJson l⟩

end

theorem isExact_int32 (i : Int32) : (Json.integer i.toInt).IsExact :=
  Json.integer_isExact (show 31 ≤ 63 by decide) ⟨i.le_toInt, i.toInt_lt⟩

theorem Constant.isExact_toJson {value : Constant} (h : ¬ value.IsFloating) :
    value.toJson.IsExact := by
  cases value with
  | int value => exact ⟨isExact_int32 value, trivial⟩
  | long value =>
    exact ⟨Json.integer_isExact (Nat.le_refl 63) ⟨value.le_toInt, value.toInt_lt⟩, trivial⟩
  | float value => exact absurd trivial h
  | double value => exact absurd trivial h
  | string value => exact ⟨trivial, trivial⟩
  | type value => exact ⟨value.isExact_toJson, trivial⟩
  | methodHandle owner name descriptor => exact ⟨⟨trivial, trivial, trivial, trivial⟩, trivial⟩
  | dynamic name descriptor => exact ⟨⟨trivial, trivial, trivial⟩, trivial⟩

theorem Operand.isExact_toJson {operand : Operand} (hfloating : ¬ operand.IsFloating)
    (hfits : operand.Fits) : operand.toJson.IsExact := by
  have hindex : ∀ index : UInt16, (Json.natural index.toNat).IsExact := fun index =>
    Json.natural_isExact (Nat.lt_trans index.toNat_lt (by decide))
  cases operand with
  | none => exact trivial
  | int value => exact ⟨isExact_int32 value, trivial⟩
  | var index => exact ⟨hindex index, trivial⟩
  | increment index amount =>
    have hamount : (Json.integer amount.toInt).IsExact :=
      Json.integer_isExact (show 15 ≤ 63 by decide) ⟨amount.le_toInt, amount.toInt_lt⟩
    exact ⟨⟨hindex index, hamount, trivial⟩, trivial⟩
  | type name => exact ⟨trivial, trivial⟩
  | field owner name descriptor => exact ⟨⟨trivial, trivial, trivial, trivial⟩, trivial⟩
  | method owner name descriptor ofInterface =>
    exact ⟨⟨trivial, trivial, trivial, trivial, trivial⟩, trivial⟩
  | invokeDynamic name descriptor => exact ⟨⟨trivial, trivial, trivial⟩, trivial⟩
  | constant value => exact ⟨Constant.isExact_toJson hfloating, trivial⟩
  | jump target =>
    exact ⟨Json.natural_isExact (hfits target (List.mem_singleton.2 rfl)), trivial⟩
  | tableSwitch low high otherwise targets =>
    obtain ⟨hotherwise, htargets⟩ := List.forall_mem_cons.1 hfits
    exact ⟨⟨isExact_int32 low, isExact_int32 high, Json.natural_isExact hotherwise,
      Json.naturals_isExact htargets, trivial⟩, trivial⟩
  | lookupSwitch otherwise keys targets =>
    obtain ⟨hotherwise, htargets⟩ := List.forall_mem_cons.1 hfits
    exact ⟨⟨Json.natural_isExact hotherwise, Json.allExact_map fun key _ => isExact_int32 key,
      Json.naturals_isExact htargets, trivial⟩, trivial⟩
  | newArrays descriptor dimensions =>
    exact ⟨⟨trivial, Json.natural_isExact (Nat.lt_trans dimensions.toNat_lt (by decide)), trivial⟩,
      trivial⟩

theorem Instruction.isExact_toJson {i : Instruction} (hfloating : ¬ i.operand.IsFloating)
    (hfits : i.Fits) : i.toJson.IsExact :=
  ⟨Json.natural_isExact hfits.1, trivial, Operand.isExact_toJson hfloating hfits.2, trivial⟩

theorem Handler.isExact_toJson {h : Handler} (hfits : h.Fits) : h.toJson.IsExact :=
  ⟨Json.natural_isExact hfits.1, Json.natural_isExact hfits.2.1, Json.natural_isExact hfits.2.2,
    Json.optional_isExact h.catchType, trivial⟩

theorem MethodAccess.isExact_toJson (access : MethodAccess) : access.toJson.IsExact :=
  ⟨Json.natural_isExact (Nat.lt_trans access.bits.toNat_lt (by decide)), trivial⟩

theorem Method.isExact_toJson {m : Method}
    (hfloating : ∀ i ∈ m.instructions, ¬ i.operand.IsFloating) (hfits : m.Fits) :
    m.toJson.IsExact :=
  ⟨trivial, trivial, trivial, m.access.isExact_toJson, Json.natural_isExact hfits.maxLocals,
    Json.natural_isExact hfits.maxStack,
    Json.allExact_map fun i hi =>
      Instruction.isExact_toJson (hfloating i hi) (hfits.instructions i hi),
    Json.allExact_map fun h hh => Handler.isExact_toJson (hfits.handlers h hh), trivial⟩

theorem Class.isExact_toJson {c : Class}
    (hfloating : ∀ m ∈ c.methods, ∀ i ∈ m.instructions, ¬ i.operand.IsFloating)
    (hfits : ∀ m ∈ c.methods, m.Fits) : c.toJson.IsExact :=
  ⟨trivial, Json.allExact_map fun m hm => Method.isExact_toJson (hfloating m hm) (hfits m hm),
    trivial⟩

/-! ## What is refused -/

/-- The handler protects a range of the instructions of a method, and begins at one. -/
def Handler.LiesIn (h : Handler) (m : Method) : Prop :=
  h.start ≤ h.stop ∧ h.stop ≤ m.size ∧ h.entry < m.size

theorem Handler.fits_size {h : Handler} {m : Method} : h.fits m.size ↔ h.LiesIn m := by
  unfold Handler.fits Handler.LiesIn
  simp only [Bool.and_eq_true, decide_eq_true_eq, and_assoc]

instance (h : Handler) (m : Method) : Decidable (h.LiesIn m) :=
  inferInstanceAs (Decidable (h.start ≤ h.stop ∧ h.stop ≤ m.size ∧ h.entry < m.size))

/-- In every method instructions sit at their own index, and handlers lie in the method. -/
def Class.Placed (c : Class) : Prop :=
  ∀ m ∈ c.methods, m.Indexed ∧ ∀ h ∈ m.handlers, h.LiesIn m

instance : DecidablePred Class.Placed := fun c =>
  inferInstanceAs (Decidable (∀ m ∈ c.methods, m.Indexed ∧ ∀ h ∈ m.handlers, h.LiesIn m))

theorem Class.placed_iff {c : Class} : c.Placed ↔ ∀ m ∈ c.methods, m.Sound := by
  have hsound : ∀ m : Method, m.Sound ↔ m.Indexed ∧ ∀ h ∈ m.handlers, h.LiesIn m := fun m =>
    ⟨fun hm => ⟨hm.indexed, fun h hh => Handler.fits_size.1 (hm.handlers h hh)⟩,
      fun hm => ⟨hm.1, fun h hh => Handler.fits_size.2 (hm.2 h hh)⟩⟩
  unfold Placed
  simp only [hsound]

/-- The error names an instruction of the method that is not at its own index, or a handler that
does not lie in the method. -/
def LoadError.Blames (m : Method) : LoadError → Prop
  | misplacedInstruction method index position =>
    method = m ∧ index ≠ position ∧ ∃ i, m.instruction? position = some i ∧ i.index = index
  | malformedHandler method h => method = m ∧ h ∈ m.handlers ∧ ¬ h.LiesIn m
  | unreadable _ | noFile | notText => False

theorem Method.misplaced?_eq_some {m : Method} {instructions : List Instruction} {position : Nat}
    {e : LoadError} (h : m.misplaced? position instructions = some e) :
    ∃ (k : Nat) (i : Instruction), instructions[k]? = some i ∧ i.index ≠ position + k ∧
      e = .misplacedInstruction m i.index (position + k) := by
  induction instructions generalizing position with
  | nil => cases h
  | cons i rest ih =>
    unfold misplaced? at h
    by_cases hi : i.index = position
    · rw [if_pos hi] at h
      obtain ⟨k, j, hj, hindex, he⟩ := ih h
      rw [Nat.add_right_comm] at hindex he
      exact ⟨k + 1, j, hj, hindex, he⟩
    · rw [if_neg hi] at h
      exact ⟨0, i, rfl, hi, (Option.some.inj h).symm⟩

theorem Method.blames_of_fault? {m : Method} {e : LoadError} (h : m.fault? = some e) :
    e.Blames m := by
  unfold fault? at h
  rw [Option.or_eq_some_iff] at h
  rcases h with h | ⟨-, h⟩
  · obtain ⟨k, i, hi, hindex, rfl⟩ := misplaced?_eq_some h
    rw [Nat.zero_add] at hindex ⊢
    exact ⟨rfl, hindex, i, hi, rfl⟩
  · obtain ⟨handler, hfind, rfl⟩ := Option.map_eq_some_iff.1 h
    refine ⟨rfl, List.mem_of_find?_eq_some hfind, fun hlies => ?_⟩
    have hfits := List.find?_some hfind
    rw [Handler.fits_size.2 hlies] at hfits
    cases hfits

/-! ## Loading -/

namespace Class

/-- What was written is read as the class again, and then checked. -/
theorem load_toJson_eq_check {c : Class}
    (hfloating : ∀ m ∈ c.methods, ∀ i ∈ m.instructions, ¬ i.operand.IsFloating)
    (hfits : ∀ m ∈ c.methods, m.Fits) (hdepth : c.toJson.depth ≤ Json.maxLevels) :
    load c.toJson.text = c.check := by
  have hread : Json.readText Class.read c.toJson.text = .ok c := by
    unfold Json.readText
    rw [Json.readSource_text (isExact_toJson hfloating hfits)]
    dsimp only
    rw [readsBack hfloating hfits Json.maxLevels hdepth]
    rfl
  unfold load
  rw [hread]

/-- Loading what was written gives the class if its instructions and handlers are in their places.
If not, the error blames one of its methods. -/
theorem load_toJson {c : Class}
    (hfloating : ∀ m ∈ c.methods, ∀ i ∈ m.instructions, ¬ i.operand.IsFloating)
    (hfits : ∀ m ∈ c.methods, m.Fits) (hdepth : c.toJson.depth ≤ Json.maxLevels) :
    (c.Placed → load c.toJson.text = .ok c) ∧
      (¬ c.Placed → ∃ m ∈ c.methods, ∃ e : LoadError,
        e.Blames m ∧ load c.toJson.text = .error e) := by
  rw [load_toJson_eq_check hfloating hfits hdepth, placed_iff]
  refine ⟨fun hsound => check_eq_ok.2 ⟨rfl, hsound⟩, fun hunsound => ?_⟩
  cases hcheck : c.check with
  | ok c' =>
    obtain ⟨-, hsound⟩ := check_eq_ok.1 hcheck
    exact absurd hsound hunsound
  | error e =>
    unfold check at hcheck
    split at hcheck
    · rename_i hfault
      obtain ⟨m, hm, hfault⟩ := List.exists_of_findSome?_eq_some hfault
      obtain rfl := Except.error.inj hcheck
      exact ⟨m, hm, _, Method.blames_of_fault? hfault, rfl⟩
    · cases hcheck

/-- A class that loads the type of a method and leaves again, every exception being caught on the
way. -/
def ofMethodType : Class where
  name := "A"
  methods := [{
    owner := "A", name := "a", descriptor := "()V", access := ⟨0xffff⟩, maxLocals := 0,
    maxStack := Number.maxWord,
    instructions := [
      ⟨0, .ldc, .constant (.type (.method [.array (.array (.object "B"))] .void))⟩,
      ⟨1, .lookupswitch, .lookupSwitch 2 [Int32.minValue] [0]⟩,
      ⟨2, .returnVoid, .none⟩],
    handlers := [⟨0, 1, 2, none⟩] }]

theorem load_toJson_ofMethodType :
    (∀ m ∈ ofMethodType.methods, ∀ i ∈ m.instructions, ¬ i.operand.IsFloating) ∧
      (∀ m ∈ ofMethodType.methods, m.Fits) ∧
      ofMethodType.toJson.depth ≤ Json.maxLevels ∧ ofMethodType.Placed ∧
      load ofMethodType.toJson.text = .ok ofMethodType := by
  have hfloating : ∀ m ∈ ofMethodType.methods, ∀ i ∈ m.instructions, ¬ i.operand.IsFloating := by
    decide
  have hfits : ∀ m ∈ ofMethodType.methods, m.Fits := by
    intro m hm
    obtain rfl := List.mem_singleton.1 hm
    exact ⟨by decide, by decide, by decide, by decide⟩
  have hdepth : ofMethodType.toJson.depth ≤ Json.maxLevels := by decide
  have hplaced : ofMethodType.Placed := by decide
  exact ⟨hfloating, hfits, hdepth, hplaced, (load_toJson hfloating hfits hdepth).1 hplaced⟩

end Class

end Provenance
