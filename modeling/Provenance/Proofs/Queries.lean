/-
What queries say of invocations.

A query finds what an invocation takes by counting entries from the top of the stack. Executing the
invocation pops the same entries and hands them to the interpreter in the order in which they were
pushed. Counted or popped, they are the topmost entries of one stack, the deepest of them first, so
the query tells what the interpreter is given (`Analyzer.invocation_of_frame?`).

That the entries are there at all is a fact about runs: whatever has a frame was visited after its
frame had last changed, and a visit executes it.
-/
import Provenance.Proofs.Analyses

set_option autoImplicit false

namespace Provenance

namespace Opcode

/-- The instructions that invoke a method. -/
def invocations : List Opcode :=
  [.invokevirtual, .invokespecial, .invokestatic, .invokeinterface, .invokedynamic]

theorem mem_invocations {op : Opcode} : op ∈ invocations ↔ op.effect = .invoke := by
  cases op <;> decide

end Opcode

/-! ## The topmost entries of a stack -/

/-- The entries of a list at the first few places, the last one first. -/
theorem mapM_getElem?_reverse_range {α : Type} {l : List α} {count : Nat} (h : count ≤ l.length) :
    (List.range count).reverse.mapM (l[·]?) = some (l.take count).reverse := by
  induction count with
  | zero => rfl
  | succ count ih =>
    have hlt : count < l.length := by omega
    rw [List.range_succ, List.reverse_append, List.reverse_singleton, List.singleton_append,
      List.mapM_cons, List.getElem?_eq_getElem hlt, ih (by omega),
      List.take_succ_eq_append_getElem hlt, List.reverse_append]
    rfl

namespace Frame

variable {V : Type} {I : Interpreter V} {i : Instruction} {f g : Frame V}

/-- How many stack entries an invocation with some arguments takes. -/
def entriesTaken (i : Instruction) (arguments : Nat) : Nat :=
  if i.opcode.hasReceiver then arguments + 1 else arguments

/-- An invocation that succeeds has found what it takes, and asks about it and nothing else. -/
theorem exists_of_invoke (h : (invoke I i f).outcome = .ok g) :
    ∃ arguments, i.argumentCount = .ok arguments ∧ entriesTaken i arguments ≤ f.stack.length ∧
      (invoke I i f).trace = [.nary i (f.stack.take (entriesTaken i arguments)).reverse] := by
  obtain ⟨type, htype, h⟩ := Traced.bind_outcome_eq_ok.1 h
  obtain ⟨arguments, harguments, h⟩ := Traced.bind_outcome_eq_ok.1 h
  obtain ⟨p, hp, h⟩ := Traced.bind_outcome_eq_ok.1 h
  obtain ⟨result, hresult, -⟩ := Traced.bind_outcome_eq_ok.1 h
  have htype : i.methodType = .ok type := htype
  have harguments : i.argumentCount = .ok arguments := harguments
  have hp : f.popMany (entriesTaken i arguments) = .ok p := hp
  -- nothing but the question about the popped values leaves a trace
  have htrace : (invoke I i f).trace = [.nary i p.1] := by
    have hinvoke : invoke I i f = I.askNary i p.1 >>= fun result =>
        if type.result? = some .void then pure p.2 else .quiet (p.2.pushResult i result) := by
      unfold invoke
      rw [htype, harguments]
      change Traced.quiet (f.popMany (entriesTaken i arguments)) >>= _ = _
      rw [hp]
      rfl
    rw [hinvoke, Traced.bind_of_ok hresult]
    split <;> rfl
  unfold popMany at hp
  split at hp
  · rename_i henough
    obtain rfl := Except.ok.inj hp
    exact ⟨arguments, harguments, henough, htrace⟩
  · cases hp

end Frame

namespace AnalysisResult

variable {V : Type} {r : AnalysisResult V} {l : Nat} {f : Frame V} {i : Instruction}
  {arguments : Nat}

theorem stackFromTop?_of_frame? (hf : r.frame? l = some f) (depth : Nat) :
    r.stackFromTop? l depth = f.stack[depth]? := by
  unfold stackFromTop?
  rw [hf]
  rfl

/-- The receiver lies below the arguments. -/
theorem receiver?_of_frame? (hi : r.method.instruction? l = some i) (hf : r.frame? l = some f)
    (harguments : i.argumentCount = .ok arguments) :
    r.receiver? l = if i.opcode.hasReceiver then f.stack[arguments]? else none := by
  unfold receiver?
  rw [hi, ← stackFromTop?_of_frame? hf]
  show (if i.opcode.hasReceiver then i.argumentCount.toOption >>= _ else none) = _
  rw [harguments]
  rfl

/-- The arguments are on top, the last of them first. -/
theorem arguments?_of_frame? (hi : r.method.instruction? l = some i) (hf : r.frame? l = some f)
    (harguments : i.argumentCount = .ok arguments) (henough : arguments ≤ f.stack.length) :
    r.arguments? l = some (f.stack.take arguments).reverse := by
  have hentries : r.stackFromTop? l = (f.stack[·]?) := funext (stackFromTop?_of_frame? hf)
  unfold arguments?
  rw [hi, ← mapM_getElem?_reverse_range henough, ← hentries]
  show i.argumentCount.toOption >>= _ = _
  rw [harguments]
  rfl

/-- The receiver and the arguments are what an invocation takes. -/
theorem receiver?_append_arguments? (hi : r.method.instruction? l = some i)
    (hf : r.frame? l = some f) (harguments : i.argumentCount = .ok arguments)
    (henough : Frame.entriesTaken i arguments ≤ f.stack.length) :
    ∃ values, r.arguments? l = some values ∧ values.length = arguments ∧
      (r.receiver? l).isSome = i.opcode.hasReceiver ∧
      (r.receiver? l).toList ++ values
        = (f.stack.take (Frame.entriesTaken i arguments)).reverse := by
  rw [receiver?_of_frame? hi hf harguments]
  unfold Frame.entriesTaken at henough ⊢
  cases hreceiver : i.opcode.hasReceiver with
  | false =>
    rw [hreceiver, if_neg Bool.false_ne_true] at henough
    refine ⟨_, arguments?_of_frame? hi hf harguments henough, ?_, rfl, rfl⟩
    rw [List.length_reverse, List.length_take, Nat.min_eq_left henough]
  | true =>
    rw [hreceiver, if_pos rfl] at henough
    have hlt : arguments < f.stack.length := henough
    have hle : arguments ≤ f.stack.length := by omega
    refine ⟨_, arguments?_of_frame? hi hf harguments hle, ?_, ?_, ?_⟩
    · rw [List.length_reverse, List.length_take, Nat.min_eq_left hle]
    · rw [if_pos rfl, List.getElem?_eq_getElem hlt]
      rfl
    · rw [if_pos rfl, if_pos rfl, List.getElem?_eq_getElem hlt,
        List.take_succ_eq_append_getElem hlt, List.reverse_append]
      rfl

end AnalysisResult

namespace Analyzer

variable {V : Type} [AbstractValue V] [DecidableEq V] {A : Analyzer V} {fuel : Nat}
  {r : AnalysisResult V} {l : Nat} {f : Frame V}

/-- Whatever has a frame in a result can be executed on it. -/
theorem exists_execute_of_frame? (hr : (A.analyze fuel).outcome = .ok (some r))
    (hf : r.frame? l = some f) : ∃ i after, A.method.instruction? l = some i ∧
      (Frame.execute A.interpreter i A.returnType f).outcome = .ok after := by
  obtain ⟨-, hpassed⟩ := analyze_passed_on hr
  obtain ⟨i, shown, flows, hi, hflows, -⟩ := hpassed l f hf
  obtain ⟨after, -, -, -, hx, -⟩ := parts_of_transfer hflows
  exact ⟨i, after, hi, hx⟩

/-- An invocation with a frame in a result can be executed on it, and then the interpreter is asked
about the receiver, if the invocation has one, and the arguments that the queries answer. -/
theorem invocation_of_frame? (hr : (A.analyze fuel).outcome = .ok (some r))
    (hf : r.frame? l = some f) {i : Instruction} (hi : A.method.instruction? l = some i)
    (hop : i.opcode ∈ Opcode.invocations) :
    ∃ after arguments, (Frame.execute A.interpreter i A.returnType f).outcome = .ok after ∧
      r.arguments? l = some arguments ∧ i.argumentCount = .ok arguments.length ∧
      ((r.receiver? l).isSome ↔ i.opcode.hasReceiver) ∧
      (Frame.execute A.interpreter i A.returnType f).trace
        = [.nary i ((r.receiver? l).toList ++ arguments)] := by
  obtain ⟨i', after, hi', hx⟩ := exists_execute_of_frame? hr hf
  obtain rfl : i = i' := Option.some.inj (hi.symm.trans hi')
  have hinvoke : Frame.execute A.interpreter i A.returnType f
      = Frame.invoke A.interpreter i f := by
    unfold Frame.execute
    rw [Opcode.mem_invocations.1 hop]
  have hir : r.method.instruction? l = some i := (analyze_eq_ok hr).1 ▸ hi
  rw [hinvoke] at hx ⊢
  obtain ⟨count, hcount, henough, htrace⟩ := Frame.exists_of_invoke hx
  obtain ⟨arguments, harguments, rfl, hreceiver, htaken⟩ :=
    AnalysisResult.receiver?_append_arguments? hir hf hcount henough
  refine ⟨after, arguments, hx, harguments, hcount, ?_, ?_⟩
  · rw [hreceiver]
  · rw [htrace, htaken]

end Analyzer

/-- Asks the receiver for a number made of the last one, over and over. -/
def Method.asksAgain : Method where
  owner := "Sample"
  name := "asksAgain"
  descriptor := "(J)V"
  access := ⟨0⟩
  maxLocals := 3
  maxStack := 2
  instructions := [⟨0, .aload, .var 0⟩, ⟨1, .lload, .var 1⟩,
    ⟨2, .invokevirtual, .method "Sample" "next" "(J)J" false⟩, ⟨3, .lstore, .var 1⟩,
    ⟨4, .goto, .jump 0⟩]
  handlers := []

namespace Analyzer

/-- In the loop the interpreter is asked about the receiver and a number which may be the argument or
the last result. -/
theorem invocation_of_frame?_asksAgain :
    ∃ r f number, ((⟨.asksAgain, .possibleValues, .identity, .void⟩ :
        Analyzer PossibleValues).analyze 20).outcome = .ok (some r) ∧ r.frame? 2 = some f ∧
      r.arguments? 2 = some [number] ∧
      number.members.toList = [⟨.parameter 1, .long⟩, ⟨.instruction 2, .long⟩] ∧
      (Frame.execute .possibleValues ⟨2, .invokevirtual, .method "Sample" "next" "(J)J" false⟩
        .void f).trace = [.nary ⟨2, .invokevirtual, .method "Sample" "next" "(J)J" false⟩
          [.single ⟨.parameter 0, .object "Sample"⟩, number]] := by
  obtain ⟨r, hr⟩ : ∃ r, ((⟨.asksAgain, .possibleValues, .identity, .void⟩ :
      Analyzer PossibleValues).analyze 20).outcome = .ok (some r) :=
    AnalysisResult.exists_of_isSome (by decide +kernel)
  -- the locals and the stack hold the same number, and below it on the stack is the receiver
  let receiver : PossibleValues := .single ⟨.parameter 0, .object "Sample"⟩
  let number : PossibleValues :=
    ⟨2, .ofList [⟨.parameter 1, .long⟩, ⟨.instruction 2, .long⟩]⟩
  have hf : r.frame? 2 = some ⟨[some receiver, some number, none], [number, receiver], 2⟩ :=
    AnalysisResult.frame?_eq hr (by decide +kernel)
  have hi : Method.asksAgain.instruction? 2
      = some ⟨2, .invokevirtual, .method "Sample" "next" "(J)J" false⟩ := rfl
  have hqueries : r.arguments? 2 = some [number] ∧ r.receiver? 2 = some receiver := by
    have hall : ((⟨.asksAgain, .possibleValues, .identity, .void⟩ :
        Analyzer PossibleValues).analyze 20).outcome.toOption.join.all
          (fun r => r.arguments? 2 = some [number] ∧ r.receiver? 2 = some receiver) = true := by
      decide +kernel
    rw [hr] at hall
    exact of_decide_eq_true hall
  obtain ⟨after, arguments, -, harguments, -, -, htrace⟩ :=
    invocation_of_frame? hr hf hi (by decide)
  obtain rfl : arguments = [number] := Option.some.inj (harguments.symm.trans hqueries.1)
  rw [hqueries.2] at htrace
  exact ⟨r, _, number, hr, hf, harguments, by decide +kernel, htrace⟩

end Analyzer

end Provenance
