import NumericJit.Meaning.Publications
import NumericJit.Proofs.Engine.Linked
import NumericJit.Proofs.Wasm.Refinement

/-!
# The symbol table of an engine

However an engine was called, its resident functions are those that were published, in the order in
which they were published, and every name is looked up at the address at which it stands
(`ResidentEngine.Holds`, kept by one call in `Holds.answer` and by many in `Holds.answerAll`).
Invoking an address comes to calling what was published under the name, with calls inside it going
by name too (`Holds.callAt_eq`). Calls that fail leave the engine as it was, and those that do not
only add to it (`symbol_table_append_only`).
-/

namespace NumericJit

-- ---------------------------------------------------------------------------
-- Calls inside a unit
-- ---------------------------------------------------------------------------

section
variable {W : Type} {u : CodeUnit} {name : String}
  {call call' : String → List Number → W → CallResult W}

open Wasm

mutual
theorem instr_run_congr
    (h : ∀ {c i k}, u.callTarget? c = some (i, k) → call c = call' c) (fuel : Nat)
    {labels : List Label} {ops : List Op} : (i : Instr) → opsOfInstr u name labels i = .ok ops →
    ∀ f w, Instr.run call fuel i f w = Instr.run call' fuel i f w
  | .call callee argCount, hops, f, w => by
    rw [opsOfInstr] at hops
    split at hops
    · cases hops
    · rename_i htarget
      simp only [Instr.run, h htarget]
  | .loop body, hops, f, w => by
    obtain ⟨inner, hinner, -⟩ := map_ok.mp hops
    simp only [Instr.run, code_run_congr h fuel body hinner]
  | .branch yes no, hops, f, w => by
    simp only [opsOfInstr, bind_ok] at hops
    obtain ⟨yesOps, hyes, noOps, hno, -⟩ := hops
    simp only [Instr.run, code_run_congr h fuel yes hyes, code_run_congr h fuel no hno]
  | .const _, _, _, _ | .load _, _, _, _ | .store _, _, _, _ | .tee _, _, _, _ | .add, _, _, _
  | .sub, _, _, _ | .mul, _, _, _ | .ltUnordered, _, _, _ | .boolToNumber, _, _, _
  | .numberToBool, _, _, _ | .drop, _, _, _ | .continueIf, _, _, _ => rfl

theorem code_run_congr
    (h : ∀ {c i k}, u.callTarget? c = some (i, k) → call c = call' c) (fuel : Nat)
    {labels : List Label} {ops : List Op} : (code : Code) → opsOfCode u name labels code = .ok ops →
    ∀ f w, Code.run call fuel code f w = Code.run call' fuel code f w
  | [], _, _, _ => rfl
  | i :: rest, hops, f, w => by
    simp only [opsOfCode, bind_ok] at hops
    obtain ⟨first, hfirst, others, hothers, -⟩ := hops
    rw [Code.run_cons, Code.run_cons, instr_run_congr h fuel i hfirst f w]
    congr 1
    funext f w
    exact code_run_congr h fuel rest hothers f w
end

end

variable {S : Type}

-- ---------------------------------------------------------------------------
-- What is resident for what was published
-- ---------------------------------------------------------------------------

inductive MadeOf (symbols : List (ResidentFunction S)) :
    ResidentFunction S → Publication S → Prop where
  | host (h : HostFunction S) : MadeOf symbols ⟨h.name, h.arity, .host h.run⟩ (.host h)
  | code (u : CodeUnit) (f : SlotFunction)
    (hops : ∃ ops, Wasm.opsOfCode u f.name [] f.body = .ok ops)
    (hlinks : LinksFit symbols u links) :
    MadeOf symbols ⟨f.name, f.arity, .code f.localCount (Wasm.bodyOps u f) links⟩ (.code f)

section
variable {symbols : List (ResidentFunction S)} {s : ResidentFunction S} {p : Publication S}

theorem MadeOf.name_eq (h : MadeOf symbols s p) : s.name = p.name := by
  cases h <;> rfl

theorem MadeOf.arity_eq (h : MadeOf symbols s p) : s.arity = p.arity := by
  cases h <;> rfl

theorem MadeOf.mono (h : MadeOf symbols s p) (more : List (ResidentFunction S)) :
    MadeOf (symbols ++ more) s p := by
  cases h with
  | host h => exact .host h
  | code u f hops hlinks => exact .code u f hops (hlinks.mono more)

end

theorem getElem?_of_forall₂ {R : α → β → Prop} (h : List.Forall₂ R as bs) (i : Nat) :
    Option.Rel R as[i]? bs[i]? := by
  induction h generalizing i with
  | nil => exact .none
  | cons hab _ ih =>
    cases i with
    | zero => exact .some hab
    | succ i => exact ih i

namespace ResidentEngine

/-- What is resident in an engine is what was published, and every name has the address at which it
stands. -/
structure Holds (e : ResidentEngine S) (table : List (Publication S)) : Prop where
  indexed : e.Indexed
  entries : List.Forall₂ (MadeOf e.symbols) e.symbols table

namespace Holds

variable {e e' : ResidentEngine S} {table : List (Publication S)} {s : ResidentFunction S}
  {p : Publication S} {a : Nat}

theorem signature (h : e.Holds table) :
    e.signature = table.map fun p => (p.name, p.arity) := by
  rw [ResidentEngine.signature, ← List.forall₂_eq_eq_eq, List.forall₂_map_left_iff,
    List.forall₂_map_right_iff]
  exact h.entries.imp fun s p hs => Prod.ext hs.name_eq hs.arity_eq

theorem table_names (h : e.Holds table) : (table.map Publication.name).Nodup := by
  have hnames : e.names = table.map Publication.name := by
    simpa [Function.comp_def, ResidentEngine.names, ResidentEngine.signature] using
      congrArg (List.map Prod.fst) h.signature
  exact hnames ▸ h.indexed.nodup

theorem symbol (h : e.Holds table) (hp : table[a]? = some p) :
    ∃ s, e.symbols[a]? = some s ∧ MadeOf e.symbols s p := by
  have hentry := getElem?_of_forall₂ h.entries a
  rw [hp] at hentry
  generalize e.symbols[a]? = s at hentry
  cases hentry with
  | some hs => exact ⟨_, rfl, hs⟩

theorem publication (h : e.Holds table) (hs : e.symbols[a]? = some s) :
    ∃ p, table[a]? = some p ∧ MadeOf e.symbols s p := by
  have hentry := getElem?_of_forall₂ h.entries a
  rw [hs] at hentry
  generalize table[a]? = p at hentry
  cases hentry with
  | some hp => exact ⟨_, rfl, hp⟩

theorem find_name (h : e.Holds table) (hp : p ∈ table) :
    (table.find? fun q => q.name == p.name) = some p := by
  obtain ⟨i, hi, hget⟩ := CodeUnit.findIdx?_of_nodup h.table_names hp
  rw [List.find?_eq_bind_findIdx?_getElem?, hi]
  exact hget

/-- A call at an address comes to the call of the name that is resident there. -/
theorem callAt_eq (h : e.Holds table) (hs : e.symbols[a]? = some s) (fuel depth : Nat)
    (args : List Number) (w : World S) :
    callAt e.symbols fuel depth a args w = callPublished table fuel depth s.name args w := by
  induction depth generalizing a s args w with
  | zero => rfl
  | succ depth ih =>
    obtain ⟨p, hp, hmade⟩ := h.publication hs
    rw [callPublished, hmade.name_eq, h.find_name (List.mem_of_getElem? hp)]
    cases hmade with
    | host host => exact callAt_host hs rfl w
    | @code links u f hops hlinks =>
      obtain ⟨ops, hops⟩ := hops
      rw [callAt_code hs rfl, Wasm.call_bodyOps hlinks.fit hops]
      -- what the unit calls is linked to what was published under that name
      have hcalls : ∀ {c i k}, u.callTarget? c = some (i, k) →
          (callees e.symbols fuel depth links).byName u c = callPublished table fuel depth c := by
        intro c i k htarget
        obtain ⟨b, callee, hb, hcallee, rfl, -⟩ :=
          hlinks i (c, k) (CodeUnit.callables_of_callTarget? htarget)
        funext args w
        simp only [Wasm.Callees.byName, htarget, callees, hb]
        exact ih hcallee args w
      exact congrArg _ (code_run_congr hcalls fuel f.body hops _ w)

-- ---------------------------------------------------------------------------
-- Engines that grow
-- ---------------------------------------------------------------------------

theorem withHost (h : e.Holds table) {host : HostFunction S}
    (hnew : e.isResident host.name = false) : (e.withHost host).Holds (table ++ [.host host]) where
  indexed := h.indexed.publish hnew
  entries := List.rel_append (h.entries.imp fun _ _ hs => hs.mono _) (.cons (.host host) .nil)

theorem withUnit (h : e.Holds table) {u : CodeUnit} (haccepts : e.Accepts u) :
    (e.withUnit u).Holds (table ++ u.functions.map .code) where
  indexed := h.indexed.withUnit haccepts
  entries := by
    rw [withUnit_symbols]
    refine List.rel_append (h.entries.imp fun _ _ hs => hs.mono _) ?_
    rw [List.forall₂_map_left_iff, List.forall₂_map_right_iff, List.forall₂_same]
    exact fun f hf => .code u f (haccepts.assembles f hf) (h.indexed.linksFit haccepts.imports)

/-- One call of an engine: what it publishes comes behind what was published before. -/
theorem answer (h : e.Holds table) (w : World S) (call : EngineCall S) :
    (e.answer w call).2.1.Holds (table ++ e.publishes call) := by
  cases call with
  | invoke a args =>
    rw [publishes, List.append_nil]
    exact h
  | declare host =>
    rw [ResidentEngine.answer, publishes]
    obtain ⟨f, -, heq⟩ | ⟨hnew, heq⟩ := e.declare_cases host <;> rw [heq]
    · simpa [Except.isOk, Except.toBool] using h
    · exact h.withHost hnew
  | finalize u =>
    rw [ResidentEngine.answer, publishes]
    obtain ⟨f, -, heq⟩ | ⟨haccepts, heq⟩ := e.finalize_cases u <;> rw [heq]
    · simpa [Except.isOk, Except.toBool] using h
    · exact h.withUnit haccepts

theorem new (limits : Limits) : ResidentEngine.Holds { limits } ([] : List (Publication S)) where
  indexed := indexed_empty limits
  entries := .nil

theorem answerAll (h : e.Holds table) (w : World S) (calls : List (EngineCall S)) :
    (e.answerAll w calls).1.Holds (table ++ e.publishesAll w calls) := by
  induction calls generalizing e table w with
  | nil => simpa [publishesAll, ResidentEngine.answerAll] using h
  | cons call rest ih =>
    rw [publishesAll, ← List.append_assoc]
    exact ih (h.answer w call) _

theorem invoke_eq (h : e.Holds table) (hp : table[a]? = some p) (args : List Number) (w : World S) :
    e.invoke a args w =
      if args.length = p.arity then
        let r := callPublished table e.limits.loopRounds e.limits.callDepth p.name args w
        (invoked p.name r.1, r.2)
      else (.error { cause := .invokedArity p.name p.arity args.length }, w) := by
  obtain ⟨s, hs, hmade⟩ := h.symbol hp
  rw [← hmade.name_eq, ← hmade.arity_eq]
  split
  · rename_i harity
    rw [ResidentEngine.invoke_eq hs harity.symm, h.callAt_eq hs]
  · rename_i harity
    simp only [invoke, hs, if_neg (Ne.symm harity)]

end Holds

-- ---------------------------------------------------------------------------
-- What a call changes
-- ---------------------------------------------------------------------------

variable {e : ResidentEngine S}

theorem grows_answer (w : World S) (call : EngineCall S) : e.Grows (e.answer w call).2.1 := by
  cases call with
  | declare h => exact grows_declare h
  | finalize u => exact grows_finalize u
  | invoke a args => exact .unchanged

theorem answerAll_limits (w : World S) (calls : List (EngineCall S)) :
    (e.answerAll w calls).1.limits = e.limits := by
  induction calls generalizing e w with
  | nil => rfl
  | cons call rest ih => exact (ih _).trans (grows_answer w call).appends.1

/-- Every way out of a call that fails leaves the engine as it was. -/
theorem answer_failed {call : EngineCall S} (h : (e.answer w call).1.isOk = false) :
    (e.answer w call).2.1 = e := by
  cases call with
  | invoke a args => rfl
  | declare host =>
    obtain ⟨f, -, heq⟩ | ⟨-, heq⟩ := e.declare_cases host <;> rw [answer, heq] at h ⊢
    cases h
  | finalize u =>
    obtain ⟨f, -, heq⟩ | ⟨-, heq⟩ := e.finalize_cases u <;> rw [answer, heq] at h ⊢
    cases h

theorem Indexed.isResident_eq_false (h : e.Indexed) :
    e.isResident name = false ↔ name ∉ e.names := by
  rw [Bool.eq_false_iff, Ne, h.isResident_iff, names, List.mem_map]

theorem Indexed.accepts_iff (h : e.Indexed) :
    e.Accepts u ↔ (∃ encoded, Wasm.encode u = .ok encoded) ∧
      (∀ f ∈ u.functions, f.name ∉ e.names) ∧ ∀ c ∈ u.externals, c ∈ e.signature := by
  have hfresh (f : SlotFunction) : f.name ∉ e.names ↔ e.isResident f.name = false :=
    h.isResident_eq_false.symm
  simp only [hfresh, ← h.provides_iff]
  constructor
  · intro haccepts
    exact ⟨⟨_, Wasm.encode_ok.mpr ⟨haccepts.assembles, haccepts.valid, rfl⟩⟩, haccepts.fresh,
      haccepts.imports⟩
  · rintro ⟨⟨encoded, hencode⟩, hfresh, himports⟩
    obtain ⟨hops, hvalid, -⟩ := Wasm.encode_ok.mp hencode
    exact ⟨hops, hvalid, hfresh, himports⟩

theorem Indexed.answer_declare (h : e.Indexed) (host : HostFunction S) (w : World S) :
    ((e.answer w (.declare host)).1.isOk = true ↔ host.name ∉ e.names) ∧
      ((e.answer w (.declare host)).1.isOk = true →
        (e.answer w (.declare host)).2.1.signature = e.signature ++ [(host.name, host.arity)] ∧
          (e.answer w (.declare host)).2.1.units = e.units) := by
  rw [← h.isResident_eq_false]
  obtain ⟨f, hresident, heq⟩ | ⟨hnew, heq⟩ := e.declare_cases host <;> rw [answer, heq]
  · simp [hresident, Except.map, Except.isOk, Except.toBool]
  · refine ⟨⟨fun _ => hnew, fun _ => rfl⟩, fun _ => ⟨?_, rfl⟩⟩
    simp [signature, withHost, ResidentEngine.publish]

theorem Indexed.answer_finalize (h : e.Indexed) (u : CodeUnit) (w : World S) :
    ((e.answer w (.finalize u)).1.isOk = true ↔ (∃ encoded, Wasm.encode u = .ok encoded) ∧
        (∀ f ∈ u.functions, f.name ∉ e.names) ∧ ∀ c ∈ u.externals, c ∈ e.signature) ∧
      ((e.answer w (.finalize u)).1.isOk = true →
        (e.answer w (.finalize u)).2.1.signature =
            e.signature ++ u.functions.map (fun f => (f.name, f.arity)) ∧
          (e.answer w (.finalize u)).2.1.units = e.units + 1) := by
  rw [← h.accepts_iff]
  obtain ⟨f, hrefused, heq⟩ | ⟨haccepts, heq⟩ := e.finalize_cases u <;> rw [answer, heq]
  · simp [hrefused.not_accepts, Except.map, Except.isOk, Except.toBool]
  · refine ⟨⟨fun _ => haccepts, fun _ => rfl⟩, fun _ => ⟨?_, withUnit_units⟩⟩
    simp [signature, ofUnit, Function.comp_def]

end ResidentEngine

open ResidentEngine in
/-- Every reached engine has different names resident, at the addresses under which they are looked
up, and runs there what was published under the name. No call moves or replaces a resident function,
and calls that fail change nothing. A host function is taken up if its name is new, and a unit as a
whole, if it can be encoded, its names are new and its outside functions are resident with the
arities it has for them. -/
theorem symbol_table_append_only (limits : Limits) (w₀ : World S) (calls : List (EngineCall S)) :
    let e := (answerAll { limits } w₀ calls).1
    let table := publishesAll { limits } w₀ calls
    (e.names.Nodup ∧ ∀ name a, e.address? name = some a ↔ e.names[a]? = some name) ∧
    (e.signature = table.map (fun p => (p.name, p.arity)) ∧
      ∀ (a : Nat) (p : Publication S), table[a]? = some p → ∀ args w,
        e.invoke a args w =
          if args.length = p.arity then
            let r := callPublished table limits.loopRounds limits.callDepth p.name args w
            (invoked p.name r.1, r.2)
          else (.error { cause := .invokedArity p.name p.arity args.length }, w)) ∧
    (∀ w call,
      (∀ (a : Nat) (s : ResidentFunction S), e.symbols[a]? = some s →
        (e.answer w call).2.1.symbols[a]? = some s ∧
          (e.answer w call).2.1.address? s.name = some a) ∧
      ((e.answer w call).1.isOk = false → (e.answer w call).2.1 = e)) ∧
    (∀ w host,
      ((e.answer w (.declare host)).1.isOk = true ↔ host.name ∉ e.names) ∧
      ((e.answer w (.declare host)).1.isOk = true →
        (e.answer w (.declare host)).2.1.signature = e.signature ++ [(host.name, host.arity)] ∧
          (e.answer w (.declare host)).2.1.units = e.units)) ∧
    ∀ w u,
      ((e.answer w (.finalize u)).1.isOk = true ↔ (∃ encoded, Wasm.encode u = .ok encoded) ∧
        (∀ f ∈ u.functions, f.name ∉ e.names) ∧ ∀ c ∈ u.externals, c ∈ e.signature) ∧
      ((e.answer w (.finalize u)).1.isOk = true →
        (e.answer w (.finalize u)).2.1.signature =
            e.signature ++ u.functions.map (fun f => (f.name, f.arity)) ∧
          (e.answer w (.finalize u)).2.1.units = e.units + 1) := by
  intro e table
  have hholds : e.Holds table := (Holds.new limits).answerAll w₀ calls
  have hindexed : e.Indexed := hholds.indexed
  refine ⟨⟨hindexed.nodup, hindexed⟩, ⟨hholds.signature, ?_⟩, ?_,
    fun w host => hindexed.answer_declare host w, fun w u => hindexed.answer_finalize u w⟩
  · intro a p hp args w
    have hlimits : e.limits = limits := answerAll_limits (e := { limits }) w₀ calls
    rw [← hlimits]
    exact hholds.invoke_eq hp args w
  · refine fun w call => ⟨fun a s hs => ?_, answer_failed⟩
    obtain ⟨-, more, hmore⟩ := (grows_answer (e := e) w call).appends
    have hs' : (e.answer w call).2.1.symbols[a]? = some s := by
      rw [hmore, List.getElem?_append_left (List.getElem?_eq_some_iff.mp hs).1]
      exact hs
    exact ⟨hs', (hholds.answer w call).indexed.address?_of_symbol hs'⟩

open ResidentEngine in
/-- A host function that wants a name twice, and units that define a resident name, import what is
not there, import it with another arity or cannot be encoded, between two units that are taken up.
-/
theorem symbol_table_append_only_past_refusals :
    let tick : HostFunction Nat :=
      ⟨"tick", 1, fun args t => { value := args.headD .zero, state := t + 1 }⟩
    let twice : SlotFunction := ⟨"twice", ["x"], 1, [.load 0, .call "tick" 1, .call "tick" 1]⟩
    let main : SlotFunction := ⟨"main", [], 0, [.const .one, .call "twice" 1]⟩
    let other : SlotFunction := ⟨"other", [], 0, [.const .one]⟩
    let clash : CodeUnit := { id := 1, functions := [other, { twice with body := [.load 0] }] }
    let calls : List (EngineCall Nat) := [
      .declare tick, .declare { tick with arity := 2 },
      .finalize { id := 0, externals := [("tick", 1)], functions := [twice] }, .finalize clash,
      .finalize { id := 2, externals := [("absent", 0)], functions := [other] },
      .finalize { id := 3, externals := [("tick", 2)], functions := [other] },
      .finalize { id := 4, functions := [{ other with body := [.add] }] },
      .finalize { id := 5, externals := [("twice", 1)], functions := [main] }, .invoke 2 []]
    let e := (answerAll {} { state := 0 } calls).1
    e.signature = [("tick", 1), ("twice", 1), ("main", 0)] ∧ e.units = 2 ∧
      (∀ name a, e.address? name = some a ↔ ["tick", "twice", "main"][a]? = some name) ∧
      (∀ w, (e.answer w (.finalize clash)).2.1 = e) ∧
      (e.invoke 2 [] { state := 0 }).2.state = 2 := by
  intro tick twice main other clash calls e
  obtain ⟨⟨-, haddress⟩, -, hchange, -, haccept⟩ :=
    symbol_table_append_only {} { state := 0 } calls
  have hsignature : e.signature = [("tick", 1), ("twice", 1), ("main", 0)] := by decide +kernel
  have hnames : e.names = ["tick", "twice", "main"] := by
    simpa [signature, names, Function.comp_def] using congrArg (List.map Prod.fst) hsignature
  refine ⟨hsignature, by decide +kernel, fun name a => hnames ▸ haddress name a, fun w => ?_,
    by decide +kernel⟩
  refine (hchange w (.finalize clash)).2 (Bool.eq_false_iff.mpr fun hok => ?_)
  -- the name of its second function is resident
  have hfresh := ((haccept w clash).1.mp hok).2.1 { twice with body := [.load 0] } (by simp [clash])
  exact hfresh (hnames ▸ by simp [twice])

end NumericJit
