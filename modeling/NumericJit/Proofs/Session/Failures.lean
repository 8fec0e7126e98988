import NumericJit.Failure.Diagnostic
import NumericJit.Proofs.Session.Trees

/-!
# What can fail in a session

A statement of a text fails because of what is written in it and before it, because its unit breaks
a limit, or because running it was stopped (`Failure.Expected`); an operator that is not known, an
arity that was never recorded, and everything that can go wrong in linking or looking up cannot be
reached from texts (`session_failures_expected`).

Outcomes do not show the unit that was finalized, so what is said about them is said of a trace,
which keeps the unit and the name of the wrapper beside each outcome.
-/

namespace NumericJit

variable {S : Type}

/-- What may be the matter with a statement that was lowered into a unit. A loop that is still going
round at its bound is cut short here; where loops have no bound, there is no outcome then. -/
def Failure.Expected (u : CodeUnit) (wrapper : String) (e : Failure) : Prop :=
  match e.diagnostic.kind with
  | .malformedSource | .unknownVariable | .invalidAssignment | .unknownFunction | .wrongArity
  | .redefinition => True
  | .internal => e.cause = .invalidModule u.id ∧ ¬ (u.WithinLimits ∧ u.Linkable ∧ u.Compact)
  | .execution => (∃ trap, e.cause = .trapped wrapper trap) ∨ e.cause = .unfinished wrapper
  | .unknownOperator | .unknownArity | .link | .lookup | .config | .file => False

-- ---------------------------------------------------------------------------
-- Statements that are turned down
-- ---------------------------------------------------------------------------

theorem expected_of_isReading {e : Failure} (h : e.cause.isReading = true) :
    e.Expected u wrapper := by
  obtain ⟨cause, span⟩ := e
  cases cause with
  | malformedNumber text => trivial
  | unexpected expected found => trivial
  | _ => cases h

theorem isOperator_of_precedence? (h : (precedence? op).isSome = true) (hassign : op ≠ '=') :
    isOperator op = true := by
  unfold precedence? at h
  split at h <;> first | rfl | contradiction

theorem expected_of_body {body : Expr} {e : Failure} {f : String → Except Cause Nat}
    (hbody : body.Readable) (hf : ∀ c cause, f c = .error cause → cause = .unknownFunction c)
    (h : body.check f names = .error e) : e.Expected u wrapper := by
  have hv := Expr.violation_of_check h
  clear h
  obtain ⟨cause, span⟩ := e
  cases hv with
  | var name => trivial
  | target lhs => trivial
  | operator hmem hassign hop =>
    rw [isOperator_of_precedence? (hbody.operators _ hmem) hassign] at hop
    cases hop
  | callee _ hc =>
    obtain rfl := hf _ _ hc
    trivial
  | arguments callee expected found => trivial

section
variable {t : TreeSession S}

theorem TreeSession.arityOf_error (h : t.arityOf c = .error cause) :
    cause = .unknownFunction c := by
  unfold arityOf at h
  split at h <;> cases h
  rfl

theorem expected_of_check {e : Failure} (hs : statement.Readable)
    (h : t.check statement = .error e) : e.Expected u wrapper := by
  cases statement with
  | definition proto body =>
    simp only [TreeSession.check] at h
    split at h
    · cases h
      trivial
    · refine expected_of_body hs.2 (fun c cause hc => ?_) h
      split at hc
      · cases hc
      · exact TreeSession.arityOf_error hc
  | declaration proto =>
    simp only [TreeSession.check] at h
    split at h
    · cases h
      trivial
    · split at h <;> cases h
      trivial
  | expression e => exact expected_of_body hs (fun _ _ => TreeSession.arityOf_error) h

end

-- ---------------------------------------------------------------------------
-- One statement
-- ---------------------------------------------------------------------------

/-- A statement that was processed: the open unit behind it, the name that was kept for its wrapper,
and what became of it. -/
structure Processed where
  unit : CodeUnit
  wrapper : String
  outcome : Except Failure Outcome

def Processed.Expected (p : Processed) : Prop :=
  ∀ e, p.outcome = .error e → e.Expected p.unit p.wrapper

def Workbench.traced (b : Workbench (ResidentEngine S)) (statement : Statement) (w : World S) :
    Processed where
  unit := (b.draft.lower (Engine.isResident b.engine) (wrapperName b.nextWrapper) statement).2.unit
  wrapper := wrapperName b.nextWrapper
  outcome := (b.process statement w).1

section
variable {b : Workbench (ResidentEngine S)} {t : TreeSession S}

theorem Matches.traced_unit (h : Matches b t) {e : Expr} (hplain : ∀ c ∈ e.callees, IsPlain c)
    (hcheck : e.check t.arityOf [] = .ok ()) (w : World S) :
    (b.traced (.expression e) w).unit = t.closedUnit e := by
  obtain ⟨scope, hlower⟩ := h.lowerExpression_ok hplain hcheck
  simp only [Workbench.traced, Draft.lower, hlower]

theorem Matches.expected_of_execute (h : Matches b t) {e : Expr}
    (hplain : ∀ c ∈ e.callees, IsPlain c) (hcheck : e.check t.arityOf [] = .ok ())
    {failure : Failure}
    (hfailure : (t.execute TreeSession.isSmall e w).1 = .error failure)
    (hresult : ∀ name, failure.cause ≠ .noResult name) :
    failure.Expected (b.traced (.expression e) w').unit (wrapperName b.nextWrapper) := by
  rw [h.traced_unit hplain hcheck, h.nextWrapper]
  rw [TreeSession.execute_eq] at hfailure
  cases hsmall : (t.closing e).isSmall ⟨wrapperName t.expressions, [], e⟩ with
  | false =>
    rw [hsmall] at hfailure
    cases hfailure
    refine ⟨by rw [t.closedUnit_id], fun hlimits => ?_⟩
    rw [(t.isSmall_closing e).mpr hlimits] at hsmall
    cases hsmall
  | true =>
    rw [hsmall, if_pos rfl] at hfailure
    generalize ((t.closing e).commit.evaluate e w).1 = result at hfailure
    cases result with
    | ok v => cases hfailure
    | error why =>
      cases hfailure
      cases why with
      | trap reason => exact .inl ⟨reason, rfl⟩
      | unfinished => exact .inr rfl
      | stuck => exact absurd rfl (hresult _)

theorem Matches.expected_of_process (h : Matches b t) (hs : statement.Readable) (w : World S) :
    (b.traced statement w).Expected := by
  intro e he
  have hstep : Steps False b (b.process statement w) (t.process TreeSession.isSmall statement w) :=
    h.process hs False.elim (.refl w)
  have hresult : ∀ name, e.cause ≠ .noResult name := fun _ => hstep.resulting he
  have hfailure : (t.process TreeSession.isSmall statement w).1 = .error e :=
    hstep.outcome.symm.trans he
  unfold TreeSession.process at hfailure
  cases hc : t.check statement with
  | error e' =>
    rw [hc] at hfailure
    cases hfailure
    exact expected_of_check hs hc
  | ok _ =>
    rw [hc] at hfailure
    cases statement with
    | definition proto body => cases hfailure
    | declaration proto => cases hfailure
    | expression body =>
      exact h.expected_of_execute (fun c hmem => (hs.callees c hmem).isPlain) hc hfailure hresult

end

-- ---------------------------------------------------------------------------
-- Many statements, many texts
-- ---------------------------------------------------------------------------

/-- What became of statements in order. One that could not be read leaves the unit as it is. -/
def Workbench.traceAll (b : Workbench (ResidentEngine S)) (w : World S) :
    List (Except Failure Statement) → List Processed
  | [] => []
  | .error e :: rest => ⟨b.draft.unit, wrapperName b.nextWrapper, .error e⟩ :: b.traceAll w rest
  | .ok statement :: rest =>
    let (_, b', w') := b.process statement w
    b.traced statement w :: b'.traceAll w' rest

theorem Workbench.traceAll_outcomes (b : Workbench (ResidentEngine S)) (w : World S)
    (statements : List (Except Failure Statement)) :
    (b.traceAll w statements).map (·.outcome) = (b.processAll w statements).1 := by
  induction statements generalizing b w with
  | nil => rfl
  | cons r rest ih =>
    cases r with
    | error e => exact congrArg _ (ih b w)
    | ok statement => exact congrArg _ (ih _ _)

theorem Matches.expected_of_processAll {b : Workbench (ResidentEngine S)} {t : TreeSession S}
    (h : Matches b t) (hs : ∀ r ∈ statements, Ensures Statement.Readable r) (w : World S) :
    ∀ p ∈ b.traceAll w statements, p.Expected := by
  induction statements generalizing b t w with
  | nil => simp [Workbench.traceAll]
  | cons r rest ih =>
    obtain ⟨hr, hrest⟩ := List.forall_mem_cons.mp hs
    cases hr with
    | error he =>
      refine List.forall_mem_cons.mpr ⟨?_, ih h hrest w⟩
      rintro e ⟨⟩
      exact expected_of_isReading he
    | ok hreadable =>
      have hstep := h.process hreadable False.elim (.refl w)
      exact List.forall_mem_cons.mpr ⟨h.expected_of_process hreadable w, ih hstep.sides hrest _⟩

namespace Session

def traceTexts (s : Session S) (w : World S) : List String → List (List Processed)
  | [] => []
  | text :: rest =>
    let (_, s', w') := s.process text w
    s.bench.traceAll w (parseStatements text) :: s'.traceTexts w' rest

theorem traceTexts_outcomes (s : Session S) (w : World S) (texts : List String) :
    (s.traceTexts w texts).map (·.map (·.outcome)) = (s.processTexts w texts).1 := by
  induction texts generalizing s w with
  | nil => rfl
  | cons text rest ih =>
    exact congrArg₂ List.cons (s.bench.traceAll_outcomes w (parseStatements text)) (ih _ _)

end Session

theorem Matches.expected_of_processTexts {s : Session S} {t : TreeSession S} (h : Matches s.bench t)
    (texts : List String) (w : World S) :
    ∀ steps ∈ s.traceTexts w texts, ∀ p ∈ steps, p.Expected := by
  induction texts generalizing s t w with
  | nil => simp [Session.traceTexts]
  | cons text rest ih =>
    have hread := readable_of_parse text
    have hruns := h.processAll hread False.elim (.refl w)
    exact List.forall_mem_cons.mpr ⟨h.expected_of_processAll hread w,
      ih (s := (s.process text w).2.1) hruns.sides _⟩

/-- No internal failure can be reached from texts. In any session whose host functions are
registered before the first statement, whatever the texts: every failure of a statement comes of
what is written, or the unit to be finalized breaks a limit, or running the wrapper was stopped. -/
theorem session_failures_expected (config : Config) {s₀ : Session S}
    (hstart : Session.start config = .ok s₀) (hosts : List (HostFunction S))
    (hplain : ∀ h ∈ hosts, IsPlain h.name) (limits : Limits) (texts : List String) (w : World S) :
    let s := (s₀.registerAll hosts).withLimits limits
    (s.processTexts w texts).1 = (s.traceTexts w texts).map (·.map (·.outcome)) ∧
      ∀ steps ∈ s.traceTexts w texts, ∀ p ∈ steps, ∀ e, p.outcome = .error e →
        e.Expected p.unit p.wrapper := by
  intro s
  have hmatches := (starts_of_start hstart hplain).1.sides.withLimits limits
  exact ⟨(s.traceTexts_outcomes w texts).symm, hmatches.expected_of_processTexts texts w⟩

/-- A function that never returns, a call with too many arguments, and a text that breaks off. -/
theorem session_failures_expected_of_recursion :
    let note : HostFunction (List (List Number)) :=
      { name := "note", arity := 1
        run := fun args calls => ⟨args.headD .zero, .empty, calls ++ [args]⟩ }
    let texts := ["def f(x) f(x); f(note(1));", "f(1, 2); f(1"]
    ∃ s₀, Session.start {} = .ok s₀ ∧ IsPlain note.name ∧
      let s := (s₀.registerAll [note]).withLimits { callDepth := 5 }
      (∀ steps ∈ s.traceTexts { state := [] } texts, ∀ p ∈ steps, ∀ e, p.outcome = .error e →
        e.Expected p.unit p.wrapper) ∧
      (s.processTexts { state := [] } texts).1.map (·.map fun
        | .ok _ => none
        | .error e => some e.diagnostic.kind) =
        [[none, some .execution], [some .wrongArity, some .malformedSource]] := by
  intro note texts
  have hplain : IsPlain note.name := by simp [IsPlain, note]
  obtain ⟨-, hexpected⟩ := session_failures_expected {} rfl [note]
    (List.forall_mem_singleton.mpr hplain) { callDepth := 5 } texts { state := [] }
  exact ⟨_, rfl, hplain, hexpected, by decide +kernel⟩

-- ---------------------------------------------------------------------------
-- A name that is too long
-- ---------------------------------------------------------------------------

def longName (n : Nat) : String := String.ofList (List.replicate (n + 1) 'a')

theorem utf8ByteSize_longName (n : Nat) : (longName n).utf8ByteSize = n + 1 := by
  unfold longName
  induction n with
  | zero => rfl
  | succ n ih =>
    rw [List.replicate_succ, String.ofList_cons, String.utf8ByteSize_append, ih,
      String.utf8ByteSize_singleton]
    exact Nat.add_comm 1 (n + 1)

theorem ofWord_longName (h : 6 ≤ n) : TokenKind.ofWord (longName n) = .identifier (longName n) := by
  have hnone : Keyword.ofSpelling? (longName n) = none := by
    refine List.find?_eq_none.mpr fun k _ hk => ?_
    have hsize := congrArg String.utf8ByteSize (eq_of_beq hk)
    rw [utf8ByteSize_longName] at hsize
    -- no keyword is that long
    have hshort : k.spelling.utf8ByteSize ≤ 6 := by cases k <;> decide
    omega
  rw [TokenKind.ofWord, hnone]

theorem Scanner.run_word {cs : List Char} (h : ∀ c ∈ cs, isWordChar c = true) (start p : Position)
    (text : List Char) (tokens : List Token) :
    Scanner.run ⟨.word start text, p, tokens⟩ cs =
      .ok ⟨.word start (cs.reverse ++ text), p.after cs, tokens⟩ := by
  induction cs generalizing p text with
  | nil => rfl
  | cons c cs ih =>
    obtain ⟨hc, hcs⟩ := List.forall_mem_cons.mp h
    simp only [run, step, hc, if_true]
    rw [ih hcs, List.reverse_cons, List.append_assoc]
    rfl

def longNamed (n : Nat) : String := "def " ++ longName n ++ "() 1; 1;"

theorem tokenize_longNamed (n : Nat) :
    ∃ σ₁ σ₂ σ₃ σ₄ σ₅ σ₆ σ₇ σ₈ σ₉ v₁ v₂, tokenize (longNamed n) =
      .ok [⟨.keyword .defWord, σ₁⟩, ⟨.ofWord (longName n), σ₂⟩, ⟨.char '(', σ₃⟩, ⟨.char ')', σ₄⟩,
        ⟨.number v₁, σ₅⟩, ⟨.char ';', σ₆⟩, ⟨.number v₂, σ₇⟩, ⟨.char ';', σ₈⟩,
        ⟨.endOfInput, σ₉⟩] := by
  have hchars : (longNamed n).toList =
      "def a".toList ++ (List.replicate n 'a' ++ "() 1; 1;".toList) := by
    simp [longNamed, longName, List.replicate_succ]
  have hname : longName n = String.ofList ((List.replicate n 'a').reverse ++ ['a']).reverse := by
    simp [longName, List.replicate_succ]
  have hfirst : Scanner.run {} "def a".toList =
      .ok ⟨.word ⟨0, 4⟩ ['a'], ⟨0, 5⟩, [⟨.keyword .defWord, ⟨⟨0, 0⟩, ⟨0, 3⟩⟩⟩]⟩ := rfl
  rw [tokenize, hchars, Scanner.run_append, hfirst, Except.bind, Scanner.run_append,
    Scanner.run_word (by simp [Scanner.isWordChar]), hname]
  -- the rest of the text is scanned in the same way whatever the word before it is
  generalize (List.replicate n 'a').reverse ++ ['a'] = text
  exact ⟨_, _, _, _, _, _, _, _, _, _, _, rfl⟩

theorem Parse.expression_number (v : Number) (σ σ' : Span) (last : Option Token)
    (rest : List Token) :
    Parse.expression ⟨last, ⟨.number v, σ⟩ :: ⟨.char ';', σ'⟩ :: rest⟩ =
      .ok (.number v σ, ⟨some ⟨.number v, σ⟩, ⟨.char ';', σ'⟩ :: rest⟩) := rfl

open Parse TokenCursor in
theorem parse_longNamed (h : 6 ≤ n) :
    ∃ σ₁ σ₂ σ₃ v₁ v₂, parseStatements (longNamed n) =
      [.ok (.definition ⟨longName n, [], σ₁⟩ (.number v₁ σ₂)),
        .ok (.expression (.number v₂ σ₃))] := by
  obtain ⟨σ₁, σ₂, σ₃, σ₄, σ₅, σ₆, σ₇, σ₈, σ₉, v₁, v₂, htokens⟩ := tokenize_longNamed n
  refine ⟨σ₂, σ₅, σ₇, v₁, v₂, ?_⟩
  rw [parseStatements, htokens, ofWord_longName h]
  simp [statements, statementsWith, statement, statementBody, skipEmpty, prototype, parameters,
    ofTokens, kind, span, advance, isChar, expectIdentifier, expectChar, expression_number, bind,
    Except.bind]

theorem Matches.traced_refused {b : Workbench (ResidentEngine S)} {t : TreeSession S}
    (h : Matches b t) {e : Expr} (hs : e.Readable) (hcheck : e.check t.arityOf [] = .ok ())
    (hlimits : ¬ ((t.closedUnit e).WithinLimits ∧ (t.closedUnit e).Linkable ∧
      (t.closedUnit e).Compact)) (w : World S) :
    (b.traced (.expression e) w).outcome = .error { cause := .invalidModule t.unit } := by
  have hreadable : (Statement.expression e).Readable := hs
  have hstep : Steps False b (b.process (.expression e) w)
      (t.process TreeSession.isSmall (.expression e) w) :=
    h.process hreadable False.elim (.refl w)
  refine hstep.outcome.trans ?_
  have hsmall := Bool.eq_false_iff.mpr (mt (t.isSmall_closing e).mp hlimits)
  simp only [TreeSession.process, TreeSession.check, hcheck, TreeSession.execute_eq, hsmall]
  rfl

def afterLongName (n : Nat) (body : Expr) : TreeSession Unit :=
  TreeSession.define {} ⟨longName n, [], body⟩

theorem closedUnit_longName (hn : Wasm.maxNameSize ≤ n) (v₁ v₂ : Number) (σ₁ σ₂ : Span) :
    let u := (afterLongName n (.number v₁ σ₁)).closedUnit (.number v₂ σ₂)
    u.WithinLimits ∧ ¬ u.Linkable := by
  intro u
  have hcallables : u.callables = [(longName n, 0), (wrapperName 0, 0)] := rfl
  have hfunctions : u.functions =
      [.ofTree (longName n) [] (.number v₁ σ₁), .ofTree (wrapperName 0) [] (.number v₂ σ₂)] := rfl
  refine ⟨⟨?_, ?_⟩, fun hlink => ?_⟩
  · rw [hcallables]
    simp
  · rw [hfunctions]
    simp [SlotFunction.ofTree, SlotFunction.arity, SlotFunction.localCount, Expr.slotCount]
  · have hsize := hlink.names (longName n, 0) (by rw [hcallables]; simp)
    rw [utf8ByteSize_longName] at hsize
    omega

theorem longNamed_refused (hn : Wasm.maxNameSize ≤ n) :
    ∃ s : Session Unit, Session.start { hostFunctions := [] } = .ok s ∧
      ∃ first last e, s.traceTexts { state := () } [longNamed n] = [[first, last]] ∧
        last.outcome = .error e ∧ e.diagnostic.kind = .internal ∧ last.unit.WithinLimits := by
  obtain ⟨σ₁, σ₂, σ₃, v₁, v₂, hparse⟩ := parse_longNamed (n := n) (Nat.le_trans (by decide) hn)
  let b : Workbench (ResidentEngine Unit) := { engine := {} }
  let w : World Unit := { state := () }
  let definition : Statement := .definition ⟨longName n, [], σ₁⟩ (.number v₁ σ₂)
  have hreadable (v : Number) (σ : Span) : (Expr.number v σ).Readable :=
    ⟨by simp [Expr.callees], by simp [Expr.operators]⟩
  have hword : IsWord (longName n) :=
    ⟨'a', List.replicate n 'a', by simp [longName, List.replicate_succ], rfl⟩
  have hstep : Steps False b (b.process definition w)
      (TreeSession.process TreeSession.isSmall {} definition w) :=
    (starts_empty false).sides.process ⟨hword, hreadable v₁ σ₂⟩ False.elim (.refl w)
  have hmatches : Matches (b.process definition w).2.1 (afterLongName n (.number v₁ σ₂)) :=
    hstep.sides
  obtain ⟨hlimits, hlink⟩ := closedUnit_longName hn v₁ v₂ σ₂ σ₃
  have hrefused := hmatches.traced_refused (hreadable v₂ σ₃) rfl (fun h => hlink h.2.1)
    (b.process definition w).2.2
  have hunit := hmatches.traced_unit (e := .number v₂ σ₃) (by simp [Expr.callees]) rfl
    (b.process definition w).2.2
  refine ⟨⟨_, b⟩, rfl, b.traced definition w, _, _, ?_, hrefused, rfl, hunit ▸ hlimits⟩
  simp only [Session.traceTexts, hparse, Workbench.traceAll]
  rfl

/-- A name one byte longer than names may be. -/
theorem name_of_100001_bytes_refused :
    ∃ s : Session Unit, Session.start { hostFunctions := [] } = .ok s ∧
      ∃ first last e, s.traceTexts { state := () } [longNamed 100000] = [[first, last]] ∧
        last.outcome = .error e ∧ e.diagnostic.kind = .internal ∧ last.unit.WithinLimits :=
  longNamed_refused (Nat.le_refl _)

end NumericJit
