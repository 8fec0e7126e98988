import NumericJit.Proofs.Session.HostCalls
import NumericJit.Proofs.Session.InputLines
import NumericJit.Proofs.Session.Pieces

/-!
# Texts line by line

A text comes to the same whether it is processed as a whole or read line by line
(`lines_agree_with_text`), if no line is a command and every result can be written: the same
statements in the same order, the same outcomes but for the places of failures, the same host calls,
and the same session in the end.
-/

namespace NumericJit

variable {S : Type}

def ReplAction.statements : ReplAction → List (Except Failure Statement)
  | .submit source => parseStatements (String.ofList source)
  | .ask _ | .summarise | .unreadable => []

-- ---------------------------------------------------------------------------
-- Reading lines
-- ---------------------------------------------------------------------------

namespace Repl

def readsOnlyCode (buffer : StatementBuffer) : List (Option (List Char)) → Bool
  | [] | none :: _ => true
  | some line :: rest => request buffer line = .code && readsOnlyCode (buffer.push line).2 rest

theorem statements_submission (piece : Option (List Char)) :
    (submission piece).flatMap ReplAction.statements =
      piece.toList.flatMap fun piece => parseStatements (String.ofList piece) := by
  cases piece <;> rfl

theorem statements_actions {buffer : StatementBuffer}
    (h : readsOnlyCode buffer (lines.map some) = true) :
    (actions buffer (lines.map some)).flatMap ReplAction.statements =
      (buffer.pieces lines).flatMap fun piece => parseStatements (String.ofList piece) := by
  induction lines generalizing buffer with
  | nil => exact statements_submission buffer.rest
  | cons line lines ih =>
    obtain ⟨hline, hlines⟩ := Bool.and_eq_true_iff.mp h
    have hcode : request buffer line = .code := of_decide_eq_true hline
    rw [List.map_cons, actions, step, hcode]
    dsimp only
    rw [List.cons_append, List.flatMap_cons, List.flatMap_append, ih hlines, statements_submission,
      StatementBuffer.pieces, List.flatMap_append]
    rfl

/-- However a text is spread over lines, the statements are those of the text. -/
theorem statements_inputLines {text : String} (htokens : tokenize text = .ok tokens)
    (hcode : readsOnlyCode {} (inputLines text.toUTF8) = true) :
    ((actions {} (inputLines text.toUTF8)).flatMap ReplAction.statements).map unplaced =
      (parseStatements text).map unplaced := by
  rw [inputLines_toUTF8] at hcode ⊢
  obtain ⟨s, hrun, hfinish⟩ := bind_ok.mp htokens
  -- a line feed behind the text makes no difference
  obtain ⟨t, found, hlines, hfound, hkinds⟩ : ∃ t found,
      ({} : Scanner).run ((Text.wholeLines text.toList).map StatementBuffer.completeLine).flatten =
        .ok t ∧ t.finish = .ok found ∧ found.map Token.kind = tokens.map Token.kind := by
    obtain hall | hall := Text.flatten_completeLine [] text.toList
    · exact ⟨s, tokens, by rw [Text.wholeLines, hall]; exact hrun, hfinish, rfl⟩
    · obtain ⟨t, found, hstep, hfound, hkinds⟩ := Scanner.step_newline hfinish
      refine ⟨t, found, ?_, hfound, hkinds⟩
      rw [Text.wholeLines, hall]
      exact Scanner.run_append_ok.mpr ⟨s, hrun, Scanner.run_cons_ok.mpr ⟨t, hstep, rfl⟩⟩
  have hstart : StatementBuffer.Gathers [] {} {} := ⟨{}, rfl, rfl, .between, rfl⟩
  obtain ⟨kinds, hsplit, hsplits⟩ := hstart.splits hlines hfound
  rw [statements_actions hcode, hsplits.statements, parseStatements_unplaced htokens, ← hkinds,
    hsplit]
  rfl

end Repl

-- ---------------------------------------------------------------------------
-- Carrying actions out
-- ---------------------------------------------------------------------------

namespace Session

def outcomesOf (s : Session S) (w : World S) : List ReplAction → List (Except Failure Outcome)
  | [] => []
  | a :: rest =>
    (s.bench.processAll w a.statements).1 ++
      match s.act w a with
      | .ok (_, s, w) => s.outcomesOf w rest
      | .error _ => []

def CanWrite (s : Session S) (outcomes : List (Except Failure Outcome)) : Prop :=
  ∀ x, .ok (.value x) ∈ outcomes → (s.config.format? x).isSome = true

theorem resultText?_isSome {config : Config} {r : Except Failure Outcome}
    (h : ∀ x, r = .ok (.value x) → (config.format? x).isSome = true) (source : String) :
    ∃ text, resultText? config source r = some text := by
  cases r with
  | error e => exact ⟨_, rfl⟩
  | ok outcome =>
    cases outcome with
    | value x =>
      obtain ⟨text, htext⟩ := Option.isSome_iff_exists.mp (h x rfl)
      rw [resultText?, outcomeText?, htext]
      exact ⟨_, rfl⟩
    | defined name | declared name => exact ⟨_, rfl⟩

theorem sayAll_ok {s : Session S} {outcomes : List (Except Failure Outcome)}
    (h : s.CanWrite outcomes) (source : String) (w : World S) :
    ∃ w', sayAll s.config source w outcomes = .ok w' ∧ w.SameState w' := by
  induction outcomes generalizing w with
  | nil => exact ⟨w, rfl, rfl⟩
  | cons r rest ih =>
    obtain ⟨text, htext⟩ := resultText?_isSome (fun x hx => h x (hx ▸ List.mem_cons_self ..)) source
    obtain ⟨w', hrest, hstate⟩ := ih (fun x hx => h x (List.mem_cons_of_mem r hx)) (w.print text)
    refine ⟨w', ?_, hstate⟩
    rw [sayAll, htext]
    exact hrest

theorem act_eq {s : Session S} {w : World S} {a : ReplAction}
    (h : s.CanWrite (s.bench.processAll w a.statements).1) :
    let all := s.bench.processAll w a.statements
    ∃ w', s.act w a = .ok (all.1.countP isFailure, { s with bench := all.2.1 }, w') ∧
      all.2.2.SameState w' := by
  cases a with
  | submit source =>
    obtain ⟨w', hsay, hstate⟩ := sayAll_ok h (String.ofList source)
      (s.bench.processAll w (parseStatements (String.ofList source))).2.2
    refine ⟨w', ?_, hstate⟩
    rw [ReplAction.statements] at hsay
    simp only [act, report, process, hsay, ReplAction.statements]
    rfl
  | ask _ | summarise | unreadable => exact ⟨_, rfl, rfl⟩

theorem perform_eq {s : Session S} {w : World S} {actions : List ReplAction}
    (h : s.CanWrite (s.bench.processAll w (actions.flatMap ReplAction.statements)).1) :
    let all := s.bench.processAll w (actions.flatMap ReplAction.statements)
    ∃ w', s.perform w actions = .ok (all.1.countP isFailure, { s with bench := all.2.1 }, w') ∧
      all.2.2.SameState w' ∧ s.outcomesOf w actions = all.1 := by
  induction actions generalizing s w with
  | nil => exact ⟨w, rfl, rfl, rfl⟩
  | cons a rest ih =>
    rw [List.flatMap_cons, Workbench.processAll_append] at h ⊢
    dsimp only at h ⊢
    obtain ⟨w₁, hact, hstate₁⟩ := act_eq fun x hx => h x (List.mem_append_left _ hx)
    -- what the action has written makes no difference to the rest
    obtain ⟨hresult, hbench, hstate⟩ :=
      Workbench.processAll_sameState (s.bench.processAll w a.statements).2.1
        (rest.flatMap ReplAction.statements) hstate₁
    obtain ⟨w₂, hperform, hstate₂, houtcomes⟩ :=
      ih (s := { s with bench := (s.bench.processAll w a.statements).2.1 }) (w := w₁)
        fun x hx => h x (List.mem_append_right _ (hresult ▸ hx))
    rw [hresult, hbench] at hperform
    rw [hresult] at houtcomes
    rw [List.countP_append]
    refine ⟨w₂, ?_, hstate₂.trans hstate, ?_⟩
    · rw [perform, hact]
      simp only [bind, Except.bind, hperform]
      rfl
    · rw [outcomesOf, hact]
      exact congrArg (_ ++ ·) houtcomes

theorem sayAll_canWrite {s : Session S} {w w' : World S} {outcomes : List (Except Failure Outcome)}
    (h : sayAll s.config source w outcomes = .ok w') : s.CanWrite outcomes := by
  induction outcomes generalizing w with
  | nil => exact nofun
  | cons r rest ih =>
    rw [sayAll] at h
    cases htext : resultText? s.config source r with
    | none =>
      rw [htext] at h
      cases h
    | some text =>
      rw [htext] at h
      intro x hx
      obtain rfl | hx := List.mem_cons.mp hx
      · cases hformat : s.config.format? x with
        | none =>
          rw [resultText?, outcomeText?, hformat] at htext
          cases htext
        | some written => rfl
      · exact ih h x hx

theorem act_canWrite {s : Session S} {a : ReplAction} (h : s.act w a = .ok r) :
    s.CanWrite (s.bench.processAll w a.statements).1 := by
  cases a with
  | submit source =>
    obtain ⟨w', hsay, -⟩ := map_ok.mp h
    exact sayAll_canWrite hsay
  | ask _ | summarise | unreadable => exact nofun

theorem perform_canWrite {s : Session S} {w : World S} {actions : List ReplAction}
    (h : s.perform w actions = .ok r) :
    s.CanWrite (s.bench.processAll w (actions.flatMap ReplAction.statements)).1 := by
  induction actions generalizing s w r with
  | nil => exact nofun
  | cons a rest ih =>
    obtain ⟨r₁, hact, hrest⟩ := bind_ok.mp h
    have hwrite := act_canWrite hact
    obtain ⟨w₁, hact₁, hstate₁⟩ := act_eq hwrite
    obtain rfl := Except.ok.inj (hact.symm.trans hact₁)
    obtain ⟨r₂, hperform, -⟩ := bind_ok.mp hrest
    obtain ⟨hresult, -⟩ := Workbench.processAll_sameState (s.bench.processAll w a.statements).2.1
      (rest.flatMap ReplAction.statements) hstate₁
    rw [List.flatMap_cons, Workbench.processAll_append]
    intro x hx
    obtain hx | hx := List.mem_append.mp hx
    · exact hwrite x hx
    · exact ih hperform x (hresult ▸ hx)

theorem CanWrite.of_worded {s : Session S} {outcomes outcomes' : List (Except Failure Outcome)}
    (h : s.CanWrite outcomes) (hworded : outcomes'.map worded = outcomes.map worded) :
    s.CanWrite outcomes' := by
  intro x hx
  have hmem : worded (.ok (.value x)) ∈ outcomes.map worded := hworded ▸ List.mem_map_of_mem hx
  obtain ⟨r, hr, heq⟩ := List.mem_map.mp hmem
  cases r with
  | error e => cases heq
  | ok outcome =>
    cases heq
    exact h x hr

theorem countP_isFailure {outcomes outcomes' : List (Except Failure Outcome)}
    (h : outcomes'.map worded = outcomes.map worded) :
    outcomes'.countP isFailure = outcomes.countP isFailure := by
  have hfailure : isFailure = (fun r => !r.isOk) ∘ worded := by
    funext r
    cases r <;> rfl
  rw [hfailure, ← List.countP_map, h, List.countP_map]

/-- Reading a text line by line leaves what processing it as a whole leaves. -/
theorem interact_eq {s : Session S} {text : String} {w : World S}
    (htokens : tokenize text = .ok tokens)
    (hcode : Repl.readsOnlyCode {} (Repl.inputLines text.toUTF8) = true)
    (hwrite : s.CanWrite (s.process text w).1) :
    (s.outcomesOf w (Repl.actions {} (Repl.inputLines text.toUTF8))).map worded =
        (s.process text w).1.map worded ∧
      ∃ w', s.interact text.toUTF8 w =
          .ok ((s.process text w).1.countP isFailure, (s.process text w).2.1, w') ∧
        w'.state = (s.process text w).2.2.state := by
  obtain ⟨hworded, hleft⟩ :=
    s.bench.processAll_unplaced w (Repl.statements_inputLines htokens hcode)
  obtain ⟨w', hperform, hstate, houtcomes⟩ := perform_eq (hwrite.of_worded hworded)
  rw [hleft, countP_isFailure hworded] at hperform
  rw [hleft] at hstate
  rw [houtcomes]
  exact ⟨hworded, w', hperform, hstate⟩

theorem interact_isOk {s : Session S} {text : String} {w : World S}
    (htokens : tokenize text = .ok tokens)
    (hcode : Repl.readsOnlyCode {} (Repl.inputLines text.toUTF8) = true) :
    (s.interact text.toUTF8 w).isOk = true ↔ s.CanWrite (s.process text w).1 := by
  constructor
  · intro hok
    cases hinteract : s.interact text.toUTF8 w with
    | error w' =>
      rw [hinteract] at hok
      cases hok
    | ok r =>
      obtain ⟨hworded, -⟩ :=
        s.bench.processAll_unplaced w (Repl.statements_inputLines htokens hcode)
      exact (perform_canWrite hinteract).of_worded hworded.symm
  · intro hwrite
    obtain ⟨-, w', hinteract, -⟩ := interact_eq htokens hcode hwrite
    rw [hinteract]
    rfl

end Session

/-- A text that splits into tokens, and no line of which is a command, has the same statements in
the same order whether a session processes it as a whole or reads it line by line. Reading it line
by line breaks off exactly if a value cannot be written. Otherwise both come to the same: the same
outcomes but for the places of failures, the same session in the end, and the same host calls. -/
theorem lines_agree_with_text (s : Session S) (text : String) (w : World S)
    (htokens : (tokenize text).isOk = true)
    (hcode : Repl.readsOnlyCode {} (Repl.inputLines text.toUTF8) = true) :
    let actions := Repl.actions {} (Repl.inputLines text.toUTF8)
    let whole := s.process text w
    (actions.flatMap ReplAction.statements).map unplaced = (parseStatements text).map unplaced ∧
    ((s.interact text.toUTF8 w).isOk = true ↔ s.CanWrite whole.1) ∧
    (s.CanWrite whole.1 →
      (s.outcomesOf w actions).map worded = whole.1.map worded ∧
      (∃ w', s.interact text.toUTF8 w =
          .ok (whole.1.countP Session.isFailure, whole.2.1, w') ∧ w'.state = whole.2.2.state) ∧
      ∃ w', s.logged.interact text.toUTF8 (w.noting []) =
          .ok (whole.1.countP Session.isFailure, whole.2.1.logged, w') ∧
        w'.state = (whole.2.2.state, s.hostCalls text w)) := by
  intro actions whole
  cases hok : tokenize text with
  | error e =>
    rw [hok] at htokens
    cases htokens
  | ok tokens =>
    refine ⟨Repl.statements_inputLines hok hcode, Session.interact_isOk hok hcode,
      fun hwrite => ?_⟩
    obtain ⟨houtcomes, hinteract⟩ := Session.interact_eq hok hcode hwrite
    have hlogged := s.process_logged text w
    have hwrite' : s.logged.CanWrite (s.logged.process text (w.noting [])).1 := by
      rw [hlogged]
      exact hwrite
    obtain ⟨-, hnoted⟩ := Session.interact_eq hok hcode hwrite'
    rw [hlogged] at hnoted
    exact ⟨houtcomes, hinteract, hnoted⟩

/-- A definition and an expression over several lines, with a comment that has a `;` in it, a line
that would be a command between statements, an unknown variable, and no `;` at the end. -/
theorem lines_agree_with_spread_text :
    let tick : HostFunction Nat :=
      ⟨"tick", 1, fun args t => { value := args.headD .zero, state := t + 1 }⟩
    let s : Session Nat := (Session.register { config := {}, bench := { engine := {} } } tick).2
    let text := "def f(x) # f; not yet\n  tick(x)\n; f(1) *\nf(1); f(1) *\nshow\n; # show\n\nf(1)"
    let w : World Nat := { state := 0 }
    ((tokenize text).isOk = true ∧ Repl.readsOnlyCode {} (Repl.inputLines text.toUTF8) = true ∧
      s.CanWrite (s.process text w).1) ∧
    s.hostCalls text w = [("tick", [.one]), ("tick", [.one]), ("tick", [.one])] ∧
    (∃ w', s.interact text.toUTF8 w = .ok (1, (s.process text w).2.1, w') ∧ w'.state = 3) ∧
    ∃ w', s.logged.interact text.toUTF8 (w.noting []) = .ok (1, (s.process text w).2.1.logged, w') ∧
      w'.state.2 = [("tick", [.one]), ("tick", [.one]), ("tick", [.one])] := by
  intro tick s text w
  have htokens : (tokenize text).isOk = true := by decide +kernel
  have hcode : Repl.readsOnlyCode {} (Repl.inputLines text.toUTF8) = true := by
    rw [Repl.inputLines_toUTF8]
    decide +kernel
  have hwrite : s.CanWrite (s.process text w).1 := fun _ _ => rfl
  have hfailures : (s.process text w).1.countP Session.isFailure = 1 := by decide +kernel
  have hstate : (s.process text w).2.2.state = 3 := by decide +kernel
  have hcalls : s.hostCalls text w = [("tick", [.one]), ("tick", [.one]), ("tick", [.one])] := by
    decide +kernel
  obtain ⟨-, ⟨w₁, hinteract, hstate₁⟩, w₂, hnoted, hstate₂⟩ :=
    (lines_agree_with_text s text w htokens hcode).2.2 hwrite
  rw [hfailures] at hinteract hnoted
  rw [hcalls] at hstate₂
  exact ⟨⟨htokens, hcode, hwrite⟩, hcalls, ⟨w₁, hinteract, hstate₁.trans hstate⟩, w₂, hnoted,
    congrArg Prod.snd hstate₂⟩

/-- A value that is to be written with more places than there can be breaks a session off that reads
line by line, though processing the text as a whole fails nowhere. -/
theorem lines_break_off_at_unwritable_value :
    let s : Session Unit :=
      { config := { precision := some (Number.maxPlaces + 1) }, bench := { engine := {} } }
    let text := "1;\n"
    let w : World Unit := { state := () }
    (tokenize text).isOk = true ∧ Repl.readsOnlyCode {} (Repl.inputLines text.toUTF8) = true ∧
      ((s.process text w).1.length = 1 ∧ (s.process text w).1.countP Session.isFailure = 0) ∧
      (s.interact text.toUTF8 w).isOk = false := by
  intro s text w
  refine ⟨by decide +kernel, ?_, by decide +kernel, ?_⟩
  · rw [Repl.inputLines_toUTF8]
    decide +kernel
  · rw [Session.interact, Repl.inputLines_toUTF8]
    decide +kernel

end NumericJit
