import NumericJit.Proofs.Session.Cutting
import NumericJit.Proofs.Statement.Sequence
import NumericJit.Proofs.Token.Continuing

/-!
# Lines and statements

Lines are handed on in pieces that end behind a `;`. However a text is spread over lines, the pieces
split into the tokens that the whole text splits into (`StatementBuffer.Gathers.splits`), so they
have its statements (`Splits.statements`).
-/

namespace NumericJit

open Text (EndsInComment commentAfter)

theorem completeLine_eq (line : List Char) :
    ∃ front, StatementBuffer.completeLine line = front ++ ['\n'] := by
  unfold StatementBuffer.completeLine
  split
  · rename_i hlast
    exact List.getLast?_eq_some_iff.mp hlast
  · exact ⟨line, rfl⟩

/-- Behind a whole line no token is under way. -/
theorem Scanner.run_completeLine_mode {s t : Scanner}
    (h : s.run (StatementBuffer.completeLine line) = .ok t) : t.mode = .between := by
  obtain ⟨front, hfront⟩ := completeLine_eq line
  rw [hfront] at h
  obtain ⟨u, -, hlast⟩ := Scanner.run_append_ok.mp h
  obtain ⟨v, hstep, hv⟩ := Scanner.run_cons_ok.mp hlast
  cases hv
  exact Scanner.step_newline_mode hstep

-- ---------------------------------------------------------------------------
-- Pieces
-- ---------------------------------------------------------------------------

/-- Texts with certain tokens. All but the last of them end behind a statement. -/
inductive Splits : List (List Char) → List TokenKind → Prop where
  | nil : Splits [] [.endOfInput]
  | last (h : tokenize (String.ofList piece) = .ok tokens) : Splits [piece] (tokens.map Token.kind)
  | cons {tokens : List Token} {stop : Token}
      (h : tokenize (String.ofList piece) = .ok (tokens ++ [stop]))
      (hstop : stop.kind = .endOfInput) (hended : Parse.Ended tokens)
      (hrest : Splits pieces kinds) :
      Splits (piece :: pieces) (tokens.map Token.kind ++ kinds)

/-- Behind its last `;` outside comments, a text splits into tokens that end with it. -/
theorem tokenize_complete {u : Scanner} (hrun : ({} : Scanner).run (front ++ [';']) = .ok u)
    (hfront : ¬ EndsInComment front) :
    u.mode = .between ∧ Parse.Ended u.tokens.reverse ∧ ∃ stop : Token, stop.kind = .endOfInput ∧
      tokenize (String.ofList (front ++ [';'])) = .ok (u.tokens.reverse ++ [stop]) := by
  have hopen : u.IsOpen := Scanner.IsOpen.run (s := {}) (List.not_mem_nil) hrun
  obtain ⟨v, hv, hlast⟩ := Scanner.run_append_ok.mp hrun
  obtain ⟨v', hstep, hu⟩ := Scanner.run_cons_ok.mp hlast
  cases hu
  have hcommented : v.isCommented = false :=
    (Scanner.run_isCommented hv).trans ((Text.commentAfter_foldl_eq_false front).mpr hfront)
  obtain ⟨hmode, span, rest, htokens⟩ :=
    Scanner.step_semicolon (of_decide_eq_false hcommented) hstep
  refine ⟨hmode, ⟨fun t ht hend => ?_, fun t ht => ?_⟩,
    ⟨.endOfInput, ⟨u.position, u.position⟩⟩, rfl, ?_⟩
  · exact hopen (hend ▸ List.mem_map_of_mem (List.mem_reverse.mp ht))
  · rw [htokens, List.reverse_cons, List.getLast?_concat] at ht
    cases ht
    rfl
  · rw [tokenize, String.toList_ofList, hrun]
    exact Scanner.finish_of_between hmode

namespace StatementBuffer

def pieces (b : StatementBuffer) : List (List Char) → List (List Char)
  | [] => b.rest.toList
  | line :: lines => (b.push line).1.toList ++ (b.push line).2.pieces lines

/-- Where a scanner has come to at the end of a line, if what is held was not handed on yet and
certain tokens were. -/
def Gathers (before : List TokenKind) (s : Scanner) (b : StatementBuffer) : Prop :=
  ∃ h, ({} : Scanner).run b.held = .ok h ∧ h.mode = .between ∧ s.Continues before h

theorem tokens_of_no_code {h : Scanner} (hcode : hasCode text = false)
    (hrun : ({} : Scanner).run text = .ok h) : h.tokens = [] := by
  rw [← Bool.not_eq_true, hasCode_iff, HasCode, ← Text.foundFrom_false] at hcode
  exact Scanner.run_of_no_code (s := {}) rfl hcode hrun

theorem gathers_hold {s h : Scanner} (hrun : ({} : Scanner).run text = .ok h)
    (hmode : h.mode = .between) (hcont : s.Continues before h) : Gathers before s (hold text) := by
  cases hcode : hasCode text with
  | true =>
    refine ⟨h, ?_, hmode, hcont⟩
    rw [hold, hcode]
    exact hrun
  | false =>
    refine ⟨{}, ?_, rfl, ?_⟩
    · rw [hold, hcode]
      rfl
    · have hnew := Scanner.Continues.anew hmode
      rw [Scanner.kinds, tokens_of_no_code hcode hrun] at hnew
      exact hcont.trans hnew

theorem Gathers.push {s t : Scanner} {b : StatementBuffer} (h : Gathers before s b)
    (hrun : s.run (completeLine line) = .ok t) :
    ((b.push line).1 = none ∧ Gathers before t (b.push line).2) ∨
      ∃ piece tokens stop, (b.push line).1 = some piece ∧
        tokenize (String.ofList piece) = .ok (tokens ++ [stop]) ∧ stop.kind = .endOfInput ∧
        Parse.Ended tokens ∧
        Gathers ((tokens.map Token.kind).reverse ++ before) t (b.push line).2 := by
  obtain ⟨u, hheld, -, hcont⟩ := h
  obtain ⟨u', hline, hcont⟩ := hcont.run hrun
  have hmode := Scanner.run_completeLine_mode hline
  have htext : ({} : Scanner).run (b.held ++ completeLine line) = .ok u' :=
    Scanner.run_append_ok.mpr ⟨u, hheld, hline⟩
  obtain ⟨-, hpush⟩ | ⟨front, rest, heq, hfront, -, hpush⟩ := b.push_cases line
  · rw [hpush]
    exact .inl ⟨rfl, gathers_hold htext hmode hcont⟩
  · rw [heq] at htext
    rw [hpush]
    obtain ⟨v, hcomplete, hrest⟩ := Scanner.run_append_ok.mp htext
    obtain ⟨hbetween, hended, stop, hstop, htokens⟩ := tokenize_complete hcomplete hfront
    obtain ⟨v', hrest', hcont'⟩ := (Scanner.Continues.anew hbetween).run hrest
    have hmode' := hcont'.mode.eq_between hmode
    refine .inr ⟨_, _, stop, rfl, htokens, hstop, hended, ?_⟩
    rw [List.map_reverse, List.reverse_reverse]
    exact gathers_hold hrest' hmode' (hcont.trans hcont')

/-- However a text is spread over lines, its pieces have its tokens. -/
theorem Gathers.splits {s t : Scanner} {b : StatementBuffer} (h : Gathers before s b)
    (hrun : s.run (lines.map completeLine).flatten = .ok t) (hfinish : t.finish = .ok found) :
    ∃ kinds, found.map Token.kind = before.reverse ++ kinds ∧ Splits (b.pieces lines) kinds := by
  induction lines generalizing before s b with
  | nil =>
    cases hrun
    obtain ⟨u, hheld, hmode, hcont⟩ := h
    obtain ⟨found', hfinish', hkinds⟩ := hcont.finish hfinish
    refine ⟨_, hkinds, ?_⟩
    cases hcode : hasCode b.held with
    | true =>
      rw [pieces, rest, hcode]
      refine .last ?_
      rw [tokenize, String.toList_ofList, hheld]
      exact hfinish'
    | false =>
      rw [Scanner.finish_of_between hmode, tokens_of_no_code hcode hheld] at hfinish'
      cases hfinish'
      rw [pieces, rest, hcode]
      exact .nil
  | cons line lines ih =>
    obtain ⟨u, hline, hlines⟩ := Scanner.run_append_ok.mp hrun
    rw [pieces]
    obtain ⟨hnone, hheld⟩ | ⟨piece, tokens, stop, hsome, htokens, hstop, hended, hheld⟩ :=
      h.push hline
    · rw [hnone]
      exact ih hheld hlines
    · obtain ⟨kinds, hkinds, hsplits⟩ := ih hheld hlines
      rw [List.reverse_append, List.reverse_reverse, List.append_assoc] at hkinds
      rw [hsome]
      exact ⟨_, hkinds, .cons htokens hstop hended hsplits⟩

end StatementBuffer

-- ---------------------------------------------------------------------------
-- Statements
-- ---------------------------------------------------------------------------

def unplacedTokens (kinds : List TokenKind) : List Token := kinds.map fun kind => ⟨kind, {}⟩

theorem relocate_erase (tokens : List Token) :
    tokens.map (Token.relocate .erase) = unplacedTokens (tokens.map Token.kind) := by
  rw [unplacedTokens, List.map_map]
  rfl

theorem tokenize_closed (h : tokenize text = .ok tokens) : Parse.Closed tokens := by
  obtain ⟨s, -, hfinish⟩ := bind_ok.mp h
  obtain ⟨t, -, rfl⟩ := map_ok.mp hfinish
  exact ⟨_, List.mem_reverse.mpr (List.mem_cons_self ..), rfl⟩

theorem closed_unplaced (h : .endOfInput ∈ kinds) : Parse.Closed (unplacedTokens kinds) :=
  ⟨⟨.endOfInput, {}⟩, List.mem_map_of_mem h, rfl⟩

theorem Splits.closed (h : Splits pieces kinds) : .endOfInput ∈ kinds := by
  induction h with
  | nil => exact List.mem_singleton_self _
  | last h =>
    obtain ⟨t, ht, hend⟩ := tokenize_closed h
    exact List.mem_map.mpr ⟨t, ht, hend⟩
  | cons h hstop hended hrest ih => exact List.mem_append_right _ ih

theorem Parse.Ended.relocate (m : Relocation) (h : Ended tokens) :
    Ended (tokens.map (Token.relocate m)) := by
  constructor
  · intro t ht
    obtain ⟨u, hu, rfl⟩ := List.mem_map.mp ht
    exact h.open_end u hu
  · intro t ht
    rw [List.getLast?_map] at ht
    obtain ⟨u, hu, rfl⟩ := Option.map_eq_some_iff.mp ht
    exact h.semicolon u hu

theorem parseStatements_unplaced (h : tokenize text = .ok tokens) :
    (parseStatements text).map unplaced =
      Parse.statements (unplacedTokens (tokens.map Token.kind)) := by
  rw [← relocate_erase, Parse.statements_relocate _ (tokenize_closed h), parseStatements, h]
  rfl

theorem Splits.statements (h : Splits pieces kinds) :
    (pieces.flatMap fun piece => parseStatements (String.ofList piece)).map unplaced =
      Parse.statements (unplacedTokens kinds) := by
  induction h with
  | nil => rfl
  | last h =>
    rw [List.flatMap_singleton]
    exact parseStatements_unplaced h
  | @cons piece pieces kinds tokens stop h hstop hended hrest ih =>
    have hall : unplacedTokens (tokens.map Token.kind ++ kinds) =
        tokens.map (Token.relocate .erase) ++ unplacedTokens kinds := by
      rw [relocate_erase]
      exact List.map_append
    rw [List.flatMap_cons, List.map_append, ih, parseStatements_unplaced h, hall,
      Parse.statements_append (hended.relocate .erase) (e := stop.relocate .erase) hstop
        (closed_unplaced hrest.closed),
      ← relocate_erase, List.map_append]
    rfl

end NumericJit
