import Mathlib.Data.List.Forall2
import NumericJit.Proofs.Statement.Independence

/-!
# The statement buffer keeps every token

Lines are handed on as soon as a statement has ended, nothing but blanks and comments is dropped,
and the pieces have the tokens of the lines (`buffer_keeps_tokens`).
-/

namespace NumericJit

open Text (EndsInComment HasOutside)

-- ---------------------------------------------------------------------------
-- Lines
-- ---------------------------------------------------------------------------

namespace StatementBuffer

variable {b : StatementBuffer} {line piece : List Char}

theorem rest_isSome_iff (b : StatementBuffer) : b.rest.isSome = true ↔ HasCode b.held := by
  rw [← hasCode_iff, rest]
  split <;> simp_all

theorem push_isSome_iff (b : StatementBuffer) (line : List Char) :
    (b.push line).1.isSome = true ↔ HasOutside (· = ';') (b.held ++ completeLine line) := by
  rw [← not_iff_not, ← lastStatementEnd_eq_none_iff, push]
  cases lastStatementEnd (b.held ++ completeLine line) <;> simp

theorem push_piece (h : (b.push line).1 = some piece) :
    ∃ front, piece = front ++ [';'] ∧ ¬ EndsInComment front := by
  obtain ⟨-, hpush⟩ | ⟨front, rest, -, hfront, -, hpush⟩ := push_cases b line
  · rw [hpush] at h
    cases h
  · rw [hpush] at h
    cases h
    exact ⟨front, rfl, hfront⟩

/-- What is held is the rest of a text, from a statement's end to the end of a line. -/
theorem push_held (b : StatementBuffer) (line : List Char) :
    ∃ front, (b.push line).2 = hold (front ++ ['\n']) ∧
      ¬ HasOutside (· = ';') (front ++ ['\n']) := by
  obtain ⟨front, hline⟩ := completeLine_eq line
  obtain ⟨hnone, hpush⟩ | ⟨before, rest, htext, -, hnone, hpush⟩ := push_cases b line
  · rw [hline, ← List.append_assoc] at hnone hpush
    exact ⟨b.held ++ front, congrArg Prod.snd hpush, hnone⟩
  · -- the text ends with a line feed and not with the `;`, so there is a rest
    rw [hline, ← List.append_assoc] at htext
    obtain rfl | ⟨rest, c, rfl⟩ := List.eq_nil_or_concat rest
    · rw [List.append_nil] at htext
      exact absurd (List.append_singleton_inj.mp htext).2 (by decide)
    · rw [List.concat_eq_append] at htext hnone hpush
      rw [← List.append_assoc (before ++ [';'])] at htext
      obtain ⟨-, rfl⟩ := List.append_singleton_inj.mp htext
      exact ⟨rest, congrArg Prod.snd hpush, hnone⟩

theorem hold_cases (cs : List Char) :
    (HasCode cs ∧ (hold cs).held = cs) ∨ (hold cs).held = [] := by
  rw [← hasCode_iff, hold]
  split
  · exact .inl ⟨‹_›, rfl⟩
  · exact .inr rfl

theorem hold_eq_nil_iff (cs : List Char) : (hold cs).held = [] ↔ ¬ HasCode (hold cs).held := by
  have hnil : ¬ HasCode [] := Text.not_hasOutside_nil _
  obtain ⟨hcode, heq⟩ | heq := hold_cases cs
  · rw [heq]
    exact ⟨fun h => absurd (h ▸ hcode) hnil, fun h => absurd hcode h⟩
  · rw [heq]
    exact ⟨fun _ => hnil, fun _ => rfl⟩

theorem not_hasOutside_held (b : StatementBuffer) (line : List Char) :
    ¬ HasOutside (· = ';') (b.push line).2.held := by
  obtain ⟨front, hpush, hnone⟩ := push_held b line
  rw [hpush]
  obtain ⟨-, heq⟩ | heq := hold_cases (front ++ ['\n'])
  · rw [heq]
    exact hnone
  · rw [heq]
    exact Text.not_hasOutside_nil _

theorem not_endsInComment_held (b : StatementBuffer) (line : List Char) :
    ¬ EndsInComment (b.push line).2.held := by
  obtain ⟨front, hpush, -⟩ := push_held b line
  rw [hpush]
  obtain ⟨-, heq⟩ | heq := hold_cases (front ++ ['\n'])
  · rw [heq]
    exact Text.not_endsInComment_newline front
  · rw [heq]
    exact Text.not_endsInComment_nil

theorem held_eq_nil_iff (b : StatementBuffer) (line : List Char) :
    (b.push line).2.held = [] ↔ ¬ HasCode (b.push line).2.held := by
  obtain ⟨front, hpush, -⟩ := push_held b line
  rw [hpush]
  exact hold_eq_nil_iff _

end StatementBuffer

-- ---------------------------------------------------------------------------
-- Tokens
-- ---------------------------------------------------------------------------

def innerKinds (tokens : List Token) : List TokenKind :=
  (tokens.map Token.kind).filter (· ≠ .endOfInput)

theorem innerKinds_concat {tokens : List Token} {stop : Token}
    (h : ∀ t ∈ tokens, t.kind ≠ .endOfInput) (hstop : stop.kind = .endOfInput) :
    innerKinds (tokens ++ [stop]) = tokens.map Token.kind := by
  have hinner : (tokens.map Token.kind).filter (· ≠ .endOfInput) = tokens.map Token.kind := by
    refine List.filter_eq_self.mpr fun kind hkind => ?_
    obtain ⟨t, ht, rfl⟩ := List.mem_map.mp hkind
    exact decide_eq_true (h t ht)
  rw [innerKinds, List.map_append, List.filter_append, hinner]
  simp [hstop]

theorem Splits.tokenizes (h : Splits pieces kinds) :
    ∃ found, List.Forall₂ (fun piece tokens => tokenize (String.ofList piece) = .ok tokens)
        pieces found ∧
      found.flatMap innerKinds = kinds.filter (· ≠ .endOfInput) := by
  induction h with
  | nil => exact ⟨[], .nil, rfl⟩
  | @last piece tokens h =>
    exact ⟨[tokens], .cons h .nil, List.flatMap_singleton ..⟩
  | @cons piece pieces kinds tokens stop h hstop hended hrest ih =>
    obtain ⟨found, hfound, hkinds⟩ := ih
    have hinner := innerKinds_concat hended.open_end hstop
    refine ⟨(tokens ++ [stop]) :: found, .cons h hfound, ?_⟩
    rw [List.flatMap_cons, hkinds, List.filter_append, hinner]
    congr 1
    rw [innerKinds, List.map_append, List.filter_append] at hinner
    simpa [hstop] using hinner.symm

theorem StatementBuffer.pieces_tokenize
    (h : tokenize (String.ofList (lines.map completeLine).flatten) = .ok tokens) :
    ∃ found, List.Forall₂ (fun piece tokens => tokenize (String.ofList piece) = .ok tokens)
        (({} : StatementBuffer).pieces lines) found ∧
      found.flatMap innerKinds = innerKinds tokens := by
  rw [tokenize, String.toList_ofList] at h
  obtain ⟨s, hrun, hfinish⟩ := bind_ok.mp h
  have hstart : Gathers [] {} {} := ⟨{}, rfl, rfl, .between, rfl⟩
  obtain ⟨kinds, hkinds, hsplits⟩ := hstart.splits hrun hfinish
  rw [innerKinds, hkinds]
  exact hsplits.tokenizes

/-- Lines that split into tokens are handed on in pieces that have the same tokens in the same
order. A piece is handed on as soon as a `;` stands outside comments, and it ends behind such a `;`.
What is held has no other one, is not in the middle of a comment, and has code unless it is empty;
if it has code in the end, it is handed on too. -/
theorem buffer_keeps_tokens :
    (∀ lines tokens,
      tokenize (String.ofList (lines.map StatementBuffer.completeLine).flatten) = .ok tokens →
      ∃ found, List.Forall₂ (fun piece tokens => tokenize (String.ofList piece) = .ok tokens)
          (({} : StatementBuffer).pieces lines) found ∧
        found.flatMap innerKinds = innerKinds tokens) ∧
    (∀ (b : StatementBuffer) line,
      (∀ piece, (b.push line).1 = some piece →
        ∃ front, piece = front ++ [';'] ∧ ¬ EndsInComment front) ∧
      ((b.push line).1.isSome = true ↔
        HasOutside (· = ';') (b.held ++ StatementBuffer.completeLine line)) ∧
      ¬ HasOutside (· = ';') (b.push line).2.held ∧
      ¬ EndsInComment (b.push line).2.held ∧
      ((b.push line).2.held = [] ↔ ¬ HasCode (b.push line).2.held)) ∧
    ∀ b : StatementBuffer, (b.rest.isSome = true ↔ HasCode b.held) := by
  refine ⟨fun lines tokens h => StatementBuffer.pieces_tokenize h, fun b line => ?_,
    StatementBuffer.rest_isSome_iff⟩
  exact ⟨fun piece h => b.push_piece h, b.push_isSome_iff line, b.not_hasOutside_held line,
    b.not_endsInComment_held line, b.held_eq_nil_iff line⟩

/-- A statement over two lines with a `;` in a comment, and one that the end of the input cuts
off. -/
theorem buffer_keeps_commented_tokens :
    let lines := ["f(1 # ;".toList, "); é".toList, "# ;".toList]
    ∃ tokens found,
      tokenize (String.ofList (lines.map StatementBuffer.completeLine).flatten) = .ok tokens ∧
      ({} : StatementBuffer).pieces lines = ["f(1 # ;\n);".toList, " é\n# ;\n".toList] ∧
      List.Forall₂ (fun piece tokens => tokenize (String.ofList piece) = .ok tokens)
        (({} : StatementBuffer).pieces lines) found ∧
      found.flatMap innerKinds = innerKinds tokens := by
  intro lines
  have hok : (tokenize (String.ofList (lines.map StatementBuffer.completeLine).flatten)).isOk =
      true := by
    decide +kernel
  cases htokens : tokenize (String.ofList (lines.map StatementBuffer.completeLine).flatten) with
  | error failure => rw [htokens] at hok; cases hok
  | ok tokens =>
    obtain ⟨found, hfound, hkinds⟩ := buffer_keeps_tokens.1 lines tokens htokens
    exact ⟨tokens, found, rfl, by decide +kernel, hfound, hkinds⟩

end NumericJit
