import Mathlib.Data.List.TakeWhile
import NumericJit.Proofs.Text.Comments
import NumericJit.Session.Buffer

/-!
# Where lines are cut

What the buffer looks for in a text is said here of the text as a whole: the place it cuts at is
behind the last `;` outside comments (`lastStatementEnd_eq_none_iff`, `cut_of_lastStatementEnd`),
and it has code when something but blanks stands outside comments (`hasCode_iff`).
-/

namespace NumericJit

open Text (EndsInComment FoundFrom HasOutside commentAfter)

-- ---------------------------------------------------------------------------
-- Places
-- ---------------------------------------------------------------------------

namespace Text

def byteLength : List Char → Nat
  | [] => 0
  | c :: cs => c.utf8Size + byteLength cs

theorem byteLength_concat (cs : List Char) (c : Char) :
    byteLength (cs ++ [c]) = byteLength cs + c.utf8Size := by
  induction cs with
  | nil => exact Nat.add_comm ..
  | cons d cs ih => rw [List.cons_append, byteLength, byteLength, ih, Nat.add_assoc]

theorem charIndices_concat (place : Nat) (cs : List Char) (c : Char) :
    charIndices place (cs ++ [c]) = charIndices place cs ++ [(place + byteLength cs, c)] := by
  induction cs generalizing place with
  | nil => rfl
  | cons d cs ih =>
    rw [List.cons_append, charIndices, charIndices, ih, byteLength, Nat.add_assoc]
    rfl

theorem splitAtByte_append (front rest : List Char) :
    splitAtByte (byteLength front) (front ++ rest) = (front, rest) := by
  induction front with
  | nil => cases rest <;> rfl
  | cons c front ih =>
    have hsize := c.utf8Size_pos
    rw [List.cons_append, splitAtByte, byteLength, if_neg (by omega), Nat.add_sub_cancel_left, ih]

end Text

-- ---------------------------------------------------------------------------
-- The last end of a statement
-- ---------------------------------------------------------------------------

namespace EndSearch

theorem step_inComment (s : EndSearch) (place : Nat) (c : Char) :
    (s.step (place, c)).inComment = commentAfter s.inComment c := by
  unfold step commentAfter
  grind

theorem step_lastEnd (s : EndSearch) (place : Nat) (c : Char) :
    (s.step (place, c)).lastEnd =
      if c = ';' ∧ s.inComment = false then some place else s.lastEnd := by
  unfold step
  grind

structure Finds (cs : List Char) (s : EndSearch) : Prop where
  inComment : s.inComment = cs.foldl commentAfter false
  nowhere : s.lastEnd = none → ¬ HasOutside (· = ';') cs
  last : ∀ {stop}, s.lastEnd = some stop → ∃ front rest, cs = front ++ ';' :: rest ∧
    Text.byteLength front = stop ∧ ¬ EndsInComment front ∧ ¬ HasOutside (· = ';') rest

theorem finds_nil : Finds [] {} where
  inComment := rfl
  nowhere _ := Text.not_hasOutside_nil _
  last h := by cases h

theorem Finds.inComment_step {s : EndSearch} (h : s.Finds cs) (place : Nat) (c : Char) :
    (s.step (place, c)).inComment = (cs ++ [c]).foldl commentAfter false := by
  rw [step_inComment, h.inComment, List.foldl_append]
  rfl

theorem Finds.skip {s : EndSearch} (h : s.Finds cs) (hc : ¬ (c = ';' ∧ s.inComment = false)) :
    (s.step (Text.byteLength cs, c)).Finds (cs ++ [c]) := by
  -- the rest behind a `;` that was found is in a comment where the text is
  have hoff : ∀ rest : List Char, s.inComment = rest.foldl commentAfter false →
      ¬ HasOutside (· = ';') rest → ¬ HasOutside (· = ';') (rest ++ [c]) := by
    intro rest hrest hnone hfound
    rw [← Text.foundFrom_false, Text.foundFrom_append, ← hrest, Text.foundFrom_cons] at hfound
    obtain hfound | ⟨hfound, rfl⟩ | hfound := hfound
    · exact hnone ((Text.foundFrom_false ..).mp hfound)
    · exact hc ⟨rfl, by simpa [commentAfter] using hfound⟩
    · exact Text.not_foundFrom_nil _ _ hfound
  refine ⟨h.inComment_step _ c, fun hnone => ?_, fun {stop} hstop => ?_⟩
  · rw [step_lastEnd, if_neg hc] at hnone
    exact hoff cs h.inComment (h.nowhere hnone)
  · rw [step_lastEnd, if_neg hc] at hstop
    obtain ⟨front, rest, rfl, hplace, hfront, hrest⟩ := h.last hstop
    have hbehind : s.inComment = rest.foldl commentAfter false := by
      rw [h.inComment, List.foldl_append, (Text.commentAfter_foldl_eq_false front).mpr hfront]
      rfl
    exact ⟨front, rest ++ [c], List.append_assoc .., hplace, hfront, hoff rest hbehind hrest⟩

theorem Finds.step {s : EndSearch} (h : s.Finds cs) (c : Char) :
    (s.step (Text.byteLength cs, c)).Finds (cs ++ [c]) := by
  by_cases hc : c = ';' ∧ s.inComment = false
  · have hlast := s.step_lastEnd (Text.byteLength cs) c
    rw [if_pos hc] at hlast
    refine ⟨h.inComment_step _ c, fun hnone => ?_, fun {stop} hstop => ?_⟩
    · rw [hlast] at hnone
      cases hnone
    · rw [hlast] at hstop
      cases hstop
      obtain ⟨rfl, hoff⟩ := hc
      have hfront : ¬ EndsInComment cs := by
        rw [← Text.commentAfter_foldl_eq_false, ← h.inComment, hoff]
      exact ⟨cs, [], rfl, rfl, hfront, Text.not_hasOutside_nil _⟩
  · exact h.skip hc

theorem finds (cs : List Char) :
    ((Text.charIndices 0 cs).foldl EndSearch.step {}).Finds cs := by
  induction cs using List.reverseRecOn with
  | nil => exact finds_nil
  | append_singleton cs c ih =>
    rw [Text.charIndices_concat, List.foldl_append, Nat.zero_add]
    exact ih.step c

end EndSearch

theorem lastStatementEnd_eq_none_iff (cs : List Char) :
    lastStatementEnd cs = none ↔ ¬ HasOutside (· = ';') cs := by
  refine ⟨(EndSearch.finds cs).nowhere, fun hnone => ?_⟩
  cases hstop : lastStatementEnd cs with
  | none => rfl
  | some stop =>
    obtain ⟨front, rest, rfl, -, hfront, -⟩ := (EndSearch.finds cs).last hstop
    refine absurd ⟨front, ';', rest, rfl, fun hend => ?_, rfl⟩ hnone
    obtain ⟨-, hend | hhash⟩ := Text.endsInComment_concat.mp hend
    · exact hfront hend
    · exact absurd hhash (by decide)

/-- Behind the last `;` outside comments there is no other one. -/
theorem cut_of_lastStatementEnd (h : lastStatementEnd cs = some stop) :
    ∃ front rest, cs = front ++ [';'] ++ rest ∧ ¬ EndsInComment front ∧
      ¬ HasOutside (· = ';') rest ∧
      Text.splitAtByte (stop + ';'.utf8Size) cs = (front ++ [';'], rest) := by
  obtain ⟨front, rest, rfl, hplace, hfront, hrest⟩ := (EndSearch.finds cs).last h
  have hlength : Text.byteLength (front ++ [';']) = stop + ';'.utf8Size := by
    rw [Text.byteLength_concat, hplace]
  refine ⟨front, rest, List.append_cons .., hfront, hrest, ?_⟩
  rw [List.append_cons, ← hlength]
  exact Text.splitAtByte_append ..

-- ---------------------------------------------------------------------------
-- Code
-- ---------------------------------------------------------------------------

/-- Something but blanks stands outside comments. -/
abbrev HasCode (cs : List Char) : Prop := HasOutside (Text.isBlank · = false) cs

theorem withoutComment_eq (line : List Char) :
    withoutComment line = line.takeWhile (· ≠ '#') := by
  have hline := List.takeWhile_append_dropWhile (p := (· ≠ '#')) (l := line)
  unfold withoutComment Text.splitOnce
  split
  · rename_i code after hsplit
    split at hsplit
    · cases hsplit
    · cases hsplit
      rfl
  · rename_i hsplit
    split at hsplit
    · rename_i hnone
      rw [hnone, List.append_nil] at hline
      exact hline.symm
    · cases hsplit

theorem Text.trim_eq_nil_iff (cs : List Char) : trim cs = [] ↔ ∀ c ∈ cs, isBlank c = true := by
  have hsplit : ∀ c ∈ cs, c ∈ cs.takeWhile isBlank ∨ c ∈ cs.dropWhile isBlank := by
    intro c hc
    rwa [← List.mem_append, List.takeWhile_append_dropWhile]
  rw [trim, List.reverse_eq_nil_iff, List.dropWhile_eq_nil_iff]
  refine ⟨fun h c hc => ?_, fun h c hc => ?_⟩
  · obtain hc | hc := hsplit c hc
    · exact List.mem_takeWhile_imp hc
    · exact h c (List.mem_reverse.mpr hc)
  · exact h c ((List.dropWhile_sublist _).subset (List.mem_reverse.mp hc))

/-- Up to the end of a line, everything behind a `#` is in a comment. -/
theorem not_foundFrom_true (h : '\n' ∉ line) (p : Char → Prop) : ¬ FoundFrom true p line := by
  induction line with
  | nil => exact Text.not_foundFrom_nil _ _
  | cons c line ih =>
    obtain ⟨hc, hline⟩ := not_or.mp ((not_congr List.mem_cons).mp h)
    have hstill : commentAfter true c = true := by simpa [commentAfter] using Ne.symm hc
    rw [Text.foundFrom_cons, hstill]
    simpa using ih hline

theorem hasOutside_line (h : '\n' ∉ line) (p : Char → Prop) :
    HasOutside p line ↔ ∃ c ∈ line.takeWhile (· ≠ '#'), p c := by
  rw [← Text.foundFrom_false]
  induction line with
  | nil => simpa using Text.not_foundFrom_nil false p
  | cons c line ih =>
    obtain ⟨hc, hline⟩ := not_or.mp ((not_congr List.mem_cons).mp h)
    rw [Text.foundFrom_cons]
    by_cases hhash : c = '#'
    · subst hhash
      simpa [commentAfter] using not_foundFrom_true hline p
    · rw [Text.commentAfter_of_ne hhash, ih hline]
      simp [hhash]

theorem line_hasCode_iff (h : '\n' ∉ line) :
    (!(Text.trim (withoutComment line)).isEmpty) = true ↔ HasCode line := by
  rw [HasCode, hasOutside_line h, withoutComment_eq, Bool.not_eq_true', ← Bool.not_eq_true,
    List.isEmpty_iff, Text.trim_eq_nil_iff]
  simp

/-- A carriage return before the end of a line is a blank. -/
theorem hasCode_chomp (current : List Char) :
    HasCode (Text.chomp current) ↔ HasCode (current.reverse ++ ['\n']) := by
  have hblank : ∀ (cs : List Char) (c : Char), Text.isBlank c = true →
      (HasCode (cs ++ [c]) ↔ HasCode cs) := by
    intro cs c hc
    rw [HasCode, Text.hasOutside_concat, hc]
    simp
  rw [hblank _ _ (by decide)]
  unfold Text.chomp
  split
  · rw [List.reverse_cons, hblank _ _ (by decide)]
  · rfl

theorem linesFrom_hasCode_iff (h : '\n' ∉ current) (cs : List Char) :
    ((Text.linesFrom current cs).any
      fun line => !(Text.trim (withoutComment line)).isEmpty) = true ↔
      HasCode (current.reverse ++ cs) := by
  induction cs generalizing current with
  | nil =>
    rw [List.append_nil, ← line_hasCode_iff (by simpa using h), Text.linesFrom]
    cases current with
    | nil => decide
    | cons c current => simp
  | cons c cs ih =>
    rw [Text.linesFrom]
    split
    · rename_i hc
      have hchomp : '\n' ∉ Text.chomp current := by
        unfold Text.chomp
        split <;> simp_all
      rw [List.any_cons, Bool.or_eq_true, line_hasCode_iff hchomp, ih List.not_mem_nil, hc,
        hasCode_chomp]
      exact (Text.hasOutside_newline ..).symm
    · rename_i hc
      rw [ih (List.not_mem_cons_of_ne_of_not_mem (Ne.symm hc) h), List.reverse_cons,
        ← List.append_cons]

theorem hasCode_iff (cs : List Char) : hasCode cs = true ↔ HasCode cs :=
  linesFrom_hasCode_iff List.not_mem_nil cs

theorem StatementBuffer.push_cases (b : StatementBuffer) (line : List Char) :
    (¬ HasOutside (· = ';') (b.held ++ completeLine line) ∧
      b.push line = (none, hold (b.held ++ completeLine line))) ∨
    ∃ front rest, b.held ++ completeLine line = front ++ [';'] ++ rest ∧ ¬ EndsInComment front ∧
      ¬ HasOutside (· = ';') rest ∧ b.push line = (some (front ++ [';']), hold rest) := by
  cases hstop : lastStatementEnd (b.held ++ completeLine line) with
  | none => exact .inl ⟨(lastStatementEnd_eq_none_iff _).mp hstop, by simp only [push, hstop]⟩
  | some stop =>
    obtain ⟨front, rest, htext, hfront, hrest, hcut⟩ := cut_of_lastStatementEnd hstop
    exact .inr ⟨front, rest, htext, hfront, hrest, by simp only [push, hstop, hcut]⟩

end NumericJit
