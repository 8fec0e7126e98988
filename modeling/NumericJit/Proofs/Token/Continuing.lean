import NumericJit.Proofs.Runs
import NumericJit.Proofs.Text.Comments
import NumericJit.Token.Scan

/-!
# Scanning a text in parts

A scanner that is in the middle of a text goes on like one that has only seen a part of it, as long
as both are in the middle of the same thing (`Scanner.Continues`): the same kinds of tokens follow.
Statements can be told from comments without scanning: the scanner is in a comment exactly when
`commentAfter` says so, text without code adds no tokens, and behind a `;` outside comments or a
line feed no token is under way.
-/

namespace NumericJit

open Text (FoundFrom commentAfter commentAfter_of_ne)

/-- In the middle of the same thing, that may have begun at another place. -/
inductive ScanMode.Same : ScanMode → ScanMode → Prop where
  | between : Same .between .between
  | comment : Same .comment .comment
  | word (start start' : Position) (text : List Char) : Same (.word start text) (.word start' text)
  | number (start start' : Position) (text : List Char) :
    Same (.number start text) (.number start' text)

theorem ScanMode.Same.trans {m m' m'' : ScanMode} (h : m.Same m') (h' : m'.Same m'') :
    m.Same m'' := by
  cases h <;> cases h' <;> constructor

theorem ScanMode.Same.eq_between {m m' : ScanMode} (h : m.Same m') (hm : m = .between) :
    m' = .between := by
  cases h with
  | between => rfl
  | comment | word _ _ _ | number _ _ _ => cases hm

namespace Scanner

/-- The kinds of the tokens found so far, backwards. -/
def kinds (s : Scanner) : List TokenKind := s.tokens.map Token.kind

/-- The one scanner has found certain tokens before all those that the other has found. -/
structure Continues (before : List TokenKind) (s s' : Scanner) : Prop where
  mode : s.mode.Same s'.mode
  kinds : s.kinds = s'.kinds ++ before

theorem run_cons_ok {s t : Scanner} :
    s.run (c :: cs) = .ok t ↔ ∃ u, s.step c = .ok u ∧ u.run cs = .ok t := by
  rw [run]
  cases s.step c <;> simp

theorem run_append_ok {s t : Scanner} :
    s.run (cs ++ ds) = .ok t ↔ ∃ u, s.run cs = .ok u ∧ u.run ds = .ok t := by
  rw [run_append]
  exact bind_ok

namespace Continues

variable {before : List TokenKind} {s s' : Scanner}

theorem start (h : s.kinds = s'.kinds ++ before) (c : Char) :
    (s.start c).Continues before (s'.start c) := by
  unfold Scanner.start
  dsimp only
  split
  · exact ⟨.between, h⟩
  split
  · exact ⟨.comment, h⟩
  split
  · exact ⟨.word _ _ _, h⟩
  split
  · exact ⟨.number _ _ _, h⟩
  · exact ⟨.between, congrArg (List.cons (TokenKind.char c)) h⟩

theorem flush (h : s.Continues before s') (hs : s.flush = .ok t) :
    ∃ t', s'.flush = .ok t' ∧ t.Continues before t' := by
  obtain ⟨mode, position, tokens⟩ := s
  obtain ⟨mode', position', tokens'⟩ := s'
  obtain ⟨hmode, hkinds⟩ := h
  cases hmode with
  | between | comment =>
    cases hs
    exact ⟨_, rfl, .between, hkinds⟩
  | word start start' text =>
    cases hs
    exact ⟨_, rfl, .between, congrArg (List.cons _) hkinds⟩
  | number start start' text =>
    simp only [Scanner.flush] at hs ⊢
    cases hvalue : Number.readChars? text.reverse with
    | none => simp [hvalue] at hs
    | some value =>
      simp only [hvalue] at hs
      cases hs
      exact ⟨_, rfl, .between, congrArg (List.cons (TokenKind.number value)) hkinds⟩

theorem step (h : s.Continues before s') (hs : s.step c = .ok t) :
    ∃ t', s'.step c = .ok t' ∧ t.Continues before t' := by
  have hflushed : s.flush.map (·.start c) = .ok t →
      ∃ t', s'.flush.map (·.start c) = .ok t' ∧ t.Continues before t' := by
    intro hs
    obtain ⟨u, hu, rfl⟩ := map_ok.mp hs
    obtain ⟨u', hu', hcont⟩ := h.flush hu
    exact ⟨u'.start c, by rw [hu']; rfl, start hcont.kinds c⟩
  obtain ⟨mode, position, tokens⟩ := s
  obtain ⟨mode', position', tokens'⟩ := s'
  obtain ⟨hmode, hkinds⟩ := h
  cases hmode with
  | between =>
    cases hs
    exact ⟨_, rfl, start hkinds c⟩
  | comment =>
    cases hs
    refine ⟨_, rfl, ?_, hkinds⟩
    dsimp only
    split
    · exact .between
    · exact .comment
  | word begin begin' text =>
    by_cases hc : isWordChar c = true
    · simp only [Scanner.step, if_pos hc] at hs ⊢
      cases hs
      exact ⟨_, rfl, .word _ _ _, hkinds⟩
    · simp only [Scanner.step, if_neg hc] at hs ⊢
      exact hflushed hs
  | number begin begin' text =>
    by_cases hc : isNumberChar c = true
    · simp only [Scanner.step, if_pos hc] at hs ⊢
      cases hs
      exact ⟨_, rfl, .number _ _ _, hkinds⟩
    · simp only [Scanner.step, if_neg hc] at hs ⊢
      exact hflushed hs

theorem run (h : s.Continues before s') {cs : List Char} (hs : s.run cs = .ok t) :
    ∃ t', s'.run cs = .ok t' ∧ t.Continues before t' := by
  induction cs generalizing s s' with
  | nil =>
    cases hs
    exact ⟨s', rfl, h⟩
  | cons c cs ih =>
    obtain ⟨u, hu, hrest⟩ := run_cons_ok.mp hs
    obtain ⟨u', hu', hcont⟩ := h.step hu
    obtain ⟨t', ht', hcont⟩ := ih hcont hrest
    exact ⟨t', run_cons_ok.mpr ⟨u', hu', ht'⟩, hcont⟩

theorem finish (h : s.Continues before s') (hs : s.finish = .ok found) :
    ∃ found', s'.finish = .ok found' ∧
      found.map Token.kind = before.reverse ++ found'.map Token.kind := by
  obtain ⟨t, ht, rfl⟩ := map_ok.mp hs
  obtain ⟨t', ht', hcont⟩ := h.flush ht
  refine ⟨_, map_ok.mpr ⟨t', ht', rfl⟩, ?_⟩
  have hkinds : t.tokens.map Token.kind = t'.tokens.map Token.kind ++ before := hcont.kinds
  simp [hkinds]

theorem trans (h : s.Continues before s') (h' : s'.Continues since s'') :
    s.Continues (since ++ before) s'' := by
  refine ⟨h.mode.trans h'.mode, ?_⟩
  rw [h.kinds, h'.kinds, List.append_assoc]

/-- Where no token is under way, a scanner can begin anew. -/
theorem anew (h : s.mode = .between) : s.Continues s.kinds {} := by
  obtain ⟨mode, position, tokens⟩ := s
  cases h
  exact ⟨.between, rfl⟩

end Continues

-- ---------------------------------------------------------------------------
-- Steps
-- ---------------------------------------------------------------------------

inductive StepTo (s : Scanner) (c : Char) : Scanner → Prop where
  | start (hmode : s.mode ≠ .comment) (h : s.flush = .ok u) : StepTo s c (u.start c)
  | comment (hmode : s.mode = .comment) :
    StepTo s c
      { s with mode := if c = '\n' then .between else .comment, position := s.position.next c }
  | extend (hchar : isWordChar c = true ∨ isNumberChar c = true) (hmode : s.mode ≠ .comment)
    (hmode' : t.mode ≠ .comment) (htokens : t.tokens = s.tokens) : StepTo s c t

section
variable {s t : Scanner}

theorem step_to (h : s.step c = .ok t) : s.StepTo c t := by
  have hflushed : s.mode ≠ .comment → s.flush.map (·.start c) = .ok t → s.StepTo c t := by
    intro hmode h
    obtain ⟨u, hu, rfl⟩ := map_ok.mp h
    exact .start hmode hu
  obtain ⟨mode, position, tokens⟩ := s
  cases mode with
  | between => exact hflushed nofun h
  | comment =>
    cases h
    exact .comment rfl
  | word start text =>
    by_cases hc : isWordChar c = true
    · simp only [step, if_pos hc] at h
      cases h
      exact .extend (.inl hc) nofun nofun rfl
    · simp only [step, if_neg hc] at h
      exact hflushed nofun h
  | number start text =>
    by_cases hc : isNumberChar c = true
    · simp only [step, if_pos hc] at h
      cases h
      exact .extend (.inr hc) nofun nofun rfl
    · simp only [step, if_neg hc] at h
      exact hflushed nofun h

theorem step_comment (hmode : s.mode = .comment) (c : Char) :
    s.step c = .ok { s with
      mode := if c = '\n' then .between else .comment
      position := s.position.next c } := by
  simp only [step, hmode]

/-- A character that is neither in words nor in numbers ends the token that is under way. -/
theorem step_eq (hmode : s.mode ≠ .comment) (hword : isWordChar c = false)
    (hnumber : isNumberChar c = false) : s.step c = s.flush.map (·.start c) := by
  obtain ⟨mode, position, tokens⟩ := s
  cases mode with
  | between => rfl
  | comment => exact absurd rfl hmode
  | word start text => simp [step, hword]
  | number start text => simp [step, hnumber]

theorem finish_of_between (h : s.mode = .between) :
    s.finish = .ok (s.tokens.reverse ++ [⟨.endOfInput, ⟨s.position, s.position⟩⟩]) := by
  simp only [finish, flush, h, Except.map, List.reverse_cons]

theorem start_newline (s : Scanner) :
    (s.start '\n').mode = .between ∧ (s.start '\n').tokens = s.tokens := by
  simp [start, show Text.isBlank '\n' = true by decide]

theorem start_semicolon (s : Scanner) :
    (s.start ';').mode = .between ∧
      ∃ span, (s.start ';').tokens = ⟨.char ';', span⟩ :: s.tokens := by
  simp [start, isNumberChar, show Text.isBlank ';' = false by decide]

theorem step_newline_mode (h : s.step '\n' = .ok t) : t.mode = .between := by
  cases step_to h with
  | start hmode hflush => exact (start_newline _).1
  | comment hmode => rfl
  | extend hchar hmode hmode' htokens => exact absurd hchar (by decide)

/-- Behind a `;` outside comments no token is under way. -/
theorem step_semicolon (hmode : s.mode ≠ .comment) (h : s.step ';' = .ok t) :
    t.mode = .between ∧ ∃ span rest, t.tokens = ⟨.char ';', span⟩ :: rest := by
  cases step_to h with
  | start hmode hflush =>
    obtain ⟨hbetween, span, htokens⟩ := start_semicolon _
    exact ⟨hbetween, span, _, htokens⟩
  | comment hcomment => exact absurd hcomment hmode
  | extend hchar hmode hmode' htokens => exact absurd hchar (by decide)

theorem step_newline (h : s.finish = .ok found) :
    ∃ t found', s.step '\n' = .ok t ∧ t.finish = .ok found' ∧
      found'.map Token.kind = found.map Token.kind := by
  obtain ⟨u, hu, rfl⟩ := map_ok.mp h
  obtain ⟨t, ht, htokens⟩ : ∃ t, s.step '\n' = .ok t ∧ t.tokens = u.tokens := by
    by_cases hmode : s.mode = .comment
    · simp only [flush, hmode] at hu
      cases hu
      exact ⟨_, step_comment hmode '\n', rfl⟩
    · refine ⟨u.start '\n', ?_, (start_newline u).2⟩
      rw [step_eq hmode (by decide) (by decide), hu]
      rfl
  refine ⟨t, _, ht, finish_of_between (step_newline_mode ht), ?_⟩
  simp [htokens]

-- ---------------------------------------------------------------------------
-- Comments
-- ---------------------------------------------------------------------------

def isCommented (s : Scanner) : Bool := s.mode = .comment

theorem start_isCommented (s : Scanner) (c : Char) :
    (s.start c).isCommented = commentAfter false c := by
  unfold start
  dsimp only
  split
  · rename_i hblank
    exact (commentAfter_of_ne (by rintro rfl; exact absurd hblank (by decide))).symm
  split
  · rename_i hhash
    rw [hhash]
    rfl
  rename_i hhash
  rw [commentAfter_of_ne hhash]
  split
  · rfl
  split <;> rfl

theorem step_isCommented (h : s.step c = .ok t) : t.isCommented = commentAfter s.isCommented c := by
  cases step_to h with
  | start hmode hflush =>
    rw [start_isCommented, isCommented, decide_eq_false hmode]
  | comment hmode =>
    by_cases hc : c = '\n' <;> simp [isCommented, commentAfter, hc, hmode]
  | extend hchar hmode hmode' htokens =>
    rw [isCommented, isCommented, decide_eq_false hmode, decide_eq_false hmode']
    exact (commentAfter_of_ne (by rintro rfl; exact absurd hchar (by decide))).symm

theorem run_isCommented (h : s.run cs = .ok t) :
    t.isCommented = cs.foldl commentAfter s.isCommented := by
  induction cs generalizing s with
  | nil =>
    cases h
    rfl
  | cons c cs ih =>
    obtain ⟨u, hu, hrest⟩ := run_cons_ok.mp h
    rw [ih hrest, step_isCommented hu]
    rfl

theorem start_of_no_code (s : Scanner)
    (h : ¬ (commentAfter false c = false ∧ Text.isBlank c = false)) :
    (s.start c).tokens = s.tokens ∧
      (s.start c).mode = if commentAfter false c then .comment else .between := by
  cases hblank : Text.isBlank c with
  | true =>
    have hne : c ≠ '#' := by
      rintro rfl
      exact absurd hblank (by decide)
    simp [start, hblank, commentAfter_of_ne hne]
  | false =>
    have hhash : c = '#' := Decidable.byContradiction fun hne => by
      simp [commentAfter_of_ne hne, hblank] at h
    simp [start, hhash, commentAfter, show Text.isBlank '#' = false by decide]

theorem run_of_no_code {commented : Bool}
    (hmode : s.mode = if commented then .comment else .between)
    (h : ¬ FoundFrom commented (Text.isBlank · = false) cs) (hrun : s.run cs = .ok t) :
    t.tokens = s.tokens := by
  induction cs generalizing s commented with
  | nil =>
    cases hrun
    rfl
  | cons c cs ih =>
    obtain ⟨u, hu, hrest⟩ := run_cons_ok.mp hrun
    rw [Text.foundFrom_cons, not_or] at h
    obtain ⟨hc, hcs⟩ := h
    have hstep : u.tokens = s.tokens ∧
        u.mode = if commentAfter commented c then .comment else .between := by
      cases commented with
      | true =>
        rw [step_comment hmode] at hu
        cases hu
        exact ⟨rfl, by by_cases hc : c = '\n' <;> simp [commentAfter, hc]⟩
      | false =>
        simp only [step, hmode] at hu
        cases hu
        exact start_of_no_code s hc
    rw [ih hstep.2 hcs hrest, hstep.1]

-- ---------------------------------------------------------------------------
-- The end of the input
-- ---------------------------------------------------------------------------

def IsOpen (s : Scanner) : Prop := .endOfInput ∉ s.kinds

theorem IsOpen.cons (h : s.IsOpen) (hkinds : t.kinds = kind :: s.kinds)
    (hkind : kind ≠ .endOfInput) : t.IsOpen := by
  unfold IsOpen
  rw [hkinds]
  exact List.not_mem_cons_of_ne_of_not_mem hkind.symm h

theorem IsOpen.start (h : s.IsOpen) (c : Char) : (s.start c).IsOpen := by
  unfold Scanner.start
  dsimp only
  split
  · exact h
  split
  · exact h
  split
  · exact h
  split
  · exact h
  · exact h.cons rfl nofun

theorem ofWord_ne (word : String) : TokenKind.ofWord word ≠ .endOfInput := by
  unfold TokenKind.ofWord
  split <;> exact nofun

theorem IsOpen.flush (h : s.IsOpen) (hflush : s.flush = .ok t) : t.IsOpen := by
  unfold Scanner.flush at hflush
  split at hflush
  · cases hflush
    exact h
  · cases hflush
    exact h
  · cases hflush
    exact h.cons rfl (ofWord_ne _)
  · split at hflush
    · cases hflush
      exact h.cons rfl nofun
    · cases hflush

theorem IsOpen.run (h : s.IsOpen) (hrun : s.run cs = .ok t) : t.IsOpen := by
  induction cs generalizing s with
  | nil =>
    cases hrun
    exact h
  | cons c cs ih =>
    obtain ⟨u, hu, hrest⟩ := run_cons_ok.mp hrun
    refine ih ?_ hrest
    cases step_to hu with
    | start hmode hflush => exact (h.flush hflush).start c
    | comment hmode => exact h
    | extend hchar hmode hmode' htokens =>
      unfold IsOpen kinds
      rw [htokens]
      exact h

end

end Scanner

end NumericJit
