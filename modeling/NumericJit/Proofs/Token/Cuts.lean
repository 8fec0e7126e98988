import Mathlib.Data.List.Induction
import Mathlib.Data.List.TakeWhile
import NumericJit.Proofs.Token.Lexing
import NumericJit.Token.Lexeme

/-!
# Scanning along a cut

The lexemes of a cut are at their places in the text, one behind the other (`Cut.mem`,
`Cut.ordered`), and each is on one line (`Lexeme.isOnLine`). Every text can be cut (`exists_cut`).

The scanner follows a cut. Between tokens it is nowhere but at a place in the text
(`Scanner.placed`): it goes through a gap and is between tokens again (`placed_gap`), and it goes
through a lexeme and has completed its token or failed (`placed_spelling`). So a whole text is
scanned by completing its lexemes one after the other (`placed_cut`).
-/

namespace NumericJit

-- ---------------------------------------------------------------------------
-- Places
-- ---------------------------------------------------------------------------

namespace Position

theorem after_append (p : Position) (cs ds : List Char) :
    p.after (cs ++ ds) = (p.after cs).after ds :=
  List.foldl_append

theorem AtMost.trans {p q r : Position} (h : p.AtMost q) (h' : q.AtMost r) : p.AtMost r := by
  unfold AtMost at h h' ⊢
  omega

theorem atMost_after (p : Position) (cs : List Char) : p.AtMost (p.after cs) := by
  induction cs generalizing p with
  | nil => exact .inr ⟨rfl, le_refl _⟩
  | cons c cs ih =>
    refine AtMost.trans ?_ (ih (p.next c))
    unfold next AtMost
    split <;> simp

end Position

theorem splitOn_newline (h : '\n' ∉ line) (rest : List Char) :
    (line ++ '\n' :: rest).splitOn '\n' = line :: rest.splitOn '\n' := by
  rw [List.splitOn, List.splitOnP_append_cons _ _ (by rfl), ← List.splitOn,
    List.splitOn_eq_singleton h]
  rfl

namespace Position

theorem exists_line (before : List Char) :
    ∃ (lines : List (List Char)) (start : List Char), '\n' ∉ start ∧
      after {} before = ⟨lines.length, start.length⟩ ∧
      ∀ rest, (before ++ rest).splitOn '\n' = lines ++ (start ++ rest).splitOn '\n' := by
  induction before using List.reverseRecOn with
  | nil => exact ⟨[], [], nofun, rfl, fun _ => rfl⟩
  | append_singleton before c ih =>
    obtain ⟨lines, start, hstart, hafter, hlines⟩ := ih
    have hnext : after {} (before ++ [c]) = (after {} before).next c := after_append _ _ _
    rw [hafter] at hnext
    by_cases hc : c = '\n'
    · subst hc
      refine ⟨lines ++ [start], [], nofun, by simp [hnext, next], fun rest => ?_⟩
      rw [List.append_assoc, List.singleton_append, hlines, splitOn_newline hstart,
        List.append_assoc]
      rfl
    · refine ⟨lines, start ++ [c], by simp [hstart, Ne.symm hc], by simp [hnext, next, hc], ?_⟩
      intro rest
      rw [List.append_assoc, hlines, List.append_assoc]

theorem after_of_not_mem (p : Position) (h : '\n' ∉ cs) :
    p.after cs = ⟨p.line, p.column + cs.length⟩ := by
  induction cs generalizing p with
  | nil => simp [after]
  | cons c cs ih =>
    rw [List.mem_cons, not_or] at h
    show (p.next c).after cs = _
    rw [ih _ h.2, next, if_neg (Ne.symm h.1), List.length_cons, Position.mk.injEq]
    refine ⟨rfl, ?_⟩
    dsimp only
    omega

theorem endsText_after (text : List Char) : (after {} text).EndsText text := by
  obtain ⟨lines, start, hstart, hafter, hlines⟩ := exists_line text
  refine ⟨lines, start, ?_, hafter⟩
  have := hlines []
  rwa [List.append_nil, List.append_nil, List.splitOn_eq_singleton hstart] at this

end Position

theorem exists_splitOn_cons (h : '\n' ∉ w) (rest : List Char) :
    ∃ more others, (w ++ rest).splitOn '\n' = (w ++ more) :: others := by
  by_cases hrest : '\n' ∈ rest
  · obtain ⟨more, others, rfl, hmore⟩ := List.eq_append_cons_of_mem hrest
    refine ⟨more, others.splitOn '\n', ?_⟩
    rw [← List.append_assoc, splitOn_newline (by simp [h, hmore])]
  · exact ⟨rest, [], List.splitOn_eq_singleton (by simp [h, hrest])⟩

theorem Lexeme.isOnLine (l : Lexeme) (h : '\n' ∉ l.spelling) (rest : List Char) :
    l.IsOnLine (l.before ++ (l.spelling ++ rest)) := by
  obtain ⟨lines, start, hstart, hafter, hlines⟩ := Position.exists_line l.before
  have hboth : '\n' ∉ start ++ l.spelling := by simp [h, hstart]
  obtain ⟨more, others, hline⟩ := exists_splitOn_cons hboth rest
  refine ⟨lines.length, start.length, start.length + l.spelling.length, start ++ l.spelling ++ more,
    ?_, ?_, ?_, ?_⟩
  · rw [span, Position.after_append, hafter, Position.after_of_not_mem _ h]
    rfl
  · rw [hlines, ← List.append_assoc, hline, List.getElem?_append_right (le_refl _)]
    simp
  · simp
  · rw [← List.length_append, List.take_left, List.drop_left]

-- ---------------------------------------------------------------------------
-- Cuts
-- ---------------------------------------------------------------------------

theorem Spelling.newline_not_mem (h : Spelling w rest) : '\n' ∉ w := by
  intro hmem
  cases h with
  | word hc hcs _ =>
    obtain rfl | hmem := List.mem_cons.mp hmem
    · cases hc
    · cases hcs _ hmem
  | number hc hcs _ =>
    obtain rfl | hmem := List.mem_cons.mp hmem
    · cases hc
    · cases hcs _ hmem
  | symbol hblank _ _ _ =>
    obtain rfl := List.mem_singleton.mp hmem
    cases hblank

theorem Cut.mem (h : Cut before rest lexemes) (hl : l ∈ lexemes) :
    ∃ between behind, l.before = before ++ between ∧ rest = between ++ (l.spelling ++ behind) ∧
      Spelling l.spelling behind := by
  induction h with
  | last _ => cases hl
  | @more gap spelling rest before lexemes hgap hspelling others ih =>
    obtain rfl | hl := List.mem_cons.mp hl
    · exact ⟨gap, rest, rfl, rfl, hspelling⟩
    · obtain ⟨between, behind, hbefore, rfl, hl⟩ := ih hl
      refine ⟨gap ++ (spelling ++ between), behind, ?_, ?_, hl⟩
      · simp [hbefore]
      · simp

theorem Cut.ordered (h : Cut before rest lexemes) :
    lexemes.Pairwise fun l l' => l.span.stop.AtMost l'.span.start := by
  induction h with
  | last _ => exact .nil
  | more _ _ others ih =>
    refine List.pairwise_cons.mpr ⟨fun l hl => ?_, ih⟩
    obtain ⟨between, -, hbefore, -, -⟩ := others.mem hl
    simp only [Lexeme.span]
    rw [hbefore, Position.after_append {} _ between]
    exact Position.atMost_after _ _

theorem Cut.prepend (h : Cut (before ++ front) rest lexemes)
    (hfront : ∀ {gap behind}, gap ++ behind = rest → Gap gap behind → Gap (front ++ gap) behind) :
    Cut before (front ++ rest) lexemes := by
  cases h with
  | last hgap => exact .last (hfront (List.append_nil _) hgap)
  | @more gap spelling rest _ lexemes hgap hspelling others =>
    rw [List.append_assoc before] at others ⊢
    rw [← List.append_assoc front]
    exact .more (hfront rfl hgap) hspelling others

theorem head?_dropWhile_eq_false (belongs : Char → Bool) (cs : List Char) :
    ∀ c ∈ (cs.dropWhile belongs).head?, belongs c = false := by
  intro c hc
  simpa [Option.mem_def.mp hc] using List.head?_dropWhile_not belongs cs

theorem Spelling.length_pos (h : Spelling w rest) : 0 < w.length := by
  cases h <;> exact Nat.succ_pos _

/-- Every text can be cut. -/
theorem exists_cut (before rest : List Char) : ∃ lexemes, Cut before rest lexemes := by
  induction hn : rest.length using Nat.strongRecOn generalizing before rest with
  | ind n ih =>
    have hlexeme : ∀ {w behind}, w ++ behind = rest → Spelling w behind →
        ∃ lexemes, Cut before rest lexemes := by
      rintro w behind rfl hspelling
      have := hspelling.length_pos
      rw [List.length_append] at hn
      obtain ⟨lexemes, hcut⟩ := ih behind.length (by omega) (before ++ [] ++ w) behind rfl
      exact ⟨_, .more .none hspelling hcut⟩
    cases rest with
    | nil => exact ⟨[], .last .none⟩
    | cons c cs =>
      rw [List.length_cons] at hn
      have hword (belongs : Char → Bool) : c :: cs.takeWhile belongs ++ cs.dropWhile belongs =
          c :: cs := congrArg (List.cons c) List.takeWhile_append_dropWhile
      by_cases hblank : Text.isBlank c = true
      · obtain ⟨lexemes, hcut⟩ := ih cs.length (by omega) (before ++ [c]) cs rfl
        exact ⟨lexemes, hcut.prepend fun _ => .blank hblank⟩
      by_cases hcomment : c = '#'
      · subst hcomment
        have hlength := (List.dropWhile_suffix (· != '\n') (l := cs)).length_le
        obtain ⟨lexemes, hcut⟩ := ih (cs.dropWhile (· != '\n')).length (by omega)
          (before ++ '#' :: cs.takeWhile (· != '\n')) _ rfl
        rw [← hword (· != '\n')]
        refine ⟨lexemes, hcut.prepend fun hrest => .comment ?_ ?_⟩
        · intro hmem
          simpa using List.mem_takeWhile_imp hmem
        · rw [hrest]
          intro c hc
          simpa using head?_dropWhile_eq_false _ cs c hc
      by_cases halpha : c.isAlpha = true
      · exact hlexeme (hword _) (.word halpha (fun d hd => List.mem_takeWhile_imp hd)
          (head?_dropWhile_eq_false _ cs))
      by_cases hnumber : Scanner.isNumberChar c = true
      · exact hlexeme (hword _) (.number hnumber (fun d hd => List.mem_takeWhile_imp hd)
          (head?_dropWhile_eq_false _ cs))
      · exact hlexeme (List.singleton_append (l := cs)) (.symbol (by simpa using hblank) hcomment
          (by simpa using halpha) (by simpa using hnumber))

-- ---------------------------------------------------------------------------
-- Scanning along a cut
-- ---------------------------------------------------------------------------

def TokenKind.ofSpelling? : List Char → Option TokenKind
  | [] => none
  | c :: cs =>
    if c.isAlpha then some (.ofWord (String.ofList (c :: cs)))
    else if Scanner.isNumberChar c then (Number.readChars? (c :: cs)).map .number
    else some (.char c)

def Lexeme.token (l : Lexeme) : Except Failure Token :=
  match TokenKind.ofSpelling? l.spelling with
  | some kind => .ok ⟨kind, l.span⟩
  | none => .error { cause := .malformedNumber (String.ofList l.spelling), span := l.span }

theorem ofSpelling?_word (hc : c.isAlpha = true) (cs : List Char) :
    TokenKind.ofSpelling? (c :: cs) = some (.ofWord (String.ofList (c :: cs))) :=
  if_pos hc

theorem ofSpelling?_number (hc : Scanner.isNumberChar c = true) (cs : List Char) :
    TokenKind.ofSpelling? (c :: cs) = (Number.readChars? (c :: cs)).map .number := by
  rw [TokenKind.ofSpelling?, if_neg (Scanner.not_isAlpha hc), if_pos hc]

theorem ofSpelling?_symbol (halpha : c.isAlpha = false) (hnumber : Scanner.isNumberChar c = false) :
    TokenKind.ofSpelling? [c] = some (.char c) := by
  simp [TokenKind.ofSpelling?, halpha, hnumber]

theorem Lexeme.token_eq_ok {l : Lexeme} (h : TokenKind.ofSpelling? l.spelling = some kind) :
    l.token = .ok ⟨kind, l.span⟩ := by
  rw [token, h]

theorem Lexeme.token_eq_error {l : Lexeme} (h : TokenKind.ofSpelling? l.spelling = none) :
    l.token = .error
      { cause := .malformedNumber (String.ofList l.spelling), span := l.span } := by
  rw [token, h]

namespace Scanner

section
variable {s t : Scanner}

theorem start_position (s : Scanner) (c : Char) : (s.start c).position = s.position.next c := by
  unfold start
  dsimp only
  split
  · rfl
  split
  · rfl
  split
  · rfl
  split <;> rfl

theorem flush_position (h : s.flush = .ok t) : t.position = s.position := by
  unfold flush at h
  split at h
  · cases h
    rfl
  · cases h
    rfl
  · cases h
    rfl
  · split at h <;> cases h
    rfl

theorem step_position (h : s.step c = .ok t) : t.position = s.position.next c := by
  have hflushed : s.flush.map (·.start c) = .ok t → t.position = s.position.next c := by
    intro h
    obtain ⟨u, hu, rfl⟩ := map_ok.mp h
    rw [start_position, flush_position hu]
  unfold step at h
  split at h
  · cases h
    exact start_position s c
  · cases h
    rfl
  · split at h
    · cases h
      rfl
    · exact hflushed h
  · split at h
    · cases h
      rfl
    · exact hflushed h

theorem run_position (h : s.run cs = .ok t) : t.position = s.position.after cs := by
  induction cs generalizing s with
  | nil =>
    cases h
    rfl
  | cons c cs ih =>
    obtain ⟨u, hu, hrest⟩ := run_cons_ok.mp h
    rw [ih hrest, step_position hu]
    rfl

/-- A token that does not go on is completed first. -/
theorem runAll_eq_bind (h : ∀ c ∈ rest.head?, s.step c = s.flush.map (·.start c)) :
    s.runAll rest = s.flush.bind (·.runAll rest) := by
  cases hflush : s.flush with
  | error failure =>
    cases rest with
    | nil => exact hflush
    | cons c cs => rw [runAll, run, h c rfl, hflush]; rfl
  | ok t =>
    have hbetween := flush_mode hflush
    cases rest with
    | nil =>
      obtain ⟨mode, position, tokens⟩ := t
      cases hbetween
      exact hflush
    | cons c cs =>
      have hstep : s.step c = .ok (t.start c) := by
        rw [h c rfl, hflush]
        rfl
      rw [runAll_cons hstep]
      exact (runAll_cons (step_between hbetween c)).symm

end

def placed (mode : ScanMode) (before : List Char) (tokens : List Token) : Scanner :=
  ⟨mode, Position.after {} before, tokens⟩

theorem placed_concat (mode : ScanMode) (before : List Char) (c : Char) (tokens : List Token) :
    placed mode (before ++ [c]) tokens = ⟨mode, (Position.after {} before).next c, tokens⟩ :=
  congrArg (Scanner.mk mode · tokens) (Position.after_append _ _ _)

theorem placed_extend (token : List Char → ScanMode) {belongs : Char → Bool}
    (hstep : ∀ {s : Scanner} {text c}, s.mode = token text → belongs c = true →
      s.step c = .ok { s with mode := token (c :: text), position := s.position.next c })
    (h : ∀ c ∈ cs, belongs c = true) (text before rest : List Char) (tokens : List Token) :
    (placed (token text) before tokens).runAll (cs ++ rest) =
      (placed (token (cs.reverse ++ text)) (before ++ cs) tokens).runAll rest := by
  obtain ⟨⟨mode, position, found⟩, hrun, hmode, hfound⟩ :=
    run_extend hstep (s := placed (token text) before tokens) rfl h
  have hposition : position = (Position.after {} before).after cs := run_position hrun
  obtain rfl : mode = _ := hmode
  obtain rfl : found = tokens := hfound
  rw [runAll_append hrun, hposition, ← Position.after_append]
  rfl

section
variable {before rest : List Char} {tokens : List Token}

theorem placed_start {m : ScanMode} (h : ((placed .between before tokens).start c).mode = m ∧
      ((placed .between before tokens).start c).tokens = found) (cs : List Char) :
    (placed .between before tokens).runAll (c :: cs) =
      (placed m (before ++ [c]) found).runAll cs := by
  obtain ⟨rfl, rfl⟩ := h
  have hposition : _ = (Position.after {} before).next c :=
    start_position (placed .between before tokens) c
  rw [runAll_cons (step_between rfl c), placed_concat, ← hposition]

theorem placed_blank (h : Text.isBlank c = true) (cs : List Char) :
    (placed .between before tokens).runAll (c :: cs) =
      (placed .between (before ++ [c]) tokens).runAll cs :=
  placed_start (start_blank h) cs

theorem placed_comment_end (h : ∀ c ∈ rest.head?, c = '\n') :
    (placed .comment before tokens).runAll rest = (placed .between before tokens).runAll rest := by
  cases rest with
  | nil => rfl
  | cons c cs =>
    obtain rfl := h c rfl
    rw [placed_blank (by decide), runAll_cons (step_comment rfl _), placed_concat]
    rfl

theorem step_inside {s : Scanner} (hs : s.mode = .comment)
    (hc : (c != '\n') = true) :
    s.step c = .ok { s with mode := .comment, position := s.position.next c } := by
  rw [step_comment hs, if_neg (by simpa using hc)]

theorem placed_gap (h : Gap gap rest) (before : List Char) (tokens : List Token) :
    (placed .between before tokens).runAll (gap ++ rest) =
      (placed .between (before ++ gap) tokens).runAll rest := by
  induction h generalizing before with
  | none => rw [List.nil_append, List.append_nil]
  | @blank c cs _ hc h ih =>
    rw [List.cons_append, placed_blank hc, ih, List.append_assoc, List.singleton_append]
  | @comment body cs _ hbody hend h ih =>
    have hstart : (placed .between before tokens).step '#' =
        .ok (placed .comment (before ++ ['#']) tokens) := by
      rw [step_between rfl, placed_concat]
      rfl
    have hinside : ∀ c ∈ body, (c != '\n') = true := by
      intro c hc
      simpa using ne_of_mem_of_not_mem hc hbody
    rw [List.cons_append, runAll_cons hstart, List.append_assoc,
      placed_extend (fun _ => .comment) (fun hs hc => step_inside hs hc) hinside [],
      placed_comment_end hend, ih]
    simp

theorem placed_run (token : List Char → ScanMode) {belongs : Char → Bool}
    (hstep : ∀ {s : Scanner} {text c}, s.mode = token text → belongs c = true →
      s.step c = .ok { s with mode := token (c :: text), position := s.position.next c })
    (hends : ∀ {s : Scanner} {text c}, s.mode = token text → belongs c = false →
      s.step c = s.flush.map (·.start c))
    (hstart : ((placed .between before tokens).start c).mode = token [c] ∧
      ((placed .between before tokens).start c).tokens = tokens)
    (hcs : ∀ d ∈ cs, belongs d = true) (hend : ∀ d ∈ rest.head?, belongs d = false) :
    (placed .between before tokens).runAll (c :: cs ++ rest) =
      (placed (token (c :: cs).reverse) (before ++ c :: cs) tokens).flush.bind (·.runAll rest) := by
  rw [List.cons_append, placed_start hstart, placed_extend token hstep hcs,
    runAll_eq_bind fun d hd => hends (s := placed _ _ _) rfl (hend d hd), List.append_assoc,
    List.singleton_append, List.reverse_cons]

theorem step_word_end {s : Scanner} (hs : s.mode = .word place text)
    (hc : isWordChar c = false) : s.step c = s.flush.map (·.start c) := by
  rw [step, hs]
  exact if_neg (Bool.eq_false_iff.mp hc)

theorem step_number_end {s : Scanner} (hs : s.mode = .number place text)
    (hc : isNumberChar c = false) : s.step c = s.flush.map (·.start c) := by
  rw [step, hs]
  exact if_neg (Bool.eq_false_iff.mp hc)

theorem placed_spelling (h : Spelling w rest) (before : List Char) (tokens : List Token) :
    (placed .between before tokens).runAll (w ++ rest) =
      (Lexeme.token ⟨before, w⟩).bind fun t =>
        (placed .between (before ++ w) (t :: tokens)).runAll rest := by
  cases h with
  | word hc hcs hend =>
    rw [placed_run (.word (Position.after {} before)) step_word step_word_end (start_alpha hc) hcs
      hend, Lexeme.token_eq_ok (ofSpelling?_word hc _), placed, flush]
    dsimp only
    rw [List.reverse_reverse]
    rfl
  | number hc hcs hend =>
    rw [placed_run (.number (Position.after {} before)) step_number step_number_end
      (start_number hc) hcs hend, Lexeme.token, ofSpelling?_number hc, placed, flush]
    dsimp only
    rw [List.reverse_reverse]
    cases Number.readChars? _ <;> rfl
  | @symbol _ c hblank hcomment halpha hnumber =>
    have hspan : Lexeme.span ⟨before, [c]⟩ =
        ⟨Position.after {} before, (Position.after {} before).next c⟩ :=
      congrArg (Span.mk _) (Position.after_append _ _ _)
    rw [List.singleton_append, placed_start (start_char _ hblank hcomment halpha hnumber),
      Lexeme.token_eq_ok (ofSpelling?_symbol halpha hnumber), hspan]
    rfl

/-- Scanning a text completes the lexemes of a cut one after the other. -/
theorem placed_cut (h : Cut before rest lexemes) (tokens : List Token) :
    (placed .between before tokens).runAll rest =
      (lexemes.mapM Lexeme.token).map fun found =>
        placed .between (before ++ rest) (found.reverse ++ tokens) := by
  induction h generalizing tokens with
  | @last rest before hgap =>
    have hrun := placed_gap hgap before tokens
    rw [List.append_nil] at hrun
    rw [hrun]
    rfl
  | @more gap spelling rest before lexemes hgap hspelling others ih =>
    rw [placed_gap hgap, placed_spelling hspelling, List.mapM_cons]
    cases Lexeme.token ⟨before ++ gap, spelling⟩ with
    | error failure => rfl
    | ok t =>
      show (placed .between (before ++ gap ++ spelling) (t :: tokens)).runAll rest = _
      rw [ih]
      cases lexemes.mapM Lexeme.token with
      | error failure => rfl
      | ok found =>
        show Except.ok _ = Except.ok _
        simp

end

end Scanner

end NumericJit
