import Mathlib.Data.List.Forall2
import NumericJit.Proofs.Token.Cuts

/-!
# Tokens partition a text

A run of digits and points is a number unless it has no digit or more than one point
(`Decimal.read?_eq_none_iff`), and every other lexeme is a token (`Spelling.spelledAs`). So a text
is split into tokens if none of its lexemes is malformed, with gaps between them, and the failure is
at the first one that is (`tokenize_partitions_text`).
-/

namespace NumericJit

-- ---------------------------------------------------------------------------
-- Numbers
-- ---------------------------------------------------------------------------

theorem exists_digits (h : ∀ c ∈ cs, Scanner.isNumberChar c = true) :
    ∃ whole rest, cs = whole ++ rest ∧ Decimal.AllDigits whole ∧
      (rest = [] ∨ ∃ tail, rest = '.' :: tail ∧ ∀ c ∈ tail, Scanner.isNumberChar c = true) := by
  refine ⟨cs.takeWhile Char.isDigit, cs.dropWhile Char.isDigit,
    List.takeWhile_append_dropWhile.symm, fun c hc => List.mem_takeWhile_imp hc, ?_⟩
  have hrest : ∀ c ∈ cs.dropWhile Char.isDigit, Scanner.isNumberChar c = true :=
    fun c hc => h c ((List.dropWhile_suffix _).subset hc)
  have hhead := head?_dropWhile_eq_false Char.isDigit cs
  cases hdrop : cs.dropWhile Char.isDigit with
  | nil => exact .inl rfl
  | cons c tail =>
    rw [hdrop] at hrest hhead
    obtain ⟨hc, htail⟩ := List.forall_mem_cons.mp hrest
    obtain rfl : c = '.' := by simpa [Scanner.isNumberChar, hhead c rfl] using hc
    exact .inr ⟨tail, rfl, htail⟩

namespace Decimal

theorem AllDigits.count_eq_zero (h : AllDigits cs) : cs.count '.' = 0 :=
  List.count_eq_zero.mpr fun hmem => absurd (h _ hmem) (by decide)

theorem AllDigits.none_iff (h : AllDigits cs) : (∀ c ∈ cs, c.isDigit = false) ↔ cs = [] := by
  refine ⟨fun hnone => ?_, fun hcs => hcs ▸ nofun⟩
  cases cs with
  | nil => rfl
  | cons c cs => simpa [h c List.mem_cons_self] using hnone c List.mem_cons_self

theorem read?_point (hwhole : AllDigits whole) (hfraction : AllDigits fraction)
    (hrest : ∀ c ∈ rest.head?, c.isDigit = false) :
    read? (whole ++ '.' :: (fraction ++ rest)) = none ↔
      (whole = [] ∧ fraction = []) ∨ readExponent? rest = none := by
  obtain ⟨htake, hdrop⟩ := takeWhile_digits hwhole ('.' :: (fraction ++ rest))
    fun c hc => Option.some.inj hc ▸ rfl
  obtain ⟨htake', hdrop'⟩ := takeWhile_digits hfraction rest hrest
  simp only [read?, htake, hdrop, htake', hdrop']
  split
  next hempty =>
    rw [Bool.and_eq_true, List.isEmpty_iff, List.isEmpty_iff] at hempty
    exact ⟨fun _ => .inl hempty, fun _ => rfl⟩
  next hempty =>
    rw [Bool.and_eq_true, List.isEmpty_iff, List.isEmpty_iff] at hempty
    rw [Option.map_eq_none_iff, or_iff_right hempty]

/-- Digits and points are read unless they have no digit or too many points. -/
theorem read?_eq_none_iff (h : ∀ c ∈ cs, Scanner.isNumberChar c = true) :
    read? cs = none ↔ (∀ c ∈ cs, c.isDigit = false) ∨ 1 < cs.count '.' := by
  obtain ⟨whole, rest, rfl, hwhole, rfl | ⟨tail, rfl, htail⟩⟩ := exists_digits h
  · rw [List.append_nil, hwhole.none_iff, hwhole.count_eq_zero, or_iff_left (by decide)]
    constructor
    · intro hnone
      by_contra hne
      rw [read?_whole hwhole hne] at hnone
      cases hnone
    · rintro rfl
      rfl
  obtain ⟨fraction, rest, rfl, hfraction, hrest⟩ := exists_digits htail
  have hhead : ∀ c ∈ rest.head?, c.isDigit = false := by
    obtain rfl | ⟨more, rfl, -⟩ := hrest
    · exact nofun
    · exact fun c hc => Option.some.inj hc ▸ rfl
  rw [read?_point hwhole hfraction hhead]
  simp only [List.forall_mem_append, List.forall_mem_cons, hwhole.none_iff, hfraction.none_iff,
    List.count_append, List.count_cons_self, hwhole.count_eq_zero, hfraction.count_eq_zero]
  obtain rfl | ⟨more, rfl, -⟩ := hrest
  · simp [readExponent?]
  · simp [readExponent?]

end Decimal

-- ---------------------------------------------------------------------------
-- Kinds
-- ---------------------------------------------------------------------------

theorem ofWord_spelledAs (hc : c.isAlpha = true) (hcs : ∀ d ∈ cs, d.isAlphanum = true) :
    (TokenKind.ofWord (String.ofList (c :: cs))).SpelledAs (c :: cs) := by
  unfold TokenKind.ofWord Keyword.ofSpelling?
  split
  next word hword =>
    have hspelling : word.spelling = String.ofList (c :: cs) := by
      simpa using List.find?_some hword
    have := TokenKind.SpelledAs.keyword word
    rwa [hspelling, String.toList_ofList] at this
  next hnone =>
    refine .identifier hc hcs fun word hword => ?_
    have hmem : word ∈ Keyword.all := by cases word <;> decide
    refine List.find?_eq_none.mp hnone word hmem (beq_iff_eq.mpr ?_)
    rw [← hword, String.ofList_toList]

theorem Spelling.spelledAs (h : Spelling w rest) (hkind : TokenKind.ofSpelling? w = some kind) :
    kind.SpelledAs w := by
  cases h with
  | word hc hcs _ =>
    rw [ofSpelling?_word hc] at hkind
    exact Option.some.inj hkind ▸ ofWord_spelledAs hc hcs
  | number hc hcs _ =>
    rw [ofSpelling?_number hc] at hkind
    obtain ⟨value, hvalue, rfl⟩ := Option.map_eq_some_iff.mp hkind
    exact .number (List.forall_mem_cons.mpr ⟨hc, hcs⟩) hvalue
  | symbol _ _ halpha hnumber =>
    rw [ofSpelling?_symbol halpha hnumber] at hkind
    exact Option.some.inj hkind ▸ .char halpha hnumber

theorem Spelling.malformed_iff {l : Lexeme} (h : Spelling l.spelling rest) :
    l.IsMalformed ↔ TokenKind.ofSpelling? l.spelling = none := by
  obtain ⟨before, w⟩ := l
  cases h with
  | @word _ c cs hc _ _ =>
    rw [ofSpelling?_word hc]
    exact ⟨fun hl => absurd hc (Scanner.not_isAlpha (hl.1 c List.mem_cons_self)),
      fun hnone => absurd hnone (Option.some_ne_none _)⟩
  | @number _ c cs hc hcs _ =>
    have hall : ∀ d ∈ c :: cs, Scanner.isNumberChar d = true :=
      List.forall_mem_cons.mpr ⟨hc, hcs⟩
    rw [ofSpelling?_number hc, Option.map_eq_none_iff,
      Number.readChars?_of_digit_or_point (by simpa [Scanner.isNumberChar] using hc),
      Option.map_eq_none_iff, Decimal.read?_eq_none_iff hall]
    exact and_iff_right hall
  | @symbol _ c _ _ halpha hnumber =>
    rw [ofSpelling?_symbol halpha hnumber]
    exact ⟨fun hl => absurd (hl.1 c List.mem_cons_self) (Bool.eq_false_iff.mp hnumber),
      fun hnone => absurd hnone (Option.some_ne_none _)⟩

-- ---------------------------------------------------------------------------
-- Tokens
-- ---------------------------------------------------------------------------

theorem tokenize_of_cut {text : String} (h : Cut [] text.toList lexemes) :
    tokenize text = (lexemes.mapM Lexeme.token).map fun found =>
      found ++ [⟨.endOfInput, ⟨Position.after {} text.toList, Position.after {} text.toList⟩⟩] := by
  have hrun : ({} : Scanner).runAll text.toList = _ := Scanner.placed_cut h []
  rw [Scanner.tokenize_eq_runAll, hrun]
  cases lexemes.mapM Lexeme.token with
  | error failure => rfl
  | ok found =>
    show Except.ok _ = Except.ok _
    simp [Scanner.placed]

section
variable {f : α → Except ε β}

theorem mapM_ok (h : l.mapM f = .ok ys) : List.Forall₂ (fun x y => f x = .ok y) l ys := by
  induction l generalizing ys with
  | nil =>
    cases h
    exact .nil
  | cons x l ih =>
    rw [List.mapM_cons] at h
    obtain ⟨y, hy, h⟩ := bind_ok.mp h
    obtain ⟨zs, hzs, h⟩ := bind_ok.mp h
    cases h
    exact .cons hy (ih hzs)

theorem mapM_error : l.mapM f = .error e ↔ ∃ before x behind, l = before ++ x :: behind ∧
    (∀ y ∈ before, ∃ b, f y = .ok b) ∧ f x = .error e := by
  induction l with
  | nil =>
    refine ⟨nofun, ?_⟩
    rintro ⟨before, x, behind, hl, -⟩
    exact absurd hl (by simp)
  | cons x l ih =>
    have hrest (y : β) : (l.mapM f >>= fun ys => pure (y :: ys)) = .error e ↔
        l.mapM f = .error e := by
      rw [bind_error]
      exact or_iff_left nofun
    simp only [List.mapM_cons, bind_error, hrest]
    constructor
    · rintro (hx | ⟨y, hy, hl⟩)
      · exact ⟨[], x, l, rfl, nofun, hx⟩
      · obtain ⟨before, x', behind, rfl, hbefore, hx'⟩ := ih.mp hl
        exact ⟨x :: before, x', behind, rfl, List.forall_mem_cons.mpr ⟨⟨y, hy⟩, hbefore⟩, hx'⟩
    · rintro ⟨before, x', behind, hl, hbefore, hx'⟩
      cases before with
      | nil =>
        obtain ⟨rfl, -⟩ := List.cons.inj hl
        exact .inl hx'
      | cons first before =>
        obtain ⟨rfl, rfl⟩ := List.cons.inj hl
        obtain ⟨⟨y, hy⟩, hbefore⟩ := List.forall_mem_cons.mp hbefore
        exact .inr ⟨y, hy, ih.mpr ⟨before, x', behind, rfl, hbefore, hx'⟩⟩

end

theorem TokenKind.SpelledAs.ne_endOfInput (h : SpelledAs kind w) : kind ≠ .endOfInput := by
  rintro rfl
  cases h

section
variable {l : Lexeme} {t : Token} {failure : Failure}

theorem Spelling.of_token_ok (h : Spelling l.spelling rest) (ht : l.token = .ok t) :
    t.kind.SpelledAs l.spelling ∧ t.span = l.span := by
  cases hkind : TokenKind.ofSpelling? l.spelling with
  | none =>
    rw [Lexeme.token_eq_error hkind] at ht
    cases ht
  | some kind =>
    rw [Lexeme.token_eq_ok hkind] at ht
    cases ht
    exact ⟨h.spelledAs hkind, rfl⟩

theorem Spelling.token_ok_iff (h : Spelling l.spelling rest) :
    (∃ t, l.token = .ok t) ↔ ¬ l.IsMalformed := by
  rw [h.malformed_iff]
  cases hkind : TokenKind.ofSpelling? l.spelling with
  | none => simp [Lexeme.token_eq_error hkind]
  | some kind => simp [Lexeme.token_eq_ok hkind]

theorem Spelling.token_error_iff (h : Spelling l.spelling rest) :
    l.token = .error failure ↔ l.IsMalformed ∧
      failure = { cause := .malformedNumber (String.ofList l.spelling), span := l.span } := by
  rw [h.malformed_iff]
  cases hkind : TokenKind.ofSpelling? l.spelling with
  | none => simp [Lexeme.token_eq_error hkind, eq_comm]
  | some kind => simp [Lexeme.token_eq_ok hkind]

end

/-- A text can be cut into lexemes, each on one line and behind the one before. If none of them is
malformed, each is the spelling of one token, and the end of the input comes behind them.
Otherwise the first one that is malformed is the failure. -/
theorem tokenize_partitions_text (text : String) :
    (∃ lexemes, Cut [] text.toList lexemes) ∧
    ∀ lexemes, Cut [] text.toList lexemes →
      (∀ l ∈ lexemes, l.IsOnLine text.toList) ∧
      (lexemes.Pairwise fun l l' => l.span.stop.AtMost l'.span.start) ∧
      (∀ tokens, tokenize text = .ok tokens → ∃ found stop,
        tokens = found ++ [⟨.endOfInput, ⟨stop, stop⟩⟩] ∧ stop.EndsText text.toList ∧
          (∀ t ∈ found, t.kind ≠ .endOfInput) ∧
          List.Forall₂ (fun l t => t.kind.SpelledAs l.spelling ∧ t.span = l.span) lexemes found) ∧
      ∀ failure, tokenize text = .error failure ↔ ∃ before l behind,
        lexemes = before ++ l :: behind ∧ (∀ earlier ∈ before, ¬ earlier.IsMalformed) ∧
          l.IsMalformed ∧
          failure = { cause := .malformedNumber (String.ofList l.spelling), span := l.span } := by
  refine ⟨exists_cut [] text.toList, fun lexemes hcut => ?_⟩
  have hspelling : ∀ l ∈ lexemes, ∃ rest, Spelling l.spelling rest := by
    intro l hl
    obtain ⟨-, rest, -, -, h⟩ := hcut.mem hl
    exact ⟨rest, h⟩
  refine ⟨fun l hl => ?_, hcut.ordered, fun tokens htokens => ?_, fun failure => ?_⟩
  · obtain ⟨between, rest, hbefore, hrest, hl⟩ := hcut.mem hl
    rw [hrest, ← List.nil_append between, ← hbefore]
    exact l.isOnLine hl.newline_not_mem rest
  · rw [tokenize_of_cut hcut] at htokens
    obtain ⟨found, hfound, rfl⟩ := map_ok.mp htokens
    have hspelled : List.Forall₂ (fun (l : Lexeme) (t : Token) =>
        t.kind.SpelledAs l.spelling ∧ t.span = l.span) lexemes found := by
      refine ((List.forall₂_and_left _ _).mpr ⟨hspelling, mapM_ok hfound⟩).imp ?_
      rintro l t ⟨⟨rest, h⟩, ht⟩
      exact h.of_token_ok ht
    have hkinds := hspelled.flip.imp fun t l h => And.intro h.1.ne_endOfInput h
    exact ⟨found, _, rfl, Position.endsText_after _, ((List.forall₂_and_left _ _).mp hkinds).1,
      hspelled⟩
  · have hmap : tokenize text = .error failure ↔ lexemes.mapM Lexeme.token = .error failure := by
      rw [tokenize_of_cut hcut]
      cases lexemes.mapM Lexeme.token <;> simp [Except.map]
    rw [hmap, mapM_error]
    refine exists_congr fun before => exists_congr fun l => exists_congr fun behind => ?_
    refine and_congr_right fun hlexemes => and_congr (forall₂_congr fun earlier hearlier => ?_) ?_
    · obtain ⟨rest, h⟩ := hspelling earlier (by simp [hlexemes, hearlier])
      exact h.token_ok_iff
    · obtain ⟨rest, h⟩ := hspelling l (by simp [hlexemes])
      exact h.token_error_iff

/-- A keyword, a word that runs into a point, and a comment at the end of its line. -/
theorem tokenize_partitions_commented_text :
    let chars := ['i', 'f', ' ', 'x', '1', '.', '5', ' ', '#', ' ', 'y', '\n', '<']
    let lexemes : List Lexeme := [⟨[], ['i', 'f']⟩, ⟨['i', 'f', ' '], ['x', '1']⟩,
      ⟨['i', 'f', ' ', 'x', '1'], ['.', '5']⟩,
      ⟨['i', 'f', ' ', 'x', '1', '.', '5', ' ', '#', ' ', 'y', '\n'], ['<']⟩]
    Cut [] chars lexemes ∧ (∀ l ∈ lexemes, l.IsOnLine chars) ∧
      ∃ found stop, tokenize (String.ofList chars) = .ok (found ++ [⟨.endOfInput, ⟨stop, stop⟩⟩]) ∧
        stop.EndsText chars ∧
        List.Forall₂ (fun l t => t.kind.SpelledAs l.spelling ∧ t.span = l.span) lexemes found ∧
        found.map Token.kind =
          [.keyword .ifWord, .identifier "x1", .number ⟨0x3FE0000000000000⟩, .char '<'] := by
  intro chars lexemes
  have hends (c : Char) (rest : List Char) : ∀ d ∈ (c :: rest).head?, d = c :=
    fun d hd => (Option.some.inj hd).symm
  have hgap : Gap [' ', '#', ' ', 'y', '\n'] ['<'] :=
    .blank rfl (@Gap.comment [' ', 'y'] ['\n'] _ (by simp) (hends _ _) (.blank rfl .none))
  have hcut : Cut [] chars lexemes :=
    @Cut.more [] ['i', 'f'] [' ', 'x', '1', '.', '5', ' ', '#', ' ', 'y', '\n', '<'] [] _ .none
      (.word rfl (List.forall_mem_singleton.mpr rfl) fun d hd => hends _ _ d hd ▸ rfl)
      (@Cut.more [' '] ['x', '1'] ['.', '5', ' ', '#', ' ', 'y', '\n', '<'] _ _ (.blank rfl .none)
        (.word rfl (List.forall_mem_singleton.mpr rfl) fun d hd => hends _ _ d hd ▸ rfl)
        (@Cut.more [] ['.', '5'] [' ', '#', ' ', 'y', '\n', '<'] _ _ .none
          (.number rfl (List.forall_mem_singleton.mpr rfl) fun d hd => hends _ _ d hd ▸ rfl)
          (@Cut.more [' ', '#', ' ', 'y', '\n'] ['<'] [] _ _ hgap
            (.symbol rfl (by decide) rfl rfl) (.last .none))))
  have hformed : ∀ l ∈ lexemes, ¬ l.IsMalformed := by
    simp only [lexemes, List.forall_mem_cons]
    refine ⟨?_, ?_, ?_, ?_, List.forall_mem_nil _⟩
    · exact fun h => absurd (h.1 'i' List.mem_cons_self) (by decide)
    · exact fun h => absurd (h.1 'x' List.mem_cons_self) (by decide)
    · rintro ⟨-, hdigits | hpoints⟩
      · exact absurd (hdigits '5' (by simp)) (by decide)
      · exact absurd hpoints (by decide)
    · exact fun h => absurd (h.1 '<' List.mem_cons_self) (by decide)
  have htext : (String.ofList chars).toList = chars := String.toList_ofList
  obtain ⟨honLine, -, htokens, hfails⟩ :=
    (tokenize_partitions_text (String.ofList chars)).2 lexemes (htext.symm ▸ hcut)
  rw [htext] at honLine htokens
  cases hrun : tokenize (String.ofList chars) with
  | error failure =>
    obtain ⟨before, l, behind, hlexemes, -, hl, -⟩ := (hfails failure).mp hrun
    exact absurd hl (hformed l (by simp [hlexemes]))
  | ok tokens =>
    obtain ⟨found, stop, rfl, hstop, -, hspelled⟩ := htokens tokens hrun
    have hkinds : (tokenize (String.ofList chars)).toOption.map
        (fun tokens => tokens.dropLast.map Token.kind) =
          some [.keyword .ifWord, .identifier "x1", .number ⟨0x3FE0000000000000⟩, .char '<'] := by
      decide +kernel
    rw [hrun] at hkinds
    exact ⟨hcut, honLine, found, stop, rfl, hstop, hspelled, by simpa using Option.some.inj hkinds⟩

end NumericJit
