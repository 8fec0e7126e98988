import NumericJit.Proofs.Decimal.Reading
import NumericJit.Proofs.Token.Continuing

/-!
# What a text without comments is split into

A text is white space, characters that stand for themselves, words and numbers, and behind a word or
a number there is nothing that could go on with it. The scanner splits it up accordingly
(`tokenize_of_lexes`). The other way round, whatever the text, an identifier that is found is a
name, and a number that is found has no sign (`tokenize_found`).
-/

namespace NumericJit

namespace Scanner

-- ---------------------------------------------------------------------------
-- Texts
-- ---------------------------------------------------------------------------

def isSymbol (c : Char) : Bool := !Text.isBlank c && c != '#' && !c.isAlpha && !isNumberChar c

def Delimited (cs : List Char) : Prop :=
  ∀ c ∈ cs.head?, isWordChar c = false ∧ isNumberChar c = false

/-- What a text is made of, up to and with its end. -/
inductive Lexes : List Char → List TokenKind → Prop where
  | nil : Lexes [] [.endOfInput]
  | blank (hc : Text.isBlank c = true) (h : Lexes cs ks) : Lexes (c :: cs) ks
  | symbol (hc : isSymbol c = true) (h : Lexes cs ks) : Lexes (c :: cs) (.char c :: ks)
  | word (hc : c.isAlpha = true) (hword : ∀ d ∈ word, isWordChar d = true) (hcs : Delimited cs)
    (h : Lexes cs ks) :
    Lexes (c :: (word ++ cs)) (.ofWord (String.ofList (c :: word)) :: ks)
  | number (hc : isNumberChar c = true) (hdigits : ∀ d ∈ digits, isNumberChar d = true)
    (hvalue : Number.readChars? (c :: digits) = some value) (hcs : Delimited cs)
    (h : Lexes cs ks) : Lexes (c :: (digits ++ cs)) (.number value :: ks)

theorem isAlpha_range (h : Char.isAlpha c = true) :
    65 ≤ c.toNat ∧ c.toNat ≤ 90 ∨ 97 ≤ c.toNat ∧ c.toNat ≤ 122 := by
  unfold Char.isAlpha Char.isUpper Char.isLower at h
  simp only [Bool.or_eq_true, Bool.and_eq_true, decide_eq_true_eq, UInt32.le_iff_toNat_le] at h
  exact h

theorem isNumberChar_range (h : isNumberChar c = true) :
    48 ≤ c.toNat ∧ c.toNat ≤ 57 ∨ c.toNat = 46 := by
  simp only [isNumberChar, Char.isDigit, Bool.or_eq_true, Bool.and_eq_true, decide_eq_true_eq,
    UInt32.le_iff_toNat_le, beq_iff_eq] at h
  obtain h | rfl := h
  · exact .inl h
  · exact .inr rfl

theorem not_isAlpha (h : isNumberChar c = true) : ¬ c.isAlpha = true := by
  intro halpha
  have := isAlpha_range halpha
  have := isNumberChar_range h
  omega

theorem not_isBlank (h : 33 ≤ c.toNat) (h' : c.toNat ≤ 126) : Text.isBlank c = false := by
  simp only [Text.isBlank, Text.inRanges, Text.blankRanges, List.any_cons, List.any_nil,
    Bool.or_eq_false_iff, Bool.and_eq_false_iff, decide_eq_false_iff_not, and_true]
  omega

section
variable {s t u : Scanner}

theorem start_blank (h : Text.isBlank c = true) :
    (s.start c).mode = .between ∧ (s.start c).tokens = s.tokens := by
  unfold start
  dsimp only
  rw [if_pos h]
  exact ⟨rfl, rfl⟩

theorem start_alpha (h : c.isAlpha = true) :
    (s.start c).mode = .word s.position [c] ∧ (s.start c).tokens = s.tokens := by
  have hrange := isAlpha_range h
  have hcomment : c ≠ '#' := by
    rintro rfl
    exact absurd hrange (by decide)
  have hblank : ¬ Text.isBlank c = true := by
    rw [not_isBlank (by omega) (by omega)]
    exact nofun
  unfold start
  dsimp only
  rw [if_neg hblank, if_neg hcomment, if_pos h]
  exact ⟨rfl, rfl⟩

theorem start_number (h : isNumberChar c = true) :
    (s.start c).mode = .number s.position [c] ∧ (s.start c).tokens = s.tokens := by
  have hrange := isNumberChar_range h
  have hcomment : c ≠ '#' := by
    rintro rfl
    exact absurd hrange (by decide)
  have hblank : ¬ Text.isBlank c = true := by
    rw [not_isBlank (by omega) (by omega)]
    exact nofun
  unfold start
  dsimp only
  rw [if_neg hblank, if_neg hcomment, if_neg (not_isAlpha h), if_pos h]
  exact ⟨rfl, rfl⟩

theorem start_char (s : Scanner) (hblank : Text.isBlank c = false) (hcomment : c ≠ '#')
    (halpha : c.isAlpha = false) (hnumber : isNumberChar c = false) :
    (s.start c).mode = .between ∧
      (s.start c).tokens = ⟨.char c, ⟨s.position, s.position.next c⟩⟩ :: s.tokens := by
  simp [start, hblank, hcomment, halpha, hnumber]

theorem start_symbol (h : isSymbol c = true) :
    (s.start c).mode = .between ∧ (s.start c).kinds = .char c :: s.kinds := by
  simp only [isSymbol, Bool.and_eq_true, Bool.not_eq_true', bne_iff_ne] at h
  obtain ⟨⟨⟨hblank, hcomment⟩, halpha⟩, hnumber⟩ := h
  obtain ⟨hmode, htokens⟩ := start_char s hblank hcomment halpha hnumber
  exact ⟨hmode, congrArg (List.map Token.kind) htokens⟩

-- ---------------------------------------------------------------------------
-- Splitting
-- ---------------------------------------------------------------------------

def runAll (s : Scanner) (cs : List Char) : Except Failure Scanner := (s.run cs).bind flush

theorem runAll_cons (h : s.step c = .ok t) : s.runAll (c :: cs) = t.runAll cs := by
  rw [runAll, run, h]
  rfl

theorem runAll_append (h : s.run cs = .ok t) : s.runAll (cs ++ ds) = t.runAll ds := by
  rw [runAll, run_append, h]
  rfl

theorem step_between (h : s.mode = .between) (c : Char) : s.step c = .ok (s.start c) := by
  rw [step, h]

theorem flush_mode (h : s.flush = .ok t) : t.mode = .between := by
  unfold flush at h
  split at h
  · cases h
    rfl
  · cases h
    rfl
  · cases h
    rfl
  · split at h <;> cases h
    rfl

/-- Nothing is lost if a token that does not go on is completed at once. -/
theorem runAll_flush (hmode : s.mode ≠ .comment) (h : s.flush = .ok t) (hcs : Delimited cs) :
    s.runAll cs = t.runAll cs := by
  have hbetween := flush_mode h
  cases cs with
  | nil =>
    obtain ⟨mode, position, tokens⟩ := t
    cases hbetween
    exact h
  | cons c cs =>
    obtain ⟨hword, hnumber⟩ := hcs c rfl
    have hstep : s.step c = .ok (t.start c) := by
      rw [step_eq hmode hword hnumber, h]
      rfl
    rw [runAll_cons hstep, runAll_cons (step_between hbetween c)]

theorem run_extend {token : List Char → ScanMode} {belongs : Char → Bool}
    (hstep : ∀ {s : Scanner} {text c}, s.mode = token text → belongs c = true →
      s.step c = .ok { s with mode := token (c :: text), position := s.position.next c })
    (hs : s.mode = token text) (h : ∀ c ∈ cs, belongs c = true) :
    ∃ t, s.run cs = .ok t ∧ t.mode = token (cs.reverse ++ text) ∧ t.tokens = s.tokens := by
  induction cs generalizing s text with
  | nil => exact ⟨s, rfl, hs, rfl⟩
  | cons c cs ih =>
    obtain ⟨hc, hcs⟩ := List.forall_mem_cons.mp h
    obtain ⟨t, hrun, hmode, htokens⟩ := ih
      (s := { s with mode := token (c :: text), position := s.position.next c }) rfl hcs
    refine ⟨t, run_cons_ok.mpr ⟨_, hstep hs hc, hrun⟩, ?_, htokens⟩
    rw [hmode, List.reverse_cons, List.append_assoc, List.singleton_append]

theorem step_word (hs : s.mode = .word place text) (hc : isWordChar c = true) :
    s.step c = .ok { s with mode := .word place (c :: text), position := s.position.next c } := by
  rw [step, hs]
  exact if_pos hc

theorem step_number (hs : s.mode = .number place text) (hc : isNumberChar c = true) :
    s.step c = .ok { s with mode := .number place (c :: text), position := s.position.next c } := by
  rw [step, hs]
  exact if_pos hc

theorem flush_word (hs : s.mode = .word place text) :
    ∃ t, s.flush = .ok t ∧ t.kinds = .ofWord (String.ofList text.reverse) :: s.kinds := by
  rw [flush, hs]
  exact ⟨_, rfl, rfl⟩

theorem flush_number (hs : s.mode = .number place text)
    (hvalue : Number.readChars? text.reverse = some value) :
    ∃ t, s.flush = .ok t ∧ t.kinds = .number value :: s.kinds := by
  rw [flush, hs]
  dsimp only
  rw [hvalue]
  exact ⟨_, rfl, rfl⟩

theorem runAll_token (hmode : s.mode ≠ .comment) (hcs : Delimited cs)
    (hflush : ∃ t, s.flush = .ok t ∧ t.kinds = kind :: s.kinds)
    (hrest : ∀ {t : Scanner}, t.mode = .between →
      ∃ u, t.runAll cs = .ok u ∧ .endOfInput :: u.kinds = ks.reverse ++ t.kinds) :
    ∃ u, s.runAll cs = .ok u ∧ .endOfInput :: u.kinds = (kind :: ks).reverse ++ s.kinds := by
  obtain ⟨t, ht, hkinds⟩ := hflush
  obtain ⟨u, hu, hfound⟩ := hrest (flush_mode ht)
  refine ⟨u, (runAll_flush hmode ht hcs).trans hu, ?_⟩
  rw [hfound, hkinds, List.reverse_cons, List.append_assoc, List.singleton_append]

theorem reverse_token (cs : List Char) (c : Char) : (cs.reverse ++ [c]).reverse = c :: cs := by
  rw [List.reverse_append, List.reverse_reverse, List.reverse_singleton, List.singleton_append]

theorem Lexes.runAll (h : Lexes cs ks) (hs : s.mode = .between) :
    ∃ u, s.runAll cs = .ok u ∧ .endOfInput :: u.kinds = ks.reverse ++ s.kinds := by
  induction h generalizing s with
  | nil =>
    obtain ⟨mode, position, tokens⟩ := s
    cases hs
    exact ⟨_, rfl, rfl⟩
  | blank hc h ih =>
    obtain ⟨hmode, htokens⟩ := start_blank (s := s) hc
    obtain ⟨u, hu, hkinds⟩ := ih hmode
    refine ⟨u, (runAll_cons (step_between hs _)).trans hu, ?_⟩
    rw [hkinds, kinds, htokens, kinds]
  | symbol hc h ih =>
    obtain ⟨hmode, hfound⟩ := start_symbol (s := s) hc
    obtain ⟨u, hu, hkinds⟩ := ih hmode
    refine ⟨u, (runAll_cons (step_between hs _)).trans hu, ?_⟩
    rw [hkinds, hfound, List.reverse_cons, List.append_assoc, List.singleton_append]
  | word hc hword hcs h ih =>
    obtain ⟨hstart, hnone⟩ := start_alpha (s := s) hc
    obtain ⟨t, hrun, hmode, htokens⟩ := run_extend step_word hstart hword
    have hflush := flush_word hmode
    rw [reverse_token] at hflush
    obtain ⟨u, hu, hkinds⟩ := runAll_token (by rw [hmode]; exact nofun) hcs hflush ih
    refine ⟨u, ?_, ?_⟩
    · rw [runAll_cons (step_between hs _), runAll_append hrun, hu]
    · rw [hkinds, kinds, htokens, hnone, kinds]
  | number hc hdigits hvalue hcs h ih =>
    obtain ⟨hstart, hnone⟩ := start_number (s := s) hc
    obtain ⟨t, hrun, hmode, htokens⟩ := run_extend step_number hstart hdigits
    have hflush := flush_number hmode (by rw [reverse_token, hvalue])
    obtain ⟨u, hu, hkinds⟩ := runAll_token (by rw [hmode]; exact nofun) hcs hflush ih
    refine ⟨u, ?_, ?_⟩
    · rw [runAll_cons (step_between hs _), runAll_append hrun, hu]
    · rw [hkinds, kinds, htokens, hnone, kinds]

theorem tokenize_eq_runAll (text : String) :
    tokenize text = (({} : Scanner).runAll text.toList).map fun s =>
      (⟨.endOfInput, ⟨s.position, s.position⟩⟩ :: s.tokens).reverse := by
  rw [tokenize, runAll]
  cases ({} : Scanner).run text.toList <;> rfl

end

end Scanner

/-- A text is split into the tokens that it is made of. -/
theorem tokenize_of_lexes (h : Scanner.Lexes text.toList ks) :
    ∃ tokens, tokenize text = .ok tokens ∧ tokens.map Token.kind = ks := by
  obtain ⟨u, hu, hkinds⟩ := h.runAll (s := {}) rfl
  refine ⟨_, by rw [Scanner.tokenize_eq_runAll, hu]; rfl, ?_⟩
  rw [List.map_reverse, List.map_cons, ← Scanner.kinds, hkinds]
  simp [Scanner.kinds]

-- ---------------------------------------------------------------------------
-- What is found
-- ---------------------------------------------------------------------------

def TokenKind.isFound : TokenKind → Bool
  | .identifier name => isName name
  | .number value => value.isPlain || value.isInfinite
  | _ => true

def ScanMode.Found : ScanMode → Prop
  | .word _ text =>
    ∃ c cs, text.reverse = c :: cs ∧ c.isAlpha = true ∧ ∀ d ∈ cs, Scanner.isWordChar d = true
  | .number _ text => ∃ c cs, text.reverse = c :: cs ∧ Scanner.isNumberChar c = true
  | _ => True

structure Scanner.Found (s : Scanner) : Prop where
  kinds : ∀ k ∈ s.kinds, k.isFound = true
  mode : s.mode.Found

theorem isFound_ofWord (hc : c.isAlpha = true) (hcs : ∀ d ∈ cs, Scanner.isWordChar d = true) :
    (TokenKind.ofWord (String.ofList (c :: cs))).isFound = true := by
  unfold TokenKind.ofWord
  split
  · rfl
  · next hkeyword =>
    have hall : cs.all Char.isAlphanum = true := List.all_eq_true.mpr hcs
    simp only [TokenKind.isFound, isName, String.toList_ofList, hc, hall, hkeyword,
      Option.isNone_none, Bool.and_self]

theorem isFound_number (hc : Scanner.isNumberChar c = true)
    (hvalue : Number.readChars? (c :: cs) = some value) :
    (TokenKind.number value).isFound = true := by
  have hc : c.isDigit = true ∨ c = '.' := by simpa [Scanner.isNumberChar] using hc
  rw [TokenKind.isFound, Number.isPlain_of_readChars? hc hvalue, Bool.not_or_self]

namespace Scanner.Found

variable {s t : Scanner}

theorem start (h : ∀ k ∈ s.kinds, k.isFound = true) (c : Char) : (s.start c).Found := by
  unfold Scanner.start
  dsimp only
  split
  · exact ⟨h, trivial⟩
  split
  · exact ⟨h, trivial⟩
  split
  next halpha => exact ⟨h, c, [], rfl, halpha, nofun⟩
  split
  next hnumber => exact ⟨h, c, [], rfl, hnumber⟩
  next => exact ⟨List.forall_mem_cons.mpr ⟨rfl, h⟩, trivial⟩

theorem flush (h : s.Found) (hs : s.flush = .ok t) : ∀ k ∈ t.kinds, k.isFound = true := by
  have hmode := h.mode
  unfold Scanner.flush at hs
  split at hs
  · cases hs
    exact h.kinds
  · cases hs
    exact h.kinds
  next place text hword =>
    cases hs
    rw [hword] at hmode
    obtain ⟨c, cs, htext, hc, hcs⟩ := hmode
    refine List.forall_mem_cons.mpr ⟨?_, h.kinds⟩
    rw [htext]
    exact isFound_ofWord hc hcs
  next place text hnumber =>
    rw [hnumber] at hmode
    obtain ⟨c, cs, htext, hc⟩ := hmode
    rw [htext] at hs
    split at hs
    next value hvalue =>
      cases hs
      exact List.forall_mem_cons.mpr ⟨isFound_number hc hvalue, h.kinds⟩
    next => cases hs

theorem step (h : s.Found) (hs : s.step c = .ok t) : t.Found := by
  have hflushed : s.flush.map (·.start c) = .ok t → t.Found := by
    intro hs
    obtain ⟨u, hu, rfl⟩ := map_ok.mp hs
    exact .start (h.flush hu) c
  have hmode := h.mode
  unfold Scanner.step at hs
  split at hs
  next => exact Except.ok.inj hs ▸ .start h.kinds c
  next =>
    cases hs
    refine ⟨h.kinds, ?_⟩
    dsimp only
    split <;> trivial
  next place text hword =>
    split at hs
    next hc =>
      cases hs
      rw [hword] at hmode
      obtain ⟨d, ds, htext, hd, hds⟩ := hmode
      refine ⟨h.kinds, d, ds ++ [c], by rw [List.reverse_cons, htext]; rfl, hd, ?_⟩
      exact List.forall_mem_append.mpr ⟨hds, List.forall_mem_singleton.mpr hc⟩
    next => exact hflushed hs
  next place text hnumber =>
    split at hs
    next hc =>
      cases hs
      rw [hnumber] at hmode
      obtain ⟨d, ds, htext, hd⟩ := hmode
      exact ⟨h.kinds, d, ds ++ [c], by rw [List.reverse_cons, htext]; rfl, hd⟩
    next => exact hflushed hs

theorem run (h : s.Found) (hs : s.run cs = .ok t) : t.Found := by
  induction cs generalizing s with
  | nil => exact Except.ok.inj hs ▸ h
  | cons c cs ih =>
    obtain ⟨u, hu, hrest⟩ := run_cons_ok.mp hs
    exact ih (h.step hu) hrest

end Scanner.Found

theorem tokenize_found (h : tokenize text = .ok tokens) (ht : t ∈ tokens) :
    t.kind.isFound = true := by
  obtain ⟨s, hrun, hfinish⟩ := bind_ok.mp h
  obtain ⟨u, hflush, rfl⟩ := map_ok.mp hfinish
  have hstart : ({} : Scanner).Found := ⟨nofun, trivial⟩
  obtain rfl | ht := List.mem_cons.mp (List.mem_reverse.mp ht)
  · rfl
  · exact (hstart.run hrun).flush hflush _ (List.mem_map_of_mem ht)

end NumericJit
