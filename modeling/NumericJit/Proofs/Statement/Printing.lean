import NumericJit.Expr.Text
import NumericJit.Proofs.Token.Lexing

/-!
# The tokens of a statement's text

Which tokens the text of a statement is made of, and that the scanner finds them in it
(`Statement.tokenize_text`).
-/

namespace NumericJit

-- ---------------------------------------------------------------------------
-- Tokens
-- ---------------------------------------------------------------------------

mutual
def Expr.tokens : Expr → List TokenKind → List TokenKind
  | .number value _, ks => .number value :: ks
  | .variable name _, ks => .identifier name :: ks
  | .binary op lhs rhs _, ks =>
    .char '(' :: lhs.tokens (.char op :: rhs.tokens (.char ')' :: ks))
  | .call callee args _, ks =>
    .identifier callee :: .char '(' :: Expr.argsTokens args (.char ')' :: ks)
  | .branch condition yes no _, ks =>
    .char '(' :: .keyword .ifWord :: condition.tokens
      (.keyword .thenWord :: yes.tokens (.keyword .elseWord :: no.tokens (.char ')' :: ks)))
  | .loop counter start stop step body _, ks =>
    .char '(' :: .keyword .forWord :: .identifier counter :: .char '=' :: start.tokens
      (.char ',' :: stop.tokens
        (Expr.optionTokens ',' step (.keyword .inWord :: body.tokens (.char ')' :: ks))))
  | .locals bindings body _, ks =>
    .char '(' :: .keyword .varWord ::
      Expr.bindingsTokens bindings (.keyword .inWord :: body.tokens (.char ')' :: ks))

def Expr.argsTokens : List Expr → List TokenKind → List TokenKind
  | [], ks => ks
  | [e], ks => e.tokens ks
  | e :: es, ks => e.tokens (.char ',' :: Expr.argsTokens es ks)

def Expr.optionTokens (ch : Char) : Option Expr → List TokenKind → List TokenKind
  | none, ks => ks
  | some e, ks => .char ch :: e.tokens ks

def Expr.bindingsTokens : List (String × Option Expr) → List TokenKind → List TokenKind
  | [], ks => ks
  | [(name, value)], ks => .identifier name :: Expr.optionTokens '=' value ks
  | (name, value) :: bs, ks =>
    .identifier name :: Expr.optionTokens '=' value (.char ',' :: Expr.bindingsTokens bs ks)
end

def Prototype.tokens (p : Prototype) (ks : List TokenKind) : List TokenKind :=
  .identifier p.name :: .char '(' :: (p.params.map .identifier ++ .char ')' :: ks)

def Statement.tokens : Statement → List TokenKind → List TokenKind
  | .definition p body, ks => .keyword .defWord :: p.tokens (body.tokens ks)
  | .declaration p, ks => .keyword .externWord :: p.tokens ks
  | .expression e, ks => e.tokens ks

-- ---------------------------------------------------------------------------
-- Words and numbers
-- ---------------------------------------------------------------------------

namespace Scanner

variable {rest : List Char}

theorem delimited_cons (h : (isWordChar c || isNumberChar c) = false) : Delimited (c :: rest) := by
  intro d hd
  obtain rfl := Option.some.inj hd
  exact Bool.or_eq_false_iff.mp h

theorem delimited_nil : Delimited [] := nofun

theorem Lexes.ofWord {word : String} (hword : word.toList = c :: cs) (hc : c.isAlpha = true)
    (hcs : ∀ d ∈ cs, isWordChar d = true) (hrest : Delimited rest) (h : Lexes rest ks) :
    Lexes (word.toList ++ rest) (.ofWord word :: ks) := by
  have hlexes := Lexes.word hc hcs hrest h
  rw [← hword, String.ofList_toList] at hlexes
  rwa [hword]

theorem Lexes.keyword (word : Keyword) (hrest : Delimited rest) (h : Lexes rest ks) :
    Lexes (word.spelling.toList ++ rest) (.keyword word :: ks) := by
  have hkind : TokenKind.ofWord word.spelling = .keyword word := by cases word <;> rfl
  obtain ⟨c, cs, hword, hc, hcs⟩ : ∃ c cs, word.spelling.toList = c :: cs ∧ c.isAlpha = true ∧
      ∀ d ∈ cs, isWordChar d = true := by
    cases word <;> exact ⟨_, _, rfl, rfl, List.all_eq_true.mp rfl⟩
  exact hkind ▸ .ofWord hword hc hcs hrest h

theorem Lexes.identifier {name : String} (hname : isName name = true) (hrest : Delimited rest)
    (h : Lexes rest ks) :
    Lexes (name.toList ++ rest) (.identifier name :: ks) := by
  unfold isName at hname
  split at hname
  next => cases hname
  next c cs hword =>
    simp only [Bool.and_eq_true, List.all_eq_true, Option.isNone_iff_eq_none] at hname
    obtain ⟨⟨hc, hcs⟩, hkeyword⟩ := hname
    have hkind : TokenKind.ofWord name = .identifier name := by rw [TokenKind.ofWord, hkeyword]
    exact hkind ▸ .ofWord hword hc hcs hrest h

theorem Lexes.plain (hvalue : value.isPlain = true) (hrest : Delimited rest) (h : Lexes rest ks) :
    Lexes (value.plain.toList ++ rest) (.number value :: ks) := by
  obtain ⟨hdigital, hread⟩ := Number.readChars?_plain hvalue
  have hchars : ∀ c ∈ value.plain.toList, isNumberChar c = true := fun c hc => by
    rw [isNumberChar, Bool.or_eq_true, beq_iff_eq]
    exact hdigital.digit_or_point hc
  obtain ⟨c, cs, htext, -⟩ := hdigital.exists_cons
  rw [htext] at hread hchars ⊢
  obtain ⟨hc, hcs⟩ := List.forall_mem_cons.mp hchars
  exact .number hc hcs hread hrest h

theorem lexes_space (h : Lexes rest ks) : Lexes (' ' :: rest) ks := .blank rfl h

theorem lexes_comma (h : Lexes rest ks) : Lexes (',' :: ' ' :: rest) (.char ',' :: ks) :=
  .symbol rfl (lexes_space h)

theorem lexes_word (word : Keyword) (h : Lexes rest ks) :
    Lexes (' ' :: (word.spelling.toList ++ ' ' :: rest)) (.keyword word :: ks) :=
  lexes_space (.keyword word (delimited_cons rfl) (lexes_space h))

theorem lexes_open (word : Keyword) (h : Lexes rest ks) :
    Lexes ('(' :: (word.spelling.toList ++ ' ' :: rest)) (.char '(' :: .keyword word :: ks) :=
  .symbol rfl (.keyword word (delimited_cons rfl) (lexes_space h))

theorem isSymbol_operator (h : binaryOperators.contains op = true) : isSymbol op = true := by
  have hall : ∀ op ∈ binaryOperators, isSymbol op = true := List.all_eq_true.mp rfl
  exact hall op (List.contains_iff_mem.mp h)

end Scanner

-- ---------------------------------------------------------------------------
-- Texts
-- ---------------------------------------------------------------------------

open Scanner

-- Every text is put together from its end: what comes behind a part is split up already.
mutual
theorem Expr.lexes : ∀ {e : Expr} {rest ks}, e.passes .writable = true → Delimited rest →
    Lexes rest ks → Lexes (e.text.toList ++ rest) (e.tokens ks)
  | .number value _, rest, ks, he, hrest, h => .plain he hrest h
  | .variable name _, rest, ks, he, hrest, h => .identifier he hrest h
  | .binary op lhs rhs _, rest, ks, he, hrest, h => by
    simp only [Expr.passes, Bool.and_eq_true] at he
    obtain ⟨⟨hop, hlhs⟩, hrhs⟩ := he
    have hrhs := Expr.lexes hrhs (delimited_cons rfl) (.symbol (c := ')') rfl h)
    have hop := Lexes.blank (c := ' ') rfl (.symbol (isSymbol_operator hop) (lexes_space hrhs))
    have hlhs := Expr.lexes hlhs (delimited_cons rfl) hop
    simpa [Expr.text, Expr.tokens] using Lexes.symbol (c := '(') rfl hlhs
  | .call callee args _, rest, ks, he, hrest, h => by
    simp only [Expr.passes, Bool.and_eq_true] at he
    obtain ⟨hcallee, hargs⟩ := he
    have hargs := Expr.lexes_args hargs (delimited_cons rfl) (.symbol (c := ')') rfl h)
    have hcallee := Lexes.identifier hcallee (delimited_cons rfl) (.symbol (c := '(') rfl hargs)
    simpa [Expr.text, Expr.tokens] using hcallee
  | .branch condition yes no _, rest, ks, he, hrest, h => by
    simp only [Expr.passes, Bool.and_eq_true] at he
    obtain ⟨⟨hcondition, hyes⟩, hno⟩ := he
    have hno := Expr.lexes hno (delimited_cons rfl) (.symbol (c := ')') rfl h)
    have hyes := Expr.lexes hyes (delimited_cons rfl) (lexes_word .elseWord hno)
    have hcondition := Expr.lexes hcondition (delimited_cons rfl) (lexes_word .thenWord hyes)
    simpa [Expr.text, Expr.tokens, Keyword.spelling] using lexes_open .ifWord hcondition
  | .loop counter start stop step body _, rest, ks, he, hrest, h => by
    simp only [Expr.passes, Bool.and_eq_true] at he
    obtain ⟨⟨⟨⟨hcounter, hstart⟩, hstop⟩, hstep⟩, hbody⟩ := he
    have hbody := Expr.lexes hbody (delimited_cons rfl) (.symbol (c := ')') rfl h)
    obtain ⟨hstep, hdelimited⟩ :=
      Expr.lexes_step hstep (delimited_cons rfl) (lexes_word .inWord hbody)
    have hstop := Expr.lexes hstop hdelimited hstep
    have hstart := Expr.lexes hstart (delimited_cons rfl) (lexes_comma hstop)
    have hcounter := Lexes.identifier hcounter (delimited_cons rfl)
      (lexes_space (.symbol (c := '=') rfl (lexes_space hstart)))
    simpa [Expr.text, Expr.tokens, Keyword.spelling] using lexes_open .forWord hcounter
  | .locals bindings body _, rest, ks, he, hrest, h => by
    simp only [Expr.passes, Bool.and_eq_true] at he
    obtain ⟨⟨-, hbindings⟩, hbody⟩ := he
    have hbody := Expr.lexes hbody (delimited_cons rfl) (.symbol (c := ')') rfl h)
    have hbindings := Expr.lexes_bindings hbindings (delimited_cons rfl) (lexes_word .inWord hbody)
    simpa [Expr.text, Expr.tokens, Keyword.spelling] using lexes_open .varWord hbindings

theorem Expr.lexes_args : ∀ {args : List Expr} {rest ks}, Expr.argsPass .writable args = true →
    Delimited rest → Lexes rest ks →
    Lexes ((Expr.argsText args).toList ++ rest) (Expr.argsTokens args ks)
  | [], rest, ks, hargs, hrest, h => h
  | [e], rest, ks, hargs, hrest, h => by
    simp only [Expr.argsPass, Bool.and_true] at hargs
    exact Expr.lexes hargs hrest h
  | e :: e' :: es, rest, ks, hargs, hrest, h => by
    rw [Expr.argsPass, Bool.and_eq_true] at hargs
    obtain ⟨he, hes⟩ := hargs
    have hes := Expr.lexes_args hes hrest h
    simpa [Expr.argsText, Expr.argsTokens] using
      Expr.lexes he (delimited_cons rfl) (lexes_comma hes)

theorem Expr.lexes_step : ∀ {step : Option Expr} {rest ks}, Expr.stepPasses .writable step = true →
    Delimited rest → Lexes rest ks →
    Lexes ((Expr.stepText step).toList ++ rest) (Expr.optionTokens ',' step ks) ∧
      Delimited ((Expr.stepText step).toList ++ rest)
  | none, rest, ks, hstep, hrest, h => ⟨h, hrest⟩
  | some e, rest, ks, hstep, hrest, h => by
    have he := Expr.lexes (e := e) hstep hrest h
    refine ⟨?_, ?_⟩
    · simpa [Expr.stepText, Expr.optionTokens] using lexes_comma he
    · have hcomma : Delimited (',' :: ' ' :: (e.text.toList ++ rest)) := delimited_cons rfl
      simpa [Expr.stepText] using hcomma

theorem Expr.lexes_binding : ∀ {name : String} {value : Option Expr} {rest ks},
    Expr.bindingPasses .writable (name, value) = true → Delimited rest → Lexes rest ks →
    Lexes ((Expr.bindingText (name, value)).toList ++ rest)
      (.identifier name :: Expr.optionTokens '=' value ks)
  | name, none, rest, ks, hb, hrest, h => .identifier hb hrest h
  | name, some e, rest, ks, hb, hrest, h => by
    rw [Expr.bindingPasses, Bool.and_eq_true] at hb
    obtain ⟨hname, he⟩ := hb
    have he := Expr.lexes he hrest h
    have hname := Lexes.identifier hname (delimited_cons rfl)
      (lexes_space (.symbol (c := '=') rfl (lexes_space he)))
    simpa [Expr.bindingText, Expr.optionTokens] using hname

theorem Expr.lexes_bindings : ∀ {bs : List (String × Option Expr)} {rest ks},
    Expr.bindingsPass .writable bs = true → Delimited rest → Lexes rest ks →
    Lexes ((Expr.bindingsText bs).toList ++ rest) (Expr.bindingsTokens bs ks)
  | [], rest, ks, hbs, hrest, h => h
  | [(name, value)], rest, ks, hbs, hrest, h => by
    simp only [Expr.bindingsPass, Bool.and_true] at hbs
    exact Expr.lexes_binding hbs hrest h
  | (name, value) :: b :: bs, rest, ks, hbs, hrest, h => by
    rw [Expr.bindingsPass, Bool.and_eq_true] at hbs
    obtain ⟨hb, hbs⟩ := hbs
    have hbs := Expr.lexes_bindings hbs hrest h
    simpa [Expr.bindingsText, Expr.bindingsTokens] using
      Expr.lexes_binding hb (delimited_cons rfl) (lexes_comma hbs)
end

theorem lexes_params : ∀ {params : List String} {rest ks}, (∀ p ∈ params, isName p = true) →
    Delimited rest → Lexes rest ks →
    Lexes ((String.intercalate " " params).toList ++ rest) (params.map .identifier ++ ks)
  | [], rest, ks, hparams, hrest, h => h
  | [p], rest, ks, hparams, hrest, h => by
    rw [String.intercalate_singleton]
    exact .identifier (hparams p (List.mem_singleton_self p)) hrest h
  | p :: q :: params, rest, ks, hparams, hrest, h => by
    obtain ⟨hp, hparams⟩ := List.forall_mem_cons.mp hparams
    have hparams := lexes_params hparams hrest h
    simpa [String.intercalate_cons_cons] using
      Lexes.identifier hp (delimited_cons rfl) (lexes_space hparams)

theorem Prototype.lexes {p : Prototype} (hp : p.passes .writable = true) (h : Lexes rest ks) :
    Lexes (p.text.toList ++ rest) (p.tokens ks) := by
  rw [Prototype.passes, Bool.and_eq_true, List.all_eq_true] at hp
  obtain ⟨hname, hparams⟩ := hp
  have hparams := lexes_params hparams (delimited_cons rfl) (.symbol (c := ')') rfl h)
  have hname := Lexes.identifier hname (delimited_cons rfl) (.symbol (c := '(') rfl hparams)
  simpa [Prototype.text, Prototype.tokens] using hname

theorem Statement.lexes {s : Statement} (hs : s.passes .writable = true) :
    Lexes s.text.toList (s.tokens [.endOfInput]) := by
  cases s with
  | definition p body =>
    rw [Statement.passes, Bool.and_eq_true] at hs
    obtain ⟨hp, hbody⟩ := hs
    have hbody := Expr.lexes hbody delimited_nil .nil
    have hword := Lexes.keyword .defWord (delimited_cons rfl)
      (lexes_space (p.lexes hp (lexes_space hbody)))
    simpa [Statement.text, Statement.tokens, Keyword.spelling] using hword
  | declaration p =>
    have hword := Lexes.keyword .externWord (delimited_cons rfl) (lexes_space (p.lexes hs .nil))
    simpa [Statement.text, Statement.tokens, Keyword.spelling] using hword
  | expression e => simpa [Statement.text, Statement.tokens] using Expr.lexes hs delimited_nil .nil

theorem Statement.tokenize_text {s : Statement} (hs : s.passes .writable = true) :
    ∃ tokens, tokenize s.text = .ok tokens ∧ tokens.map Token.kind = s.tokens [.endOfInput] :=
  tokenize_of_lexes (Statement.lexes hs)

end NumericJit
