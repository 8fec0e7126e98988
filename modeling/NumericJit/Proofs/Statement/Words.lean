import NumericJit.Lowering.Statement
import NumericJit.Proofs.Meaning.Scoping
import NumericJit.Statement.Parse

/-!
# What can be written

Every identifier that the scanner finds begins with a letter, and every operator that the parser
takes up has a precedence. So in a statement that was read from a text, functions have names that
are kept apart from those of wrappers, and all operators are known. Where nothing is read, the
text is at fault (`readable_of_parse`).
-/

namespace NumericJit

def IsWord (name : String) : Prop := ∃ c cs, name.toList = c :: cs ∧ c.isAlpha = true

/-- Does not begin as the names of wrappers do. -/
def IsPlain (name : String) : Prop := ¬ "__anon_expr".toList <+: name.toList

theorem IsWord.isPlain (h : IsWord name) : IsPlain name := by
  rintro ⟨rest, hrest⟩
  obtain ⟨c, cs, hname, hc⟩ := h
  rw [hname] at hrest
  obtain ⟨rfl, -⟩ := List.cons.inj hrest
  exact absurd hc (by decide)

theorem not_isPlain_wrapperName (n : Nat) : ¬ IsPlain (wrapperName n) := by
  simp only [IsPlain, wrapperName, String.toList_append, Classical.not_not]
  exact (List.prefix_append _ ['_']).trans (List.prefix_append _ _)

theorem IsPlain.ne_wrapperName (h : IsPlain name) (n : Nat) : name ≠ wrapperName n := by
  rintro rfl
  exact not_isPlain_wrapperName n h

-- ---------------------------------------------------------------------------
-- What reading comes to
-- ---------------------------------------------------------------------------

def Cause.isReading : Cause → Bool
  | .malformedNumber _ | .unexpected _ _ => true
  | _ => false

inductive Ensures (Q : α → Prop) : Except Failure α → Prop where
  | ok (h : Q a) : Ensures Q (.ok a)
  | error (h : e.cause.isReading = true) : Ensures Q (.error e)

namespace Ensures

variable {Q : β → Prop} {P : α → Prop}

theorem fail {c : TokenCursor} : Ensures Q (c.fail expected) := .error rfl

theorem bind {m : Except Failure α} {k : α → Except Failure β} (hm : Ensures P m)
    (hk : ∀ a, P a → Ensures Q (k a)) : Ensures Q (m >>= k) := by
  cases hm with
  | ok h => exact hk _ h
  | error h => exact .error h

theorem map {m : Except Failure α} {f : α → β} (hm : Ensures P m) (hf : ∀ a, P a → Q (f a)) :
    Ensures Q (m.map f) := by
  cases hm with
  | ok h => exact .ok (hf _ h)
  | error h => exact .error h

theorem ite {p : Prop} [Decidable p] {m k : Except Failure β} (hm : p → Ensures Q m)
    (hk : ¬ p → Ensures Q k) : Ensures Q (if p then m else k) := by
  split
  · exact hm ‹_›
  · exact hk ‹_›

end Ensures

-- ---------------------------------------------------------------------------
-- Tokens
-- ---------------------------------------------------------------------------

def Token.Worded (t : Token) : Prop := ∀ name, t.kind = .identifier name → IsWord name

/-- What the scanner has found, and a word that it is in the middle of, begin with letters where
they should. -/
structure Scanner.Worded (s : Scanner) : Prop where
  tokens : ∀ t ∈ s.tokens, t.Worded
  word : ∀ start text, s.mode = .word start text → ∃ c cs, text.reverse = c :: cs ∧ c.isAlpha = true

namespace Scanner

theorem Worded.start {s : Scanner} (h : ∀ t ∈ s.tokens, t.Worded) (c : Char) :
    (s.start c).Worded := by
  unfold Scanner.start
  simp only
  split
  · exact ⟨h, by simp⟩
  · split
    · exact ⟨h, by simp⟩
    · split
      · rename_i halpha
        refine ⟨h, fun start text hmode => ?_⟩
        cases hmode
        exact ⟨c, [], rfl, halpha⟩
      · split
        · exact ⟨h, by simp⟩
        · refine ⟨fun t ht => ?_, by simp⟩
          rcases List.mem_cons.mp ht with rfl | ht
          · intro name hname
            cases hname
          · exact h t ht

theorem Worded.flush {s : Scanner} (h : s.Worded) :
    Ensures (fun s' => ∀ t ∈ s'.tokens, t.Worded) s.flush := by
  unfold Scanner.flush
  split
  · exact .ok h.tokens
  · exact .ok h.tokens
  · rename_i start text hmode
    refine .ok (List.forall_mem_cons.mpr ⟨fun name hname => ?_, h.tokens⟩)
    simp only [TokenKind.ofWord] at hname
    split at hname <;> cases hname
    obtain ⟨c, cs, htext, hc⟩ := h.word start text hmode
    exact ⟨c, cs, by rw [String.toList_ofList, htext], hc⟩
  · split
    · refine .ok (List.forall_mem_cons.mpr ⟨fun name hname => ?_, h.tokens⟩)
      cases hname
    · exact .error rfl

theorem Worded.step {s : Scanner} (h : s.Worded) (c : Char) : Ensures Worded (s.step c) := by
  have hflush : Ensures Worded (s.flush.map (·.start c)) := h.flush.map fun _ hs => .start hs c
  unfold Scanner.step
  split
  · exact .ok (.start h.tokens c)
  · refine .ok ⟨h.tokens, fun start text hmode => ?_⟩
    simp only at hmode
    split at hmode <;> cases hmode
  · rename_i start text hmode
    refine .ite (fun _ => .ok ⟨h.tokens, fun start' text' hmode' => ?_⟩) fun _ => hflush
    cases hmode'
    obtain ⟨d, ds, htext, hd⟩ := h.word start text hmode
    exact ⟨d, ds ++ [c], by simp [htext], hd⟩
  · exact .ite (fun _ => .ok ⟨h.tokens, by simp⟩) fun _ => hflush

theorem Worded.run {s : Scanner} (h : s.Worded) (cs : List Char) : Ensures Worded (s.run cs) := by
  induction cs generalizing s with
  | nil => exact .ok h
  | cons c cs ih =>
    have hstep := h.step c
    simp only [Scanner.run]
    cases hs : s.step c with
    | ok next =>
      rw [hs] at hstep
      cases hstep with
      | ok hnext => exact ih hnext
    | error e =>
      rw [hs] at hstep
      cases hstep with
      | error he => exact .error he

theorem Worded.finish {s : Scanner} (h : s.Worded) :
    Ensures (fun tokens => ∀ t ∈ tokens, t.Worded) s.finish := by
  refine h.flush.map fun s' hs' => ?_
  simp only [List.mem_reverse]
  refine List.forall_mem_cons.mpr ⟨fun name hname => ?_, hs'⟩
  cases hname

end Scanner

theorem tokenize_worded (text : String) :
    Ensures (fun tokens => ∀ t ∈ tokens, t.Worded) (tokenize text) := by
  have hstart : ({} : Scanner).Worded := ⟨by simp, by simp⟩
  exact (hstart.run text.toList).bind fun s hs => hs.finish

-- ---------------------------------------------------------------------------
-- Expressions
-- ---------------------------------------------------------------------------

/-- Calls functions by words, and has operators with a precedence. -/
structure Expr.Readable (e : Expr) : Prop where
  callees : ∀ c ∈ e.callees, IsWord c
  operators : ∀ op ∈ e.operators, (precedence? op).isSome

theorem Expr.mem_argOperators : op ∈ Expr.argOperators args ↔ ∃ e ∈ args, op ∈ e.operators := by
  induction args with
  | nil => simp [Expr.argOperators]
  | cons e es ih => simp [Expr.argOperators, ih]

theorem Expr.mem_stepOperators : op ∈ Expr.stepOperators step ↔ ∃ e ∈ step, op ∈ e.operators := by
  cases step <;> simp [Expr.stepOperators]

theorem Expr.mem_localOperators :
    op ∈ Expr.localOperators bindings ↔ ∃ b ∈ bindings, ∃ e ∈ b.2, op ∈ e.operators := by
  induction bindings with
  | nil => simp [Expr.localOperators]
  | cons b rest ih =>
    obtain ⟨name, value⟩ := b
    cases value <;> simp [Expr.localOperators, Expr.initialOperators, ih]

namespace Expr.Readable

theorem number (value : Number) (span : Span) : (Expr.number value span).Readable :=
  ⟨by simp [Expr.callees], by simp [Expr.operators]⟩

theorem var (name : String) (span : Span) : (Expr.variable name span).Readable :=
  ⟨by simp [Expr.callees], by simp [Expr.operators]⟩

theorem binary (hop : (precedence? op).isSome) (hl : lhs.Readable) (hr : rhs.Readable)
    (span : Span) : (Expr.binary op lhs rhs span).Readable where
  callees c hc := by
    rcases List.mem_append.mp hc with hc | hc
    · exact hl.callees c hc
    · exact hr.callees c hc
  operators o ho := by
    rcases List.mem_cons.mp ho with rfl | ho
    · exact hop
    · rcases List.mem_append.mp ho with ho | ho
      · exact hl.operators o ho
      · exact hr.operators o ho

theorem call (hname : IsWord name) (h : ∀ e ∈ args, e.Readable) (span : Span) :
    (Expr.call name args span).Readable where
  callees c hc := by
    rcases List.mem_cons.mp hc with rfl | hc
    · exact hname
    · obtain ⟨e, he, hc⟩ := Expr.mem_argCallees.mp hc
      exact (h e he).callees c hc
  operators o ho := by
    obtain ⟨e, he, ho⟩ := Expr.mem_argOperators.mp ho
    exact (h e he).operators o ho

theorem branch (hc : condition.Readable) (hy : yes.Readable) (hn : no.Readable) (span : Span) :
    (Expr.branch condition yes no span).Readable where
  callees c h := by
    simp only [Expr.callees, List.mem_append] at h
    rcases h with (h | h) | h
    · exact hc.callees c h
    · exact hy.callees c h
    · exact hn.callees c h
  operators o h := by
    simp only [Expr.operators, List.mem_append] at h
    rcases h with (h | h) | h
    · exact hc.operators o h
    · exact hy.operators o h
    · exact hn.operators o h

theorem loop (hstart : start.Readable) (hstop : stop.Readable) (hstep : ∀ e ∈ step, e.Readable)
    (hbody : body.Readable) (counter : String) (span : Span) :
    (Expr.loop counter start stop step body span).Readable where
  callees c h := by
    simp only [Expr.callees, List.mem_append, Expr.mem_stepCallees] at h
    rcases h with ((h | ⟨e, he, h⟩) | h) | h
    · exact hstart.callees c h
    · exact (hstep e he).callees c h
    · exact hbody.callees c h
    · exact hstop.callees c h
  operators o h := by
    simp only [Expr.operators, List.mem_append, Expr.mem_stepOperators] at h
    rcases h with ((h | ⟨e, he, h⟩) | h) | h
    · exact hstart.operators o h
    · exact (hstep e he).operators o h
    · exact hbody.operators o h
    · exact hstop.operators o h

theorem locals (h : ∀ b ∈ bindings, ∀ e ∈ b.2, e.Readable) (hbody : body.Readable) (span : Span) :
    (Expr.locals bindings body span).Readable where
  callees c hc := by
    simp only [Expr.callees, List.mem_append, Expr.mem_localCallees] at hc
    rcases hc with ⟨b, hb, e, he, hc⟩ | hc
    · exact (h b hb e he).callees c hc
    · exact hbody.callees c hc
  operators o ho := by
    simp only [Expr.operators, List.mem_append, Expr.mem_localOperators] at ho
    rcases ho with ⟨b, hb, e, he, ho⟩ | ho
    · exact (h b hb e he).operators o ho
    · exact hbody.operators o ho

end Expr.Readable

-- ---------------------------------------------------------------------------
-- Reading
-- ---------------------------------------------------------------------------

namespace TokenCursor

structure Worded (c : TokenCursor) : Prop where
  rest : ∀ t ∈ c.rest, t.Worded
  last : ∀ t ∈ c.last, t.Worded

variable {c : TokenCursor}

theorem Worded.advance (h : c.Worded) : c.advance.Worded := by
  unfold TokenCursor.advance
  split
  · rename_i t rest hrest
    have hmem := h.rest
    rw [hrest] at hmem
    refine ⟨fun t ht => hmem t (by simp [ht]), fun t ht => ?_⟩
    cases ht
    exact hmem t (by simp)
  · exact h

theorem Worded.identifier (h : c.Worded) (hk : c.kind = .identifier name) : IsWord name := by
  unfold TokenCursor.kind at hk
  split at hk
  · rename_i t rest hrest
    exact h.rest t (by simp [hrest]) name hk
  · cases hl : c.last with
    | none => simp [hl] at hk
    | some t =>
      rw [hl] at hk
      exact h.last t (by simp [hl]) name hk

theorem Worded.expectChar (h : c.Worded) (ch : Char) : Ensures Worded (c.expectChar ch) :=
  .ite (fun _ => .ok h.advance) (fun _ => .fail)

theorem Worded.expectKeyword (h : c.Worded) (word : Keyword) :
    Ensures Worded (c.expectKeyword word) :=
  .ite (fun _ => .ok h.advance) (fun _ => .fail)

theorem Worded.expectIdentifier (h : c.Worded) (expected : Expectation) :
    Ensures (fun r => IsWord r.1 ∧ r.2.Worded) (c.expectIdentifier expected) := by
  unfold TokenCursor.expectIdentifier
  split
  · rename_i name hk
    exact .ok ⟨h.identifier hk, h.advance⟩
  · exact .fail

theorem operator?_precedence (h : c.operator? = some (op, p)) : (precedence? op).isSome := by
  unfold TokenCursor.operator? at h
  split at h
  · rename_i found hk
    obtain ⟨q, hq, heq⟩ := Option.map_eq_some_iff.mp h
    cases heq
    simp [hq]
  · cases h

end TokenCursor

namespace Parse

def ExprRead (r : Expr × TokenCursor) : Prop := r.1.Readable ∧ r.2.Worded

structure Reads (fuel : Nat) : Prop where
  expression : ∀ {c : TokenCursor}, c.Worded →
    Ensures ExprRead (expressionWith fuel c)
  operators : ∀ {least lhs} {c : TokenCursor}, lhs.Readable → c.Worded →
    Ensures ExprRead (operators fuel least lhs c)
  primary : ∀ {c : TokenCursor}, c.Worded →
    Ensures ExprRead (primary fuel c)
  arguments : ∀ {c : TokenCursor}, c.Worded →
    Ensures (fun r => (∀ e ∈ r.1, e.Readable) ∧ r.2.Worded) (arguments fuel c)
  bindings : ∀ {c : TokenCursor}, c.Worded →
    Ensures (fun r => (∀ b ∈ r.1, ∀ e ∈ b.2, e.Readable) ∧ r.2.Worded) (bindings fuel c)

theorem reads_zero : Reads 0 :=
  ⟨fun _ => .fail, fun _ _ => .fail, fun _ => .fail, fun _ => .fail, fun _ => .fail⟩

section
variable {fuel : Nat} {c : TokenCursor}

theorem Reads.expression_succ (ih : Reads fuel) (hc : c.Worded) :
    Ensures ExprRead (expressionWith (fuel + 1) c) := by
  rw [expressionWith]
  refine (ih.primary hc).bind ?_
  rintro ⟨lhs, c⟩ ⟨hl, hc⟩
  exact ih.operators hl hc

theorem Reads.operators_succ {lhs : Expr} (ih : Reads fuel) (hl : lhs.Readable) (hc : c.Worded) :
    Ensures ExprRead (Parse.operators (fuel + 1) least lhs c) := by
  rw [Parse.operators]
  split
  · exact .ok ⟨hl, hc⟩
  · rename_i op p hop
    refine .ite (fun _ => .ok ⟨hl, hc⟩) fun _ => ?_
    refine (ih.primary hc.advance).bind ?_
    rintro ⟨first, c₁⟩ ⟨hfirst, hc₁⟩
    have hrest : ∀ r, ExprRead r →
        Ensures ExprRead
          (Parse.operators fuel least (.binary op lhs r.1 (lhs.span.to r.1.span)) r.2) := fun r hr =>
      ih.operators (.binary (TokenCursor.operator?_precedence hop) hl hr.1 _) hr.2
    dsimp only
    split
    · exact (Ensures.ok ⟨hfirst, hc₁⟩).bind hrest
    · exact .ite (fun _ => (ih.operators hfirst hc₁).bind hrest) fun _ =>
        .ite (fun _ => (ih.operators hfirst hc₁).bind hrest) fun _ =>
          (Ensures.ok ⟨hfirst, hc₁⟩).bind hrest

theorem Reads.call (ih : Reads fuel) (hname : IsWord name) (hc : c.Worded) (span : Span) :
    Ensures ExprRead (do
      let (args, close) ←
        if c.advance.isChar ')' then .ok ([], c.advance) else Parse.arguments fuel c.advance
      let close := close.advance
      .ok (.call name args (span.to close.lastSpan), close)) := by
  have hrest : ∀ r : List Expr × TokenCursor, (∀ e ∈ r.1, e.Readable) ∧ r.2.Worded →
      Ensures ExprRead
        (.ok (Expr.call name r.1 (span.to r.2.advance.lastSpan), r.2.advance)) := fun r hr =>
    .ok ⟨.call hname hr.1 _, hr.2.advance⟩
  exact .ite (fun _ => (Ensures.ok ⟨by simp, hc.advance⟩).bind hrest) fun _ =>
    (ih.arguments hc.advance).bind hrest

theorem Reads.primary_succ (ih : Reads fuel) (hc : c.Worded) :
    Ensures ExprRead (Parse.primary (fuel + 1) c) := by
  rw [Parse.primary]
  refine .ite (fun _ => .fail) fun _ => ?_
  split
  · exact .ok ⟨.number _ _, hc.advance⟩
  · rename_i name hk
    refine .ite (fun _ => ?_) fun _ => .ok ⟨.var _ _, hc.advance⟩
    exact ih.call (hc.identifier hk) hc.advance _
  · refine (ih.expression hc.advance).bind ?_
    rintro ⟨e, c₁⟩ ⟨he, hc₁⟩
    refine (hc₁.expectChar ')').bind fun c₂ hc₂ => ?_
    exact .ok ⟨he, hc₂⟩
  · refine (ih.expression hc.advance).bind ?_
    rintro ⟨condition, c₁⟩ ⟨hcondition, hc₁⟩
    refine (hc₁.expectKeyword .thenWord).bind fun c₂ hc₂ => (ih.expression hc₂).bind ?_
    rintro ⟨yes, c₃⟩ ⟨hyes, hc₃⟩
    refine (hc₃.expectKeyword .elseWord).bind fun c₄ hc₄ => (ih.expression hc₄).bind ?_
    rintro ⟨no, c₅⟩ ⟨hno, hc₅⟩
    exact .ok ⟨.branch hcondition hyes hno _, hc₅⟩
  · refine (hc.advance.expectIdentifier .loopVariable).bind ?_
    rintro ⟨counter, c₁⟩ ⟨-, hc₁⟩
    refine (hc₁.expectChar '=').bind fun c₂ hc₂ => (ih.expression hc₂).bind ?_
    rintro ⟨start, c₃⟩ ⟨hstart, hc₃⟩
    refine (hc₃.expectChar ',').bind fun c₄ hc₄ => (ih.expression hc₄).bind ?_
    rintro ⟨stop, c₅⟩ ⟨hstop, hc₅⟩
    have hrest : ∀ r : Option Expr × TokenCursor, (∀ e ∈ r.1, e.Readable) ∧ r.2.Worded →
        Ensures ExprRead (do
          let b ← expressionWith fuel (← r.2.expectKeyword .inWord)
          .ok (.loop counter start stop r.1 b.1 (c.span.to b.2.lastSpan), b.2)) := by
      rintro ⟨step, c₆⟩ ⟨hstep, hc₆⟩
      refine (hc₆.expectKeyword .inWord).bind fun c₇ hc₇ => (ih.expression hc₇).bind ?_
      rintro ⟨body, c₈⟩ ⟨hbody, hc₈⟩
      exact .ok ⟨.loop hstart hstop hstep hbody _ _, hc₈⟩
    refine .ite (fun _ => (ih.expression hc₅.advance).bind ?_) fun _ =>
      (Ensures.ok ⟨by simp, hc₅⟩).bind hrest
    rintro ⟨e, c₆⟩ ⟨he, hc₆⟩
    exact (Ensures.ok ⟨by simpa using he, hc₆⟩).bind hrest
  · refine (ih.bindings hc.advance).bind ?_
    rintro ⟨names, c₁⟩ ⟨hnames, hc₁⟩
    refine (hc₁.expectKeyword .inWord).bind fun c₂ hc₂ => (ih.expression hc₂).bind ?_
    rintro ⟨body, c₃⟩ ⟨hbody, hc₃⟩
    exact .ok ⟨.locals hnames hbody _, hc₃⟩
  · exact .fail

theorem Reads.arguments_succ (ih : Reads fuel) (hc : c.Worded) :
    Ensures (fun r => (∀ e ∈ r.1, e.Readable) ∧ r.2.Worded) (Parse.arguments (fuel + 1) c) := by
  rw [Parse.arguments]
  refine (ih.expression hc).bind ?_
  rintro ⟨e, c₁⟩ ⟨he, hc₁⟩
  refine .ite (fun _ => .ok ⟨by simpa using he, hc₁⟩) fun _ => ?_
  refine (hc₁.expectChar ',').bind fun c₂ hc₂ => (ih.arguments hc₂).bind ?_
  rintro ⟨es, c₃⟩ ⟨hes, hc₃⟩
  exact .ok ⟨by simpa using ⟨he, hes⟩, hc₃⟩

theorem Reads.bindings_succ (ih : Reads fuel) (hc : c.Worded) :
    Ensures (fun r => (∀ b ∈ r.1, ∀ e ∈ b.2, e.Readable) ∧ r.2.Worded)
      (Parse.bindings (fuel + 1) c) := by
  rw [Parse.bindings]
  refine (hc.expectIdentifier .variableName).bind ?_
  rintro ⟨name, c₁⟩ ⟨-, hc₁⟩
  have hrest : ∀ r : Option Expr × TokenCursor, (∀ e ∈ r.1, e.Readable) ∧ r.2.Worded →
      Ensures (fun r => (∀ b ∈ r.1, ∀ e ∈ b.2, e.Readable) ∧ r.2.Worded)
        (if r.2.isChar ',' then do
          let others ← Parse.bindings fuel r.2.advance
          .ok ((name, r.1) :: others.1, others.2)
        else .ok ([(name, r.1)], r.2)) := by
    rintro ⟨value, c₂⟩ ⟨hvalue, hc₂⟩
    refine .ite (fun _ => (ih.bindings hc₂.advance).bind ?_) fun _ => .ok ⟨?_, hc₂⟩
    · rintro ⟨rest, c₃⟩ ⟨hrest, hc₃⟩
      exact .ok ⟨List.forall_mem_cons.mpr ⟨hvalue, hrest⟩, hc₃⟩
    · exact List.forall_mem_cons.mpr ⟨hvalue, by simp⟩
  refine .ite (fun _ => (ih.expression hc₁.advance).bind ?_) fun _ =>
    (Ensures.ok ⟨by simp, hc₁⟩).bind hrest
  rintro ⟨e, c₂⟩ ⟨he, hc₂⟩
  exact (Ensures.ok ⟨by simpa using he, hc₂⟩).bind hrest

end

theorem reads (fuel : Nat) : Reads fuel := by
  induction fuel with
  | zero => exact reads_zero
  | succ fuel ih =>
    exact ⟨ih.expression_succ, ih.operators_succ, ih.primary_succ, ih.arguments_succ,
      ih.bindings_succ⟩

end Parse

-- ---------------------------------------------------------------------------
-- Statements
-- ---------------------------------------------------------------------------

/-- A statement that has a word for a name and whose expressions can be written. -/
def Statement.Readable : Statement → Prop
  | .definition proto body => IsWord proto.name ∧ body.Readable
  | .declaration proto => IsWord proto.name
  | .expression e => e.Readable

namespace Parse

theorem parameters_worded (function : String) {last : Option Token} {rest : List Token}
    (hrest : ∀ t ∈ rest, t.Worded) :
    Ensures (fun r => r.2.Worded) (parameters function last rest) := by
  induction rest generalizing last with
  | nil => exact .fail
  | cons t rest ih =>
    obtain ⟨ht, hrest⟩ := List.forall_mem_cons.mp hrest
    rw [parameters]
    split
    · refine (ih hrest).bind ?_
      rintro ⟨names, c⟩ hc
      exact .ok hc
    · exact ih hrest
    · exact .ok ⟨hrest, by simpa using ht⟩
    · exact .fail

section
variable {c : TokenCursor}

theorem prototype_worded (hc : c.Worded) :
    Ensures (fun r => IsWord r.1.name ∧ r.2.Worded) (prototype c) := by
  refine (hc.expectIdentifier .functionName).bind ?_
  rintro ⟨name, afterName⟩ ⟨hname, hafter⟩
  refine (hafter.expectChar '(').bind fun inner hinner => ?_
  refine (parameters_worded name hinner.rest).bind ?_
  rintro ⟨params, close⟩ hclose
  exact .ok ⟨hname, hclose⟩

theorem statementBody_worded (hc : c.Worded) :
    Ensures (fun r => r.1.Readable ∧ r.2.Worded) (statementBody c) := by
  unfold statementBody
  split
  · refine (prototype_worded hc.advance).bind ?_
    rintro ⟨proto, c₁⟩ ⟨hproto, hc₁⟩
    refine ((reads _).expression hc₁).bind ?_
    rintro ⟨body, c₂⟩ ⟨hbody, hc₂⟩
    exact .ok ⟨⟨hproto, hbody⟩, hc₂⟩
  · refine (prototype_worded hc.advance).bind ?_
    rintro ⟨proto, c₁⟩ ⟨hproto, hc₁⟩
    exact .ok ⟨hproto, hc₁⟩
  · refine ((reads _).expression hc).bind ?_
    rintro ⟨e, c₁⟩ ⟨he, hc₁⟩
    exact .ok ⟨he, hc₁⟩

theorem statement_worded (hc : c.Worded) :
    Ensures (fun r => r.1.Readable ∧ r.2.Worded) (statement c) := by
  refine (statementBody_worded hc).bind ?_
  rintro ⟨s, c₁⟩ ⟨hs, hc₁⟩
  exact .ite (fun _ => .ok ⟨hs, hc₁.advance⟩) fun _ =>
    .ite (fun _ => .ok ⟨hs, hc₁⟩) fun _ => .fail

end

theorem skipStatement_subset (tokens : List Token) : skipStatement tokens ⊆ tokens := by
  induction tokens with
  | nil => exact fun _ ht => ht
  | cons t rest ih =>
    rw [skipStatement]
    split
    · exact fun _ ht => ht
    · split
      · exact fun _ ht => List.mem_cons_of_mem t ht
      · exact fun _ ht => List.mem_cons_of_mem t (ih ht)

theorem statementsWith_readable (fuel : Nat) {tokens : List Token}
    (h : ∀ t ∈ tokens, t.Worded) :
    ∀ r ∈ statementsWith fuel tokens, Ensures Statement.Readable r := by
  induction fuel generalizing tokens with
  | zero => simp [statementsWith]
  | succ fuel ih =>
    rw [statementsWith]
    split
    · simp
    · rename_i t rest hskip
      have hrest : ∀ t' ∈ t :: rest, t'.Worded := fun t' ht' =>
        h t' ((List.dropWhile_suffix _).subset (hskip ▸ ht' : t' ∈ skipEmpty tokens))
      split
      · simp
      · have hread :=
          statement_worded (c := .ofTokens (t :: rest)) ⟨hrest, by simp [TokenCursor.ofTokens]⟩
        split
        · rename_i s c hs
          rw [hs] at hread
          cases hread with
          | ok hread => exact List.forall_mem_cons.mpr ⟨.ok hread.1, ih hread.2.rest⟩
        · rename_i e hs
          rw [hs] at hread
          cases hread with
          | error he =>
            refine List.forall_mem_cons.mpr ⟨.error he, ih fun t' ht' => ?_⟩
            exact hrest t' (skipStatement_subset _ ht')

end Parse

/-- What is read from a text can be written, and what cannot be read is the fault of the text. -/
theorem readable_of_parse (text : String) :
    ∀ r ∈ parseStatements text, Ensures Statement.Readable r := by
  have htokens := tokenize_worded text
  unfold parseStatements
  cases ht : tokenize text with
  | ok tokens =>
    rw [ht] at htokens
    cases htokens with
    | ok htokens => exact Parse.statementsWith_readable _ htokens
  | error e =>
    rw [ht] at htokens
    cases htokens with
    | error he => simpa using Ensures.error he

end NumericJit
