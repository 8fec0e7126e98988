import NumericJit.Proofs.Statement.Segments

/-!
# How statements are read, rule by rule

The functions that read a statement, as rules: which tokens a rule reads, what it reads in between,
and where it leaves the cursor. There is no fuel in the rules. Inside a segment they say exactly
what the functions do: what is read was read by the rules (`Parse.derives`), and what the rules read
is read with whatever fuel the tokens ask for (`ReadsExpression.run`), so `Parse.statement_ok_iff`
holds. Whatever is said about statements that are read can be shown by induction on the rules.
-/

namespace NumericJit

namespace TokenCursor

def kinds (c : TokenCursor) : List TokenKind := c.rest.map Token.kind

structure Next (c : TokenCursor) (k : TokenKind) (c' : TokenCursor) : Prop where
  rest : ∃ t, c.rest = t :: c'.rest ∧ t.kind = k
  advance : c.advance = c'

variable {c c' : TokenCursor}

theorem Next.eq (h : c.Next k c') :
    ∃ last t rest, c = ⟨last, t :: rest⟩ ∧ t.kind = k ∧ c' = ⟨some t, rest⟩ := by
  obtain ⟨⟨t, hrest, hk⟩, rfl⟩ := h
  obtain ⟨last, rest⟩ := c
  cases rest with
  | nil => cases hrest
  | cons u rest =>
    obtain ⟨rfl, -⟩ := List.cons.inj hrest
    exact ⟨last, u, rest, rfl, hk, rfl⟩

theorem Next.kind (h : c.Next k c') : c.kind = k := by
  obtain ⟨t, hrest, hk⟩ := h.rest
  rw [TokenCursor.kind, hrest, ← hk]

theorem Next.length (h : c.Next k c') : c.rest.length = c'.rest.length + 1 := by
  obtain ⟨t, hrest, -⟩ := h.rest
  rw [hrest, List.length_cons]

theorem Next.suffix (h : c.Next k c') : c'.rest <:+ c.rest := by
  obtain ⟨t, hrest, -⟩ := h.rest
  exact ⟨[t], hrest.symm⟩

theorem Next.kinds (h : c.Next k c') : c.kinds = k :: c'.kinds := by
  obtain ⟨t, hrest, hk⟩ := h.rest
  rw [TokenCursor.kinds, hrest, List.map_cons, hk, TokenCursor.kinds]

theorem next_of_kinds (h : c.kinds = k :: ks) : c.Next k c.advance ∧ c.advance.kinds = ks := by
  obtain ⟨last, rest⟩ := c
  cases rest with
  | nil => cases h
  | cons t rest =>
    obtain ⟨hk, hks⟩ := List.cons.inj h
    exact ⟨⟨⟨t, rfl, hk⟩, rfl⟩, hks⟩

theorem kind_of_kinds (h : c.kinds = k :: ks) : c.kind = k := (next_of_kinds h).1.kind

theorem Next.isChar (h : c.Next (.char ch) c') : c.isChar ch = true := decide_eq_true h.kind

theorem isChar_eq_false (h : c.kind ≠ .char ch) : c.isChar ch = false := decide_eq_false h

theorem Next.not_isEmpty (h : c.Next k c') : ¬ c.rest.isEmpty = true := by
  obtain ⟨t, hrest, -⟩ := h.rest
  simp [hrest]

theorem Next.segment {stop : Token} (h : c.Next k c') (hk : k ≠ .char ';') (hk' : k ≠ .endOfInput)
    (hc : IsSegment stop c.rest) : IsSegment stop c'.rest := by
  obtain ⟨last, t, rest, rfl, rfl, rfl⟩ := h.eq
  cases hc with
  | stop hstop => exact absurd hstop (not_or.mpr ⟨hk, hk'⟩)
  | cons _ hrest => exact hrest

theorem Next.expectChar (h : c.Next (.char ch) c') : c.expectChar ch = .ok c' := by
  rw [TokenCursor.expectChar, if_pos h.isChar, h.advance]

theorem Next.expectKeyword (h : c.Next (.keyword word) c') : c.expectKeyword word = .ok c' := by
  rw [TokenCursor.expectKeyword, if_pos h.kind, h.advance]

theorem Next.expectIdentifier (h : c.Next (.identifier name) c') (expected : Expectation) :
    c.expectIdentifier expected = .ok (name, c') := by
  rw [TokenCursor.expectIdentifier, h.kind, h.advance]

end TokenCursor

namespace Parse

/-- Behind an operand of an operator of some precedence, the least precedence of the operators that
are folded into the operand; none if the operand is left as it is. -/
def innerLeast (level : Nat) (next : Char × Nat) : Option Nat :=
  if level < next.2 then some (level + 1)
  else if level = next.2 && isRightAssociative next.1 then some level
  else none

-- ---------------------------------------------------------------------------
-- Rules for expressions
-- ---------------------------------------------------------------------------

mutual
inductive ReadsExpression : TokenCursor → Expr → TokenCursor → Prop where
  | mk (first : ReadsPrimary c lhs c₁) (others : ReadsOperators 0 lhs c₁ e c₂) :
    ReadsExpression c e c₂

inductive ReadsOperators : Nat → Expr → TokenCursor → Expr → TokenCursor → Prop where
  | none (h : ∀ found ∈ c.operator?, found.2 < least) : ReadsOperators least lhs c lhs c
  | more (hop : c.operator? = some (op, level)) (hlevel : least ≤ level)
    (hnext : c.Next (.char op) c₁) (first : ReadsPrimary c₁ operand c₂)
    (inner : ReadsOperand level operand c₂ rhs c₃)
    (others : ReadsOperators least (.binary op lhs rhs (lhs.span.to rhs.span)) c₃ e c₄) :
    ReadsOperators least lhs c e c₄

inductive ReadsOperand : Nat → Expr → TokenCursor → Expr → TokenCursor → Prop where
  | alone (h : c.operator?.bind (innerLeast level) = none) : ReadsOperand level first c first c
  | folded (h : c.operator?.bind (innerLeast level) = some least)
    (others : ReadsOperators least first c e c₁) : ReadsOperand level first c e c₁

inductive ReadsPrimary : TokenCursor → Expr → TokenCursor → Prop where
  | number (h : c.Next (.number value) c₁) : ReadsPrimary c (.number value c.span) c₁
  | variable (h : c.Next (.identifier name) c₁) (hopen : c₁.kind ≠ .char '(') :
    ReadsPrimary c (.variable name c.span) c₁
  | call (h : c.Next (.identifier name) c₁) (hopen : c₁.Next (.char '(') c₂)
    (hargs : ReadsArguments c₂ args c₃) (hclose : c₃.Next (.char ')') c₄) :
    ReadsPrimary c (.call name args (c.span.to c₄.lastSpan)) c₄
  | parens (hopen : c.Next (.char '(') c₁) (he : ReadsExpression c₁ e c₂)
    (hclose : c₂.Next (.char ')') c₃) : ReadsPrimary c e c₃
  | branch (hif : c.Next (.keyword .ifWord) c₁) (hcondition : ReadsExpression c₁ condition c₂)
    (hthen : c₂.Next (.keyword .thenWord) c₃) (hyes : ReadsExpression c₃ yes c₄)
    (helse : c₄.Next (.keyword .elseWord) c₅) (hno : ReadsExpression c₅ no c₆) :
    ReadsPrimary c (.branch condition yes no (c.span.to c₆.lastSpan)) c₆
  | loop (hfor : c.Next (.keyword .forWord) c₁) (hname : c₁.Next (.identifier counter) c₂)
    (heq : c₂.Next (.char '=') c₃) (hstart : ReadsExpression c₃ start c₄)
    (hcomma : c₄.Next (.char ',') c₅) (hstop : ReadsExpression c₅ stop c₆)
    (hstep : ReadsOptional ',' c₆ step c₇) (hin : c₇.Next (.keyword .inWord) c₈)
    (hbody : ReadsExpression c₈ body c₉) :
    ReadsPrimary c (.loop counter start stop step body (c.span.to c₉.lastSpan)) c₉
  | locals (hvar : c.Next (.keyword .varWord) c₁) (hbindings : ReadsBindings c₁ bound c₂)
    (hin : c₂.Next (.keyword .inWord) c₃) (hbody : ReadsExpression c₃ body c₄) :
    ReadsPrimary c (.locals bound body (c.span.to c₄.lastSpan)) c₄

inductive ReadsArguments : TokenCursor → List Expr → TokenCursor → Prop where
  | none (h : c.kind = .char ')') : ReadsArguments c [] c
  | some (h : ReadsArgumentList c args c₁) : ReadsArguments c args c₁

inductive ReadsArgumentList : TokenCursor → List Expr → TokenCursor → Prop where
  | last (he : ReadsExpression c e c₁) (hclose : c₁.kind = .char ')') :
    ReadsArgumentList c [e] c₁
  | more (he : ReadsExpression c e c₁) (hcomma : c₁.Next (.char ',') c₂)
    (hrest : ReadsArgumentList c₂ es c₃) : ReadsArgumentList c (e :: es) c₃

inductive ReadsOptional : Char → TokenCursor → Option Expr → TokenCursor → Prop where
  | none (h : c.kind ≠ .char ch) : ReadsOptional ch c none c
  | some (h : c.Next (.char ch) c₁) (he : ReadsExpression c₁ e c₂) :
    ReadsOptional ch c (some e) c₂

inductive ReadsBindings : TokenCursor → List (String × Option Expr) → TokenCursor → Prop where
  | last (hname : c.Next (.identifier name) c₁) (hvalue : ReadsOptional '=' c₁ value c₂)
    (hend : c₂.kind ≠ .char ',') : ReadsBindings c [(name, value)] c₂
  | more (hname : c.Next (.identifier name) c₁) (hvalue : ReadsOptional '=' c₁ value c₂)
    (hcomma : c₂.Next (.char ',') c₃) (hrest : ReadsBindings c₃ bound c₄) :
    ReadsBindings c ((name, value) :: bound) c₄
end

mutual
theorem ReadsExpression.length : ReadsExpression c e c' → c'.rest.length < c.rest.length
  | .mk first others => Nat.lt_of_le_of_lt others.length first.length

theorem ReadsOperators.length : ReadsOperators least lhs c e c' → c'.rest.length ≤ c.rest.length
  | .none _ => Nat.le_refl _
  | .more _ _ hnext first inner others => by
    have := hnext.length
    have := first.length
    have := inner.length
    have := others.length
    omega

theorem ReadsOperand.length : ReadsOperand level first c e c' → c'.rest.length ≤ c.rest.length
  | .alone _ => Nat.le_refl _
  | .folded _ others => others.length

theorem ReadsPrimary.length : ReadsPrimary c e c' → c'.rest.length < c.rest.length
  | .number h => by have := h.length; omega
  | .variable h _ => by have := h.length; omega
  | .call h hopen hargs hclose => by
    have := h.length
    have := hopen.length
    have := hargs.length
    have := hclose.length
    omega
  | .parens hopen he hclose => by
    have := hopen.length
    have := he.length
    have := hclose.length
    omega
  | .branch hif hcondition hthen hyes helse hno => by
    have := hif.length
    have := hcondition.length
    have := hthen.length
    have := hyes.length
    have := helse.length
    have := hno.length
    omega
  | .loop hfor hname heq hstart hcomma hstop hstep hin hbody => by
    have := hfor.length
    have := hname.length
    have := heq.length
    have := hstart.length
    have := hcomma.length
    have := hstop.length
    have := hstep.length
    have := hin.length
    have := hbody.length
    omega
  | .locals hvar hbindings hin hbody => by
    have := hvar.length
    have := hbindings.length
    have := hin.length
    have := hbody.length
    omega

theorem ReadsArguments.length : ReadsArguments c args c' → c'.rest.length ≤ c.rest.length
  | .none _ => Nat.le_refl _
  | .some h => Nat.le_of_lt h.length

theorem ReadsArgumentList.length : ReadsArgumentList c args c' → c'.rest.length < c.rest.length
  | .last he _ => he.length
  | .more he hcomma hrest => by
    have := he.length
    have := hcomma.length
    have := hrest.length
    omega

theorem ReadsOptional.length : ReadsOptional ch c value c' → c'.rest.length ≤ c.rest.length
  | .none _ => Nat.le_refl _
  | .some h he => by
    have := h.length
    have := he.length
    omega

theorem ReadsBindings.length : ReadsBindings c bound c' → c'.rest.length < c.rest.length
  | .last hname hvalue _ => by
    have := hname.length
    have := hvalue.length
    omega
  | .more hname hvalue hcomma hrest => by
    have := hname.length
    have := hvalue.length
    have := hcomma.length
    have := hrest.length
    omega
end

-- ---------------------------------------------------------------------------
-- What the rules read is read
-- ---------------------------------------------------------------------------

def operand (fuel level : Nat) (first : Expr) (c : TokenCursor) :
    Except Failure (Expr × TokenCursor) :=
  match c.operator?.bind (innerLeast level) with
  | none => .ok (first, c)
  | some least => operators fuel least first c

def optional (fuel : Nat) (ch : Char) (c : TokenCursor) :
    Except Failure (Option Expr × TokenCursor) :=
  if c.isChar ch then do
    let (e, c) ← expressionWith fuel c.advance
    .ok (some e, c)
  else .ok (none, c)

def argumentsOf (fuel : Nat) (c : TokenCursor) : Except Failure (List Expr × TokenCursor) :=
  if c.isChar ')' then .ok ([], c) else arguments fuel c

theorem operators_of_operator? (hop : c.operator? = some (op, level)) (hlevel : least ≤ level) :
    operators (fuel + 1) least lhs c = (do
      let (first, c) ← primary fuel c.advance
      let (rhs, c) ← operand fuel level first c
      operators fuel least (.binary op lhs rhs (lhs.span.to rhs.span)) c) := by
  rw [operators, hop]
  dsimp only
  rw [if_neg (Nat.not_lt.mpr hlevel)]
  refine bind_congr fun r => ?_
  dsimp only [operand]
  cases r.2.operator? with
  | none => rfl
  | some next =>
    simp only [Option.bind_some, innerLeast]
    split
    · rfl
    · split <;> rfl

section
variable {c c₁ : TokenCursor}

theorem primary_fail (h : c.kind = .endOfInput ∨ ∃ ch, c.kind = .char ch ∧ ch ≠ '(') :
    primary (fuel + 1) c = c.fail .expression := by
  rw [primary]
  split
  · rfl
  · obtain hk | ⟨ch, hk, hch⟩ := h
    · rw [hk]
    · rw [hk]
      split <;> simp_all

theorem primary_call (h : c.Next (.identifier name) c₁) (hopen : c₁.isChar '(' = true) :
    primary (fuel + 1) c = (do
      let (args, close) ← argumentsOf fuel c₁.advance
      .ok (.call name args (c.span.to close.advance.lastSpan), close.advance)) := by
  rw [primary, if_neg h.not_isEmpty, h.kind, h.advance]
  dsimp only
  rw [if_pos hopen]
  unfold argumentsOf
  split <;> rfl

theorem primary_loop (h : c.Next (.keyword .forWord) c₁) :
    primary (fuel + 1) c = (do
      let (counter, afterName) ← c₁.expectIdentifier .loopVariable
      let (start, afterStart) ← expressionWith fuel (← afterName.expectChar '=')
      let (stop, afterStop) ← expressionWith fuel (← afterStart.expectChar ',')
      let (step, afterStep) ← optional fuel ',' afterStop
      let (body, done) ← expressionWith fuel (← afterStep.expectKeyword .inWord)
      .ok (.loop counter start stop step body (c.span.to done.lastSpan), done)) := by
  rw [primary, if_neg h.not_isEmpty, h.kind, h.advance]
  refine bind_congr fun name => bind_congr fun _ => bind_congr fun start => bind_congr fun _ =>
    bind_congr fun stop => ?_
  dsimp only [optional]
  split
  · rw [bind_assoc]
  · rfl

theorem bindings_succ (fuel : Nat) (c : TokenCursor) :
    bindings (fuel + 1) c = (do
      let (name, c) ← c.expectIdentifier .variableName
      let (value, c) ← optional fuel '=' c
      if c.isChar ',' then do
        let (rest, c) ← bindings fuel c.advance
        .ok ((name, value) :: rest, c)
      else .ok ([(name, value)], c)) := by
  rw [bindings]
  refine bind_congr fun name => ?_
  dsimp only [optional]
  split
  · rw [bind_assoc]
  · rfl

end

theorem ReadsPrimary.kind_ne (h : ReadsPrimary c e c') :
    c.kind ≠ .char ')' ∧ c.kind ≠ .keyword .defWord ∧ c.kind ≠ .keyword .externWord := by
  cases h with
  | number h | «variable» h _ | call h _ _ _ | parens h _ _ | branch h _ _ _ _ _
  | loop h _ _ _ _ _ _ _ _ | locals h _ _ _ => simp [h.kind]

theorem ReadsExpression.kind_ne (h : ReadsExpression c e c') :
    c.kind ≠ .char ')' ∧ c.kind ≠ .keyword .defWord ∧ c.kind ≠ .keyword .externWord := by
  cases h with
  | mk first _ => exact first.kind_ne

theorem ReadsArgumentList.kind_ne (h : ReadsArgumentList c args c') : c.kind ≠ .char ')' := by
  cases h with
  | last he _ | more he _ _ => exact he.kind_ne.1

theorem ReadsArgumentList.close : ReadsArgumentList c args c' → c'.kind = .char ')'
  | .last _ hclose => hclose
  | .more _ _ hrest => hrest.close

mutual
theorem ReadsExpression.run : ReadsExpression c e c' → 3 * c.rest.length ≤ n + 1 →
    expressionWith n c = .ok (e, c')
  | .mk first others, hfuel => by
    have := first.length
    obtain ⟨n, rfl⟩ : ∃ m, n = m + 1 := Nat.exists_eq_add_one.mpr (by omega)
    rw [expressionWith]
    exact bind_ok.mpr ⟨_, first.run (by omega), others.run (by omega) (by omega)⟩

theorem ReadsOperators.run : ReadsOperators least lhs c e c' → 3 * c.rest.length ≤ n + 2 → 0 < n →
    operators n least lhs c = .ok (e, c')
  | .none h, _, hpos => by
    obtain ⟨n, rfl⟩ := Nat.exists_eq_add_one.mpr hpos
    rw [operators]
    cases hop : c.operator? with
    | none => rfl
    | some found => exact if_pos (h found hop)
  | .more hop hlevel hnext first inner others, hfuel, hpos => by
    have := hnext.length
    have := first.length
    have := inner.length
    obtain ⟨n, rfl⟩ := Nat.exists_eq_add_one.mpr hpos
    rw [operators_of_operator? hop hlevel, hnext.advance]
    refine bind_ok.mpr ⟨_, first.run (by omega), ?_⟩
    exact bind_ok.mpr ⟨_, inner.run (by omega) (by omega), others.run (by omega) (by omega)⟩

theorem ReadsOperand.run : ReadsOperand level first c e c' → 3 * c.rest.length ≤ n + 2 → 0 < n →
    operand n level first c = .ok (e, c')
  | .alone h, _, _ => by rw [operand, h]
  | .folded h others, hfuel, hpos => by
    rw [operand, h]
    exact others.run hfuel hpos

theorem ReadsPrimary.run : ReadsPrimary c e c' → 3 * c.rest.length ≤ n + 2 →
    primary n c = .ok (e, c')
  | .number h, hfuel => by
    have := h.length
    obtain ⟨n, rfl⟩ : ∃ m, n = m + 1 := Nat.exists_eq_add_one.mpr (by omega)
    rw [primary, if_neg h.not_isEmpty, h.kind, h.advance]
  | .variable h hopen, hfuel => by
    have := h.length
    obtain ⟨n, rfl⟩ : ∃ m, n = m + 1 := Nat.exists_eq_add_one.mpr (by omega)
    rw [primary, if_neg h.not_isEmpty, h.kind, h.advance]
    dsimp only
    rw [TokenCursor.isChar_eq_false hopen]
    rfl
  | .call h hopen hargs hclose, hfuel => by
    have := h.length
    have := hopen.length
    obtain ⟨n, rfl⟩ : ∃ m, n = m + 1 := Nat.exists_eq_add_one.mpr (by omega)
    rw [primary_call h hopen.isChar, hopen.advance]
    refine bind_ok.mpr ⟨_, hargs.run (by omega), ?_⟩
    dsimp only
    rw [hclose.advance]
  | .parens hopen he hclose, hfuel => by
    have := hopen.length
    obtain ⟨n, rfl⟩ : ∃ m, n = m + 1 := Nat.exists_eq_add_one.mpr (by omega)
    rw [primary, if_neg hopen.not_isEmpty, hopen.kind, hopen.advance]
    exact bind_ok.mpr ⟨_, he.run (by omega), bind_ok.mpr ⟨_, hclose.expectChar, rfl⟩⟩
  | .branch hif hcondition hthen hyes helse hno, hfuel => by
    have := hif.length
    have := hcondition.length
    have := hthen.length
    have := hyes.length
    have := helse.length
    obtain ⟨n, rfl⟩ : ∃ m, n = m + 1 := Nat.exists_eq_add_one.mpr (by omega)
    rw [primary, if_neg hif.not_isEmpty, hif.kind, hif.advance]
    refine bind_ok.mpr ⟨_, hcondition.run (by omega), bind_ok.mpr ⟨_, hthen.expectKeyword, ?_⟩⟩
    refine bind_ok.mpr ⟨_, hyes.run (by omega), bind_ok.mpr ⟨_, helse.expectKeyword, ?_⟩⟩
    exact bind_ok.mpr ⟨_, hno.run (by omega), rfl⟩
  | .loop hfor hname heq hstart hcomma hstop hstep hin hbody, hfuel => by
    have := hfor.length
    have := hname.length
    have := heq.length
    have := hstart.length
    have := hcomma.length
    have := hstop.length
    have := hstep.length
    have := hin.length
    obtain ⟨n, rfl⟩ : ∃ m, n = m + 1 := Nat.exists_eq_add_one.mpr (by omega)
    rw [primary_loop hfor]
    refine bind_ok.mpr ⟨_, hname.expectIdentifier _, bind_ok.mpr ⟨_, heq.expectChar, ?_⟩⟩
    refine bind_ok.mpr ⟨_, hstart.run (by omega), bind_ok.mpr ⟨_, hcomma.expectChar, ?_⟩⟩
    refine bind_ok.mpr ⟨_, hstop.run (by omega), bind_ok.mpr ⟨_, hstep.run (by omega), ?_⟩⟩
    exact bind_ok.mpr ⟨_, hin.expectKeyword, bind_ok.mpr ⟨_, hbody.run (by omega), rfl⟩⟩
  | .locals hvar hbindings hin hbody, hfuel => by
    have := hvar.length
    have := hbindings.length
    have := hin.length
    obtain ⟨n, rfl⟩ : ∃ m, n = m + 1 := Nat.exists_eq_add_one.mpr (by omega)
    rw [primary, if_neg hvar.not_isEmpty, hvar.kind, hvar.advance]
    refine bind_ok.mpr ⟨_, hbindings.run (by omega), bind_ok.mpr ⟨_, hin.expectKeyword, ?_⟩⟩
    exact bind_ok.mpr ⟨_, hbody.run (by omega), rfl⟩

theorem ReadsArguments.run : ReadsArguments c args c' → 3 * c.rest.length ≤ n →
    argumentsOf n c = .ok (args, c')
  | .none h, _ => if_pos (decide_eq_true h)
  | .some h, hfuel => by
    rw [argumentsOf, TokenCursor.isChar_eq_false h.kind_ne]
    exact h.run hfuel

theorem ReadsArgumentList.run : ReadsArgumentList c args c' → 3 * c.rest.length ≤ n →
    arguments n c = .ok (args, c')
  | .last he hclose, hfuel => by
    have := he.length
    obtain ⟨n, rfl⟩ : ∃ m, n = m + 1 := Nat.exists_eq_add_one.mpr (by omega)
    rw [arguments]
    exact bind_ok.mpr ⟨_, he.run hfuel, if_pos (decide_eq_true hclose)⟩
  | .more he hcomma hrest, hfuel => by
    have := he.length
    have := hcomma.length
    obtain ⟨n, rfl⟩ : ∃ m, n = m + 1 := Nat.exists_eq_add_one.mpr (by omega)
    rw [arguments]
    refine bind_ok.mpr ⟨_, he.run hfuel, ?_⟩
    dsimp only
    rw [TokenCursor.isChar_eq_false (by rw [hcomma.kind]; decide)]
    exact bind_ok.mpr ⟨_, hcomma.expectChar, bind_ok.mpr ⟨_, hrest.run (by omega), rfl⟩⟩

theorem ReadsOptional.run : ReadsOptional ch c value c' → 3 * c.rest.length ≤ n + 2 →
    optional n ch c = .ok (value, c')
  | .none h, _ => if_neg (Bool.eq_false_iff.mp (TokenCursor.isChar_eq_false h))
  | .some h he, hfuel => by
    have := h.length
    rw [optional, if_pos h.isChar, h.advance]
    exact bind_ok.mpr ⟨_, he.run (by omega), rfl⟩

theorem ReadsBindings.run : ReadsBindings c bound c' → 3 * c.rest.length ≤ n + 2 →
    bindings n c = .ok (bound, c')
  | .last hname hvalue hend, hfuel => by
    have := hname.length
    obtain ⟨n, rfl⟩ : ∃ m, n = m + 1 := Nat.exists_eq_add_one.mpr (by omega)
    rw [bindings_succ]
    refine bind_ok.mpr ⟨_, hname.expectIdentifier _, bind_ok.mpr ⟨_, hvalue.run (by omega), ?_⟩⟩
    exact if_neg (Bool.eq_false_iff.mp (TokenCursor.isChar_eq_false hend))
  | .more hname hvalue hcomma hrest, hfuel => by
    have := hname.length
    have := hvalue.length
    have := hcomma.length
    obtain ⟨n, rfl⟩ : ∃ m, n = m + 1 := Nat.exists_eq_add_one.mpr (by omega)
    rw [bindings_succ]
    refine bind_ok.mpr ⟨_, hname.expectIdentifier _, bind_ok.mpr ⟨_, hvalue.run (by omega), ?_⟩⟩
    dsimp only
    rw [if_pos hcomma.isChar, hcomma.advance]
    exact bind_ok.mpr ⟨_, hrest.run (by omega), rfl⟩
end

-- ---------------------------------------------------------------------------
-- What is read was read by the rules
-- ---------------------------------------------------------------------------

section
variable {stop : Token} {c : TokenCursor}

theorem next_of_kind (hc : IsSegment stop c.rest) (hk : c.kind = k) (hstop : k ≠ .char ';')
    (hend : k ≠ .endOfInput) : c.Next k c.advance ∧ IsSegment stop c.advance.rest := by
  obtain ⟨last, rest⟩ := c
  cases hc with
  | stop h => exact absurd (hk ▸ h) (not_or.mpr ⟨hstop, hend⟩)
  | cons _ hrest => exact ⟨⟨⟨_, rfl, hk⟩, rfl⟩, hrest⟩

theorem next_of_expectChar (hc : IsSegment stop c.rest) (hch : ch ≠ ';')
    (h : c.expectChar ch = .ok c') : c.Next (.char ch) c' ∧ IsSegment stop c'.rest := by
  unfold TokenCursor.expectChar at h
  split at h
  · rename_i his
    cases h
    exact next_of_kind hc (of_decide_eq_true his) (by simpa using hch) nofun
  · cases h

theorem next_of_expectKeyword (hc : IsSegment stop c.rest) (h : c.expectKeyword word = .ok c') :
    c.Next (.keyword word) c' ∧ IsSegment stop c'.rest := by
  unfold TokenCursor.expectKeyword at h
  split at h
  · rename_i hk
    cases h
    exact next_of_kind hc hk nofun nofun
  · cases h

theorem next_of_expectIdentifier (hc : IsSegment stop c.rest)
    (h : c.expectIdentifier expected = .ok (name, c')) :
    c.Next (.identifier name) c' ∧ IsSegment stop c'.rest := by
  unfold TokenCursor.expectIdentifier at h
  split at h
  · rename_i hk
    cases h
    exact next_of_kind hc hk nofun nofun
  · cases h

theorem next_of_operator? (hc : IsSegment stop c.rest) (h : c.operator? = some (op, level)) :
    c.Next (.char op) c.advance ∧ IsSegment stop c.advance.rest := by
  obtain ⟨hk, hne⟩ := kind_of_operator? h
  exact next_of_kind hc hk (by simpa using hne) nofun

end

/-- What the functions that read expressions have done with some fuel, inside a segment. -/
structure Derives (stop : Token) (fuel : Nat) : Prop where
  expression : ∀ {c e c'}, IsSegment stop c.rest → expressionWith fuel c = .ok (e, c') →
    ReadsExpression c e c' ∧ IsSegment stop c'.rest
  operators : ∀ {least lhs c e c'}, IsSegment stop c.rest →
    operators fuel least lhs c = .ok (e, c') →
    ReadsOperators least lhs c e c' ∧ IsSegment stop c'.rest
  primary : ∀ {c e c'}, IsSegment stop c.rest → primary fuel c = .ok (e, c') →
    ReadsPrimary c e c' ∧ IsSegment stop c'.rest
  arguments : ∀ {c args c'}, IsSegment stop c.rest → arguments fuel c = .ok (args, c') →
    ReadsArgumentList c args c' ∧ IsSegment stop c'.rest
  bindings : ∀ {c bound c'}, IsSegment stop c.rest → bindings fuel c = .ok (bound, c') →
    ReadsBindings c bound c' ∧ IsSegment stop c'.rest

namespace Derives

variable {stop : Token} {fuel : Nat} {c c' : TokenCursor}

theorem zero (stop : Token) : Derives stop 0 := by
  refine ⟨fun _ h => ?_, fun _ h => ?_, fun _ h => ?_, fun _ h => ?_, fun _ h => ?_⟩ <;> cases h

theorem expression_succ (ih : Derives stop fuel) (hc : IsSegment stop c.rest)
    (h : expressionWith (fuel + 1) c = .ok (e, c')) :
    ReadsExpression c e c' ∧ IsSegment stop c'.rest := by
  rw [expressionWith] at h
  obtain ⟨⟨lhs, c₁⟩, hfirst, hothers⟩ := bind_ok.mp h
  obtain ⟨hfirst, hc₁⟩ := ih.primary hc hfirst
  obtain ⟨hothers, hc'⟩ := ih.operators hc₁ hothers
  exact ⟨.mk hfirst hothers, hc'⟩

theorem operand (ih : Derives stop fuel) (hc : IsSegment stop c.rest)
    (h : Parse.operand fuel level first c = .ok (e, c')) :
    ReadsOperand level first c e c' ∧ IsSegment stop c'.rest := by
  unfold Parse.operand at h
  split at h
  · rename_i hnone
    cases h
    exact ⟨.alone hnone, hc⟩
  · rename_i least hsome
    obtain ⟨hothers, hc'⟩ := ih.operators hc h
    exact ⟨.folded hsome hothers, hc'⟩

theorem operators_succ (ih : Derives stop fuel) (hc : IsSegment stop c.rest)
    (h : Parse.operators (fuel + 1) least lhs c = .ok (e, c')) :
    ReadsOperators least lhs c e c' ∧ IsSegment stop c'.rest := by
  cases hop : c.operator? with
  | none =>
    rw [Parse.operators, hop] at h
    cases h
    exact ⟨.none fun found hfound => by simp [hop] at hfound, hc⟩
  | some found =>
    obtain ⟨op, level⟩ := found
    by_cases hlevel : level < least
    · rw [Parse.operators, hop] at h
      dsimp only at h
      rw [if_pos hlevel] at h
      cases h
      refine ⟨.none fun found hfound => ?_, hc⟩
      obtain rfl := Option.some.inj (hop.symm.trans hfound)
      exact hlevel
    · obtain ⟨hnext, hc₁⟩ := next_of_operator? hc hop
      rw [operators_of_operator? hop (Nat.not_lt.mp hlevel)] at h
      obtain ⟨⟨first, c₂⟩, hfirst, h⟩ := bind_ok.mp h
      obtain ⟨⟨rhs, c₃⟩, hinner, hothers⟩ := bind_ok.mp h
      obtain ⟨hfirst, hc₂⟩ := ih.primary hc₁ hfirst
      obtain ⟨hinner, hc₃⟩ := ih.operand hc₂ hinner
      obtain ⟨hothers, hc'⟩ := ih.operators hc₃ hothers
      exact ⟨.more hop (Nat.not_lt.mp hlevel) hnext hfirst hinner hothers, hc'⟩

theorem argumentsOf (ih : Derives stop fuel) (hc : IsSegment stop c.rest)
    (h : Parse.argumentsOf fuel c = .ok (args, c')) :
    ReadsArguments c args c' ∧ IsSegment stop c'.rest ∧ c'.kind = .char ')' := by
  unfold Parse.argumentsOf at h
  split at h
  · rename_i hclose
    cases h
    exact ⟨.none (of_decide_eq_true hclose), hc, of_decide_eq_true hclose⟩
  · obtain ⟨hargs, hc'⟩ := ih.arguments hc h
    exact ⟨.some hargs, hc', hargs.close⟩

theorem optional (ih : Derives stop fuel) (hch : ch ≠ ';') (hc : IsSegment stop c.rest)
    (h : Parse.optional fuel ch c = .ok (value, c')) :
    ReadsOptional ch c value c' ∧ IsSegment stop c'.rest := by
  unfold Parse.optional at h
  split at h
  · rename_i his
    obtain ⟨hnext, hc₁⟩ := next_of_kind hc (of_decide_eq_true his) (by simpa using hch) nofun
    obtain ⟨⟨e, c₂⟩, he, h⟩ := bind_ok.mp h
    cases h
    obtain ⟨he, hc'⟩ := ih.expression hc₁ he
    exact ⟨.some hnext he, hc'⟩
  · rename_i hnot
    cases h
    exact ⟨.none fun hk => hnot (decide_eq_true hk), hc⟩

theorem branch (ih : Derives stop fuel) (hc : IsSegment stop c₁.rest)
    (hnext : c.Next (.keyword .ifWord) c₁) (h : Parse.primary (fuel + 1) c = .ok (e, c')) :
    ReadsPrimary c e c' ∧ IsSegment stop c'.rest := by
  rw [Parse.primary, if_neg hnext.not_isEmpty, hnext.kind, hnext.advance] at h
  obtain ⟨⟨condition, c₂⟩, hcondition, h⟩ := bind_ok.mp h
  obtain ⟨c₃, hthen, h⟩ := bind_ok.mp h
  obtain ⟨⟨yes, c₄⟩, hyes, h⟩ := bind_ok.mp h
  obtain ⟨c₅, helse, h⟩ := bind_ok.mp h
  obtain ⟨⟨no, c₆⟩, hno, h⟩ := bind_ok.mp h
  cases h
  obtain ⟨hcondition, hc₂⟩ := ih.expression hc hcondition
  obtain ⟨hthen, hc₃⟩ := next_of_expectKeyword hc₂ hthen
  obtain ⟨hyes, hc₄⟩ := ih.expression hc₃ hyes
  obtain ⟨helse, hc₅⟩ := next_of_expectKeyword hc₄ helse
  obtain ⟨hno, hc₆⟩ := ih.expression hc₅ hno
  exact ⟨.branch hnext hcondition hthen hyes helse hno, hc₆⟩

theorem loop (ih : Derives stop fuel) (hc : IsSegment stop c₁.rest)
    (hnext : c.Next (.keyword .forWord) c₁) (h : Parse.primary (fuel + 1) c = .ok (e, c')) :
    ReadsPrimary c e c' ∧ IsSegment stop c'.rest := by
  rw [primary_loop hnext] at h
  obtain ⟨⟨counter, c₂⟩, hname, h⟩ := bind_ok.mp h
  obtain ⟨c₃, heq, h⟩ := bind_ok.mp h
  obtain ⟨⟨start, c₄⟩, hstart, h⟩ := bind_ok.mp h
  obtain ⟨c₅, hcomma, h⟩ := bind_ok.mp h
  obtain ⟨⟨stop, c₆⟩, hstop, h⟩ := bind_ok.mp h
  obtain ⟨⟨step, c₇⟩, hstep, h⟩ := bind_ok.mp h
  obtain ⟨c₈, hin, h⟩ := bind_ok.mp h
  obtain ⟨⟨body, c₉⟩, hbody, h⟩ := bind_ok.mp h
  cases h
  obtain ⟨hname, hc₂⟩ := next_of_expectIdentifier hc hname
  obtain ⟨heq, hc₃⟩ := next_of_expectChar hc₂ (by decide) heq
  obtain ⟨hstart, hc₄⟩ := ih.expression hc₃ hstart
  obtain ⟨hcomma, hc₅⟩ := next_of_expectChar hc₄ (by decide) hcomma
  obtain ⟨hstop, hc₆⟩ := ih.expression hc₅ hstop
  obtain ⟨hstep, hc₇⟩ := ih.optional (by decide) hc₆ hstep
  obtain ⟨hin, hc₈⟩ := next_of_expectKeyword hc₇ hin
  obtain ⟨hbody, hc₉⟩ := ih.expression hc₈ hbody
  exact ⟨.loop hnext hname heq hstart hcomma hstop hstep hin hbody, hc₉⟩

theorem locals (ih : Derives stop fuel) (hc : IsSegment stop c₁.rest)
    (hnext : c.Next (.keyword .varWord) c₁) (h : Parse.primary (fuel + 1) c = .ok (e, c')) :
    ReadsPrimary c e c' ∧ IsSegment stop c'.rest := by
  rw [Parse.primary, if_neg hnext.not_isEmpty, hnext.kind, hnext.advance] at h
  obtain ⟨⟨bound, c₂⟩, hbindings, h⟩ := bind_ok.mp h
  obtain ⟨c₃, hin, h⟩ := bind_ok.mp h
  obtain ⟨⟨body, c₄⟩, hbody, h⟩ := bind_ok.mp h
  cases h
  obtain ⟨hbindings, hc₂⟩ := ih.bindings hc hbindings
  obtain ⟨hin, hc₃⟩ := next_of_expectKeyword hc₂ hin
  obtain ⟨hbody, hc₄⟩ := ih.expression hc₃ hbody
  exact ⟨.locals hnext hbindings hin hbody, hc₄⟩

theorem primary_succ (ih : Derives stop fuel) (hc : IsSegment stop c.rest)
    (h : Parse.primary (fuel + 1) c = .ok (e, c')) :
    ReadsPrimary c e c' ∧ IsSegment stop c'.rest := by
  cases hk : c.kind with
  | number value =>
    obtain ⟨hnext, hc₁⟩ := next_of_kind hc hk nofun nofun
    rw [Parse.primary, if_neg hnext.not_isEmpty, hk] at h
    cases h
    exact ⟨.number hnext, hc₁⟩
  | identifier name =>
    obtain ⟨hnext, hc₁⟩ := next_of_kind hc hk nofun nofun
    by_cases hopen : c.advance.kind = .char '('
    · obtain ⟨hnext', hc₂⟩ := next_of_kind hc₁ hopen (by decide) nofun
      rw [primary_call hnext (decide_eq_true hopen)] at h
      obtain ⟨⟨args, c₃⟩, hargs, h⟩ := bind_ok.mp h
      obtain ⟨hargs, hc₃, hclose⟩ := ih.argumentsOf hc₂ hargs
      obtain ⟨hnext'', hc₄⟩ := next_of_kind hc₃ hclose (by decide) nofun
      cases h
      exact ⟨.call hnext hnext' hargs hnext'', hc₄⟩
    · rw [Parse.primary, if_neg hnext.not_isEmpty, hk] at h
      dsimp only at h
      rw [TokenCursor.isChar_eq_false hopen] at h
      cases h
      exact ⟨.variable hnext hopen, hc₁⟩
  | char ch =>
    by_cases hch : ch = '('
    · subst hch
      obtain ⟨hnext, hc₁⟩ := next_of_kind hc hk (by decide) nofun
      rw [Parse.primary, if_neg hnext.not_isEmpty, hk] at h
      obtain ⟨⟨e, c₂⟩, he, h⟩ := bind_ok.mp h
      obtain ⟨c₃, hclose, h⟩ := bind_ok.mp h
      cases h
      obtain ⟨he, hc₂⟩ := ih.expression hc₁ he
      obtain ⟨hclose, hc₃⟩ := next_of_expectChar hc₂ (by decide) hclose
      exact ⟨.parens hnext he hclose, hc₃⟩
    · rw [primary_fail (.inr ⟨ch, hk, hch⟩)] at h
      cases h
  | keyword word =>
    obtain ⟨hnext, hc₁⟩ := next_of_kind hc hk nofun nofun
    cases word with
    | ifWord => exact ih.branch hc₁ hnext h
    | forWord => exact ih.loop hc₁ hnext h
    | varWord => exact ih.locals hc₁ hnext h
    | _ =>
      rw [Parse.primary, if_neg hnext.not_isEmpty, hk] at h
      cases h
  | endOfInput =>
    rw [primary_fail (.inl hk)] at h
    cases h

theorem arguments_succ (ih : Derives stop fuel) (hc : IsSegment stop c.rest)
    (h : Parse.arguments (fuel + 1) c = .ok (args, c')) :
    ReadsArgumentList c args c' ∧ IsSegment stop c'.rest := by
  rw [Parse.arguments] at h
  obtain ⟨⟨e, c₁⟩, he, h⟩ := bind_ok.mp h
  obtain ⟨he, hc₁⟩ := ih.expression hc he
  dsimp only at h
  split at h
  · rename_i hclose
    cases h
    exact ⟨.last he (of_decide_eq_true hclose), hc₁⟩
  · obtain ⟨c₂, hcomma, h⟩ := bind_ok.mp h
    obtain ⟨⟨es, c₃⟩, hrest, h⟩ := bind_ok.mp h
    cases h
    obtain ⟨hcomma, hc₂⟩ := next_of_expectChar hc₁ (by decide) hcomma
    obtain ⟨hrest, hc₃⟩ := ih.arguments hc₂ hrest
    exact ⟨.more he hcomma hrest, hc₃⟩

theorem bindings_succ (ih : Derives stop fuel) (hc : IsSegment stop c.rest)
    (h : Parse.bindings (fuel + 1) c = .ok (bound, c')) :
    ReadsBindings c bound c' ∧ IsSegment stop c'.rest := by
  rw [Parse.bindings_succ] at h
  obtain ⟨⟨name, c₁⟩, hname, h⟩ := bind_ok.mp h
  obtain ⟨⟨value, c₂⟩, hvalue, h⟩ := bind_ok.mp h
  obtain ⟨hname, hc₁⟩ := next_of_expectIdentifier hc hname
  obtain ⟨hvalue, hc₂⟩ := ih.optional (by decide) hc₁ hvalue
  dsimp only at h
  split at h
  · rename_i hcomma
    obtain ⟨hnext, hc₃⟩ := next_of_kind hc₂ (of_decide_eq_true hcomma) (by decide) nofun
    obtain ⟨⟨rest, c₄⟩, hrest, h⟩ := bind_ok.mp h
    cases h
    obtain ⟨hrest, hc₄⟩ := ih.bindings hc₃ hrest
    exact ⟨.more hname hvalue hnext hrest, hc₄⟩
  · rename_i hend
    cases h
    exact ⟨.last hname hvalue fun hk => hend (decide_eq_true hk), hc₂⟩

end Derives

/-- However much fuel there is, what is read inside a segment was read by the rules. -/
theorem derives (stop : Token) (fuel : Nat) : Derives stop fuel := by
  induction fuel with
  | zero => exact .zero stop
  | succ fuel ih =>
    exact ⟨ih.expression_succ, ih.operators_succ, ih.primary_succ, ih.arguments_succ,
      ih.bindings_succ⟩

-- ---------------------------------------------------------------------------
-- Statements
-- ---------------------------------------------------------------------------

inductive ReadsParameters : TokenCursor → List String → TokenCursor → Prop where
  | close (h : c.Next (.char ')') c₁) : ReadsParameters c [] c₁
  | name (h : c.Next (.identifier name) c₁) (hrest : ReadsParameters c₁ names c₂) :
    ReadsParameters c (name :: names) c₂
  | comma (h : c.Next (.char ',') c₁) (hrest : ReadsParameters c₁ names c₂) :
    ReadsParameters c names c₂

inductive ReadsPrototype : TokenCursor → Prototype → TokenCursor → Prop where
  | mk (hname : c.Next (.identifier name) c₁) (hopen : c₁.Next (.char '(') c₂)
    (hparams : ReadsParameters c₂ params c₃) : ReadsPrototype c ⟨name, params, c.span⟩ c₃

inductive ReadsStatement : TokenCursor → Statement → TokenCursor → Prop where
  | definition (hdef : c.Next (.keyword .defWord) c₁) (hproto : ReadsPrototype c₁ proto c₂)
    (hbody : ReadsExpression c₂ body c₃) : ReadsStatement c (.definition proto body) c₃
  | declaration (hword : c.Next (.keyword .externWord) c₁) (hproto : ReadsPrototype c₁ proto c₂) :
    ReadsStatement c (.declaration proto) c₂
  | expression (he : ReadsExpression c e c₁) : ReadsStatement c (.expression e) c₁

section
variable {stop : Token} {c c' : TokenCursor}

theorem ReadsExpression.expression (h : ReadsExpression c e c') :
    Parse.expression c = .ok (e, c') := by
  refine h.run ?_
  unfold fuelFor
  omega

theorem ReadsParameters.run (h : ReadsParameters c names c') (function : String) :
    parameters function c.last c.rest = .ok (names, c') := by
  induction h with
  | close h =>
    obtain ⟨last, t, rest, rfl, hk, rfl⟩ := h.eq
    simp [parameters, hk]
  | name h hrest ih =>
    obtain ⟨last, t, rest, rfl, hk, rfl⟩ := h.eq
    rw [parameters, hk]
    exact bind_ok.mpr ⟨_, ih, rfl⟩
  | comma h hrest ih =>
    obtain ⟨last, t, rest, rfl, hk, rfl⟩ := h.eq
    simpa [parameters, hk] using ih

theorem reads_parameters (h : parameters function last rest = .ok (names, c')) :
    ReadsParameters ⟨last, rest⟩ names c' := by
  induction rest generalizing last names with
  | nil => cases h
  | cons t rest ih =>
    have hnext : TokenCursor.Next ⟨last, t :: rest⟩ t.kind ⟨some t, rest⟩ := ⟨⟨t, rfl, rfl⟩, rfl⟩
    rw [parameters] at h
    split at h
    · rename_i hk
      obtain ⟨⟨others, c₁⟩, hrest, h⟩ := bind_ok.mp h
      cases h
      exact .name (hk ▸ hnext) (ih hrest)
    · rename_i hk
      exact .comma (hk ▸ hnext) (ih h)
    · rename_i hk
      cases h
      exact .close (hk ▸ hnext)
    · cases h

theorem ReadsParameters.segment (h : ReadsParameters c names c') (hc : IsSegment stop c.rest) :
    IsSegment stop c'.rest := by
  induction h with
  | close h => exact h.segment (by decide) nofun hc
  | name h _ ih => exact ih (h.segment nofun nofun hc)
  | comma h _ ih => exact ih (h.segment (by decide) nofun hc)

theorem ReadsPrototype.run (h : ReadsPrototype c proto c') : prototype c = .ok (proto, c') := by
  cases h with
  | mk hname hopen hparams =>
    refine bind_ok.mpr ⟨_, hname.expectIdentifier _, bind_ok.mpr ⟨_, hopen.expectChar, ?_⟩⟩
    exact bind_ok.mpr ⟨_, hparams.run _, rfl⟩

theorem reads_prototype (hc : IsSegment stop c.rest) (h : prototype c = .ok (proto, c')) :
    ReadsPrototype c proto c' ∧ IsSegment stop c'.rest := by
  obtain ⟨⟨name, c₁⟩, hname, h⟩ := bind_ok.mp h
  obtain ⟨c₂, hopen, h⟩ := bind_ok.mp h
  obtain ⟨⟨params, c₃⟩, hparams, h⟩ := bind_ok.mp h
  cases h
  obtain ⟨hname, hc₁⟩ := next_of_expectIdentifier hc hname
  obtain ⟨hopen, hc₂⟩ := next_of_expectChar hc₁ (by decide) hopen
  have hparams := reads_parameters hparams
  exact ⟨.mk hname hopen hparams, hparams.segment hc₂⟩

theorem ReadsStatement.run (h : ReadsStatement c s c') : statementBody c = .ok (s, c') := by
  unfold statementBody
  cases h with
  | definition hdef hproto hbody =>
    rw [hdef.kind, hdef.advance]
    exact bind_ok.mpr ⟨_, hproto.run, bind_ok.mpr ⟨_, hbody.expression, rfl⟩⟩
  | declaration hword hproto =>
    rw [hword.kind, hword.advance]
    exact bind_ok.mpr ⟨_, hproto.run, rfl⟩
  | expression he =>
    obtain ⟨-, hdef, hword⟩ := he.kind_ne
    split
    · exact absurd ‹_› hdef
    · exact absurd ‹_› hword
    · exact bind_ok.mpr ⟨_, he.expression, rfl⟩

theorem reads_statement (hc : IsSegment stop c.rest) (h : statementBody c = .ok (s, c')) :
    ReadsStatement c s c' ∧ IsSegment stop c'.rest := by
  unfold statementBody at h
  split at h
  · rename_i hk
    obtain ⟨hnext, hc₁⟩ := next_of_kind hc hk nofun nofun
    obtain ⟨⟨proto, c₂⟩, hproto, h⟩ := bind_ok.mp h
    obtain ⟨⟨body, c₃⟩, hbody, h⟩ := bind_ok.mp h
    cases h
    obtain ⟨hproto, hc₂⟩ := reads_prototype hc₁ hproto
    obtain ⟨hbody, hc₃⟩ := (derives stop _).expression hc₂ hbody
    exact ⟨.definition hnext hproto hbody, hc₃⟩
  · rename_i hk
    obtain ⟨hnext, hc₁⟩ := next_of_kind hc hk nofun nofun
    obtain ⟨⟨proto, c₂⟩, hproto, h⟩ := bind_ok.mp h
    cases h
    obtain ⟨hproto, hc₂⟩ := reads_prototype hc₁ hproto
    exact ⟨.declaration hnext hproto, hc₂⟩
  · obtain ⟨⟨e, c₁⟩, he, h⟩ := bind_ok.mp h
    cases h
    obtain ⟨he, hc₁⟩ := (derives stop _).expression hc he
    exact ⟨.expression he, hc₁⟩

/-- A statement is read from a segment exactly if the rules read it up to the end of the segment. -/
theorem statement_ok_iff (hc : IsSegment stop c.rest) :
    (∃ c', statement c = .ok (s, c')) ↔ ∃ c', ReadsStatement c s c' ∧ c'.rest = [stop] := by
  constructor
  · rintro ⟨c', h⟩
    obtain ⟨⟨s', c₁⟩, hbody, h⟩ := bind_ok.mp h
    obtain ⟨hbody, hc₁⟩ := reads_statement hc hbody
    have hend : ∀ {c₂}, (c₁.kind = .char ';' ∨ c₁.kind = .endOfInput) →
        Except.ok (ε := Failure) (s', c₂) = .ok (s, c') →
        ∃ c', ReadsStatement c s c' ∧ c'.rest = [stop] := by
      intro c₂ hk heq
      cases heq
      exact ⟨c₁, hbody, TokenCursor.eq_stop (p := ⟨stop, .identity, []⟩) hc₁ hk⟩
    dsimp only at h
    split at h
    · rename_i his
      exact hend (.inl (of_decide_eq_true his)) h
    · split at h
      · rename_i hk
        exact hend (.inr hk) h
      · cases h
  · rintro ⟨c', hbody, hrest⟩
    have hk : c'.kind = stop.kind := by rw [TokenCursor.kind, hrest]
    obtain hstop | hstop := hc.isStop.2
    · refine ⟨c'.advance, bind_ok.mpr ⟨_, hbody.run, ?_⟩⟩
      exact if_pos (decide_eq_true (hk.trans hstop))
    · refine ⟨c', bind_ok.mpr ⟨_, hbody.run, ?_⟩⟩
      dsimp only
      rw [TokenCursor.isChar_eq_false (by rw [hk, hstop]; exact nofun)]
      exact if_pos (hk.trans hstop)

end

end Parse
end NumericJit
