import NumericJit.Meaning.Places
import NumericJit.Proofs.Runs
import NumericJit.Statement.Parse

/-!
# Statements are read one by one

The tokens of a statement with the `;` or the end of the input behind them are a segment. Whatever
comes after a segment, reading it never looks there: a segment that stands in another text, at other
places and with other tokens behind it, is read in the same way. `Parse.locally` says so of
expressions, with whatever fuel reaches the end of the segment, and `Parse.statement_along` of
statements.
-/

namespace NumericJit

def Token.IsStop (t : Token) : Prop := t.kind = .char ';' ∨ t.kind = .endOfInput

/-- The tokens of one statement, with the one that ends it. -/
inductive IsSegment (stop : Token) : List Token → Prop where
  | stop (h : stop.IsStop) : IsSegment stop [stop]
  | cons (h : ¬ t.IsStop) (hrest : IsSegment stop rest) : IsSegment stop (t :: rest)

theorem IsSegment.length_pos {stop : Token} (h : IsSegment stop tokens) : 0 < tokens.length := by
  cases h <;> exact Nat.succ_pos _

theorem IsSegment.relocate {stop : Token} (m : Relocation) (h : IsSegment stop tokens) :
    IsSegment (stop.relocate m) (tokens.map (Token.relocate m)) := by
  induction h with
  | stop h => exact .stop h
  | cons h hrest ih => exact .cons h ih

theorem IsSegment.eq_of_isStop {stop t : Token} (h : IsSegment stop tokens) (ht : t ∈ tokens)
    (hstop : t.IsStop) : t = stop := by
  induction h with
  | stop h => exact List.mem_singleton.mp ht
  | cons hnot hrest ih =>
    obtain rfl | ht := List.mem_cons.mp ht
    · exact absurd hstop hnot
    · exact ih ht

theorem IsSegment.isStop {stop : Token} (h : IsSegment stop tokens) :
    stop ∈ tokens ∧ stop.IsStop := by
  induction h with
  | stop h => exact ⟨List.mem_singleton_self _, h⟩
  | cons _ _ ih => exact ⟨List.mem_cons_of_mem _ ih.1, ih.2⟩

theorem exists_isSegment {t : Token} (ht : t ∈ tokens) (hstop : t.IsStop) :
    ∃ stop segment rest, tokens = segment ++ rest ∧ IsSegment stop segment := by
  induction tokens with
  | nil => cases ht
  | cons u tokens ih =>
    by_cases hu : u.IsStop
    · exact ⟨u, [u], tokens, rfl, .stop hu⟩
    · obtain rfl | ht := List.mem_cons.mp ht
      · exact absurd hstop hu
      · obtain ⟨stop, segment, rest, rfl, hsegment⟩ := ih ht
        exact ⟨stop, u :: segment, rest, rfl, .cons hu hsegment⟩

/-- A segment in another text: which token ends it, how the places change, and what comes behind. -/
structure Placement where
  stop : Token
  move : Relocation
  behind : List Token

/-- The tokens from the next statement on. The end of the input is never left behind. -/
def Placement.next (p : Placement) : List Token :=
  if p.stop.kind = .char ';' then p.behind else p.stop.relocate p.move :: p.behind

theorem Placement.next_of_semicolon {p : Placement} (h : p.stop.kind = .char ';') :
    p.next = p.behind := if_pos h

theorem Placement.next_of_end {p : Placement} (h : p.stop.kind = .endOfInput) :
    p.next = p.stop.relocate p.move :: p.behind := if_neg (by rw [h]; exact nofun)

theorem Placement.next_length_le (p : Placement) : p.next.length ≤ p.behind.length + 1 := by
  unfold Placement.next
  split
  · exact Nat.le_succ _
  · exact Nat.le_refl _

-- ---------------------------------------------------------------------------
-- Cursors
-- ---------------------------------------------------------------------------

namespace TokenCursor

def moved (p : Placement) (c : TokenCursor) : TokenCursor :=
  ⟨c.last.map (Token.relocate p.move), c.rest.map (Token.relocate p.move) ++ p.behind⟩

variable {p : Placement} {c : TokenCursor}

theorem moved_kind (h : IsSegment p.stop c.rest) : (c.moved p).kind = c.kind := by
  obtain ⟨last, rest⟩ := c
  cases h <;> rfl

theorem moved_span (h : IsSegment p.stop c.rest) : (c.moved p).span = p.move.span c.span := by
  obtain ⟨last, rest⟩ := c
  cases h <;> rfl

theorem moved_lastSpan (c : TokenCursor) : (c.moved p).lastSpan = p.move.span c.lastSpan := by
  obtain ⟨last, rest⟩ := c
  cases last with
  | none => exact p.move.default_eq.symm
  | some t => rfl

theorem moved_isChar (h : IsSegment p.stop c.rest) (ch : Char) :
    (c.moved p).isChar ch = c.isChar ch := by
  rw [isChar, isChar, moved_kind h]

theorem moved_operator? (h : IsSegment p.stop c.rest) : (c.moved p).operator? = c.operator? := by
  rw [operator?, operator?, moved_kind h]

theorem advance_segment (h : IsSegment p.stop c.rest) (hk : c.kind ≠ .char ';')
    (hk' : c.kind ≠ .endOfInput) :
    IsSegment p.stop c.advance.rest ∧ c.advance.rest.length + 1 = c.rest.length ∧
      (c.moved p).advance = c.advance.moved p := by
  obtain ⟨last, rest⟩ := c
  cases h with
  | stop h => exact absurd h (not_or.mpr ⟨hk, hk'⟩)
  | cons h hrest => exact ⟨hrest, rfl, rfl⟩

theorem eq_stop (h : IsSegment p.stop c.rest) (hk : c.kind = .char ';' ∨ c.kind = .endOfInput) :
    c.rest = [p.stop] := by
  obtain ⟨last, rest⟩ := c
  cases h with
  | stop h => rfl
  | cons hnot hrest => exact absurd hk hnot

theorem moved_advance_rest (h : IsSegment p.stop c.rest) (hk : c.kind = .char ';') :
    (c.moved p).advance.rest = p.next := by
  have hrest := eq_stop h (.inl hk)
  obtain ⟨last, _⟩ := c
  cases hrest
  exact (Placement.next_of_semicolon hk).symm

theorem moved_rest (h : IsSegment p.stop c.rest) (hk : c.kind = .endOfInput) :
    (c.moved p).rest = p.next := by
  have hrest := eq_stop h (.inr hk)
  obtain ⟨last, _⟩ := c
  cases hrest
  exact (Placement.next_of_end hk).symm

end TokenCursor

-- ---------------------------------------------------------------------------
-- Results
-- ---------------------------------------------------------------------------

inductive Along (m : Relocation) (Q : α → α → Prop) :
    Except Failure α → Except Failure α → Prop where
  | ok (h : Q a a') : Along m Q (.ok a) (.ok a')
  | error (f : Failure) : Along m Q (.error f) (.error (f.relocate m))

namespace Along

variable {m : Relocation} {P : α → α → Prop} {Q : β → β → Prop}

theorem bind {x x' : Except Failure α} {k k' : α → Except Failure β} (hx : Along m P x x')
    (hk : ∀ a a', P a a' → Along m Q (k a) (k' a')) : Along m Q (x >>= k) (x' >>= k') := by
  cases hx with
  | ok h => exact hk _ _ h
  | error f => exact .error f

theorem mono {P' : α → α → Prop} {x x' : Except Failure α} (hx : Along m P x x')
    (h : ∀ a a', P a a' → P' a a') : Along m P' x x' := by
  cases hx with
  | ok hp => exact .ok (h _ _ hp)
  | error f => exact .error f

theorem ite {p : Prop} [Decidable p] {x x' y y' : Except Failure β} (hx : p → Along m Q x x')
    (hy : ¬ p → Along m Q y y') :
    Along m Q (if p then x else y) (if p then x' else y') := by
  split
  · exact hx ‹_›
  · exact hy ‹_›

end Along

/-- A cursor of a segment with fewer than `n` tokens, and the same one in another text. -/
structure Moved (p : Placement) (n : Nat) (c c' : TokenCursor) : Prop where
  segment : IsSegment p.stop c.rest
  length : c.rest.length < n
  eq : c' = c.moved p

inductive ReadMoved (p : Placement) (move : α → α) (n : Nat) :
    α × TokenCursor → α × TokenCursor → Prop where
  | mk {c : TokenCursor} (a : α) (segment : IsSegment p.stop c.rest) (length : c.rest.length < n) :
    ReadMoved p move n (a, c) (move a, c.moved p)

def ArgsMoved (p : Placement) (n : Nat) (r r' : List Expr × TokenCursor) : Prop :=
  ReadMoved p (Expr.relocateArgs p.move) n r r' ∧ r.2.isChar ')' = true

theorem ReadMoved.mono {move : α → α} {r r' : α × TokenCursor} (h : ReadMoved p move n r r')
    (hle : n ≤ n') : ReadMoved p move n' r r' := by
  cases h with
  | mk a segment length => exact .mk a segment (Nat.lt_of_lt_of_le length hle)

theorem Moved.read {move : α → α} (h : Moved p n c c') (a : α) :
    ReadMoved p move n (a, c) (move a, c') := by
  obtain ⟨segment, length, rfl⟩ := h
  exact .mk a segment length

section
variable {p : Placement} {c : TokenCursor}

theorem ReadMoved.here {move : α → α} (a : α) (h : IsSegment p.stop c.rest) :
    Along p.move (ReadMoved p move (c.rest.length + 1)) (.ok (a, c)) (.ok (move a, c.moved p)) :=
  .ok (.mk a h (Nat.lt_succ_self _))

theorem fail_along {Q : α → α → Prop} (h : IsSegment p.stop c.rest) (expected : Expectation) :
    Along p.move Q (c.fail expected) ((c.moved p).fail expected) := by
  unfold TokenCursor.fail
  rw [TokenCursor.moved_kind h, TokenCursor.moved_span h]
  exact .error _

theorem advance_moved (p : Placement) (h : IsSegment p.stop c.rest) (hk : c.kind = kind)
    (hstop : kind ≠ .char ';') (hstop' : kind ≠ .endOfInput) :
    Moved p c.rest.length c.advance (c.moved p).advance := by
  obtain ⟨hsegment, hlength, heq⟩ := TokenCursor.advance_segment h (hk ▸ hstop) (hk ▸ hstop')
  exact ⟨hsegment, Nat.lt_of_succ_le (Nat.le_of_eq hlength), heq⟩

theorem kind_of_isChar {c : TokenCursor} (h : c.isChar ch = true) : c.kind = .char ch :=
  of_decide_eq_true h

theorem expectChar_along (h : IsSegment p.stop c.rest) {ch : Char} (hch : ch ≠ ';') :
    Along p.move (Moved p c.rest.length) (c.expectChar ch) ((c.moved p).expectChar ch) := by
  unfold TokenCursor.expectChar
  rw [TokenCursor.moved_isChar h]
  refine .ite (fun his => .ok ?_) fun _ => fail_along h _
  exact advance_moved p h (kind_of_isChar his) (by simpa using hch) nofun

theorem expectKeyword_along (h : IsSegment p.stop c.rest) (word : Keyword) :
    Along p.move (Moved p c.rest.length) (c.expectKeyword word)
      ((c.moved p).expectKeyword word) := by
  unfold TokenCursor.expectKeyword
  rw [TokenCursor.moved_kind h]
  exact .ite (fun hk => .ok (advance_moved p h hk nofun nofun)) fun _ => fail_along h _

theorem expectIdentifier_along (h : IsSegment p.stop c.rest) (expected : Expectation) :
    Along p.move (ReadMoved p id c.rest.length) (c.expectIdentifier expected)
      ((c.moved p).expectIdentifier expected) := by
  unfold TokenCursor.expectIdentifier
  rw [TokenCursor.moved_kind h]
  cases hk : c.kind with
  | identifier name => exact .ok ((advance_moved p h hk nofun nofun).read name)
  | _ => exact fail_along h expected

end

-- ---------------------------------------------------------------------------
-- Expressions
-- ---------------------------------------------------------------------------

theorem Expr.relocate_span (m : Relocation) (e : Expr) :
    (e.relocate m).span = m.span e.span := by
  cases e <;> rfl

namespace Parse

/-- What the functions that read expressions do with some fuel inside a segment. The bounds on the
fuel are those that their calls of each other keep. -/
structure Local (p : Placement) (fuel : Nat) : Prop where
  expression : ∀ {fuel'} {c : TokenCursor}, IsSegment p.stop c.rest → 3 * c.rest.length ≤ fuel + 1 →
    3 * c.rest.length ≤ fuel' + 1 →
    Along p.move (ReadMoved p (Expr.relocate p.move) c.rest.length) (expressionWith fuel c)
      (expressionWith fuel' (c.moved p))
  operators : ∀ {fuel' least lhs} {c : TokenCursor}, IsSegment p.stop c.rest →
    3 * c.rest.length ≤ fuel + 2 → 3 * c.rest.length ≤ fuel' + 2 →
    Along p.move (ReadMoved p (Expr.relocate p.move) (c.rest.length + 1))
      (operators fuel least lhs c)
      (operators fuel' least (lhs.relocate p.move) (c.moved p))
  primary : ∀ {fuel'} {c : TokenCursor}, IsSegment p.stop c.rest → 3 * c.rest.length ≤ fuel + 2 →
    3 * c.rest.length ≤ fuel' + 2 →
    Along p.move (ReadMoved p (Expr.relocate p.move) c.rest.length) (primary fuel c)
      (primary fuel' (c.moved p))
  arguments : ∀ {fuel'} {c : TokenCursor}, IsSegment p.stop c.rest → 3 * c.rest.length ≤ fuel →
    3 * c.rest.length ≤ fuel' →
    Along p.move (ArgsMoved p c.rest.length) (arguments fuel c)
      (arguments fuel' (c.moved p))
  bindings : ∀ {fuel'} {c : TokenCursor}, IsSegment p.stop c.rest → 3 * c.rest.length ≤ fuel + 2 →
    3 * c.rest.length ≤ fuel' + 2 →
    Along p.move (ReadMoved p (Expr.relocateBindings p.move) c.rest.length) (bindings fuel c)
      (bindings fuel' (c.moved p))

section
variable {p : Placement} {fuel fuel' : Nat} {c : TokenCursor}

theorem Local.expression_succ (ih : Local p fuel) (hc : IsSegment p.stop c.rest)
    (h : 3 * c.rest.length ≤ fuel + 2) (h' : 3 * c.rest.length ≤ fuel' + 2) :
    Along p.move (ReadMoved p (Expr.relocate p.move) c.rest.length) (expressionWith (fuel + 1) c)
      (expressionWith (fuel' + 1) (c.moved p)) := by
  rw [expressionWith, expressionWith]
  refine (ih.primary hc h h').bind ?_
  rintro _ _ (@⟨c₁, lhs, hc₁, hlt₁⟩)
  exact (ih.operators hc₁ (by omega) (by omega)).mono fun _ _ hr => hr.mono hlt₁

theorem precedence?_ne (h : precedence? op = some level) : op ≠ ';' := by
  rintro rfl
  cases h

theorem kind_of_operator? (h : c.operator? = some (op, level)) :
    c.kind = .char op ∧ op ≠ ';' := by
  unfold TokenCursor.operator? at h
  split at h
  · rename_i found hk
    obtain ⟨q, hq, heq⟩ := Option.map_eq_some_iff.mp h
    cases heq
    exact ⟨hk, precedence?_ne hq⟩
  · cases h

theorem operator?_moved (p : Placement) (hc : IsSegment p.stop c.rest)
    (hop : c.operator? = some (op, level)) :
    Moved p c.rest.length c.advance (c.moved p).advance := by
  obtain ⟨hk, hne⟩ := kind_of_operator? hop
  exact advance_moved p hc hk (by simpa using hne) nofun

theorem relocate_binary (m : Relocation) (op : Char) (lhs rhs : Expr) :
    Expr.binary op (lhs.relocate m) (rhs.relocate m)
        ((lhs.relocate m).span.to (rhs.relocate m).span) =
      (Expr.binary op lhs rhs (lhs.span.to rhs.span)).relocate m := by
  rw [Expr.relocate, m.to_eq, Expr.relocate_span, Expr.relocate_span]

theorem Local.operators_succ (ih : Local p fuel) {least : Nat} {lhs : Expr}
    (hc : IsSegment p.stop c.rest) (h : 3 * c.rest.length ≤ fuel + 3)
    (h' : 3 * c.rest.length ≤ fuel' + 3) :
    Along p.move (ReadMoved p (Expr.relocate p.move) (c.rest.length + 1))
      (Parse.operators (fuel + 1) least lhs c)
      (Parse.operators (fuel' + 1) least (lhs.relocate p.move) (c.moved p)) := by
  rw [Parse.operators, Parse.operators, TokenCursor.moved_operator? hc]
  cases hop : c.operator? with
  | none => exact ReadMoved.here lhs hc
  | some found =>
    obtain ⟨op, level⟩ := found
    refine .ite (fun _ => ReadMoved.here lhs hc) fun _ => ?_
    obtain ⟨hsegment, hlt, heq⟩ := operator?_moved p hc hop
    rw [heq]
    refine (ih.primary hsegment (by omega) (by omega)).bind ?_
    rintro _ _ (@⟨c₁, first, hc₁, hlt₁⟩)
    have hrest : ∀ r r', ReadMoved p (Expr.relocate p.move) (c₁.rest.length + 1) r r' →
        Along p.move (ReadMoved p (Expr.relocate p.move) (c.rest.length + 1))
          (Parse.operators fuel least (.binary op lhs r.1 (lhs.span.to r.1.span)) r.2)
          (Parse.operators fuel' least
            (.binary op (lhs.relocate p.move) r'.1 ((lhs.relocate p.move).span.to r'.1.span))
            r'.2) := by
      rintro _ _ (@⟨c₂, rhs, hc₂, hlt₂⟩)
      simp only [relocate_binary]
      exact (ih.operators hc₂ (by omega) (by omega)).mono fun _ _ hr => hr.mono (by omega)
    dsimp only
    rw [TokenCursor.moved_operator? hc₁]
    cases c₁.operator? with
    | none => exact (ReadMoved.here first hc₁).bind hrest
    | some next =>
      refine .ite (fun _ => ?_) fun _ => .ite (fun _ => ?_) fun _ =>
        (ReadMoved.here first hc₁).bind hrest
      · exact (ih.operators hc₁ (by omega) (by omega)).bind hrest
      · exact (ih.operators hc₁ (by omega) (by omega)).bind hrest

theorem Local.arguments_succ (ih : Local p fuel) (hc : IsSegment p.stop c.rest)
    (h : 3 * c.rest.length ≤ fuel + 1) (h' : 3 * c.rest.length ≤ fuel' + 1) :
    Along p.move (ArgsMoved p c.rest.length) (Parse.arguments (fuel + 1) c)
      (Parse.arguments (fuel' + 1) (c.moved p)) := by
  rw [Parse.arguments, Parse.arguments]
  refine (ih.expression hc h h').bind ?_
  rintro _ _ (@⟨c₁, e, hc₁, hlt₁⟩)
  dsimp only
  rw [TokenCursor.moved_isChar hc₁]
  refine .ite (fun hclose => .ok ⟨.mk [e] hc₁ hlt₁, hclose⟩) fun _ => ?_
  refine (expectChar_along hc₁ (by decide)).bind ?_
  rintro c₂ _ ⟨hc₂, hlt₂, rfl⟩
  refine (ih.arguments hc₂ (by omega) (by omega)).bind ?_
  rintro _ _ ⟨@⟨c₃, es, hc₃, hlt₃⟩, hclose⟩
  dsimp only
  exact .ok ⟨.mk (e :: es) hc₃ (by omega), hclose⟩

theorem Local.bindings_succ (ih : Local p fuel) (hc : IsSegment p.stop c.rest)
    (h : 3 * c.rest.length ≤ fuel + 3) (h' : 3 * c.rest.length ≤ fuel' + 3) :
    Along p.move (ReadMoved p (Expr.relocateBindings p.move) c.rest.length)
      (Parse.bindings (fuel + 1) c) (Parse.bindings (fuel' + 1) (c.moved p)) := by
  rw [Parse.bindings, Parse.bindings]
  refine (expectIdentifier_along hc .variableName).bind ?_
  rintro _ _ (@⟨c₁, name, hc₁, hlt₁⟩)
  have hrest : ∀ r r', ReadMoved p (Expr.relocateStep p.move) (c₁.rest.length + 1) r r' →
      Along p.move (ReadMoved p (Expr.relocateBindings p.move) c.rest.length)
        (if r.2.isChar ',' then do
          let others ← Parse.bindings fuel r.2.advance
          .ok ((name, r.1) :: others.1, others.2)
        else .ok ([(name, r.1)], r.2))
        (if r'.2.isChar ',' then do
          let others ← Parse.bindings fuel' r'.2.advance
          .ok ((name, r'.1) :: others.1, others.2)
        else .ok ([(name, r'.1)], r'.2)) := by
    rintro _ _ (@⟨c₂, value, hc₂, hlt₂⟩)
    have hbinding : (name, Expr.relocateStep p.move value) =
        Expr.relocateBinding p.move (name, value) := by
      cases value <;> rfl
    dsimp only
    rw [TokenCursor.moved_isChar hc₂, hbinding]
    refine .ite (fun his => ?_) fun _ => .ok (.mk [(name, value)] hc₂ (by omega))
    obtain ⟨hc₃, hlt₃, heq₃⟩ :=
      advance_moved p hc₂ (kind_of_isChar his) (by decide) nofun
    rw [heq₃]
    refine (ih.bindings hc₃ (by omega) (by omega)).bind ?_
    rintro _ _ (@⟨c₄, others, hc₄, hlt₄⟩)
    dsimp only
    exact .ok (.mk ((name, value) :: others) hc₄ (by omega))
  dsimp only [id]
  rw [TokenCursor.moved_isChar hc₁]
  refine .ite (fun his => ?_) fun _ =>
    (ReadMoved.here none hc₁).bind hrest
  obtain ⟨hc₂, hlt₂, heq₂⟩ :=
    advance_moved p hc₁ (kind_of_isChar his) (by decide) nofun
  rw [heq₂]
  refine (ih.expression hc₂ (by omega) (by omega)).bind ?_
  rintro _ _ (@⟨c₃, e, hc₃, hlt₃⟩)
  dsimp only
  exact (Along.ok (.mk (some e) hc₃ (by omega))).bind hrest

theorem Local.call (ih : Local p fuel) (name : String) (span : Span) (hc : IsSegment p.stop c.rest)
    (h : 3 * c.rest.length ≤ fuel) (h' : 3 * c.rest.length ≤ fuel') :
    Along p.move (ReadMoved p (Expr.relocate p.move) c.rest.length)
      (do
        let (args, close) ← if c.isChar ')' then .ok ([], c) else Parse.arguments fuel c
        let close := close.advance
        .ok (.call name args (span.to close.lastSpan), close))
      (do
        let (args, close) ←
          if (c.moved p).isChar ')' then .ok ([], c.moved p)
          else Parse.arguments fuel' (c.moved p)
        let close := close.advance
        .ok (.call name args ((p.move.span span).to close.lastSpan), close)) := by
  have hrest : ∀ r r', ArgsMoved p (c.rest.length + 1) r r' →
      Along p.move (ReadMoved p (Expr.relocate p.move) c.rest.length)
        (.ok (Expr.call name r.1 (span.to r.2.advance.lastSpan), r.2.advance))
        (.ok (Expr.call name r'.1 ((p.move.span span).to r'.2.advance.lastSpan),
          r'.2.advance)) := by
    rintro _ _ ⟨@⟨c₁, args, hc₁, hlt₁⟩, hclose⟩
    obtain ⟨hc₂, hlt₂, heq₂⟩ := advance_moved p hc₁ (kind_of_isChar hclose) (by decide) nofun
    dsimp only
    rw [heq₂, TokenCursor.moved_lastSpan, ← p.move.to_eq]
    exact .ok (.mk (Expr.call name args _) hc₂ (by omega))
  rw [TokenCursor.moved_isChar hc]
  refine .ite (fun hclose => ?_) fun _ => ?_
  · exact (Along.ok ⟨.mk [] hc (Nat.lt_succ_self _), hclose⟩).bind hrest
  · exact ((ih.arguments hc h h').mono fun _ _ hr => ⟨hr.1.mono (Nat.le_succ _), hr.2⟩).bind hrest

theorem Local.branch (ih : Local p fuel) (span : Span) (hc : IsSegment p.stop c.rest)
    (h : 3 * c.rest.length ≤ fuel + 1) (h' : 3 * c.rest.length ≤ fuel' + 1) :
    Along p.move (ReadMoved p (Expr.relocate p.move) c.rest.length)
      (do
        let (condition, afterIf) ← expressionWith fuel c
        let (yes, afterThen) ← expressionWith fuel (← afterIf.expectKeyword .thenWord)
        let (no, done) ← expressionWith fuel (← afterThen.expectKeyword .elseWord)
        .ok (.branch condition yes no (span.to done.lastSpan), done))
      (do
        let (condition, afterIf) ← expressionWith fuel' (c.moved p)
        let (yes, afterThen) ← expressionWith fuel' (← afterIf.expectKeyword .thenWord)
        let (no, done) ← expressionWith fuel' (← afterThen.expectKeyword .elseWord)
        .ok (.branch condition yes no ((p.move.span span).to done.lastSpan), done)) := by
  refine (ih.expression hc h h').bind ?_
  rintro _ _ (@⟨c₁, condition, hc₁, hlt₁⟩)
  refine (expectKeyword_along hc₁ .thenWord).bind ?_
  rintro c₂ _ ⟨hc₂, hlt₂, rfl⟩
  refine (ih.expression hc₂ (by omega) (by omega)).bind ?_
  rintro _ _ (@⟨c₃, yes, hc₃, hlt₃⟩)
  refine (expectKeyword_along hc₃ .elseWord).bind ?_
  rintro c₄ _ ⟨hc₄, hlt₄, rfl⟩
  refine (ih.expression hc₄ (by omega) (by omega)).bind ?_
  rintro _ _ (@⟨c₅, no, hc₅, hlt₅⟩)
  dsimp only
  rw [TokenCursor.moved_lastSpan, ← p.move.to_eq]
  exact .ok (.mk (Expr.branch condition yes no _) hc₅ (by omega))

theorem Local.loop (ih : Local p fuel) (span : Span) (hc : IsSegment p.stop c.rest)
    (h : 3 * c.rest.length ≤ fuel + 1) (h' : 3 * c.rest.length ≤ fuel' + 1) :
    Along p.move (ReadMoved p (Expr.relocate p.move) c.rest.length)
      (do
        let (counter, afterName) ← c.expectIdentifier .loopVariable
        let (start, afterStart) ← expressionWith fuel (← afterName.expectChar '=')
        let (stop, afterStop) ← expressionWith fuel (← afterStart.expectChar ',')
        let (step, afterStep) ←
          if afterStop.isChar ',' then do
            let (e, afterStep) ← expressionWith fuel afterStop.advance
            .ok (some e, afterStep)
          else .ok (none, afterStop)
        let (body, done) ← expressionWith fuel (← afterStep.expectKeyword .inWord)
        .ok (.loop counter start stop step body (span.to done.lastSpan), done))
      (do
        let (counter, afterName) ← (c.moved p).expectIdentifier .loopVariable
        let (start, afterStart) ← expressionWith fuel' (← afterName.expectChar '=')
        let (stop, afterStop) ← expressionWith fuel' (← afterStart.expectChar ',')
        let (step, afterStep) ←
          if afterStop.isChar ',' then do
            let (e, afterStep) ← expressionWith fuel' afterStop.advance
            .ok (some e, afterStep)
          else .ok (none, afterStop)
        let (body, done) ← expressionWith fuel' (← afterStep.expectKeyword .inWord)
        .ok (.loop counter start stop step body ((p.move.span span).to done.lastSpan), done)) := by
  refine (expectIdentifier_along hc .loopVariable).bind ?_
  rintro _ _ (@⟨c₁, counter, hc₁, hlt₁⟩)
  refine (expectChar_along hc₁ (by decide)).bind ?_
  rintro c₂ _ ⟨hc₂, hlt₂, rfl⟩
  refine (ih.expression hc₂ (by omega) (by omega)).bind ?_
  rintro _ _ (@⟨c₃, start, hc₃, hlt₃⟩)
  refine (expectChar_along hc₃ (by decide)).bind ?_
  rintro c₄ _ ⟨hc₄, hlt₄, rfl⟩
  refine (ih.expression hc₄ (by omega) (by omega)).bind ?_
  rintro _ _ (@⟨c₅, stop, hc₅, hlt₅⟩)
  have hrest : ∀ r r', ReadMoved p (Expr.relocateStep p.move) (c₅.rest.length + 1) r r' →
      Along p.move (ReadMoved p (Expr.relocate p.move) c.rest.length)
        (do
          let b ← expressionWith fuel (← r.2.expectKeyword .inWord)
          .ok (Expr.loop counter start stop r.1 b.1 (span.to b.2.lastSpan), b.2))
        (do
          let b ← expressionWith fuel' (← r'.2.expectKeyword .inWord)
          .ok (Expr.loop counter (start.relocate p.move) (stop.relocate p.move) r'.1 b.1
            ((p.move.span span).to b.2.lastSpan), b.2)) := by
    rintro _ _ (@⟨c₆, step, hc₆, hlt₆⟩)
    refine (expectKeyword_along hc₆ .inWord).bind ?_
    rintro c₇ _ ⟨hc₇, hlt₇, rfl⟩
    refine (ih.expression hc₇ (by omega) (by omega)).bind ?_
    rintro _ _ (@⟨c₈, body, hc₈, hlt₈⟩)
    dsimp only
    rw [TokenCursor.moved_lastSpan, ← p.move.to_eq]
    exact .ok (.mk (Expr.loop counter start stop step body _) hc₈ (by omega))
  dsimp only [id]
  rw [TokenCursor.moved_isChar hc₅]
  refine .ite (fun hcomma => ?_) fun _ =>
    (ReadMoved.here none hc₅).bind hrest
  obtain ⟨hc₆, hlt₆, heq₆⟩ := advance_moved p hc₅ (kind_of_isChar hcomma) (by decide) nofun
  rw [heq₆]
  refine (ih.expression hc₆ (by omega) (by omega)).bind ?_
  rintro _ _ (@⟨c₇, e, hc₇, hlt₇⟩)
  dsimp only
  exact (Along.ok (.mk (some e) hc₇ (by omega))).bind hrest

theorem isEmpty_eq_false {stop : Token} (h : IsSegment stop tokens) : tokens.isEmpty = false := by
  cases h <;> rfl

theorem moved_isEmpty (h : IsSegment p.stop c.rest) : (c.moved p).rest.isEmpty = false := by
  obtain ⟨last, rest⟩ := c
  cases h <;> rfl

theorem Local.primary_succ (ih : Local p fuel) (hc : IsSegment p.stop c.rest)
    (h : 3 * c.rest.length ≤ fuel + 3) (h' : 3 * c.rest.length ≤ fuel' + 3) :
    Along p.move (ReadMoved p (Expr.relocate p.move) c.rest.length) (Parse.primary (fuel + 1) c)
      (Parse.primary (fuel' + 1) (c.moved p)) := by
  rw [Parse.primary, Parse.primary, TokenCursor.moved_kind hc, TokenCursor.moved_span hc,
    isEmpty_eq_false hc, moved_isEmpty hc]
  simp only [Bool.false_eq_true, if_false]
  split
  · rename_i value hk
    exact .ok ((advance_moved p hc hk nofun nofun).read (Expr.number value c.span))
  · rename_i name hk
    obtain ⟨hc₁, hlt₁, heq₁⟩ := advance_moved p hc hk nofun nofun
    rw [heq₁, TokenCursor.moved_isChar hc₁]
    refine .ite (fun hopen => ?_) fun _ => .ok (.mk (Expr.variable name c.span) hc₁ hlt₁)
    obtain ⟨hc₂, hlt₂, heq₂⟩ := advance_moved p hc₁ (kind_of_isChar hopen) (by decide) nofun
    rw [heq₂]
    exact (ih.call name c.span hc₂ (by omega) (by omega)).mono fun _ _ hr => hr.mono (by omega)
  · rename_i hk
    obtain ⟨hc₁, hlt₁, heq₁⟩ := advance_moved p hc hk (by decide) nofun
    rw [heq₁]
    refine (ih.expression hc₁ (by omega) (by omega)).bind ?_
    rintro _ _ (@⟨c₂, e, hc₂, hlt₂⟩)
    refine (expectChar_along hc₂ (by decide)).bind ?_
    rintro c₃ _ ⟨hc₃, hlt₃, rfl⟩
    exact .ok (.mk e hc₃ (by omega))
  · rename_i hk
    obtain ⟨hc₁, hlt₁, heq₁⟩ := advance_moved p hc hk nofun nofun
    rw [heq₁]
    exact (ih.branch c.span hc₁ (by omega) (by omega)).mono fun _ _ hr => hr.mono (by omega)
  · rename_i hk
    obtain ⟨hc₁, hlt₁, heq₁⟩ := advance_moved p hc hk nofun nofun
    rw [heq₁]
    exact (ih.loop c.span hc₁ (by omega) (by omega)).mono fun _ _ hr => hr.mono (by omega)
  · rename_i hk
    obtain ⟨hc₁, hlt₁, heq₁⟩ := advance_moved p hc hk nofun nofun
    rw [heq₁]
    refine (ih.bindings hc₁ (by omega) (by omega)).bind ?_
    rintro _ _ (@⟨c₂, names, hc₂, hlt₂⟩)
    refine (expectKeyword_along hc₂ .inWord).bind ?_
    rintro c₃ _ ⟨hc₃, hlt₃, rfl⟩
    refine (ih.expression hc₃ (by omega) (by omega)).bind ?_
    rintro _ _ (@⟨c₄, body, hc₄, hlt₄⟩)
    dsimp only
    rw [TokenCursor.moved_lastSpan, ← p.move.to_eq]
    exact .ok (.mk (Expr.locals names body _) hc₄ (by omega))
  · exact fail_along hc _

/-- Inside a segment, all that matters to reading an expression is the kinds of the tokens. -/
theorem locally (p : Placement) (fuel : Nat) : Local p fuel := by
  induction fuel with
  | zero =>
    have hnone : ∀ {c : TokenCursor}, IsSegment p.stop c.rest → ¬ 3 * c.rest.length ≤ 2 :=
      fun hc hle => absurd hc.length_pos (by omega)
    refine ⟨fun hc h => ?_, fun hc h => ?_, fun hc h => ?_, fun hc h => ?_, fun hc h => ?_⟩ <;>
      exact absurd (by omega) (hnone hc)
  | succ fuel ih =>
    -- the other run has fuel left too, as every segment has a token
    have hsucc : ∀ {c : TokenCursor} {fuel' : Nat}, IsSegment p.stop c.rest →
        3 * c.rest.length ≤ fuel' + 2 → ∃ n, fuel' = n + 1 := fun {c fuel'} hc hle =>
      Nat.exists_eq_add_one.mpr (by have := hc.length_pos; omega)
    refine ⟨fun hc h h' => ?_, fun hc h h' => ?_, fun hc h h' => ?_, fun hc h h' => ?_,
      fun hc h h' => ?_⟩
    · obtain ⟨n, rfl⟩ := hsucc hc (Nat.le_succ_of_le h')
      exact ih.expression_succ hc h h'
    · obtain ⟨n, rfl⟩ := hsucc hc h'
      exact ih.operators_succ hc h h'
    · obtain ⟨n, rfl⟩ := hsucc hc h'
      exact ih.primary_succ hc h h'
    · obtain ⟨n, rfl⟩ := hsucc hc (Nat.le_add_right_of_le h')
      exact ih.arguments_succ hc h h'
    · obtain ⟨n, rfl⟩ := hsucc hc h'
      exact ih.bindings_succ hc h h'

end

-- ---------------------------------------------------------------------------
-- Statements
-- ---------------------------------------------------------------------------

section
variable {p : Placement} {c : TokenCursor}

theorem expression_along (hc : IsSegment p.stop c.rest) :
    Along p.move (ReadMoved p (Expr.relocate p.move) c.rest.length) (expression c)
      (expression (c.moved p)) := by
  refine (locally p _).expression hc ?_ ?_
  · unfold fuelFor
    omega
  · simp only [fuelFor, TokenCursor.moved, List.length_append, List.length_map]
    omega

theorem parameters_stop {t : Token} (h : t.IsStop) (function : String) (last : Option Token)
    (rest : List Token) :
    parameters function last (t :: rest) =
      TokenCursor.fail ⟨last, t :: rest⟩ (.parameter function) := by
  obtain hk | hk := h
  · rw [parameters, hk]
    rfl
  · rw [parameters, hk]

theorem parameters_along (function : String) (last : Option Token) {rest : List Token}
    (h : IsSegment p.stop rest) :
    Along p.move (ReadMoved p id rest.length) (parameters function last rest)
      (parameters function (last.map (Token.relocate p.move))
        (rest.map (Token.relocate p.move) ++ p.behind)) := by
  have hfail : ∀ {tokens}, IsSegment p.stop tokens → ∀ last,
      Along p.move (ReadMoved p id tokens.length)
        (TokenCursor.fail (α := List String × TokenCursor) ⟨last, tokens⟩ (.parameter function))
        ((TokenCursor.moved p ⟨last, tokens⟩).fail (.parameter function)) :=
    fun hseg last => fail_along (c := ⟨last, _⟩) hseg _
  induction h generalizing last with
  | stop h =>
    rw [List.map_cons, List.cons_append, parameters_stop h,
      parameters_stop (t := p.stop.relocate p.move) h]
    exact hfail (.stop h) last
  | @cons rest t h hrest ih =>
    rw [List.map_cons, List.cons_append, parameters, parameters]
    dsimp only [Token.relocate]
    split
    · refine (ih (some t)).bind ?_
      rintro _ _ (@⟨c, names, hc, hlt⟩)
      exact .ok (.mk (_ :: names) hc (Nat.lt_succ_of_lt hlt))
    · exact (ih (some t)).mono fun _ _ hr => hr.mono (Nat.le_succ _)
    · exact .ok (.mk (c := ⟨some t, rest⟩) [] hrest (Nat.lt_succ_self _))
    · exact hfail (.cons h hrest) last

theorem prototype_along (hc : IsSegment p.stop c.rest) :
    Along p.move (ReadMoved p (Prototype.relocate p.move) c.rest.length) (prototype c)
      (prototype (c.moved p)) := by
  unfold prototype
  refine (expectIdentifier_along hc .functionName).bind ?_
  rintro _ _ (@⟨c₁, name, hc₁, hlt₁⟩)
  refine (expectChar_along hc₁ (by decide)).bind ?_
  rintro c₂ _ ⟨hc₂, hlt₂, rfl⟩
  refine (parameters_along name c₂.last hc₂).bind ?_
  rintro _ _ (@⟨c₃, params, hc₃, hlt₃⟩)
  dsimp only [id]
  rw [TokenCursor.moved_span hc]
  exact .ok (.mk (⟨name, params, c.span⟩ : Prototype) hc₃ (by omega))

theorem statementBody_along (hc : IsSegment p.stop c.rest) :
    Along p.move (ReadMoved p (Statement.relocate p.move) c.rest.length) (statementBody c)
      (statementBody (c.moved p)) := by
  unfold statementBody
  rw [TokenCursor.moved_kind hc]
  split
  · rename_i hk
    obtain ⟨hc₁, hlt₁, heq₁⟩ := advance_moved p hc hk nofun nofun
    rw [heq₁]
    refine (prototype_along hc₁).bind ?_
    rintro _ _ (@⟨c₂, proto, hc₂, hlt₂⟩)
    refine (expression_along hc₂).bind ?_
    rintro _ _ (@⟨c₃, body, hc₃, hlt₃⟩)
    exact .ok (.mk (Statement.definition proto body) hc₃ (by omega))
  · rename_i hk
    obtain ⟨hc₁, hlt₁, heq₁⟩ := advance_moved p hc hk nofun nofun
    rw [heq₁]
    refine (prototype_along hc₁).bind ?_
    rintro _ _ (@⟨c₂, proto, hc₂, hlt₂⟩)
    exact .ok (.mk (Statement.declaration proto) hc₂ (by omega))
  · refine (expression_along hc).bind ?_
    rintro _ _ (@⟨c₁, e, hc₁, hlt₁⟩)
    exact .ok (.mk (Statement.expression e) hc₁ hlt₁)

def StatementMoved (p : Placement) (r r' : Statement × TokenCursor) : Prop :=
  r'.1 = r.1.relocate p.move ∧ r'.2.rest = p.next

theorem statement_along (hc : IsSegment p.stop c.rest) :
    Along p.move (StatementMoved p) (statement c) (statement (c.moved p)) := by
  unfold statement
  refine (statementBody_along hc).bind ?_
  rintro _ _ (@⟨c₁, s, hc₁, hlt₁⟩)
  dsimp only
  rw [TokenCursor.moved_isChar hc₁, TokenCursor.moved_kind hc₁]
  refine .ite (fun hchar => .ok ⟨rfl, ?_⟩) fun _ => .ite (fun hend => .ok ⟨rfl, ?_⟩) fun _ =>
    fail_along hc₁ _
  · exact TokenCursor.moved_advance_rest hc₁ (kind_of_isChar hchar)
  · exact TokenCursor.moved_rest hc₁ hend
end

end Parse

end NumericJit
