import NumericJit.Proofs.Statement.Acceptance
import NumericJit.Proofs.Statement.Extension
import NumericJit.Proofs.Statement.Grouping
import NumericJit.Proofs.Statement.RoundTrip

/-!
# How chains of operators are read

Reading operators keeps the least precedence that is folded in, and looks at one operator to decide
whether the operand goes on. What comes of that is told by three facts. A left operand is `Ready` if
the next operator may be put around it. A `RightOperand` is read by looking at the operator behind
the operand: if that binds more tightly, or if both are assignments. An operator with both operands
is ready again (`Ready.binary`), so by induction on the number of operators a chain is grouped by
neighbours (`ReadsLinks.folds`).

So an assignment whose right operand goes on with another operator is ended by the next assignment,
and then it is the target of that one. A chain without such a late assignment is grouped by
associativity (`expression_groups_chain`).
-/

namespace NumericJit

theorem TokenCursor.next_cons {t : Token} (last : Option Token) (h : t.kind = k)
    (rest : List Token) : TokenCursor.Next ⟨last, t :: rest⟩ k ⟨some t, rest⟩ :=
  ⟨⟨t, rfl, h⟩, rfl⟩

namespace Parse

open Grouping
open TokenCursor (next_cons)

inductive ReadsLinks : TokenCursor → List (Char × Expr) → TokenCursor → Prop where
  | none (h : c.operator? = none) : ReadsLinks c [] c
  | link {op : Char} {e : Expr} {links : List (Char × Expr)} (hknown : (precedence? op).isSome)
    (hop : c.operator? = some (op, bindingLevel op)) (hnext : c.Next (.char op) c₁)
    (first : ReadsPrimary c₁ e c₂) (others : ReadsLinks c₂ links c₃) :
    ReadsLinks c ((op, e) :: links) c₃

theorem ReadsLinks.operator?_eq (h : ReadsLinks c links c') :
    c.operator? = links.head?.map fun link => (link.1, bindingLevel link.1) := by
  cases h with
  | none h => exact h
  | link _ hop _ _ _ => exact hop

theorem ReadsLinks.known (h : ReadsLinks c links c') :
    ∀ op ∈ links.map Prod.fst, (precedence? op).isSome := by
  induction h with
  | none _ => exact nofun
  | link hknown _ _ _ _ ih => exact List.forall_mem_cons.mpr ⟨hknown, ih⟩

/-- The operators of a left operand are where they should be, also if the next operator is put
around them. -/
structure Ready (lhs : Grouping) (links : List (Char × Expr)) : Prop where
  follows : lhs.Follows .neighbours
  looser : ∀ link ∈ links.head?, ∀ inner ∈ lhs.operators,
    bindingLevel link.1 ≤ bindingLevel inner
  apart : ∀ link ∈ links.head?, isRightAssociative link.1 = true →
    (lhs.operators ++ [link.1]).IsChain GroupingRule.Apart

theorem ready_operand (e : Expr) (links : List (Char × Expr)) : Ready (.operand e) links :=
  ⟨.operand, nofun, fun _ _ _ => List.isChain_singleton _⟩

/-- What becomes of a left operand when some of the links behind it are folded in. -/
structure Climbs (least : Nat) (lhs : Grouping) (taken left : List (Char × Expr)) (t : Grouping) :
    Prop where
  operands : t.operands = lhs.operands ++ taken.map Prod.snd
  operators : t.operators = lhs.operators ++ taken.map Prod.fst
  follows : t.Follows .neighbours
  tight : ∀ op ∈ taken.map Prod.fst, least ≤ bindingLevel op
  stops : ∀ link ∈ left.head?, bindingLevel link.1 < least

structure RightOperand (op : Char) (e : Expr) (taken left : List (Char × Expr)) (rhs : Grouping) :
    Prop where
  operands : rhs.operands = e :: taken.map Prod.snd
  operators : rhs.operators = taken.map Prod.fst
  follows : rhs.Follows .neighbours
  right : ∀ inner ∈ rhs.operators, bindingLevel op < bindingLevel inner ∨
    bindingLevel op = bindingLevel inner ∧ GroupingRule.neighbours.right op rhs.operators
  looser : ∀ link ∈ left.head?, bindingLevel link.1 ≤ bindingLevel op
  apart : ∀ link ∈ left.head?, link.1 = '=' → op = '=' →
    rhs.operators ≠ [] ∧ '=' ∉ rhs.operators

/-- An operator with both its operands is the left operand of the next one. -/
theorem Ready.binary (h : Ready lhs ((op, e) :: links)) (hknown : (precedence? op).isSome)
    (hrhs : RightOperand op e taken left rhs) : Ready (.binary op lhs rhs) left := by
  have hfollows : Follows .neighbours (.binary op lhs rhs) := by
    refine .binary (fun inner hinner => ?_) hrhs.right h.follows hrhs.follows
    exact (Nat.lt_or_eq_of_le (h.looser _ rfl inner hinner)).imp_right (⟨·, h.apart _ rfl⟩)
  refine ⟨hfollows, fun link hlink inner hinner => ?_, fun link hlink hright => ?_⟩
  · exact (hrhs.looser link hlink).trans (hfollows.le_inner inner hinner)
  rw [isRightAssociative_iff.mp hright]
  by_cases hassign : op = '='
  · -- another operator stands between this assignment and the next
    subst hassign
    obtain ⟨hne, hnot⟩ := hrhs.apart link hlink (isRightAssociative_iff.mp hright) rfl
    rw [Grouping.operators, List.append_assoc, List.cons_append, List.isChain_split]
    refine ⟨h.apart _ rfl rfl, List.isChain_cons.mpr ⟨fun next hnext hboth => ?_, ?_⟩⟩
    · rw [List.head?_append_of_ne_nil _ hne] at hnext
      exact hnot (isRightAssociative_iff.mp hboth.2 ▸ List.mem_of_mem_head? hnext)
    · exact isChain_of_not_mem hnot
  · exact isChain_of_not_mem (hfollows.not_mem_of_ne hknown hassign)

theorem Climbs.rightOperand (h : Climbs (bindingLevel op + 1) (.operand e) taken left rhs)
    (hne : taken ≠ []) : RightOperand op e taken left rhs where
  operands := h.operands
  operators := h.operators
  follows := h.follows
  right inner hinner := by
    rw [h.operators] at hinner
    exact .inl (h.tight inner hinner)
  looser link hlink := Nat.le_of_lt_succ (h.stops link hlink)
  apart link hlink _ hassign := by
    subst hassign
    rw [h.operators]
    refine ⟨by simpa [Grouping.operators] using hne, not_mem_of_lt h.tight⟩

theorem Climbs.rightOperand_assign (h : Climbs (bindingLevel '=') (.operand e) taken left rhs)
    (hhead : (taken.map Prod.fst).head? = some '=') : RightOperand '=' e taken left rhs where
  operands := h.operands
  operators := h.operators
  follows := h.follows
  right inner hinner := by
    rw [h.operators] at hinner ⊢
    exact (Nat.lt_or_eq_of_le (h.tight inner hinner)).imp_right (⟨·, rfl, hhead⟩)
  looser link hlink := (h.stops link hlink).le
  apart link hlink hassign _ := absurd (h.stops link hlink) (hassign ▸ lt_irrefl _)

theorem RightOperand.climbs (hrhs : RightOperand op e taken left rhs)
    (h : Climbs least (.binary op lhs rhs) taken' left' t) (hop : least ≤ bindingLevel op) :
    Climbs least lhs ((op, e) :: taken ++ taken') left' t where
  operands := by simp [h.operands, Grouping.operands, hrhs.operands]
  operators := by simp [h.operators, Grouping.operators, hrhs.operators]
  follows := h.follows
  tight := by
    rw [List.map_append, List.map_cons, ← hrhs.operators, List.forall_mem_append,
      List.forall_mem_cons]
    refine ⟨⟨hop, fun inner hinner => ?_⟩, h.tight⟩
    have := hrhs.right inner hinner
    omega
  stops := h.stops

theorem Climbs.head (h : Climbs least lhs taken left t)
    (hlinks : (next, e) :: links = taken ++ left) (hnext : least ≤ bindingLevel next) :
    ∃ others, taken = (next, e) :: others := by
  cases taken with
  | nil =>
    rw [List.nil_append] at hlinks
    exact absurd hnext (h.stops (next, e) (hlinks ▸ rfl)).not_ge
  | cons link others =>
    obtain ⟨rfl, -⟩ := List.cons.inj hlinks
    exact ⟨others, rfl⟩

/-- Links are folded into a left operand as long as their operators bind tightly enough, and the
others are left to be read. -/
def Folds (least : Nat) (lhs : Grouping) (c : TokenCursor) (links : List (Char × Expr))
    (c' : TokenCursor) : Prop :=
  ∃ taken left t c₁, links = taken ++ left ∧ Climbs least lhs taken left t ∧
    ReadsOperators least lhs.expr c t.expr c₁ ∧ ReadsLinks c₁ left c'

theorem ReadsLinks.rightOperand (h : ReadsLinks c links c') (op : Char) (e : Expr)
    (ih : ∀ least, Folds least (.operand e) c links c') :
    ∃ taken left rhs c₁, links = taken ++ left ∧ RightOperand op e taken left rhs ∧
      ReadsOperand (bindingLevel op) e c rhs.expr c₁ ∧ ReadsLinks c₁ left c' := by
  have hop := h.operator?_eq
  have halone : (∀ link ∈ links.head?, bindingLevel link.1 ≤ bindingLevel op ∧
      (link.1 = '=' → op ≠ '=')) → RightOperand op e [] links (.operand e) := fun hnext =>
    ⟨rfl, rfl, .operand, nofun, fun link hlink => (hnext link hlink).1,
      fun link hlink hlate hassign => absurd hassign ((hnext link hlink).2 hlate)⟩
  cases links with
  | nil => exact ⟨[], [], .operand e, c, rfl, halone nofun, .alone (by rw [hop]; rfl), h⟩
  | cons link links =>
    obtain ⟨next, e'⟩ := link
    simp only [List.head?_cons, Option.map_some] at hop
    by_cases htighter : bindingLevel op < bindingLevel next
    · obtain ⟨taken, left, rhs, c₁, hlinks, hclimbs, hread, hleft⟩ := ih (bindingLevel op + 1)
      obtain ⟨others, rfl⟩ := hclimbs.head hlinks htighter
      refine ⟨_, left, rhs, c₁, hlinks, hclimbs.rightOperand nofun, .folded ?_ hread, hleft⟩
      rw [hop, Option.bind_some, innerLeast, if_pos htighter]
    by_cases hassign : bindingLevel op = bindingLevel next ∧ isRightAssociative next = true
    · obtain ⟨hlevel, hright⟩ := hassign
      obtain rfl : op = '=' := isRightAssociative_iff.mp (isRightAssociative_congr hlevel ▸ hright)
      obtain rfl := isRightAssociative_iff.mp hright
      obtain ⟨taken, left, rhs, c₁, hlinks, hclimbs, hread, hleft⟩ := ih (bindingLevel '=')
      obtain ⟨others, rfl⟩ := hclimbs.head hlinks hlevel.le
      refine ⟨_, left, rhs, c₁, hlinks, hclimbs.rightOperand_assign rfl, .folded ?_ hread, hleft⟩
      rw [hop]
      rfl
    · refine ⟨[], _, .operand e, c, rfl, halone ?_, .alone ?_, h⟩
      · rintro _ ⟨⟩
        refine ⟨Nat.le_of_not_lt htighter, ?_⟩
        rintro rfl rfl
        exact hassign ⟨rfl, rfl⟩
      · rw [hop, Option.bind_some, innerLeast, if_neg htighter, if_neg (by simpa using hassign)]

theorem ReadsLinks.folds (h : ReadsLinks c links c') (hready : Ready lhs links) (least : Nat) :
    Folds least lhs c links c' := by
  -- by induction on the number of links: fewer are left for the right operand and behind it
  induction hn : links.length using Nat.strongRecOn generalizing c links lhs least with
  | ind n ih =>
    have hop := h.operator?_eq
    have hstop : (∀ link ∈ links.head?, bindingLevel link.1 < least) →
        Folds least lhs c links c' := by
      intro hstop
      refine ⟨[], links, lhs, c, rfl, ?_, .none ?_, h⟩
      · exact ⟨(List.append_nil _).symm, (List.append_nil _).symm, hready.follows, nofun, hstop⟩
      · intro found hfound
        obtain ⟨link, hlink, rfl⟩ := Option.map_eq_some_iff.mp (hop ▸ hfound)
        exact hstop link hlink
    cases h with
    | none _ => exact hstop nofun
    | @link _ _ _ _ op e links hknown hop hnext first others =>
      by_cases hless : bindingLevel op < least
      · exact hstop (by rintro _ ⟨⟩; exact hless)
      rw [List.length_cons] at hn
      obtain ⟨taken, left, rhs, c₃, rfl, hrhs, hinner, hleft⟩ :=
        others.rightOperand op e fun least =>
          ih links.length (by omega) others (ready_operand e links) least rfl
      rw [List.length_append] at hn
      obtain ⟨taken', left', t, c₄, rfl, hclimbs, hothers, hleft'⟩ :=
        ih left.length (by omega) hleft (hready.binary hknown hrhs) least rfl
      refine ⟨(op, e) :: taken ++ taken', left', t, c₄, by simp, ?_, ?_, hleft'⟩
      · exact hrhs.climbs hclimbs (Nat.le_of_not_lt hless)
      · exact .more hop (Nat.le_of_not_lt hless) hnext first hinner hothers

/-- A whole chain is grouped. -/
theorem ReadsLinks.groups (first : ReadsPrimary c e c₁) (h : ReadsLinks c₁ links c') :
    ∃ t : Grouping, t.operands = e :: links.map Prod.snd ∧ t.operators = links.map Prod.fst ∧
      t.Follows .neighbours ∧ ReadsExpression c t.expr c' := by
  obtain ⟨taken, left, t, c₂, rfl, hclimbs, hothers, hleft⟩ := h.folds (ready_operand e links) 0
  cases hleft with
  | none _ =>
    rw [List.append_nil]
    exact ⟨t, hclimbs.operands, hclimbs.operators, hclimbs.follows, .mk first hothers⟩
  | link _ _ _ _ _ => exact absurd (hclimbs.stops _ rfl) (Nat.not_lt_zero _)

-- ---------------------------------------------------------------------------
-- Tokens
-- ---------------------------------------------------------------------------

/-- Tokens are read as an operand, whatever comes behind that is no argument list. -/
def StandsFor (w : List Token) (e : Expr) : Prop :=
  ∀ last more, (∀ last, TokenCursor.kind ⟨last, more⟩ ≠ .char '(') →
    ∃ last', ReadsPrimary ⟨last, w ++ more⟩ e ⟨last', more⟩

theorem rest_eq_last {c : TokenCursor} {t : Token} (h : c.rest <:+ w ++ [t])
    (hc : c.kinds = [k]) : c.rest = [t] := by
  obtain ⟨before, hbefore⟩ := h
  have hlength : c.rest.length = 1 := by rw [← List.length_map, ← TokenCursor.kinds, hc]; rfl
  exact (List.append_inj' hbefore hlength).2

theorem exists_standsFor (h : Grammar.Operand (w.map Token.kind)) : ∃ e, StandsFor w e := by
  generalize hw : w.map Token.kind = kinds at h
  cases h with
  | number =>
    obtain ⟨t, rest, rfl, ht, hrest⟩ := List.map_eq_cons_iff.mp hw
    obtain rfl := List.map_eq_nil_iff.mp hrest
    exact ⟨.number _ t.span, fun last more _ => ⟨some t, .number (next_cons last ht more)⟩⟩
  | «variable» =>
    obtain ⟨t, rest, rfl, ht, hrest⟩ := List.map_eq_cons_iff.mp hw
    obtain rfl := List.map_eq_nil_iff.mp hrest
    exact ⟨.variable _ t.span, fun last more hmore =>
      ⟨some t, .variable (next_cons last ht more) (hmore _)⟩⟩
  | @call v name args =>
    obtain ⟨t, w, rfl, ht, hw⟩ := List.map_eq_cons_iff.mp hw
    obtain ⟨o, w, rfl, ho, hw⟩ := List.map_eq_cons_iff.mp hw
    obtain ⟨inside, close, rfl, hinside, hclose⟩ := List.map_eq_append_iff.mp hw
    obtain ⟨cl, rfl, hcl⟩ := List.map_eq_singleton_iff.mp hclose
    obtain ⟨values, ⟨last', rest⟩, hread, hc⟩ :=
      exists_readsArguments (c := ⟨some o, inside ++ [cl]⟩) (readsUpTo _) args (Nat.le_refl _) hw
    obtain rfl := rest_eq_last hread.suffix hc
    refine ⟨.call name values (t.span.to cl.span), fun last more _ => ⟨some cl, ?_⟩⟩
    exact .call (next_cons last ht _) (next_cons _ ho _) (hread.extend more Nat.one_pos)
      (next_cons last' hcl more)
  | parens inner =>
    obtain ⟨o, w, rfl, ho, hw⟩ := List.map_eq_cons_iff.mp hw
    obtain ⟨inside, close, rfl, hinside, hclose⟩ := List.map_eq_append_iff.mp hw
    obtain ⟨cl, rfl, hcl⟩ := List.map_eq_singleton_iff.mp hclose
    obtain ⟨e, ⟨last', rest⟩, hread, hc⟩ := readsUpTo _ (c := ⟨some o, inside ++ [cl]⟩)
      (Nat.le_refl _) inner endsExpression_close hw
    obtain rfl := rest_eq_last hread.suffix hc
    refine ⟨e, fun last more _ => ⟨some cl, ?_⟩⟩
    exact .parens (next_cons last ho _) (hread.extend more Nat.one_pos) (next_cons last' hcl more)

def StandsForLink (link : Token × List Token) (found : Char × Expr) : Prop :=
  link.1.kind = .char found.1 ∧ StandsFor link.2 found.2

section
variable {links : List (Token × List Token)} {next : Token}

/-- Behind an operand there is no argument list. -/
theorem kind_links_ne
    (hoperator : ∀ link ∈ links, ∃ op, link.1.kind = .char op ∧ op ∈ binaryOperators)
    (hnext : EndsExpression next.kind) (rest : List Token) (last : Option Token) :
    TokenCursor.kind ⟨last, (links.flatMap fun link => link.1 :: link.2) ++ next :: rest⟩ ≠
      .char '(' := by
  cases links with
  | nil => exact hnext.1
  | cons link links =>
    obtain ⟨op, hk, hop⟩ := hoperator link List.mem_cons_self
    show link.1.kind ≠ _
    rintro hopen
    obtain rfl := TokenKind.char.inj (hk.symm.trans hopen)
    exact absurd hop (by decide)

theorem exists_readsLinks (hoperand : ∀ link ∈ links, Grammar.Operand (link.2.map Token.kind))
    (hoperator : ∀ link ∈ links, ∃ op, link.1.kind = .char op ∧ op ∈ binaryOperators)
    (hnext : EndsExpression next.kind) (rest : List Token) (last : Option Token) :
    ∃ found last', List.Forall₂ StandsForLink links found ∧
      ReadsLinks ⟨last, (links.flatMap fun link => link.1 :: link.2) ++ next :: rest⟩ found
        ⟨last', next :: rest⟩ := by
  induction links generalizing last with
  | nil => exact ⟨[], last, .nil, .none (operator?_eq_none hnext rfl)⟩
  | cons link links ih =>
    obtain ⟨op, hk, hmem⟩ := hoperator link List.mem_cons_self
    have hknown := mem_binaryOperators.mp hmem
    obtain ⟨e, he⟩ := exists_standsFor (hoperand link List.mem_cons_self)
    have hoperator := fun link hlink => hoperator link (List.mem_cons_of_mem _ hlink)
    obtain ⟨last₁, hfirst⟩ := he (some link.1) _ (kind_links_ne hoperator hnext rest)
    obtain ⟨found, last₂, hfound, hothers⟩ :=
      ih (fun link hlink => hoperand link (List.mem_cons_of_mem _ hlink)) hoperator last₁
    obtain ⟨level, hlevel⟩ := Option.isSome_iff_exists.mp hknown
    refine ⟨(op, e) :: found, last₂, .cons ⟨hk, he⟩ hfound, ?_⟩
    rw [List.flatMap_cons, List.cons_append, List.cons_append, List.append_assoc]
    refine .link hknown ?_ (next_cons last hk _) hfirst hothers
    rw [bindingLevel_eq hlevel]
    exact operator?_of_kinds hlevel (congrArg (· :: _) hk)

end

theorem operators_eq {links : List (Token × List Token)}
    (h : List.Forall₂ StandsForLink links found) :
    links.map (·.1.kind) = (found.map Prod.fst).map .char := by
  induction h with
  | nil => rfl
  | cons hlink _ ih => rw [List.map_cons, List.map_cons, List.map_cons, hlink.1, ih]

/-- By themselves, tokens are read as an expression. -/
def ReadAlone (w : List Token) (e : Expr) : Prop :=
  ∀ stop : Token, EndsExpression stop.kind →
    ∃ c, Parse.expression (.ofTokens (w ++ [stop])) = .ok (e, c) ∧ c.rest = [stop]

theorem StandsFor.readAlone (h : StandsFor w e) : ReadAlone w e := by
  intro stop hstop
  obtain ⟨last, hread⟩ := h none [stop] fun _ => hstop.1
  exact ⟨_, (hread.alone hstop rfl).expression, rfl⟩

end Parse

/-- Reading a chain gives the one grouping by neighbours. It is the one that associativity and the
levels of the grammar give exactly if no assignment is late. -/
theorem expression_groups_chain (chain : OperatorChain) (c : TokenCursor) (next : Token)
    (rest : List Token) (hc : c.rest = chain.tokens ++ next :: rest)
    (hnext : Parse.EndsExpression next.kind) :
    ∃ t : Grouping, List.Forall₂ Parse.ReadAlone chain.operands t.operands ∧
      chain.operators = t.operators.map .char ∧
      (∃ c', Parse.expression c = .ok (t.expr, c') ∧ c'.rest = next :: rest) ∧
      (∀ other : Grouping, other.SameChain t → (other.Follows .neighbours ↔ other = t)) ∧
      ∃ intended : Grouping, intended.SameChain t ∧
        (∀ other : Grouping, other.SameChain t →
          (other.Follows .associativity ↔ other = intended) ∧
          (other.Assignment ↔ other = intended)) ∧
        (t = intended ↔ hasLateAssignment t.operators = false) := by
  obtain ⟨last, tokens⟩ := c
  rw [OperatorChain.tokens, List.append_assoc] at hc
  obtain rfl : tokens = _ := hc
  obtain ⟨hfirst, hothers⟩ := List.forall_mem_cons.mp chain.isOperand
  obtain ⟨e, he⟩ := Parse.exists_standsFor hfirst
  obtain ⟨last₁, hread⟩ := he last _ (Parse.kind_links_ne chain.isOperator hnext rest)
  obtain ⟨found, last₂, hfound, hlinks⟩ := Parse.exists_readsLinks
    (fun link hlink => hothers _ (List.mem_map_of_mem hlink)) chain.isOperator hnext rest last₁
  obtain ⟨t, hoperands, hoperators, hfollows, hexpr⟩ := hlinks.groups hread
  obtain ⟨intended, hintended, hoperands', hoperators'⟩ := Grouping.exists_associative e found
  have hsame : intended.SameChain t :=
    ⟨hoperands'.trans hoperands.symm, hoperators'.trans hoperators.symm⟩
  have hknown : ∀ op ∈ t.operators, (precedence? op).isSome := hoperators ▸ hlinks.known
  have hassociative : ∀ other : Grouping, other.SameChain t →
      (other.Follows .associativity ↔ other = intended) := by
    intro other hother
    refine ⟨fun h => h.unique Grouping.strict_associativity hintended ?_, fun h => h ▸ hintended⟩
    exact ⟨hother.1.trans hsame.1.symm, hother.2.trans hsame.2.symm⟩
  refine ⟨t, ?_, ?_, ⟨_, hexpr.expression, rfl⟩, ?_, intended, hsame, ?_, ?_⟩
  · rw [hoperands, OperatorChain.operands]
    refine .cons he.readAlone (List.forall₂_map_left_iff.mpr (List.forall₂_map_right_iff.mpr ?_))
    exact hfound.imp fun _ _ h => h.2.readAlone
  · rw [hoperators, OperatorChain.operators, Parse.operators_eq hfound]
  · intro other hother
    exact ⟨fun h => h.unique Grouping.strict_neighbours hfollows hother, fun h => h ▸ hfollows⟩
  · intro other hother
    refine ⟨hassociative other hother, ?_⟩
    rw [← hassociative other hother]
    exact Grouping.assignment_iff_follows (hother.2 ▸ hknown)
  · rw [← hassociative t ⟨rfl, rfl⟩]
    exact hfollows.associativity_iff hknown

/-- The chain `x = y = a * (b) + f() < 1` has no late assignment. -/
theorem expression_groups_two_assignments :
    ∃ chain : OperatorChain, chain.tokens.map Token.kind = [.identifier "x", .char '=',
        .identifier "y", .char '=', .identifier "a", .char '*', .char '(', .identifier "b",
        .char ')', .char '+', .identifier "f", .char '(', .char ')', .char '<', .number .one] ∧
      Parse.EndsExpression (.char ';') ∧
      ∃ t : Grouping, t.operators = ['=', '=', '*', '+', '<'] ∧ t.Assignment ∧
        ∃ c, Parse.expression (.ofTokens (chain.tokens ++ [⟨.char ';', {}⟩])) =
          .ok (t.expr, c) := by
  have hends : Parse.EndsExpression (.char ';') :=
    ⟨by decide, fun op hop => TokenKind.char.inj hop ▸ rfl⟩
  have hparens : Grammar.Operand [.char '(', .identifier "b", .char ')'] :=
    .parens Grammar.Primary.variable.expression
  let chain : OperatorChain := {
    first := [⟨.identifier "x", {}⟩]
    links := [(⟨.char '=', {}⟩, [⟨.identifier "y", {}⟩]),
      (⟨.char '=', {}⟩, [⟨.identifier "a", {}⟩]),
      (⟨.char '*', {}⟩, [.char '(', .identifier "b", .char ')'].map (⟨·, {}⟩)),
      (⟨.char '+', {}⟩, [.identifier "f", .char '(', .char ')'].map (⟨·, {}⟩)),
      (⟨.char '<', {}⟩, [⟨.number .one, {}⟩])]
    isOperand := by
      simp only [List.map_cons, List.map_nil, List.forall_mem_cons]
      exact ⟨.variable, .variable, .variable, hparens, .call .none, .number, List.forall_mem_nil _⟩
    isOperator := by
      simp only [List.forall_mem_cons]
      exact ⟨⟨'=', rfl, by decide⟩, ⟨'=', rfl, by decide⟩, ⟨'*', rfl, by decide⟩,
        ⟨'+', rfl, by decide⟩, ⟨'<', rfl, by decide⟩, List.forall_mem_nil _⟩ }
  obtain ⟨t, -, hoperators, ⟨c, hread, -⟩, -, intended, hsame, hintended, hlate⟩ :=
    expression_groups_chain chain (.ofTokens (chain.tokens ++ [⟨.char ';', {}⟩])) ⟨.char ';', {}⟩ []
      rfl hends
  have hchars : t.operators = ['=', '=', '*', '+', '<'] :=
    (List.map_injective_iff.mpr fun _ _ => TokenKind.char.inj) hoperators.symm
  refine ⟨chain, rfl, hends, t, hchars, ?_, c, hread⟩
  exact (hintended t ⟨rfl, rfl⟩).2.mpr (hlate.mpr (by rw [hchars]; rfl))

/-- In `a = b + c = d` the first assignment is the target of the second one. -/
theorem expression_groups_late_assignment :
    let name (text : String) : Grouping := .operand (.variable text {})
    let t : Grouping := .binary '=' (.binary '=' (name "a") (.binary '+' (name "b") (name "c")))
      (name "d")
    let intended : Grouping :=
      .binary '=' (name "a") (.binary '=' (.binary '+' (name "b") (name "c")) (name "d"))
    let tokens : List Token := [.identifier "a", .char '=', .identifier "b", .char '+',
      .identifier "c", .char '=', .identifier "d", .char ';'].map (⟨·, {}⟩)
    (∃ c, Parse.expression (.ofTokens tokens) = .ok (t.expr, c)) ∧ intended.SameChain t ∧
      intended.Assignment ∧ ¬ t.Assignment := by
  intro name t intended tokens
  have hsame : t.SameChain intended := ⟨rfl, rfl⟩
  have hname (text : String) : (name text).Comparison := .inner (.inner (.inner .operand))
  have hsum : (Grouping.binary '+' (name "b") (name "c")).Comparison :=
    .inner (.more (by decide) (.inner (.inner .operand)) (.inner .operand))
  have hintended : intended.Assignment :=
    .assign (hname "a") (.assign hsum (.comparison (hname "d")))
  have hknown : ∀ op ∈ ['=', '+', '='], (precedence? op).isSome :=
    List.forall_mem_cons.mpr ⟨rfl, List.forall_mem_cons.mpr ⟨rfl,
      List.forall_mem_singleton.mpr rfl⟩⟩
  have hassociative := (Grouping.assignment_iff_follows (t := intended) hknown).mp hintended
  refine ⟨⟨_, rfl⟩, ⟨rfl, rfl⟩, hintended, fun h => ?_⟩
  have h := (Grouping.assignment_iff_follows (t := t) hknown).mp h
  have heq := h.unique Grouping.strict_associativity hassociative hsame
  simp [t, intended, name] at heq

end NumericJit
