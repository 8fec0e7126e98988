import NumericJit.Proofs.Statement.Predictive
import NumericJit.Proofs.Token.Partition
import NumericJit.Statement.Nesting

/-!
# Places nest

The tokens of a text are in order. What is read takes tokens from the front, one part behind the
other, so the nodes of a tree come from tokens that nest and follow each other as the nodes do, and
so do their spans, whether they are put together from tokens or from other spans. An error is at the
token where reading stopped, which is one of the statement or the one behind it (`places_nest`).
-/

namespace NumericJit

-- ---------------------------------------------------------------------------
-- Order
-- ---------------------------------------------------------------------------

theorem Position.AtMost.refl (p : Position) : p.AtMost p := .inr ⟨rfl, Int.le_refl _⟩

structure InOrder (tokens : List Token) : Prop where
  each : ∀ t ∈ tokens, t.span.start.AtMost t.span.stop
  pairs : tokens.Pairwise fun t later => t.span.stop.AtMost later.span.start

def Between (tokens : List Token) (s : Span) : Prop :=
  ∃ t ∈ tokens, ∃ u ∈ tokens, s.Within (t.span.to u.span)

namespace InOrder

variable {tokens others : List Token}

theorem sublist (h : InOrder tokens) (hsub : others.Sublist tokens) : InOrder others :=
  ⟨fun t ht => h.each t (hsub.subset ht), h.pairs.sublist hsub⟩

theorem of_append (h : InOrder (tokens ++ others)) : InOrder tokens ∧ InOrder others :=
  ⟨h.sublist (List.sublist_append_left _ _), h.sublist (List.sublist_append_right _ _)⟩

theorem first_atMost (h : InOrder tokens) (hfirst : tokens.head? = some first) (ht : t ∈ tokens) :
    first.span.start.AtMost t.span.start := by
  obtain ⟨rest, rfl⟩ := List.head?_eq_some_iff.mp hfirst
  obtain rfl | ht := List.mem_cons.mp ht
  · exact .refl _
  · exact (h.each first (List.mem_cons_self ..)).trans ((List.pairwise_cons.mp h.pairs).1 t ht)

theorem atMost_last (h : InOrder tokens) (hlast : tokens.getLast? = some last) (ht : t ∈ tokens) :
    t.span.stop.AtMost last.span.stop := by
  obtain ⟨rest, rfl⟩ := List.getLast?_eq_some_iff.mp hlast
  have hmem : last ∈ rest ++ [last] := List.mem_append_right rest (List.mem_singleton_self last)
  obtain ht | ht := List.mem_append.mp ht
  · have hbefore := (List.pairwise_append.mp h.pairs).2.2 t ht last (List.mem_singleton_self last)
    exact hbefore.trans (h.each last hmem)
  · obtain rfl := List.mem_singleton.mp ht
    exact .refl _

theorem within (h : InOrder tokens) (hfirst : tokens.head? = some first)
    (hlast : tokens.getLast? = some last) (hs : Between tokens s) :
    s.Within (first.span.to last.span) := by
  obtain ⟨t, ht, u, hu, hs⟩ := hs
  exact ⟨(h.first_atMost hfirst ht).trans hs.start, hs.stop.trans (h.atMost_last hlast hu)⟩

theorem exists_within (h : InOrder tokens) (hs : Between tokens s) :
    ∃ first last, tokens.head? = some first ∧ tokens.getLast? = some last ∧
      s.Within (first.span.to last.span) := by
  obtain ⟨t, ht, -⟩ := id hs
  have hne := List.ne_nil_of_mem ht
  have hfirst := List.head?_eq_some_head hne
  have hlast := List.getLast?_eq_some_getLast hne
  exact ⟨_, _, hfirst, hlast, h.within hfirst hlast hs⟩

end InOrder

theorem Between.mono (h : Between tokens s) (hsub : tokens ⊆ others) : Between others s := by
  obtain ⟨t, ht, u, hu, hs⟩ := h
  exact ⟨t, hsub ht, u, hsub hu, hs⟩

-- ---------------------------------------------------------------------------
-- Nodes
-- ---------------------------------------------------------------------------

namespace Expr

variable {tokens others : List Token}

theorem Nests.between (h : Nests e tokens) : Between tokens e.span := by
  obtain ⟨first, last, hfirst, hlast, hs⟩ := h.within
  exact ⟨first, List.mem_of_head? hfirst, last, List.mem_of_getLast? hlast, hs⟩

theorem SpelledBy.holds (h : SpelledBy P e tokens) : P e tokens := by
  cases h with
  | node _ hnode => exact hnode
  | parens _ _ _ hnode => exact hnode

theorem LaidOut.append (h : LaidOut P parts tokens) (h' : LaidOut P more others) :
    LaidOut P (parts ++ more) (tokens ++ others) := by
  induction parts generalizing tokens with
  | nil =>
    cases h
    exact h'
  | cons part parts ih =>
    cases h with
    | token hk h => exact .token hk (ih h)
    | sub he h =>
      rw [List.append_assoc]
      exact .sub he (ih h)

theorem LaidOut.subs (h : LaidOut Nests parts tokens) (hord : InOrder tokens) :
    (∀ e ∈ parts.filterMap Part.sub?, e.span.start.AtMost e.span.stop ∧ Between tokens e.span) ∧
    (parts.filterMap Part.sub?).Pairwise fun e later => e.span.stop.AtMost later.span.start := by
  induction parts generalizing tokens with
  | nil => exact ⟨List.forall_mem_nil _, .nil⟩
  | cons part parts ih =>
    cases h with
    | token hk h =>
      obtain ⟨hplaces, hpairs⟩ := ih h (hord.sublist (List.sublist_cons_self ..))
      exact ⟨fun e he => (hplaces e he).imp_right (·.mono (List.subset_cons_self ..)), hpairs⟩
    | @sub e us _ ts he h =>
      obtain ⟨hus, hts⟩ := hord.of_append
      obtain ⟨hplaces, hpairs⟩ := ih h hts
      have hnests := he.holds
      refine ⟨List.forall_mem_cons.mpr ⟨⟨hnests.ordered, ?_⟩, fun e' he' => ?_⟩,
        List.pairwise_cons.mpr ⟨fun e' he' => ?_, hpairs⟩⟩
      · exact hnests.between.mono (List.subset_append_left us ts)
      · exact (hplaces e' he').imp_right (·.mono (List.subset_append_right us ts))
      · -- this one ends at a token before those of the other
        obtain ⟨_, _, u, hu, hs⟩ := hnests.between
        obtain ⟨t, ht, _, _, hs'⟩ := (hplaces e' he').2
        have hbefore := (List.pairwise_append.mp hord.pairs).2.2 u hu t ht
        exact (hs.stop.trans hbefore).trans hs'.start

theorem nests_of_tokens (h : LaidOut Nests e.layout tokens) (hord : InOrder tokens)
    (hfirst : tokens.head? = some first) (hlast : tokens.getLast? = some last)
    (hspan : e.span = first.span.to last.span) : Nests e tokens := by
  obtain ⟨hplaces, hpairs⟩ := h.subs hord
  have hmem := List.mem_of_getLast? hlast
  refine ⟨?_, ⟨first, last, hfirst, hlast, ?_⟩, fun child hchild => ?_, hpairs⟩
  · rw [hspan]
    exact (hord.first_atMost hfirst hmem).trans (hord.each last hmem)
  · rw [hspan]
    exact ⟨.refl _, .refl _⟩
  · rw [hspan]
    exact hord.within hfirst hlast (hplaces child hchild).2

theorem nests_binary (h : LaidOut Nests [.sub lhs, .token (.char op), .sub rhs] tokens)
    (hord : InOrder tokens) : Nests (.binary op lhs rhs (lhs.span.to rhs.span)) tokens := by
  obtain ⟨hplaces, hpairs⟩ := h.subs hord
  have hlhs := hplaces lhs (List.mem_cons_self ..)
  have hrhs := hplaces rhs (List.mem_cons_of_mem _ (List.mem_cons_self ..))
  have hbefore : lhs.span.stop.AtMost rhs.span.start :=
    (List.pairwise_cons.mp hpairs).1 rhs (List.mem_cons_self ..)
  -- with parentheses around an operand, the span does not reach the first or the last token
  have hbetween : Between tokens (lhs.span.to rhs.span) := by
    obtain ⟨t, ht, _, _, hleft⟩ := hlhs.2
    obtain ⟨_, _, u, hu, hright⟩ := hrhs.2
    exact ⟨t, ht, u, hu, hleft.start, hright.stop⟩
  refine ⟨(hlhs.1.trans hbefore).trans hrhs.1, hord.exists_within hbetween, ?_, hpairs⟩
  exact List.forall_mem_cons.mpr ⟨⟨.refl _, hbefore.trans hrhs.1⟩,
    List.forall_mem_singleton.mpr ⟨hlhs.1.trans hbefore, .refl _⟩⟩

theorem Nests.parens {opening closing : Token} (h : Nests e tokens)
    (hord : InOrder (opening :: (tokens ++ [closing]))) :
    Nests e (opening :: (tokens ++ [closing])) := by
  have hlast : (opening :: (tokens ++ [closing])).getLast? = some closing :=
    List.getLast?_eq_some_iff.mpr ⟨opening :: tokens, rfl⟩
  have hsub : tokens ⊆ opening :: (tokens ++ [closing]) :=
    List.subset_cons_of_subset _ (List.subset_append_left _ _)
  exact ⟨h.ordered, ⟨opening, closing, rfl, hlast, hord.within rfl hlast (h.between.mono hsub)⟩,
    h.contains, h.siblings⟩

end Expr

-- ---------------------------------------------------------------------------
-- Reading takes tokens from the front
-- ---------------------------------------------------------------------------

/-- Some tokens lie between two cursors, the last of which the second one remembers. -/
structure TokenCursor.Took (c : TokenCursor) (tokens : List Token) (d : TokenCursor) : Prop where
  rest : c.rest = tokens ++ d.rest
  last : d.last = tokens.getLast?.or c.last

namespace TokenCursor

variable {c d : TokenCursor}

theorem Took.trans (h : c.Took tokens d) (h' : d.Took others e) : c.Took (tokens ++ others) e := by
  refine ⟨by rw [h.rest, h'.rest, List.append_assoc], ?_⟩
  rw [h'.last, h.last, List.getLast?_append, Option.or_assoc]

theorem Next.took (h : c.Next k d) : ∃ t, t.kind = k ∧ c.Took [t] d := by
  obtain ⟨last, t, rest, rfl, hk, rfl⟩ := h.eq
  exact ⟨t, hk, rfl, rfl⟩

theorem Next.span (h : c.Next k d) : c.span = c.span.to d.lastSpan := by
  obtain ⟨last, t, rest, rfl, -, rfl⟩ := h.eq
  rfl

theorem Took.span (h : c.Took tokens d) (hlength : d.rest.length < c.rest.length) :
    ∃ first last, tokens.head? = some first ∧ tokens.getLast? = some last ∧
      c.span.to d.lastSpan = first.span.to last.span := by
  cases tokens with
  | nil =>
    rw [h.rest] at hlength
    exact absurd hlength (Nat.lt_irrefl _)
  | cons first tokens =>
    have hlast := List.getLast?_eq_some_getLast (List.cons_ne_nil first tokens)
    refine ⟨first, _, rfl, hlast, ?_⟩
    rw [TokenCursor.span, h.rest, lastSpan, h.last, hlast]
    rfl

end TokenCursor

namespace Parse

/-- The tokens between two cursors spell an expression, and its places nest if they are in order. -/
def Takes (c : TokenCursor) (e : Expr) (d : TokenCursor) : Prop :=
  ∃ tokens, c.Took tokens d ∧ (InOrder tokens → e.SpelledBy Expr.Nests tokens)

def Lays (c : TokenCursor) (parts : List Part) (d : TokenCursor) : Prop :=
  ∃ tokens, c.Took tokens d ∧ (InOrder tokens → Expr.LaidOut Expr.Nests parts tokens)

section
variable {c c₁ c₂ c₃ d : TokenCursor}

theorem Lays.nil (c : TokenCursor) : Lays c [] c := ⟨[], ⟨rfl, rfl⟩, fun _ => .nil⟩

theorem Lays.token (h : c.Next k c₁) (hrest : Lays c₁ parts d) : Lays c (.token k :: parts) d := by
  obtain ⟨t, hk, htook⟩ := h.took
  obtain ⟨tokens, htook', hlaid⟩ := hrest
  exact ⟨t :: tokens, htook.trans htook', fun hord =>
    .token hk (hlaid (hord.sublist (List.sublist_cons_self ..)))⟩

theorem Lays.sub (h : Takes c e c₁) (hrest : Lays c₁ parts d) : Lays c (.sub e :: parts) d := by
  obtain ⟨tokens, htook, hspelled⟩ := h
  obtain ⟨others, htook', hlaid⟩ := hrest
  exact ⟨tokens ++ others, htook.trans htook', fun hord =>
    .sub (hspelled hord.of_append.1) (hlaid hord.of_append.2)⟩

theorem Lays.append (h : Lays c parts c₁) (hrest : Lays c₁ more d) : Lays c (parts ++ more) d := by
  obtain ⟨tokens, htook, hlaid⟩ := h
  obtain ⟨others, htook', hlaid'⟩ := hrest
  exact ⟨tokens ++ others, htook.trans htook', fun hord =>
    (hlaid hord.of_append.1).append (hlaid' hord.of_append.2)⟩

theorem Takes.node (h : Lays c e.layout d) (hlength : d.rest.length < c.rest.length)
    (hspan : e.span = c.span.to d.lastSpan) : Takes c e d := by
  obtain ⟨tokens, htook, hlaid⟩ := h
  obtain ⟨first, last, hfirst, hlast, heq⟩ := htook.span hlength
  exact ⟨tokens, htook, fun hord => .node (hlaid hord)
    (Expr.nests_of_tokens (hlaid hord) hord hfirst hlast (hspan.trans heq))⟩

theorem Takes.binary (hl : Takes c lhs c₁) (hop : c₁.Next (.char op) c₂) (hr : Takes c₂ rhs d) :
    Takes c (.binary op lhs rhs (lhs.span.to rhs.span)) d := by
  obtain ⟨tokens, htook, hlaid⟩ := Lays.sub hl (.token hop (.sub hr (.nil d)))
  exact ⟨tokens, htook, fun hord => .node (hlaid hord) (Expr.nests_binary (hlaid hord) hord)⟩

theorem Takes.parens (hopen : c.Next (.char '(') c₁) (h : Takes c₁ e c₂)
    (hclose : c₂.Next (.char ')') d) : Takes c e d := by
  obtain ⟨opening, hopen, htook⟩ := hopen.took
  obtain ⟨tokens, htook', hspelled⟩ := h
  obtain ⟨closing, hclose, htook''⟩ := hclose.took
  refine ⟨opening :: (tokens ++ [closing]), htook.trans (htook'.trans htook''), fun hord => ?_⟩
  have hinner : InOrder tokens := hord.sublist (.cons _ (List.sublist_append_left _ _))
  exact .parens hopen (hspelled hinner) hclose ((hspelled hinner).holds.parens hord)

end

theorem separated_cons (h : pieces ≠ []) :
    Part.separated (piece :: pieces) = piece ++ .token (.char ',') :: Part.separated pieces :=
  (List.intercalate_cons_of_ne_nil h).trans (List.append_assoc ..)

theorem ReadsArgumentList.ne_nil (h : ReadsArgumentList c args c') : args ≠ [] := by
  cases h <;> exact List.cons_ne_nil _ _

theorem ReadsBindings.ne_nil (h : ReadsBindings c bound c') : bound ≠ [] := by
  cases h <;> exact List.cons_ne_nil _ _

mutual
theorem ReadsExpression.takes : ReadsExpression c e c' → Takes c e c'
  | .mk first others => others.takes first.takes

/-- What is folded into an operand goes on from where the operand began. -/
theorem ReadsOperators.takes :
    ReadsOperators least lhs c₁ e c' → Takes c lhs c₁ → Takes c e c'
  | .none _, hlhs => hlhs
  | .more _ _ hnext first inner others, hlhs =>
    others.takes (hlhs.binary hnext (inner.takes first.takes))

theorem ReadsOperand.takes : ReadsOperand level lhs c₁ e c' → Takes c lhs c₁ → Takes c e c'
  | .alone _, hlhs => hlhs
  | .folded _ others, hlhs => others.takes hlhs

theorem ReadsPrimary.takes : ReadsPrimary c e c' → Takes c e c'
  | .number h => .node (.token h (.nil _)) (ReadsPrimary.number h).length h.span
  | .variable h hopen => .node (.token h (.nil _)) (ReadsPrimary.variable h hopen).length h.span
  | .call h hopen hargs hclose => by
    have hlength := (ReadsPrimary.call h hopen hargs hclose).length
    exact .node (.token h (.token hopen (hargs.lays.append (.token hclose (.nil _))))) hlength rfl
  | .parens hopen he hclose => .parens hopen he.takes hclose
  | .branch hif hcondition hthen hyes helse hno => by
    have hlength := (ReadsPrimary.branch hif hcondition hthen hyes helse hno).length
    exact .node (.token hif (.sub hcondition.takes (.token hthen (.sub hyes.takes
      (.token helse (.sub hno.takes (.nil _))))))) hlength rfl
  | .loop hfor hname heq hstart hcomma hstop hstep hin hbody => by
    have hlength := (ReadsPrimary.loop hfor hname heq hstart hcomma hstop hstep hin hbody).length
    exact .node (.token hfor (.token hname (.token heq (.sub hstart.takes (.token hcomma
      (.sub hstop.takes (hstep.lays.append (.token hin (.sub hbody.takes (.nil _))))))))))
      hlength rfl
  | .locals hvar hbindings hin hbody => by
    have hlength := (ReadsPrimary.locals hvar hbindings hin hbody).length
    exact .node (.token hvar (hbindings.lays.append (.token hin (.sub hbody.takes (.nil _)))))
      hlength rfl

theorem ReadsArguments.lays :
    ReadsArguments c args c' → Lays c (Part.separated (args.map fun e => [.sub e])) c'
  | .none _ => .nil c
  | .some h => h.lays

theorem ReadsArgumentList.lays :
    ReadsArgumentList c args c' → Lays c (Part.separated (args.map fun e => [.sub e])) c'
  | .last he _ => .sub he.takes (.nil _)
  | .more he hcomma hrest => by
    rw [List.map_cons, separated_cons (List.map_eq_nil_iff.not.mpr hrest.ne_nil)]
    exact .sub he.takes (.token hcomma hrest.lays)

theorem ReadsOptional.lays : ReadsOptional ch c value c' → Lays c (Part.optional ch value) c'
  | .none _ => .nil c
  | .some h he => .token h (.sub he.takes (.nil _))

theorem ReadsBindings.lays :
    ReadsBindings c bound c' → Lays c (Part.separated (bound.map Part.binding)) c'
  | .last hname hvalue _ => by
    rw [List.map_singleton, Part.separated, List.intercalate_singleton]
    exact .token hname hvalue.lays
  | .more hname hvalue hcomma hrest => by
    rw [List.map_cons, separated_cons (List.map_eq_nil_iff.not.mpr hrest.ne_nil)]
    exact .token hname (hvalue.lays.append (.token hcomma hrest.lays))
end

-- ---------------------------------------------------------------------------
-- Statements
-- ---------------------------------------------------------------------------

theorem ReadsParameters.suffix (h : ReadsParameters c names c') : c'.rest <:+ c.rest := by
  induction h with
  | close h => exact h.suffix
  | name h _ ih | comma h _ ih => exact ih.trans h.suffix

section
variable {tokens : List Token} {stop : Token}

theorem ReadsStatement.nests (h : ReadsStatement c s c') (htokens : c.rest = tokens ++ [stop])
    (hstop : c'.rest = [stop]) (hord : InOrder tokens) : s.Nests tokens := by
  -- an expression that is read up to the stop takes all of the tokens behind some front
  have hbody : ∀ {c e}, ReadsExpression c e c' → ∀ front, front ++ c.rest = tokens ++ [stop] →
      ∃ read, tokens = front ++ read ∧ e.SpelledBy Expr.Nests read := by
    intro c e he front hfront
    obtain ⟨read, htook, hspelled⟩ := he.takes
    rw [htook.rest, hstop, ← List.append_assoc] at hfront
    obtain rfl := List.append_cancel_right hfront
    exact ⟨read, rfl, hspelled hord.of_append.2⟩
  cases h with
  | definition hdef hproto he =>
    cases hproto with
    | mk hname hopen hparams =>
      obtain ⟨front, hfront⟩ :=
        ((hparams.suffix.trans hopen.suffix).trans hname.suffix).trans hdef.suffix
      exact ⟨front, hbody he front (hfront.trans htokens)⟩
  | declaration hword hproto => trivial
  | expression he =>
    obtain ⟨read, rfl, hspelled⟩ := hbody he [] htokens
    exact hspelled

theorem first_placedIn (htokens : Unended tokens) (hstop : stop.IsStop) (hord : InOrder tokens) :
    PlacedIn (tokens, stop) (first (tokens ++ [stop])) := by
  have hsegment := isSegment_append htokens hstop
  unfold first
  cases hread : statement (.ofTokens (tokens ++ [stop])) with
  | ok r =>
    obtain ⟨c', hstatement, hrest⟩ :=
      (statement_ok_iff (c := .ofTokens (tokens ++ [stop])) hsegment).mp ⟨r.2, hread⟩
    exact hstatement.nests rfl hrest hord
  | error f =>
    have hc : TokenCursor.HasStop (.ofTokens (tokens ++ [stop])) :=
      ⟨stop, hsegment.isStop.1, hsegment.isStop.2⟩
    have hfinishes := statement_finishes hc
    rw [hread] at hfinishes
    cases hfinishes with
    | fail d expected hpassed _ =>
      obtain ⟨last, t, rest, rfl, -⟩ := (hpassed.hasStop hc).exists_cons
      exact ⟨t, hpassed.suffix.subset (List.mem_cons_self ..), rfl⟩

theorem forall₂_ofSegment {found : List (List Token × Token)}
    {R : List Token × Token → Except Failure Statement → Prop}
    (h : ∀ s ∈ found, R s (first (s.1 ++ [s.2]))) :
    List.Forall₂ R (found.filter (·.1 ≠ [])) (found.flatMap fun s => ofSegment s.1 s.2) := by
  induction found with
  | nil => exact .nil
  | cons s found ih =>
    obtain ⟨hs, hfound⟩ := List.forall_mem_cons.mp h
    rw [List.flatMap_cons, ofSegment]
    by_cases hempty : s.1 = []
    · rw [List.filter_cons_of_neg (by simpa using hempty), if_pos hempty]
      exact ih hfound
    · rw [List.filter_cons_of_pos (by simpa using hempty), if_neg hempty]
      exact .cons hs (ih hfound)

end

end Parse

-- ---------------------------------------------------------------------------
-- Texts
-- ---------------------------------------------------------------------------

theorem Lexeme.token_span (h : token l = .ok t) : t.span = l.span := by
  unfold token at h
  split at h
  · cases h
    rfl
  · cases h

theorem tokenize_inOrder (h : tokenize text = .ok tokens) : InOrder tokens := by
  obtain ⟨lexemes, hcut⟩ := exists_cut [] text.toList
  rw [tokenize_of_cut hcut] at h
  obtain ⟨found, hfound, rfl⟩ := map_ok.mp h
  -- a token is where its lexeme is, so what holds of the cut holds of the tokens
  have hspans : found.map Token.span = lexemes.map Lexeme.span := by
    have hmap := mapM_ok hfound
    clear hcut hfound h
    induction hmap with
    | nil => rfl
    | cons ht _ ih => rw [List.map_cons, List.map_cons, ih, Lexeme.token_span ht]
  have hplaces : ∀ t ∈ found, t.span.start.AtMost t.span.stop ∧
      t.span.stop.AtMost (Position.after {} text.toList) := by
    intro t ht
    obtain ⟨l, hl, hspan⟩ := List.mem_map.mp (hspans ▸ List.mem_map_of_mem ht)
    obtain ⟨between, behind, hbefore, htext, -⟩ := hcut.mem hl
    have htext : text.toList = (l.before ++ l.spelling) ++ behind := by
      rw [htext, hbefore, List.nil_append, List.append_assoc]
    rw [← hspan, htext, Position.after_append, Lexeme.span, Position.after_append]
    exact ⟨Position.atMost_after _ _, Position.atMost_after _ _⟩
  refine ⟨List.forall_mem_append.mpr ⟨fun t ht => (hplaces t ht).1,
    List.forall_mem_singleton.mpr (.refl _)⟩, List.pairwise_append.mpr ⟨?_,
      List.pairwise_singleton _ _, fun t ht u hu => ?_⟩⟩
  · have hpairs : (lexemes.map Lexeme.span).Pairwise fun s later => s.stop.AtMost later.start :=
      List.pairwise_map.mpr hcut.ordered
    rw [← hspans] at hpairs
    exact List.pairwise_map.mp hpairs
  · rw [List.mem_singleton.mp hu]
    exact (hplaces t ht).2

theorem segment_sublist (h : EndsOnce tokens) (hs : s ∈ segments tokens) :
    (s.1 ++ [s.2]).Sublist tokens := by
  have hsub := List.sublist_flatten_of_mem
    (List.mem_map_of_mem (f := fun s : List Token × Token => s.1 ++ [s.2]) hs)
  rwa [← List.flatMap_def, h.join_segments] at hsub

/-- A text is cut into segments behind every `;`, and each one that is not empty gives one result.
Every node of a statement has a span that begins before it ends, that is inside the tokens which the
node comes from, and that has the spans of the direct sub-expressions in it, in order and without
overlap. An error is at a token of the segment, its end included. A text that does not split into
tokens gives no statements. -/
theorem places_nest (text : String) :
    (∀ f, tokenize text = .error f → parseStatements text = [.error f]) ∧
    ∀ tokens, tokenize text = .ok tokens →
      (segments tokens).flatMap (fun s => s.1 ++ [s.2]) = tokens ∧
      (∀ s ∈ segments tokens, Unended s.1 ∧ s.2.IsStop) ∧
      List.Forall₂ PlacedIn ((segments tokens).filter (·.1 ≠ [])) (parseStatements text) := by
  refine ⟨fun f hf => by rw [parseStatements, hf], fun tokens htokens => ?_⟩
  have hends := tokenize_endsOnce htokens
  have hord := tokenize_inOrder htokens
  refine ⟨hends.join_segments, fun s hs => mem_segments hs, ?_⟩
  have hparse : parseStatements text = Parse.statements tokens := by rw [parseStatements, htokens]
  rw [hparse, (Parse.reads_segments hends).statements_eq]
  refine Parse.forall₂_ofSegment fun s hs => ?_
  obtain ⟨hunended, hstop⟩ := mem_segments hs
  exact Parse.first_placedIn hunended hstop (hord.sublist (segment_sublist hends hs)).of_append.1

/-- Parentheses that end on another line and are no part of any span, a call that is not closed, and
a text that does not split into tokens. -/
theorem places_nest_across_lines :
    let text := "def f(x) if x then (x)\n else 1; (a +\n b * (2)); f(1, (2; "
    (∃ tokens, tokenize text = .ok tokens ∧ (segments tokens).length = 4 ∧
      List.Forall₂ PlacedIn ((segments tokens).filter (·.1 ≠ [])) (parseStatements text) ∧
      (parseStatements text).map (fun r => r.toOption.map Statement.span) =
        [some ⟨⟨0, 4⟩, ⟨0, 5⟩⟩, some ⟨⟨1, 10⟩, ⟨2, 7⟩⟩, none]) ∧
    ∃ f, tokenize "a; 1.2.3" = .error f ∧ parseStatements "a; 1.2.3" = [.error f] := by
  intro text
  obtain ⟨-, htokens⟩ := places_nest text
  have hcount : (tokenize text).toOption.map (fun tokens => (segments tokens).length) = some 4 := by
    decide +kernel
  constructor
  · cases hread : tokenize text with
    | error f => rw [hread] at hcount; cases hcount
    | ok tokens =>
      rw [hread] at hcount
      exact ⟨tokens, rfl, Option.some.inj hcount, (htokens tokens hread).2.2, by decide +kernel⟩
  · have hfails : (tokenize "a; 1.2.3").toOption.isNone = true := by decide +kernel
    cases hread : tokenize "a; 1.2.3" with
    | error f => exact ⟨f, rfl, (places_nest "a; 1.2.3").1 f hread⟩
    | ok tokens => rw [hread] at hfails; cases hfails

end NumericJit
