import NumericJit.Proofs.Statement.Derivations

/-!
# What reading an expression looks at

Reading an expression takes tokens from the front (`ReadsExpression.suffix`) and looks at one more.
As long as that one is there, tokens behind it make no difference (`ReadsExpression.extend`).
-/

namespace NumericJit

namespace TokenCursor

def extend (c : TokenCursor) (more : List Token) : TokenCursor := ⟨c.last, c.rest ++ more⟩

variable {c c' : TokenCursor}

theorem extend_kind (h : 0 < c.rest.length) (more : List Token) :
    (c.extend more).kind = c.kind := by
  obtain ⟨last, _ | ⟨t, rest⟩⟩ := c
  · cases h
  · rfl

theorem extend_span (h : 0 < c.rest.length) (more : List Token) :
    (c.extend more).span = c.span := by
  obtain ⟨last, _ | ⟨t, rest⟩⟩ := c
  · cases h
  · rfl

theorem extend_operator? (h : 0 < c.rest.length) (more : List Token) :
    (c.extend more).operator? = c.operator? := by
  rw [operator?, operator?, extend_kind h]

theorem Next.extend (h : c.Next k c') (more : List Token) :
    (c.extend more).Next k (c'.extend more) := by
  obtain ⟨last, t, rest, rfl, hk, rfl⟩ := h.eq
  exact ⟨⟨t, rfl, hk⟩, rfl⟩

theorem Next.pos (h : c.Next k c') : 0 < c.rest.length := by
  rw [h.length]
  exact Nat.succ_pos _

end TokenCursor

namespace Parse

mutual
theorem ReadsExpression.suffix : ReadsExpression c e c' → c'.rest <:+ c.rest
  | .mk first others => others.suffix.trans first.suffix

theorem ReadsOperators.suffix : ReadsOperators least lhs c e c' → c'.rest <:+ c.rest
  | .none _ => List.suffix_rfl
  | .more _ _ hnext first inner others =>
    others.suffix.trans (inner.suffix.trans (first.suffix.trans hnext.suffix))

theorem ReadsOperand.suffix : ReadsOperand level first c e c' → c'.rest <:+ c.rest
  | .alone _ => List.suffix_rfl
  | .folded _ others => others.suffix

theorem ReadsPrimary.suffix : ReadsPrimary c e c' → c'.rest <:+ c.rest
  | .number h => h.suffix
  | .variable h _ => h.suffix
  | .call h hopen hargs hclose =>
    hclose.suffix.trans (hargs.suffix.trans (hopen.suffix.trans h.suffix))
  | .parens hopen he hclose => hclose.suffix.trans (he.suffix.trans hopen.suffix)
  | .branch hif hcondition hthen hyes helse hno =>
    hno.suffix.trans (helse.suffix.trans (hyes.suffix.trans (hthen.suffix.trans
      (hcondition.suffix.trans hif.suffix))))
  | .loop hfor hname heq hstart hcomma hstop hstep hin hbody =>
    hbody.suffix.trans (hin.suffix.trans (hstep.suffix.trans (hstop.suffix.trans
      (hcomma.suffix.trans (hstart.suffix.trans (heq.suffix.trans
        (hname.suffix.trans hfor.suffix)))))))
  | .locals hvar hbindings hin hbody =>
    hbody.suffix.trans (hin.suffix.trans (hbindings.suffix.trans hvar.suffix))

theorem ReadsArguments.suffix : ReadsArguments c args c' → c'.rest <:+ c.rest
  | .none _ => List.suffix_rfl
  | .some h => h.suffix

theorem ReadsArgumentList.suffix : ReadsArgumentList c args c' → c'.rest <:+ c.rest
  | .last he _ => he.suffix
  | .more he hcomma hrest => hrest.suffix.trans (hcomma.suffix.trans he.suffix)

theorem ReadsOptional.suffix : ReadsOptional ch c value c' → c'.rest <:+ c.rest
  | .none _ => List.suffix_rfl
  | .some h he => he.suffix.trans h.suffix

theorem ReadsBindings.suffix : ReadsBindings c bound c' → c'.rest <:+ c.rest
  | .last hname hvalue _ => hvalue.suffix.trans hname.suffix
  | .more hname hvalue hcomma hrest =>
    hrest.suffix.trans (hcomma.suffix.trans (hvalue.suffix.trans hname.suffix))
end

mutual
theorem ReadsExpression.extend (more : List Token) : ReadsExpression c e c' → 0 < c'.rest.length →
    ReadsExpression (c.extend more) e (c'.extend more)
  | .mk first others, hpos =>
    .mk (first.extend more (Nat.lt_of_lt_of_le hpos others.length)) (others.extend more hpos)

theorem ReadsOperators.extend (more : List Token) : ReadsOperators least lhs c e c' →
    0 < c'.rest.length → ReadsOperators least lhs (c.extend more) e (c'.extend more)
  | .none h, hpos => .none (by rwa [TokenCursor.extend_operator? hpos])
  | .more hop hlevel hnext first inner others, hpos =>
    have hpos₃ := Nat.lt_of_lt_of_le hpos others.length
    .more (by rwa [TokenCursor.extend_operator? hnext.pos]) hlevel (hnext.extend more)
      (first.extend more (Nat.lt_of_lt_of_le hpos₃ inner.length)) (inner.extend more hpos₃)
      (others.extend more hpos)

theorem ReadsOperand.extend (more : List Token) : ReadsOperand level first c e c' →
    0 < c'.rest.length → ReadsOperand level first (c.extend more) e (c'.extend more)
  | .alone h, hpos => .alone (by rwa [TokenCursor.extend_operator? hpos])
  | .folded h others, hpos =>
    .folded (by rwa [TokenCursor.extend_operator? (Nat.lt_of_lt_of_le hpos others.length)])
      (others.extend more hpos)

theorem ReadsPrimary.extend (more : List Token) : ReadsPrimary c e c' → 0 < c'.rest.length →
    ReadsPrimary (c.extend more) e (c'.extend more)
  | .number h, _ => by
    rw [← TokenCursor.extend_span h.pos more]
    exact .number (h.extend more)
  | .variable h hopen, hpos => by
    rw [← TokenCursor.extend_span h.pos more]
    exact .variable (h.extend more) (by rwa [TokenCursor.extend_kind hpos])
  | .call h hopen hargs hclose, _ => by
    rw [← TokenCursor.extend_span h.pos more]
    exact .call (h.extend more) (hopen.extend more) (hargs.extend more hclose.pos)
      (hclose.extend more)
  | .parens hopen he hclose, _ =>
    .parens (hopen.extend more) (he.extend more hclose.pos) (hclose.extend more)
  | .branch hif hcondition hthen hyes helse hno, hpos => by
    rw [← TokenCursor.extend_span hif.pos more]
    exact .branch (hif.extend more) (hcondition.extend more hthen.pos) (hthen.extend more)
      (hyes.extend more helse.pos) (helse.extend more) (hno.extend more hpos)
  | .loop hfor hname heq hstart hcomma hstop hstep hin hbody, hpos => by
    rw [← TokenCursor.extend_span hfor.pos more]
    exact .loop (hfor.extend more) (hname.extend more) (heq.extend more)
      (hstart.extend more hcomma.pos) (hcomma.extend more)
      (hstop.extend more (Nat.lt_of_lt_of_le hin.pos hstep.length)) (hstep.extend more hin.pos)
      (hin.extend more) (hbody.extend more hpos)
  | .locals hvar hbindings hin hbody, hpos => by
    rw [← TokenCursor.extend_span hvar.pos more]
    exact .locals (hvar.extend more) (hbindings.extend more hin.pos) (hin.extend more)
      (hbody.extend more hpos)

theorem ReadsArguments.extend (more : List Token) : ReadsArguments c args c' →
    0 < c'.rest.length → ReadsArguments (c.extend more) args (c'.extend more)
  | .none h, hpos => .none (by rwa [TokenCursor.extend_kind hpos])
  | .some h, hpos => .some (h.extend more hpos)

theorem ReadsArgumentList.extend (more : List Token) : ReadsArgumentList c args c' →
    0 < c'.rest.length → ReadsArgumentList (c.extend more) args (c'.extend more)
  | .last he hclose, hpos =>
    .last (he.extend more hpos) (by rwa [TokenCursor.extend_kind hpos])
  | .more he hcomma hrest, hpos =>
    .more (he.extend more hcomma.pos) (hcomma.extend more) (hrest.extend more hpos)

theorem ReadsOptional.extend (more : List Token) : ReadsOptional ch c value c' →
    0 < c'.rest.length → ReadsOptional ch (c.extend more) value (c'.extend more)
  | .none h, hpos => .none (by rwa [TokenCursor.extend_kind hpos])
  | .some h he, hpos => .some (h.extend more) (he.extend more hpos)

theorem ReadsBindings.extend (more : List Token) : ReadsBindings c bound c' →
    0 < c'.rest.length → ReadsBindings (c.extend more) bound (c'.extend more)
  | .last hname hvalue hend, hpos =>
    .last (hname.extend more) (hvalue.extend more hpos) (by rwa [TokenCursor.extend_kind hpos])
  | .more hname hvalue hcomma hrest, hpos =>
    .more (hname.extend more) (hvalue.extend more hcomma.pos) (hcomma.extend more)
      (hrest.extend more hpos)
end

end Parse
end NumericJit
