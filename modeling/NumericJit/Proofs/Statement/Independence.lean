import NumericJit.Proofs.Session.Pieces

/-!
# Statements do not depend on each other

Cut behind every `;`, the tokens of a text are segments. What is read from the text is what is read
from each segment on its own, one after the other (`Parse.statements_segments`), so nothing that
stands in one segment, readable or not, changes what is read from another one
(`Parse.statements_between`).
-/

namespace NumericJit

-- ---------------------------------------------------------------------------
-- Segments
-- ---------------------------------------------------------------------------

instance (t : Token) : Decidable t.IsStop :=
  inferInstanceAs (Decidable (t.kind = .char ';' ∨ t.kind = .endOfInput))

/-- The tokens of every statement, with the `;` or the end of the input behind them. -/
def segments : List Token → List (List Token × Token)
  | [] => []
  | t :: rest =>
    if t.IsStop then ([], t) :: segments rest
    else
      match segments rest with
      | [] => []
      | (tokens, stop) :: others => (t :: tokens, stop) :: others

def Unended (tokens : List Token) : Prop := ∀ t ∈ tokens, ¬ t.IsStop

/-- The last token is the end of the input, and no other one is. -/
def EndsOnce (tokens : List Token) : Prop :=
  ∃ init stop, tokens = init ++ [stop] ∧ stop.kind = .endOfInput ∧ ∀ t ∈ init, t.kind ≠ .endOfInput

section
variable {tokens : List Token} {stop : Token}

theorem segments_append (h : Unended tokens) (hstop : stop.IsStop) (rest : List Token) :
    segments (tokens ++ stop :: rest) = (tokens, stop) :: segments rest := by
  induction tokens with
  | nil => exact if_pos hstop
  | cons t tokens ih =>
    obtain ⟨ht, hrest⟩ := List.forall_mem_cons.mp h
    rw [List.cons_append, segments, if_neg ht, ih hrest]

theorem isSegment_append (h : Unended tokens) (hstop : stop.IsStop) :
    IsSegment stop (tokens ++ [stop]) := by
  induction tokens with
  | nil => exact .stop hstop
  | cons t tokens ih =>
    obtain ⟨ht, hrest⟩ := List.forall_mem_cons.mp h
    exact .cons ht (ih hrest)

theorem IsSegment.exists_append {segment : List Token} (h : IsSegment stop segment) :
    ∃ tokens, segment = tokens ++ [stop] ∧ Unended tokens := by
  induction h with
  | stop h => exact ⟨[], rfl, nofun⟩
  | cons h _ ih =>
    obtain ⟨tokens, rfl, htokens⟩ := ih
    exact ⟨_ :: tokens, rfl, List.forall_mem_cons.mpr ⟨h, htokens⟩⟩

theorem EndsOnce.closed (h : EndsOnce tokens) : Parse.Closed tokens := by
  obtain ⟨init, stop, rfl, hstop, -⟩ := h
  exact ⟨stop, List.mem_append_right init (List.mem_singleton_self stop), hstop⟩

theorem mem_segments {s : List Token × Token} (h : s ∈ segments tokens) :
    Unended s.1 ∧ s.2.IsStop := by
  induction tokens generalizing s with
  | nil => cases h
  | cons t tokens ih =>
    rw [segments] at h
    split at h
    · obtain rfl | h := List.mem_cons.mp h
      · exact ⟨nofun, ‹t.IsStop›⟩
      · exact ih h
    · split at h
      · cases h
      · rename_i first stop others heq
        rw [heq] at ih
        obtain rfl | h := List.mem_cons.mp h
        · obtain ⟨hfirst, hstop⟩ := ih (List.mem_cons_self ..)
          exact ⟨List.forall_mem_cons.mpr ⟨‹¬ t.IsStop›, hfirst⟩, hstop⟩
        · exact ih (List.mem_cons_of_mem _ h)

theorem EndsOnce.split (h : EndsOnce tokens) :
    ∃ first stop rest, tokens = first ++ stop :: rest ∧ Unended first ∧
      (stop.kind = .char ';' ∧ EndsOnce rest ∨ stop.kind = .endOfInput ∧ rest = []) := by
  obtain ⟨init, last, rfl, hlast, hinit⟩ := h
  have hmem : last ∈ init ++ [last] := List.mem_append_right init (List.mem_singleton_self last)
  obtain ⟨stop, segment, rest, heq, hsegment⟩ := exists_isSegment hmem (.inr hlast)
  obtain ⟨first, rfl, hfirst⟩ := hsegment.exists_append
  refine ⟨first, stop, rest, by rw [heq, List.append_assoc, List.singleton_append], hfirst, ?_⟩
  obtain rfl | ⟨rest, last', rfl⟩ := List.eq_nil_or_concat rest
  · rw [List.append_nil] at heq
    obtain rfl := (List.append_singleton_inj.mp heq).2
    exact .inr ⟨hlast, rfl⟩
  · rw [List.concat_eq_append] at heq ⊢
    rw [← List.append_assoc] at heq
    obtain ⟨rfl, rfl⟩ := List.append_singleton_inj.mp heq
    have hstop : stop ∈ first ++ [stop] ++ rest := by simp
    refine .inl ⟨hsegment.isStop.2.resolve_right (hinit stop hstop), rest, last, rfl, hlast, ?_⟩
    exact fun t ht => hinit t (List.mem_append_right _ ht)

/-- Segment by segment: the last one is in front of the end of the input, every other one in front
of a `;`. -/
@[elab_as_elim]
theorem EndsOnce.induct {motive : List Token → Prop}
    (last : ∀ tokens stop, Unended tokens → stop.kind = .endOfInput → motive (tokens ++ [stop]))
    (next : ∀ tokens stop rest, Unended tokens → stop.kind = .char ';' → motive rest →
      motive (tokens ++ stop :: rest)) :
    ∀ {tokens}, EndsOnce tokens → motive tokens
  | tokens, h => by
    obtain ⟨first, stop, rest, htokens, hfirst, hrest⟩ := h.split
    have hlength : rest.length < tokens.length := by
      rw [htokens, List.length_append, List.length_cons]
      omega
    rw [htokens]
    obtain ⟨hk, hrest⟩ | ⟨hk, rfl⟩ := hrest
    · exact next first stop rest hfirst hk (hrest.induct last next)
    · exact last first stop hfirst hk
termination_by tokens => tokens.length

theorem EndsOnce.join_segments (h : EndsOnce tokens) :
    (segments tokens).flatMap (fun s => s.1 ++ [s.2]) = tokens := by
  refine EndsOnce.induct (fun tokens stop htokens hstop => ?_)
    (fun tokens stop rest htokens hstop ih => ?_) h
  · rw [segments_append htokens (.inr hstop)]
    exact List.append_nil _
  · rw [segments_append htokens (.inl hstop), List.flatMap_cons, ih, List.append_assoc,
      List.singleton_append]

theorem tokenize_endsOnce (h : tokenize text = .ok tokens) : EndsOnce tokens := by
  obtain ⟨s, hrun, hfinish⟩ := bind_ok.mp h
  obtain ⟨t, hflush, rfl⟩ := map_ok.mp hfinish
  have hopen : t.IsOpen := (Scanner.IsOpen.run (s := {}) List.not_mem_nil hrun).flush hflush
  rw [List.reverse_cons]
  refine ⟨_, _, rfl, rfl, fun t' ht' hk => hopen ?_⟩
  exact hk ▸ List.mem_map_of_mem (List.mem_reverse.mp ht')

end

-- ---------------------------------------------------------------------------
-- Reading segments
-- ---------------------------------------------------------------------------

namespace Parse

def ofSegment (tokens : List Token) (stop : Token) : List (Except Failure Statement) :=
  if tokens = [] then [] else [first (tokens ++ [stop])]

section
variable {tokens rest : List Token} {stop e : Token}

/-- The statement in front is read on its own, and reading goes on behind it. -/
theorem reads_segment (h : Unended tokens) (hstop : stop.IsStop)
    (hrest : ReadsAs (Placement.next ⟨stop, .identity, rest⟩) results) :
    ReadsAs (tokens ++ stop :: rest) (ofSegment tokens stop ++ results) := by
  cases tokens with
  | nil =>
    obtain hk | hk := hstop
    · rw [Placement.next_of_semicolon hk] at hrest
      exact .skip hk hrest
    · rw [Placement.next_of_end hk] at hrest
      exact hrest
  | cons t tokens =>
    obtain ⟨ht, htokens⟩ := List.forall_mem_cons.mp h
    have hread := ReadsAs.read ht (isSegment_append htokens hstop) hrest
    rw [List.append_assoc] at hread
    exact hread

theorem reads_next_of_end (h : stop.kind = .endOfInput) (rest : List Token) :
    ReadsAs (Placement.next ⟨stop, .identity, rest⟩) [] := by
  rw [Placement.next_of_end h]
  exact .finish h

theorem statements_segment (h : Unended tokens) (hstop : stop.IsStop) (he : e.kind = .endOfInput) :
    statements (tokens ++ [stop, e]) = ofSegment tokens stop := by
  have hrest : ReadsAs (Placement.next ⟨stop, .identity, [e]⟩) [] := by
    obtain hk | hk := hstop
    · rw [Placement.next_of_semicolon hk]
      exact .finish he
    · exact reads_next_of_end hk [e]
  rw [(reads_segment h hstop hrest).statements_eq, List.append_nil]

theorem reads_last (h : Unended tokens) (hstop : stop.kind = .endOfInput) :
    ReadsAs (tokens ++ [stop]) (ofSegment tokens stop) := by
  rw [← List.append_nil (ofSegment tokens stop)]
  exact reads_segment h (.inr hstop) (reads_next_of_end hstop [])

/-- What a text holds is what its segments hold. -/
theorem reads_segments (h : EndsOnce tokens) :
    ReadsAs tokens ((segments tokens).flatMap fun s => ofSegment s.1 s.2) := by
  refine EndsOnce.induct (fun tokens stop htokens hstop => ?_)
    (fun tokens stop rest htokens hstop ih => ?_) h
  · rw [segments_append htokens (.inr hstop), List.flatMap_cons]
    exact (List.append_nil _).symm ▸ reads_last htokens hstop
  · rw [segments_append htokens (.inl hstop), List.flatMap_cons]
    refine reads_segment htokens (.inl hstop) ?_
    rwa [Placement.next_of_semicolon hstop]

theorem length_ofSegment (tokens : List Token) (stop : Token) :
    (ofSegment tokens stop).length = if tokens = [] then 0 else 1 := by
  unfold ofSegment
  split <;> rfl

theorem statements_segments (h : EndsOnce tokens) (he : e.kind = .endOfInput) :
    statements tokens = (segments tokens).flatMap fun s => statements (s.1 ++ [s.2, e]) := by
  rw [(reads_segments h).statements_eq]
  rw [List.flatMap_def, List.flatMap_def]
  refine congrArg List.flatten (List.map_congr_left fun s hs => ?_)
  obtain ⟨htokens, hstop⟩ := mem_segments hs
  exact (statements_segment htokens hstop he).symm

theorem statements_between (hbefore : Ended before) (htokens : Unended tokens)
    (hstop : stop.kind = .char ';') (hrest : Closed rest) (he : e.kind = .endOfInput) :
    statements (before ++ (tokens ++ stop :: rest)) =
      statements (before ++ [e]) ++ (statements (tokens ++ [stop, e]) ++ statements rest) := by
  obtain ⟨results, hresults⟩ := exists_reads hrest
  have hread : ReadsAs (tokens ++ stop :: rest) (ofSegment tokens stop ++ results) := by
    refine reads_segment htokens (.inl hstop) ?_
    rwa [Placement.next_of_semicolon hstop]
  have hclosed : Closed (tokens ++ stop :: rest) := by
    obtain ⟨t, ht, hk⟩ := hrest
    exact ⟨t, List.mem_append_right tokens (List.mem_cons_of_mem stop ht), hk⟩
  rw [statements_append hbefore he hclosed, hread.statements_eq, hresults.statements_eq,
    statements_segment htokens (.inl hstop) he]

end

end Parse

end NumericJit
