import Mathlib.Data.List.Induction
import NumericJit.Text.Comments

/-!
# Following comments

Whether a text ends in a comment is found character by character (`commentAfter_foldl_iff`), and so
is whether something stands outside comments (`foundFrom_cons`, `foundFrom_concat`).
-/

namespace NumericJit.Text

variable {cs : List Char} {c : Char}

theorem not_endsInComment_nil : ¬ EndsInComment [] := by
  rintro ⟨before, body, h, -⟩
  simp at h

theorem endsInComment_concat :
    EndsInComment (cs ++ [c]) ↔ c ≠ '\n' ∧ (EndsInComment cs ∨ c = '#') := by
  constructor
  · rintro ⟨before, body, h, hbody⟩
    obtain rfl | ⟨body, d, rfl⟩ := List.eq_nil_or_concat body
    · obtain ⟨-, rfl⟩ := List.append_singleton_inj.mp h
      exact ⟨by decide, .inr rfl⟩
    · rw [List.concat_eq_append] at h hbody
      rw [← List.cons_append, ← List.append_assoc] at h
      obtain ⟨rfl, rfl⟩ := List.append_singleton_inj.mp h
      rw [List.mem_append, not_or, List.mem_singleton] at hbody
      exact ⟨Ne.symm hbody.2, .inl ⟨before, body, rfl, hbody.1⟩⟩
  · rintro ⟨hc, ⟨before, body, rfl, hbody⟩ | rfl⟩
    · refine ⟨before, body ++ [c], by simp, ?_⟩
      rw [List.mem_append, List.mem_singleton]
      exact not_or.mpr ⟨hbody, Ne.symm hc⟩
    · exact ⟨cs, [], rfl, List.not_mem_nil⟩

theorem not_endsInComment_newline (cs : List Char) : ¬ EndsInComment (cs ++ ['\n']) :=
  fun h => (endsInComment_concat.mp h).1 rfl

theorem commentAfter_of_ne (h : c ≠ '#') : commentAfter false c = false := by
  simp [commentAfter, h]

theorem commentAfter_foldl_iff (cs : List Char) :
    cs.foldl commentAfter false = true ↔ EndsInComment cs := by
  induction cs using List.reverseRecOn with
  | nil => simpa using not_endsInComment_nil
  | append_singleton cs c ih =>
    rw [List.foldl_append, endsInComment_concat, ← ih]
    simp [commentAfter]

theorem commentAfter_foldl_eq_false (cs : List Char) :
    cs.foldl commentAfter false = false ↔ ¬ EndsInComment cs := by
  rw [← commentAfter_foldl_iff, Bool.not_eq_true]

-- ---------------------------------------------------------------------------
-- What stands outside
-- ---------------------------------------------------------------------------

/-- A character with some property stands outside comments, in a text that may begin inside one. -/
def FoundFrom (commented : Bool) (p : Char → Prop) (cs : List Char) : Prop :=
  ∃ before c rest, cs = before ++ c :: rest ∧
    (before ++ [c]).foldl commentAfter commented = false ∧ p c

theorem foundFrom_false (p : Char → Prop) (cs : List Char) :
    FoundFrom false p cs ↔ HasOutside p cs := by
  unfold FoundFrom HasOutside
  simp only [commentAfter_foldl_eq_false]

theorem not_foundFrom_nil (commented : Bool) (p : Char → Prop) : ¬ FoundFrom commented p [] := by
  rintro ⟨before, c, rest, h, -⟩
  simp at h

theorem not_hasOutside_nil (p : Char → Prop) : ¬ HasOutside p [] :=
  fun h => not_foundFrom_nil _ _ ((foundFrom_false ..).mpr h)

theorem foundFrom_cons (commented : Bool) (p : Char → Prop) (c : Char) (cs : List Char) :
    FoundFrom commented p (c :: cs) ↔
      (commentAfter commented c = false ∧ p c) ∨ FoundFrom (commentAfter commented c) p cs := by
  constructor
  · rintro ⟨before, d, rest, h, hoff, hd⟩
    cases before with
    | nil =>
      obtain ⟨rfl, rfl⟩ := List.cons.inj h
      exact .inl ⟨hoff, hd⟩
    | cons b before =>
      obtain ⟨rfl, rfl⟩ := List.cons.inj h
      exact .inr ⟨before, d, rest, rfl, hoff, hd⟩
  · rintro (⟨hoff, hc⟩ | ⟨before, d, rest, rfl, hoff, hd⟩)
    · exact ⟨[], c, cs, rfl, hoff, hc⟩
    · exact ⟨c :: before, d, rest, rfl, hoff, hd⟩

theorem foundFrom_append (commented : Bool) (p : Char → Prop) (cs ds : List Char) :
    FoundFrom commented p (cs ++ ds) ↔
      FoundFrom commented p cs ∨ FoundFrom (cs.foldl commentAfter commented) p ds := by
  induction cs generalizing commented with
  | nil => simp [not_foundFrom_nil]
  | cons c cs ih =>
    rw [List.cons_append, foundFrom_cons, foundFrom_cons, ih, or_assoc, List.foldl_cons]

theorem hasOutside_concat (p : Char → Prop) (cs : List Char) (c : Char) :
    HasOutside p (cs ++ [c]) ↔ HasOutside p cs ∨ ¬ EndsInComment (cs ++ [c]) ∧ p c := by
  rw [← foundFrom_false, foundFrom_append, foundFrom_false, foundFrom_cons,
    ← commentAfter_foldl_eq_false, List.foldl_append]
  simp [not_foundFrom_nil]

/-- Lines have nothing to do with each other's comments. -/
theorem hasOutside_newline (p : Char → Prop) (cs ds : List Char) :
    HasOutside p (cs ++ '\n' :: ds) ↔ HasOutside p (cs ++ ['\n']) ∨ HasOutside p ds := by
  have hline := (commentAfter_foldl_eq_false _).mpr (not_endsInComment_newline cs)
  rw [List.append_cons, ← foundFrom_false, foundFrom_append, hline, foundFrom_false,
    foundFrom_false]

end NumericJit.Text
