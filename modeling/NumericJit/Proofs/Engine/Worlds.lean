import NumericJit.Proofs.Engine.Growth
import NumericJit.Proofs.Wasm.Worlds

/-!
# Resident functions in related worlds

Two lists of resident functions are compared at some of their addresses, from which no link leads
away (`AlikeAt`). If at these addresses both have the same code, or host functions that answer alike
in related worlds, then calls at these addresses answer alike and leave the worlds related.
-/

namespace NumericJit

variable {S S' : Type}

def hostCall (run : List Number → S → HostReply S) (args : List Number) (w : World S) :
    CallResult (World S) :=
  (.ok (run args w.state).value,
    { output := w.output ++ (run args w.state).output, state := (run args w.state).state })

/-- The same code, or host functions that answer alike in related worlds. -/
inductive ResidentBody.Alike (R : World S → World S' → Prop) :
    ResidentBody S → ResidentBody S' → Prop where
  | host (h : ∀ args {w w'}, R w w' →
      CallResult.Alike R (hostCall run args w) (hostCall run' args w')) :
    Alike R (.host run) (.host run')
  | code (locals : Nat) (body : List Wasm.Op) (links : List Nat) :
    Alike R (.code locals body links) (.code locals body links)

structure ResidentFunction.Alike (R : World S → World S' → Prop) (s : ResidentFunction S)
    (s' : ResidentFunction S') : Prop where
  name : s.name = s'.name
  arity : s.arity = s'.arity
  body : s.body.Alike R s'.body

def ResidentFunction.links (s : ResidentFunction S) : List Nat :=
  match s.body with
  | .host _ => []
  | .code _ _ links => links

/-- Two lists of resident functions are alike at certain addresses, and what is there calls such
addresses only. -/
structure AlikeAt (R : World S → World S' → Prop) (seen : Nat → Prop)
    (symbols : List (ResidentFunction S)) (symbols' : List (ResidentFunction S')) : Prop where
  symbol : ∀ {a}, seen a → Option.Rel (ResidentFunction.Alike R) symbols[a]? symbols'[a]?
  links : ∀ {a s}, seen a → symbols[a]? = some s → ∀ link ∈ s.links, seen link

namespace AlikeAt

variable {R : World S → World S' → Prop} {seen : Nat → Prop}
  {symbols : List (ResidentFunction S)} {symbols' : List (ResidentFunction S')}
  {w : World S} {w' : World S'}

theorem found (h : AlikeAt R seen symbols symbols') (ha : seen a) :
    (symbols[a]? = none ∧ symbols'[a]? = none) ∨
      ∃ s s', symbols[a]? = some s ∧ symbols'[a]? = some s' ∧ s.Alike R s' := by
  have hsymbol := h.symbol ha
  generalize symbols[a]? = found at hsymbol
  generalize symbols'[a]? = found' at hsymbol
  cases hsymbol with
  | none => exact .inl ⟨rfl, rfl⟩
  | some hs => exact .inr ⟨_, _, rfl, rfl, hs⟩

theorem callees {links : List Nat} (h : AlikeAt R seen symbols symbols')
    (hlinks : ∀ link ∈ links, seen link)
    (hcalls : ∀ {a args w w'}, seen a → R w w' → CallResult.Alike R
      (ResidentEngine.callAt symbols fuel depth a args w)
      (ResidentEngine.callAt symbols' fuel depth a args w')) :
    (ResidentEngine.callees symbols fuel depth links).Alike R
      (ResidentEngine.callees symbols' fuel depth links) := by
  constructor
  · funext index
    simp only [ResidentEngine.callees]
    cases hlink : links[index]? with
    | none => rfl
    | some link =>
      simp only [Option.bind_some]
      obtain ⟨hs, hs'⟩ | ⟨s, s', hs, hs', halike⟩ :=
        h.found (hlinks link (List.mem_of_getElem? hlink))
      · rw [hs, hs']
        rfl
      · rw [hs, hs']
        exact congrArg some halike.arity.symm
  · intro index args w w' hw
    simp only [ResidentEngine.callees]
    cases hlink : links[index]? with
    | none => exact ⟨rfl, hw⟩
    | some link => exact hcalls (hlinks link (List.mem_of_getElem? hlink)) hw

theorem callAt (h : AlikeAt R seen symbols symbols') (ha : seen a) (fuel depth : Nat)
    (args : List Number) (hw : R w w') :
    CallResult.Alike R (ResidentEngine.callAt symbols fuel depth a args w)
      (ResidentEngine.callAt symbols' fuel depth a args w') := by
  induction depth generalizing a args w w' with
  | zero => exact ⟨rfl, hw⟩
  | succ depth ih =>
    obtain ⟨hs, hs'⟩ | ⟨⟨_, _, body⟩, ⟨_, _, body'⟩, hs, hs', halike⟩ := h.found ha
    · simp only [ResidentEngine.callAt, hs, hs']
      exact ⟨rfl, hw⟩
    · have hbody : body.Alike R body' := halike.body
      cases hbody with
      | host hrun =>
        rw [ResidentEngine.callAt_host hs rfl, ResidentEngine.callAt_host hs' rfl]
        exact hrun args hw
      | code locals ops links =>
        rw [ResidentEngine.callAt_code hs rfl, ResidentEngine.callAt_code hs' rfl]
        refine Wasm.call_alike fuel (h.callees (h.links ha hs) ?_) locals ops args hw
        exact fun ha hw => ih ha _ hw

theorem invoke {e : ResidentEngine S} {e' : ResidentEngine S'}
    (h : AlikeAt R seen e.symbols e'.symbols) (hlimits : e'.limits = e.limits) (ha : seen a)
    (args : List Number) (hw : R w w') :
    (e.invoke a args w).1 = (e'.invoke a args w').1 ∧
      R (e.invoke a args w).2 (e'.invoke a args w').2 := by
  obtain ⟨hs, hs'⟩ | ⟨s, s', hs, hs', halike⟩ := h.found ha
  · simp only [ResidentEngine.invoke, hs, hs']
    exact ⟨trivial, hw⟩
  · by_cases harity : s.arity = args.length
    · have hcall := h.callAt ha e.limits.loopRounds e.limits.callDepth args hw
      rw [ResidentEngine.invoke_eq hs harity, ResidentEngine.invoke_eq hs' (halike.arity ▸ harity),
        hlimits, ← halike.name]
      exact ⟨congrArg (invoked s.name) hcall.answer, hcall.world⟩
    · simp only [ResidentEngine.invoke, hs, hs', ← halike.arity, ← halike.name, if_neg harity]
      exact ⟨trivial, hw⟩

end AlikeAt

end NumericJit
