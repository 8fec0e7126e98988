import NumericJit.Meaning.Session
import NumericJit.Proofs.Engine.Growth
import NumericJit.Proofs.Statement.Words
import NumericJit.Proofs.Wasm.Simulation

/-!
# Resident functions do what their trees mean

A resident function stands for a host function or for the tree that its code was made of
(`Implements`), and what it is linked to are the functions that the tree calls by name. In an engine
where every resident function does so (`Linked`), calling an address comes to the same as calling
the name on trees (`Linked.calls_match`), for any bound on calls inside calls and on rounds of a
loop. Making a host function resident and finalizing a unit keep an engine linked.
-/

namespace NumericJit

variable {S : Type}

/-- Worlds that host functions cannot tell apart. Where only host functions write, the output is
the same too. -/
structure SameWorld (quiet : Prop) (w₁ w₂ : World S) : Prop where
  state : w₁.state = w₂.state
  output : quiet → w₁.output = w₂.output

theorem SameWorld.refl (w : World S) : SameWorld quiet w w := ⟨rfl, fun _ => rfl⟩

theorem SameWorld.eq_of_quiet (h : SameWorld quiet w₁ w₂) (hquiet : quiet) : w₁ = w₂ := by
  obtain ⟨output₁, state₁⟩ := w₁
  obtain ⟨output₂, state₂⟩ := w₂
  obtain ⟨hstate, houtput⟩ := h
  exact congrArg₂ World.mk (houtput hquiet) hstate

def NameTable.Extends (t' t : NameTable α) : Prop :=
  ∀ name x, t.get? name = some x → t'.get? name = some x

open Wasm in
/-- What a resident function stands for, in an engine with these symbols, where the names of `table`
can be called. -/
inductive Implements (symbols : List (ResidentFunction S)) (table : NameTable (TreeFunction S))
    (s : ResidentFunction S) : TreeFunction S → Prop where
  | host (hbody : s.body = .host run) : Implements symbols table s (.host s.arity run)
  | tree (u : CodeUnit) (hsound : u.Sound) (hf : .ofTree s.name params body ∈ u.functions)
    (hformed : body.Formed u.arityOf params) (harity : s.arity = params.length)
    (hbody : s.body = .code (SlotFunction.ofTree s.name params body).localCount
      (bodyOps u (.ofTree s.name params body)) links)
    (hcallees : ∀ c ∈ body.callees, ∃ f, table.get? c = some f ∧ u.arity? c = some f.arity)
    (hlinks : LinksFit symbols u links) :
    Implements symbols table s (.tree params body)

/-- Every function of the table is resident, and every resident function is one of the table or
has a name that cannot be called. -/
structure Linked (symbols : List (ResidentFunction S)) (table : NameTable (TreeFunction S)) :
    Prop where
  names : (symbols.map (·.name)).Nodup
  plain : ∀ {name f}, table.get? name = some f → IsPlain name
  resident : ∀ {name f}, table.get? name = some f → ∃ s ∈ symbols, s.name = name
  implements : ∀ s ∈ symbols, ∃ f, Implements symbols table s f ∧
    (IsPlain s.name → table.get? s.name = some f)

section
variable {symbols : List (ResidentFunction S)} {table : NameTable (TreeFunction S)}
  {s : ResidentFunction S} {f : TreeFunction S}

theorem Implements.arity (h : Implements symbols table s f) : f.arity = s.arity := by
  cases h with
  | host hbody => rfl
  | tree u hsound hf hformed harity hbody hcallees hlinks => exact harity.symm

theorem Implements.mono (h : Implements symbols table s f) (more : List (ResidentFunction S))
    (hext : NameTable.Extends table' table) : Implements (symbols ++ more) table' s f := by
  cases h with
  | host hbody => exact .host hbody
  | tree u hsound hf hformed harity hbody hcallees hlinks =>
    refine .tree u hsound hf hformed harity hbody (fun c hc => ?_) (hlinks.mono more)
    obtain ⟨f, hf, harity⟩ := hcallees c hc
    exact ⟨f, hext c f hf, harity⟩

-- ---------------------------------------------------------------------------
-- Calls
-- ---------------------------------------------------------------------------

variable {quiet : Prop} {fuel depth : Nat} {args : List Number} {w₁ w₂ : World S}

theorem LinksFit.fit (h : LinksFit symbols u links) :
    (ResidentEngine.callees symbols fuel depth links).Fit u := by
  intro c i k htarget
  obtain ⟨a, s, ha, hs, -, harity⟩ := h i (c, k) (CodeUnit.callables_of_callTarget? htarget)
  simp [ResidentEngine.callees, ha, hs, harity]

theorem LinksFit.byName (h : LinksFit symbols u links) (hsound : u.Sound)
    (hc : u.arity? c = some k) :
    ∃ a s, symbols[a]? = some s ∧ s.name = c ∧ ∀ args w,
      (ResidentEngine.callees symbols fuel depth links).byName u c args w =
        ResidentEngine.callAt symbols fuel depth a args w := by
  obtain ⟨i, htarget, hget⟩ := hsound.callTarget? hc
  obtain ⟨a, s, ha, hs, hname, -⟩ := h i (c, k) hget
  refine ⟨a, s, hs, hname, fun args w => ?_⟩
  simp only [Wasm.Callees.byName, htarget, ResidentEngine.callees, ha]

/-- Calls of addresses come to the same as calls of names, at some depth. -/
def CallsMatch (quiet : Prop) (symbols : List (ResidentFunction S))
    (table : NameTable (TreeFunction S)) (fuel depth : Nat) : Prop :=
  ∀ {a s f args w₁ w₂}, symbols[a]? = some s → table.get? s.name = some f →
    args.length = f.arity → SameWorld quiet w₁ w₂ →
    SameAnswer (SameWorld quiet) (ResidentEngine.callAt symbols fuel depth a args w₁)
      (TreeSession.call table fuel depth s.name args w₂)

theorem Implements.run_alike (h : Implements symbols table s f) (ha : symbols[a]? = some s)
    (hcalls : CallsMatch quiet symbols table fuel depth) (hlen : args.length = f.arity)
    (hw : SameWorld quiet w₁ w₂) :
    SameAnswer (SameWorld quiet) (ResidentEngine.callAt symbols fuel (depth + 1) a args w₁)
      (f.run (TreeSession.call table fuel depth) fuel args w₂) := by
  cases h with
  | @host run hbody =>
    rw [ResidentEngine.callAt_host ha hbody, TreeFunction.run, hw.state]
    refine ⟨rfl, by simp, rfl, fun hquiet => ?_⟩
    rw [hw.output hquiet]
  | @tree params body links u hsound hf hformed harity hbody hcallees hlinks =>
    rw [ResidentEngine.callAt_code ha hbody, TreeFunction.run,
      hsound.call_of_tree hlinks.fit fuel hf hformed hlen]
    -- only the callees of the body are known to be in the table
    have hown : body.Formed (fun c => if c ∈ body.callees then u.arityOf c else .error .noStatement)
        params := by
      refine Expr.formed_of_check (Expr.check_mono hformed.check fun c hc k hk => ?_)
      rw [if_pos hc, hk]
    refine asFunction_alike (fun {c args w₁ w₂} hc hw => ?_) fuel hown hlen hw
    split at hc
    · rename_i hmem
      obtain ⟨f, hf, hknown⟩ := hcallees c hmem
      obtain ⟨a, s, hs, rfl, hcall⟩ := hlinks.byName hsound hknown
      rw [hcall]
      refine hcalls hs hf ?_ hw
      rw [CodeUnit.arityOf, hknown] at hc
      exact (Except.ok.inj hc).symm
    · cases hc

theorem Linked.calls_match (h : Linked symbols table) (quiet : Prop) (fuel depth : Nat) :
    CallsMatch quiet symbols table fuel depth := by
  induction depth with
  | zero => exact fun _ _ _ hw => ⟨rfl, by simp [ResidentEngine.callAt], hw⟩
  | succ depth ih =>
    intro a s f args w₁ w₂ ha hf hlen hw
    obtain ⟨f', himpl, hf'⟩ := h.implements s (List.mem_of_getElem? ha)
    obtain rfl : f' = f := Option.some.inj ((hf' (h.plain hf)).symm.trans hf)
    rw [TreeSession.call, hf]
    exact himpl.run_alike ha ih hlen hw

-- ---------------------------------------------------------------------------
-- Engines that grow
-- ---------------------------------------------------------------------------

theorem linked_nil : Linked ([] : List (ResidentFunction S)) {} where
  names := .nil
  plain h := by cases h
  resident h := by cases h
  implements := by simp

theorem Linked.symbol (h : Linked symbols table) (hf : table.get? name = some f) :
    ∃ s ∈ symbols, s.name = name ∧ s.arity = f.arity := by
  obtain ⟨s, hs, rfl⟩ := h.resident hf
  obtain ⟨f', himpl, hf'⟩ := h.implements s hs
  obtain rfl : f' = f := Option.some.inj ((hf' (h.plain hf)).symm.trans hf)
  exact ⟨s, hs, rfl, himpl.arity.symm⟩

theorem Linked.grow (h : Linked symbols table) {new : List (ResidentFunction S)}
    (hext : NameTable.Extends table' table)
    (htable : ∀ {name f}, table'.get? name = some f →
      table.get? name = some f ∨ (IsPlain name ∧ ∃ s ∈ new, s.name = name))
    (hnames : (new.map (·.name)).Nodup) (hfresh : ∀ s ∈ new, ∀ s' ∈ symbols, s'.name ≠ s.name)
    (himpl : ∀ s ∈ new, ∃ f, Implements (symbols ++ new) table' s f ∧
      (IsPlain s.name → table'.get? s.name = some f)) :
    Linked (symbols ++ new) table' where
  names := by
    rw [List.map_append, List.nodup_append]
    refine ⟨h.names, hnames, fun a ha b hb => ?_⟩
    obtain ⟨s', hs', rfl⟩ := List.mem_map.mp ha
    obtain ⟨s, hs, rfl⟩ := List.mem_map.mp hb
    exact hfresh s hs s' hs'
  plain hf := by
    rcases htable hf with hf | ⟨hplain, -⟩
    · exact h.plain hf
    · exact hplain
  resident hf := by
    rcases htable hf with hf | ⟨-, s, hs, hname⟩
    · obtain ⟨s, hs, hname⟩ := h.resident hf
      exact ⟨s, List.mem_append_left _ hs, hname⟩
    · exact ⟨s, List.mem_append_right _ hs, hname⟩
  implements s hs := by
    rcases List.mem_append.mp hs with hs | hs
    · obtain ⟨f, hf, hplain⟩ := h.implements s hs
      exact ⟨f, hf.mono new hext, fun hs => hext s.name f (hplain hs)⟩
    · exact himpl s hs

theorem NameTable.extends_set {t : NameTable α} (h : t.get? name = none) (x : α) :
    Extends (t.set name x) t := by
  intro other y hy
  rw [get?_set, if_neg]
  · exact hy
  · rintro rfl
    rw [h] at hy
    cases hy

theorem Linked.declare (h : Linked symbols table) {host : HostFunction S}
    (hplain : IsPlain host.name)
    (hnew : ∀ s ∈ symbols, s.name ≠ host.name) :
    Linked (symbols ++ [⟨host.name, host.arity, .host host.run⟩])
      (table.set host.name (.host host.arity host.run)) := by
  have habsent : table.get? host.name = none := by
    cases hf : table.get? host.name with
    | none => rfl
    | some f =>
      obtain ⟨s, hs, hname⟩ := h.resident hf
      exact absurd hname (hnew s hs)
  refine h.grow (NameTable.extends_set habsent _) (fun {name f} hf => ?_) (by simp)
    (by simpa using hnew) ?_
  · rw [NameTable.get?_set] at hf
    split at hf
    · rename_i heq
      subst heq
      exact .inr ⟨hplain, by simp⟩
    · exact .inl hf
  · intro s hs
    rw [List.mem_singleton] at hs
    subst hs
    exact ⟨_, .host rfl, fun _ => by simp [NameTable.get?_set]⟩

end

-- ---------------------------------------------------------------------------
-- Finalizing a unit
-- ---------------------------------------------------------------------------

namespace ResidentEngine

variable {e : ResidentEngine S} {u : CodeUnit}

theorem finalize_invalid (h : u.Sound) (hvalid : (Wasm.assembled u).isValid = false) :
    Engine.finalize u e = (.error { cause := .invalidModule u.id }, e) := by
  simp only [Engine.finalize, finalize, h.encode, hvalid]
  rfl

end ResidentEngine

/-- A unit of well-formed definitions on top of the functions of a table. Those of them that can be
called stand in `table'` besides. -/
structure UnitOver (u : CodeUnit) (definitions : List TreeDefinition)
    (table table' : NameTable (TreeFunction S)) : Prop where
  sound : u.Sound
  functions : u.functions = definitions.map TreeDefinition.code
  externals : ∀ c ∈ u.externals, ∃ f, table.get? c.1 = some f ∧ f.arity = c.2
  formed : ∀ d ∈ definitions, d.body.Formed u.arityOf d.params
  callees : ∀ d ∈ definitions, ∀ c ∈ d.body.callees,
    ∃ f, table'.get? c = some f ∧ u.arity? c = some f.arity
  older : NameTable.Extends table' table
  newer : ∀ {name f}, table'.get? name = some f →
    table.get? name = some f ∨ (IsPlain name ∧ ∃ d ∈ definitions, d.name = name)
  entries : ∀ d ∈ definitions, IsPlain d.name → table'.get? d.name = some (.tree d.params d.body)

section
variable {e : ResidentEngine S} {u : CodeUnit} {table table' : NameTable (TreeFunction S)}

theorem UnitOver.implements (hu : UnitOver u definitions table table')
    (hlinks : LinksFit (e.symbols ++ u.functions.map (e.ofUnit u)) u (e.linksOf u))
    (hd : d ∈ definitions) :
    Implements (e.symbols ++ u.functions.map (e.ofUnit u)) table'
      (e.ofUnit u d.code) (.tree d.params d.body) :=
  .tree u hu.sound (hu.functions ▸ List.mem_map_of_mem hd) (hu.formed d hd) rfl rfl
    (hu.callees d hd) hlinks

theorem Linked.accepts (h : Linked e.symbols table) (hindexed : e.Indexed)
    (hu : UnitOver u definitions table table') (hvalid : (Wasm.assembled u).isValid = true)
    (hfresh : ∀ f ∈ u.functions, e.isResident f.name = false) : e.Accepts u where
  assembles := by
    intro f hf
    obtain ⟨ops, hops, -⟩ := hu.sound.body_typed hf
    exact ⟨ops, hops⟩
  valid := hvalid
  fresh := hfresh
  imports := by
    intro c hc
    obtain ⟨f, hf, harity⟩ := hu.externals c hc
    obtain ⟨s, hs, hname, hsarity⟩ := h.symbol hf
    exact hindexed.provides_iff.mpr
      (List.mem_map.mpr ⟨s, hs, Prod.ext hname (hsarity.trans harity)⟩)

/-- A unit that is accepted becomes resident as a whole, and the engine stays linked. -/
theorem Linked.withUnit (h : Linked e.symbols table) (hindexed : e.Indexed)
    (hu : UnitOver u definitions table table') (haccepts : e.Accepts u) :
    Linked (e.withUnit u).symbols table' ∧
      ∀ d ∈ definitions, e.ofUnit u d.code ∈ (e.withUnit u).symbols ∧
        Implements (e.withUnit u).symbols table' (e.ofUnit u d.code) (.tree d.params d.body) := by
  have hlinks := hindexed.linksFit haccepts.imports
  have hmem : ∀ d ∈ definitions, e.ofUnit u d.code ∈ u.functions.map (e.ofUnit u) :=
    fun d hd => List.mem_map_of_mem (hu.functions ▸ List.mem_map_of_mem hd)
  rw [ResidentEngine.withUnit_symbols]
  refine ⟨h.grow hu.older (fun hf => ?_) ?_ ?_ ?_,
    fun d hd => ⟨List.mem_append_right _ (hmem d hd), hu.implements hlinks hd⟩⟩
  · rcases hu.newer hf with hf | ⟨hplain, d, hd, hname⟩
    · exact .inl hf
    · exact .inr ⟨hplain, _, hmem d hd, hname⟩
  · rw [List.map_map]
    exact haccepts.nodup
  · intro s hs s' hs' heq
    obtain ⟨f, hf, rfl⟩ := List.mem_map.mp hs
    have hresident : e.isResident f.name = true := hindexed.isResident_iff.mpr ⟨s', hs', heq⟩
    rw [haccepts.fresh f hf] at hresident
    cases hresident
  · intro s hs
    obtain ⟨f, hf, rfl⟩ := List.mem_map.mp hs
    rw [hu.functions] at hf
    obtain ⟨d, hd, rfl⟩ := List.mem_map.mp hf
    exact ⟨_, hu.implements hlinks hd, hu.entries d hd⟩

theorem Linked.evaluate_alike {t : TreeSession S} (h : Linked e.symbols t.committed)
    (hlimits : e.limits = t.limits)
    (himpl : Implements e.symbols t.committed s (.tree [] body)) (ha : e.symbols[a]? = some s)
    (hw : SameWorld quiet w₁ w₂) :
    SameAnswer (SameWorld quiet)
      (ResidentEngine.callAt e.symbols e.limits.loopRounds e.limits.callDepth a [] w₁)
      (t.evaluate body w₂) := by
  rw [TreeSession.evaluate, hlimits]
  cases t.limits.callDepth with
  | zero => exact ⟨rfl, by simp [ResidentEngine.callAt], hw⟩
  | succ depth => exact himpl.run_alike ha (h.calls_match quiet _ depth) rfl hw

end

end NumericJit
