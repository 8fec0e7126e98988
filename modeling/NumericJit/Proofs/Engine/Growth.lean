import NumericJit.Meaning.Publications
import NumericJit.Proofs.Wasm.Encoding
import NumericJit.Proofs.Wasm.Reading

/-!
# How an engine grows

Whatever an engine is asked, it stays as it is, takes up a host function under a new name, or takes
up all functions of a unit (`ResidentEngine.Grows`). A unit is taken up if its module is valid, its
names are new and its imports are resident with the arities they are imported with; otherwise the
engine is left as it was, whichever of the ways out was taken (`finalize_cases`). Some of them are
never taken: a module that was encoded can be compiled from its bytes, linked to imports that were
resolved, and asked for the functions of its unit (`instantiate?_assembled`, `exported_assembled`).

Names and addresses go on saying the same as the engine grows (`Indexed`), since no name is
published twice. The links of what was taken up lead to functions with the names and arities under
which the unit calls them (`LinksFit`), and go on doing so too.
-/

namespace NumericJit

variable {S : Type}

/-- Links lead to functions with the names and arities under which the unit calls them. -/
def LinksFit (symbols : List (ResidentFunction S)) (u : CodeUnit) (links : List Nat) : Prop :=
  ∀ (i : Nat) (c : String × Nat), u.callables[i]? = some c →
    ∃ (a : Nat) (s : ResidentFunction S), links[i]? = some a ∧ symbols[a]? = some s ∧
      s.name = c.1 ∧ s.arity = c.2

theorem LinksFit.mono {symbols : List (ResidentFunction S)} (h : LinksFit symbols u links)
    (more : List (ResidentFunction S)) : LinksFit (symbols ++ more) u links := by
  intro i c hi
  obtain ⟨a, s, ha, hs, hrest⟩ := h i c hi
  refine ⟨a, s, ha, ?_, hrest⟩
  rw [List.getElem?_append_left (List.getElem?_eq_some_iff.mp hs).1]
  exact hs

def invoked (name : String) : Except Halt Number → Except Failure Number
  | .ok v => .ok v
  | .error why => .error { cause := ResidentEngine.haltCause name why }

namespace ResidentEngine

-- ---------------------------------------------------------------------------
-- Calls
-- ---------------------------------------------------------------------------

section
variable {symbols : List (ResidentFunction S)} {s : ResidentFunction S} {fuel depth : Nat}
  {args : List Number}

def callees (symbols : List (ResidentFunction S)) (fuel depth : Nat)
    (links : List Nat) : Wasm.Callees (World S) where
  arity? index := links[index]?.bind fun a => symbols[a]?.map (·.arity)
  call index args w :=
    match links[index]? with
    | some a => callAt symbols fuel depth a args w
    | none => (.error .stuck, w)

theorem callAt_host (ha : symbols[a]? = some s) (hbody : s.body = .host run)
    (w : World S) :
    callAt symbols fuel (depth + 1) a args w =
      (.ok (run args w.state).value,
        { output := w.output ++ (run args w.state).output, state := (run args w.state).state }) := by
  simp only [callAt, ha, hbody]

theorem callAt_code (ha : symbols[a]? = some s)
    (hbody : s.body = .code locals body links) (w : World S) :
    callAt symbols fuel (depth + 1) a args w =
      Wasm.call (callees symbols fuel depth links) fuel locals body args w := by
  simp only [callAt, ha, hbody]
  rfl

theorem invoke_eq {engine : ResidentEngine S} (ha : engine.symbols[a]? = some s)
    (harity : s.arity = args.length) (w : World S) :
    engine.invoke a args w =
      let r := callAt engine.symbols engine.limits.loopRounds engine.limits.callDepth a args w
      (invoked s.name r.1, r.2) := by
  simp only [invoke, ha, harity, if_true]
  rcases callAt engine.symbols engine.limits.loopRounds engine.limits.callDepth a args w with
    ⟨value, w'⟩
  cases value <;> rfl

end

-- ---------------------------------------------------------------------------
-- Names and addresses
-- ---------------------------------------------------------------------------

variable {e e' : ResidentEngine S} {u : CodeUnit}

/-- The two things that an engine knows about what is resident say the same: a name has the address
at which it stands, and no other. -/
def Indexed (e : ResidentEngine S) : Prop :=
  ∀ name a, e.address? name = some a ↔ e.names[a]? = some name

theorem indexed_empty (limits : Limits) : Indexed ({ limits } : ResidentEngine S) := by
  intro name a
  simp [address?, names, NameTable.get?]

theorem Indexed.nodup (h : e.Indexed) : e.names.Nodup := by
  refine List.nodup_iff_getElem?_ne_getElem?.mpr fun a b hlt hb heq => ?_
  have hname := List.getElem?_eq_getElem hb
  have hfirst := (h _ a).mpr (heq.trans hname)
  rw [(h _ b).mpr hname, Option.some.injEq] at hfirst
  omega

theorem Indexed.isResident_iff (h : e.Indexed) :
    e.isResident name = true ↔ ∃ s ∈ e.symbols, s.name = name := by
  rw [← List.mem_map (f := ResidentFunction.name), List.mem_iff_getElem?, isResident,
    Option.isSome_iff_exists]
  exact exists_congr fun a => h name a

theorem Indexed.address?_of_symbol (h : e.Indexed) (hs : e.symbols[a]? = some s) :
    e.address? s.name = some a := by
  rw [h s.name a, names, List.getElem?_map, hs]
  rfl

theorem Indexed.symbol_name (h : e.Indexed) (ha : e.address? name = some a)
    (hs : e.symbols[a]? = some s) : s.name = name := by
  rw [h name a, names, List.getElem?_map, hs] at ha
  exact Option.some.inj ha

theorem isResident_publish (f : ResidentFunction S) :
    (e.publish f).isResident name = true ↔ name = f.name ∨ e.isResident name = true := by
  simp only [isResident, address?, publish, NameTable.get?_set]
  split <;> simp [*]

theorem getElem?_concat_eq_some {l : List α} :
    (l ++ [x])[i]? = some y ↔ l[i]? = some y ∨ i = l.length ∧ x = y := by
  rcases Nat.lt_trichotomy i l.length with hlt | rfl | hlt
  · simp [List.getElem?_append_left hlt, Nat.ne_of_lt hlt]
  · simp
  · have hnone : (l ++ [x])[i]? = none := by simpa using Nat.succ_le_of_lt hlt
    have hnone' : l[i]? = none := by simpa using Nat.le_of_lt hlt
    simp [hnone, hnone', Nat.ne_of_gt hlt]

theorem Indexed.publish (h : e.Indexed) {f : ResidentFunction S}
    (hnew : e.isResident f.name = false) : (e.publish f).Indexed := by
  have hnames : (e.publish f).names = e.names ++ [f.name] := by simp [names, ResidentEngine.publish]
  have hlength : e.names.length = e.symbols.length := List.length_map _
  intro name a
  rw [hnames, getElem?_concat_eq_some, ← h name a, hlength]
  simp only [address?, ResidentEngine.publish, NameTable.get?_set]
  split
  · rename_i heq
    subst heq
    -- the name had no address before
    have habsent : e.addresses.get? f.name = none := by simpa [isResident, address?] using hnew
    simp [habsent, eq_comm]
  · rename_i hne
    simp [Ne.symm hne]

theorem publishAll_symbols (new : List (ResidentFunction S)) :
    (new.foldl publish e).symbols = e.symbols ++ new := by
  induction new generalizing e with
  | nil => simp
  | cons f rest ih => rw [List.foldl_cons, ih, publish, List.append_assoc, List.singleton_append]

theorem publishAll_limits (new : List (ResidentFunction S)) :
    (new.foldl publish e).limits = e.limits := by
  induction new generalizing e with
  | nil => rfl
  | cons f rest ih => exact ih

theorem isResident_publishAll {new : List (ResidentFunction S)} :
    (new.foldl publish e).isResident name = true ↔
      e.isResident name = true ∨ ∃ s ∈ new, s.name = name := by
  induction new generalizing e with
  | nil => simp
  | cons f rest ih =>
    rw [List.foldl_cons, ih, isResident_publish, List.exists_mem_cons_iff, eq_comm, or_assoc]
    exact or_left_comm

theorem Indexed.publishAll (h : e.Indexed) {new : List (ResidentFunction S)}
    (hnames : (new.map (·.name)).Nodup) (hfresh : ∀ s ∈ new, e.isResident s.name = false) :
    (new.foldl ResidentEngine.publish e).Indexed := by
  induction new generalizing e with
  | nil => exact h
  | cons f rest ih =>
    obtain ⟨hf, hrest⟩ := List.forall_mem_cons.mp hfresh
    rw [List.map_cons, List.nodup_cons] at hnames
    refine ih (h.publish hf) hnames.2 fun s hs => Bool.eq_false_iff.mpr fun hresident => ?_
    rcases isResident_publish f |>.mp hresident with heq | hresident
    · exact hnames.1 (heq ▸ List.mem_map_of_mem hs)
    · rw [hrest s hs] at hresident
      cases hresident

-- ---------------------------------------------------------------------------
-- Links
-- ---------------------------------------------------------------------------

def Provides (e : ResidentEngine S) (c : String × Nat) : Prop :=
  ∃ a s, e.address? c.1 = some a ∧ e.symbols[a]? = some s ∧ s.arity = c.2

theorem Indexed.provides_iff (h : e.Indexed) : e.Provides c ↔ c ∈ e.signature := by
  rw [signature, List.mem_map]
  constructor
  · rintro ⟨a, s, ha, hs, harity⟩
    exact ⟨s, List.mem_of_getElem? hs, Prod.ext (h.symbol_name ha hs) harity⟩
  · rintro ⟨s, hs, rfl⟩
    obtain ⟨a, ha⟩ := List.mem_iff_getElem?.mp hs
    exact ⟨a, s, h.address?_of_symbol ha, ha, rfl⟩

def supplied (e : ResidentEngine S) (imports : List (String × Nat)) : List (String × Nat) :=
  imports.map fun c => (c.1, (e.address? c.1).getD 0)

theorem resolve_ok :
    e.resolve imports = .ok found ↔ (∀ c ∈ imports, e.Provides c) ∧ found = e.supplied imports := by
  induction imports generalizing found with
  | nil => simp [resolve, supplied, eq_comm]
  | cons c rest ih =>
    obtain ⟨name, arity⟩ := c
    rw [List.forall_mem_cons]
    constructor
    · intro h
      simp only [resolve] at h
      split at h
      · cases h
      · rename_i a s hfound
        obtain ⟨b, hb, hmap⟩ := Option.bind_eq_some_iff.mp hfound
        obtain ⟨s', hs, heq⟩ := Option.map_eq_some_iff.mp hmap
        cases heq
        split at h
        · rename_i harity
          obtain ⟨tail, hrest, rfl⟩ := map_ok.mp h
          obtain ⟨hprovides, rfl⟩ := ih.mp hrest
          exact ⟨⟨⟨a, s, hb, hs, harity⟩, hprovides⟩, by simp [supplied, hb]⟩
        · cases h
    · rintro ⟨⟨⟨a, s, ha, hs, harity⟩, hrest⟩, rfl⟩
      simp only at ha harity
      simp only [resolve, ha, Option.bind_some, hs, Option.map_some, harity, if_true,
        ih.mpr ⟨hrest, rfl⟩, Except.map, supplied, List.map_cons, Option.getD_some]

/-- The addresses of the functions that a unit can call, once it is resident. -/
def linksOf (e : ResidentEngine S) (u : CodeUnit) : List Nat :=
  (e.supplied u.externals).map Prod.snd ++
    (List.range u.functions.length).map fun i => e.symbols.length + i

def ofUnit (e : ResidentEngine S) (u : CodeUnit) (f : SlotFunction) : ResidentFunction S where
  name := f.name
  arity := f.arity
  body := .code f.localCount (Wasm.bodyOps u f) (e.linksOf u)

theorem lookup_supplied (h : c ∈ imports) :
    (e.supplied imports).lookup c.1 = some ((e.address? c.1).getD 0) := by
  induction imports with
  | nil => cases h
  | cons d rest ih =>
    by_cases hname : c.1 = d.1
    · simp [supplied, hname]
    · rcases List.mem_cons.mp h with rfl | h
      · exact absurd rfl hname
      · have hne : (c.1 == d.1) = false := beq_eq_false_iff_ne.mpr hname
        simp only [supplied, List.map_cons, List.lookup_cons, hne]
        exact ih h

/-- A module whose imports are resolved can be linked. -/
theorem instantiate?_assembled (h : ∀ c ∈ u.externals, e.Provides c) :
    e.instantiate? (Wasm.assembled u) (e.supplied u.externals) =
      some ⟨Wasm.assembled u, e.linksOf u⟩ := by
  have hlink : ∀ c ∈ u.externals, e.link? (Wasm.assembled u) (e.supplied u.externals)
      (c.1, (Wasm.typesOf u).idxOf c.2) = some ((e.address? c.1).getD 0) := by
    intro c hc
    obtain ⟨a, s, ha, hs, harity⟩ := h c hc
    have htype : (Wasm.assembled u).types[(Wasm.typesOf u).idxOf c.2]? = some c.2 :=
      Wasm.types_idxOf (List.mem_append_left _ hc)
    simp [link?, lookup_supplied hc, ha, hs, htype, harity]
  have himports : (Wasm.assembled u).imports.mapM
      (e.link? (Wasm.assembled u) (e.supplied u.externals)) =
      some ((e.supplied u.externals).map Prod.snd) := by
    rw [supplied, List.map_map]
    exact List.mapM_map.trans (mapM_eq_pure_map fun c hc => hlink c hc)
  have hlength : (Wasm.assembled u).functions.length = u.functions.length := List.length_map _
  simp only [instantiate?, himports, hlength, Option.bind_eq_bind, Option.bind_some, linksOf]

theorem lookup_of_nodup {l : List (String × β)} (h : (l.map Prod.fst).Nodup) (hmem : x ∈ l) :
    l.lookup x.1 = some x.2 := by
  induction l with
  | nil => cases hmem
  | cons y rest ih =>
    rw [List.map_cons, List.nodup_cons] at h
    rcases List.mem_cons.mp hmem with rfl | hmem
    · rw [List.lookup_cons, beq_self_eq_true]
    · have hne : x.1 ≠ y.1 := fun heq => h.1 (heq ▸ List.mem_map_of_mem hmem)
      rw [List.lookup_cons, beq_eq_false_iff_ne.mpr hne]
      exact ih h.2 hmem

theorem exported_assembled (hnames : (u.functions.map (·.name)).Nodup) :
    exported u.id ⟨Wasm.assembled u, e.linksOf u⟩ (u.functions.map (·.name)) =
      .ok (u.functions.map (e.ofUnit u)) := by
  have hexport : ∀ f ∈ u.functions, Instance.export? ⟨Wasm.assembled u, e.linksOf u⟩ f.name =
      some (e.ofUnit u f) := by
    intro f hf
    obtain ⟨i, hi⟩ := List.mem_iff_getElem?.mp hf
    have hindex : (Wasm.assembled u).exports.lookup f.name = some (u.externals.length + i) := by
      refine lookup_of_nodup (x := (f.name, u.externals.length + i)) ?_ ?_
      · rw [Wasm.assembled_exports]
        exact hnames
      · exact List.mem_map.mpr ⟨(f, i), List.mem_zipIdx_iff_getElem?.mpr hi, rfl⟩
    have hfunc : (Wasm.assembled u).function? (u.externals.length + i) =
        some ⟨(Wasm.typesOf u).idxOf f.arity, f.localCount, Wasm.bodyOps u f⟩ := by
      simp [Wasm.Module.function?, Wasm.assembled, hi]
    have htype : (Wasm.assembled u).types[(Wasm.typesOf u).idxOf f.arity]? = some f.arity :=
      Wasm.types_idxOf (CodeUnit.mem_callables_of_function hf)
    simp [Instance.export?, hindex, hfunc, htype, ofUnit]
  refine List.mapM_map.trans (mapM_eq_pure_map fun f hf => ?_)
  simp only [Function.comp_apply, hexport f hf]
  rfl

/-- Calls inside the unit lead to the places that its functions are about to take. -/
theorem Indexed.linksFit (h : e.Indexed) (himports : ∀ c ∈ u.externals, e.Provides c) :
    LinksFit (e.symbols ++ u.functions.map (e.ofUnit u)) u (e.linksOf u) := by
  have hlen : ((e.supplied u.externals).map Prod.snd).length = u.externals.length := by
    simp [supplied]
  intro i c hc
  by_cases hi : i < u.externals.length
  · rw [CodeUnit.callables, List.getElem?_append_left hi] at hc
    obtain ⟨a, s, ha, hs, harity⟩ := himports c (List.mem_of_getElem? hc)
    refine ⟨a, s, ?_, ?_, h.symbol_name ha hs, harity⟩
    · rw [linksOf, List.getElem?_append_left (hlen ▸ hi)]
      simp [supplied, hc, ha]
    · rw [List.getElem?_append_left (List.getElem?_eq_some_iff.mp hs).1]
      exact hs
  · rw [CodeUnit.callables, List.getElem?_append_right (by omega), List.getElem?_map] at hc
    obtain ⟨f, hf, rfl⟩ := Option.map_eq_some_iff.mp hc
    have hlt := (List.getElem?_eq_some_iff.mp hf).1
    refine ⟨e.symbols.length + (i - u.externals.length), e.ofUnit u f, ?_, ?_, rfl, rfl⟩
    · rw [linksOf, List.getElem?_append_right (by omega), hlen, List.getElem?_map,
        List.getElem?_range hlt]
      rfl
    · rw [List.getElem?_append_right (by omega), Nat.add_sub_cancel_left, List.getElem?_map, hf]
      rfl

-- ---------------------------------------------------------------------------
-- Requests
-- ---------------------------------------------------------------------------

structure Accepts (e : ResidentEngine S) (u : CodeUnit) : Prop where
  assembles : ∀ f ∈ u.functions, ∃ ops, Wasm.opsOfCode u f.name [] f.body = .ok ops
  valid : (Wasm.assembled u).isValid = true
  fresh : ∀ f ∈ u.functions, e.isResident f.name = false
  imports : ∀ c ∈ u.externals, e.Provides c

theorem Accepts.nodup (h : e.Accepts u) : (u.functions.map (·.name)).Nodup := by
  have hvalid := h.valid
  simp only [Wasm.Module.isValid, Bool.and_eq_true, decide_eq_true_eq] at hvalid
  rw [← Wasm.assembled_exports]
  exact hvalid.2

def withUnit (e : ResidentEngine S) (u : CodeUnit) : ResidentEngine S :=
  { (u.functions.map (e.ofUnit u)).foldl publish e with
    instances := e.instances ++ [⟨Wasm.assembled u, e.linksOf u⟩] }

def withHost (e : ResidentEngine S) (h : HostFunction S) : ResidentEngine S :=
  e.publish ⟨h.name, h.arity, .host h.run⟩

@[simp] theorem withUnit_symbols :
    (e.withUnit u).symbols = e.symbols ++ u.functions.map (e.ofUnit u) := publishAll_symbols _

@[simp] theorem withUnit_limits : (e.withUnit u).limits = e.limits := publishAll_limits _

theorem isResident_withUnit :
    (e.withUnit u).isResident name = true ↔
      e.isResident name = true ∨ ∃ f ∈ u.functions, f.name = name := by
  refine isResident_publishAll.trans (or_congr_right ?_)
  simp [ofUnit]

theorem withUnit_units : (e.withUnit u).units = e.units + 1 := by simp [units, withUnit]

theorem finalize_accepted (h : e.Accepts u) : Engine.finalize u e = (.ok (), e.withUnit u) := by
  have hfind : (u.functions.map (·.name)).find? e.isResident = none := by
    simpa using h.fresh
  simp only [Engine.finalize, finalize, Wasm.encode_ok.mpr ⟨h.assembles, h.valid, rfl⟩, hfind,
    Wasm.ofBytes?_bytes, resolve_ok.mpr ⟨h.imports, rfl⟩, instantiate?_assembled h.imports,
    exported_assembled h.nodup]
  rfl

/-- What a unit is refused for, in the order in which it is looked at. -/
inductive Refuses (e : ResidentEngine S) (u : CodeUnit) : Failure → Prop where
  | encoding (h : Wasm.encode u = .error f) : Refuses e u f
  | clash (hencode : Wasm.encode u = .ok encoded)
    (h : (u.functions.map (·.name)).find? e.isResident = some name) :
    Refuses e u { cause := .definesResident u.id name }
  | imports (hencode : Wasm.encode u = .ok encoded)
    (hfind : (u.functions.map (·.name)).find? e.isResident = none)
    (h : e.resolve u.externals = .error f) : Refuses e u f

theorem finalize_refused (h : e.Refuses u f) : Engine.finalize u e = (.error f, e) := by
  cases h with
  | encoding hencode => simp only [Engine.finalize, finalize, hencode]
  | clash hencode hfind =>
    obtain ⟨-, -, rfl⟩ := Wasm.encode_ok.mp hencode
    simp only [Engine.finalize, finalize, hencode, hfind]
  | imports hencode hfind hresolve =>
    obtain ⟨-, -, rfl⟩ := Wasm.encode_ok.mp hencode
    simp only [Engine.finalize, finalize, hencode, hfind, Wasm.ofBytes?_bytes, hresolve]

/-- A unit is taken up as a whole, or the engine is left as it was, whatever was wrong. -/
theorem finalize_cases (e : ResidentEngine S) (u : CodeUnit) :
    (∃ f, e.Refuses u f ∧ Engine.finalize u e = (.error f, e)) ∨
      e.Accepts u ∧ Engine.finalize u e = (.ok (), e.withUnit u) := by
  have hverdict : (∃ f, e.Refuses u f) ∨ e.Accepts u := by
    cases hencode : Wasm.encode u with
    | error f => exact .inl ⟨f, .encoding hencode⟩
    | ok encoded =>
      obtain ⟨hops, hvalid, -⟩ := Wasm.encode_ok.mp hencode
      cases hfind : (u.functions.map (·.name)).find? e.isResident with
      | some name => exact .inl ⟨_, .clash hencode hfind⟩
      | none =>
        cases hresolve : e.resolve u.externals with
        | error f => exact .inl ⟨f, .imports hencode hfind hresolve⟩
        | ok found => exact .inr ⟨hops, hvalid, by simpa using hfind, (resolve_ok.mp hresolve).1⟩
  exact hverdict.imp (fun ⟨f, h⟩ => ⟨f, h, finalize_refused h⟩) fun h => ⟨h, finalize_accepted h⟩

theorem Refuses.not_accepts (h : e.Refuses u f) : ¬ e.Accepts u := by
  intro haccepts
  cases (finalize_refused h).symm.trans (finalize_accepted haccepts)

theorem declare_cases (e : ResidentEngine S) (h : HostFunction S) :
    (∃ f, e.isResident h.name = true ∧ Engine.declare h e = (.error f, e)) ∨
      e.isResident h.name = false ∧ Engine.declare h e = (.ok (), e.withHost h) := by
  simp only [Engine.declare, declare]
  cases e.isResident h.name with
  | true => exact .inl ⟨_, rfl, rfl⟩
  | false => exact .inr ⟨rfl, rfl⟩

inductive Grows (e : ResidentEngine S) : ResidentEngine S → Prop where
  | unchanged : Grows e e
  | host {h : HostFunction S} (hnew : e.isResident h.name = false) : Grows e (e.withHost h)
  | unit {u : CodeUnit} (h : e.Accepts u) : Grows e (e.withUnit u)

theorem Grows.appends (h : e.Grows e') :
    e'.limits = e.limits ∧ ∃ more, e'.symbols = e.symbols ++ more := by
  cases h with
  | unchanged => exact ⟨rfl, [], (List.append_nil _).symm⟩
  | host hnew => exact ⟨rfl, _, rfl⟩
  | unit haccepts => exact ⟨withUnit_limits, _, withUnit_symbols⟩

theorem Indexed.withUnit (h : e.Indexed) (haccepts : e.Accepts u) : (e.withUnit u).Indexed := by
  have hpublished : ((u.functions.map (e.ofUnit u)).foldl ResidentEngine.publish e).Indexed := by
    refine h.publishAll ?_ ?_
    · rw [List.map_map]
      exact haccepts.nodup
    · exact List.forall_mem_map.mpr haccepts.fresh
  exact hpublished

theorem Grows.indexed (hgrows : e.Grows e') (h : e.Indexed) : e'.Indexed := by
  cases hgrows with
  | unchanged => exact h
  | host hnew => exact h.publish hnew
  | unit haccepts => exact h.withUnit haccepts

theorem grows_declare (h : HostFunction S) : e.Grows (Engine.declare h e).2 := by
  obtain ⟨f, -, heq⟩ | ⟨hnew, heq⟩ := e.declare_cases h <;> rw [heq]
  · exact .unchanged
  · exact .host hnew

theorem grows_finalize (u : CodeUnit) : e.Grows (Engine.finalize u e).2 := by
  obtain ⟨f, -, heq⟩ | ⟨haccepts, heq⟩ := e.finalize_cases u <;> rw [heq]
  · exact .unchanged
  · exact .unit haccepts

end ResidentEngine

inductive EngineRequest (S : Type) where
  | declare (h : HostFunction S)
  | finalize (u : CodeUnit)

namespace ResidentEngine

def serve (e : ResidentEngine S) : EngineRequest S → ResidentEngine S
  | .declare h => (Engine.declare h e).2
  | .finalize u => (Engine.finalize u e).2

def serveAll (e : ResidentEngine S) (requests : List (EngineRequest S)) : ResidentEngine S :=
  requests.foldl serve e

theorem grows_serve (e : ResidentEngine S) (request : EngineRequest S) :
    e.Grows (e.serve request) := by
  cases request with
  | declare h => exact grows_declare h
  | finalize u => exact grows_finalize u

/-- What holds of an engine and is kept as it grows holds after any requests. -/
theorem serveAll_keeps {P : ResidentEngine S → Prop} {e : ResidentEngine S} (h : P e)
    (hgrows : ∀ {e e' : ResidentEngine S}, P e → e.Grows e' → P e')
    (requests : List (EngineRequest S)) : P (e.serveAll requests) := by
  induction requests generalizing e with
  | nil => exact h
  | cons request rest ih => exact ih (hgrows h (e.grows_serve request))

end ResidentEngine

end NumericJit
