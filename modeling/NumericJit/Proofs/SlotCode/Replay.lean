import NumericJit.Proofs.Runs
import NumericJit.SlotCode.Replay

/-!
# A builder builds what it is driven through

Calls that replay code put it behind the code of the innermost region and change nothing else but
the number of slots (`Replays.reaches`). The other way round, calls that do not fail have always
come to a stack of open regions, each behind calls that replay its code so far
(`Opens.performAll`). So a function can be finished exactly if all regions are closed, and the calls
are then a replay of its body (`builder_rebuilds_code`).
-/

namespace NumericJit

namespace Builder

variable {b b' b'' : Builder}

-- ---------------------------------------------------------------------------
-- Calls
-- ---------------------------------------------------------------------------

inductive Performs (b : Builder) : BuilderCall → List Nat → Builder → Prop where
  | newSlot : Performs b .newSlot [b.slots] { b with slots := b.slots + 1 }
  | emit (i : Instr) : Performs b (.emit i) [] { b with code := b.code ++ [i] }
  | beginLoop :
    Performs b .beginLoop [] { b with code := [], enclosing := (.loop, b.code) :: b.enclosing }
  | endLoop (h : b.enclosing = (.loop, around) :: rest) :
    Performs b .endLoop [] { b with code := around ++ [.loop b.code], enclosing := rest }
  | beginIf :
    Performs b .beginIf [] { b with code := [], enclosing := (.yes, b.code) :: b.enclosing }
  | beginElse (h : b.enclosing = (.yes, around) :: rest) :
    Performs b .beginElse [] { b with code := [], enclosing := (.no b.code, around) :: rest }
  | endIf (h : b.enclosing = (.no taken, around) :: rest) :
    Performs b .endIf [] { b with code := around ++ [.branch taken b.code], enclosing := rest }

theorem Performs.perform (h : Performs b call made b') : b.perform call = .ok (made, b') := by
  obtain ⟨name, params, slots, code, enclosing⟩ := b
  cases h with
  | newSlot | emit i | beginLoop | beginIf => rfl
  | endLoop h | beginElse h | endIf h =>
    obtain rfl : enclosing = _ := h
    rfl

theorem performs_of_perform (h : b.perform call = .ok (made, b')) : Performs b call made b' := by
  obtain ⟨name, params, slots, code, enclosing⟩ := b
  cases call with
  | newSlot =>
    cases h
    exact .newSlot
  | emit i =>
    cases h
    exact .emit i
  | beginLoop =>
    cases h
    exact .beginLoop
  | beginIf =>
    cases h
    exact .beginIf
  | endLoop =>
    obtain _ | ⟨⟨kind, around⟩, rest⟩ := enclosing
    · cases h
    · cases kind with
      | loop =>
        cases h
        exact .endLoop rfl
      | yes | no taken => cases h
  | beginElse =>
    obtain _ | ⟨⟨kind, around⟩, rest⟩ := enclosing
    · cases h
    · cases kind with
      | yes =>
        cases h
        exact .beginElse rfl
      | loop | no taken => cases h
  | endIf =>
    obtain _ | ⟨⟨kind, around⟩, rest⟩ := enclosing
    · cases h
    · cases kind with
      | no taken =>
        cases h
        exact .endIf rfl
      | loop | yes => cases h

theorem performAll_cons_ok :
    b.performAll (call :: calls) = .ok (made, b'') ↔ ∃ first b' others, Performs b call first b' ∧
      b'.performAll calls = .ok (others, b'') ∧ made = first ++ others := by
  rw [performAll]
  constructor
  · intro h
    obtain ⟨⟨first, b'⟩, hcall, h⟩ := bind_ok.mp h
    obtain ⟨⟨others, _⟩, hcalls, h⟩ := bind_ok.mp h
    cases h
    exact ⟨first, b', others, performs_of_perform hcall, hcalls, rfl⟩
  · rintro ⟨first, b', others, hcall, hcalls, rfl⟩
    exact bind_ok.mpr ⟨_, hcall.perform, bind_ok.mpr ⟨_, hcalls, rfl⟩⟩

theorem performAll_append (h : b.performAll calls = .ok (made, b'))
    (h' : b'.performAll more = .ok (others, b'')) :
    b.performAll (calls ++ more) = .ok (made ++ others, b'') := by
  induction calls generalizing b made with
  | nil =>
    cases h
    exact h'
  | cons call calls ih =>
    obtain ⟨first, b₁, rest, hcall, hcalls, rfl⟩ := performAll_cons_ok.mp h
    rw [List.append_assoc]
    exact performAll_cons_ok.mpr ⟨_, _, _, hcall, ih hcalls, rfl⟩

theorem performAll_slots (h : b.performAll calls = .ok (made, b')) :
    made = List.range' b.slots (calls.countP BuilderCall.makesSlot) ∧
      b'.slots = b.slots + calls.countP BuilderCall.makesSlot ∧
      b'.name = b.name ∧ b'.params = b.params := by
  induction calls generalizing b made with
  | nil =>
    cases h
    exact ⟨rfl, rfl, rfl, rfl⟩
  | cons call calls ih =>
    obtain ⟨first, b₁, others, hcall, hcalls, rfl⟩ := performAll_cons_ok.mp h
    obtain ⟨hmade, hslots, hname, hparams⟩ := ih hcalls
    cases hcall with
    | newSlot =>
      rw [List.countP_cons_of_pos rfl, List.range'_succ, hslots]
      exact ⟨congrArg (b.slots :: ·) hmade, by dsimp only; omega, hname, hparams⟩
    | emit i | beginLoop | endLoop h | beginIf | beginElse h | endIf h =>
      rw [List.countP_cons_of_neg Bool.false_ne_true]
      exact ⟨hmade, hslots, hname, hparams⟩

-- ---------------------------------------------------------------------------
-- Code is replayed
-- ---------------------------------------------------------------------------

def Reaches (b : Builder) (calls : List BuilderCall) (b' : Builder) : Prop :=
  ∃ made, b.performAll calls = .ok (made, b')

theorem Reaches.refl (b : Builder) : b.Reaches [] b := ⟨[], rfl⟩

theorem Reaches.cons (h : Performs b call made b') (h' : b'.Reaches calls b'') :
    b.Reaches (call :: calls) b'' := by
  obtain ⟨others, h'⟩ := h'
  exact ⟨_, performAll_cons_ok.mpr ⟨_, _, _, h, h', rfl⟩⟩

theorem Reaches.append (h : b.Reaches calls b') (h' : b'.Reaches more b'') :
    b.Reaches (calls ++ more) b'' := by
  obtain ⟨made, h⟩ := h
  obtain ⟨others, h'⟩ := h'
  exact ⟨_, performAll_append h h'⟩

def extended (b : Builder) (code : Code) (made : Nat) : Builder :=
  { b with code := b.code ++ code, slots := b.slots + made }

theorem extended_extended (b : Builder) (code more : Code) (made others : Nat) :
    (b.extended code made).extended more others = b.extended (code ++ more) (made + others) := by
  simp only [extended, List.append_assoc, Nat.add_assoc]

theorem extended_nil (b : Builder) : b.extended [] 0 = b := by
  simp only [extended, List.append_nil, Nat.add_zero]

end Builder

/-- Replayed code is put behind the code of the innermost region. -/
theorem Replays.reaches (h : Replays calls code) (b : Builder) :
    ∃ made, b.Reaches calls (b.extended code made) := by
  induction h generalizing b with
  | nil => exact ⟨0, b.extended_nil.symm ▸ .refl b⟩
  | newSlot h ih =>
    obtain ⟨made, hrest⟩ := ih { b with slots := b.slots + 1 }
    refine ⟨1 + made, .cons .newSlot ?_⟩
    rwa [Builder.extended, Nat.add_assoc] at hrest
  | emit i h ih =>
    obtain ⟨made, hrest⟩ := ih (b.extended [i] 0)
    rw [Builder.extended_extended, Nat.zero_add] at hrest
    exact ⟨made, .cons (.emit i) hrest⟩
  | @loop nested body calls code hbody h ihbody ih =>
    -- the body is built from nothing, while the code around it waits in the enclosing regions
    obtain ⟨made, hinner⟩ := ihbody { b with
      code := [], enclosing := (.loop, b.code) :: b.enclosing }
    obtain ⟨others, hrest⟩ := ih (b.extended [.loop body] made)
    rw [Builder.extended_extended] at hrest
    exact ⟨_, .cons .beginLoop (hinner.append (.cons (.endLoop rfl) hrest))⟩
  | @branch first yes second no calls code hyes hno h ihyes ihno ih =>
    obtain ⟨made, hfirst⟩ := ihyes { b with
      code := [], enclosing := (.yes, b.code) :: b.enclosing }
    obtain ⟨made', hsecond⟩ := ihno { b with
      slots := b.slots + made, code := [], enclosing := (.no yes, b.code) :: b.enclosing }
    obtain ⟨others, hrest⟩ := ih { b with
      slots := b.slots + made + made', code := b.code ++ [.branch yes no] }
    have heq : Builder.extended { b with
          slots := b.slots + made + made', code := b.code ++ [.branch yes no] } code others =
        b.extended (.branch yes no :: code) (made + (made' + others)) := by
      simp only [Builder.extended, List.append_assoc, List.singleton_append, Nat.add_assoc]
    rw [heq] at hrest
    have hif := hsecond.append (.cons (.endIf rfl) hrest)
    exact ⟨_, .cons .beginIf (hfirst.append (.cons (.beginElse rfl) hif))⟩

theorem Replays.append (h : Replays calls code) (h' : Replays more added) :
    Replays (calls ++ more) (code ++ added) := by
  induction h with
  | nil => exact h'
  | newSlot h ih => exact .newSlot ih
  | emit i h ih => exact .emit i ih
  | loop hbody h ihbody ih =>
    rw [List.cons_append, List.append_assoc]
    exact .loop hbody ih
  | branch hyes hno h ihyes ihno ih =>
    rw [List.cons_append, List.append_assoc, List.cons_append, List.append_assoc]
    exact .branch hyes hno ih

mutual
theorem replays_instr : ∀ i : Instr, Replays i.replay [i]
  | .loop body => .loop (replays_replayCode body) .nil
  | .branch yes no => .branch (replays_replayCode yes) (replays_replayCode no) .nil
  | .const _ | .load _ | .store _ | .tee _ | .add | .sub | .mul | .ltUnordered | .boolToNumber
  | .numberToBool | .call _ _ | .drop | .continueIf => .emit _ .nil

theorem replays_replayCode : ∀ code : List Instr, Replays (replayCode code) code
  | [] => .nil
  | i :: rest => (replays_instr i).append (replays_replayCode rest)
end

mutual
theorem makesSlot_instr : ∀ i : Instr, i.replay.countP BuilderCall.makesSlot = 0
  | .loop body => by simp [Instr.replay, BuilderCall.makesSlot, makesSlot_replayCode body]
  | .branch yes no => by
    simp [Instr.replay, BuilderCall.makesSlot, makesSlot_replayCode yes, makesSlot_replayCode no]
  | .const _ | .load _ | .store _ | .tee _ | .add | .sub | .mul | .ltUnordered | .boolToNumber
  | .numberToBool | .call _ _ | .drop | .continueIf => rfl

theorem makesSlot_replayCode :
    ∀ code : List Instr, (replayCode code).countP BuilderCall.makesSlot = 0
  | [] => rfl
  | i :: rest => by
    rw [replayCode, List.countP_append, makesSlot_instr i, makesSlot_replayCode rest]
end

theorem Builder.performAll_replayCode (b : Builder) (code : Code) :
    b.performAll (replayCode code) = .ok ([], { b with code := b.code ++ code }) := by
  obtain ⟨count, made, hrun⟩ := (replays_replayCode code).reaches b
  obtain ⟨hmade, hslots, -, -⟩ := performAll_slots hrun
  rw [makesSlot_replayCode] at hmade hslots
  obtain rfl : count = 0 := Nat.add_left_cancel hslots
  rw [hrun, hmade]
  rfl

-- ---------------------------------------------------------------------------
-- Calls are a replay
-- ---------------------------------------------------------------------------

/-- Calls that have come to a stack of open regions, each behind a replay of its code so far. -/
inductive Opens : List BuilderCall → List (RegionKind × Code) → Code → Prop where
  | body (h : Replays calls code) : Opens calls [] code
  | loop (h : Opens calls enclosing around) (hinner : Replays nested code) :
    Opens (calls ++ .beginLoop :: nested) ((.loop, around) :: enclosing) code
  | yes (h : Opens calls enclosing around) (hinner : Replays nested code) :
    Opens (calls ++ .beginIf :: nested) ((.yes, around) :: enclosing) code
  | no (h : Opens calls enclosing around) (htaken : Replays first taken)
    (hinner : Replays second code) :
    Opens (calls ++ .beginIf :: (first ++ .beginElse :: second)) ((.no taken, around) :: enclosing)
      code

theorem Opens.extend (h : Opens calls enclosing code) (hmore : Replays more added) :
    Opens (calls ++ more) enclosing (code ++ added) := by
  cases h with
  | body h => exact .body (h.append hmore)
  | loop h hinner =>
    rw [List.append_assoc, List.cons_append]
    exact .loop h (hinner.append hmore)
  | yes h hinner =>
    rw [List.append_assoc, List.cons_append]
    exact .yes h (hinner.append hmore)
  | no h htaken hinner =>
    rw [List.append_assoc, List.cons_append, List.append_assoc, List.cons_append]
    exact .no h htaken (hinner.append hmore)

theorem Opens.perform {b b' : Builder} (h : Opens calls b.enclosing b.code)
    (hcall : b.Performs call made b') : Opens (calls ++ [call]) b'.enclosing b'.code := by
  cases hcall with
  | newSlot => simpa using h.extend (.newSlot .nil)
  | emit i => exact h.extend (.emit i .nil)
  | beginLoop => exact .loop h .nil
  | beginIf => exact .yes h .nil
  | endLoop henclosing =>
    rw [henclosing] at h
    cases h with
    | loop h hinner =>
      rw [List.append_assoc]
      exact h.extend (.loop hinner .nil)
  | beginElse henclosing =>
    rw [henclosing] at h
    cases h with
    | yes h hinner =>
      rw [List.append_assoc]
      exact .no h hinner .nil
  | endIf henclosing =>
    rw [henclosing] at h
    cases h with
    | no h htaken hinner =>
      rw [List.append_assoc, List.cons_append, List.append_assoc]
      exact h.extend (.branch htaken hinner .nil)

theorem Opens.performAll {b b' : Builder} (h : Opens past b.enclosing b.code)
    (hcalls : b.performAll calls = .ok (made, b')) :
    Opens (past ++ calls) b'.enclosing b'.code := by
  induction calls generalizing b past made with
  | nil =>
    cases hcalls
    rwa [List.append_nil]
  | cons call calls ih =>
    obtain ⟨first, b₁, others, hcall, hcalls, -⟩ := Builder.performAll_cons_ok.mp hcalls
    rw [List.append_cons]
    exact ih (h.perform hcall) hcalls

-- ---------------------------------------------------------------------------
-- Balance
-- ---------------------------------------------------------------------------

theorem Replays.balanced (h : Replays calls code) : Balanced calls := by
  induction h with
  | nil => exact .nil
  | newSlot h ih => exact .plain rfl ih
  | emit i h ih => exact .plain rfl ih
  | loop hbody h ihbody ih => exact .loop ihbody ih
  | branch hyes hno h ihyes ihno ih => exact .branch ihyes ihno ih

theorem Balanced.replays (h : Balanced calls) : ∃ code, Replays calls code := by
  induction h with
  | nil => exact ⟨[], .nil⟩
  | @plain calls call hcall h ih =>
    obtain ⟨code, hcode⟩ := ih
    cases call with
    | newSlot => exact ⟨code, .newSlot hcode⟩
    | emit i => exact ⟨i :: code, .emit i hcode⟩
    | beginLoop | endLoop | beginIf | beginElse | endIf => cases hcall
  | loop hbody h ihbody ih =>
    obtain ⟨body, hbody⟩ := ihbody
    obtain ⟨code, hcode⟩ := ih
    exact ⟨_, .loop hbody hcode⟩
  | branch hyes hno h ihyes ihno ih =>
    obtain ⟨yes, hyes⟩ := ihyes
    obtain ⟨no, hno⟩ := ihno
    obtain ⟨code, hcode⟩ := ih
    exact ⟨_, .branch hyes hno hcode⟩

namespace Builder

variable {b : Builder}

theorem finish_ok_iff {f : SlotFunction} :
    b.finish = .ok f ↔ b.enclosing = [] ∧ f = ⟨b.name, b.params, b.slots, b.code⟩ := by
  rw [finish]
  split <;> simp_all [eq_comm]

/-- Calls replay code exactly if they come to a builder with this code and no open region. -/
theorem replays_iff {name : String} {params : List String}
    (h : (start name params).performAll calls = .ok (made, b)) (code : Code) :
    Replays calls code ↔ b.enclosing = [] ∧ code = b.code := by
  constructor
  · intro hreplays
    obtain ⟨count, others, hrun⟩ := hreplays.reaches (start name params)
    cases h.symm.trans hrun
    exact ⟨rfl, rfl⟩
  · rintro ⟨henclosing, rfl⟩
    have hopens := Opens.performAll (b := start name params) (.body .nil) h
    rw [henclosing] at hopens
    cases hopens with
    | body h => exact h

end Builder

/-- Replaying code from any builder raises no error and puts the code behind that of the innermost
open region. Calls that build a function without an error can be followed by finishing it exactly if
they are balanced, and they are then a replay of its body and of nothing else. Its slots are the
parameters and those that were made, which differ from each other and from the parameters. -/
theorem builder_rebuilds_code :
    (∀ (b : Builder) (code : Code),
      b.performAll (replayCode code) = .ok ([], { b with code := b.code ++ code })) ∧
    ∀ name params calls made b, (Builder.start name params).performAll calls = .ok (made, b) →
      ((∃ f, b.finish = .ok f) ↔ Balanced calls) ∧
      (∀ f, b.finish = .ok f →
        f.name = name ∧ f.params = params ∧ (∀ code, Replays calls code ↔ code = f.body) ∧
        f.slots = params.length + calls.countP BuilderCall.makesSlot) ∧
      made.length = calls.countP BuilderCall.makesSlot ∧ made.Nodup ∧
      ∀ index slot, b.paramSlot? index = some slot → slot ∉ made := by
  refine ⟨Builder.performAll_replayCode, fun name params calls made b h => ?_⟩
  obtain ⟨hmade, hslots, hname, hparams⟩ := Builder.performAll_slots h
  have hreplays := Builder.replays_iff h
  refine ⟨⟨?_, fun hbalanced => ?_⟩, fun f hf => ?_, ?_, ?_, fun index slot hslot => ?_⟩
  · rintro ⟨f, hf⟩
    obtain ⟨henclosing, -⟩ := Builder.finish_ok_iff.mp hf
    exact ((hreplays b.code).mpr ⟨henclosing, rfl⟩).balanced
  · obtain ⟨code, hcode⟩ := hbalanced.replays
    exact ⟨_, Builder.finish_ok_iff.mpr ⟨((hreplays code).mp hcode).1, rfl⟩⟩
  · obtain ⟨henclosing, rfl⟩ := Builder.finish_ok_iff.mp hf
    exact ⟨hname, hparams, fun code => (hreplays code).trans (and_iff_right henclosing), hslots⟩
  · rw [hmade, List.length_range']
  · rw [hmade]
    exact List.nodup_range'
  · rw [hmade, List.mem_range'_1]
    rw [Builder.paramSlot?, hparams] at hslot
    split at hslot
    · cases hslot
      rename_i hindex
      exact fun hmem => Nat.not_lt.mpr hmem.1 hindex
    · cases hslot

/-- A loop that is built region by region, with another one in it that is emitted as a whole. -/
theorem builder_rebuilds_nested_code :
    let calls := [.newSlot, .beginLoop, .emit (.loop [.continueIf]), .beginIf, .newSlot, .beginElse,
      .emit .drop, .endIf, .endLoop]
    ∃ b, (Builder.start "f" ["x"]).performAll calls = .ok ([1, 2], b) ∧ Balanced calls ∧
      ∃ f, b.finish = .ok f ∧ f.body = [.loop [.loop [.continueIf], .branch [] [.drop]]] ∧
        Replays calls f.body ∧ f.slots = 3 := by
  intro calls
  let b : Builder := ⟨"f", ["x"], 3, [.loop [.loop [.continueIf], .branch [] [.drop]]], []⟩
  have hrun : (Builder.start "f" ["x"]).performAll calls = .ok ([1, 2], b) := rfl
  have hf : b.finish = .ok ⟨b.name, b.params, b.slots, b.code⟩ := rfl
  obtain ⟨hfinish, hbody, -⟩ := builder_rebuilds_code.2 "f" ["x"] calls [1, 2] b hrun
  obtain ⟨-, -, hreplays, hslots⟩ := hbody _ hf
  exact ⟨b, hrun, hfinish.mp ⟨_, hf⟩, _, hf, rfl, (hreplays _).mpr rfl, hslots⟩

end NumericJit
