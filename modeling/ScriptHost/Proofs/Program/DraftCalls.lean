import Mathlib.Data.List.Induction
import ScriptHost.Program.Basic

/-!
# Calls that fill a draft

A draft forgets all but the last call for each of its parts (`Draft.ofSteps_eq`). Two neighbouring calls can
therefore change places in every history exactly if they do not give one part two different values
(`Draft.ofSteps_swap_iff`). Calls for different parts never do; an id and a configuration set the same part.
-/

namespace ScriptHost

variable {α β π : Type}

/-! ## What one call sets

For each part a call either sets a value or does not. A history is looked at through one such function at a time
(`last?`), since the parts have different types. -/

namespace DraftStep

/-- The parts of a draft. A configuration sets the same part as an id. -/
inductive Part where
  | id
  | loader
  | compiler
  | provider
deriving DecidableEq, Repr

def part : DraftStep β π → Part
  | .id _ | .config _ => .id
  | .loader _ => .loader
  | .compiler _ => .compiler
  | .provider _ => .provider

/-- The id that a call assigns. A configuration assigns one only if it has one. -/
def setId? : DraftStep β π → Option String
  | .id name => some name
  | .config c => c.scriptId?
  | .loader _ | .compiler _ | .provider _ => none

def setLoader? : DraftStep β π → Option Loader
  | .loader l => some l
  | .id _ | .config _ | .compiler _ | .provider _ => none

def setCompiler? : DraftStep β π → Option (Compiler β)
  | .compiler c => some c
  | .id _ | .config _ | .loader _ | .provider _ => none

def setProvider? : DraftStep β π → Option π
  | .provider p => some p
  | .id _ | .config _ | .loader _ | .compiler _ => none

/-- The last value that calls give to a part. -/
def last? (part? : DraftStep β π → Option α) (steps : List (DraftStep β π)) : Option α :=
  (steps.filterMap part?).getLast?

@[simp] theorem last?_nil (part? : DraftStep β π → Option α) : last? part? [] = none := rfl

/-- The first of several calls counts only where no later one sets the part. -/
@[simp] theorem last?_cons (part? : DraftStep β π → Option α) (a : DraftStep β π)
    (rest : List (DraftStep β π)) :
    last? part? (a :: rest) = (last? part? rest).or (part? a) := by
  -- a call that does not set the part leaves no trace in the list of values
  cases h : part? a with
  | none => simp [last?, h]
  | some v => cases hr : (rest.filterMap part?).getLast? <;> simp [last?, h, hr, List.getLast?_cons]

/-- Of two histories in a row the later one counts, and the earlier one where it sets nothing. -/
@[simp] theorem last?_append (part? : DraftStep β π → Option α) (front rest : List (DraftStep β π)) :
    last? part? (front ++ rest) = (last? part? rest).or (last? part? front) := by
  simp [last?, List.getLast?_append]

/-! ## Calls that can change places

Order matters between two calls only if they give a part two different values. For calls about different parts
that cannot be, so the general condition (`Compatible`) is needed for two calls about one part only. -/

/-- Two values for a part, as far as both are there, are one. -/
def Agree (x y : Option α) : Prop := ∀ v ∈ x, ∀ w ∈ y, v = w

/-- The earlier and the later value can change places exactly if they agree. -/
theorem or_comm_iff {x y : Option α} : x.or y = y.or x ↔ Agree x y := by
  cases x <;> cases y <;> simp [Agree]

/-- They can change places in front of anything that has been set before. -/
theorem or_right_comm {x y : Option α} (h : Agree x y) (z : Option α) :
    (z.or y).or x = (z.or x).or y := by
  rw [Option.or_assoc, Option.or_assoc, or_comm_iff.2 h]

/-- So the last value of a part does not tell the order of two neighbours that agree about it, whatever is
called before and after them. -/
theorem last?_swap {part? : DraftStep β π → Option α} {a b : DraftStep β π}
    (h : Agree (part? a) (part? b)) (front rest : List (DraftStep β π)) :
    last? part? (front ++ a :: b :: rest) = last? part? (front ++ b :: a :: rest) := by
  simp only [last?_append, last?_cons, or_right_comm h]

/-- Two calls that give no part two different values. -/
structure Compatible (a b : DraftStep β π) : Prop where
  id : Agree (setId? a) (setId? b)
  loader : Agree (setLoader? a) (setLoader? b)
  compiler : Agree (setCompiler? a) (setCompiler? b)
  provider : Agree (setProvider? a) (setProvider? b)

theorem part_of_setId? {a : DraftStep β π} {v : String} (h : v ∈ setId? a) : a.part = .id := by
  cases a <;> first | rfl | cases h

theorem part_of_setLoader? {a : DraftStep β π} {v : Loader} (h : v ∈ setLoader? a) :
    a.part = .loader := by
  cases a <;> first | rfl | cases h

theorem part_of_setCompiler? {a : DraftStep β π} {v : Compiler β} (h : v ∈ setCompiler? a) :
    a.part = .compiler := by
  cases a <;> first | rfl | cases h

theorem part_of_setProvider? {a : DraftStep β π} {v : π} (h : v ∈ setProvider? a) :
    a.part = .provider := by
  cases a <;> first | rfl | cases h

theorem agree_of_part_ne {part? : DraftStep β π → Option α} {part : Part}
    (honly : ∀ {a : DraftStep β π} {v : α}, v ∈ part? a → a.part = part) {a b : DraftStep β π}
    (h : a.part ≠ b.part) : Agree (part? a) (part? b) :=
  fun _ ha _ hb => absurd ((honly ha).trans (honly hb).symm) h

/-- **Calls for different parts are compatible**, whatever they set. -/
theorem compatible_of_part_ne {a b : DraftStep β π} (h : a.part ≠ b.part) : Compatible a b where
  id := agree_of_part_ne part_of_setId? h
  loader := agree_of_part_ne part_of_setLoader? h
  compiler := agree_of_part_ne part_of_setCompiler? h
  provider := agree_of_part_ne part_of_setProvider? h

/-- An id and a configuration are compatible unless the configuration has another id. -/
theorem compatible_id_config_iff {name : String} {config : HostConfig} :
    Compatible (.id name : DraftStep β π) (.config config) ↔ ∀ id ∈ config.scriptId?, name = id := by
  refine ⟨fun h => h.id name rfl, fun h => ⟨?_, ?_, ?_, ?_⟩⟩
  · rintro v ⟨⟩
    exact h
  all_goals exact fun _ => nofun

/-- Two histories whose last values are the same. -/
structure SameLast (steps others : List (DraftStep β π)) : Prop where
  id : last? setId? steps = last? setId? others
  loader : last? setLoader? steps = last? setLoader? others
  compiler : last? setCompiler? steps = last? setCompiler? others
  provider : last? setProvider? steps = last? setProvider? others

end DraftStep

open DraftStep

/-! ## What a draft remembers

A draft is a fold over the calls. Once it is known to be the four last values, questions about histories are
questions about those. -/

namespace Draft

/-- A call sets its part and keeps the others. All four parts are said in the same way, so that the history of
each can be followed alone. -/
theorem apply_eq (d : Draft β π) (a : DraftStep β π) :
    d.apply a = ⟨(setId? a).or d.id?, (setLoader? a).or d.loader?, (setCompiler? a).or d.compiler?,
      (setProvider? a).or d.provider?⟩ := by
  cases a <;> rfl

/-- **A draft is the last values of its parts.** By induction on the last call, which is the one that counts. -/
theorem ofSteps_eq (steps : List (DraftStep β π)) :
    ofSteps steps =
      ⟨last? setId? steps, last? setLoader? steps, last? setCompiler? steps, last? setProvider? steps⟩ := by
  -- the last call is put on top of what the others have set
  induction steps using List.reverseRecOn with
  | nil => rfl
  | append_singleton steps a ih =>
    have hstep : ofSteps (steps ++ [a]) = (ofSteps steps).apply a := by simp [ofSteps]
    rw [hstep, ih, apply_eq]
    simp

theorem ofSteps_congr {steps others : List (DraftStep β π)} (h : SameLast steps others) :
    ofSteps steps = ofSteps others := by
  rw [ofSteps_eq, ofSteps_eq, h.id, h.loader, h.compiler, h.provider]

/-- Two neighbouring calls can change places wherever they stand exactly if they are compatible. -/
theorem ofSteps_swap_iff {a b : DraftStep β π} :
    (∀ front rest, ofSteps (front ++ a :: b :: rest) = ofSteps (front ++ b :: a :: rest)) ↔
      Compatible a b := by
  constructor
  · intro hswap
    have halone := hswap [] []
    -- on their own, the two calls leave the later value and, behind it, the earlier one
    simp only [ofSteps_eq, List.nil_append, last?_cons, last?_nil, Option.none_or, Draft.mk.injEq]
      at halone
    obtain ⟨hid, hloader, hcompiler, hprovider⟩ := halone
    exact ⟨or_comm_iff.1 hid.symm, or_comm_iff.1 hloader.symm, or_comm_iff.1 hcompiler.symm,
      or_comm_iff.1 hprovider.symm⟩
  · intro h front rest
    exact ofSteps_congr ⟨last?_swap h.id front rest, last?_swap h.loader front rest,
      last?_swap h.compiler front rest, last?_swap h.provider front rest⟩

theorem ofSteps_config {config : HostConfig} (h : config.scriptId? = none)
    (front rest : List (DraftStep β π)) :
    ofSteps (front ++ .config config :: rest) = ofSteps (front ++ rest) :=
  ofSteps_congr (by constructor <;> simp [setId?, setLoader?, setCompiler?, setProvider?, h])

end Draft

end ScriptHost
