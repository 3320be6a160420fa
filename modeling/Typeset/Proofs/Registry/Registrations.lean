import Mathlib.Data.List.Basic
import Mathlib.Data.List.Induction
import Typeset.Markup.Registry

/-!
# Registrations

What a registry knows after any commands, definitions and environments have been registered in it,
said by what was registered, and not by the dictionaries that hold it.

* `Registration`: one call; `Registry.after`: a registry after any calls.
* `Registration.given?`: the prototype that a call gives a name, globally or in a package.
* `Registry.latest?`: the prototype that was registered last for a name; `Registry.own?_after`: the
  name has it.
* `Registry.AgreesOutside`: two registries know the same but for one package;
  `Registry.agreesOutside_after`: so they do if the calls are all about that package.
* `Registry.AgreesOutside.lookup?_eq`: while the package is not active, names stand for the same.
-/

namespace Typeset

/-- A call that registers something. -/
inductive Registration where
  | command (name : String) (p : Prototype)
  | inPackage (package name : String) (p : Prototype)
  /-- A defined command, global or of a package. -/
  | definition (package : Option String) (d : Definition)
  | environment (name : String) (k : TableKind)

namespace Registration

/-- The registry after the call. -/
def apply (r : Registry) : Registration → Registry
  | command name p => r.register name p
  | inPackage package name p => r.registerIn package name p
  | definition package d => r.define package d
  | environment name k => r.registerEnvironment name k

/-- The prototype that the call gives a name, globally or in a package. -/
def given? (package : Option String) (name : String) : Registration → Option Prototype
  | command n p => if package = none ∧ name = n then some p else none
  | inPackage q n p => if package = some q ∧ name = n then some p else none
  | definition q d => if package = q ∧ name = d.name then some (.defined d) else none
  | environment .. => none

/-- The call is about a package. -/
def IsIn (package : String) : Registration → Prop
  | inPackage q _ _ => q = package
  | definition q _ => q = some package
  | command .. | environment .. => False

end Registration

namespace Registry

/-- The registry after calls, the first one first. -/
def after (r : Registry) (calls : List Registration) : Registry := calls.foldl Registration.apply r

/-- The prototype of a name, globally or in a package. -/
def own? (r : Registry) (package : Option String) (name : String) : Option Prototype :=
  match package with
  | none => r.commands.find? name
  | some p => (r.package p).find? name

/-! ## What was registered last -/

section Own

variable (r : Registry) (package : Option String) (name : String)

theorem own?_register (n : String) (p : Prototype) :
    (r.register n p).own? package name =
      (Registration.given? package name (.command n p)).or (r.own? package name) := by
  cases package with
  | none => by_cases h : name = n <;> simp [own?, register, Registration.given?, h]
  | some q => simp [own?, register, Registration.given?, Registry.package]

theorem own?_registerIn (q n : String) (p : Prototype) :
    (r.registerIn q n p).own? package name =
      (Registration.given? package name (.inPackage q n p)).or (r.own? package name) := by
  cases package with
  | none => simp [own?, registerIn, Registration.given?]
  | some q' =>
    by_cases hq : q' = q
    · subst hq
      by_cases h : name = n <;>
        simp [own?, registerIn, Registration.given?, Registry.package, h]
    · simp [own?, registerIn, Registration.given?, Registry.package, hq]

/-- A call changes the prototypes of the name that it is about, and no other. -/
theorem own?_apply (call : Registration) :
    (call.apply r).own? package name = (call.given? package name).or (r.own? package name) := by
  cases call with
  | command n p => exact own?_register r package name n p
  | inPackage q n p => exact own?_registerIn r package name q n p
  | definition q d =>
    cases q with
    | none => exact own?_register r package name d.name (.defined d)
    | some q => exact own?_registerIn r package name q d.name (.defined d)
  | environment n k => cases package <;> rfl

/-- The prototype that was registered last for a name in calls, or else the one in the registry. -/
def latest? (calls : List Registration) : Option Prototype :=
  ((calls.filterMap (·.given? package name)).getLast?).or (r.own? package name)

/-- A name has the prototype that was registered last for it, or else the one that it had. -/
theorem own?_after (calls : List Registration) :
    (r.after calls).own? package name = r.latest? package name calls := by
  unfold latest?
  induction calls using List.reverseRecOn with
  | nil => rfl
  | append_singleton calls call ih =>
    rw [after, List.foldl_append, List.foldl_cons, List.foldl_nil, own?_apply, ← after, ih]
    cases h : call.given? package name <;> simp [h]

/-- What a name stands for, from the packages that are active: the last one that has the name, then
the global commands, then the signs. -/
theorem lookup?_eq (active : List String) :
    r.lookup? name active =
      ((active.reverse.findSome? fun q => (r.own? (some q) name).map (some q, ·)).or
        ((r.own? none name).map (none, ·))).or
        ((Symbol.named? name).map fun s => (none, .symbol s)) := by
  have hin : (r.lookupIn? name active).map (fun q => (some q.1, q.2)) =
      active.reverse.findSome? fun q => (r.own? (some q) name).map (some q, ·) := by
    rw [lookupIn?, List.map_findSome?]
    congr 1
    funext q
    simp only [own?, Function.comp, Option.map_map]
    rfl
  rw [← hin, Option.or_assoc]
  unfold lookup?
  rcases r.lookupIn? name active with _ | ⟨q, c⟩
  · rcases h : r.commands.find? name with _ | c <;> simp [own?, h]
  · rfl

end Own

/-! ## One package -/

/-- The registries know the same, but for the commands of the package `p`. -/
structure AgreesOutside (p : String) (r r' : Registry) : Prop where
  commands : r.commands = r'.commands
  environments : r.environments = r'.environments
  packages : ∀ q, q ≠ p → r.packages.find? q = r'.packages.find? q

namespace AgreesOutside

variable {p : String} {r r' r'' : Registry}

theorem refl (p : String) (r : Registry) : r.AgreesOutside p r := ⟨rfl, rfl, fun _ _ => rfl⟩

theorem symm (h : r.AgreesOutside p r') : r'.AgreesOutside p r :=
  ⟨h.commands.symm, h.environments.symm, fun q hq => (h.packages q hq).symm⟩

theorem trans (h : r.AgreesOutside p r') (h' : r'.AgreesOutside p r'') : r.AgreesOutside p r'' :=
  ⟨h.commands.trans h'.commands, h.environments.trans h'.environments,
    fun q hq => (h.packages q hq).trans (h'.packages q hq)⟩

/-- While the package is not active, every name stands for the same. -/
theorem lookup?_eq (h : r.AgreesOutside p r') {active : List String} (hp : p ∉ active)
    (name : String) : r.lookup? name active = r'.lookup? name active := by
  have hin : r.lookupIn? name active = r'.lookupIn? name active := by
    rw [lookupIn?, lookupIn?, ← List.head?_filterMap, ← List.head?_filterMap]
    refine congrArg List.head? (List.filterMap_congr fun q hq => ?_)
    have hne : q ≠ p := fun he => hp (he ▸ List.mem_reverse.mp hq)
    rw [Registry.package, Registry.package, h.packages q hne]
  rw [lookup?, lookup?, hin, h.commands]

theorem isDefined_eq (h : r.AgreesOutside p r') {active : List String} (hp : p ∉ active)
    (name : String) : r.isDefined name active = r'.isDefined name active := by
  rw [isDefined, isDefined, h.lookup?_eq hp]

theorem resolve_eq (h : r.AgreesOutside p r') {active : List String} (hp : p ∉ active)
    (name : String) (pos : Nat) : r.resolve name active pos = r'.resolve name active pos := by
  rw [resolve, resolve, h.lookup?_eq hp]

theorem environment?_eq (h : r.AgreesOutside p r') (name : String) :
    r.environment? name = r'.environment? name := by
  rw [environment?, environment?, h.environments]

theorem hasPackage_eq (h : r.AgreesOutside p r') {q : String} (hq : q ≠ p) :
    r.hasPackage q = r'.hasPackage q := by
  rw [hasPackage, hasPackage, Dictionary.contains, Dictionary.contains, h.packages q hq]

end AgreesOutside

variable (r : Registry) {p : String}

theorem agreesOutside_registerIn (n : String) (c : Prototype) :
    (r.registerIn p n c).AgreesOutside p r :=
  ⟨rfl, rfl, fun q hq => by simp [registerIn, hq]⟩

/-- A call that is about a package changes nothing else. -/
theorem agreesOutside_apply {call : Registration} (h : call.IsIn p) :
    (call.apply r).AgreesOutside p r := by
  cases call with
  | command | environment => cases h
  | inPackage q n c =>
    obtain rfl : q = p := h
    exact r.agreesOutside_registerIn n c
  | definition q d =>
    obtain rfl : q = some p := h
    exact r.agreesOutside_registerIn d.name _

/-- Calls that are about a package change nothing else. -/
theorem agreesOutside_after {calls : List Registration} (h : ∀ call ∈ calls, call.IsIn p) :
    (r.after calls).AgreesOutside p r := by
  induction calls generalizing r with
  | nil => exact .refl p r
  | cons call calls ih =>
    exact (ih (call.apply r) fun c hc => h c (by simp [hc])).trans
      (agreesOutside_apply r (h call (by simp)))

end Registry

end Typeset
