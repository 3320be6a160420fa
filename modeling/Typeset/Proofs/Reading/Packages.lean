import Typeset.Proofs.Parse.Pieces
import Typeset.Proofs.Registry.Registrations

/-!
# Readings without a package

What commands read where a package is not active, in two languages that know the same but for the
commands of that package.

* `Reading.Agrees`: the readings are the same there, and do not make the package active;
  `Reading.AgreesAt`: so they are from one reader on.
* `Reading.KeepsScope.agrees`: the services of the commands set no names up, and agree with
  themselves.
* `Language.AgreesOutside`: the languages know the same, but for the commands of the package.
* `Builtin.agrees_start`: every command of the language does the same in both, if it activates no
  packages; `Builtin.run_usePackage`: what the one does that activates them.
* `CommandState.agreesAt_start`: every command does the same in both, if it does not name the
  package to activate it.
-/

namespace Typeset

namespace Reading

variable {α β : Type} {x y : Reading α} {f g : α → Reading β}

/-! ## Services -/

theorem keepsScope_position : position.KeepsScope := fun _ => rfl

theorem keepsScope_peek : peek.KeepsScope := fun _ => rfl

theorem keepsScope_failHere (c : Fault) : (failHere c : Reading α).KeepsScope := fun _ => rfl

theorem keepsScope_orFail (c : Fault) (o : Option α) : (orFail c o).KeepsScope := by
  cases o <;> exact fun _ => rfl

theorem keepsScope_eat (c : Char) : (eat c).KeepsScope := fun _ => rfl

theorem keepsScope_group : group.KeepsScope := by
  refine KeepsScope.bind (fun _ => rfl) fun _ => keepsScope_position.bind fun here =>
    keepsScope_peek.bind fun c => ?_
  split
  · exact (keepsScope_ofCursor _ _).bind (keepsScope_orFailAt here _)
  · exact keepsScope_fail _

theorem keepsScope_delimiter : delimiter.KeepsScope := by
  have ht : delimiterToken?.KeepsScope := by
    refine (keepsScope_ofCursor _ _).bind fun c => ?_
    split
    · exact keepsScope_pure _
    · exact (keepsScope_ofCursor _ _).bind fun _ => keepsScope_pure _
    · exact keepsScope_pure _
  refine KeepsScope.bind (fun _ => rfl) fun _ => keepsScope_position.bind fun here =>
    ht.bind fun token => ?_
  split
  · exact keepsScope_fail _
  · exact keepsScope_orFailAt here _ _

theorem keepsScope_length : length.KeepsScope :=
  keepsScope_position.bind fun here => keepsScope_group.bind fun _ => keepsScope_orFailAt here _ _

theorem keepsScope_optionalLength? : optionalLength?.KeepsScope := by
  refine keepsScope_optional?.bind fun text => ?_
  split
  · exact keepsScope_pure _
  · exact (keepsScope_orFail _ _).bind fun _ => keepsScope_pure _

theorem keepsScope_resolveColor (model : Option (List Char)) (spec : List Char) :
    (resolveColor model spec).KeepsScope :=
  keepsScope_reader.bind fun _ => keepsScope_orFail _ _

theorem keepsScope_color : color.KeepsScope :=
  keepsScope_optional?.bind fun model => keepsScope_group.bind fun spec =>
    keepsScope_resolveColor model spec

theorem keepsScope_definedName : definedName.KeepsScope :=
  keepsScope_argument.bind fun _ => keepsScope_orFail _ _

theorem keepsScope_columnRule : columnRule.KeepsScope :=
  keepsScope_group.bind fun _ => (keepsScope_orFail _ _).bind fun _ => keepsScope_pure _

theorem keepsScope_rule : rule.KeepsScope :=
  keepsScope_optionalLength?.bind fun _ => keepsScope_length.bind fun _ =>
    keepsScope_length.bind fun _ => keepsScope_pure _

/-! ## Agreement -/

variable {p : String}

/-- From a reader on, the readings are the same, and do not leave the package active. -/
def AgreesAt (p : String) (x y : Reading α) (r : Reader) : Prop :=
  x.run r = y.run r ∧ p ∉ (x.run r).2.scope.packages

/-- Where the package is not active, the readings are the same, and do not make it active. -/
def Agrees (p : String) (x y : Reading α) : Prop :=
  ∀ r, p ∉ r.scope.packages → x.AgreesAt p y r

theorem AgreesAt.bind {r : Reader} (hx : x.AgreesAt p y r)
    (hf : ∀ a s, x.run r = (.ok a, s) → p ∉ s.scope.packages → (f a).AgreesAt p (g a) s) :
    (x >>= f).AgreesAt p (y >>= g) r := by
  obtain ⟨heq, hp⟩ := hx
  rw [AgreesAt, run_bind, run_bind, ← heq]
  rcases he : x.run r with ⟨e | a, s⟩ <;> rw [he] at hp
  · exact ⟨rfl, hp⟩
  · exact hf a s he hp

theorem Agrees.bind (hx : x.Agrees p y) (hf : ∀ a, (f a).Agrees p (g a)) :
    (x >>= f).Agrees p (y >>= g) :=
  fun r hr => (hx r hr).bind fun a s _ hs => hf a s hs

/-- A reading that sets no names up agrees with itself. -/
theorem KeepsScope.agrees (hx : x.KeepsScope) (p : String) : x.Agrees p x :=
  fun r hr => ⟨rfl, by rwa [hx r]⟩

/-- One reading after another that sets no names up. -/
theorem KeepsScope.bind_agrees (hx : x.KeepsScope) (hf : ∀ a, (f a).Agrees p (g a)) :
    (x >>= f).Agrees p (x >>= g) :=
  (hx.agrees p).bind hf

theorem agrees_pure (a : α) : (pure a : Reading α).Agrees p (pure a) := (keepsScope_pure a).agrees p

/-- The reader is asked for its scope, in which the package is not active. -/
theorem reader_bind_agrees {f g : Reader → Reading β}
    (hf : ∀ r : Reader, p ∉ r.scope.packages → (f r).Agrees p (g r)) :
    (reader >>= f).Agrees p (reader >>= g) :=
  fun r hr => hf r hr r hr

theorem agrees_changeScope {k : Scope → Scope}
    (hk : ∀ s, p ∉ s.packages → p ∉ (k s).packages) :
    (changeScope k).Agrees p (changeScope k) :=
  fun r hr => ⟨rfl, hk r.scope hr⟩

theorem AgreesAt.inCommand {r : Reader} (hx : x.AgreesAt p y r) (name : String) :
    (x.inCommand name).AgreesAt p (y.inCommand name) r :=
  ⟨by simp only [Reading.inCommand, hx.1], hx.2⟩

theorem agrees_newColor : newColor.Agrees p newColor :=
  keepsScope_group.bind_agrees fun _ => keepsScope_group.bind_agrees fun _ =>
    keepsScope_group.bind_agrees fun _ => (keepsScope_resolveColor _ _).bind_agrees fun _ =>
      agrees_changeScope fun _ h => h

end Reading

open Reading

namespace Language

/-- The languages know the same, but for the commands of the package `p`. -/
structure AgreesOutside (p : String) (l k : Language) : Prop where
  registry : l.registry.AgreesOutside p k.registry
  fragment? : l.fragment? = k.fragment?

namespace AgreesOutside

variable {p : String} {l k : Language}

theorem fragment (h : l.AgreesOutside p k) (cs : List Char) :
    (l.fragment cs).Agrees p (k.fragment cs) := by
  have heq : l.fragment cs = k.fragment cs := by
    rw [Language.fragment, Language.fragment, h.fragment?]
  rw [heq]
  refine KeepsScope.agrees ?_ p
  unfold Language.fragment
  split
  · exact keepsScope_failHere _
  · refine keepsScope_reader.bind fun r => ?_
    split
    · exact keepsScope_pure _
    · exact keepsScope_fail _

/-- A name is taken in both languages or in neither. -/
theorem define (h : l.AgreesOutside p k) (mode : DefineMode) (d : Definition) :
    (l.define mode d).Agrees p (k.define mode d) := by
  refine reader_bind_agrees fun r hr => ?_
  have htaken : l.isDefined r.scope d.name = k.isDefined r.scope d.name := by
    rw [Language.isDefined, Language.isDefined, h.registry.isDefined_eq hr]
  let store (s : Scope) : Scope := { s with definitions := s.definitions.insert d.name d }
  have hstore : (changeScope store).Agrees p (changeScope store) :=
    agrees_changeScope fun _ hs => hs
  rw [htaken]
  cases mode with
  | always => exact hstore
  | new =>
    simp only
    split
    · exact (keepsScope_failHere _).agrees p
    · exact hstore
  | renew =>
    simp only
    split
    · exact hstore
    · exact (keepsScope_failHere _).agrees p
  | provide =>
    simp only
    split
    · exact agrees_pure _
    · exact hstore

theorem newCommand (h : l.AgreesOutside p k) (mode : DefineMode) :
    (l.newCommand mode).Agrees p (k.newCommand mode) := by
  refine (keepsScope_eat _).bind_agrees fun _ => keepsScope_definedName.bind_agrees fun name =>
    keepsScope_optional?.bind_agrees fun text => ?_
  have hrest (f : Option (List Char) → List Char → Definition) :
      (do
        let value ← optional?
        let body ← group
        l.define mode (f value body)).Agrees p (do
        let value ← optional?
        let body ← group
        k.define mode (f value body)) :=
    keepsScope_optional?.bind_agrees fun _ => keepsScope_group.bind_agrees fun _ =>
      h.define mode _
  split
  · exact (keepsScope_pure 0).bind_agrees fun _ => hrest _
  · exact (keepsScope_orFail _ _).bind_agrees fun _ => hrest _

theorem newDefinition (h : l.AgreesOutside p k) : l.newDefinition.Agrees p k.newDefinition :=
  keepsScope_definedName.bind_agrees fun _ => (keepsScope_ofCursor _ _).bind_agrees fun _ =>
    (keepsScope_orFail _ _).bind_agrees fun _ => keepsScope_group.bind_agrees fun _ =>
      h.define _ _

theorem newOperator (h : l.AgreesOutside p k) : l.newOperator.Agrees p k.newOperator :=
  (keepsScope_eat _).bind_agrees fun _ => keepsScope_definedName.bind_agrees fun _ =>
    keepsScope_group.bind_agrees fun _ => h.define _ _

theorem openEnvironment (h : l.AgreesOutside p k) :
    l.openEnvironment.Agrees p k.openEnvironment := by
  refine keepsScope_group.bind_agrees fun text => ?_
  simp only [h.registry.environment?_eq]
  split
  · exact keepsScope_position.bind_agrees fun _ => (keepsScope_fail _).agrees p
  · split
    · exact (keepsScope_group.bind fun _ => keepsScope_pure _).bind_agrees fun _ => agrees_pure _
    · exact agrees_pure _

theorem expand (h : l.AgreesOutside p k) (d : Definition) :
    (l.expand d).Agrees p (k.expand d) := by
  refine (keepsScope_arguments _).bind_agrees fun args => (h.fragment _).bind fun a => ?_
  split <;> exact agrees_pure _

/-- Activating other packages is the same in both languages. -/
theorem activate_eq (h : l.AgreesOutside p k) {q : String} (hq : q ≠ p) (s : Scope) :
    l.activate q s = k.activate q s := by
  rw [activate, activate, h.registry.hasPackage_eq hq]

end AgreesOutside

/-- A package is activated only by its name. -/
theorem not_mem_packages_activate {p q : String} {s : Scope} (l : Language) (hq : q ≠ p)
    (hs : p ∉ s.packages) : p ∉ (l.activate q s).packages := by
  unfold activate
  split
  · simpa [hs] using hq.symm
  · exact hs

end Language

variable {p : String} {l k : Language}

/-- A command does the same in both languages, if it does not activate packages. -/
theorem Builtin.agrees_start (h : l.AgreesOutside p k) {b : Builtin} (hb : b ≠ .usePackage) :
    (b.start l).Agrees p (b.start k) := by
  cases b with
  | symbol | operator | space | hrule | fraction | decorate | font | classed | frameBox | vcenter
  | division | fontSwitch | style | limits => exact agrees_pure _
  | sqrt =>
    refine keepsScope_optional?.bind_agrees fun degree => ?_
    split
    · exact agrees_pure _
    · exact (h.fragment _).bind fun _ => agrees_pure _
  | text | closeEnvironment => exact keepsScope_group.bind_agrees fun _ => agrees_pure _
  | color | textColor | colorBox | cellColor | rowColor =>
    exact keepsScope_color.bind_agrees fun _ => agrees_pure _
  | frameColorBox =>
    exact keepsScope_color.bind_agrees fun _ => keepsScope_color.bind_agrees fun _ =>
      agrees_pure _
  | defineColor => exact agrees_newColor.bind fun _ => agrees_pure _
  | hspace =>
    exact (keepsScope_eat _).bind_agrees fun _ => keepsScope_length.bind_agrees fun _ =>
      agrees_pure _
  | left | middle | right | bigDelimiter =>
    exact keepsScope_delimiter.bind_agrees fun _ => agrees_pure _
  | operatorName =>
    exact (keepsScope_eat _).bind_agrees fun _ => keepsScope_group.bind_agrees fun _ =>
      agrees_pure _
  | declareOperator => exact h.newOperator.bind fun _ => agrees_pure _
  | newCommand mode => exact (h.newCommand mode).bind fun _ => agrees_pure _
  | define => exact h.newDefinition.bind fun _ => agrees_pure _
  | openEnvironment => exact h.openEnvironment
  | rowSeparator => exact keepsScope_optionalLength?.bind_agrees fun _ => agrees_pure _
  | columnRule => exact keepsScope_columnRule.bind_agrees fun _ => agrees_pure _
  | rule => exact keepsScope_rule.bind_agrees fun _ => agrees_pure _
  | usePackage => exact absurd rfl hb

/-! ## Activating packages -/

/-- The packages that a command names to activate them. -/
def Builtin.named : Builtin → Reading (List String)
  | usePackage => do
    let _ ← optional?
    return packageNames (← group)
  | _ => pure []

/-- The packages that a command names to activate them. -/
def CommandState.named : CommandState → Reading (List String)
  | fresh b => b.named
  | _ => pure []

theorem Builtin.keepsScope_named (b : Builtin) : b.named.KeepsScope := by
  cases b with
  | usePackage =>
    exact keepsScope_optional?.bind fun _ => keepsScope_group.bind fun _ => keepsScope_pure _
  | _ => exact keepsScope_pure _

/-- The packages that are named become active. -/
theorem Builtin.run_usePackage (l : Language) (r : Reader) :
    (usePackage.start l).run r =
      match (named usePackage).run r with
      | (.ok names, r') =>
        (.ok (.done none), { r' with scope := names.foldl (fun s q => l.activate q s) r'.scope })
      | (.error e, r') => (.error e, r') := by
  simp only [start, named, run_bind]
  rcases optional?.run r with ⟨e | _, r'⟩
  · rfl
  · simp only
    rcases group.run r' with ⟨e | text, r''⟩ <;> rfl

/-- Packages are activated alike in both languages, if the package is not among them. -/
theorem Language.AgreesOutside.foldl_activate (h : l.AgreesOutside p k) {names : List String}
    (hp : p ∉ names) {s : Scope} (hs : p ∉ s.packages) :
    names.foldl (fun s q => l.activate q s) s = names.foldl (fun s q => k.activate q s) s ∧
      p ∉ (names.foldl (fun s q => l.activate q s) s).packages := by
  induction names generalizing s with
  | nil => exact ⟨rfl, hs⟩
  | cons q names ih =>
    obtain ⟨hq, hp⟩ := List.ne_and_not_mem_of_not_mem_cons hp
    rw [List.foldl_cons, List.foldl_cons, ← h.activate_eq hq.symm]
    exact ih hp (l.not_mem_packages_activate hq.symm hs)

/-- A command does the same in both languages where the package is not active, if it does not name
the package to activate it. -/
theorem CommandState.agreesAt_start (h : l.AgreesOutside p k) (s : CommandState) {r : Reader}
    (hr : p ∉ r.scope.packages) (hnamed : ∀ names r', s.named.run r = (.ok names, r') → p ∉ names) :
    (s.start l).AgreesAt p (s.start k) r := by
  cases s with
  | fresh b =>
    by_cases hb : b = .usePackage
    · subst hb
      have hscope := Builtin.keepsScope_named .usePackage r
      simp only [start, AgreesAt, Builtin.run_usePackage]
      rcases hn : (Builtin.named .usePackage).run r with ⟨e | names, r'⟩ <;> rw [hn] at hscope
      · exact ⟨rfl, by rwa [hscope]⟩
      · obtain ⟨heq, hp⟩ := h.foldl_activate (hnamed names r' hn) (hscope ▸ hr)
        exact ⟨by simp only [heq], hp⟩
    · exact Builtin.agrees_start h hb r hr
  | defined d => exact h.expand d r hr
  | args | switch | division | fence | script => exact ⟨rfl, hr⟩

end Typeset
