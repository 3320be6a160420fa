import Typeset.Color.Spec
import Typeset.Proofs.Color.Mixtures

/-!
# Written colors

What a specification gives is an opaque color, and its written form is a specification of it.

* `Color.read?_text`: an opaque color is read back from its written form.
* `Color.read?_text_of_not_isOpaque`: the written form of another color is no specification.
* `Color.isOpaque_of_readIn?`, `Color.isOpaque_of_readPlain?`: what is read in a model, or without
  one and not mixed, is opaque.
* `Color.MixesUndefined`: the specification mixes two colors by the percentage `nan`.
* `Color.read?_text_of_read?`: every other specification gives a color that is read back.
-/

namespace Typeset

namespace Color

variable {c : Color}

/-! ## Hexadecimal digits -/

theorem hexValue?_hexDigit : ∀ {n : ℕ}, n < 16 → hexValue? (hexDigit n) = some n := by
  decide

theorem hexDigit_plain : ∀ {n : ℕ}, n < 16 →
    Text.isBlank (hexDigit n) = false ∧ hexDigit n ≠ '!' := by
  decide

theorem hexByte_plain (b : UInt8) : ∀ c ∈ hexByte b, Text.isBlank c = false ∧ c ≠ '!' := by
  have hb := b.toNat_lt
  simp only [hexByte, List.forall_mem_cons, List.not_mem_nil, false_implies, implies_true, and_true]
  exact ⟨hexDigit_plain (by omega), hexDigit_plain (by omega)⟩

theorem mapM_hexValue?_hexByte (b : UInt8) :
    (hexByte b).mapM hexValue? = some [b.toNat / 16, b.toNat % 16] := by
  have hb := b.toNat_lt
  simp [hexByte, hexValue?_hexDigit (show b.toNat / 16 < 16 by omega),
    hexValue?_hexDigit (show b.toNat % 16 < 16 by omega)]

theorem ofNat_hexByte (b : UInt8) : UInt8.ofNat (16 * (b.toNat / 16) + b.toNat % 16) = b := by
  rw [Nat.div_add_mod, UInt8.ofNat_toNat]

/-! ## The written form -/

/-- A written color has no blank and no mark of a mixture. -/
theorem chars_plain (c : Color) : ∀ x ∈ c.chars, Text.isBlank x = false ∧ x ≠ '!' := by
  have hopacity : ∀ x ∈ if c.a = 255 then [] else hexByte c.a,
      Text.isBlank x = false ∧ x ≠ '!' := by
    split
    · exact nofun
    · exact hexByte_plain c.a
  simp only [chars, List.forall_mem_cons, List.forall_mem_append]
  exact ⟨by decide, ⟨⟨hexByte_plain c.r, hexByte_plain c.g⟩, hexByte_plain c.b⟩, hopacity⟩

/-- No name begins with a number sign. -/
theorem named?_numberSign (cs : List Char) : named? (String.ofList ('#' :: cs)) = none := by
  have hnames : ∀ p ∈ basicNames ++ inkNames, p.1.toList.head? ≠ some '#' := by decide +kernel
  rw [named?, Option.map_eq_none_iff, List.lookup_eq_none_iff]
  intro p hp
  have hne : String.ofList ('#' :: cs) ≠ p.1 := fun h => hnames p hp (by simp [← h])
  simpa using hne

/-- Six digits are read as the color that they are written for; eight are no digits of a color. -/
theorem readHex?_chars (c : Color) :
    readHex? c.chars = if c.a = 255 then some c else none := by
  obtain ⟨r, g, b, a⟩ := c
  unfold readHex? chars
  simp only
  split
  · rename_i ha
    subst ha
    simp only [List.mapM_append, mapM_hexValue?_hexByte, List.mapM_nil, Option.pure_def,
      Option.bind_eq_bind, Option.bind_some, List.cons_append, List.nil_append, ofNat_hexByte, rgb]
  · simp only [List.mapM_append, mapM_hexValue?_hexByte, Option.pure_def,
      Option.bind_eq_bind, Option.bind_some, List.cons_append, List.nil_append]

/-- The written form of a color is read as hexadecimal digits. -/
theorem read?_chars (c : Color) :
    read? (fun _ => none) none c.chars = if c.a = 255 then some c else none := by
  have htrim : Text.trim c.chars = c.chars := Text.trim_of_forall fun x hx => (c.chars_plain x hx).1
  have hsplit : Text.split '!' c.chars = [c.chars] :=
    Text.split_of_forall fun x hx => (c.chars_plain x hx).2
  have hlower : lowerName c.chars = '#' :: lowerName c.chars.tail := rfl
  simp only [read?, Option.bind_none, readMixture?, htrim, hsplit, readPlain?]
  rw [readHex?_chars, hlower, named?_numberSign, chars, named?_numberSign]
  simp

/-- An opaque color is read back from its written form. -/
theorem read?_text (h : c.IsOpaque) : read? (fun _ => none) none c.text.toList = some c := by
  rw [text, String.toList_ofList, read?_chars]
  exact if_pos h

/-- The written form of a color that is not opaque is no specification. -/
theorem read?_text_of_not_isOpaque (h : ¬c.IsOpaque) :
    read? (fun _ => none) none c.text.toList = none := by
  rw [text, String.toList_ofList, read?_chars]
  exact if_neg h

/-! ## What a specification gives -/

theorem isOpaque_of_readHex? {cs : List Char} (h : readHex? cs = some c) : c.IsOpaque := by
  unfold readHex? at h
  obtain ⟨digits, -, h⟩ := Option.bind_eq_some_iff.mp h
  split at h <;> cases h <;> rfl

theorem isOpaque_of_named? {name : String} (h : named? name = some c) : c.IsOpaque := by
  obtain ⟨n, -, rfl⟩ := Option.map_eq_some_iff.mp h
  rfl

/-- What is read in a model is opaque. -/
theorem isOpaque_of_readIn? {model : Model} {spec : List Char} (h : readIn? model spec = some c) :
    c.IsOpaque := by
  cases model with
  | html => exact isOpaque_of_readHex? h
  | gray =>
    obtain ⟨v, -, h⟩ := Option.bind_eq_some_iff.mp h
    cases h
    rfl
  | bytes | shares | inks =>
    obtain ⟨channels, -, h⟩ := Option.bind_eq_some_iff.mp h
    split at h
    · cases h
      rfl
    · cases h

variable {known : String → Option Color}

/-- What is read without a model and is no mixture is opaque, if the names of the document are. -/
theorem isOpaque_of_readPlain? (hknown : ∀ name c, known name = some c → c.IsOpaque)
    {spec : List Char} (h : readPlain? known spec = some c) : c.IsOpaque := by
  simp only [readPlain?, Option.orElse_eq_some] at h
  rcases h with h | ⟨-, h | ⟨-, h | ⟨-, h⟩⟩⟩
  · exact isOpaque_of_named? h
  · exact hknown _ _ h
  · exact isOpaque_of_readHex? h
  · exact isOpaque_of_named? h

/-- A percentage is defined unless it is written as the undefined numeral. -/
theorem isDefined_readPercent_iff (piece : List Char) :
    IsDefined (readPercent piece) ↔ Numeral.read? (Text.trim piece) ≠ some .undefined := by
  unfold readPercent
  cases Numeral.read? (Text.trim piece) with
  | none => exact iff_of_true (hasValue_ofNat (n := 50) (by norm_num)).isDefined nofun
  | some n => simp [Numeral.isDefined_toFloat_iff]

/-- The pieces of a mixture give opaque colors, and these are mixed. -/
theorem exists_mix_of_readMixture? (hknown : ∀ name c, known name = some c → c.IsOpaque)
    {spec first percent : List Char} {more : List (List Char)}
    (hpieces : Text.split '!' spec = first :: percent :: more)
    (h : readMixture? known spec = some c) :
    ∃ x y : Color, x.IsOpaque ∧ y.IsOpaque ∧ c = x.mix y (readPercent percent) := by
  rw [readMixture?, hpieces] at h
  obtain ⟨x, hx, h⟩ := Option.bind_eq_some_iff.mp h
  have hx := isOpaque_of_readPlain? hknown hx
  cases more with
  | nil =>
    cases h
    exact ⟨x, white, hx, rfl, rfl⟩
  | cons second rest =>
    obtain ⟨y, hy, h⟩ := Option.bind_eq_some_iff.mp h
    cases h
    exact ⟨x, y, hx, isOpaque_of_readPlain? hknown hy, rfl⟩

/-! ## Reading back -/

/-- The specification mixes two colors by a percentage that is spelled as no number. -/
def MixesUndefined (model : Option (List Char)) (spec : List Char) : Prop :=
  model.bind Model.named? = none ∧ ∃ first percent more,
    Text.split '!' (Text.trim spec) = first :: percent :: more ∧
      Numeral.read? (Text.trim percent) = some .undefined

variable {model : Option (List Char)} {spec : List Char}

/-- Every other specification gives an opaque color. -/
theorem isOpaque_of_read? (hknown : ∀ name c, known name = some c → c.IsOpaque)
    (h : read? known model spec = some c) (hdefined : ¬MixesUndefined model spec) :
    c.IsOpaque := by
  unfold read? at h
  simp only at h
  split at h
  · exact isOpaque_of_readIn? h
  · rename_i hmodel
    -- A single piece is plain, more of them are a mixture.
    match hpieces : Text.split '!' (Text.trim spec) with
    | [] => simp only [readMixture?, hpieces, reduceCtorEq] at h
    | [_] =>
      simp only [readMixture?, hpieces] at h
      exact isOpaque_of_readPlain? hknown h
    | first :: percent :: more =>
      obtain ⟨x, y, hx, hy, rfl⟩ := exists_mix_of_readMixture? hknown hpieces h
      refine isOpaque_mix ((isDefined_readPercent_iff percent).mpr fun hpercent => ?_) hx hy
      exact hdefined ⟨hmodel, first, percent, more, hpieces, hpercent⟩

/-- A mixture by an undefined percentage has no color and no opacity. -/
theorem eq_of_mixesUndefined (hknown : ∀ name c, known name = some c → c.IsOpaque)
    (h : read? known model spec = some c) (hundefined : MixesUndefined model spec) :
    c = { r := 0, g := 0, b := 0, a := 0 } := by
  obtain ⟨hmodel, first, percent, more, hpieces, hpercent⟩ := hundefined
  simp only [read?, hmodel] at h
  obtain ⟨x, y, -, -, rfl⟩ := exists_mix_of_readMixture? hknown hpieces h
  exact mix_of_not_isDefined (fun hdefined => (isDefined_readPercent_iff percent).mp hdefined
    hpercent) x y

/-- **The color of a specification is read back from its written form.** If the names of the
document stand for opaque colors, whatever a specification gives is an opaque color, and its written
form gives this color again, without a model and without the names. The mixture of two colors by a
percentage spelled `nan` is the exception: it has no opacity, and its written form is no
specification. -/
theorem read?_text_of_read? (hknown : ∀ name c, known name = some c → c.IsOpaque)
    (h : read? known model spec = some c) :
    (¬MixesUndefined model spec →
      c.IsOpaque ∧ read? (fun _ => none) none c.text.toList = some c) ∧
    (MixesUndefined model spec →
      c = { r := 0, g := 0, b := 0, a := 0 } ∧
        read? (fun _ => none) none c.text.toList = none) := by
  refine ⟨fun hdefined => ?_, fun hundefined => ?_⟩
  · have hc := isOpaque_of_read? hknown h hdefined
    exact ⟨hc, read?_text hc⟩
  · have hc := eq_of_mixesUndefined hknown h hundefined
    refine ⟨hc, read?_text_of_not_isOpaque ?_⟩
    rw [hc]
    exact (by decide : (0 : UInt8) ≠ 255)

/-- A quarter of red with blue is a color that is read back. -/
theorem read?_text_of_read?_quarter :
    (∀ name c, (fun _ : String => (none : Option Color)) name = some c → c.IsOpaque) ∧
    read? (fun _ => none) none "red!25!blue".toList = some (rgb 64 0 191) ∧
    ¬MixesUndefined none "red!25!blue".toList ∧
    read? (fun _ => none) none (rgb 64 0 191).text.toList = some (rgb 64 0 191) := by
  have hknown : ∀ name c, (fun _ : String => (none : Option Color)) name = some c → c.IsOpaque :=
    nofun
  have h : read? (fun _ => none) none "red!25!blue".toList = some (rgb 64 0 191) := by
    decide +kernel
  have hdefined : ¬MixesUndefined none "red!25!blue".toList := by
    rintro ⟨-, first, percent, more, hpieces, hpercent⟩
    have hsplit : Text.split '!' (Text.trim "red!25!blue".toList) =
        ["red".toList, "25".toList, "blue".toList] := by decide
    rw [hsplit] at hpieces
    cases hpieces
    revert hpercent
    decide
  exact ⟨hknown, h, hdefined, ((read?_text_of_read? hknown h).1 hdefined).2⟩

/-- The mixture `red!nan!blue` of two opaque colors is not opaque, and its written form is no
specification. -/
theorem not_isOpaque_red_nan_blue :
    ∃ c, read? (fun _ => none) none "red!nan!blue".toList = some c ∧ ¬c.IsOpaque ∧
      read? (fun _ => none) none c.text.toList = none :=
  ⟨{ r := 0, g := 0, b := 0, a := 0 }, by decide +kernel, by unfold IsOpaque; decide,
    by decide +kernel⟩

end Color

end Typeset
