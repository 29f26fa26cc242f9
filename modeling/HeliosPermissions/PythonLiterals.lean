import Mathlib.Algebra.Order.BigOperators.Group.List
import Mathlib.Data.List.Basic
import Mathlib.Data.String.Basic
import HeliosPermissions.HexDigits

/-!
# String literals of Python

What a text means between double quotes. The tokenizer first finds where the
literal ends; the escapes in it are decoded afterwards. Escapes that the language
does not know stay as they are, so a text can hold backslashes and still be a
literal for itself, and every escape that it knows is longer than what it stands
for. Characters by name need the Unicode name table, and they are not read.
-/

namespace PythonLiterals

/-- Whether a text stays within the double quotes around it, as one literal on one line. -/
def staysInside (escaped : Bool) : List Char → Bool
  | [] => !escaped
  | c :: rest =>
    if c = '\x00' ∨ c = '\r' then false
    else if escaped then staysInside false rest
    else if c = '\\' then staysInside true rest
    else if c = '"' ∨ c = '\n' then false
    else staysInside false rest

/-- Whether a text stays within the three double quotes around it, as one literal on any number
of lines, after so many quotes in a row. -/
def staysInsideLong (escaped : Bool) (quotes : ℕ) : List Char → Bool
  | [] => !escaped && quotes = 0
  | c :: rest =>
    if c = '\x00' then false
    else if escaped then staysInsideLong false 0 rest
    else if c = '\\' then staysInsideLong true 0 rest
    else if c = '"' then if quotes = 2 then false else staysInsideLong false (quotes + 1) rest
    else staysInsideLong false 0 rest

/-- Where the decoder stands. -/
inductive DecoderMode where
  | plain
  /-- After a backslash. -/
  | slash
  /-- In a hexadecimal escape with one digit more to come than the number says. -/
  | hex (left value : ℕ)
  /-- In an octal escape that may go on for as many digits. -/
  | octal (left value : ℕ)
  deriving DecidableEq

/-- The decoder with the value so far, last character first. -/
structure Decoder where
  /-- Where in the literal it is. -/
  mode : DecoderMode
  /-- The value so far, last character first. -/
  rev : List Char
  deriving DecidableEq

/-- The escapes of one letter. -/
def shortEscapes : List (Char × Char) :=
  [('\\', '\\'), ('\'', '\''), ('"', '"'), ('a', '\x07'), ('b', '\x08'), ('f', '\x0c'),
    ('n', '\n'), ('r', '\r'), ('t', '\t'), ('v', '\x0b')]

/-- How many digits follow the letter of a hexadecimal escape. -/
def hexWidths : List (Char × ℕ) := [('x', 2), ('u', 4), ('U', 8)]

/-- The value of an octal digit. -/
def octalDigit (c : Char) : Option ℕ :=
  if '0' ≤ c ∧ c ≤ '7' then some (c.toNat - 48) else none

/-- The character of a code point. A surrogate has none. -/
def charOf (n : ℕ) : Option Char := if n.isValidChar then some (Char.ofNat n) else none

/-- A character outside escapes. -/
def Decoder.outside (rev : List Char) (c : Char) : Decoder :=
  if c = '\\' then ⟨.slash, rev⟩ else ⟨.plain, c :: rev⟩

/-- A character after a backslash. -/
def Decoder.afterSlash (rev : List Char) (c : Char) : Option Decoder :=
  if c = '\n' then some ⟨.plain, rev⟩
  else match shortEscapes.lookup c with
    | some e => some ⟨.plain, e :: rev⟩
    | none => match hexWidths.lookup c with
      | some width => some ⟨.hex (width - 1) 0, rev⟩
      | none =>
        if c = 'N' then none
        else match octalDigit c with
          | some n => some ⟨.octal 2 n, rev⟩
          | none => some ⟨.plain, c :: '\\' :: rev⟩

/-- One character. -/
def Decoder.step (d : Decoder) (c : Char) : Option Decoder :=
  match d.mode with
  | .plain => some (.outside d.rev c)
  | .slash => Decoder.afterSlash d.rev c
  | .hex left value =>
    match HexDigits.value c, left with
    | some n, 0 => (charOf (16 * value + n)).map fun e => ⟨.plain, e :: d.rev⟩
    | some n, more + 1 => some ⟨.hex more (16 * value + n), d.rev⟩
    | none, _ => none
  | .octal left value =>
    match octalDigit c, left with
    | some n, more + 1 => some ⟨.octal more (8 * value + n), d.rev⟩
    | _, _ => some (.outside (Char.ofNat value :: d.rev) c)

/-- The value at the end of the text. -/
def Decoder.finish (d : Decoder) : Option (List Char) :=
  match d.mode with
  | .plain => some d.rev.reverse
  | .octal _ value => some (Char.ofNat value :: d.rev).reverse
  | _ => none

/-- Decode the escapes of a text. -/
def unescape (text : List Char) : Option (List Char) :=
  (text.foldlM Decoder.step ⟨.plain, []⟩).bind Decoder.finish

/-- What the text means between double quotes, when it stays within them. -/
def literalValue (text : String) : Option String :=
  if staysInside false text.toList then (unescape text.toList).map String.ofList else none

/-- A text without quotes, backslashes, line ends and null characters. -/
def NeedsNoEscape (text : String) : Prop :=
  ∀ c ∈ text.toList, c ≠ '"' ∧ c ≠ '\\' ∧ c ≠ '\n' ∧ c ≠ '\r' ∧ c ≠ '\x00'

instance (text : String) : Decidable (NeedsNoEscape text) :=
  List.decidableBAll _ text.toList

/-- A text without quotes, escapes and line ends stays inside. -/
theorem staysInside_of_needsNoEscape {chars : List Char}
    (h : ∀ c ∈ chars, c ≠ '"' ∧ c ≠ '\\' ∧ c ≠ '\n' ∧ c ≠ '\r' ∧ c ≠ '\x00') :
    staysInside false chars = true := by
  induction chars with
  | nil => rfl
  | cons c rest ih =>
    obtain ⟨hquote, hslash, hline, hreturn, hnull⟩ := h c (by simp)
    have hrest := ih fun d hd => h d (List.mem_cons_of_mem c hd)
    simp [staysInside, hquote, hslash, hline, hreturn, hnull, hrest]

/-- Characters that are no backslashes are read as they are. -/
theorem foldlM_plain {chars : List Char} (h : ∀ c ∈ chars, c ≠ '\\') (rev : List Char) :
    chars.foldlM Decoder.step ⟨.plain, rev⟩ = some ⟨.plain, chars.reverse ++ rev⟩ := by
  induction chars generalizing rev with
  | nil => rfl
  | cons c rest ih =>
    have hc : c ≠ '\\' := h c (by simp)
    have hstep : Decoder.step ⟨.plain, rev⟩ c = some ⟨.plain, c :: rev⟩ := by
      simp [Decoder.step, Decoder.outside, hc]
    rw [List.foldlM_cons, hstep, Option.bind_eq_bind, Option.bind_some,
      ih fun d hd => h d (List.mem_cons_of_mem c hd)]
    simp

/-- A text that needs no escape is a literal for itself. -/
theorem literalValue_of_needsNoEscape {text : String} (h : NeedsNoEscape text) :
    literalValue text = some text := by
  have hvalue : unescape text.toList = some text.toList := by
    rw [unescape, foldlM_plain fun c hc => (h c hc).2.1]
    simp [Decoder.finish]
  rw [literalValue, staysInside_of_needsNoEscape h, hvalue]
  simp

/-- What means something between three double quotes: a text that stays within them and whose
escapes can be decoded. -/
def LongLiteral (chars : List Char) : Prop :=
  staysInsideLong false 0 chars = true ∧ (unescape chars).isSome = true

/-- A text without quotes, backslashes and null characters does. -/
theorem longLiteral_of_lacks {chars : List Char}
    (h : ∀ c ∈ chars, c ≠ '"' ∧ c ≠ '\\' ∧ c ≠ '\x00') : LongLiteral chars := by
  constructor
  · induction chars with
    | nil => rfl
    | cons c rest ih =>
      obtain ⟨hquote, hslash, hnull⟩ := h c (by simp)
      have hrest := ih fun d hd => h d (List.mem_cons_of_mem c hd)
      simp [staysInsideLong, hquote, hslash, hnull, hrest]
  · rw [unescape, foldlM_plain fun c hc => (h c hc).2.1]
    rfl

/-- Whether no escape is being read but a backslash may stand open. -/
def Decoder.Kept (d : Decoder) : Prop := d.mode = .plain ∨ d.mode = .slash

/-- The value so far, with an open backslash, last character first. -/
def Decoder.spelled (d : Decoder) : List Char :=
  match d.mode with
  | .slash => '\\' :: d.rev
  | _ => d.rev

/-- An upper bound for the characters that the text so far can stand for. -/
def Decoder.weight (d : Decoder) : ℕ :=
  match d.mode with
  | .plain => d.rev.length
  | _ => d.rev.length + 1

/-- What has been kept weighs as much as it was spelled with. -/
theorem Decoder.Kept.weight_eq {d : Decoder} (h : d.Kept) : d.weight = d.spelled.length := by
  rcases h with h | h
  · simp [Decoder.weight, Decoder.spelled, h]
  · simp [Decoder.weight, Decoder.spelled, h]

/-- A character outside an escape adds one to the weight. -/
theorem Decoder.outside_weight (rev : List Char) (c : Char) :
    (Decoder.outside rev c).weight = rev.length + 1 := by
  rw [Decoder.outside]
  split_ifs
  · rfl
  · rfl

/-- A backslash opens an escape; any other character is kept. -/
theorem Decoder.outside_kept (rev : List Char) (c : Char) :
    (Decoder.outside rev c).Kept ∧ (Decoder.outside rev c).spelled = c :: rev := by
  rw [Decoder.outside]
  split_ifs with hc
  · exact ⟨Or.inr rfl, by rw [hc]; rfl⟩
  · exact ⟨Or.inl rfl, rfl⟩

/-- After a backslash: the two characters stay, or they weigh less than they count. -/
theorem Decoder.afterSlash_weight {rev : List Char} {c : Char} {d : Decoder}
    (h : Decoder.afterSlash rev c = some d) :
    (d.Kept ∧ d.spelled = c :: '\\' :: rev) ∨ d.weight < rev.length + 2 := by
  unfold Decoder.afterSlash at h
  by_cases hline : c = '\n'
  · rw [if_pos hline] at h
    cases h
    exact Or.inr (by simp [Decoder.weight])
  · rw [if_neg hline] at h
    split at h
    · cases h
      exact Or.inr (by simp [Decoder.weight])
    · split at h
      · cases h
        exact Or.inr (by simp [Decoder.weight])
      · by_cases hname : c = 'N'
        · rw [if_pos hname] at h
          cases h
        · rw [if_neg hname] at h
          split at h
          · cases h
            exact Or.inr (by simp [Decoder.weight])
          · cases h
            exact Or.inl ⟨Or.inl rfl, rfl⟩

/-- One character weighs one at most. When it weighs one and no escape was being read, it
has been kept as it is. -/
theorem Decoder.step_weight {d d' : Decoder} {c : Char} (h : d.step c = some d') :
    d'.weight ≤ d.weight + 1 ∧
      (d.Kept → (d'.Kept ∧ d'.spelled = c :: d.spelled) ∨ d'.weight < d.weight + 1) := by
  obtain ⟨mode, rev⟩ := d
  cases mode with
  | plain =>
    cases h
    refine ⟨?_, fun _ => Or.inl (Decoder.outside_kept rev c)⟩
    rw [Decoder.outside_weight]
    rfl
  | slash =>
    have hweight : (⟨.slash, rev⟩ : Decoder).weight + 1 = rev.length + 2 := rfl
    rw [hweight]
    rcases Decoder.afterSlash_weight h with ⟨hkept, hspelled⟩ | hless
    · refine ⟨?_, fun _ => Or.inl ⟨hkept, hspelled⟩⟩
      rw [hkept.weight_eq, hspelled]
      simp
    · exact ⟨hless.le, fun _ => Or.inr hless⟩
  | hex left value =>
    refine ⟨?_, fun hkept => by rcases hkept with hno | hno <;> cases hno⟩
    rw [Decoder.step] at h
    dsimp only at h
    split at h
    · obtain ⟨e, -, rfl⟩ := Option.map_eq_some_iff.mp h
      simp [Decoder.weight]
    · cases h
      simp [Decoder.weight]
    · cases h
  | octal left value =>
    refine ⟨?_, fun hkept => by rcases hkept with hno | hno <;> cases hno⟩
    rw [Decoder.step] at h
    dsimp only at h
    split at h
    · cases h
      simp [Decoder.weight]
    · cases h
      rw [Decoder.outside_weight]
      rfl

/-- A run of the decoder weighs no more than it reads, and less unless it keeps every
character as it is. -/
theorem run_weight {chars : List Char} {d d' : Decoder}
    (h : chars.foldlM Decoder.step d = some d') :
    d'.weight ≤ d.weight + chars.length ∧
      (d.Kept → (d'.Kept ∧ d'.spelled = chars.reverse ++ d.spelled) ∨
        d'.weight < d.weight + chars.length) := by
  induction chars generalizing d with
  | nil =>
    cases h
    exact ⟨le_rfl, fun hkept => Or.inl ⟨hkept, rfl⟩⟩
  | cons c rest ih =>
    rw [List.foldlM_cons] at h
    obtain ⟨m, hstep, hrest⟩ := Option.bind_eq_some_iff.mp h
    obtain ⟨hone, hfirst⟩ := Decoder.step_weight hstep
    obtain ⟨hmany, hlater⟩ := ih hrest
    rw [List.length_cons]
    refine ⟨by omega, fun hkept => ?_⟩
    rcases hfirst hkept with ⟨hkept', hspelled⟩ | hless
    · rcases hlater hkept' with ⟨hend, hall⟩ | hless
      · refine Or.inl ⟨hend, ?_⟩
        rw [hall, hspelled]
        simp
      · exact Or.inr (by omega)
    · exact Or.inr (by omega)

/-- Decoding gives back the text, or something shorter. -/
theorem unescape_shrinks {chars value : List Char} (h : unescape chars = some value) :
    value = chars ∨ value.length < chars.length := by
  obtain ⟨d, hrun, hfinish⟩ := Option.bind_eq_some_iff.mp h
  obtain ⟨hle, hkept⟩ := run_weight hrun
  have hstart : (⟨.plain, []⟩ : Decoder).weight = 0 := rfl
  rw [hstart, Nat.zero_add] at hle hkept
  obtain ⟨mode, rev⟩ := d
  cases mode with
  | plain =>
    cases hfinish
    rcases hkept (Or.inl rfl) with ⟨-, hspelled⟩ | hless
    · refine Or.inl ?_
      have hrev : rev = chars.reverse ++ [] := hspelled
      rw [hrev]
      simp
    · exact Or.inr (by simpa [Decoder.weight] using hless)
  | octal left n =>
    cases hfinish
    rcases hkept (Or.inl rfl) with ⟨hno, -⟩ | hless
    · rcases hno with hno | hno <;> cases hno
    · exact Or.inr (by simpa [Decoder.weight] using hless)
  | slash => cases hfinish
  | hex left n => cases hfinish

/-- A text that is not a literal for itself is longer than what it is a literal for. -/
theorem literalValue_shrinks {text value : String} (h : literalValue text = some value)
    (hne : value ≠ text) : value.length < text.length := by
  rw [literalValue] at h
  split_ifs at h with hinside
  obtain ⟨chars, hchars, rfl⟩ := Option.map_eq_some_iff.mp h
  rcases unescape_shrinks hchars with heq | hless
  · rw [heq] at hne
    exact absurd (String.ofList_toList) hne
  · rw [String.length_ofList]
    exact hless

example : literalValue "\\x41\\d" = some "A\\d" := by decide

/-- A map that makes whatever it moves smaller moves nothing in a list that it covers. -/
theorem fixed_of_covering {α : Type} (f : α → α) (size : α → ℕ) {l : List α}
    (hshrink : ∀ a ∈ l, f a ≠ a → size (f a) < size a) (hcover : ∀ a ∈ l, ∃ b ∈ l, f b = a) :
    ∀ a ∈ l, f a = a := by
  intro a ha
  by_contra hmoved
  -- what is moved is covered by something larger that is moved, and so on without end
  have hlarge : ∀ n, ∃ b ∈ l, f b ≠ b ∧ n ≤ size b := by
    intro n
    induction n with
    | zero => exact ⟨a, ha, hmoved, Nat.zero_le _⟩
    | succ n ih =>
      obtain ⟨b, hb, hbmoved, hsize⟩ := ih
      obtain ⟨c, hc, hcover⟩ := hcover b hb
      have hcmoved : f c ≠ c := by
        intro hfix
        rw [hfix] at hcover
        rw [hcover] at hfix
        exact hbmoved hfix
      have hlt := hshrink c hc hcmoved
      rw [hcover] at hlt
      exact ⟨c, hc, hcmoved, by omega⟩
  obtain ⟨b, hb, -, hsize⟩ := hlarge ((l.map size).sum + 1)
  have hbound : size b ≤ (l.map size).sum :=
    List.single_le_sum (fun _ _ => Nat.zero_le _) _ (List.mem_map_of_mem hb)
  omega

end PythonLiterals
