import Mathlib.Data.List.Basic
import Mathlib.Data.String.Basic
import HeliosPermissions.HexDigits
import HeliosPermissions.JsonValues

/-!
# JSON as text and as bytes

`json.dumps` with its default separators and ASCII escapes, and a reader for the
grammar of JSON over UTF-8 bytes. Reading what was written gives the value back,
so the two are a codec for cached lists. A number is written with the digits
that it was read with. A surrogate that stands alone has no character to stand
for it, so the reader refuses it.
-/

namespace HeliosPermissions.JsonText

open JsonValues

/-- Four hexadecimal digits. -/
def hex4 (n : ℕ) : List Char := HexDigits.write HexDigits.lower 4 n

/-- The escapes of one letter: the letter after the backslash and what it stands for. -/
def shortEscapes : List (Char × Char) :=
  [('"', '"'), ('\\', '\\'), ('n', '\n'), ('r', '\r'), ('t', '\t'), ('f', '\x0c'),
    ('b', '\x08'), ('/', '/')]

/-- How a character stands in a string: printable ASCII as itself, everything else
escaped, with a pair of surrogates beyond the basic plane. -/
def escapeChar (c : Char) : List Char :=
  if c = '"' then ['\\', '"']
  else if c = '\\' then ['\\', '\\']
  else if 32 ≤ c.toNat ∧ c.toNat ≤ 126 then [c]
  else if c = '\n' then ['\\', 'n']
  else if c = '\r' then ['\\', 'r']
  else if c = '\t' then ['\\', 't']
  else if c = '\x0c' then ['\\', 'f']
  else if c = '\x08' then ['\\', 'b']
  else if c.toNat < 0x10000 then '\\' :: 'u' :: hex4 c.toNat
  else '\\' :: 'u' :: (hex4 (0xd800 + (c.toNat - 0x10000) / 1024) ++
    '\\' :: 'u' :: hex4 (0xdc00 + (c.toNat - 0x10000) % 1024))

/-- What stands after a backslash. -/
def readEscape : List Char → Option (Char × List Char)
  | [] => none
  | c :: rest =>
    if c = 'u' then
      match HexDigits.read 4 rest with
      | none => none
      | some (n, rest₁) =>
        if 0xd800 ≤ n ∧ n < 0xdc00 then
          -- the second half of a pair has to follow
          match HexDigits.read 4 (rest₁.drop 2) with
          | some (m, rest₂) =>
            if rest₁.take 2 = ['\\', 'u'] ∧ 0xdc00 ≤ m ∧ m < 0xe000 then
              some (Char.ofNat (0x10000 + (n - 0xd800) * 1024 + (m - 0xdc00)), rest₂)
            else none
          | none => none
        else if 0xdc00 ≤ n ∧ n < 0xe000 then none
        else some (Char.ofNat n, rest₁)
    else (shortEscapes.lookup c).map fun d => (d, rest)

/-- The rest of a string after its opening quote. -/
def readChars : ℕ → List Char → Option (List Char × List Char)
  | 0, _ => none
  | _ + 1, [] => none
  | fuel + 1, c :: rest =>
    if c = '"' then some ([], rest)
    else if c = '\\' then
      match readEscape rest with
      | none => none
      | some (d, rest') => (readChars fuel rest').map fun r => (d :: r.1, r.2)
    else if c.toNat < 32 then none
    else (readChars fuel rest).map fun r => (c :: r.1, r.2)

/-- A string with its quotes. -/
def renderString (s : String) : List Char := '"' :: s.toList.flatMap escapeChar ++ ['"']

/-- Four digits of a number that fits them are read back. -/
theorem read_hex4 {n : ℕ} (h : n < 65536) (rest : List Char) :
    HexDigits.read 4 (hex4 n ++ rest) = some (n, rest) :=
  HexDigits.read_write_of_lt HexDigits.faithful_lower h rest

/-- A character is never a surrogate. -/
theorem toNat_not_surrogate (c : Char) :
    c.toNat < 0xd800 ∨ 0xdfff < c.toNat ∧ c.toNat < 0x110000 :=
  c.valid

/-- A short escape is read back. -/
theorem readEscape_basic {c : Char} (h : c.toNat < 0x10000) (rest : List Char) :
    readEscape ('u' :: hex4 c.toNat ++ rest) = some (c, rest) := by
  have hvalid := toNat_not_surrogate c
  rw [List.cons_append, readEscape, if_pos rfl, read_hex4 h]
  dsimp only
  rw [if_neg (by omega), if_neg (by omega), Char.ofNat_toNat]

/-- A pair of surrogate escapes is read back. -/
theorem readEscape_pair {c : Char} (h : 0x10000 ≤ c.toNat) (rest : List Char) :
    readEscape ('u' :: (hex4 (0xd800 + (c.toNat - 0x10000) / 1024) ++
      '\\' :: 'u' :: hex4 (0xdc00 + (c.toNat - 0x10000) % 1024)) ++ rest) = some (c, rest) := by
  have hvalid := toNat_not_surrogate c
  have hsum : 0x10000 + (0xd800 + (c.toNat - 0x10000) / 1024 - 0xd800) * 1024 +
      (0xdc00 + (c.toNat - 0x10000) % 1024 - 0xdc00) = c.toNat := by omega
  rw [List.cons_append, readEscape, if_pos rfl, List.append_assoc, read_hex4 (by omega)]
  dsimp only
  have hdrop : ∀ tail, ('\\' :: 'u' :: tail).drop 2 = tail := fun _ => rfl
  have htake : ∀ tail, ('\\' :: 'u' :: tail).take 2 = ['\\', 'u'] := fun _ => rfl
  rw [if_pos (by omega), List.cons_append, List.cons_append, hdrop, htake,
    read_hex4 (by omega)]
  dsimp only
  rw [if_pos ⟨rfl, by omega, by omega⟩, hsum, Char.ofNat_toNat]

/-- A character stands as itself, or its escape reads back. -/
theorem escapeChar_cases (c : Char) :
    (escapeChar c = [c] ∧ c ≠ '"' ∧ c ≠ '\\' ∧ 32 ≤ c.toNat) ∨
      ∃ tail, escapeChar c = '\\' :: tail ∧
        ∀ rest, readEscape (tail ++ rest) = some (c, rest) := by
  rcases eq_or_ne c '"' with rfl | hq
  · exact Or.inr ⟨['"'], rfl, fun _ => rfl⟩
  rcases eq_or_ne c '\\' with rfl | hb
  · exact Or.inr ⟨['\\'], rfl, fun _ => rfl⟩
  by_cases hp : 32 ≤ c.toNat ∧ c.toNat ≤ 126
  · exact Or.inl ⟨by rw [escapeChar, if_neg hq, if_neg hb, if_pos hp], hq, hb, hp.1⟩
  rcases eq_or_ne c '\n' with rfl | hn
  · exact Or.inr ⟨['n'], rfl, fun _ => rfl⟩
  rcases eq_or_ne c '\r' with rfl | hr
  · exact Or.inr ⟨['r'], rfl, fun _ => rfl⟩
  rcases eq_or_ne c '\t' with rfl | ht
  · exact Or.inr ⟨['t'], rfl, fun _ => rfl⟩
  rcases eq_or_ne c '\x0c' with rfl | hf
  · exact Or.inr ⟨['f'], rfl, fun _ => rfl⟩
  rcases eq_or_ne c '\x08' with rfl | hbs
  · exact Or.inr ⟨['b'], rfl, fun _ => rfl⟩
  rw [escapeChar, if_neg hq, if_neg hb, if_neg hp, if_neg hn, if_neg hr, if_neg ht, if_neg hf,
    if_neg hbs]
  by_cases hu : c.toNat < 0x10000
  · rw [if_pos hu]
    exact Or.inr ⟨_, rfl, readEscape_basic hu⟩
  · rw [if_neg hu]
    exact Or.inr ⟨_, rfl, readEscape_pair (Nat.le_of_not_lt hu)⟩

/-- The characters of a string are read back up to its closing quote. -/
theorem readChars_escaped (s rest : List Char) {fuel : ℕ} (h : s.length < fuel) :
    readChars fuel (s.flatMap escapeChar ++ '"' :: rest) = some (s, rest) := by
  induction s generalizing fuel with
  | nil =>
    obtain ⟨n, rfl⟩ := Nat.exists_eq_succ_of_ne_zero (Nat.pos_iff_ne_zero.mp h)
    rfl
  | cons c s ih =>
    obtain ⟨n, rfl⟩ := Nat.exists_eq_succ_of_ne_zero (Nat.ne_zero_of_lt h)
    have hs := ih (Nat.lt_of_succ_lt_succ h)
    rw [List.flatMap_cons, List.append_assoc]
    rcases escapeChar_cases c with ⟨he, hq, hb, hp⟩ | ⟨tail, he, hread⟩
    · rw [he, List.singleton_append, readChars, if_neg hq, if_neg hb, if_neg (by omega), hs]
      rfl
    · rw [he, List.cons_append, readChars, if_neg (by decide), if_pos rfl, hread]
      dsimp only
      rw [hs]
      rfl

/-- The digits at the front of a text. -/
def takeDigits (input : List Char) : List Char × List Char :=
  (input.takeWhile Char.isDigit, input.dropWhile Char.isDigit)

/-- The digits after the point, when there are any. -/
def renderFraction (fraction : List (Fin 10)) : List Char :=
  if fraction = [] then [] else '.' :: fraction.map fun d : Fin 10 => Nat.digitChar d.val

/-- The exponent, when there is one. -/
def renderExponent : Option ℤ → List Char
  | none => []
  | some (.ofNat n) => 'e' :: Nat.toDigits 10 n
  | some (.negSucc n) => 'e' :: '-' :: Nat.toDigits 10 (n + 1)

/-- A number. -/
def renderNumber (n : JsonNumber) : List Char :=
  (if n.negative then ['-'] else []) ++
    (Nat.toDigits 10 n.whole ++ (renderFraction n.fraction ++ renderExponent n.exponent))

/-- The digits before the point: a zero stands alone. -/
def readWhole : List Char → Option (ℕ × List Char)
  | [] => none
  | c :: rest =>
    if c = '0' then some (0, rest)
    else if c.isDigit then
      some (Nat.ofDigitChars 10 (takeDigits (c :: rest)).1 0, (takeDigits (c :: rest)).2)
    else none

/-- A point with the digits after it; without digits the point is left. -/
def readFraction (input : List Char) : List (Fin 10) × List Char :=
  match input with
  | '.' :: rest =>
    if (takeDigits rest).1 = [] then ([], input)
    else ((takeDigits rest).1.map fun c => Fin.ofNat 10 (c.toNat - 48), (takeDigits rest).2)
  | _ => ([], input)

/-- The digits of an exponent after its sign. -/
def readPower (input rest : List Char) (sign : ℕ → ℤ) : Option ℤ × List Char :=
  if (takeDigits rest).1 = [] then (none, input)
  else (some (sign (Nat.ofDigitChars 10 (takeDigits rest).1 0)), (takeDigits rest).2)

/-- The sign of an exponent, which may be left out. -/
def readSign (input : List Char) : (ℕ → ℤ) × List Char :=
  match input with
  | [] => (fun n => n, input)
  | c :: rest =>
    if c = '-' then (fun n => -n, rest) else if c = '+' then (fun n => n, rest)
    else (fun n => n, input)

/-- An exponent, when a whole one stands there. -/
def readExponent (input : List Char) : Option ℤ × List Char :=
  match input with
  | [] => (none, input)
  | c :: rest =>
    if c = 'e' ∨ c = 'E' then readPower input (readSign rest).2 (readSign rest).1
    else (none, input)

/-- A number after its sign. -/
def readUnsigned (negative : Bool) (input : List Char) : Option (Json × List Char) :=
  (readWhole input).map fun r =>
    (.number ⟨negative, r.1, (readFraction r.2).1, (readExponent (readFraction r.2).2).1⟩,
      (readExponent (readFraction r.2).2).2)

/-- A text that does not go on with a digit. -/
def EndsDigits (rest : List Char) : Prop := ∀ c tail, rest = c :: tail → c.isDigit = false

/-- A text that does not go on with a piece of a number. -/
def EndsNumber (rest : List Char) : Prop :=
  ∀ c tail, rest = c :: tail → c.isDigit = false ∧ c ≠ '.' ∧ c ≠ 'e' ∧ c ≠ 'E'

/-- The digits end where something else begins. -/
theorem takeDigits_append {digits rest : List Char} (h : ∀ c ∈ digits, c.isDigit = true)
    (hrest : EndsDigits rest) : takeDigits (digits ++ rest) = (digits, rest) := by
  have hnone : rest.takeWhile Char.isDigit = [] ∧ rest.dropWhile Char.isDigit = rest := by
    cases rest with
    | nil => exact ⟨rfl, rfl⟩
    | cons c tail =>
      have hc := hrest c tail rfl
      exact ⟨by simp [hc], by simp [hc]⟩
  rw [takeDigits, List.takeWhile_append_of_pos h, List.dropWhile_append_of_pos h, hnone.1,
    hnone.2, List.append_nil]

/-- A decimal number is made of digits. -/
theorem isDigit_of_mem_toDigits {n : ℕ} : ∀ c ∈ Nat.toDigits 10 n, c.isDigit = true :=
  fun _ hc => Nat.isDigit_of_mem_toDigits (by decide) (by decide) hc

/-- Only the number zero is written with a leading zero. -/
theorem head_toDigits {n : ℕ} (h : n ≠ 0) : ∀ tail, Nat.toDigits 10 n ≠ '0' :: tail := by
  induction n using Nat.strong_induction_on with
  | h n ih =>
    rintro tail heq
    by_cases hlt : n < 10
    · rw [Nat.toDigits_of_lt_base hlt] at heq
      exact h (Nat.digitChar_eq_zero.mp (List.cons.inj heq).1)
    · have hsplit := Nat.toDigits_of_base_le (b := 10) (n := n) (by decide) (by omega)
      rw [hsplit] at heq
      cases hd : Nat.toDigits 10 (n / 10) with
      | nil => exact Nat.toDigits_ne_nil hd
      | cons c front =>
        rw [hd] at heq
        obtain ⟨rfl, -⟩ := List.cons.inj heq
        exact ih (n / 10) (by omega) (by omega) front hd

/-- A whole number is read back. -/
theorem readWhole_toDigits (n : ℕ) {rest : List Char} (h : EndsDigits rest) :
    readWhole (Nat.toDigits 10 n ++ rest) = some (n, rest) := by
  by_cases hn : n = 0
  · rw [hn]
    rfl
  · have htake := takeDigits_append (isDigit_of_mem_toDigits (n := n)) h
    cases hd : Nat.toDigits 10 n with
    | nil => exact absurd hd Nat.toDigits_ne_nil
    | cons c tail =>
      have hzero : c ≠ '0' := fun hc => head_toDigits hn tail (by rw [hd, hc])
      have hdigit : c.isDigit = true := isDigit_of_mem_toDigits c (by rw [hd]; simp)
      rw [hd] at htake
      rw [List.cons_append, readWhole, if_neg hzero, if_pos hdigit, ← List.cons_append, htake,
        ← hd, Nat.ofDigitChars_ten_toDigits]

/-- A fraction is read back. -/
theorem readFraction_render (fraction : List (Fin 10)) {rest : List Char}
    (h : EndsDigits rest) (hpoint : ∀ tail, rest ≠ '.' :: tail) :
    readFraction (renderFraction fraction ++ rest) = (fraction, rest) := by
  unfold renderFraction
  split_ifs with hempty
  · rw [hempty, List.nil_append]
    unfold readFraction
    split
    next tail => exact absurd rfl (hpoint tail)
    next => rfl
  · have hdigits : ∀ c ∈ fraction.map (fun d : Fin 10 => Nat.digitChar d.val),
        c.isDigit = true := by
      intro c hc
      obtain ⟨d, -, rfl⟩ := List.mem_map.mp hc
      rw [Nat.isDigit_digitChar]
      exact decide_eq_true d.isLt
    rw [List.cons_append, readFraction, takeDigits_append hdigits h, if_neg (by simpa using hempty)]
    have hback : ∀ d : Fin 10, Fin.ofNat 10 ((Nat.digitChar d.val).toNat - 48) = d := by decide
    have hid : ((fun c : Char => Fin.ofNat 10 (c.toNat - 48)) ∘
        fun d : Fin 10 => Nat.digitChar d.val) = id := funext hback
    rw [List.map_map, hid, List.map_id]

/-- An exponent is read back. -/
theorem readExponent_render (exponent : Option ℤ) {rest : List Char} (h : EndsNumber rest) :
    readExponent (renderExponent exponent ++ rest) = (exponent, rest) := by
  have hdigits : EndsDigits rest := fun c tail hr => (h c tail hr).1
  have hpower : ∀ (n : ℕ) (input : List Char) (sign : ℕ → ℤ),
      readPower input (Nat.toDigits 10 n ++ rest) sign = (some (sign n), rest) := by
    intro n input sign
    rw [readPower, takeDigits_append isDigit_of_mem_toDigits hdigits, if_neg Nat.toDigits_ne_nil,
      Nat.ofDigitChars_ten_toDigits]
  cases exponent with
  | none =>
    cases rest with
    | nil => rfl
    | cons c tail =>
      obtain ⟨-, -, he, hE⟩ := h c tail rfl
      simp [renderExponent, readExponent, he, hE]
  | some e =>
    cases e with
    | ofNat n =>
      have hsign : readSign (Nat.toDigits 10 n ++ rest) =
          (fun n : ℕ => (n : ℤ), Nat.toDigits 10 n ++ rest) := by
        cases hd : Nat.toDigits 10 n with
        | nil => exact absurd hd Nat.toDigits_ne_nil
        | cons c front =>
          have hdigit : c.isDigit = true := isDigit_of_mem_toDigits c (by rw [hd]; simp)
          have hminus : c ≠ '-' := by
            rintro rfl
            cases hdigit
          have hplus : c ≠ '+' := by
            rintro rfl
            cases hdigit
          rw [List.cons_append, readSign, if_neg hminus, if_neg hplus]
      rw [renderExponent, List.cons_append, readExponent, if_pos (Or.inl rfl), hsign]
      exact hpower n _ _
    | negSucc n =>
      rw [renderExponent, List.cons_append, readExponent, if_pos (Or.inl rfl), List.cons_append,
        readSign, if_pos rfl]
      exact hpower (n + 1) _ _

/-- A number without its sign is read back. -/
theorem readUnsigned_render (n : JsonNumber) {rest : List Char} (h : EndsNumber rest) :
    readUnsigned n.negative (Nat.toDigits 10 n.whole ++ (renderFraction n.fraction ++
      renderExponent n.exponent) ++ rest) = some (.number n, rest) := by
  have hexp : ∀ c tail, renderExponent n.exponent ++ rest = c :: tail →
      c.isDigit = false ∧ c ≠ '.' := by
    intro c tail hc
    cases he : n.exponent with
    | none =>
      rw [he] at hc
      exact ⟨(h c tail hc).1, (h c tail hc).2.1⟩
    | some e =>
      have hfirst : c = 'e' := by
        rw [he] at hc
        cases e with
        | ofNat m => exact (List.cons.inj hc).1.symm
        | negSucc m => exact (List.cons.inj hc).1.symm
      rw [hfirst]
      exact ⟨rfl, by decide⟩
  have hfrac : EndsDigits (renderFraction n.fraction ++ (renderExponent n.exponent ++ rest)) := by
    intro c tail hc
    unfold renderFraction at hc
    split_ifs at hc
    · exact (hexp c tail hc).1
    · obtain ⟨rfl, -⟩ := List.cons.inj hc
      rfl
  have hpoint : ∀ tail, renderExponent n.exponent ++ rest ≠ '.' :: tail :=
    fun tail hc => (hexp _ tail hc).2 rfl
  rw [readUnsigned, List.append_assoc, List.append_assoc, readWhole_toDigits n.whole hfrac,
    Option.map_some, readFraction_render n.fraction (fun c tail hc => (hexp c tail hc).1) hpoint]
  dsimp only
  rw [readExponent_render n.exponent h]

mutual

/-- `json.dumps`. -/
def render : Json → List Char
  | .null => "null".toList
  | .bool b => if b then "true".toList else "false".toList
  | .number n => renderNumber n
  | .str s => renderString s
  | .arr items => '[' :: (renderItems items ++ [']'])
  | .obj fields => '{' :: (renderFields fields ++ ['}'])

/-- The items of an array with commas between them. -/
def renderItems : List Json → List Char
  | [] => []
  | [v] => render v
  | v :: w :: rest => render v ++ ',' :: ' ' :: renderItems (w :: rest)

/-- The fields of an object with commas between them. -/
def renderFields : List (String × Json) → List Char
  | [] => []
  | [(k, v)] => renderString k ++ ':' :: ' ' :: render v
  | (k, v) :: f :: rest =>
    renderString k ++ ':' :: ' ' :: (render v ++ ',' :: ' ' :: renderFields (f :: rest))

end

/-- Blanks between the parts of a text. -/
def isBlank (c : Char) : Bool := c = ' ' || c = '\n' || c = '\r' || c = '\t'

/-- A text without the blanks at its front. -/
def skipBlanks (input : List Char) : List Char := input.dropWhile isBlank

/-- Read a fixed word. -/
def readWord (word : String) (value : Json) (input : List Char) : Option (Json × List Char) :=
  if word.toList.isPrefixOf input then some (value, input.drop word.toList.length) else none

/-- The name of a field with the colon after it. -/
def readName (input : List Char) : Option (String × List Char) :=
  match input with
  | [] => none
  | c :: rest =>
    if c = '"' then
      match readChars (rest.length + 1) rest with
      | none => none
      | some (k, rest₁) =>
        match skipBlanks rest₁ with
        | [] => none
        | d :: rest₂ => if d = ':' then some (String.ofList k, rest₂) else none
    else none

mutual

/-- Read one value, and give the text that follows it. -/
def readValue : ℕ → List Char → Option (Json × List Char)
  | 0, _ => none
  | fuel + 1, input =>
    match skipBlanks input with
    | [] => none
    | c :: rest =>
      if c = '"' then
        (readChars (rest.length + 1) rest).map fun r => (.str (String.ofList r.1), r.2)
      else if c = '[' then
        match skipBlanks rest with
        | [] => none
        | d :: rest' =>
          if d = ']' then some (.arr [], rest')
          else (readItems fuel rest).map fun r => (.arr r.1, r.2)
      else if c = '{' then
        match skipBlanks rest with
        | [] => none
        | d :: rest' =>
          if d = '}' then some (.obj [], rest')
          else (readFields fuel rest).map fun r => (.obj r.1, r.2)
      else if c = 'n' then readWord "null" .null (c :: rest)
      else if c = 't' then readWord "true" (.bool true) (c :: rest)
      else if c = 'f' then readWord "false" (.bool false) (c :: rest)
      else if c = '-' then readUnsigned true rest
      else readUnsigned false (c :: rest)

/-- The items of an array, up to its closing bracket. -/
def readItems : ℕ → List Char → Option (List Json × List Char)
  | 0, _ => none
  | fuel + 1, input =>
    match readValue fuel input with
    | none => none
    | some (v, rest) =>
      match skipBlanks rest with
      | [] => none
      | c :: rest' =>
        if c = ',' then (readItems fuel rest').map fun r => (v :: r.1, r.2)
        else if c = ']' then some ([v], rest')
        else none

/-- The fields of an object, up to its closing brace. -/
def readFields : ℕ → List Char → Option (List (String × Json) × List Char)
  | 0, _ => none
  | fuel + 1, input =>
    match readName (skipBlanks input) with
    | none => none
    | some (k, rest) =>
      match readValue fuel rest with
      | none => none
      | some (v, rest₁) =>
        match skipBlanks rest₁ with
        | [] => none
        | c :: rest₂ =>
          if c = ',' then (readFields fuel rest₂).map fun r => ((k, v) :: r.1, r.2)
          else if c = '}' then some ([(k, v)], rest₂)
          else none

end

/-- `json.loads` of a text. -/
def parse (text : String) : Option Json :=
  match readValue (text.toList.length + 1) text.toList with
  | some (v, rest) => if skipBlanks rest = [] then some v else none
  | none => none

/-- Nothing is skipped before another character. -/
theorem skipBlanks_cons {c : Char} (h : isBlank c = false) (rest : List Char) :
    skipBlanks (c :: rest) = c :: rest := by
  simp [skipBlanks, h]

/-- A blank is skipped. -/
theorem skipBlanks_space (rest : List Char) : skipBlanks (' ' :: rest) = skipBlanks rest := rfl

/-- A blank before a value is skipped. -/
theorem readValue_space (fuel : ℕ) (input : List Char) :
    readValue fuel (' ' :: input) = readValue fuel input := by
  cases fuel with
  | zero => rfl
  | succ n => rw [readValue, readValue, skipBlanks_space]

/-- A blank before an item is skipped. -/
theorem readItems_space (fuel : ℕ) (input : List Char) :
    readItems fuel (' ' :: input) = readItems fuel input := by
  cases fuel with
  | zero => rfl
  | succ n => rw [readItems, readItems, readValue_space]

/-- A blank before a member is skipped. -/
theorem readFields_space (fuel : ℕ) (input : List Char) :
    readFields fuel (' ' :: input) = readFields fuel input := by
  cases fuel with
  | zero => rfl
  | succ n => rw [readFields, readFields, skipBlanks_space]

/-- A character is escaped by one character at least. -/
theorem escapeChar_length_pos (c : Char) : 0 < (escapeChar c).length := by
  rcases escapeChar_cases c with ⟨he, -⟩ | ⟨tail, he, -⟩
  · simp [he]
  · simp [he]

/-- Escaping does not shorten a string. -/
theorem length_le_escaped (s : List Char) : s.length ≤ (s.flatMap escapeChar).length := by
  induction s with
  | nil => exact Nat.le_refl _
  | cons c s ih =>
    have hc := escapeChar_length_pos c
    simp only [List.flatMap_cons, List.length_append, List.length_cons]
    omega

/-- The body of a string, read with the fuel that its text gives. -/
theorem readChars_string (s : String) (rest : List Char) :
    readChars ((s.toList.flatMap escapeChar ++ '"' :: rest).length + 1)
      (s.toList.flatMap escapeChar ++ '"' :: rest) = some (s.toList, rest) := by
  refine readChars_escaped s.toList rest ?_
  have hle := length_le_escaped s.toList
  simp only [List.length_append]
  omega

/-- No value starts with a blank or with a closing bracket. -/
theorem render_head (v : Json) :
    ∃ c tail, render v = c :: tail ∧ isBlank c = false ∧ c ≠ ']' := by
  cases v with
  | null => exact ⟨_, _, rfl, rfl, by decide⟩
  | bool b => cases b <;> exact ⟨_, _, rfl, rfl, by decide⟩
  | str s => exact ⟨_, _, rfl, rfl, by decide⟩
  | arr items => exact ⟨_, _, rfl, rfl, by decide⟩
  | obj fields => exact ⟨_, _, rfl, rfl, by decide⟩
  | number n =>
    rw [render, renderNumber]
    split_ifs
    · exact ⟨_, _, rfl, rfl, by decide⟩
    · cases hd : Nat.toDigits 10 n.whole with
      | nil => exact absurd hd Nat.toDigits_ne_nil
      | cons c tail =>
        have hdigit : c.isDigit = true := isDigit_of_mem_toDigits c (by rw [hd]; simp)
        refine ⟨c, _, rfl, ?_, ?_⟩
        · by_contra hblank
          simp only [isBlank, Bool.not_eq_false, Bool.or_eq_true, decide_eq_true_eq] at hblank
          rcases hblank with ((rfl | rfl) | rfl) | rfl
          all_goals cases hdigit
        · rintro rfl
          cases hdigit

/-- No blank stands before a string. -/
theorem skipBlanks_string (k : String) (rest : List Char) :
    skipBlanks (renderString k ++ rest) = renderString k ++ rest :=
  skipBlanks_cons (by rfl) _

/-- A name and its colon are read back. -/
theorem readName_render (k : String) (rest : List Char) :
    readName (renderString k ++ ':' :: rest) = some (k, rest) := by
  rw [renderString, List.append_assoc, List.cons_append, readName, if_pos rfl,
    List.singleton_append, readChars_string]
  dsimp only
  rw [skipBlanks_cons (by rfl)]
  dsimp only
  rw [if_pos rfl, String.ofList_toList]

/-- A comma or a closing bracket ends a number. -/
theorem endsNumber_of_head {c : Char} (h : c = ',' ∨ c = ']' ∨ c = '}') (rest : List Char) :
    EndsNumber (c :: rest) := by
  intro c' tail heq
  obtain ⟨rfl, -⟩ := List.cons.inj heq
  rcases h with rfl | rfl | rfl
  all_goals exact ⟨rfl, by decide, by decide, by decide⟩

/-- A word is read back. -/
theorem readWord_append (word : String) (value : Json) (rest : List Char) :
    readWord word value (word.toList ++ rest) = some (value, rest) := by
  simp [readWord]

/-- A number with its sign, read as a value. -/
theorem readValue_number (n : JsonNumber) (fuel : ℕ) {rest : List Char} (h : EndsNumber rest) :
    readValue (fuel + 1) (renderNumber n ++ rest) = some (.number n, rest) := by
  have hread := readUnsigned_render n h
  rw [renderNumber]
  cases hneg : n.negative with
  | true =>
    rw [hneg] at hread
    rw [if_pos rfl, List.singleton_append, List.cons_append, readValue,
      skipBlanks_cons (by rfl)]
    simpa using hread
  | false =>
    rw [hneg] at hread
    rw [if_neg Bool.noConfusion, List.nil_append, readValue]
    cases hd : Nat.toDigits 10 n.whole with
    | nil => exact absurd hd Nat.toDigits_ne_nil
    | cons c tail =>
      have hdigit : c.isDigit = true := isDigit_of_mem_toDigits c (by rw [hd]; simp)
      have hne : ∀ d : Char, d.isDigit = false → c ≠ d := by
        rintro d hd rfl
        rw [hd] at hdigit
        cases hdigit
      have hblank : isBlank c = false := by
        simp [isBlank, hne ' ' rfl, hne '\n' rfl, hne '\r' rfl, hne '\t' rfl]
      rw [hd] at hread
      rw [List.cons_append, List.cons_append, skipBlanks_cons hblank]
      simp only [hne '"' rfl, hne '[' rfl, hne '\x7b' rfl, hne 'n' rfl, hne 't' rfl, hne 'f' rfl,
        hne '-' rfl, if_false]
      exact hread

/-- With this much fuel, whatever was written is read back. -/
structure ReadsBack (fuel : ℕ) : Prop where
  /-- A value is read back. -/
  value : ∀ v rest, (render v).length < fuel → EndsNumber rest →
    readValue fuel (render v ++ rest) = some (v, rest)
  /-- The items of an array are read back. -/
  items : ∀ v more rest, (renderItems (v :: more)).length + 1 < fuel →
    readItems fuel (renderItems (v :: more) ++ ']' :: rest) = some (v :: more, rest)
  /-- The members of an object are read back. -/
  fields : ∀ f more rest, (renderFields (f :: more)).length + 1 < fuel →
    readFields fuel (renderFields (f :: more) ++ '}' :: rest) = some (f :: more, rest)

/-- Items begin with something that is no blank and no bracket. -/
theorem renderItems_head (v : Json) (more : List Json) :
    ∃ c tail, renderItems (v :: more) = c :: tail ∧ isBlank c = false ∧ c ≠ ']' := by
  obtain ⟨c, tail, hc, hhead⟩ := render_head v
  cases more with
  | nil => exact ⟨c, tail, hc, hhead⟩
  | cons w more =>
    refine ⟨c, tail ++ ',' :: ' ' :: renderItems (w :: more), ?_, hhead⟩
    rw [renderItems, hc, List.cons_append]

/-- Members begin with a quote. -/
theorem renderFields_head (f : String × Json) (more : List (String × Json)) :
    ∃ tail, renderFields (f :: more) = '"' :: tail := by
  cases more with
  | nil => exact ⟨_, rfl⟩
  | cons g more => exact ⟨_, rfl⟩

section fuel

variable {n : ℕ}

/-- One unit of fuel more reads a value. -/
theorem ReadsBack.value_succ (h : ReadsBack n) (v : Json) (rest : List Char)
    (hf : (render v).length < n + 1) (hrest : EndsNumber rest) :
    readValue (n + 1) (render v ++ rest) = some (v, rest) := by
  cases v with
  | null => exact readWord_append "null" .null rest
  | bool b =>
    cases b with
    | false => exact readWord_append "false" (.bool false) rest
    | true => exact readWord_append "true" (.bool true) rest
  | number m => exact readValue_number m n hrest
  | str s =>
    rw [render, renderString, List.append_assoc, List.cons_append, readValue,
      skipBlanks_cons (by rfl)]
    simp only [if_true, List.singleton_append, readChars_string s rest, Option.map_some,
      String.ofList_toList]
  | arr items =>
    rw [render, List.cons_append, List.append_assoc, List.singleton_append, readValue,
      skipBlanks_cons (by rfl)]
    dsimp only
    rw [if_neg (by decide), if_pos rfl]
    cases items with
    | nil => rfl
    | cons w more =>
      have hitems := h.items w more rest (by simp [render] at hf; omega)
      obtain ⟨c, tail, hc, hblank, hclose⟩ := renderItems_head w more
      rw [hc, List.cons_append] at hitems ⊢
      rw [skipBlanks_cons hblank]
      dsimp only
      rw [if_neg hclose, hitems]
      rfl
  | obj fields =>
    rw [render, List.cons_append, List.append_assoc, List.singleton_append, readValue,
      skipBlanks_cons (by rfl)]
    dsimp only
    rw [if_neg (by decide), if_neg (by decide), if_pos rfl]
    cases fields with
    | nil => rfl
    | cons f more =>
      have hfields := h.fields f more rest (by simp [render] at hf; omega)
      obtain ⟨tail, hc⟩ := renderFields_head f more
      rw [hc, List.cons_append] at hfields ⊢
      rw [skipBlanks_cons (by rfl)]
      dsimp only
      rw [if_neg (by decide), hfields]
      rfl

/-- One unit of fuel more reads the items of an array. -/
theorem ReadsBack.items_succ (h : ReadsBack n) (v : Json) (more : List Json)
    (rest : List Char) (hf : (renderItems (v :: more)).length + 1 < n + 1) :
    readItems (n + 1) (renderItems (v :: more) ++ ']' :: rest) = some (v :: more, rest) := by
  cases more with
  | nil =>
    have hv := h.value v (']' :: rest) (by simp [renderItems] at hf; omega)
      (endsNumber_of_head (by simp) rest)
    rw [renderItems, readItems, hv]
    rfl
  | cons w more =>
    have hlen : (render v).length + ((renderItems (w :: more)).length + 2) + 1 < n + 1 := by
      simpa [renderItems] using hf
    have hv := h.value v (',' :: ' ' :: (renderItems (w :: more) ++ ']' :: rest))
      (by omega) (endsNumber_of_head (by simp) _)
    have hmore := h.items w more rest (by omega)
    rw [renderItems, readItems, List.append_assoc, List.cons_append, List.cons_append, hv]
    dsimp only
    rw [skipBlanks_cons (by rfl)]
    dsimp only
    rw [if_pos rfl, readItems_space, hmore]
    rfl

/-- One unit of fuel more reads the members of an object. -/
theorem ReadsBack.fields_succ (h : ReadsBack n) (f : String × Json)
    (more : List (String × Json)) (rest : List Char)
    (hf : (renderFields (f :: more)).length + 1 < n + 1) :
    readFields (n + 1) (renderFields (f :: more) ++ '}' :: rest) = some (f :: more, rest) := by
  obtain ⟨k, v⟩ := f
  cases more with
  | nil =>
    have hv := h.value v ('}' :: rest) (by simp [renderFields] at hf; omega)
      (endsNumber_of_head (by simp) rest)
    rw [renderFields, List.append_assoc, List.cons_append, readFields, skipBlanks_string,
      readName_render]
    dsimp only
    rw [List.cons_append, readValue_space, hv]
    rfl
  | cons g more =>
    have hlen : (render v).length + ((renderFields (g :: more)).length + 2) + 1 < n + 1 := by
      simp [renderFields] at hf
      omega
    have hv := h.value v (',' :: ' ' :: (renderFields (g :: more) ++ '}' :: rest))
      (by omega) (endsNumber_of_head (by simp) _)
    have hmore := h.fields g more rest (by omega)
    rw [renderFields, List.append_assoc, List.cons_append, readFields, skipBlanks_string,
      readName_render]
    dsimp only
    rw [List.cons_append, List.append_assoc, List.cons_append, List.cons_append,
      readValue_space, hv]
    dsimp only
    rw [skipBlanks_cons (by rfl)]
    dsimp only
    rw [if_pos rfl, readFields_space, hmore]
    rfl

end fuel

/-- Every call of the reader hands on one unit of fuel less, and a text that is
shorter than its fuel never runs out. -/
theorem readsBack (fuel : ℕ) : ReadsBack fuel := by
  induction fuel with
  | zero =>
    exact ⟨fun v rest h => absurd h (Nat.not_lt_zero _),
      fun v more rest h => absurd h (Nat.not_lt_zero _),
      fun f more rest h => absurd h (Nat.not_lt_zero _)⟩
  | succ n ih => exact ⟨ih.value_succ, ih.items_succ, ih.fields_succ⟩

/-- What `json.dumps` writes, `json.loads` reads back. -/
theorem parse_render (v : Json) : parse (String.ofList (render v)) = some v := by
  have hread := (readsBack ((render v).length + 1)).value v [] (Nat.lt_succ_self _)
    fun c tail hc => by cases hc
  rw [List.append_nil] at hread
  rw [parse, String.toList_ofList, hread]
  rfl

/-- A limit of the interpreter that text can exceed although it is JSON. -/
inductive Limit where
  /-- The digits of an integer. -/
  | digits
  /-- The nesting of arrays and objects. -/
  | depth

/-- What is raised beyond the limit. -/
def Limit.error : Limit → PyError
  | .digits => .valueError
  | .depth => .recursionError

/-- What is known of `json.dumps` and of `json.loads` on bytes: they are decoded first,
and the text is parsed then, within the limits of the interpreter. -/
structure BytesJson (Text : Type) where
  /-- Decode in the encoding that the bytes are found to have. -/
  decode : ByteArray → Option Text
  /-- The limit that reading the text exceeds, if any. -/
  exceeds : Text → Option Limit
  /-- Read one JSON value. -/
  parse : Text → Option Json
  /-- `json.dumps(list(perms))`, encoded. -/
  dumps : List Json → ByteArray
  /-- What was written is decoded, exceeds no limit and is read back. -/
  reads_back : ∀ perms, ∃ text, decode (dumps perms) = some text ∧ exceeds text = none ∧
    parse text = some (.arr perms)

/-- `json.loads` on bytes: each of its parts has an exception of its own. -/
def BytesJson.loads {Text : Type} (json : BytesJson Text) (raw : ByteArray) :
    Except PyError Json :=
  match json.decode raw with
  | none => .error .unicodeDecodeError
  | some text => match json.exceeds text with
    | some limit => .error limit.error
    | none => match json.parse text with
      | none => .error .jsonDecodeError
      | some v => .ok v

/-- Bytes that are text within the limits, JSON or not. -/
def BytesJson.Readable {Text : Type} (json : BytesJson Text) (raw : ByteArray) : Prop :=
  ∃ text, json.decode raw = some text ∧ json.exceeds text = none

/-- Cached lists as JSON in bytes. -/
def BytesJson.toCodec {Text : Type} (json : BytesJson Text) : JsonCodec ByteArray where
  dumps := json.dumps
  loads := json.loads
  loads_dumps perms := by
    obtain ⟨text, hdecode, hexceeds, hparse⟩ := json.reads_back perms
    rw [BytesJson.loads, hdecode]
    dsimp only
    rw [hexceeds]
    dsimp only
    rw [hparse]

/-- JSON in UTF-8, for the runs on fixed inputs: an interpreter without limits, and a reader of
the grammar alone. Python also reads UTF-16 and UTF-32, bytes with a byte order mark,
surrogates that stand alone in an escape, and the words `NaN` and `Infinity`. -/
def utf8Json : BytesJson String where
  decode := String.fromUTF8?
  exceeds _ := none
  parse := parse
  dumps perms := (String.ofList (render (.arr perms))).toUTF8
  reads_back perms := by
    have hdecode : ∀ s : String, String.fromUTF8? s.toUTF8 = some s := by
      intro s
      have hvalid : s.toUTF8.IsValidUTF8 := s.isValidUTF8
      rw [String.fromUTF8?, dif_pos hvalid]
      rfl
    exact ⟨_, hdecode _, rfl, parse_render _⟩

end HeliosPermissions.JsonText
