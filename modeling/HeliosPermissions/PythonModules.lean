import Mathlib.Data.List.Infix
import HeliosPermissions.OrderedDict
import HeliosPermissions.PythonLiterals

/-!
# Reading the tables of a Python module

A reader for modules that assign literals to names and end in definitions that are
known word for word: strings, parenthesised expressions and tuples, dictionary
displays, names, and type expressions, with or without an annotation. The one import
is that of the forms of `typing`. The tokenizer goes through the characters and hands
each token to the parser, so the reading of a text is the reading of its pieces one
after another. A text that is not such a module is not read: any other statement, an
indented line, a name that is not bound, or a name that Python does not let bind.
-/

namespace PythonModules

open PythonLiterals

/-- What an expression evaluates to. -/
inductive PyValue where
  | str (s : String)
  | tuple (items : List PyValue)
  /-- The entries of a display in order; a repeated key takes its last value. -/
  | dict (entries : List (String × PyValue))
  /-- A type expression. -/
  | typing
  /-- A generic form, which a subscript makes a type. -/
  | form
  /-- The form that qualifies one type. -/
  | final
  | ellipsis

/-- A tuple of strings. -/
def PyValue.strings (items : List String) : PyValue := .tuple (items.map .str)

/-- `entries[key]` for a dictionary display. -/
def dictGet (entries : List (String × PyValue)) (key : String) : Option PyValue :=
  entries.reverse.lookup key

/-- Whether a value is this string. -/
def PyValue.isStr (value : PyValue) (s : String) : Bool :=
  match value with
  | .str t => t = s
  | _ => false

/-- `s in value`: an item of a tuple, a part of a string, a key of a display. -/
def PyValue.holds (value : PyValue) (s : String) : Bool :=
  match value with
  | .tuple items => items.any (·.isStr s)
  | .str t => decide (s.toList <:+: t.toList)
  | .dict entries => (dictGet entries s).isSome
  | _ => false

section displays

variable {entries : List (String × PyValue)} {key : String} {value : PyValue}

/-- A key is looked up when it is in an entry. -/
theorem dictGet_isSome_iff : (dictGet entries key).isSome ↔ ∃ value, (key, value) ∈ entries := by
  rw [dictGet, List.lookup_isSome_iff]
  simp

/-- What is looked up is in an entry. -/
theorem mem_of_dictGet (h : dictGet entries key = some value) : (key, value) ∈ entries :=
  List.mem_reverse.mp (OrderedDict.mem_of_lookup h)

/-- A key that is always bound to one value has it. -/
theorem dictGet_of_unique (hmem : (key, value) ∈ entries)
    (hunique : ∀ other, (key, other) ∈ entries → other = value) :
    dictGet entries key = some value := by
  obtain ⟨found, hfound⟩ := Option.isSome_iff_exists.mp (dictGet_isSome_iff.mpr ⟨value, hmem⟩)
  rw [hfound, hunique found (mem_of_dictGet hfound)]

end displays

/-- Two tuples of strings are two values. -/
theorem PyValue.strings_injective {items items' : List String}
    (h : PyValue.strings items = PyValue.strings items') : items = items' := by
  have hmap : items.map PyValue.str = items'.map PyValue.str := PyValue.tuple.inj h
  exact List.map_injective_iff.mpr (fun _ _ hstr => PyValue.str.inj hstr) hmap

/-- A tuple of strings holds its items. -/
theorem PyValue.holds_strings {items : List String} {s : String} :
    (PyValue.strings items).holds s = true ↔ s ∈ items := by
  simp [PyValue.strings, PyValue.holds, PyValue.isStr]

/-- What the tokenizer finds. -/
inductive Token where
  /-- A name, a keyword or a number, or the ellipsis. -/
  | word (chars : List Char)
  | str (value : String)
  | punct (c : Char)
  /-- The end of a logical line. -/
  | newline
  deriving DecidableEq

/-- An open bracket, and what has been read in it, last first. -/
inductive Frame where
  | paren (rev : List PyValue) (comma : Bool)
  | brace (rev : List (String × PyValue)) (key : Option String)
  /-- The brackets of a subscript: whether they hold something, and whether a bar stands open. -/
  | bracket (filled pending : Bool)
  /-- The brackets of the form that qualifies one type. -/
  | qualified

/-- The operand just read. A string literal is joined with one that follows it. -/
inductive Operand where
  | missing
  | literal (s : String)
  | whole (v : PyValue)

def Operand.value : Operand → Option PyValue
  | .missing => none
  | .literal s => some (.str s)
  | .whole v => some v

/-- An expression that is being read. -/
structure Expression where
  /-- The brackets that are open, innermost first. -/
  stack : List Frame
  /-- The operand after the last comma or bracket. -/
  operand : Operand

namespace Expression

def comma (e : Expression) : Option Expression :=
  match e.stack, e.operand.value with
  | .paren rev _ :: rest, some v => some ⟨.paren (v :: rev) true :: rest, .missing⟩
  | .brace rev (some k) :: rest, some v => some ⟨.brace ((k, v) :: rev) none :: rest, .missing⟩
  | .bracket _ false :: rest, some _ => some ⟨.bracket true false :: rest, .missing⟩
  | .bracket _ true :: rest, some .typing => some ⟨.bracket true false :: rest, .missing⟩
  | _, _ => none

/-- The colon after a key. -/
def colon (e : Expression) : Option Expression :=
  match e.stack, e.operand.value with
  | .brace rev none :: rest, some (.str k) => some ⟨.brace rev (some k) :: rest, .missing⟩
  | _, _ => none

/-- The bar between two types. -/
def bar (e : Expression) : Option Expression :=
  match e.stack, e.operand.value with
  | .bracket filled _ :: rest, some .typing => some ⟨.bracket filled true :: rest, .missing⟩
  | _, _ => none

/-- Only a comma, or nothing at all, makes a tuple. -/
def closeParen (e : Expression) : Option Expression :=
  match e.stack, e.operand.value with
  | .paren rev _ :: rest, none => some ⟨rest, .whole (.tuple rev.reverse)⟩
  | .paren rev true :: rest, some v => some ⟨rest, .whole (.tuple (v :: rev).reverse)⟩
  | .paren _ false :: rest, some v => some ⟨rest, .whole v⟩
  | _, _ => none

def closeBrace (e : Expression) : Option Expression :=
  match e.stack, e.operand.value with
  | .brace rev none :: rest, none => some ⟨rest, .whole (.dict rev.reverse)⟩
  | .brace rev (some k) :: rest, some v => some ⟨rest, .whole (.dict ((k, v) :: rev).reverse)⟩
  | _, _ => none

/-- A subscript holds at least one item, and a type after a bar. -/
def closeBracket (e : Expression) : Option Expression :=
  match e.stack, e.operand.value with
  | .bracket true false :: rest, none => some ⟨rest, .whole .typing⟩
  | .bracket _ false :: rest, some _ => some ⟨rest, .whole .typing⟩
  | .bracket _ true :: rest, some .typing => some ⟨rest, .whole .typing⟩
  | .qualified :: rest, some .typing => some ⟨rest, .whole .typing⟩
  | _, _ => none

/-- An opening bracket: a subscript after a form, a display where an operand is missing. What is
qualified is a whole annotation. -/
def opens (e : Expression) (c : Char) : Option Expression :=
  match e.operand with
  | .missing =>
    if c = '(' then some ⟨.paren [] false :: e.stack, .missing⟩
    else if c = '\x7b' then some ⟨.brace [] none :: e.stack, .missing⟩
    else none
  | .whole .form => if c = '[' then some ⟨.bracket false false :: e.stack, .missing⟩ else none
  | .whole .final => if c = '[' ∧ e.stack.isEmpty then some ⟨[.qualified], .missing⟩ else none
  | _ => none

/-- What a name is bound to. -/
def named (e : Expression) (v : PyValue) : Option Expression :=
  match e.operand with
  | .missing => some ⟨e.stack, .whole v⟩
  | _ => none

/-- One token of the expression that is no name. -/
def token (e : Expression) : Token → Option Expression
  | .str s =>
    match e.operand with
    | .missing => some ⟨e.stack, .literal s⟩
    | .literal front => some ⟨e.stack, .literal (front ++ s)⟩
    | .whole _ => none
  | .punct c =>
    if c = ',' then e.comma
    else if c = ':' then e.colon
    else if c = '|' then e.bar
    else if c = ')' then e.closeParen
    else if c = '\x7d' then e.closeBrace
    else if c = ']' then e.closeBracket
    else e.opens c
  | _ => none

/-- The value of a whole expression. -/
def result (e : Expression) : Option PyValue :=
  match e.stack with
  | [] => e.operand.value
  | _ => none

end Expression

/-- The names that mean something before anything is bound, and the ellipsis. -/
def builtins : List (List Char × PyValue) :=
  [("str".toList, .typing), ("tuple".toList, .form), ("dict".toList, .form),
    ("...".toList, .ellipsis)]

/-- The names that the import brings. -/
def typingForms : List (List Char × PyValue) :=
  [("Final".toList, .final), ("Literal".toList, .form)]

/-- What stands after `from` in the one import that is read. -/
def typingImport : List Token :=
  [.word "typing".toList, .word "import".toList, .word "Final".toList, .punct ',',
    .word "Literal".toList]

/-- The keywords of the language. -/
def keywords : List (List Char) :=
  ["False", "None", "True", "and", "as", "assert", "async", "await", "break", "class",
    "continue", "def", "del", "elif", "else", "except", "finally", "for", "from", "global",
    "if", "import", "in", "is", "lambda", "nonlocal", "not", "or", "pass", "raise", "return",
    "try", "while", "with", "yield"].map String.toList

/-- Whether a name can be bound: an ASCII identifier that is no keyword and none of the names
that the reader has a meaning for. -/
def bindable (w : List Char) : Bool :=
  match w with
  | [] => false
  | c :: _ => !c.isDigit && w.all (fun d => d.isAlphanum || d = '_') && !(keywords.contains w) &&
      (typingForms.lookup w).isNone && (builtins.lookup w).isNone

/-- Where the parser stands in a logical line. -/
inductive Place where
  | start
  /-- After `from`, with the tokens that followed, last first. -/
  | importing (rev : List Token)
  /-- In a string that stands as a statement. -/
  | docstring
  | named (name : List Char)
  /-- In the annotation of a name. -/
  | annotated (name : List Char) (e : Expression)
  | value (name : List Char) (e : Expression)

/-- The parser, with the names that are bound so far, last first. -/
structure Parser where
  /-- Where in a statement it is. -/
  place : Place
  /-- Whether the forms have been imported. -/
  typed : Bool
  /-- The names that are bound, last first. -/
  env : List (String × PyValue)

/-- What a word stands for in an expression. -/
def Parser.names (p : Parser) (w : List Char) : Option PyValue :=
  match builtins.lookup w, typingForms.lookup w with
  | some v, _ => some v
  | none, some v => if p.typed then some v else none
  | none, none => (p.env.find? fun b => b.1.toList = w).map Prod.snd

/-- A token in an expression. -/
def Parser.operate (p : Parser) (e : Expression) (t : Token) : Option Expression :=
  match t with
  | .word w => (p.names w).bind e.named
  | t => e.token t

/-- Whether an annotation is a type. -/
def Expression.isType (e : Expression) : Bool :=
  match e.result with
  | some .typing => true
  | _ => false

/-- One token. -/
def Parser.token (p : Parser) (t : Token) : Option Parser :=
  match p.place with
  | .start =>
    match t with
    | .newline => some p
    | .word w =>
      if w = "from".toList then some { p with place := .importing [] }
      else if bindable w then some { p with place := .named w }
      else none
    | .str _ => some { p with place := .docstring }
    | .punct _ => none
  | .importing rev =>
    if t = .newline then
      if rev.reverse = typingImport then some { p with place := .start, typed := true } else none
    else some { p with place := .importing (t :: rev) }
  | .docstring =>
    match t with
    | .newline => some { p with place := .start }
    | .str _ => some p
    | _ => none
  | .named name =>
    if t = .punct '=' then some { p with place := .value name ⟨[], .missing⟩ }
    else if t = .punct ':' then some { p with place := .annotated name ⟨[], .missing⟩ }
    else none
  | .annotated name e =>
    if t = .punct '=' then
      if e.isType then some { p with place := .value name ⟨[], .missing⟩ } else none
    else (p.operate e t).map fun e' => { p with place := .annotated name e' }
  | .value name e =>
    if t = .newline then
      e.result.map fun v => ⟨.start, p.typed, (String.ofList name, v) :: p.env⟩
    else (p.operate e t).map fun e' => { p with place := .value name e' }

/-- Where the tokenizer stands. -/
inductive Mode where
  /-- At the start of a physical line that starts a logical line. -/
  | lineStart
  /-- Between two tokens. -/
  | between
  | word (rev : List Char)
  /-- After so many dots of an ellipsis. -/
  | dots (n : ℕ)
  /-- In a comment, on a line that is blank otherwise or not. -/
  | comment (blank : Bool)
  /-- After one quote, which may be the first of three. -/
  | opening (quote : Char)
  /-- After two quotes, which may be an empty string. -/
  | opened (quote : Char)
  /-- In a string between one or three quotes, with the quotes in a row just read. -/
  | body (quote : Char) (long escaped : Bool) (quotes : ℕ) (rev : List Char)

/-- The tokenizer and the parser behind it. -/
structure Reader where
  /-- Where in a token it is. -/
  mode : Mode
  /-- How many brackets are open. -/
  depth : ℕ
  /-- The parser behind it. -/
  parser : Parser

namespace Reader

/-- Letters, digits, the underscore, and what is not ASCII. -/
def isWordChar (c : Char) : Bool := c.isAlphanum || c = '_' || 128 ≤ c.toNat

/-- Hand a token to the parser. -/
def hand (r : Reader) (mode : Mode) (depth : ℕ) (t : Token) : Option Reader :=
  (r.parser.token t).map fun p => ⟨mode, depth, p⟩

/-- A character between two tokens. -/
def code (r : Reader) (c : Char) : Option Reader :=
  if c = '\n' then
    if r.depth = 0 then r.hand .lineStart 0 .newline else some { r with mode := .between }
  else if c = ' ' ∨ c = '\t' ∨ c = '\x0c' then some { r with mode := .between }
  else if c = '#' then some { r with mode := .comment false }
  else if c = '"' ∨ c = '\'' then some { r with mode := .opening c }
  else if c = '\\' then none
  else if isWordChar c then some { r with mode := .word [c] }
  else if c = '.' then some { r with mode := .dots 1 }
  else if c = '(' ∨ c = '[' ∨ c = '\x7b' then r.hand .between (r.depth + 1) (.punct c)
  else if c = ')' ∨ c = ']' ∨ c = '\x7d' then
    if r.depth = 0 then none else r.hand .between (r.depth - 1) (.punct c)
  else r.hand .between r.depth (.punct c)

/-- The closing quote: the escapes are decoded. -/
def close (r : Reader) (rev : List Char) : Option Reader :=
  (unescape rev.reverse).bind fun value => r.hand .between r.depth (.str (String.ofList value))

/-- A character in a string. -/
def inBody (r : Reader) (quote : Char) (long escaped : Bool) (quotes : ℕ) (rev : List Char)
    (c : Char) : Option Reader :=
  if escaped then some { r with mode := .body quote long false 0 (c :: rev) }
  else if c = '\\' then some { r with mode := .body quote long true 0 (c :: rev) }
  else if c = quote then
    if long then
      if quotes = 2 then r.close (rev.drop 2)
      else some { r with mode := .body quote long false (quotes + 1) (c :: rev) }
    else r.close rev
  else if c = '\n' ∧ long = false then none
  else some { r with mode := .body quote long false 0 (c :: rev) }

/-- One character. -/
def step (r : Reader) (c : Char) : Option Reader :=
  if c = '\x00' then none
  else match r.mode with
    | .lineStart =>
      if c = '\n' then some r
      else if c = '#' then some { r with mode := .comment true }
      -- an indented line, or one that holds nothing but blanks
      else if c = ' ' ∨ c = '\t' ∨ c = '\x0c' then none
      else r.code c
    | .between => r.code c
    | .word rev =>
      if isWordChar c then some { r with mode := .word (c :: rev) }
      else if c = '"' ∨ c = '\'' then none
      else (r.hand .between r.depth (.word rev.reverse)).bind fun r' => r'.code c
    | .dots n =>
      if c ≠ '.' then none
      else if n = 2 then r.hand .between r.depth (.word "...".toList)
      else some { r with mode := .dots (n + 1) }
    | .comment blank =>
      if c = '\n' then if blank then some { r with mode := .lineStart } else r.code c
      else some r
    | .opening quote =>
      if c = quote then some { r with mode := .opened quote }
      else r.inBody quote false false 0 [] c
    | .opened quote =>
      if c = quote then some { r with mode := .body quote true false 0 [] }
      else (r.hand .between r.depth (.str "")).bind fun r' => r'.code c
    | .body quote long escaped quotes rev => r.inBody quote long escaped quotes rev c

/-- The text has come to an end. -/
def finish (r : Reader) : Option (List (String × PyValue)) :=
  match r.mode, r.depth, r.parser.place with
  | .lineStart, 0, .start => some r.parser.env
  | _, _, _ => none

/-- Before the first character. -/
def start : Reader := ⟨.lineStart, 0, ⟨.start, false, []⟩⟩

end Reader

/-- A run over characters. -/
def Reader.feed (r : Reader) (chars : List Char) : Option Reader := chars.foldlM Reader.step r

/-- A run over whole lines. -/
def Reader.feedLines (r : Reader) (lines : List String) : Option Reader :=
  r.feed (lines.flatMap fun line => line.toList ++ ['\n'])

/-- Text mode: `\r\n` and `\r` become `\n`. -/
def universalNewlines (afterReturn : Bool) : List Char → List Char
  | [] => []
  | c :: rest =>
    if c = '\r' then '\n' :: universalNewlines true rest
    else if c = '\n' ∧ afterReturn = true then universalNewlines false rest
    else c :: universalNewlines false rest

/-- The names that a module binds before its definitions, last first. The text has to end in
these definitions as they are, and nothing else may define anything. -/
def readModuleEnding (definitions text : List Char) : Option (List (String × PyValue)) :=
  if definitions <:+ text then
    (Reader.start.feed (text.take (text.length - definitions.length))).bind Reader.finish
  else none

/-- What stands before the definitions is read. -/
theorem readModuleEnding_append (front definitions : List Char) :
    readModuleEnding definitions (front ++ definitions) =
      (Reader.start.feed front).bind Reader.finish := by
  rw [readModuleEnding, if_pos (List.suffix_append front definitions)]
  simp

/-- A module that is read ends in the definitions. -/
theorem suffix_of_readModuleEnding {definitions text : List Char} {env : List (String × PyValue)}
    (h : readModuleEnding definitions text = some env) : definitions <:+ text := by
  rw [readModuleEnding] at h
  split_ifs at h with hsuffix
  exact hsuffix

namespace Reader

@[simp] theorem feed_nil (r : Reader) : r.feed [] = some r := rfl

/-- One character is one step. -/
theorem feed_cons (r : Reader) (c : Char) (rest : List Char) :
    r.feed (c :: rest) = (r.step c).bind fun r' => r'.feed rest := rfl

/-- Two texts are read one after the other. -/
theorem feed_append (r : Reader) (front rest : List Char) :
    r.feed (front ++ rest) = (r.feed front).bind fun r' => r'.feed rest :=
  List.foldlM_append

/-- Two lists of lines are read one after the other. -/
theorem feedLines_append (r : Reader) (front rest : List String) :
    r.feedLines (front ++ rest) = (r.feedLines front).bind fun r' => r'.feedLines rest := by
  simp only [feedLines, List.flatMap_append, feed_append]

/-- A line is read with its newline. -/
theorem feedLines_cons (r : Reader) (line : String) (rest : List String) :
    r.feedLines (line :: rest) =
      (r.feed (line.toList ++ ['\n'])).bind fun r' => r'.feedLines rest := by
  simp only [feedLines, List.flatMap_cons, feed_append]

/-- What stays within its quotes is read up to the closing one. -/
theorem feed_body {escaped : Bool} {chars : List Char} (h : staysInside escaped chars = true)
    (depth quotes : ℕ) (parser : Parser) (rev rest : List Char) :
    feed ⟨.body '"' false escaped quotes rev, depth, parser⟩ (chars ++ '"' :: rest) =
      (close ⟨.between, depth, parser⟩ (chars.reverse ++ rev)).bind fun r => r.feed rest := by
  induction chars generalizing escaped quotes rev with
  | nil =>
    cases escaped with
    | true => cases h
    | false => rfl
  | cons c chars ih =>
    rw [staysInside] at h
    by_cases hnull : c = '\x00' ∨ c = '\r'
    · rw [if_pos hnull] at h
      cases h
    · rw [if_neg hnull] at h
      have hc : c ≠ '\x00' := fun hc => hnull (Or.inl hc)
      have hnext : ∀ escaped', staysInside escaped' chars = true →
          step ⟨.body '"' false escaped quotes rev, depth, parser⟩ c =
            some ⟨.body '"' false escaped' 0 (c :: rev), depth, parser⟩ →
          feed ⟨.body '"' false escaped quotes rev, depth, parser⟩ (c :: chars ++ '"' :: rest) =
            (close ⟨.between, depth, parser⟩ ((c :: chars).reverse ++ rev)).bind
              fun r => r.feed rest := by
        intro escaped' hinside hstep
        rw [List.cons_append, feed_cons, hstep, Option.bind_some, ih hinside]
        simp
      cases escaped with
      | true => exact hnext false h (by simp [step, inBody, hc])
      | false =>
        rw [if_neg Bool.false_ne_true] at h
        by_cases hslash : c = '\\'
        · rw [if_pos hslash] at h
          exact hnext true h (by simp [step, inBody, hslash])
        · rw [if_neg hslash] at h
          by_cases hquote : c = '"' ∨ c = '\n'
          · rw [if_pos hquote] at h
            cases h
          · rw [if_neg hquote] at h
            obtain ⟨hq, hline⟩ := not_or.mp hquote
            exact hnext false h (by simp [step, inBody, hc, hslash, hq, hline])

/-- What stays within its three quotes is read up to the closing ones. -/
theorem feed_longBody {escaped : Bool} {quotes : ℕ} {chars : List Char}
    (h : staysInsideLong escaped quotes chars = true) (depth : ℕ) (parser : Parser)
    (rev rest : List Char) :
    feed ⟨.body '"' true escaped quotes rev, depth, parser⟩ (chars ++ '"' :: '"' :: '"' :: rest) =
      (close ⟨.between, depth, parser⟩ (chars.reverse ++ rev)).bind fun r => r.feed rest := by
  induction chars generalizing escaped quotes rev with
  | nil =>
    cases escaped with
    | true => cases h
    | false =>
      obtain rfl : quotes = 0 := by simpa [staysInsideLong] using h
      rfl
  | cons c chars ih =>
    rw [staysInsideLong] at h
    by_cases hc : c = '\x00'
    · rw [if_pos hc] at h
      cases h
    · rw [if_neg hc] at h
      have hnext : ∀ escaped' quotes', staysInsideLong escaped' quotes' chars = true →
          step ⟨.body '"' true escaped quotes rev, depth, parser⟩ c =
            some ⟨.body '"' true escaped' quotes' (c :: rev), depth, parser⟩ →
          feed ⟨.body '"' true escaped quotes rev, depth, parser⟩
              (c :: chars ++ '"' :: '"' :: '"' :: rest) =
            (close ⟨.between, depth, parser⟩ ((c :: chars).reverse ++ rev)).bind
              fun r => r.feed rest := by
        intro escaped' quotes' hinside hstep
        rw [List.cons_append, feed_cons, hstep, Option.bind_some, ih hinside]
        simp
      cases escaped with
      | true => exact hnext false 0 h (by simp [step, inBody, hc])
      | false =>
        rw [if_neg Bool.false_ne_true] at h
        by_cases hslash : c = '\\'
        · rw [if_pos hslash] at h
          exact hnext true 0 h (by simp [step, inBody, hslash])
        · rw [if_neg hslash] at h
          by_cases hquote : c = '"'
          · rw [if_pos hquote] at h
            split_ifs at h with htwo
            exact hnext false (quotes + 1) h (by simp [step, inBody, hquote, htwo])
          · rw [if_neg hquote] at h
            exact hnext false 0 h (by simp [step, inBody, hc, hslash, hquote])

/-- A text between three quotes is handed on as one string. -/
theorem feed_longLiteral {chars : List Char} (h : LongLiteral chars) (depth : ℕ)
    (parser : Parser) (rest : List Char) : ∃ value,
      feed ⟨.body '"' true false 0 [], depth, parser⟩ (chars ++ '"' :: '"' :: '"' :: rest) =
        (hand ⟨.between, depth, parser⟩ .between depth (.str value)).bind fun r => r.feed rest := by
  obtain ⟨value, hvalue⟩ := Option.isSome_iff_exists.mp h.2
  refine ⟨String.ofList value, ?_⟩
  rw [feed_longBody h.1, close, List.append_nil, List.reverse_reverse, hvalue, Option.bind_some]

/-- An opening quote. -/
theorem feed_quote (depth : ℕ) (parser : Parser) (rest : List Char) :
    feed ⟨.between, depth, parser⟩ ('"' :: rest) = feed ⟨.opening '"', depth, parser⟩ rest := rfl

/-- After the opening quote the body begins, unless another quote follows. -/
theorem feed_opening {c : Char} (hc : c ≠ '"') (depth : ℕ) (parser : Parser)
    (rest : List Char) : feed ⟨.opening '"', depth, parser⟩ (c :: rest) =
      feed ⟨.body '"' false false 0 [], depth, parser⟩ (c :: rest) := by
  rw [feed_cons, feed_cons]
  simp [step, hc, inBody]

/-- Two quotes and no third are an empty string. -/
theorem feed_empty {next : Char} (hnext : next ≠ '"') (depth : ℕ) (parser : Parser)
    (rest : List Char) : feed ⟨.between, depth, parser⟩ ('"' :: '"' :: next :: rest) =
      (hand ⟨.between, depth, parser⟩ .between depth (.str "")).bind
        fun r => r.feed (next :: rest) := by
  rw [feed_quote]
  change feed ⟨.opened '"', depth, parser⟩ (next :: rest) = _
  rw [feed_cons]
  by_cases hnull : next = '\x00'
  · subst hnull
    cases hand ⟨.between, depth, parser⟩ .between depth (.str "") with
    | none => rfl
    | some r => rfl
  · simp only [step, if_neg hnull, if_neg hnext]
    unfold hand
    cases parser.token (.str "") with
    | none => rfl
    | some p =>
      simp only [Option.map_some, Option.bind_some, feed_cons, step, if_neg hnull]

/-- A text between double quotes is handed on as the literal that it is. -/
theorem feed_literal {text value : String} (h : literalValue text = some value)
    {next : Char} (hnext : next ≠ '"') (depth : ℕ) (parser : Parser) (rest : List Char) :
    feed ⟨.between, depth, parser⟩ ('"' :: (text.toList ++ '"' :: next :: rest)) =
      (hand ⟨.between, depth, parser⟩ .between depth (.str value)).bind
        fun r => r.feed (next :: rest) := by
  rw [literalValue] at h
  split_ifs at h with hinside
  obtain ⟨chars, hchars, rfl⟩ := Option.map_eq_some_iff.mp h
  cases htext : text.toList with
  | nil =>
    rw [htext] at hchars
    cases hchars
    exact feed_empty hnext depth parser rest
  | cons c cs =>
    rw [htext] at hinside hchars
    have hc : c ≠ '"' := by
      rintro rfl
      simp [staysInside] at hinside
    have hclose : close ⟨.between, depth, parser⟩ ((c :: cs).reverse ++ []) =
        hand ⟨.between, depth, parser⟩ .between depth (.str (String.ofList chars)) := by
      rw [close, List.append_nil, List.reverse_reverse, hchars, Option.bind_some]
    rw [feed_quote, List.cons_append, feed_opening hc, ← List.cons_append, feed_body hinside,
      hclose]

/-- Between two lines of the module, after the import. -/
def ready (env : List (String × PyValue)) : Reader := ⟨.lineStart, 0, ⟨.start, true, env⟩⟩

/-- In the value of a name. -/
def inValue (depth : ℕ) (name : List Char) (e : Expression) (env : List (String × PyValue)) :
    Reader := ⟨.between, depth, ⟨.value name e, true, env⟩⟩

section expressions

variable {depth : ℕ} {name rest : List Char} {e : Expression} {stack : List Frame}
  {env : List (String × PyValue)}

/-- A blank inside a value is skipped. -/
theorem feed_blank : feed (inValue depth name e env) (' ' :: rest) =
    feed (inValue depth name e env) rest := rfl

/-- A newline inside brackets is skipped. -/
theorem feed_newline_inside : feed (inValue (depth + 1) name e env) ('\n' :: rest) =
    feed (inValue (depth + 1) name e env) rest := rfl

/-- The end of the line is the end of the value. -/
theorem feed_newline : feed (inValue 0 name e env) ('\n' :: rest) =
    e.result.bind fun v => feed (ready ((String.ofList name, v) :: env)) rest := by
  rw [feed_cons]
  change ((e.result.map _).map _).bind _ = _
  cases e.result with
  | none => rfl
  | some v => rfl

/-- A literal inside a value becomes its operand. -/
theorem feed_value_literal {text value : String} (h : literalValue text = some value)
    {next : Char} (hnext : next ≠ '"') :
    feed (inValue depth name ⟨stack, .missing⟩ env) ('"' :: (text.toList ++ '"' :: next :: rest)) =
      feed (inValue depth name ⟨stack, .literal value⟩ env) (next :: rest) :=
  feed_literal h hnext depth _ rest

/-- A comma or a colon. -/
theorem feed_punct {c : Char} (hc : c = ',' ∨ c = ':') :
    feed (inValue depth name e env) (c :: rest) =
      (e.token (.punct c)).bind fun e' => feed (inValue depth name e' env) rest := by
  have hstep : step (inValue depth name e env) c =
      (e.token (.punct c)).map fun e' => inValue depth name e' env := by
    rcases hc with rfl | rfl
    · change ((e.token (.punct ',')).map _).map _ = _
      cases e.token (.punct ',') <;> rfl
    · change ((e.token (.punct ':')).map _).map _ = _
      cases e.token (.punct ':') <;> rfl
  rw [feed_cons, hstep]
  cases e.token (.punct c) <;> rfl

/-- A closing bracket. -/
theorem feed_closing {c : Char} (hc : c = ')' ∨ c = ']' ∨ c = '\x7d') :
    feed (inValue (depth + 1) name e env) (c :: rest) =
      (e.token (.punct c)).bind fun e' => feed (inValue depth name e' env) rest := by
  have hstep : step (inValue (depth + 1) name e env) c =
      (e.token (.punct c)).map fun e' => inValue depth name e' env := by
    rcases hc with rfl | rfl | rfl
    · change ((e.token (.punct ')')).map _).map _ = _
      cases e.token (.punct ')') <;> rfl
    · change ((e.token (.punct ']')).map _).map _ = _
      cases e.token (.punct ']') <;> rfl
    · change ((e.token (.punct '\x7d')).map _).map _ = _
      cases e.token (.punct '\x7d') <;> rfl
  rw [feed_cons, hstep]
  cases e.token (.punct c) <;> rfl

end expressions

/-- A line that is written out, with the characters that spell it. -/
theorem feedLines_spelled {line : String} {chars : List Char} {rest : List String}
    {r m : Reader} {out : Option Reader} (hline : line = String.ofList chars)
    (hfirst : r.feed (chars ++ ['\n']) = some m) (hrest : m.feedLines rest = out) :
    r.feedLines (line :: rest) = out := by
  subst hline
  rw [feedLines_cons, String.toList_ofList, hfirst]
  exact hrest

@[simp] theorem feedLines_nil (r : Reader) : r.feedLines [] = some r := rfl

end Reader

/-- A line end that belongs to the front keeps the rest apart. -/
theorem universalNewlines_append (afterReturn : Bool) (front rest : List Char) {c : Char}
    (hc : c ≠ '\r') : universalNewlines afterReturn (front ++ c :: rest) =
      universalNewlines afterReturn (front ++ [c]) ++ universalNewlines false rest := by
  induction front generalizing afterReturn with
  | nil =>
    simp only [List.nil_append, universalNewlines, if_neg hc]
    split_ifs
    · rfl
    · rfl
  | cons d front ih =>
    simp only [List.cons_append, universalNewlines]
    split_ifs
    · rw [ih, List.cons_append]
    · rw [ih]
    · rw [ih, List.cons_append]

/-- No carriage return is left. -/
theorem not_mem_universalNewlines (afterReturn : Bool) (text : List Char) :
    '\r' ∉ universalNewlines afterReturn text := by
  induction text generalizing afterReturn with
  | nil => simp [universalNewlines]
  | cons c rest ih =>
    rw [universalNewlines]
    split_ifs with hreturn
    · simp [ih]
    · exact ih false
    · simp [ih, Ne.symm hreturn]

/-- What has no carriage returns comes through. -/
theorem universalNewlines_append_of_not_mem {chars : List Char} (h : '\r' ∉ chars)
    (rest : List Char) :
    universalNewlines false (chars ++ rest) = chars ++ universalNewlines false rest := by
  induction chars with
  | nil => rfl
  | cons c chars ih =>
    have hc : c ≠ '\r' := fun hc => h (hc ▸ List.mem_cons_self)
    have hrest := ih fun hmem => h (List.mem_cons_of_mem c hmem)
    simp [universalNewlines, hc, hrest]

/-- A text without carriage returns stays as it is. -/
theorem universalNewlines_of_not_mem {text : List Char} (h : '\r' ∉ text) :
    universalNewlines false text = text := by
  have hall := universalNewlines_append_of_not_mem h []
  rwa [List.append_nil, universalNewlines, List.append_nil] at hall

/-- It does in the middle of a text too, when it begins with no line end. -/
theorem infix_universalNewlines {c : Char} {chars : List Char} (hc : c ≠ '\n')
    (h : '\r' ∉ c :: chars) (afterReturn : Bool) (front rest : List Char) :
    c :: chars <:+: universalNewlines afterReturn (front ++ (c :: chars ++ rest)) := by
  induction front generalizing afterReturn with
  | nil =>
    have hreturn : c ≠ '\r' := fun hc => h (hc ▸ List.mem_cons_self)
    have hrest := universalNewlines_append_of_not_mem
      (fun hmem => h (List.mem_cons_of_mem c hmem)) rest
    simp only [List.nil_append, List.cons_append, universalNewlines, hc, hreturn, if_false,
      false_and, hrest]
    exact (List.prefix_append (c :: chars) _).isInfix
  | cons d front ih =>
    simp only [List.cons_append, universalNewlines]
    split_ifs
    · exact List.infix_cons (ih _)
    · exact ih _
    · exact List.infix_cons (ih _)

end PythonModules
