import HeliosPermissions.ContractEmitter
import HeliosPermissions.PythonModules

/-!
# What the emitted module means

The lines of the emitter, read as Python. As long as every interpolated text stays in
the literal that it is written into, each block of lines binds one name, to a value
made of what the texts mean as literals. A tuple of roles that is written without a
trailing comma is a tuple only from two roles on, and a subscript that holds nothing
is no Python at all.
-/

namespace HeliosPermissions.EmittedModule

open ContractValidation ContractEmitter PythonLiterals PythonModules Reader

/-- The names of a module with their values, last first. -/
abbrev Env := List (String × PyValue)

/-- Texts that are literals, with what they mean. -/
def ReadAs (texts values : List String) : Prop :=
  List.Forall₂ (fun text value => literalValue text = some value) texts values

/-- A role and its perms that are literals, with what they mean. -/
def GrantReadAs (role value : String × List String) : Prop :=
  literalValue role.1 = some value.1 ∧ ReadAs role.2 value.2

/-- What `(` and a list of quoted texts and `)` mean. -/
def parenthesised : List String → PyValue
  | [item] => .str item
  | items => .strings items

/-- Two texts in parentheses are a tuple. -/
theorem parenthesised_eq {values : List String} (h : 2 ≤ values.length) :
    parenthesised values = .strings values := by
  cases values with
  | nil => cases h
  | cons value rest =>
    cases rest with
    | nil => exact absurd h (by simp)
    | cons next rest => rfl

/-- A tuple comes from two texts or from none. -/
theorem eq_of_parenthesised {values names : List String} (hne : values ≠ [])
    (h : parenthesised values = .strings names) : values = names ∧ 2 ≤ values.length := by
  cases values with
  | nil => exact absurd rfl hne
  | cons value rest =>
    cases rest with
    | nil => cases h
    | cons next rest => exact ⟨PyValue.strings_injective h, by simp⟩

/-- The entries of `PERM_SCOPE`. -/
def scopeEntries (bucket : PermScope → List String) : List (String × PyValue) :=
  PermScope.all.flatMap fun scope => (bucket scope).map fun name => (name, .str scope.text)

/-- The entries of `ROLE_PERMISSIONS`. -/
def grantEntries (grants : List (String × List String)) : List (String × PyValue) :=
  grants.map fun role => (role.1, .strings role.2)

section lines

variable {depth : ℕ} {name : List Char} {stack : List Frame} {env : Env}

/-- Blanks inside a value are skipped. -/
theorem feed_blanks (n : ℕ) (e : Expression) (rest : List Char) :
    feed (inValue depth name e env) (List.replicate n ' ' ++ rest) =
      feed (inValue depth name e env) rest := by
  induction n with
  | zero => rfl
  | succ n ih =>
    rw [List.replicate_succ, List.cons_append, feed_blank, ih]

/-- A quoted text is the text between two quotation marks. -/
theorem toList_quoted (text : String) : (quoted text).toList = '"' :: (text.toList ++ ['"']) := by
  simp [quoted]

/-- A quoted text and a comma, on a line inside brackets. -/
theorem feed_itemLine {n : ℕ} {indent item value : String} {stack' : List Frame}
    (hindent : indent.toList = List.replicate n ' ') (hitem : literalValue item = some value)
    (hcomma : (⟨stack, .literal value⟩ : Expression).comma = some ⟨stack', .missing⟩) :
    feed (inValue (depth + 1) name ⟨stack, .missing⟩ env)
        ((itemLine indent item).toList ++ ['\n']) =
      some (inValue (depth + 1) name ⟨stack', .missing⟩ env) := by
  have hline : (itemLine indent item).toList ++ ['\n'] =
      List.replicate n ' ' ++ '"' :: (item.toList ++ '"' :: ',' :: ['\n']) := by
    simp [itemLine, toList_quoted, hindent]
  rw [hline, feed_blanks, feed_value_literal hitem (by decide), feed_punct (Or.inl rfl)]
  change (Expression.comma _).bind _ = _
  rw [hcomma, Option.bind_some, feed_newline_inside, feed_nil]

/-- Such lines inside parentheses are collected. -/
theorem feedLines_paren {n : ℕ} {indent : String} {items values : List String}
    (hindent : indent.toList = List.replicate n ' ') (h : ReadAs items values)
    (rev : List PyValue) (comma : Bool) : ∃ comma',
      feedLines (inValue (depth + 1) name ⟨.paren rev comma :: stack, .missing⟩ env)
        (items.map (itemLine indent)) =
      some (inValue (depth + 1) name
        ⟨.paren ((values.map .str).reverse ++ rev) comma' :: stack, .missing⟩ env) := by
  induction h generalizing rev comma with
  | nil => exact ⟨comma, rfl⟩
  | @cons item value items values hitem _ ih =>
    obtain ⟨comma', hrest⟩ := ih (.str value :: rev) true
    refine ⟨comma', ?_⟩
    rw [List.map_cons, feedLines_cons, feed_itemLine hindent hitem rfl, Option.bind_some, hrest]
    simp

/-- Inside a subscript they fill it. -/
theorem feedLines_bracket {n : ℕ} {indent : String} {items values : List String}
    (hindent : indent.toList = List.replicate n ' ') (h : ReadAs items values)
    (hne : items ≠ []) (filled : Bool) :
      feedLines (inValue (depth + 1) name ⟨.bracket filled false :: stack, .missing⟩ env)
        (items.map (itemLine indent)) =
      some (inValue (depth + 1) name ⟨.bracket true false :: stack, .missing⟩ env) := by
  induction h generalizing filled with
  | nil => exact absurd rfl hne
  | @cons item value items values hitem _ ih =>
    rw [List.map_cons, feedLines_cons, feed_itemLine hindent hitem rfl, Option.bind_some]
    cases items with
    | nil => rfl
    | cons next items => exact ih (by simp) true

/-- After quoted texts with commas between them. -/
def afterList : List Frame → List String → Option Expression
  | stack, [] => some ⟨stack, .missing⟩
  | stack, [value] => some ⟨stack, .literal value⟩
  | stack, value :: rest =>
    (Expression.comma ⟨stack, .literal value⟩).bind fun e => afterList e.stack rest

/-- After a comma an operand is missing. -/
theorem comma_operand {e e' : Expression} (h : e.comma = some e') : e'.operand = .missing := by
  unfold Expression.comma at h
  split at h
  · cases h
    rfl
  · cases h
    rfl
  · cases h
    rfl
  · cases h
    rfl
  · cases h

/-- A list of texts begins with its first, a comma and a blank. -/
theorem toList_quotedList_cons (item next : String) (rest : List String) :
    (quotedList (item :: next :: rest)).toList =
      '"' :: (item.toList ++ '"' :: ',' :: ' ' :: (quotedList (next :: rest)).toList) := by
  rw [quotedList, List.map_cons, List.map_cons, String.intercalate_cons_cons]
  simp [quotedList, toList_quoted]

/-- A list of quoted texts is read up to what follows it. -/
theorem feed_quotedList {items values : List String} (h : ReadAs items values) {next : Char}
    (hnext : next ≠ '"') (stack : List Frame) (rest : List Char) :
    feed (inValue depth name ⟨stack, .missing⟩ env) ((quotedList items).toList ++ next :: rest) =
      (afterList stack values).bind fun e => feed (inValue depth name e env) (next :: rest) := by
  induction h generalizing stack with
  | nil => simp [quotedList, afterList]
  | @cons item value items values hitem hrest ih =>
    cases hrest with
    | nil =>
      have hone : (quotedList [item]).toList ++ next :: rest =
          '"' :: (item.toList ++ '"' :: next :: rest) := by
        simp [quotedList, toList_quoted]
      rw [hone, feed_value_literal hitem hnext]
      rfl
    | @cons item₂ value₂ items₂ values₂ hitem₂ hrest₂ =>
      have hmany : (quotedList (item :: item₂ :: items₂)).toList ++ next :: rest =
          '"' :: (item.toList ++ '"' :: ',' ::
            (' ' :: ((quotedList (item₂ :: items₂)).toList ++ next :: rest))) := by
        rw [toList_quotedList_cons]
        simp
      rw [hmany, feed_value_literal hitem (by decide), feed_punct (Or.inl rfl)]
      change (Expression.comma _).bind _ = ((Expression.comma _).bind _).bind _
      cases hcomma : Expression.comma ⟨stack, .literal value⟩ with
      | none => rfl
      | some e =>
        obtain ⟨stack', operand⟩ := e
        obtain rfl : operand = .missing := comma_operand hcomma
        rw [Option.bind_some, feed_blank, Option.bind_some]
        exact ih stack'

/-- Behind a comma the list is a tuple. -/
theorem closeParen_afterList_comma (value : String) (rest : List String) (rev : List PyValue) :
    (afterList (.paren rev true :: stack) (value :: rest)).bind Expression.closeParen =
      some ⟨stack, .whole (.tuple (rev.reverse ++ (value :: rest).map .str))⟩ := by
  induction rest generalizing value rev with
  | nil => simp [afterList, Expression.closeParen, Operand.value]
  | cons next rest ih =>
    change (afterList (.paren (.str value :: rev) true :: stack) (next :: rest)).bind _ = _
    rw [ih]
    simp

/-- The closing parenthesis after a list. -/
theorem closeParen_afterList (values : List String) :
    (afterList (.paren [] false :: stack) values).bind Expression.closeParen =
      some ⟨stack, .whole (parenthesised values)⟩ := by
  cases values with
  | nil => rfl
  | cons value rest =>
    cases rest with
    | nil => rfl
    | cons next rest => exact closeParen_afterList_comma next rest [.str value]

/-- The closing bracket after a list that holds something. -/
theorem closeBracket_afterList {values : List String} (hne : values ≠ []) (filled : Bool) :
    (afterList (.bracket filled false :: stack) values).bind Expression.closeBracket =
      some ⟨stack, .whole .typing⟩ := by
  induction values generalizing filled with
  | nil => exact absurd rfl hne
  | cons value rest ih =>
    cases rest with
    | nil => cases filled <;> rfl
    | cons next rest => exact ih (by simp) true

end lines

section blocks

variable {env : Env} {name : String} {items values : List String}

theorem toList_indent : "    ".toList = List.replicate 4 ' ' := by decide

theorem toList_deepIndent : "        ".toList = List.replicate 8 ' ' := by decide

/-- The head of a tuple with its annotation. -/
def tupleHead (name : String) : String := name ++ ": Final[tuple[str, ...]] = ("

/-- The tuples and their bindings. -/
theorem feedLines_emitTuple
    (hhead : (ready env).feed ((tupleHead name).toList ++ ['\n']) =
      some (inValue 1 name.toList ⟨[.paren [] false], .missing⟩ env))
    (h : ReadAs items values) :
    (ready env).feedLines (emitTuple name items) =
      some (ready ((name, .strings values) :: env)) := by
  have hitems : ∃ comma,
      (inValue 1 name.toList ⟨[.paren [] false], .missing⟩ env).feedLines
        (items.map (itemLine "    ")) =
      some (inValue 1 name.toList
        ⟨[.paren ((values.map .str).reverse ++ []) comma], .missing⟩ env) :=
    feedLines_paren toList_indent h [] false
  obtain ⟨comma, hitems⟩ := hitems
  have hclose : ∀ rev, (inValue 1 name.toList ⟨[.paren rev comma], .missing⟩ env).feedLines
      [")", ""] = some (ready ((String.ofList name.toList, .tuple rev.reverse) :: env)) := by
    intro rev
    refine feedLines_spelled rfl rfl ?_
    exact feedLines_spelled rfl rfl rfl
  change (ready env).feedLines ((tupleHead name :: items.map (itemLine "    ")) ++ [")", ""]) = _
  rw [feedLines_append, feedLines_cons, hhead, Option.bind_some, hitems, Option.bind_some, hclose]
  simp [PyValue.strings]

/-- The head of a type. -/
def typeHead (name : String) : String := name ++ " = Literal["

/-- A list in the brackets of a type, up to the end of the line. -/
theorem feed_typeList (h : ReadAs items values) :
    feed (inValue 1 name.toList ⟨[.bracket false false], .missing⟩ env)
        ((quotedList items).toList ++ [']', '\n']) =
      if items = [] then none else some (ready ((name, .typing) :: env)) := by
  have hclosed : ∀ e : Expression, feed (inValue 1 name.toList e env) [']', '\n'] =
      e.closeBracket.bind fun e' => feed (inValue 0 name.toList e' env) ['\n'] :=
    fun e => feed_closing (Or.inr (Or.inl rfl))
  rw [feed_quotedList h (by decide)]
  simp only [hclosed]
  rw [← Option.bind_assoc]
  cases h with
  | nil => rfl
  | cons hitem hrest =>
    rw [if_neg (by simp), closeBracket_afterList (by simp), Option.bind_some, feed_newline]
    simp [Expression.result, Operand.value]

/-- The types and their bindings. A type with an empty list is no Python. -/
theorem feedLines_literalBlock
    (hhead : (ready env).feed (typeHead name).toList =
      some (inValue 1 name.toList ⟨[.bracket false false], .missing⟩ env))
    (h : ReadAs items values) (hname : jsLength (typeHead name ++ quotedList [] ++ "]") ≤ 100) :
    (ready env).feedLines (literalBlock name items) =
      if items = [] then none else some (ready ((name, .typing) :: env)) := by
  have hinline : (ready env).feedLines [typeHead name ++ quotedList items ++ "]"] =
      if items = [] then none else some (ready ((name, .typing) :: env)) := by
    have hline : (typeHead name ++ quotedList items ++ "]").toList ++ ['\n'] =
        (typeHead name).toList ++ ((quotedList items).toList ++ [']', '\n']) := by
      simp
    rw [feedLines_cons, hline, feed_append, hhead, Option.bind_some, feed_typeList h]
    split_ifs
    · rfl
    · rfl
  have hclose : ∀ stack, (inValue 1 name.toList ⟨.bracket true false :: stack, .missing⟩ env).feed
      (("]").toList ++ ['\n']) = feed (inValue 0 name.toList ⟨stack, .whole .typing⟩ env) ['\n'] :=
    fun stack => rfl
  unfold literalBlock
  change (ready env).feedLines (if jsLength (typeHead name ++ quotedList items ++ "]") ≤ 100 ∧
    items.length ≤ 6 then [typeHead name ++ quotedList items ++ "]"] else
      [typeHead name] ++ items.map (itemLine "    ") ++ ["]"]) = _
  split_ifs with hshort hempty hempty
  · rw [hinline, if_pos hempty]
  · rw [hinline, if_neg hempty]
  · rw [hempty] at hshort
    exact absurd ⟨hname, by simp⟩ hshort
  · have hopened : (ready env).feed ((typeHead name).toList ++ ['\n']) =
        some (inValue 1 name.toList ⟨[.bracket false false], .missing⟩ env) := by
      rw [feed_append, hhead]
      rfl
    rw [List.append_assoc, List.singleton_append, feedLines_cons, hopened, Option.bind_some,
      feedLines_append, feedLines_bracket toList_indent h hempty, Option.bind_some, feedLines_cons,
      hclose, feed_newline]
    simp [Expression.result, Operand.value]

/-- A line that binds a list in parentheses. -/
theorem feed_rolesLine (h : ReadAs items values)
    (hhead : (ready env).feed (tupleHead name).toList =
      some (inValue 1 name.toList ⟨[.paren [] false], .missing⟩ env)) :
    (ready env).feed ((tupleHead name ++ quotedList items ++ ")").toList ++ ['\n']) =
      some (ready ((name, parenthesised values) :: env)) := by
  have hline : (tupleHead name ++ quotedList items ++ ")").toList ++ ['\n'] =
      (tupleHead name).toList ++ ((quotedList items).toList ++ [')', '\n']) := by
    simp
  have hclosed : ∀ e : Expression, feed (inValue 1 name.toList e env) [')', '\n'] =
      e.closeParen.bind fun e' => feed (inValue 0 name.toList e' env) ['\n'] :=
    fun e => feed_closing (Or.inl rfl)
  rw [hline, feed_append, hhead, Option.bind_some, feed_quotedList h (by decide)]
  simp only [hclosed]
  rw [← Option.bind_assoc, closeParen_afterList, Option.bind_some, feed_newline]
  simp [Expression.result, Operand.value]

end blocks

end HeliosPermissions.EmittedModule
