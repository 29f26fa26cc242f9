import HeliosPermissions.EmittedTables

/-!
# The emitted text, read back

Python reads the file that the lines were printed to, line ends translated first.
The texts that stay in their literals hold no carriage returns, so only the docstring
can change by that. It is one string as long as the version and the services stay
within it, as they do unless they bring quotes, backslashes or null characters. The
functions stand at the end of the module as they are written out.
-/

namespace HeliosPermissions.EmittedText

open ContractValidation ContractEmitter PythonLiterals PythonModules Reader EmittedModule
  EmittedTables

/-- The characters of lines. -/
def spelled (lines : List String) : List Char := lines.flatMap fun line => line.toList ++ ['\n']

/-- Characters without some others. -/
def Lacks (forbidden chars : List Char) : Prop := ∀ d ∈ forbidden, d ∉ chars

instance (forbidden chars : List Char) : Decidable (Lacks forbidden chars) :=
  List.decidableBAll _ forbidden

/-- Lines without some characters. -/
def Avoids (forbidden : List Char) (lines : List String) : Prop :=
  ∀ line ∈ lines, Lacks forbidden line.toList

/-- Lines without carriage returns. -/
abbrev Unreturned : List String → Prop := Avoids ['\r']

section avoids

variable {forbidden : List Char}

theorem Avoids.nil : Avoids forbidden [] := by simp [Avoids, Lacks]

/-- Two lists of lines one after the other. -/
theorem Avoids.append {front rest : List String} (hfront : Avoids forbidden front)
    (hrest : Avoids forbidden rest) : Avoids forbidden (front ++ rest) :=
  List.forall_mem_append.mpr ⟨hfront, hrest⟩

/-- Lines made from the items of a list. -/
theorem Avoids.flatMap {α : Type} {l : List α} {f : α → List String}
    (h : ∀ a ∈ l, Avoids forbidden (f a)) : Avoids forbidden (l.flatMap f) := by
  intro line hline
  obtain ⟨a, ha, hline⟩ := List.mem_flatMap.mp hline
  exact h a ha line hline

/-- A line that is written out, with the characters that spell it. -/
theorem Avoids.cons_spelled {line : String} {chars : List Char} {rest : List String}
    (hline : line = String.ofList chars) (hchars : Lacks forbidden chars)
    (hrest : Avoids forbidden rest) : Avoids forbidden (line :: rest) := by
  refine List.forall_mem_cons.mpr ⟨?_, hrest⟩
  rwa [hline, String.toList_ofList]

end avoids

section fixed

theorem unreturned_importLines : Unreturned importLines := by
  unfold importLines
  repeat refine Avoids.cons_spelled rfl (by decide) ?_
  exact .nil

theorem unreturned_vocabularyComments : Unreturned vocabularyComments := by
  unfold vocabularyComments
  repeat refine Avoids.cons_spelled rfl (by decide) ?_
  exact .nil

theorem unreturned_scopeTypeLines : Unreturned scopeTypeLines := by
  unfold scopeTypeLines
  repeat refine Avoids.cons_spelled rfl (by decide) ?_
  exact .nil

theorem unreturned_roleComments : Unreturned roleComments := by
  unfold roleComments
  repeat refine Avoids.cons_spelled rfl (by decide) ?_
  exact .nil

theorem unreturned_roleMapHead : Unreturned roleMapHead := by
  unfold roleMapHead
  repeat refine Avoids.cons_spelled rfl (by decide) ?_
  exact .nil

theorem unreturned_functionLines : Unreturned functionLines := by
  unfold functionLines resolvePermissionsLines roleHasPermissionLines isSelfScopeLines
    isPlatformGrantableLines isTenantGrantableLines isPermissionLines isRoleLines
  simp only [List.cons_append, List.nil_append]
  repeat refine Avoids.cons_spelled rfl (by decide) ?_
  exact .nil

end fixed

section interpolated

/-- A text that stays in its literal has no carriage return. -/
theorem not_mem_of_staysInside {escaped : Bool} {chars : List Char}
    (h : staysInside escaped chars = true) : '\r' ∉ chars := by
  induction chars generalizing escaped with
  | nil => simp
  | cons c rest ih =>
    rw [staysInside] at h
    split_ifs at h with hnull hescaped hslash hquote
    · exact List.not_mem_cons_of_ne_of_not_mem (fun hc => hnull (Or.inr hc.symm)) (ih h)
    · exact List.not_mem_cons_of_ne_of_not_mem (fun hc => hnull (Or.inr hc.symm)) (ih h)
    · exact List.not_mem_cons_of_ne_of_not_mem (fun hc => hnull (Or.inr hc.symm)) (ih h)

/-- A literal holds no carriage return. -/
theorem not_mem_of_literalValue {text value : String} (h : literalValue text = some value) :
    '\r' ∉ text.toList := by
  rw [literalValue] at h
  split_ifs at h with hinside
  exact not_mem_of_staysInside hinside

/-- So do lists of literals. -/
theorem not_mem_of_readAs {items values : List String} (h : ReadAs items values) :
    ∀ item ∈ items, '\r' ∉ item.toList := by
  intro item hitem
  induction h with
  | nil => cases hitem
  | cons hfirst _ ih =>
    rcases List.mem_cons.mp hitem with rfl | hitem
    · exact not_mem_of_literalValue hfirst
    · exact ih hitem

section tables

variable {d : Char} {items : List String}

/-- A character that neither the items nor the signs around them have. -/
theorem avoids_items {indent : String} (hsigns : d ∉ ['"', ',', ' ']) (hindent : d ∉ indent.toList)
    (h : ∀ item ∈ items, d ∉ item.toList) : Avoids [d] (items.map (itemLine indent)) := by
  intro line hline
  obtain ⟨item, hitem, rfl⟩ := List.mem_map.mp hline
  simp only [List.mem_cons, List.not_mem_nil, or_false, not_or] at hsigns
  simp [Lacks, itemLine, toList_quoted, hindent, h item hitem, hsigns]

/-- A character that is in none of the items is not in their list. -/
theorem not_mem_quotedList (hsigns : d ∉ ['"', ',', ' ']) (h : ∀ item ∈ items, d ∉ item.toList) :
    d ∉ (quotedList items).toList := by
  simp only [List.mem_cons, List.not_mem_nil, or_false, not_or] at hsigns
  induction items with
  | nil => simp [quotedList]
  | cons item rest ih =>
    have hitem := h item List.mem_cons_self
    have hrest := fun other hother => h other (List.mem_cons_of_mem item hother)
    cases rest with
    | nil => simp [quotedList, toList_quoted, hitem, hsigns]
    | cons next rest =>
      rw [toList_quotedList_cons]
      simp [hitem, hsigns, ih hrest]

/-- A character that is in none of the items is not in their type. -/
theorem avoids_literalBlock {name : String} (hsigns : d ∉ ['"', ',', ' '])
    (hhead : d ∉ (typeHead name).toList) (hclose : d ≠ ']')
    (h : ∀ item ∈ items, d ∉ item.toList) : Avoids [d] (literalBlock name items) := by
  have hlist : d ∉ (quotedList items).toList := not_mem_quotedList hsigns h
  have hblank : d ∉ "    ".toList := by
    rw [toList_indent, List.mem_replicate]
    rintro ⟨-, rfl⟩
    exact hsigns (by decide)
  unfold literalBlock
  change Avoids [d] (if jsLength (typeHead name ++ quotedList items ++ "]") ≤ 100 ∧
    items.length ≤ 6 then [typeHead name ++ quotedList items ++ "]"] else
      [typeHead name] ++ items.map (itemLine "    ") ++ ["]"])
  split_ifs
  · simp [Avoids, Lacks, hhead, hlist, hclose]
  · refine .append (.append ?_ (avoids_items hsigns hblank h)) ?_
    · simp [Avoids, Lacks, hhead]
    · simp [Avoids, Lacks, hclose]

/-- A character that is not in the name is not in its row. -/
theorem avoids_scopeLine {name : String} (scope : PermScope) (hsigns : d ∉ ['"', ',', ' ', ':'])
    (hscope : d ∉ scope.text.toList) (h : d ∉ name.toList) :
    Lacks [d] (scopeLine scope name).toList := by
  simp only [List.mem_cons, List.not_mem_nil, or_false, not_or] at hsigns
  simp [Lacks, scopeLine, toList_quoted, h, hscope, hsigns]

end tables

variable {items : List String} {t : Texts} {tables : Tables}

/-- A tuple of such items holds no carriage return. -/
theorem unreturned_emitTuple {name : String} (hname : '\r' ∉ name.toList)
    (h : ∀ item ∈ items, '\r' ∉ item.toList) : Unreturned (emitTuple name items) := by
  unfold emitTuple
  refine .append (.append ?_ (avoids_items (by decide) (by decide) h)) ?_
  · simp [Avoids, Lacks, hname]
  · simp [Avoids, Lacks]

/-- The rows of `PERM_SCOPE` hold no carriage return. -/
theorem unreturned_scopeLines (h : TextsReadAs t tables) : Unreturned (scopeLines t) := by
  refine .flatMap fun scope _ => ?_
  intro line hline
  obtain ⟨item, hitem, rfl⟩ := List.mem_map.mp hline
  exact avoids_scopeLine scope (by decide) (not_mem_of_literalValue (literalValue_scope scope))
    (not_mem_of_readAs (h.bucket scope) item hitem)

/-- A row of `ROLE_PERMISSIONS` holds no carriage return. -/
theorem unreturned_roleEntry {role value : String × List String} (h : GrantReadAs role value) :
    Unreturned (roleEntry role) := by
  unfold roleEntry
  refine .append (.append ?_ (avoids_items (by decide) (by decide) (not_mem_of_readAs h.2))) ?_
  · simp [Avoids, Lacks, toList_quoted, not_mem_of_literalValue h.1]
  · simp [Avoids, Lacks]

/-- Nor do all of them. -/
theorem unreturned_roleEntries {grants values : List (String × List String)}
    (h : List.Forall₂ GrantReadAs grants values) : Unreturned (grants.flatMap roleEntry) := by
  induction h with
  | nil => exact .nil
  | cons hrole _ ih =>
    rw [List.flatMap_cons]
    exact .append (unreturned_roleEntry hrole) ih

/-- No line of the tables has a carriage return. -/
theorem unreturned_tableLines (h : TextsReadAs t tables) : Unreturned (tableLines t) := by
  have hbucket := fun scope => not_mem_of_readAs (h.bucket scope)
  have htuples : Unreturned (tupleLines t) :=
    .append unreturned_importLines <| .append (unreturned_emitTuple (by decide) (hbucket .self)) <|
      .append (unreturned_emitTuple (by decide) (hbucket .platform)) <|
      .append (unreturned_emitTuple (by decide) (hbucket .project)) <|
      .append (unreturned_emitTuple (by decide) (hbucket .platformProject))
        unreturned_vocabularyComments
  have htypes : Unreturned (typeLines t) :=
    .append (avoids_literalBlock (by decide) (by decide) (by decide) (hbucket .self)) <|
      .append (avoids_literalBlock (by decide) (by decide) (by decide) (hbucket .platform)) <|
      .append (avoids_literalBlock (by decide) (by decide) (by decide) (hbucket .project))
        (avoids_literalBlock (by decide) (by decide) (by decide) (hbucket .platformProject))
  have hscopes : Unreturned (permScopeLines t) :=
    .append unreturned_scopeTypeLines <| .append (unreturned_scopeLines h) unreturned_roleComments
  have hroles : Unreturned (roleLines t) := by
    simp [Avoids, Lacks, roleLines, not_mem_quotedList (by decide) (not_mem_of_readAs h.roles)]
  have hgrants : Unreturned (grantLines t) :=
    .append unreturned_roleMapHead <| .append (unreturned_roleEntries h.rolePermissions)
      (by simp [Avoids, Lacks, roleMapEnd])
  exact htuples.append <| htypes.append <| hscopes.append <| hroles.append hgrants

end interpolated

/-- The file is the lines and a last newline. -/
theorem toList_printed {lines : List String} (hne : lines ≠ []) :
    (printed lines).toList = spelled lines ++ ['\n'] := by
  have hjoined : ("\n".intercalate lines ++ "\n").toList = spelled lines := by
    induction lines with
    | nil => exact absurd rfl hne
    | cons line rest ih =>
      cases rest with
      | nil => simp [spelled]
      | cons next rest =>
        have hrest := ih (by simp)
        rw [String.intercalate_cons_cons, String.append_assoc, String.append_assoc,
          String.toList_append, String.toList_append, hrest]
        simp [spelled]
  rw [printed, String.toList_append, hjoined]
  rfl

/-- Lines without carriage returns are a text without them. -/
theorem not_mem_spelled {lines : List String} (h : Unreturned lines) : '\r' ∉ spelled lines := by
  intro hmem
  obtain ⟨line, hline, hmem⟩ := List.mem_flatMap.mp hmem
  rcases List.mem_append.mp hmem with hmem | hmem
  · exact h line hline '\r' (by simp) hmem
  · cases List.mem_singleton.mp hmem

/-- Lines end where the translation starts over. -/
theorem universalNewlines_spelled (lines : List String) (rest : List Char) :
    universalNewlines false (spelled lines ++ rest) =
      universalNewlines false (spelled lines) ++ universalNewlines false rest := by
  rcases List.eq_nil_or_concat lines with rfl | ⟨front, line, rfl⟩
  · rfl
  · have hend : spelled (front ++ [line]) = spelled front ++ line.toList ++ ['\n'] := by
      simp [spelled]
    rw [List.concat_eq_append, hend, List.append_assoc, List.singleton_append]
    exact universalNewlines_append false _ rest (by decide)

/-- The functions, as they stand at the end of the module. -/
def definedFunctions : List Char := spelled functionLines ++ ['\n']

/-- The names that the emitted module binds before its functions, last first. -/
def readModule (text : List Char) : Option Env := readModuleEnding definedFunctions text

/-- The version and the services stay within the docstring: all that stands between its three
quotes is one string, line ends translated. -/
def OneDocstring (date : Date) (t : Texts) : Prop :=
  ∃ body, LongLiteral body ∧ universalNewlines false (spelled (docstring date t)) =
    '"' :: '"' :: '"' :: (body ++ ['"', '"', '"', '\n'])

/-- Then it is read as a string, and the module goes on after it. -/
theorem OneDocstring.read {date : Date} {t : Texts} (h : OneDocstring date t) :
    start.feed (universalNewlines false (spelled (docstring date t))) = some start := by
  obtain ⟨body, hliteral, hspelled⟩ := h
  obtain ⟨value, hvalue⟩ := feed_longLiteral hliteral 0 start.parser ['\n']
  have hopened : ∀ rest, start.feed ('"' :: '"' :: '"' :: rest) =
      feed ⟨.body '"' true false 0 [], 0, start.parser⟩ rest := fun _ => rfl
  rw [hspelled, hopened, hvalue]
  rfl

/-- The characters that can end a docstring early, spoil its escapes, or end the file. -/
def breakingChars : List Char := ['"', '\\', '\x00']

section docstring

/-- Characters after the translation. -/
theorem mem_universalNewlines {afterReturn : Bool} {text : List Char} {c : Char}
    (h : c ∈ universalNewlines afterReturn text) : c ∈ text ∨ c = '\n' := by
  induction text generalizing afterReturn with
  | nil => cases h
  | cons d rest ih =>
    rw [universalNewlines] at h
    split_ifs at h with hreturn hskip
    · rcases List.mem_cons.mp h with rfl | h
      · exact Or.inr rfl
      · exact (ih h).imp_left (List.mem_cons_of_mem d)
    · exact (ih h).imp_left (List.mem_cons_of_mem d)
    · rcases List.mem_cons.mp h with rfl | h
      · exact Or.inl List.mem_cons_self
      · exact (ih h).imp_left (List.mem_cons_of_mem d)

/-- A number breaks no string. -/
theorem lacks_decimal (width n : ℕ) : Lacks breakingChars (decimal width n) := by
  have hdigit : ∀ m < 10, Nat.digitChar m ∉ breakingChars := by decide
  intro d hd hmem
  obtain ⟨i, -, rfl⟩ := List.mem_map.mp hmem
  exact hdigit _ (Nat.mod_lt _ (by decide)) hd

/-- A date breaks no string. -/
theorem lacks_date (date : Date) : Lacks breakingChars date.text.toList := by
  intro d hd
  have hdash : d ≠ '-' := by
    rintro rfl
    exact absurd hd (by decide)
  simp [Date.text, lacks_decimal _ _ d hd, hdash]

theorem avoids_docstringMiddle : Avoids breakingChars docstringMiddle := by
  unfold docstringMiddle
  repeat refine Avoids.cons_spelled rfl (by decide) ?_
  exact .nil

theorem avoids_docstringBack : Avoids breakingChars docstringBack.dropLast := by
  unfold docstringBack
  simp only [List.dropLast]
  repeat refine Avoids.cons_spelled rfl (by decide) ?_
  exact .nil

/-- Two lists of lines are spelled one after the other. -/
theorem spelled_append (front rest : List String) :
    spelled (front ++ rest) = spelled front ++ spelled rest :=
  List.flatMap_append

/-- The docstring opens with three quotes. -/
theorem spelled_docstringFront : ∃ front, Avoids breakingChars front ∧
    spelled docstringFront = '"' :: '"' :: '"' :: spelled front := by
  have hquotes : ∀ {line : String} {chars : List Char} (rest : List String),
      line = String.ofList ('"' :: '"' :: '"' :: chars) →
      spelled (line :: rest) = '"' :: '"' :: '"' :: spelled (String.ofList chars :: rest) := by
    intro line chars rest hline
    simp [hline, spelled]
  refine ⟨_, ?_, hquotes _ rfl⟩
  repeat refine Avoids.cons_spelled rfl (by decide) ?_
  exact .nil

/-- The docstring closes with three quotes. -/
theorem spelled_docstringBack :
    spelled docstringBack = spelled docstringBack.dropLast ++ ['"', '"', '"', '\n'] := by
  have hlast : docstringBack = docstringBack.dropLast ++ ["\"\"\""] := rfl
  have hquotes : spelled ["\"\"\""] = ['"', '"', '"', '\n'] := by decide
  rw [hlast, spelled_append, hquotes, List.dropLast_concat]

/-- The lines with the version and the services. -/
theorem avoids_versionLine {version : String} (date : Date)
    (h : Lacks breakingChars version.toList) : Avoids breakingChars
      ["v" ++ version ++ " (generated " ++ date.text ++ "). Do NOT edit by hand — edit the"] := by
  intro line hline d hd
  obtain rfl := List.mem_singleton.mp hline
  have hv : Lacks breakingChars "v".toList := by decide
  have hgenerated : Lacks breakingChars " (generated ".toList := by decide
  have hedit : Lacks breakingChars "). Do NOT edit by hand — edit the".toList := by decide
  simp only [String.toList_append, List.mem_append, not_or]
  exact ⟨⟨⟨⟨hv d hd, h d hd⟩, hgenerated d hd⟩, lacks_date date d hd⟩, hedit d hd⟩

/-- The line of the services breaks the string only if they do. -/
theorem avoids_servicesLine {services : String} (h : Lacks breakingChars services.toList) :
    Avoids breakingChars ["  - service  — one of: " ++ services] := by
  intro line hline d hd
  obtain rfl := List.mem_singleton.mp hline
  have hplain : Lacks breakingChars "  - service  — one of: ".toList := by decide
  simp only [String.toList_append, List.mem_append, not_or]
  exact ⟨hplain d hd, h d hd⟩

/-- Lines that break no string do not break it after the newlines are read. -/
theorem lacks_universalNewlines {lines : List String} (h : Avoids breakingChars lines) :
    Lacks breakingChars (universalNewlines false (spelled lines)) := by
  intro d hd hmem
  have hline : d ≠ '\n' := by
    rintro rfl
    exact absurd hd (by decide)
  rcases mem_universalNewlines hmem with hmem | hmem
  · obtain ⟨line, hmem, hd'⟩ := List.mem_flatMap.mp hmem
    rcases List.mem_append.mp hd' with hd' | hd'
    · exact h line hmem d hd hd'
    · exact hline (List.mem_singleton.mp hd')
  · exact hline hmem

/-- Lines between three quotes and three quotes are one string. -/
theorem longLiteral_of_avoids {lines : List String} (h : Avoids breakingChars lines) :
    LongLiteral (universalNewlines false (spelled lines)) := by
  have hchars := lacks_universalNewlines h
  refine longLiteral_of_lacks fun c hc => ⟨?_, ?_, ?_⟩
  · exact fun hq => hchars '"' (by decide) (hq ▸ hc)
  · exact fun hs => hchars '\\' (by decide) (hs ▸ hc)
  · exact fun hn => hchars '\x00' (by decide) (hn ▸ hc)

/-- Texts without quotes, backslashes and null characters stay in the docstring. -/
theorem oneDocstring_of_avoids {date : Date} {t : Texts}
    (hversion : Lacks breakingChars t.version.toList)
    (hservices : Lacks breakingChars t.services.toList) : OneDocstring date t := by
  obtain ⟨front, hfront, hspelled⟩ := spelled_docstringFront
  have hinside := hfront.append ((avoids_versionLine date hversion).append
    (avoids_docstringMiddle.append ((avoids_servicesLine hservices).append avoids_docstringBack)))
  refine ⟨_, longLiteral_of_avoids hinside, ?_⟩
  have hquotes : ∀ text, universalNewlines false ('"' :: '"' :: '"' :: text) =
      '"' :: '"' :: '"' :: universalNewlines false text := fun _ => rfl
  have hend : universalNewlines false ['"', '"', '"', '\n'] = ['"', '"', '"', '\n'] := by decide
  rw [docstring]
  simp only [spelled_append]
  rw [hspelled, spelled_docstringBack]
  simp only [List.cons_append, List.append_assoc]
  rw [hquotes]
  simp only [universalNewlines_spelled, hend, List.append_assoc]

end docstring

/-- What Python reads in the text that the script prints. -/
theorem readModule_printed {date : Date} {t : Texts} {tables : Tables}
    (hdoc : OneDocstring date t) (h : TextsReadAs t tables) :
    readModule (universalNewlines false (printed (lines date t)).toList) =
      if Occupied t then some tables.env else none := by
  have hlines : lines date t ≠ [] := by
    rw [lines_eq, docstring, docstringFront]
    simp only [List.cons_append]
    exact List.cons_ne_nil _ _
  have htables : universalNewlines false (spelled (tableLines t)) = spelled (tableLines t) :=
    universalNewlines_of_not_mem (not_mem_spelled (unreturned_tableLines h))
  have hfunctions : universalNewlines false (spelled functionLines ++ ['\n']) =
      definedFunctions :=
    universalNewlines_of_not_mem (by simp [not_mem_spelled unreturned_functionLines])
  have hread : start.feed (spelled (tableLines t)) =
      if Occupied t then some (ready tables.env) else none := feedLines_tableLines h
  rw [toList_printed hlines, lines_eq, bodyLines, spelled_append, spelled_append, List.append_assoc,
    List.append_assoc, universalNewlines_spelled, universalNewlines_spelled, htables, hfunctions,
    ← List.append_assoc, readModule, readModuleEnding_append, feed_append, hdoc.read,
    Option.bind_some, hread]
  split_ifs
  · rfl
  · rfl

end HeliosPermissions.EmittedText
