import HeliosPermissions.EmittedText

/-!
# The version in the generated text

The emitter writes the version as JavaScript spells it, and `main` looks for it as
Python does, up to the mark behind it. The mark stands once in the fixed lines, so
unless an interpolated text brings it again, the version is found when the one spelling
ends the way the other does.
-/

namespace HeliosPermissions.VersionSentinel

open ContractValidation ContractEmitter PythonModules EmittedModule EmittedTables EmittedText

section infixes

variable {α : Type} [DecidableEq α] {part l r : List α}

/-- Whether a list has a part. -/
def occurs (part : List α) : List α → Bool
  | [] => part.isEmpty
  | a :: rest => part.isPrefixOf (a :: rest) || occurs part rest

/-- The search finds what occurs. -/
theorem occurs_iff : occurs part l = true ↔ part <:+: l := by
  induction l with
  | nil => simp [occurs, List.isEmpty_iff]
  | cons a rest ih => simp [occurs, ih, List.infix_cons_iff]

omit [DecidableEq α] in
/-- What has a character that is missing does not occur. -/
theorem not_infix_of_not_mem {a : α} (ha : a ∈ part) (h : a ∉ l) : ¬part <:+: l :=
  fun hpart => h (hpart.subset ha)

omit [DecidableEq α] in
/-- What is not in the part keeps the sides apart. -/
theorem not_infix_append_cons {a : α} (hne : part ≠ []) (ha : a ∉ part) (hl : ¬part <:+: l)
    (hr : ¬part <:+: r) : ¬part <:+: l ++ a :: r := by
  rintro ⟨front, back, h⟩
  rw [List.append_assoc] at h
  rcases List.append_eq_append_iff.mp h with ⟨mid, rfl, hmid⟩ | ⟨mid, rfl, hmid⟩
  · rcases List.append_eq_append_iff.mp hmid with ⟨rest, rfl, -⟩ | ⟨rest, rfl, hrest⟩
    · exact hl ⟨front, rest, by simp⟩
    · cases rest with
      | nil => exact hl ⟨front, [], by simp⟩
      | cons b rest =>
        obtain ⟨rfl, -⟩ := List.cons.inj hrest
        exact ha (by simp)
  · cases mid with
    | nil =>
      cases part with
      | nil => exact hne rfl
      | cons b part =>
        obtain ⟨rfl, -⟩ := List.cons.inj hmid
        exact ha List.mem_cons_self
    | cons b mid =>
      obtain ⟨-, rfl⟩ := List.cons.inj hmid
      exact hr ⟨mid, back, by simp⟩

omit [DecidableEq α] in
/-- A part that cannot overlap itself begins again behind its end only. -/
theorem shift_part {a : α} {part mid r r' : List α} (ha : a ∉ part)
    (h : a :: part ++ r = mid ++ (a :: part ++ r')) :
    mid = [] ∨ ∃ rest, mid = a :: part ++ rest ∧ r = rest ++ (a :: part ++ r') := by
  rcases List.append_eq_append_iff.mp h with ⟨rest, hmid, hr⟩ | ⟨rest, hpart, hrest⟩
  · exact Or.inr ⟨rest, hmid, hr⟩
  · cases mid with
    | nil => exact Or.inl rfl
    | cons b mid =>
      simp only [List.cons_append, List.cons.injEq] at hpart
      obtain ⟨rfl, rfl⟩ := hpart
      cases rest with
      | nil => exact Or.inr ⟨[], by simp, by simpa using hrest.symm⟩
      | cons c rest =>
        -- the other part would begin inside this one
        simp only [List.cons_append, List.cons.injEq] at hrest
        rw [hrest.1] at ha
        simp at ha

omit [DecidableEq α] in
/-- So when neither side has it, it stands in one place. -/
theorem split_part {a : α} {part l' r' : List α} (ha : a ∉ part) (hl : ¬a :: part <:+: l)
    (hr : ¬a :: part <:+: r) (h : l ++ (a :: part ++ r) = l' ++ (a :: part ++ r')) : l = l' := by
  rcases List.append_eq_append_iff.mp h with ⟨mid, rfl, hmid⟩ | ⟨mid, rfl, hmid⟩
  · rcases shift_part ha hmid with rfl | ⟨rest, -, rfl⟩
    · rw [List.append_nil]
    · exact absurd ⟨rest, r', by simp⟩ hr
  · rcases shift_part ha hmid with rfl | ⟨rest, rfl, -⟩
    · rw [List.append_nil]
    · exact absurd ⟨l', rest, by simp⟩ hl

end infixes

/-- What stands behind the version, as far as no other fixed line has it. -/
def mark : List Char := ['(', 'g', 'e']

/-- A line that the translation of line ends leaves as it is, and without the mark. -/
def Unmarked (chars : List Char) : Prop := '\r' ∉ chars ∧ ¬mark <:+: chars

instance (chars : List Char) : Decidable (Unmarked chars) :=
  decidable_of_iff ('\r' ∉ chars ∧ ¬occurs mark chars = true) (by rw [Unmarked, occurs_iff])

/-- Lines like that. -/
def AllUnmarked (lines : List String) : Prop := ∀ line ∈ lines, Unmarked line.toList

section lines

/-- Two lists of lines one after the other. -/
theorem AllUnmarked.append {front rest : List String} (hfront : AllUnmarked front)
    (hrest : AllUnmarked rest) : AllUnmarked (front ++ rest) :=
  List.forall_mem_append.mpr ⟨hfront, hrest⟩

theorem AllUnmarked.nil : AllUnmarked [] := by simp [AllUnmarked]

/-- A line that is written out, with the characters that spell it. -/
theorem AllUnmarked.cons_spelled {line : String} {chars : List Char} {rest : List String}
    (hline : line = String.ofList chars) (hchars : Unmarked chars) (hrest : AllUnmarked rest) :
    AllUnmarked (line :: rest) := by
  refine List.forall_mem_cons.mpr ⟨?_, hrest⟩
  rwa [hline, String.toList_ofList]

/-- Lines without parentheses. -/
theorem AllUnmarked.of_avoids {lines : List String} (h : Avoids ['('] lines)
    (hreturn : Unreturned lines) : AllUnmarked lines :=
  fun line hline => ⟨hreturn line hline '\r' (by simp),
    not_infix_of_not_mem (by decide) (h line hline '(' (by simp))⟩

/-- The mark does not stand across the end of a line. -/
theorem unmarked_spelled {lines : List String} (h : AllUnmarked lines) :
    Unmarked (spelled lines) := by
  induction lines with
  | nil => decide
  | cons line rest ih =>
    have hline : spelled (line :: rest) = line.toList ++ '\n' :: spelled rest := by
      simp [spelled]
    obtain ⟨hreturn, hmark⟩ := h line List.mem_cons_self
    obtain ⟨hreturn', hmark'⟩ := ih fun other hother => h other (List.mem_cons_of_mem line hother)
    rw [hline]
    exact ⟨by simp [hreturn, hreturn'],
      not_infix_append_cons (by decide) (by decide) hmark hmark'⟩

end lines

section fixed

theorem unmarked_docstringFront : AllUnmarked docstringFront := by
  unfold docstringFront
  repeat refine AllUnmarked.cons_spelled rfl (by decide) ?_
  exact .nil

theorem unmarked_docstringMiddle : AllUnmarked docstringMiddle := by
  unfold docstringMiddle
  repeat refine AllUnmarked.cons_spelled rfl (by decide) ?_
  exact .nil

theorem unmarked_docstringBack : AllUnmarked docstringBack := by
  unfold docstringBack
  repeat refine AllUnmarked.cons_spelled rfl (by decide) ?_
  exact .nil

theorem unmarked_importLines : AllUnmarked importLines := by
  unfold importLines
  repeat refine AllUnmarked.cons_spelled rfl (by decide) ?_
  exact .nil

theorem unmarked_vocabularyComments : AllUnmarked vocabularyComments := by
  unfold vocabularyComments
  repeat refine AllUnmarked.cons_spelled rfl (by decide) ?_
  exact .nil

theorem unmarked_scopeTypeLines : AllUnmarked scopeTypeLines := by
  unfold scopeTypeLines
  repeat refine AllUnmarked.cons_spelled rfl (by decide) ?_
  exact .nil

theorem unmarked_roleComments : AllUnmarked roleComments := by
  unfold roleComments
  repeat refine AllUnmarked.cons_spelled rfl (by decide) ?_
  exact .nil

theorem unmarked_roleMapHead : AllUnmarked roleMapHead := by
  unfold roleMapHead
  repeat refine AllUnmarked.cons_spelled rfl (by decide) ?_
  exact .nil

theorem unmarked_functionLines : AllUnmarked functionLines := by
  unfold functionLines resolvePermissionsLines roleHasPermissionLines isSelfScopeLines
    isPlatformGrantableLines isTenantGrantableLines isPermissionLines isRoleLines
  simp only [List.cons_append, List.nil_append]
  repeat refine AllUnmarked.cons_spelled rfl (by decide) ?_
  exact .nil

end fixed

/-- A text without carriage returns and opening parentheses. -/
def Plain (text : String) : Prop := '(' ∉ text.toList ∧ '\r' ∉ text.toList

instance (text : String) : Decidable (Plain text) :=
  inferInstanceAs (Decidable ('(' ∉ text.toList ∧ '\r' ∉ text.toList))

/-- Every text that is interpolated is plain. -/
structure PlainTexts (t : Texts) : Prop where
  /-- The version is plain. -/
  version : Plain t.version
  /-- The services are plain. -/
  services : Plain t.services
  /-- The permissions are plain. -/
  bucket : ∀ scope, ∀ name ∈ t.bucket scope, Plain name
  /-- The roles are plain. -/
  roles : ∀ role ∈ t.roles, Plain role
  /-- The roles of the rows and what they are granted are plain. -/
  rolePermissions : ∀ role ∈ t.rolePermissions, Plain role.1 ∧ ∀ perm ∈ role.2, Plain perm

section tables

variable {items : List String} {t : Texts}

/-- Without one of its characters a line is unmarked. -/
theorem unmarked_of_not_mem {chars : List Char} {c : Char} (hc : c ∈ mark) (h : c ∉ chars)
    (hreturn : '\r' ∉ chars) : Unmarked chars :=
  ⟨hreturn, not_infix_of_not_mem hc h⟩

/-- Lines of plain items are unmarked. -/
theorem unmarked_items {indent : String} (hindent : Plain indent)
    (h : ∀ item ∈ items, Plain item) : AllUnmarked (items.map (itemLine indent)) :=
  .of_avoids (avoids_items (by decide) hindent.1 fun item hitem => (h item hitem).1)
    (avoids_items (by decide) hindent.2 fun item hitem => (h item hitem).2)

/-- A tuple of plain items is unmarked. -/
theorem unmarked_emitTuple {name : String} (hname : 'g' ∉ name.toList)
    (hreturn : '\r' ∉ name.toList) (h : ∀ item ∈ items, Plain item) :
    AllUnmarked (emitTuple name items) := by
  have hhead : Unmarked (tupleHead name).toList :=
    unmarked_of_not_mem (c := 'g') (by decide) (by simp [tupleHead, hname])
      (by simp [tupleHead, hreturn])
  have hend : AllUnmarked [")", ""] := by
    refine .cons_spelled rfl (by decide) (.cons_spelled rfl (by decide) .nil)
  refine .append (.append ?_ (unmarked_items (by decide) h)) hend
  intro line hline
  obtain rfl := List.mem_singleton.mp hline
  exact hhead

/-- The type of plain items is unmarked. -/
theorem unmarked_literalBlock {name : String} (hname : Plain (typeHead name))
    (h : ∀ item ∈ items, Plain item) : AllUnmarked (literalBlock name items) :=
  .of_avoids
    (avoids_literalBlock (by decide) hname.1 (by decide) fun item hitem => (h item hitem).1)
    (avoids_literalBlock (by decide) hname.2 (by decide) fun item hitem => (h item hitem).2)

/-- The rows of `PERM_SCOPE` are unmarked. -/
theorem unmarked_scopeLines (h : PlainTexts t) : AllUnmarked (scopeLines t) := by
  have hscope : ∀ scope : PermScope, Plain scope.text := by
    intro scope
    cases scope with
    | self => decide
    | platform => decide
    | project => decide
    | platformProject => decide
  refine .of_avoids (.flatMap fun scope _ => ?_) (.flatMap fun scope _ => ?_)
  · intro line hline
    obtain ⟨name, hname, rfl⟩ := List.mem_map.mp hline
    exact avoids_scopeLine scope (by decide) (hscope scope).1 (h.bucket scope name hname).1
  · intro line hline
    obtain ⟨name, hname, rfl⟩ := List.mem_map.mp hline
    exact avoids_scopeLine scope (by decide) (hscope scope).2 (h.bucket scope name hname).2

/-- A quotation mark stands between the parenthesis and the first role. -/
theorem quotedList_opens (item : String) (rest : List String) :
    ∃ more, (quotedList (item :: rest)).toList = '"' :: more := by
  cases rest with
  | nil => exact ⟨item.toList ++ ['"'], by simp [quotedList, toList_quoted]⟩
  | cons next rest => exact ⟨_, toList_quotedList_cons item next rest⟩

/-- The lines of `ROLES` are unmarked. -/
theorem unmarked_roleLines (h : ∀ item ∈ t.roles, Plain item) : AllUnmarked (roleLines t) := by
  have hopen : '(' ∉ (quotedList t.roles).toList :=
    not_mem_quotedList (by decide) fun item hitem => (h item hitem).1
  have hreturn : '\r' ∉ (quotedList t.roles).toList :=
    not_mem_quotedList (by decide) fun item hitem => (h item hitem).2
  have htuple : ¬mark <:+: (tupleHead "ROLES" ++ quotedList t.roles ++ ")").toList := by
    cases hroles : t.roles with
    | nil => exact not_infix_of_not_mem (a := 'g') (by decide) (by simp [tupleHead, quotedList])
    | cons role rest =>
      obtain ⟨more, hmore⟩ := quotedList_opens role rest
      rw [hroles, hmore] at hopen
      have hsplit : (tupleHead "ROLES" ++ quotedList (role :: rest) ++ ")").toList =
          (tupleHead "ROLES").toList ++ '"' :: (more ++ [')']) := by
        simp [hmore]
      rw [hsplit]
      refine not_infix_append_cons (by decide) (by decide) ?_ ?_
      · exact not_infix_of_not_mem (a := 'g') (by decide) (by decide)
      · exact not_infix_of_not_mem (a := '(') (by decide) (by simpa using hopen)
  intro line hline
  rcases List.mem_cons.mp hline with rfl | hline
  · exact ⟨by simp [hreturn], htuple⟩
  · obtain rfl := List.mem_singleton.mp hline
    exact unmarked_of_not_mem (c := '(') (by decide) (by simp [hopen]) (by simp [hreturn])

/-- A row of `ROLE_PERMISSIONS` is unmarked. -/
theorem unmarked_roleEntry {role : String × List String}
    (h : Plain role.1 ∧ ∀ perm ∈ role.2, Plain perm) : AllUnmarked (roleEntry role) := by
  have hhead : Unmarked ("    " ++ quoted role.1 ++ ": (").toList := by
    have hsplit : ("    " ++ quoted role.1 ++ ": (").toList =
        ("    " ++ quoted role.1 ++ ":").toList ++ ' ' :: ['('] := by
      simp
    rw [hsplit]
    refine ⟨by simp [toList_quoted, h.1.2], not_infix_append_cons (by decide) (by decide) ?_ ?_⟩
    · exact not_infix_of_not_mem (a := '(') (by decide) (by simp [toList_quoted, h.1.1])
    · exact not_infix_of_not_mem (a := 'g') (by decide) (by decide)
  refine .append (.append ?_ (unmarked_items (by decide) h.2)) ?_
  · intro line hline
    obtain rfl := List.mem_singleton.mp hline
    exact hhead
  · exact .cons_spelled rfl (by decide) .nil

/-- No line after the docstring has the mark. -/
theorem unmarked_bodyLines (h : PlainTexts t) : AllUnmarked (bodyLines t) := by
  have htuples : AllUnmarked (tupleLines t) :=
    unmarked_importLines.append <|
      (unmarked_emitTuple (by decide) (by decide) (h.bucket .self)).append <|
      (unmarked_emitTuple (by decide) (by decide) (h.bucket .platform)).append <|
      (unmarked_emitTuple (by decide) (by decide) (h.bucket .project)).append <|
      (unmarked_emitTuple (by decide) (by decide) (h.bucket .platformProject)).append
        unmarked_vocabularyComments
  have htypes : AllUnmarked (typeLines t) :=
    (unmarked_literalBlock (by decide) (h.bucket .self)).append <|
      (unmarked_literalBlock (by decide) (h.bucket .platform)).append <|
      (unmarked_literalBlock (by decide) (h.bucket .project)).append
        (unmarked_literalBlock (by decide) (h.bucket .platformProject))
  have hscopes : AllUnmarked (permScopeLines t) :=
    unmarked_scopeTypeLines.append <| (unmarked_scopeLines h).append unmarked_roleComments
  have hentries : AllUnmarked (t.rolePermissions.flatMap roleEntry) := by
    intro line hline
    obtain ⟨role, hrole, hline⟩ := List.mem_flatMap.mp hline
    exact unmarked_roleEntry (h.rolePermissions role hrole) line hline
  have hend : AllUnmarked roleMapEnd := by
    unfold roleMapEnd
    repeat refine AllUnmarked.cons_spelled rfl (by decide) ?_
    exact .nil
  have hgrants : AllUnmarked (grantLines t) := unmarked_roleMapHead.append <| hentries.append hend
  have htables : AllUnmarked (tableLines t) :=
    htuples.append <| htypes.append <| hscopes.append <| (unmarked_roleLines h.roles).append hgrants
  exact htables.append unmarked_functionLines

end tables

/-- `sentinel`, for the version as Python spells it. -/
def sentinel (version : String) : String := "v" ++ version ++ " (generated"

/-- `part in text`. -/
def occursIn (part text : String) : Prop := part.toList <:+: text.toList

instance (part text : String) : Decidable (occursIn part text) :=
  decidable_of_iff (occurs part.toList text.toList = true) occurs_iff

/-- What the script prints, as a subprocess in text mode hands it over. -/
def received (date : Date) (t : Texts) : String :=
  String.ofList (universalNewlines false (printed (lines date t)).toList)

section texts

variable {date : Date} {t : Texts}

/-- The rest of the sentinel behind the mark. -/
def nerated : List Char := ['n', 'e', 'r', 'a', 't', 'e', 'd']

/-- The rest of the line of the version behind the sentinel. -/
def lineBehind (date : Date) : List Char :=
  (" " ++ date.text ++ "). Do NOT edit by hand — edit the").toList

/-- The lines behind the version. -/
def linesBehind (t : Texts) : List String :=
  docstringMiddle ++ (["  - service  — one of: " ++ t.services] ++ docstringBack) ++ bodyLines t

/-- The sentinel holds the mark behind the version. -/
theorem toList_sentinel (version : String) :
    (sentinel version).toList = 'v' :: (version.toList ++ [' ']) ++ (mark ++ nerated) := by
  simp [sentinel, mark, nerated]

/-- The line of the version, up to the mark and behind it. -/
theorem toList_versionLine (date : Date) (t : Texts) :
    ("v" ++ t.version ++ " (generated " ++ date.text ++
        "). Do NOT edit by hand — edit the").toList =
      'v' :: (t.version.toList ++ [' ']) ++ (mark ++ (nerated ++ lineBehind date)) := by
  simp [mark, nerated, lineBehind]

/-- The text up to the mark and behind it. -/
theorem toList_text (date : Date) (t : Texts) : (printed (lines date t)).toList =
    (spelled docstringFront ++ 'v' :: (t.version.toList ++ [' '])) ++
      (mark ++ (nerated ++ lineBehind date ++ '\n' :: (spelled (linesBehind t) ++ ['\n']))) := by
  have hlines : lines date t = docstringFront ++ (["v" ++ t.version ++ " (generated " ++
      date.text ++ "). Do NOT edit by hand — edit the"] ++ linesBehind t) := by
    rw [lines_eq, docstring, linesBehind]
    simp only [List.append_assoc]
  have hne : lines date t ≠ [] := by
    rw [hlines]
    exact List.append_ne_nil_of_left_ne_nil (List.cons_ne_nil _ _) _
  have hline : ∀ line : String, spelled [line] = line.toList ++ ['\n'] := by simp [spelled]
  rw [toList_printed hne, hlines, spelled_append, spelled_append, hline, toList_versionLine]
  simp only [List.append_assoc, List.cons_append, List.nil_append]

/-- A version without carriage returns is found in the spelling of the emitter. -/
theorem sentinel_occurs (h : '\r' ∉ t.version.toList) :
    occursIn (sentinel t.version) (received date t) := by
  have hreturn : '\r' ∉ 'v' :: (t.version.toList ++ [' '] ++ (mark ++ nerated)) := by
    simp [h, mark, nerated]
  have hinfix := infix_universalNewlines (by decide) hreturn false (spelled docstringFront)
    (lineBehind date ++ '\n' :: (spelled (linesBehind t) ++ ['\n']))
  rw [occursIn, toList_sentinel, received, String.toList_ofList, toList_text]
  simpa only [List.append_assoc, List.cons_append] using hinfix

/-- No text that was handed over has a carriage return, so a version with one is not found. -/
theorem not_mem_received (date : Date) (t : Texts) : '\r' ∉ (received date t).toList := by
  rw [received, String.toList_ofList]
  exact not_mem_universalNewlines false _

/-- A version that both spell alike is found unless it has carriage returns. -/
theorem sentinel_occurs_iff_of_alike :
    occursIn (sentinel t.version) (received date t) ↔ '\r' ∉ t.version.toList := by
  refine ⟨fun hoccurs hreturn => not_mem_received date t (hoccurs.subset ?_), sentinel_occurs⟩
  rw [toList_sentinel]
  simp [hreturn]

/-- A date is made of digits and dashes. -/
theorem not_mem_date (date : Date) {c : Char} (hdash : c ≠ '-')
    (hdigit : ∀ m < 10, Nat.digitChar m ≠ c) : c ∉ date.text.toList := by
  have hdecimal : ∀ width n, c ∉ decimal width n := by
    intro width n hmem
    obtain ⟨i, -, hi⟩ := List.mem_map.mp hmem
    exact hdigit _ (Nat.mod_lt _ (by decide)) hi
  simp [Date.text, hdecimal, hdash]

/-- The rest of the line has no parenthesis that opens. -/
theorem unmarked_lineBehind (date : Date) : Unmarked (nerated ++ lineBehind date) := by
  have hopen : '(' ∉ date.text.toList := not_mem_date date (by decide) (by decide)
  have hreturn : '\r' ∉ date.text.toList := not_mem_date date (by decide) (by decide)
  exact unmarked_of_not_mem (c := '(') (by decide) (by simp [nerated, lineBehind, hopen])
    (by simp [nerated, lineBehind, hreturn])

/-- Behind the version there is no mark. -/
theorem unmarked_linesBehind (h : PlainTexts t) : AllUnmarked (linesBehind t) := by
  refine .append (.append unmarked_docstringMiddle (.append ?_ unmarked_docstringBack))
    (unmarked_bodyLines h)
  intro line hline
  obtain rfl := List.mem_singleton.mp hline
  exact unmarked_of_not_mem (c := '(') (by decide) (by simp [h.services.1])
    (by simp [h.services.2])

/-- Nothing before the mark has it. -/
theorem unmarked_front (h : PlainTexts t) :
    Unmarked (spelled docstringFront ++ 'v' :: (t.version.toList ++ [' '])) := by
  obtain ⟨hreturn, hmark⟩ := unmarked_spelled unmarked_docstringFront
  refine ⟨by simp [hreturn, h.version.2], not_infix_append_cons (by decide) (by decide) hmark ?_⟩
  exact not_infix_of_not_mem (a := '(') (by decide) (by simp [h.version.1])

/-- Nothing behind it has it either. -/
theorem unmarked_behind (h : PlainTexts t) :
    Unmarked (nerated ++ lineBehind date ++ '\n' :: (spelled (linesBehind t) ++ ['\n'])) := by
  obtain ⟨hreturn, hmark⟩ := unmarked_lineBehind date
  obtain ⟨hreturn', hmark'⟩ := unmarked_spelled (unmarked_linesBehind h)
  refine ⟨?_, not_infix_append_cons (by decide) (by decide) hmark ?_⟩
  · rw [List.mem_append, not_or]
    exact ⟨hreturn, by simp [hreturn']⟩
  · exact not_infix_append_cons (by decide) (by decide) hmark' (by decide)

/-- Plain texts are handed over as they are printed. -/
theorem received_of_plain (h : PlainTexts t) : received date t = printed (lines date t) := by
  have hreturn : '\r' ∉ (printed (lines date t)).toList := by
    rw [toList_text]
    intro hmem
    rcases List.mem_append.mp hmem with hmem | hmem
    · exact (unmarked_front h).1 hmem
    · rcases List.mem_append.mp hmem with hmem | hmem
      · exact absurd hmem (by decide)
      · exact (unmarked_behind h).1 hmem
  rw [received, universalNewlines_of_not_mem hreturn, String.ofList_toList]

/-- The docstring up to the version ends with a line end. -/
theorem spelled_docstringFront_ends : ∃ front, spelled docstringFront = front ++ ['\n'] := by
  have hlast : docstringFront = docstringFront.dropLast ++ [docstringFront.getLast (by decide)] :=
    rfl
  have hline : ∀ line : String, spelled [line] = line.toList ++ ['\n'] := by simp [spelled]
  rw [hlast, spelled_append, hline, ← List.append_assoc]
  exact ⟨_, rfl⟩

/-- A list without line ends is how a text ends when it is how the last line ends. -/
theorem suffix_of_line {front line chars : List Char} (hchars : '\n' ∉ chars)
    (h : chars <:+ front ++ ['\n'] ++ line) : chars <:+ line := by
  obtain ⟨before, h⟩ := h
  rcases List.append_eq_append_iff.mp h with ⟨mid, hfront, rfl⟩ | ⟨mid, -, hline⟩
  · rcases List.eq_nil_or_concat mid with rfl | ⟨mid, c, rfl⟩
    · exact List.suffix_rfl
    · -- the line end would stand in the characters
      rw [List.concat_eq_append, ← List.append_assoc] at hfront
      obtain ⟨-, hend⟩ := List.append_inj' hfront rfl
      cases hend
      simp at hchars
  · exact ⟨mid, hline.symm⟩

/-- Among plain texts, another version is found when its spelling is how the emitted one
ends, the letter before it included. -/
theorem sentinel_occurs_iff {version : String} (h : PlainTexts t)
    (hline : '\n' ∉ version.toList) : occursIn (sentinel version) (received date t) ↔
      'v' :: version.toList <:+ 'v' :: t.version.toList := by
  rw [received_of_plain h, occursIn, toList_sentinel, toList_text]
  constructor
  · rintro ⟨before, after, heq⟩
    have hplaces : (spelled docstringFront ++ 'v' :: (t.version.toList ++ [' '])) ++
        (mark ++ (nerated ++ lineBehind date ++ '\n' :: (spelled (linesBehind t) ++ ['\n']))) =
        (before ++ 'v' :: (version.toList ++ [' '])) ++ (mark ++ (nerated ++ after)) := by
      rw [← heq]
      simp only [List.append_assoc, List.cons_append]
    -- the mark stands in one place, so what is before it is the same
    have hfront : spelled docstringFront ++ 'v' :: (t.version.toList ++ [' ']) =
        before ++ 'v' :: (version.toList ++ [' ']) :=
      split_part (by decide) (unmarked_front h).2 (unmarked_behind h).2 hplaces
    have hversion : spelled docstringFront ++ 'v' :: t.version.toList =
        before ++ 'v' :: version.toList := by
      refine (List.append_left_inj [' ']).mp ?_
      simpa only [List.append_assoc, List.cons_append] using hfront
    obtain ⟨front, hends⟩ := spelled_docstringFront_ends
    have hsuffix : 'v' :: version.toList <:+ front ++ ['\n'] ++ 'v' :: t.version.toList := by
      rw [← hends, hversion]
      exact List.suffix_append before _
    exact suffix_of_line (by simp [hline]) hsuffix
  · rintro ⟨mid, hmid⟩
    refine ⟨spelled docstringFront ++ mid,
      lineBehind date ++ '\n' :: (spelled (linesBehind t) ++ ['\n']), ?_⟩
    have hline : 'v' :: (t.version.toList ++ [' ']) = mid ++ 'v' :: (version.toList ++ [' ']) := by
      rw [← List.cons_append, ← hmid]
      simp
    rw [hline]
    simp only [List.append_assoc, List.cons_append]

end texts

end HeliosPermissions.VersionSentinel
