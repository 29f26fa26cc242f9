import HeliosPermissions.EmittedModule

/-!
# The tables of the emitted module

The blocks of lines put together. A module whose interpolated texts stay in their
literals is read as the four tuples, the scopes, the roles and the role permissions,
in this order, as long as no scope and no list of roles is empty. Otherwise a type
has an empty subscript, and the module is not read at all.
-/

namespace HeliosPermissions.EmittedTables

open ContractValidation ContractEmitter PythonLiterals PythonModules Reader EmittedModule

section entries

variable {depth : ℕ} {name : List Char} {rev : List (String × PyValue)} {env : Env}

/-- The text of a scope is a literal for itself. -/
theorem literalValue_scope (scope : PermScope) : literalValue scope.text = some scope.text := by
  cases scope with
  | self => exact literalValue_of_needsNoEscape (by decide)
  | platform => exact literalValue_of_needsNoEscape (by decide)
  | project => exact literalValue_of_needsNoEscape (by decide)
  | platformProject => exact literalValue_of_needsNoEscape (by decide)

/-- A line of `PERM_SCOPE`. -/
theorem feed_scopeLine (scope : PermScope) {item value : String}
    (hitem : literalValue item = some value) :
    feed (inValue 1 name ⟨[.brace rev none], .missing⟩ env)
        ((scopeLine scope item).toList ++ ['\n']) =
      some (inValue 1 name ⟨[.brace ((value, .str scope.text) :: rev) none], .missing⟩ env) := by
  have hline : (scopeLine scope item).toList ++ ['\n'] =
      List.replicate 4 ' ' ++ '"' :: (item.toList ++ '"' :: ':' :: ' ' ::
        ('"' :: (scope.text.toList ++ '"' :: ',' :: ['\n']))) := by
    simp [scopeLine, toList_quoted, toList_indent]
  rw [hline, feed_blanks, feed_value_literal hitem (by decide), feed_punct (Or.inr rfl)]
  change feed (inValue 1 name ⟨[.brace rev (some value)], .missing⟩ env) _ = _
  rw [feed_blank, feed_value_literal (literalValue_scope scope) (by decide),
    feed_punct (Or.inl rfl)]
  rfl

/-- The lines of one bucket. -/
theorem feedLines_scope (scope : PermScope) {items values : List String} (h : ReadAs items values)
    (rev : List (String × PyValue)) :
    feedLines (inValue 1 name ⟨[.brace rev none], .missing⟩ env) (items.map (scopeLine scope)) =
      some (inValue 1 name ⟨[.brace ((values.map fun value =>
        (value, PyValue.str scope.text)).reverse ++ rev) none], .missing⟩ env) := by
  induction h generalizing rev with
  | nil => rfl
  | @cons item value items values hitem _ ih =>
    rw [List.map_cons, feedLines_cons, feed_scopeLine scope hitem, Option.bind_some, ih]
    simp

/-- The lines of all buckets. -/
theorem feedLines_scopeLines {t : Texts} {values : PermScope → List String}
    (h : ∀ scope, ReadAs (t.bucket scope) (values scope)) :
    feedLines (inValue 1 name ⟨[.brace [] none], .missing⟩ env) (scopeLines t) =
      some (inValue 1 name ⟨[.brace (scopeEntries values).reverse none], .missing⟩ env) := by
  have hscopes : ∀ (scopes : List PermScope) (rev : List (String × PyValue)),
      feedLines (inValue 1 name ⟨[.brace rev none], .missing⟩ env)
        (scopes.flatMap fun scope => (t.bucket scope).map (scopeLine scope)) =
      some (inValue 1 name ⟨[.brace ((scopes.flatMap fun scope => (values scope).map fun value =>
        (value, PyValue.str scope.text)).reverse ++ rev) none], .missing⟩ env) := by
    intro scopes
    induction scopes with
    | nil => exact fun _ => rfl
    | cons scope scopes ih =>
      intro rev
      rw [List.flatMap_cons, feedLines_append, feedLines_scope scope (h scope), Option.bind_some,
        ih]
      simp
  have hall := hscopes PermScope.all []
  rw [List.append_nil] at hall
  exact hall

/-- The lines of a role. -/
theorem feedLines_roleEntry {role value : String × List String} (h : GrantReadAs role value)
    (rev : List (String × PyValue)) :
    feedLines (inValue 1 name ⟨[.brace rev none], .missing⟩ env) (roleEntry role) =
      some (inValue 1 name
        ⟨[.brace ((value.1, PyValue.strings value.2) :: rev) none], .missing⟩ env) := by
  obtain ⟨hrole, hperms⟩ := h
  have hhead : ("    " ++ quoted role.1 ++ ": (").toList ++ ['\n'] =
      List.replicate 4 ' ' ++ '"' :: (role.1.toList ++ '"' :: ':' :: [' ', '(', '\n']) := by
    simp [toList_quoted, toList_indent]
  have hitems : ∃ comma, (inValue 2 name
      ⟨[.paren [] false, .brace rev (some value.1)], .missing⟩ env).feedLines
        (role.2.map (itemLine "        ")) =
      some (inValue 2 name ⟨[.paren ((value.2.map .str).reverse ++ []) comma,
        .brace rev (some value.1)], .missing⟩ env) :=
    feedLines_paren toList_deepIndent hperms [] false
  obtain ⟨comma, hitems⟩ := hitems
  have hclose : ∀ items, (inValue 2 name
      ⟨[.paren items comma, .brace rev (some value.1)], .missing⟩ env).feedLines ["    ),"] =
      some (inValue 1 name
        ⟨[.brace ((value.1, .tuple items.reverse) :: rev) none], .missing⟩ env) :=
    fun items => feedLines_spelled rfl rfl rfl
  unfold roleEntry
  rw [List.append_assoc, List.singleton_append, feedLines_cons, hhead, feed_blanks,
    feed_value_literal hrole (by decide), feed_punct (Or.inr rfl)]
  change (some (inValue 2 name
    ⟨[.paren [] false, .brace rev (some value.1)], .missing⟩ env)).bind _ = _
  rw [Option.bind_some, feedLines_append, hitems, Option.bind_some, hclose]
  simp [PyValue.strings]

/-- The lines of all roles. -/
theorem feedLines_roleEntries {grants values : List (String × List String)}
    (h : List.Forall₂ GrantReadAs grants values) (rev : List (String × PyValue)) :
    feedLines (inValue 1 name ⟨[.brace rev none], .missing⟩ env) (grants.flatMap roleEntry) =
      some (inValue 1 name
        ⟨[.brace ((grantEntries values).reverse ++ rev) none], .missing⟩ env) := by
  induction h generalizing rev with
  | nil => rfl
  | @cons role value grants values hrole _ ih =>
    rw [List.flatMap_cons, feedLines_append, feedLines_roleEntry hrole, Option.bind_some, ih]
    simp [grantEntries]

end entries

section fixed

variable {env : Env}

set_option maxRecDepth 4000 in
/-- The import lines bind nothing. -/
theorem feedLines_importLines : start.feedLines importLines = some (ready []) := by
  unfold importLines
  repeat refine feedLines_spelled rfl rfl ?_
  rfl

set_option maxRecDepth 4000 in
/-- Comments leave the reader as it is. -/
theorem feedLines_vocabularyComments :
    (ready env).feedLines vocabularyComments = some (ready env) := by
  unfold vocabularyComments
  repeat refine feedLines_spelled rfl rfl ?_
  rfl

/-- The types of the scopes are bound, last first. -/
def withTypes (env : Env) : Env :=
  ("DualPermission", .typing) :: ("ProjectPermission", .typing) ::
    ("PlatformPermission", .typing) :: ("SelfPermission", .typing) :: env

set_option maxRecDepth 4000 in
/-- The types of permissions and scopes, up to the brace of `PERM_SCOPE`. -/
theorem feedLines_scopeTypeLines : (ready (withTypes env)).feedLines scopeTypeLines =
    some (inValue 1 "PERM_SCOPE".toList ⟨[.brace [] none], .missing⟩
      (("PermScope", .typing) :: ("Permission", .typing) :: withTypes env)) := by
  unfold scopeTypeLines
  repeat refine feedLines_spelled rfl rfl ?_
  rfl

set_option maxRecDepth 4000 in
/-- The end of the scopes, up to the roles. -/
theorem feedLines_roleComments (rev : List (String × PyValue)) :
    feedLines (inValue 1 "PERM_SCOPE".toList ⟨[.brace rev none], .missing⟩ env) roleComments =
      some (ready (("PERM_SCOPE", .dict rev.reverse) :: env)) := by
  unfold roleComments
  repeat refine feedLines_spelled rfl rfl ?_
  rfl

set_option maxRecDepth 4000 in
/-- The brace of `ROLE_PERMISSIONS`. -/
theorem feedLines_roleMapHead : (ready env).feedLines roleMapHead =
    some (inValue 1 "ROLE_PERMISSIONS".toList ⟨[.brace [] none], .missing⟩ env) := by
  unfold roleMapHead
  repeat refine feedLines_spelled rfl rfl ?_
  rfl

/-- The closing brace binds `ROLE_PERMISSIONS`. -/
theorem feedLines_roleMapEnd (rev : List (String × PyValue)) :
    feedLines (inValue 1 "ROLE_PERMISSIONS".toList ⟨[.brace rev none], .missing⟩ env) roleMapEnd =
      some (ready (("ROLE_PERMISSIONS", .dict rev.reverse) :: env)) := by
  unfold roleMapEnd
  repeat refine feedLines_spelled rfl rfl ?_
  rfl

end fixed

/-- What the tables of a module hold. -/
structure Tables where
  /-- The tuple of each scope. -/
  bucket : PermScope → List String
  /-- `ROLES`. -/
  roles : List String
  /-- `ROLE_PERMISSIONS`, in the order of its rows. -/
  rolePermissions : List (String × List String)

/-- The interpolated texts are literals, with what they mean. -/
structure TextsReadAs (t : Texts) (tables : Tables) : Prop where
  /-- Each bucket is read as the tuple of its scope. -/
  bucket : ∀ scope, ReadAs (t.bucket scope) (tables.bucket scope)
  /-- The roles are read as `ROLES`. -/
  roles : ReadAs t.roles tables.roles
  /-- The rows are read as those of `ROLE_PERMISSIONS`. -/
  rolePermissions : List.Forall₂ GrantReadAs t.rolePermissions tables.rolePermissions

/-- Each scope has a perm, and there is a role. -/
def Occupied (t : Texts) : Prop := (∀ scope ∈ PermScope.all, t.bucket scope ≠ []) ∧ t.roles ≠ []

instance (t : Texts) : Decidable (Occupied t) :=
  inferInstanceAs (Decidable (_ ∧ _))

/-- The names up to the tuples. -/
def Tables.tuples (tables : Tables) : Env :=
  [("DUAL_PERMISSIONS", .strings (tables.bucket .platformProject)),
    ("PROJECT_PERMISSIONS", .strings (tables.bucket .project)),
    ("PLATFORM_PERMISSIONS", .strings (tables.bucket .platform)),
    ("SELF_PERMISSIONS", .strings (tables.bucket .self))]

/-- The names up to the scopes. -/
def Tables.scopes (tables : Tables) : Env :=
  ("PERM_SCOPE", .dict (scopeEntries tables.bucket)) :: ("PermScope", .typing) ::
    ("Permission", .typing) :: withTypes tables.tuples

/-- The names of the module, last first. -/
def Tables.env (tables : Tables) : Env :=
  ("ROLE_PERMISSIONS", .dict (grantEntries tables.rolePermissions)) :: ("Role", .typing) ::
    ("ROLES", parenthesised tables.roles) :: tables.scopes

section blocks

variable {t : Texts} {tables : Tables}

/-- Lines that are read, and the lines after them. -/
theorem feedLines_then {r m : Reader} {front rest : List String} {out : Option Reader}
    (hfront : r.feedLines front = some m) (hrest : m.feedLines rest = out) :
    r.feedLines (front ++ rest) = out := by
  rw [feedLines_append, hfront, Option.bind_some, hrest]

/-- Lines that are not read spoil all lines after them. -/
theorem feedLines_none {r : Reader} {front : List String} (hfront : r.feedLines front = none)
    (rest : List String) : r.feedLines (front ++ rest) = none := by
  rw [feedLines_append, hfront, Option.bind_none]

/-- The lines of the tuples. -/
def tupleLines (t : Texts) : List String :=
  importLines ++ (emitTuple "SELF_PERMISSIONS" (t.bucket .self) ++
    (emitTuple "PLATFORM_PERMISSIONS" (t.bucket .platform) ++
    (emitTuple "PROJECT_PERMISSIONS" (t.bucket .project) ++
    (emitTuple "DUAL_PERMISSIONS" (t.bucket .platformProject) ++ vocabularyComments))))

/-- The four tuples. -/
theorem feedLines_tupleLines (h : TextsReadAs t tables) :
    start.feedLines (tupleLines t) = some (ready tables.tuples) := by
  unfold tupleLines
  refine feedLines_then feedLines_importLines ?_
  refine feedLines_then (feedLines_emitTuple rfl (h.bucket .self)) ?_
  refine feedLines_then (feedLines_emitTuple rfl (h.bucket .platform)) ?_
  refine feedLines_then (feedLines_emitTuple rfl (h.bucket .project)) ?_
  refine feedLines_then (feedLines_emitTuple rfl (h.bucket .platformProject)) ?_
  exact feedLines_vocabularyComments

/-- The lines of the types. -/
def typeLines (t : Texts) : List String :=
  literalBlock "SelfPermission" (t.bucket .self) ++
    (literalBlock "PlatformPermission" (t.bucket .platform) ++
    (literalBlock "ProjectPermission" (t.bucket .project) ++
    literalBlock "DualPermission" (t.bucket .platformProject)))

/-- A type of a scope that has perms. -/
theorem feedLines_type {env : Env} {name : String} {items values : List String}
    (hhead : (ready env).feed (typeHead name).toList =
      some (inValue 1 name.toList ⟨[.bracket false false], .missing⟩ env))
    (hname : jsLength (typeHead name ++ quotedList [] ++ "]") ≤ 100) (h : ReadAs items values)
    (hne : items ≠ []) :
    (ready env).feedLines (literalBlock name items) = some (ready ((name, .typing) :: env)) := by
  rw [feedLines_literalBlock hhead h hname, if_neg hne]

/-- The type of a scope without perms is not read. -/
theorem feedLines_emptyType {env : Env} {name : String}
    (hhead : (ready env).feed (typeHead name).toList =
      some (inValue 1 name.toList ⟨[.bracket false false], .missing⟩ env))
    (hname : jsLength (typeHead name ++ quotedList [] ++ "]") ≤ 100) :
    (ready env).feedLines (literalBlock name []) = none := by
  rw [feedLines_literalBlock hhead List.Forall₂.nil hname, if_pos rfl]

/-- The types of the four tuples, when none is empty. -/
theorem feedLines_typeLines (h : TextsReadAs t tables)
    (hne : ∀ scope ∈ PermScope.all, t.bucket scope ≠ []) (env : Env) :
    (ready env).feedLines (typeLines t) =
      some (ready (withTypes env)) := by
  unfold typeLines
  refine feedLines_then (feedLines_type rfl (by decide) (h.bucket .self)
    (hne .self (by decide))) ?_
  refine feedLines_then (feedLines_type rfl (by decide) (h.bucket .platform)
    (hne .platform (by decide))) ?_
  refine feedLines_then (feedLines_type rfl (by decide) (h.bucket .project)
    (hne .project (by decide))) ?_
  exact feedLines_type rfl (by decide) (h.bucket .platformProject)
    (hne .platformProject (by decide))

/-- With an empty tuple its type is a syntax error. -/
theorem feedLines_typeLines_empty (h : TextsReadAs t tables)
    (hempty : ¬∀ scope ∈ PermScope.all, t.bucket scope ≠ []) (env : Env) :
    (ready env).feedLines (typeLines t) = none := by
  unfold typeLines
  by_cases hself : t.bucket .self = []
  · rw [hself]
    exact feedLines_none (feedLines_emptyType rfl (by decide)) _
  refine feedLines_then (feedLines_type rfl (by decide) (h.bucket .self) hself) ?_
  by_cases hplatform : t.bucket .platform = []
  · rw [hplatform]
    exact feedLines_none (feedLines_emptyType rfl (by decide)) _
  refine feedLines_then (feedLines_type rfl (by decide) (h.bucket .platform) hplatform) ?_
  by_cases hproject : t.bucket .project = []
  · rw [hproject]
    exact feedLines_none (feedLines_emptyType rfl (by decide)) _
  refine feedLines_then (feedLines_type rfl (by decide) (h.bucket .project) hproject) ?_
  by_cases hdual : t.bucket .platformProject = []
  · rw [hdual]
    exact feedLines_emptyType rfl (by decide)
  · refine absurd ?_ hempty
    intro scope _
    cases scope with
    | self => exact hself
    | platform => exact hplatform
    | project => exact hproject
    | platformProject => exact hdual

/-- The lines of the scopes. -/
def permScopeLines (t : Texts) : List String := scopeTypeLines ++ (scopeLines t ++ roleComments)

/-- The rows of `PERM_SCOPE`. -/
theorem feedLines_permScopeLines (h : TextsReadAs t tables) (env : Env) :
    (ready (withTypes env)).feedLines (permScopeLines t) =
      some (ready (("PERM_SCOPE", .dict (scopeEntries tables.bucket)) :: ("PermScope", .typing) ::
        ("Permission", .typing) :: withTypes env)) := by
  unfold permScopeLines
  refine feedLines_then feedLines_scopeTypeLines ?_
  refine feedLines_then (feedLines_scopeLines h.bucket) ?_
  rw [feedLines_roleComments, List.reverse_reverse]

/-- The lines of the roles. -/
def roleLines (t : Texts) : List String :=
  ["ROLES: Final[tuple[str, ...]] = (" ++ quotedList t.roles ++ ")",
    "Role = Literal[" ++ quotedList t.roles ++ "]"]

/-- `ROLES` and its type, a syntax error when there are none. -/
theorem feedLines_roleLines (h : TextsReadAs t tables) (env : Env) :
    (ready env).feedLines (roleLines t) =
      if t.roles = [] then none
      else some (ready (("Role", .typing) :: ("ROLES", parenthesised tables.roles) :: env)) := by
  have htuple : (ready env).feed
      (("ROLES: Final[tuple[str, ...]] = (" ++ quotedList t.roles ++ ")").toList ++ ['\n']) =
      some (ready (("ROLES", parenthesised tables.roles) :: env)) :=
    @feed_rolesLine env "ROLES" _ _ h.roles rfl
  have hline : ("Role = Literal[" ++ quotedList t.roles ++ "]").toList ++ ['\n'] =
      (typeHead "Role").toList ++ ((quotedList t.roles).toList ++ [']', '\n']) := by
    simp [typeHead]
  unfold roleLines
  rw [feedLines_cons, htuple, Option.bind_some, feedLines_cons, hline, feed_append]
  change (feed (inValue 1 "Role".toList ⟨[.bracket false false], .missing⟩ _) _).bind _ = _
  rw [feed_typeList h.roles]
  split_ifs
  · rfl
  · rfl

/-- The lines of the role permissions. -/
def grantLines (t : Texts) : List String :=
  roleMapHead ++ (t.rolePermissions.flatMap roleEntry ++ roleMapEnd)

/-- The rows of `ROLE_PERMISSIONS`. -/
theorem feedLines_grantLines (h : TextsReadAs t tables) (env : Env) :
    (ready env).feedLines (grantLines t) =
      some (ready (("ROLE_PERMISSIONS", .dict (grantEntries tables.rolePermissions)) :: env)) := by
  unfold grantLines
  refine feedLines_then feedLines_roleMapHead ?_
  refine feedLines_then (feedLines_roleEntries h.rolePermissions []) ?_
  rw [feedLines_roleMapEnd, List.append_nil, List.reverse_reverse]

/-- The lines between the docstring and the functions. -/
def tableLines (t : Texts) : List String :=
  tupleLines t ++ (typeLines t ++ (permScopeLines t ++ (roleLines t ++ grantLines t)))

/-- The lines after the docstring. -/
def bodyLines (t : Texts) : List String := tableLines t ++ functionLines

/-- The lines are the docstring and what follows it. -/
theorem lines_eq (date : Date) (t : Texts) : lines date t = docstring date t ++ bodyLines t := by
  unfold lines bodyLines tableLines tupleLines typeLines permScopeLines roleLines grantLines
  simp only [List.append_assoc]

/-- The lines between are read, or a type in them is empty. -/
theorem feedLines_tableLines (h : TextsReadAs t tables) :
    start.feedLines (tableLines t) =
      if Occupied t then some (ready tables.env) else none := by
  unfold tableLines
  refine feedLines_then (feedLines_tupleLines h) ?_
  by_cases hscopes : ∀ scope ∈ PermScope.all, t.bucket scope ≠ []
  · refine feedLines_then (feedLines_typeLines h hscopes _) ?_
    refine feedLines_then (feedLines_permScopeLines h _) ?_
    by_cases hroles : t.roles = []
    · rw [if_neg fun hall : Occupied t => hall.2 hroles]
      refine feedLines_none ?_ _
      rw [feedLines_roleLines h, if_pos hroles]
    · rw [if_pos ⟨hscopes, hroles⟩]
      refine feedLines_then ((feedLines_roleLines h _).trans (if_neg hroles)) ?_
      exact feedLines_grantLines h _
  · rw [if_neg fun hall : Occupied t => hscopes hall.1]
    exact feedLines_none (feedLines_typeLines_empty h hscopes _) _

end blocks

end HeliosPermissions.EmittedTables
