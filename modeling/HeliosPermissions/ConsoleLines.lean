import HeliosPermissions.JsonText
import HeliosPermissions.LogAccounts

/-!
# The console logger

`_ConsoleLogger` prints each record as one JSON object. What the ids of a call contain
cannot break a line, because everything outside of printable ASCII is escaped, and the
fields of the SDK's records never shadow the level or the message. So the text on
standard error splits into the records again.
-/

namespace HeliosPermissions.ConsoleLines

open JsonValues JsonText CacheStore ClientWorld HeliosResolution PartialRuns PermissionCaches
open RevocationEffects CoherentSessions DiagnosticLogs LogAccounts

/-- The characters from the blank to the tilde. -/
def Printable (c : Char) : Prop := 32 ≤ c.toNat ∧ c.toNat ≤ 126

instance (c : Char) : Decidable (Printable c) :=
  inferInstanceAs (Decidable (32 ≤ c.toNat ∧ c.toNat ≤ 126))

/-- Digits are printable. -/
theorem printable_of_isDigit {c : Char} (h : c.isDigit = true) : Printable c := by
  have hrange := Char.isDigit_iff_toNat.mp h
  have hzero : '0'.toNat = 48 := rfl
  have hnine : '9'.toNat = 57 := rfl
  unfold Printable
  omega

/-- Hexadecimal digits are printable. -/
theorem printable_of_mem_hex4 {n : ℕ} {c : Char} (h : c ∈ hex4 n) : Printable c := by
  have hdigit : ∀ m < 16, Printable (HexDigits.lower m) := by decide
  unfold hex4 at h
  generalize 4 = width at h
  induction width with
  | zero => cases h
  | succ width ih =>
    rcases List.mem_cons.mp h with rfl | hrest
    · exact hdigit _ (Nat.mod_lt _ (by decide))
    · exact ih hrest

/-- An escape is printable. -/
theorem printable_of_mem_escapeChar {c d : Char} (h : d ∈ escapeChar c) : Printable d := by
  have hslash : Printable '\\' := by decide
  have hu : Printable 'u' := by decide
  have hpair : ∀ e : Char, Printable e → ∀ d ∈ ['\\', e], Printable d := by
    intro e he d hd
    rcases List.mem_cons.mp hd with rfl | hd
    · exact hslash
    · rwa [List.mem_singleton.mp hd]
  unfold escapeChar at h
  split_ifs at h with hquote hbackslash hprintable hn hr ht hf hb hbasic
  · exact hpair '"' (by decide) d h
  · exact hpair '\\' (by decide) d h
  · rwa [List.mem_singleton.mp h]
  · exact hpair 'n' (by decide) d h
  · exact hpair 'r' (by decide) d h
  · exact hpair 't' (by decide) d h
  · exact hpair 'f' (by decide) d h
  · exact hpair 'b' (by decide) d h
  · simp only [List.mem_cons] at h
    rcases h with rfl | rfl | h
    · exact hslash
    · exact hu
    · exact printable_of_mem_hex4 h
  · simp only [List.mem_cons, List.mem_append] at h
    rcases h with rfl | rfl | h | rfl | rfl | h
    · exact hslash
    · exact hu
    · exact printable_of_mem_hex4 h
    · exact hslash
    · exact hu
    · exact printable_of_mem_hex4 h

/-- A printable text. -/
def AllPrintable (text : List Char) : Prop := ∀ c ∈ text, Printable c

theorem allPrintable_of_all {text : List Char} (h : text.all (Printable ·) = true) :
    AllPrintable text :=
  fun c hc => of_decide_eq_true (List.all_eq_true.mp h c hc)

theorem allPrintable_nil : AllPrintable [] := by
  intro c hc
  cases hc

theorem AllPrintable.cons {c : Char} {text : List Char} (hc : Printable c)
    (h : AllPrintable text) : AllPrintable (c :: text) := by
  intro d hd
  rcases List.mem_cons.mp hd with rfl | hd
  · exact hc
  · exact h d hd

theorem AllPrintable.append {text text' : List Char} (h : AllPrintable text)
    (h' : AllPrintable text') : AllPrintable (text ++ text') := by
  intro d hd
  rcases List.mem_append.mp hd with hd | hd
  · exact h d hd
  · exact h' d hd

theorem allPrintable_digits (n : ℕ) : AllPrintable (Nat.toDigits 10 n) :=
  fun c hc => printable_of_isDigit (isDigit_of_mem_toDigits c hc)

/-- A string is rendered in printable characters. -/
theorem allPrintable_string (s : String) : AllPrintable (renderString s) := by
  have hescaped : AllPrintable (s.toList.flatMap escapeChar) := by
    intro c hc
    obtain ⟨d, -, hcd⟩ := List.mem_flatMap.mp hc
    exact printable_of_mem_escapeChar hcd
  exact (hescaped.append (allPrintable_nil.cons (by decide))).cons (by decide)

/-- A number is rendered in printable characters. -/
theorem allPrintable_number (n : JsonNumber) : AllPrintable (renderNumber n) := by
  have hsign : AllPrintable (if n.negative then ['-'] else []) := by
    split_ifs
    · exact allPrintable_nil.cons (by decide)
    · exact allPrintable_nil
  have hfraction : AllPrintable (renderFraction n.fraction) := by
    unfold renderFraction
    split_ifs
    · exact allPrintable_nil
    · have hdigit : ∀ d : Fin 10, Printable (Nat.digitChar d.val) := by decide
      refine .cons (by decide) fun c hc => ?_
      obtain ⟨d, -, rfl⟩ := List.mem_map.mp hc
      exact hdigit d
  have hexponent : AllPrintable (renderExponent n.exponent) := by
    unfold renderExponent
    split
    · exact allPrintable_nil
    · exact (allPrintable_digits _).cons (by decide)
    · exact ((allPrintable_digits _).cons (by decide)).cons (by decide)
  exact hsign.append ((allPrintable_digits _).append (hfraction.append hexponent))

mutual

/-- JSON text is printable. -/
theorem allPrintable_render : ∀ v : Json, AllPrintable (render v)
  | .null => allPrintable_of_all rfl
  | .bool true => allPrintable_of_all rfl
  | .bool false => allPrintable_of_all rfl
  | .number n => allPrintable_number n
  | .str s => allPrintable_string s
  | .arr items => by
    have hclosed : AllPrintable (renderItems items ++ [']']) :=
      (allPrintable_renderItems items).append (allPrintable_nil.cons (by decide))
    exact hclosed.cons (by decide)
  | .obj fields => by
    have hclosed : AllPrintable (renderFields fields ++ ['}']) :=
      (allPrintable_renderFields fields).append (allPrintable_nil.cons (by decide))
    exact hclosed.cons (by decide)

/-- The items of an array are rendered in printable characters. -/
theorem allPrintable_renderItems : ∀ items : List Json, AllPrintable (renderItems items)
  | [] => allPrintable_nil
  | [v] => allPrintable_render v
  | v :: w :: rest => by
    have hrest := allPrintable_renderItems (w :: rest)
    exact (allPrintable_render v).append ((hrest.cons (by decide)).cons (by decide))

/-- The members of an object are rendered in printable characters. -/
theorem allPrintable_renderFields : ∀ fields : List (String × Json),
    AllPrintable (renderFields fields)
  | [] => allPrintable_nil
  | [(k, v)] => by
    have hvalue := allPrintable_render v
    exact (allPrintable_string k).append ((hvalue.cons (by decide)).cons (by decide))
  | (k, v) :: f :: rest => by
    have hvalue := allPrintable_render v
    have hrest := allPrintable_renderFields (f :: rest)
    have hmore : AllPrintable (render v ++ ',' :: ' ' :: renderFields (f :: rest)) :=
      hvalue.append ((hrest.cons (by decide)).cons (by decide))
    exact (allPrintable_string k).append ((hmore.cons (by decide)).cons (by decide))

end

/-- The level as `_emit` is given it. -/
def levelText : Level → String
  | .debug => "debug"
  | .info => "info"
  | .warn => "warn"
  | .error => "error"

/-- `payload` of `_emit`: a dictionary is merged into it, anything else is one field of it. -/
def payload (level : Level) (obj : Json) (msg : Option String) : OrderedDict String Json :=
  let start : OrderedDict String Json := OrderedDict.empty.set "level" (.str (levelText level))
  let named := match obj with
    | .obj fields => fields.foldl (fun d f => d.set f.1 f.2) start
    | other => start.set "obj" other
  match msg with
  | none => named
  | some text => named.set "msg" (.str text)

/-- `_ConsoleLogger._emit`: what it prints. -/
def emit (level : Level) (obj : Json) (msg : Option String) : List Char :=
  render (.obj (payload level obj msg).entries) ++ ['\n']

/-- What the console shows of a log. -/
def console (log : List LogRecord) : List Char :=
  log.flatMap fun r => emit r.level (.obj r.obj) (some r.msg)

/-- The level that a text names. -/
def readLevel (text : String) : Option Level :=
  if text = "debug" then some .debug
  else if text = "info" then some .info
  else if text = "warn" then some .warn
  else if text = "error" then some .error
  else none

/-- A line read as a record: the level first, the message last. -/
def readRecord (line : List Char) : Option LogRecord :=
  match parse (String.ofList line) with
  | some (.obj (("level", .str level) :: fields)) =>
    match fields.getLast?, readLevel level with
    | some ("msg", .str msg), some level => some ⟨level, fields.dropLast, msg⟩
    | _, _ => none
  | _ => none

/-- The records of a text, a line each. -/
def readLog (text : List Char) : Option (List LogRecord) :=
  (text.splitOn '\n').dropLast.mapM readRecord

/-- A dictionary that shadows neither the level nor the message. -/
structure Unshadowed (r : LogRecord) : Prop where
  /-- No key comes twice. -/
  nodup : (r.obj.map Prod.fst).Nodup
  /-- `level` is no key. -/
  level : "level" ∉ r.obj.map Prod.fst
  /-- `msg` is no key. -/
  msg : "msg" ∉ r.obj.map Prod.fst

section lines

variable {level : Level} {obj : Json} {msg : Option String} {r : LogRecord}

/-- One line for each record, whatever is in it. -/
theorem emit_one_line (level : Level) (obj : Json) (msg : Option String) :
    ∃ line, emit level obj msg = line ++ ['\n'] ∧ AllPrintable line :=
  ⟨_, rfl, allPrintable_render _⟩

/-- A printable line holds no newline. -/
theorem newline_not_mem {line : List Char} (h : AllPrintable line) : '\n' ∉ line := by
  intro hmem
  exact absurd (h '\n' hmem) (by decide)

/-- Fields with keys of their own are merged as they are. -/
theorem foldl_set_entries {fields : List (String × Json)} {d : OrderedDict String Json}
    (hnodup : (fields.map Prod.fst).Nodup) (hnew : ∀ k ∈ fields.map Prod.fst, k ∉ d.keys) :
    (fields.foldl (fun d f => d.set f.1 f.2) d).entries = d.entries ++ fields := by
  induction fields generalizing d with
  | nil => exact (List.append_nil _).symm
  | cons f rest ih =>
    have hf : f.1 ∉ d.entries.map Prod.fst := hnew f.1 (List.mem_cons_self)
    have hset : (d.set f.1 f.2).entries = d.entries ++ [f] := OrderedDict.put_of_not_mem hf
    obtain ⟨hfresh, hrest⟩ := List.nodup_cons.mp hnodup
    rw [List.foldl_cons, ih hrest, hset, List.append_assoc, List.singleton_append]
    intro k hk hkeys
    have hkeys' : k ∈ (d.entries ++ [f]).map Prod.fst := by rwa [← hset]
    rw [List.map_append, List.mem_append] at hkeys'
    rcases hkeys' with hold | hsame
    · exact hnew k (List.mem_cons_of_mem _ hk) hold
    · obtain rfl : k = f.1 := List.mem_singleton.mp hsame
      exact hfresh hk

/-- A record in the order in which it is printed. -/
theorem payload_entries (h : Unshadowed r) : (payload r.level (.obj r.obj) (some r.msg)).entries =
    ("level", .str (levelText r.level)) :: r.obj ++ [("msg", .str r.msg)] := by
  let start : OrderedDict String Json := OrderedDict.empty.set "level" (.str (levelText r.level))
  have hmerged : (r.obj.foldl (fun d f => d.set f.1 f.2) start).entries =
      ("level", .str (levelText r.level)) :: r.obj := by
    refine foldl_set_entries h.nodup fun k hk hlevel => ?_
    obtain rfl : k = "level" := List.mem_singleton.mp hlevel
    exact h.level hk
  have hmsg : "msg" ∉ (r.obj.foldl (fun d f => d.set f.1 f.2) start).entries.map Prod.fst := by
    rw [hmerged, List.map_cons, List.mem_cons]
    have hname : "msg" ≠ "level" := by decide
    rintro (heq | hmem)
    · exact hname heq
    · exact h.msg hmem
  have hput : (payload r.level (.obj r.obj) (some r.msg)).entries =
      (r.obj.foldl (fun d f => d.set f.1 f.2) start).entries ++ [("msg", .str r.msg)] :=
    OrderedDict.put_of_not_mem hmsg
  rw [hput, hmerged]

@[simp] theorem readLevel_levelText (level : Level) : readLevel (levelText level) = some level := by
  cases level <;> rfl

/-- A printed record is read back. -/
theorem readRecord_emit (h : Unshadowed r) :
    readRecord (render (.obj (payload r.level (.obj r.obj) (some r.msg)).entries)) = some r := by
  have hlast : (r.obj ++ [("msg", Json.str r.msg)]).getLast? = some ("msg", .str r.msg) := by simp
  unfold readRecord
  rw [parse_render, payload_entries h]
  simp only [List.cons_append, hlast, readLevel_levelText, List.dropLast_concat]

/-- So is a whole log of such records. -/
theorem readLog_console {log : List LogRecord} (h : ∀ r ∈ log, Unshadowed r) :
    readLog (console log) = some log := by
  have hlines : (console log).splitOn '\n' = (log.map fun r =>
      render (.obj (payload r.level (.obj r.obj) (some r.msg)).entries)) ++ [[]] := by
    clear h
    induction log with
    | nil => rfl
    | cons r rest ih =>
      have hline := newline_not_mem (allPrintable_render
        (.obj (payload r.level (.obj r.obj) (some r.msg)).entries))
      have hconsole : console (r :: rest) =
          render (.obj (payload r.level (.obj r.obj) (some r.msg)).entries) ++
            '\n' :: console rest := by
        rw [console, List.flatMap_cons, emit, List.append_assoc]
        rfl
      rw [hconsole, List.splitOn_append_cons_self_of_not_mem hline, ih]
      rfl
  rw [readLog, hlines, List.dropLast_concat, List.mapM_map]
  clear hlines
  induction log with
  | nil => rfl
  | cons r rest ih =>
    have hr := readRecord_emit (h r List.mem_cons_self)
    have hrest := ih fun r' hr' => h r' (List.mem_cons_of_mem _ hr')
    rw [List.mapM_cons, Function.comp_apply, hr, hrest]
    rfl

end lines

section records

variable {Raw : Type} {texts : Texts Raw} {backend : Backend Raw} {r : LogRecord}

/-- The keys decide. -/
theorem unshadowed_of_keys (keys : List String) (h : r.obj.map Prod.fst = keys)
    (hkeys : keys.Nodup ∧ "level" ∉ keys ∧ "msg" ∉ keys) : Unshadowed r := by
  rw [← h] at hkeys
  exact ⟨hkeys.1, hkeys.2.1, hkeys.2.2⟩

/-- The records of `get` are unshadowed. -/
theorem get_unshadowed {store : Store Raw} {u t : String} {fate : CommandFate}
    (hr : r ∈ (DiagnosticLogs.get texts backend store u t fate).2) : Unshadowed r := by
  unfold DiagnosticLogs.get at hr
  split at hr
  · cases hr
  · split at hr
    · cases hr
    · cases List.mem_singleton.mp hr
      exact unshadowed_of_keys ["user_id", "tenant_id", "raw"] rfl (by decide)
    · cases List.mem_singleton.mp hr
      exact unshadowed_of_keys ["err", "user_id", "tenant_id", "raw"] rfl (by decide)
    · cases hr
  · cases List.mem_singleton.mp hr
    exact unshadowed_of_keys ["err", "user_id", "tenant_id"] rfl (by decide)

/-- The records of `set` and of `write_through` are unshadowed. -/
theorem setOrWarn_unshadowed {now : ℕ} {origin : Origin} {nx : Bool} {message : String}
    {store : Store Raw} {u t : String} {perms : List Json} {fate : CommandFate}
    (hr : r ∈ (setOrWarn texts backend now origin nx message store u t perms fate).2) :
    Unshadowed r := by
  unfold setOrWarn at hr
  split at hr
  · cases List.mem_singleton.mp hr
    exact unshadowed_of_keys ["err", "user_id", "tenant_id"] rfl (by decide)
  · cases hr

/-- The records of the cache shadow nothing. -/
theorem perform_unshadowed {server : Server Raw} {call : CacheCall}
    {ended : CallResult × Store Raw} {records : List LogRecord}
    (hp : DiagnosticLogs.perform texts backend server call = some (ended, records))
    (hr : r ∈ records) : Unshadowed r := by
  cases call with
  | get u t fate =>
    obtain ⟨-, rfl⟩ := Prod.mk.inj (Option.some.inj hp)
    exact get_unshadowed hr
  | set u t perms fate =>
    obtain ⟨-, rfl⟩ := Prod.mk.inj (Option.some.inj hp)
    exact setOrWarn_unshadowed hr
  | writeThrough u t perms fate =>
    obtain ⟨-, rfl⟩ := Prod.mk.inj (Option.some.inj hp)
    exact setOrWarn_unshadowed hr
  | invalidate u t fate =>
    obtain ⟨-, rfl⟩ := Prod.mk.inj (Option.some.inj hp)
    unfold DiagnosticLogs.invalidate at hr
    dsimp only at hr
    split at hr
    · cases List.mem_singleton.mp hr
      exact unshadowed_of_keys ["user_id", "tenant_id", "deleted"] rfl (by decide)
    · cases List.mem_singleton.mp hr
      exact unshadowed_of_keys ["err", "user_id", "tenant_id"] rfl (by decide)
  | invalidateUser u rounds =>
    obtain ⟨⟨count, store⟩, -, heq⟩ := Option.map_eq_some_iff.mp hp
    obtain ⟨-, rfl⟩ := Prod.mk.inj heq
    cases count with
    | ok count =>
      cases List.mem_singleton.mp hr
      exact unshadowed_of_keys ["user_id", "deleted"] rfl (by decide)
    | error err =>
      cases List.mem_singleton.mp hr
      exact unshadowed_of_keys ["err", "user_id", "tenant_id"] rfl (by decide)
  | invalidateTenant t rounds =>
    obtain ⟨⟨count, store⟩, -, heq⟩ := Option.map_eq_some_iff.mp hp
    obtain ⟨-, rfl⟩ := Prod.mk.inj heq
    cases count with
    | ok count =>
      cases List.mem_singleton.mp hr
      exact unshadowed_of_keys ["tenant_id", "deleted"] rfl (by decide)
    | error err =>
      cases List.mem_singleton.mp hr
      exact unshadowed_of_keys ["err", "tenant_id"] rfl (by decide)

/-- Nor do those of a read. -/
theorem resolveAlone_unshadowed {staleOnError : Bool} {now : ℕ} {store : Store Raw}
    {u t : String} {env : SequentialReads.ReadEnv}
    (hr : r ∈ (DiagnosticLogs.resolveAlone texts backend staleOnError now store u t env).2) :
    Unshadowed r := by
  unfold DiagnosticLogs.resolveAlone at hr
  dsimp only at hr
  split at hr
  · exact get_unshadowed hr
  · exact get_unshadowed hr
  · rcases List.mem_append.mp hr with hcache | hfetch
    · exact get_unshadowed hcache
    · unfold DiagnosticLogs.fetchAndPopulate at hfetch
      split at hfetch
      · split_ifs at hfetch
        · cases List.mem_singleton.mp hfetch
          exact unshadowed_of_keys ["err", "user_id", "tenant_id"] rfl (by decide)
        · cases hfetch
      · cases hfetch
      · exact setOrWarn_unshadowed hfetch

/-- Nor does that of a diagnosis. -/
theorem explain_unshadowed {u t perm : String} {outcome : HttpOutcome}
    (hr : r ∈ (DiagnosticLogs.explain u t perm outcome).2) : Unshadowed r := by
  unfold DiagnosticLogs.explain at hr
  split at hr
  · cases List.mem_singleton.mp hr
    exact unshadowed_of_keys ["err", "user_id", "tenant_id", "perm"] rfl (by decide)
  · cases hr
  · cases hr

variable {s s' : LoggedSite Raw} {es : List (LoggedEvent Raw)}

/-- Every event adds unshadowed records. -/
theorem unshadowed_step {e : LoggedEvent Raw} (h : ∀ r ∈ s.log, Unshadowed r)
    (hs : loggedStep backend s e = some s') : ∀ r ∈ s'.log, Unshadowed r := by
  obtain ⟨-, records, hlogged, hlog⟩ := loggedStep_cases hs
  intro r hr
  rw [hlog, List.mem_append] at hr
  rcases hr with hold | hnew
  · exact h r hold
  · obtain ⟨event, texts⟩ := e
    cases event with
    | read staleOnError u t env =>
      obtain ⟨-, rfl⟩ := Prod.mk.inj (Option.some.inj hlogged)
      exact resolveAlone_unshadowed hnew
    | publish helios call =>
      obtain ⟨⟨ended, written⟩, hp, heq⟩ := Option.map_eq_some_iff.mp hlogged
      obtain ⟨-, rfl⟩ := Prod.mk.inj heq
      exact perform_unshadowed hp hnew
    | drop keys =>
      obtain ⟨-, rfl⟩ := Prod.mk.inj (Option.some.inj hlogged)
      cases hnew

/-- The console log of every session reads back: whatever ids, exception texts and raw values
are in it, it has one line for each record, and the lines give the records. -/
theorem console_reads_back {site : Site Raw}
    (hrun : run (loggedStep backend) ⟨site, []⟩ es = some s') :
    (console s'.log).count '\n' = s'.log.length ∧ readLog (console s'.log) = some s'.log := by
  have hrecords : ∀ r ∈ s'.log, Unshadowed r := by
    refine run_preserves (fun s : LoggedSite Raw => ∀ r ∈ s.log, Unshadowed r)
      (fun _ _ _ h hs => unshadowed_step h hs) hrun ?_
    intro r hr
    cases hr
  refine ⟨?_, readLog_console hrecords⟩
  have hline : ∀ r : LogRecord, (emit r.level (.obj r.obj) (some r.msg)).count '\n' = 1 := by
    intro r
    obtain ⟨line, hemit, hprintable⟩ := emit_one_line r.level (.obj r.obj) (some r.msg)
    rw [hemit, List.count_append, List.count_eq_zero_of_not_mem (newline_not_mem hprintable)]
    rfl
  rw [console, List.count_flatMap]
  clear hrecords hrun
  induction s'.log with
  | nil => rfl
  | cons r rest ih =>
    rw [List.map_cons, List.sum_cons, ih, Function.comp_apply, hline, List.length_cons]
    omega

end records

/-- A denied read and two invalidations of a user id with a newline. -/
def newlineEvents : List Event :=
  [.read true "user\n-1" "tenant-1" ⟨.fails false, .raised, .executes⟩,
    .publish (heliosWith []) (.invalidate "user\n-1" "tenant-1" (.fails false)),
    .publish (heliosWith []) (.invalidate "user\n-1" "tenant-1" .executes)]

/-- Each of the four records stays on its line. -/
theorem console_reads_back_newline : ∃ s : LoggedSite ByteArray,
    run (loggedStep (redisBackend JsonText.utf8Json.toCodec 0))
        ⟨⟨Server.start .empty, heliosWith []⟩, []⟩ (withTexts newlineEvents) = some s ∧
      s.log.map LogRecord.level = [.warn, .error, .error, .info] ∧
      (console s.log).count '\n' = s.log.length ∧ readLog (console s.log) = some s.log := by
  have hrun : run (loggedStep (redisBackend JsonText.utf8Json.toCodec 0))
      ⟨⟨Server.start .empty, heliosWith []⟩, []⟩ (withTexts newlineEvents) = some _ := rfl
  exact ⟨_, hrun, rfl, console_reads_back hrun⟩

end HeliosPermissions.ConsoleLines
