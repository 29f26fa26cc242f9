import Mathlib.Data.List.Basic
import Mathlib.Data.String.Basic

/-!
# Redis glob patterns

The MATCH option of a Redis scan compares bytes. A star stands for any bytes,
a question mark for one byte, brackets for one byte of a class, and a
backslash takes the next byte literally. A pattern is cut into tokens first,
since how it is read never depends on the key it is compared with.
-/

namespace GlobPattern

/-- The UTF-8 bytes of a string, which is what a client sends for a key. -/
def utf8 (s : String) : List UInt8 := s.toList.flatMap String.utf8EncodeChar

/-- One unit of a pattern. -/
inductive Token where
  /-- Any number of bytes. -/
  | star
  /-- Exactly one byte. -/
  | any
  /-- One byte in, or when negated outside, the inclusive ranges. -/
  | cls (negated : Bool) (ranges : List (UInt8 × UInt8))
  /-- This byte. -/
  | lit (b : UInt8)
  deriving DecidableEq, Repr

/-- Bytes that are not read literally outside a class: star, question mark,
opening bracket, backslash. -/
def isMeta (b : UInt8) : Bool := b = 42 || b = 63 || b = 91 || b = 92

mutual

/-- Cut a pattern into tokens. A backslash at the very end is itself. -/
def tokens : List UInt8 → List Token
  | [] => []
  | [b] =>
    if b = 42 then [.star] else if b = 63 then [.any]
    else if b = 91 then [.cls false []] else [.lit b]
  | b :: c :: rest =>
    if b = 42 then .star :: tokens (c :: rest)
    else if b = 63 then .any :: tokens (c :: rest)
    else if b = 91 then
      if c = 94 then classTokens true [] rest else classTokens false [] (c :: rest)
    else if b = 92 then .lit c :: tokens rest
    else .lit b :: tokens (c :: rest)

/-- Read a class up to its closing bracket, or to the end of an unclosed one.
A dash between two bytes is a range whichever way round they stand, even when
the second is the closing bracket. -/
def classTokens (negated : Bool) (ranges : List (UInt8 × UInt8)) : List UInt8 → List Token
  | [] => [.cls negated ranges]
  | [b] => if b = 93 then [.cls negated ranges] else [.cls negated ((b, b) :: ranges)]
  | [b, c] =>
    if b = 92 then classTokens negated ((c, c) :: ranges) []
    else if b = 93 then .cls negated ranges :: tokens [c]
    else classTokens negated ((b, b) :: ranges) [c]
  | b :: c :: d :: rest =>
    if b = 92 then classTokens negated ((c, c) :: ranges) (d :: rest)
    else if b = 93 then .cls negated ranges :: tokens (c :: d :: rest)
    else if c = 45 then classTokens negated ((min b d, max b d) :: ranges) rest
    else classTokens negated ((b, b) :: ranges) (c :: d :: rest)

end

/-- Whether one byte belongs to a class. -/
def inClass (negated : Bool) (ranges : List (UInt8 × UInt8)) (b : UInt8) : Bool :=
  (ranges.any fun r => r.1 ≤ b && b ≤ r.2) != negated

/-- Some suffix of the key, the whole of it included, passes the test. -/
def anySuffix (p : List UInt8 → Bool) : List UInt8 → Bool
  | [] => p []
  | b :: rest => p (b :: rest) || anySuffix p rest

/-- Compare a key with a tokenized pattern. -/
def matchTokens : List Token → List UInt8 → Bool
  | [], s => s.isEmpty
  | .star :: ts, s => anySuffix (matchTokens ts) s
  | .any :: ts, s => match s with
    | [] => false
    | _ :: rest => matchTokens ts rest
  | .cls negated ranges :: ts, s => match s with
    | [] => false
    | b :: rest => inClass negated ranges b && matchTokens ts rest
  | .lit b :: ts, s => match s with
    | [] => false
    | c :: rest => b = c && matchTokens ts rest

/-- Whether a key matches a pattern, both given as strings. -/
def globMatch (pattern key : String) : Bool := matchTokens (tokens (utf8 pattern)) (utf8 key)

/-- Two texts have two encodings. -/
theorem utf8_injective : Function.Injective utf8 := by
  intro s t h
  have hl : s.toList.utf8Encode = t.toList.utf8Encode := by
    rw [List.utf8Encode, List.utf8Encode]
    exact congrArg _ h
  rw [String.utf8Encode_toList, String.utf8Encode_toList] at hl
  exact String.toByteArray_inj.mp hl

/-- Encoding appends. -/
@[simp] theorem utf8_append (s t : String) : utf8 (s ++ t) = utf8 s ++ utf8 t := by
  simp [utf8]

/-- A star is a token of its own. -/
theorem tokens_cons_star (rest : List UInt8) : tokens (42 :: rest) = .star :: tokens rest := by
  cases rest <;> simp [tokens]

/-- A byte that is no metacharacter is its own token. -/
theorem tokens_cons_literal {b : UInt8} (hb : isMeta b = false) (rest : List UInt8) :
    tokens (b :: rest) = .lit b :: tokens rest := by
  simp only [isMeta, Bool.or_eq_false_iff, decide_eq_false_iff_not] at hb
  obtain ⟨⟨⟨h1, h2⟩, h3⟩, h4⟩ := hb
  cases rest with
  | nil => simp [tokens, h1, h2, h3]
  | cons c rest => simp [tokens, h1, h2, h3, h4]

/-- A literal stretch at the front of a pattern tokenizes byte by byte. -/
theorem tokens_append_literal {front : List UInt8} (h : ∀ b ∈ front, isMeta b = false)
    (rest : List UInt8) : tokens (front ++ rest) = front.map .lit ++ tokens rest := by
  induction front with
  | nil => rfl
  | cons b front ih =>
    rw [List.cons_append, tokens_cons_literal (h b (by simp)),
      ih fun c hc => h c (List.mem_cons_of_mem _ hc)]
    rfl

/-- A suffix that passes is found. -/
theorem anySuffix_of_suffix {p : List UInt8 → Bool} {front s : List UInt8} (h : p s = true) :
    anySuffix p (front ++ s) = true := by
  induction front with
  | nil =>
    cases s with
    | nil => exact h
    | cons b s => simp [anySuffix, h]
  | cons b front ih => simp [anySuffix, ih]

/-- A suffix that is found passes. -/
theorem exists_suffix_of_anySuffix {p : List UInt8 → Bool} {s : List UInt8}
    (h : anySuffix p s = true) : ∃ front back, s = front ++ back ∧ p back = true := by
  induction s with
  | nil => exact ⟨[], [], rfl, h⟩
  | cons b rest ih =>
    rcases Bool.or_eq_true _ _ |>.mp h with h | h
    · exact ⟨[], b :: rest, rfl, h⟩
    · obtain ⟨front, back, rfl, hp⟩ := ih h
      exact ⟨b :: front, back, rfl, hp⟩

/-- Literal tokens match their own bytes at the front. -/
theorem matchTokens_literal_iff (front s : List UInt8) (ts : List Token) :
    matchTokens (front.map .lit ++ ts) s = true ↔
      ∃ rest, s = front ++ rest ∧ matchTokens ts rest = true := by
  induction front generalizing s with
  | nil => simp
  | cons b front ih =>
    cases s with
    | nil => simp [matchTokens]
    | cons c s =>
      simp only [List.map_cons, List.cons_append, matchTokens, Bool.and_eq_true,
        decide_eq_true_eq, ih, List.cons.injEq]
      constructor
      · rintro ⟨rfl, rest, rfl, hm⟩
        exact ⟨rest, ⟨rfl, rfl⟩, hm⟩
      · rintro ⟨rest, ⟨rfl, rfl⟩, hm⟩
        exact ⟨rfl, rest, rfl, hm⟩

/-- The characters with a meaning in patterns: star, question mark, the two
brackets, backslash. -/
def isMetaChar (c : Char) : Bool :=
  c = '*' || c = '?' || c = '[' || c = ']' || c = '\\'

/-- A string in which no character has a meaning in patterns. -/
def GlobFree (s : String) : Prop := ∀ c ∈ s.toList, isMetaChar c = false

instance (s : String) : Decidable (GlobFree s) :=
  List.decidableBAll (fun c => isMetaChar c = false) s.toList

/-- Bytes above ASCII keep their number. -/
theorem toNat_ofNat_of_high {n : ℕ} (hlo : 128 ≤ n) (hhi : n < 256) :
    128 ≤ (UInt8.ofNat n).toNat := by
  rw [UInt8.toNat_ofNat']
  omega

/-- An ASCII byte occurs in the encoding of a character only as that character:
every byte of a longer encoding is at least 128. -/
theorem toNat_of_mem_utf8EncodeChar {c : Char} {b : UInt8} (hb : b.toNat < 128)
    (h : b ∈ String.utf8EncodeChar c) : c.toNat = b.toNat := by
  have hhigh : ∀ n, 128 ≤ n → n < 256 → b ≠ UInt8.ofNat n := by
    rintro n hlo hhi rfl
    have hge := toNat_ofNat_of_high hlo hhi
    omega
  unfold String.utf8EncodeChar at h
  simp only at h
  split at h
  next hv =>
    obtain rfl := List.mem_singleton.mp h
    rw [UInt8.toNat_ofNat']
    change c.val.toNat = c.val.toNat % 2 ^ 8
    omega
  next =>
    exfalso
    split at h
    next =>
      simp only [List.mem_cons, List.not_mem_nil, or_false] at h
      rcases h with h | h
      · exact hhigh _ (by omega) (by omega) h
      · exact hhigh _ (by omega) (by omega) h
    next =>
      split at h
      next =>
        simp only [List.mem_cons, List.not_mem_nil, or_false] at h
        rcases h with h | h | h
        · exact hhigh _ (by omega) (by omega) h
        · exact hhigh _ (by omega) (by omega) h
        · exact hhigh _ (by omega) (by omega) h
      next =>
        simp only [List.mem_cons, List.not_mem_nil, or_false] at h
        rcases h with h | h | h | h
        · exact hhigh _ (by omega) (by omega) h
        · exact hhigh _ (by omega) (by omega) h
        · exact hhigh _ (by omega) (by omega) h
        · exact hhigh _ (by omega) (by omega) h

/-- The number of a character determines it. -/
theorem char_eq_of_toNat {c d : Char} (h : c.toNat = d.toNat) : c = d :=
  Char.ext (UInt32.toNat_inj.mp h)

/-- An ASCII character that is not in a string has its byte nowhere in the encoding. -/
theorem byte_ne_of_not_mem {s : String} {d : Char} (hd : d.toNat < 128) (h : d ∉ s.toList)
    {b : UInt8} (hb : b ∈ utf8 s) : b.toNat ≠ d.toNat := by
  rintro heq
  obtain ⟨c, hc, hbc⟩ := List.mem_flatMap.mp hb
  have hchar := (toNat_of_mem_utf8EncodeChar (by omega) hbc).trans heq
  exact h (char_eq_of_toNat hchar ▸ hc)

/-- A list of characters is split in the same places as its encoding, at an ASCII byte. -/
theorem flatMap_utf8_split {d : Char} {b : UInt8} (hd : String.utf8EncodeChar d = [b])
    (hb : b.toNat < 128) (hdb : d.toNat = b.toNat) {l : List Char} {x y : List UInt8}
    (h : l.flatMap String.utf8EncodeChar = x ++ b :: y) :
    ∃ l₁ l₂, l = l₁ ++ d :: l₂ ∧ l₁.flatMap String.utf8EncodeChar = x ∧
      l₂.flatMap String.utf8EncodeChar = y := by
  induction l generalizing x with
  | nil => simp at h
  | cons c rest ih =>
    rw [List.flatMap_cons] at h
    rcases List.append_eq_append_iff.mp h with ⟨mid, rfl, hmid⟩ | ⟨mid, hc, hmid⟩
    · obtain ⟨l₁, l₂, rfl, rfl, rfl⟩ := ih hmid
      exact ⟨c :: l₁, l₂, rfl, by simp, rfl⟩
    · cases mid with
      | nil =>
        obtain ⟨l₁, l₂, rfl, hnil, rfl⟩ := ih (x := []) (by simpa using hmid.symm)
        exact ⟨c :: l₁, l₂, rfl, by simp [hnil, hc], rfl⟩
      | cons b' tail =>
        -- the byte lies in the encoding of the first character, which is then `d`
        obtain ⟨rfl, rfl⟩ := List.cons.inj hmid
        have hchar : c = d := char_eq_of_toNat
          ((toNat_of_mem_utf8EncodeChar hb (by simp [hc])).trans hdb.symm)
        subst hchar
        rw [hd] at hc
        cases x with
        | nil =>
          obtain rfl : tail = [] := by simpa using hc
          exact ⟨[], rest, rfl, rfl, rfl⟩
        | cons b'' x => simp at hc

/-- A key is split at a colon where its bytes are. -/
theorem utf8_split_colon {k : String} {x y : List UInt8} (h : utf8 k = x ++ 58 :: y) :
    ∃ s t, k = s ++ ":" ++ t ∧ utf8 s = x ∧ utf8 t = y := by
  have hcolon : String.utf8EncodeChar ':' = [58] := rfl
  obtain ⟨l₁, l₂, hk, hx, hy⟩ := flatMap_utf8_split hcolon (by decide) rfl h
  refine ⟨String.ofList l₁, String.ofList l₂, ?_, by simpa [utf8] using hx,
    by simpa [utf8] using hy⟩
  exact String.toList_inj.mp (by simp [hk])

/-- No byte of a string without pattern characters is read as one. -/
theorem not_isMeta_of_globFree {s : String} (h : GlobFree s) {b : UInt8} (hb : b ∈ utf8 s) :
    isMeta b = false := by
  have hne : ∀ d : Char, isMetaChar d = true → d.toNat < 128 → b.toNat ≠ d.toNat := by
    rintro d hmeta hlt
    refine byte_ne_of_not_mem hlt (fun hmem => ?_) hb
    rw [h d hmem] at hmeta
    cases hmeta
  by_contra hmeta
  simp only [isMeta, Bool.not_eq_false, Bool.or_eq_true, decide_eq_true_eq] at hmeta
  rcases hmeta with ((rfl | rfl) | rfl) | rfl
  · exact hne '*' rfl (by decide) rfl
  · exact hne '?' rfl (by decide) rfl
  · exact hne '[' rfl (by decide) rfl
  · exact hne '\\' rfl (by decide) rfl

/-- Pattern `front*`: exactly the keys that start with the literal front. -/
theorem globMatch_front_star {front key : String} (h : GlobFree front) :
    globMatch (front ++ "*") key = true ↔ ∃ rest, utf8 key = utf8 front ++ rest := by
  have hstar : tokens (utf8 "*") = [.star] := tokens_cons_star []
  rw [globMatch, utf8_append, tokens_append_literal (fun b hb => not_isMeta_of_globFree h hb),
    hstar, matchTokens_literal_iff]
  constructor
  · rintro ⟨rest, hr, -⟩
    exact ⟨rest, hr⟩
  · rintro ⟨rest, hr⟩
    refine ⟨rest, hr, ?_⟩
    have hend : anySuffix (matchTokens []) (rest ++ []) = true := anySuffix_of_suffix rfl
    rwa [List.append_nil] at hend

/-- Pattern `front*back`: exactly the keys that start with the literal front and
end, after it, with the literal back. -/
theorem globMatch_front_star_back {front back key : String} (hf : GlobFree front)
    (hb : GlobFree back) : globMatch (front ++ "*" ++ back) key = true ↔
      ∃ mid, utf8 key = utf8 front ++ mid ++ utf8 back := by
  have hback : tokens (utf8 back) = (utf8 back).map .lit := by
    simpa [tokens] using tokens_append_literal (fun b h => not_isMeta_of_globFree hb h) []
  have hstar : tokens (utf8 "*" ++ utf8 back) = .star :: (utf8 back).map .lit := by
    rw [← hback]
    exact tokens_cons_star _
  rw [globMatch, utf8_append, utf8_append, List.append_assoc,
    tokens_append_literal (fun b h => not_isMeta_of_globFree hf h), hstar,
    matchTokens_literal_iff]
  have hlit : ∀ s, matchTokens ((utf8 back).map .lit) s = true ↔ s = utf8 back := by
    intro s
    have h := matchTokens_literal_iff (utf8 back) s []
    simpa [matchTokens] using h
  constructor
  · rintro ⟨rest, hr, hm⟩
    obtain ⟨mid, tail, rfl, ht⟩ := exists_suffix_of_anySuffix hm
    rw [(hlit tail).mp ht] at hr
    exact ⟨mid, by rw [hr, List.append_assoc]⟩
  · rintro ⟨mid, hr⟩
    refine ⟨mid ++ utf8 back, by rw [hr, List.append_assoc], ?_⟩
    exact anySuffix_of_suffix ((hlit _).mpr rfl)

/-- The token of a byte that opens no class and escapes nothing. -/
def tokenOf (b : UInt8) : Token := if b = 42 then .star else if b = 63 then .any else .lit b

/-- A stretch without opening brackets and backslashes tokenizes byte by byte. -/
theorem tokens_append_unbracketed {front : List UInt8} (h : ∀ b ∈ front, b ≠ 91 ∧ b ≠ 92)
    (rest : List UInt8) : tokens (front ++ rest) = front.map tokenOf ++ tokens rest := by
  induction front with
  | nil => rfl
  | cons b front ih =>
    have hb := h b (by simp)
    have htail := ih fun c hc => h c (List.mem_cons_of_mem _ hc)
    have hcons : tokens (b :: (front ++ rest)) = tokenOf b :: tokens (front ++ rest) := by
      cases front ++ rest with
      | nil => simp only [tokens, tokenOf, hb.1, if_false]; split_ifs <;> rfl
      | cons c tail => simp only [tokens, tokenOf, hb.1, hb.2, if_false]; split_ifs <;> rfl
    rw [List.cons_append, hcons, htail]
    rfl

/-- Such a stretch of a pattern finds itself in a key: a star finds a star. -/
theorem matchTokens_tokenOf {s : List UInt8} {ts : List Token} (h : matchTokens ts s = true)
    (front : List UInt8) : matchTokens (front.map tokenOf ++ ts) (front ++ s) = true := by
  induction front with
  | nil => exact h
  | cons b front ih =>
    rw [List.map_cons, List.cons_append, List.cons_append, tokenOf]
    split_ifs with hstar hany
    · have hskip : anySuffix _ ([b] ++ (front ++ s)) = true := anySuffix_of_suffix ih
      exact hskip
    · exact ih
    · rw [matchTokens, ih]
      simp

/-- A class, a negated class and an escaped star, as Redis reads them. -/
example : globMatch "h[a-c]llo" "hbllo" = true ∧ globMatch "h[^e]llo" "hello" = false ∧
    globMatch "a\\*" "ab" = false := by decide

end GlobPattern
