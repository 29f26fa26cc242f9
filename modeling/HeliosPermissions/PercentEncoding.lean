import Mathlib.Data.String.Basic
import HeliosPermissions.HexDigits

/-!
# Percent-encoding

`urllib.parse.quote` with no safe characters: the bytes of a text in UTF-8,
unreserved ones as themselves and all others as a percent sign with two
uppercase digits. Decoding gives the text back, so no two texts are quoted
alike, and a quoted text has no delimiter of a URL in it.
-/

namespace PercentEncoding

/-- The characters that are never quoted: letters, digits, `_`, `.`, `-` and `~`. -/
def isUnreserved (c : Char) : Bool :=
  c.isAlphanum || c = '_' || c = '.' || c = '-' || c = '~'

/-- One byte, quoted unless it is unreserved. -/
def quoteByte (b : UInt8) : List Char :=
  if isUnreserved (Char.ofNat b.toNat) then [Char.ofNat b.toNat]
  else '%' :: HexDigits.write HexDigits.upper 2 b.toNat

/-- `quote_from_bytes`. -/
def quoteBytes (bytes : List UInt8) : List Char := bytes.flatMap quoteByte

/-- `quote(text, safe="")`. -/
def quote (text : String) : String := String.ofList (quoteBytes text.toUTF8.data.toList)

/-- `unquote_to_bytes`, with the input's length as fuel: a percent sign without two
digits is left as it is. -/
def unquoteBytes : ℕ → List Char → List UInt8
  | 0, _ => []
  | _ + 1, [] => []
  | fuel + 1, c :: rest =>
    if c = '%' then
      match HexDigits.read 2 rest with
      | some (n, rest') => UInt8.ofNat n :: unquoteBytes fuel rest'
      | none => 37 :: unquoteBytes fuel rest
    else UInt8.ofNat c.toNat :: unquoteBytes fuel rest

/-- `unquote` of ASCII text, when the bytes are UTF-8. -/
def unquote (text : String) : Option String :=
  String.fromUTF8? ⟨(unquoteBytes text.toList.length text.toList).toArray⟩

/-- A byte is the number of its character. -/
theorem toNat_ofNat_byte (b : UInt8) : (Char.ofNat b.toNat).toNat = b.toNat := by
  have hlt : b.toNat < 256 := b.toNat_lt
  have hvalid : b.toNat.isValidChar := Or.inl (by omega)
  rw [Char.ofNat, dif_pos hvalid]
  rfl

/-- Reading one quoted byte gives it back. -/
theorem unquoteBytes_quoteByte (b : UInt8) (rest : List Char) (fuel : ℕ) :
    unquoteBytes (fuel + 1) (quoteByte b ++ rest) = b :: unquoteBytes fuel rest := by
  unfold quoteByte
  split_ifs with hfree
  · have hpercent : Char.ofNat b.toNat ≠ '%' := by
      rintro heq
      rw [heq] at hfree
      exact absurd hfree (by decide)
    rw [List.singleton_append, unquoteBytes, if_neg hpercent, toNat_ofNat_byte, UInt8.ofNat_toNat]
  · have hread : HexDigits.read 2 (HexDigits.write HexDigits.upper 2 b.toNat ++ rest) =
        some (b.toNat, rest) :=
      HexDigits.read_write_of_lt HexDigits.faithful_upper b.toNat_lt rest
    rw [List.cons_append, unquoteBytes, if_pos rfl, hread]
    dsimp only
    rw [UInt8.ofNat_toNat]

/-- A byte is quoted by one character at least. -/
theorem length_quoteByte_pos (b : UInt8) : 0 < (quoteByte b).length := by
  unfold quoteByte
  split_ifs <;> simp

/-- Quoted bytes are read back. -/
theorem unquoteBytes_quoteBytes (bytes : List UInt8) {fuel : ℕ}
    (h : (quoteBytes bytes).length ≤ fuel) : unquoteBytes fuel (quoteBytes bytes) = bytes := by
  induction bytes generalizing fuel with
  | nil => cases fuel <;> rfl
  | cons b bytes ih =>
    have hpos := length_quoteByte_pos b
    rw [quoteBytes, List.flatMap_cons, List.length_append] at h
    obtain ⟨n, rfl⟩ := Nat.exists_eq_succ_of_ne_zero (by omega : fuel ≠ 0)
    rw [quoteBytes, List.flatMap_cons, unquoteBytes_quoteByte]
    exact congrArg _ (ih (by rw [quoteBytes]; omega))

/-- What was quoted is unquoted, for every text. -/
theorem unquote_quote (text : String) : unquote (quote text) = some text := by
  have hvalid : text.toUTF8.IsValidUTF8 := text.isValidUTF8
  rw [unquote, quote, String.toList_ofList, unquoteBytes_quoteBytes _ (Nat.le_refl _),
    Array.toArray_toList, String.fromUTF8?, dif_pos hvalid]
  rfl

/-- No two texts are quoted alike. -/
theorem quote_injective : Function.Injective quote := by
  intro s t h
  have hs := unquote_quote s
  rw [h, unquote_quote t] at hs
  exact (Option.some.inj hs).symm

/-- A quoted text has only unreserved characters and percent signs. -/
theorem mem_quote {text : String} {c : Char} (h : c ∈ (quote text).toList) :
    isUnreserved c = true ∨ c = '%' := by
  rw [quote, String.toList_ofList] at h
  obtain ⟨b, -, hc⟩ := List.mem_flatMap.mp h
  unfold quoteByte at hc
  split_ifs at hc with hfree
  · obtain rfl := List.mem_singleton.mp hc
    exact Or.inl hfree
  · rcases List.mem_cons.mp hc with rfl | hdigit
    · exact Or.inr rfl
    · -- the digits are letters and decimal digits
      have hall : ∀ n < 16, isUnreserved (HexDigits.upper n) = true := by decide
      simp only [HexDigits.write, List.mem_cons, List.not_mem_nil, or_false] at hdigit
      rcases hdigit with rfl | rfl
      · exact Or.inl (hall _ (Nat.mod_lt _ (by decide)))
      · exact Or.inl (hall _ (Nat.mod_lt _ (by decide)))

/-- Quoting goes character by character. -/
theorem toList_quote (text : String) :
    (quote text).toList = text.toList.flatMap fun c => quoteBytes (String.utf8EncodeChar c) := by
  have hbytes : text.toUTF8.data.toList = text.toList.flatMap String.utf8EncodeChar := by
    have hencoded : text.toUTF8 = (String.ofList text.toList).toByteArray := by
      rw [String.ofList_toList, String.toUTF8]
    rw [hencoded, String.toByteArray_ofList, List.utf8Encode, List.data_toByteArray]
  rw [quote, String.toList_ofList, hbytes, quoteBytes, List.flatMap_assoc]
  rfl

/-- Quoting appends. -/
theorem quote_append (s t : String) : quote (s ++ t) = quote s ++ quote t := by
  rw [← String.toList_inj, String.toList_append, toList_quote, toList_quote, toList_quote,
    String.toList_append, List.flatMap_append]

/-- Digits stay as they are. -/
theorem quoteBytes_digit {c : Char} (h : c.isDigit = true) :
    quoteBytes (String.utf8EncodeChar c) = [c] := by
  have hvalue : c.toNat ≤ 57 ∧ 48 ≤ c.toNat := by
    simp only [Char.isDigit, Bool.and_eq_true, decide_eq_true_eq, ge_iff_le] at h
    exact ⟨h.2, h.1⟩
  have hall : ∀ m < 10, quoteBytes (String.utf8EncodeChar (Char.ofNat (48 + m))) =
      [Char.ofNat (48 + m)] := by decide
  have hdigit := hall (c.toNat - 48) (by omega)
  rwa [show 48 + (c.toNat - 48) = c.toNat by omega, Char.ofNat_toNat] at hdigit

/-- Digits are quoted by themselves. -/
theorem quote_digits {d : String} (h : ∀ c ∈ d.toList, c.isDigit = true) : quote d = d := by
  have hchars : ∀ l : List Char, (∀ c ∈ l, c.isDigit = true) →
      l.flatMap (fun c => quoteBytes (String.utf8EncodeChar c)) = l := by
    intro l
    induction l with
    | nil => simp
    | cons c rest ih =>
      intro hl
      have hrest := ih fun x hx => hl x (List.mem_cons_of_mem _ hx)
      rw [List.flatMap_cons, quoteBytes_digit (hl c List.mem_cons_self), hrest]
      rfl
  rw [← String.toList_inj, toList_quote, hchars d.toList h]

end PercentEncoding
