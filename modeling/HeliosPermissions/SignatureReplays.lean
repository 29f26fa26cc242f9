import HeliosPermissions.SignedRequests

/-!
# What else a signature signs

The payload is the method, the path and the timestamp, with nothing in between, and the
path ends with the quoted user id. Digits at the end of an id can therefore be read as
the front of the timestamp, and the signature of one request is that of another, for
another user at another time. The other time is far away: requests that Helios accepts
at one moment never share a signature unless they are of one user and one second.
-/

namespace HeliosPermissions.SignatureReplays

open PercentEncoding SignedRequests

/-- `HELIOS_HMAC_WINDOW_SECONDS`. -/
def heliosHmacWindowSeconds : ℕ := 300

/-- `str(int(time.time()))`. -/
def timestamp (now : ℕ) : String := toString now

/-- A timestamp is in the window around the clock of Helios. -/
def Fresh (now n : ℕ) : Prop :=
  n ≤ now + heliosHmacWindowSeconds ∧ now ≤ n + heliosHmacWindowSeconds

instance (now n : ℕ) : Decidable (Fresh now n) := inferInstanceAs (Decidable (_ ∧ _))

/-- The front of the first timestamp goes over to the user id. -/
def Shifts (u : String) (n : ℕ) (u' : String) (n' : ℕ) : Prop :=
  ∃ d : String, u' = u ++ d ∧ timestamp n = d ++ timestamp n'

/-- A timestamp is a decimal number. -/
theorem toList_timestamp (n : ℕ) : (timestamp n).toList = Nat.toDigits 10 n := Nat.toList_repr

/-- It is made of digits. -/
theorem isDigit_of_mem_timestamp {n : ℕ} {c : Char} (h : c ∈ (timestamp n).toList) :
    c.isDigit = true := by
  rw [toList_timestamp] at h
  exact Nat.isDigit_of_mem_toDigits (by decide) (by decide) h

section timestamps

variable {u u' : String} {n n' : ℕ}

/-- A number whose digits end with those of another is the other one and some multiple of the
power of ten above it. -/
theorem of_ending {front : List Char} (h : Nat.toDigits 10 n = front ++ Nat.toDigits 10 n') :
    n = 10 ^ (Nat.toDigits 10 n').length * Nat.ofDigitChars 10 front 0 + n' := by
  have hvalue : Nat.ofDigitChars 10 (Nat.toDigits 10 n) 0 = n := Nat.ofDigitChars_ten_toDigits
  rw [h, Nat.ofDigitChars_append, Nat.ofDigitChars_eq_ofDigitChars_zero,
    Nat.ofDigitChars_ten_toDigits] at hvalue
  exact hvalue.symm

/-- With digits in front it is larger, by at least that power. -/
theorem far_of_ending {front : List Char} (hfront : front ≠ [])
    (h : Nat.toDigits 10 n = front ++ Nat.toDigits 10 n') :
    n' + 10 ^ (Nat.toDigits 10 n').length ≤ n := by
  have hn := of_ending h
  have hpos : 0 < Nat.ofDigitChars 10 front 0 := by
    by_contra hzero
    have hsame : n = n' := by
      rw [show Nat.ofDigitChars 10 front 0 = 0 by omega, Nat.mul_zero, Nat.zero_add] at hn
      exact hn
    rw [hsame] at h
    exact hfront (List.self_eq_append_left.mp h)
  have hmul := Nat.le_mul_of_pos_right (10 ^ (Nat.toDigits 10 n').length) hpos
  omega

/-- The same user and time, or times that are a power of ten apart. -/
theorem Shifts.far (h : Shifts u n u' n') : u = u' ∧ n = n' ∨
    ∃ k, 0 < k ∧ n' < 10 ^ k ∧ n' + 10 ^ k ≤ n := by
  obtain ⟨d, rfl, hd⟩ := h
  have hdigits : Nat.toDigits 10 n = d.toList ++ Nat.toDigits 10 n' := by
    rw [← toList_timestamp, ← toList_timestamp, hd, String.toList_append]
  by_cases hempty : d.toList = []
  · rw [String.toList_eq_nil_iff.mp hempty] at hd ⊢
    have hsame : n = n' := by
      have hn := of_ending hdigits
      rw [hempty, Nat.ofDigitChars_nil] at hn
      omega
    exact Or.inl ⟨String.append_empty.symm, hsame⟩
  · have hlength : 0 < (Nat.toDigits 10 n').length := Nat.length_toDigits_pos
    have hbelow : n' < 10 ^ (Nat.toDigits 10 n').length :=
      (Nat.length_toDigits_le_iff (by decide) hlength).mp le_rfl
    exact Or.inr ⟨_, hlength, hbelow, far_of_ending hempty hdigits⟩

/-- Two fresh timestamps are too close for that, but for the first minutes of the epoch. -/
theorem Shifts.same_of_fresh {now : ℕ} (hnow : 400 ≤ now) (hn : Fresh now n) (hn' : Fresh now n')
    (h : Shifts u n u' n') : u = u' ∧ n = n' := by
  rcases h.far with hsame | ⟨k, hk, hbelow, hfar⟩
  · exact hsame
  · obtain ⟨hle, -⟩ := hn
    obtain ⟨-, hge⟩ := hn'
    unfold heliosHmacWindowSeconds at hle hge
    have hthree : 3 ≤ k := by
      by_contra hlt
      have hpower : 10 ^ k ≤ 10 ^ 2 := Nat.pow_le_pow_right (by decide) (by omega)
      omega
    have hthousand : 10 ^ 3 ≤ 10 ^ k := Nat.pow_le_pow_right (by decide) hthree
    omega

end timestamps

section payloads

variable (u u' t t' : String) (n n' : ℕ)

/-- The user and the timestamp decide the payload. -/
theorem signedPayload_eq_iff_texts :
    signedPayload u t (timestamp n) = signedPayload u' t' (timestamp n') ↔
      quote u ++ timestamp n = quote u' ++ timestamp n' := by
  unfold signedPayload payload
  rw [signPath_eq, signPath_eq, String.append_assoc, String.append_assoc, String.append_assoc,
    String.append_assoc]
  constructor
  · intro h
    have htext := String.toByteArray_inj.mp h
    rwa [String.append_right_inj, String.append_right_inj] at htext
  · intro h
    rw [h]

/-- Digits that end one quoted id and begin the other timestamp come from the id. -/
theorem shifts_of_texts {d : List Char} (hid : (quote u').toList = (quote u).toList ++ d)
    (htime : (timestamp n).toList = d ++ (timestamp n').toList) : Shifts u n u' n' := by
  have hdigits : ∀ c ∈ (String.ofList d).toList, c.isDigit = true := by
    intro c hc
    rw [String.toList_ofList] at hc
    refine isDigit_of_mem_timestamp (n := n) ?_
    rw [htime]
    exact List.mem_append_left _ hc
  have hquoted : quote u' = quote (u ++ String.ofList d) := by
    rw [quote_append, quote_digits hdigits, ← String.toList_inj, String.toList_append, hid,
      String.toList_ofList]
  refine ⟨String.ofList d, quote_injective hquoted, ?_⟩
  rw [← String.toList_inj, String.toList_append, htime, String.toList_ofList]

/-- What is shifted spells the same. -/
theorem Shifts.texts (h : Shifts u n u' n') :
    quote u ++ timestamp n = quote u' ++ timestamp n' := by
  obtain ⟨d, rfl, hd⟩ := h
  have hdigits : ∀ c ∈ d.toList, c.isDigit = true := by
    intro c hc
    refine isDigit_of_mem_timestamp (n := n) ?_
    rw [hd, String.toList_append]
    exact List.mem_append_left _ hc
  rw [hd, quote_append, quote_digits hdigits, String.append_assoc]

/-- Two payloads are equal when the timestamp shifts one way or the other. -/
theorem signedPayload_eq_iff :
    signedPayload u t (timestamp n) = signedPayload u' t' (timestamp n') ↔
      Shifts u n u' n' ∨ Shifts u' n' u n := by
  rw [signedPayload_eq_iff_texts]
  constructor
  · intro h
    have hlist := congrArg String.toList h
    rw [String.toList_append, String.toList_append] at hlist
    rcases List.append_eq_append_iff.mp hlist with ⟨d, hid, htime⟩ | ⟨d, hid, htime⟩
    · exact Or.inl (shifts_of_texts u u' n n' hid htime)
    · exact Or.inr (shifts_of_texts u' u n' n hid htime)
  · intro h
    rcases h with h | h
    · exact h.texts
    · exact h.texts.symm

end payloads

/-- What a signature signs. The payloads of two requests, for any users, tenants and times,
are the same exactly when the front of one timestamp is the end of the other user id, or the
users and the times are the same; and of two requests whose timestamps are both in the window
of Helios at one moment, from the 400th second of the epoch on, only the latter. -/
theorem signature_signs (u u' t t' : String) (n n' : ℕ) :
    (signedPayload u t (timestamp n) = signedPayload u' t' (timestamp n') ↔
      Shifts u n u' n' ∨ Shifts u' n' u n) ∧
    ∀ now, 400 ≤ now → Fresh now n → Fresh now n' →
      (signedPayload u t (timestamp n) = signedPayload u' t' (timestamp n') ↔
        u = u' ∧ n = n') := by
  refine ⟨signedPayload_eq_iff u u' t t' n n', ?_⟩
  intro now hnow hn hn'
  rw [signedPayload_eq_iff]
  constructor
  · intro h
    rcases h with h | h
    · exact h.same_of_fresh hnow hn hn'
    · obtain ⟨hu, htime⟩ := h.same_of_fresh hnow hn' hn
      exact ⟨hu.symm, htime.symm⟩
  · rintro ⟨rfl, rfl⟩
    exact Or.inl ⟨"", String.append_empty.symm, String.empty_append.symm⟩

/-- The bound is sharp: a second earlier the two requests would both be accepted. -/
example : Fresh 399 699 ∧ Fresh 399 99 ∧ Shifts "user-1" 699 "user-16" 99 :=
  ⟨by decide, by decide, "6", by decide, by decide⟩

/-- Another user at the same second signs another payload. -/
theorem signature_signs_next_user :
    signedPayload "user-1" "tenant-1" (timestamp 1700000000) ≠
      signedPayload "user-11" "tenant-1" (timestamp 1700000000) := by
  intro h
  have hsame := ((signature_signs "user-1" "user-11" "tenant-1" "tenant-1" 1700000000
    1700000000).2 1700000100 (by decide) (by decide) (by decide)).mp h
  exact absurd hsame.1 (by decide)

end HeliosPermissions.SignatureReplays
