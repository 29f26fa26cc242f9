import HeliosPermissions.SignedRequests

/-!
# The URL of a request

A base URL is a scheme and an authority, followed by any number of slashes that
the constructor of the client strips. The request puts the quoted ids behind
it, one as the last segment of the path and one as the value of the only query
parameter. No delimiter of a URL survives quoting, so the URL falls apart in
one way, and what it says of each id is the id.
-/

namespace HeliosPermissions.RequestUrls

open PercentEncoding SignedRequests

/-- A base URL that names a host and no path. -/
structure BaseUrl where
  /-- Letters, digits and a few signs, a question mark not among them. -/
  scheme : String
  /-- The host, perhaps with a port. -/
  authority : String
  /-- The slashes at the end. -/
  slashes : String
  /-- The scheme has no question mark. -/
  scheme_question : '?' ∉ scheme.toList
  /-- There is a host. -/
  authority_ne : authority ≠ ""
  /-- The host ends where a path, a query or a fragment begins. -/
  authority_free : ∀ c ∈ authority.toList, c ≠ '/' ∧ c ≠ '?' ∧ c ≠ '#'
  /-- The end is made of slashes. -/
  slashes_only : ∀ c ∈ slashes.toList, c = '/'

/-- What stands before the path. -/
def BaseUrl.origin (base : BaseUrl) : String := base.scheme ++ "://" ++ base.authority

/-- `base_url` as it is passed. -/
def BaseUrl.text (base : BaseUrl) : String := base.origin ++ base.slashes

/-- A quoted text has none of the characters that delimit the parts of a URL. -/
theorem delimiter_not_mem_quote (text : String) {c : Char}
    (hc : c ∈ ['/', '?', '#', '&', '=']) : c ∉ (quote text).toList := by
  have hall : ∀ d ∈ ['/', '?', '#', '&', '='], isUnreserved d = false ∧ d ≠ '%' := by simp; decide
  obtain ⟨hreserved, hpercent⟩ := hall c hc
  rintro hmem
  rcases mem_quote hmem with hfree | heq
  · rw [hreserved] at hfree
    cases hfree
  · exact hpercent heq

section stripping

/-- Stripping takes the slashes at the end. -/
theorem stripSlashes_append {front slashes : String} (hs : ∀ c ∈ slashes.toList, c = '/') :
    stripSlashes (front ++ slashes) = stripSlashes front := by
  have hdrop : ∀ c ∈ slashes.toList.reverse, decide (c = '/') = true := by
    intro c hc
    exact decide_eq_true (hs c (List.mem_reverse.mp hc))
  unfold stripSlashes
  rw [String.toList_append, List.reverse_append, List.dropWhile_append_of_pos hdrop]

/-- And stops at another character. -/
theorem stripSlashes_of_free {front text : String} (hne : text ≠ "")
    (hfree : '/' ∉ text.toList) : stripSlashes (front ++ text) = front ++ text := by
  have hlist : text.toList ≠ [] := fun hnil => hne (String.toList_eq_nil_iff.mp hnil)
  obtain ⟨init, last, hlast⟩ := (List.eq_nil_or_concat' text.toList).resolve_left hlist
  have hend : last ≠ '/' := by
    rintro rfl
    rw [hlast] at hfree
    simp at hfree
  have hall : (front ++ text).toList = (front.toList ++ init) ++ [last] := by
    rw [String.toList_append, hlast, List.append_assoc]
  have hkeep : ((front ++ text).toList.reverse.dropWhile (· = '/')) =
      (front ++ text).toList.reverse := by
    rw [hall, List.reverse_append, List.reverse_singleton, List.singleton_append]
    exact List.dropWhile_cons_of_neg (by simpa using hend)
  unfold stripSlashes
  rw [hkeep, List.reverse_reverse, String.ofList_toList]

/-- `rstrip("/")` leaves the origin. -/
theorem stripSlashes_text (base : BaseUrl) : stripSlashes base.text = base.origin := by
  have hfree : '/' ∉ base.authority.toList := fun hmem => (base.authority_free _ hmem).1 rfl
  rw [BaseUrl.text, stripSlashes_append base.slashes_only]
  exact stripSlashes_of_free base.authority_ne hfree

end stripping

section urls

variable (hmacSha256 : ByteArray → ByteArray → String) {client : HeliosClient} {base : BaseUrl}
  (userId tenantId timestamp correlationId : String)

/-- The URL: what stands before the path, the path that is signed, and the query. -/
theorem url_eq (hbase : client.baseUrl = base.text) :
    (fetchRequest hmacSha256 client userId tenantId timestamp correlationId).url =
      base.origin ++ signPath userId tenantId ++ "?" ++ ("tenantId=" ++ quote tenantId) := by
  have hpath : requestPath userId tenantId =
      signPath userId tenantId ++ ("?" ++ ("tenantId=" ++ quote tenantId)) := by
    unfold requestPath
    rw [String.append_assoc, query_eq, signPath_eq]
  have hurl : (fetchRequest hmacSha256 client userId tenantId timestamp correlationId).url =
      stripSlashes client.baseUrl ++ requestPath userId tenantId := rfl
  rw [hurl, hbase, stripSlashes_text, hpath, ← String.append_assoc, ← String.append_assoc]

/-- The origin has no question mark. -/
theorem question_not_mem_origin (base : BaseUrl) : '?' ∉ base.origin.toList := by
  have hauthority : '?' ∉ base.authority.toList := fun hmem => (base.authority_free _ hmem).2.1 rfl
  simp [BaseUrl.origin, base.scheme_question, hauthority]

/-- The path that is signed has no question mark. -/
theorem question_not_mem_signPath : '?' ∉ (signPath userId tenantId).toList := by
  rw [signPath_eq, String.toList_append]
  intro hmem
  rcases List.mem_append.mp hmem with hmem | hmem
  · exact absurd hmem (by decide)
  · exact question_not_mem_quote userId hmem

/-- There is one question mark in it. -/
theorem count_question (hbase : client.baseUrl = base.text) :
    (fetchRequest hmacSha256 client userId tenantId timestamp correlationId).url.toList.count '?' =
      1 := by
  have hparameter : '?' ∉ ("tenantId=" ++ quote tenantId).toList := by
    rw [String.toList_append]
    intro hmem
    rcases List.mem_append.mp hmem with hmem | hmem
    · exact absurd hmem (by decide)
    · exact question_not_mem_quote tenantId hmem
  rw [url_eq hmacSha256 userId tenantId timestamp correlationId hbase]
  rw [String.toList_append, String.toList_append, String.toList_append, List.count_append,
    List.count_append, List.count_append, List.count_eq_zero_of_not_mem hparameter,
    List.count_eq_zero_of_not_mem (question_not_mem_origin base),
    List.count_eq_zero_of_not_mem (question_not_mem_signPath userId tenantId)]
  decide

/-- No two pairs have one URL. -/
theorem url_injective {userId₂ tenantId₂ timestamp₂ correlationId₂ : String}
    (h : (fetchRequest hmacSha256 client userId₂ tenantId₂ timestamp₂ correlationId₂).url =
      (fetchRequest hmacSha256 client userId tenantId timestamp correlationId).url) :
    userId₂ = userId ∧ tenantId₂ = tenantId :=
  requestPath_injective (String.append_right_inj _ |>.mp h)

/-- The URL of a request is the scheme and the authority, the path that is signed, one
question mark and one parameter. The last segment of the path decodes to the user id and
the value of the parameter to the tenant id, neither with a delimiter in it, and another
pair has another URL. -/
theorem url_carries_ids {request : Request} (hbase : client.baseUrl = base.text)
    (hrequest : request = fetchRequest hmacSha256 client userId tenantId timestamp correlationId) :
    request.url.toList.count '?' = 1 ∧
      ("x-signature", sign hmacSha256 client "GET" (signPath userId tenantId) timestamp) ∈
        request.headers ∧
      (∃ segment value,
        request.url =
          base.origin ++ signPath userId tenantId ++ "?" ++ ("tenantId=" ++ value) ∧
        signPath userId tenantId = "/internal/permissions/" ++ segment ∧
        (∀ c ∈ ['/', '?', '#'], c ∉ segment.toList) ∧ unquote segment = some userId ∧
        (∀ c ∈ ['&', '=', '#'], c ∉ value.toList) ∧ unquote value = some tenantId) ∧
      ∀ userId₂ tenantId₂ timestamp₂ correlationId₂,
        (fetchRequest hmacSha256 client userId₂ tenantId₂ timestamp₂ correlationId₂).url =
          request.url → userId₂ = userId ∧ tenantId₂ = tenantId := by
  subst hrequest
  refine ⟨count_question hmacSha256 userId tenantId timestamp correlationId hbase, ?_,
    ⟨quote userId, quote tenantId, ?_, signPath_eq userId tenantId, ?_, unquote_quote userId, ?_,
      unquote_quote tenantId⟩, ?_⟩
  · exact List.mem_cons_of_mem _ List.mem_cons_self
  · exact url_eq hmacSha256 userId tenantId timestamp correlationId hbase
  · intro c hc
    have hmem : c ∈ ['/', '?', '#', '&', '='] := by
      simp only [List.mem_cons, List.not_mem_nil, or_false] at hc ⊢
      tauto
    exact delimiter_not_mem_quote userId hmem
  · intro c hc
    have hmem : c ∈ ['/', '?', '#', '&', '='] := by
      simp only [List.mem_cons, List.not_mem_nil, or_false] at hc ⊢
      tauto
    exact delimiter_not_mem_quote tenantId hmem
  · intro userId₂ tenantId₂ timestamp₂ correlationId₂ h
    exact url_injective hmacSha256 userId tenantId timestamp correlationId h

end urls

/-- The gateway, with a slash too many. -/
def gateway : BaseUrl where
  scheme := "http"
  authority := "helios:3000"
  slashes := "//"
  scheme_question := by decide
  authority_ne := by decide
  authority_free := by simp
  slashes_only := by simp

/-- A request to it, with a constant in place of the digest. -/
def gatewayRequest (userId tenantId : String) : Request :=
  fetchRequest (fun _ _ => "digest") ⟨gateway.text, "secret", "helios-permissions-sdk"⟩ userId
    tenantId "1700000000" "correlation-1"

/-- A user id that would be two segments, and a tenant id that would be two parameters. -/
theorem url_carries_ids_delimiters :
    (gatewayRequest "user/1" "a&b=c").url.toList.count '?' = 1 ∧
      (gatewayRequest "user" "a&b=c").url ≠ (gatewayRequest "user/1" "a&b=c").url :=
  have hcarries := url_carries_ids (fun _ _ => "digest") "user/1" "a&b=c" "1700000000"
    "correlation-1" (rfl : _ = gateway.text) (rfl : gatewayRequest "user/1" "a&b=c" = _)
  ⟨hcarries.1, fun heq =>
    absurd (hcarries.2.2.2 "user" "a&b=c" "1700000000" "correlation-1" heq).1 (by decide)⟩

end HeliosPermissions.RequestUrls
