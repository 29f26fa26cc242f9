import HeliosPermissions.PercentEncoding

/-!
# Signed requests to Helios

The request of `fetch_user_permissions`: the path with both ids quoted, the
signature over method, path and timestamp, and the headers. What is signed ends
before the question mark, as the verifier of Helios expects, so the tenant in
the query string is not part of it, and a signature made for one tenant of a user
is one for every tenant of that user. HMAC-SHA256 is a parameter.
-/

namespace HeliosPermissions.SignedRequests

open PercentEncoding

/-- `HeliosClient`, as far as it goes into a request. -/
structure HeliosClient where
  /-- `base_url` as it was passed. -/
  baseUrl : String
  /-- `signature_shared_secret`, or its deprecated alias. -/
  signatureSharedSecret : String
  /-- `source_service`. -/
  sourceService : String

/-- `text.rstrip("/")`. -/
def stripSlashes (text : String) : String :=
  String.ofList (text.toList.reverse.dropWhile (· = '/')).reverse

/-- `path`, with the query string. -/
def requestPath (userId tenantId : String) : String :=
  "/internal/permissions/" ++ quote userId ++ "?tenantId=" ++ quote tenantId

/-- `path.split("?", 1)[0]`. -/
def beforeQuery (path : String) : String := String.ofList (path.toList.takeWhile (· ≠ '?'))

/-- `sign_path`. -/
def signPath (userId tenantId : String) : String := beforeQuery (requestPath userId tenantId)

/-- `payload` of `_sign`. -/
def payload (method path timestamp : String) : ByteArray := (method ++ path ++ timestamp).toUTF8

/-- `HeliosClient._sign`. -/
def sign (hmacSha256 : ByteArray → ByteArray → String) (client : HeliosClient)
    (method path timestamp : String) : String :=
  hmacSha256 client.signatureSharedSecret.toUTF8 (payload method path timestamp)

/-- What is handed to the fetch implementation. -/
structure Request where
  /-- The URL called. -/
  url : String
  /-- The headers, in the order of the dictionary. -/
  headers : List (String × String)

/-- The request of `fetch_user_permissions`. -/
def fetchRequest (hmacSha256 : ByteArray → ByteArray → String) (client : HeliosClient)
    (userId tenantId timestamp correlationId : String) : Request where
  url := stripSlashes client.baseUrl ++ requestPath userId tenantId
  headers := [
    ("x-source-service", client.sourceService),
    ("x-signature", sign hmacSha256 client "GET" (signPath userId tenantId) timestamp),
    ("x-timestamp", timestamp),
    ("x-correlation-id", correlationId),
    ("accept", "application/json")]

/-- The payload that is signed for a pair at some time. -/
def signedPayload (userId tenantId timestamp : String) : ByteArray :=
  payload "GET" (signPath userId tenantId) timestamp

/-- A quoted text has no question mark. -/
theorem question_not_mem_quote (text : String) : '?' ∉ (quote text).toList := by
  rintro h
  rcases mem_quote h with hfree | hpercent
  · exact absurd hfree (by decide)
  · exact absurd hpercent (by decide)

/-- What stands before the first question mark. -/
theorem beforeQuery_append {path : String} (h : '?' ∉ path.toList) (query : String) :
    beforeQuery (path ++ "?" ++ query) = path := by
  have hall : ∀ c ∈ path.toList, decide (c ≠ '?') = true := by
    rintro c hc
    exact decide_eq_true fun heq => h (heq ▸ hc)
  have hquestion : ("?" ++ query).toList = '?' :: query.toList := by simp
  rw [beforeQuery, String.append_assoc, String.toList_append, List.takeWhile_append_of_pos hall,
    hquestion, List.takeWhile_cons_of_neg (by simp), List.append_nil, String.ofList_toList]

/-- The query begins with the question mark. -/
theorem query_eq (t : String) : "?tenantId=" ++ quote t = "?" ++ ("tenantId=" ++ quote t) := by
  have hsplit : "?tenantId=" = "?" ++ "tenantId=" := by decide
  rw [hsplit, String.append_assoc]

/-- What is signed of the path ends with the user id. -/
theorem signPath_eq (u t : String) : signPath u t = "/internal/permissions/" ++ quote u := by
  have hfree : '?' ∉ ("/internal/permissions/" ++ quote u).toList := by
    rw [String.toList_append]
    rintro h
    rcases List.mem_append.mp h with h | h
    · exact absurd h (by decide)
    · exact question_not_mem_quote u h
  have hpath : requestPath u t =
      "/internal/permissions/" ++ quote u ++ "?" ++ ("tenantId=" ++ quote t) := by
    unfold requestPath
    rw [String.append_assoc, query_eq, ← String.append_assoc]
  unfold signPath
  rw [hpath]
  exact beforeQuery_append hfree _

/-- The path of the request determines both ids. -/
theorem requestPath_injective {u t u₂ t₂ : String} (h : requestPath u t = requestPath u₂ t₂) :
    u = u₂ ∧ t = t₂ := by
  have hsign : signPath u t = signPath u₂ t₂ := congrArg beforeQuery h
  rw [signPath_eq, signPath_eq, String.append_right_inj] at hsign
  obtain rfl := quote_injective hsign
  unfold requestPath at h
  rw [String.append_right_inj] at h
  exact ⟨rfl, quote_injective h⟩

/-- The signed payload determines the user, and nothing of the tenant; the path of the
request determines both. -/
theorem signed_for_user (u t u₂ t₂ timestamp : String) :
    (signedPayload u t timestamp = signedPayload u₂ t₂ timestamp ↔ u = u₂) ∧
      (requestPath u t = requestPath u₂ t₂ ↔ u = u₂ ∧ t = t₂) := by
  refine ⟨⟨fun h => ?_, ?_⟩, requestPath_injective, ?_⟩
  · have hpath := String.toByteArray_inj.mp h
    rw [String.append_left_inj, String.append_right_inj, signPath_eq, signPath_eq,
      String.append_right_inj] at hpath
    exact quote_injective hpath
  · rintro rfl
    unfold signedPayload
    rw [signPath_eq u t, signPath_eq u t₂]
  · rintro ⟨rfl, rfl⟩
    rfl

/-- A request is bound to its pair: the payload that is signed for it is signed for no other
pair at that time. -/
def BoundToPair (u t u₂ t₂ timestamp : String) : Prop :=
  signedPayload u t timestamp = signedPayload u₂ t₂ timestamp → u = u₂ ∧ t = t₂

/-- A request is bound to its pair against another one exactly when they are not for two tenants
of one user; for these the payloads are the same. -/
theorem bound_to_pair_iff (u t u₂ t₂ timestamp : String) :
    (BoundToPair u t u₂ t₂ timestamp ↔ (u = u₂ → t = t₂)) ∧
      (signedPayload u t timestamp = signedPayload u₂ t₂ timestamp ↔ u = u₂) ∧
      (requestPath u t = requestPath u₂ t₂ ↔ u = u₂ ∧ t = t₂) := by
  obtain ⟨hpayload, hpath⟩ := signed_for_user u t u₂ t₂ timestamp
  refine ⟨⟨fun hbound huser => ?_, fun htenant heq => ?_⟩, hpayload, hpath⟩
  · exact (hbound (hpayload.mpr huser)).2
  · have huser : u = u₂ := hpayload.mp heq
    exact ⟨huser, htenant huser⟩

/-- One signature serves two tenants. -/
theorem same_payload_for_two_tenants :
    ¬BoundToPair "user-1" "tenant-1" "user-1" "tenant-2" "1700000000" := by
  rintro hbinds
  have hpayload : signedPayload "user-1" "tenant-1" "1700000000" =
      signedPayload "user-1" "tenant-2" "1700000000" := by
    unfold signedPayload
    rw [signPath_eq "user-1" "tenant-1", signPath_eq "user-1" "tenant-2"]
  exact absurd (hbinds hpayload).2 (by decide)

end HeliosPermissions.SignedRequests
