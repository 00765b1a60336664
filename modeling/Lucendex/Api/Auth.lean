import Lucendex.Api.Handlers

/-!
# The request-signing middleware and its replay ledger

`authenticate` follows `AuthMiddleware.Middleware` from the headers to `ed25519.Verify`, and
`middleware` adds the `StoreRequestID` that ends it.  The parsers and the cryptography of Go's
library (`uuid.Parse`, `time.Parse` with RFC 3339, `sha256.Sum256`, base64 and hex decoding,
`ed25519.Verify`) are the fields of `AuthEnv`, so every result holds whatever they compute.

`time.Since` saturates at the range of a `Duration`, and the middleware negates a negative drift
as an `int64`.  So `driftOk` accepts a timestamp within 60 s of the clock, and also one at least
`2^63` ns, about 292 years, ahead of it (`driftOk_iff`).

The replay ledger is the table `request_ids`, whose primary key is `request_id`.  The database
function `cleanup_expired_quotes` deletes its rows whose `expires_at` has passed.  In
`AuthSystem` the executions of the middleware interleave: each checks its request at one time
(`AuthEvent.check`) and stores its request id at a later one (`AuthEvent.store`), and the cleanup
runs in between.

* `replay_rejected`: when every execution stores within two minutes of its checks, no two
  executions are accepted for one partner, request id and timestamp, unless the timestamp is
  `2^63` ns ahead of the clock.  The 60 s on either side of the timestamp span exactly the two
  minutes a row lives.
* `middleware_replays_far_future`: a request stamped `2^63` ns ahead of the clock is accepted
  again once its row has been cleaned up.
* `middleware_passes_fresh_request_id`: the canonical request the signature covers leaves out
  `X-Request-Id`, so a request that was passed is passed again under any fresh request id while
  its timestamp is within the drift.
* `canonicalRequest_binds`: everything else the signature covers is bound by it: one canonical
  request comes from one method, path, query, body hash and timestamp.

The version modelled is the one with `GetActiveAPIKey`, where a failed `StoreRequestID` rejects
the request.  Database errors other than a missing row, the `quote_registry` half of
`cleanup_expired_quotes`, the logging and the request context are left out.
-/

namespace Lucendex.Api

open Lucendex.Go

/-- A `uuid.UUID`, as its bytes. -/
abbrev Uuid := List UInt8

/-- The functions of Go's library the middleware calls. -/
structure AuthEnv where
  /-- `uuid.Parse`. -/
  parseUuid : String → Option Uuid
  /-- `time.Parse(time.RFC3339, s)`, in nanoseconds since the epoch. -/
  parseRFC3339 : String → Option Int
  /-- `sha256.Sum256`. -/
  sum256 : List UInt8 → List UInt8
  /-- `base64.StdEncoding.DecodeString`. -/
  base64Decode : String → Option (List UInt8)
  /-- `hex.DecodeString`. -/
  hexDecode : String → Option (List UInt8)
  /-- `ed25519.Verify(publicKey, message, sig)`. -/
  verify : List UInt8 → List UInt8 → List UInt8 → Bool

/-- An HTTP request as the middleware reads it: the four authentication headers, the method,
the path and raw query of its URL, and its body. -/
structure HttpRequest where
  partnerId : String
  requestId : String
  timestamp : String
  signature : String
  method : String
  path : String
  rawQuery : String
  body : List UInt8
  deriving DecidableEq, Repr

/-- A `partners` row: the status the middleware checks, and the partner the handlers read. -/
structure PartnerRow where
  status : String
  partner : Partner
  deriving DecidableEq, Repr

/-- A `request_ids` row. -/
structure RequestIdRow where
  requestID : Uuid
  partnerID : Uuid
  timestamp : Int
  expiresAt : Int
  deriving DecidableEq, Repr

/-- The tables the middleware reads and writes: the partners, the active API key of each
partner (its public key in hex), and the request ids. -/
structure AuthDb where
  partners : List (Uuid × PartnerRow)
  apiKeys : List (Uuid × String)
  requestIds : List RequestIdRow
  deriving DecidableEq, Repr

/-- `60*time.Second`, the largest drift of a timestamp. -/
def maxDrift : Int := 60 * 10 ^ 9

/-- `2*time.Minute`, how long a request id is kept. -/
def requestIdTtl : Int := 2 * 60 * 10 ^ 9

/-- `1<<20`, the largest body `http.MaxBytesReader` lets through. -/
def maxBodyBytes : Nat := 2 ^ 20

/-! ### The checks -/

/-- `t.Sub(u)` in nanoseconds: the difference, saturated to the range of a `Duration`. -/
def timeSub (t u : Int) : Int :=
  if t - u < -2 ^ 63 then -2 ^ 63 else if 2 ^ 63 - 1 < t - u then 2 ^ 63 - 1 else t - u

/-- The timestamp check at time `now`: `drift := time.Since(ts)`, negated as an `int64` when
negative, must not exceed 60 seconds. -/
def driftOk (now ts : Int) : Bool :=
  let drift := timeSub now ts
  let drift := if drift < 0 then wrapInt64 (-drift) else drift
  ¬ drift > maxDrift

/-- `CheckRequestID`: whether a row has the request id and the partner. -/
def checkRequestID (t : List RequestIdRow) (requestID partnerID : Uuid) : Bool :=
  t.any fun row => row.requestID = requestID ∧ row.partnerID = partnerID

/-- `StoreRequestID` at time `now`: the `INSERT`, which fails on a request id already present,
the table's primary key. -/
def storeRequestID (t : List RequestIdRow) (requestID partnerID : Uuid) (now expiresAt : Int) :
    Option (List RequestIdRow) :=
  if t.any (·.requestID = requestID) then none
  else some (⟨requestID, partnerID, now, expiresAt⟩ :: t)

/-- The `request_ids` half of `cleanup_expired_quotes()` at time `now`:
`DELETE FROM request_ids WHERE expires_at < now()`. -/
def cleanupRequestIds (t : List RequestIdRow) (now : Int) : List RequestIdRow :=
  t.filter fun row => ¬ row.expiresAt < now

/-- The canonical request the signature covers,
`fmt.Sprintf("%s\n%s\n%s\n%x\n%s", method, path, rawQuery, bodyHash, timestamp)`. -/
def canonicalRequest (method path rawQuery : String) (bodyHash : List UInt8)
    (timestamp : String) : String :=
  method ++ "\n" ++ path ++ "\n" ++ rawQuery ++ "\n" ++ encodeToString bodyHash ++ "\n" ++
    timestamp

/-- The headers of the middleware, up to `time.Parse`: the partner id, the request id and the
timestamp, or the status and message written. -/
def parseHeaders (env : AuthEnv) (r : HttpRequest) : Except (Nat × String) (Uuid × Uuid × Int) := do
  if r.partnerId = "" ∨ r.requestId = "" ∨ r.timestamp = "" ∨ r.signature = "" then
    throw (401, "missing authentication headers")
  let some partnerID := env.parseUuid r.partnerId | throw (401, "invalid partner-id format")
  let some requestID := env.parseUuid r.requestId | throw (401, "invalid request-id format")
  let some ts := env.parseRFC3339 r.timestamp | throw (401, "invalid timestamp format")
  return (partnerID, requestID, ts)

/-- The middleware from `GetPartnerByID` to `ed25519.Verify`: the partner's row, or the status
and message written. -/
def verifyRequest (env : AuthEnv) (db : AuthDb) (partnerID : Uuid) (r : HttpRequest) :
    Except (Nat × String) PartnerRow := do
  let some row := db.partners.lookup partnerID | throw (401, "invalid partner")
  if row.status ≠ "active" then throw (403, "partner account suspended")
  if maxBodyBytes < r.body.length then throw (400, "failed to read request body")
  let canonical := canonicalRequest r.method r.path r.rawQuery (env.sum256 r.body) r.timestamp
  let some publicKey := db.apiKeys.lookup partnerID | throw (401, "invalid partner")
  let some sigBytes := env.base64Decode r.signature | throw (401, "invalid signature encoding")
  let some pubKeyBytes := env.hexDecode publicKey | throw (500, "authentication error")
  if pubKeyBytes.length ≠ 32 then throw (500, "authentication error")
  if ¬ env.verify pubKeyBytes (goBytes canonical) sigBytes then throw (401, "invalid signature")
  return row

/-- What an execution of the middleware has checked: the request id, the partner, the parsed
timestamp, and the partner's row. -/
structure Authorized where
  requestID : Uuid
  partnerID : Uuid
  timestamp : Int
  row : PartnerRow
  deriving DecidableEq, Repr

/-- The checks of `AuthMiddleware.Middleware` at time `now`, up to `ed25519.Verify`. -/
def authenticate (env : AuthEnv) (db : AuthDb) (now : Int) (r : HttpRequest) :
    Except (Nat × String) Authorized := do
  let (partnerID, requestID, ts) ← parseHeaders env r
  if ¬ driftOk now ts then throw (401, "invalid or expired timestamp")
  if checkRequestID db.requestIds requestID partnerID then
    throw (401, "duplicate request-id (replay attack)")
  let row ← verifyRequest env db partnerID r
  return ⟨requestID, partnerID, ts, row⟩

/-- What the middleware does with a request: the status and message of `writeError`, or the
partner it passes on to the handler. -/
inductive AuthResult where
  | error (status : Nat) (message : String)
  | pass (partnerID : Uuid) (row : PartnerRow)
  deriving DecidableEq, Repr

/-- `am.Middleware(next)` on one request at time `now`, run alone: the database afterwards and
what the request gets. -/
def middleware (env : AuthEnv) (db : AuthDb) (now : Int) (r : HttpRequest) : AuthDb × AuthResult :=
  match authenticate env db now r with
  | .error (status, message) => (db, .error status message)
  | .ok a =>
    match storeRequestID db.requestIds a.requestID a.partnerID now (now + requestIdTtl) with
    | none => (db, .error 500 "failed to process request")
    | some t => ({ db with requestIds := t }, .pass a.partnerID a.row)

/-! ### What the checks accept -/

/-- The drift check accepts a timestamp within 60 s of the clock, and one at least `2^63` ns
ahead of it, where `time.Since` saturates to the least `Duration` and its negation overflows
back to it. -/
theorem driftOk_iff {now ts : Int} :
    driftOk now ts = true ↔ (ts - maxDrift ≤ now ∧ now ≤ ts + maxDrift) ∨ now + 2 ^ 63 ≤ ts := by
  simp only [driftOk, timeSub, wrapInt64, maxDrift, decide_eq_true_eq]
  split_ifs <;> omega

/-- The checks pass exactly when the headers parse, the timestamp passes the drift check, no row
has the request id and the partner, and the signature verifies. -/
theorem authenticate_eq_ok_iff {env : AuthEnv} {db : AuthDb} {now : Int} {r : HttpRequest}
    {a : Authorized} :
    authenticate env db now r = .ok a ↔
      parseHeaders env r = .ok (a.partnerID, a.requestID, a.timestamp) ∧
        driftOk now a.timestamp = true ∧
        checkRequestID db.requestIds a.requestID a.partnerID = false ∧
        verifyRequest env db a.partnerID r = .ok a.row := by
  obtain ⟨requestID, partnerID, timestamp, row⟩ := a
  unfold authenticate
  cases hp : parseHeaders env r with
  | error e => simp [bind, Except.bind]
  | ok v =>
    obtain ⟨pid, rid, ts⟩ := v
    by_cases hd : driftOk now ts <;> by_cases hc : checkRequestID db.requestIds rid pid <;>
      cases hv : verifyRequest env db pid r <;>
      simp [bind, Except.bind, hd, hc, hv, pure, Except.pure, throw, throwThe,
        MonadExceptOf.throw] <;>
      aesop

/-- A row with the request id and the partner makes `CheckRequestID` report the request. -/
theorem checkRequestID_of_mem {t : List RequestIdRow} {row : RequestIdRow} (h : row ∈ t) :
    checkRequestID t row.requestID row.partnerID = true :=
  List.any_eq_true.mpr ⟨row, h, by simp⟩

/-- A successful `StoreRequestID` found no row with the request id, and prepends its own. -/
theorem storeRequestID_eq_some {t t' : List RequestIdRow} {requestID partnerID : Uuid}
    {now expiresAt : Int} (h : storeRequestID t requestID partnerID now expiresAt = some t') :
    (∀ row ∈ t, row.requestID ≠ requestID) ∧ t' = ⟨requestID, partnerID, now, expiresAt⟩ :: t := by
  unfold storeRequestID at h
  split at h
  · cases h
  · rename_i hany
    simp only [List.any_eq_true, decide_eq_true_eq, not_exists, not_and] at hany
    exact ⟨hany, (Option.some.inj h).symm⟩

/-- The cleanup keeps exactly the rows that have not expired. -/
theorem mem_cleanupRequestIds {t : List RequestIdRow} {now : Int} {row : RequestIdRow} :
    row ∈ cleanupRequestIds t now ↔ row ∈ t ∧ now ≤ row.expiresAt := by
  simp [cleanupRequestIds]

/-- With no row of the request id, `CheckRequestID` finds nothing. -/
theorem checkRequestID_of_fresh {t : List RequestIdRow} {requestID partnerID : Uuid}
    (h : ∀ row ∈ t, row.requestID ≠ requestID) : checkRequestID t requestID partnerID = false := by
  simp only [checkRequestID, List.any_eq_false, decide_eq_true_eq, not_and]
  exact fun row hrow hid => absurd hid (h row hrow)

/-- With no row of the request id, `StoreRequestID` inserts its row. -/
theorem storeRequestID_of_fresh {t : List RequestIdRow} {requestID partnerID : Uuid}
    {now expiresAt : Int} (h : ∀ row ∈ t, row.requestID ≠ requestID) :
    storeRequestID t requestID partnerID now expiresAt =
      some (⟨requestID, partnerID, now, expiresAt⟩ :: t) := by
  simp only [storeRequestID, List.any_eq_true, decide_eq_true_eq]
  rw [if_neg fun ⟨row, hrow, hid⟩ => h row hrow hid]

/-- The headers parse exactly when all four are present and `uuid.Parse` and `time.Parse` read
them. -/
theorem parseHeaders_eq_ok_iff {env : AuthEnv} {r : HttpRequest} {partnerID requestID : Uuid}
    {ts : Int} :
    parseHeaders env r = .ok (partnerID, requestID, ts) ↔
      (r.partnerId ≠ "" ∧ r.requestId ≠ "" ∧ r.timestamp ≠ "" ∧ r.signature ≠ "") ∧
        env.parseUuid r.partnerId = some partnerID ∧ env.parseUuid r.requestId = some requestID ∧
        env.parseRFC3339 r.timestamp = some ts := by
  unfold parseHeaders
  split_ifs with h
  · simp only [throw, throwThe, MonadExceptOf.throw, reduceCtorEq, false_iff]
    tauto
  · cases hp : env.parseUuid r.partnerId <;> cases hq : env.parseUuid r.requestId <;>
      cases ht : env.parseRFC3339 r.timestamp <;>
      simp [hp, hq, ht, bind, Except.bind, pure, Except.pure, throw, throwThe,
        MonadExceptOf.throw]
    tauto

/-- The signature checks do not read the request ids. -/
theorem verifyRequest_requestIds (env : AuthEnv) (db : AuthDb) (t : List RequestIdRow)
    (partnerID : Uuid) (r : HttpRequest) :
    verifyRequest env { db with requestIds := t } partnerID r = verifyRequest env db partnerID r :=
  rfl

/-- The signature checks do not read `X-Request-Id`: the canonical request leaves it out. -/
theorem verifyRequest_requestId (env : AuthEnv) (db : AuthDb) (partnerID : Uuid)
    (r : HttpRequest) (requestId : String) :
    verifyRequest env db partnerID { r with requestId := requestId } =
      verifyRequest env db partnerID r :=
  rfl

/-- A request the middleware passes was checked and stored: the checks passed, and its row is
the new first row. -/
theorem middleware_eq_pass {env : AuthEnv} {db db₁ : AuthDb} {now : Int} {r : HttpRequest}
    {partnerID : Uuid} {row : PartnerRow} (h : middleware env db now r = (db₁, .pass partnerID row)) :
    ∃ a, authenticate env db now r = .ok a ∧ a.partnerID = partnerID ∧ a.row = row ∧
      (∀ row ∈ db.requestIds, row.requestID ≠ a.requestID) ∧
      db₁ = { db with requestIds := ⟨a.requestID, a.partnerID, now, now + requestIdTtl⟩ ::
        db.requestIds } := by
  unfold middleware at h
  split at h
  · cases h
  rename_i a ha
  split at h
  · cases h
  rename_i t ht
  obtain ⟨hfree, rfl⟩ := storeRequestID_eq_some ht
  simp only [Prod.mk.injEq, AuthResult.pass.injEq] at h
  exact ⟨a, ha, h.2.1, h.2.2, hfree, h.1.symm⟩

/-! ### A far-future timestamp -/

/-- A request stamped `2^63` ns or more ahead of the clock is accepted again: once its row has
expired and been cleaned up, the drift check still lets its timestamp through, and the
middleware passes it for the same partner. -/
theorem middleware_replays_far_future {env : AuthEnv} {db db₁ : AuthDb} {r : HttpRequest}
    {now now' ts : Int} {partnerID : Uuid} {row : PartnerRow}
    (h : middleware env db now r = (db₁, .pass partnerID row))
    (hts : env.parseRFC3339 r.timestamp = some ts) (hfar : now' + 2 ^ 63 ≤ ts)
    (hlate : now + requestIdTtl < now') :
    (middleware env { db₁ with requestIds := cleanupRequestIds db₁.requestIds now' } now' r).2 =
      .pass partnerID row := by
  obtain ⟨a, ha, rfl, rfl, hfree, hdb⟩ := middleware_eq_pass h
  obtain ⟨hp, -, -, hv⟩ := authenticate_eq_ok_iff.mp ha
  have hta : a.timestamp = ts :=
    Option.some.inj ((parseHeaders_eq_ok_iff.mp hp).2.2.2.symm.trans hts)
  -- the cleanup has deleted the request's own row, and no other row has its request id
  have hgone : ∀ row ∈ cleanupRequestIds db₁.requestIds now', row.requestID ≠ a.requestID :=
      fun row hrow hid => by
    obtain ⟨hrow, hlive⟩ := mem_cleanupRequestIds.mp hrow
    rw [hdb] at hrow
    rcases List.mem_cons.mp hrow with rfl | hrow
    · exact absurd hlive (not_le.mpr hlate)
    · exact hfree row hrow hid
  have hv' : verifyRequest env { db₁ with requestIds := cleanupRequestIds db₁.requestIds now' }
      a.partnerID r = .ok a.row := by
    rw [verifyRequest_requestIds, hdb, verifyRequest_requestIds]
    exact hv
  have ha' : authenticate env { db₁ with requestIds := cleanupRequestIds db₁.requestIds now' }
      now' r = .ok a :=
    authenticate_eq_ok_iff.mpr ⟨hp, driftOk_iff.mpr (.inr (hta ▸ hfar)),
      checkRequestID_of_fresh hgone, hv'⟩
  simp only [middleware, ha', storeRequestID_of_fresh hgone]

/-- A request stamped `2^64` ns after the epoch, passed at time 0 and again just after its
row's two minutes, once the cleanup has run. -/
theorem middleware_replays_far_future_run :
    (middleware ⟨fun s => some (goBytes s), fun _ => some (2 ^ 64), id, fun s => some (goBytes s),
        fun _ => some (List.replicate 32 0), fun _ _ _ => true⟩
      ⟨[(goBytes "p", ⟨"active", ⟨10⟩⟩)], [(goBytes "p", "k")],
        cleanupRequestIds [⟨goBytes "q", goBytes "p", 0, 0 + requestIdTtl⟩] (requestIdTtl + 1)⟩
      (requestIdTtl + 1) ⟨"p", "q", "t", "s", "POST", "/v1/quote", "", []⟩).2 =
      .pass (goBytes "p") ⟨"active", ⟨10⟩⟩ :=
  @middleware_replays_far_future _ ⟨[(goBytes "p", ⟨"active", ⟨10⟩⟩)], [(goBytes "p", "k")], []⟩
    ⟨[(goBytes "p", ⟨"active", ⟨10⟩⟩)], [(goBytes "p", "k")],
      [⟨goBytes "q", goBytes "p", 0, 0 + requestIdTtl⟩]⟩ _ 0 (requestIdTtl + 1) (2 ^ 64) _ _
    (by decide) rfl (by decide) (by decide)

/-! ### An unsigned request id -/

/-- The signature does not cover `X-Request-Id`: a request the middleware passed is passed again
under any other request id that parses and has no row, at any time its timestamp is still within
the drift, for the same partner. -/
theorem middleware_passes_fresh_request_id {env : AuthEnv} {db db₁ : AuthDb} {r : HttpRequest}
    {now now' ts : Int} {partnerID : Uuid} {row : PartnerRow} {requestId : String}
    {requestID : Uuid} (h : middleware env db now r = (db₁, .pass partnerID row))
    (hts : env.parseRFC3339 r.timestamp = some ts) (hdrift : driftOk now' ts = true)
    (hne : requestId ≠ "") (hid : env.parseUuid requestId = some requestID)
    (hfresh : ∀ row ∈ db₁.requestIds, row.requestID ≠ requestID) :
    (middleware env db₁ now' { r with requestId := requestId }).2 = .pass partnerID row := by
  obtain ⟨a, ha, rfl, rfl, -, hdb⟩ := middleware_eq_pass h
  obtain ⟨hp, -, -, hv⟩ := authenticate_eq_ok_iff.mp ha
  obtain ⟨⟨h1, -, h3, h4⟩, hpid, -, hts'⟩ := parseHeaders_eq_ok_iff.mp hp
  have hta : a.timestamp = ts := Option.some.inj (hts'.symm.trans hts)
  -- the same checks, with the new request id in place of the old one
  have ha' : authenticate env db₁ now' { r with requestId := requestId } =
      .ok ⟨requestID, a.partnerID, a.timestamp, a.row⟩ :=
    authenticate_eq_ok_iff.mpr ⟨parseHeaders_eq_ok_iff.mpr ⟨⟨h1, hne, h3, h4⟩, hpid, hid, hts'⟩,
      hta ▸ hdrift, checkRequestID_of_fresh hfresh,
      by rw [verifyRequest_requestId, hdb, verifyRequest_requestIds]; exact hv⟩
  simp only [middleware, ha', storeRequestID_of_fresh hfresh]

/-- A request passed at time 0 under the request id `q`, and again at once under `q2`. -/
theorem middleware_passes_fresh_request_id_run :
    (middleware ⟨fun s => some (goBytes s), fun _ => some 0, id, fun s => some (goBytes s),
        fun _ => some (List.replicate 32 0), fun _ _ _ => true⟩
      ⟨[(goBytes "p", ⟨"active", ⟨10⟩⟩)], [(goBytes "p", "k")],
        [⟨goBytes "q", goBytes "p", 0, 0 + requestIdTtl⟩]⟩
      0 ⟨"p", "q2", "t", "s", "POST", "/v1/quote", "", []⟩).2 =
      .pass (goBytes "p") ⟨"active", ⟨10⟩⟩ :=
  @middleware_passes_fresh_request_id _ ⟨[(goBytes "p", ⟨"active", ⟨10⟩⟩)], [(goBytes "p", "k")], []⟩
    _ ⟨"p", "q", "t", "s", "POST", "/v1/quote", "", []⟩ 0 0 0 _ _ "q2" (goBytes "q2")
    (by decide) rfl (by decide) (by decide) rfl (by decide)

/-! ### What the signature covers -/

theorem canonicalRequest_data (method path rawQuery : String) (bodyHash : List UInt8)
    (timestamp : String) :
    (canonicalRequest method path rawQuery bodyHash timestamp).data =
      method.data ++ '\n' :: (path.data ++ '\n' :: (rawQuery.data ++ '\n' ::
        ((encodeToString bodyHash).data ++ '\n' :: timestamp.data))) := by
  simp [canonicalRequest, List.append_assoc]

/-- The canonical request determines the method, the path, the raw query, the body's hash and
the timestamp it joins, when the method, the query and the timestamp hold no newline.  The path
may hold one (`URL.Path` is decoded), since the fields after it are read from the right. -/
theorem canonicalRequest_binds {m p q t m' p' q' t' : String} {b b' : List UInt8}
    (hm : '\n' ∉ m.data) (hm' : '\n' ∉ m'.data) (hq : '\n' ∉ q.data) (hq' : '\n' ∉ q'.data)
    (ht : '\n' ∉ t.data) (ht' : '\n' ∉ t'.data)
    (h : canonicalRequest m p q b t = canonicalRequest m' p' q' b' t') :
    m = m' ∧ p = p' ∧ q = q' ∧ b = b' ∧ t = t' := by
  have hd := congrArg String.data h
  simp only [canonicalRequest_data] at hd
  obtain ⟨hmm, hd⟩ := append_cons_inj hm hm' hd
  have hr := congrArg List.reverse hd
  simp only [List.reverse_append, List.reverse_cons, List.append_assoc, List.singleton_append,
    List.cons_append, List.nil_append] at hr
  have hx := newline_not_mem_encodeToString
  obtain ⟨htt, hr⟩ := append_cons_inj (mt List.mem_reverse.1 ht) (mt List.mem_reverse.1 ht') hr
  obtain ⟨hbb, hr⟩ :=
    append_cons_inj (mt List.mem_reverse.1 (hx b)) (mt List.mem_reverse.1 (hx b')) hr
  obtain ⟨hqq, hpp⟩ := append_cons_inj (mt List.mem_reverse.1 hq) (mt List.mem_reverse.1 hq') hr
  rw [List.reverse_inj] at htt hbb hqq hpp
  exact ⟨String.ext hmm, String.ext hpp, String.ext hqq, encodeToString_inj (String.ext hbb),
    String.ext htt⟩

/-- Two requests to a path that holds a newline, with one canonical request. -/
theorem canonicalRequest_binds_newline_path :
    "POST" = "POST" ∧ "/v1/\nquote" = "/v1/\nquote" ∧ "a=1" = "a=1" ∧
      ([1, 2] : List UInt8) = [1, 2] ∧ "t" = "t" :=
  canonicalRequest_binds (by decide) (by decide) (by decide) (by decide) (by decide) (by decide)
    rfl

/-! ### Interleaved executions -/

/-- An execution of the middleware between its checks and its `StoreRequestID`. -/
structure Pending where
  exec : Nat
  checkedAt : Int
  auth : Authorized
  deriving DecidableEq, Repr

/-- An execution that stored its request id and passed its request on. -/
structure Accepted where
  checkedAt : Int
  storedAt : Int
  auth : Authorized
  deriving DecidableEq, Repr

/-- The middleware's executions and the database: the time of the last event, the tables, the
executions between their checks and their store, and the accepted ones, latest first. -/
structure AuthSystem where
  clock : Int
  db : AuthDb
  pending : List Pending
  accepted : List Accepted
  deriving DecidableEq, Repr

/-- An event of the system: an execution checks a request, an execution stores its request id,
or the database runs `cleanup_expired_quotes`. -/
inductive AuthEvent where
  | check (exec : Nat) (r : HttpRequest)
  | store (exec : Nat)
  | cleanup
  deriving DecidableEq, Repr

namespace AuthSystem

/-- The system after the event `e` at time `now`. -/
def step (env : AuthEnv) (s : AuthSystem) (now : Int) : AuthEvent → AuthSystem
  | .check exec r =>
    match authenticate env s.db now r with
    | .ok a => { s with clock := now, pending := ⟨exec, now, a⟩ :: s.pending }
    | .error _ => { s with clock := now }
  | .store exec =>
    match s.pending.find? (·.exec = exec) with
    | none => { s with clock := now }
    | some p =>
      let pending := s.pending.filter (·.exec ≠ exec)
      match storeRequestID s.db.requestIds p.auth.requestID p.auth.partnerID now
          (now + requestIdTtl) with
      | none => { s with clock := now, pending := pending }
      | some t =>
        { clock := now, db := { s.db with requestIds := t }, pending := pending,
          accepted := ⟨p.checkedAt, now, p.auth⟩ :: s.accepted }
  | .cleanup =>
    { s with clock := now, db := { s.db with requestIds := cleanupRequestIds s.db.requestIds now } }

/-- Run alone, an execution that checks and stores at one time is `middleware`: the database
afterwards is the middleware's, and the other executions are untouched. -/
theorem step_check_store (env : AuthEnv) (s : AuthSystem) (now : Int) (exec : Nat)
    (r : HttpRequest) (hfresh : ∀ p ∈ s.pending, p.exec ≠ exec) :
    ((s.step env now (.check exec r)).step env now (.store exec)).db =
        (middleware env s.db now r).1 ∧
      ((s.step env now (.check exec r)).step env now (.store exec)).pending = s.pending := by
  have hfind : s.pending.find? (·.exec = exec) = none :=
    List.find?_eq_none.mpr fun p hp => by simpa using hfresh p hp
  unfold middleware
  cases ha : authenticate env s.db now r with
  | error e => simp [step, ha, hfind]
  | ok a =>
    cases hs : storeRequestID s.db.requestIds a.requestID a.partnerID now (now + requestIdTtl) <;>
      simpa [step, ha, hs] using hfresh

/-- The system after a run of timed events. -/
def run (env : AuthEnv) : AuthSystem → List (Int × AuthEvent) → AuthSystem
  | s, [] => s
  | s, (now, e) :: es => (s.step env now e).run env es

/-- An event at time `now` is admissible: the clock does not go back, and an execution stores
its request id within `requestIdTtl` of its checks. -/
def Admissible (s : AuthSystem) (now : Int) : AuthEvent → Prop
  | .store exec => s.clock ≤ now ∧ ∀ p ∈ s.pending, p.exec = exec → now ≤ p.checkedAt + requestIdTtl
  | _ => s.clock ≤ now

instance (s : AuthSystem) (now : Int) : (e : AuthEvent) → Decidable (s.Admissible now e)
  | .check _ _ => inferInstanceAs (Decidable (s.clock ≤ now))
  | .store exec => inferInstanceAs (Decidable (s.clock ≤ now ∧
      ∀ p ∈ s.pending, p.exec = exec → now ≤ p.checkedAt + requestIdTtl))
  | .cleanup => inferInstanceAs (Decidable (s.clock ≤ now))

/-- Every event of the run is admissible in the state it meets. -/
def AdmissibleRun (env : AuthEnv) : AuthSystem → List (Int × AuthEvent) → Prop
  | _, [] => True
  | s, (now, e) :: es => s.Admissible now e ∧ (s.step env now e).AdmissibleRun env es

instance decidableAdmissibleRun (env : AuthEnv) :
    (s : AuthSystem) → (es : List (Int × AuthEvent)) → Decidable (s.AdmissibleRun env es)
  | _, [] => isTrue trivial
  | s, (now, e) :: es =>
    have := decidableAdmissibleRun env (s.step env now e) es
    inferInstanceAs (Decidable (s.Admissible now e ∧ (s.step env now e).AdmissibleRun env es))

end AuthSystem

/-- The timestamp was not `2^63` ns ahead of the clock when the execution checked it. -/
def Pending.inRange (p : Pending) : Bool :=
  p.auth.timestamp < p.checkedAt + 2 ^ 63

/-- The timestamp was not `2^63` ns ahead of the clock when the execution checked it. -/
def Accepted.inRange (a : Accepted) : Bool :=
  a.auth.timestamp < a.checkedAt + 2 ^ 63

/-- What a replay repeats: the partner, the request id and the timestamp. -/
def Pending.key (p : Pending) : Uuid × Uuid × Int :=
  (p.auth.partnerID, p.auth.requestID, p.auth.timestamp)

/-- What a replay repeats: the partner, the request id and the timestamp. -/
def Accepted.key (a : Accepted) : Uuid × Uuid × Int :=
  (a.auth.partnerID, a.auth.requestID, a.auth.timestamp)

/-! ### The replay ledger's invariant -/

/-- What the ledger keeps true along a run: accepted executions keep their rows while the rows
live, every execution was checked within the drift of its timestamp, a pending execution was
checked before any accepted execution of its key stored, and no key is accepted twice.  The
clauses speak of the executions whose timestamps are not `2^63` ns ahead. -/
structure ReplayInv (s : AuthSystem) : Prop where
  row : ∀ a ∈ s.accepted, a.inRange = true → s.clock ≤ a.storedAt + requestIdTtl →
    ⟨a.auth.requestID, a.auth.partnerID, a.storedAt, a.storedAt + requestIdTtl⟩ ∈ s.db.requestIds
  accepted : ∀ a ∈ s.accepted, a.inRange = true →
    a.auth.timestamp - maxDrift ≤ a.checkedAt ∧ a.checkedAt ≤ a.auth.timestamp + maxDrift ∧
      a.checkedAt ≤ a.storedAt
  pending : ∀ p ∈ s.pending, p.checkedAt ≤ s.clock ∧ (p.inRange = true →
    p.auth.timestamp - maxDrift ≤ p.checkedAt ∧ p.checkedAt ≤ p.auth.timestamp + maxDrift ∧
      ∀ a ∈ s.accepted, a.inRange = true → a.key = p.key → p.checkedAt ≤ a.storedAt)
  nodup : ((s.accepted.filter (·.inRange)).map (·.key)).Nodup

namespace ReplayInv

variable {env : AuthEnv} {s : AuthSystem} {now : Int}

theorem init (hp : s.pending = []) (ha : s.accepted = []) : ReplayInv s :=
  ⟨by simp [ha], by simp [ha], by simp [hp], by simp [ha]⟩

/-- The two minutes a row lives are the 60 s on either side of its timestamp. -/
theorem requestIdTtl_eq : requestIdTtl = 2 * maxDrift := rfl

/-- A timestamp in range that passed the drift check is within 60 s of the check. -/
theorem within_drift {c ts : Int} (hd : driftOk c ts = true) (hr : ts < c + 2 ^ 63) :
    ts - maxDrift ≤ c ∧ c ≤ ts + maxDrift := by
  rcases driftOk_iff.mp hd with h | h
  · exact h
  · omega

/-- Time passes and executions leave the pending list. -/
theorem advance (hi : ReplayInv s) (hclock : s.clock ≤ now) {pending : List Pending}
    (hsub : ∀ p ∈ pending, p ∈ s.pending) :
    ReplayInv { s with clock := now, pending := pending } where
  row a ha hr hlive := hi.row a ha hr (le_trans hclock hlive)
  accepted := hi.accepted
  pending p hp := by
    obtain ⟨hc, h⟩ := hi.pending p (hsub p hp)
    exact ⟨le_trans hc hclock, h⟩
  nodup := hi.nodup

/-- A check keeps the invariant: an execution of a key already accepted within the last two
minutes finds its row and is rejected. -/
theorem check (hi : ReplayInv s) (hclock : s.clock ≤ now) (exec : Nat) (r : HttpRequest) :
    ReplayInv (s.step env now (.check exec r)) := by
  dsimp only [AuthSystem.step]
  split
  · rename_i a ha
    obtain ⟨-, hd, hc, -⟩ := authenticate_eq_ok_iff.mp ha
    refine ⟨fun b hb hr hlive => hi.row b hb hr (le_trans hclock hlive), hi.accepted, ?_, hi.nodup⟩
    intro p hp
    rcases List.mem_cons.mp hp with rfl | hp
    · refine ⟨le_refl _, fun hr => ?_⟩
      have hw := within_drift hd (of_decide_eq_true hr)
      refine ⟨hw.1, hw.2, fun b hb hbr hkey => ?_⟩
      obtain ⟨hb1, hb2, hb3⟩ := hi.accepted b hb hbr
      simp only [Accepted.key, Pending.key, Prod.mk.injEq] at hkey
      obtain ⟨hpid, hrid, hts⟩ := hkey
      by_contra hlt
      have hrow := hi.row b hb hbr (by rw [requestIdTtl_eq]; omega)
      have := checkRequestID_of_mem hrow
      simp only [hpid, hrid] at this
      simp [this] at hc
    · obtain ⟨hc', h⟩ := hi.pending p hp
      exact ⟨le_trans hc' hclock, h⟩
  · exact hi.advance hclock fun p hp => hp

/-- A store keeps the invariant: an execution that stores within two minutes of its checks finds
the row of any accepted execution of its key, and the primary key rejects it. -/
theorem store (hi : ReplayInv s) {exec : Nat} (hadm : s.Admissible now (.store exec)) :
    ReplayInv (s.step env now (.store exec)) := by
  obtain ⟨hclock, hlat⟩ := hadm
  dsimp only [AuthSystem.step]
  split
  · exact hi.advance hclock fun p hp => hp
  rename_i p hfind
  have hp : p ∈ s.pending := List.mem_of_find?_eq_some hfind
  have hlate : now ≤ p.checkedAt + requestIdTtl :=
    hlat p hp (by simpa using List.find?_some hfind)
  have hsub : ∀ q ∈ s.pending.filter (·.exec ≠ exec), q ∈ s.pending :=
    fun q hq => (List.mem_filter.mp hq).1
  split
  · exact hi.advance hclock hsub
  rename_i t hstore
  obtain ⟨hfree, rfl⟩ := storeRequestID_eq_some hstore
  obtain ⟨hpc, hpr⟩ := hi.pending p hp
  -- an accepted execution of `p`'s key still has its row, which `p`'s insert would meet
  have hnew : p.inRange = true → ∀ a ∈ s.accepted, a.inRange = true → a.key ≠ p.key :=
      fun hpin a ha har hkey => by
    have hrow := hi.row a ha har (by have := (hpr hpin).2.2 a ha har hkey; omega)
    simp only [Accepted.key, Pending.key, Prod.mk.injEq] at hkey
    exact hfree _ hrow hkey.2.1
  refine ⟨?_, ?_, ?_, ?_⟩
  · intro a ha har hlive
    rcases List.mem_cons.mp ha with rfl | ha
    · exact List.mem_cons_self _ _
    · exact List.mem_cons_of_mem _ (hi.row a ha har (le_trans hclock hlive))
  · intro a ha har
    rcases List.mem_cons.mp ha with rfl | ha
    · obtain ⟨h1, h2, -⟩ := hpr har
      exact ⟨h1, h2, le_trans hpc hclock⟩
    · exact hi.accepted a ha har
  · intro q hq
    obtain ⟨hqc, hqr⟩ := hi.pending q (hsub q hq)
    refine ⟨le_trans hqc hclock, fun hr => ?_⟩
    obtain ⟨h1, h2, h3⟩ := hqr hr
    refine ⟨h1, h2, fun a ha har hkey => ?_⟩
    rcases List.mem_cons.mp ha with rfl | ha
    · exact le_trans hqc hclock
    · exact h3 a ha har hkey
  · rw [List.filter_cons]
    split
    · rw [List.map_cons, List.nodup_cons]
      refine ⟨fun hm => ?_, hi.nodup⟩
      obtain ⟨a, ha, hkey⟩ := List.mem_map.mp hm
      obtain ⟨ha, har⟩ := List.mem_filter.mp ha
      exact hnew ‹_› a ha har hkey
    · exact hi.nodup

/-- A cleanup keeps the invariant: it deletes no row before its two minutes have passed. -/
theorem cleanup (hi : ReplayInv s) (hclock : s.clock ≤ now) :
    ReplayInv (s.step env now .cleanup) where
  row a ha hr hlive :=
    mem_cleanupRequestIds.mpr ⟨hi.row a ha hr (le_trans hclock hlive), hlive⟩
  accepted := hi.accepted
  pending p hp := by
    obtain ⟨hc, h⟩ := hi.pending p hp
    exact ⟨le_trans hc hclock, h⟩
  nodup := hi.nodup

/-- Every admissible event keeps the invariant. -/
theorem step (hi : ReplayInv s) {e : AuthEvent} (hadm : s.Admissible now e) :
    ReplayInv (s.step env now e) := by
  cases e with
  | check exec r => exact hi.check hadm exec r
  | store exec => exact hi.store hadm
  | cleanup => exact hi.cleanup hadm

/-- Every admissible run keeps the invariant. -/
theorem run (hi : ReplayInv s) {es : List (Int × AuthEvent)} (hrun : s.AdmissibleRun env es) :
    ReplayInv (s.run env es) := by
  induction es generalizing s with
  | nil => exact hi
  | cons e es ih =>
    obtain ⟨now, e⟩ := e
    exact ih (hi.step hrun.1) hrun.2

end ReplayInv

/-- Over any interleaving of the middleware's executions and the database's cleanups, with a
clock that does not go back and each execution storing its request id within two minutes of its
checks, no partner, request id and timestamp are accepted twice, unless the timestamp was `2^63`
ns ahead of the clock when it was checked. -/
theorem replay_rejected (env : AuthEnv) (s : AuthSystem) (es : List (Int × AuthEvent))
    (hp : s.pending = []) (ha : s.accepted = []) (hrun : s.AdmissibleRun env es) :
    (((s.run env es).accepted.filter (·.inRange)).map (·.key)).Nodup :=
  ((ReplayInv.init hp ha).run hrun).nodup

/-- Two executions of one request check it at time 0, before either stores; the first stores at
time 1 and the second, at time 2, meets its row. -/
theorem replay_rejected_concurrent :
    (((AuthSystem.run ⟨fun s => some (goBytes s), fun _ => some 0, id, fun s => some (goBytes s),
        fun _ => some (List.replicate 32 0), fun _ _ _ => true⟩
      ⟨0, ⟨[(goBytes "p", ⟨"active", ⟨10⟩⟩)], [(goBytes "p", "k")], []⟩, [], []⟩
      [(0, .check 1 ⟨"p", "q", "t", "s", "POST", "/v1/quote", "", []⟩),
        (0, .check 2 ⟨"p", "q", "t", "s", "POST", "/v1/quote", "", []⟩),
        (1, .store 1), (2, .store 2), (3, .cleanup)]).accepted.filter (·.inRange)).map
      (·.key)).Nodup :=
  replay_rejected _ _ _ rfl rfl (by decide)

end Lucendex.Api
