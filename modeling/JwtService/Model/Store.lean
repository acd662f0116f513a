import JwtService.Model.World

/-!
# The token store (`JtiStore` of `models/jwt.rs`, `redis.rs`)

`JtiStore` is the trait the HTTP layer is generic over, as the record of its
operations; `redisClient` is the implementation on Redis that production
uses. The keys of the store are built by `subjectGroup`, `familyGroup`,
`refreshKey` and `totpCodeKey`, and a `jti` is a key of its own.

Opening the connection is not a call of its own here: a connection that
cannot be opened is a first command that is lost.
-/

namespace JwtService

open Interaction Redis

inductive JtiError where
  | badConnection
  | wrongOperation
deriving DecidableEq, Repr

/-- The message of an error (`#[error(..)]`). -/
def JtiError.text : JtiError → String
  | .badConnection => "Bad connection"
  | .wrongOperation => "Wrong operation"

/-- A refresh token record. -/
structure RefreshRecord where
  subject : String
  audience : List String
  family : String
deriving DecidableEq, Repr

def totpCodeKey (hash : String) : String := "totp:used:" ++ hash

def subjectGroup (subject : String) : String := "group:sub:" ++ subject

def familyGroup (family : String) : String := "group:family:" ++ family

def refreshKey (id : String) : String := "refresh:" ++ id

/-- The store of token identifiers. -/
structure JtiStore where
  ping : M (Except JtiError Unit)
  storeJti (jti : String) (ttl : Nat) : M (Except JtiError Unit)
  checkJti (jti : String) : M (Except JtiError Bool)
  deleteJti (jti : String) : M (Except JtiError Unit)
  addToGroup (group jti : String) (expiresAt : Int) : M (Except JtiError Unit)
  revokeGroup (group : String) : M (Except JtiError Nat)
  storeRefresh (id : String) (record : RefreshRecord) (ttl : Nat) : M (Except JtiError Unit)
  getRefresh (id : String) : M (Except JtiError (Option RefreshRecord))
  markRefreshUsed (id : String) : M (Except JtiError Bool)
  claimTotpCode (hash : String) (ttl : Nat) : M (Except JtiError Bool)

/-- Distinguishes a connection failure from other command errors. -/
def classify : Redis.Err → JtiError
  | .timeout | .connectionDropped | .connectionRefused => .badConnection
  | .wrongType | .invalidExpire => .wrongOperation

/-- `Utc::now().timestamp()` of an instant. -/
def timestamp (now : Nat) : Nat := now / 1000

namespace RedisClient

/-- Runs a command; an error ends the operation (`?`). -/
def run (c : Cmd) : ExceptT JtiError M c.Reply := Prog.mapError classify (call (.redis c))

def ping : ExceptT JtiError M Unit := run .ping

def storeJti (jti : String) (ttl : Nat) : ExceptT JtiError M Unit := run (.setEx jti "1" ttl)

def checkJti (jti : String) : ExceptT JtiError M Bool := run (.exists jti)

def addToGroup (group jti : String) (expiresAt : Int) : ExceptT JtiError M Unit := do
  run (.zadd group jti expiresAt)
  run (.expireAt group expiresAt)

/-- Deletes the members of a group; `DEL` takes at least one key. -/
def deleteMembers (jtis : List String) : ExceptT JtiError M Unit :=
  if jtis = [] then pure () else run (.del jtis)

def revokeGroup (group : String) : ExceptT JtiError M Nat := do
  let now : Nat ← callE .utcNow
  run (.zremRangeByScore group (timestamp now))
  let jtis : List String ← run (.zrange group)
  deleteMembers jtis
  run (.del [group])
  pure jtis.length

def storeRefresh (t : JsonText) (id : String) (record : RefreshRecord) (ttl : Nat) :
    ExceptT JtiError M Unit := do
  match t.print (.arr (record.audience.map .str)) with
  | none => throw .wrongOperation
  | some audience =>
    run (.hset (refreshKey id)
      [("sub", record.subject), ("aud", audience), ("family", record.family)])
    run (.expire (refreshKey id) (asI64 ttl))

/-- The record in the fields of a hash; an incomplete one counts as absent. -/
def recordOfFields (t : JsonText) (fields : List (String × String)) : Option RefreshRecord := do
  let subject ← fields.lookup "sub"
  let audience ← fields.lookup "aud"
  let family ← fields.lookup "family"
  let audience ← (t.parse audience).bind Json.asStrs
  some { subject, audience, family }

def getRefresh (t : JsonText) (id : String) : ExceptT JtiError M (Option RefreshRecord) := do
  let fields : List (String × String) ← run (.hgetAll (refreshKey id))
  if fields = [] then pure none else pure (recordOfFields t fields)

def markRefreshUsed (id : String) : ExceptT JtiError M Bool := run (.hsetNx (refreshKey id) "used" "1")

def claimTotpCode (hash : String) (ttl : Nat) : ExceptT JtiError M Bool :=
  run (.setNxEx (totpCodeKey hash) "1" ttl)

def deleteJti (jti : String) : ExceptT JtiError M Unit := run (.del [jti])

end RedisClient

/-- The store on Redis. -/
def redisClient (t : JsonText) : JtiStore where
  ping := RedisClient.ping
  storeJti := RedisClient.storeJti
  checkJti := RedisClient.checkJti
  deleteJti := RedisClient.deleteJti
  addToGroup := RedisClient.addToGroup
  revokeGroup := RedisClient.revokeGroup
  storeRefresh := RedisClient.storeRefresh t
  getRefresh := RedisClient.getRefresh t
  markRefreshUsed := RedisClient.markRefreshUsed
  claimTotpCode := RedisClient.claimTotpCode

end JwtService
