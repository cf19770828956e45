/-
  File:      Veesker/Cloud/Api.lean
  Subject:   THE SERVICE: what is posted to it and what it answers (the interfaces of
             sidecar/src/sandbox-cloud).

  The service is a parameter, `Api`: what it answers in a run, and what an upload or a download
  comes to.
-/
import Veesker.Vsk.Crypto

namespace Veesker.Cloud

open Format Vsk

structure RecipientEntry where
  user_id : Text
  x25519_pubkey : Option Text
  deriving DecidableEq

structure CreateRequest (ν : Type) where
  name : Text
  description : Option Text
  ttl_days : ν
  member_user_ids : List Text
  spec_json : Json ν

structure CreateResponse where
  sandbox_id : Text
  upload_url : Text
  recipients : List RecipientEntry
  deriving DecidableEq

/-- An envelope as it is posted. -/
structure PostedEnvelope where
  user_id : Text
  sealed_content_key : Text
  envelope_nonce : Text
  deriving DecidableEq

structure FinalizeRequest where
  envelopes : List PostedEnvelope
  blob_size_bytes : Nat
  blob_sha256_hex : Text
  deriving DecidableEq

def PostedEnvelope.ofEnvelope (userId : Text) (envelope : Envelope) : PostedEnvelope where
  user_id := userId
  sealed_content_key := base64Text envelope.ciphertext
  envelope_nonce := base64Text envelope.nonce

/-- The envelope that was posted. -/
def PostedEnvelope.envelope (e : PostedEnvelope) : Envelope where
  ciphertext := base64Bytes e.sealed_content_key
  nonce := base64Bytes e.envelope_nonce

/-- A sandbox as the service knows it. -/
structure Sandbox (ν : Type) where
  id : Text
  owner_user_id : Text
  name : Text
  description : Option Text
  status : Text
  blob_sha256_hex : Text
  blob_size_bytes : Nat
  expires_at : Text
  ttl_days : ν
  spec_json : Json ν

/-- The answer of `GET /v1/sandboxes/:id`: the envelope in it is the caller's. -/
structure SandboxResponse (ν : Type) where
  sandbox : Sandbox ν
  download_url : Text
  sealed_content_key : Text
  envelope_nonce : Text

/-- What the service answers. -/
structure Api (ν : Type) where
  /-- `POST /v1/sandboxes`, with the idempotency key. -/
  create : CreateRequest ν → Option Text → Except Failure CreateResponse
  /-- The `x25519_pubkey` of `GET /v1/users/:id/pubkey`. -/
  pubkey : Text → Except Failure Text
  upload : Text → Bytes → Except Failure Unit
  /-- `POST /v1/sandboxes/:id/finalize`. -/
  finalize : Text → FinalizeRequest → Except Failure Unit
  sandbox : Text → Except Failure (SandboxResponse ν)
  download : Text → Except Failure Bytes
  /-- `POST /v1/sandboxes/:id/grants`. -/
  grants : Text → List PostedEnvelope → Except Failure Unit
  /-- The `upload_url` of `POST /v1/sandboxes/:id/republish`. -/
  republish : Text → Except Failure Text
  /-- `POST /v1/sandboxes/:id/republish/finalize`, with size and hash. -/
  republishFinalize : Text → Nat → Text → Except Failure Unit

end Veesker.Cloud
